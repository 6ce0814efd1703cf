import LoxLang.Proofs.Machine.Rounds
import LoxLang.Proofs.Machine.Steps
import LoxLang.Proofs.Syntax.WellFormed

/-!
# How statements end

The signals that a statement can end with are seen from its text (`Stmt.Ends`): a loop takes up the
jumps out of its body and passes on only a `return`. Execution gives no other signals, whatever the
machine (`ending`). In well-formed code no jump leaves a body (`BodyEnds.leaves`).
-/

namespace LoxLang

/-- A loop ends like this if its body can end as given. -/
def Signal.EndsLoop (body : Signal → Prop) (signal : Signal) : Prop :=
  signal = .completed ∨ (∃ value, signal = .returned value) ∧ body signal

/-- Nothing but a jump out of a loop. -/
def Signal.IsJump (signal : Signal) : Prop :=
  signal = .broke ∨ signal = .continued

/-- The end of a statement that no loop has to take up. -/
def Signal.Leaves (signal : Signal) : Prop :=
  signal = .completed ∨ ∃ value, signal = .returned value

theorem Signal.leaves_iff {signal : Signal} : signal.Leaves ↔ ¬signal.IsJump := by
  cases signal <;> simp [Leaves, IsJump]

theorem Signal.Leaves.not_isJump {signal : Signal} (h : signal.Leaves) : ¬signal.IsJump :=
  leaves_iff.mp h

mutual

/-- A statement can end with a signal. -/
def Stmt.Ends : Stmt → Signal → Prop
  | .block body, signal => BodyEnds body signal
  | .ifElse _ thenBranch elseBranch, signal =>
    thenBranch.Ends signal ∨ BranchEnds elseBranch signal
  | .while _ body, signal | .for _ _ _ body, signal => signal.EndsLoop body.Ends
  | .break _, signal => signal = .broke
  | .continue _, signal => signal = .continued
  | .return _ _, signal => ∃ value, signal = .returned value
  | .expression _, signal | .print _, signal | .println _, signal | .var _ _, signal
  | .const _ _, signal | .assert _ _ _, signal | .function _, signal | .class _, signal =>
    signal = .completed

def BranchEnds : Option Stmt → Signal → Prop
  | none, signal => signal = .completed
  | some s, signal => s.Ends signal

/-- Statements end where the first of them does not complete. -/
def BodyEnds : List Stmt → Signal → Prop
  | [], signal => signal = .completed
  | s :: ss, signal => s.Ends signal ∧ signal ≠ .completed ∨ s.Ends .completed ∧ BodyEnds ss signal

end

/-! ## What is given back -/

namespace Eval

section Inversion

variable {α : Type} {m after : Machine} {a : α}

theorem exists_of_discard {act : Eval α} (h : discard act m = .ok () after) :
    ∃ a, act m = .ok a after := by
  rw [Functor.discard, Functor.mapConst] at h
  obtain ⟨a, m₁, hact, hpure⟩ := exists_of_bind h
  cases hpure
  exact ⟨a, hact⟩

theorem ok_of_inspect {question : Store → α} (h : inspect question m = .ok a after) :
    question m.store = a ∧ m = after := by
  cases h
  exact ⟨rfl, rfl⟩

theorem ok_of_updateStore {update : Store → α × Store} (h : updateStore update m = .ok a after) :
    (update m.store).1 = a ∧ { m with store := (update m.store).2 } = after := by
  cases h
  exact ⟨rfl, rfl⟩

end Inversion

/-- Nothing is asked of steps but their results. -/
abbrev anyway : Conduct Halt Machine where
  good _ := True
  keeps _ _ := True
  stops _ := True
  refl := id
  trans _ := id
  stays _ := id

/-- Whatever a step gives back satisfies the condition. -/
abbrev Gives {α : Type} (act : Eval α) (P : α → Prop) : Prop := anyway.Always act P

namespace Gives

variable {α β : Type} {act : Eval α} {k : α → Eval β} {P : α → Prop} {Q : β → Prop}

theorem ok {m after : Machine} {a : α} (h : Gives act P) (hrun : act m = .ok a after) : P a :=
  ((h m).ok trivial hrun).2

/-- A step whose own result does not matter. -/
theorem behind (hk : ∀ a, Gives (k a) Q) : Gives (act >>= k) Q := by
  have hact : Gives act fun _ => True :=
    fun _ _ => .intro (fun _ _ => ⟨trivial, trivial⟩) fun _ _ => ⟨trivial, trivial⟩
  exact hact.andThen hk

theorem outOfFuel : Gives (Eval.outOfFuel : Eval α) P := fun _ _ => ⟨trivial, trivial⟩

theorem fail {cause : RunFault} {token : Token} : Gives (Eval.fail cause token : Eval α) P :=
  fun _ _ => ⟨trivial, trivial⟩

theorem within (h : Gives act P) (frame : FrameId) : Gives (Eval.within frame act) P :=
  fun m _ => .within (h { m with here := frame } trivial)

theorem counted (h : Gives act P) (place : Token) : Gives (Eval.counted place act) P :=
  fun m _ => .counted ⟨trivial, trivial⟩ fun _ => h { m with depth := m.depth + 1 } trivial

end Gives

end Eval

/-! ## Execution -/

/-- With a bound on the depth of the evaluation, statements end as they can. -/
structure Ending (lookup : Lookup) (fuel : Nat) : Prop where
  execute : ∀ s, Eval.Gives (Eval.execute fuel lookup s) s.Ends
  executeEach : ∀ ss, Eval.Gives (Eval.executeEach fuel lookup ss) (BodyEnds ss)
  whileLoop : ∀ condition body,
    Eval.Gives (Eval.whileLoop fuel lookup condition body) (Signal.EndsLoop body.Ends)
  forLoop : ∀ condition update body,
    Eval.Gives (Eval.forLoop fuel lookup condition update body) (Signal.EndsLoop body.Ends)

namespace Ending

open Eval.Gives

variable {lookup : Lookup} {fuel : Nat}

theorem zero : Ending lookup 0 where
  execute _ := by rw [Eval.execute]; exact .outOfFuel
  executeEach _ := by rw [Eval.executeEach]; exact .outOfFuel
  whileLoop _ _ := by rw [Eval.whileLoop]; exact .outOfFuel
  forLoop _ _ _ := by rw [Eval.forLoop]; exact .outOfFuel

theorem execute_succ (ih : Ending lookup fuel) (s : Stmt) :
    Eval.Gives (Eval.execute (fuel + 1) lookup s) s.Ends := by
  have hdone {act : Eval Unit} : Eval.Gives (do act; return Signal.completed) (· = .completed) :=
    behind fun _ => .pure rfl
  cases s with
  | expression value =>
    rw [Eval.execute]
    exact hdone
  | print value | println value =>
    rw [Eval.execute]
    exact behind fun _ => behind fun _ => hdone
  | var name initializer =>
    cases initializer with rw [Eval.execute]
    | none => exact hdone
    | some initializer => exact behind fun _ => hdone
  | const name initializer =>
    rw [Eval.execute]
    exact behind fun _ => hdone
  | block body =>
    rw [Eval.execute]
    exact behind fun frame => (ih.executeEach body).within frame
  | ifElse condition thenBranch elseBranch =>
    have hthen : Eval.Gives (Eval.execute fuel lookup thenBranch)
        (Stmt.ifElse condition thenBranch elseBranch).Ends :=
      (ih.execute thenBranch).imp fun _ => .inl
    cases elseBranch with rw [Eval.execute]
    | none => exact behind fun _ => .ite (fun _ => hthen) fun _ => .pure (.inr rfl)
    | some elseBranch =>
      exact behind fun _ => .ite (fun _ => hthen) fun _ =>
        (ih.execute elseBranch).imp fun _ => .inr
  | «while» condition body =>
    rw [Eval.execute]
    exact ih.whileLoop condition body
  | «for» initializer condition update body =>
    rw [Eval.execute]
    refine behind fun frame => Eval.Gives.within ?_ frame
    cases initializer with
    | none => exact ih.forLoop condition update body
    | some initializer => exact behind fun _ => ih.forLoop condition update body
  | «break» keyword | «continue» keyword =>
    rw [Eval.execute]
    exact .pure rfl
  | assert keyword condition message =>
    rw [Eval.execute]
    refine behind fun _ => .ite (fun _ => .pure rfl) fun _ => ?_
    cases message with
    | none => exact Eval.Gives.fail
    | some message => exact behind fun _ => behind fun _ => Eval.Gives.fail
  | function decl =>
    rw [Eval.execute]
    exact hdone
  | «return» keyword value =>
    cases value with rw [Eval.execute]
    | none => exact .pure ⟨_, rfl⟩
    | some value => exact behind fun value => .pure ⟨value, rfl⟩
  | «class» decl =>
    rw [Eval.execute]
    cases decl.base with
    | none => exact behind fun _ => hdone
    | some base => exact behind fun _ => behind fun _ => hdone

theorem executeEach_succ (ih : Ending lookup fuel) (ss : List Stmt) :
    Eval.Gives (Eval.executeEach (fuel + 1) lookup ss) (BodyEnds ss) := by
  cases ss with rw [Eval.executeEach]
  | nil => exact .pure rfl
  | cons s ss =>
    refine (ih.execute s).bind ?_
    intro signal hsignal
    cases signal with
    | completed => exact (ih.executeEach ss).imp fun _ hrest => .inr ⟨hsignal, hrest⟩
    | broke | continued | returned => exact .pure (.inl ⟨hsignal, by simp⟩)

/-- What a loop makes of the end of its body: it goes on, or it ends as a loop can. -/
theorem whileLoop_succ (ih : Ending lookup fuel) (condition : Expr) (body : Stmt) :
    Eval.Gives (Eval.whileLoop (fuel + 1) lookup condition body) (Signal.EndsLoop body.Ends) := by
  rw [Eval.whileLoop]
  refine behind fun _ => .ite (fun _ => (ih.execute body).bind ?_) fun _ => .pure (.inl rfl)
  intro signal hsignal
  cases signal with
  | broke => exact .pure (.inl rfl)
  | returned value => exact .pure (.inr ⟨⟨value, rfl⟩, hsignal⟩)
  | completed | continued => exact ih.whileLoop condition body

theorem forLoop_succ (ih : Ending lookup fuel) (condition update : Option Expr) (body : Stmt) :
    Eval.Gives (Eval.forLoop (fuel + 1) lookup condition update body)
      (Signal.EndsLoop body.Ends) := by
  rw [Eval.forLoop_eq]
  refine behind fun _ => .ite (fun _ => (ih.execute body).bind ?_) fun _ => .pure (.inl rfl)
  intro signal hsignal
  cases signal with
  | broke => exact .pure (.inl rfl)
  | returned value => exact .pure (.inr ⟨⟨value, rfl⟩, hsignal⟩)
  | completed | continued => exact behind fun _ => ih.forLoop condition update body

end Ending

theorem ending (lookup : Lookup) (fuel : Nat) : Ending lookup fuel := by
  induction fuel with
  | zero => exact .zero
  | succ fuel ih =>
    exact
      { execute := ih.execute_succ
        executeEach := ih.executeEach_succ
        whileLoop := ih.whileLoop_succ
        forLoop := ih.forLoop_succ }

/-! ## Loops and bodies -/

theorem Signal.EndsLoop.leaves {body : Signal → Prop} {signal : Signal} (h : signal.EndsLoop body) :
    signal.Leaves := h.imp_right And.left

mutual

/-- A jump is seen outside of a statement only inside a loop. -/
theorem Stmt.Ends.inLoop : ∀ {s : Stmt} {inLoop : Bool} {signal : Signal}, s.WellFormed inLoop →
    s.Ends signal → signal.IsJump → inLoop = true
  | .block _, _, _, hformed, hends, hjump => BodyEnds.inLoop hformed hends hjump
  | .ifElse .., _, _, ⟨_, hthen, helse⟩, hends, hjump =>
    hends.elim (fun h => h.inLoop hthen hjump) fun h => BranchEnds.inLoop helse h hjump
  | .while .., _, _, _, hends, hjump | .for .., _, _, _, hends, hjump =>
    absurd hjump (Signal.EndsLoop.leaves hends).not_isJump
  | .break _, _, _, hformed, _, _ | .continue _, _, _, hformed, _, _ => hformed
  | .return .., _, _, _, hends, hjump => absurd hjump (Signal.Leaves.not_isJump (.inr hends))
  | .expression _, _, _, _, hends, hjump | .print _, _, _, _, hends, hjump
  | .println _, _, _, _, hends, hjump | .var .., _, _, _, hends, hjump
  | .const .., _, _, _, hends, hjump | .assert .., _, _, _, hends, hjump
  | .function _, _, _, _, hends, hjump | .class _, _, _, _, hends, hjump =>
    absurd hjump (Signal.Leaves.not_isJump (.inl hends))

theorem BranchEnds.inLoop : ∀ {s : Option Stmt} {inLoop : Bool} {signal : Signal},
    WellFormedBranch s inLoop → BranchEnds s signal → signal.IsJump → inLoop = true
  | none, _, _, _, hends, hjump => absurd hjump (Signal.Leaves.not_isJump (.inl hends))
  | some _, _, _, hformed, hends, hjump => Stmt.Ends.inLoop hformed hends hjump

theorem BodyEnds.inLoop : ∀ {ss : List Stmt} {inLoop : Bool} {signal : Signal},
    WellFormedBody ss inLoop → BodyEnds ss signal → signal.IsJump → inLoop = true
  | [], _, _, _, hends, hjump => absurd hjump (Signal.Leaves.not_isJump (.inl hends))
  | _ :: _, _, _, ⟨hfirst, hrest⟩, hends, hjump =>
    hends.elim (fun h => h.1.inLoop hfirst hjump) fun h => BodyEnds.inLoop hrest h.2 hjump

end

/-- No jump leaves the body of a function. -/
theorem BodyEnds.leaves {body : List Stmt} {signal : Signal} (hformed : WellFormedBody body false)
    (h : BodyEnds body signal) : signal.Leaves :=
  Signal.leaves_iff.mpr fun hjump => Bool.false_ne_true (h.inLoop hformed hjump)

end LoxLang
