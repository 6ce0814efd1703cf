import LoxLang.Proofs.Binding.Analysed
import LoxLang.Proofs.Machine.Ending

/-!
# Returns outside of functions

The analysis finds a fault in a `return` that no function is around. So what it accepts there does
not end with one (`Stmt.not_returned`, `forall_not_returned`).
-/

namespace LoxLang

open Analysis

variable {settings : Settings} {value : Value}

/-- There is a fault behind a `return` without a function. -/
theorem failed_checkReturn {a : Analysis} (keyword : Token)
    (hrole : a.around.functionRole = .none) : (a.checkReturn keyword).failed = true := by
  rw [checkReturn, if_pos hrole]
  rfl

mutual

theorem Stmt.not_returned : ∀ {s : Stmt} {a : Analysis}, s.Regular →
    (s.analyse settings a).failed = false → a.around.functionRole = .none →
    ¬s.Ends (.returned value)
  | .block body, a, h, haccepted, hrole => by
    have hbody : (analyseBody settings body (a.openScope (.block body))).failed = false :=
      Analysed.closeScope.sound haccepted
    exact not_bodyEnds_returned h hbody hrole
  | .ifElse condition thenBranch elseBranch, a, ⟨hc, ht, he, _⟩, haccepted, hrole => by
    have hcondition := condition.analysed settings a hc
    have hthen := thenBranch.analysed settings (condition.analyse settings a) ht
    have hroleThen := (congrArg Surroundings.functionRole hcondition.around).trans hrole
    have hroleElse := (congrArg Surroundings.functionRole hthen.around).trans hroleThen
    have haccepted' := (analysedBranch settings elseBranch _ he).sound haccepted
    rintro (hends | hends)
    · exact Stmt.not_returned ht haccepted' hroleThen hends
    · exact not_branchEnds_returned he haccepted hroleElse hends
  | .while condition body, a, ⟨hc, hb, _⟩, haccepted, hrole => by
    have hcondition := condition.analysed settings a hc
    have hbody : (body.analyse settings (condition.analyse settings a).enterLoop).failed = false :=
      haccepted
    rintro (hends | ⟨-, hends⟩)
    · cases hends
    · exact Stmt.not_returned hb hbody
        ((congrArg Surroundings.functionRole hcondition.around).trans hrole) hends
  | .for initializer condition update body, a, ⟨hi, hc, hu, hb, _⟩, haccepted, hrole => by
    let opened := a.openScope (.clauses initializer condition update body)
    let header := analyseOptional settings update (analyseOptional settings condition
      (analyseBranch settings initializer opened))
    have hheader : Analysed _ opened header _ _ := ((analysedBranch settings initializer _ hi).trans
      (analysedOptional settings condition _ hc)).trans (analysedOptional settings update _ hu)
    have hbody : (body.analyse settings header.enterLoop).leaveLoop.failed = false :=
      Analysed.closeScope.sound haccepted
    rintro (hends | ⟨-, hends⟩)
    · cases hends
    · exact Stmt.not_returned hb hbody
        ((congrArg Surroundings.functionRole hheader.around).trans hrole) hends
  | .return keyword value, a, h, haccepted, hrole => by
    have hfailed := failed_checkReturn keyword hrole
    cases value with
    | none => exact absurd (haccepted.symm.trans hfailed) Bool.false_ne_true
    | some value =>
      have hchecked := Analysed.checked.sound ((value.analysed settings _ h).sound haccepted)
      exact absurd (hchecked.symm.trans hfailed) Bool.false_ne_true
  | .break _, _, _, _, _ | .continue _, _, _, _, _ => by
    intro hends
    cases hends
  | .expression _, _, _, _, _ | .print _, _, _, _, _ | .println _, _, _, _, _
  | .var .., _, _, _, _ | .const .., _, _, _, _ | .assert .., _, _, _, _
  | .function _, _, _, _, _ | .class _, _, _, _, _ => by
    intro hends
    cases hends

theorem not_branchEnds_returned : ∀ {s : Option Stmt} {a : Analysis}, RegularBranch s →
    (analyseBranch settings s a).failed = false → a.around.functionRole = .none →
    ¬BranchEnds s (.returned value)
  | none, _, _, _, _ => by
    intro hends
    cases hends
  | some _, _, h, haccepted, hrole => Stmt.not_returned h haccepted hrole

theorem not_bodyEnds_returned : ∀ {ss : List Stmt} {a : Analysis}, RegularBody ss →
    (analyseBody settings ss a).failed = false → a.around.functionRole = .none →
    ¬BodyEnds ss (.returned value)
  | [], _, _, _, _ => by
    intro hends
    cases hends
  | s :: ss, a, ⟨hs, hss, _⟩, haccepted, hrole => by
    have haround := congrArg Surroundings.functionRole (s.analysed settings a hs).around
    rintro (⟨hends, -⟩ | ⟨-, hends⟩)
    · exact Stmt.not_returned hs ((analysedBody settings ss _ hss).sound haccepted) hrole hends
    · exact not_bodyEnds_returned hss haccepted (haround.trans hrole) hends

end

/-- No statement of a program that is accepted outside of functions ends with a `return`. -/
theorem forall_not_returned {ss : List Stmt} {a : Analysis} (h : RegularBody ss)
    (haccepted : (analyseBody settings ss a).failed = false)
    (hrole : a.around.functionRole = .none) : ∀ s ∈ ss, ¬s.Ends (.returned value) := by
  induction ss generalizing a with
  | nil => exact fun _ hs => absurd hs List.not_mem_nil
  | cons s ss ih =>
    obtain ⟨hs, hss, -⟩ := h
    have haround := congrArg Surroundings.functionRole (s.analysed settings a hs).around
    exact List.forall_mem_cons.mpr
      ⟨Stmt.not_returned hs ((analysedBody settings ss _ hss).sound haccepted) hrole,
        ih hss haccepted (haround.trans hrole)⟩

end LoxLang
