import LoxLang.Proofs.Grammar.Attempt
import LoxLang.Proofs.Grammar.Steps
import LoxLang.Proofs.Syntax.WellFormed

/-!
# The form of parsed trees

Some faults are noted and the parse goes on, so what a rule reads is well formed only where no fault
has been noted behind it; a noted fault stays noted (`Yields`). There is one lemma for each rule,
`rulesForm` puts them together, and `program_wellFormed` is about whole programs, also those with
lines that are read twice at an interactive prompt.
-/

namespace LoxLang

namespace ParseState

@[simp] theorem failed_advance (s : ParseState) : s.advance.failed = s.failed := by
  unfold advance
  split <;> rfl

@[simp] theorem failed_synchronize (s : ParseState) : s.synchronize.failed = s.failed :=
  s.failed_advance

end ParseState

namespace Parse

variable {α β : Type} {p q : Prop} {act : Parse α} {k : α → Parse β} {P P' : α → Prop}
  {Q : β → Prop}

/-! ## Steps and their results -/

/-- A fault that has been noted stays noted. -/
abbrev keepingFaults : Conduct ParseStop ParseState where
  good _ := True
  keeps s t := s.failed = true → t.failed = true
  stops _ := True
  refl _ := id
  trans h h' := h' ∘ h
  stays _ := id

/-- What a step gives under an assumption, if no fault has been noted behind it. A fault that has
been noted stays noted, also where the step fails. -/
def Yields (p : Prop) (act : Parse α) (P : α → Prop) : Prop :=
  ∀ s, keepingFaults.From act s fun a after => after.failed = false → p → P a

/-- A step that takes back no fault. -/
abbrev KeepsFaults (act : Parse α) : Prop := Yields True act fun _ => True

namespace Yields

theorem pure {a : α} (h : p → P a) : Yields p (pure a) P := fun _ => .pure fun _ => h

/-- Where no fault has been noted behind two steps, none has been noted between them. -/
theorem bind (h : Yields p act P) (hk : ∀ a, Yields (p ∧ P a) (k a) Q) :
    Yields p (act >>= k) Q := fun s => by
  refine (h s).bind fun a mid _ _ hgives => (hk a mid).imp ?_
  intro b after hkeeps hgives' hafter hp
  refine hgives' hafter ⟨hp, hgives (Bool.eq_false_iff.mpr fun hmid => ?_) hp⟩
  cases (hkeeps hmid).symm.trans hafter

theorem imp (h : Yields q act P) (hpq : p → q) (himp : ∀ a, p → P a → P' a) : Yields p act P' :=
  fun s => (h s).imp fun a _ _ hgives hafter hp => himp a hp (hgives hafter (hpq hp))

theorem assuming (h : Yields q act P) (hpq : p → q) : Yields p act P := h.imp hpq fun _ _ => id

theorem keeps (h : Yields p act P) : KeepsFaults act :=
  fun s => (h s).imp fun _ _ _ _ _ _ => trivial

/-- A step whose result does not matter, and then another. -/
theorem andThen (h : KeepsFaults act) (hk : ∀ a, Yields p (k a) Q) : Yields p (act >>= k) Q :=
  (h.assuming (p := p) fun _ => trivial).bind fun a => (hk a).assuming And.left

theorem ite {c : Prop} [Decidable c] {other : Parse α} (h : c → Yields p act P)
    (h' : ¬c → Yields p other P) : Yields p (if c then act else other) P :=
  fun s => .ite (fun hc => h hc s) fun hc => h' hc s

theorem discard (h : KeepsFaults act) : KeepsFaults (discard act) :=
  fun s => (h s).discard.imp fun _ _ _ _ _ => id

theorem readUnless {absent : Parse Bool} {P' : Option α → Prop} (habsent : KeepsFaults absent)
    (h : Yields p act P) (hnone : p → P' none) (hsome : ∀ a, P a → P' (some a)) :
    Yields p (readUnless absent act) P' := fun s =>
  .readUnless (habsent s) (fun t _ _ => h.imp id (fun a _ => hsome a) t) fun _ _ _ _ => hnone

theorem readIf {present : Parse Bool} {P' : Option α → Prop} (hpresent : KeepsFaults present)
    (h : Yields p act P) (hnone : p → P' none) (hsome : ∀ a, P a → P' (some a)) :
    Yields p (readIf present act) P' := fun s =>
  .readIf (hpresent s) (fun t _ _ => h.imp id (fun a _ => hsome a) t) fun _ _ _ _ => hnone

/-! ## Steps on tokens -/

theorem outOfFuel : Yields p (outOfFuel : Parse α) P := fun _ _ => ⟨id, trivial⟩

theorem failAt {fault : GrammarFault} {token : Token} : Yields p (failAt fault token : Parse α) P :=
  fun _ _ => ⟨id, trivial⟩

theorem failHere {fault : GrammarFault} : Yields p (failHere fault : Parse α) P :=
  fun _ _ => ⟨id, trivial⟩

/-- Behind a fault that is noted anything may be promised. -/
theorem noteAt {fault : GrammarFault} {token : Token} {P : Unit → Prop} :
    Yields p (noteAt fault token) P := fun _ _ => ⟨fun _ => rfl, nofun⟩

theorem get : KeepsFaults (get : Parse ParseState) := fun _ _ => ⟨id, fun _ => id⟩

theorem advance : KeepsFaults (modify ParseState.advance) :=
  fun s _ => ⟨s.failed_advance.trans, fun _ => id⟩

theorem freshId : KeepsFaults freshId := fun _ _ => ⟨id, fun _ => id⟩

theorem nextIs {wanted : TokenKind → Bool} : KeepsFaults (nextIs wanted) :=
  andThen get fun _ => .pure id

theorem nextKind? : KeepsFaults nextKind? := andThen get fun _ => .pure id

theorem atEnd : KeepsFaults atEnd := andThen get fun _ => .pure id

theorem accept? {wanted : TokenKind → Bool} :
    Yields True (accept? wanted) fun found => ∀ t ∈ found, wanted t.kind :=
  fun s => .accept? (fun _ _ _ h => nomatch h) fun _ _ hwanted _ =>
    ⟨s.failed_advance.trans, fun _ _ _ h => Option.some.inj h ▸ hwanted⟩

theorem accept {wanted : TokenKind → Bool} : KeepsFaults (accept wanted) :=
  andThen (accept?.keeps) fun _ => .pure id

theorem acceptSymbol {symbol : Symbol} : KeepsFaults (acceptSymbol symbol) := accept

theorem expect {wanted : TokenKind → Bool} {what : String} : KeepsFaults (expect wanted what) :=
  andThen (accept?.keeps) fun
    | some _ => .pure id
    | none => failHere

theorem expectSymbol {symbol : Symbol} {what : String} : KeepsFaults (expectSymbol symbol what) :=
  expect.discard

theorem expectName {what : String} : KeepsFaults (expectName what) := expect

theorem limit {count : Nat} {what : String} :
    Yields True (limit count what) fun _ => count ≠ maxArguments :=
  .ite (fun _ => andThen get fun _ => noteAt) fun hcount => .pure fun _ => hcount

theorem arrowHead : KeepsFaults arrowHead :=
  andThen get fun s => by
    cases arrowHead? s.rest with
    | none => exact .pure id
    | some head =>
      exact fun _ _ => ⟨id, fun _ => id⟩

end Yields

/-! ## Forms without parts of their own -/

theorem someParameters_yields (fuel count : Nat) :
    Yields (count ≤ maxArguments) (someParameters fuel count) fun params =>
      count + params.length ≤ maxArguments := by
  induction fuel generalizing count with
  | zero => exact .outOfFuel
  | succ fuel ih =>
    refine (Yields.limit.assuming fun _ => trivial).bind fun _ =>
      Yields.expectName.andThen fun name => Yields.acceptSymbol.andThen fun more =>
        .ite (fun _ => ?_) fun _ => .pure fun ⟨hle, hne⟩ => Nat.lt_of_le_of_ne hle hne
    have hmore := (ih (count + 1)).assuming fun (h : count ≤ maxArguments ∧ count ≠ maxArguments) =>
      Nat.lt_of_le_of_ne h.1 h.2
    refine hmore.bind fun params => .pure fun ⟨_, hlength⟩ => ?_
    rw [List.length_cons]
    omega

theorem parameters_yields (fuel : Nat) :
    Yields True (parameters fuel) fun params => params.length ≤ maxArguments :=
  Yields.nextIs.andThen fun _ => .ite (fun _ => .pure fun _ => Nat.zero_le _) fun _ =>
    (someParameters_yields fuel 0).imp (fun _ => Nat.zero_le _) fun _ _ hlength => by omega

theorem leaf?_yields {token : Token} {leaf : Parse Expr} (h : leaf? token = some leaf) :
    Yields True leaf Expr.WellFormed := by
  unfold leaf? at h
  split at h <;> cases h
  all_goals first
    | exact .pure id
    | exact Yields.freshId.andThen fun _ => .pure id
    | exact Yields.expectSymbol.andThen fun _ => Yields.expectName.andThen fun _ =>
        Yields.freshId.andThen fun _ => .pure id

theorem wellFormed_assignedValue {equals : Token} {old value : Expr} (hold : old.WellFormed)
    (hvalue : value.WellFormed) : (assignedValue equals old value).WellFormed := by
  unfold assignedValue
  split
  · next operator heq => exact ⟨TokenKind.appliesToTwo_of_appliedOperator? heq, hold, hvalue⟩
  · exact hvalue

theorem assignTo_yields {target value : Expr} {equals : Token} :
    Yields (target.WellFormed ∧ value.WellFormed) (assignTo target equals value)
      Expr.WellFormed := by
  unfold assignTo
  split
  · next name =>
    refine Yields.freshId.andThen fun old => Yields.freshId.andThen fun new => .pure fun h => ?_
    have hold : (Expr.variable old name).WellFormed := trivial
    exact wellFormed_assignedValue hold h.2
  · next object name =>
    refine .pure fun h => ?_
    have hold : (Expr.get object name).WellFormed := h.1
    exact ⟨h.1, wellFormed_assignedValue hold h.2⟩
  · exact (Yields.noteAt (P := fun _ => False)).bind fun _ => .pure fun ⟨_, h⟩ => h.elim

/-- A jump is read only inside a loop. -/
theorem jump_yields {node : Token → Stmt} {inLoop : Bool} {keyword : Token}
    (h : (node keyword).WellFormed true) :
    Yields True (jump node inLoop keyword) (·.WellFormed inLoop) := by
  unfold jump
  refine .ite (fun hloop => ?_) fun _ => .failAt
  exact Yields.expectSymbol.andThen fun _ => .pure fun _ => hloop ▸ h

/-! ## The rules -/

/-- Members of every kind are well formed, and getters have no parameters. -/
structure Members.WellFormed (ms : Members) : Prop where
  methods : WellFormedFunctions ms.methods
  statics : WellFormedFunctions ms.statics
  getters : WellFormedFunctions ms.getters
  bare : ∀ d ∈ ms.getters, d.params = []

/-- What the rules read with a bound on their depth. -/
structure RulesForm (fuel : Nat) : Prop where
  exprAt : ∀ level, Yields True (exprAt fuel level) Expr.WellFormed
  operands : ∀ level left, Yields left.WellFormed (operands fuel level left) Expr.WellFormed
  postfixes : ∀ callee, Yields callee.WellFormed (postfixes fuel callee) Expr.WellFormed
  someArguments : ∀ count, Yields (count ≤ maxArguments) (someArguments fuel count) fun es =>
    count + es.length ≤ maxArguments ∧ WellFormedEach es
  primary : Yields True (primary fuel) Expr.WellFormed
  parenthesised : Yields True (parenthesised fuel) Expr.WellFormed
  arrowBody : ∀ arrow, Yields True (arrowBody fuel arrow) (WellFormedBody · false)
  statement : ∀ inLoop, Yields True (statement fuel inLoop) (·.WellFormed inLoop)
  expressionStatement : ∀ inLoop, Yields True (expressionStatement fuel) (·.WellFormed inLoop)
  forStatement : ∀ inLoop, Yields True (forStatement fuel) (·.WellFormed inLoop)
  blockBody : ∀ inLoop, Yields True (blockBody fuel inLoop) (WellFormedBody · inLoop)
  declaration : ∀ inLoop, Yields True (declaration fuel inLoop) (·.WellFormed inLoop)
  varDeclaration : ∀ inLoop, Yields True (varDeclaration fuel) (·.WellFormed inLoop)
  function : ∀ role, Yields True (function fuel role) FunctionDecl.WellFormed
  classDeclaration : ∀ inLoop, Yields True (classDeclaration fuel) (·.WellFormed inLoop)
  members : Yields True (members fuel) Members.WellFormed

namespace RulesForm

theorem zero : RulesForm 0 where
  exprAt _ := .outOfFuel
  operands _ _ := .outOfFuel
  postfixes _ := .outOfFuel
  someArguments _ := .outOfFuel
  primary := .outOfFuel
  parenthesised := .outOfFuel
  arrowBody _ := .outOfFuel
  statement _ := .outOfFuel
  expressionStatement _ := .outOfFuel
  forStatement _ := .outOfFuel
  blockBody _ := .outOfFuel
  declaration _ := .outOfFuel
  varDeclaration _ := .outOfFuel
  function _ := .outOfFuel
  classDeclaration _ := .outOfFuel
  members := .outOfFuel

variable {fuel : Nat}

theorem exprAt_succ (h : RulesForm fuel) (level : Level) :
    Yields True (Parse.exprAt (fuel + 1) level) Expr.WellFormed := by
  have hlevel (level : Level) : Yields True (do
      let left ← Parse.exprAt fuel level.tighter
      Parse.operands fuel level left) Expr.WellFormed :=
    (h.exprAt level.tighter).bind fun left => (h.operands level left).assuming And.right
  rw [Parse.exprAt.eq_def]
  cases level
  case assignment =>
    refine (h.exprAt .ternary).bind fun target => (Yields.accept?.keeps).andThen fun found => ?_
    cases found with
    | none => exact .pure And.right
    | some equals =>
      exact ((h.exprAt .assignment).assuming fun _ => trivial).bind fun value =>
        assignTo_yields.assuming fun ⟨⟨_, htarget⟩, hvalue⟩ => ⟨htarget, hvalue⟩
  case ternary =>
    refine (h.exprAt .or).bind fun condition => (Yields.accept?.keeps).andThen fun found => ?_
    cases found with
    | none => exact .pure And.right
    | some question =>
      exact ((h.exprAt .comma).assuming fun _ => trivial).bind fun thenBranch =>
        Yields.expectSymbol.andThen fun _ =>
          ((h.exprAt .ternary).assuming fun _ => trivial).bind fun elseBranch =>
            .pure fun ⟨⟨⟨_, hc⟩, ht⟩, he⟩ => ⟨hc, ht, he⟩
  case unary =>
    refine Yields.accept?.bind ?_
    intro found
    cases found with
    | none => exact (h.exprAt .call).assuming fun _ => trivial
    | some operator =>
      exact ((h.exprAt .unary).assuming fun _ => trivial).bind fun right =>
        .pure fun ⟨⟨_, hwanted⟩, hright⟩ =>
          ⟨TokenKind.appliesToOne_of_isUnaryOperator (hwanted operator rfl), hright⟩
  case call =>
    exact (h.exprAt .primary).bind fun callee => (h.postfixes callee).assuming And.right
  case primary => exact h.primary
  all_goals exact hlevel _

theorem operands_succ (h : RulesForm fuel) (level : Level) (left : Expr) :
    Yields left.WellFormed (Parse.operands (fuel + 1) level left) Expr.WellFormed := by
  rw [Parse.operands]
  refine (Yields.accept?.assuming fun _ => trivial).bind ?_
  intro found
  cases found with
  | none => exact .pure And.left
  | some operator =>
    exact ((h.exprAt level.tighter).assuming fun _ => trivial).bind fun right =>
      (h.operands level _).assuming fun ⟨⟨hleft, hwanted⟩, hright⟩ =>
        Level.wellFormed_join hleft hright (hwanted operator rfl)

theorem postfixes_succ (h : RulesForm fuel) (callee : Expr) :
    Yields callee.WellFormed (Parse.postfixes (fuel + 1) callee) Expr.WellFormed := by
  rw [Parse.postfixes]
  refine (Yields.accept?.keeps).andThen ?_
  intro found
  cases found with
  | none => exact .pure id
  | some t =>
    refine .ite (fun _ => ?_) fun _ => ?_
    · have hcall (es : List Expr) :
          Yields (callee.WellFormed ∧ es.length ≤ maxArguments ∧ WellFormedEach es) (do
            let paren ← expect (·.isSymbol .rightParen) "')' after arguments"
            Parse.postfixes fuel (.call callee paren es)) Expr.WellFormed :=
        Yields.expect.andThen fun paren => h.postfixes (.call callee paren es)
      refine Yields.nextIs.andThen fun closed => .ite (fun _ => ?_) fun _ => ?_
      · exact (hcall []).assuming fun hcallee => ⟨hcallee, Nat.zero_le _, trivial⟩
      · exact ((h.someArguments 0).assuming fun _ => Nat.zero_le _).bind fun es =>
          (hcall es).assuming fun ⟨hcallee, hlength, hes⟩ => ⟨hcallee, by omega, hes⟩
    · exact Yields.expectName.andThen fun name => h.postfixes (.get callee name)

theorem someArguments_succ (h : RulesForm fuel) (count : Nat) :
    Yields (count ≤ maxArguments) (Parse.someArguments (fuel + 1) count) fun es =>
      count + es.length ≤ maxArguments ∧ WellFormedEach es := by
  rw [Parse.someArguments]
  refine (Yields.limit.assuming fun _ => trivial).bind fun _ =>
    ((h.exprAt .assignment).assuming fun _ => trivial).bind fun argument =>
      Yields.acceptSymbol.andThen fun more => .ite (fun _ => ?_) fun _ => ?_
  · have hmore := (h.someArguments (count + 1)).assuming
      fun (hp : (count ≤ maxArguments ∧ count ≠ maxArguments) ∧ argument.WellFormed) =>
        Nat.lt_of_le_of_ne hp.1.1 hp.1.2
    refine hmore.bind fun others => .pure fun ⟨⟨_, hargument⟩, hlength, hothers⟩ =>
      ⟨?_, hargument, hothers⟩
    rw [List.length_cons]
    omega
  · exact .pure fun ⟨⟨hle, hne⟩, hargument⟩ =>
      ⟨Nat.lt_of_le_of_ne hle hne, hargument, trivial⟩

theorem primary_succ (h : RulesForm fuel) :
    Yields True (Parse.primary (fuel + 1)) Expr.WellFormed := by
  rw [Parse.primary]
  refine Yields.get.andThen ?_
  intro s
  cases s.next? with
  | none => exact .failHere
  | some t =>
    dsimp only
    cases hleaf : leaf? t with
    | some leaf => exact Yields.advance.andThen fun _ => leaf?_yields hleaf
    | none =>
      refine .ite (fun _ => Yields.advance.andThen fun _ => h.parenthesised) ?_
      intro _
      cases Level.ofStrayOperator? t.kind with
      | none => exact .failHere
      | some level =>
        exact Yields.advance.andThen fun _ => ((h.exprAt level).keeps).discard.andThen fun _ =>
          .failAt

theorem parenthesised_succ (h : RulesForm fuel) :
    Yields True (Parse.parenthesised (fuel + 1)) Expr.WellFormed := by
  rw [Parse.parenthesised]
  refine Yields.arrowHead.andThen ?_
  intro head
  cases head with
  | none =>
    exact (h.exprAt .comma).bind fun inner => Yields.expectSymbol.andThen fun _ => .pure And.right
  | some head =>
    have hbody : Yields (head.1.length ≤ maxArguments) (do
        return Expr.arrow ⟨head.2, head.1, ← Parse.arrowBody fuel head.2⟩) Expr.WellFormed :=
      ((h.arrowBody head.2).assuming fun _ => trivial).bind fun body => .pure id
    refine .ite (fun _ => ?_) fun hlength => hbody.assuming fun _ => Nat.le_of_not_lt hlength
    exact Yields.noteAt.bind fun _ => hbody.assuming And.right

theorem arrowBody_succ (h : RulesForm fuel) (arrow : Token) :
    Yields True (Parse.arrowBody (fuel + 1) arrow) (WellFormedBody · false) := by
  rw [Parse.arrowBody]
  refine Yields.acceptSymbol.andThen fun _ => .ite (fun _ => h.blockBody false) fun _ => ?_
  exact (h.exprAt .assignment).bind fun value => .pure fun ⟨_, hvalue⟩ => ⟨hvalue, trivial⟩

theorem expressionStatement_succ (h : RulesForm fuel) (inLoop : Bool) :
    Yields True (Parse.expressionStatement (fuel + 1)) (·.WellFormed inLoop) := by
  rw [Parse.expressionStatement]
  exact (h.exprAt .comma).bind fun value => Yields.expectSymbol.andThen fun _ => .pure And.right

/-- An expression that is left out where a step says so. -/
theorem leftOut (h : RulesForm fuel) {absent : Parse Bool} (habsent : KeepsFaults absent)
    (level : Level) :
    Yields True (readUnless absent (Parse.exprAt fuel level)) WellFormedOptional :=
  .readUnless habsent (h.exprAt level) (fun _ => trivial) fun _ he => he

theorem announced (h : RulesForm fuel) {present : Parse Bool} (hpresent : KeepsFaults present)
    (level : Level) :
    Yields True (readIf present (Parse.exprAt fuel level)) WellFormedOptional :=
  .readIf hpresent (h.exprAt level) (fun _ => trivial) fun _ he => he

theorem statement_succ (h : RulesForm fuel) (inLoop : Bool) :
    Yields True (Parse.statement (fuel + 1) inLoop) (·.WellFormed inLoop) := by
  have hprint (node : Expr → Stmt) (hnode : ∀ e, e.WellFormed → (node e).WellFormed inLoop) :
      Yields True (do
        let value ← Parse.exprAt fuel .comma
        expectSymbol .semicolon "';' after value"
        return node value) (·.WellFormed inLoop) :=
    (h.exprAt .comma).bind fun value => Yields.expectSymbol.andThen fun _ =>
      .pure fun ⟨_, hvalue⟩ => hnode value hvalue
  rw [Parse.statement]
  refine Yields.get.andThen ?_
  intro s
  cases s.next? with
  | none => exact h.expressionStatement inLoop
  | some t =>
    dsimp only
    split
    · exact Yields.advance.andThen fun _ => h.forStatement inLoop
    · refine Yields.advance.andThen fun _ => (h.exprAt .comma).bind fun condition =>
        ((h.statement inLoop).assuming fun _ => trivial).bind fun thenBranch =>
          Yields.accept.andThen fun more => .ite (fun _ => ?_) fun _ => ?_
      · exact ((h.statement inLoop).assuming fun _ => trivial).bind fun elseBranch =>
          .pure fun ⟨⟨⟨_, hc⟩, ht⟩, he⟩ => ⟨hc, ht, he⟩
      · exact .pure fun ⟨⟨_, hc⟩, ht⟩ => ⟨hc, ht, trivial⟩
    · exact Yields.advance.andThen fun _ => (h.exprAt .comma).bind fun condition =>
        ((h.statement true).assuming fun _ => trivial).bind fun body =>
          .pure fun ⟨⟨_, hc⟩, hb⟩ => ⟨hc, hb⟩
    · exact Yields.advance.andThen fun _ => (h.leftOut .nextIs .comma).bind fun value =>
        Yields.expectSymbol.andThen fun _ => .pure And.right
    · exact Yields.advance.andThen fun _ => jump_yields rfl
    · exact Yields.advance.andThen fun _ => jump_yields rfl
    · exact Yields.advance.andThen fun _ => (h.exprAt .assignment).bind fun condition =>
        ((h.announced .acceptSymbol .comma).assuming fun _ => trivial).bind fun message =>
          Yields.expectSymbol.andThen fun _ => .pure fun ⟨⟨_, hc⟩, hm⟩ => ⟨hc, hm⟩
    · exact Yields.advance.andThen fun _ => (h.blockBody inLoop).bind fun body => .pure And.right
    · exact Yields.advance.andThen fun _ => hprint .print fun _ => id
    · exact Yields.advance.andThen fun _ => hprint .println fun _ => id
    · exact h.expressionStatement inLoop

theorem forStatement_succ (h : RulesForm fuel) (inLoop : Bool) :
    Yields True (Parse.forStatement (fuel + 1)) (·.WellFormed inLoop) := by
  rw [Parse.forStatement]
  have hinitializer : Yields True (readUnless (acceptSymbol .semicolon) do
      if ← accept (·.isKeyword .var) then Parse.varDeclaration fuel
      else Parse.expressionStatement fuel) (WellFormedBranch · false) :=
    .readUnless .acceptSymbol (Yields.accept.andThen fun _ =>
      .ite (fun _ => h.varDeclaration false) fun _ => h.expressionStatement false)
      (fun _ => trivial) fun _ hs => hs
  have hcondition : Yields True (readUnless (acceptSymbol .semicolon) do
      let condition ← Parse.exprAt fuel .comma
      expectSymbol .semicolon "';' after loop condition"
      return condition) WellFormedOptional :=
    .readUnless .acceptSymbol ((h.exprAt .comma).bind fun _ =>
      Yields.expectSymbol.andThen fun _ => .pure And.right) (fun _ => trivial) fun _ he => he
  exact hinitializer.bind fun initializer =>
    (hcondition.assuming fun _ => trivial).bind fun condition =>
      ((h.leftOut .nextIs .comma).assuming fun _ => trivial).bind fun update =>
        Yields.expectSymbol.andThen fun _ =>
          ((h.blockBody true).assuming fun _ => trivial).bind fun body =>
            .pure fun ⟨⟨⟨⟨_, hi⟩, hc⟩, hu⟩, hb⟩ => ⟨hi, hc, hu, ⟨body, rfl⟩, hb⟩

theorem blockBody_succ (h : RulesForm fuel) (inLoop : Bool) :
    Yields True (Parse.blockBody (fuel + 1) inLoop) (WellFormedBody · inLoop) := by
  rw [Parse.blockBody]
  refine Yields.nextIs.andThen fun _ => Yields.atEnd.andThen fun _ =>
    .ite (fun _ => Yields.expectSymbol.andThen fun _ => .pure id) fun _ => ?_
  exact (h.declaration inLoop).bind fun first =>
    ((h.blockBody inLoop).assuming fun _ => trivial).bind fun rest =>
      .pure fun ⟨⟨_, hfirst⟩, hrest⟩ => ⟨hfirst, hrest⟩

theorem varDeclaration_succ (h : RulesForm fuel) (inLoop : Bool) :
    Yields True (Parse.varDeclaration (fuel + 1)) (·.WellFormed inLoop) := by
  rw [Parse.varDeclaration]
  exact Yields.expectName.andThen fun name => (h.announced .acceptSymbol .comma).bind
    fun initializer => Yields.expectSymbol.andThen fun _ => .pure And.right

theorem function_succ (h : RulesForm fuel) (role : String) :
    Yields True (Parse.function (fuel + 1) role) FunctionDecl.WellFormed := by
  rw [Parse.function]
  exact Yields.expectName.andThen fun name => Yields.expectSymbol.andThen fun _ =>
    (parameters_yields fuel).bind fun params => Yields.expectSymbol.andThen fun _ =>
      Yields.expectSymbol.andThen fun _ => ((h.blockBody false).assuming fun _ => trivial).bind
        fun body => .pure fun ⟨⟨_, hparams⟩, hbody⟩ => ⟨hparams, hbody⟩

theorem declaration_succ (h : RulesForm fuel) (inLoop : Bool) :
    Yields True (Parse.declaration (fuel + 1) inLoop) (·.WellFormed inLoop) := by
  rw [Parse.declaration]
  refine Yields.nextKind?.andThen ?_
  intro kind
  split
  · exact Yields.advance.andThen fun _ => h.classDeclaration inLoop
  · exact Yields.advance.andThen fun _ => (h.function "function").bind fun decl => .pure And.right
  · exact Yields.advance.andThen fun _ => h.varDeclaration inLoop
  · exact Yields.advance.andThen fun _ => Yields.expectName.andThen fun name =>
      Yields.expectSymbol.andThen fun _ => (h.exprAt .comma).bind fun initializer =>
        Yields.expectSymbol.andThen fun _ => .pure And.right
  · exact h.statement inLoop

theorem classDeclaration_succ (h : RulesForm fuel) (inLoop : Bool) :
    Yields True (Parse.classDeclaration (fuel + 1)) (·.WellFormed inLoop) := by
  rw [Parse.classDeclaration]
  have hbase : Yields True (readIf (acceptSymbol .less) do
      let base ← expectName "base class name after '<'"
      return Expr.variable (← freshId) base) fun base =>
        ∀ e ∈ base, ∃ id name, e = .variable id name :=
    .readIf .acceptSymbol (Yields.expectName.andThen fun name => Yields.freshId.andThen fun id =>
      .pure fun _ => ⟨id, name, rfl⟩) (fun _ _ he => nomatch he)
      fun _ he _ hbase => Option.some.inj hbase ▸ he
  exact Yields.expectName.andThen fun name => hbase.bind fun base =>
    Yields.expectSymbol.andThen fun _ => (h.members.assuming fun _ => trivial).bind fun ms =>
      Yields.expectSymbol.andThen fun _ => .pure fun ⟨⟨_, hb⟩, hms⟩ =>
        ⟨hb, hms.bare, hms.methods, hms.statics, hms.getters⟩

theorem members_succ (h : RulesForm fuel) :
    Yields True (Parse.members (fuel + 1)) Members.WellFormed := by
  rw [Parse.members]
  refine Yields.nextIs.andThen fun _ => Yields.atEnd.andThen fun _ =>
    .ite (fun _ => .pure fun _ => ⟨trivial, trivial, trivial, fun _ hd => nomatch hd⟩) fun _ =>
      Yields.accept.andThen fun isStatic => .ite (fun _ => ?_) fun _ =>
        Yields.get.andThen fun s => .ite (fun _ => ?_) fun _ => ?_
  · exact (h.function _).bind fun decl => (h.members.assuming fun _ => trivial).bind fun others =>
      .pure fun ⟨⟨_, hd⟩, ho⟩ => { ho with statics := ⟨hd, ho.statics⟩ }
  · refine Yields.expectName.andThen fun name => Yields.expectSymbol.andThen fun _ =>
      (h.blockBody false).bind fun body => (h.members.assuming fun _ => trivial).bind fun others =>
        .pure fun ⟨⟨_, hb⟩, ho⟩ =>
          { ho with getters := ⟨⟨Nat.zero_le _, hb⟩, ho.getters⟩, bare := ?_ }
    exact List.forall_mem_cons.mpr ⟨rfl, ho.bare⟩
  · exact (h.function _).bind fun decl => (h.members.assuming fun _ => trivial).bind fun others =>
      .pure fun ⟨⟨_, hd⟩, ho⟩ => { ho with methods := ⟨hd, ho.methods⟩ }

end RulesForm

theorem rulesForm (fuel : Nat) : RulesForm fuel := by
  induction fuel with
  | zero => exact .zero
  | succ fuel h =>
    exact
      { exprAt := h.exprAt_succ
        operands := h.operands_succ
        postfixes := h.postfixes_succ
        someArguments := h.someArguments_succ
        primary := h.primary_succ
        parenthesised := h.parenthesised_succ
        arrowBody := h.arrowBody_succ
        statement := h.statement_succ
        expressionStatement := h.expressionStatement_succ
        forStatement := h.forStatement_succ
        blockBody := h.blockBody_succ
        declaration := h.declaration_succ
        varDeclaration := h.varDeclaration_succ
        function := h.function_succ
        classDeclaration := h.classDeclaration_succ
        members := h.members_succ }

/-! ## Programs -/

theorem expressionAgain_yields (fuel : Nat) :
    Yields True (expressionAgain fuel) (·.WellFormed false) :=
  ((rulesForm fuel).exprAt .comma).bind fun _ =>
    Yields.acceptSymbol.discard.andThen fun _ => .pure And.right

/-- A declaration that is tried again keeps the mark of the faults that are dropped. -/
theorem interactiveDeclaration_yields (fuel : Nat) :
    Yields True (interactiveDeclaration fuel) (·.WellFormed false) := fun s =>
  .interactiveDeclaration ((rulesForm fuel).declaration false s) (fun _ hfailed => hfailed)
    (fun failed _ => expressionAgain_yields fuel (again s failed)) fun _ _ hfailed _ => hfailed

theorem item_yields (interactive : Bool) (fuel : Nat) :
    Yields True (item interactive fuel) (·.WellFormed false) :=
  .ite (fun _ => interactiveDeclaration_yields fuel) fun _ => (rulesForm fuel).declaration false

/-- The fault of a declaration that is given up is noted, so it shows at the end. -/
theorem declarations_wellFormed {one : Parse Stmt} (hone : Yields True one (·.WellFormed false))
    (count : Nat) (s : ParseState) :
    (s.failed = true → (declarations one count s).2.1.failed = true) ∧
      ((declarations one count s).2.1.failed = false →
        WellFormedBody (declarations one count s).1 false) := by
  induction count generalizing s with
  | zero => exact ⟨id, fun _ => trivial⟩
  | succ count ih =>
    unfold declarations
    split
    · exact ⟨id, fun _ => trivial⟩
    · split
      · next stmt after heq =>
        obtain ⟨hkept, hgives⟩ := (hone s).ok trivial heq
        obtain ⟨hkeeps, hothers⟩ := ih after
        refine ⟨fun hs => hkeeps (hkept hs), fun hfinal => ⟨?_, hothers hfinal⟩⟩
        cases hafter : after.failed with
        | false => exact hgives hafter trivial
        | true => cases (hkeeps hafter).symm.trans hfinal
      · next error after heq =>
        have hnoted := (ih (after.note error).synchronize).1 (ParseState.failed_synchronize _)
        refine ⟨fun _ => hnoted, fun hfinal => ?_⟩
        cases hnoted.symm.trans hfinal
      · next after heq => exact ⟨((hone s).error trivial heq).1, fun _ => trivial⟩

/-- A program that is read is well formed. -/
theorem program_wellFormed {interactive : Bool} {firstId : NodeId} {tokens : List Token}
    {statements : List Stmt}
    (h : (program interactive firstId tokens).statements = some statements) :
    WellFormedBody statements false := by
  have hformed := (declarations_wellFormed (item_yields interactive (depthBound tokens))
    tokens.length { last := none, rest := tokens, nextId := firstId }).2
  unfold program at h
  dsimp only at h
  split at h
  · cases h
  · next hfailed =>
    cases h
    exact hformed (Bool.eq_false_iff.mpr fun hfinal => hfailed (by rw [hfinal]; rfl))

end Parse

end LoxLang
