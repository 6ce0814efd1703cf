import LoxLang.Proofs.Grammar.Numbering

/-!
# What the grammar makes

Every tree that is read is regular and has numbers of its own (`rulesMake`, `program_made`). The one
exception is made in `assignTo`: an assignment to a property by way of its old value reads the
object once and puts it into the tree twice.
-/

namespace LoxLang

/-! ## Trees -/

abbrev Expr.Made (e : Expr) : NodeId → NodeId → Prop := LoxLang.Made e.Regular e.references

abbrev MadeEach (es : List Expr) : NodeId → NodeId → Prop := Made (RegularEach es) (referencesOfEach es)

abbrev MadeOptional (e : Option Expr) : NodeId → NodeId → Prop :=
  Made (RegularOptional e) (referencesOfOptional e)

abbrev Stmt.Made (s : Stmt) : NodeId → NodeId → Prop := LoxLang.Made s.Regular s.references

abbrev MadeBranch (s : Option Stmt) : NodeId → NodeId → Prop :=
  Made (RegularBranch s) (referencesOfBranch s)

abbrev MadeBody (ss : List Stmt) : NodeId → NodeId → Prop := Made (RegularBody ss) (referencesOfBody ss)

abbrev FunctionDecl.Made (d : FunctionDecl) : NodeId → NodeId → Prop :=
  LoxLang.Made d.Regular d.references

abbrev MadeFunctions (ds : List FunctionDecl) : NodeId → NodeId → Prop :=
  Made (RegularFunctions ds) (referencesOfFunctions ds)

/-- A statement that declares nothing. -/
def Stmt.MadePlain (s : Stmt) (lo hi : NodeId) : Prop := s.Made lo hi ∧ s.declaration? = none

namespace Parse

/-- The kinds of members stand in any order, so their numbers are told apart kind by kind. -/
structure Members.Made (ms : Members) (lo hi : NodeId) : Prop where
  methods : MadeFunctions ms.methods lo hi
  statics : MadeFunctions ms.statics lo hi
  getters : MadeFunctions ms.getters lo hi
  bare : ∀ d ∈ ms.getters, d.params = []
  methodsStatics : Apart (referencesOfFunctions ms.methods) (referencesOfFunctions ms.statics)
  methodsGetters : Apart (referencesOfFunctions ms.methods) (referencesOfFunctions ms.getters)
  staticsGetters : Apart (referencesOfFunctions ms.statics) (referencesOfFunctions ms.getters)

variable {lo mid hi : NodeId}

namespace Members.Made

variable {ms : Members} {d : FunctionDecl}

theorem none : Made {} lo hi where
  methods := .nil trivial
  statics := .nil trivial
  getters := .nil trivial
  bare _ h := nomatch h
  methodsStatics := Apart.nil_left
  methodsGetters := Apart.nil_left
  staticsGetters := Apart.nil_left

theorem addMethod (hd : d.Made lo mid) (h : ms.Made mid hi) (hlo : lo ≤ mid) (hhi : mid ≤ hi) :
    Made { ms with methods := d :: ms.methods } lo hi where
  methods := hd.pair h.methods hlo hhi
  statics := h.statics.mono hlo (Nat.le_refl _)
  getters := h.getters.mono hlo (Nat.le_refl _)
  bare := h.bare
  methodsStatics := Apart.append_left.mpr ⟨hd.within.apart h.statics.within, h.methodsStatics⟩
  methodsGetters := Apart.append_left.mpr ⟨hd.within.apart h.getters.within, h.methodsGetters⟩
  staticsGetters := h.staticsGetters

theorem addStatic (hd : d.Made lo mid) (h : ms.Made mid hi) (hlo : lo ≤ mid) (hhi : mid ≤ hi) :
    Made { ms with statics := d :: ms.statics } lo hi where
  methods := h.methods.mono hlo (Nat.le_refl _)
  statics := hd.pair h.statics hlo hhi
  getters := h.getters.mono hlo (Nat.le_refl _)
  bare := h.bare
  methodsStatics :=
    Apart.append_right.mpr ⟨(hd.within.apart h.methods.within).symm, h.methodsStatics⟩
  methodsGetters := h.methodsGetters
  staticsGetters := Apart.append_left.mpr ⟨hd.within.apart h.getters.within, h.staticsGetters⟩

theorem addGetter (hd : d.Made lo mid) (hbare : d.params = []) (h : ms.Made mid hi)
    (hlo : lo ≤ mid) (hhi : mid ≤ hi) : Made { ms with getters := d :: ms.getters } lo hi where
  methods := h.methods.mono hlo (Nat.le_refl _)
  statics := h.statics.mono hlo (Nat.le_refl _)
  getters := hd.pair h.getters hlo hhi
  bare := List.forall_mem_cons.mpr ⟨hbare, h.bare⟩
  methodsStatics := h.methodsStatics
  methodsGetters :=
    Apart.append_right.mpr ⟨(hd.within.apart h.methods.within).symm, h.methodsGetters⟩
  staticsGetters :=
    Apart.append_right.mpr ⟨(hd.within.apart h.statics.within).symm, h.staticsGetters⟩

end Members.Made

/-! ## Forms without parts of their own -/

theorem made_join {level : Level} {left right : Expr} {operator : Token} (hl : left.Made lo mid)
    (hr : right.Made mid hi) (hlo : lo ≤ mid) (hhi : mid ≤ hi) :
    (level.join left operator right).Made lo hi := by
  cases level <;> exact hl.pair hr hlo hhi

theorem leaf?_gives {token : Token} {leaf : Parse Expr} (h : leaf? token = some leaf)
    (hspelled : token.Spelled) : Gives lo leaf fun e hi => e.Made lo hi := by
  have hfresh (node : NodeId → Expr) (kind : ReferenceKind)
      (hregular : ∀ id, (node id).Regular)
      (hrefs : ∀ id, (node id).references = [⟨kind, id, token⟩]) :
      Gives lo (do return node (← freshId)) fun e hi => e.Made lo hi :=
    Gives.freshId.bind fun id hi _ ⟨hid, hhi⟩ => .pure
      ⟨hregular id, hrefs id ▸ .single (Nat.le_of_eq hid.symm) (by simp [hid, hhi])⟩
  unfold leaf? at h
  split at h <;> cases h
  all_goals try exact .pure (.nil trivial)
  · exact hfresh (.variable · token) .variable (fun _ => trivial) fun _ => rfl
  · next hkind =>
    exact hfresh (.this · token) .this (fun _ => hspelled.keyword _ hkind) fun _ => rfl
  · next hkind =>
    exact Quiet.expectSymbol.andThen fun _ => Picks.expectName.andThen fun method _ =>
      hfresh (.super · token method) .super (fun _ => hspelled.keyword _ hkind) fun _ => rfl

theorem assignTo_gives {target value : Expr} {equals : Token} (ht : target.Made lo mid)
    (hv : value.Made mid hi) (hlo : lo ≤ mid) (hhi : mid ≤ hi) :
    Gives hi (assignTo target equals value) fun e hi' => e.Made lo hi' := by
  unfold assignTo
  split
  · next id name =>
    refine Gives.freshId.bind fun old hi₁ _ ⟨hold, hhi₁⟩ =>
      Gives.freshId.bind fun new hi₂ _ ⟨hnew, hhi₂⟩ => .pure ?_
    subst hold hhi₁ hnew hhi₂
    have hvalue : (assignedValue equals (.variable old name) value).Made mid (old + 1) := by
      unfold assignedValue
      split
      · have hread : (Expr.variable old name).Made old (old + 1) :=
          ⟨trivial, .single (Nat.le_refl _) (Nat.lt_succ_self _)⟩
        refine ⟨⟨trivial, hv.regular, (hv.within.apart hread.within).symm⟩, ?_⟩
        exact (hread.within.mono hhi (Nat.le_refl _)).append
          (hv.within.mono (Nat.le_refl _) (Nat.le_succ _))
      · exact hv.mono (Nat.le_refl _) (Nat.le_succ _)
    have hnode : Within (old + 1) (old + 1 + 1) [⟨.assign, old + 1, name⟩] :=
      .single (Nat.le_refl _) (Nat.lt_succ_self _)
    refine ⟨⟨hvalue.regular, hvalue.within.apart hnode⟩, ?_⟩
    have hbehind := hnode.mono (Nat.le_trans hlo (Nat.le_succ_of_le hhi)) (Nat.le_refl _)
    exact hbehind.append (hvalue.within.mono hlo (Nat.le_succ _))
  · next object name =>
    refine .pure ?_
    have hobject : object.Made lo mid := ht
    unfold assignedValue
    split
    · have hold : (Expr.get object name).Made lo mid := ht
      have hvalue := hold.pair hv hlo hhi
      exact ⟨⟨hobject.regular, hvalue.regular, .inr ⟨_, _, rfl⟩⟩,
        (hobject.within.mono (Nat.le_refl _) hhi).append hvalue.within⟩
    · have hset := hobject.pair hv hlo hhi
      exact hset.imp fun h => ⟨h.1, h.2.1, .inl h.2.2⟩
  · exact Quiet.noteAt.andThen fun _ => .pure (ht.mono (Nat.le_refl _) hhi)

theorem jump_gives {node : Token → Stmt} {inLoop : Bool} {keyword : Token}
    (h : (node keyword).MadePlain lo lo) :
    Gives lo (jump node inLoop keyword) fun s hi => s.MadePlain lo hi := by
  unfold jump
  refine .ite (fun _ => ?_) fun _ => .failAt
  exact Quiet.expectSymbol.andThen fun _ => .pure h

/-! ## The rules -/

/-- What the rules make with a bound on their depth. -/
structure RulesMake (fuel : Nat) : Prop where
  exprAt : ∀ level lo, Gives lo (exprAt fuel level) fun e hi => e.Made lo hi
  operands : ∀ level {left lo mid}, left.Made lo mid → lo ≤ mid →
    Gives mid (operands fuel level left) fun e hi => e.Made lo hi
  postfixes : ∀ {callee lo mid}, callee.Made lo mid → lo ≤ mid →
    Gives mid (postfixes fuel callee) fun e hi => e.Made lo hi
  someArguments : ∀ count lo, Gives lo (someArguments fuel count) fun es hi => MadeEach es lo hi
  primary : ∀ lo, Gives lo (primary fuel) fun e hi => e.Made lo hi
  parenthesised : ∀ lo, Gives lo (parenthesised fuel) fun e hi => e.Made lo hi
  arrowBody : ∀ arrow lo, Gives lo (arrowBody fuel arrow) fun ss hi => MadeBody ss lo hi
  statement : ∀ inLoop lo, Gives lo (statement fuel inLoop) fun s hi => s.MadePlain lo hi
  expressionStatement : ∀ lo, Gives lo (expressionStatement fuel) fun s hi => s.MadePlain lo hi
  forStatement : ∀ lo, Gives lo (forStatement fuel) fun s hi => s.MadePlain lo hi
  blockBody : ∀ inLoop lo, Gives lo (blockBody fuel inLoop) fun ss hi => MadeBody ss lo hi
  declaration : ∀ inLoop lo, Gives lo (declaration fuel inLoop) fun s hi => s.Made lo hi
  varDeclaration : ∀ lo, Gives lo (varDeclaration fuel) fun s hi => s.Made lo hi
  function : ∀ role lo, Gives lo (function fuel role) fun d hi => d.Made lo hi
  classDeclaration : ∀ lo, Gives lo (classDeclaration fuel) fun s hi => s.Made lo hi
  members : ∀ lo, Gives lo (members fuel) fun ms hi => Members.Made ms lo hi

namespace RulesMake

theorem zero : RulesMake 0 where
  exprAt _ _ := .outOfFuel
  operands _ := fun _ _ => .outOfFuel
  postfixes := fun _ _ => .outOfFuel
  someArguments _ _ := .outOfFuel
  primary _ := .outOfFuel
  parenthesised _ := .outOfFuel
  arrowBody _ _ := .outOfFuel
  statement _ _ := .outOfFuel
  expressionStatement _ := .outOfFuel
  forStatement _ := .outOfFuel
  blockBody _ _ := .outOfFuel
  declaration _ _ := .outOfFuel
  varDeclaration _ := .outOfFuel
  function _ _ := .outOfFuel
  classDeclaration _ := .outOfFuel
  members _ := .outOfFuel

variable {fuel : Nat}

theorem exprAt_succ (h : RulesMake fuel) (level : Level) (lo : NodeId) :
    Gives lo (Parse.exprAt (fuel + 1) level) fun e hi => e.Made lo hi := by
  have hlevel (level : Level) : Gives lo (do
      let left ← Parse.exprAt fuel level.tighter
      Parse.operands fuel level left) fun e hi => e.Made lo hi :=
    (h.exprAt level.tighter lo).bind fun _ _ hlo hleft => h.operands level hleft hlo
  rw [Parse.exprAt.eq_def]
  cases level
  case assignment =>
    refine (h.exprAt .ternary lo).bind fun target mid hlo ht =>
      Quiet.accept?.andThen fun found => ?_
    cases found with
    | none => exact .pure ht
    | some equals =>
      exact (h.exprAt .assignment mid).bind fun value hi hhi hv => assignTo_gives ht hv hlo hhi
  case ternary =>
    refine (h.exprAt .or lo).bind fun condition mid hlo hc =>
      Quiet.accept?.andThen fun found => ?_
    cases found with
    | none => exact .pure hc
    | some question =>
      refine (h.exprAt .comma mid).bind fun thenBranch mid' hmid ht =>
        Quiet.expectSymbol.andThen fun _ =>
          (h.exprAt .ternary mid').bind fun elseBranch hi hhi he => .pure ?_
      have hct := hc.pair ht hlo hmid
      exact (hct.pair he (Nat.le_trans hlo hmid) hhi).imp fun
        | ⟨⟨hc, ht, hapart⟩, he, hall⟩ => ⟨hc, ht, he, hapart, hall⟩
  case unary =>
    refine Quiet.accept?.andThen ?_
    intro found
    cases found with
    | none => exact h.exprAt .call lo
    | some operator => exact (h.exprAt .unary lo).bind fun right hi _ hr => .pure hr
  case call =>
    exact (h.exprAt .primary lo).bind fun callee mid hlo hc => h.postfixes hc hlo
  case primary => exact h.primary lo
  all_goals exact hlevel _

theorem operands_succ (h : RulesMake fuel) (level : Level) {left : Expr} {lo mid : NodeId}
    (hleft : left.Made lo mid) (hlo : lo ≤ mid) :
    Gives mid (Parse.operands (fuel + 1) level left) fun e hi => e.Made lo hi := by
  rw [Parse.operands]
  refine Quiet.accept?.andThen ?_
  intro found
  cases found with
  | none => exact .pure hleft
  | some operator =>
    exact (h.exprAt level.tighter mid).bind fun right hi hhi hright =>
      h.operands level (made_join hleft hright hlo hhi) (Nat.le_trans hlo hhi)

theorem postfixes_succ (h : RulesMake fuel) {callee : Expr} {lo mid : NodeId}
    (hcallee : callee.Made lo mid) (hlo : lo ≤ mid) :
    Gives mid (Parse.postfixes (fuel + 1) callee) fun e hi => e.Made lo hi := by
  rw [Parse.postfixes]
  refine Quiet.accept?.andThen ?_
  intro found
  cases found with
  | none => exact .pure hcallee
  | some t =>
    refine .ite (fun _ => ?_) fun _ => ?_
    · have hcall : ∀ es hi, mid ≤ hi → MadeEach es mid hi → Gives hi (do
          let paren ← expect (·.isSymbol .rightParen) "')' after arguments"
          Parse.postfixes fuel (.call callee paren es)) fun e hi => e.Made lo hi :=
        fun es hi hhi hes => Quiet.expect.andThen fun paren =>
          h.postfixes (hcallee.pair hes hlo hhi) (Nat.le_trans hlo hhi)
      refine Quiet.nextIs.andThen fun closed => .ite (fun _ => ?_) fun _ => ?_
      · have hnone : Gives mid (pure []) fun es hi => MadeEach es mid hi := .pure (.nil trivial)
        exact hnone.bind hcall
      · exact (h.someArguments 0 mid).bind hcall
    · exact Picks.expectName.andThen fun name _ => h.postfixes hcallee hlo

theorem someArguments_succ (h : RulesMake fuel) (count : Nat) (lo : NodeId) :
    Gives lo (Parse.someArguments (fuel + 1) count) fun es hi => MadeEach es lo hi := by
  rw [Parse.someArguments]
  refine Quiet.limit.andThen fun _ => (h.exprAt .assignment lo).bind fun argument mid hlo ha =>
    Quiet.acceptSymbol.andThen fun more => .ite (fun _ => ?_) fun _ => ?_
  · exact (h.someArguments (count + 1) mid).bind fun others hi hhi ho => .pure (ha.pair ho hlo hhi)
  · have hnone : MadeEach [] mid mid := .nil trivial
    exact .pure (ha.pair hnone hlo (Nat.le_refl _))

theorem primary_succ (h : RulesMake fuel) (lo : NodeId) :
    Gives lo (Parse.primary (fuel + 1)) fun e hi => e.Made lo hi := by
  rw [Parse.primary]
  refine Picks.get.andThen fun s hs => ?_
  cases hnext : s.next? with
  | none => exact .failHere
  | some t =>
    dsimp only
    cases hleaf : leaf? t with
    | some leaf => exact Quiet.advance.andThen fun _ => leaf?_gives hleaf (hs.next? t hnext)
    | none =>
      refine .ite (fun _ => Quiet.advance.andThen fun _ => h.parenthesised lo) ?_
      intro _
      cases Level.ofStrayOperator? t.kind with
      | none => exact .failHere
      | some level =>
        exact Quiet.advance.andThen fun _ => (h.exprAt level lo).discard.bind fun _ _ _ _ => .failAt

theorem parenthesised_succ (h : RulesMake fuel) (lo : NodeId) :
    Gives lo (Parse.parenthesised (fuel + 1)) fun e hi => e.Made lo hi := by
  rw [Parse.parenthesised]
  refine Picks.arrowHead.andThen fun head hparams => ?_
  cases head with
  | none =>
    exact (h.exprAt .comma lo).bind fun inner hi _ hinner =>
      Quiet.expectSymbol.andThen fun _ => .pure hinner
  | some head =>
    have hbody : Gives lo (do
        return Expr.arrow ⟨head.2, head.1, ← Parse.arrowBody fuel head.2⟩) fun e hi => e.Made lo hi :=
      (h.arrowBody head.2 lo).bind fun body hi _ hbody =>
        .pure (hbody.imp fun hbody => ⟨hbody, hparams head rfl⟩)
    exact .ite (fun _ => Quiet.noteAt.andThen fun _ => hbody) fun _ => hbody

theorem arrowBody_succ (h : RulesMake fuel) (arrow : Token) (lo : NodeId) :
    Gives lo (Parse.arrowBody (fuel + 1) arrow) fun ss hi => MadeBody ss lo hi := by
  rw [Parse.arrowBody]
  refine Quiet.acceptSymbol.andThen fun braced => .ite (fun _ => h.blockBody false lo) fun _ => ?_
  refine (h.exprAt .assignment lo).bind fun value hi hlo hv => .pure ?_
  have hnone : MadeBody [] hi hi := .nil trivial
  exact Made.pair hv hnone hlo (Nat.le_refl _)

theorem expressionStatement_succ (h : RulesMake fuel) (lo : NodeId) :
    Gives lo (Parse.expressionStatement (fuel + 1)) fun s hi => s.MadePlain lo hi := by
  rw [Parse.expressionStatement]
  exact (h.exprAt .comma lo).bind fun value hi _ hv =>
    Quiet.expectSymbol.andThen fun _ => .pure ⟨hv, rfl⟩

/-- An expression that is left out where a step says so. -/
theorem leftOut (h : RulesMake fuel) {absent : Parse Bool} (habsent : Quiet absent) (level : Level)
    (lo : NodeId) :
    Gives lo (readUnless absent (Parse.exprAt fuel level)) fun e hi => MadeOptional e lo hi :=
  .readUnless habsent (h.exprAt level lo) (.nil trivial) fun _ _ he => he

theorem announced (h : RulesMake fuel) {present : Parse Bool} (hpresent : Quiet present)
    (level : Level) (lo : NodeId) :
    Gives lo (readIf present (Parse.exprAt fuel level)) fun e hi => MadeOptional e lo hi :=
  .readIf hpresent (h.exprAt level lo) (.nil trivial) fun _ _ he => he

theorem statement_succ (h : RulesMake fuel) (inLoop : Bool) (lo : NodeId) :
    Gives lo (Parse.statement (fuel + 1) inLoop) fun s hi => s.MadePlain lo hi := by
  have hprint (node : Expr → Stmt) (hmade : ∀ e hi, e.Made lo hi → (node e).MadePlain lo hi) :
      Gives lo (do
        let value ← Parse.exprAt fuel .comma
        expectSymbol .semicolon "';' after value"
        return node value) fun s hi => s.MadePlain lo hi :=
    (h.exprAt .comma lo).bind fun value hi _ hv =>
      Quiet.expectSymbol.andThen fun _ => .pure (hmade value hi hv)
  rw [Parse.statement]
  refine Quiet.get.andThen ?_
  intro s
  cases s.next? with
  | none => exact h.expressionStatement lo
  | some t =>
    dsimp only
    split
    · exact Quiet.advance.andThen fun _ => h.forStatement lo
    · refine Quiet.advance.andThen fun _ => (h.exprAt .comma lo).bind fun condition mid hlo hc =>
        (h.statement inLoop mid).bind fun thenBranch mid' hmid ht =>
          Quiet.accept.andThen fun more => ?_
      have hct := hc.pair ht.1 hlo hmid
      have hall : ∀ elseBranch hi, mid' ≤ hi → MadeBranch elseBranch mid' hi →
          (∀ s ∈ elseBranch, s.declaration? = none) →
          (Stmt.ifElse condition thenBranch elseBranch).MadePlain lo hi := fun _ hi hhi he hplain =>
        ⟨(hct.pair he (Nat.le_trans hlo hmid) hhi).imp fun
          | ⟨⟨hc, ht', hapart⟩, he, hall⟩ => ⟨hc, ht', he, ht.2, hplain, hapart, hall⟩, rfl⟩
      refine .ite (fun _ => ?_) fun _ => ?_
      · exact (h.statement inLoop mid').bind fun elseBranch hi hhi he =>
          .pure (hall _ hi hhi he.1 fun s hs => Option.some.inj hs ▸ he.2)
      · exact .pure (hall none mid' (Nat.le_refl _) (.nil trivial) fun _ hs => nomatch hs)
    · refine Quiet.advance.andThen fun _ => (h.exprAt .comma lo).bind fun condition mid hlo hc =>
        (h.statement true mid).bind fun body hi hhi hb => .pure ⟨?_, rfl⟩
      exact (hc.pair hb.1 hlo hhi).imp fun | ⟨hc, hb', hapart⟩ => ⟨hc, hb', hb.2, hapart⟩
    · exact Quiet.advance.andThen fun _ => (h.leftOut .nextIs .comma lo).bind fun value hi _ hv =>
        Quiet.expectSymbol.andThen fun _ => .pure ⟨by cases value <;> exact hv, rfl⟩
    · exact Quiet.advance.andThen fun _ => jump_gives ⟨.nil trivial, rfl⟩
    · exact Quiet.advance.andThen fun _ => jump_gives ⟨.nil trivial, rfl⟩
    · exact Quiet.advance.andThen fun _ => (h.exprAt .assignment lo).bind fun condition mid hlo hc =>
        (h.announced .acceptSymbol .comma mid).bind fun message hi hhi hm =>
          Quiet.expectSymbol.andThen fun _ => .pure ⟨hc.pair hm hlo hhi, rfl⟩
    · exact Quiet.advance.andThen fun _ =>
        (h.blockBody inLoop lo).bind fun body hi _ hb => .pure ⟨hb, rfl⟩
    · exact Quiet.advance.andThen fun _ => hprint .print fun _ _ he => ⟨he, rfl⟩
    · exact Quiet.advance.andThen fun _ => hprint .println fun _ _ he => ⟨he, rfl⟩
    · exact h.expressionStatement lo

theorem forStatement_succ (h : RulesMake fuel) (lo : NodeId) :
    Gives lo (Parse.forStatement (fuel + 1)) fun s hi => s.MadePlain lo hi := by
  rw [Parse.forStatement]
  have hdeclares (lo : NodeId) : Gives lo (do
      if ← accept (·.isKeyword .var) then Parse.varDeclaration fuel
      else Parse.expressionStatement fuel) fun s hi => s.Made lo hi :=
    Quiet.accept.andThen fun _ => .ite (fun _ => h.varDeclaration lo) fun _ =>
      (h.expressionStatement lo).imp fun _ _ _ hs => hs.1
  have htested (lo : NodeId) : Gives lo (do
      let condition ← Parse.exprAt fuel .comma
      expectSymbol .semicolon "';' after loop condition"
      return condition) fun e hi => e.Made lo hi :=
    (h.exprAt .comma lo).bind fun _ _ _ hc => Quiet.expectSymbol.andThen fun _ => .pure hc
  have hinitializer : Gives lo (readUnless (acceptSymbol .semicolon) _) fun s hi =>
      MadeBranch s lo hi :=
    .readUnless .acceptSymbol (hdeclares lo) (.nil trivial) fun _ _ hs => hs
  have hcondition (mid : NodeId) : Gives mid (readUnless (acceptSymbol .semicolon) _) fun e hi =>
      MadeOptional e mid hi :=
    .readUnless .acceptSymbol (htested mid) (.nil trivial) fun _ _ he => he
  refine hinitializer.bind fun initializer n₁ h₁ hi => (hcondition n₁).bind fun condition n₂ h₂ hc =>
    (h.leftOut .nextIs .comma n₂).bind fun update n₃ h₃ hu => Quiet.expectSymbol.andThen fun _ =>
      (h.blockBody true n₃).bind fun body n₄ h₄ hb => .pure ⟨?_, rfl⟩
  have hheader := (hi.pair hc h₁ h₂).pair hu (Nat.le_trans h₁ h₂) h₃
  exact (hheader.pair hb (Nat.le_trans (Nat.le_trans h₁ h₂) h₃) h₄).imp fun
    | ⟨⟨⟨hi, hc, hapart⟩, hu, hapart'⟩, hb, hapart''⟩ =>
      ⟨hi, hc, hu, hb, rfl, hapart, hapart', hapart''⟩

theorem blockBody_succ (h : RulesMake fuel) (inLoop : Bool) (lo : NodeId) :
    Gives lo (Parse.blockBody (fuel + 1) inLoop) fun ss hi => MadeBody ss lo hi := by
  rw [Parse.blockBody]
  refine Quiet.nextIs.andThen fun closed => Quiet.atEnd.andThen fun ended =>
    .ite (fun _ => ?_) fun _ => ?_
  · exact Quiet.expectSymbol.andThen fun _ => .pure (.nil trivial)
  · exact (h.declaration inLoop lo).bind fun first mid hlo hfirst =>
      (h.blockBody inLoop mid).bind fun rest hi hhi hrest => .pure (hfirst.pair hrest hlo hhi)

theorem varDeclaration_succ (h : RulesMake fuel) (lo : NodeId) :
    Gives lo (Parse.varDeclaration (fuel + 1)) fun s hi => s.Made lo hi := by
  rw [Parse.varDeclaration]
  exact Picks.expectName.andThen fun name hname => (h.announced .acceptSymbol .comma lo).bind
    fun initializer hi _ hv => Quiet.expectSymbol.andThen fun _ => .pure (hv.imp (⟨·, hname⟩))

theorem function_succ (h : RulesMake fuel) (role : String) (lo : NodeId) :
    Gives lo (Parse.function (fuel + 1) role) fun d hi => d.Made lo hi := by
  rw [Parse.function]
  exact Picks.expectName.andThen fun name hname => Quiet.expectSymbol.andThen fun _ =>
    (Picks.parameters fuel).andThen fun params hparams => Quiet.expectSymbol.andThen fun _ =>
      Quiet.expectSymbol.andThen fun _ => (h.blockBody false lo).bind fun body hi _ hb =>
        .pure (hb.imp (⟨·, hname, hparams⟩))

theorem declaration_succ (h : RulesMake fuel) (inLoop : Bool) (lo : NodeId) :
    Gives lo (Parse.declaration (fuel + 1) inLoop) fun s hi => s.Made lo hi := by
  rw [Parse.declaration]
  refine Quiet.nextKind?.andThen ?_
  intro kind
  split
  · exact Quiet.advance.andThen fun _ => h.classDeclaration lo
  · exact Quiet.advance.andThen fun _ =>
      (h.function "function" lo).bind fun decl hi _ hd => .pure hd
  · exact Quiet.advance.andThen fun _ => h.varDeclaration lo
  · exact Quiet.advance.andThen fun _ => Picks.expectName.andThen fun name hname =>
      Quiet.expectSymbol.andThen fun _ => (h.exprAt .comma lo).bind fun initializer hi _ hv =>
        Quiet.expectSymbol.andThen fun _ => .pure (hv.imp (⟨·, hname⟩))
  · exact (h.statement inLoop lo).imp fun s hi _ hs => hs.1

theorem classDeclaration_succ (h : RulesMake fuel) (lo : NodeId) :
    Gives lo (Parse.classDeclaration (fuel + 1)) fun s hi => s.Made lo hi := by
  rw [Parse.classDeclaration]
  have hname : Gives lo (do
      let base ← expectName "base class name after '<'"
      return Expr.variable (← freshId) base) fun e hi =>
        e.Made lo hi ∧ ∃ id name, e = .variable id name :=
    Picks.expectName.andThen fun name _ => Gives.freshId.bind fun id hi _ hid => .pure
      ⟨⟨trivial, .single (Nat.le_of_eq hid.1.symm) (by simp [hid])⟩, id, name, rfl⟩
  have hbase : Gives lo (readIf (acceptSymbol .less) _) fun base hi =>
      MadeOptional base lo hi ∧ ∀ e ∈ base, ∃ id name, e = .variable id name :=
    .readIf .acceptSymbol hname ⟨.nil trivial, fun _ he => nomatch he⟩
      fun _ _ he => ⟨he.1, fun _ hbase => Option.some.inj hbase ▸ he.2⟩
  refine Picks.expectName.andThen fun name hname => hbase.bind fun base mid hlo ⟨hb, hvariable⟩ =>
    Quiet.expectSymbol.andThen fun _ => (h.members mid).bind fun ms hi hhi hms =>
      Quiet.expectSymbol.andThen fun _ => .pure ⟨?_, ?_⟩
  · have hmethods := hb.within.apart hms.methods.within
    have hstatics := hb.within.apart hms.statics.within
    have hgetters := hb.within.apart hms.getters.within
    exact ⟨hvariable, hms.bare, hms.methods.regular, hms.statics.regular, hms.getters.regular,
      hmethods, Apart.append_left.mpr ⟨hstatics, hms.methodsStatics⟩, Apart.append_left.mpr
        ⟨Apart.append_left.mpr ⟨hgetters, hms.methodsGetters⟩, hms.staticsGetters⟩, hname⟩
  · have hbelow := Nat.le_refl hi
    exact (((hb.within.mono (Nat.le_refl _) hhi).append
      (hms.methods.within.mono hlo hbelow)).append (hms.statics.within.mono hlo hbelow)).append
        (hms.getters.within.mono hlo hbelow)

theorem members_succ (h : RulesMake fuel) (lo : NodeId) :
    Gives lo (Parse.members (fuel + 1)) fun ms hi => Members.Made ms lo hi := by
  rw [Parse.members]
  refine Quiet.nextIs.andThen fun closed => Quiet.atEnd.andThen fun ended =>
    .ite (fun _ => .pure .none) fun _ => Quiet.accept.andThen fun isStatic =>
      .ite (fun _ => ?_) fun _ => Quiet.get.andThen fun s => .ite (fun _ => ?_) fun _ => ?_
  · exact (h.function _ lo).bind fun decl mid hlo hd =>
      (h.members mid).bind fun others hi hhi ho => .pure (.addStatic hd ho hlo hhi)
  · refine Picks.expectName.andThen fun name hname => Quiet.expectSymbol.andThen fun _ =>
      (h.blockBody false lo).bind fun body mid hlo hb =>
        (h.members mid).bind fun others hi hhi ho => .pure ?_
    have hgetter : FunctionDecl.Made ⟨name, [], body⟩ lo mid :=
      hb.imp (⟨·, hname, fun _ hp => nomatch hp⟩)
    exact .addGetter hgetter rfl ho hlo hhi
  · exact (h.function _ lo).bind fun decl mid hlo hd =>
      (h.members mid).bind fun others hi hhi ho => .pure (.addMethod hd ho hlo hhi)

end RulesMake

theorem rulesMake (fuel : Nat) : RulesMake fuel := by
  induction fuel with
  | zero => exact .zero
  | succ fuel h =>
    exact
      { exprAt := h.exprAt_succ
        operands := h.operands_succ
        postfixes := h.postfixes_succ
        someArguments := h.someArguments_succ
        primary := h.primary_succ
        parenthesised := h.parenthesised_succ
        arrowBody := h.arrowBody_succ
        statement := h.statement_succ
        expressionStatement := h.expressionStatement_succ
        forStatement := h.forStatement_succ
        blockBody := h.blockBody_succ
        declaration := h.declaration_succ
        varDeclaration := h.varDeclaration_succ
        function := h.function_succ
        classDeclaration := h.classDeclaration_succ
        members := h.members_succ }

end Parse

end LoxLang
