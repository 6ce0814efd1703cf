import LoxLang.Proofs.Grammar.Paired

/-!
# Verdicts

A program is rejected just if a fault is reported (`program_verdict`). Where a declaration is tried
again as an expression its faults are dropped; the second attempt notes them again, or fails itself.
-/

namespace LoxLang

namespace ParseState

/-- A fault has been noted just if there is one to report. -/
def Honest (s : ParseState) : Prop := s.failed = !s.errors.isEmpty

theorem Honest.note {s : ParseState} (error : GrammarError) : (s.note error).Honest := by
  simp [Honest, ParseState.note]

theorem Honest.advance {s : ParseState} (h : s.Honest) : s.advance.Honest := by
  unfold ParseState.advance
  split
  · exact h
  · exact h

theorem Honest.synchronize {s : ParseState} (h : s.Honest) : s.synchronize.Honest :=
  show s.advance.Honest from h.advance

end ParseState

namespace Parse

variable {α β : Type} {act : Parse α} {k : α → Parse β} {s s' : ParseState} {t : Token}

/-- Two parses whose nodes are numbered in some way. -/
abbrev anyhow : Likeness := .ofNodes fun _ _ => True

theorem beside_anyhow (hrest : s'.rest = s.rest) (hlast : s'.last = s.last) :
    Beside (.exact anyhow s s') s s' := by
  refine .exact ?_ ?_ fun _ => trivial
  · rw [hrest]
    exact List.forall₂_eq_eq_eq ▸ rfl
  · rw [hlast]
    cases s.last with
    | none => exact .none
    | some t => exact .some rfl

theorem Noted.honest {p : Pairing} {found found' : List GrammarError}
    (h : Noted p s s' found found') (hfailed : p.failed = !p.errors.isEmpty) : s.Honest := by
  rw [ParseState.Honest, h.failed, h.errors, hfailed]
  cases p.errors <;> simp

/-- Every rule keeps the two in step. -/
theorem honest_declaration {fuel : Nat} {inLoop : Bool} (hs : s.Honest) :
    (∀ stmt after, declaration fuel inLoop s = .ok stmt after → after.Honest) := by
  intro stmt after hrun
  have hends := ((rulesPair _ fuel fuel).declaration inLoop).ends (beside_anyhow (s := s) rfl rfl)
  rw [hrun] at hends
  cases hends with
  | ok beside =>
    obtain ⟨found, found', hnoted⟩ := beside.noted
    exact hnoted.honest hs

/-! ## The second attempt -/

/-- The next token, if there is one, does not begin an expression. -/
def Bars (s : ParseState) : Prop :=
  ∀ t ∈ s.next?, t.kind.isUnaryOperator = false ∧ leaf? t = none ∧
    t.kind.isSymbol .leftParen = false

theorem bind_ne_ok (h : ∀ a after, act s ≠ .ok a after) (b : β) (after : ParseState) :
    (act >>= k) s ≠ .ok b after := by
  intro hrun
  obtain ⟨a, mid, hact, -⟩ := exists_of_bind hrun
  exact h a mid hact

theorem bind_ne_ok_right (h : ∀ a mid b after, k a mid ≠ .ok b after) (b : β)
    (after : ParseState) : (act >>= k) s ≠ .ok b after := by
  intro hrun
  obtain ⟨a, mid, -, hrest⟩ := exists_of_bind hrun
  exact h a mid b after hrest

theorem primary_of_bars (h : Bars s) (fuel : Nat) (e : Expr) (after : ParseState) :
    primary fuel s ≠ .ok e after := by
  intro hrun
  cases fuel with
  | zero => cases hrun
  | succ fuel =>
    rw [primary, bind_get] at hrun
    cases hnext : s.next? with
    | none =>
      rw [hnext] at hrun
      cases hrun
    | some t =>
      obtain ⟨_, hleaf, hparen⟩ := h t hnext
      simp only [hnext, hleaf, hparen, Bool.false_eq_true, if_false] at hrun
      cases hlevel : Level.ofStrayOperator? t.kind with
      | none =>
        rw [hlevel] at hrun
        cases hrun
      | some level =>
        rw [hlevel] at hrun
        have hfail (mid : ParseState) (b : Expr) (after : ParseState) :
            (failAt .noLeftOperand t : Parse Expr) mid ≠ .ok b after := fun hend => by cases hend
        exact bind_ne_ok_right (fun _ _ => bind_ne_ok_right fun _ => hfail) e after hrun

theorem exprAt_of_bars (h : Bars s) (fuel : Nat) (level : Level) (e : Expr) (after : ParseState) :
    exprAt fuel level s ≠ .ok e after := by
  induction fuel generalizing level e after with
  | zero =>
    rw [exprAt.eq_def]
    intro hrun
    cases hrun
  | succ fuel ih =>
    rw [exprAt.eq_def]
    cases level
    case unary =>
      have hnone : accept? TokenKind.isUnaryOperator s = .ok none s := by
        cases hnext : s.next? with
        | none => exact accept?_of_none hnext
        | some t => exact accept?_of_not hnext (h t hnext).1
      dsimp only
      rw [bind_of_ok hnone]
      exact ih .call e after
    case primary => exact primary_of_bars h fuel e after
    all_goals exact bind_ne_ok (ih _) e after

/-- What does not begin an expression begins another statement, and is not tried twice. -/
theorem bars_or_expression (s : ParseState) (inLoop : Bool) : Bars s ∨ ∀ fuel,
    declaration (fuel + 2) inLoop s = expressionStatement fuel s := by
  refine or_iff_not_imp_left.mpr fun hbars fuel => ?_
  cases hnext : s.next? with
  | none => exact absurd (fun t ht => nomatch hnext.symm.trans ht) hbars
  | some t =>
    have hothers {kind : TokenKind} (hkind : t.kind = kind)
        (h : ∀ t, t.kind = kind → t.kind.isUnaryOperator = false ∧ leaf? t = none ∧
          t.kind.isSymbol .leftParen = false) : False := by
      refine hbars fun t' ht' => ?_
      cases hnext.symm.trans ht'
      exact h t hkind
    have hkind : nextKind? s = .ok (some t.kind) s := by
      rw [← Option.map_some, ← hnext]
      rfl
    have hstatement : declaration (fuel + 2) inLoop s = statement (fuel + 1) inLoop s := by
      rw [declaration, bind_of_ok hkind]
      cases hk : t.kind with
      | keyword word =>
        cases word
        case «class» | «fun» | «var» | «const» =>
          exact (hothers hk fun t ht => by simp [ht, leaf?]; decide).elim
        all_goals rfl
      | _ => rfl
    rw [hstatement, statement, bind_get, hnext]
    cases hk : t.kind with
    | keyword word =>
      cases word
      case «for» | «if» | «while» | «return» | «break» | «continue» | assert | print | println =>
        exact (hothers hk fun t ht => by simp [ht, leaf?]; decide).elim
      all_goals simp only [hk]
    | symbol symbol =>
      cases symbol
      case leftBrace => exact (hothers hk fun t ht => by simp [ht, leaf?]; decide).elim
      all_goals simp only [hk]
    | _ => simp only [hk]

/-- A token that is missed is not taken. -/
theorem expectSymbol_error {symbol : Symbol} {what : String} {stop : ParseStop} {b : β}
    {after : ParseState}
    (h : (do expectSymbol symbol what; return b : Parse β) s = .error stop after) : after = s := by
  have hexpect : (∃ t mid, expect (·.isSymbol symbol) what s = .ok t mid) ∨
      ∃ stop, expect (·.isSymbol symbol) what s = .error stop s := by
    unfold expect
    cases hnext : s.next? with
    | none =>
      rw [bind_of_ok (accept?_of_none hnext)]
      exact .inr ⟨_, rfl⟩
    | some t =>
      cases hwanted : t.kind.isSymbol symbol with
      | false =>
        rw [bind_of_ok (accept?_of_not hnext hwanted)]
        exact .inr ⟨_, rfl⟩
      | true =>
        rw [bind_of_ok (accept?_of_wanted hnext hwanted)]
        exact .inl ⟨_, _, rfl⟩
  rcases hexpect with ⟨t, mid, hrun⟩ | ⟨stop, hrun⟩
  · have htaken : expectSymbol symbol what s = .ok () mid :=
      bind_of_ok (k := fun _ => pure ()) hrun
    cases (bind_of_ok htaken).symm.trans h
  · cases (bind_of_error (bind_of_error hrun)).symm.trans h
    rfl

/-- A second attempt that goes through notes the faults that the first one noted. -/
theorem honest_again {fuel : Nat} {error : GrammarError}
    {failed again after : ParseState} {e : Expr}
    (hfirst : declaration (fuel + 3) false s = .error (.error error) failed)
    (hagain : again = { failed with last := s.last, rest := s.rest, errors := s.errors })
    (hsecond : exprAt (fuel + 3) .comma again = .ok e after) (hs : s.Honest) : after.Honest := by
  have hbars : ¬Bars s := fun hbars => by
    refine exprAt_of_bars (s := again) (fun t ht => hbars t ?_) _ _ _ _ hsecond
    rw [hagain] at ht
    exact ht
  have hexpression := (bars_or_expression s false).resolve_left hbars (fuel + 1)
  rw [hfirst, expressionStatement] at hexpression
  have hbeside : Beside (.exact anyhow s again) s again :=
    beside_anyhow (by rw [hagain]) (by rw [hagain])
  have hends := ((rulesPair _ fuel (fuel + 3)).exprAt .comma).ends hbeside
  rw [hsecond] at hends
  generalize hresult : exprAt fuel .comma s = result at hends
  cases hends with
  | stuck =>
    rw [bind_of_error hresult] at hexpression
    cases hexpression
  | @ok value _ mid _ beside =>
    rw [bind_of_ok hresult] at hexpression
    have hmid : failed = mid := expectSymbol_error hexpression.symm
    obtain ⟨found, found', hnoted⟩ := beside.noted
    have hsame : found.isEmpty = found'.isEmpty := by
      cases hnoted.alike <;> rfl
    have hfailed := hnoted.failed'
    have herrors := hnoted.errors'
    simp only [Pairing.exact, hagain, hmid] at hfailed herrors
    rw [ParseState.Honest, hfailed, herrors, hnoted.failed, hsame]
    show ((s.failed || !found'.isEmpty) || !found'.isEmpty) = _
    rw [hs]
    cases s.errors <;> simp

theorem honest_acceptSymbol (hs : s.Honest) {symbol : Symbol} {b : Bool} {after : ParseState}
    (hrun : acceptSymbol symbol s = .ok b after) : after.Honest := by
  have hfound : accept? (·.isSymbol symbol) s = .ok none s ∨
      ∃ t, accept? (·.isSymbol symbol) s = .ok (some t) s.advance := by
    cases hnext : s.next? with
    | none => exact .inl (accept?_of_none hnext)
    | some t =>
      cases hwanted : t.kind.isSymbol symbol with
      | false => exact .inl (accept?_of_not hnext hwanted)
      | true => exact .inr ⟨t, accept?_of_wanted hnext hwanted⟩
  rw [acceptSymbol, accept] at hrun
  rcases hfound with hfound | ⟨t, hfound⟩
  · rw [bind_of_ok hfound] at hrun
    cases hrun
    exact hs
  · rw [bind_of_ok hfound] at hrun
    cases hrun
    exact hs.advance

/-- A declaration that is tried again. -/
theorem honest_interactiveDeclaration (hs : s.Honest) (fuel : Nat) {stmt : Stmt}
    {after : ParseState} (hrun : interactiveDeclaration (fuel + 3) s = .ok stmt after) :
    after.Honest := by
  have hattempted := interactiveDeclaration_attempted (fuel + 3) s
  rw [hrun] at hattempted
  cases hattempted with
  | declared first => exact honest_declaration hs _ _ first
  | printed first second =>
    obtain ⟨e, mid, hexpr, hrest⟩ := exists_of_bind second
    obtain ⟨_, after', haccept, hend⟩ := exists_of_bind hrest
    obtain ⟨b, after'', haccept, heq⟩ := exists_of_bind haccept
    cases heq
    cases hend
    exact honest_acceptSymbol (honest_again first rfl hexpr hs) haccept

theorem honest_item (interactive : Bool) (fuel : Nat) (hfuel : 3 ≤ fuel) (hs : s.Honest)
    {stmt : Stmt} {after : ParseState} (hrun : item interactive fuel s = .ok stmt after) :
    after.Honest := by
  obtain ⟨fuel, rfl⟩ := Nat.exists_eq_add_of_le' hfuel
  cases interactive with
  | true => exact honest_interactiveDeclaration hs fuel hrun
  | false => exact honest_declaration hs stmt after hrun

theorem honest_declarations {one : Parse Stmt}
    (hone : ∀ s : ParseState, s.Honest → ∀ stmt after, one s = .ok stmt after → after.Honest)
    (count : Nat) (hs : s.Honest) (hfinished : (declarations one count s).2.2 = true) :
    (declarations one count s).2.1.Honest := by
  induction count generalizing s with
  | zero => exact hs
  | succ count ih =>
    unfold declarations at hfinished ⊢
    split
    · exact hs
    · next hend =>
      rw [if_neg hend] at hfinished
      split at hfinished
      · next stmt after heq => exact ih (hone s hs stmt after heq) hfinished
      · next error after heq => exact ih (ParseState.Honest.note error).synchronize hfinished
      · cases hfinished

/-- There is no program just if there is a fault to report. -/
theorem program_verdict (interactive : Bool) (firstId : NodeId) (tokens : List Token) :
    (program interactive firstId tokens).statements = none ↔
      (program interactive firstId tokens).errors ≠ [] := by
  have hfinished := program_finished interactive firstId tokens
  have hhonest := honest_declarations (s := { last := none, rest := tokens, nextId := firstId })
    (fun s hs stmt after => honest_item interactive (depthBound tokens)
      (by rw [depthBound]; omega) hs) tokens.length rfl hfinished
  rw [ParseState.Honest] at hhonest
  unfold program at hfinished ⊢
  dsimp only at hfinished ⊢
  rw [hfinished, Bool.not_true, Bool.or_false, hhonest]
  cases (declarations _ _ _).2.1.errors <;> simp

end Parse

end LoxLang
