import LoxLang.Proofs.Grammar.Paired

/-!
# Programs side by side

Two parses of tokens that correspond give programs that are alike and report faults that are alike,
also where declarations are given up or tried again (`program_alike`). So the number of the first
node does not matter.
-/

namespace LoxLang

variable {l : Likeness}

/-- Two parses between declarations. -/
structure ParseState.Alike (l : Likeness) (s s' : ParseState) : Prop where
  rest : List.Forall₂ l.token s.rest s'.rest
  last : Option.Rel l.token s.last s'.last
  errors : List.Forall₂ (GrammarError.Alike l) s.errors s'.errors
  failed : s.failed = s'.failed
  numbers : ∀ m, l.node (s.nextId + m) (s'.nextId + m)

namespace ParseState.Alike

variable {s s' : ParseState}

theorem beside (h : s.Alike l s') : Parse.Beside (.exact l s s') s s' :=
  .exact h.rest h.last h.numbers

/-- Behind steps that go together. -/
theorem of_beside {after after' : ParseState} (h : s.Alike l s')
    (hafter : Parse.Beside (.exact l s s') after after') : after.Alike l after' := by
  obtain ⟨ts, ts', hts, hts', htokens⟩ := hafter.ahead
  obtain ⟨found, found', hfound⟩ := hafter.noted
  refine ⟨?_, hafter.last rfl, ?_, ?_, hafter.numbers⟩
  · rw [hts, hts']
    exact List.rel_append htokens .nil
  · rw [hfound.errors, hfound.errors']
    exact List.rel_append h.errors hfound.alike
  · have hsame : found.isEmpty = found'.isEmpty := by
      cases hfound.alike <;> rfl
    rw [hfound.failed, hfound.failed', hsame]
    exact congrArg (· || !found'.isEmpty) h.failed

theorem note (h : s.Alike l s') {error error' : GrammarError} (herror : error.Alike l error') :
    (s.note error).Alike l (s'.note error') :=
  ⟨h.rest, h.last, List.rel_append h.errors (.cons herror .nil), rfl, h.numbers⟩

theorem next? (h : s.Alike l s') : Option.Rel l.token s.next? s'.next? := by
  have hrest := h.rest
  unfold ParseState.next?
  generalize s.rest = rest, s'.rest = rest' at hrest
  cases hrest with
  | nil => exact .none
  | cons ht _ =>
    dsimp only
    rw [← l.kind ht]
    split
    · exact .none
    · exact .some ht

theorem atEnd (h : s.Alike l s') : s.atEnd = s'.atEnd := by
  have hnext := h.next?
  unfold ParseState.atEnd
  generalize s.next? = next, s'.next? = next' at hnext
  cases hnext <;> rfl

theorem advance (h : s.Alike l s') : s.advance.Alike l s'.advance := by
  have hnext := h.next?
  have hrest := h.rest
  unfold ParseState.advance
  generalize s.next? = next, s'.next? = next' at hnext
  cases hnext with
  | none => exact h
  | some ht =>
    refine ⟨?_, .some ht, h.errors, h.failed, h.numbers⟩
    show List.Forall₂ l.token s.rest.tail s'.rest.tail
    generalize s.rest = rest, s'.rest = rest' at hrest
    cases hrest with
    | nil => exact .nil
    | cons _ htail => exact htail

theorem skipTokens {last last' : Option Token} {rest rest' : List Token}
    (hlast : Option.Rel l.token last last') (hrest : List.Forall₂ l.token rest rest') :
    Option.Rel l.token (skipTokens last rest).1 (skipTokens last' rest').1 ∧
      List.Forall₂ l.token (skipTokens last rest).2 (skipTokens last' rest').2 := by
  induction hrest generalizing last last' with
  | nil => exact ⟨hlast, .nil⟩
  | cons ht hrest ih =>
    have hsemicolon : (last.any fun t => t.kind.isSymbol .semicolon) =
        last'.any fun t => t.kind.isSymbol .semicolon := by
      cases hlast with
      | none => rfl
      | some hlast => rw [Option.any_some, Option.any_some, l.kind hlast]
    unfold ParseState.skipTokens
    rw [← l.kind ht, ← hsemicolon]
    split
    · exact ⟨hlast, .cons ht hrest⟩
    · split
      · exact ⟨hlast, .cons ht hrest⟩
      · split
        · exact ⟨hlast, .cons ht hrest⟩
        · exact ih (.some ht)

theorem synchronize (h : s.Alike l s') : s.synchronize.Alike l s'.synchronize := by
  obtain ⟨hlast, hrest⟩ := skipTokens h.advance.last h.advance.rest
  exact ⟨hrest, hlast, h.advance.errors, h.advance.failed, h.advance.numbers⟩

end ParseState.Alike

namespace Parse

variable {α : Type} {s s' : ParseState} {act act' : Parse α} {Q : α → α → Prop}

/-- Results between declarations. A bound that is too small is too small for both. -/
inductive Alike (l : Likeness) (Q : α → α → Prop) :
    EStateM.Result ParseStop ParseState α → EStateM.Result ParseStop ParseState α → Prop
  | ok {a a' after after'} (state : after.Alike l after') (alike : Q a a') :
    Alike l Q (.ok a after) (.ok a' after')
  | error {error error' after after'} (state : after.Alike l after')
    (alike : error.Alike l error') :
    Alike l Q (.error (.error error) after) (.error (.error error') after')

/-- Steps that go together and do not reach their bounds. -/
theorem Pairs.alike (h : Pairs (.exact l s s') 1 True act act' Q) (hs : s.Alike l s')
    (henough : ∀ after, act s ≠ .error .outOfFuel after)
    (henough' : ∀ after, act' s' ≠ .error .outOfFuel after) : Alike l Q (act s) (act' s') := by
  have hends := h.ends hs.beside
  generalize act s = result, act' s' = result' at hends henough henough'
  cases hends with
  | ok beside alike => exact .ok (hs.of_beside beside) alike
  | error beside alike => exact .error (hs.of_beside beside) alike
  | stuck => exact absurd rfl (henough _)
  | stuck' => exact absurd rfl (henough' _)

theorem not_stuck {rest : List Token} {P : α → List Token → Prop} (h : Takes rest True act P)
    (hs : s.rest = rest) (after : ParseState) : act s ≠ .error .outOfFuel after := fun hrun =>
  ((h s hs).error trivial hrun).2 rfl trivial

theorem expressionAgain_alike {fuel : Nat} (hs : s.Alike l s')
    (hbound : 20 * s.rest.length + 16 ≤ fuel) :
    Alike l (Stmt.Alike l) (expressionAgain fuel s) (expressionAgain fuel s') := by
  have hlength := hs.rest.length_eq
  have hpairs (p : Pairing) :
      Pairs p 1 True (expressionAgain fuel) (expressionAgain fuel) (Stmt.Alike p.toLikeness) :=
    ((rulesPair p fuel fuel).exprAt .comma).andThen fun value value' =>
      Pairs.acceptSymbol.discard.bind fun _ _ => .pure fun h => .println h.1.2
  exact (hpairs _).alike hs
    (not_stuck ((expressionAgain_takes fuel s.rest).given fun _ => hbound) rfl)
    (not_stuck ((expressionAgain_takes fuel s'.rest).given fun _ => by omega) rfl)

theorem interactiveDeclaration_alike {fuel : Nat} (hs : s.Alike l s')
    (hbound : 20 * s.rest.length + 16 ≤ fuel) :
    Alike l (Stmt.Alike l) (interactiveDeclaration fuel s) (interactiveDeclaration fuel s') := by
  have hlength := hs.rest.length_eq
  have hfirst := ((rulesPair _ fuel fuel).declaration (R := True) false).alike hs
    (not_stuck (((rulesTake fuel).declaration false s.rest).given fun _ => hbound) rfl)
    (not_stuck (((rulesTake fuel).declaration false s'.rest).given fun _ => by omega) rfl)
  generalize hrun : declaration fuel false s = result, hrun' : declaration fuel false s' = result'
    at hfirst
  cases hfirst with
  | ok state alike =>
    rw [(Attempted.declared hrun).eq, (Attempted.declared hrun').eq]
    exact .ok state alike
  | @error _ _ failed failed' state alike =>
    have hretried : (again s failed).Alike l (again s' failed') :=
      ⟨hs.rest, hs.last, hs.errors, state.failed, state.numbers⟩
    have hsecond := expressionAgain_alike hretried hbound
    generalize hrun₂ : expressionAgain fuel (again s failed) = result,
      hrun₂' : expressionAgain fuel (again s' failed') = result' at hsecond
    cases hsecond with
    | ok state alike =>
      rw [(Attempted.printed hrun hrun₂).eq, (Attempted.printed hrun' hrun₂').eq]
      exact .ok state alike
    | error state' _ =>
      rw [(Attempted.refused hrun hrun₂).eq, (Attempted.refused hrun' hrun₂').eq]
      exact .error ⟨state.rest, state.last, state.errors, state.failed, state'.numbers⟩ alike

theorem item_alike {interactive : Bool} {fuel : Nat} (hs : s.Alike l s')
    (hbound : 20 * s.rest.length + 16 ≤ fuel) :
    Alike l (Stmt.Alike l) (item interactive fuel s) (item interactive fuel s') := by
  have hlength := hs.rest.length_eq
  cases interactive with
  | true => exact interactiveDeclaration_alike hs hbound
  | false =>
    exact ((rulesPair _ fuel fuel).declaration (R := True) false).alike hs
      (not_stuck (((rulesTake fuel).declaration false s.rest).given fun _ => hbound) rfl)
      (not_stuck (((rulesTake fuel).declaration false s'.rest).given fun _ => by omega) rfl)

/-- Reading declarations from the same number of tokens. -/
theorem declarations_alike (one : Parse Stmt) (bound : Nat)
    (hone : ∀ s s' : ParseState, s.Alike l s' → s.rest.length ≤ bound →
      Alike l (Stmt.Alike l) (one s) (one s'))
    (htakes : ∀ rest : List Token, rest.length ≤ bound → TakesSome rest True one) (count : Nat)
    (hs : s.Alike l s') (hbound : s.rest.length ≤ bound) :
    AlikeBody l (declarations one count s).1 (declarations one count s').1 ∧
      (declarations one count s).2.1.Alike l (declarations one count s').2.1 ∧
      (declarations one count s).2.2 = (declarations one count s').2.2 := by
  induction count generalizing s s' with
  | zero => exact ⟨.nil, hs, hs.atEnd⟩
  | succ count ih =>
    have hrun := hone s s' hs hbound
    have hlength := htakes s.rest hbound s rfl trivial
    rw [declarations, declarations, ← hs.atEnd]
    split
    · exact ⟨.nil, hs, rfl⟩
    · generalize one s = result, one s' = result' at hrun hlength
      cases hrun with
      | ok state alike =>
        obtain ⟨hstatements, hfinal, hfinished⟩ := ih state (by have := hlength.2; omega)
        exact ⟨.cons alike hstatements, hfinal, hfinished⟩
      | @error error error' after after' state alike =>
        have hle : after.rest.length ≤ s.rest.length := hlength.1.length_le
        have hremains : (after.note error).synchronize.rest.length ≤ after.rest.length :=
          ((ParseState.remains_skipTokens _ _).trans (ParseState.remains_advance _)).length_le
        exact ih (state.note alike).synchronize (by omega)

end Parse

/-- Results of parses that are alike. -/
structure ParseResult.Alike (l : Likeness) (result result' : ParseResult) : Prop where
  statements : Option.Rel (AlikeBody l) result.statements result'.statements
  errors : List.Forall₂ (GrammarError.Alike l) result.errors result'.errors
  numbers : ∀ m, l.node (result.nextId + m) (result'.nextId + m)

namespace Parse

theorem program_alike (interactive : Bool) {firstId firstId' : NodeId} {tokens tokens' : List Token}
    (htokens : List.Forall₂ l.token tokens tokens')
    (hnumbers : ∀ m, l.node (firstId + m) (firstId' + m)) :
    (program interactive firstId tokens).Alike l (program interactive firstId' tokens') := by
  have hlength := htokens.length_eq
  have hstart : ParseState.Alike l { last := none, rest := tokens, nextId := firstId }
      { last := none, rest := tokens', nextId := firstId' } :=
    ⟨htokens, .none, .nil, rfl, hnumbers⟩
  obtain ⟨hstatements, hfinal, hfinished⟩ := declarations_alike
    (item interactive (depthBound tokens)) tokens.length
    (fun s s' hs hle => item_alike hs (by rw [depthBound]; omega))
    (fun rest hle => (item_takes interactive (depthBound tokens) rest).given fun _ => by
      rw [depthBound]; omega) tokens.length hstart (Nat.le_refl _)
  have hdepth : depthBound tokens = depthBound tokens' := by rw [depthBound, depthBound, hlength]
  unfold program
  rw [← hdepth, ← hlength]
  dsimp only
  refine ⟨?_, hfinal.errors, hfinal.numbers⟩
  rw [← hfinal.failed, ← hfinished]
  split
  · exact .none
  · exact .some hstatements

end Parse

end LoxLang
