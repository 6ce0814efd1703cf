import LoxLang.Proofs.Grammar.Paired
import LoxLang.Proofs.Grammar.Program

/-!
# The declarations of a program one by one

A program without faults is read declaration by declaration, each from a portion of the tokens
(`Reads`, `reads_program`). A portion is read alike where nothing stands behind it, at an
interactive prompt too, which does not try it again (`program_of_portion`).
-/

namespace LoxLang.Parse

variable {fuel : Nat} {s : ParseState}

/-- The tokens of each declaration. -/
def portions (fuel : Nat) : Nat → ParseState → List (List Token)
  | 0, _ => []
  | count + 1, s =>
    if s.atEnd then []
    else match declaration fuel false s with
      | .ok _ after => s.rest.take (s.rest.length - after.rest.length) :: portions fuel count after
      | .error _ _ => []

/-- A declaration that is read without a fault, and its tokens. -/
structure ReadsOne (fuel : Nat) (s : ParseState) (stmt : Stmt) (tokens : List Token)
    (after : ParseState) : Prop where
  runs : declaration fuel false s = .ok stmt after
  failed : after.failed = false
  rest : s.rest = tokens ++ after.rest
  some : tokens ≠ []
  noEnd : ∀ t ∈ tokens, t.kind.isEof = false

/-- Declarations that are read without a fault up to the end, and the tokens of each. -/
inductive Reads (fuel : Nat) : ParseState → List Stmt → List (List Token) → Prop
  | done {s : ParseState} (ends : s.atEnd = true) : Reads fuel s [] []
  | next {s : ParseState} {stmt tokens after ss rest} (one : ReadsOne fuel s stmt tokens after)
    (others : Reads fuel after ss rest) : Reads fuel s (stmt :: ss) (tokens :: rest)

theorem readsOne {stmt : Stmt} {after : ParseState}
    (hrun : declaration fuel false s = .ok stmt after) (hafter : after.failed = false) :
    ReadsOne fuel s stmt (s.rest.take (s.rest.length - after.rest.length)) after := by
  obtain ⟨⟨tokens, hrest, hkind⟩, hless⟩ :=
    ((rulesTake fuel).declaration false s.rest s rfl).ok trivial hrun
  have htokens : s.rest.take (s.rest.length - after.rest.length) = tokens := by
    rw [hrest]
    simp
  rw [htokens]
  refine ⟨hrun, hafter, hrest, ?_, hkind⟩
  rintro rfl
  rw [hrest] at hless
  exact Nat.lt_irrefl _ hless

theorem ReadsOne.made {stmt : Stmt} {tokens : List Token} {after : ParseState}
    (h : ReadsOne fuel s stmt tokens after) (hs : s.Spelled) :
    after.From s.nextId ∧ stmt.Made s.nextId after.nextId :=
  ((rulesMake fuel).declaration false s.nextId s rfl).ok hs h.runs

/-- The nodes of what is still to be read have new numbers. -/
theorem Reads.made {ss : List Stmt} {parts : List (List Token)} (h : Reads fuel s ss parts)
    (hs : s.Spelled) : ∃ hi, s.nextId ≤ hi ∧ MadeBody ss s.nextId hi := by
  induction h with
  | @done s _ => exact ⟨s.nextId, Nat.le_refl _, .nil trivial⟩
  | next one _ ih =>
    obtain ⟨hfirst, hone⟩ := one.made hs
    obtain ⟨hi, hle, hmade⟩ := ih hfirst.spelled
    exact ⟨hi, Nat.le_trans hfirst.number hle, hone.pair hmade hfirst.number hle⟩

theorem Reads.length_eq {ss : List Stmt} {parts : List (List Token)} (h : Reads fuel s ss parts) :
    parts.length = ss.length := by
  induction h with
  | done => rfl
  | next _ _ ih => exact congrArg (· + 1) ih

theorem reads_declarations {count : Nat}
    (hfailed : (declarations (item false fuel) count s).2.1.failed = false)
    (hfinished : (declarations (item false fuel) count s).2.2 = true) :
    Reads fuel s (declarations (item false fuel) count s).1 (portions fuel count s) := by
  induction count generalizing s with
  | zero => exact .done hfinished
  | succ count ih =>
    have hitem : item false fuel = declaration fuel false := rfl
    unfold declarations at hfailed hfinished ⊢
    unfold portions
    cases hend : s.atEnd with
    | true => exact .done hend
    | false =>
      simp only [hend, hitem, Bool.false_eq_true, if_false] at hfailed hfinished ih ⊢
      cases hrun : declaration fuel false s with
      | error stop after =>
        simp only [hrun] at hfailed hfinished
        cases stop with
        | outOfFuel => cases hfinished
        | error error =>
          have hnoted := (declarations_wellFormed (item_yields false fuel) count
            (after.note error).synchronize).1 (ParseState.failed_synchronize _)
          cases hnoted.symm.trans hfailed
      | ok stmt after =>
        simp only [hrun] at hfailed hfinished
        have hkept := (declarations_wellFormed (item_yields false fuel) count after).1
        have hafter : after.failed = false := by
          cases hafter : after.failed with
          | false => rfl
          | true => cases (hkept hafter).symm.trans hfailed
        exact .next (readsOne hrun hafter) (ih hfailed hfinished)

/-- A program without faults, declaration by declaration. -/
theorem reads_program {firstId : NodeId} {tokens : List Token} {statements : List Stmt}
    (h : (program false firstId tokens).statements = some statements) :
    Reads (depthBound tokens) { last := none, rest := tokens, nextId := firstId } statements
      (portions (depthBound tokens) tokens.length
        { last := none, rest := tokens, nextId := firstId }) := by
  have hreads := @reads_declarations (depthBound tokens)
    { last := none, rest := tokens, nextId := firstId } tokens.length
  unfold program at h
  dsimp only at h
  split at h
  · cases h
  · next hgood =>
    cases h
    rw [Bool.or_eq_true, not_or] at hgood
    exact hreads (by simpa using hgood.1) (by simpa using hgood.2)

/-! ## A portion alone -/

/-- A parse in the midst of tokens against one of a portion of them that the end stands behind. -/
def Pairing.alone (s after : ParseState) (last : Token) (hlast : last.kind.isEof = true) :
    Pairing :=
  { Likeness.placeless Eq with
    tail := after.rest
    tail' := [last]
    errors := s.errors
    errors' := []
    failed := s.failed
    failed' := false
    lenient := true
    whole := fun h => absurd h.symm Bool.false_ne_true
    ends := fun t ht => by cases ht; exact hlast }

variable {stmt : Stmt} {tokens tokens' : List Token} {after : ParseState} {last : Token}

theorem ReadsOne.alone (h : ReadsOne fuel s stmt tokens after)
    (htokens : List.Forall₂ (Likeness.placeless Eq).token tokens tokens')
    (hlast : last.kind.isEof = true) {fuel' : Nat}
    (hbound : 20 * (tokens' ++ [last]).length + 16 ≤ fuel') :
    ∃ stmt' after', declaration fuel' false
        { last := none, rest := tokens' ++ [last], nextId := s.nextId } = .ok stmt' after' ∧
      Stmt.Alike (.placeless Eq) stmt stmt' ∧ after'.rest = [last] ∧ after'.errors = [] ∧
      after'.failed = false ∧ after'.nextId = after.nextId := by
  have hbeside : Beside (.alone s after last hlast) s
      { last := none, rest := tokens' ++ [last], nextId := s.nextId } :=
    { ahead := ⟨tokens, tokens', h.rest, rfl, htokens⟩
      last := fun h => absurd h.symm Bool.false_ne_true
      numbers := fun _ => rfl
      noted := ⟨[], [], (List.append_nil _).symm, rfl, .nil, (Bool.or_false _).symm, rfl⟩ }
  have htally := ((rulesPair (.alone s after last hlast) fuel fuel').declaration false).tallies
    trivial _ _ hbeside
  have henough := ((rulesTake fuel').declaration false (tokens' ++ [last]))
    { last := none, rest := tokens' ++ [last], nextId := s.nextId } rfl
  rw [h.runs] at htally
  generalize hresult : declaration fuel' false _ = result at htally ⊢
  cases htally with
  | stuck' => exact absurd hbound ((henough.error trivial hresult).2 rfl)
  | excused excused =>
    rcases excused.2 with hshort | hfailed
    · exact absurd hshort (Nat.lt_irrefl _)
    · cases h.failed.symm.trans hfailed
  | @ok _ stmt' _ after' beside alike =>
    refine ⟨stmt', after', rfl, alike, ?_, ?_⟩
    · obtain ⟨ts, ts', hts, hts', hsame⟩ := beside.ahead
      obtain rfl : ts = [] := List.append_left_eq_self.mp hts.symm
      cases hsame
      exact hts'
    · obtain ⟨found, found', hfound⟩ := beside.noted
      have hnone : found = [] := by
        have hfailed := hfound.failed
        rw [h.failed] at hfailed
        cases found with
        | nil => rfl
        | cons => simp at hfailed
      subst hnone
      obtain ⟨rfl⟩ := List.forall₂_nil_left_iff.mp hfound.alike
      exact ⟨hfound.errors', hfound.failed', (beside.numbers 0).symm⟩

/-- At an interactive prompt too, a portion gives the declaration that it gave in its place. -/
theorem program_of_portion (h : ReadsOne fuel s stmt tokens after)
    (htokens : List.Forall₂ (Likeness.placeless Eq).token tokens tokens')
    (hlast : last.kind.isEof = true) :
    ∃ stmt', Stmt.Alike (.placeless Eq) stmt stmt' ∧
      program true s.nextId (tokens' ++ [last]) =
        { statements := some [stmt'], errors := [], nextId := after.nextId, finished := true } := by
  obtain ⟨stmt', after', hrun, halike, hrest, herrors, hfailed, hnumbers⟩ :=
    h.alone htokens hlast
      (show 20 * (tokens' ++ [last]).length + 16 ≤ depthBound (tokens' ++ [last]) by
        rw [depthBound]
        omega)
  refine ⟨stmt', halike, ?_⟩
  have hitem : item true (depthBound (tokens' ++ [last]))
      { last := none, rest := tokens' ++ [last], nextId := s.nextId } = .ok stmt' after' := by
    show interactiveDeclaration _ _ = _
    rw [interactiveDeclaration, hrun]
  have hend : after'.atEnd = true := by
    rw [ParseState.atEnd, ParseState.next?, hrest]
    dsimp only
    rw [if_pos hlast]
    rfl
  have hstart : ParseState.atEnd
      { last := none, rest := tokens' ++ [last], nextId := s.nextId } = false := by
    have hne := h.some
    have hkind := h.noEnd
    cases htokens with
    | nil => exact absurd rfl hne
    | cons ht _ =>
      simp [ParseState.atEnd, ParseState.next?, ← ht.1, hkind _ List.mem_cons_self]
  obtain ⟨count, hcount⟩ : ∃ count, (tokens' ++ [last]).length = count + 1 :=
    ⟨tokens'.length, by simp⟩
  unfold program
  rw [hcount, declarations, hstart, if_neg Bool.false_ne_true, hitem]
  simp only [declarations_of_atEnd hend, hfailed, herrors, hnumbers, Bool.not_true, Bool.or_false,
    Bool.false_eq_true, if_false]

end LoxLang.Parse
