import LoxLang.Proofs.Grammar.Rounds

/-!
# Where parsing resumes

Behind a declaration that fails, parsing goes on at the nearest boundary behind the token that the
cursor stands at (`Tape.resumes_behind_token`). This token is skipped even if it begins a statement
itself, so a statement that directly follows one without its semicolon is lost.
-/

namespace LoxLang

namespace Tape

/-- A token at this place begins a statement. -/
def BeginsAt (tokens : List Token) (place : Nat) : Prop :=
  ∃ t, tokens[place]? = some t ∧ t.kind.beginsStatement = true

/-- A boundary where the tokens before the point of the failure do not count. -/
def BoundaryFrom (tokens : List Token) (start place : Nat) : Prop :=
  (∃ t, tokens[place]? = some t ∧ (t.kind.isEof = true ∨ t.kind.beginsStatement = true)) ∨
    start < place ∧ ∃ t, before? tokens place = some t ∧ t.kind.isSymbol .semicolon = true

variable {tokens : List Token} {p q : Tape}

theorem boundaryFrom_iff {start place : Nat} (h : start < place) :
    BoundaryFrom tokens start place ↔ Boundary tokens place :=
  or_congr_right (and_iff_right h)

/-- Parsing resumes at the nearest boundary behind the token where a declaration failed. If that
token does not begin a statement, then this is the nearest boundary from there on; else it is
further on, and the statement is skipped. -/
theorem resumes_behind_token (hend : Ended tokens) {interactive : Bool} {firstId : NodeId}
    {error : GrammarError} (hhead : Head tokens interactive firstId p)
    (hfailed : item tokens interactive (Parse.depthBound tokens) p = .error (.error error) q)
    (hmore : ∀ t ∈ tokens[q.position]?, t.kind.isEof = false) :
    ∃ place, round tokens interactive (Parse.depthBound tokens) p = .ok none (q.left error place) ∧
      NearestBoundary tokens (q.position + 1) place ∧
      (¬BeginsAt tokens q.position → BoundaryFrom tokens q.position place ∧
        ∀ other, q.position ≤ other → other < place → ¬BoundaryFrom tokens q.position other) ∧
      (BeginsAt tokens q.position → BoundaryFrom tokens q.position q.position ∧
        q.position < place) := by
  obtain ⟨_, _, hitem, -⟩ | ⟨_, _, hitem, -, hq, -⟩ :=
    item_at hend interactive (hhead.sits hend) (Nat.le_refl _)
  · cases hfailed.symm.trans hitem
  cases hfailed.symm.trans hitem
  have hnot := hq.atEnd_of_more hmore
  obtain ⟨place, hround, -, hresumes, -⟩ := round_of_error hend hfailed hq
    fun hatEnd => absurd (hnot.symm.trans hatEnd) Bool.false_ne_true
  have hnearest := hresumes.skipped hnot
  refine ⟨place, hround, hnearest, fun hbegins => ⟨?_, fun other hle hlt => ?_⟩, fun hbegins =>
    ⟨.inl (hbegins.imp fun _ h => ⟨h.1, .inr h.2⟩), hnearest.le⟩⟩
  · exact (boundaryFrom_iff hnearest.le).mpr hnearest.boundary
  -- Only at the point of the failure itself do the two readings of a boundary differ.
  · rcases Nat.eq_or_lt_of_le hle with rfl | hlater
    · rintro (⟨t, ht, heof | hbegin⟩ | ⟨hself, -⟩)
      · exact Bool.false_ne_true ((hmore t ht).symm.trans heof)
      · exact hbegins ⟨t, ht, hbegin⟩
      · exact Nat.lt_irrefl _ hself
    · rw [boundaryFrom_iff hlater]
      exact hnearest.least other hlater hlt

/-- The place where a read fails. -/
def failedAt? {α : Type} : EStateM.Result Stop Tape α → Option Nat
  | .error (.error _) p => some p.position
  | _ => none

theorem exists_of_failedAt? {α : Type} {result : EStateM.Result Stop Tape α} {place : Nat}
    (h : failedAt? result = some place) :
    ∃ error p, result = .error (.error error) p ∧ p.position = place := by
  unfold failedAt? at h
  split at h
  · exact ⟨_, _, rfl, Option.some.inj h⟩
  · cases h

/-- In `var a = 1 var b = ;` the first declaration fails at the second `var`, and parsing resumes at
the end: nothing is said about the second declaration. -/
theorem resumes_behind_token_var :
    let tokens : List Token := [⟨.keyword .var, "var", 1, ⟨0, 3⟩⟩, ⟨.identifier, "a", 1, ⟨4, 5⟩⟩,
      ⟨.symbol .equal, "=", 1, ⟨6, 7⟩⟩, ⟨.number (.int 1), "1", 1, ⟨8, 9⟩⟩,
      ⟨.keyword .var, "var", 1, ⟨10, 13⟩⟩, ⟨.identifier, "b", 1, ⟨14, 15⟩⟩,
      ⟨.symbol .equal, "=", 1, ⟨16, 17⟩⟩, ⟨.symbol .semicolon, ";", 1, ⟨18, 19⟩⟩,
      ⟨.eof, "", 1, ⟨19, 19⟩⟩]
    Ended tokens ∧ BoundaryFrom tokens 4 4 ∧ ∃ error q,
      item tokens false (Parse.depthBound tokens) {} = .error (.error error) q ∧ q.position = 4 ∧
        round tokens false (Parse.depthBound tokens) {} = .ok none (q.left error 8) := by
  intro tokens
  have hend : Ended tokens := ⟨tokens.dropLast, _, rfl, rfl⟩
  obtain ⟨error, q, hitem, hposition⟩ := exists_of_failedAt?
    (show failedAt? (item tokens false (Parse.depthBound tokens) {}) = some 4 by decide +kernel)
  obtain ⟨place, hround, hnearest, -, hbegins⟩ :=
    resumes_behind_token hend (Head.start : Head tokens false 0 {}) hitem fun t ht => by
      rw [hposition] at ht
      cases ht
      rfl
  rw [hposition] at hnearest hbegins
  have hleast : ∀ other < 8, 5 ≤ other → ¬Boundary tokens other := by decide
  have hplace : NearestBoundary tokens (4 + 1) 8 :=
    ⟨by decide, by decide, fun other hle hlt => hleast other hlt hle⟩
  exact ⟨hend, (hbegins ⟨_, rfl, rfl⟩).1, error, q, hitem, hposition,
    hnearest.unique hplace ▸ hround⟩

end Tape

end LoxLang
