import LoxLang.Proofs.Grammar.Attempt
import LoxLang.Proofs.Grammar.Making

/-!
# Programs as the grammar makes them

A program that is read is regular, and its numbers begin where those of earlier programs end
(`program_made`). Declarations that are given up, and lines that are read twice at an interactive
prompt, use up numbers too.
-/

namespace LoxLang

namespace ParseState

theorem nextId_synchronize (s : ParseState) : s.synchronize.nextId = s.nextId :=
  s.nextId_advance

theorem spelled_skipTokens {last : Option Token} {rest : List Token} (h : ∀ t ∈ rest, t.Spelled) :
    ∀ t ∈ (skipTokens last rest).2, t.Spelled := by
  induction rest generalizing last with
  | nil => exact h
  | cons first rest ih =>
    unfold skipTokens
    split
    · exact h
    · split
      · exact h
      · split
        · exact h
        · exact ih (List.forall_mem_cons.mp h).2

theorem Spelled.synchronize {s : ParseState} (h : s.Spelled) : s.synchronize.Spelled :=
  spelled_skipTokens h.advance

/-- A declaration that is given up. -/
theorem From.skip {lo : NodeId} {s : ParseState} (h : s.From lo) (error : GrammarError) :
    (s.note error).synchronize.From lo where
  number := by
    rw [nextId_synchronize]
    exact h.number
  spelled := Spelled.synchronize (s := s.note error) h.spelled

end ParseState

namespace Parse

theorem expressionAgain_gives (fuel : Nat) (lo : NodeId) :
    Gives lo (expressionAgain fuel) fun s hi => s.Made lo hi :=
  ((rulesMake fuel).exprAt .comma lo).bind fun _ _ _ hv =>
    Quiet.andThen Quiet.acceptSymbol.discard fun _ => .pure hv

theorem interactiveDeclaration_gives (fuel : Nat) (lo : NodeId) :
    Gives lo (interactiveDeclaration fuel) fun s hi => s.Made lo hi := by
  rintro s rfl
  refine .assuming fun hspelled => .interactiveDeclaration
    ((rulesMake fuel).declaration false s.nextId s rfl)
    (fun failed hfailed => ⟨hfailed.number, hspelled⟩) (fun failed hfailed => ?_)
    fun _ _ hfailed hagain => ⟨Nat.le_trans hfailed.number hagain.number, hfailed.spelled⟩
  exact (expressionAgain_gives fuel failed.nextId (again s failed) rfl).imp fun _ _ _ hmade =>
    hmade.mono hfailed.number (Nat.le_refl _)

theorem declarations_made {one : Parse Stmt}
    (hone : ∀ lo, Gives lo one fun s hi => s.Made lo hi) (count : Nat) (s : ParseState)
    (hspelled : s.Spelled) :
    s.nextId ≤ (declarations one count s).2.1.nextId ∧
      MadeBody (declarations one count s).1 s.nextId (declarations one count s).2.1.nextId := by
  induction count generalizing s with
  | zero => exact ⟨Nat.le_refl _, .nil trivial⟩
  | succ count ih =>
    have hgives := hone s.nextId s rfl
    unfold declarations
    split
    · exact ⟨Nat.le_refl _, .nil trivial⟩
    · split
      · next stmt after heq =>
        obtain ⟨hfrom, hstmt⟩ := hgives.ok hspelled heq
        obtain ⟨hlo, hmade⟩ := ih after hfrom.spelled
        exact ⟨Nat.le_trans hfrom.number hlo, hstmt.pair hmade hfrom.number hlo⟩
      · next error after heq =>
        have hskipped := (hgives.error hspelled heq).1.skip error
        obtain ⟨hlo, hmade⟩ := ih (after.note error).synchronize hskipped.spelled
        exact ⟨Nat.le_trans hskipped.number hlo, hmade.mono hskipped.number (Nat.le_refl _)⟩
      · next after heq =>
        exact ⟨(hgives.error hspelled heq).1.number, .nil trivial⟩

variable {interactive : Bool} {firstId : NodeId} {tokens : List Token}

theorem item_gives (interactive : Bool) (fuel : Nat) (lo : NodeId) :
    Gives lo (item interactive fuel) fun s hi => s.Made lo hi :=
  .ite (fun _ => interactiveDeclaration_gives fuel lo)
    fun _ => (rulesMake fuel).declaration false lo

theorem firstId_le_nextId (htokens : ∀ t ∈ tokens, t.Spelled) :
    firstId ≤ (program interactive firstId tokens).nextId :=
  (declarations_made (item_gives interactive (depthBound tokens)) tokens.length
    { last := none, rest := tokens, nextId := firstId } htokens).1

theorem program_made {statements : List Stmt} (htokens : ∀ t ∈ tokens, t.Spelled)
    (h : (program interactive firstId tokens).statements = some statements) :
    MadeBody statements firstId (program interactive firstId tokens).nextId := by
  have hmade := (declarations_made (item_gives interactive (depthBound tokens))
    tokens.length { last := none, rest := tokens, nextId := firstId } htokens).2
  unfold program at h ⊢
  dsimp only at h ⊢
  split at h
  · cases h
  · cases h
    exact hmade

end Parse

end LoxLang
