import LoxLang.Proofs.Grammar.Rounds

/-!
# Parsing is total

A list of tokens that ends with an end token is parsed to its end, whatever else is in it
(`Tape.parsing_is_total`).
-/

namespace LoxLang

namespace Tape

/-- A parse of a list that ends with an end token comes to its end. The cursor never leaves the
list, and each round of the loop over the declarations moves it on, also where a declaration and the
second attempt at it fail. -/
theorem parsing_is_total {tokens : List Token} (hend : Ended tokens) (interactive : Bool)
    (firstId : NodeId) :
    program tokens interactive firstId = some (Parse.program interactive firstId tokens) ∧
      (Parse.program interactive firstId tokens).finished = true ∧
      ∀ {p : Tape}, Head tokens interactive firstId p →
        p.position < tokens.length ∧
        ((∀ t ∈ tokens[p.position]?, t.kind.isEof = false) → ∃ result q,
          round tokens interactive (Parse.depthBound tokens) p = .ok result q ∧
            p.position < q.position) := by
  refine ⟨program_eq hend interactive firstId, Parse.program_finished interactive firstId tokens,
    fun hhead => ?_⟩
  have hp := hhead.sits hend
  refine ⟨hp.inside, fun hmore => ?_⟩
  obtain ⟨result, q, hround, -, hlt, -⟩ :=
    round_at hend interactive hp (hp.atEnd_of_more hmore) (Nat.le_refl _)
  exact ⟨result, q, hround, hlt⟩

/-- Neither attempt at a closing parenthesis takes a token, but the round does. -/
theorem parsing_is_total_at_paren :
    let tokens : List Token := [⟨.symbol .rightParen, ")", 1, ⟨0, 1⟩⟩, ⟨.eof, "", 1, ⟨1, 1⟩⟩]
    Ended tokens ∧ program tokens true 0 = some (Parse.program true 0 tokens) ∧
      ∃ result q, round tokens true (Parse.depthBound tokens) {} = .ok result q ∧
        0 < q.position := by
  intro tokens
  have hend : Ended tokens := ⟨[⟨.symbol .rightParen, ")", 1, ⟨0, 1⟩⟩], _, rfl, rfl⟩
  obtain ⟨hprogram, -, hrounds⟩ := parsing_is_total hend true 0
  refine ⟨hend, hprogram, (hrounds .start).2 fun t ht => ?_⟩
  cases ht
  rfl

end Tape

end LoxLang
