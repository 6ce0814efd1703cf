/-!
# Steps in sequence

The grammar and the machine are made of steps that carry a state along, also when they stop. A step
with another one behind it goes well if both do (`exists_of_bind`), and stops where one of them does
(`error_of_bind`).
-/

namespace LoxLang

section Sequence

variable {ε σ α β : Type} {act : EStateM ε σ α} {k : α → EStateM ε σ β} {s mid after : σ}

theorem bind_of_ok {a : α} (h : act s = .ok a mid) : (act >>= k) s = k a mid := by
  show EStateM.bind act k s = k a mid
  rw [EStateM.bind, h]

theorem bind_of_error {e : ε} (h : act s = .error e mid) : (act >>= k) s = .error e mid := by
  show EStateM.bind act k s = .error e mid
  rw [EStateM.bind, h]

theorem exists_of_bind {b : β} (h : (act >>= k) s = .ok b after) :
    ∃ a mid, act s = .ok a mid ∧ k a mid = .ok b after := by
  cases hact : act s with
  | ok a mid => exact ⟨a, mid, rfl, (bind_of_ok hact).symm.trans h⟩
  | error e mid => cases (bind_of_error hact).symm.trans h

theorem error_of_bind {e : ε} (h : (act >>= k) s = .error e after) :
    act s = .error e after ∨ ∃ a mid, act s = .ok a mid ∧ k a mid = .error e after := by
  cases hact : act s with
  | ok a mid => exact .inr ⟨a, mid, rfl, (bind_of_ok hact).symm.trans h⟩
  | error e mid =>
    cases (bind_of_error hact).symm.trans h
    exact .inl rfl

end Sequence

end LoxLang
