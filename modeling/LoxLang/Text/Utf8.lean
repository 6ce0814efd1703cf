/-!
# Byte offsets into text

Places in a source are counted in UTF-8 bytes while the text itself is a list of characters. This
module measures a text in bytes and cuts it at a byte offset.
-/

namespace LoxLang.Text

/-- Length of a text in UTF-8 bytes. -/
def byteLength : List Char → Nat
  | [] => 0
  | c :: cs => c.utf8Size + byteLength cs

/-- Cut a text after the given number of bytes. There is no such cut past the end of the text or in
the middle of a character. -/
def splitAtByte? : Nat → List Char → Option (List Char × List Char)
  | 0, cs => some ([], cs)
  | _ + 1, [] => none
  | n + 1, c :: cs =>
    if n + 1 < c.utf8Size then none
    else (splitAtByte? (n + 1 - c.utf8Size) cs).map fun (front, back) => (c :: front, back)

/-- The number of line feeds. -/
def lineFeeds (cs : List Char) : Nat :=
  cs.count '\n'

/-- The longest beginning without a line feed. -/
def firstLine (cs : List Char) : List Char :=
  cs.takeWhile (· ≠ '\n')

/-- What follows the last line feed. -/
def lastLine (cs : List Char) : List Char :=
  (firstLine cs.reverse).reverse

@[simp] theorem byteLength_append (front back : List Char) :
    byteLength (front ++ back) = byteLength front + byteLength back := by
  induction front with
  | nil => simp [byteLength]
  | cons c cs ih => simp [byteLength, ih]; omega

/-- A cut at the length of the front part gives back both parts. -/
theorem splitAtByte?_byteLength (front back : List Char) :
    splitAtByte? (byteLength front) (front ++ back) = some (front, back) := by
  induction front with
  | nil => cases back <;> rfl
  | cons c cs ih =>
    have hpos : 0 < c.utf8Size := c.utf8Size_pos
    obtain ⟨n, hn⟩ : ∃ n, c.utf8Size + byteLength cs = n + 1 :=
      ⟨c.utf8Size + byteLength cs - 1, by omega⟩
    have hle : ¬ n + 1 < c.utf8Size := by omega
    have hsub : n + 1 - c.utf8Size = byteLength cs := by omega
    simp [byteLength, hn, splitAtByte?, hle, hsub, ih]

/-- A cut loses nothing and falls where it was asked for. -/
theorem append_of_splitAtByte? {n : Nat} {cs front back : List Char}
    (h : splitAtByte? n cs = some (front, back)) : front ++ back = cs ∧ byteLength front = n := by
  induction cs generalizing n front back with
  | nil =>
    cases n with
    | zero => simp only [splitAtByte?, Option.some.injEq, Prod.mk.injEq] at h; simp [← h.1, ← h.2, byteLength]
    | succ n => simp [splitAtByte?] at h
  | cons c cs ih =>
    cases n with
    | zero => simp only [splitAtByte?, Option.some.injEq, Prod.mk.injEq] at h; simp [← h.1, ← h.2, byteLength]
    | succ n =>
      simp only [splitAtByte?] at h
      split at h
      · simp at h
      · obtain ⟨⟨front', back'⟩, hsplit, heq⟩ := Option.map_eq_some_iff.1 h
        simp only [Prod.mk.injEq] at heq
        obtain ⟨hfront, hback⟩ := ih hsplit
        rw [← heq.1, ← heq.2]
        simp only [List.cons_append, hfront, byteLength, hback, true_and]
        omega

end LoxLang.Text
