import LoxLang.Text.Unprintable

/-!
# Quoted text

A text between double quotes in which every character shows: a character that cannot be printed is
written as its number.
-/

namespace LoxLang.Text

/-- A character as it stands between quotes. -/
def escape (c : Char) : List Char :=
  match c with
  | '"' => ['\\', '"']
  | '\\' => ['\\', '\\']
  | '\n' => ['\\', 'n']
  | '\r' => ['\\', 'r']
  | '\t' => ['\\', 't']
  | '\x00' => ['\\', '0']
  | c =>
    if isUnprintable c then '\\' :: 'u' :: '{' :: (Nat.toDigits 16 c.toNat ++ ['}'])
    else [c]

def quoted (cs : List Char) : List Char :=
  '"' :: (cs.flatMap escape ++ ['"'])

example : quoted ['a', '"', '\u00a0'] =
    ['"', 'a', '\\', '"', '\\', 'u', '{', 'a', '0', '}', '"'] := by
  decide +kernel

theorem escape_eq {c : Char} (hprint : isUnprintable c = false) (hquote : c ≠ '"')
    (hslash : c ≠ '\\') : escape c = [c] := by
  unfold escape
  split
  · exact absurd rfl hquote
  · exact absurd rfl hslash
  iterate 4 exact absurd hprint (by decide +kernel)
  simp [hprint]

/-- A text of printable characters without quotes and backslashes stands between the quotes as it
is. -/
theorem quoted_eq {cs : List Char} (hprint : ∀ c ∈ cs, isUnprintable c = false)
    (hquote : '"' ∉ cs) (hslash : '\\' ∉ cs) : quoted cs = '"' :: (cs ++ ['"']) := by
  have same : cs.flatMap escape = cs := by
    induction cs with
    | nil => rfl
    | cons c cs ih =>
      simp only [List.mem_cons, not_or, forall_eq_or_imp] at hprint hquote hslash
      simp [escape_eq hprint.1 (Ne.symm hquote.1) (Ne.symm hslash.1),
        ih hprint.2 hquote.2 hslash.2]
  rw [quoted, same]

end LoxLang.Text
