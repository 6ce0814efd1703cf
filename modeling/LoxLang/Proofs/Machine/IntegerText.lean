import LoxLang.Proofs.Grammar.Prompt
import LoxLang.Proofs.Machine.Natives
import LoxLang.Proofs.Token.Integers

/-!
# Integers as texts and back

The text that an integer is printed as is read back as that integer: by `parse_int`, with blanks
around it, and as a program. The scanner makes one literal of it, or a minus and a literal, and this
evaluates to the integer (`TextRoundTrip`). Only the least integer is not written so: its size is no
64-bit integer.
-/

namespace LoxLang

/-! ## Expressions for integers -/

/-- A literal or, for an integer below zero, the negative of a literal. -/
inductive Expr.IsInteger (n : Int64) : Expr → Prop
  | literal : IsInteger n (.literal (.number (.int n)))
  | negative {operator : Token} {size : Int64} (hoperator : operator.kind = .symbol .minus)
    (hsize : -size.toInt = n.toInt) :
    IsInteger n (.unary operator (.literal (.number (.int size))))

/-- The expression that the text of an integer is read as. -/
def Expr.ofInteger (n : Int64) : Expr :=
  if n.toInt < 0 then
    .unary (.ofSymbol .minus) (.literal (.number (.int (Int64.ofNat n.toInt.natAbs))))
  else .literal (.number (.int n))

namespace Expr.IsInteger

variable {n : Int64} {e e' : Expr} {l : Likeness}

theorem evaluate (h : e.IsInteger n) (fuel : Nat) (lookup : Lookup) (m : Machine) :
    Eval.evaluate (fuel + 2) lookup e m = .ok (.int n) m := by
  cases h with
  | literal => exact Eval.evaluate_numeral (.int n) (fuel + 1) lookup m
  | @negative operator size hoperator hsize =>
    have hcomputes : Eval.ComputesUnary (.symbol .minus) (.int size) _ := Eval.computesUnary _ rfl
    have hnegate : Value.applyUnary .negate (.int size) = .ok (.int n) := by
      rw [Value.applyUnary, Value.negate, Number.Checked.neg?, hsize, Number.fit?_toInt]
    rw [hcomputes hoperator (Eval.evaluate_numeral (.int size) fuel lookup m), hnegate]
    rfl

theorem alike (h : e.IsInteger n) (halike : e.Alike l e') : e'.IsInteger n := by
  cases h with
  | literal =>
    cases halike
    exact .literal
  | negative hoperator hsize =>
    cases halike with
    | unary ho hr =>
      cases hr
      exact .negative (l.kind ho ▸ hoperator) hsize

theorem of_alike (h : e.IsInteger n) (halike : e'.Alike l e) : e'.IsInteger n := by
  cases h with
  | literal =>
    cases halike
    exact .literal
  | negative hoperator hsize =>
    cases halike with
    | unary ho hr =>
      cases hr
      exact .negative ((l.kind ho).trans hoperator) hsize

theorem natAbs_le (h : n ≠ Int64.minValue) : n.toInt.natAbs ≤ Lexeme.maxInteger := by
  have hrange := Number.toInt_inRange n
  have hne : n.toInt ≠ -9223372036854775808 := fun heq => h (Int64.toInt_inj.mp heq)
  unfold Number.InRange at hrange
  unfold Lexeme.maxInteger
  omega

theorem toInt_size (h : n ≠ Int64.minValue) :
    (Int64.ofNat n.toInt.natAbs).toInt = n.toInt.natAbs :=
  Int64.toInt_ofNat_of_lt (Nat.lt_succ_of_le (natAbs_le h))

theorem ofInteger (h : n ≠ Int64.minValue) : (Expr.ofInteger n).IsInteger n := by
  rw [Expr.ofInteger]
  split
  · next hneg => exact .negative rfl (by rw [toInt_size h]; omega)
  · exact .literal

end Expr.IsInteger

theorem Expr.standsAt_ofInteger (n : Int64) : (Expr.ofInteger n).StandsAt .comma := by
  rw [ofInteger]
  split
  · have hsize : Expr.StandsAt .unary
        (.literal (.number (.int (Int64.ofNat n.toInt.natAbs)))) :=
      (Expr.StandsAt.literal _).looser (by decide)
    exact Expr.StandsAt.looser (.unary rfl hsize) (by decide)
  · exact (Expr.StandsAt.literal _).looser (by decide)

/-! ## Scanning and parsing -/

theorem Token.sameWord_of_map {ts us : List Token} (h : ts.map word = us.map word) :
    List.Forall₂ SameWord ts us := by
  rw [← List.forall₂_eq_eq_eq, List.forall₂_map_left_iff, List.forall₂_map_right_iff] at h
  exact h.imp fun t u heq =>
    ⟨congrArg Prod.fst heq, String.toList_inj.mp (congrArg Prod.snd heq)⟩

theorem Scanned.scansTo_intText {n : Int64} (hn : n ≠ Int64.minValue) {rest : List Char}
    {words : List (TokenKind × List Char)} (h : ScansTo rest words)
    (hrest : Lexeme.Completes rest) :
    ScansTo ((Number.intText n).toList ++ rest)
      ((Expr.ofInteger n).tokens.map Token.word ++ words) := by
  have hscans := h.number (Lexeme.readsAsNumber_toDigits (Expr.IsInteger.natAbs_le hn)) hrest
  have hsize := Expr.IsInteger.toInt_size hn
  by_cases hneg : n.toInt < 0
  · have htext : Number.intText (Int64.ofNat n.toInt.natAbs) =
        String.ofList (Nat.toDigits 10 n.toInt.natAbs) := by
      rw [Number.intText_of_nonneg (by omega), hsize, Int.natAbs_natCast]
    have hwords : (Expr.ofInteger n).tokens.map Token.word = [(.symbol .minus, ['-']),
        (.number (.int (Int64.ofNat n.toInt.natAbs)), Nat.toDigits 10 n.toInt.natAbs)] := by
      rw [Expr.ofInteger, if_pos hneg, Expr.tokens, Expr.tokens, Literal.token, List.map_cons,
        List.map_singleton, Token.word, Token.word, Numeral.display, htext, String.toList_ofList]
      rfl
    have hdigit (c : Char) : c ∈ Nat.toDigits 10 n.toInt.natAbs → c.isDigit = true :=
      Number.isDigit_of_mem_toDigits
    rw [hwords, Number.intText_of_neg hneg, String.toList_ofList]
    obtain ⟨d, others, hdigits⟩ := List.exists_cons_of_ne_nil
      (Nat.toDigits_ne_nil (b := 10) (n := n.toInt.natAbs))
    rw [hdigits] at hscans hdigit ⊢
    exact hscans.minus (hdigit d (List.mem_cons_self ..))
  · have hself : Int64.ofNat n.toInt.natAbs = n := Int64.toInt_inj.mp (by omega)
    have htext := Number.intText_of_nonneg (Int.not_lt.mp hneg)
    rw [hself] at hscans
    rw [Expr.ofInteger, if_neg hneg, Expr.tokens, Literal.token, List.map_singleton, Token.word,
      Numeral.display, htext, String.toList_ofList]
    exact hscans

/-! ## Reading integers back -/

/-- A source is accepted as one statement about an expression, which evaluates to the integer. -/
structure SourceOf (n : Int64) (node : Expr → Stmt) (interactive : Bool) (source : String) :
    Prop where
  scanned : (scan source).2 = []
  parsed (firstId : NodeId) :
    (Parse.program interactive firstId (scan source).1).errors = [] ∧
      ∃ e, (Parse.program interactive firstId (scan source).1).statements = some [node e] ∧
        ∀ fuel lookup m, Eval.evaluate (fuel + 2) lookup e m = .ok (.int n) m

theorem exists_println {l : Likeness} {e : Expr} {statements : Option (List Stmt)}
    (h : Option.Rel (AlikeBody l) (some [.println e]) statements) :
    ∃ e', statements = some [.println e'] ∧ e.Alike l e' := by
  cases h with
  | some hbody =>
    cases hbody with
    | cons hstatement hnil =>
      cases hnil
      cases hstatement with
      | println hsame => exact ⟨_, rfl, hsame⟩

theorem sourceOf_line {n : Int64} (hn : n ≠ Int64.minValue) :
    SourceOf n .println true (Number.intText n) := by
  have hscans := (Scanned.scansTo_intText hn Scanned.scansTo_nil Lexeme.completes_nil).scan
  rw [List.append_nil, String.ofList_toList] at hscans
  refine ⟨hscans.2, fun firstId => ?_⟩
  let last : Token := ⟨.eof, "", 1, ⟨0, 0⟩⟩
  have htokens : List.Forall₂ Token.SameWord ((Expr.ofInteger n).tokens ++ [last])
      (scan (Number.intText n)).1 :=
    Token.sameWord_of_map (List.map_append.trans hscans.1.symm)
  obtain ⟨first, haccepted, hfirst⟩ :=
    Parse.accepted_tokens (Expr.standsAt_ofInteger n) (show last.kind = .eof from rfl)
  obtain ⟨printed, hstatements, herrors, hprinted⟩ :=
    @Parse.program_of_accepted _ firstId _ haccepted
  have halike : (Parse.program true firstId ((Expr.ofInteger n).tokens ++ [last])).Alike
      (.placeless fun _ _ => True) (Parse.program true firstId (scan (Number.intText n)).1) :=
    Parse.program_alike true htokens fun _ => trivial
  obtain ⟨hstatements', herrors', -⟩ := halike
  rw [hstatements] at hstatements'
  rw [herrors] at herrors'
  obtain ⟨e, hparsed, hsame⟩ := exists_println hstatements'
  have hinteger := ((Expr.IsInteger.ofInteger hn).alike hfirst).of_alike hprinted
  exact ⟨List.forall₂_nil_left_iff.mp herrors', e, hparsed, (hinteger.alike hsame).evaluate⟩

theorem sourceOf_statement {n : Int64} (hn : n ≠ Int64.minValue) (interactive : Bool) :
    SourceOf n .expression interactive (Number.intText n ++ ";") := by
  have hsemicolon : Scanned.ScansTo [';'] [(.symbol .semicolon, [';']), (.eof, [])] :=
    Scanned.scansTo_nil.token rfl
  have hscans := (Scanned.scansTo_intText hn hsemicolon (Lexeme.completes_semicolon [])).scan
  have hsource : String.ofList ((Number.intText n).toList ++ [';']) = Number.intText n ++ ";" := by
    rw [String.ofList_append, String.ofList_toList]
  rw [hsource] at hscans
  refine ⟨hscans.2, fun firstId => ?_⟩
  have htokens : List.Forall₂ Token.SameWord (Parse.rendering (Expr.ofInteger n))
      (scan (Number.intText n ++ ";")).1 :=
    Token.sameWord_of_map (List.map_append.trans hscans.1.symm)
  obtain ⟨⟨e, hparsed, hsame⟩, herrors⟩ :=
    Parse.program_rendered (Expr.standsAt_ofInteger n) interactive firstId htokens
  exact ⟨herrors, e, hparsed, ((Expr.IsInteger.ofInteger hn).alike hsame).evaluate⟩

/-- How an integer is written, and how that text is read. -/
structure TextRoundTrip (n : Int64) : Prop where
  print {fuel : Nat} {lookup : Lookup} {e : Expr} {m m₁ : Machine} :
    Eval.evaluate fuel lookup e m = .ok (.int n) m₁ →
      Eval.execute (fuel + 1) lookup (.print e) m =
        (Eval.write (Number.intText n) >>= fun _ => pure .completed) m₁
  println {fuel : Nat} {lookup : Lookup} {e : Expr} {m m₁ : Machine} :
    Eval.evaluate fuel lookup e m = .ok (.int n) m₁ →
      Eval.execute (fuel + 1) lookup (.println e) m =
        (Eval.write (Number.intText n ++ "\n") >>= fun _ => pure .completed) m₁
  toString : Eval.Answers .toString (.int n) (.str (Number.intText n))
  parseInt {before after : List Char} : (∀ c ∈ before, Text.isBlank c = true) →
    (∀ c ∈ after, Text.isBlank c = true) →
      Eval.Answers .parseInt
        (.str (String.ofList (before ++ ((Number.intText n).toList ++ after)))) (.int n)
  literal : 0 ≤ n.toInt →
    (scan (Number.intText n)).1.map Token.word =
        [(.number (.int n), (Number.intText n).toList), (.eof, [])] ∧
      (scan (Number.intText n)).2 = []
  line : n ≠ Int64.minValue → SourceOf n .println true (Number.intText n)
  statement : n ≠ Int64.minValue → ∀ interactive,
    SourceOf n .expression interactive (Number.intText n ++ ";")

theorem textRoundTrip (n : Int64) : TextRoundTrip n where
  print h := by
    rw [Eval.execute, bind_of_ok h]
    rfl
  println h := by
    rw [Eval.execute, bind_of_ok h]
    rfl
  toString := Eval.answers rfl fun _ => rfl
  parseInt hbefore hafter := by
    refine Eval.answers rfl fun m => ?_
    rw [Builtin.call, List.head?_cons, Builtin.intOf, String.toList_ofList,
      Text.trim_padded hbefore hafter (Number.intText_ne_nil n) (Number.not_isBlank_intText n),
      Number.int64?_intText]
    rfl
  literal h := by
    have hn : n ≠ Int64.minValue := by
      rintro rfl
      revert h
      decide
    have hscans := (Scanned.scansTo_intText hn Scanned.scansTo_nil Lexeme.completes_nil).scan
    rwa [List.append_nil, String.ofList_toList, Expr.ofInteger, if_neg (Int.not_lt.mpr h)] at hscans
  line := sourceOf_line
  statement hn := sourceOf_statement hn

end LoxLang
