import LoxLang.Proofs.Machine.Arithmetic
import LoxLang.Proofs.Number.Conversion

/-!
# Comparisons of numbers

Two numbers compare as the exact numbers they denote, with one exception. The order of an integer
and a float is that of the float the integer is rounded to, while they are equal only if they are
the same number: so they are neither less nor equal nor greater where the integer is rounded to a
float that is another number (`Number.Blurs`). The order is not transitive there either
(`NumericComparison`).
-/

namespace LoxLang

open Number (Extended)

namespace Number

/-- An integer among the numbers. -/
def ofInteger (n : Int64) : Extended :=
  (((n.toInt : ℚ) : WithTop ℚ) : Extended)

theorem cmp_ofInteger (m n : Int64) :
    cmp (ofInteger m) (ofInteger n) = compare m.toInt n.toInt := by
  rw [ofInteger, ofInteger, cmp_coe, (Int.cast_strictMono (R := ℚ)).cmp_map_eq, cmp_eq_compare]

theorem ofInteger_le {m n : Int64} : ofInteger m ≤ ofInteger n ↔ m.toInt ≤ n.toInt := by
  rw [ofInteger, ofInteger, coe_le_coe, Int.cast_le]

theorem ofInteger_inj {m n : Int64} : ofInteger m = ofInteger n ↔ m = n := by
  rw [ofInteger, ofInteger, coe_inj, Int.cast_inj, Int64.toInt_inj]

/-- The test that equality makes is exact. -/
theorem whole?_eq_some_iff {x : Float} {n : Int64} :
    whole? x = some n.toInt ↔ number? x = some (ofInteger n) := by
  rw [ofInteger, number?_eq_coe, whole?]
  cases Binary64.ofFloat x with
  | notANumber | infinite => simp
  | finite d =>
    simp only [Binary64.finite.injEq, exists_eq_left', ← Dyadic.whole_iff]
    split
    · next hwhole => rw [Option.some_inj, and_iff_right hwhole]
    · next hpart => simp [hpart]

/-! ## Integers as floats -/

/-- An integer that is rounded stays on its side of each float. -/
theorem exists_widened (n : Int64) :
    ∃ w, number? (ofInt64 n) = some w ∧ ∀ {x q}, number? x = some q →
      (ofInteger n ≤ q → w ≤ q) ∧ (q ≤ ofInteger n → q ≤ w) := by
  obtain ⟨d, hd, hrounds⟩ := roundsTo_ofInt64 n
  refine ⟨_, number?_eq_coe.mpr ⟨d, hd, rfl⟩, fun {x q} hx => ?_⟩
  rw [number?] at hx
  cases hpattern : Binary64.ofFloat x with
  | notANumber =>
    rw [hpattern] at hx
    cases hx
  | infinite negative =>
    rw [hpattern] at hx
    cases negative with
    | false =>
      cases hx
      exact ⟨fun _ => le_top, fun h => absurd h (coe_lt_top _).not_ge⟩
    | true =>
      cases hx
      exact ⟨fun h => absurd h (WithBot.bot_lt_coe _).not_ge, fun _ => bot_le⟩
  | finite y =>
    rw [hpattern] at hx
    cases hx
    have hnear := hrounds.nearest (Binary64.canonical_of_ofFloat hpattern).toFits
    rw [ofInteger, coe_le_coe, coe_le_coe, coe_le_coe, coe_le_coe]
    constructor
    · intro h
      rw [abs_sub_comm _ y.value, abs_of_nonneg (sub_nonneg.mpr h)] at hnear
      linarith [neg_abs_le ((n.toInt : ℚ) - d.value)]
    · intro h
      rw [abs_of_nonneg (sub_nonneg.mpr h)] at hnear
      linarith [le_abs_self ((n.toInt : ℚ) - d.value)]

/-- The nearer one of two numbers is on the same side of their middle. -/
theorem nearer_iff {p d e : ℚ} (hlt : d < e) :
    (|p - d| ≤ |p - e| ↔ 2 * p ≤ d + e) ∧ (|p - e| ≤ |p - d| ↔ d + e ≤ 2 * p) := by
  rw [← sq_le_sq, ← sq_le_sq]
  constructor <;> constructor <;> intro h <;> nlinarith

/-- Rounding keeps the order of integers. -/
theorem widened_mono {m n : Int64} (h : m.toInt ≤ n.toInt) {v w : Extended}
    (hv : number? (ofInt64 m) = some v) (hw : number? (ofInt64 n) = some w) : v ≤ w := by
  rcases h.eq_or_lt with heq | hlt
  · rw [Int64.toInt_inj.mp heq, hw] at hv
    exact (Option.some_inj.mp hv).ge
  · obtain ⟨d, hd, hlow⟩ := roundsTo_ofInt64 m
    obtain ⟨e, he, hhigh⟩ := roundsTo_ofInt64 n
    have hlow := hlow.nearest (Binary64.canonical_of_ofFloat he).toFits
    have hhigh := hhigh.nearest (Binary64.canonical_of_ofFloat hd).toFits
    rw [number?, hd] at hv
    rw [number?, he] at hw
    cases hv
    cases hw
    have hcast : (m.toInt : ℚ) < n.toInt := Int.cast_lt.mpr hlt
    rw [coe_le_coe]
    by_contra hover
    have hover := not_le.mp hover
    -- `m` lies above the middle of the two floats and `n` below it
    have habove := (nearer_iff hover).2.mp hlow
    have hbelow := (nearer_iff hover).1.mp hhigh
    linarith

/-- The float is the one that the integer is rounded to, and is another number. -/
def Blurs (n : Int64) (x : Float) : Prop :=
  ∃ q ≠ ofInteger n, number? (ofInt64 n) = some q ∧ number? x = some q

/-- Both integers are rounded to the float. -/
def Merges (m n : Int64) (x : Float) : Prop :=
  ∃ q, number? (ofInt64 m) = some q ∧ number? x = some q ∧ number? (ofInt64 n) = some q

/-- The least positive integer that no float is, rounded down. -/
theorem blurs_and_merges : Blurs 9007199254740993 9007199254740992.0 ∧
    Merges 9007199254740993 9007199254740992 9007199254740992.0 := by
  have hpattern : Binary64.ofFloat 9007199254740992.0 = .finite ⟨false, 2 ^ 52, 1⟩ := by
    decide +kernel
  have hvalue : Dyadic.value ⟨false, 2 ^ 52, 1⟩ = 9007199254740992 := by
    rw [Dyadic.value_of_positive]
    norm_num
  have hfloat := number?_eq_coe.mpr ⟨_, hpattern, hvalue⟩
  have hlow : ofInt64 9007199254740992 = 9007199254740992.0 := by decide +kernel
  have hhigh : ofInt64 9007199254740993 = 9007199254740992.0 := by decide +kernel
  rw [Blurs, Merges, hlow, hhigh]
  refine ⟨⟨_, ?_, hfloat, hfloat⟩, _, hfloat, hfloat, hfloat⟩
  have hinteger : (9007199254740993 : Int64).toInt = 9007199254740993 := by decide
  rw [ofInteger, hinteger, Ne, coe_inj]
  norm_num

theorem eq_or_blurs {n : Int64} {x : Float} {q : Extended} (hn : number? (ofInt64 n) = some q)
    (hx : number? x = some q) : ofInteger n = q ∨ Blurs n x :=
  or_iff_not_imp_left.mpr fun hne => ⟨q, Ne.symm hne, hn, hx⟩

/-- The rounding of an integer changes its order to a float only if the two become equal. -/
theorem order?_ofInt64 {n : Int64} {x : Float} {q : Extended} (hx : number? x = some q) :
    (¬Blurs n x → order? (ofInt64 n) x = some (cmp (ofInteger n) q)) ∧
      (Blurs n x → order? (ofInt64 n) x = some .eq) := by
  obtain ⟨w, hw, hside⟩ := exists_widened n
  obtain ⟨hbelow, habove⟩ := hside hx
  rw [order?_eq_some hw hx]
  constructor
  · intro hsharp
    have hne : w = q → q = ofInteger n := by
      rintro rfl
      by_contra hother
      exact hsharp ⟨w, hother, hw, hx⟩
    rw [Option.some_inj]
    rcases lt_trichotomy (ofInteger n) q with hlt | heq | hgt
    · rw [(cmp_eq_lt_iff _ _).mpr hlt, cmp_eq_lt_iff]
      exact (hbelow hlt.le).lt_of_ne fun h => hlt.ne' (hne h)
    · rw [(cmp_eq_eq_iff _ _).mpr heq, cmp_eq_eq_iff]
      exact (hbelow heq.le).antisymm (habove heq.ge)
    · rw [(cmp_eq_gt_iff _ _).mpr hgt, cmp_eq_gt_iff]
      exact (habove hgt.le).lt_of_ne fun h => hgt.ne (hne h.symm)
  · rintro ⟨p, -, hp, hx'⟩
    cases hp.symm.trans hw
    cases hx'.symm.trans hx
    rw [cmp_self_eq_eq]

/-- The integer is beyond those that floats have, and the float is a nearest one. -/
theorem Blurs.nearest {n : Int64} {x : Float} (h : Blurs n x) :
    2 ^ 53 < n.toInt.natAbs ∧ ∃ d, Binary64.ofFloat x = .finite d ∧ d.value ≠ n.toInt ∧
      ∀ y : Dyadic, y.Fits → |(n.toInt : ℚ) - d.value| ≤ |(n.toInt : ℚ) - y.value| := by
  obtain ⟨q, hne, hn, hx⟩ := h
  obtain ⟨e, he, hrounds⟩ := roundsTo_ofInt64 n
  have hq := number?_eq_coe.mpr ⟨e, he, rfl⟩
  cases hn.symm.trans hq
  obtain ⟨d, hd, hvalue⟩ := number?_eq_coe.mp hx
  have hother : d.value ≠ n.toInt := by
    rw [hvalue]
    exact fun h => hne (coe_inj.mpr h)
  refine ⟨?_, d, hd, hother, fun y hy => ?_⟩
  · by_contra hsmall
    obtain ⟨y, hy, hexact⟩ := exists_fits (not_lt.mp hsmall)
    obtain ⟨e', he', hvalue'⟩ := (roundsTo_ofInt64 n).value_eq hy hexact
    cases he.symm.trans he'
    exact hother (hvalue.trans hvalue')
  · rw [hvalue]
    exact hrounds.nearest hy

end Number

namespace Value

/-- The exact number that a value is. -/
def number? : Value → Option Extended
  | int n => some (Number.ofInteger n)
  | float x => Number.number? x
  | _ => none

/-- The number that a value is as a float. -/
def widened? (a : Value) : Option Extended :=
  a.toFloat?.bind Number.number?

/-- One of the values is an integer that is rounded to the other one, which is another number. -/
inductive Blurs : Value → Value → Prop
  | left {n : Int64} {x : Float} (h : Number.Blurs n x) : Blurs (int n) (float x)
  | right {n : Int64} {x : Float} (h : Number.Blurs n x) : Blurs (float x) (int n)

theorem floatOrder?_eq (x y : Float) : floatOrder? x y = Number.order? x y := by
  unfold floatOrder?
  simp only [Number.lt_iff, Number.beq_iff, Number.order?_swap y x]
  rcases Number.order? x y with _ | _ | _ | _ <;> rfl

/-! ## The answers -/

/-- The answers of the comparisons of two values, wherever operands evaluate to them. -/
structure Answers (a b : Value) (lt eq gt le ge : Bool) : Prop where
  less : Eval.Computes (.symbol .less) a b (.ok (.bool lt))
  equal : Eval.Computes (.symbol .equalEqual) a b (.ok (.bool eq))
  greater : Eval.Computes (.symbol .greater) a b (.ok (.bool gt))
  lessEqual : Eval.Computes (.symbol .lessEqual) a b (.ok (.bool le))
  greaterEqual : Eval.Computes (.symbol .greaterEqual) a b (.ok (.bool ge))

theorem computes_comparison {kind : TokenKind} {op : Comparison} {a b : Value}
    {o : Option Ordering} (hsame : a.sameType b = true)
    (horder : ∀ lexeme, order lexeme a b = .ok o)
    (hop : BinaryOperator.ofKind? kind = some (.comparison op)) :
    Eval.Computes kind a b (.ok (.bool (holds op o))) := by
  refine Eval.computes hop fun operator hkind => ?_
  rw [applyBinary, hkind, hop]
  simp only [hsame, if_true, horder]
  rfl

theorem computes_equal (a b : Value) :
    Eval.Computes (.symbol .equalEqual) a b (.ok (.bool (a.equals b))) :=
  Eval.computes rfl fun operator hkind => by rw [applyBinary, hkind]; rfl

theorem answers_of_order {a b : Value} {o : Option Ordering} (hsame : a.sameType b = true)
    (horder : ∀ lexeme, order lexeme a b = .ok o) :
    a.Answers b (holds .less o) (a.equals b) (holds .greater o) (holds .lessEqual o)
      (holds .greaterEqual o) :=
  ⟨computes_comparison hsame horder rfl, computes_equal a b, computes_comparison hsame horder rfl,
    computes_comparison hsame horder rfl, computes_comparison hsame horder rfl⟩

theorem holds_cmp (p q : Extended) :
    holds .less (some (cmp p q)) = decide (p < q) ∧
      holds .greater (some (cmp p q)) = decide (q < p) ∧
      holds .lessEqual (some (cmp p q)) = decide (p ≤ q) ∧
      holds .greaterEqual (some (cmp p q)) = decide (q ≤ p) := by
  rcases lt_trichotomy p q with hlt | rfl | hgt
  · rw [(cmp_eq_lt_iff _ _).mpr hlt]
    simp [holds, hlt, hlt.le, hlt.not_gt, hlt.not_ge]
  · rw [cmp_self_eq_eq]
    simp [holds]
  · rw [(cmp_eq_gt_iff _ _).mpr hgt]
    simp [holds, hgt, hgt.le, hgt.not_gt, hgt.not_ge]

section Pairs

variable {a b : Value} {p q : Extended}

theorem int_or_float (ha : a.number? = some p) :
    (∃ n, a = int n ∧ Number.ofInteger n = p) ∨ ∃ x, a = float x ∧ Number.number? x = some p := by
  cases a with
  | int n => exact .inl ⟨n, rfl, Option.some_inj.mp ha⟩
  | float x => exact .inr ⟨x, rfl, ha⟩
  | nil | bool | str | callable | «instance» => cases ha

theorem sameType_of_number? (ha : a.number? = some p) (hb : b.number? = some q) :
    a.sameType b = true := by
  obtain ⟨m, rfl, -⟩ | ⟨x, rfl, -⟩ := int_or_float ha <;>
    obtain ⟨n, rfl, -⟩ | ⟨y, rfl, -⟩ := int_or_float hb <;> rfl

/-- Equality is exact. -/
theorem equals_eq (ha : a.number? = some p) (hb : b.number? = some q) :
    a.equals b = decide (p = q) := by
  rw [Bool.eq_iff_iff, decide_eq_true_eq]
  obtain ⟨m, rfl, rfl⟩ | ⟨x, rfl, hx⟩ := int_or_float ha <;>
    obtain ⟨n, rfl, rfl⟩ | ⟨y, rfl, hy⟩ := int_or_float hb
  · rw [equals, beq_iff_eq, Number.ofInteger_inj]
  · rw [equals, beq_iff_eq, Number.whole?_eq_some_iff, hy, Option.some_inj, eq_comm]
  · rw [equals, beq_iff_eq, Number.whole?_eq_some_iff, hx, Option.some_inj]
  · rw [equals, Number.beq_iff, Number.order?_eq_some hx hy, Option.some_inj, cmp_eq_eq_iff]

/-- The order is that of the exact numbers, unless an integer is rounded to another number. -/
theorem order_eq (lexeme : String) (ha : a.number? = some p) (hb : b.number? = some q) :
    (¬a.Blurs b → order lexeme a b = .ok (some (cmp p q))) ∧
      (a.Blurs b → order lexeme a b = .ok (some .eq)) := by
  have hfloats {x y : Float} :
      (.ok (floatOrder? x y) : Except RunFault (Option Ordering)) = .ok (Number.order? x y) := by
    rw [floatOrder?_eq]
  obtain ⟨m, rfl, rfl⟩ | ⟨x, rfl, hx⟩ := int_or_float ha <;>
    obtain ⟨n, rfl, rfl⟩ | ⟨y, rfl, hy⟩ := int_or_float hb
  · rw [Number.cmp_ofInteger]
    exact ⟨fun _ => rfl, fun h => by cases h⟩
  · have horder : order lexeme (int m) (float y) = .ok (Number.order? (Number.ofInt64 m) y) :=
      hfloats
    obtain ⟨hsharp, hblurred⟩ := Number.order?_ofInt64 (n := m) hy
    rw [horder]
    constructor
    · intro h
      rw [hsharp fun hblurs => h (.left hblurs)]
    · intro h
      cases h with | left h => rw [hblurred h]
  · have horder : order lexeme (float x) (int n) = .ok (Number.order? x (Number.ofInt64 n)) :=
      hfloats
    obtain ⟨hsharp, hblurred⟩ := Number.order?_ofInt64 (n := n) hx
    rw [horder, Number.order?_swap]
    constructor
    · intro h
      rw [hsharp fun hblurs => h (.right hblurs), Option.map_some, cmp_swap]
    · intro h
      cases h with | right h => rw [hblurred h, Option.map_some, Ordering.swap]
  · have horder : order lexeme (float x) (float y) = .ok (Number.order? x y) := hfloats
    rw [horder, Number.order?_eq_some hx hy]
    exact ⟨fun _ => rfl, fun h => by cases h⟩

theorem answers_of_not_blurs (ha : a.number? = some p) (hb : b.number? = some q)
    (h : ¬a.Blurs b) :
    a.Answers b (decide (p < q)) (decide (p = q)) (decide (q < p)) (decide (p ≤ q))
      (decide (q ≤ p)) := by
  have hanswers := answers_of_order (sameType_of_number? ha hb) fun lexeme =>
    (order_eq lexeme ha hb).1 h
  obtain ⟨hless, hgreater, hlessEqual, hgreaterEqual⟩ := holds_cmp p q
  rwa [hless, hgreater, hlessEqual, hgreaterEqual, equals_eq ha hb] at hanswers

/-- The two numbers differ, but not as floats. -/
theorem Blurs.exists_numbers (h : a.Blurs b) : ∃ p q, a.number? = some p ∧ b.number? = some q ∧
    p ≠ q ∧ a.widened? = b.widened? := by
  cases h with
  | left h =>
    obtain ⟨q, hne, hn, hx⟩ := h
    exact ⟨_, q, rfl, hx, hne.symm, hn.trans hx.symm⟩
  | right h =>
    obtain ⟨q, hne, hn, hx⟩ := h
    exact ⟨q, _, hx, rfl, hne, hx.trans hn.symm⟩

theorem Blurs.answers (h : a.Blurs b) : a.Answers b false false false true true := by
  obtain ⟨p, q, ha, hb, hne, -⟩ := h.exists_numbers
  have hanswers := answers_of_order (sameType_of_number? ha hb) fun lexeme =>
    (order_eq lexeme ha hb).2 h
  rwa [equals_eq ha hb, decide_eq_false hne] at hanswers

theorem exists_numeral (ha : a.number? = some p) : ∃ n, a = ofNumeral n := by
  obtain ⟨n, rfl, -⟩ | ⟨x, rfl, -⟩ := int_or_float ha
  · exact ⟨.int n, rfl⟩
  · exact ⟨.float x, rfl⟩

theorem computes_unique (ha : a.number? = some p) (hb : b.number? = some q) {kind : TokenKind}
    {answer answer' : Bool} (h : Eval.Computes kind a b (.ok (.bool answer)))
    (h' : Eval.Computes kind a b (.ok (.bool answer'))) : answer = answer' := by
  obtain ⟨x, rfl⟩ := exists_numeral ha
  obtain ⟨y, rfl⟩ := exists_numeral hb
  cases h.unique h'
  rfl

/-- Just one of the first three answers is yes, and the last two follow from them. -/
def Consistent (lt eq gt le ge : Bool) : Prop :=
  [lt, eq, gt].count true = 1 ∧ le = (lt || eq) ∧ ge = (gt || eq)

theorem consistent_decide (p q : Extended) :
    Consistent (decide (p < q)) (decide (p = q)) (decide (q < p)) (decide (p ≤ q))
      (decide (q ≤ p)) := by
  unfold Consistent
  rcases lt_trichotomy p q with hlt | rfl | hgt
  · simp [hlt, hlt.ne, hlt.le, hlt.not_gt, hlt.not_ge]
  · simp
  · simp [hgt, hgt.ne', hgt.le, hgt.not_gt, hgt.not_ge]

theorem consistent_iff_not_blurs (ha : a.number? = some p) (hb : b.number? = some q) :
    (∃ lt eq gt le ge, a.Answers b lt eq gt le ge ∧ Consistent lt eq gt le ge) ↔ ¬a.Blurs b := by
  constructor
  · rintro ⟨lt, eq, gt, le, ge, hanswers, hone, -⟩ hblurs
    have hless := computes_unique ha hb hanswers.less hblurs.answers.less
    have hequal := computes_unique ha hb hanswers.equal hblurs.answers.equal
    have hgreater := computes_unique ha hb hanswers.greater hblurs.answers.greater
    rw [hless, hequal, hgreater] at hone
    cases hone
  · intro h
    exact ⟨_, _, _, _, _, answers_of_not_blurs ha hb h, consistent_decide p q⟩

/-! ## Transitivity -/

def AtMost (a b : Value) : Prop :=
  Eval.Computes (.symbol .lessEqual) a b (.ok (.bool true))

theorem atMost_iff (ha : a.number? = some p) (hb : b.number? = some q) :
    a.AtMost b ↔ p ≤ q ∨ a.Blurs b := by
  by_cases hblurs : a.Blurs b
  · exact ⟨fun _ => .inr hblurs, fun _ => hblurs.answers.lessEqual⟩
  · have hanswer := (answers_of_not_blurs ha hb hblurs).lessEqual
    rw [or_iff_left hblurs]
    constructor
    · intro h
      exact of_decide_eq_true (computes_unique ha hb hanswer h)
    · intro h
      rwa [decide_eq_true h] at hanswer

theorem exists_widened (ha : a.number? = some p) : ∃ v, a.widened? = some v := by
  obtain ⟨n, rfl, -⟩ | ⟨x, rfl, hx⟩ := int_or_float ha
  · obtain ⟨v, hv, -⟩ := Number.exists_widened n
    exact ⟨v, hv⟩
  · exact ⟨p, hx⟩

theorem widened_le {v w : Extended} (ha : a.number? = some p) (hb : b.number? = some q)
    (hv : a.widened? = some v) (hw : b.widened? = some w) (h : p ≤ q) : v ≤ w := by
  obtain ⟨m, rfl, rfl⟩ | ⟨x, rfl, hx⟩ := int_or_float ha <;>
    obtain ⟨n, rfl, rfl⟩ | ⟨y, rfl, hy⟩ := int_or_float hb
  · exact Number.widened_mono (Number.ofInteger_le.mp h) hv hw
  · obtain ⟨v', hv', hside⟩ := Number.exists_widened m
    cases hv'.symm.trans hv
    cases hy.symm.trans hw
    exact (hside hy).1 h
  · obtain ⟨w', hw', hside⟩ := Number.exists_widened n
    cases hw'.symm.trans hw
    cases hx.symm.trans hv
    exact (hside hx).2 h
  · cases hx.symm.trans hv
    cases hy.symm.trans hw
    exact h

theorem AtMost.widened_le {v w : Extended} (h : a.AtMost b) (ha : a.number? = some p)
    (hb : b.number? = some q) (hv : a.widened? = some v) (hw : b.widened? = some w) : v ≤ w := by
  rcases (atMost_iff ha hb).mp h with hle | hblurs
  · exact Value.widened_le ha hb hv hw hle
  · obtain ⟨-, -, -, -, -, hwidened⟩ := hblurs.exists_numbers
    exact (Option.some_inj.mp ((hv.symm.trans hwidened).trans hw)).le

end Pairs

/-- A greater integer, a float and a smaller integer, where both are rounded to the float. -/
inductive Breaks : Value → Value → Value → Prop
  | intro {m n : Int64} {x : Float} (hless : n < m) (h : Number.Merges m n x) :
    Breaks (int m) (float x) (int n)

theorem atMost_trans_iff {a b c : Value} {p q r : Extended} (ha : a.number? = some p)
    (hb : b.number? = some q) (hc : c.number? = some r) :
    (a.AtMost b → b.AtMost c → a.AtMost c) ↔ ¬Breaks a b c := by
  constructor
  · intro htrans hbreaks
    cases hbreaks with
    | @intro m n x hless h =>
      obtain ⟨w, hm, hx, hn⟩ := h
      cases ha
      cases hc
      cases hx.symm.trans hb
      have hleft := (atMost_iff rfl hb).mpr ((Number.eq_or_blurs hm hx).imp Eq.le .left)
      have hright := (atMost_iff hb rfl).mpr ((Number.eq_or_blurs hn hx).imp Eq.ge .right)
      cases (atMost_iff rfl rfl).mp (htrans hleft hright) with
      | inl hle => exact (Number.ofInteger_le.mp hle).not_gt (Int64.lt_iff_toInt_lt.mp hless)
      | inr hblurs => cases hblurs
  · intro hunbroken hab hbc
    obtain ⟨u, hu⟩ := exists_widened ha
    obtain ⟨v, hv⟩ := exists_widened hb
    obtain ⟨w, hw⟩ := exists_widened hc
    have huv := hab.widened_le ha hb hu hv
    have hvw := hbc.widened_le hb hc hv hw
    rw [atMost_iff ha hc, or_iff_not_imp_left, not_le]
    intro hover
    -- the rounded numbers are in both orders, so they are the same
    have hwu := widened_le hc ha hw hu hover.le
    obtain rfl : u = v := huv.antisymm (hvw.trans hwu)
    obtain rfl : u = w := hvw.antisymm hwu
    obtain ⟨m, rfl, rfl⟩ | ⟨x, rfl, hx⟩ := int_or_float ha <;>
      obtain ⟨n, rfl, rfl⟩ | ⟨y, rfl, hy⟩ := int_or_float hc
    · exfalso
      obtain ⟨k, rfl, rfl⟩ | ⟨x, rfl, hx⟩ := int_or_float hb
      · have hexact {i j : Int64} (h : (int i).AtMost (int j)) :
            Number.ofInteger i ≤ Number.ofInteger j :=
          ((atMost_iff rfl rfl).mp h).resolve_right fun hblurs => by cases hblurs
        exact hover.not_ge ((hexact hab).trans (hexact hbc))
      · have hless : n < m := Int64.lt_iff_toInt_lt.mpr
          (lt_of_not_ge fun h => hover.not_ge (Number.ofInteger_le.mpr h))
        exact hunbroken ⟨hless, u, hu, hv, hw⟩
    · refine .left ⟨u, ?_, hu, hw⟩
      cases hw.symm.trans hy
      exact hover.ne
    · refine .right ⟨u, ?_, hw, hu⟩
      cases hu.symm.trans hx
      exact hover.ne'
    · cases hu.symm.trans hx
      cases hw.symm.trans hy
      exact absurd hover (lt_irrefl _)

end Value

/-- How three values compare that are numbers. -/
structure NumericComparison (a b c : Value) : Prop where
  /-- Each number is the value of an expression. -/
  operand : ∀ {p}, a.number? = some p → ∃ e, ∀ fuel lookup m,
    Eval.evaluate (fuel + 1) lookup e m = .ok a m
  exact : ∀ {p q}, a.number? = some p → b.number? = some q → ¬a.Blurs b →
    a.Answers b (decide (p < q)) (decide (p = q)) (decide (q < p)) (decide (p ≤ q))
      (decide (q ≤ p))
  blurred : a.Blurs b → a.Answers b false false false true true
  consistent : ∀ {p q}, a.number? = some p → b.number? = some q →
    ((∃ lt eq gt le ge, a.Answers b lt eq gt le ge ∧ Value.Consistent lt eq gt le ge) ↔ ¬a.Blurs b)
  transitive : ∀ {p q r}, a.number? = some p → b.number? = some q → c.number? = some r →
    ((a.AtMost b → b.AtMost c → a.AtMost c) ↔ ¬Value.Breaks a b c)
  /-- Only great integers are rounded to another number. -/
  beyond : ∀ {n x}, a = .int n → b = .float x → a.Blurs b → 2 ^ 53 < n.toInt.natAbs ∧
    ∃ d, Number.Binary64.ofFloat x = .finite d ∧ d.value ≠ n.toInt ∧
      ∀ y : Number.Dyadic, y.Fits → |(n.toInt : ℚ) - d.value| ≤ |(n.toInt : ℚ) - y.value|

theorem numericComparison (a b c : Value) : NumericComparison a b c where
  operand ha := by
    obtain ⟨n, rfl⟩ := Value.exists_numeral ha
    exact ⟨_, Eval.evaluate_numeral n⟩
  exact := Value.answers_of_not_blurs
  blurred := Value.Blurs.answers
  consistent := Value.consistent_iff_not_blurs
  transitive := Value.atMost_trans_iff
  beyond := by
    rintro n x rfl rfl hblurs
    cases hblurs with | left h => exact h.nearest

end LoxLang
