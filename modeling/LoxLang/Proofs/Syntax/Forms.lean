import LoxLang.Proofs.Number.FloatText
import LoxLang.Proofs.Token.Words

/-!
# Printed forms

What a printed tree is made of, as data: leaves, and parts in parentheses or braces behind a word
that says what they are parts of (`Form`). Every text that begins with a form begins with that form
only (`Form.text_append_inj`), though names may look like the words of the printer: a word in front
of parts stands behind a parenthesis, and a name never does, apart from parameters.
-/

namespace LoxLang

/-! ## Words -/

/-- What does not end a word. -/
def isInWord (c : Char) : Bool :=
  c ≠ ' ' && c ≠ ')'

/-- A word goes on up to the next blank or closing parenthesis. -/
inductive IsWord : List Char → Prop
  | mk (c : Char) {cs : List Char} (h : ∀ d ∈ cs, isInWord d = true) : IsWord (c :: cs)

/-- A word in front of this text is complete. -/
def EndsWord (rest : List Char) : Prop :=
  ∀ c ∈ rest.head?, isInWord c = false

theorem EndsWord.blank (rest : List Char) : EndsWord (' ' :: rest) := by
  rintro c ⟨⟩
  rfl

theorem EndsWord.close (rest : List Char) : EndsWord (')' :: rest) := by
  rintro c ⟨⟩
  rfl

theorem IsWord.append_inj {a b rest rest' : List Char} (ha : IsWord a) (hb : IsWord b)
    (hrest : EndsWord rest) (hrest' : EndsWord rest') (h : a ++ rest = b ++ rest') :
    a = b ∧ rest = rest' := by
  obtain ⟨c, hcs⟩ := ha
  obtain ⟨d, hds⟩ := hb
  obtain ⟨rfl, hbehind⟩ := List.cons_eq_cons.mp h
  obtain ⟨htaken, hleft⟩ := Lexeme.takeWhile_run _ rest hcs hrest
  obtain ⟨htaken', hleft'⟩ := Lexeme.takeWhile_run _ rest' hds hrest'
  rw [← List.append_eq, hbehind] at htaken hleft
  exact ⟨congrArg _ (htaken.symm.trans htaken'), hleft.symm.trans hleft'⟩

/-- The word in front of the parts of a node. -/
inductive Mark
  | symbol (s : Symbol)
  | keyword (k : Keyword)
  | group
  | call
  | choice
  | set
  | method
  | static
  | getter
  deriving DecidableEq

namespace Mark

def text : Mark → String
  | symbol s => s.text
  | keyword k => k.text
  | group => "group"
  | call => "call"
  | choice => "?:"
  | set => ".="
  | method => "method"
  | static => "static"
  | getter => "getter"

/-- Behind these words parameters stand, after a name if there is one. -/
def hasParams : Mark → Bool
  | symbol .arrow | keyword .fun | method | static | getter => true
  | _ => false

def all : List Mark :=
  [.symbol .leftParen, .symbol .rightParen, .symbol .leftBrace, .symbol .rightBrace,
    .symbol .comma, .symbol .dot, .symbol .colon, .symbol .questionMark, .symbol .semicolon,
    .symbol .minus, .symbol .minusEqual, .symbol .plus, .symbol .plusEqual, .symbol .slash,
    .symbol .slashEqual, .symbol .star, .symbol .starEqual, .symbol .percentage,
    .symbol .percentageEqual, .symbol .bang, .symbol .bangEqual, .symbol .equal,
    .symbol .equalEqual, .symbol .arrow, .symbol .greater, .symbol .greaterEqual, .symbol .less,
    .symbol .lessEqual, group, call, choice, set, method, static, getter] ++
    Keyword.all.map keyword

theorem mem_all (mark : Mark) : mark ∈ all := by
  cases mark with
  | symbol s => cases s <;> decide
  | keyword k => exact List.mem_append_right _ (List.mem_map_of_mem k.mem_all)
  | _ => decide

theorem nodup_texts : (all.map text).Nodup := by
  decide +kernel

theorem eq_of_text_eq {mark mark' : Mark} (h : mark.text = mark'.text) : mark = mark' :=
  List.inj_on_of_nodup_map nodup_texts mark.mem_all mark'.mem_all h

theorem isWord (mark : Mark) : IsWord mark.text.toList := by
  cases mark with
  | symbol s => cases s <;> exact .mk _ (List.all_eq_true.mp rfl)
  | keyword k => cases k <;> exact .mk _ (List.all_eq_true.mp rfl)
  | _ => exact .mk _ (List.all_eq_true.mp rfl)

theorem append_inj {mark mark' : Mark} {rest rest' : List Char} (hrest : EndsWord rest)
    (hrest' : EndsWord rest') (h : mark.text.toList ++ rest = mark'.text.toList ++ rest') :
    mark = mark' ∧ rest = rest' := by
  obtain ⟨htext, hleft⟩ := mark.isWord.append_inj mark'.isWord hrest hrest' h
  exact ⟨eq_of_text_eq (String.toList_injective htext), hleft⟩

end Mark

/-! ## Names -/

theorem isInWord_of_isWordCharacter {c : Char} (h : Lexeme.isWordCharacter c = true) :
    isInWord c = true := by
  have hne (d : Char) (hd : Lexeme.isWordCharacter d = false) : c ≠ d := by
    rintro rfl
    cases h.symm.trans hd
  simp [isInWord, hne ' ' rfl, hne ')' rfl]

namespace Identifier

def text (name : Identifier) : List Char :=
  name.first :: name.others

theorem isWord (name : Identifier) : IsWord name.text :=
  .mk _ fun c hc => isInWord_of_isWordCharacter (name.within c hc)

theorem eq_of_text_eq {name name' : Identifier} (h : name.text = name'.text) : name = name' := by
  obtain ⟨first, others, _, _, _⟩ := name
  obtain ⟨first', others', _, _, _⟩ := name'
  obtain ⟨rfl, rfl⟩ := List.cons_eq_cons.mp h
  rfl

theorem append_inj {name name' : Identifier} {rest rest' : List Char} (hrest : EndsWord rest)
    (hrest' : EndsWord rest') (h : name.text ++ rest = name'.text ++ rest') :
    name = name' ∧ rest = rest' := by
  obtain ⟨htext, hleft⟩ := name.isWord.append_inj name'.isWord hrest hrest' h
  exact ⟨eq_of_text_eq htext, hleft⟩

theorem ne_keyword (name : Identifier) (k : Keyword) : name.text ≠ k.text.toList := by
  intro h
  have hfree := name.free
  rw [show name.first :: name.others = k.text.toList from h, String.ofList_toList,
    k.ofText?_text] at hfree
  cases hfree

end Identifier

/-- Each name with a blank before it. -/
def namesText : List Identifier → List Char
  | [] => []
  | name :: names => ' ' :: (name.text ++ namesText names)

theorem namesText_append_inj {names names' : List Identifier} {rest rest' : List Char}
    (h : namesText names ++ ')' :: rest = namesText names' ++ ')' :: rest') :
    names = names' ∧ rest = rest' := by
  have hends (names : List Identifier) (rest : List Char) :
      EndsWord (namesText names ++ ')' :: rest) := by
    cases names with
    | nil => exact .close rest
    | cons => exact .blank _
  induction names generalizing names' with
  | nil =>
    cases names' with
    | nil => exact ⟨rfl, (List.cons_eq_cons.mp h).2⟩
    | cons => exact absurd (List.cons_eq_cons.mp h).1 (by decide)
  | cons name names ih =>
    cases names' with
    | nil => exact absurd (List.cons_eq_cons.mp h).1 (by decide)
    | cons name' names' =>
      have hbehind := (List.cons_eq_cons.mp h).2
      rw [List.append_eq, List.append_eq, List.append_assoc, List.append_assoc] at hbehind
      obtain ⟨rfl, hleft⟩ := Identifier.append_inj (hends names rest) (hends names' rest') hbehind
      obtain ⟨rfl, hrest⟩ := ih hleft
      exact ⟨rfl, hrest⟩

/-- Names with blanks between them, in parentheses. -/
def paramsText (params : List Identifier) : List Char :=
  '(' :: ((namesText params).drop 1 ++ [')'])

theorem paramsText_append_inj {params params' : List Identifier} {rest rest' : List Char}
    (h : paramsText params ++ rest = paramsText params' ++ rest') :
    params = params' ∧ rest = rest' := by
  have hstart (name : Identifier) : name.first ≠ ')' := by
    intro heq
    have hstart := name.start
    rw [heq] at hstart
    cases hstart
  simp only [paramsText, List.cons_append, List.append_assoc, List.nil_append,
    List.cons_eq_cons, true_and] at h
  cases params with
  | nil =>
    cases params' with
    | nil => exact ⟨rfl, (List.cons_eq_cons.mp h).2⟩
    | cons name => exact absurd (List.cons_eq_cons.mp h).1.symm (hstart name)
  | cons name names =>
    cases params' with
    | nil => exact absurd (List.cons_eq_cons.mp h).1 (hstart name)
    | cons name' names' => exact namesText_append_inj (congrArg (' ' :: ·) h)

/-! ## Numbers -/

namespace Numeral

/-- A number that is printed as `inf`. -/
def isInfinite : Numeral → Bool
  | .int _ => false
  | .float x =>
    match Number.Binary64.ofFloat x with
    | .infinite negative => !negative
    | _ => false

theorem exists_finite {x : Float} (hunsigned : IsUnsigned (.float x))
    (hfinite : isInfinite (.float x) = false) :
    ∃ m e, Number.Binary64.ofFloat x = .finite ⟨false, m, e⟩ := by
  rw [IsUnsigned] at hunsigned
  rw [isInfinite] at hfinite
  cases hform : Number.Binary64.ofFloat x with
  | notANumber =>
    rw [hform] at hunsigned
    cases hunsigned
  | infinite negative =>
    rw [hform] at hunsigned hfinite
    cases hunsigned.symm.trans hfinite
  | finite d =>
    obtain ⟨negative, m, e⟩ := d
    cases negative with
    | false => exact ⟨m, e, rfl⟩
    | true =>
      rw [hform] at hunsigned
      cases hunsigned

theorem display_of_nonneg {n : Int64} (h : IsUnsigned (.int n)) :
    (display (.int n)).toList = Nat.toDigits 10 n.toInt.natAbs := by
  rw [display, Number.intText_of_nonneg h, String.toList_ofList]

theorem shaped_display {x : Float} (hunsigned : IsUnsigned (.float x))
    (hfinite : isInfinite (.float x) = false) :
    Number.FloatFormat.Shaped (display (.float x)).toList := by
  obtain ⟨m, e, hform⟩ := exists_finite hunsigned hfinite
  rw [display, Number.FloatFormat.write, hform]
  dsimp only
  rw [if_neg Bool.false_ne_true, String.toList_ofList]
  exact Number.FloatFormat.shaped_magnitude m e

/-- An integer is written in digits only. -/
theorem display_int_ne_float {n : Int64} {x : Float} (hn : IsUnsigned (.int n))
    (hunsigned : IsUnsigned (.float x)) (hfinite : isInfinite (.float x) = false) :
    display (.int n) ≠ display (.float x) := by
  intro h
  have hshaped := shaped_display hunsigned hfinite
  rw [← h, display_of_nonneg hn] at hshaped
  generalize hdigits : Nat.toDigits 10 n.toInt.natAbs = digits at hshaped
  obtain ⟨-, -, hmark, -⟩ := hshaped
  have hdigit := Number.isDigit_of_mem_toDigits
    (hdigits ▸ List.mem_append_right _ List.mem_cons_self)
  rcases hmark with rfl | rfl <;> cases hdigit

theorem display_inj {value value' : Numeral} (hunsigned : value.IsUnsigned)
    (hfinite : value.isInfinite = false) (hunsigned' : value'.IsUnsigned)
    (hfinite' : value'.isInfinite = false) (h : value.display = value'.display) :
    value = value' := by
  cases value with
  | int n =>
    cases value' with
    | int n' =>
      have hread := Number.int64?_intText n
      rw [show Number.intText n = Number.intText n' from h, Number.int64?_intText n'] at hread
      exact congrArg _ (Option.some.inj hread).symm
    | float x => exact absurd h (display_int_ne_float hunsigned hunsigned' hfinite')
  | float x =>
    cases value' with
    | int n' => exact absurd h.symm (display_int_ne_float hunsigned' hunsigned hfinite)
    | float x' =>
      obtain ⟨m, e, hform⟩ := exists_finite hunsigned hfinite
      obtain ⟨m', e', hform'⟩ := exists_finite hunsigned' hfinite'
      exact congrArg _ (Number.FloatFormat.display_inj hform hform' h)

theorem isInWord_of_isDigit {c : Char} (h : c.isDigit = true) : isInWord c = true :=
  isInWord_of_isWordCharacter (by simp [Lexeme.isWordCharacter, Char.isAlphanum, h])

/-- The text of a number begins with a digit and is one word. -/
theorem display_eq_cons {value : Numeral} (hunsigned : value.IsUnsigned)
    (hfinite : value.isInfinite = false) :
    ∃ c cs, value.display.toList = c :: cs ∧ c.isDigit = true ∧ ∀ d ∈ cs, isInWord d = true := by
  cases value with
  | int n =>
    rw [display_of_nonneg hunsigned]
    obtain ⟨c, cs, hdigits⟩ := List.exists_cons_of_ne_nil
      (Nat.toDigits_ne_nil (b := 10) (n := n.toInt.natAbs))
    have hall : ∀ d ∈ c :: cs, d.isDigit = true := fun d hd =>
      Number.isDigit_of_mem_toDigits (hdigits ▸ hd)
    obtain ⟨hc, hcs⟩ := List.forall_mem_cons.mp hall
    exact ⟨c, cs, hdigits, hc, fun d hd => isInWord_of_isDigit (hcs d hd)⟩
  | float x =>
    have hshaped := shaped_display hunsigned hfinite
    generalize (display (.float x)).toList = text at hshaped
    obtain ⟨hne, hdigits, hmark, hothers⟩ := hshaped
    rename_i whole behind mark
    obtain ⟨c, cs, rfl⟩ := List.exists_cons_of_ne_nil hne
    obtain ⟨hc, hcs⟩ := List.forall_mem_cons.mp hdigits
    refine ⟨c, cs ++ mark :: behind, rfl, hc, fun d hd => ?_⟩
    rcases List.mem_append.mp hd with hd | hd
    · exact isInWord_of_isDigit (hcs d hd)
    · rcases List.mem_cons.mp hd with rfl | hd
      · rcases hmark with rfl | rfl <;> rfl
      · rcases hothers d hd with hd | rfl | rfl
        · exact isInWord_of_isDigit hd
        · rfl
        · rfl

end Numeral

/-! ## Leaves -/

/-- What is printed without parentheses. -/
inductive Leaf
  | number (value : Numeral) (unsigned : value.IsUnsigned) (finite : value.isInfinite = false)
  | string (contents : Contents)
  | keyword (k : Keyword)
  | name (i : Identifier)
  /-- It stands in front of the base of a class. -/
  | less

/-- The sorts of leaves that differ in their first characters. -/
inductive LeafSort
  | number
  | string
  | word
  | less

def LeafSort.ofChar? (c : Char) : Option LeafSort :=
  if c.isDigit then some number
  else if c = '"' then some string
  else if Lexeme.isWordStart c then some word
  else if c = '<' then some less
  else none

namespace Leaf

variable {leaf leaf' : Leaf} {rest rest' : List Char}

def text : Leaf → List Char
  | number value _ _ => value.display.toList
  | string contents => '"' :: (contents.text ++ ['"'])
  | keyword k => k.text.toList
  | name i => i.text
  | less => ['<']

def sort : Leaf → LeafSort
  | number .. => .number
  | string _ => .string
  | keyword _ | name _ => .word
  | less => .less

theorem ofChar?_of_isWordStart {c : Char} (h : Lexeme.isWordStart c = true) :
    LeafSort.ofChar? c = some .word := by
  have hquote : c ≠ '"' := by
    rintro rfl
    cases h
  rw [LeafSort.ofChar?, if_neg (Lexeme.not_isDigit_of_isWordStart h), if_neg hquote, if_pos h]

/-- The first character tells the sort of a leaf. -/
theorem text_eq_cons (leaf : Leaf) :
    ∃ c cs, leaf.text = c :: cs ∧ LeafSort.ofChar? c = some leaf.sort := by
  cases leaf with
  | number value hunsigned hfinite =>
    obtain ⟨c, cs, htext, hdigit, -⟩ := Numeral.display_eq_cons hunsigned hfinite
    exact ⟨c, cs, htext, if_pos hdigit⟩
  | string contents => exact ⟨_, _, rfl, rfl⟩
  | keyword k => cases k <;> exact ⟨_, _, rfl, rfl⟩
  | name i => exact ⟨_, _, rfl, ofChar?_of_isWordStart i.start⟩
  | less => exact ⟨_, _, rfl, rfl⟩

theorem sort_eq (h : leaf.text ++ rest = leaf'.text ++ rest') : leaf.sort = leaf'.sort := by
  obtain ⟨c, cs, htext, hsort⟩ := leaf.text_eq_cons
  obtain ⟨c', cs', htext', hsort'⟩ := leaf'.text_eq_cons
  rw [htext, htext'] at h
  obtain ⟨rfl, -⟩ := List.cons_eq_cons.mp h
  exact Option.some.inj (hsort.symm.trans hsort')

theorem eq_of_text_eq (h : leaf.text = leaf'.text) : leaf = leaf' := by
  have hsort := sort_eq (congrArg (· ++ []) h)
  cases leaf with
  | number value hunsigned hfinite =>
    cases leaf' with
    | number value' hunsigned' hfinite' =>
      obtain rfl := Numeral.display_inj hunsigned hfinite hunsigned' hfinite'
        (String.toList_injective h)
      rfl
    | _ => cases hsort
  | string contents =>
    cases leaf' with
    | string contents' =>
      obtain ⟨text, _⟩ := contents
      obtain ⟨text', _⟩ := contents'
      obtain rfl := List.append_cancel_right (List.cons_eq_cons.mp h).2
      rfl
    | _ => cases hsort
  | keyword k =>
    cases leaf' with
    | keyword k' =>
      have hself := k.ofText?_text
      rw [String.toList_injective h, k'.ofText?_text] at hself
      exact congrArg _ (Option.some.inj hself).symm
    | name i => exact absurd h.symm (i.ne_keyword k)
    | _ => cases hsort
  | name i =>
    cases leaf' with
    | keyword k' => exact absurd h (i.ne_keyword k')
    | name i' => exact congrArg _ (Identifier.eq_of_text_eq h)
    | _ => cases hsort
  | less =>
    cases leaf' with
    | less => rfl
    | _ => cases hsort

/-- Only strings may have a blank or a parenthesis within. -/
theorem isWord (h : leaf.sort ≠ .string) : IsWord leaf.text := by
  cases leaf with
  | number value hunsigned hfinite =>
    obtain ⟨c, cs, htext, -, hcs⟩ := Numeral.display_eq_cons hunsigned hfinite
    rw [text, htext]
    exact .mk c hcs
  | string => exact absurd rfl h
  | keyword k => exact (Mark.keyword k).isWord
  | name i => exact i.isWord
  | less => exact .mk _ fun _ hd => by cases hd

theorem append_inj (hrest : EndsWord rest) (hrest' : EndsWord rest')
    (h : leaf.text ++ rest = leaf'.text ++ rest') : leaf = leaf' ∧ rest = rest' := by
  have hsort := sort_eq h
  suffices hparts : leaf.text = leaf'.text ∧ rest = rest' from
    ⟨eq_of_text_eq hparts.1, hparts.2⟩
  by_cases hstring : leaf.sort = .string
  · cases leaf with
    | string contents =>
      cases leaf' with
      | string contents' =>
        -- the closing quote is the same one
        have hread : Lexeme.stringContents? (contents.text ++ '"' :: rest) =
            some (contents.text, rest) := Lexeme.stringContents?_append contents.closed
        have hread' : Lexeme.stringContents? (contents'.text ++ '"' :: rest') =
            some (contents'.text, rest') := Lexeme.stringContents?_append contents'.closed
        have hbehind := (List.cons_eq_cons.mp h).2
        rw [List.append_eq, List.append_eq, List.append_assoc, List.append_assoc,
          List.singleton_append, List.singleton_append] at hbehind
        rw [hbehind, hread'] at hread
        obtain ⟨htext, hleft⟩ := Prod.mk.inj (Option.some.inj hread)
        exact ⟨by rw [text, text, htext], hleft.symm⟩
      | _ => cases hsort
    | _ => cases hstring
  · exact (isWord hstring).append_inj (isWord (hsort ▸ hstring)) hrest hrest' h

end Leaf

/-! ## Forms -/

/-- A tree as it is printed. -/
inductive Form
  | leaf (leaf : Leaf)
  /-- Parts in parentheses behind a word. -/
  | node (mark : Mark) (h : mark.hasParams = false) (parts : List Form)
  /-- A name, if there is one, and parameters in front of a body. -/
  | function (mark : Mark) (h : mark.hasParams = true) (name : Option Identifier)
    (params : List Identifier) (body : List Form)
  /-- Parts in braces. -/
  | block (parts : List Form)

mutual

def Form.text : Form → List Char
  | .leaf leaf => leaf.text
  | .node mark _ parts => '(' :: (mark.text.toList ++ (textEach parts ++ [')']))
  | .function mark _ name params body =>
    '(' :: (mark.text.toList ++ (namesText name.toList ++ (' ' :: (paramsText params ++
      (' ' :: '{' :: (textEach body ++ [' ', '}', ')']))))))
  | .block parts => '{' :: (textEach parts ++ [' ', '}'])

/-- Each form with a blank before it. -/
def textEach : List Form → List Char
  | [] => []
  | form :: forms => ' ' :: (form.text ++ textEach forms)

end

/-- Forms with blanks before them end in front of this text. -/
inductive EndsForms : List Char → Prop
  | paren (rest : List Char) : EndsForms (')' :: rest)
  | brace (rest : List Char) : EndsForms (' ' :: '}' :: rest)

theorem EndsForms.endsWord {rest : List Char} (h : EndsForms rest) : EndsWord rest := by
  cases h with
  | paren => exact .close _
  | brace => exact .blank _

theorem EndsForms.endsWord_append {rest : List Char} (h : EndsForms rest) (forms : List Form) :
    EndsWord (textEach forms ++ rest) := by
  cases forms with
  | nil => exact h.endsWord
  | cons => exact .blank _

/-- Leaves and other forms differ in their first characters. -/
theorem Form.text_eq_cons (form : Form) : ∃ c cs, form.text = c :: cs ∧ c ≠ '}' := by
  cases form with
  | leaf leaf =>
    obtain ⟨c, cs, htext, hsort⟩ := leaf.text_eq_cons
    refine ⟨c, cs, htext, ?_⟩
    rintro rfl
    cases hsort
  | node | function | block => exact ⟨_, _, rfl, by decide⟩

theorem Leaf.text_ne_cons {leaf : Leaf} {c : Char} {rest cs : List Char}
    (hc : LeafSort.ofChar? c = none) : leaf.text ++ rest ≠ c :: cs := by
  intro h
  obtain ⟨d, ds, htext, hsort⟩ := leaf.text_eq_cons
  rw [htext] at h
  obtain ⟨rfl, -⟩ := List.cons_eq_cons.mp h
  cases hc.symm.trans hsort

theorem Form.leaf_append_inj {leaf : Leaf} {g : Form} {rest rest' : List Char}
    (hrest : EndsWord rest) (hrest' : EndsWord rest') (h : leaf.text ++ rest = g.text ++ rest') :
    .leaf leaf = g ∧ rest = rest' := by
  cases g with
  | leaf leaf' =>
    obtain ⟨rfl, hleft⟩ := Leaf.append_inj hrest hrest' h
    exact ⟨rfl, hleft⟩
  | node | function | block => exact absurd h (Leaf.text_ne_cons rfl)

/-- Behind a mark the text goes on with a blank or a parenthesis. -/
theorem EndsWord.names (names : List Identifier) (rest : List Char) :
    EndsWord (namesText names ++ ' ' :: rest) := by
  cases names <;> exact .blank _

/-- A name in front of parameters, if there is one. -/
theorem nameText_append_inj {name name' : Option Identifier} {params params' : List Identifier}
    {rest rest' : List Char}
    (h : namesText name.toList ++ ' ' :: (paramsText params ++ rest) =
      namesText name'.toList ++ ' ' :: (paramsText params' ++ rest')) :
    name = name' ∧ paramsText params ++ rest = paramsText params' ++ rest' := by
  have hsome (name : Identifier) (rest : List Char) : namesText (some name).toList ++ rest =
      ' ' :: (name.text ++ rest) := by
    simp [namesText]
  have hstart (name : Identifier) (cs : List Char) :
      name.text ++ cs ≠ paramsText params ++ rest ∧ name.text ++ cs ≠ paramsText params' ++ rest' := by
    have hne : name.first ≠ '(' := by
      intro heq
      have hstart := name.start
      rw [heq] at hstart
      cases hstart
    exact ⟨fun h => hne (List.cons_eq_cons.mp h).1, fun h => hne (List.cons_eq_cons.mp h).1⟩
  cases name with
  | none =>
    cases name' with
    | none => exact ⟨rfl, (List.cons_eq_cons.mp h).2⟩
    | some name' =>
      rw [hsome] at h
      exact absurd (List.cons_eq_cons.mp h).2.symm (hstart name' _).1
  | some name =>
    rw [hsome] at h
    cases name' with
    | none => exact absurd (List.cons_eq_cons.mp h).2 (hstart name _).2
    | some name' =>
      rw [hsome] at h
      obtain ⟨rfl, hleft⟩ :=
        Identifier.append_inj (.blank _) (.blank _) (List.cons_eq_cons.mp h).2
      exact ⟨rfl, (List.cons_eq_cons.mp hleft).2⟩

theorem textEach_cons_append (f : Form) (fs : List Form) (rest : List Char) :
    textEach (f :: fs) ++ rest = ' ' :: (f.text ++ (textEach fs ++ rest)) := by
  rw [textEach, List.cons_append, List.append_assoc]

mutual

/-- No two forms begin one text. -/
theorem Form.text_append_inj (f g : Form) {rest rest' : List Char} (hrest : EndsWord rest)
    (hrest' : EndsWord rest') (h : f.text ++ rest = g.text ++ rest') : f = g ∧ rest = rest' := by
  cases f with
  | leaf leaf => exact Form.leaf_append_inj hrest hrest' h
  | node mark hmark parts =>
    cases g with
    | leaf leaf => exact absurd h.symm (Leaf.text_ne_cons rfl)
    | block parts' => exact absurd (List.cons_eq_cons.mp h).1 (by decide)
    | node mark' hmark' parts' =>
      have hbehind := (List.cons_eq_cons.mp h).2
      simp only [List.append_eq, List.append_assoc, List.singleton_append] at hbehind
      obtain ⟨rfl, hparts⟩ := Mark.append_inj ((EndsForms.paren rest).endsWord_append parts)
        ((EndsForms.paren rest').endsWord_append parts') hbehind
      obtain ⟨rfl, hleft⟩ := textEach_append_inj parts parts' (.paren _) (.paren _) hparts
      exact ⟨rfl, (List.cons_eq_cons.mp hleft).2⟩
    | function mark' hmark' name' params' body' =>
      have hbehind := (List.cons_eq_cons.mp h).2
      simp only [List.append_eq, List.append_assoc, List.singleton_append] at hbehind
      obtain ⟨rfl, -⟩ := Mark.append_inj ((EndsForms.paren rest).endsWord_append parts)
        (.names _ _) hbehind
      cases hmark.symm.trans hmark'
  | function mark hmark name params body =>
    cases g with
    | leaf leaf => exact absurd h.symm (Leaf.text_ne_cons rfl)
    | block parts' => exact absurd (List.cons_eq_cons.mp h).1 (by decide)
    | node mark' hmark' parts' =>
      have hbehind := (List.cons_eq_cons.mp h).2
      simp only [List.append_eq, List.append_assoc, List.singleton_append] at hbehind
      obtain ⟨rfl, -⟩ := Mark.append_inj (.names _ _)
        ((EndsForms.paren rest').endsWord_append parts') hbehind
      cases hmark.symm.trans hmark'
    | function mark' hmark' name' params' body' =>
      have hbehind := (List.cons_eq_cons.mp h).2
      simp only [List.append_eq, List.append_assoc, List.cons_append, List.nil_append] at hbehind
      obtain ⟨rfl, hnamed⟩ := Mark.append_inj (.names _ _) (.names _ _) hbehind
      obtain ⟨rfl, hparams⟩ := nameText_append_inj hnamed
      obtain ⟨rfl, hbraced⟩ := paramsText_append_inj hparams
      have hbody := (List.cons_eq_cons.mp (List.cons_eq_cons.mp hbraced).2).2
      obtain ⟨rfl, hleft⟩ := textEach_append_inj body body' (.brace _) (.brace _) hbody
      simp only [List.cons_eq_cons, true_and] at hleft
      exact ⟨rfl, hleft⟩
  | block parts =>
    cases g with
    | leaf leaf => exact absurd h.symm (Leaf.text_ne_cons rfl)
    | node | function => exact absurd (List.cons_eq_cons.mp h).1 (by decide)
    | block parts' =>
      have hbehind := (List.cons_eq_cons.mp h).2
      simp only [List.append_eq, List.append_assoc, List.cons_append, List.nil_append] at hbehind
      obtain ⟨rfl, hleft⟩ := textEach_append_inj parts parts' (.brace _) (.brace _) hbehind
      exact ⟨rfl, (List.cons_eq_cons.mp (List.cons_eq_cons.mp hleft).2).2⟩

theorem textEach_append_inj (fs gs : List Form) {rest rest' : List Char} (hrest : EndsForms rest)
    (hrest' : EndsForms rest') (h : textEach fs ++ rest = textEach gs ++ rest') :
    fs = gs ∧ rest = rest' := by
  have hempty {rest rest' : List Char} (hrest : EndsForms rest) (g : Form) :
      rest ≠ ' ' :: (g.text ++ rest') := by
    obtain ⟨c, cs, htext, hc⟩ := g.text_eq_cons
    rw [htext]
    cases hrest with
    | paren => exact fun h => absurd (List.cons_eq_cons.mp h).1 (by decide)
    | brace =>
      exact fun h => hc (List.cons_eq_cons.mp (List.cons_eq_cons.mp h).2).1.symm
  cases fs with
  | nil =>
    cases gs with
    | nil => exact ⟨rfl, h⟩
    | cons g gs => exact absurd (h.trans (textEach_cons_append ..)) (hempty hrest g)
  | cons f fs =>
    rw [textEach_cons_append] at h
    cases gs with
    | nil => exact absurd h.symm (hempty hrest' f)
    | cons g gs =>
      rw [textEach_cons_append] at h
      obtain ⟨rfl, hbehind⟩ := Form.text_append_inj f g (hrest.endsWord_append fs)
        (hrest'.endsWord_append gs) (List.cons_eq_cons.mp h).2
      obtain ⟨rfl, hleft⟩ := textEach_append_inj fs gs hrest hrest' hbehind
      exact ⟨rfl, hleft⟩

end

/-- A text is that of one form only. -/
theorem Form.text_inj {f g : Form} (h : f.text = g.text) : f = g :=
  have hnil : EndsWord [] := fun _ hc => by cases hc
  (text_append_inj f g hnil hnil (congrArg (· ++ []) h)).1

end LoxLang
