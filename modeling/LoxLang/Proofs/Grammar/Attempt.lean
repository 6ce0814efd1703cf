import LoxLang.Grammar.Program

/-!
# Attempts

Two rules decide between readings. Behind a parenthesis the tokens are read as the head of an arrow
if they begin one (`BeginsArrow`). At a prompt, a declaration that fails is tried again as an
expression (`Attempted`).
-/

namespace LoxLang.Parse

/-! ## Heads of arrows -/

/-- Tokens that begin with names, with commas between them and a parenthesis behind them. -/
inductive NameList : List Token → List Token → List Token → Prop
  | last {name close : Token} {after} (hname : name.kind.isIdentifier = true)
    (hclose : close.kind.isSymbol .rightParen = true) :
    NameList (name :: close :: after) [name] after
  | more {name comma : Token} {rest names after} (hname : name.kind.isIdentifier = true)
    (hcomma : comma.kind.isSymbol .comma = true) (others : NameList rest names after) :
    NameList (name :: comma :: rest) (name :: names) after

/-- Tokens behind a parenthesis that begin an arrow. -/
inductive BeginsArrow : List Token → List Token → Token → List Token → Prop
  | bare {close arrow : Token} {after} (hclose : close.kind.isSymbol .rightParen = true)
    (harrow : arrow.kind.isSymbol .arrow = true) : BeginsArrow (close :: arrow :: after) [] arrow after
  | named {tokens names} {arrow : Token} {after} (hnames : NameList tokens names (arrow :: after))
    (harrow : arrow.kind.isSymbol .arrow = true) : BeginsArrow tokens names arrow after

section ArrowHead

variable {tokens names after : List Token} {arrow : Token}

theorem nameList_of_nameList? (h : nameList? tokens = some (names, after)) :
    NameList tokens names after := by
  induction tokens using nameList?.induct generalizing names after with
  | case1 name separator rest hname hcomma ih =>
    rw [nameList?, if_pos hname, if_pos hcomma] at h
    obtain ⟨⟨names', after'⟩, hrest, heq⟩ := Option.map_eq_some_iff.mp h
    cases heq
    exact .more hname hcomma (ih hrest)
  | case2 name separator rest hname hcomma hclosed =>
    rw [nameList?, if_pos hname, if_neg hcomma, if_pos hclosed] at h
    cases h
    exact .last hname hclosed
  | case3 name separator rest hname hcomma hclosed =>
    rw [nameList?, if_pos hname, if_neg hcomma, if_neg hclosed] at h
    cases h
  | case4 name separator rest hname =>
    rw [nameList?, if_neg hname] at h
    cases h
  | case5 tokens hshort =>
    unfold nameList? at h
    split at h
    · exact absurd rfl (hshort _ _ _)
    · cases h

theorem beginsArrow_of_arrowHead? (h : arrowHead? tokens = some (names, arrow, after)) :
    BeginsArrow tokens names arrow after := by
  obtain ⟨⟨params, rest⟩, hparams, hbehind⟩ := Option.bind_eq_some_iff.mp h
  dsimp only at hbehind
  split at hbehind
  · split at hbehind
    · next harrow =>
      cases hbehind
      split at hparams
      · split at hparams
        · next hclose =>
          cases hparams
          exact .bare hclose harrow
        · exact .named (nameList_of_nameList? hparams) harrow
      · cases hparams
    · cases hbehind
  · cases hbehind

namespace NameList

theorem suffix (h : NameList tokens names after) : after <:+ tokens := by
  induction h with
  | last => exact (List.suffix_cons _ _).trans (List.suffix_cons _ _)
  | more _ _ _ ih => exact ih.trans ((List.suffix_cons _ _).trans (List.suffix_cons _ _))

/-- The names are among the tokens. -/
theorem mem_names (h : NameList tokens names after) :
    ∀ name ∈ names, name ∈ tokens ∧ name.kind.isIdentifier = true := by
  induction h with
  | last hname => exact List.forall_mem_singleton.mpr ⟨List.mem_cons_self, hname⟩
  | more hname _ _ ih =>
    exact List.forall_mem_cons.mpr ⟨⟨List.mem_cons_self, hname⟩, fun name hmem =>
      ⟨List.mem_cons_of_mem _ (List.mem_cons_of_mem _ (ih name hmem).1), (ih name hmem).2⟩⟩

end NameList

namespace BeginsArrow

theorem suffix (h : BeginsArrow tokens names arrow after) : arrow :: after <:+ tokens := by
  cases h with
  | bare => exact List.suffix_cons _ _
  | named hnames => exact hnames.suffix

theorem mem_names (h : BeginsArrow tokens names arrow after) :
    ∀ name ∈ names, name ∈ tokens ∧ name.kind.isIdentifier = true := by
  cases h with
  | bare => exact fun _ hname => absurd hname List.not_mem_nil
  | named hnames => exact hnames.mem_names

theorem mem_arrow (h : BeginsArrow tokens names arrow after) :
    arrow ∈ tokens ∧ arrow.kind.isSymbol .arrow = true := by
  refine ⟨h.suffix.mem List.mem_cons_self, ?_⟩
  cases h with
  | bare _ harrow | named _ harrow => exact harrow

/-- What follows the head is among the tokens. -/
theorem mem_after (h : BeginsArrow tokens names arrow after) {t : Token} (ht : t ∈ after) : t ∈ tokens :=
  h.suffix.mem (List.mem_cons_of_mem _ ht)

end BeginsArrow

end ArrowHead

/-! ## Declarations at a prompt -/

variable {fuel : Nat} {s : ParseState}

/-- The second attempt at a declaration. -/
def expressionAgain (fuel : Nat) : Parse Stmt := do
  let value ← exprAt fuel .comma
  discard (acceptSymbol .semicolon)
  return .println value

/-- The state of the second attempt, if the first one began in one state and failed in another. -/
def again (s failed : ParseState) : ParseState :=
  { failed with last := s.last, rest := s.rest, errors := s.errors }

/-- The ways a declaration at a prompt can go. -/
inductive Attempted (fuel : Nat) (s : ParseState) :
    EStateM.Result ParseStop ParseState Stmt → Prop
  | declared {stmt after} (first : declaration fuel false s = .ok stmt after) :
    Attempted fuel s (.ok stmt after)
  | stuck {after} (first : declaration fuel false s = .error .outOfFuel after) :
    Attempted fuel s (.error .outOfFuel after)
  | printed {error failed stmt after}
    (first : declaration fuel false s = .error (.error error) failed)
    (second : expressionAgain fuel (again s failed) = .ok stmt after) :
    Attempted fuel s (.ok stmt after)
  | stuckAgain {error failed after}
    (first : declaration fuel false s = .error (.error error) failed)
    (second : expressionAgain fuel (again s failed) = .error .outOfFuel after) :
    Attempted fuel s (.error .outOfFuel after)
  | refused {error failed other after}
    (first : declaration fuel false s = .error (.error error) failed)
    (second : expressionAgain fuel (again s failed) = .error (.error other) after) :
    Attempted fuel s (.error (.error error) { failed with nextId := after.nextId })

theorem interactiveDeclaration_attempted (fuel : Nat) (s : ParseState) :
    Attempted fuel s (interactiveDeclaration fuel s) := by
  unfold interactiveDeclaration
  split
  · next first => exact .declared first
  · next first => exact .stuck first
  · next first =>
    dsimp only
    split
    · next second => exact .printed first second
    · next second => exact .stuckAgain first second
    · next second => exact .refused first second

theorem Attempted.eq {result : EStateM.Result ParseStop ParseState Stmt}
    (h : Attempted fuel s result) : interactiveDeclaration fuel s = result := by
  unfold interactiveDeclaration
  cases h with
  | declared first | stuck first => rw [first]
  | printed first second | stuckAgain first second | refused first second =>
    rw [first]
    unfold expressionAgain again at second
    dsimp only
    rw [second]

end LoxLang.Parse
