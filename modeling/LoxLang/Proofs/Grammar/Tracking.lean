import LoxLang.Proofs.Grammar.Attempt
import LoxLang.Proofs.Grammar.Paired
import LoxLang.Proofs.Grammar.Tape

/-!
# The cursor and the tokens ahead

On a list that ends with an end token, reading with a cursor goes the same way as taking tokens from
the front (`Tape.Agree`): what remains is what stands from the cursor on, and the token taken last
is the one before it (`Tape.view`). So the cursor is always inside of the list (`Tape.Sits`). There
is one lemma for each step and each rule, and `Tape.rulesTrack` puts them together.
-/

namespace LoxLang

namespace Tape

/-- The list ends with an end token. -/
def Ended (tokens : List Token) : Prop :=
  ∃ front eof, tokens = front ++ [eof] ∧ eof.kind.isEof = true

/-- The token before a place. -/
def before? (tokens : List Token) : Nat → Option Token
  | 0 => none
  | place + 1 => tokens[place]?

/-- What a cursor leaves ahead and behind it. -/
def view (tokens : List Token) (p : Tape) : ParseState where
  last := before? tokens p.position
  rest := tokens.drop p.position
  errors := p.errors
  failed := p.failed
  nextId := p.nextId

/-- A cursor inside of the list, with so many loops around it, behind some faults. -/
structure Sits (tokens : List Token) (depth : Nat) (old : List GrammarError) (p : Tape) :
    Prop where
  inside : p.position < tokens.length
  depth : p.loopDepth = depth
  noted : old <+: p.errors

variable {α β : Type} {tokens : List Token} {depth : Nat} {old : List GrammarError}

/-- How a parse with a cursor goes along with one that takes tokens from the front. -/
inductive Agree (tokens : List Token) (depth : Nat) (old : List GrammarError) :
    EStateM.Result ParseStop ParseState α → EStateM.Result Stop Tape α → Prop
  | ok {a p} (sits : p.Sits tokens depth old) :
    Agree tokens depth old (.ok a (p.view tokens)) (.ok a p)
  | error {error p} (sits : p.Sits tokens depth old) :
    Agree tokens depth old (.error (.error error) (p.view tokens)) (.error (.error error) p)
  | outOfFuel {s p} : Agree tokens depth old (.error .outOfFuel s) (.error .outOfFuel p)

/-- Two steps that go along from wherever the cursor is. -/
def Tracks (tokens : List Token) (depth : Nat) (old : List GrammarError) (act : Parse α)
    (read : Read α) : Prop :=
  ∀ p, p.Sits tokens depth old → Agree tokens depth old (act (p.view tokens)) (read p)

section Composition

variable {act other : Parse α} {read read' : Read α} {k : α → Parse β} {k' : α → Read β} {p : Tape}
  {s : ParseState}

theorem Agree.bind (h : Agree tokens depth old (act s) (read p))
    (hk : ∀ a, Tracks tokens depth old (k a) (k' a)) :
    Agree tokens depth old ((act >>= k) s) ((read >>= k') p) := by
  cases hact : act s with
  | ok a after =>
    cases hread : read p with
    | ok b q =>
      rw [hact, hread] at h
      cases h with
      | ok sits =>
        rw [bind_of_ok hact, bind_of_ok hread]
        exact hk a q sits
    | error stop q =>
      rw [hact, hread] at h
      cases h
  | error stop after =>
    cases hread : read p with
    | ok b q =>
      rw [hact, hread] at h
      cases h
    | error stop' q =>
      rw [hact, hread] at h
      rw [bind_of_error hact, bind_of_error hread]
      cases h with
      | error sits => exact .error sits
      | outOfFuel => exact .outOfFuel

namespace Tracks

theorem pure (a : α) : Tracks tokens depth old (pure a) (pure a) := fun _ h => .ok h

theorem bind (h : Tracks tokens depth old act read)
    (hk : ∀ a, Tracks tokens depth old (k a) (k' a)) :
    Tracks tokens depth old (act >>= k) (read >>= k') := fun p hp => (h p hp).bind hk

theorem ite {c : Prop} [Decidable c] (h : c → Tracks tokens depth old act read)
    (h' : ¬c → Tracks tokens depth old other read') :
    Tracks tokens depth old (if c then act else other) (if c then read else read') := by
  split
  · next hc => exact h hc
  · next hc => exact h' hc

theorem discard (h : Tracks tokens depth old act read) :
    Tracks tokens depth old (discard act) (discard read) := by
  rw [Functor.discard, Functor.discard, Functor.mapConst, Functor.mapConst]
  exact h.bind fun _ => .pure _

theorem outOfFuel : Tracks tokens depth old (Parse.outOfFuel : Parse α) Tape.outOfFuel :=
  fun _ _ => .outOfFuel

theorem failAt (fault : GrammarFault) (token : Token) :
    Tracks tokens depth old (Parse.failAt fault token : Parse α) (Tape.failAt fault token) :=
  fun _ h => .error h

theorem noteAt (fault : GrammarFault) (token : Token) :
    Tracks tokens depth old (Parse.noteAt fault token) (Tape.noteAt fault token) :=
  fun q ⟨hinside, hdepth, hnoted⟩ =>
    Agree.ok (p := { q with errors := q.errors ++ [⟨fault, token⟩], failed := true })
      ⟨hinside, hdepth, hnoted.trans (List.prefix_append ..)⟩

theorem freshId : Tracks tokens depth old Parse.freshId Tape.freshId :=
  fun q ⟨hinside, hdepth, hnoted⟩ =>
    Agree.ok (p := { q with nextId := q.nextId + 1 }) ⟨hinside, hdepth, hnoted⟩

theorem readUnless {absent : Parse Bool} {absent' : Read Bool}
    (h : Tracks tokens depth old absent absent') (hread : Tracks tokens depth old act read) :
    Tracks tokens depth old (Parse.readUnless absent act) (Tape.readUnless absent' read) :=
  h.bind fun _ => .ite (fun _ => .pure _) fun _ => hread.bind fun _ => .pure _

theorem readIf {present : Parse Bool} {present' : Read Bool}
    (h : Tracks tokens depth old present present') (hread : Tracks tokens depth old act read) :
    Tracks tokens depth old (Parse.readIf present act) (Tape.readIf present' read) :=
  h.bind fun _ => .ite (fun _ => hread.bind fun _ => .pure _) fun _ => .pure _

end Tracks

end Composition

/-! ## Single steps -/

section Steps

variable {p : Tape} {t : Token}

theorem Sits.exists_token (h : p.Sits tokens depth old) :
    ∃ t, tokens[p.position]? = some t :=
  ⟨_, List.getElem?_eq_getElem h.inside⟩

theorem rest_view (h : tokens[p.position]? = some t) :
    (p.view tokens).rest = t :: tokens.drop (p.position + 1) := by
  obtain ⟨hlt, rfl⟩ := List.getElem?_eq_some_iff.mp h
  exact List.drop_eq_getElem_cons hlt

theorem next?_view (h : tokens[p.position]? = some t) :
    (p.view tokens).next? = if t.kind.isEof then none else some t := by
  rw [ParseState.next?, rest_view h]

theorem peek_at (h : tokens[p.position]? = some t) : peek tokens p = .ok t p := by
  show tokenAt tokens p.position p = _
  rw [tokenAt, h]
  rfl

theorem atEnd_at (h : tokens[p.position]? = some t) : atEnd tokens p = .ok t.kind.isEof p :=
  bind_of_ok (peek_at h)

theorem next?_at (h : tokens[p.position]? = some t) :
    next? tokens p = .ok (p.view tokens).next? p := by
  rw [next?_view h, next?, bind_of_ok (atEnd_at h)]
  cases t.kind.isEof with
  | true => rfl
  | false => exact bind_of_ok (peek_at h)

theorem nextIs_at (h : tokens[p.position]? = some t) (wanted : TokenKind → Bool) :
    nextIs tokens wanted p = .ok ((p.view tokens).next?.any fun t => wanted t.kind) p := by
  rw [next?_view h, nextIs, bind_of_ok (atEnd_at h)]
  cases t.kind.isEof with
  | true => rfl
  | false => exact bind_of_ok (peek_at h)

/-- The token that is next stands at the cursor, and is not the end. -/
theorem of_next? (hp : p.Sits tokens depth old) (h : (p.view tokens).next? = some t) :
    tokens[p.position]? = some t ∧ t.kind.isEof = false := by
  obtain ⟨t', ht⟩ := hp.exists_token
  rw [next?_view ht] at h
  cases heof : t'.kind.isEof with
  | true =>
    rw [heof] at h
    cases h
  | false =>
    rw [heof] at h
    cases h
    exact ⟨ht, heof⟩

theorem previous_at {place : Nat} (h : tokens[place]? = some t) (hp : p.position = place + 1) :
    previous tokens p = .ok t p := by
  obtain ⟨position, loopDepth, errors, failed, nextId⟩ := p
  cases hp
  show tokenAt tokens place _ = _
  rw [tokenAt, h]
  rfl

/-- A cursor that is not at the start has a token behind it. -/
theorem Sits.exists_previous (hp : p.Sits tokens depth old) (hbehind : 0 < p.position) :
    ∃ t, before? tokens p.position = some t ∧ previous tokens p = .ok t p := by
  obtain ⟨place, hplace⟩ := Nat.exists_eq_succ_of_ne_zero (Nat.ne_of_gt hbehind)
  have hlt : place < tokens.length := by
    have hinside := hp.inside
    omega
  have hbefore := List.getElem?_eq_getElem hlt
  exact ⟨tokens[place], by rw [hplace]; exact hbefore, previous_at hbefore hplace⟩

theorem Sits.exists_eof (hp : p.Sits tokens depth old) (h : (p.view tokens).next? = none) :
    ∃ t, tokens[p.position]? = some t ∧ t.kind.isEof = true := by
  obtain ⟨t, ht⟩ := hp.exists_token
  rw [next?_view ht] at h
  refine ⟨t, ht, ?_⟩
  cases heof : t.kind.isEof with
  | true => rfl
  | false =>
    rw [heof] at h
    cases h

theorem advance_at (hp : p.Sits tokens depth old) (h : (p.view tokens).next? = some t) :
    advance tokens p = .ok t { p with position := p.position + 1 } := by
  obtain ⟨ht, heof⟩ := of_next? hp h
  rw [advance, bind_of_ok (atEnd_at ht), heof]
  exact previous_at (p := { p with position := p.position + 1 }) ht rfl

theorem view_advance (hp : p.Sits tokens depth old) (h : (p.view tokens).next? = some t) :
    view tokens { p with position := p.position + 1 } = (p.view tokens).advance := by
  obtain ⟨ht, -⟩ := of_next? hp h
  rw [ParseState.advance, h, rest_view ht]
  simp only [view, before?, ht, List.tail_cons]

theorem Sits.advance (hend : Ended tokens) (hp : p.Sits tokens depth old)
    (h : (p.view tokens).next? = some t) :
    Sits tokens depth old { p with position := p.position + 1 } := by
  obtain ⟨ht, heof⟩ := of_next? hp h
  refine ⟨?_, hp.depth, hp.noted⟩
  obtain ⟨front, eof, rfl, hlast⟩ := hend
  have hinside := hp.inside
  have hne : p.position ≠ front.length := by
    rintro hlen
    rw [hlen, List.getElem?_concat_length] at ht
    cases ht
    cases hlast.symm.trans heof
  rw [List.length_append, List.length_singleton] at hinside ⊢
  show p.position + 1 < front.length + 1
  omega

theorem discard_advance_at (hp : p.Sits tokens depth old) (h : (p.view tokens).next? = some t) :
    discard (advance tokens) p = .ok () { p with position := p.position + 1 } := by
  rw [Functor.discard, Functor.mapConst]
  exact bind_of_ok (advance_at hp h)

/-! ### Taking a token -/

variable {wanted : TokenKind → Bool}

theorem accept?_at_none (hp : p.Sits tokens depth old)
    (h : (p.view tokens).next?.any (fun t => wanted t.kind) = false) :
    accept? tokens wanted p = .ok none p := by
  obtain ⟨t, ht⟩ := hp.exists_token
  have hno : nextIs tokens wanted p = .ok false p := by rw [nextIs_at ht, h]
  rw [accept?, bind_of_ok hno]
  rfl

theorem accept?_at_some (hp : p.Sits tokens depth old) (h : (p.view tokens).next? = some t)
    (hwanted : wanted t.kind = true) :
    accept? tokens wanted p = .ok (some t) { p with position := p.position + 1 } := by
  obtain ⟨ht, -⟩ := of_next? hp h
  have hyes : nextIs tokens wanted p = .ok true p := by
    rw [nextIs_at ht, h, Option.any_some, hwanted]
  have hprevious : previous tokens { p with position := p.position + 1 } =
      .ok t { p with position := p.position + 1 } := previous_at ht rfl
  rw [accept?, bind_of_ok hyes, if_pos rfl, bind_of_ok (discard_advance_at hp h),
    bind_of_ok hprevious]
  rfl

theorem accept_at_false (hp : p.Sits tokens depth old)
    (h : (p.view tokens).next?.any (fun t => wanted t.kind) = false) :
    accept tokens wanted p = .ok false p :=
  bind_of_ok (accept?_at_none hp h)

theorem accept_at_true (hp : p.Sits tokens depth old) (h : (p.view tokens).next? = some t)
    (hwanted : wanted t.kind = true) :
    accept tokens wanted p = .ok true { p with position := p.position + 1 } :=
  bind_of_ok (accept?_at_some hp h hwanted)

/-- A fault is placed where the parse without a cursor places it. -/
theorem failHere_at (hp : p.Sits tokens depth old) (fault : GrammarFault) :
    (failHere tokens fault : Read α) p = .error (.error ⟨fault, (p.view tokens).place⟩) p := by
  obtain ⟨t, ht⟩ := hp.exists_token
  have hfront : (p.view tokens).front = t := by rw [ParseState.front, rest_view ht, List.headD_cons]
  rw [failHere, bind_of_ok (atEnd_at ht), ParseState.place, ParseState.atEnd, next?_view ht, hfront]
  cases heof : t.kind.isEof with
  | false => exact bind_of_ok (peek_at ht)
  | true =>
    obtain ⟨position, loopDepth, errors, failed, nextId⟩ := p
    cases position with
    | zero => exact bind_of_ok (peek_at ht)
    | succ place =>
      obtain ⟨u, hlast, hprevious⟩ := hp.exists_previous (Nat.succ_pos place)
      replace hlast : (view tokens ⟨place + 1, loopDepth, errors, failed, nextId⟩).last = some u :=
        hlast
      rw [hlast]
      exact bind_of_ok hprevious

end Steps

namespace Tracks

variable {act : Parse α} {read : Read α}

theorem failHere (fault : GrammarFault) :
    Tracks tokens depth old (Parse.failHere fault : Parse α) (Tape.failHere tokens fault) := by
  intro p hp
  rw [failHere_at hp]
  exact .error hp

theorem peeking {k : Token → Parse β} {k' : Token → Read β}
    (hk : ∀ t, Tracks tokens depth old (k t) (k' t)) :
    Tracks tokens depth old (get >>= fun s => k s.front) (peek tokens >>= k') := by
  intro p hp
  obtain ⟨t, ht⟩ := hp.exists_token
  have hfront : (p.view tokens).front = t := by rw [ParseState.front, rest_view ht, List.headD_cons]
  rw [Parse.bind_get, bind_of_ok (peek_at ht), hfront]
  exact hk t p hp

theorem atEnd : Tracks tokens depth old Parse.atEnd (Tape.atEnd tokens) := by
  intro p hp
  obtain ⟨t, ht⟩ := hp.exists_token
  have heof : (p.view tokens).atEnd = t.kind.isEof := by
    rw [ParseState.atEnd, next?_view ht]
    cases t.kind.isEof <;> rfl
  rw [atEnd_at ht, ← heof]
  exact .ok hp

theorem nextIs (wanted : TokenKind → Bool) :
    Tracks tokens depth old (Parse.nextIs wanted) (Tape.nextIs tokens wanted) := by
  intro p hp
  obtain ⟨t, ht⟩ := hp.exists_token
  rw [nextIs_at ht]
  exact .ok hp

/-- A choice by the token behind the next one. -/
theorem nextButOneIs {wanted : TokenKind → Bool} {other : Parse α} {read' : Read α}
    (h : Tracks tokens depth old act read) (h' : Tracks tokens depth old other read') :
    Tracks tokens depth old
      (do if (← get).rest[1]?.any fun t => wanted t.kind then act else other)
      (do if ← Tape.nextButOneIs tokens wanted then read else read') := by
  intro p hp
  have hsecond : (p.view tokens).rest[1]? = tokens[p.position + 1]? := List.getElem?_drop
  have hnext : Tape.nextButOneIs tokens wanted p =
      .ok ((p.view tokens).rest[1]?.any fun t => wanted t.kind) p := by
    rw [hsecond]
    rfl
  rw [Parse.bind_get, bind_of_ok hnext]
  exact ite (fun _ => h) (fun _ => h') p hp

theorem limit (count : Nat) (what : String) :
    Tracks tokens depth old (Parse.limit count what) (Tape.limit tokens count what) :=
  .ite (fun _ => peeking fun _ => noteAt _ _) fun _ => .pure _

variable (hend : Ended tokens)
include hend

theorem accept? (wanted : TokenKind → Bool) :
    Tracks tokens depth old (Parse.accept? wanted) (Tape.accept? tokens wanted) := by
  intro p hp
  cases hnext : (p.view tokens).next? with
  | none =>
    rw [Parse.accept?_of_none hnext, accept?_at_none hp (by rw [hnext]; rfl)]
    exact .ok hp
  | some t =>
    cases hwanted : wanted t.kind with
    | false =>
      rw [Parse.accept?_of_not hnext hwanted,
        accept?_at_none hp (by rw [hnext, Option.any_some, hwanted])]
      exact .ok hp
    | true =>
      rw [Parse.accept?_of_wanted hnext hwanted, accept?_at_some hp hnext hwanted,
        ← view_advance hp hnext]
      exact .ok (hp.advance hend hnext)

theorem accept (wanted : TokenKind → Bool) :
    Tracks tokens depth old (Parse.accept wanted) (Tape.accept tokens wanted) :=
  (accept? hend wanted).bind fun _ => .pure _

theorem acceptSymbol (symbol : Symbol) :
    Tracks tokens depth old (Parse.acceptSymbol symbol) (Tape.acceptSymbol tokens symbol) :=
  accept hend _

theorem expect (wanted : TokenKind → Bool) (what : String) :
    Tracks tokens depth old (Parse.expect wanted what) (Tape.expect tokens wanted what) := by
  intro p hp
  obtain ⟨t, ht⟩ := hp.exists_token
  rw [Parse.expect, Tape.expect, bind_of_ok (nextIs_at ht wanted)]
  cases hnext : (p.view tokens).next? with
  | none =>
    rw [bind_of_ok (Parse.accept?_of_none hnext)]
    exact failHere _ p hp
  | some t =>
    cases hwanted : wanted t.kind with
    | false =>
      rw [bind_of_ok (Parse.accept?_of_not hnext hwanted), Option.any_some, hwanted]
      exact failHere _ p hp
    | true =>
      rw [bind_of_ok (Parse.accept?_of_wanted hnext hwanted), Option.any_some, hwanted, if_pos rfl,
        advance_at hp hnext, ← view_advance hp hnext]
      exact .ok (hp.advance hend hnext)

theorem expectSymbol (symbol : Symbol) (what : String) :
    Tracks tokens depth old (Parse.expectSymbol symbol what)
      (Tape.expectSymbol tokens symbol what) :=
  (expect hend _ what).discard

theorem expectName (what : String) :
    Tracks tokens depth old (Parse.expectName what) (Tape.expectName tokens what) :=
  expect hend _ what

/-- The token that is next is taken, and the parse goes on behind it. -/
theorem advance {p : Tape} {t : Token} (h : Tracks tokens depth old act read)
    (hp : p.Sits tokens depth old) (hnext : (p.view tokens).next? = some t) :
    Agree tokens depth old ((do modify ParseState.advance; act : Parse α) (p.view tokens))
      ((do Functor.discard (Tape.advance tokens); read : Read α) p) := by
  rw [bind_of_ok (discard_advance_at hp hnext)]
  show Agree tokens depth old (act (p.view tokens).advance) _
  rw [← view_advance hp hnext]
  exact h _ (hp.advance hend hnext)

end Tracks

/-! ## The head of an arrow -/

/-- A closing parenthesis behind names, and what follows it. -/
def closing? (ns : List Token) : List Token → Option (List Token × List Token)
  | t :: rest => if t.kind.isSymbol .rightParen then some (ns, rest) else none
  | [] => none

section Heads

variable {p : Tape} {t : Token}

theorem closing?_cons (t : Token) (ns rest : List Token) :
    ((closing? ns rest).map fun (names, after) => (t :: names, after)) =
      closing? (t :: ns) rest := by
  cases rest with
  | nil => rfl
  | cons u rest =>
    rw [closing?, closing?]
    split <;> rfl

theorem any_next? (h : tokens[p.position]? = some t) {wanted : TokenKind → Bool}
    (hwanted : wanted t.kind = false) :
    (p.view tokens).next?.any (fun t => wanted t.kind) = false := by
  rw [next?_view h]
  cases t.kind.isEof with
  | true => rfl
  | false => exact hwanted

theorem next?_of_kind (h : tokens[p.position]? = some t) (heof : t.kind.isEof = false) :
    (p.view tokens).next? = some t := by
  rw [next?_view h, heof]
  rfl

/-- Names are read to where no comma follows. -/
theorem names_at (hend : Ended tokens) {fuel : Nat} (hp : p.Sits tokens depth old)
    (hfuel : tokens.length < p.position + fuel) : ∃ result place,
    names tokens fuel p = .ok result { p with position := place } ∧
      Sits tokens depth old { p with position := place } ∧
      Parse.nameList? (tokens.drop p.position) =
        result.bind fun ns => closing? ns (tokens.drop place) := by
  induction fuel generalizing p with
  | zero => exact absurd hp.inside (Nat.not_lt.mpr (Nat.le_of_lt hfuel))
  | succ fuel ih =>
    obtain ⟨t, ht⟩ := hp.exists_token
    have hrest := rest_view ht
    replace hrest : tokens.drop p.position = _ := hrest
    rw [names, hrest]
    cases hname : t.kind.isIdentifier with
    | false =>
      refine ⟨none, p.position, bind_of_ok (accept?_at_none hp (any_next? ht hname)), hp, ?_⟩
      cases tokens.drop (p.position + 1) with
      | nil => rfl
      | cons u rest => rw [Parse.nameList?, hname]; rfl
    | true =>
      have hnext := next?_of_kind ht (Parse.not_eof_of_isIdentifier hname)
      have hq := hp.advance hend hnext
      obtain ⟨u, hu⟩ := hq.exists_token
      have hbehind := rest_view hu
      replace hbehind : tokens.drop (p.position + 1) = _ := hbehind
      rw [bind_of_ok (accept?_at_some hp hnext hname), hbehind, Parse.nameList?, if_pos hname]
      cases hcomma : u.kind.isSymbol .comma with
      | false =>
        refine ⟨some [t], p.position + 1, bind_of_ok (accept_at_false hq (any_next? hu hcomma)), hq,
          ?_⟩
        rw [hbehind]
        rfl
      | true =>
        have hnext' := next?_of_kind hu (Parse.not_eof_of_isSymbol hcomma)
        obtain ⟨result, place, hrun, hsits, hlist⟩ := ih (hq.advance hend hnext')
          (show tokens.length < p.position + 1 + 1 + fuel by omega)
        refine ⟨result.map (t :: ·), place, ?_, hsits, ?_⟩
        · dsimp only
          rw [acceptSymbol, bind_of_ok (accept_at_true hq hnext' hcomma), if_pos rfl,
            bind_of_ok hrun]
          rfl
        · rw [if_pos rfl]
          replace hlist : Parse.nameList? (tokens.drop (p.position + 1 + 1)) = _ := hlist
          rw [hlist]
          cases result with
          | none => rfl
          | some ns => exact closing?_cons t ns _

theorem closing?_at (h : tokens[p.position]? = some t) (ns : List Token) :
    closing? ns (tokens.drop p.position) =
      if t.kind.isSymbol .rightParen then some (ns, tokens.drop (p.position + 1)) else none := by
  have hrest := rest_view h
  replace hrest : tokens.drop p.position = _ := hrest
  rw [hrest, closing?]

theorem parameterNames_at (hend : Ended tokens) (hp : p.Sits tokens depth old) :
    ∃ result place, parameterNames tokens p = .ok result { p with position := place } ∧
      Sits tokens depth old { p with position := place } ∧
      Parse.parameterNames? (tokens.drop p.position) =
        result.bind fun ns => closing? ns (tokens.drop place) := by
  obtain ⟨t, ht⟩ := hp.exists_token
  have hrest := rest_view ht
  replace hrest : tokens.drop p.position = _ := hrest
  cases hclosed : t.kind.isSymbol .rightParen with
  | true =>
    have hnext := next?_of_kind ht (Parse.not_eof_of_isSymbol hclosed)
    have hyes : nextIs tokens (·.isSymbol .rightParen) p = .ok true p := by
      rw [nextIs_at ht, hnext, Option.any_some, hclosed]
    refine ⟨some [], p.position, bind_of_ok hyes, hp, ?_⟩
    rw [Option.bind_some, closing?_at ht, hrest, Parse.parameterNames?, if_pos hclosed,
      if_pos hclosed]
  | false =>
    have hno : nextIs tokens (·.isSymbol .rightParen) p = .ok false p := by
      rw [nextIs_at ht, any_next? ht hclosed]
    obtain ⟨result, place, hrun, hq, hlist⟩ := names_at hend hp
      (show tokens.length < p.position + (tokens.length + 1) by omega)
    refine ⟨result, place, (bind_of_ok hno).trans hrun, hq, ?_⟩
    rw [hrest] at hlist ⊢
    rw [Parse.parameterNames?, hclosed]
    exact hlist

/-- The parameters of an arrow are read if they are there with an `=>` behind them. -/
theorem arrowParameters_at (hend : Ended tokens) (hp : p.Sits tokens depth old) :
    ∃ result place, arrowParameters tokens p = .ok result { p with position := place } ∧
      Sits tokens depth old { p with position := place } ∧
      (result = none ∧ Parse.arrowHead? (tokens.drop p.position) = none ∨
        ∃ params arrow, result = some params ∧ before? tokens place = some arrow ∧
          Parse.arrowHead? (tokens.drop p.position) = some (params, arrow, tokens.drop place)) := by
  obtain ⟨result, place, hrun, hq, hnames⟩ := parameterNames_at hend hp
  have hhead := Parse.arrowHead?_eq (tokens.drop p.position)
  rw [hnames] at hhead
  rw [arrowParameters, bind_of_ok hrun]
  cases result with
  | none => exact ⟨none, place, rfl, hq, .inl ⟨rfl, Option.map_eq_none_iff.mp hhead⟩⟩
  | some ns =>
    obtain ⟨t, ht⟩ := hq.exists_token
    have hclosing := closing?_at ht ns
    replace hclosing : closing? ns (tokens.drop place) = _ := hclosing
    rw [Option.bind_some, hclosing] at hhead
    dsimp only
    cases hclosed : t.kind.isSymbol .rightParen with
    | false =>
      rw [hclosed] at hhead
      exact ⟨none, place, bind_of_ok (accept_at_false hq (any_next? ht hclosed)), hq,
        .inl ⟨rfl, Option.map_eq_none_iff.mp hhead⟩⟩
    | true =>
      have hnext := next?_of_kind ht (Parse.not_eof_of_isSymbol hclosed)
      have hq' := hq.advance hend hnext
      obtain ⟨u, hu⟩ := hq'.exists_token
      have hrest := rest_view hu
      replace hrest : tokens.drop (place + 1) = _ := hrest
      rw [hclosed, if_pos rfl, Option.bind_some, hrest, Parse.arrowBehind?] at hhead
      rw [acceptSymbol, bind_of_ok (accept_at_true hq hnext hclosed), if_pos rfl]
      cases harrow : u.kind.isSymbol .arrow with
      | false =>
        rw [harrow] at hhead
        exact ⟨none, place + 1, bind_of_ok (accept_at_false hq' (any_next? hu harrow)), hq',
          .inl ⟨rfl, Option.map_eq_none_iff.mp hhead⟩⟩
      | true =>
        have hnext' := next?_of_kind hu (Parse.not_eof_of_isSymbol harrow)
        rw [harrow, if_pos rfl] at hhead
        obtain ⟨⟨params, arrow, after⟩, hfound, heq⟩ := Option.map_eq_some_iff.mp hhead
        cases heq
        exact ⟨some ns, place + 1 + 1, bind_of_ok (accept_at_true hq' hnext' harrow),
          hq'.advance hend hnext', .inr ⟨ns, _, rfl, hu, hfound⟩⟩

theorem Tracks.arrowHead (hend : Ended tokens) :
    Tracks tokens depth old Parse.arrowHead (Tape.arrowHead tokens) := by
  intro p hp
  obtain ⟨result, place, hrun, hq, hhead⟩ := arrowParameters_at hend hp
  -- If there is no arrow, the cursor is back at its start and sees what it saw before.
  have hget : (get : Read Tape) p = .ok p p := rfl
  have hread : Tape.arrowHead tokens p = _ := (bind_of_ok hget).trans (bind_of_ok hrun)
  rw [hread]
  rcases hhead with ⟨rfl, hnone⟩ | ⟨params, arrow, rfl, hbefore, hsome⟩
  · rw [Parse.arrowHead_of_none hnone]
    exact .ok hp
  · rw [Parse.arrowHead_of_some hsome]
    obtain _ | place := place
    · cases hbefore
    · have hprevious : previous tokens { p with position := place + 1 } =
          .ok arrow { p with position := place + 1 } := previous_at hbefore rfl
      dsimp only
      rw [bind_of_ok hprevious, ← hbefore]
      exact .ok hq

end Heads

/-! ## Forms without parts of their own -/

namespace Tracks

variable {act : Parse α} {read : Read α}

/-- A body that does not depend on the loops around it. -/
theorem functionBody (h : Tracks tokens 0 old act read) :
    Tracks tokens depth old act (Tape.functionBody read) := by
  intro p hp
  have hbody := h { p with loopDepth := 0 } ⟨hp.inside, rfl, hp.noted⟩
  replace hbody : Agree tokens 0 old (act (p.view tokens)) _ := hbody
  unfold Tape.functionBody
  generalize act (p.view tokens) = result, read { p with loopDepth := 0 } = result' at hbody
  cases hbody with
  | @ok a q sits =>
    -- The loops inside of the body are forgotten, whatever their number.
    exact Agree.ok (p := { q with loopDepth := p.loopDepth }) ⟨sits.inside, hp.depth, sits.noted⟩
  | @error error q sits =>
    exact Agree.error (p := { q with loopDepth := p.loopDepth })
      ⟨sits.inside, hp.depth, sits.noted⟩
  | outOfFuel => exact .outOfFuel

/-- A body with one more loop around it. -/
theorem loopBody (h : Tracks tokens (depth + 1) old act read) :
    Tracks tokens depth old act (Tape.loopBody read) := by
  intro p hp
  have hbody := h { p with loopDepth := p.loopDepth + 1 }
    ⟨hp.inside, congrArg (· + 1) hp.depth, hp.noted⟩
  replace hbody : Agree tokens (depth + 1) old (act (p.view tokens)) _ := hbody
  unfold Tape.loopBody
  generalize act (p.view tokens) = result,
    read { p with loopDepth := p.loopDepth + 1 } = result' at hbody
  cases hbody with
  | @ok a q sits =>
    exact Agree.ok (p := { q with loopDepth := q.loopDepth - 1 })
      ⟨sits.inside, congrArg (· - 1) sits.depth, sits.noted⟩
  | @error error q sits =>
    exact Agree.error (p := { q with loopDepth := q.loopDepth - 1 })
      ⟨sits.inside, congrArg (· - 1) sits.depth, sits.noted⟩
  | outOfFuel => exact .outOfFuel

theorem assignTo (target : Expr) (equals : Token) (value : Expr) :
    Tracks tokens depth old (Parse.assignTo target equals value)
      (Tape.assignTo target equals value) := by
  unfold Parse.assignTo Tape.assignTo
  cases target
  case «variable» => exact freshId.bind fun _ => freshId.bind fun _ => .pure _
  case get => exact .pure _
  all_goals exact (noteAt _ _).bind fun _ => .pure _

variable (hend : Ended tokens)
include hend

theorem someParameters (fuel count : Nat) :
    Tracks tokens depth old (Parse.someParameters fuel count)
      (Tape.someParameters tokens fuel count) := by
  induction fuel generalizing count with
  | zero => exact .outOfFuel
  | succ fuel ih =>
    exact (limit count _).bind fun _ => (expectName hend _).bind fun name =>
      (acceptSymbol hend .comma).bind fun more =>
        .ite (fun _ => (ih (count + 1)).bind fun _ => .pure _) fun _ => .pure _

theorem parameters (fuel : Nat) :
    Tracks tokens depth old (Parse.parameters fuel) (Tape.parameters tokens fuel) :=
  (nextIs _).bind fun _ => .ite (fun _ => .pure _) fun _ => someParameters hend fuel 0

theorem leaf? (token : Token) : Option.Rel (Tracks tokens depth old) (Parse.leaf? token)
    (Tape.leaf? tokens token) := by
  unfold Parse.leaf? Tape.leaf?
  generalize token.kind = kind
  cases kind with
  | keyword k =>
    cases k with
    | «false» | «true» | nil => exact .some (.pure _)
    | this => exact .some (freshId.bind fun _ => .pure _)
    | super =>
      exact .some ((expectSymbol hend _ _).bind fun _ => (expectName hend _).bind fun _ =>
        freshId.bind fun _ => .pure _)
    | _ => exact .none
  | number | string => exact .some (.pure _)
  | identifier => exact .some (freshId.bind fun _ => .pure _)
  | _ => exact .none

theorem jump (node : Token → Stmt) (keyword : Token) :
    Tracks tokens depth old (Parse.jump node (decide (0 < depth)) keyword)
      (Tape.jump tokens node keyword) := by
  intro p hp
  have hget : (get : Read Tape) p = .ok p p := rfl
  rw [Tape.jump, bind_of_ok hget, hp.depth, Parse.jump]
  cases depth with
  | zero => exact failAt _ _ p hp
  | succ depth => exact ((expectSymbol hend _ _).bind fun _ => .pure _) p hp

end Tracks

/-! ## The rules -/

/-- The rules go along on a list of tokens. A statement is inside of a loop if loops are counted
around it. -/
structure RulesTrack (tokens : List Token) (fuel : Nat) : Prop where
  exprAt : ∀ {depth old} level,
    Tracks tokens depth old (Parse.exprAt fuel level) (exprAt tokens fuel level)
  operands : ∀ {depth old} level left,
    Tracks tokens depth old (Parse.operands fuel level left) (operands tokens fuel level left)
  postfixes : ∀ {depth old} callee,
    Tracks tokens depth old (Parse.postfixes fuel callee) (postfixes tokens fuel callee)
  someArguments : ∀ {depth old} count,
    Tracks tokens depth old (Parse.someArguments fuel count) (someArguments tokens fuel count)
  primary : ∀ {depth old}, Tracks tokens depth old (Parse.primary fuel) (primary tokens fuel)
  parenthesised : ∀ {depth old},
    Tracks tokens depth old (Parse.parenthesised fuel) (parenthesised tokens fuel)
  arrowBody : ∀ {depth old} arrow,
    Tracks tokens depth old (Parse.arrowBody fuel arrow) (arrowBody tokens fuel arrow)
  statement : ∀ {depth old},
    Tracks tokens depth old (Parse.statement fuel (decide (0 < depth))) (statement tokens fuel)
  expressionStatement : ∀ {depth old},
    Tracks tokens depth old (Parse.expressionStatement fuel) (expressionStatement tokens fuel)
  forStatement : ∀ {depth old},
    Tracks tokens depth old (Parse.forStatement fuel) (forStatement tokens fuel)
  blockBody : ∀ {depth old},
    Tracks tokens depth old (Parse.blockBody fuel (decide (0 < depth))) (blockBody tokens fuel)
  declaration : ∀ {depth old},
    Tracks tokens depth old (Parse.declaration fuel (decide (0 < depth))) (declaration tokens fuel)
  varDeclaration : ∀ {depth old},
    Tracks tokens depth old (Parse.varDeclaration fuel) (varDeclaration tokens fuel)
  function : ∀ {depth old} role,
    Tracks tokens depth old (Parse.function fuel role) (function tokens fuel role)
  classDeclaration : ∀ {depth old},
    Tracks tokens depth old (Parse.classDeclaration fuel) (classDeclaration tokens fuel)
  members : ∀ {depth old}, Tracks tokens depth old (Parse.members fuel) (members tokens fuel)

namespace RulesTrack

variable {fuel : Nat}

theorem zero : RulesTrack tokens 0 where
  exprAt level := by
    cases level
    all_goals exact .outOfFuel
  operands _ _ := .outOfFuel
  postfixes _ := .outOfFuel
  someArguments _ := .outOfFuel
  primary := .outOfFuel
  parenthesised := .outOfFuel
  arrowBody _ := .outOfFuel
  statement := .outOfFuel
  expressionStatement := .outOfFuel
  forStatement := .outOfFuel
  blockBody := .outOfFuel
  declaration := .outOfFuel
  varDeclaration := .outOfFuel
  function _ := .outOfFuel
  classDeclaration := .outOfFuel
  members := .outOfFuel

variable (h : RulesTrack tokens fuel) (hend : Ended tokens)
include h hend

theorem exprAt_succ (level : Level) : Tracks tokens depth old (Parse.exprAt (fuel + 1) level)
    (Tape.exprAt tokens (fuel + 1) level) := by
  have hlevel (level : Level) : Tracks tokens depth old
      (do let left ← Parse.exprAt fuel level.tighter; Parse.operands fuel level left)
      (do let left ← Tape.exprAt tokens fuel level.tighter; Tape.operands tokens fuel level left) :=
    (h.exprAt _).bind fun left => h.operands level left
  rw [Parse.exprAt.eq_def, Tape.exprAt.eq_def]
  cases level
  case assignment =>
    refine (h.exprAt .ternary).bind fun target => (Tracks.accept? hend _).bind fun found => ?_
    cases found with
    | none => exact .pure _
    | some equals => exact (h.exprAt .assignment).bind fun value => .assignTo _ _ _
  case ternary =>
    refine (h.exprAt .or).bind fun condition => (Tracks.accept? hend _).bind fun found => ?_
    cases found with
    | none => exact .pure _
    | some question =>
      exact (h.exprAt .comma).bind fun thenBranch => (Tracks.expectSymbol hend _ _).bind fun _ =>
        (h.exprAt .ternary).bind fun elseBranch => .pure _
  case unary =>
    refine (Tracks.accept? hend _).bind fun found => ?_
    cases found with
    | none => exact h.exprAt .call
    | some operator => exact (h.exprAt .unary).bind fun right => .pure _
  case call => exact (h.exprAt .primary).bind fun callee => h.postfixes callee
  case primary => exact h.primary
  all_goals exact hlevel _

theorem operands_succ (level : Level) (left : Expr) : Tracks tokens depth old
    (Parse.operands (fuel + 1) level left) (Tape.operands tokens (fuel + 1) level left) := by
  rw [Parse.operands, Tape.operands]
  refine (Tracks.accept? hend _).bind fun found => ?_
  cases found with
  | none => exact .pure _
  | some operator => exact (h.exprAt _).bind fun right => h.operands level _

theorem postfixes_succ (callee : Expr) : Tracks tokens depth old
    (Parse.postfixes (fuel + 1) callee) (Tape.postfixes tokens (fuel + 1) callee) := by
  have hcall (es : List Expr) : Tracks tokens depth old
      (do let paren ← Parse.expect (·.isSymbol .rightParen) "')' after arguments"
          Parse.postfixes fuel (.call callee paren es))
      (do let paren ← Tape.expect tokens (·.isSymbol .rightParen) "')' after arguments"
          Tape.postfixes tokens fuel (.call callee paren es)) :=
    (Tracks.expect hend _ _).bind fun paren => h.postfixes _
  rw [Parse.postfixes, Tape.postfixes]
  refine (Tracks.accept? hend _).bind fun found => ?_
  cases found with
  | none => exact .pure _
  | some t =>
    refine .ite (fun _ => ?_) fun _ => ?_
    · refine (Tracks.nextIs _).bind fun closed => .ite (fun _ => hcall []) fun _ => ?_
      exact (h.someArguments 0).bind hcall
    · exact (Tracks.expectName hend _).bind fun name => h.postfixes _

theorem someArguments_succ (count : Nat) : Tracks tokens depth old
    (Parse.someArguments (fuel + 1) count) (Tape.someArguments tokens (fuel + 1) count) := by
  rw [Parse.someArguments, Tape.someArguments]
  exact (Tracks.limit count _).bind fun _ => (h.exprAt .assignment).bind fun argument =>
    (Tracks.acceptSymbol hend .comma).bind fun more =>
      .ite (fun _ => (h.someArguments (count + 1)).bind fun _ => .pure _) fun _ => .pure _

theorem primary_succ : Tracks tokens depth old (Parse.primary (fuel + 1))
    (Tape.primary tokens (fuel + 1)) := by
  intro p hp
  obtain ⟨t, ht⟩ := hp.exists_token
  rw [Parse.primary, Tape.primary, Parse.bind_get, bind_of_ok (next?_at ht)]
  cases hnext : (p.view tokens).next? with
  | none => exact Tracks.failHere _ p hp
  | some t =>
    have hleaf : Option.Rel (Tracks tokens depth old) _ _ := Tracks.leaf? hend t
    dsimp only
    generalize Parse.leaf? t = leaf, Tape.leaf? tokens t = leaf' at hleaf
    cases hleaf with
    | some hleaf => exact hleaf.advance hend hp hnext
    | none =>
      dsimp only
      split
      · exact h.parenthesised.advance hend hp hnext
      · cases Level.ofStrayOperator? t.kind with
        | none => exact Tracks.failHere _ p hp
        | some level =>
          exact ((h.exprAt level).discard.bind fun _ => .failAt _ _).advance hend hp hnext

theorem parenthesised_succ : Tracks tokens depth old (Parse.parenthesised (fuel + 1))
    (Tape.parenthesised tokens (fuel + 1)) := by
  rw [Parse.parenthesised, Tape.parenthesised]
  refine (Tracks.arrowHead hend).bind fun head => ?_
  cases head with
  | none =>
    exact (h.exprAt .comma).bind fun inner => (Tracks.expectSymbol hend _ _).bind fun _ => .pure _
  | some head =>
    have hbody : Tracks tokens depth old
        (do return Expr.arrow ⟨head.2, head.1, ← Parse.arrowBody fuel head.2⟩)
        (do return Expr.arrow ⟨head.2, head.1, ← Tape.arrowBody tokens fuel head.2⟩) :=
      (h.arrowBody head.2).bind fun _ => .pure _
    exact .ite (fun _ => (Tracks.noteAt _ _).bind fun _ => hbody) fun _ => hbody

theorem arrowBody_succ (arrow : Token) : Tracks tokens depth old (Parse.arrowBody (fuel + 1) arrow)
    (Tape.arrowBody tokens (fuel + 1) arrow) := by
  rw [Parse.arrowBody, Tape.arrowBody]
  refine (Tracks.acceptSymbol hend _).bind fun braced => .ite (fun _ => ?_) fun _ => ?_
  · exact .functionBody h.blockBody
  · exact (h.exprAt .assignment).bind fun value => .pure _

theorem expressionStatement_succ : Tracks tokens depth old (Parse.expressionStatement (fuel + 1))
    (Tape.expressionStatement tokens (fuel + 1)) := by
  rw [Parse.expressionStatement, Tape.expressionStatement]
  exact (h.exprAt .comma).bind fun value => (Tracks.expectSymbol hend _ _).bind fun _ => .pure _

theorem statement_succ : Tracks tokens depth old
    (Parse.statement (fuel + 1) (decide (0 < depth))) (Tape.statement tokens (fuel + 1)) := by
  intro p hp
  obtain ⟨t, ht⟩ := hp.exists_token
  have hbare := h.expressionStatement p hp
  rw [Parse.statement, Tape.statement, Parse.bind_get, bind_of_ok (next?_at ht)]
  cases hnext : (p.view tokens).next? with
  | none => exact hbare
  | some t =>
    dsimp only
    generalize t.kind = kind
    cases kind with
    | keyword k =>
      cases k with
      | «for» => exact h.forStatement.advance hend hp hnext
      | «if» =>
        refine Tracks.advance hend (.bind (h.exprAt .comma) fun condition => .bind h.statement
          fun thenBranch => (Tracks.accept hend _).bind fun more => .ite (fun _ => ?_)
            fun _ => .pure _) hp hnext
        exact h.statement.bind fun elseBranch => .pure _
      | «while» =>
        exact Tracks.advance hend (.bind (h.exprAt .comma) fun condition =>
          (Tracks.loopBody h.statement).bind fun body => .pure _) hp hnext
      | «return» =>
        exact Tracks.advance hend (.bind (.readUnless (.nextIs _) (h.exprAt .comma)) fun value =>
          (Tracks.expectSymbol hend _ _).bind fun _ => .pure _) hp hnext
      | «break» => exact (Tracks.jump hend .break t).advance hend hp hnext
      | «continue» => exact (Tracks.jump hend .continue t).advance hend hp hnext
      | assert =>
        exact Tracks.advance hend (.bind (h.exprAt .assignment) fun condition =>
          .bind (.readIf (.acceptSymbol hend _) (h.exprAt .comma)) fun message =>
            (Tracks.expectSymbol hend _ _).bind fun _ => .pure _) hp hnext
      | print | println =>
        exact Tracks.advance hend (.bind (h.exprAt .comma) fun value =>
          (Tracks.expectSymbol hend _ _).bind fun _ => .pure _) hp hnext
      | _ => exact hbare
    | symbol s =>
      cases s with
      | leftBrace => exact Tracks.advance hend (.bind h.blockBody fun body => .pure _) hp hnext
      | _ => exact hbare
    | _ => exact hbare

theorem forStatement_succ : Tracks tokens depth old (Parse.forStatement (fuel + 1))
    (Tape.forStatement tokens (fuel + 1)) := by
  rw [Parse.forStatement, Tape.forStatement]
  refine .bind (.readUnless (.acceptSymbol hend _) ?_) fun initializer =>
    .bind (.readUnless (.acceptSymbol hend _) ?_) fun condition =>
      .bind (.readUnless (.nextIs _) (h.exprAt .comma)) fun update =>
        (Tracks.expectSymbol hend _ _).bind fun _ =>
          (Tracks.loopBody h.blockBody).bind fun body => .pure _
  · exact (Tracks.accept hend _).bind fun _ =>
      .ite (fun _ => h.varDeclaration) fun _ => h.expressionStatement
  · exact (h.exprAt .comma).bind fun condition => (Tracks.expectSymbol hend _ _).bind fun _ =>
      .pure _

theorem blockBody_succ : Tracks tokens depth old
    (Parse.blockBody (fuel + 1) (decide (0 < depth))) (Tape.blockBody tokens (fuel + 1)) := by
  rw [Parse.blockBody, Tape.blockBody]
  refine (Tracks.nextIs _).bind fun _ => Tracks.atEnd.bind fun _ => .ite (fun _ => ?_) fun _ => ?_
  · exact (Tracks.expectSymbol hend _ _).bind fun _ => .pure _
  · exact h.declaration.bind fun first => h.blockBody.bind fun others => .pure _

theorem varDeclaration_succ : Tracks tokens depth old (Parse.varDeclaration (fuel + 1))
    (Tape.varDeclaration tokens (fuel + 1)) := by
  rw [Parse.varDeclaration, Tape.varDeclaration]
  exact (Tracks.expectName hend _).bind fun name =>
    .bind (.readIf (.acceptSymbol hend _) (h.exprAt .comma)) fun initializer =>
      (Tracks.expectSymbol hend _ _).bind fun _ => .pure _

theorem function_succ (role : String) : Tracks tokens depth old (Parse.function (fuel + 1) role)
    (Tape.function tokens (fuel + 1) role) := by
  rw [Parse.function, Tape.function]
  exact (Tracks.expectName hend _).bind fun name => (Tracks.expectSymbol hend _ _).bind fun _ =>
    (Tracks.parameters hend fuel).bind fun params => (Tracks.expectSymbol hend _ _).bind fun _ =>
      (Tracks.expectSymbol hend _ _).bind fun _ =>
        (Tracks.functionBody h.blockBody).bind fun body => .pure _

theorem declaration_succ : Tracks tokens depth old
    (Parse.declaration (fuel + 1) (decide (0 < depth))) (Tape.declaration tokens (fuel + 1)) := by
  intro p hp
  obtain ⟨t, ht⟩ := hp.exists_token
  have hbare := h.statement p hp
  have hkind : Parse.nextKind? (p.view tokens) =
      .ok ((p.view tokens).next?.map Token.kind) (p.view tokens) := rfl
  rw [Parse.declaration, Tape.declaration, bind_of_ok hkind, bind_of_ok (next?_at ht)]
  cases hnext : (p.view tokens).next? with
  | none => exact hbare
  | some t =>
    rw [Option.map_some]
    generalize t.kind = kind
    cases kind with
    | keyword k =>
      cases k with
      | «class» => exact h.classDeclaration.advance hend hp hnext
      | «fun» =>
        exact Tracks.advance hend (.bind (h.function _) fun decl => .pure _) hp hnext
      | var => exact h.varDeclaration.advance hend hp hnext
      | const =>
        exact Tracks.advance hend (.bind (.expectName hend _) fun name =>
          (Tracks.expectSymbol hend _ _).bind fun _ => (h.exprAt .comma).bind fun initializer =>
            (Tracks.expectSymbol hend _ _).bind fun _ => .pure _) hp hnext
      | _ => exact hbare
    | _ => exact hbare

theorem classDeclaration_succ : Tracks tokens depth old (Parse.classDeclaration (fuel + 1))
    (Tape.classDeclaration tokens (fuel + 1)) := by
  rw [Parse.classDeclaration, Tape.classDeclaration]
  refine (Tracks.expectName hend _).bind fun name =>
    .bind (.readIf (.acceptSymbol hend _) ?_) fun base =>
      (Tracks.expectSymbol hend _ _).bind fun _ => h.members.bind fun members =>
        (Tracks.expectSymbol hend _ _).bind fun _ => .pure _
  exact (Tracks.expectName hend _).bind fun name => Tracks.freshId.bind fun id => .pure _

theorem members_succ : Tracks tokens depth old (Parse.members (fuel + 1))
    (Tape.members tokens (fuel + 1)) := by
  rw [Parse.members, Tape.members]
  refine (Tracks.nextIs _).bind fun _ => Tracks.atEnd.bind fun _ => .ite (fun _ => .pure _)
    fun _ => (Tracks.accept hend _).bind fun isStatic => .ite (fun _ => ?_) fun _ =>
      Tracks.nextButOneIs ?_ ?_
  · exact (h.function _).bind fun decl => h.members.bind fun others => .pure _
  · exact (Tracks.expectName hend _).bind fun name => (Tracks.expectSymbol hend _ _).bind fun _ =>
      (Tracks.functionBody h.blockBody).bind fun body => h.members.bind fun others => .pure _
  · exact (h.function _).bind fun decl => h.members.bind fun others => .pure _

end RulesTrack

theorem rulesTrack (hend : Ended tokens) (fuel : Nat) : RulesTrack tokens fuel := by
  induction fuel with
  | zero => exact .zero
  | succ fuel h =>
    exact
      { exprAt := h.exprAt_succ hend
        operands := h.operands_succ hend
        postfixes := h.postfixes_succ hend
        someArguments := h.someArguments_succ hend
        primary := h.primary_succ hend
        parenthesised := h.parenthesised_succ hend
        arrowBody := h.arrowBody_succ hend
        statement := h.statement_succ hend
        expressionStatement := h.expressionStatement_succ hend
        forStatement := h.forStatement_succ hend
        blockBody := h.blockBody_succ hend
        declaration := h.declaration_succ hend
        varDeclaration := h.varDeclaration_succ hend
        function := h.function_succ hend
        classDeclaration := h.classDeclaration_succ hend
        members := h.members_succ hend }

end Tape

end LoxLang
