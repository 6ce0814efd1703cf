import LoxLang.Proofs.Grammar.Forming
import LoxLang.Proofs.Grammar.Progress
import LoxLang.Proofs.Sequence
import LoxLang.Proofs.Syntax.Alike

/-!
# Parses side by side

Two parses of tokens that correspond go the same way (`Pairs`): they read trees that are alike, or
fail with faults that are alike. Two things may set them apart, and are excused (`Tally`): one of
the bounds on the depth is too small, or the tokens correspond only up to some point and the first
parse does not stop there. Steps that go together can be put together.
-/

namespace LoxLang

/-- Two faults of the grammar at tokens that correspond. -/
structure GrammarError.Alike (l : Likeness) (error error' : GrammarError) : Prop where
  fault : error.fault = error'.fault
  token : l.token error.token error'.token

namespace Parse

/-- Two parses that are compared. -/
structure Pairing extends Likeness where
  /-- The tokens behind those that correspond. -/
  tail : List Token
  tail' : List Token
  /-- The faults noted before. -/
  errors : List GrammarError
  errors' : List GrammarError
  failed : Bool
  failed' : Bool
  /-- Whether it matters only what happens if the first parse goes through without a fault and
  leaves its tail. Otherwise there is no tail. -/
  lenient : Bool
  whole : lenient = false → tail = [] ∧ tail' = []
  /-- The second parse finds the end behind its part. -/
  ends : ∀ t ∈ tail'.head?, t.kind.isEof = true

variable {α β : Type} (p : Pairing)

/-- Faults that two parses have noted on the way. -/
structure Noted (s s' : ParseState) (found found' : List GrammarError) : Prop where
  errors : s.errors = p.errors ++ found
  errors' : s'.errors = p.errors' ++ found'
  alike : List.Forall₂ (GrammarError.Alike p.toLikeness) found found'
  failed : s.failed = (p.failed || !found.isEmpty)
  failed' : s'.failed = (p.failed' || !found'.isEmpty)

/-- Tokens that correspond up to the tails. -/
def Ahead (rest rest' : List Token) : Prop :=
  ∃ ts ts', rest = ts ++ p.tail ∧ rest' = ts' ++ p.tail' ∧ List.Forall₂ p.token ts ts'

/-- Two parses at corresponding points. -/
structure Beside (s s' : ParseState) : Prop where
  ahead : Ahead p s.rest s'.rest
  last : p.lenient = false → Option.Rel p.token s.last s'.last
  numbers : ∀ m, p.node (s.nextId + m) (s'.nextId + m)
  noted : ∃ found found', Noted p s s' found found'

/-- The first parse has gone into its tail, or has noted a fault. -/
def Past (s : ParseState) : Prop :=
  p.lenient = true ∧ (s.rest.length < p.tail.length ∨ s.failed = true)

/-- The second parse does not matter any more. -/
def Excused : EStateM.Result ParseStop ParseState α → Prop
  | .ok _ after => Past p after
  | .error _ _ => p.lenient = true

/-- How the results of two parses go together. -/
inductive Tally (Q : α → α → Prop) :
    EStateM.Result ParseStop ParseState α → EStateM.Result ParseStop ParseState α → Prop
  | ok {a a' after after'} (beside : Beside p after after') (alike : Q a a') :
    Tally Q (.ok a after) (.ok a' after')
  | error {error error' after after'} (beside : Beside p after after')
    (alike : error.Alike p.toLikeness error') :
    Tally Q (.error (.error error) after) (.error (.error error') after')
  | stuck {after result'} : Tally Q (.error .outOfFuel after) result'
  | stuck' {result after'} : Tally Q result (.error .outOfFuel after')
  | excused {result result'} (excused : Excused p result) : Tally Q result result'

/-- A step that takes at least so many tokens and takes back no fault. -/
def Moves (least : Nat) (act : Parse α) : Prop :=
  ∀ s a after, act s = .ok a after →
    after.rest.length + least ≤ s.rest.length ∧ (s.failed = true → after.failed = true)

/-- Two steps that go together under an assumption. The first takes at least so many tokens,
whatever the assumption. -/
structure Pairs (least : Nat) (R : Prop) (act act' : Parse α) (Q : α → α → Prop) : Prop where
  moves : Moves least act
  tallies : R → ∀ s s', Beside p s s' → Tally p Q (act s) (act' s')

variable {p} {least least' n : Nat} {R R' : Prop} {act act' : Parse α} {Q Q' : α → α → Prop}
  {k k' : α → Parse β} {S : β → β → Prop} {s s' : ParseState}

/-! ## Corresponding points -/

/-- What two parses see in front of them. -/
inductive View (p : Pairing) (s s' : ParseState) : Prop
  | token {t t'} (next : s.next? = some t) (next' : s'.next? = some t') (alike : p.token t t')
    (beside : Beside p s.advance s'.advance)
  | done (next : s.next? = none) (next' : s'.next? = none)
  /-- The first parse has come to its tail. -/
  | edge (lenient : p.lenient = true) (short : s.rest.length ≤ p.tail.length)
    (next : s.next?.isSome) (next' : s'.next? = none)

theorem Beside.front (h : Beside p s s') (hwhole : p.lenient = false) :
    p.token s.front s'.front := by
  obtain ⟨ts, ts', hts, hts', htokens⟩ := h.ahead
  rw [(p.whole hwhole).1, List.append_nil] at hts
  rw [(p.whole hwhole).2, List.append_nil] at hts'
  rw [ParseState.front, ParseState.front, hts, hts']
  cases htokens with
  | nil => exact p.ended
  | cons ht _ => exact ht

theorem Beside.note {error error' : GrammarError} (h : Beside p s s')
    (herror : error.Alike p.toLikeness error') : Beside p (s.note error) (s'.note error') := by
  obtain ⟨found, found', hfound⟩ := h.noted
  refine ⟨h.ahead, h.last, h.numbers, found ++ [error], found' ++ [error'], ?_⟩
  exact
    { errors := by rw [ParseState.note, hfound.errors, List.append_assoc]
      errors' := by rw [ParseState.note, hfound.errors', List.append_assoc]
      alike := List.rel_append hfound.alike (.cons herror .nil)
      failed := by simp [ParseState.note]
      failed' := by simp [ParseState.note] }

/-- Two parses go on to corresponding points. -/
theorem Beside.moved {t t' : Token} {rest rest' : List Token} (h : Beside p s s')
    (ht : p.token t t') (hahead : Ahead p rest rest') :
    Beside p { s with last := some t, rest := rest }
      { s' with last := some t', rest := rest' } := by
  obtain ⟨found, found', hfound⟩ := h.noted
  exact ⟨hahead, fun _ => .some ht, h.numbers, found, found', hfound.errors, hfound.errors',
    hfound.alike, hfound.failed, hfound.failed'⟩

theorem Pairing.lenient_of_tail (h : n < p.tail.length) : p.lenient = true := by
  cases hlenient : p.lenient with
  | true => rfl
  | false =>
    rw [(p.whole hlenient).1] at h
    cases h

theorem ParseState.advance_of_next? {s : ParseState} {t : Token} (h : s.next? = some t) :
    s.advance = { s with last := some t, rest := s.rest.tail } := by
  rw [ParseState.advance, h]

theorem ParseState.next?_of_rest {s : ParseState} {t : Token} {rest : List Token}
    (h : s.rest = t :: rest) : s.next? = if t.kind.isEof then none else some t := by
  rw [ParseState.next?, h]

theorem Beside.view (h : Beside p s s') : View p s s' := by
  obtain ⟨ts, ts', hts, hts', htokens⟩ := h.ahead
  cases htokens with
  | nil =>
    have hnone' : s'.next? = none := by
      have hends := p.ends
      rw [ParseState.next?, hts', List.nil_append]
      cases htail : p.tail' with
      | nil => rfl
      | cons t rest => exact if_pos (hends t (by rw [htail]; rfl))
    cases hnext : s.next? with
    | none => exact .done hnext hnone'
    | some t =>
      cases hlenient : p.lenient with
      | true => exact .edge hlenient (by rw [hts]; exact Nat.le_refl _) (by rw [hnext]; rfl) hnone'
      | false =>
        rw [(p.whole hlenient).1] at hts
        simp [ParseState.next?, hts] at hnext
  | @cons t t' us us' ht hus =>
    have hnext := ParseState.next?_of_rest hts
    have hnext' := ParseState.next?_of_rest hts'
    rw [← p.kind ht] at hnext'
    cases hkind : t.kind.isEof with
    | true => exact .done (by rw [hnext, if_pos hkind]) (by rw [hnext', if_pos hkind])
    | false =>
      rw [hkind] at hnext hnext'
      rw [if_neg Bool.false_ne_true] at hnext hnext'
      refine .token hnext hnext' ht ?_
      rw [ParseState.advance_of_next? hnext, ParseState.advance_of_next? hnext', hts, hts']
      exact h.moved ht ⟨us, us', rfl, rfl, hus⟩

theorem Beside.place (h : Beside p s s') (hwhole : p.lenient = false) :
    p.token s.place s'.place := by
  rw [ParseState.place, ParseState.place, ParseState.atEnd, ParseState.atEnd]
  cases h.view with
  | token next next' alike _ =>
    rw [next, next']
    exact h.front hwhole
  | done next next' =>
    rw [next, next']
    have hlast := h.last hwhole
    cases hlast' : s.last <;> cases hlast'' : s'.last <;> rw [hlast', hlast''] at hlast <;>
      cases hlast
    · exact h.front hwhole
    · assumption
  | edge lenient =>
    rw [hwhole] at lenient
    cases lenient

/-- Two tokens ahead, if the first parse has not come near its tail. -/
theorem Beside.second (h : Beside p s s') :
    p.lenient = true ∧ s.rest.length ≤ p.tail.length + 1 ∨
      Option.Rel p.token s.rest[1]? s'.rest[1]? := by
  obtain ⟨ts, ts', hts, hts', htokens⟩ := h.ahead
  rw [hts, hts']
  cases htokens with
  | nil =>
    cases hlenient : p.lenient with
    | true => exact .inl ⟨rfl, by simp⟩
    | false =>
      rw [(p.whole hlenient).1, (p.whole hlenient).2]
      exact .inr .none
  | cons ht hus =>
    cases hus with
    | nil =>
      cases hlenient : p.lenient with
      | true => exact .inl ⟨rfl, by simp⟩
      | false =>
        rw [(p.whole hlenient).1, (p.whole hlenient).2]
        exact .inr .none
    | cons hu _ => exact .inr (.some hu)

theorem Moves.excused (h : Moves (n + 1) act) (hlenient : p.lenient = true)
    (hshort : s.rest.length ≤ p.tail.length + n) : Excused p (act s) := by
  cases hrun : act s with
  | error stop after => exact hlenient
  | ok a after => exact ⟨hlenient, .inl (by have := (h s a after hrun).1; omega)⟩

theorem Past.excused (h : Past p s) (hmoves : Moves n act) : Excused p (act s) := by
  cases hrun : act s with
  | error stop after => exact h.1
  | ok a after =>
    obtain ⟨hlength, hfailed⟩ := hmoves s a after hrun
    exact ⟨h.1, h.2.imp (fun hshort => by omega) hfailed⟩

theorem Tally.imp {result result' : EStateM.Result ParseStop ParseState α}
    (h : Tally p Q result result') (himp : ∀ a a', Q a a' → Q' a a') :
    Tally p Q' result result' := by
  cases h with
  | ok beside alike => exact .ok beside (himp _ _ alike)
  | error beside alike => exact .error beside alike
  | stuck => exact .stuck
  | stuck' => exact .stuck'
  | excused excused => exact .excused excused

/-! ## Runs of single steps -/

theorem bind_get {k : ParseState → Parse β} : (get >>= k) s = k s s := rfl

theorem accept?_of_none {wanted : TokenKind → Bool} (h : s.next? = none) :
    accept? wanted s = .ok none s := by
  rw [accept?, bind_get, h]
  rfl

theorem accept?_of_not {wanted : TokenKind → Bool} {t : Token} (h : s.next? = some t)
    (hwanted : wanted t.kind = false) : accept? wanted s = .ok none s := by
  rw [accept?, bind_get, h]
  dsimp only
  rw [hwanted]
  rfl

theorem accept?_of_wanted {wanted : TokenKind → Bool} {t : Token} (h : s.next? = some t)
    (hwanted : wanted t.kind = true) : accept? wanted s = .ok (some t) s.advance := by
  rw [accept?, bind_get, h]
  dsimp only
  rw [hwanted]
  rfl

/-! ## Moving -/

namespace Moves

theorem pure {a : α} : Moves 0 (pure a : Parse α) := by
  rintro s _ _ ⟨⟩
  exact ⟨Nat.le_refl _, id⟩

theorem fewer (h : Moves n act) (hle : least ≤ n) : Moves least act := fun s a after hrun =>
  ⟨by have := (h s a after hrun).1; omega, (h s a after hrun).2⟩

theorem bind (h : Moves least act) (hk : ∀ a, Moves n (k a)) : Moves (n + least) (act >>= k) := by
  intro s b after hrun
  obtain ⟨a, mid, hact, hrest⟩ := exists_of_bind hrun
  obtain ⟨hlength, hfailed⟩ := h s a mid hact
  obtain ⟨hlength', hfailed'⟩ := hk a mid b after hrest
  exact ⟨by omega, hfailed' ∘ hfailed⟩

/-- A step that only fails. -/
theorem of_error (h : ∀ s, ∃ stop after, act s = .error stop after) : Moves n act := by
  intro s a after hrun
  obtain ⟨stop, after', herror⟩ := h s
  rw [herror] at hrun
  cases hrun

theorem of_takes (enough : List Token → Prop)
    (h : ∀ rest, Takes rest (enough rest) act fun _ left => left.length + n ≤ rest.length)
    (hkeeps : KeepsFaults act) : Moves n act := fun s _ _ hrun =>
  ⟨((h s.rest s rfl).ok trivial hrun).2, ((hkeeps s).ok trivial hrun).1⟩

end Moves

namespace Pairs

/-! ## Putting steps together -/

theorem pure {a a' : α} (h : R → Q a a') : Pairs p 0 R (pure a) (pure a') Q where
  moves := .pure
  tallies hR _ _ hs := .ok hs (h hR)

theorem imp (h : Pairs p n R act act' Q) (hR : R' → R)
    (himp : R' → ∀ a a', Q a a' → Q' a a') : Pairs p n R' act act' Q' where
  moves := h.moves
  tallies hR' s s' hs := (h.tallies (hR hR') s s' hs).imp (himp hR')

theorem given (h : Pairs p n R act act' Q) (hR : R' → R) : Pairs p n R' act act' Q :=
  h.imp hR fun _ _ _ => id

theorem fewer (h : Pairs p n R act act' Q) (hle : least ≤ n) : Pairs p least R act act' Q where
  moves := h.moves.fewer hle
  tallies := h.tallies

/-- A step that takes nothing or more. -/
theorem any (h : Pairs p n R act act' Q) : Pairs p 0 R act act' Q := h.fewer (Nat.zero_le n)

theorem tallies_bind (h : Pairs p least R act act' Q)
    (hk : ∀ a a', Pairs p n (R ∧ Q a a') (k a) (k' a') S) (hR : R) (hs : Beside p s s') :
    Tally p S ((act >>= k) s) ((act' >>= k') s') := by
  show Tally p S (EStateM.bind act k s) (EStateM.bind act' k' s')
  unfold EStateM.bind
  have hact := h.tallies hR s s' hs
  generalize act s = result, act' s' = result' at hact ⊢
  cases hact with
  | ok beside alike => exact (hk _ _).tallies ⟨hR, alike⟩ _ _ beside
  | error beside alike => exact .error beside alike
  | stuck => exact .stuck
  | stuck' => exact .stuck'
  | excused excused =>
    cases result with
    | error stop after => exact .excused excused
    | ok a mid => exact .excused (excused.excused (hk a a).moves)

/-- A step, and then another with the results that the first gave. -/
theorem bind (h : Pairs p least R act act' Q)
    (hk : ∀ a a', Pairs p n (R ∧ Q a a') (k a) (k' a') S) :
    Pairs p n R (act >>= k) (act' >>= k') S where
  moves := (h.moves.bind fun a => (hk a a).moves).fewer (Nat.le_add_right _ _)
  tallies hR _ _ := h.tallies_bind hk hR

/-- A step that takes a token, and then another. -/
theorem andThen (h : Pairs p 1 R act act' Q)
    (hk : ∀ a a', Pairs p n (R ∧ Q a a') (k a) (k' a') S) :
    Pairs p (n + 1) R (act >>= k) (act' >>= k') S where
  moves := h.moves.bind fun a => (hk a a).moves
  tallies hR _ _ := h.tallies_bind hk hR

/-- A step that takes as much as is asked for, and then another. -/
theorem bindFirst (h : Pairs p n R act act' Q)
    (hk : ∀ a a', Pairs p 0 (R ∧ Q a a') (k a) (k' a') S) :
    Pairs p n R (act >>= k) (act' >>= k') S where
  moves := (h.moves.bind fun a => (hk a a).moves).fewer (Nat.le_add_left _ _)
  tallies hR _ _ := h.tallies_bind hk hR

theorem ite {c c' : Prop} [Decidable c] [Decidable c'] {other other' : Parse α}
    (hc : R → (c ↔ c')) (h : Pairs p n R act act' Q) (h' : Pairs p n R other other' Q) :
    Pairs p n R (if c then act else other) (if c' then act' else other') Q where
  moves := by split; exacts [h.moves, h'.moves]
  tallies hR s s' hs := by
    have hcc := hc hR
    by_cases hcase : c
    · rw [if_pos hcase, if_pos (hcc.mp hcase)]
      exact h.tallies hR s s' hs
    · rw [if_neg hcase, if_neg (hcc.not.mp hcase)]
      exact h'.tallies hR s s' hs

theorem discard (h : Pairs p n R act act' Q) :
    Pairs p n R (discard act) (discard act') fun _ _ => True where
  moves := by
    rw [Functor.discard, Functor.mapConst]
    exact (h.moves.bind fun _ => .pure).fewer (Nat.le_add_left _ _)
  tallies hR _ _ hs := by
    rw [Functor.discard, Functor.discard, Functor.mapConst]
    exact h.tallies_bind (fun _ _ => .pure fun _ => trivial) hR hs

/-! ## Steps on tokens -/

theorem outOfFuel : Pairs p n R outOfFuel act' Q where
  moves := .of_error fun _ => ⟨_, _, rfl⟩
  tallies _ _ _ _ := .stuck

theorem outOfFuel' (h : Moves n act) : Pairs p n R act Parse.outOfFuel Q where
  moves := h
  tallies _ _ _ _ := .stuck'

theorem failAt {fault : GrammarFault} {t t' : Token} (h : R → p.token t t') :
    Pairs p n R (failAt fault t) (failAt fault t') Q where
  moves := .of_error fun _ => ⟨_, _, rfl⟩
  tallies hR _ _ hs := .error hs ⟨rfl, h hR⟩

theorem failHere {fault : GrammarFault} : Pairs p n R (failHere fault) (failHere fault) Q where
  moves := .of_error fun _ => ⟨_, _, rfl⟩
  tallies _ s s' hs := by
    cases hlenient : p.lenient with
    | true => exact .excused hlenient
    | false => exact .error hs ⟨rfl, hs.place hlenient⟩

theorem noteAt {fault : GrammarFault} {t t' : Token} (h : R → p.token t t') :
    Pairs p 0 R (noteAt fault t) (noteAt fault t') fun _ _ => True where
  moves := by
    rintro s _ _ ⟨⟩
    exact ⟨Nat.le_refl _, fun _ => rfl⟩
  tallies hR _ _ hs := .ok (hs.note ⟨rfl, h hR⟩) trivial

theorem limit {count : Nat} {what : String} :
    Pairs p 0 R (limit count what) (limit count what) fun _ _ => True :=
  ite (fun _ => Iff.rfl)
    { moves := by
        rintro s _ _ ⟨⟩
        exact ⟨Nat.le_refl _, fun _ => rfl⟩
      tallies := fun _ s s' hs => by
        cases hlenient : p.lenient with
        | true => exact .excused ⟨hlenient, .inr rfl⟩
        | false => exact .ok (hs.note ⟨rfl, hs.front hlenient⟩) trivial }
    (.pure fun _ => trivial)

theorem freshId : Pairs p 0 R freshId freshId p.node where
  moves := by
    rintro s _ _ ⟨⟩
    exact ⟨Nat.le_refl _, id⟩
  tallies _ s s' hs := by
    refine .ok ⟨hs.ahead, hs.last, fun m => ?_, ?_⟩ (hs.numbers 0)
    · have h := hs.numbers (1 + m)
      rwa [← Nat.add_assoc, ← Nat.add_assoc] at h
    · obtain ⟨found, found', hfound⟩ := hs.noted
      exact ⟨found, found', hfound.errors, hfound.errors', hfound.alike, hfound.failed,
        hfound.failed'⟩

theorem advance : Pairs p 0 R (modify ParseState.advance) (modify ParseState.advance)
    fun _ _ => True where
  moves := by
    rintro s _ _ ⟨⟩
    exact ⟨s.remains_advance.length_le, s.failed_advance.trans⟩
  tallies _ s s' hs := by
    cases hs.view with
    | token _ _ _ beside => exact .ok beside trivial
    | done next next' =>
      have hstay : s.advance = s := by rw [ParseState.advance, next]
      have hstay' : s'.advance = s' := by rw [ParseState.advance, next']
      refine .ok ?_ trivial
      rwa [hstay, hstay']
    | edge lenient short next _ =>
      obtain ⟨t, ht⟩ := Option.isSome_iff_exists.mp next
      have hlength := ParseState.length_advance ht
      exact .excused ⟨lenient, .inl (Nat.lt_of_lt_of_le hlength short)⟩

/-- A step that depends on the next token. It takes a token, so it matters only where both parses
have one or both are at the end. -/
theorem peeking {k k' : ParseState → Parse β} (hmoves : Moves (n + 1) (MonadState.get >>= k))
    (hk : ∀ s s', R → Option.Rel p.token s.next? s'.next? → Pairs p 0 True (k s) (k' s') S) :
    Pairs p (n + 1) R (MonadState.get >>= k) (MonadState.get >>= k') S where
  moves := hmoves
  tallies hR s s' hs := by
    cases hs.view with
    | token next next' alike _ =>
      exact (hk s s' hR (by rw [next, next']; exact .some alike)).tallies trivial s s' hs
    | done next next' =>
      exact (hk s s' hR (by rw [next, next']; exact .none)).tallies trivial s s' hs
    | edge lenient short _ _ =>
      exact .excused (hmoves.excused lenient (Nat.le_add_right_of_le short))

/-- A choice by the kind of the next token. -/
theorem choosing {k k' : Option TokenKind → Parse β} (hmoves : Moves (n + 1) (nextKind? >>= k))
    (hk : ∀ kind, Pairs p 0 True (k kind) (k' kind) S) :
    Pairs p (n + 1) R (nextKind? >>= k) (nextKind? >>= k') S :=
  have hnext (s s' : ParseState) (hnext : Option.Rel p.token s.next? s'.next?) :
      Pairs p 0 True (k (s.next?.map Token.kind)) (k' (s'.next?.map Token.kind)) S := by
    have hkind : s.next?.map Token.kind = s'.next?.map Token.kind := by
      generalize s.next? = next, s'.next? = next' at hnext
      cases hnext with
      | none => rfl
      | some ht => exact congrArg some (p.kind ht)
    rw [hkind]
    exact hk _
  peeking hmoves fun s s' _ => hnext s s'

/-- A choice by the next token that takes a token either way. -/
theorem lookahead {wanted : TokenKind → Bool} {k k' : Bool → Parse β}
    (hk : ∀ found, Pairs p (n + 1) R (k found) (k' found) S) :
    Pairs p (n + 1) R (nextIs wanted >>= k) (nextIs wanted >>= k') S where
  moves s := (hk _).moves s
  tallies hR s s' hs := by
    show Tally p S (k (s.next?.any fun t => wanted t.kind) s)
      (k' (s'.next?.any fun t => wanted t.kind) s')
    cases hs.view with
    | token next next' alike _ =>
      rw [next, next', Option.any_some, Option.any_some, ← p.kind alike]
      exact (hk _).tallies hR s s' hs
    | done next next' =>
      rw [next, next']
      exact (hk _).tallies hR s s' hs
    | edge lenient short _ _ =>
      exact .excused ((hk _).moves.excused lenient (Nat.le_add_right_of_le short))

/-- A list that ends at a token or at the end of the source, and takes a token else. -/
theorem closing {wanted : TokenKind → Bool} {stop stop' go go' : Parse β} (hle : least ≤ n + 1)
    (hstop : Pairs p least R stop stop' S) (hgo : Pairs p (n + 1) R go go' S) :
    Pairs p least R (do if (← nextIs wanted) || (← atEnd) then stop else go)
      (do if (← nextIs wanted) || (← atEnd) then stop' else go') S where
  moves s b after hrun := by
    replace hrun : (if (s.next?.any fun t => wanted t.kind) || s.atEnd then stop else go) s
      = .ok b after := hrun
    split at hrun
    · exact hstop.moves s b after hrun
    · exact (hgo.moves.fewer hle) s b after hrun
  tallies hR s s' hs := by
    show Tally p S ((if (s.next?.any fun t => wanted t.kind) || s.atEnd then stop else go) s)
      ((if (s'.next?.any fun t => wanted t.kind) || s'.atEnd then stop' else go') s')
    rw [ParseState.atEnd, ParseState.atEnd]
    cases hs.view with
    | token next next' alike _ =>
      rw [next, next', Option.any_some, Option.any_some, ← p.kind alike]
      exact (ite (fun _ => Iff.rfl) hstop (hgo.fewer hle)).tallies hR s s' hs
    | done next next' =>
      rw [next, next']
      exact hstop.tallies hR s s' hs
    | edge lenient short next next' =>
      rw [next']
      split
      · exact hstop.tallies hR s s' hs
      · exact .excused (hgo.moves.excused lenient (Nat.le_add_right_of_le short))

/-- A choice by the token behind the next one that takes two tokens either way. -/
theorem second {wanted : TokenKind → Bool} {other other' : Parse α}
    (h : Pairs p (n + 2) R act act' Q) (h' : Pairs p (n + 2) R other other' Q) :
    Pairs p (n + 2) R
      (do if (← get).rest[1]?.any fun t => wanted t.kind then act else other)
      (do if (← get).rest[1]?.any fun t => wanted t.kind then act' else other') Q where
  moves s a after hrun := by
    replace hrun : (if s.rest[1]?.any fun t => wanted t.kind then act else other) s
      = .ok a after := hrun
    split at hrun
    · exact h.moves s a after hrun
    · exact h'.moves s a after hrun
  tallies hR s s' hs := by
    show Tally p Q ((if s.rest[1]?.any fun t => wanted t.kind then act else other) s)
      ((if s'.rest[1]?.any fun t => wanted t.kind then act' else other') s')
    rcases hs.second with ⟨hlenient, hshort⟩ | hsecond
    · have hshort' : s.rest.length ≤ p.tail.length + (n + 1) := by omega
      split
      · exact .excused (h.moves.excused hlenient hshort')
      · exact .excused (h'.moves.excused hlenient hshort')
    · have hfound : (s.rest[1]?.any fun t => wanted t.kind)
          = s'.rest[1]?.any fun t => wanted t.kind := by
        generalize s.rest[1]? = next, s'.rest[1]? = next' at hsecond
        cases hsecond with
        | none => rfl
        | some alike => rw [Option.any_some, Option.any_some, p.kind alike]
      rw [hfound]
      exact (ite (fun _ => Iff.rfl) h h').tallies hR s s' hs

/-- A token that is found is taken; a step that depends on whether one is. -/
theorem accepting {wanted : TokenKind → Bool} {k k' : Option Token → Parse β} (hle : least ≤ 1)
    (hsome : ∀ t t', Pairs p 0 (R ∧ p.token t t') (k (some t)) (k' (some t')) S)
    (hnone : Pairs p least R (k none) (k' none) S) :
    Pairs p least R (accept? wanted >>= k) (accept? wanted >>= k') S where
  moves s b after hrun := by
    cases hnext : s.next? with
    | none => exact hnone.moves s b after (by rwa [bind_of_ok (accept?_of_none hnext)] at hrun)
    | some t =>
      cases hwanted : wanted t.kind with
      | false =>
        exact hnone.moves s b after (by rwa [bind_of_ok (accept?_of_not hnext hwanted)] at hrun)
      | true =>
        rw [bind_of_ok (accept?_of_wanted hnext hwanted)] at hrun
        obtain ⟨hlength, hfailed⟩ := (hsome t t).moves _ _ _ hrun
        have hadvance := ParseState.length_advance hnext
        exact ⟨by omega, hfailed ∘ s.failed_advance.trans⟩
  tallies hR s s' hs := by
    cases hs.view with
    | token next next' alike beside =>
      have hkind := p.kind alike
      cases hwanted : wanted _ with
      | false =>
        rw [bind_of_ok (accept?_of_not next hwanted),
          bind_of_ok (accept?_of_not next' (hkind ▸ hwanted))]
        exact hnone.tallies hR s s' hs
      | true =>
        rw [bind_of_ok (accept?_of_wanted next hwanted),
          bind_of_ok (accept?_of_wanted next' (hkind ▸ hwanted))]
        exact (hsome _ _).tallies ⟨hR, alike⟩ _ _ beside
    | done next next' =>
      rw [bind_of_ok (accept?_of_none next), bind_of_ok (accept?_of_none next')]
      exact hnone.tallies hR s s' hs
    | edge lenient short next next' =>
      obtain ⟨t, ht⟩ := Option.isSome_iff_exists.mp next
      rw [bind_of_ok (accept?_of_none next')]
      cases hwanted : wanted t.kind with
      | false =>
        rw [bind_of_ok (accept?_of_not ht hwanted)]
        exact hnone.tallies hR s s' hs
      | true =>
        have hadvance := ParseState.length_advance ht
        have hpast : Past p s.advance := ⟨lenient, .inl (by omega)⟩
        rw [bind_of_ok (accept?_of_wanted ht hwanted)]
        exact .excused (hpast.excused (hsome t t).moves)

theorem accept {wanted : TokenKind → Bool} : Pairs p 0 R (accept wanted) (accept wanted) Eq :=
  accepting (Nat.zero_le _) (fun _ _ => .pure fun _ => rfl) (.pure fun _ => rfl)

theorem acceptSymbol {symbol : Symbol} :
    Pairs p 0 R (acceptSymbol symbol) (acceptSymbol symbol) Eq := accept

theorem expect {wanted : TokenKind → Bool} {what : String} :
    Pairs p 1 R (expect wanted what) (expect wanted what) p.token :=
  accepting (Nat.le_refl _) (fun _ _ => .pure And.right) .failHere

theorem expectSymbol {symbol : Symbol} {what : String} :
    Pairs p 1 R (expectSymbol symbol what) (expectSymbol symbol what) fun _ _ => True :=
  expect.discard

theorem expectName {what : String} :
    Pairs p 1 R (expectName what) (expectName what) p.token := expect

/-- A choice by the next token, and then a step that takes a token. -/
theorem lookahead_bind {wanted : TokenKind → Bool} {f f' : Bool → Parse α}
    (hf : ∀ found, Pairs p least R (f found) (f' found) Q)
    (hk : ∀ a a', Pairs p (n + 1) (R ∧ Q a a') (k a) (k' a') S) :
    Pairs p (n + 1) R ((nextIs wanted >>= f) >>= k) ((nextIs wanted >>= f') >>= k') S := by
  rw [bind_assoc, bind_assoc]
  exact lookahead fun found => (hf found).bind hk

/-- Something that is left out where the token behind it stands already. -/
theorem readUntil {wanted : TokenKind → Bool} {k k' : Option α → Parse β}
    (hread : Pairs p least R act act' Q)
    (hk : ∀ a a', Pairs p (n + 1) (R ∧ Option.Rel Q a a') (k a) (k' a') S) :
    Pairs p (n + 1) R (Parse.readUnless (nextIs wanted) act >>= k)
      (Parse.readUnless (nextIs wanted) act' >>= k') S :=
  lookahead_bind (fun _ => ite (fun _ => Iff.rfl) (.pure fun _ => .none)
    (hread.bind fun _ _ => .pure fun h => .some h.2)) hk

/-- Something that is left out where a step finds what closes it. -/
theorem readUnless {absent absent' : Parse Bool} (habsent : Pairs p least R absent absent' Eq)
    (hread : Pairs p n R act act' Q) :
    Pairs p 0 R (Parse.readUnless absent act) (Parse.readUnless absent' act') (Option.Rel Q) :=
  habsent.bind fun _ _ => .ite (fun h => h.2 ▸ Iff.rfl)
    (.pure fun _ => .none) ((hread.given And.left).bind fun _ _ => .pure fun h => .some h.2)

theorem readIf {present present' : Parse Bool} (hpresent : Pairs p least R present present' Eq)
    (hread : Pairs p n R act act' Q) :
    Pairs p 0 R (Parse.readIf present act) (Parse.readIf present' act') (Option.Rel Q) :=
  hpresent.bind fun _ _ => .ite (fun h => h.2 ▸ Iff.rfl)
    ((hread.given And.left).bind fun _ _ => .pure fun h => .some h.2) (.pure fun _ => .none)

end Pairs

end Parse

end LoxLang
