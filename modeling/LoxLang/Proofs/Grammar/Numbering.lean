import LoxLang.Proofs.Grammar.Steps
import LoxLang.Proofs.Syntax.Regular
import LoxLang.Proofs.Token.Spelling

/-!
# Numbering

Nodes that name bindings are numbered in the order in which they are read. A step of a parse uses
the numbers from the next one at its start up to the next one at its end (`Gives`), so that what is
read by two steps, one after the other, has no number in common (`Within.apart`). Steps that use no
number only pick something among the tokens ahead (`Picks`); these are spelled as their kinds say.
-/

namespace LoxLang

/-- All nodes have numbers from `lo` up to, but not including, `hi`. -/
def Within (lo hi : NodeId) (references : List Reference) : Prop :=
  ∀ r ∈ references, lo ≤ r.id ∧ r.id < hi

namespace Within

variable {lo mid hi hi' : NodeId} {rs rs' : List Reference}

@[simp] theorem nil : Within lo hi [] := fun _ h => nomatch h

theorem single {r : Reference} (hlo : lo ≤ r.id) (hhi : r.id < hi) : Within lo hi [r] :=
  fun _ h => by rw [List.mem_singleton.mp h]; exact ⟨hlo, hhi⟩

theorem append (h : Within lo hi rs) (h' : Within lo hi rs') : Within lo hi (rs ++ rs') :=
  fun r hr => (List.mem_append.mp hr).elim (h r) (h' r)

theorem mono {lo' : NodeId} (h : Within lo hi rs) (hlo : lo' ≤ lo) (hhi : hi ≤ hi') :
    Within lo' hi' rs :=
  fun r hr => ⟨Nat.le_trans hlo (h r hr).1, Nat.lt_of_lt_of_le (h r hr).2 hhi⟩

theorem apart (h : Within lo mid rs) (h' : Within mid hi rs') : Apart rs rs' :=
  fun r hr r' hr' => Nat.ne_of_lt (Nat.lt_of_lt_of_le (h r hr).2 (h' r' hr').1)

end Within

/-- A tree as the grammar makes it: regular, with the numbers between two bounds. -/
structure Made (regular : Prop) (references : List Reference) (lo hi : NodeId) : Prop where
  regular : regular
  within : Within lo hi references

namespace Made

variable {p p' q : Prop} {rs rs' : List Reference} {lo mid hi lo' hi' : NodeId}

theorem mono (h : Made p rs lo hi) (hlo : lo' ≤ lo) (hhi : hi ≤ hi') : Made p rs lo' hi' :=
  ⟨h.regular, h.within.mono hlo hhi⟩

/-- Two trees that are read one after the other. -/
theorem pair (h : Made p rs lo mid) (h' : Made p' rs' mid hi) (hlo : lo ≤ mid) (hhi : mid ≤ hi) :
    Made (p ∧ p' ∧ Apart rs rs') (rs ++ rs') lo hi :=
  ⟨⟨h.regular, h'.regular, h.within.apart h'.within⟩,
    (h.within.mono (Nat.le_refl _) hhi).append (h'.within.mono hlo (Nat.le_refl _))⟩

theorem imp (h : Made p rs lo hi) (hp : p → q) : Made q rs lo hi := ⟨hp h.regular, h.within⟩

theorem nil (h : p) : Made p [] lo hi := ⟨h, .nil⟩

end Made

theorem ParseState.nextId_advance (s : ParseState) : s.advance.nextId = s.nextId := by
  unfold advance
  split <;> rfl

/-- The tokens ahead are spelled as their kinds say. -/
def ParseState.Spelled (s : ParseState) : Prop := ∀ t ∈ s.rest, t.Spelled

/-- A state behind one whose next number was `lo`. No number is taken back. -/
structure ParseState.From (lo : NodeId) (s : ParseState) : Prop where
  number : lo ≤ s.nextId
  spelled : s.Spelled

namespace ParseState

variable {s : ParseState}

theorem Spelled.advance (h : s.Spelled) : s.advance.Spelled := by
  unfold ParseState.advance
  split
  · exact fun t ht => h t (List.mem_of_mem_tail ht)
  · exact h

theorem Spelled.next? (h : s.Spelled) : ∀ t ∈ s.next?, t.Spelled := by
  intro t ht
  rw [ParseState.next?] at ht
  split at ht
  · next hrest =>
    split at ht
    · cases ht
    · cases ht
      exact h _ (by rw [hrest]; exact List.mem_cons_self)
  · cases ht

theorem From.mono {lo mid : NodeId} (h : s.From mid) (hlo : lo ≤ mid) : s.From lo :=
  ⟨Nat.le_trans hlo h.number, h.spelled⟩

end ParseState

namespace Parse

variable {α β : Type} {lo : NodeId} {act : Parse α} {k : α → Parse β} {P : α → NodeId → Prop}
  {Q : β → NodeId → Prop} {F : α → Prop} {F' : β → Prop}

/-! ## Steps and their results -/

/-- Steps go from tokens that are spelled as their kinds say to such tokens, and take no number
back. -/
abbrev numbering : Conduct ParseStop ParseState where
  good := ParseState.Spelled
  keeps s t := t.From s.nextId
  stops _ := True
  refl hs := ⟨Nat.le_refl _, hs⟩
  trans h h' := h'.mono h.number
  stays h _ := h.spelled

/-- Steps that use no number. -/
abbrev quietness : Conduct ParseStop ParseState where
  good := ParseState.Spelled
  keeps s t := t.nextId = s.nextId ∧ t.Spelled
  stops _ := True
  refl hs := ⟨rfl, hs⟩
  trans h h' := ⟨h'.1.trans h.1, h'.2⟩
  stays h _ := h.2

/-- What a step leaves behind if the next number is `lo` at its start: what it gives, and the next
number. -/
def Gives (lo : NodeId) (act : Parse α) (P : α → NodeId → Prop) : Prop :=
  ∀ s : ParseState, s.nextId = lo → numbering.From act s fun a after => P a after.nextId

/-- A step that uses no number, and what it picks. -/
abbrev Picks (act : Parse α) (F : α → Prop) : Prop := quietness.Always act F

/-- A step that uses no number. -/
abbrev Quiet (act : Parse α) : Prop := Picks act fun _ => True

theorem Gives.pure {a : α} (h : P a lo) : Gives lo (pure a) P := fun _ hs => .pure (hs ▸ h)

theorem Gives.bind (h : Gives lo act P) (hk : ∀ a mid, lo ≤ mid → P a mid → Gives mid (k a) Q) :
    Gives lo (act >>= k) Q := fun s hs =>
  (h s hs).bind fun a mid hkeeps _ ha => hk a mid.nextId (hs ▸ hkeeps.number) ha mid rfl

theorem Gives.imp {P' : α → NodeId → Prop} (h : Gives lo act P)
    (himp : ∀ a hi, lo ≤ hi → P a hi → P' a hi) : Gives lo act P' := fun s hs =>
  (h s hs).imp fun a after hkeeps => himp a after.nextId (hs ▸ hkeeps.number)

theorem Gives.discard (h : Gives lo act P) : Gives lo (discard act) fun _ _ => True := fun s hs =>
  (h s hs).discard.imp fun _ _ _ _ => trivial

theorem Gives.ite {c : Prop} [Decidable c] {other : Parse α} (h : c → Gives lo act P)
    (h' : ¬c → Gives lo other P) : Gives lo (if c then act else other) P := fun s hs =>
  .ite (fun hc => h hc s hs) fun hc => h' hc s hs

theorem Picks.gives (h : Picks act F) : Gives lo act fun a hi => hi = lo ∧ F a := fun s hs =>
  Conduct.From.weaken ((h s).imp fun _ _ hkeeps ha => ⟨hkeeps.1.trans hs, ha⟩) id
    (fun _ _ hkeeps => ⟨Nat.le_of_eq hkeeps.1.symm, hkeeps.2⟩) fun _ => id

/-- A step that picks something, and then another. -/
theorem Picks.andThen (h : Picks act F) (hk : ∀ a, F a → Gives lo (k a) Q) :
    Gives lo (act >>= k) Q :=
  h.gives.bind fun a _ _ ⟨hmid, ha⟩ => hmid ▸ hk a ha

theorem Picks.quiet (h : Picks act F) : Quiet act := h.imp fun _ _ => trivial

/-- A step that uses no number, and then another. -/
theorem Quiet.andThen (h : Quiet act) (hk : ∀ a, Gives lo (k a) Q) : Gives lo (act >>= k) Q :=
  Picks.andThen h fun a _ => hk a

theorem Gives.readUnless {absent : Parse Bool} {P' : Option α → NodeId → Prop}
    (habsent : Quiet absent) (h : Gives lo act P) (hnone : P' none lo)
    (hsome : ∀ a hi, P a hi → P' (some a) hi) : Gives lo (readUnless absent act) P' := fun s hs =>
  .readUnless (habsent.gives s hs)
    (fun t _ hfound => (h t hfound.1).imp fun a after _ => hsome a after.nextId)
    fun _ _ hfound => hfound.1 ▸ hnone

theorem Gives.readIf {present : Parse Bool} {P' : Option α → NodeId → Prop}
    (hpresent : Quiet present) (h : Gives lo act P) (hnone : P' none lo)
    (hsome : ∀ a hi, P a hi → P' (some a) hi) : Gives lo (readIf present act) P' := fun s hs =>
  .readIf (hpresent.gives s hs)
    (fun t _ hfound => (h t hfound.1).imp fun a after _ => hsome a after.nextId)
    fun _ _ hfound => hfound.1 ▸ hnone

/-! ## Steps on tokens -/

theorem Picks.outOfFuel : Picks (outOfFuel : Parse α) F := fun _ hs => ⟨⟨rfl, hs⟩, trivial⟩

theorem Picks.failHere {fault : GrammarFault} : Picks (failHere fault : Parse α) F :=
  fun _ hs => ⟨⟨rfl, hs⟩, trivial⟩

theorem Gives.outOfFuel : Gives lo (outOfFuel : Parse α) P :=
  fun _ _ hspelled => ⟨⟨Nat.le_refl _, hspelled⟩, trivial⟩

theorem Gives.failAt {fault : GrammarFault} {token : Token} :
    Gives lo (failAt fault token : Parse α) P :=
  fun _ _ hspelled => ⟨⟨Nat.le_refl _, hspelled⟩, trivial⟩

theorem Gives.failHere {fault : GrammarFault} : Gives lo (failHere fault : Parse α) P :=
  fun _ _ hspelled => ⟨⟨Nat.le_refl _, hspelled⟩, trivial⟩

theorem Gives.freshId : Gives lo freshId fun id hi => id = lo ∧ hi = lo + 1 := by
  rintro s rfl hspelled
  exact ⟨⟨Nat.le_succ _, hspelled⟩, rfl, rfl⟩

theorem Picks.get : Picks (get : Parse ParseState) ParseState.Spelled :=
  fun _ hs => ⟨⟨rfl, hs⟩, hs⟩

theorem Quiet.get : Quiet (get : Parse ParseState) := Picks.get.quiet

theorem Quiet.advance : Quiet (modify ParseState.advance) :=
  fun s hs => ⟨⟨s.nextId_advance, hs.advance⟩, trivial⟩

theorem Quiet.noteAt {fault : GrammarFault} {token : Token} : Quiet (noteAt fault token) :=
  fun _ hs => ⟨⟨rfl, hs⟩, trivial⟩

theorem Quiet.nextIs {wanted : TokenKind → Bool} : Quiet (nextIs wanted) :=
  fun _ hs => ⟨⟨rfl, hs⟩, trivial⟩

theorem Quiet.nextKind? : Quiet nextKind? := fun _ hs => ⟨⟨rfl, hs⟩, trivial⟩

theorem Quiet.atEnd : Quiet atEnd := fun _ hs => ⟨⟨rfl, hs⟩, trivial⟩

/-- A token that is taken is of the wanted kind. -/
theorem Picks.accept? {wanted : TokenKind → Bool} :
    Picks (accept? wanted) fun found => ∀ t ∈ found, t.Spelled ∧ wanted t.kind = true :=
  fun s => .accept? (fun _ ht => nomatch ht) fun t hnext hwanted hs =>
    ⟨⟨s.nextId_advance, hs.advance⟩, fun _ ht =>
      Option.some.inj ht ▸ ⟨hs.next? t hnext, hwanted⟩⟩

theorem Quiet.accept? {wanted : TokenKind → Bool} : Quiet (accept? wanted) := Picks.accept?.quiet

theorem Quiet.accept {wanted : TokenKind → Bool} : Quiet (accept wanted) :=
  Quiet.accept?.bind fun _ _ => .pure trivial

theorem Quiet.acceptSymbol {symbol : Symbol} : Quiet (acceptSymbol symbol) := .accept

theorem Picks.expect {wanted : TokenKind → Bool} {what : String} :
    Picks (expect wanted what) fun t => t.Spelled ∧ wanted t.kind = true :=
  Picks.accept?.bind fun
    | some t, ht => .pure (ht t rfl)
    | none, _ => Picks.failHere

theorem Quiet.expect {wanted : TokenKind → Bool} {what : String} : Quiet (expect wanted what) :=
  Picks.expect.quiet

theorem Quiet.expectSymbol {symbol : Symbol} {what : String} :
    Quiet (expectSymbol symbol what) := Quiet.expect.discard

theorem Picks.expectName {what : String} : Picks (expectName what) Token.IsName :=
  Picks.expect.imp fun _ ht => ht.1.name ht.2

theorem Quiet.limit {count : Nat} {what : String} : Quiet (limit count what) :=
  .ite (fun _ => Quiet.get.bind fun _ _ => Quiet.noteAt) fun _ => .pure trivial

theorem Picks.arrowHead :
    Picks arrowHead fun found => ∀ head ∈ found, ∀ p ∈ head.1, p.IsName :=
  Picks.get.bind fun s hs => by
    cases hhead : arrowHead? s.rest with
    | none => exact .pure fun _ hfound => nomatch hfound
    | some head =>
      obtain ⟨params, arrow, after⟩ := head
      have hbegins := beginsArrow_of_arrowHead? hhead
      have hparams : ∀ p ∈ params, p.IsName := fun p hp =>
        (hs p (hbegins.mem_names p hp).1).name (hbegins.mem_names p hp).2
      have hmove : Quiet (modify fun s : ParseState => { s with last := some arrow, rest := after }) :=
        fun _ _ => ⟨⟨rfl, fun t ht => hs t (hbegins.mem_after ht)⟩, trivial⟩
      exact hmove.bind fun _ _ => .pure fun _ hfound => Option.some.inj hfound ▸ hparams

theorem Picks.someParameters (fuel count : Nat) :
    Picks (someParameters fuel count) fun params => ∀ p ∈ params, p.IsName := by
  induction fuel generalizing count with
  | zero => exact .outOfFuel
  | succ fuel ih =>
    refine Quiet.limit.bind fun _ _ => Picks.expectName.bind fun name hname =>
      Quiet.acceptSymbol.bind fun more _ => ?_
    split
    · exact (ih (count + 1)).bind fun others ho =>
        .pure (List.forall_mem_cons.mpr ⟨hname, ho⟩)
    · exact .pure fun _ hp => List.mem_singleton.mp hp ▸ hname

theorem Picks.parameters (fuel : Nat) :
    Picks (parameters fuel) fun params => ∀ p ∈ params, p.IsName :=
  Quiet.nextIs.bind fun closed _ => by
    split
    · exact .pure fun _ hp => nomatch hp
    · exact Picks.someParameters fuel 0

end Parse

end LoxLang
