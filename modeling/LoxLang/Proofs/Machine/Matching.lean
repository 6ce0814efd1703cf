import LoxLang.Proofs.Binding.Closed
import LoxLang.Proofs.Machine.Sound
import LoxLang.Proofs.Syntax.NamesAlike

/-!
# Matchings

A matching pairs things of one store with things of another, one to one (`Matching`). Two stores
match (`Store.Matches`) if things that are paired hold the same, up to the places of the things they
refer to, which are paired again, and if the code in them names nothing but what is paired. What is
paired may be a small part of both stores: one step on both sides takes a matching to a larger one
and leaves the other things of both stores alone (`Matching.Moves`).
-/

namespace LoxLang

/-! ## Things and their places -/

/-- Where a thing is in a store. -/
inductive Place
  | frame (id : FrameId)
  | function (id : FunctionId)
  | arrow (id : ArrowId)
  | class (id : ClassId)
  | instance (id : InstanceId)
  deriving DecidableEq

inductive Thing
  | frame (frame : Frame)
  | function (closure : Closure)
  | arrow (closure : ArrowClosure)
  | class (object : ClassObject)
  | instance (portion : Portion)

namespace Store

variable {s after : Store}

def thing? (s : Store) : Place → Option Thing
  | .frame id => (s.frame? id).map .frame
  | .function id => (s.function? id).map .function
  | .arrow id => (s.arrow? id).map .arrow
  | .class id => (s.class? id).map .class
  | .instance id => (s.portion? id).map .instance

/-- The store afterwards has a thing in a place and is otherwise as it was. -/
structure Puts (s : Store) (place : Place) (thing : Thing) (after : Store) : Prop where
  there : after.thing? place = some thing
  elsewhere : ∀ q, q ≠ place → after.thing? q = s.thing? q

/-- The place was free. -/
structure Adds (s : Store) (place : Place) (thing : Thing) (after : Store) : Prop extends
    Puts s place thing after where
  free : s.thing? place = none

theorem getElem?_push_of_ne {α : Type} (xs : Array α) (x : α) {i : Nat} (h : i ≠ xs.size) :
    (xs.push x)[i]? = xs[i]? := by
  rw [Array.getElem?_push, if_neg h]

theorem getElem?_modify_of_ne {α : Type} (xs : Array α) (change : α → α) {i j : Nat} (h : j ≠ i) :
    (xs.modify i change)[j]? = xs[j]? := by
  rw [Array.getElem?_modify, if_neg (Ne.symm h)]

theorem adds_addFrame (s : Store) (frame : Frame) :
    s.Adds (.frame (s.addFrame frame).1) (.frame frame) (s.addFrame frame).2 where
  there := congrArg (Option.map Thing.frame) Array.getElem?_push_size
  elsewhere
    | .frame ⟨_⟩, hne => congrArg (Option.map Thing.frame) <|
      getElem?_push_of_ne _ _ fun heq => hne (congrArg (Place.frame ⟨·⟩) heq)
    | .function _, _ | .arrow _, _ | .class _, _ | .instance _, _ => rfl
  free := congrArg (Option.map Thing.frame) (Array.getElem?_eq_none (Nat.le_refl _))

theorem adds_addFunction (s : Store) (c : Closure) :
    s.Adds (.function (s.addFunction c).1) (.function c) (s.addFunction c).2 where
  there := congrArg (Option.map Thing.function) Array.getElem?_push_size
  elsewhere
    | .function ⟨_⟩, hne => congrArg (Option.map Thing.function) <|
      getElem?_push_of_ne _ _ fun heq => hne (congrArg (Place.function ⟨·⟩) heq)
    | .frame _, _ | .arrow _, _ | .class _, _ | .instance _, _ => rfl
  free := congrArg (Option.map Thing.function) (Array.getElem?_eq_none (Nat.le_refl _))

theorem adds_addArrow (s : Store) (c : ArrowClosure) :
    s.Adds (.arrow (s.addArrow c).1) (.arrow c) (s.addArrow c).2 where
  there := congrArg (Option.map Thing.arrow) Array.getElem?_push_size
  elsewhere
    | .arrow ⟨_⟩, hne => congrArg (Option.map Thing.arrow) <|
      getElem?_push_of_ne _ _ fun heq => hne (congrArg (Place.arrow ⟨·⟩) heq)
    | .frame _, _ | .function _, _ | .class _, _ | .instance _, _ => rfl
  free := congrArg (Option.map Thing.arrow) (Array.getElem?_eq_none (Nat.le_refl _))

theorem adds_addClass (s : Store) (object : ClassObject) :
    s.Adds (.class (s.addClass object).1) (.class object) (s.addClass object).2 where
  there := congrArg (Option.map Thing.class) Array.getElem?_push_size
  elsewhere
    | .class ⟨_⟩, hne => congrArg (Option.map Thing.class) <|
      getElem?_push_of_ne _ _ fun heq => hne (congrArg (Place.class ⟨·⟩) heq)
    | .frame _, _ | .function _, _ | .arrow _, _ | .instance _, _ => rfl
  free := congrArg (Option.map Thing.class) (Array.getElem?_eq_none (Nat.le_refl _))

theorem adds_addPortion (s : Store) (portion : Portion) :
    s.Adds (.instance (s.addPortion portion).1) (.instance portion) (s.addPortion portion).2 where
  there := congrArg (Option.map Thing.instance) Array.getElem?_push_size
  elsewhere
    | .instance ⟨_⟩, hne => congrArg (Option.map Thing.instance) <|
      getElem?_push_of_ne _ _ fun heq => hne (congrArg (Place.instance ⟨·⟩) heq)
    | .frame _, _ | .function _, _ | .arrow _, _ | .class _, _ => rfl
  free := congrArg (Option.map Thing.instance) (Array.getElem?_eq_none (Nat.le_refl _))

/-- The names of a frame are changed. -/
theorem puts_names {id : FrameId} {frame : Frame} (h : s.frame? id = some frame)
    (change : NameMap Slot → NameMap Slot) :
    s.Puts (.frame id) (.frame { frame with names := change frame.names })
      { s with frames := s.frames.modify id.index fun frame =>
          { frame with names := change frame.names } } where
  there := by
    rw [frame?] at h
    rw [thing?, frame?, Array.getElem?_modify, if_pos rfl, h]
    rfl
  elsewhere
    | .frame ⟨_⟩, hne => congrArg (Option.map Thing.frame) <|
      getElem?_modify_of_ne _ _ fun heq => hne (congrArg (Place.frame ⟨·⟩) heq)
    | .function _, _ | .arrow _, _ | .class _, _ | .instance _, _ => rfl

theorem puts_setInstanceField {id : InstanceId} {portion : Portion}
    (h : s.portion? id = some portion) (name : String) (value : Value) :
    s.Puts (.instance id) (.instance { portion with fields := portion.fields.insert name value })
      (s.setInstanceField id name value) where
  there := by
    rw [portion?] at h
    rw [thing?, portion?, setInstanceField, Array.getElem?_modify, if_pos rfl, h]
    rfl
  elsewhere
    | .instance ⟨_⟩, hne => congrArg (Option.map Thing.instance) <|
      getElem?_modify_of_ne _ _ fun heq => hne (congrArg (Place.instance ⟨·⟩) heq)
    | .frame _, _ | .function _, _ | .arrow _, _ | .class _, _ => rfl

theorem puts_setClassField {id : ClassId} {object : ClassObject} (h : s.class? id = some object)
    (name : String) (value : Value) :
    s.Puts (.class id) (.class { object with fields := object.fields.insert name value })
      (s.setClassField id name value) where
  there := by
    rw [class?] at h
    rw [thing?, class?, setClassField, Array.getElem?_modify, if_pos rfl, h]
    rfl
  elsewhere
    | .class ⟨_⟩, hne => congrArg (Option.map Thing.class) <|
      getElem?_modify_of_ne _ _ fun heq => hne (congrArg (Place.class ⟨·⟩) heq)
    | .frame _, _ | .function _, _ | .arrow _, _ | .instance _, _ => rfl

end Store

/-! ## Matchings -/

structure Matching where
  pairs : Place → Place → Prop
  /-- The number of frames that are paired on the way out from a frame that is. -/
  depth : FrameId → Nat
  left : ∀ {r q q'}, pairs r q → pairs r q' → q = q'
  right : ∀ {r r' q}, pairs r q → pairs r' q → r = r'

namespace Matching

/-- Nothing is paired. -/
def empty : Matching where
  pairs _ _ := False
  depth _ := 0
  left h := h.elim
  right h := h.elim

/-- Pair two more places; if they hold frames, the depth of these is given. -/
def add (p : Matching) (r r' : Place) (n : Nat) (hleft : ∀ q, ¬p.pairs r q)
    (hright : ∀ q, ¬p.pairs q r') : Matching where
  pairs q q' := p.pairs q q' ∨ q = r ∧ q' = r'
  depth id := if Place.frame id = r then n else p.depth id
  left := by
    rintro q _ _ (h | ⟨rfl, rfl⟩) (h' | ⟨heq, rfl⟩)
    · exact p.left h h'
    · exact absurd (heq ▸ h) (hleft _)
    · exact absurd h' (hleft _)
    · rfl
  right := by
    rintro _ _ q (h | ⟨rfl, rfl⟩) (h' | ⟨rfl, heq⟩)
    · exact p.right h h'
    · exact absurd (heq ▸ h) (hright _)
    · exact absurd h' (hright _)
    · rfl

structure Extends (q p : Matching) : Prop where
  pairs : ∀ {r r'}, p.pairs r r' → q.pairs r r'
  depth : ∀ {id id'}, p.pairs (.frame id) (.frame id') → q.depth id = p.depth id

namespace Extends

variable {p q q' : Matching}

theorem refl : p.Extends p := ⟨id, fun _ => rfl⟩

theorem trans (h' : q'.Extends q) (h : q.Extends p) : q'.Extends p :=
  ⟨fun hp => h'.pairs (h.pairs hp), fun hp => (h'.depth (h.pairs hp)).trans (h.depth hp)⟩

end Extends

/-- So many frames are paired on the way out from a frame. -/
structure Deep (p : Matching) (n : Nat) (o o' : FrameId) : Prop where
  pair : p.pairs (.frame o) (.frame o')
  depth : n ≤ p.depth o

/-- So many frames are paired around what lies in a frame, which need not be paired itself. -/
def Around (p : Matching) (n : Nat) (o o' : FrameId) : Prop :=
  n ≠ 0 → p.Deep n o o'

variable {p q : Matching} {n k : Nat} {o o' : FrameId}

theorem Deep.le (h : p.Deep n o o') (hle : k ≤ n) : p.Deep k o o' :=
  ⟨h.pair, Nat.le_trans hle h.depth⟩

theorem Deep.mono (h : p.Deep n o o') (hext : q.Extends p) : q.Deep n o o' :=
  ⟨hext.pairs h.pair, hext.depth h.pair ▸ h.depth⟩

theorem Deep.around (h : p.Deep n o o') : p.Around n o o' := fun _ => h

theorem Around.mono (h : p.Around n o o') (hext : q.Extends p) : q.Around n o o' :=
  fun hn => (h hn).mono hext

end Matching

/-! ## Values -/

inductive Callable.Matches (p : Matching) : Callable → Callable → Prop
  | function {id id'} (h : p.pairs (.function id) (.function id')) :
    Callable.Matches p (.function id) (.function id')
  | arrow {id id'} (h : p.pairs (.arrow id) (.arrow id')) :
    Callable.Matches p (.arrow id) (.arrow id')
  | class {id id'} (h : p.pairs (.class id) (.class id')) :
    Callable.Matches p (.class id) (.class id')

/-- Values that differ only in where things are. No built-in function is among them. -/
inductive Value.Matches (p : Matching) : Value → Value → Prop
  | nil : Value.Matches p .nil .nil
  | bool (b) : Value.Matches p (.bool b) (.bool b)
  | int (n) : Value.Matches p (.int n) (.int n)
  | float (x) : Value.Matches p (.float x) (.float x)
  | str (s) : Value.Matches p (.str s) (.str s)
  | callable {c c'} (h : c.Matches p c') : Value.Matches p (.callable c) (.callable c')
  | instance {id id'} (h : p.pairs (.instance id) (.instance id')) :
    Value.Matches p (.instance id) (.instance id')

structure Slot.Matches (p : Matching) (slot slot' : Slot) : Prop where
  value : Option.Rel (Value.Matches p) slot.value slot'.value
  isConst : slot.isConst = slot'.isConst

/-- Frames with so many paired ones around them. -/
structure Frame.Matches (p : Matching) (n : Nat) (frame frame' : Frame) : Prop where
  names : frame.names.Alike (Slot.Matches p) frame'.names
  outer : ∃ o o', frame.outer = some o ∧ frame'.outer = some o' ∧ p.Around n o o'

/-- How many of some scopes, the innermost first, do not lie outside. -/
def Region.inside (region : Region) (ribs : List Rib) : Nat := ribs.length - region.outside

section Code

variable (region : Region)

/-- Functions of one declaration. The frames around them that are paired, and those of so many
scopes still to be opened, are those of all scopes around the code but the ones that lie outside. -/
structure Closure.Matches (p : Matching) (unopened : Nat) (c c' : Closure) : Prop where
  decl : c.decl = c'.decl
  isInitializer : c.isInitializer = c'.isInitializer
  place : ∃ ribs, FunctionFits region c.decl.params c.decl.body ribs ∧
    p.Around (region.inside ribs - unopened) c.frame c'.frame
  /-- The frame of the object that an initializer hands back. -/
  receiver : unopened = 0 → c.isInitializer = true → p.pairs (.frame c.frame) (.frame c'.frame)

structure ArrowClosure.Matches (p : Matching) (c c' : ArrowClosure) : Prop where
  decl : c.decl = c'.decl
  place : ∃ ribs, FunctionFits region c.decl.params c.decl.body ribs ∧
    p.Around (region.inside ribs) c.frame c'.frame

structure ClassObject.Matches (p : Matching) (o o' : ClassObject) : Prop where
  name : o.name = o'.name
  base : Option.Rel (fun b b' => p.pairs (.class b) (.class b')) o.base o'.base
  methods : o.methods.Alike (Closure.Matches region p 1) o'.methods
  getters : o.getters.Alike (Closure.Matches region p 1) o'.getters
  statics : o.statics.Alike (fun f f' => p.pairs (.function f) (.function f')) o'.statics
  fields : o.fields.Alike (Value.Matches p) o'.fields

structure Portion.Matches (p : Matching) (portion portion' : Portion) : Prop where
  classId : p.pairs (.class portion.classId) (.class portion'.classId)
  fields : portion.fields.Alike (Value.Matches p) portion'.fields
  base : Option.Rel (fun b b' => p.pairs (.instance b) (.instance b')) portion.base portion'.base

/-- What is in two places that are paired. Base classes and base portions are older. -/
inductive Thing.Matches (p : Matching) : Place → Place → Thing → Thing → Prop
  | frame {id id' frame frame'} (h : Frame.Matches p (p.depth id - 1) frame frame') :
    Thing.Matches p (.frame id) (.frame id') (.frame frame) (.frame frame')
  | function {id id' c c'} (h : Closure.Matches region p 0 c c') :
    Thing.Matches p (.function id) (.function id') (.function c) (.function c')
  | arrow {id id' c c'} (h : ArrowClosure.Matches region p c c') :
    Thing.Matches p (.arrow id) (.arrow id') (.arrow c) (.arrow c')
  | class {id id' o o'} (h : ClassObject.Matches region p o o')
    (older : ∀ b ∈ o.base, b.index < id.index) (older' : ∀ b ∈ o'.base, b.index < id'.index) :
    Thing.Matches p (.class id) (.class id') (.class o) (.class o')
  | instance {id id' portion portion'} (h : Portion.Matches p portion portion')
    (older : ∀ b ∈ portion.base, b.index < id.index)
    (older' : ∀ b ∈ portion'.base, b.index < id'.index) :
    Thing.Matches p (.instance id) (.instance id') (.instance portion) (.instance portion')

def Store.Matches (p : Matching) (s s' : Store) : Prop :=
  ∀ r r', p.pairs r r' → ∃ t t', s.thing? r = some t ∧ s'.thing? r' = some t' ∧
    Thing.Matches region p r r' t t'

end Code

/-! ### Larger matchings -/

theorem rel_imp {α β : Type} {R R' : α → β → Prop} (himp : ∀ a b, R a b → R' a b) {x : Option α}
    {y : Option β} (h : Option.Rel R x y) : Option.Rel R' x y := by
  cases h with
  | none => exact .none
  | some hab => exact .some (himp _ _ hab)

section Mono

variable {region : Region} {p q : Matching} (hext : q.Extends p)

include hext

theorem Callable.Matches.mono {c c' : Callable} (h : c.Matches p c') : c.Matches q c' := by
  cases h with
  | function h => exact .function (hext.pairs h)
  | arrow h => exact .arrow (hext.pairs h)
  | «class» h => exact .class (hext.pairs h)

theorem Value.Matches.mono {v v' : Value} (h : v.Matches p v') : v.Matches q v' := by
  cases h with
  | callable h => exact .callable (h.mono hext)
  | «instance» h => exact .instance (hext.pairs h)
  | nil | bool | int | float | str => constructor

theorem Slot.Matches.mono {slot slot' : Slot} (h : slot.Matches p slot') : slot.Matches q slot' :=
  ⟨rel_imp (fun _ _ => Value.Matches.mono hext) h.value, h.isConst⟩

theorem Frame.Matches.mono {n : Nat} {frame frame' : Frame} (h : frame.Matches p n frame') :
    frame.Matches q n frame' where
  names := NameMap.Alike.imp h.names fun _ _ => Slot.Matches.mono hext
  outer := let ⟨o, o', ho, ho', haround⟩ := h.outer; ⟨o, o', ho, ho', haround.mono hext⟩

theorem Closure.Matches.mono {unopened : Nat} {c c' : Closure}
    (h : c.Matches region p unopened c') : c.Matches region q unopened c' where
  decl := h.decl
  isInitializer := h.isInitializer
  place := let ⟨ribs, hfits, haround⟩ := h.place; ⟨ribs, hfits, haround.mono hext⟩
  receiver hopened hinitializer := hext.pairs (h.receiver hopened hinitializer)

theorem ArrowClosure.Matches.mono {c c' : ArrowClosure} (h : c.Matches region p c') :
    c.Matches region q c' where
  decl := h.decl
  place := let ⟨ribs, hfits, haround⟩ := h.place; ⟨ribs, hfits, haround.mono hext⟩

theorem ClassObject.Matches.mono {o o' : ClassObject} (h : o.Matches region p o') :
    o.Matches region q o' where
  name := h.name
  base := rel_imp (fun _ _ => hext.pairs) h.base
  methods := NameMap.Alike.imp h.methods fun _ _ => Closure.Matches.mono hext
  getters := NameMap.Alike.imp h.getters fun _ _ => Closure.Matches.mono hext
  statics := NameMap.Alike.imp h.statics fun _ _ => hext.pairs
  fields := NameMap.Alike.imp h.fields fun _ _ => Value.Matches.mono hext

theorem Portion.Matches.mono {portion portion' : Portion} (h : portion.Matches p portion') :
    portion.Matches q portion' where
  classId := hext.pairs h.classId
  fields := NameMap.Alike.imp h.fields fun _ _ => Value.Matches.mono hext
  base := rel_imp (fun _ _ => hext.pairs) h.base

theorem Thing.Matches.mono {r r' : Place} {t t' : Thing} (h : Thing.Matches region p r r' t t')
    (hpair : p.pairs r r') : Thing.Matches region q r r' t t' := by
  cases h with
  | frame h =>
    refine .frame ?_
    rw [hext.depth hpair]
    exact h.mono hext
  | function h => exact .function (h.mono hext)
  | arrow h => exact .arrow (h.mono hext)
  | «class» h older older' => exact .class (h.mono hext) older older'
  | «instance» h older older' => exact .instance (h.mono hext) older older'

end Mono

/-! ## Steps on both sides -/

/-- Whether a place is paired with one of the second store. -/
def Matching.OnLeft (p : Matching) (r : Place) : Prop := ∃ r', p.pairs r r'

/-- Whether a place is paired with one of the first store. -/
def Matching.OnRight (p : Matching) (r' : Place) : Prop := ∃ r, p.pairs r r'

/-- Whatever is in the store and not taken is as it was afterwards, and is not taken then. -/
def Store.Spares (s : Store) (taken : Place → Prop) (after : Store) (taken' : Place → Prop) :
    Prop :=
  ∀ r t, s.thing? r = some t → ¬taken r → after.thing? r = some t ∧ ¬taken' r

theorem Store.Spares.trans {s mid after : Store} {taken taken' taken'' : Place → Prop}
    (h : s.Spares taken mid taken') (h' : mid.Spares taken' after taken'') :
    s.Spares taken after taken'' := fun r t ht hfree =>
  let ⟨hmid, hapart⟩ := h r t ht hfree
  h' r t hmid hapart

/-- A larger matching, with later stores: what is not paired in either is spared. -/
structure Matching.Moves (p : Matching) (s s' : Store) (q : Matching) (after after' : Store) :
    Prop where
  larger : q.Extends p
  spares : s.Spares p.OnLeft after q.OnLeft
  spares' : s'.Spares p.OnRight after' q.OnRight

theorem Matching.Moves.refl (p : Matching) (s s' : Store) : p.Moves s s' p s s' :=
  ⟨.refl, fun _ _ ht hfree => ⟨ht, hfree⟩, fun _ _ ht hfree => ⟨ht, hfree⟩⟩

theorem Matching.Moves.trans {p q q' : Matching} {s s' mid mid' after after' : Store}
    (h : p.Moves s s' q mid mid') (h' : q.Moves mid mid' q' after after') :
    p.Moves s s' q' after after' where
  larger := h'.larger.trans h.larger
  spares := h.spares.trans h'.spares
  spares' := h.spares'.trans h'.spares'

namespace Store.Matches

variable {region : Region} {p : Matching} {s s' after after' : Store} {r r' : Place} {t t' : Thing}

/-- Nothing in one of two free places is paired. -/
theorem not_pairs_left (h : s.Matches region p s') (hfree : s.thing? r = none) (q : Place) :
    ¬p.pairs r q := fun hpair => by
  obtain ⟨t, t', ht, -⟩ := h _ _ hpair
  cases hfree.symm.trans ht

theorem not_pairs_right (h : s.Matches region p s') (hfree : s'.thing? r' = none) (q : Place) :
    ¬p.pairs q r' := fun hpair => by
  obtain ⟨t, t', -, ht', -⟩ := h _ _ hpair
  cases hfree.symm.trans ht'

/-- What is in two places that are paired is replaced. -/
theorem replace (h : s.Matches region p s') (hpair : p.pairs r r') (hs : s.Puts r t after)
    (hs' : s'.Puts r' t' after') (hthings : Thing.Matches region p r r' t t') :
    after.Matches region p after' ∧ p.Moves s s' p after after' := by
  refine ⟨fun q q' hq => ?_, .refl, fun q t ht hfree => ⟨?_, hfree⟩,
    fun q' t ht hfree => ⟨?_, hfree⟩⟩
  · by_cases heq : q = r
    · subst heq
      obtain rfl := p.left hpair hq
      exact ⟨t, t', hs.there, hs'.there, hthings⟩
    · have heq' : q' ≠ r' := fun heq' => heq (p.right hq (heq' ▸ hpair))
      rw [hs.elsewhere q heq, hs'.elsewhere q' heq']
      exact h q q' hq
  · rw [hs.elsewhere q fun heq => hfree ⟨r', heq ▸ hpair⟩]
    exact ht
  · rw [hs'.elsewhere q' fun heq => hfree ⟨r, heq ▸ hpair⟩]
    exact ht

/-- A thing is added on both sides, and the two are paired. -/
theorem add (h : s.Matches region p s') (hs : s.Adds r t after) (hs' : s'.Adds r' t' after')
    (n : Nat) (hthings : ∀ q : Matching, q.Extends p → (∀ id, r = .frame id → q.depth id = n) →
      Thing.Matches region q r r' t t') :
    ∃ q, p.Moves s s' q after after' ∧ after.Matches region q after' ∧ q.pairs r r' ∧
      ∀ id, r = .frame id → q.depth id = n := by
  let q := p.add r r' n (h.not_pairs_left hs.free) (h.not_pairs_right hs'.free)
  have hdepth (id : FrameId) (hid : r = .frame id) : q.depth id = n := if_pos hid.symm
  have hext : q.Extends p := ⟨.inl, fun hpair =>
    if_neg fun heq => h.not_pairs_left hs.free _ (heq ▸ hpair)⟩
  refine ⟨q, ⟨hext, fun x t ht hfree => ⟨?_, ?_⟩, fun x t ht hfree => ⟨?_, ?_⟩⟩,
    fun x x' hx => ?_, .inr ⟨rfl, rfl⟩, hdepth⟩
  · have hne : x ≠ r := fun heq => by cases (heq ▸ hs.free).symm.trans ht
    rw [hs.elsewhere x hne]
    exact ht
  · rintro ⟨y, hy | ⟨rfl, -⟩⟩
    · exact hfree ⟨y, hy⟩
    · cases hs.free.symm.trans ht
  · have hne : x ≠ r' := fun heq => by cases (heq ▸ hs'.free).symm.trans ht
    rw [hs'.elsewhere x hne]
    exact ht
  · rintro ⟨y, hy | ⟨-, rfl⟩⟩
    · exact hfree ⟨y, hy⟩
    · cases hs'.free.symm.trans ht
  · obtain hx | ⟨rfl, rfl⟩ := hx
    · obtain ⟨t, t', ht, ht', hmatch⟩ := h x x' hx
      have hne : x ≠ r := fun heq => h.not_pairs_left hs.free _ (heq ▸ hx)
      have hne' : x' ≠ r' := fun heq => h.not_pairs_right hs'.free _ (heq ▸ hx)
      rw [hs.elsewhere x hne, hs'.elsewhere x' hne']
      exact ⟨t, t', ht, ht', hmatch.mono hext hx⟩
    · exact ⟨t, t', hs.there, hs'.there, hthings q hext hdepth⟩

/-! ### Things that are paired -/

theorem frame (h : s.Matches region p s') {id id' : FrameId}
    (hpair : p.pairs (.frame id) (.frame id')) : ∃ frame frame', s.frame? id = some frame ∧
      s'.frame? id' = some frame' ∧ frame.Matches p (p.depth id - 1) frame' := by
  obtain ⟨_, _, ht, ht', hthings⟩ := h _ _ hpair
  obtain ⟨frame, hframe, rfl⟩ := Option.map_eq_some_iff.mp ht
  obtain ⟨frame', hframe', rfl⟩ := Option.map_eq_some_iff.mp ht'
  cases hthings with
  | frame hmatch => exact ⟨frame, frame', hframe, hframe', hmatch⟩

theorem function (h : s.Matches region p s') {id id' : FunctionId}
    (hpair : p.pairs (.function id) (.function id')) : ∃ c c', s.function? id = some c ∧
      s'.function? id' = some c' ∧ c.Matches region p 0 c' := by
  obtain ⟨_, _, ht, ht', hthings⟩ := h _ _ hpair
  obtain ⟨c, hc, rfl⟩ := Option.map_eq_some_iff.mp ht
  obtain ⟨c', hc', rfl⟩ := Option.map_eq_some_iff.mp ht'
  cases hthings with
  | function hmatch => exact ⟨c, c', hc, hc', hmatch⟩

theorem arrow (h : s.Matches region p s') {id id' : ArrowId}
    (hpair : p.pairs (.arrow id) (.arrow id')) : ∃ c c', s.arrow? id = some c ∧
      s'.arrow? id' = some c' ∧ c.Matches region p c' := by
  obtain ⟨_, _, ht, ht', hthings⟩ := h _ _ hpair
  obtain ⟨c, hc, rfl⟩ := Option.map_eq_some_iff.mp ht
  obtain ⟨c', hc', rfl⟩ := Option.map_eq_some_iff.mp ht'
  cases hthings with
  | arrow hmatch => exact ⟨c, c', hc, hc', hmatch⟩

theorem «class» (h : s.Matches region p s') {id id' : ClassId}
    (hpair : p.pairs (.class id) (.class id')) : ∃ o o', s.class? id = some o ∧
      s'.class? id' = some o' ∧ o.Matches region p o' ∧ (∀ b ∈ o.base, b.index < id.index) ∧
        ∀ b ∈ o'.base, b.index < id'.index := by
  obtain ⟨_, _, ht, ht', hthings⟩ := h _ _ hpair
  obtain ⟨o, ho, rfl⟩ := Option.map_eq_some_iff.mp ht
  obtain ⟨o', ho', rfl⟩ := Option.map_eq_some_iff.mp ht'
  cases hthings with
  | «class» hmatch older older' => exact ⟨o, o', ho, ho', hmatch, older, older'⟩

theorem portion (h : s.Matches region p s') {id id' : InstanceId}
    (hpair : p.pairs (.instance id) (.instance id')) : ∃ portion portion',
      s.portion? id = some portion ∧ s'.portion? id' = some portion' ∧ portion.Matches p portion' ∧
        (∀ b ∈ portion.base, b.index < id.index) ∧ ∀ b ∈ portion'.base, b.index < id'.index := by
  obtain ⟨_, _, ht, ht', hthings⟩ := h _ _ hpair
  obtain ⟨portion, hportion, rfl⟩ := Option.map_eq_some_iff.mp ht
  obtain ⟨portion', hportion', rfl⟩ := Option.map_eq_some_iff.mp ht'
  cases hthings with
  | «instance» hmatch older older' =>
    exact ⟨portion, portion', hportion, hportion', hmatch, older, older'⟩

end Store.Matches

end LoxLang
