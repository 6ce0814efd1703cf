import LoxLang.Proofs.Machine.Lookup
import LoxLang.Proofs.Machine.Stages

/-!
# Forests of frames

Frames are opened, bind names and are written to in any order (`FrameAction`). In every store that
comes about like this, to go out from a frame until a name is bound is to go to a distance: that of
the nearest frame that binds it (`Store.Indexed`). All that it takes is that the frame around a
frame is older, which no action changes (`Store.Descends.after`).
-/

namespace LoxLang

/-- An action on the frames of a store. -/
inductive FrameAction
  | root
  | child (kind : ScopeKind) (outer : FrameId)
  | declare (id : FrameId) (name : String) (value : Option Value) (isConst : Bool)
  | assign (id : FrameId) (name : Token) (value : Value)
  | assignAt (id : FrameId) (distance : Nat) (name : Token) (value : Value)

/-- A write that fails leaves the machine as it was. -/
theorem Eval.writeName_error {lookup : Lookup} {node : NodeId} {name : Token} {value : Value}
    {m after : Machine} {halt : Halt}
    (h : writeName lookup node name value m = .error halt after) : after = m := by
  have hwatch {act : Unit → Eval Unit} : (watch lookup node name >>= act) m =
      ((if lookup.stopsAt node name m then stop (.watched node name m.here)
        else return ()) >>= act) m := rfl
  rw [writeName, hwatch] at h
  cases hstops : lookup.stopsAt node name m with
  | true =>
    rw [hstops] at h
    cases h
    rfl
  | false =>
    rw [hstops] at h
    -- the store is only changed where the question has an answer
    have hask {question : Machine → Except RunError FrameId} {act : FrameId → Eval Unit}
        (h : (ask question >>= act) m = .error halt after)
        (hact : ∀ frame, act frame m ≠ .error halt after) : after = m := by
      change EStateM.bind (ask question) act m = .error halt after at h
      unfold EStateM.bind ask at h
      cases hquestion : question m with
      | error error =>
        rw [hquestion] at h
        cases h
        rfl
      | ok frame =>
        rw [hquestion] at h
        exact absurd h (hact frame)
    exact hask h fun frame hchange => by cases hchange

namespace Store

variable {s t : Store} {id owner : FrameId} {distance : Nat}

def perform (s : Store) : FrameAction → Except RunError Store
  | .root => .ok (s.addFrame ⟨.globals, .empty, none⟩).2
  | .child kind outer =>
    .ok (if (s.frame? outer).isSome then (s.addFrame ⟨kind, .empty, some outer⟩).2 else s)
  | .declare id name value isConst => .ok (s.declare id name value isConst)
  | .assign id name value => s.assign id name value
  | .assignAt id distance name value => s.assignAt id distance name value

/-- The store behind an action. One that fails leaves it as it was. -/
def after (s : Store) (action : FrameAction) : Store :=
  (s.perform action).toOption.getD s

/-- The store that actions make out of the empty one. -/
def grown (actions : List FrameAction) : Store :=
  actions.foldl after {}

/-! ## Putting a value into a slot -/

def constantError (name : Token) : RunError :=
  .located (.constant name.lexeme) name

/-- Put a value into a slot that a search has found. -/
def put (s : Store) (name : Token) (value : Value) (found : FrameId × Slot) :
    Except RunError Store :=
  if found.2.isConst then .error (constantError name)
  else .ok (s.store found.1 name.lexeme value)

theorem assign_eq (s : Store) (id : FrameId) (name : Token) (value : Value) :
    s.assign id name value = s.search id name >>= s.put name value := by
  unfold assign writable
  rcases s.search id name with error | ⟨owner, held, isConst⟩
  · rfl
  · cases isConst <;> rfl

theorem assignAt_eq (s : Store) (id : FrameId) (distance : Nat) (name : Token) (value : Value) :
    s.assignAt id distance name value = s.searchAt id distance name >>= s.put name value := by
  unfold assignAt writableAt
  rcases s.searchAt id distance name with error | ⟨owner, held, isConst⟩
  · rfl
  · cases isConst <;> rfl

theorem exists_of_put {found : Except RunError (FrameId × Slot)} {name : Token} {value : Value}
    (h : found >>= s.put name value = .ok t) :
    ∃ owner slot, found = .ok (owner, slot) ∧ slot.isConst = false ∧
      t = s.store owner name.lexeme value := by
  rcases found with error | ⟨owner, slot⟩
  · cases h
  · change s.put name value (owner, slot) = .ok t at h
    unfold put at h
    split at h
    · cases h
    · next hconst =>
      cases h
      exact ⟨owner, slot, rfl, Bool.eq_false_iff.mpr hconst, rfl⟩

theorem put_eq_error_iff {found : Except RunError (FrameId × Slot)} {name : Token} {value : Value}
    {error : RunError} : found >>= s.put name value = .error error ↔
      found = .error error ∨
        ∃ owner slot, found = .ok (owner, slot) ∧ slot.isConst = true ∧
          error = constantError name := by
  constructor
  · intro h
    rcases found with cause | ⟨owner, slot⟩
    · cases h
      exact .inl rfl
    · change s.put name value (owner, slot) = .error error at h
      unfold put at h
      split at h
      · next hconst =>
        cases h
        exact .inr ⟨owner, slot, rfl, hconst, rfl⟩
      · cases h
  · rintro (rfl | ⟨owner, slot, rfl, hconst, rfl⟩)
    · rfl
    · exact if_pos hconst

/-! ## Outer frames are older -/

theorem Descends.of_outer? (h : s.Descends) (houter : ∀ id, t.outer? id = s.outer? id) :
    t.Descends :=
  fun id outer hid => h id outer ((houter id).symm.trans hid)

theorem Descends.addFrame (h : s.Descends) {frame : Frame}
    (houter : ∀ outer ∈ frame.outer, outer.index < s.frames.size) :
    (s.addFrame frame).2.Descends := by
  intro id outer hid
  rw [outer?, frame?_addFrame] at hid
  split at hid
  · next heq =>
    rw [heq]
    exact houter outer hid
  · exact h id outer hid

theorem Descends.perform (h : s.Descends) {action : FrameAction}
    (hperform : s.perform action = .ok t) : t.Descends := by
  cases action with
  | root =>
    cases hperform
    exact h.addFrame fun _ hnone => by cases hnone
  | child kind outer =>
    cases hperform
    split
    · next hframe =>
      obtain ⟨frame, hframe⟩ := Option.isSome_iff_exists.mp hframe
      refine h.addFrame fun other hother => ?_
      cases hother
      exact (Array.getElem?_eq_some_iff.mp hframe).1
    · exact h
  | declare id name value isConst =>
    cases hperform
    exact h.of_outer? fun other => outer?_declare ..
  | assign id name value =>
    obtain ⟨owner, -, -, -, rfl⟩ := exists_of_put ((assign_eq ..).symm.trans hperform)
    exact h.of_outer? fun other => outer?_store ..
  | assignAt id distance name value =>
    obtain ⟨owner, -, -, -, rfl⟩ := exists_of_put ((assignAt_eq ..).symm.trans hperform)
    exact h.of_outer? fun other => outer?_store ..

theorem Descends.after (h : s.Descends) (action : FrameAction) : (s.after action).Descends := by
  unfold Store.after
  cases hperform : s.perform action with
  | error error => exact h
  | ok t => exact h.perform hperform

theorem descends_grown (actions : List FrameAction) : (grown actions).Descends := by
  have hrun : ∀ {s : Store}, s.Descends → (actions.foldl Store.after s).Descends := by
    induction actions with
    | nil => exact id
    | cons action actions ih => exact fun h => ih (h.after action)
  exact hrun fun id outer houter => by cases houter

/-! ## The nearest frame that binds a name -/

/-- The nearest frame that binds a name, on the way out, is at this distance. -/
structure Nearest (s : Store) (id : FrameId) (name : String) (distance : Nat) (owner : FrameId) :
    Prop where
  ancestor : s.ancestor? id distance = some owner
  declared : s.isDeclared owner name = true
  nearer : ∀ i < distance, ∀ nearer, s.ancestor? id i = some nearer →
    s.isDeclared nearer name = false

/-- No frame binds the name, on the way out. -/
def Undeclared (s : Store) (id : FrameId) (name : String) : Prop :=
  ∀ distance owner, s.ancestor? id distance = some owner → s.isDeclared owner name = false

theorem exists_nearest {name : String} (howner : s.ancestor? id distance = some owner)
    (hdeclared : s.isDeclared owner name = true) :
    ∃ i ≤ distance, ∃ nearest, s.Nearest id name i nearest := by
  induction distance generalizing id with
  | zero =>
    cases howner
    exact ⟨0, Nat.le_refl 0, _, rfl, hdeclared, fun _ h => absurd h (Nat.not_lt_zero _)⟩
  | succ distance ih =>
    cases hid : s.isDeclared id name with
    | true => exact ⟨0, Nat.zero_le _, id, rfl, hid, fun _ h => absurd h (Nat.not_lt_zero _)⟩
    | false =>
      obtain ⟨outer, houter, hrest⟩ := Option.bind_eq_some_iff.mp howner
      obtain ⟨i, hi, nearest, hnearest⟩ := ih hrest
      refine ⟨i + 1, Nat.succ_le_succ hi, nearest, ?_, hnearest.declared, fun j hj nearer h => ?_⟩
      · rw [ancestor?_succ houter, hnearest.ancestor]
      · cases j with
        | zero =>
          cases h
          exact hid
        | succ j =>
          rw [ancestor?_succ houter] at h
          exact hnearest.nearer j (Nat.lt_of_succ_lt_succ hj) nearer h

theorem nearest_or_undeclared (s : Store) (id : FrameId) (name : String) :
    (∃ distance owner, s.Nearest id name distance owner) ∨ s.Undeclared id name := by
  by_cases h : s.Undeclared id name
  · exact .inr h
  · simp only [Undeclared, not_forall, Bool.not_eq_false] at h
    obtain ⟨distance, owner, howner, hdeclared⟩ := h
    obtain ⟨i, -, nearest⟩ := exists_nearest howner hdeclared
    exact .inl ⟨i, nearest⟩

theorem Nearest.exists_slot {name : String} (h : s.Nearest id name distance owner) :
    ∃ slot, s.slot? owner name = some slot :=
  Option.isSome_iff_exists.mp h.declared

/-- Where the frames lie alike and bind the same names, the nearest ones are the same. -/
theorem Nearest.congr {name : String} (h : s.Nearest id name distance owner)
    (houter : ∀ id, t.outer? id = s.outer? id)
    (hdeclared : ∀ id, t.isDeclared id name = s.isDeclared id name) :
    t.Nearest id name distance owner where
  ancestor := (ancestor?_congr houter ..).trans h.ancestor
  declared := (hdeclared owner).trans h.declared
  nearer i hi nearer hnearer := (hdeclared nearer).trans
    (h.nearer i hi nearer ((ancestor?_congr houter ..).symm.trans hnearer))

/-- The search stops at the nearest frame that binds the name. -/
theorem ownerWithin_of_nearest (h : s.Descends) {name : String} {fuel : Nat}
    (hnearest : s.Nearest id name distance owner) (hfuel : id.index < fuel) :
    s.ownerWithin name fuel id = some owner := by
  obtain ⟨fuel, rfl⟩ := Nat.exists_eq_add_one_of_ne_zero (Nat.ne_zero_of_lt hfuel)
  induction distance generalizing id fuel with
  | zero =>
    cases hnearest.ancestor
    rw [ownerWithin, if_pos hnearest.declared]
  | succ distance ih =>
    obtain ⟨outer, houter, hrest⟩ := Option.bind_eq_some_iff.mp hnearest.ancestor
    have hfree := hnearest.nearer 0 (Nat.succ_pos distance) id rfl
    have holder := h id outer houter
    obtain ⟨fuel, rfl⟩ : ∃ less, fuel = less + 1 := ⟨fuel - 1, by omega⟩
    have hfound := ih ⟨hrest, hnearest.declared, fun i hi nearer hnearer =>
      hnearest.nearer (i + 1) (Nat.succ_lt_succ hi) nearer
        ((ancestor?_succ houter).trans hnearer)⟩ fuel (by omega)
    rw [ownerWithin, hfree, if_neg Bool.false_ne_true, houter, Option.bind_some, hfound]

theorem Descends.owner?_of_nearest (h : s.Descends) {name : String}
    (hnearest : s.Nearest id name distance owner) : s.owner? id name = some owner :=
  ownerWithin_of_nearest h hnearest (Nat.lt_succ_self id.index)

theorem ownerWithin_of_undeclared {name : String} (h : s.Undeclared id name) (fuel : Nat) :
    s.ownerWithin name fuel id = none := by
  induction fuel generalizing id with
  | zero => rfl
  | succ fuel ih =>
    rw [ownerWithin, h 0 id rfl, if_neg Bool.false_ne_true]
    cases houter : s.outer? id with
    | none => rfl
    | some outer =>
      exact ih fun i owner howner => h (i + 1) owner ((ancestor?_succ houter).trans howner)

/-! ## Searching -/

theorem Nearest.searchAt {name : Token} {slot : Slot}
    (h : s.Nearest id name.lexeme distance owner) (hslot : s.slot? owner name.lexeme = some slot) :
    s.searchAt id distance name = .ok (owner, slot) := by
  simp only [Store.searchAt, h.ancestor, hslot]

theorem Descends.search_eq (h : s.Descends) {name : Token}
    (hnearest : s.Nearest id name.lexeme distance owner) :
    s.search id name = s.searchAt id distance name := by
  obtain ⟨slot, hslot⟩ := hnearest.exists_slot
  rw [hnearest.searchAt hslot]
  simp only [search, h.owner?_of_nearest hnearest, hslot]

theorem search_of_undeclared {name : Token} (h : s.Undeclared id name.lexeme) :
    s.search id name = .error (undefinedError name) := by
  rw [search, owner?, ownerWithin_of_undeclared h]

/-! ## Writing -/

/-- A value has been put into a variable of a frame. Every read that comes to it gives the value,
and nothing else has changed. -/
structure Written (s t : Store) (owner : FrameId) (name : String) (value : Value) : Prop where
  mutable : ∃ slot, s.slot? owner name = some slot ∧ slot.isConst = false
  slot : t.slot? owner name = some ⟨some value, false⟩
  elsewhere : ∀ id other, id ≠ owner ∨ other ≠ name → t.slot? id other = s.slot? id other
  outer : ∀ id, t.outer? id = s.outer? id
  rest : { t with frames := s.frames } = s
  seen : ∀ id read distance, read.lexeme = name → s.Nearest id name distance owner →
    t.get id read = .ok value ∧ t.getAt id distance read = .ok value

theorem isDeclared_store (s : Store) (id other : FrameId) (name name' : String) (value : Value) :
    (s.store id name value).isDeclared other name' = s.isDeclared other name' := by
  rw [isDeclared, slot?_store, isDeclared]
  split
  · rw [Option.isSome_map]
  · rfl

theorem Descends.written_store (h : s.Descends) {name : String} {slot : Slot} (value : Value)
    (hslot : s.slot? owner name = some slot) (hconst : slot.isConst = false) :
    Written s (s.store owner name value) owner name value := by
  have houter (id : FrameId) : (s.store owner name value).outer? id = s.outer? id :=
    outer?_store ..
  have hafter : (s.store owner name value).slot? owner name = some ⟨some value, false⟩ := by
    rw [slot?_store, if_pos ⟨rfl, rfl⟩, hslot, Option.map_some, hconst]
  refine ⟨⟨slot, hslot, hconst⟩, hafter, fun id other hne => ?_, houter, rfl,
    fun id read distance hread hnearest => ?_⟩
  · rw [slot?_store, if_neg fun heq => hne.elim (absurd heq.1.symm) (absurd heq.2.symm)]
  · subst hread
    have hnearest := hnearest.congr houter fun id => isDeclared_store ..
    have hgetAt : (s.store owner read.lexeme value).getAt id distance read = .ok value := by
      rw [getAt, hnearest.searchAt hafter]
      rfl
    refine ⟨?_, hgetAt⟩
    rw [get, (h.of_outer? houter).search_eq hnearest]
    exact hgetAt

theorem constant?_eq_true_iff {name : String} : s.constant? owner name = some true ↔
    ∃ slot, s.slot? owner name = some slot ∧ slot.isConst = true := by
  rw [constant?_eq_slot?, Option.map_eq_some_iff]

/-- How names are read and written in a store: outward as at the distance of the nearest frame that
binds the name. -/
structure Indexed (s : Store) : Prop where
  nearest : ∀ id name, (∃ distance owner, s.Nearest id name distance owner) ∨ s.Undeclared id name
  read : ∀ {id name distance owner}, s.Nearest id name.lexeme distance owner →
    s.get id name = s.getAt id distance name
  write : ∀ {id name distance owner} value, s.Nearest id name.lexeme distance owner →
    s.assign id name value = s.assignAt id distance name value
  undeclared : ∀ {id name} value, s.Undeclared id name.lexeme →
    s.get id name = .error (undefinedError name) ∧
      s.assign id name value = .error (undefinedError name)
  kind : ∀ name, ∃ message, (undefinedError name).toFault = .located .name message name
  written : ∀ {id name value t}, s.assign id name value = .ok t →
    ∃ distance owner, s.Nearest id name.lexeme distance owner ∧
      Written s t owner name.lexeme value
  writtenAt : ∀ {id distance name value t}, s.assignAt id distance name value = .ok t →
    ∃ owner, s.ancestor? id distance = some owner ∧ Written s t owner name.lexeme value
  refused : ∀ {id name value error}, s.assign id name value = .error error ↔
    s.Undeclared id name.lexeme ∧ error = undefinedError name ∨
      ∃ distance owner, s.Nearest id name.lexeme distance owner ∧
        s.constant? owner name.lexeme = some true ∧ error = constantError name
  refusedAt : ∀ {id distance name value error}, s.assignAt id distance name value = .error error ↔
    (∀ owner, s.ancestor? id distance = some owner → s.isDeclared owner name.lexeme = false) ∧
        error = unboundError name ∨
      ∃ owner, s.ancestor? id distance = some owner ∧
        s.constant? owner name.lexeme = some true ∧ error = constantError name
  left : ∀ {action error}, s.perform action = .error error → s.after action = s
  kept : ∀ {m lookup id name value halt after}, m.store = s →
    Eval.writeName lookup id name value m = .error halt after → after = m

theorem searchAt_eq_ok_iff {name : Token} {slot : Slot} :
    s.searchAt id distance name = .ok (owner, slot) ↔
      s.ancestor? id distance = some owner ∧ s.slot? owner name.lexeme = some slot := by
  refine ⟨fun h => ⟨?_, slot?_of_searchAt h⟩,
    fun ⟨howner, hslot⟩ => by simp only [searchAt, howner, hslot]⟩
  unfold searchAt at h
  split at h
  · next howner =>
    split at h
    · cases h
      exact howner
    · cases h
  · cases h

theorem searchAt_eq_error_iff {name : Token} {error : RunError} :
    s.searchAt id distance name = .error error ↔
      (∀ owner, s.ancestor? id distance = some owner → s.isDeclared owner name.lexeme = false) ∧
        error = unboundError name := by
  unfold searchAt isDeclared
  cases howner : s.ancestor? id distance with
  | none => simp only [Except.error.injEq, reduceCtorEq, false_implies, implies_true, true_and,
      eq_comm (a := error)]
  | some owner =>
    cases hslot : s.slot? owner name.lexeme with
    | none => simp only [hslot, Except.error.injEq, Option.some.injEq, forall_eq',
        Option.isSome_none, true_and, eq_comm (a := error)]
    | some slot => simp [hslot]

theorem Descends.search_eq_ok_iff (h : s.Descends) {name : Token} {slot : Slot} :
    s.search id name = .ok (owner, slot) ↔
      (∃ distance, s.Nearest id name.lexeme distance owner) ∧
        s.slot? owner name.lexeme = some slot := by
  constructor
  · intro hsearch
    refine ⟨?_, slot?_of_search hsearch⟩
    rcases s.nearest_or_undeclared id name.lexeme with ⟨distance, nearest, hnearest⟩ | hfree
    · rw [h.search_eq hnearest, searchAt_eq_ok_iff, hnearest.ancestor] at hsearch
      cases hsearch.1
      exact ⟨distance, hnearest⟩
    · rw [search_of_undeclared hfree] at hsearch
      cases hsearch
  · rintro ⟨⟨distance, hnearest⟩, hslot⟩
    rw [h.search_eq hnearest, hnearest.searchAt hslot]

theorem Descends.search_eq_error_iff (h : s.Descends) {name : Token} {error : RunError} :
    s.search id name = .error error ↔
      s.Undeclared id name.lexeme ∧ error = undefinedError name := by
  rcases s.nearest_or_undeclared id name.lexeme with ⟨distance, owner, hnearest⟩ | hfree
  · obtain ⟨slot, hslot⟩ := hnearest.exists_slot
    rw [h.search_eq hnearest, hnearest.searchAt hslot]
    refine ⟨fun hfound => (by cases hfound), fun hfree => ?_⟩
    exact absurd ((hfree.1 _ _ hnearest.ancestor).symm.trans hnearest.declared) Bool.false_ne_true
  · rw [search_of_undeclared hfree]
    exact ⟨fun herror => by cases herror; exact ⟨hfree, rfl⟩, fun herror => by rw [herror.2]⟩

theorem Descends.indexed (h : s.Descends) : s.Indexed where
  nearest := s.nearest_or_undeclared
  read hnearest := by rw [get, getAt, h.search_eq hnearest]
  write value hnearest := by rw [assign_eq, assignAt_eq, h.search_eq hnearest]
  undeclared value hfree := by
    rw [get, assign_eq, search_of_undeclared hfree]
    exact ⟨rfl, rfl⟩
  kind name := ⟨_, rfl⟩
  written {id name value t} hassign := by
    obtain ⟨owner, slot, hsearch, hconst, rfl⟩ := exists_of_put ((assign_eq ..).symm.trans hassign)
    obtain ⟨⟨distance, hnearest⟩, hslot⟩ := h.search_eq_ok_iff.mp hsearch
    exact ⟨distance, owner, hnearest, h.written_store value hslot hconst⟩
  writtenAt {id distance name value t} hassign := by
    obtain ⟨owner, slot, hsearch, hconst, rfl⟩ :=
      exists_of_put ((assignAt_eq ..).symm.trans hassign)
    obtain ⟨howner, hslot⟩ := searchAt_eq_ok_iff.mp hsearch
    exact ⟨owner, howner, h.written_store value hslot hconst⟩
  refused {id name value error} := by
    rw [assign_eq, put_eq_error_iff, h.search_eq_error_iff]
    refine or_congr_right ⟨?_, ?_⟩
    · rintro ⟨owner, slot, hsearch, hconst, rfl⟩
      obtain ⟨⟨distance, hnearest⟩, hslot⟩ := h.search_eq_ok_iff.mp hsearch
      exact ⟨distance, owner, hnearest, constant?_eq_true_iff.mpr ⟨slot, hslot, hconst⟩, rfl⟩
    · rintro ⟨distance, owner, hnearest, hconst, rfl⟩
      obtain ⟨slot, hslot, hconst⟩ := constant?_eq_true_iff.mp hconst
      exact ⟨owner, slot, h.search_eq_ok_iff.mpr ⟨⟨distance, hnearest⟩, hslot⟩, hconst, rfl⟩
  refusedAt {id distance name value error} := by
    rw [assignAt_eq, put_eq_error_iff, searchAt_eq_error_iff]
    refine or_congr_right ⟨?_, ?_⟩
    · rintro ⟨owner, slot, hsearch, hconst, rfl⟩
      obtain ⟨howner, hslot⟩ := searchAt_eq_ok_iff.mp hsearch
      exact ⟨owner, howner, constant?_eq_true_iff.mpr ⟨slot, hslot, hconst⟩, rfl⟩
    · rintro ⟨owner, howner, hconst, rfl⟩
      obtain ⟨slot, hslot, hconst⟩ := constant?_eq_true_iff.mp hconst
      exact ⟨owner, slot, searchAt_eq_ok_iff.mpr ⟨howner, hslot⟩, hconst, rfl⟩
  left hperform := by
    rw [Store.after, hperform]
    rfl
  kept _ herror := Eval.writeName_error herror

theorem indexed_grown (actions : List FrameAction) : (grown actions).Indexed :=
  (descends_grown actions).indexed

end Store

end LoxLang
