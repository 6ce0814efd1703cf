import LoxLang.Proofs.Binding.Storing
import LoxLang.Proofs.Machine.Declaring

/-!
# Stages of a straight-line run

Where the analysis takes a name to have a value, the frame at the distance of the scope has a value
for the name, if it binds it (`Stage`). A stage goes with the scopes of the analysis through each
step by which names are bound and written.
-/

namespace LoxLang

/-- A scalar or a built-in function: a value that has no attributes and no body. -/
def Value.Simple (value : Value) : Prop := value.Scalar ∨ ∃ id, value = .callable (.native id)

namespace Store

variable {s t : Store}

theorem slot?_store (s : Store) (id other : FrameId) (name name' : String) (value : Value) :
    (s.store id name value).slot? other name' =
      if id = other ∧ name = name' then
        (s.slot? other name').map fun slot => { slot with value := some value }
      else s.slot? other name' := by
  unfold slot?
  rw [frame?_store]
  by_cases hid : id = other
  · rw [if_pos hid]
    cases s.frame? other with
    | none => simp
    | some frame =>
      simp only [Option.map_some, Option.bind_some, NameMap.find?_modify, hid, true_and]
  · simp [hid]

theorem slot?_declare_of_ne (s : Store) {id other : FrameId} {name name' : String}
    (h : id ≠ other ∨ name ≠ name') (value : Option Value) (isConst : Bool) :
    (s.declare id name value isConst).slot? other name' = s.slot? other name' := by
  unfold slot?
  rw [frame?_declare]
  by_cases hid : id = other
  · rw [if_pos hid]
    cases s.frame? other with
    | none => rfl
    | some frame => exact NameMap.find?_insert_of_ne _ _ (h.resolve_left (absurd hid))
  · rw [if_neg hid]

theorem outer?_store (s : Store) (id other : FrameId) (name : String) (value : Value) :
    (s.store id name value).outer? other = s.outer? other := by
  unfold outer?
  rw [frame?_store]
  split
  · cases s.frame? other <;> rfl
  · rfl

theorem outer?_declare (s : Store) (id other : FrameId) (name : String) (value : Option Value)
    (isConst : Bool) : (s.declare id name value isConst).outer? other = s.outer? other := by
  unfold outer?
  rw [frame?_declare]
  split
  · cases s.frame? other <;> rfl
  · rfl

theorem ancestor?_congr (h : ∀ id, t.outer? id = s.outer? id) (id : FrameId) (hops : Nat) :
    t.ancestor? id hops = s.ancestor? id hops := by
  induction hops generalizing id with
  | zero => rfl
  | succ hops ih =>
    rw [ancestor?, ancestor?, h]
    exact congrArg _ (funext ih)

/-- From a frame that was there before, a new one is not met on the way out. -/
theorem Descends.ancestor?_addFrame (h : s.Descends) (frame : Frame) {id : FrameId} (hops : Nat)
    (hid : id.index < s.frames.size) : (s.addFrame frame).2.ancestor? id hops = s.ancestor? id hops := by
  induction hops generalizing id with
  | zero => rfl
  | succ hops ih =>
    have houter : (s.addFrame frame).2.outer? id = s.outer? id := by
      have hne : id ≠ (s.addFrame frame).1 := fun heq =>
        Nat.ne_of_lt hid (congrArg FrameId.index heq)
      rw [outer?, frame?_addFrame, if_neg hne, outer?]
    rw [ancestor?, ancestor?, houter]
    cases hfound : s.outer? id with
    | none => rfl
    | some outer => exact ih (Nat.lt_trans (h id outer hfound) hid)

end Store

/-- A machine that runs straight-line code where the analysis has these scopes open. -/
structure Stage (exempt : List String) (scopes : List StaticScope) (m : Machine) : Prop where
  here : (m.store.frame? m.here).isSome
  descends : m.store.Descends
  simple : ∀ {id name slot value}, m.store.slot? id name = some slot → slot.value = some value →
    value.Simple
  stored : ∀ {i scope name owner slot}, scopes[i]? = some scope → scope.isStored name = true →
    name ∉ exempt → m.store.ancestor? m.here i = some owner →
    m.store.slot? owner name = some slot → slot.value.isSome

namespace Stage

variable {exempt names : List String} {scopes before after : List StaticScope} {m : Machine}

/-- Names that have come to count as stored in are exempt. -/
theorem stores (h : Stage exempt before m) (hstores : Stores names before after) :
    Stage (names ++ exempt) after m where
  here := h.here
  descends := h.descends
  simple := h.simple
  stored hscope hname hexempt howner hslot := by
    obtain ⟨earlier, hearlier, hnames⟩ := hstores.scope hscope
    rw [List.mem_append, not_or] at hexempt
    exact h.stored hearlier ((hnames _ hname).resolve_left hexempt.1) hexempt.2 howner hslot

/-- A name that is written is stored in where the frame lies. -/
theorem write (h : Stage exempt scopes m) {hops : Nat} {owner : FrameId} {name : String}
    {value : Value} (howner : m.store.ancestor? m.here hops = some owner) (hvalue : value.Simple)
    (change : StaticBinding → StaticBinding) :
    Stage exempt (Analysis.modifyAt name change hops scopes)
      { m with store := m.store.store owner name value } where
  here := by
    rw [Store.frame?_store]
    split
    · rw [Option.isSome_map]
      exact h.here
    · exact h.here
  descends id outer houter := h.descends id outer ((Store.outer?_store ..).symm.trans houter)
  simple {id other slot found} hslot hfound := by
    rw [Store.slot?_store] at hslot
    split at hslot
    · obtain ⟨earlier, -, rfl⟩ := Option.map_eq_some_iff.mp hslot
      cases hfound
      exact hvalue
    · exact h.simple hslot hfound
  stored {i scope other found slot} hscope hstored hexempt hfound hslot := by
    rw [Store.ancestor?_congr fun id => Store.outer?_store ..] at hfound
    rw [Store.slot?_store] at hslot
    split at hslot
    · obtain ⟨earlier, -, rfl⟩ := Option.map_eq_some_iff.mp hslot
      rfl
    · next hother =>
      rw [getElem?_modifyAt] at hscope
      split at hscope
      · next hi =>
        obtain ⟨earlier, hearlier, rfl⟩ := Option.map_eq_some_iff.mp hscope
        subst hi
        cases howner.symm.trans hfound
        have hne : name ≠ other := fun heq => hother ⟨rfl, heq⟩
        exact h.stored hearlier ((StaticScope.isStored_mark hstored).resolve_left hne) hexempt hfound
          hslot
      · exact h.stored hscope hstored hexempt hfound hslot

/-- A name that is bound is stored in by the current frame, if it is bound with a value. -/
theorem declare (h : Stage exempt before m) {name : String} {value : Option Value} {isConst : Bool}
    (hvalue : ∀ v, value = some v → v.Simple)
    (hscopes : ∀ {hops scope}, after[hops]? = some scope → ∃ earlier, before[hops]? = some earlier ∧
      ∀ other, scope.isStored other = true →
        (hops = 0 ∧ other = name ∧ value.isSome) ∨
          ((hops = 0 → other ≠ name) ∧ earlier.isStored other = true)) :
    Stage exempt after { m with store := m.store.declare m.here name value isConst } where
  here := by
    rw [Store.frame?_declare, if_pos rfl, Option.isSome_map]
    exact h.here
  descends id outer houter := h.descends id outer ((Store.outer?_declare ..).symm.trans houter)
  simple {id other slot found} hslot hfound := by
    by_cases hsame : m.here = id ∧ name = other
    · obtain ⟨rfl, rfl⟩ := hsame
      rw [slot?_declare _ _ _ _ _ _ h.here, if_pos rfl] at hslot
      cases hslot
      exact hvalue found hfound
    · rw [Store.slot?_declare_of_ne _ (not_and_or.mp hsame)] at hslot
      exact h.simple hslot hfound
  stored {i scope other found slot} hscope hstored hexempt hfound hslot := by
    rw [Store.ancestor?_congr fun id => Store.outer?_declare ..] at hfound
    obtain ⟨earlier, hearlier, hnames⟩ := hscopes hscope
    by_cases hsame : m.here = found ∧ name = other
    · obtain ⟨rfl, rfl⟩ := hsame
      -- the current frame is met only at the start of the way out
      have hi : i = 0 := by
        have hle : m.here.index + i ≤ m.here.index := h.descends.ancestor?_index_le hfound
        omega
      rw [slot?_declare _ _ _ _ _ _ h.here, if_pos rfl] at hslot
      cases hslot
      rcases hnames name hstored with ⟨-, -, hsome⟩ | ⟨hne, -⟩
      · exact hsome
      · exact absurd rfl (hne hi)
    · rw [Store.slot?_declare_of_ne _ (not_and_or.mp hsame)] at hslot
      rcases hnames other hstored with ⟨rfl, rfl, -⟩ | ⟨-, hearly⟩
      · cases hfound
        exact absurd ⟨rfl, rfl⟩ hsame
      · exact h.stored hearlier hearly hexempt hfound hslot

/-- A frame that is opened has no names. -/
theorem enter (h : Stage exempt scopes m) (kind kind' : ScopeKind) :
    Stage exempt (⟨kind', .empty⟩ :: scopes)
      { m with
        store := (m.store.addFrame ⟨kind, .empty, some m.here⟩).2
        here := (m.store.addFrame ⟨kind, .empty, some m.here⟩).1 } := by
  have hhere : m.here.index < m.store.frames.size := by
    obtain ⟨frame, hframe⟩ := Option.isSome_iff_exists.mp h.here
    exact (Array.getElem?_eq_some_iff.mp hframe).1
  have hslot : ∀ id name slot,
      (m.store.addFrame ⟨kind, .empty, some m.here⟩).2.slot? id name = some slot →
        m.store.slot? id name = some slot := by
    intro id name slot hslot
    rw [Store.slot?, Store.frame?_addFrame] at hslot
    split at hslot
    · cases hslot
    · exact hslot
  refine ⟨?_, fun id outer houter => ?_, fun hfound => h.simple (hslot _ _ _ hfound),
    fun {hops scope name owner slot} hscope hstored hexempt howner hfound => ?_⟩
  · rw [Store.frame?_addFrame, if_pos rfl]
    rfl
  · rw [Store.outer?, Store.frame?_addFrame] at houter
    split at houter
    · next heq =>
      cases houter
      rw [heq]
      exact hhere
    · exact h.descends id outer houter
  · cases hops with
    | zero =>
      cases hscope
      cases hstored
    | succ hops =>
      have houter : (m.store.addFrame ⟨kind, .empty, some m.here⟩).2.outer?
          (m.store.addFrame ⟨kind, .empty, some m.here⟩).1 = some m.here := by
        rw [Store.outer?, Store.frame?_addFrame, if_pos rfl]
        rfl
      dsimp only at howner
      rw [Store.ancestor?, houter, Option.bind_some,
        h.descends.ancestor?_addFrame _ _ hhere] at howner
      exact h.stored hscope hstored hexempt howner (hslot _ _ _ hfound)

/-- Back in the frame around the current one. -/
theorem leave (h : Stage exempt scopes m) {outer : FrameId}
    (houter : m.store.outer? m.here = some outer) (hframe : (m.store.frame? outer).isSome) :
    Stage exempt scopes.tail { m with here := outer } where
  here := hframe
  descends := h.descends
  simple := h.simple
  stored {hops scope name owner slot} hscope hstored hexempt howner hslot := by
    refine h.stored (i := hops + 1) ?_ hstored hexempt ?_ hslot
    · rw [← hscope, List.getElem?_tail]
    · rw [Store.ancestor?, houter]
      exact howner

end Stage

end LoxLang
