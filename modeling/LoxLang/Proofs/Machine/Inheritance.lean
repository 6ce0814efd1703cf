import LoxLang.Proofs.Machine.Objects

/-!
# Chains of portions

The portions of an object belong to the classes of the chain of its class, in the same order, and
each knows those behind it (`Store.Sound.layered`). So what is found from a portion on does not
depend on those before it: to assign to a field of an object does not change what is found on its
base portions (`Store.Sound.member?_assigned`).
-/

namespace LoxLang

/-! ## Chains -/

/-- On a way to ever older things, any bound above the age of the first one is enough. -/
theorem chain_eq_of_lt {α : Type} {chain : Nat → α → List α} {next? : α → Option α} (age : α → Nat)
    (hstep : ∀ fuel a, chain (fuel + 1) a = a :: (next? a).elim [] (chain fuel))
    (holder : ∀ {a b}, next? a = some b → age b < age a) {fuel other : Nat} {a : α}
    (hfuel : age a < fuel) (hother : age a < other) : chain fuel a = chain other a := by
  induction fuel generalizing other a with
  | zero => exact absurd hfuel (Nat.not_lt_zero _)
  | succ fuel ih =>
    obtain _ | other := other
    · exact absurd hother (Nat.not_lt_zero _)
    rw [hstep, hstep]
    cases hnext : next? a with
    | none => rfl
    | some b =>
      have hlt := holder hnext
      exact congrArg (a :: ·) (ih (by omega) (by omega))

namespace Store

variable {record : Record} {s : Store}

theorem classesFrom_succ (s : Store) (fuel : Nat) (id : ClassId) : s.classesFrom (fuel + 1) id =
    id :: ((s.class? id).bind ClassObject.base).elim [] (s.classesFrom fuel) := by
  rw [classesFrom]
  cases (s.class? id).bind ClassObject.base <;> rfl

theorem portionsFrom_succ (s : Store) (fuel : Nat) (id : InstanceId) : s.portionsFrom (fuel + 1) id =
    id :: ((s.portion? id).bind Portion.base).elim [] (s.portionsFrom fuel) := by
  rw [portionsFrom]
  cases (s.portion? id).bind Portion.base <;> rfl

/-- Each class is younger than its base, and the portions of an object follow the classes of its
chain. -/
structure Chained (s : Store) : Prop where
  older : ∀ {id object}, s.class? id = some object → ∀ base ∈ object.base, base.index < id.index
  portions : ∀ {id portion}, s.portion? id = some portion → portion.Sound s id

theorem Sound.chained (h : s.Sound record) : s.Chained where
  older hobject := (h.classes hobject).older
  portions := h.portions

namespace Chained

variable {id q : InstanceId} {portion : Portion}

theorem base_older (h : s.Chained) {base : InstanceId}
    (hbase : (s.portion? id).bind Portion.base = some base) : base.index < id.index := by
  obtain ⟨portion, hportion, hsome⟩ := Option.bind_eq_some_iff.mp hbase
  obtain ⟨object, -, hrel⟩ := h.portions hportion
  rw [hsome] at hrel
  generalize object.base = baseClass at hrel
  cases hrel with
  | some hunderlies => exact hunderlies.1

theorem classChain_eq (h : s.Chained) {id : ClassId} {object : ClassObject}
    (hobject : s.class? id = some object) :
    s.classChain id = id :: object.base.elim [] s.classChain := by
  rw [classChain, classesFrom_succ, hobject, Option.bind_some]
  cases hbase : object.base with
  | none => rfl
  | some base =>
    refine congrArg (id :: ·) (chain_eq_of_lt ClassId.index s.classesFrom_succ ?_
      (h.older hobject base hbase) (Nat.lt_succ_self _))
    intro id base hbase
    obtain ⟨object, hobject, hsome⟩ := Option.bind_eq_some_iff.mp hbase
    exact h.older hobject base hsome

theorem portionChain_eq (h : s.Chained) (hportion : s.portion? id = some portion) :
    s.portionChain id = id :: portion.base.elim [] s.portionChain := by
  rw [portionChain, portionsFrom_succ, hportion, Option.bind_some]
  cases hbase : portion.base with
  | none => rfl
  | some base =>
    exact congrArg (id :: ·) (chain_eq_of_lt InstanceId.index s.portionsFrom_succ
      h.base_older (h.base_older (by rw [hportion]; exact hbase)) (Nat.lt_succ_self _))

/-- Along the base portions of an object. -/
theorem portion_induction (h : s.Chained) {P : InstanceId → Portion → Prop}
    (root : ∀ {id portion}, s.portion? id = some portion → portion.base = none → P id portion)
    (derived : ∀ {id portion base below}, s.portion? id = some portion → portion.base = some base →
      s.portion? base = some below → P base below → P id portion)
    (hportion : s.portion? id = some portion) : P id portion := by
  obtain ⟨index⟩ := id
  induction index using Nat.strongRecOn generalizing portion with
  | _ index ih =>
    cases hbase : portion.base with
    | none => exact root hportion hbase
    | some base =>
      obtain ⟨object, -, hrel⟩ := h.portions hportion
      rw [hbase] at hrel
      generalize object.base = baseClass at hrel
      cases hrel with
      | some hunderlies =>
        obtain ⟨holder, below, hbelow, -⟩ := hunderlies
        exact derived hportion hbase hbelow (ih base.index holder hbelow)

/-- The portions from one on belong to the classes from its class on. -/
theorem classes_portionChain (h : s.Chained) (hportion : s.portion? id = some portion) :
    (s.portionChain id).map (fun q => (s.portion? q).map Portion.classId) =
      (s.classChain portion.classId).map some := by
  refine h.portion_induction (P := fun id portion =>
    (s.portionChain id).map (fun q => (s.portion? q).map Portion.classId) =
      (s.classChain portion.classId).map some) ?_ ?_ hportion
  · intro id portion hportion hbase
    obtain ⟨object, hobject, hrel⟩ := h.portions hportion
    rw [h.portionChain_eq hportion, h.classChain_eq hobject]
    rw [hbase] at hrel ⊢
    generalize object.base = baseClass at hrel
    cases hrel
    rw [Option.elim_none, Option.elim_none, List.map_singleton, List.map_singleton, hportion]
    rfl
  · intro id portion base below hportion hbase hbelow ih
    obtain ⟨object, hobject, hrel⟩ := h.portions hportion
    rw [h.portionChain_eq hportion, h.classChain_eq hobject]
    rw [hbase] at hrel ⊢
    generalize object.base = baseClass at hrel
    cases hrel with
    | some hunderlies =>
      obtain ⟨-, below', hbelow', rfl⟩ := hunderlies
      cases hbelow.symm.trans hbelow'
      rw [Option.elim_some, Option.elim_some, List.map_cons, List.map_cons, ih, hportion]
      rfl

/-- The chain of a base portion is what remains of the chain from it on. -/
theorem portionChain_of_append (h : s.Chained) (hportion : s.portion? id = some portion)
    {before behind : List InstanceId} (hchain : s.portionChain id = before ++ q :: behind) :
    s.portionChain q = q :: behind := by
  refine h.portion_induction (P := fun id _ => ∀ before, s.portionChain id = before ++ q :: behind →
    s.portionChain q = q :: behind) ?_ ?_ hportion before hchain
  · intro id portion hportion hbase before hsplit
    have hown := h.portionChain_eq hportion
    rw [hbase, Option.elim_none] at hown
    obtain ⟨rfl, heq⟩ := List.append_eq_singleton_iff.mp (hsplit.symm.trans hown) |>.resolve_right
      fun ⟨_, hnil⟩ => nomatch hnil
    cases heq
    exact hown
  · intro id portion base below hportion hbase hbelow ih before hsplit
    have hown := h.portionChain_eq hportion
    rw [hbase, Option.elim_some] at hown
    cases before with
    | nil =>
      cases hsplit.symm.trans hown
      exact hown
    | cons first before => exact ih before (List.cons.inj (hown.symm.trans hsplit)).2

/-- Behind the first portion there are only older ones, of older classes. -/
theorem older_of_mem (h : s.Chained) (hportion : s.portion? id = some portion)
    (hmem : q ∈ s.portionChain id) : q = id ∨ q.index < id.index ∧
      ∃ below, s.portion? q = some below ∧ below.classId.index < portion.classId.index := by
  refine h.portion_induction (P := fun id portion => q ∈ s.portionChain id →
    q = id ∨ q.index < id.index ∧ ∃ below, s.portion? q = some below ∧
      below.classId.index < portion.classId.index) ?_ ?_ hportion hmem
  · intro id portion hportion hbase hmem
    rw [h.portionChain_eq hportion, hbase, Option.elim_none] at hmem
    exact .inl (List.mem_singleton.mp hmem)
  · intro id portion base below hportion hbase hbelow ih hmem
    rw [h.portionChain_eq hportion, hbase, Option.elim_some] at hmem
    refine (List.mem_cons.mp hmem).imp_right fun hmem => ?_
    have hnext : base.index < id.index ∧ below.classId.index < portion.classId.index := by
      obtain ⟨object, hobject, hrel⟩ := h.portions hportion
      rw [hbase] at hrel
      have hclass := h.older hobject
      generalize object.base = baseClass at hrel hclass
      cases hrel with
      | some hunderlies =>
        obtain ⟨holder, below', hbelow', rfl⟩ := hunderlies
        cases hbelow.symm.trans hbelow'
        exact ⟨holder, hclass _ rfl⟩
    rcases ih hmem with rfl | ⟨holder, last, hlast, hclass⟩
    · exact ⟨hnext.1, below, hbelow, hnext.2⟩
    · exact ⟨Nat.lt_trans holder hnext.1, last, hlast, Nat.lt_trans hclass hnext.2⟩

end Chained

/-- The portions of an object: one for each class of the chain of its class, where each portion
knows those behind it. -/
structure Layered (s : Store) (object : InstanceId) (portion : Portion) : Prop where
  classes : (s.portionChain object).map (fun q => (s.portion? q).map Portion.classId) =
    (s.classChain portion.classId).map some
  rest : ∀ {before q behind}, s.portionChain object = before ++ q :: behind →
    s.portionChain q = q :: behind
  /-- Only the object itself belongs to its class. -/
  own : ∀ {q below}, q ∈ s.portionChain object → s.portion? q = some below →
    below.classId = portion.classId → q = object

theorem Sound.layered (h : s.Sound record) {object : InstanceId} {portion : Portion}
    (hportion : s.portion? object = some portion) : s.Layered object portion where
  classes := h.chained.classes_portionChain hportion
  rest := h.chained.portionChain_of_append hportion
  own hmem hbelow hclass := by
    refine (h.chained.older_of_mem hportion hmem).resolve_right fun ⟨_, below, hsame, hlt⟩ => ?_
    cases hbelow.symm.trans hsame
    rw [hclass] at hlt
    exact Nat.lt_irrefl _ hlt

/-! ## Members -/

/-- A member is found in the first portion that has it. -/
theorem member?_eq_some_iff {id q : InstanceId} {name : String} {member : Member} :
    s.member? id name = some (q, member) ↔ ∃ before behind,
      s.portionChain id = before ++ q :: behind ∧
        (∀ p ∈ before, s.portionMember? p name = none) ∧ s.portionMember? q name = some member := by
  rw [member?, List.findSome?_eq_some_iff]
  constructor
  · rintro ⟨before, p, behind, hchain, hfound, hbefore⟩
    obtain ⟨_, hmember, heq⟩ := Option.map_eq_some_iff.mp hfound
    cases heq
    exact ⟨before, behind, hchain, fun p hp => Option.map_eq_none_iff.mp (hbefore p hp), hmember⟩
  · rintro ⟨before, behind, hchain, hbefore, hmember⟩
    exact ⟨before, q, behind, hchain, by rw [hmember, Option.map_some],
      fun p hp => by rw [hbefore p hp, Option.map_none]⟩

/-- A field hides everything else of its name. -/
theorem member?_of_field {id : InstanceId} {portion : Portion} {name : String} {value : Value}
    (hportion : s.portion? id = some portion) (hfield : portion.fields.find? name = some value) :
    s.member? id name = some (id, .value value) := by
  have hmember : s.portionMember? id name = some (.value value) := by
    rw [portionMember?, hportion, Option.bind_some, hfield]
    rfl
  exact member?_eq_some_iff.mpr
    ⟨[], _, s.portionsFrom_succ id.index id, List.forall_mem_nil _, hmember⟩

section Assigned

variable (s) (id : InstanceId) (name : String) (value : Value)

theorem portionChain_setInstanceField (other : InstanceId) :
    (s.setInstanceField id name value).portionChain other = s.portionChain other := by
  have hbase (q : InstanceId) : ((s.setInstanceField id name value).portion? q).bind Portion.base =
      (s.portion? q).bind Portion.base := by
    rw [Sound.portion?_setInstanceField]
    split
    · cases s.portion? q <;> rfl
    · rfl
  rw [portionChain, portionChain]
  generalize other.index + 1 = fuel
  induction fuel generalizing other with
  | zero => rfl
  | succ fuel ih => rw [portionsFrom_succ, portionsFrom_succ, hbase, funext ih]

theorem portionMember?_setInstanceField {other : InstanceId} (hne : id ≠ other) (field : String) :
    (s.setInstanceField id name value).portionMember? other field =
      s.portionMember? other field := by
  rw [portionMember?, Sound.portion?_setInstanceField, if_neg hne]
  rfl

end Assigned

/-- An assignment gives the object a field of this value. -/
theorem portion?_assigned {id : InstanceId} {portion : Portion} {name : String} {value : Value}
    (hportion : s.portion? id = some portion) : ∃ after,
    (s.setInstanceField id name value).portion? id = some after ∧
      after.fields.find? name = some value :=
  ⟨_, by rw [Sound.portion?_setInstanceField, if_pos rfl, hportion]; rfl,
    NameMap.find?_insert_self ..⟩

/-- An assignment to a field of an object does not change what its base portions show. -/
theorem Sound.member?_assigned (h : s.Sound record) {id q : InstanceId} {portion : Portion}
    (hportion : s.portion? id = some portion) (hmem : q ∈ s.portionChain id) (hne : q ≠ id)
    (name : String) (value : Value) (field : String) :
    (s.setInstanceField id name value).member? q field = s.member? q field := by
  obtain ⟨holder, below, hbelow, -⟩ := (h.chained.older_of_mem hportion hmem).resolve_left hne
  rw [member?, member?, portionChain_setInstanceField]
  have hother : ∀ p ∈ s.portionChain q, id ≠ p := by
    rintro _ hp rfl
    rcases h.chained.older_of_mem hbelow hp with rfl | ⟨hlt, -⟩
    · exact hne rfl
    · omega
  generalize s.portionChain q = ps at hother
  induction ps with
  | nil => rfl
  | cons p ps ih =>
    obtain ⟨hp, hrest⟩ := List.forall_mem_cons.mp hother
    rw [List.findSome?_cons, List.findSome?_cons, ih hrest,
      portionMember?_setInstanceField s id name value hp]

end Store

end LoxLang
