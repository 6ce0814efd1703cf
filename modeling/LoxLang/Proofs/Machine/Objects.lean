import LoxLang.Proofs.Machine.Sound

/-!
# Objects of sound stores

A method or getter that is found on an object is bound to the portion it was found in, whose class
it belongs to; the frame that this opens is the scope of the object that the analysis opened for
that class (`Store.Sound.bind`). A new object has one portion for each class of the chain, so that
the initializer that runs is the one whose parameters were counted
(`Store.initializer?_instantiate`).
-/

namespace LoxLang

/-! ## The scope of an object -/

theorem declares_receiver (decl : ClassDecl) (name : String) :
    ScopeKind.Declares name (.receiver decl) ↔ ((receiverRib decl).constant? name).isSome := by
  have hnone : (Rib.bare (.receiver decl)).constant? name = none := rfl
  simp only [receiverRib, ScopeKind.Declares]
  split
  · next hbase =>
    rw [Rib.constant?_set, Rib.constant?_set, hnone]
    by_cases hthis : "this" = name <;> by_cases hsuper : "super" = name <;>
      simp [hbase, hthis, hsuper, @eq_comm _ name]
  · next hbase =>
    rw [Rib.constant?_set, hnone]
    by_cases hthis : "this" = name <;> simp [hbase, hthis, @eq_comm _ name]

theorem constant?_receiver {decl : ClassDecl} {base : Option InstanceId}
    (h : base.isSome = decl.base.isSome) (id : InstanceId) (outer : Option FrameId)
    (name : String) :
    Frame.constant? ⟨.receiver decl, Store.receiverNames id base, outer⟩ name =
      (receiverRib decl).constant? name := by
  have hnone : ∀ name, (Rib.bare (.receiver decl)).constant? name = none := fun _ => rfl
  cases base with
  | none =>
    rw [receiverRib, if_neg (by simp [← h]), Rib.constant?_set, hnone]
    simp only [Frame.constant?, Store.receiverNames, NameMap.find?_insert, NameMap.find?_empty]
    split <;> rfl
  | some base =>
    rw [receiverRib, if_pos (by simp [← h]), Rib.constant?_set, Rib.constant?_set, hnone]
    simp only [Frame.constant?, Store.receiverNames, NameMap.find?_insert, NameMap.find?_empty]
    split
    · rfl
    · split <;> rfl

/-- A getter that is bound and can be called. -/
def Attribute.Sound (record : Record) (s : Store) : Attribute → Prop
  | .value _ => True
  | .getter bound => bound.Sound record s ∧ bound.decl.params = []

namespace Store

variable {record : Record} {s t : Store}

theorem Sound.bind (h : s.Sound record) {id : InstanceId} {portion : Portion}
    {object : ClassObject} {c : Closure} (hportion : s.portion? id = some portion)
    (hobject : s.class? portion.classId = some object)
    (hc : c.MethodSound record s object.decl) :
    (s.bind c id).2.Sound record ∧ s.Grows none (s.bind c id).2 ∧
      (s.bind c id).1.Sound record (s.bind c id).2 ∧ (s.bind c id).1.decl = c.decl := by
  obtain ⟨ribs, hmirrors, hfits⟩ := hc
  have hbase : portion.base.isSome = object.decl.base.isSome := by
    obtain ⟨object', hobject', hbase⟩ := h.portions hportion
    cases hobject.symm.trans hobject'
    rw [← (h.classes hobject).derived]
    generalize portion.base = base, object.base = baseClass at hbase
    cases hbase <;> rfl
  let frame : Frame := ⟨.receiver object.decl, receiverNames id portion.base, some c.frame⟩
  have hbind : s.bind c id =
      ({ c with frame := (s.addFrame frame).1 }, (s.addFrame frame).2) := by
    simp only [Store.bind, classOf?, hportion, Option.bind_some, hobject, Option.elim_some]
    rfl
  have hnames := constant?_receiver hbase id (some c.frame)
  have hframe : frame.WellFormed (s.addFrame frame).1 := by
    refine ⟨fun outer houter => ?_, fun name hname => ?_, fun decl name hkind hname => ?_⟩
    · cases houter
      obtain ⟨f, hf⟩ := hmirrors.exists_frame
      exact (Array.getElem?_eq_some_iff.mp hf).1
    · rw [hnames] at hname
      exact (declares_receiver object.decl name).mpr hname
    · rw [hnames]
      exact (declares_receiver object.decl name).mp hname
  have hgrows : s.Grows none (s.addFrame frame).2 := grows_addFrame s frame
  have hkind : frame.kind = (receiverRib object.decl).kind := by unfold receiverRib; split <;> rfl
  have hstands := Stands.addFrame hmirrors rfl hkind hnames
  rw [hbind]
  refine ⟨h.addFrame hframe, hgrows, ⟨⟨_, hstands.mirrors, hfits.toFunctionFits⟩, fun _ => ?_⟩, rfl⟩
  rw [hstands.exact _ rfl]
  exact (declares_receiver object.decl "this").mp (.inl rfl)

/-! ## Attributes -/

/-- Where the search for a member finds a function. -/
inductive Provides (s : Store) (id : InstanceId) (name : String) : Member → Prop
  | value (value : Value) : Provides s id name (.value value)
  | getter {portion : Portion} {object : ClassObject} {c : Closure}
    (hportion : s.portion? id = some portion) (hobject : s.class? portion.classId = some object)
    (hc : object.getters.find? name = some c) : Provides s id name (.getter c)
  | method {portion : Portion} {object : ClassObject} {c : Closure}
    (hportion : s.portion? id = some portion) (hobject : s.class? portion.classId = some object)
    (hc : object.methods.find? name = some c) : Provides s id name (.method c)

theorem provides_of_portionMember? {id : InstanceId} {name : String} {member : Member}
    (h : s.portionMember? id name = some member) : Provides s id name member := by
  obtain ⟨portion, hportion, hfound⟩ := Option.bind_eq_some_iff.mp h
  cases hfield : portion.fields.find? name with
  | some value =>
    rw [hfield] at hfound
    cases hfound
    exact .value value
  | none =>
    rw [hfield] at hfound
    obtain ⟨object, hobject, hfound⟩ := Option.bind_eq_some_iff.mp hfound
    cases hgetter : object.getters.find? name with
    | some c =>
      rw [hgetter] at hfound
      cases hfound
      exact .getter hportion hobject hgetter
    | none =>
      rw [hgetter] at hfound
      cases hmethod : object.methods.find? name with
      | some c =>
        rw [hmethod] at hfound
        cases hfound
        exact .method hportion hobject hmethod
      | none =>
        rw [hmethod] at hfound
        obtain ⟨value, -, rfl⟩ := Option.map_eq_some_iff.mp hfound
        exact .value value

theorem provides_of_member? {id portion : InstanceId} {name : String} {member : Member}
    (h : s.member? id name = some (portion, member)) : Provides s portion name member := by
  obtain ⟨other, -, hfound⟩ := List.exists_of_findSome?_eq_some h
  obtain ⟨found, hmember, heq⟩ := Option.map_eq_some_iff.mp hfound
  cases heq
  exact provides_of_portionMember? hmember

theorem Sound.realize (h : s.Sound record) {id : InstanceId} {name : String} {member : Member}
    (hmember : Provides s id name member) :
    (s.realize id member).2.Sound record ∧ s.Grows none (s.realize id member).2 ∧
      (s.realize id member).1.Sound record (s.realize id member).2 := by
  cases hmember with
  | value value => exact ⟨h, .refl s, trivial⟩
  | getter hportion hobject hc =>
    obtain ⟨hc, hbare⟩ := (h.classes hobject).getters hc
    obtain ⟨hsound, hgrows, hbound, hdecl⟩ := h.bind hportion hobject hc
    exact ⟨hsound, hgrows, hbound, hdecl ▸ hbare⟩
  | method hportion hobject hc =>
    obtain ⟨hsound, hgrows, hbound, -⟩ := h.bind hportion hobject ((h.classes hobject).methods hc)
    exact ⟨hsound.addFunction hbound, hgrows.trans (grows_addFunction _ _), trivial⟩

theorem Sound.attribute? (h : s.Sound record) (id : InstanceId) (name : String) :
    (s.attribute? id name).2.Sound record ∧ s.Grows none (s.attribute? id name).2 ∧
      ∀ found ∈ (s.attribute? id name).1, found.Sound record (s.attribute? id name).2 := by
  unfold Store.attribute?
  cases hmember : s.member? id name with
  | none => exact ⟨h, .refl s, nofun⟩
  | some found =>
    obtain ⟨hsound, hgrows, hfound⟩ := h.realize (provides_of_member? hmember)
    refine ⟨hsound, hgrows, fun found heq => ?_⟩
    cases heq
    exact hfound

/-! ## Chains -/

/-- Classes each of which is the base of the one before it, up to the root. -/
def IsChain (s : Store) : List ClassId → Prop
  | [] => True
  | id :: bases => ∃ object, s.class? id = some object ∧ object.base = bases.head? ∧ s.IsChain bases

/-- Portions for a chain of classes, each the base portion of the one before it. -/
def IsPortions (s : Store) : Option InstanceId → List ClassId → Prop
  | none, [] => True
  | some id, classId :: bases =>
    ∃ portion, s.portion? id = some portion ∧ portion.classId = classId ∧
      s.IsPortions portion.base bases
  | _, _ => False

theorem Sound.isChain (h : s.Sound record) {fuel : Nat} {id : ClassId} {object : ClassObject}
    (hobject : s.class? id = some object) (hfuel : id.index < fuel) :
    s.IsChain (s.classesFrom fuel id) := by
  induction fuel generalizing id object with
  | zero => exact absurd hfuel (Nat.not_lt_zero _)
  | succ fuel ih =>
    rw [classesFrom, hobject, Option.bind_some]
    cases hbase : object.base with
    | none => exact ⟨object, hobject, hbase, trivial⟩
    | some base =>
      have holder := (h.classes hobject).older base hbase
      have hsize : id.index < s.classes.size := (Array.getElem?_eq_some_iff.mp hobject).1
      have hfound : s.class? base = some s.classes[base.index] :=
        Array.getElem?_eq_getElem (Nat.lt_trans holder hsize)
      refine ⟨object, hobject, ?_, ih hfound (by omega)⟩
      cases fuel with
      | zero => omega
      | succ fuel => rw [hbase]; rfl

theorem IsChain.of_classes {cs : List ClassId} (h : s.IsChain cs) (hclasses : t.classes = s.classes) :
    t.IsChain cs := by
  induction cs with
  | nil => trivial
  | cons id bases ih =>
    obtain ⟨object, hobject, hbase, hrest⟩ := h
    exact ⟨object, by rwa [class?, hclasses], hbase, ih hrest⟩

theorem IsPortions.addPortion {id : Option InstanceId} {cs : List ClassId} (h : s.IsPortions id cs)
    (new : Portion) : (s.addPortion new).2.IsPortions id cs := by
  induction cs generalizing id with
  | nil => cases id <;> exact h
  | cons classId bases ih =>
    cases id with
    | none => exact h
    | some id =>
      obtain ⟨portion, hportion, hclass, hrest⟩ := h
      exact ⟨portion, Sound.portion?_addPortion hportion new, hclass, ih hrest⟩

theorem isPortions_addPortion {base : Option InstanceId} {classId : ClassId} {bases : List ClassId}
    (h : s.IsPortions base bases) :
    (s.addPortion { classId, base }).2.IsPortions
      (some (s.addPortion { classId, base }).1) (classId :: bases) := by
  refine ⟨{ classId, base }, ?_, rfl, h.addPortion _⟩
  rw [portion?, Store.addPortion, Array.getElem?_push, if_pos rfl]

/-- A portion is put before those of the base class. -/
theorem Sound.addPortionFor (h : s.Sound record) {base : Option InstanceId} {classId : ClassId}
    {bases : List ClassId} (hchain : s.IsChain (classId :: bases))
    (hportions : s.IsPortions base bases) :
    (s.addPortion { classId, base }).2.Sound record := by
  obtain ⟨object, hobject, hbase, -⟩ := hchain
  refine h.addPortion ⟨object, hobject, ?_⟩
  rw [hbase]
  cases base with
  | none =>
    cases bases with
    | nil => exact .none
    | cons => exact hportions.elim
  | some base =>
    cases bases with
    | nil => exact hportions.elim
    | cons =>
      obtain ⟨portion, hportion, hclass, -⟩ := hportions
      exact .some ⟨(Array.getElem?_eq_some_iff.mp hportion).1, portion, hportion, hclass⟩

theorem Sound.buildPortions (h : s.Sound record) {cs : List ClassId} (hchain : s.IsChain cs) :
    (s.buildPortions cs).2.Sound record ∧ s.Grows none (s.buildPortions cs).2 ∧
      (s.buildPortions cs).2.classes = s.classes ∧
      (s.buildPortions cs).2.IsPortions (s.buildPortions cs).1 cs := by
  induction cs with
  | nil => exact ⟨h, .refl s, rfl, trivial⟩
  | cons classId bases ih =>
    obtain ⟨hsound, hgrows, hclasses, hportions⟩ := ih hchain.choose_spec.2.2
    exact ⟨hsound.addPortionFor (hchain.of_classes hclasses) hportions,
      hgrows.trans (Sound.grows_addPortion ..), hclasses, isPortions_addPortion hportions⟩

theorem Sound.instantiate (h : s.Sound record) {id : ClassId} {object : ClassObject}
    (hobject : s.class? id = some object) :
    (s.instantiate id).2.Sound record ∧ s.Grows none (s.instantiate id).2 ∧
      (s.instantiate id).2.classes = s.classes ∧
      (s.instantiate id).2.IsPortions (some (s.instantiate id).1) (s.classChain id) := by
  have hchain : s.IsChain (s.classChain id) := h.isChain hobject (Nat.lt_succ_self _)
  have hcons : s.classChain id = id :: (s.classChain id).tail := by
    rw [classChain, classesFrom]
    rfl
  rw [hcons] at hchain
  obtain ⟨hsound, hgrows, hclasses, hportions⟩ := h.buildPortions hchain.choose_spec.2.2
  refine ⟨hsound.addPortionFor (hchain.of_classes hclasses) hportions,
    hgrows.trans (Sound.grows_addPortion ..), hclasses, ?_⟩
  rw [hcons]
  exact isPortions_addPortion hportions

/-! ## Initializers -/

theorem methods_of_initializer? {id portion : InstanceId} {c : Closure}
    (h : s.initializer? id = some (portion, c)) : Provides s portion "init" (.method c) := by
  obtain ⟨other, -, hfound⟩ := List.exists_of_findSome?_eq_some h
  obtain ⟨p, hp, hfound⟩ := Option.bind_eq_some_iff.mp hfound
  obtain ⟨found, hinit, heq⟩ := Option.map_eq_some_iff.mp hfound
  cases heq
  obtain ⟨object, hobject, hmethod⟩ := Option.bind_eq_some_iff.mp hinit
  exact .method hp hobject hmethod

theorem portion_of_initializer? {id portion : InstanceId} {c : Closure}
    (h : s.initializer? id = some (portion, c)) : ∃ p, s.portion? portion = some p := by
  cases methods_of_initializer? h with
  | method hportion => exact ⟨_, hportion⟩

/-- The initializer of an object is the first of the chain of its classes. -/
theorem IsPortions.initializer {fuel : Nat} {id portion : InstanceId} {cs : List ClassId}
    {c : Closure} (h : s.IsPortions (some id) cs)
    (hfound : (s.portionsFrom fuel id).findSome? (fun portion =>
      (s.portion? portion).bind fun p =>
        (s.initializerOf? p.classId).map fun closure => (portion, closure)) = some (portion, c)) :
    cs.findSome? s.initializerOf? = some c := by
  induction fuel generalizing id cs with
  | zero => cases hfound
  | succ fuel ih =>
    cases cs with
    | nil => exact h.elim
    | cons classId bases =>
      obtain ⟨p, hp, rfl, hrest⟩ := h
      rw [portionsFrom, List.findSome?_cons, hp, Option.bind_some] at hfound
      rw [List.findSome?_cons]
      cases hinit : s.initializerOf? p.classId with
      | some closure =>
        rw [hinit] at hfound
        cases hfound
        rfl
      | none =>
        rw [hinit, Option.map_none, Option.bind_some] at hfound
        cases hbase : p.base with
        | none =>
          rw [hbase] at hfound
          cases hfound
        | some base =>
          rw [hbase] at hfound hrest
          exact ih hrest hfound

theorem initializer?_instantiate (h : s.Sound record) {id : ClassId} {object : ClassObject}
    (hobject : s.class? id = some object) {portion : InstanceId} {c : Closure}
    (hfound : (s.instantiate id).2.initializer? (s.instantiate id).1 = some (portion, c)) :
    s.arity (.class id) = c.decl.params.length := by
  obtain ⟨-, -, hclasses, hportions⟩ := h.instantiate hobject
  have hinit := hportions.initializer hfound
  have hsame : (s.instantiate id).2.initializerOf? = s.initializerOf? := by
    funext id
    rw [initializerOf?, initializerOf?, class?, class?, hclasses]
  rw [hsame] at hinit
  rw [arity, hinit]
  rfl

end Store

end LoxLang
