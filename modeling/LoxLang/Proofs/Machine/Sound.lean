import LoxLang.Proofs.Binding.Fits
import LoxLang.Proofs.Machine.Frames

/-!
# Sound stores

A store is sound if everything in it that can be called lies where the static analysis saw it: the
frames behind each function, arrow and method mirror the ribs that were around its body
(`Store.Sound`). Each operation on stores keeps that.
-/

namespace LoxLang

/-! ## Sound objects -/

/-- A function lies inside the frames that mirror the ribs around its body. -/
structure Closure.Sound (record : Record) (s : Store) (c : Closure) : Prop where
  place : ∃ ribs, Mirrors s c.frame ribs ∧ FunctionFits record c.decl.params c.decl.body ribs
  receiver : c.isInitializer → (s.constant? c.frame "this").isSome

def ArrowClosure.Sound (record : Record) (s : Store) (c : ArrowClosure) : Prop :=
  ∃ ribs, Mirrors s c.frame ribs ∧ FunctionFits record c.decl.params c.decl.body ribs

/-- A method that is not bound yet: the frame of its object is still to come. -/
def Closure.MethodSound (record : Record) (s : Store) (decl : ClassDecl) (c : Closure) : Prop :=
  ∃ ribs, Mirrors s c.frame ribs ∧ MemberFits record decl c.decl ribs

structure ClassObject.Sound (record : Record) (s : Store) (id : ClassId) (object : ClassObject) :
    Prop where
  older : ∀ base ∈ object.base, base.index < id.index
  derived : object.base.isSome = object.decl.base.isSome
  methods : ∀ {name c}, object.methods.find? name = some c → c.MethodSound record s object.decl
  getters : ∀ {name c}, object.getters.find? name = some c →
    c.MethodSound record s object.decl ∧ c.decl.params = []

/-- A portion for a base class, older than the portion above it. -/
def Store.Underlies (s : Store) (id : InstanceId) (base : InstanceId) (classId : ClassId) : Prop :=
  base.index < id.index ∧ ∃ portion, s.portion? base = some portion ∧ portion.classId = classId

/-- A portion has a base portion just if its class has a base class, to which it belongs. -/
def Portion.Sound (s : Store) (id : InstanceId) (portion : Portion) : Prop :=
  ∃ object, s.class? portion.classId = some object ∧
    Option.Rel (s.Underlies id) portion.base object.base

structure Store.Sound (record : Record) (s : Store) : Prop where
  frames : ∀ {id frame}, s.frame? id = some frame → frame.WellFormed id
  functions : ∀ {id c}, s.function? id = some c → c.Sound record s
  arrows : ∀ {id c}, s.arrow? id = some c → c.Sound record s
  classes : ∀ {id object}, s.class? id = some object → object.Sound record s id
  portions : ∀ {id portion}, s.portion? id = some portion → portion.Sound s id

section Mono

variable {record : Record} {s t : Store} {free : Option FrameId} {decl : ClassDecl} {id : ClassId}

theorem Closure.Sound.mono {c : Closure} (h : c.Sound record s) (hgrows : s.Grows free t) :
    c.Sound record t where
  place := let ⟨ribs, hm, hfits⟩ := h.place; ⟨ribs, hm.mono hgrows, hfits⟩
  receiver hinit := by
    obtain ⟨isConst, hthis⟩ := Option.isSome_iff_exists.mp (h.receiver hinit)
    rw [hgrows.constant?_some hthis]
    rfl

theorem ArrowClosure.Sound.mono {c : ArrowClosure} (h : c.Sound record s) (hgrows : s.Grows free t) :
    c.Sound record t :=
  let ⟨ribs, hm, hfits⟩ := h
  ⟨ribs, hm.mono hgrows, hfits⟩

theorem Closure.MethodSound.mono {c : Closure} (h : c.MethodSound record s decl)
    (hgrows : s.Grows free t) : c.MethodSound record t decl :=
  let ⟨ribs, hm, hfits⟩ := h
  ⟨ribs, hm.mono hgrows, hfits⟩

theorem ClassObject.Sound.mono {object : ClassObject} (h : object.Sound record s id)
    (hgrows : s.Grows free t) : object.Sound record t id where
  older := h.older
  derived := h.derived
  methods hc := (h.methods hc).mono hgrows
  getters hc := ⟨(h.getters hc).1.mono hgrows, (h.getters hc).2⟩

/-- Portions stay with their classes. -/
theorem Portion.Sound.mono {portion : Portion} {id : InstanceId} (h : portion.Sound s id)
    (hclasses : ∀ {id object}, s.class? id = some object →
      ∃ after, t.class? id = some after ∧ after.base = object.base)
    (hportions : ∀ {id portion}, s.portion? id = some portion →
      ∃ after, t.portion? id = some after ∧ after.classId = portion.classId) :
    portion.Sound t id := by
  obtain ⟨object, hobject, hbase⟩ := h
  obtain ⟨after, hafter, hsame⟩ := hclasses hobject
  refine ⟨after, hafter, hsame ▸ ?_⟩
  generalize portion.base = base, object.base = baseClass at hbase
  cases hbase with
  | none => exact .none
  | some hunderlies =>
    obtain ⟨holder, p, hp, hclass⟩ := hunderlies
    obtain ⟨q, hq, hclass'⟩ := hportions hp
    exact .some ⟨holder, q, hq, hclass'.trans hclass⟩

/-- More programs on record. -/
theorem Store.Sound.widen {record' : Record} (h : s.Sound record)
    (hsettings : record'.settings = record.settings)
    (hvisited : ∀ v, record.visited v → record'.visited v) : s.Sound record' where
  frames := h.frames
  functions hc :=
    let ⟨⟨ribs, hm, hfits⟩, hreceiver⟩ := h.functions hc
    ⟨⟨ribs, hm, hfits.widen hsettings hvisited⟩, hreceiver⟩
  arrows hc :=
    let ⟨ribs, hm, hfits⟩ := h.arrows hc
    ⟨ribs, hm, hfits.widen hsettings hvisited⟩
  classes hobject :=
    let hsound := h.classes hobject
    { older := hsound.older
      derived := hsound.derived
      methods := fun hc =>
        let ⟨ribs, hm, hfits⟩ := hsound.methods hc
        ⟨ribs, hm, hfits.widen hsettings hvisited⟩
      getters := fun hc =>
        let ⟨⟨ribs, hm, hfits⟩, hbare⟩ := hsound.getters hc
        ⟨⟨ribs, hm, hfits.widen hsettings hvisited⟩, hbare⟩ }
  portions := h.portions

end Mono

/-! ## Operations on frames -/

theorem Frame.WellFormed.grow {frame after : Frame} {id : FrameId} (h : frame.WellFormed id)
    (hgrows : frame.Grows after) (hnew : ∀ name, (after.constant? name).isSome →
      (frame.constant? name).isSome ∨ frame.kind.Declares name) : after.WellFormed id where
  older outer houter := h.older outer (hgrows.outer ▸ houter)
  declared name hname := hgrows.kind ▸ (hnew name hname).elim (h.declared name) fun h => h
  receiver decl name hkind hname := by
    rw [hgrows.kind] at hkind hname
    obtain ⟨c, hc⟩ := Option.isSome_iff_exists.mp (h.receiver decl name hkind hname)
    rw [hgrows.kept hc]
    rfl

namespace Store.Sound

variable {record : Record} {s t : Store} {free : Option FrameId}

/-- Only frames change. -/
theorem of_frames (h : s.Sound record) (hgrows : s.Grows free t)
    (hframes : ∀ {id frame}, t.frame? id = some frame → frame.WellFormed id)
    (hfunctions : t.functions = s.functions) (harrows : t.arrows = s.arrows)
    (hclasses : t.classes = s.classes) (hinstances : t.instances = s.instances) :
    t.Sound record where
  frames := hframes
  functions hc := (h.functions (by rwa [function?, hfunctions] at hc)).mono hgrows
  arrows hc := (h.arrows (by rwa [arrow?, harrows] at hc)).mono hgrows
  classes hc := (h.classes (by rwa [class?, hclasses] at hc)).mono hgrows
  portions {id portion} hp := by
    have hold : s.portion? id = some portion := by rwa [portion?, hinstances] at hp
    exact (h.portions hold).mono (fun ho => ⟨_, by rwa [class?, hclasses], rfl⟩)
      fun hq => ⟨_, by rwa [portion?, hinstances], rfl⟩

theorem addFrame (h : s.Sound record) {frame : Frame}
    (hframe : frame.WellFormed (s.addFrame frame).1) : (s.addFrame frame).2.Sound record := by
  refine h.of_frames (grows_addFrame s frame) (fun {id f} hf => ?_) rfl rfl rfl rfl
  rw [frame?_addFrame] at hf
  split at hf
  · next heq =>
    cases hf
    exact heq ▸ hframe
  · exact h.frames hf

/-- The scope has to declare the name that is bound. -/
theorem declare (h : s.Sound record) {id : FrameId} {name : String}
    (hnew : s.constant? id name = none)
    (hdeclares : ∀ {frame}, s.frame? id = some frame → frame.kind.Declares name)
    (value : Option Value) (isConst : Bool) : (s.declare id name value isConst).Sound record := by
  refine h.of_frames (grows_declare hnew value isConst) (fun {other f} hf => ?_) rfl rfl rfl rfl
  rw [frame?_declare] at hf
  split at hf
  · next heq =>
    subst heq
    obtain ⟨frame, hframe, rfl⟩ := Option.map_eq_some_iff.mp hf
    rw [constant?, hframe] at hnew
    refine (h.frames hframe).grow (grows_insert_frame hnew value isConst) fun other hother => ?_
    rw [constant?_declare_frame] at hother
    split at hother
    · next heq => exact .inr (heq ▸ hdeclares hframe)
    · exact .inl hother
  · exact h.frames hf

theorem store (h : s.Sound record) {id : FrameId} {name : String}
    (hname : s.constant? id name ≠ some true) (value : Value) :
    (s.store id name value).Sound record := by
  refine h.of_frames (grows_store hname value) (fun {other f} hf => ?_) rfl rfl rfl rfl
  rw [frame?_store] at hf
  split at hf
  · next heq =>
    subst heq
    obtain ⟨frame, hframe, rfl⟩ := Option.map_eq_some_iff.mp hf
    rw [constant?, hframe, Option.bind_some] at hname
    refine (h.frames hframe).grow (grows_modify_frame hname value) fun other hother => ?_
    rw [constant?_store_frame] at hother
    exact .inl hother
  · exact h.frames hf

/-! ## Operations on objects -/

theorem addFunction (h : s.Sound record) {c : Closure} (hc : c.Sound record s) :
    (s.addFunction c).2.Sound record := by
  have hgrows : Grows none s (s.addFunction c).2 := grows_addFunction s c
  refine ⟨h.frames, fun {id d} hd => ?_, fun hd => (h.arrows hd).mono hgrows,
    fun hd => (h.classes hd).mono hgrows, h.portions⟩
  simp only [Store.addFunction, function?, Array.getElem?_push] at hd
  split at hd
  · cases hd
    exact hc.mono hgrows
  · exact (h.functions hd).mono hgrows

theorem addArrow (h : s.Sound record) {c : ArrowClosure} (hc : c.Sound record s) :
    (s.addArrow c).2.Sound record := by
  have hgrows : Grows none s (s.addArrow c).2 := .of_instances rfl id rfl
  refine ⟨h.frames, fun hd => (h.functions hd).mono hgrows, fun {id d} hd => ?_,
    fun hd => (h.classes hd).mono hgrows, h.portions⟩
  simp only [Store.addArrow, arrow?, Array.getElem?_push] at hd
  split at hd
  · cases hd
    exact hc.mono hgrows
  · exact (h.arrows hd).mono hgrows

theorem class?_addClass (s : Store) (object : ClassObject) (id : ClassId) :
    (s.addClass object).2.class? id =
      if id = (s.addClass object).1 then some object else s.class? id := by
  obtain ⟨index⟩ := id
  simp only [Store.addClass, class?, Array.getElem?_push, ClassId.mk.injEq]

theorem addClass (h : s.Sound record) {object : ClassObject}
    (hobject : object.Sound record s (s.addClass object).1) :
    (s.addClass object).2.Sound record := by
  have hgrows : Grows none s (s.addClass object).2 := .of_instances rfl id rfl
  refine ⟨h.frames, fun hd => (h.functions hd).mono hgrows, fun hd => (h.arrows hd).mono hgrows,
    fun {id o} ho => ?_, fun {id p} hp => ?_⟩
  · rw [class?_addClass] at ho
    split at ho
    · next heq =>
      cases ho
      exact heq ▸ hobject.mono hgrows
    · exact (h.classes ho).mono hgrows
  · have hold : s.portion? id = some p := hp
    refine (h.portions hold).mono (fun {other o} ho => ⟨o, ?_, rfl⟩) fun hq => ⟨_, hq, rfl⟩
    rw [class?_addClass, if_neg, ho]
    rintro rfl
    simp [Store.addClass, class?] at ho

theorem portion?_addPortion {id : InstanceId} {portion : Portion} (h : s.portion? id = some portion)
    (new : Portion) : (s.addPortion new).2.portion? id = some portion := by
  exact getElem?_push_of_some h new

theorem grows_addPortion (s : Store) (new : Portion) : Grows none s (s.addPortion new).2 :=
  .of_frames rfl id fun hp => ⟨_, portion?_addPortion hp new, rfl, rfl⟩

theorem addPortion (h : s.Sound record) {portion : Portion}
    (hportion : portion.Sound s (s.addPortion portion).1) :
    (s.addPortion portion).2.Sound record := by
  have hgrows : Grows none s (s.addPortion portion).2 := grows_addPortion s portion
  have hmono {p : Portion} {id : InstanceId} (hp : p.Sound s id) :
      p.Sound (s.addPortion portion).2 id :=
    hp.mono (fun ho => ⟨_, ho, rfl⟩) fun hq => ⟨_, portion?_addPortion hq portion, rfl⟩
  refine ⟨h.frames, fun hd => (h.functions hd).mono hgrows, fun hd => (h.arrows hd).mono hgrows,
    fun hd => (h.classes hd).mono hgrows, fun {id p} hp => ?_⟩
  obtain ⟨index⟩ := id
  simp only [Store.addPortion, portion?, Array.getElem?_push] at hp
  split at hp
  · next heq =>
    cases hp
    exact heq ▸ hmono hportion
  · have hold : s.portion? ⟨index⟩ = some p := hp
    exact hmono (h.portions hold)

theorem portion?_setInstanceField (s : Store) (id : InstanceId) (name : String) (value : Value)
    (other : InstanceId) : (s.setInstanceField id name value).portion? other =
      if id = other then (s.portion? other).map fun portion =>
        { portion with fields := portion.fields.insert name value }
      else s.portion? other := by
  obtain ⟨index⟩ := id
  obtain ⟨otherIndex⟩ := other
  simp only [Store.setInstanceField, portion?, Array.getElem?_modify, InstanceId.mk.injEq]

theorem grows_setInstanceField (s : Store) (id : InstanceId) (name : String) (value : Value) :
    Grows none s (s.setInstanceField id name value) :=
  .of_frames rfl (fun hc => hc) fun {other p} hp => by
    rw [portion?_setInstanceField, hp]
    split
    · exact ⟨_, rfl, rfl, rfl⟩
    · exact ⟨_, rfl, rfl, rfl⟩

theorem setInstanceField (h : s.Sound record) (id : InstanceId) (name : String) (value : Value) :
    (s.setInstanceField id name value).Sound record := by
  have hgrows : Grows none s (s.setInstanceField id name value) := grows_setInstanceField ..
  have hmono {p : Portion} {other : InstanceId} (hp : p.Sound s other) :
      p.Sound (s.setInstanceField id name value) other := by
    refine hp.mono (fun ho => ⟨_, ho, rfl⟩) fun {q old} hq => ?_
    rw [portion?_setInstanceField, hq]
    split
    · exact ⟨_, rfl, rfl⟩
    · exact ⟨_, rfl, rfl⟩
  refine ⟨h.frames, fun hd => (h.functions hd).mono hgrows, fun hd => (h.arrows hd).mono hgrows,
    fun hd => (h.classes hd).mono hgrows, fun {other p} hp => ?_⟩
  rw [portion?_setInstanceField] at hp
  split at hp
  · obtain ⟨old, hold, rfl⟩ := Option.map_eq_some_iff.mp hp
    have hsound := hmono (h.portions hold)
    exact hsound
  · exact hmono (h.portions hp)

theorem setClassField (h : s.Sound record) (id : ClassId) (name : String) (value : Value) :
    (s.setClassField id name value).Sound record := by
  have hgrows : Grows none s (s.setClassField id name value) :=
    .of_instances rfl (fun hc => hc) rfl
  have hclass : ∀ other, (s.setClassField id name value).class? other =
      if id.index = other.index then (s.class? other).map fun object =>
        { object with fields := object.fields.insert name value }
      else s.class? other := fun other => Array.getElem?_modify
  refine ⟨h.frames, fun hd => (h.functions hd).mono hgrows, fun hd => (h.arrows hd).mono hgrows,
    fun {other o} ho => ?_, fun {other p} hp => ?_⟩
  · rw [hclass] at ho
    split at ho
    · obtain ⟨old, hold, rfl⟩ := Option.map_eq_some_iff.mp ho
      have hsound := (h.classes hold).mono hgrows
      exact ⟨hsound.older, hsound.derived, hsound.methods, hsound.getters⟩
    · exact (h.classes ho).mono hgrows
  · have hold : s.portion? other = some p := hp
    refine (h.portions hold).mono (fun {c o} ho => ?_) fun hq => ⟨_, hq, rfl⟩
    rw [hclass, ho]
    split
    · exact ⟨_, rfl, rfl⟩
    · exact ⟨o, rfl, rfl⟩

end Store.Sound

end LoxLang
