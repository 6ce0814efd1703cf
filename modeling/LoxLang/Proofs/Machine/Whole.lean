import LoxLang.Proofs.Machine.Tidy

/-!
# Whole stores

A store is whole if its code is well formed, it has every class that is a value in it, and each
initializer that can be called has its object in the frame around it (`Store.Whole`). The frame of
an object never changes, and what has been made stays (`Store.Precedes`). Each operation leads from
a whole store to a later one that is whole (`Store.Becomes`).
-/

namespace LoxLang

/-- The scope in which methods find their object. -/
def ScopeKind.isReceiver : ScopeKind → Bool
  | .receiver _ => true
  | _ => false

/-- If the value is a class, then the store has it. -/
def Value.Known (s : Store) : Value → Prop
  | .callable (.class id) => (s.class? id).isSome
  | _ => True

/-- A frame holds an object for good. -/
def Store.Receives (s : Store) (id : FrameId) (object : InstanceId) : Prop :=
  ∃ frame, s.frame? id = some frame ∧ frame.kind.isReceiver ∧
    frame.names.find? "this" = some ⟨some (.instance object), true⟩

/-- A method or getter with the frame of an object around it. -/
structure Closure.Binds (s : Store) (object : InstanceId) (c bound : Closure) : Prop where
  decl : bound.decl = c.decl
  isInitializer : bound.isInitializer = c.isInitializer
  receives : s.Receives bound.frame object

/-- What is made of a member of a portion when it is found: methods and getters are bound to the
portion. -/
inductive Member.RealizedAs (s : Store) (portion : InstanceId) : Member → Attribute → Prop
  | value (value : Value) : RealizedAs s portion (.value value) (.value value)
  | getter {c bound : Closure} (h : c.Binds s portion bound) :
    RealizedAs s portion (.getter c) (.getter bound)
  | method {c bound : Closure} {function : FunctionId}
    (hfunction : s.function? function = some bound) (h : c.Binds s portion bound) :
    RealizedAs s portion (.method c) (.value (Store.functionValue function))

/-- An initializer has its object in the frame around it. -/
def Closure.Bound (s : Store) (c : Closure) : Prop :=
  c.isInitializer → ∃ object, s.Receives c.frame object

/-- A frame in which names can be declared. -/
def Store.Open (s : Store) (id : FrameId) : Prop :=
  ∃ frame, s.frame? id = some frame ∧ frame.kind.isReceiver = false

/-! ## Later stores -/

/-- What the one store has, the later one has too. -/
structure Store.Precedes (s t : Store) : Prop where
  frame : ∀ {id frame}, s.frame? id = some frame → ∃ after, t.frame? id = some after ∧
    after.kind = frame.kind ∧ (frame.kind.isReceiver → after = frame)
  function : ∀ {id c}, s.function? id = some c → t.function? id = some c
  known : ∀ {id}, (s.class? id).isSome → (t.class? id).isSome
  portion : ∀ {id portion}, s.portion? id = some portion → ∃ after, t.portion? id = some after ∧
    after.classId = portion.classId ∧ after.base = portion.base

section Later

variable {s t u : Store}

namespace Store.Precedes

theorem refl (s : Store) : s.Precedes s where
  frame hframe := ⟨_, hframe, rfl, fun _ => rfl⟩
  function hc := hc
  known hclass := hclass
  portion hportion := ⟨_, hportion, rfl, rfl⟩

theorem trans (h₁ : s.Precedes t) (h₂ : t.Precedes u) : s.Precedes u where
  frame hframe := by
    obtain ⟨after, hafter, hkind, hsame⟩ := h₁.frame hframe
    obtain ⟨final, hfinal, hkind', hsame'⟩ := h₂.frame hafter
    exact ⟨final, hfinal, hkind'.trans hkind, fun hreceiver =>
      (hsame' (hkind ▸ hreceiver)).trans (hsame hreceiver)⟩
  function hc := h₂.function (h₁.function hc)
  known hclass := h₂.known (h₁.known hclass)
  portion hportion := by
    obtain ⟨after, hafter, hclass, hbase⟩ := h₁.portion hportion
    obtain ⟨final, hfinal, hclass', hbase'⟩ := h₂.portion hafter
    exact ⟨final, hfinal, hclass'.trans hclass, hbase'.trans hbase⟩

/-- Only frames change. -/
theorem of_frames (hframe : ∀ {id frame}, s.frame? id = some frame → ∃ after,
      t.frame? id = some after ∧ after.kind = frame.kind ∧
        (frame.kind.isReceiver → after = frame))
    (hfunctions : t.functions = s.functions) (hclasses : t.classes = s.classes)
    (hinstances : t.instances = s.instances) : s.Precedes t where
  frame := hframe
  function hc := by rwa [Store.function?, hfunctions]
  known hclass := by rwa [Store.class?, hclasses]
  portion hportion := ⟨_, by rwa [Store.portion?, hinstances], rfl, rfl⟩

end Store.Precedes

theorem Value.Known.mono {value : Value} (h : value.Known s) (hle : s.Precedes t) :
    value.Known t := by
  unfold Known at h ⊢
  split
  · exact hle.known h
  · trivial

theorem Store.Receives.mono {id : FrameId} {object : InstanceId} (h : s.Receives id object)
    (hle : s.Precedes t) : t.Receives id object := by
  obtain ⟨frame, hframe, hreceiver, hthis⟩ := h
  obtain ⟨after, hafter, -, hsame⟩ := hle.frame hframe
  cases hsame hreceiver
  exact ⟨frame, hafter, hreceiver, hthis⟩

theorem Closure.Bound.mono {c : Closure} (h : c.Bound s) (hle : s.Precedes t) : c.Bound t :=
  fun hinit => (h hinit).imp fun _ hobject => hobject.mono hle

theorem Store.Open.mono {id : FrameId} (h : s.Open id) (hle : s.Precedes t) : t.Open id := by
  obtain ⟨frame, hframe, hopen⟩ := h
  obtain ⟨after, hafter, hkind, -⟩ := hle.frame hframe
  exact ⟨after, hafter, hkind ▸ hopen⟩

end Later

/-! ## Whole stores -/

/-- The values of a map are known. -/
def KnownFields (s : Store) (fields : NameMap Value) : Prop :=
  ∀ name value, fields.find? name = some value → value.Known s

structure Frame.Whole (s : Store) (frame : Frame) : Prop where
  values : ∀ {name slot value}, frame.names.find? name = some slot → slot.value = some value →
    value.Known s
  /-- Nothing can be written to the frame of an object. -/
  receiver : frame.kind.isReceiver →
    ∀ {name slot}, frame.names.find? name = some slot → slot.isConst
  /-- The frame of an object holds it, and its base portion if there is one. -/
  object : frame.kind.isReceiver → ∃ object portion, s.portion? object = some portion ∧
    frame.names = Store.receiverNames object portion.base

theorem Frame.Whole.bare {s : Store} {kind : ScopeKind} {outer : Option FrameId}
    (hkind : kind.isReceiver = false) : Frame.Whole s ⟨kind, .empty, outer⟩ where
  values hslot := by cases hslot
  receiver _ _ _ hslot := by cases hslot
  object hreceiver := (Bool.false_ne_true (hkind.symm.trans hreceiver)).elim

structure ClassObject.Whole (s : Store) (object : ClassObject) : Prop where
  fields : KnownFields s object.fields
  methods : ∀ {name c}, object.methods.find? name = some c → c.isInitializer = (name == "init")

/-- A portion knows its values and was made right after its base portion. -/
structure Portion.Whole (s : Store) (id : InstanceId) (portion : Portion) : Prop where
  fields : KnownFields s portion.fields
  base : ∀ base ∈ portion.base, base.index + 1 = id.index

structure Store.Whole (s : Store) : Prop where
  tidy : s.Tidy
  frames : ∀ {id frame}, s.frame? id = some frame → frame.Whole s
  functions : ∀ {id c}, s.function? id = some c → c.Bound s
  classes : ∀ {id object}, s.class? id = some object → object.Whole s
  portions : ∀ {id portion}, s.portion? id = some portion → portion.Whole s id

/-- A later store that is whole. -/
structure Store.Becomes (s t : Store) : Prop where
  precedes : s.Precedes t
  whole : t.Whole

section Operations

variable {s t u : Store}

theorem KnownFields.mono {fields : NameMap Value} (h : KnownFields s fields)
    (hle : s.Precedes t) : KnownFields t fields :=
  fun name value hfind => (h name value hfind).mono hle

theorem KnownFields.empty : KnownFields s .empty := by
  intro name value hfind
  cases hfind

theorem KnownFields.insert {fields : NameMap Value} (h : KnownFields s fields) (name : String)
    {value : Value} (hvalue : value.Known s) : KnownFields s (fields.insert name value) := by
  intro other found hfind
  rw [NameMap.find?_insert] at hfind
  split at hfind
  · cases hfind
    exact hvalue
  · exact h other found hfind

theorem Frame.Whole.mono {frame : Frame} (h : frame.Whole s) (hle : s.Precedes t) :
    frame.Whole t where
  values hslot hvalue := (h.values hslot hvalue).mono hle
  receiver := h.receiver
  object hreceiver := by
    obtain ⟨object, portion, hportion, hnames⟩ := h.object hreceiver
    obtain ⟨after, hafter, -, hbase⟩ := hle.portion hportion
    exact ⟨object, after, hafter, hbase ▸ hnames⟩

theorem ClassObject.Whole.mono {object : ClassObject} (h : object.Whole s) (hle : s.Precedes t) :
    object.Whole t where
  fields := h.fields.mono hle
  methods := h.methods

theorem Portion.Whole.mono {id : InstanceId} {portion : Portion} (h : portion.Whole s id)
    (hle : s.Precedes t) : portion.Whole t id :=
  ⟨h.fields.mono hle, h.base⟩

namespace Store

theorem Becomes.refl (h : s.Whole) : s.Becomes s := ⟨.refl s, h⟩

theorem Becomes.trans (h₁ : s.Becomes t) (h₂ : t.Becomes u) : s.Becomes u :=
  ⟨h₁.precedes.trans h₂.precedes, h₂.whole⟩

namespace Whole

/-- A later store is whole if all is that was not in the store before. -/
theorem becomes (h : s.Whole) (hle : s.Precedes t) (htidy : t.Tidy)
    (hframes : ∀ {id frame}, t.frame? id = some frame → s.frame? id = some frame ∨ frame.Whole t)
    (hfunctions : ∀ {id c}, t.function? id = some c → s.function? id = some c ∨ c.Bound t)
    (hclasses : ∀ {id object}, t.class? id = some object →
      s.class? id = some object ∨ object.Whole t)
    (hportions : ∀ {id portion}, t.portion? id = some portion →
      s.portion? id = some portion ∨ portion.Whole t id) : s.Becomes t where
  precedes := hle
  whole :=
    { tidy := htidy
      frames := fun hframe => (hframes hframe).elim (fun hold => (h.frames hold).mono hle) id
      functions := fun hc => (hfunctions hc).elim (fun hold => (h.functions hold).mono hle) id
      classes := fun ho => (hclasses ho).elim (fun hold => (h.classes hold).mono hle) id
      portions := fun hp => (hportions hp).elim (fun hold => (h.portions hold).mono hle) id }

/-! ### Frames -/

theorem addFrame (h : s.Whole) {frame : Frame} (hframe : frame.Whole s) :
    s.Becomes (s.addFrame frame).2 := by
  have hle : s.Precedes (s.addFrame frame).2 := by
    refine .of_frames (fun {id f} hf => ⟨f, ?_, rfl, fun _ => rfl⟩) rfl rfl rfl
    rw [frame?_addFrame, if_neg, hf]
    rintro rfl
    rw [frame?_addFrame_new] at hf
    cases hf
  refine h.becomes hle (h.tidy.of_eq rfl rfl rfl) (fun {id f} hf => ?_) .inl .inl .inl
  rw [frame?_addFrame] at hf
  split at hf
  · cases hf
    exact .inr (hframe.mono hle)
  · exact .inl hf

theorem frame?_modify (s : Store) (id : FrameId) (change : NameMap Slot → NameMap Slot)
    (other : FrameId) :
    frame? { s with frames := s.frames.modify id.index fun frame =>
        { frame with names := change frame.names } } other =
      if id = other then (s.frame? other).map fun frame =>
        { frame with names := change frame.names }
      else s.frame? other := by
  obtain ⟨index⟩ := id
  obtain ⟨otherIndex⟩ := other
  simp only [frame?, Array.getElem?_modify, FrameId.mk.injEq]

/-- Names are declared and written only in frames that hold no object. -/
theorem changeNames (h : s.Whole) {id : FrameId} (change : NameMap Slot → NameMap Slot)
    (hopen : ∀ {frame}, s.frame? id = some frame → frame.kind.isReceiver = false)
    (hvalues : ∀ {frame name slot value}, s.frame? id = some frame →
      (change frame.names).find? name = some slot → slot.value = some value → value.Known s) :
    s.Becomes { s with frames := s.frames.modify id.index fun frame =>
      { frame with names := change frame.names } } := by
  have hnever {frame : Frame} (hframe : s.frame? id = some frame)
      (hreceiver : frame.kind.isReceiver = true) : False :=
    Bool.false_ne_true ((hopen hframe).symm.trans hreceiver)
  have hle : s.Precedes { s with frames := s.frames.modify id.index fun frame =>
      { frame with names := change frame.names } } := by
    refine .of_frames (fun {other f} hf => ?_) rfl rfl rfl
    rw [frame?_modify]
    split
    · next heq =>
      subst heq
      rw [hf]
      exact ⟨_, rfl, rfl, fun hreceiver => (hnever hf hreceiver).elim⟩
    · exact ⟨f, hf, rfl, fun _ => rfl⟩
  refine h.becomes hle (h.tidy.of_eq rfl rfl rfl) (fun {other f} hf => ?_) .inl .inl .inl
  rw [frame?_modify] at hf
  split at hf
  · next heq =>
    subst heq
    obtain ⟨old, hold, rfl⟩ := Option.map_eq_some_iff.mp hf
    exact .inr ⟨fun hslot hvalue => (hvalues hold hslot hvalue).mono hle,
      fun hreceiver => (hnever hold hreceiver).elim,
      fun hreceiver => (hnever hold hreceiver).elim⟩
  · exact .inl hf

theorem declare (h : s.Whole) {id : FrameId} (hopen : s.Open id) (name : String)
    {value : Option Value} (hvalue : ∀ v ∈ value, v.Known s) (isConst : Bool) :
    s.Becomes (s.declare id name value isConst) := by
  obtain ⟨frame, hframe, hkind⟩ := hopen
  refine h.changeNames (fun names => names.insert name ⟨value, isConst⟩) (fun hother => ?_)
    fun {frame other slot v} hframe hslot hv => ?_
  · cases hframe.symm.trans hother
    exact hkind
  · rw [NameMap.find?_insert] at hslot
    split at hslot
    · cases hslot
      exact hvalue v hv
    · exact (h.frames hframe).values hslot hv

theorem store (h : s.Whole) {id : FrameId} (name : String) {value : Value}
    (hopen : ∀ {frame}, s.frame? id = some frame → frame.kind.isReceiver = false)
    (hvalue : value.Known s) : s.Becomes (s.store id name value) := by
  refine h.changeNames (fun names => names.modify name fun slot => { slot with value := some value })
    hopen fun {frame other slot v} hframe hslot hv => ?_
  rw [NameMap.find?_modify] at hslot
  split at hslot
  · obtain ⟨old, -, rfl⟩ := Option.map_eq_some_iff.mp hslot
    cases hv
    exact hvalue
  · exact (h.frames hframe).values hslot hv

/-! ### Functions, classes and objects -/

theorem addNative (h : s.Whole) (native : Native) : s.Becomes (s.addNative native).2 :=
  have hle : s.Precedes (s.addNative native).2 :=
    .of_frames (fun hframe => ⟨_, hframe, rfl, fun _ => rfl⟩) rfl rfl rfl
  h.becomes hle (h.tidy.of_eq rfl rfl rfl) .inl .inl .inl .inl

theorem addFunction (h : s.Whole) {c : Closure} (hdecl : c.decl.WellFormed) (hc : c.Bound s) :
    s.Becomes (s.addFunction c).2 := by
  have hle : s.Precedes (s.addFunction c).2 :=
    { frame := fun hframe => ⟨_, hframe, rfl, fun _ => rfl⟩
      function := fun hd => getElem?_push_of_some hd c
      known := fun hclass => hclass
      portion := fun hp => ⟨_, hp, rfl, rfl⟩ }
  refine h.becomes hle (h.tidy.addFunction hdecl) .inl (fun {id d} hd => ?_) .inl .inl
  simp only [Store.addFunction, function?, Array.getElem?_push] at hd
  split at hd
  · cases hd
    exact .inr (hc.mono hle)
  · exact .inl hd

theorem addArrow (h : s.Whole) {c : ArrowClosure} (hdecl : c.decl.WellFormed) :
    s.Becomes (s.addArrow c).2 := by
  have hle : s.Precedes (s.addArrow c).2 :=
    .of_frames (fun hframe => ⟨_, hframe, rfl, fun _ => rfl⟩) rfl rfl rfl
  exact h.becomes hle (h.tidy.addArrow hdecl) .inl .inl .inl .inl

theorem addClass (h : s.Whole) {object : ClassObject} (htidy : object.Tidy)
    (hobject : object.Whole s) : s.Becomes (s.addClass object).2 := by
  have hle : s.Precedes (s.addClass object).2 :=
    { frame := fun hframe => ⟨_, hframe, rfl, fun _ => rfl⟩
      function := fun hd => hd
      known := fun hclass => by
        obtain ⟨old, hold⟩ := Option.isSome_iff_exists.mp hclass
        exact Option.isSome_iff_exists.mpr ⟨old, getElem?_push_of_some hold object⟩
      portion := fun hp => ⟨_, hp, rfl, rfl⟩ }
  refine h.becomes hle (h.tidy.addClass htidy) .inl .inl (fun {id o} ho => ?_) .inl
  rw [Sound.class?_addClass] at ho
  split at ho
  · cases ho
    exact .inr (hobject.mono hle)
  · exact .inl ho

theorem addPortion (h : s.Whole) {portion : Portion}
    (hportion : portion.Whole s (s.addPortion portion).1) :
    s.Becomes (s.addPortion portion).2 := by
  have hle : s.Precedes (s.addPortion portion).2 :=
    { frame := fun hframe => ⟨_, hframe, rfl, fun _ => rfl⟩
      function := fun hd => hd
      known := fun hclass => hclass
      portion := fun hp => ⟨_, getElem?_push_of_some hp portion, rfl, rfl⟩ }
  refine h.becomes hle (h.tidy.of_eq rfl rfl rfl) .inl .inl .inl fun {id p} hp => ?_
  obtain ⟨index⟩ := id
  simp only [Store.addPortion, portion?, Array.getElem?_push] at hp
  split at hp
  · next heq =>
    cases hp
    exact .inr (heq ▸ hportion.mono hle)
  · exact .inl hp

theorem setInstanceField (h : s.Whole) (id : InstanceId) (name : String) {value : Value}
    (hvalue : value.Known s) : s.Becomes (s.setInstanceField id name value) := by
  have hle : s.Precedes (s.setInstanceField id name value) :=
    { frame := fun hframe => ⟨_, hframe, rfl, fun _ => rfl⟩
      function := fun hd => hd
      known := fun hclass => hclass
      portion := fun {other p} hp => by
        rw [Sound.portion?_setInstanceField, hp]
        split
        · exact ⟨_, rfl, rfl, rfl⟩
        · exact ⟨_, rfl, rfl, rfl⟩ }
  refine h.becomes hle (h.tidy.of_eq rfl rfl rfl) .inl .inl .inl fun {other p} hp => ?_
  rw [Sound.portion?_setInstanceField] at hp
  split at hp
  · obtain ⟨old, hold, rfl⟩ := Option.map_eq_some_iff.mp hp
    obtain ⟨hfields, hbase⟩ := h.portions hold
    exact .inr ⟨(hfields.insert name hvalue).mono hle, hbase⟩
  · exact .inl hp

theorem setClassField (h : s.Whole) (id : ClassId) (name : String) {value : Value}
    (hvalue : value.Known s) : s.Becomes (s.setClassField id name value) := by
  have hclass : ∀ other, (s.setClassField id name value).class? other =
      if id.index = other.index then (s.class? other).map fun object =>
        { object with fields := object.fields.insert name value }
      else s.class? other := fun other => Array.getElem?_modify
  have hle : s.Precedes (s.setClassField id name value) :=
    { frame := fun hframe => ⟨_, hframe, rfl, fun _ => rfl⟩
      function := fun hd => hd
      known := fun {other} hknown => by
        rw [hclass]
        split
        · rwa [Option.isSome_map]
        · exact hknown
      portion := fun hp => ⟨_, hp, rfl, rfl⟩ }
  refine h.becomes hle (h.tidy.setClassField _ _ _) .inl .inl (fun {other o} ho => ?_) .inl
  rw [hclass] at ho
  split at ho
  · obtain ⟨old, hold, rfl⟩ := Option.map_eq_some_iff.mp ho
    have hwhole := h.classes hold
    exact .inr ⟨(hwhole.fields.insert name hvalue).mono hle, hwhole.methods⟩
  · exact .inl ho

theorem addStatics (h : s.Whole) {decls : List FunctionDecl} (hdecls : WellFormedFunctions decls)
    (frame : FrameId) : s.Becomes (Eval.addStatics frame decls s).2 := by
  unfold Eval.addStatics
  generalize (NameMap.empty : NameMap FunctionId) = statics
  induction decls generalizing s statics with
  | nil => exact .refl h
  | cons decl decls ih =>
    have hplain : Closure.Bound s ⟨decl, frame, false⟩ := fun hinit =>
      (Bool.false_ne_true hinit).elim
    have hadded := h.addFunction (c := ⟨decl, frame, false⟩) hdecls.1 hplain
    exact hadded.trans (ih hadded.whole hdecls.2 _)

/-! ### Attributes -/

theorem find?_receiverNames_this (id : InstanceId) (base : Option InstanceId) :
    (receiverNames id base).find? "this" = some ⟨some (.instance id), true⟩ := by
  cases base with
  | none => exact NameMap.find?_insert_self ..
  | some base => exact NameMap.find?_insert_of_ne _ _ (by decide)

/-- The names around a method are constants for objects. -/
theorem exists_of_receiverNames {id : InstanceId} {base : Option InstanceId} {name : String}
    {slot : Slot} (h : (receiverNames id base).find? name = some slot) :
    ∃ object, slot = ⟨some (.instance object), true⟩ := by
  have hthis {slot : Slot}
      (h : (NameMap.empty.insert "this" ⟨some (.instance id), true⟩).find? name = some slot) :
      ∃ object, slot = ⟨some (.instance object), true⟩ := by
    rw [NameMap.find?_insert] at h
    split at h
    · exact ⟨id, (Option.some.inj h).symm⟩
    · cases h
  cases base with
  | none => exact hthis h
  | some base =>
    rw [receiverNames, NameMap.find?_insert] at h
    split at h
    · exact ⟨base, (Option.some.inj h).symm⟩
    · exact hthis h

/-- The frame of an object holds it. -/
theorem bind (h : s.Whole) (c : Closure) {id : InstanceId} {portion : Portion}
    (hportion : s.portion? id = some portion) : s.Becomes (s.bind c id).2 ∧
      (s.bind c id).2.Receives (s.bind c id).1.frame id := by
  let base := (s.portion? id).bind Portion.base
  have hbase : base = portion.base := by
    rw [show base = (s.portion? id).bind Portion.base from rfl, hportion, Option.bind_some]
  let kind : ScopeKind := .receiver ((s.classOf? id).elim default ClassObject.decl)
  let frame : Frame := ⟨kind, receiverNames id base, some c.frame⟩
  have hframe : frame.Whole s := by
    refine ⟨fun hslot hvalue => ?_, fun _ _ _ hslot => ?_,
      fun _ => ⟨id, portion, hportion, congrArg (receiverNames id) hbase⟩⟩
    · obtain ⟨object, rfl⟩ := exists_of_receiverNames hslot
      cases hvalue
      trivial
    · obtain ⟨object, rfl⟩ := exists_of_receiverNames hslot
      rfl
  exact ⟨h.addFrame hframe, frame, (frame?_addFrame s frame _).trans (if_pos rfl), rfl,
    find?_receiverNames_this id base⟩

end Whole

end Store

/-- The value is known, or the getter can be called. -/
def Attribute.Whole (s : Store) : Attribute → Prop
  | .value found => found.Known s
  | .getter bound => bound.decl.WellFormed ∧ bound.Bound s

namespace Store.Whole

/-- The attributes of a class are known. -/
theorem classAttribute (h : s.Whole) {id : ClassId} {object : ClassObject} {name : String}
    {value : Value} (hobject : s.class? id = some object)
    (hfound : ClassObject.attribute? object name = some value) : value.Known s := by
  unfold ClassObject.attribute? at hfound
  cases hfield : object.fields.find? name with
  | some found =>
    rw [hfield] at hfound
    cases hfound
    exact (h.classes hobject).fields name value hfield
  | none =>
    rw [hfield] at hfound
    obtain ⟨function, -, rfl⟩ := Option.map_eq_some_iff.mp hfound
    trivial

theorem classAttribute? (h : s.Whole) {id : ClassId} {name : String} {value : Value}
    (hfound : s.classAttribute? id name = some value) : value.Known s := by
  obtain ⟨other, -, hfound⟩ := List.exists_of_findSome?_eq_some hfound
  obtain ⟨object, hobject, hfound⟩ := Option.bind_eq_some_iff.mp hfound
  exact h.classAttribute hobject hfound

theorem portionMember? (h : s.Whole) {id : InstanceId} {name : String} {value : Value}
    (hfound : s.portionMember? id name = some (.value value)) : value.Known s := by
  obtain ⟨portion, hportion, hfound⟩ := Option.bind_eq_some_iff.mp hfound
  cases hfield : portion.fields.find? name with
  | some field =>
    rw [hfield] at hfound
    cases hfound
    exact (h.portions hportion).fields name value hfield
  | none =>
    rw [hfield] at hfound
    obtain ⟨object, hobject, hfound⟩ := Option.bind_eq_some_iff.mp hfound
    cases hgetter : object.getters.find? name with
    | some c =>
      rw [hgetter] at hfound
      cases hfound
    | none =>
      cases hmethod : object.methods.find? name with
      | some c =>
        rw [hgetter, hmethod] at hfound
        cases hfound
      | none =>
        rw [hgetter, hmethod] at hfound
        obtain ⟨found, hfound, heq⟩ := Option.map_eq_some_iff.mp hfound
        cases heq
        exact h.classAttribute hobject hfound

theorem member? (h : s.Whole) {id portion : InstanceId} {name : String} {value : Value}
    (hfound : s.member? id name = some (portion, .value value)) : value.Known s := by
  obtain ⟨other, -, hfound⟩ := List.exists_of_findSome?_eq_some hfound
  obtain ⟨found, hmember, heq⟩ := Option.map_eq_some_iff.mp hfound
  cases heq
  exact h.portionMember? hmember

theorem attribute? (h : s.Whole) (id : InstanceId) (name : String) :
    s.Becomes (s.attribute? id name).2 ∧
      ∀ found ∈ (s.attribute? id name).1, found.Whole (s.attribute? id name).2 := by
  unfold Store.attribute?
  cases hmember : s.member? id name with
  | none => exact ⟨.refl h, fun _ hfound => by cases hfound⟩
  | some found =>
    obtain ⟨portion, member⟩ := found
    have hprovides := provides_of_member? hmember
    cases member with
    | value value =>
      refine ⟨.refl h, fun found hfound => ?_⟩
      cases hfound
      exact h.member? hmember
    | getter c =>
      cases hprovides with
      | getter hportion hobject hc =>
        have hdecl := (h.tidy.classes hobject).getters hc
        obtain ⟨hbecomes, hreceives⟩ := h.bind c hportion
        refine ⟨hbecomes, fun found hfound => ?_⟩
        cases hfound
        exact ⟨hdecl, fun _ => ⟨portion, hreceives⟩⟩
    | method c =>
      cases hprovides with
      | method hportion hobject hc =>
        have hdecl := (h.tidy.classes hobject).methods hc
        obtain ⟨hbecomes, hreceives⟩ := h.bind c hportion
        have hadded := hbecomes.whole.addFunction (c := (s.bind c portion).1) hdecl
          fun _ => ⟨portion, hreceives⟩
        refine ⟨hbecomes.trans hadded, fun found hfound => ?_⟩
        cases hfound
        trivial

/-- What is found of a member is realized in the portion that has it. -/
theorem attribute?_realizes (h : s.Whole) {id portion : InstanceId} {name : String}
    {member : Member} (hmember : s.member? id name = some (portion, member)) : ∃ found,
    (s.attribute? id name).1 = some found ∧
      member.RealizedAs (s.attribute? id name).2 portion found := by
  have hprovides := provides_of_member? hmember
  unfold Store.attribute?
  rw [hmember]
  cases hprovides with
  | value value => exact ⟨_, rfl, .value value⟩
  | @getter _ _ c hportion => exact ⟨_, rfl, .getter ⟨rfl, rfl, (h.bind c hportion).2⟩⟩
  | @method _ _ c hportion =>
    have hfunction : (s.realize portion (.method c)).2.function?
        ((s.bind c portion).2.addFunction (s.bind c portion).1).1 = some (s.bind c portion).1 :=
      Array.getElem?_push_size
    exact ⟨_, rfl, .method hfunction ⟨rfl, rfl, (h.bind c hportion).2⟩⟩

/-- The method `init` of an object is found as an initializer of the portion that has it. -/
theorem attribute?_init (h : s.Whole) {id portion : InstanceId} {c : Closure}
    (hmember : s.member? id "init" = some (portion, .method c)) : ∃ function bound,
    (s.attribute? id "init").1 = some (.value (functionValue function)) ∧
      (s.attribute? id "init").2.function? function = some bound ∧ bound.isInitializer = true ∧
        (s.attribute? id "init").2.Receives bound.frame portion := by
  have hinit : c.isInitializer = true := by
    cases provides_of_member? hmember with
    | method hportion hobject hc => exact (h.classes hobject).methods hc
  obtain ⟨found, hfound, hrealized⟩ := h.attribute?_realizes hmember
  cases hrealized with
  | method hfunction hbinds =>
    exact ⟨_, _, hfound, hfunction, hbinds.isInitializer.trans hinit, hbinds.receives⟩

/-! ### Objects -/

/-- The portion made last is the newest. -/
theorem index_buildPortions (s : Store) (cs : List ClassId) :
    ∀ base ∈ (s.buildPortions cs).1, base.index + 1 = (s.buildPortions cs).2.instances.size := by
  cases cs with
  | nil => exact nofun
  | cons id bases =>
    rintro _ ⟨⟩
    simp [Store.buildPortions, Store.addPortion]

theorem buildPortions (h : s.Whole) (cs : List ClassId) : s.Becomes (s.buildPortions cs).2 := by
  induction cs with
  | nil => exact .refl h
  | cons id bases ih =>
    exact ih.trans (ih.whole.addPortion ⟨.empty, index_buildPortions s bases⟩)

/-- A new object is an instance of the class, and was not in the store before. -/
theorem instantiate (h : s.Whole) (id : ClassId) : s.Becomes (s.instantiate id).2 ∧
    s.portion? (s.instantiate id).1 = none ∧
      ∃ portion, (s.instantiate id).2.portion? (s.instantiate id).1 = some portion ∧
        portion.classId = id := by
  have hbases := h.buildPortions (s.classChain id).tail
  refine ⟨hbases.trans (hbases.whole.addPortion ⟨.empty, index_buildPortions s _⟩), ?_, ?_⟩
  · cases hold : s.portion? (s.instantiate id).1 with
    | none => rfl
    | some portion =>
      obtain ⟨after, hafter, -⟩ := hbases.precedes.portion hold
      have hnew : (s.buildPortions (s.classChain id).tail).2.portion? (s.instantiate id).1 = none :=
        Array.getElem?_size
      cases hnew.symm.trans hafter
  · exact ⟨_, Array.getElem?_push_size, rfl⟩

end Store.Whole

end Operations

end LoxLang
