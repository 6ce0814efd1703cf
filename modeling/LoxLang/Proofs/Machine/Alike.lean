import LoxLang.Machine.Object
import LoxLang.Machine.State
import LoxLang.Proofs.Syntax.Alike
import LoxLang.Proofs.Syntax.NamesAlike

/-!
# Stores alike

Two stores are alike if they hold the same values in the same places and the code in them differs
only in the numbers of its nodes and in its tokens (`Store.Alike`). They answer every question
alike, and everything that is done to both leaves them alike.
-/

namespace LoxLang

variable {l : Likeness} {α : Type}

/-! ## Arrays -/

/-- Arrays of one size whose elements correspond. -/
structure Same (R : α → α → Prop) (xs xs' : Array α) : Prop where
  size : xs.size = xs'.size
  each : ∀ i : Nat, Option.Rel R xs[i]? xs'[i]?

namespace Same

variable {R : α → α → Prop} {xs xs' : Array α}

theorem push (h : Same R xs xs') {x x' : α} (hx : R x x') : Same R (xs.push x) (xs'.push x') where
  size := by rw [Array.size_push, Array.size_push, h.size]
  each i := by
    rw [Array.getElem?_push, Array.getElem?_push, h.size]
    split
    · exact .some hx
    · exact h.each i

theorem modify (h : Same R xs xs') (i : Nat) {change change' : α → α}
    (hchange : ∀ x x', R x x' → R (change x) (change' x')) :
    Same R (xs.modify i change) (xs'.modify i change') where
  size := by rw [Array.size_modify, Array.size_modify, h.size]
  each j := by
    have heach := h.each j
    rw [Array.getElem?_modify, Array.getElem?_modify]
    split
    · generalize xs[j]? = x, xs'[j]? = x' at heach
      cases heach with
      | none => exact .none
      | some hx => exact .some (hchange _ _ hx)
    · exact heach

theorem imp {R' : α → α → Prop} (h : Same R xs xs') (himp : ∀ x x', R x x' → R' x x') :
    Same R' xs xs' where
  size := h.size
  each i := by
    have heach := h.each i
    generalize xs[i]? = x, xs'[i]? = x' at heach ⊢
    cases heach with
    | none => exact .none
    | some hx => exact .some (himp _ _ hx)

end Same

/-! ## Stores -/

/-- Frames with the same names; it does not matter what opened them. -/
structure Frame.Alike (frame frame' : Frame) : Prop where
  names : frame.names = frame'.names
  outer : frame.outer = frame'.outer

theorem Frame.Alike.withNames {frame frame' : Frame} (h : frame.Alike frame')
    (change : NameMap Slot → NameMap Slot) :
    Frame.Alike { frame with names := change frame.names }
      { frame' with names := change frame'.names } :=
  ⟨congrArg change h.names, h.outer⟩

structure Closure.Alike (l : Likeness) (c c' : Closure) : Prop where
  decl : FunctionDecl.Alike l c.decl c'.decl
  frame : c.frame = c'.frame
  isInitializer : c.isInitializer = c'.isInitializer

structure ArrowClosure.Alike (l : Likeness) (c c' : ArrowClosure) : Prop where
  decl : ArrowDecl.Alike l c.decl c'.decl
  frame : c.frame = c'.frame

structure ClassObject.Alike (l : Likeness) (o o' : ClassObject) : Prop where
  name : o.name = o'.name
  base : o.base = o'.base
  methods : o.methods.Alike (Closure.Alike l) o'.methods
  getters : o.getters.Alike (Closure.Alike l) o'.getters
  statics : o.statics = o'.statics
  fields : o.fields = o'.fields

theorem ClassObject.Alike.withFields {o o' : ClassObject} (h : o.Alike l o')
    (change : NameMap Value → NameMap Value) :
    ClassObject.Alike l { o with fields := change o.fields }
      { o' with fields := change o'.fields } :=
  ⟨h.name, h.base, h.methods, h.getters, h.statics, congrArg change h.fields⟩

inductive Member.Alike (l : Likeness) : Member → Member → Prop
  | value (value) : Member.Alike l (.value value) (.value value)
  | getter {c c'} (h : Closure.Alike l c c') : Member.Alike l (.getter c) (.getter c')
  | method {c c'} (h : Closure.Alike l c c') : Member.Alike l (.method c) (.method c')

inductive Attribute.Alike (l : Likeness) : Attribute → Attribute → Prop
  | value (value) : Attribute.Alike l (.value value) (.value value)
  | getter {c c'} (h : Closure.Alike l c c') : Attribute.Alike l (.getter c) (.getter c')

structure Store.Alike (l : Likeness) (s s' : Store) : Prop where
  frames : Same Frame.Alike s.frames s'.frames
  natives : s.natives = s'.natives
  functions : Same (Closure.Alike l) s.functions s'.functions
  arrows : Same (ArrowClosure.Alike l) s.arrows s'.arrows
  classes : Same (ClassObject.Alike l) s.classes s'.classes
  instances : s.instances = s'.instances

section Refines

variable {l' : Likeness} (hl : l.Refines l')

include hl

theorem Closure.Alike.imp {c c' : Closure} (h : c.Alike l c') : c.Alike l' c' :=
  { h with decl := h.decl.imp (hl.carries _) }

theorem ArrowClosure.Alike.imp {c c' : ArrowClosure} (h : c.Alike l c') : c.Alike l' c' :=
  { h with decl := h.decl.imp (hl.carries _) }

theorem ClassObject.Alike.imp {o o' : ClassObject} (h : o.Alike l o') : o.Alike l' o' :=
  { h with
    methods := NameMap.Alike.imp h.methods fun _ _ => Closure.Alike.imp hl
    getters := NameMap.Alike.imp h.getters fun _ _ => Closure.Alike.imp hl }

theorem Store.Alike.imp {s s' : Store} (h : s.Alike l s') : s.Alike l' s' :=
  { h with
    functions := h.functions.imp fun _ _ => Closure.Alike.imp hl
    arrows := h.arrows.imp fun _ _ => ArrowClosure.Alike.imp hl
    classes := h.classes.imp fun _ _ => ClassObject.Alike.imp hl }

end Refines

namespace Store.Alike

variable {s s' : Store}

/-! ### Adding to the store -/

theorem addFrame (h : s.Alike l s') {frame frame' : Frame} (hframe : frame.Alike frame') :
    (s.addFrame frame).1 = (s'.addFrame frame').1 ∧
      (s.addFrame frame).2.Alike l (s'.addFrame frame').2 :=
  ⟨congrArg FrameId.mk h.frames.size, { h with frames := h.frames.push hframe }⟩

theorem addFunction (h : s.Alike l s') {c c' : Closure} (hc : c.Alike l c') :
    (s.addFunction c).1 = (s'.addFunction c').1 ∧
      (s.addFunction c).2.Alike l (s'.addFunction c').2 :=
  ⟨congrArg FunctionId.mk h.functions.size, { h with functions := h.functions.push hc }⟩

theorem addArrow (h : s.Alike l s') {c c' : ArrowClosure} (hc : c.Alike l c') :
    (s.addArrow c).1 = (s'.addArrow c').1 ∧ (s.addArrow c).2.Alike l (s'.addArrow c').2 :=
  ⟨congrArg ArrowId.mk h.arrows.size, { h with arrows := h.arrows.push hc }⟩

theorem addClass (h : s.Alike l s') {o o' : ClassObject} (ho : o.Alike l o') :
    (s.addClass o).1 = (s'.addClass o').1 ∧ (s.addClass o).2.Alike l (s'.addClass o').2 :=
  ⟨congrArg ClassId.mk h.classes.size, { h with classes := h.classes.push ho }⟩

theorem addPortion (h : s.Alike l s') (portion : Portion) :
    (s.addPortion portion).1 = (s'.addPortion portion).1 ∧
      (s.addPortion portion).2.Alike l (s'.addPortion portion).2 :=
  ⟨congrArg (fun portions => InstanceId.mk portions.size) h.instances,
    { h with instances := congrArg (Array.push · portion) h.instances }⟩

theorem declare (h : s.Alike l s') (id : FrameId) (name : String) (value : Option Value)
    (isConst : Bool) :
    (s.declare id name value isConst).Alike l (s'.declare id name value isConst) :=
  { h with frames := h.frames.modify _ fun _ _ hframe =>
      hframe.withNames (NameMap.insert · name ⟨value, isConst⟩) }

theorem store (h : s.Alike l s') (id : FrameId) (name : String) (value : Value) :
    (s.store id name value).Alike l (s'.store id name value) :=
  { h with frames := h.frames.modify _ fun _ _ hframe =>
      hframe.withNames (NameMap.modify · name fun slot => { slot with value := some value }) }

theorem setInstanceField (h : s.Alike l s') (id : InstanceId) (name : String) (value : Value) :
    (s.setInstanceField id name value).Alike l (s'.setInstanceField id name value) :=
  { h with instances := by rw [Store.setInstanceField, Store.setInstanceField, h.instances] }

theorem setClassField (h : s.Alike l s') (id : ClassId) (name : String) (value : Value) :
    (s.setClassField id name value).Alike l (s'.setClassField id name value) :=
  { h with classes := h.classes.modify _ fun _ _ ho =>
      ho.withFields (NameMap.insert · name value) }

/-! ### Names -/

theorem slot?_eq (h : s.Alike l s') (id : FrameId) (name : String) :
    s.slot? id name = s'.slot? id name := by
  have hframe := h.frames.each id.index
  unfold Store.slot? Store.frame?
  generalize s.frames[id.index]? = frame, s'.frames[id.index]? = frame' at hframe
  cases hframe with
  | none => rfl
  | some hframe => rw [Option.bind_some, Option.bind_some, hframe.names]

theorem outer?_eq (h : s.Alike l s') (id : FrameId) : s.outer? id = s'.outer? id := by
  have hframe := h.frames.each id.index
  unfold Store.outer? Store.frame?
  generalize s.frames[id.index]? = frame, s'.frames[id.index]? = frame' at hframe
  cases hframe with
  | none => rfl
  | some hframe => exact hframe.outer

theorem ancestor?_eq (h : s.Alike l s') (id : FrameId) (distance : Nat) :
    s.ancestor? id distance = s'.ancestor? id distance := by
  induction distance generalizing id with
  | zero => rfl
  | succ distance ih => simp only [Store.ancestor?, h.outer?_eq, ih]

theorem owner?_eq (h : s.Alike l s') (id : FrameId) (name : String) :
    s.owner? id name = s'.owner? id name := by
  unfold Store.owner?
  generalize id.index + 1 = fuel
  induction fuel generalizing id with
  | zero => rfl
  | succ fuel ih =>
    have hfurther : s.ownerWithin name fuel = s'.ownerWithin name fuel := funext ih
    rw [Store.ownerWithin, Store.ownerWithin, Store.isDeclared, Store.isDeclared, h.slot?_eq,
      h.outer?_eq, hfurther]

theorem searchAt_eq (h : s.Alike l s') (id : FrameId) (distance : Nat) (name : Token) :
    s.searchAt id distance name = s'.searchAt id distance name := by
  simp only [Store.searchAt, h.ancestor?_eq, h.slot?_eq]

theorem search_eq (h : s.Alike l s') (id : FrameId) (name : Token) :
    s.search id name = s'.search id name := by
  simp only [Store.search, h.owner?_eq, h.slot?_eq]

/-! ### Chains -/

theorem class? (h : s.Alike l s') (id : ClassId) :
    Option.Rel (ClassObject.Alike l) (s.class? id) (s'.class? id) := h.classes.each id.index

theorem portion?_eq (h : s.Alike l s') (id : InstanceId) : s.portion? id = s'.portion? id := by
  rw [Store.portion?, Store.portion?, h.instances]

/-- What does not depend on the code of a class. -/
theorem class?_bind_eq (h : s.Alike l s') (id : ClassId) {f : ClassObject → Option α}
    (hf : ∀ o o', ClassObject.Alike l o o' → f o = f o') :
    (s.class? id).bind f = (s'.class? id).bind f := by
  have hobject := h.class? id
  generalize s.class? id = object, s'.class? id = object' at hobject
  cases hobject with
  | none => rfl
  | some ho => exact hf _ _ ho

theorem classChain_eq (h : s.Alike l s') (id : ClassId) : s.classChain id = s'.classChain id := by
  unfold Store.classChain
  generalize id.index + 1 = fuel
  induction fuel generalizing id with
  | zero => rfl
  | succ fuel ih =>
    simp only [Store.classesFrom, h.class?_bind_eq id fun _ _ ho => ho.base, ih]

theorem portionChain_eq (h : s.Alike l s') (id : InstanceId) :
    s.portionChain id = s'.portionChain id := by
  unfold Store.portionChain
  generalize id.index + 1 = fuel
  induction fuel generalizing id with
  | zero => rfl
  | succ fuel ih => simp only [Store.portionsFrom, h.portion?_eq, ih]

theorem buildPortions (h : s.Alike l s') (ids : List ClassId) :
    (s.buildPortions ids).1 = (s'.buildPortions ids).1 ∧
      (s.buildPortions ids).2.Alike l (s'.buildPortions ids).2 := by
  induction ids with
  | nil => exact ⟨rfl, h⟩
  | cons id bases ih =>
    obtain ⟨hbase, hstore⟩ := ih
    obtain ⟨hid, hadded⟩ := hstore.addPortion { classId := id, base := (s.buildPortions bases).1 }
    simp only [Store.buildPortions, ← hbase]
    exact ⟨congrArg some hid, hadded⟩

theorem instantiate (h : s.Alike l s') (id : ClassId) :
    (s.instantiate id).1 = (s'.instantiate id).1 ∧
      (s.instantiate id).2.Alike l (s'.instantiate id).2 := by
  obtain ⟨hbase, hstore⟩ := h.buildPortions (s.classChain id).tail
  simp only [Store.instantiate, ← h.classChain_eq, ← hbase]
  exact hstore.addPortion _

theorem className_eq (h : s.Alike l s') (id : ClassId) : s.className id = s'.className id := by
  have hobject := h.class? id
  unfold Store.className
  generalize s.class? id = object, s'.class? id = object' at hobject
  cases hobject with
  | none => rfl
  | some ho => exact ho.name

theorem classOf? (h : s.Alike l s') (id : InstanceId) :
    Option.Rel (ClassObject.Alike l) (s.classOf? id) (s'.classOf? id) := by
  rw [Store.classOf?, Store.classOf?, h.portion?_eq]
  cases s'.portion? id with
  | none => exact .none
  | some portion => exact h.class? portion.classId

theorem instanceClassName_eq (h : s.Alike l s') (id : InstanceId) :
    s.instanceClassName id = s'.instanceClassName id := by
  have hobject := h.classOf? id
  unfold Store.instanceClassName
  generalize s.classOf? id = object, s'.classOf? id = object' at hobject
  cases hobject with
  | none => rfl
  | some ho => exact ho.name

theorem asClass?_eq (h : s.Alike l s') (value : Value) : s.asClass? value = s'.asClass? value := by
  cases value with
  | callable c =>
    cases c with
    | «class» id =>
      have hobject := h.class? id
      rw [Store.asClass?, Store.asClass?]
      generalize s.class? id = object, s'.class? id = object' at hobject
      cases hobject <;> rfl
    | _ => rfl
  | _ => rfl

/-! ### Attributes -/

theorem classAttribute?_eq (h : s.Alike l s') (id : ClassId) (name : String) :
    s.classAttribute? id name = s'.classAttribute? id name := by
  unfold Store.classAttribute?
  rw [h.classChain_eq]
  refine congrArg (List.findSome? · _) (funext fun id => h.class?_bind_eq id fun o o' ho => ?_)
  rw [ClassObject.attribute?, ClassObject.attribute?, ho.fields, ho.statics]

theorem portionMember? (h : s.Alike l s') (id : InstanceId) (name : String) :
    Option.Rel (Member.Alike l) (s.portionMember? id name) (s'.portionMember? id name) := by
  unfold Store.portionMember?
  rw [h.portion?_eq]
  cases s'.portion? id with
  | none => exact .none
  | some portion =>
    rw [Option.bind_some, Option.bind_some]
    cases portion.fields.find? name with
    | some value => exact .some (.value value)
    | none =>
      have hobject := h.class? portion.classId
      generalize s.class? portion.classId = object, s'.class? portion.classId = object' at hobject
      cases hobject with
      | none => exact .none
      | @some o o' ho =>
        have hgetter := ho.getters.find? name
        have hmethod := ho.methods.find? name
        have hattribute :
            Store.ClassObject.attribute? o name = Store.ClassObject.attribute? o' name := by
          rw [ClassObject.attribute?, ClassObject.attribute?, ho.fields, ho.statics]
        rw [Option.bind_some, Option.bind_some, hattribute]
        generalize o.getters.find? name = getter, o'.getters.find? name = getter' at hgetter
        cases hgetter with
        | some hc => exact .some (.getter hc)
        | none =>
          generalize o.methods.find? name = method, o'.methods.find? name = method' at hmethod
          cases hmethod with
          | some hc => exact .some (.method hc)
          | none =>
            cases Store.ClassObject.attribute? o' name with
            | none => exact .none
            | some value => exact .some (.value value)

/-- The first of some things for which something is found. -/
theorem findSome? {β γ : Type} {R : γ → γ → Prop} {f f' : β → Option γ} (xs : List β)
    (hf : ∀ x, Option.Rel R (f x) (f' x)) : Option.Rel R (xs.findSome? f) (xs.findSome? f') := by
  induction xs with
  | nil => exact .none
  | cons x xs ih =>
    have hx := hf x
    rw [List.findSome?_cons, List.findSome?_cons]
    generalize f x = found, f' x = found' at hx
    cases hx with
    | none => exact ih
    | some hfound => exact .some hfound

/-- Things found in one portion of an object. -/
def InPortion (R : α → α → Prop) (found found' : InstanceId × α) : Prop :=
  found.1 = found'.1 ∧ R found.2 found'.2

theorem member? (h : s.Alike l s') (id : InstanceId) (name : String) :
    Option.Rel (InPortion (Member.Alike l)) (s.member? id name) (s'.member? id name) := by
  unfold Store.member?
  rw [h.portionChain_eq]
  refine findSome? _ fun portion => ?_
  have hmember := h.portionMember? portion name
  generalize s.portionMember? portion name = found,
    s'.portionMember? portion name = found' at hmember
  cases hmember with
  | none => exact .none
  | some hm => exact .some ⟨rfl, hm⟩

theorem bind (h : s.Alike l s') {c c' : Closure} (hc : c.Alike l c') (id : InstanceId) :
    (s.bind c id).1.Alike l (s'.bind c' id).1 ∧ (s.bind c id).2.Alike l (s'.bind c' id).2 := by
  have hframe : Frame.Alike
      ⟨.receiver ((s.classOf? id).elim default ClassObject.decl),
        receiverNames id ((s.portion? id).bind Portion.base), some c.frame⟩
      ⟨.receiver ((s'.classOf? id).elim default ClassObject.decl),
        receiverNames id ((s'.portion? id).bind Portion.base), some c'.frame⟩ :=
    ⟨by rw [h.portion?_eq], congrArg some hc.frame⟩
  have hadded := h.addFrame hframe
  exact ⟨⟨hc.decl, hadded.1, hc.isInitializer⟩, hadded.2⟩

theorem attribute? (h : s.Alike l s') (id : InstanceId) (name : String) :
    Option.Rel (Attribute.Alike l) (s.attribute? id name).1 (s'.attribute? id name).1 ∧
      (s.attribute? id name).2.Alike l (s'.attribute? id name).2 := by
  have hmember := h.member? id name
  unfold Store.attribute?
  generalize s.member? id name = found, s'.member? id name = found' at hmember
  cases hmember with
  | none => exact ⟨.none, h⟩
  | @some found found' hfound =>
    obtain ⟨portion, member⟩ := found
    obtain ⟨portion', member'⟩ := found'
    obtain ⟨rfl, hm⟩ := hfound
    cases hm with
    | value value => exact ⟨.some (.value value), h⟩
    | getter hc =>
      obtain ⟨hbound, hstore⟩ := h.bind hc portion
      exact ⟨.some (.getter hbound), hstore⟩
    | @method c c' hc =>
      obtain ⟨hbound, hstore⟩ := h.bind hc portion
      obtain ⟨hid, hadded⟩ := hstore.addFunction hbound
      simp only [Store.realize]
      rw [hid]
      exact ⟨.some (.value _), hadded⟩

theorem initializerOf? (h : s.Alike l s') (id : ClassId) :
    Option.Rel (Closure.Alike l) (s.initializerOf? id) (s'.initializerOf? id) := by
  have hobject := h.class? id
  unfold Store.initializerOf?
  generalize s.class? id = object, s'.class? id = object' at hobject
  cases hobject with
  | none => exact .none
  | some ho => exact ho.methods.find? "init"

theorem initializer? (h : s.Alike l s') (id : InstanceId) :
    Option.Rel (InPortion (Closure.Alike l)) (s.initializer? id) (s'.initializer? id) := by
  unfold Store.initializer?
  rw [h.portionChain_eq]
  refine findSome? _ fun portion => ?_
  rw [h.portion?_eq]
  cases s'.portion? portion with
  | none => exact .none
  | some p =>
    have hinit := h.initializerOf? p.classId
    rw [Option.bind_some, Option.bind_some]
    generalize s.initializerOf? p.classId = found, s'.initializerOf? p.classId = found' at hinit
    cases hinit with
    | none => exact .none
    | some hc => exact .some ⟨rfl, hc⟩

/-! ### Callables -/

theorem function? (h : s.Alike l s') (id : FunctionId) :
    Option.Rel (Closure.Alike l) (s.function? id) (s'.function? id) := h.functions.each id.index

theorem arrow? (h : s.Alike l s') (id : ArrowId) :
    Option.Rel (ArrowClosure.Alike l) (s.arrow? id) (s'.arrow? id) := h.arrows.each id.index

theorem native?_eq (h : s.Alike l s') (id : NativeId) : s.native? id = s'.native? id := by
  rw [Store.native?, Store.native?, h.natives]

theorem arity_eq (h : s.Alike l s') (c : Callable) : s.arity c = s'.arity c := by
  cases c with
  | native id => rw [Store.arity, Store.arity, h.native?_eq]
  | function id =>
    have hfound := h.function? id
    rw [Store.arity, Store.arity]
    generalize s.function? id = c, s'.function? id = c' at hfound
    cases hfound with
    | none => rfl
    | some hc => exact hc.decl.params.length_eq
  | arrow id =>
    have hfound := h.arrow? id
    rw [Store.arity, Store.arity]
    generalize s.arrow? id = c, s'.arrow? id = c' at hfound
    cases hfound with
    | none => rfl
    | some hc => exact hc.decl.params.length_eq
  | «class» id =>
    have hfound := findSome? (s'.classChain id) h.initializerOf?
    rw [Store.arity, Store.arity]
    rw [h.classChain_eq]
    generalize (s'.classChain id).findSome? s.initializerOf? = c,
      (s'.classChain id).findSome? s'.initializerOf? = c' at hfound
    cases hfound with
    | none => rfl
    | some hc => exact hc.decl.params.length_eq

theorem displayCallable_eq (h : s.Alike l s') (c : Callable) :
    s.displayCallable c = s'.displayCallable c := by
  unfold Store.displayCallable
  cases c with
  | native id =>
    dsimp only
    rw [h.native?_eq]
  | function id =>
    have hfound := h.function? id
    dsimp only
    generalize s.function? id = c, s'.function? id = c' at hfound
    cases hfound with
    | none => rfl
    | some hc =>
      rw [Option.elim_some, Option.elim_some, l.lexeme hc.decl.name]
  | arrow id => rfl
  | «class» id =>
    dsimp only
    rw [h.className_eq]

theorem display_eq (h : s.Alike l s') (value : Value) : s.display value = s'.display value := by
  unfold Store.display
  cases value with
  | callable c => exact h.displayCallable_eq c
  | «instance» id =>
    dsimp only
    rw [h.instanceClassName_eq]
  | _ => rfl

end Store.Alike

end LoxLang
