import LoxLang.Proofs.Machine.Declaring
import LoxLang.Proofs.Machine.Inheritance

/-!
# Arguments and parameters

The frame of a call has one entry for each parameter, in their order, with the argument at its place
(`supplies_parameterFrame`): the parameters have different names, and there are as many arguments.
The initializer that runs when an object is made is the nearest one in the chain of its class
(`Store.InitializedBy`), which is the one whose parameters the class counts as its own. It runs once
and on the portion of its class (`Store.Sound.invoke_class`); without one nothing runs
(`Store.Sound.invoke_bare_class`).
-/

namespace LoxLang

/-! ## The frame of a call -/

/-- A frame with one entry for each parameter, in their order, and the argument for it in the
entry. -/
structure Frame.Supplies (frame : Frame) (params : List Token) (args : List Value) : Prop where
  length : args.length = params.length
  distinct : (params.map Token.lexeme).Nodup
  names : frame.names.keys = params.map Token.lexeme
  slots : frame.names.entries.map (·.2) = args.map fun arg => ⟨some arg, false⟩

section Parameters

variable {params : List Token} {args : List Value}

theorem entries_foldl_parameters (names : NameMap Slot)
    (hdistinct : (names.keys ++ params.map Token.lexeme).Nodup) :
    ((params.zip args).foldl (fun names (param, arg) => names.insert param.lexeme ⟨some arg, false⟩)
      names).entries =
        names.entries ++ (params.zip args).map fun (param, arg) =>
          (param.lexeme, ⟨some arg, false⟩) := by
  induction params generalizing args names with
  | nil => exact (List.append_nil _).symm
  | cons param params ih =>
    cases args with
    | nil => exact (List.append_nil _).symm
    | cons arg args =>
      have hnew : param.lexeme ∉ names.keys := fun hmem =>
        (List.nodup_append.mp hdistinct).2.2 _ hmem _ List.mem_cons_self rfl
      have hrest : ((names.insert param.lexeme ⟨some arg, false⟩).keys ++
          params.map Token.lexeme).Nodup := by
        rwa [NameMap.keys_insert_of_new _ hnew, List.append_assoc]
      rw [List.zip_cons_cons, List.foldl_cons, List.map_cons, ih _ hrest,
        NameMap.entries_insert_of_new _ hnew, List.append_assoc]
      rfl

theorem supplies_parameterFrame (hlength : args.length = params.length)
    (hdistinct : (params.map Token.lexeme).Nodup) (body : List Stmt) (outer : FrameId) :
    (Eval.parameterFrame params body args outer).Supplies params args := by
  have hentries : (Eval.parameterFrame params body args outer).names.entries =
      (params.zip args).map fun entry => (entry.1.lexeme, ⟨some entry.2, false⟩) :=
    entries_foldl_parameters .empty hdistinct
  refine ⟨hlength, hdistinct, ?_, ?_⟩
  · calc (Eval.parameterFrame params body args outer).names.keys
      _ = (params.zip args).map (Token.lexeme ∘ Prod.fst) := by
        rw [NameMap.keys, hentries, List.map_map]
        rfl
      _ = params.map Token.lexeme := by
        rw [← List.map_map, List.map_fst_zip (Nat.le_of_eq hlength.symm)]
  · calc (Eval.parameterFrame params body args outer).names.entries.map (·.2)
      _ = (params.zip args).map ((fun arg => ⟨some arg, false⟩) ∘ Prod.snd) := by
        rw [hentries, List.map_map]
        rfl
      _ = args.map fun arg => ⟨some arg, false⟩ := by
        rw [← List.map_map, List.map_snd_zip (Nat.le_of_eq hlength)]

end Parameters

/-! ## Initializers -/

namespace Store

/-- The nearest class of the chain of a class that has an initializer, and this. -/
def InitializedBy (s : Store) (id k : ClassId) (c : Closure) : Prop :=
  ∃ before behind, s.classChain id = before ++ k :: behind ∧
    (∀ j ∈ before, s.initializerOf? j = none) ∧ s.initializerOf? k = some c

/-- No class of the chain of a class has an initializer. -/
def Uninitialized (s : Store) (id : ClassId) : Prop :=
  ∀ k ∈ s.classChain id, s.initializerOf? k = none

variable {record : Record} {s t : Store} {id k : ClassId} {c : Closure} {object : ClassObject}

theorem InitializedBy.arity (h : s.InitializedBy id k c) :
    s.arity (.class id) = c.decl.params.length := by
  obtain ⟨before, behind, hchain, hbefore, hinit⟩ := h
  rw [Store.arity, List.findSome?_eq_some_iff.mpr ⟨before, k, behind, hchain, hinit, hbefore⟩]
  rfl

theorem Uninitialized.arity (h : s.Uninitialized id) : s.arity (.class id) = 0 := by
  rw [Store.arity, List.findSome?_eq_none_iff.mpr h]
  rfl

theorem classChain_of_classes (hclasses : t.classes = s.classes) (id : ClassId) :
    t.classChain id = s.classChain id := by
  rw [classChain, classChain]
  generalize id.index + 1 = fuel
  induction fuel generalizing id with
  | zero => rfl
  | succ fuel ih => rw [classesFrom_succ, classesFrom_succ, funext ih, class?, class?, hclasses]

theorem initializerOf?_of_classes (hclasses : t.classes = s.classes) (id : ClassId) :
    t.initializerOf? id = s.initializerOf? id := by
  rw [initializerOf?, initializerOf?, class?, class?, hclasses]

namespace Sound

/-- A new object has a portion for each class of the chain of its class. -/
theorem classes_instantiate (h : s.Sound record) (hobject : s.class? id = some object) :
    (s.instantiate id).2.classes = s.classes ∧
      ((s.instantiate id).2.portionChain (s.instantiate id).1).map
          (fun q => ((s.instantiate id).2.portion? q).map Portion.classId) =
        (s.classChain id).map some := by
  obtain ⟨hsound, -, hclasses, hportions⟩ := h.instantiate hobject
  refine ⟨hclasses, ?_⟩
  rw [← classChain_of_classes hclasses]
  have hchain := h.chained.classChain_eq hobject
  rw [hchain] at hportions
  obtain ⟨portion, hportion, rfl, -⟩ := hportions
  exact hsound.chained.classes_portionChain hportion

/-- The initializer of a new object is the nearest one of the chain of its class. -/
theorem initializer?_of_initializedBy (h : s.Sound record) (hobject : s.class? id = some object)
    (hinit : s.InitializedBy id k c) : ∃ portion ∈
      (s.instantiate id).2.portionChain (s.instantiate id).1,
      ((s.instantiate id).2.portion? portion).map Portion.classId = some k ∧
        (s.instantiate id).2.initializer? (s.instantiate id).1 = some (portion, c) := by
  obtain ⟨hclasses, hportions⟩ := h.classes_instantiate hobject
  have hown := initializerOf?_of_classes hclasses
  obtain ⟨before, behind, hchain, hbefore, hinit⟩ := hinit
  rw [hchain, List.map_append, List.map_cons] at hportions
  obtain ⟨front, rest, hsplit, hfront, hrest⟩ := List.map_eq_append_iff.mp hportions
  obtain ⟨portion, rear, rfl, hclass, -⟩ := List.map_eq_cons_iff.mp hrest
  refine ⟨portion, by rw [hsplit]; exact List.mem_append_right _ List.mem_cons_self, hclass, ?_⟩
  rw [initializer?, List.findSome?_eq_some_iff]
  refine ⟨front, portion, rear, hsplit, ?_, fun p hp => ?_⟩
  · obtain ⟨own, hp, rfl⟩ := Option.map_eq_some_iff.mp hclass
    rw [hp, Option.bind_some, hown, hinit]
    rfl
  · obtain ⟨j, hj, hpClass⟩ := List.mem_map.mp (hfront ▸ List.mem_map_of_mem hp)
    obtain ⟨own, hp, rfl⟩ := Option.map_eq_some_iff.mp hpClass.symm
    rw [hp, Option.bind_some, hown, hbefore _ hj]
    rfl

theorem initializer?_of_uninitialized (h : s.Sound record) (hobject : s.class? id = some object)
    (hnone : s.Uninitialized id) :
    (s.instantiate id).2.initializer? (s.instantiate id).1 = none := by
  obtain ⟨hclasses, hportions⟩ := h.classes_instantiate hobject
  rw [initializer?, List.findSome?_eq_none_iff]
  intro p hp
  obtain ⟨j, hj, hclass⟩ := List.mem_map.mp (hportions ▸ List.mem_map_of_mem hp)
  obtain ⟨own, hp, rfl⟩ := Option.map_eq_some_iff.mp hclass.symm
  rw [hp, Option.bind_some, initializerOf?_of_classes hclasses, hnone _ hj]
  rfl

end Sound

end Store

/-! ## Making an object -/

section Making

variable {record : Record} {m : Machine} {lookup : Lookup} {fuel : Nat} {id k : ClassId}
  {c : Closure} {object : ClassObject} {paren : Token} {args : List Value}

theorem Eval.checkCall_of_arity {callable : Callable} {given : Nat}
    (h : given = m.store.arity callable) :
    Eval.checkCall (.callable callable) paren given m = .ok callable m := by
  rw [Eval.checkCall, Eval.inspect_bind rfl, if_pos h]
  rfl

theorem Eval.discard_bind {α β : Type} (act : Eval α) (k : Unit → Eval β) :
    discard act >>= k = act >>= fun _ => k () := by
  rw [Functor.discard, Functor.mapConst]
  exact bind_assoc act _ k

/-- A new object is initialized when it is there as a whole. -/
theorem Eval.invoke_class_eq (hobject : m.store.class? id = some object)
    (hlength : args.length = m.store.arity (.class id)) :
    Eval.invoke (fuel + 1) lookup (.callable (.class id)) paren args m =
      (Eval.construct fuel lookup (m.store.instantiate id).1 args paren >>= fun _ =>
        return .instance (m.store.instantiate id).1)
          { m with store := (m.store.instantiate id).2 } := by
  rw [Eval.invoke, bind_of_ok (checkCall_of_arity hlength)]
  dsimp only
  rw [Eval.inspect_bind hobject]
  rfl

namespace Store.Sound

/-- To make an object of a class is to call the nearest initializer of its chain once, on the
portion of the new object that belongs to the class of this initializer. -/
theorem invoke_class (h : m.store.Sound record) (hobject : m.store.class? id = some object)
    (hinit : m.store.InitializedBy id k c) (hlength : args.length = c.decl.params.length) :
    ∃ portion ∈ (m.store.instantiate id).2.portionChain (m.store.instantiate id).1,
      ((m.store.instantiate id).2.portion? portion).map Portion.classId = some k ∧
      Eval.invoke (fuel + 2) lookup (.callable (.class id)) paren args m =
        (Eval.callFunction fuel lookup ((m.store.instantiate id).2.bind c portion).1 args paren >>=
          fun _ => return .instance (m.store.instantiate id).1)
            { m with store := ((m.store.instantiate id).2.bind c portion).2 } := by
  obtain ⟨portion, hmem, hclass, hfound⟩ := h.initializer?_of_initializedBy hobject hinit
  refine ⟨portion, hmem, hclass, ?_⟩
  rw [Eval.invoke_class_eq hobject (hlength.trans hinit.arity.symm), Eval.construct, bind_assoc,
    Eval.inspect_bind hfound]
  dsimp only
  rw [bind_assoc, bind_of_ok (show Eval.updateStore _ _ = .ok _ _ from rfl), Eval.discard_bind]

/-- An object of a class without an initializer is only made. -/
theorem invoke_bare_class (h : m.store.Sound record) (hobject : m.store.class? id = some object)
    (hnone : m.store.Uninitialized id) :
    Eval.invoke (fuel + 2) lookup (.callable (.class id)) paren [] m =
      .ok (.instance (m.store.instantiate id).1) { m with store := (m.store.instantiate id).2 } := by
  have hlength : ([] : List Value).length = m.store.arity (.class id) := hnone.arity.symm
  rw [Eval.invoke_class_eq hobject hlength, Eval.construct, bind_assoc,
    Eval.inspect_bind (h.initializer?_of_uninitialized hobject hnone)]
  rfl

end Store.Sound

end Making

end LoxLang
