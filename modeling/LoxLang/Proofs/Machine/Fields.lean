import LoxLang.Proofs.Machine.Passing

/-!
# Fields of objects

Only an assignment to a field of an object changes what is in it: a call that does not come to such
an assignment (`Eval.Assigns`) leaves the field as it was (`keepingField`), and so does a program
none of whose statements comes to one.
-/

namespace LoxLang

/-- A call assigns to a field of an object, itself or in a call that it makes. -/
inductive Eval.Assigns (lookup : Lookup) (object : InstanceId) (field : String) :
    Nat → Eval.Task → Machine → Prop
  | here {fuel target name value m m₁ v m₂}
    (htarget : Eval.evaluate fuel lookup target m = .ok (.instance object) m₁)
    (hvalue : Eval.evaluate fuel lookup value m₁ = .ok v m₂) (hname : name.lexeme = field) :
    Assigns lookup object field (fuel + 1) (.evaluate (.set target name value)) m
  | inside {fuel task m task' m'} (hbegins : Eval.Begins lookup fuel task m task' m')
    (h : Assigns lookup object field fuel task' m') : Assigns lookup object field (fuel + 1) task m

/-- What is in a field of an object. -/
def Store.field? (s : Store) (object : InstanceId) (field : String) : Option Value :=
  (s.portion? object).bind fun portion => portion.fields.find? field

/-- An object that is in the one store has the same in a field in the other. -/
def Store.KeepsField (object : InstanceId) (field : String) (s t : Store) : Prop :=
  (s.portion? object).isSome →
    (t.portion? object).isSome ∧ t.field? object field = s.field? object field

namespace Store.KeepsField

variable {object : InstanceId} {field : String} {s t u : Store}

theorem refl (s : Store) : KeepsField object field s s := fun h => ⟨h, rfl⟩

theorem trans (h : KeepsField object field s t) (h' : KeepsField object field t u) :
    KeepsField object field s u := fun hs =>
  have ht := h hs
  have hu := h' ht.1
  ⟨hu.1, hu.2.trans ht.2⟩

theorem of_portion (h : ∀ {portion}, s.portion? object = some portion →
    t.portion? object = some portion) : KeepsField object field s t := fun hs => by
  obtain ⟨portion, hportion⟩ := Option.isSome_iff_exists.mp hs
  rw [field?, field?, h hportion, hportion]
  exact ⟨rfl, rfl⟩

theorem of_instances (h : t.instances = s.instances) : KeepsField object field s t :=
  of_portion fun hportion => by rwa [portion?, h]

theorem addPortion (s : Store) (portion : Portion) :
    KeepsField object field s (s.addPortion portion).2 :=
  of_portion fun hportion => Sound.portion?_addPortion hportion portion

theorem instantiate (s : Store) (id : ClassId) :
    KeepsField object field s (s.instantiate id).2 := by
  have hbuild (ids : List ClassId) : KeepsField object field s (s.buildPortions ids).2 := by
    induction ids with
    | nil => exact refl s
    | cons id bases ih => exact ih.trans (KeepsField.addPortion _ _)
  exact (hbuild _).trans (KeepsField.addPortion _ _)

theorem setInstanceField (s : Store) {id : InstanceId} {name : String}
    (h : ¬(id = object ∧ name = field)) (value : Value) :
    KeepsField object field s (s.setInstanceField id name value) := fun hs => by
  obtain ⟨portion, hportion⟩ := Option.isSome_iff_exists.mp hs
  rw [field?, field?, Sound.portion?_setInstanceField, hportion]
  by_cases hid : id = object
  · rw [if_pos hid, Option.map_some, Option.bind_some, Option.bind_some]
    exact ⟨rfl, NameMap.find?_insert_of_ne _ _ fun hname => h ⟨hid, hname⟩⟩
  · rw [if_neg hid]
    exact ⟨rfl, rfl⟩

theorem addStatics (frame : FrameId) (decls : List FunctionDecl) (s : Store) :
    KeepsField object field s (Eval.addStatics frame decls s).2 := by
  unfold Eval.addStatics
  generalize (NameMap.empty : NameMap FunctionId) = statics
  induction decls generalizing s statics with
  | nil => exact refl s
  | cons decl decls ih =>
    have hadded : KeepsField object field s (s.addFunction ⟨decl, frame, false⟩).2 :=
      of_instances rfl
    exact hadded.trans (ih _ _)

theorem attribute? (s : Store) (id : InstanceId) (name : String) :
    KeepsField object field s (s.attribute? id name).2 := by
  unfold Store.attribute?
  rcases s.member? id name with _ | ⟨portion, value | c | c⟩
  · exact refl s
  all_goals exact of_instances rfl

end Store.KeepsField

section Spares

variable {object : InstanceId} {field : String} {α β : Type} {act : Eval α} {k : α → Eval β}
  {m : Machine}

/-- A step that leaves a field of an object as it was. -/
abbrev Spares (object : InstanceId) (field : String) (act : Eval α) (m : Machine) : Prop :=
  Store.KeepsField object field m.store (act.leaves m).store

namespace Spares

/-- It does so however it ends. -/
theorem iff_ends : Spares object field act m ↔
    Ends (fun _ after => Store.KeepsField object field m.store after.store)
      (fun _ after => Store.KeepsField object field m.store after.store) (act m) :=
  (ends_iff_leaves (R := fun after => Store.KeepsField object field m.store after.store)).symm

theorem pure {a : α} : Spares object field (pure a) m := .refl _

theorem bind (h : Spares object field act m)
    (hk : ∀ a m₁, act m = .ok a m₁ → Spares object field (k a) m₁) :
    Spares object field (act >>= k) m :=
  iff_ends.mpr <| (iff_ends.mp h).bind fun a m₁ hrun hkeeps =>
    (iff_ends.mp (hk a m₁ hrun)).imp (fun _ _ => hkeeps.trans) fun _ _ => hkeeps.trans

theorem ok {a : α} {m₁ : Machine} (h : Spares object field act m) (hrun : act m = .ok a m₁) :
    Store.KeepsField object field m.store m₁.store := by
  rwa [Spares, leaves_of_ok hrun] at h

theorem andThen (h : Spares object field act m) (hk : ∀ a m₁, Spares object field (k a) m₁) :
    Spares object field (act >>= k) m := h.bind fun a m₁ _ => hk a m₁

theorem map {f : α → β} (h : Spares object field act m) : Spares object field (f <$> act) m := by
  rw [Spares, leaves_map]
  exact h

theorem discard (h : Spares object field act m) : Spares object field (discard act) m := by
  rw [Spares, leaves_discard]
  exact h

theorem ite {c : Prop} [Decidable c] {other : Eval α} (h : c → Spares object field act m)
    (h' : ¬c → Spares object field other m) :
    Spares object field (if c then act else other) m :=
  iteInduction (motive := fun act => Spares object field act m) h h'

theorem fail {cause : RunFault} {token : Token} :
    Spares object field (Eval.fail cause token : Eval α) m := .refl _

theorem get {k : Machine → Eval β} (h : Spares object field (k m) m) :
    Spares object field (MonadState.get >>= k) m := h

theorem inspect {question : Store → α} (h : Spares object field (k (question m.store)) m) :
    Spares object field (Eval.inspect question >>= k) m := h

theorem ask {question : Machine → Except RunError α} :
    Spares object field (Eval.ask question) m :=
  iff_ends.mpr (.ask (fun _ _ => .refl _) fun _ _ => .refl _)

theorem computed {result : Computed} {operator : Token} :
    Spares object field (Eval.computed result operator) m :=
  iff_ends.mpr (.computed (fun _ _ => .refl _) fun _ _ => .refl _)

theorem changeStore {change : Store → Store}
    (h : Store.KeepsField object field m.store (change m.store)) :
    Spares object field (Eval.changeStore change) m := h

theorem updateStore {update : Store → α × Store}
    (h : Store.KeepsField object field m.store (update m.store).2)
    (hk : Spares object field (k (update m.store).1) { m with store := (update m.store).2 }) :
    Spares object field (Eval.updateStore update >>= k) m := h.trans hk

theorem declare {name : String} {value : Option Value} {isConst : Bool} :
    Spares object field (Eval.declare name value isConst) m := .of_instances rfl

theorem write {text : String} : Spares object field (Eval.write text) m :=
  iff_ends.mpr (.write (.refl _) fun _ => .refl _)

theorem readName {lookup : Lookup} {id : NodeId} {name : Token} :
    Spares object field (Eval.readName lookup id name) m :=
  iff_ends.mpr (.readName (fun _ => .refl _) (fun _ _ _ => .refl _) fun _ => .refl _)

theorem writeName {lookup : Lookup} {id : NodeId} {name : Token} {value : Value} :
    Spares object field (Eval.writeName lookup id name value) m :=
  iff_ends.mpr <|
    .writeName (fun _ => .refl _) (fun _ _ _ => .refl _) fun _ => .of_instances rfl

theorem declareFunction {decl : FunctionDecl} :
    Spares object field (Eval.declareFunction decl) m :=
  get (updateStore (.of_instances rfl) declare)

theorem declareClass {decl : ClassDecl} {base : Option ClassId} :
    Spares object field (Eval.declareClass decl base) m :=
  get (updateStore ((Store.KeepsField.addStatics m.here decl.statics m.store).trans
    (.of_instances rfl)) declare)

theorem asBaseClass {decl : ClassDecl} {base : Expr} {value : Value} :
    Spares object field (Eval.asBaseClass decl base value) m :=
  iff_ends.mpr (.asBaseClass (fun _ _ => .refl _) fun _ _ => .refl _)

theorem checkCall {callee : Value} {paren : Token} {given : Nat} :
    Spares object field (Eval.checkCall callee paren given) m :=
  iff_ends.mpr (.checkCall (fun _ _ _ => .refl _) (fun _ _ => .refl _) fun _ => .refl _)

theorem callNative {id : NativeId} {args : List Value} {paren : Token} :
    Spares object field (Eval.callNative id args paren) m :=
  iff_ends.mpr (.callNative (fun _ _ _ => .refl _) fun _ _ => .refl _)

theorem instanceAttribute? {id : InstanceId} {name : String} :
    Spares object field (Eval.instanceAttribute? id name) m :=
  Store.KeepsField.attribute? m.store id name

/-- A scope that is opened and entered. -/
theorem entered {kind : ScopeKind}
    (h : Spares object field act (m.entering ⟨kind, .empty, some m.here⟩)) :
    Spares object field (Eval.openFrame kind >>= fun frame => Eval.within frame act) m := by
  rw [Spares, leaves_openFrame_bind, leaves_within]
  exact (Store.KeepsField.of_instances rfl).trans h

theorem called {outer : FrameId} {params : List Token} {body : List Stmt} {args : List Value}
    {place : Token} (h : m.depth < maxDepth →
      Spares object field act (m.calling outer params body args)) :
    Spares object field (Eval.updateStore (fun s =>
      s.addFrame (Eval.parameterFrame params body args outer)) >>= fun frame =>
        Eval.counted place (Eval.within frame act)) m := by
  by_cases hdepth : m.depth < maxDepth
  · rw [Spares, leaves_called hdepth]
    exact (Store.KeepsField.of_instances rfl).trans (h hdepth)
  · refine updateStore (.of_instances rfl) ?_
    unfold Spares Eval.leaves Eval.counted
    rw [if_pos (Nat.not_lt.mp hdepth)]
    exact .refl _

end Spares

end Spares

/-! ## Calls -/

section Calls

variable {lookup : Lookup} {object : InstanceId} {field : String} {fuel : Nat} {m : Machine}

/-- Calls that assign nothing to the field leave it as it was. -/
abbrev KeepingField (lookup : Lookup) (object : InstanceId) (field : String) (fuel : Nat) : Prop :=
  ∀ task m, ¬Eval.Assigns lookup object field fuel task m →
    Store.KeepsField object field m.store (task.leaves fuel lookup m).store

variable (ih : KeepingField lookup object field fuel)

include ih

/-- A call inside of a call that assigns nothing to the field. -/
theorem KeepingField.inside {task task' : Eval.Task} {m' : Machine}
    (hnone : ¬Eval.Assigns lookup object field (fuel + 1) task m)
    (hbegins : Eval.Begins lookup fuel task m task' m') :
    Store.KeepsField object field m'.store (task'.leaves fuel lookup m').store :=
  ih _ _ fun h => hnone (.inside hbegins h)

theorem KeepingField.evaluated {task : Eval.Task} {e : Expr} {v : Value} {m₁ m₂ : Machine}
    (hnone : ¬Eval.Assigns lookup object field (fuel + 1) task m)
    (hbegins : Eval.Begins lookup fuel task m (.evaluate e) m₁)
    (hrun : Eval.evaluate fuel lookup e m₁ = .ok v m₂) :
    Store.KeepsField object field m₁.store m₂.store := Spares.ok (ih.inside hnone hbegins) hrun

theorem KeepingField.executed {task : Eval.Task} {s : Stmt} {signal : Signal} {m₁ m₂ : Machine}
    (hnone : ¬Eval.Assigns lookup object field (fuel + 1) task m)
    (hbegins : Eval.Begins lookup fuel task m (.execute s) m₁)
    (hrun : Eval.execute fuel lookup s m₁ = .ok signal m₂) :
    Store.KeepsField object field m₁.store m₂.store := Spares.ok (ih.inside hnone hbegins) hrun

theorem KeepingField.evaluate_get {target : Expr} {name : Token}
    (hnone : ¬Eval.Assigns lookup object field (fuel + 1) (.evaluate (.get target name)) m) :
    Spares object field (Eval.evaluate (fuel + 1) lookup (.get target name)) m := by
  rw [Eval.evaluate]
  have htarget : Spares object field (Eval.evaluate fuel lookup target) m :=
    ih.inside hnone (.operand rfl)
  refine htarget.bind fun v m₁ hobject => ?_
  split
  · refine Spares.instanceAttribute?.bind fun found m₂ hfound => ?_
    cases found with
    | some found => exact ih.inside hnone (.member hobject hfound)
    | none => exact .inspect .fail
  · refine .inspect ?_
    split
    · exact .pure
    · exact .inspect .fail
  · exact .fail

theorem KeepingField.evaluate_set {target value : Expr} {name : Token}
    (hnone : ¬Eval.Assigns lookup object field (fuel + 1) (.evaluate (.set target name value)) m) :
    Spares object field (Eval.evaluate (fuel + 1) lookup (.set target name value)) m := by
  rw [Eval.evaluate]
  have htarget : Spares object field (Eval.evaluate fuel lookup target) m :=
    ih.inside hnone (.operand rfl)
  refine htarget.bind fun v m₁ hobject => ?_
  split
  · next id =>
    have hvalue : Spares object field (Eval.evaluate fuel lookup value) m₁ :=
      ih.inside hnone (.assigned hobject (.inl ⟨id, rfl⟩))
    refine hvalue.bind fun v m₂ hrun => ?_
    refine (Spares.changeStore (.setInstanceField _ ?_ v)).andThen fun _ _ => .pure
    rintro ⟨rfl, hname⟩
    exact hnone (.here hobject hrun hname)
  · next id =>
    have hvalue : Spares object field (Eval.evaluate fuel lookup value) m₁ :=
      ih.inside hnone (.assigned hobject (.inr ⟨id, rfl⟩))
    exact hvalue.andThen fun v m₂ =>
      (Spares.changeStore (.of_instances rfl)).andThen fun _ _ => .pure
  · exact .fail

theorem KeepingField.evaluate_super {id : NodeId} {keyword method : Token}
    (hnone : ¬Eval.Assigns lookup object field (fuel + 1)
      (.evaluate (.super id keyword method)) m) :
    Spares object field (Eval.evaluate (fuel + 1) lookup (.super id keyword method)) m := by
  rw [Eval.evaluate]
  refine Spares.readName.bind fun v m₁ hbase => ?_
  split
  · refine Spares.instanceAttribute?.bind fun found m₂ hfound => ?_
    cases found with
    | some found => exact ih.inside hnone (.inherited hbase hfound)
    | none => exact .inspect .fail
  · exact .fail

theorem KeepingField.evaluate {e : Expr}
    (hnone : ¬Eval.Assigns lookup object field (fuel + 1) (.evaluate e) m) :
    Spares object field (Eval.evaluate (fuel + 1) lookup e) m := by
  have inside {task' : Eval.Task} {m' : Machine}
      (hbegins : Eval.Begins lookup fuel (.evaluate e) m task' m') :
      Store.KeepsField object field m'.store (task'.leaves fuel lookup m').store :=
    ih.inside hnone hbegins
  have first {e' : Expr} (h : e.first? = some e') :
      Spares object field (Eval.evaluate fuel lookup e') m := inside (.operand h)
  cases e with
  | literal value =>
    rw [Eval.evaluate]
    exact .pure
  | grouping inner =>
    rw [Eval.evaluate]
    exact first rfl
  | unary operator right =>
    rw [Eval.evaluate]
    refine (first rfl).andThen fun v m₁ => ?_
    split
    · exact .computed
    · exact .fail
  | binary left operator right =>
    rw [Eval.evaluate]
    refine (first rfl).bind fun v m₁ hleft => ?_
    have hright : Spares object field (Eval.evaluate fuel lookup right) m₁ := inside (.right hleft)
    exact hright.andThen fun _ _ => .ite (fun _ => .pure) fun _ => .computed
  | logical left operator right =>
    rw [Eval.evaluate]
    refine (first rfl).bind fun v m₁ hleft => .ite (fun _ => .pure) fun hopen => ?_
    exact inside (.undecided hleft (Bool.eq_false_iff.mpr hopen))
  | ternary condition question thenBranch elseBranch =>
    rw [Eval.evaluate]
    refine (first rfl).bind fun v m₁ hcondition => .ite (fun htrue => ?_) fun hfalse => ?_
    · exact inside (.chosen hcondition htrue)
    · exact inside (.otherwise hcondition (Bool.eq_false_iff.mpr hfalse))
  | «variable» id name =>
    rw [Eval.evaluate]
    exact .readName
  | assign id name value =>
    rw [Eval.evaluate]
    exact (first rfl).andThen fun v m₁ => Spares.writeName.andThen fun _ _ => .pure
  | call callee paren arguments =>
    rw [Eval.evaluate]
    refine (first rfl).bind fun v m₁ hcallee => ?_
    have heach : Spares object field (Eval.evaluateEach fuel lookup arguments) m₁ :=
      inside (.arguments hcallee)
    exact heach.bind fun args m₂ hargs => inside (.call hcallee hargs)
  | get target name => exact ih.evaluate_get hnone
  | set target name value => exact ih.evaluate_set hnone
  | this id keyword =>
    rw [Eval.evaluate]
    exact .readName
  | super id keyword method => exact ih.evaluate_super hnone
  | arrow decl =>
    rw [Eval.evaluate]
    exact .get (.updateStore (.of_instances rfl) .pure)

theorem KeepingField.evaluateEach {es : List Expr}
    (hnone : ¬Eval.Assigns lookup object field (fuel + 1) (.evaluateEach es) m) :
    Spares object field (Eval.evaluateEach (fuel + 1) lookup es) m := by
  cases es with
  | nil =>
    rw [Eval.evaluateEach]
    exact .pure
  | cons e es =>
    rw [Eval.evaluateEach]
    have hhead : Spares object field (Eval.evaluate fuel lookup e) m := ih.inside hnone .head
    refine hhead.bind fun v m₁ hrun => ?_
    have htail : Spares object field (Eval.evaluateEach fuel lookup es) m₁ :=
      ih.inside hnone (.tail hrun)
    exact htail.andThen fun _ _ => .pure

theorem KeepingField.attributeValue {found : Attribute} {name : Token}
    (hnone : ¬Eval.Assigns lookup object field (fuel + 1) (.attributeValue found name) m) :
    Spares object field (Eval.attributeValue (fuel + 1) lookup found name) m := by
  cases found with
  | value value => exact .pure
  | getter bound => exact ih.inside hnone .getter

theorem KeepingField.invoke {callee : Value} {paren : Token} {args : List Value}
    (hnone : ¬Eval.Assigns lookup object field (fuel + 1) (.invoke callee paren args) m) :
    Spares object field (Eval.invoke (fuel + 1) lookup callee paren args) m := by
  rw [Eval.invoke]
  refine Spares.checkCall.bind fun c m₁ hcheck => ?_
  cases c with
  | native id => exact .callNative
  | function id =>
    refine .inspect ?_
    cases hfound : m₁.store.function? id with
    | some c => exact ih.inside hnone (.function hcheck hfound)
    | none => exact .pure
  | arrow id =>
    refine .inspect ?_
    cases hfound : m₁.store.arrow? id with
    | some c =>
      have hbody : Spares object field
          (Eval.callBody fuel lookup c.frame c.decl.params c.decl.body args paren) m₁ :=
        ih.inside hnone (.arrow hcheck hfound)
      exact hbody.andThen fun _ _ => .pure
    | none => exact .pure
  | «class» id =>
    refine .inspect ?_
    cases hfound : m₁.store.class? id with
    | some o =>
      refine .updateStore (.instantiate _ _) ?_
      have hbuilt : Spares object field
          (Eval.construct fuel lookup (m₁.store.instantiate id).1 args paren)
          { m₁ with store := (m₁.store.instantiate id).2 } :=
        ih.inside hnone (.construction hcheck hfound)
      exact hbuilt.andThen fun _ _ => .pure
    | none => exact .pure

theorem KeepingField.construct {made : InstanceId} {args : List Value} {paren : Token}
    (hnone : ¬Eval.Assigns lookup object field (fuel + 1) (.construct made args paren) m) :
    Spares object field (Eval.construct (fuel + 1) lookup made args paren) m := by
  rw [Eval.construct]
  refine .inspect ?_
  cases hfound : m.store.initializer? made with
  | none => exact .pure
  | some found =>
    obtain ⟨portion, c⟩ := found
    refine .updateStore (.of_instances rfl) ?_
    have hcalled : Spares object field
        (Eval.callFunction fuel lookup (m.store.bind c portion).1 args paren)
        { m with store := (m.store.bind c portion).2 } := ih.inside hnone (.initializer hfound)
    exact hcalled.discard

theorem KeepingField.callFunction {c : Closure} {args : List Value} {place : Token}
    (hnone : ¬Eval.Assigns lookup object field (fuel + 1) (.callFunction c args place) m) :
    Spares object field (Eval.callFunction (fuel + 1) lookup c args place) m := by
  rw [Eval.callFunction]
  have hbody : Spares object field
      (Eval.callBody fuel lookup c.frame c.decl.params c.decl.body args place) m :=
    ih.inside hnone .body
  exact hbody.andThen fun _ _ => .ite (fun _ => .ask) fun _ => .pure

theorem KeepingField.callBody {outer : FrameId} {params : List Token} {body : List Stmt}
    {args : List Value} {place : Token}
    (hnone : ¬Eval.Assigns lookup object field (fuel + 1)
      (.callBody outer params body args place) m) :
    Spares object field (Eval.callBody (fuel + 1) lookup outer params body args place) m := by
  rw [Eval.callBody]
  exact .called fun hdepth => ih.inside hnone (.statements hdepth)

theorem KeepingField.execute {s : Stmt}
    (hnone : ¬Eval.Assigns lookup object field (fuel + 1) (.execute s) m) :
    Spares object field (Eval.execute (fuel + 1) lookup s) m := by
  have inside {task' : Eval.Task} {m' : Machine}
      (hbegins : Eval.Begins lookup fuel (.execute s) m task' m') :
      Store.KeepsField object field m'.store (task'.leaves fuel lookup m').store :=
    ih.inside hnone hbegins
  have first {e : Expr} (h : s.first? = some e) :
      Spares object field (Eval.evaluate fuel lookup e) m := inside (.expression h)
  cases s with
  | expression value =>
    rw [Eval.execute]
    exact (first rfl).discard.andThen fun _ _ => .pure
  | print value | println value =>
    rw [Eval.execute]
    exact (first rfl).andThen fun _ _ => .inspect (Spares.write.andThen fun _ _ => .pure)
  | var name initializer =>
    cases initializer with rw [Eval.execute]
    | none => exact Spares.declare.andThen fun _ _ => .pure
    | some initializer =>
      exact (first rfl).andThen fun _ _ => Spares.declare.andThen fun _ _ => .pure
  | const name initializer =>
    rw [Eval.execute]
    exact (first rfl).andThen fun _ _ => Spares.declare.andThen fun _ _ => .pure
  | block body =>
    rw [Eval.execute]
    exact .entered (inside .block)
  | ifElse condition thenBranch elseBranch =>
    cases elseBranch with rw [Eval.execute]
    | none =>
      exact (first rfl).bind fun v m₁ hrun => .ite
        (fun htrue => inside (.thenBranch hrun htrue)) fun _ => .pure
    | some elseBranch =>
      exact (first rfl).bind fun v m₁ hrun => .ite
        (fun htrue => inside (.thenBranch hrun htrue))
        fun hfalse => inside (.elseBranch hrun (Bool.eq_false_iff.mpr hfalse))
  | «while» condition body =>
    rw [Eval.execute]
    exact inside .while
  | «for» initializer condition update body =>
    rw [Eval.execute]
    refine .entered ?_
    cases initializer with
    | none => exact inside .for
    | some initializer =>
      have hclause : Spares object field (Eval.execute fuel lookup initializer) _ := inside .clause
      refine (Spares.discard hclause).bind fun _ m₁ hrun => ?_
      rw [Functor.discard, Functor.mapConst] at hrun
      obtain ⟨signal, m₂, hexecuted, heq⟩ := exists_of_bind hrun
      cases heq
      exact inside (.forBehind hexecuted)
  | «break» | «continue» =>
    rw [Eval.execute]
    exact .pure
  | assert keyword condition message =>
    cases message with rw [Eval.execute]
    | none => exact (first rfl).andThen fun _ _ => .ite (fun _ => .pure) fun _ => .fail
    | some message =>
      refine (first rfl).bind fun v m₁ hrun => .ite (fun _ => .pure) fun hfalse => ?_
      have hmessage : Spares object field (Eval.evaluate fuel lookup message) m₁ :=
        inside (.message hrun (Bool.eq_false_iff.mpr hfalse))
      exact hmessage.andThen fun _ _ => .inspect .fail
  | function decl =>
    rw [Eval.execute]
    exact Spares.declareFunction.andThen fun _ _ => .pure
  | «return» keyword value =>
    cases value with rw [Eval.execute]
    | none => exact .pure
    | some value => exact (first rfl).andThen fun _ _ => .pure
  | «class» decl =>
    obtain ⟨name, base, methods, statics, getters⟩ := decl
    cases base with rw [Eval.execute]
    | none => exact Spares.declareClass.andThen fun _ _ => .pure
    | some base =>
      exact (first rfl).andThen fun v _ => Spares.asBaseClass.map.andThen fun _ _ =>
        Spares.declareClass.andThen fun _ _ => .pure

theorem KeepingField.executeEach {ss : List Stmt}
    (hnone : ¬Eval.Assigns lookup object field (fuel + 1) (.executeEach ss) m) :
    Spares object field (Eval.executeEach (fuel + 1) lookup ss) m := by
  cases ss with
  | nil =>
    rw [Eval.executeEach]
    exact .pure
  | cons s ss =>
    rw [Eval.executeEach]
    have hfirst : Spares object field (Eval.execute fuel lookup s) m := ih.inside hnone .first
    refine hfirst.bind fun signal m₁ hrun => ?_
    cases signal with
    | completed => exact ih.inside hnone (.rest hrun)
    | broke | continued | returned => exact .pure

theorem KeepingField.whileLoop {condition : Expr} {body : Stmt}
    (hnone : ¬Eval.Assigns lookup object field (fuel + 1) (.whileLoop condition body) m) :
    Spares object field (Eval.whileLoop (fuel + 1) lookup condition body) m := by
  rw [Eval.whileLoop]
  have hcondition : Spares object field (Eval.evaluate fuel lookup condition) m :=
    ih.inside hnone .condition
  refine hcondition.bind fun v m₁ hrun => .ite (fun htrue => ?_) fun _ => .pure
  have hbody : Spares object field (Eval.execute fuel lookup body) m₁ :=
    ih.inside hnone (.round hrun htrue)
  refine hbody.bind fun signal m₂ hround => ?_
  cases signal with
  | broke | returned => exact .pure
  | completed | continued => exact ih.inside hnone (.rounds hrun htrue hround rfl)

section ForLoop

variable {condition update : Option Expr} {body : Stmt}
  (hnone : ¬Eval.Assigns lookup object field (fuel + 1) (.forLoop condition update body) m)

include hnone

theorem KeepingField.goesOn : Spares object field (Eval.goesOn fuel lookup condition) m := by
  cases condition with
  | none => exact .pure
  | some condition =>
    have hcondition : Spares object field (Eval.evaluate fuel lookup condition) m :=
      ih.inside hnone .forCondition
    exact hcondition.map

theorem KeepingField.step {signal : Signal} {m₁ m₂ : Machine}
    (hgoes : Eval.goesOn fuel lookup condition m = .ok true m₁)
    (hround : Eval.execute fuel lookup body m₁ = .ok signal m₂)
    (hsignal : signal.goesRound = true) :
    Spares object field (Eval.step fuel lookup update) m₂ := by
  cases update with
  | none => exact .pure
  | some update =>
    have hupdate : Spares object field (Eval.evaluate fuel lookup update) m₂ :=
      ih.inside hnone (.update hgoes hround hsignal)
    exact hupdate.discard

theorem KeepingField.forLoop :
    Spares object field (Eval.forLoop (fuel + 1) lookup condition update body) m := by
  rw [Eval.forLoop_eq]
  refine (ih.goesOn hnone).bind fun goes m₁ hgoes => .ite (fun htrue => ?_) fun _ => .pure
  subst htrue
  have hbody : Spares object field (Eval.execute fuel lookup body) m₁ :=
    ih.inside hnone (.forRound hgoes)
  refine hbody.bind fun signal m₂ hround => ?_
  cases hsignal : signal.goesRound with
  | false => cases signal <;> first | exact .pure | cases hsignal
  | true =>
    rw [Eval.behindRound_of_goesRound hsignal]
    exact (ih.step hnone hgoes hround hsignal).bind fun _ m₃ hstepped =>
      ih.inside hnone (.forRounds hgoes hround hsignal hstepped)

end ForLoop

omit ih in
/-- Only an assignment to a field of an object changes what is in it. -/
theorem keepingField (lookup : Lookup) (object : InstanceId) (field : String) (fuel : Nat) :
    KeepingField lookup object field fuel := by
  induction fuel with
  | zero =>
    intro task m _
    cases task <;> exact .refl _
  | succ fuel ih =>
    intro task m hnone
    cases task with
    | evaluate e => exact ih.evaluate hnone
    | evaluateEach es => exact ih.evaluateEach hnone
    | attributeValue found name => exact ih.attributeValue hnone
    | invoke callee paren args => exact ih.invoke hnone
    | construct object args paren => exact ih.construct hnone
    | callFunction c args place => exact ih.callFunction hnone
    | callBody outer params body args place => exact ih.callBody hnone
    | execute s => exact ih.execute hnone
    | executeEach ss => exact ih.executeEach hnone
    | whileLoop condition body => exact ih.whileLoop hnone
    | forLoop condition update body => exact ih.forLoop hnone

end Calls

/-- Up to a call inside of it, a call that assigns nothing to a field leaves it as it was. -/
theorem Eval.Begins.keepsField {lookup : Lookup} {object : InstanceId} {field : String} {fuel : Nat}
    {task task' : Eval.Task} {m m' : Machine} (hbegins : Eval.Begins lookup fuel task m task' m')
    (hnone : ¬Eval.Assigns lookup object field (fuel + 1) task m) :
    Store.KeepsField object field m.store m'.store := by
  have ih := keepingField lookup object field fuel
  cases hbegins with
  | operand | head | getter | body | expression | «while» | first | condition | forCondition =>
    exact .refl _
  | right hleft | undecided hleft => exact ih.evaluated hnone (.operand rfl) hleft
  | chosen hcondition | otherwise hcondition => exact ih.evaluated hnone (.operand rfl) hcondition
  | arguments hcallee => exact ih.evaluated hnone (.operand rfl) hcallee
  | call hcallee hargs =>
    have heach := Spares.ok (ih.inside hnone (.arguments hcallee)) hargs
    exact (ih.evaluated hnone (.operand rfl) hcallee).trans heach
  | member hobject hfound =>
    exact (ih.evaluated hnone (.operand rfl) hobject).trans (Spares.ok .instanceAttribute? hfound)
  | assigned hobject => exact ih.evaluated hnone (.operand rfl) hobject
  | inherited hbase hfound =>
    exact (Spares.ok .readName hbase).trans (Spares.ok .instanceAttribute? hfound)
  | tail hhead => exact ih.evaluated hnone .head hhead
  | function hcheck | arrow hcheck => exact Spares.ok .checkCall hcheck
  | construction hcheck => exact (Spares.ok .checkCall hcheck).trans (.instantiate _ _)
  | initializer | statements | block | clause | «for» => exact .of_instances rfl
  | thenBranch hcondition | elseBranch hcondition =>
    exact ih.evaluated hnone (.expression rfl) hcondition
  | forBehind hclause =>
    have hopened := ih.executed hnone .clause hclause
    exact .trans (.of_instances rfl) hopened
  | message hcondition => exact ih.evaluated hnone (.expression rfl) hcondition
  | rest hfirst => exact ih.executed hnone .first hfirst
  | round hcondition => exact ih.evaluated hnone .condition hcondition
  | rounds hcondition htrue hbody =>
    have hround := ih.executed hnone (.round hcondition htrue) hbody
    exact (ih.evaluated hnone .condition hcondition).trans hround
  | forRound hgoes => exact (ih.goesOn hnone).ok hgoes
  | update hgoes hbody =>
    exact ((ih.goesOn hnone).ok hgoes).trans (ih.executed hnone (.forRound hgoes) hbody)
  | forRounds hgoes hbody hsignal hupdate =>
    have hround := ((ih.goesOn hnone).ok hgoes).trans (ih.executed hnone (.forRound hgoes) hbody)
    exact hround.trans ((ih.step hnone hgoes hbody hsignal).ok hupdate)

/-- The calls that a call makes, and those that these make. -/
inductive Eval.Leads (lookup : Lookup) (fuel : Nat) (task : Eval.Task) (m : Machine) :
    Nat → Eval.Task → Machine → Prop
  | here : Leads lookup fuel task m fuel task m
  | further {fuel' task' m' task'' m''} (h : Leads lookup fuel task m (fuel' + 1) task' m')
    (hbegins : Eval.Begins lookup fuel' task' m' task'' m'') :
    Leads lookup fuel task m fuel' task'' m''

/-- Wherever a call leads, a field to which it assigns nothing is as it was. -/
theorem Eval.Leads.keepsField {lookup : Lookup} {object : InstanceId} {field : String}
    {fuel fuel' : Nat} {task task' : Eval.Task} {m m' : Machine}
    (h : Eval.Leads lookup fuel task m fuel' task' m')
    (hnone : ¬Eval.Assigns lookup object field fuel task m) :
    ¬Eval.Assigns lookup object field fuel' task' m' ∧
      Store.KeepsField object field m.store m'.store := by
  induction h with
  | here => exact ⟨hnone, .refl _⟩
  | further _ hbegins ih =>
    obtain ⟨hnone, hkeeps⟩ := ih
    exact ⟨fun h => hnone (.inside hbegins h), hkeeps.trans (hbegins.keepsField hnone)⟩

/-- A program that does not come to an assignment to a field leaves it as it was. -/
theorem keepsField_interpret {bound : Nat} {lookup : Lookup} {object : InstanceId} {field : String}
    {program : List Stmt} {m : Machine}
    (h : ∀ stmt reached, Machine.Executes bound lookup stmt reached m program →
      ¬Eval.Assigns lookup object field bound (.execute stmt) reached) :
    Store.KeepsField object field m.store (m.interpret bound lookup program).2.store := by
  induction program generalizing m with
  | nil =>
    rw [Machine.interpret]
    split <;> exact .refl _
  | cons stmt rest ih =>
    have hfirst : Spares object field (Eval.execute bound lookup stmt) m :=
      keepingField lookup object field bound _ _ (h stmt m .here)
    rw [Machine.interpret]
    cases hrun : Eval.execute bound lookup stmt m with
    | ok signal m₁ =>
      rw [Spares, leaves_of_ok hrun] at hfirst
      exact hfirst.trans (ih fun stmt reached hreached => h stmt reached (.later hrun hreached))
    | error halt m₁ =>
      rw [Spares, leaves_of_error hrun] at hfirst
      exact hfirst

end LoxLang
