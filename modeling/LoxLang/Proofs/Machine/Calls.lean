import LoxLang.Proofs.Machine.Lookup

/-!
# Calls and declarations

The frame of a call holds the parameters as the analysis declared them
(`Mirrors.parameterFrame`), and a statement that declares a name binds it as the analysis saw it
declared (`Stmt.Fits.declare`). The functions and classes that this makes are sound.
-/

namespace LoxLang

/-! ## Parameters -/

theorem kind_parameterRib (params : List Token) (body : List Stmt) :
    (parameterRib params body).kind = .parameters params body := by
  suffices h : ∀ rib : Rib, (params.foldl (fun rib param => rib.set param.lexeme ⟨true, true⟩)
      rib).kind = rib.kind from h _
  intro rib
  induction params generalizing rib with
  | nil => rfl
  | cons param params ih => exact ih _

/-- The parameters are the names of their scope. -/
theorem exists_of_status_parameterRib {params : List Token} {body : List Stmt} {name : String}
    (h : ((parameterRib params body).status name).isSome) : ∃ p ∈ params, p.lexeme = name := by
  suffices hrib : ∀ rib : Rib, ((params.foldl (fun rib param => rib.set param.lexeme ⟨true, true⟩)
      rib).status name).isSome → (∃ p ∈ params, p.lexeme = name) ∨ (rib.status name).isSome from
    (hrib _ h).elim id fun hbare => nomatch hbare
  clear h
  induction params with
  | nil => exact fun rib h => .inr h
  | cons param params ih =>
    intro rib h
    rcases ih _ h with ⟨p, hp, hname⟩ | hset
    · exact .inl ⟨p, List.mem_cons_of_mem _ hp, hname⟩
    · by_cases heq : param.lexeme = name
      · exact .inl ⟨param, List.mem_cons_self, heq⟩
      · rw [Rib.set_status_of_ne _ _ heq] at hset
        exact .inr hset

section Parameters

variable {record : Record} {s : Store} {outer : FrameId} {ribs : List Rib} {params : List Token}
  {body : List Stmt} {args : List Value}

theorem constant?_foldl_parameters (names : NameMap Slot) (rib : Rib)
    (hlength : args.length = params.length)
    (h : ∀ name, (names.find? name).map Slot.isConst = rib.constant? name) (name : String) :
    (((params.zip args).foldl (fun names (param, arg) => names.insert param.lexeme ⟨some arg, false⟩)
        names).find? name).map Slot.isConst =
      (params.foldl (fun rib param => rib.set param.lexeme ⟨true, true⟩) rib).constant? name := by
  induction params generalizing args names rib with
  | nil => exact h name
  | cons param params ih =>
    cases args with
    | nil => cases hlength
    | cons arg args =>
      refine ih _ _ (Nat.succ.inj hlength) ?_
      intro other
      rw [NameMap.find?_insert, Rib.constant?_set]
      split
      · rfl
      · exact h other

theorem constant?_parameterFrame (hlength : args.length = params.length) (name : String) :
    (Eval.parameterFrame params body args outer).constant? name =
      (parameterRib params body).constant? name :=
  constant?_foldl_parameters .empty _ hlength (fun _ => rfl) name

theorem wellFormed_parameterFrame (h : Mirrors s outer ribs) (hlength : args.length = params.length) :
    (Eval.parameterFrame params body args outer).WellFormed
      (s.addFrame (Eval.parameterFrame params body args outer)).1 where
  older o ho := by
    cases ho
    obtain ⟨frame, hframe⟩ := h.exists_frame
    exact (Array.getElem?_eq_some_iff.mp hframe).1
  declared name hname := by
    rw [constant?_parameterFrame hlength] at hname
    obtain ⟨c, hc⟩ := Option.isSome_iff_exists.mp hname
    obtain ⟨status, hstatus, -⟩ := Option.bind_eq_some_iff.mp hc
    exact .inl (exists_of_status_parameterRib (Option.isSome_of_eq_some hstatus))
  receiver _ _ hkind := nomatch hkind

/-- The frame that a call opens. -/
theorem Mirrors.parameterFrame (h : Mirrors s outer ribs) (hlength : args.length = params.length) :
    let frame := Eval.parameterFrame params body args outer
    Stands (s.addFrame frame).2 (s.addFrame frame).1 (parameterRib params body :: ribs) :=
  .addFrame h rfl (kind_parameterRib params body).symm (constant?_parameterFrame hlength)

end Parameters

/-! ## Declarations -/

/-- The innermost rib is that of a construct which a statement stands in. -/
def Hosts (ribs : List Rib) (s : Stmt) : Prop :=
  ∀ rib ∈ ribs.head?, ∀ name, s.Declares name → rib.kind.Declares name

theorem Hosts.grow {ribs : List Rib} {s : Stmt} (h : Hosts ribs s) (t : Stmt) :
    Hosts (t.grow ribs) s := by
  unfold Stmt.grow
  rcases t.declaration? with _ | ⟨name, kind⟩
  · exact h
  · cases ribs with
    | nil => exact h
    | cons rib outer =>
      rintro _ hrib
      cases hrib
      exact h rib rfl

/-- A statement that declares nothing may stand in any scope. -/
theorem Hosts.of_plain {ribs : List Rib} {s : Stmt} (hplain : s.declaration? = none) :
    Hosts ribs s := by
  rintro rib - name ⟨declared, hdeclared, -⟩
  rw [hplain] at hdeclared
  cases hdeclared

/-- A statement stands in the scope of the construct that declares what it does. -/
theorem hosts_bare {kind : ScopeKind} {ribs : List Rib} {s : Stmt}
    (h : ∀ name, s.Declares name → kind.Declares name) : Hosts (.bare kind :: ribs) s := by
  rintro rib ⟨⟩
  exact h

theorem hosts_parameterRib {params : List Token} {body : List Stmt} {ribs : List Rib} {s : Stmt}
    (hs : s ∈ body) : Hosts (parameterRib params body :: ribs) s := by
  rintro rib ⟨⟩ name hname
  rw [kind_parameterRib]
  exact .inr ⟨s, hs, hname⟩

/-- The frame that may gain a name when a statement is executed. -/
def Stmt.free (s : Stmt) (here : FrameId) : Option FrameId :=
  s.declaration?.map fun _ => here

section Declarations

variable {record : Record} {s t : Store} {here : FrameId} {ribs : List Rib}

/-- What it takes to bind the name of a statement. -/
theorem Stmt.Fits.declare {stmt : Stmt} (hfits : stmt.Fits record ribs) (hhosts : Hosts ribs stmt)
    (h : s.Sound record) (hstands : Stands s here ribs) {name : Token} {kind : DeclarationKind}
    (hname : stmt.declaration? = some (name, kind)) (value : Option Value) :
    (s.declare here name.lexeme value !kind.isMutable).Sound record ∧
      s.Grows (some here) (s.declare here name.lexeme value !kind.isMutable) ∧
      Stands (s.declare here name.lexeme value !kind.isMutable) here (stmt.grow ribs) := by
  obtain ⟨rib, outer, rfl⟩ : ∃ rib outer, ribs = rib :: outer := by
    cases hstands.mirrors with
    | outermost | inner => exact ⟨_, _, rfl⟩
  have hnew := hfits.fresh hname
  have hfree := hstands.constant?_none hnew
  have hdeclares : rib.kind.Declares name.lexeme := hhosts rib rfl _ ⟨_, hname, rfl⟩
  obtain ⟨frame, hframe, hcovers⟩ := hstands.mirrors.head
  refine ⟨h.declare hfree (fun hf => ?_) value _, Store.grows_declare hfree value _, ?_⟩
  · cases hframe.symm.trans hf
    exact hcovers.kind ▸ hdeclares
  · rw [Stmt.grow, hname]
    exact hstands.declare hnew value kind.isMutable

/-- The members of a class by name are functions of its declaration. -/
theorem exists_of_closures {frame : FrameId} {decls : List FunctionDecl} {hasInitializer : Bool}
    {name : String} {c : Closure}
    (h : (Eval.closures frame decls hasInitializer).find? name = some c) :
    c.decl ∈ decls ∧ c.frame = frame := by
  obtain ⟨decl, hmem, heq⟩ := List.mem_map.mp (NameMap.mem_of_find?_ofList h)
  cases heq
  exact ⟨hmem, rfl⟩

/-- The initializers among them are the methods of that name. -/
theorem isInitializer_of_closures {frame : FrameId} {decls : List FunctionDecl}
    {hasInitializer : Bool} {name : String} {c : Closure}
    (h : (Eval.closures frame decls hasInitializer).find? name = some c) :
    c.isInitializer = (hasInitializer && name == "init") := by
  obtain ⟨decl, -, heq⟩ := List.mem_map.mp (NameMap.mem_of_find?_ofList h)
  cases heq
  rfl

theorem methodSound_of_closures {decl : ClassDecl} {decls : List FunctionDecl} {hasInitializer : Bool}
    (hmirrors : Mirrors s here ribs) (hfits : ∀ d ∈ decls, MemberFits record decl d ribs)
    {name : String} {c : Closure}
    (hc : (Eval.closures here decls hasInitializer).find? name = some c) :
    c.MethodSound record s decl := by
  obtain ⟨hmem, rfl⟩ := exists_of_closures hc
  exact ⟨ribs, hmirrors, hfits c.decl hmem⟩

/-- The static methods of a class are functions where the class is. -/
theorem Store.Sound.addStatics (h : s.Sound record) (hmirrors : Mirrors s here ribs)
    {decls : List FunctionDecl} (hfits : FunctionsFit record decls ribs) :
    (Eval.addStatics here decls s).2.Sound record ∧
      s.Grows none (Eval.addStatics here decls s).2 ∧
      (Eval.addStatics here decls s).2.classes = s.classes := by
  unfold Eval.addStatics
  generalize (NameMap.empty : NameMap FunctionId) = statics
  induction decls generalizing s statics with
  | nil => exact ⟨h, .refl s, rfl⟩
  | cons decl decls ih =>
    have hgrows : s.Grows none (s.addFunction ⟨decl, here, false⟩).2 :=
      Store.grows_addFunction _ _
    have hdecl : FunctionFits record decl.params decl.body ribs := hfits decl List.mem_cons_self
    have hadded : (s.addFunction ⟨decl, here, false⟩).2.Sound record :=
      h.addFunction ⟨⟨ribs, hmirrors, hdecl⟩, nofun⟩
    obtain ⟨hsound, hgrows', hclasses⟩ := ih hadded (hmirrors.mono hgrows)
      (fun d hd => hfits d (List.mem_cons_of_mem _ hd)) (statics.insert decl.name.lexeme _)
    exact ⟨hsound, hgrows.trans hgrows', hclasses⟩

/-- It does not matter whether a name is bound before or after the static methods are made. -/
theorem addStatics_declare (decls : List FunctionDecl) (id : FrameId) (name : String)
    (value : Option Value) (isConst : Bool) :
    Eval.addStatics here decls (s.declare id name value isConst) =
      ((Eval.addStatics here decls s).1,
        (Eval.addStatics here decls s).2.declare id name value isConst) := by
  unfold Eval.addStatics
  generalize (NameMap.empty : NameMap FunctionId) = statics
  induction decls generalizing s statics with
  | nil => rfl
  | cons decl decls ih =>
    exact ih (s := (s.addFunction ⟨decl, here, false⟩).2) (statics.insert decl.name.lexeme _)

end Declarations

/-! ## Steps that declare -/

/-- What a statement leaves behind. Its own name is bound. -/
structure Executed (record : Record) (s : Stmt) (ribs : List Rib) (m after : Machine) : Prop where
  keeps : Keeps record (s.free m.here) m after
  stands : Stands after.store m.here (s.grow ribs)

/-- A statement that declares nothing leaves the frame as it was. -/
theorem Executed.of_plain {record : Record} {s : Stmt} {ribs : List Rib} {m after : Machine}
    (hplain : s.declaration? = none) (hplaced : Placed record ribs m)
    (h : Keeps record none m after) : Executed record s ribs m after where
  keeps := h.allow
  stands := by
    rw [Stmt.grow_of_plain hplain]
    exact hplaced.stands.mono h.grows

namespace Executed

variable {record : Record} {s : Stmt} {ribs : List Rib} {m m₁ after : Machine}

theorem plain (h : Executed record s ribs m after) (hplain : s.declaration? = none) :
    Keeps record none m after := by
  have hkeeps := h.keeps
  rw [Stmt.free, hplain] at hkeeps
  exact hkeeps

/-- The current frame may have gained a name. -/
theorem grown (h : Executed record s ribs m after) : Keeps record (some m.here) m after := by
  cases hname : s.declaration? with
  | none => exact (h.plain hname).allow
  | some declared =>
    have hkeeps := h.keeps
    rw [Stmt.free, hname] at hkeeps
    exact hkeeps

theorem behind (h : Executed record s ribs m₁ after) (h₁ : Keeps record none m m₁) :
    Executed record s ribs m after where
  keeps := h₁.allow.trans (h₁.here ▸ h.keeps)
  stands := h₁.here ▸ h.stands

theorem placed (h : Executed record s ribs m after) : Placed record (s.grow ribs) after :=
  ⟨h.keeps.sound, h.keeps.here ▸ h.stands⟩

end Executed

section Steps

variable {course : Course} {m : Machine} {ribs : List Rib}

theorem Runs.executed {α : Type} {act : Eval α} {s : Stmt} (hplain : s.declaration? = none)
    (h : Placed course ribs m) (hact : Evaluates course act m) :
    Runs course none act m fun _ after => Executed course s ribs m after :=
  hact.imp fun _ _ => .of_plain hplain h

/-- A name is bound in the current frame. -/
theorem Stmt.Fits.runs_declare {stmt : Stmt} (hfits : stmt.Fits course ribs)
    (hhosts : Hosts ribs stmt) (h : Placed course ribs m) {name : Token} {kind : DeclarationKind}
    (hname : stmt.declaration? = some (name, kind)) (value : Option Value) :
    Runs course none (Eval.declare name.lexeme value !kind.isMutable) m fun _ after =>
      Executed course stmt ribs m after := by
  obtain ⟨hsound, hgrows, hafter⟩ := hfits.declare hhosts h.sound h.stands hname value
  refine ⟨⟨rfl, rfl, ?_, hsound⟩, hafter⟩
  rw [Stmt.free, hname]
  exact hgrows

/-- While an initializer is evaluated, its name is seen as declared and is not bound yet. -/
theorem Stmt.Fits.placed_beginning {stmt : Stmt} (hfits : stmt.Fits course ribs)
    (h : Placed course ribs m) {name : Token} {kind : DeclarationKind}
    (hname : stmt.declaration? = some (name, kind)) :
    Placed course (beginning name kind ribs) m := by
  refine ⟨h.sound, ?_⟩
  cases ribs with
  | nil => exact h.stands
  | cons rib outer => exact h.stands.begin (hfits.fresh hname) _

theorem runs_declareFunction {decl : FunctionDecl} (hfits : (Stmt.function decl).Fits course ribs)
    (hhosts : Hosts ribs (.function decl)) (h : Placed course ribs m) :
    Runs course none (Eval.declareFunction decl) m fun _ after =>
      Executed course (.function decl) ribs m after := by
  let value := Store.functionValue (m.store.addFunction ⟨decl, m.here, false⟩).1
  obtain ⟨hsound, hgrows, hafter⟩ := hfits.declare hhosts h.sound h.stands rfl (some value)
  let named := m.store.declare m.here decl.name.lexeme (some value) true
  have hadded : (named.addFunction ⟨decl, m.here, false⟩).2.Sound course :=
    hsound.addFunction ⟨⟨_, hafter.mirrors, hfits.function⟩, nofun⟩
  have hsame : named.Grows none (named.addFunction ⟨decl, m.here, false⟩).2 :=
    Store.grows_addFunction _ _
  -- the function is made before its name is bound, which comes to the same
  exact ⟨⟨rfl, rfl, hgrows.trans hsame.allow, hadded⟩, hafter.mono hsame⟩

/-- What is taken for a base class is a class. -/
theorem runs_asBaseClass (h : m.store.Sound course) (decl : ClassDecl) (base : Expr) (value : Value) :
    Runs course none (Eval.asBaseClass decl base value) m fun id after =>
      Keeps course none m after ∧ (after.store.class? id).isSome := by
  refine Ends.asBaseClass (fun id hclass => ⟨.refl h, ?_⟩) fun _ _ => ⟨.refl h, trivial⟩
  unfold Store.asClass? at hclass
  split at hclass
  · split at hclass
    · next hthere =>
      cases hclass
      exact hthere
    · cases hclass
  · cases hclass

/-- A class whose base class is there. -/
theorem runs_declareClass {decl : ClassDecl} {base : Option ClassId}
    (hfits : (Stmt.class decl).Fits course ribs) (hhosts : Hosts ribs (.class decl))
    (h : Placed course ribs m) (hbase : base.isSome = decl.base.isSome)
    (hold : ∀ id ∈ base, (m.store.class? id).isSome) :
    Runs course none (Eval.declareClass decl base) m fun _ after =>
      Executed course (.class decl) ribs m after := by
  obtain ⟨-, hstatics, hmethods, hgetters, hbare⟩ := hfits.class
  let made := Eval.addStatics m.here decl.statics m.store
  let object : ClassObject :=
    { name := decl.name.lexeme
      decl
      base
      methods := Eval.closures m.here decl.methods true
      getters := Eval.closures m.here decl.getters false
      statics := made.1 }
  let value : Value := .callable (.class (made.2.addClass object).1)
  let named := m.store.declare m.here decl.name.lexeme (some value) true
  obtain ⟨hsound, hgrows, hafter⟩ : named.Sound course ∧ m.store.Grows (some m.here) named ∧
      Stands named m.here ((Stmt.class decl).grow ribs) :=
    hfits.declare hhosts h.sound h.stands rfl (some value)
  have hcommute : Eval.addStatics m.here decl.statics named =
      (made.1, made.2.declare m.here decl.name.lexeme (some value) true) := addStatics_declare ..
  obtain ⟨hsound', hgrows', hclasses⟩ := hsound.addStatics hafter.mirrors hstatics
  have hmirrors := hafter.mirrors.mono hgrows'
  rw [hcommute] at hsound' hgrows' hclasses hmirrors
  let stored := made.2.declare m.here decl.name.lexeme (some value) true
  have hobject : object.Sound course stored (stored.addClass object).1 :=
    { older := fun id hid => by
        obtain ⟨found, hfound⟩ := Option.isSome_iff_exists.mp (hold id hid)
        show id.index < stored.classes.size
        rw [hclasses]
        exact (Array.getElem?_eq_some_iff.mp hfound).1
      derived := hbase
      methods := methodSound_of_closures hmirrors hmethods
      getters := fun hc =>
        ⟨methodSound_of_closures hmirrors hgetters hc, hbare _ (exists_of_closures hc).1⟩ }
  have hsame : stored.Grows none (stored.addClass object).2 := .of_instances rfl id rfl
  exact ⟨⟨rfl, rfl, hgrows.trans (hgrows'.trans hsame).allow, hsound'.addClass hobject⟩,
    hafter.mono (hgrows'.trans hsame)⟩

end Steps

/-! ## Steps that call -/

section Calls

variable {α β : Type} {course : Course} {m : Machine}

/-- A call that is let through has as many arguments as the callee has parameters. -/
theorem runs_checkCall (h : m.store.Sound course) (callee : Value) (paren : Token) (given : Nat) :
    Runs course none (Eval.checkCall callee paren given) m fun c after =>
      after = m ∧ given = m.store.arity c :=
  Ends.checkCall (fun _ _ hgiven => ⟨rfl, hgiven⟩) (fun _ _ => ⟨.refl h, trivial⟩)
    fun _ => ⟨.refl h, trivial⟩

theorem Evaluates.callNative (h : m.store.Sound course) (id : NativeId) (args : List Value)
    (paren : Token) : Evaluates course (Eval.callNative id args paren) m :=
  Ends.callNative (fun _ _ _ => ⟨rfl, rfl, .refl _, h⟩) fun _ _ =>
    ⟨⟨rfl, rfl, .refl _, h⟩, trivial⟩

/-- An initializer finds its object. -/
theorem Evaluates.initializedObject (h : m.store.Sound course) {c : Closure}
    (hthis : (m.store.constant? c.frame "this").isSome) :
    Evaluates course (Eval.initializedObject c) m := by
  refine ask h ?_
  intro error herror
  rw [Store.constant?_eq_slot?, Option.isSome_map] at hthis
  obtain ⟨slot, hslot⟩ := Option.isSome_iff_exists.mp hthis
  unfold Store.getAt Store.searchAt at herror
  simp only [Store.ancestor?, Token.synthetic, hslot] at herror
  exact explained_read slot herror

/-- A search that binds what it finds. -/
theorem Evaluates.instanceAttribute (h : m.store.Sound course) {id : InstanceId} {name : String}
    {k : Option Attribute → Eval β}
    (hk : ∀ found m₁, m₁.store.Sound course → (∀ a ∈ found, a.Sound course m₁.store) →
      Evaluates course (k found) m₁) :
    Evaluates course (Eval.instanceAttribute? id name >>= k) m := by
  obtain ⟨hsound, hgrows, hfound⟩ := h.attribute? id name
  exact .updateStore hgrows hsound (hk _ { m with store := _ } hsound hfound)

end Calls

end LoxLang
