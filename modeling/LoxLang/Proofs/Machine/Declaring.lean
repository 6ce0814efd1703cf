import LoxLang.Proofs.Machine.Ending
import LoxLang.Proofs.Machine.Lying
import LoxLang.Proofs.Machine.Start

/-!
# Names are bound once

To bind a name does not ask whether the frame binds it already. The analysis sees to it that it never
does: a statement binds its name in a frame that has none of that name (`Stmt.Fits.binds_new`), the
parameters of a call are different names, and so are the built-in functions. Constants stay while the
run of a program goes from one of its calls to the next (`Machine.Comes.fits`).
-/

namespace LoxLang

theorem slot?_declare (s : Store) (id : FrameId) (name other : String) (value : Option Value)
    (isConst : Bool) (hframe : (s.frame? id).isSome) :
    (s.declare id name value isConst).slot? id other =
      if name = other then some ⟨value, isConst⟩ else s.slot? id other := by
  obtain ⟨frame, hframe⟩ := Option.isSome_iff_exists.mp hframe
  rw [Store.slot?, Store.slot?, Store.frame?_declare, if_pos rfl, hframe]
  exact NameMap.find?_insert _ _ _ _

/-! ## Built-in functions -/

section Natives

variable {s : Store} {natives : List Native}

theorem frame?_bindNative (h : (s.frame? globalFrame).isSome) (native : Native) :
    ((Machine.bindNative s native).frame? globalFrame).isSome := by
  rw [Machine.bindNative, Store.frame?_declare, if_pos rfl, Option.isSome_map]
  exact h

theorem frame?_foldl_bindNative (h : (s.frame? globalFrame).isSome) :
    ((natives.foldl Machine.bindNative s).frame? globalFrame).isSome := by
  induction natives generalizing s with
  | nil => exact h
  | cons native rest ih => exact ih (frame?_bindNative h native)

theorem slot?_bindNative (h : (s.frame? globalFrame).isSome) (native : Native) (name : String) :
    (Machine.bindNative s native).slot? globalFrame name =
      if native.name = name then some ⟨some (.callable (.native (s.addNative native).1)), true⟩
      else s.slot? globalFrame name :=
  slot?_declare (s.addNative native).2 _ _ _ _ _ h

/-- Other names are left alone. -/
theorem slot?_foldl_bindNative (h : (s.frame? globalFrame).isSome) {name : String}
    (hname : name ∉ natives.map Native.name) :
    (natives.foldl Machine.bindNative s).slot? globalFrame name = s.slot? globalFrame name := by
  induction natives generalizing s with
  | nil => rfl
  | cons native rest ih =>
    rw [List.map_cons, List.mem_cons, not_or] at hname
    rw [List.foldl_cons, ih (frame?_bindNative h native) hname.2, slot?_bindNative h,
      if_neg (Ne.symm hname.1)]

/-- Functions of different names are bound one after another, each where its name is new, and stay. -/
theorem slot?_start (host : Host) (sink : Sink) {done rest : List Native} {given : Native}
    (hdistinct : ((done ++ given :: rest).map Native.name).Nodup) :
    (Machine.start done host sink).store.slot? globalFrame given.name = none ∧
      ∃ id, (Machine.start (done ++ given :: rest) host sink).store.slot? globalFrame given.name =
        some ⟨some (.callable (.native id)), true⟩ := by
  rw [List.map_append, List.map_cons, List.nodup_append] at hdistinct
  obtain ⟨-, hbehind, hapart⟩ := hdistinct
  have hbefore : given.name ∉ done.map Native.name := fun hmem =>
    hapart _ hmem _ List.mem_cons_self rfl
  let globals := (Store.addFrame {} ⟨.globals, .empty, none⟩).2
  have hglobals : (globals.frame? globalFrame).isSome := rfl
  let bound := done.foldl Machine.bindNative globals
  have hbound : (bound.frame? globalFrame).isSome := frame?_foldl_bindNative hglobals
  have hstart : (Machine.start (done ++ given :: rest) host sink).store =
      rest.foldl Machine.bindNative (Machine.bindNative bound given) := List.foldl_append
  refine ⟨slot?_foldl_bindNative hglobals hbefore, (bound.addNative given).1, ?_⟩
  rw [hstart, slot?_foldl_bindNative (frame?_bindNative hbound given) (List.nodup_cons.mp hbehind).1,
    slot?_bindNative hbound, if_pos rfl]

end Natives

/-! ## Parameters -/

/-- The names of the frame of a call are its parameters. -/
theorem find?_parameterFrame {params : List Token} {body : List Stmt} {args : List Value}
    {outer : FrameId} {name : String} (hname : name ∉ params.map Token.lexeme) :
    (Eval.parameterFrame params body args outer).names.find? name = none := by
  suffices h : ∀ names : NameMap Slot, names.find? name = none →
      ((params.zip args).foldl (fun names entry => names.insert entry.1.lexeme ⟨some entry.2, false⟩)
        names).find? name = none from h _ rfl
  induction params generalizing args with
  | nil => exact fun _ h => h
  | cons param params ih =>
    rw [List.map_cons, List.mem_cons, not_or] at hname
    intro names h
    cases args with
    | nil => exact h
    | cons arg args =>
      exact ih hname.2 _ ((NameMap.find?_insert_of_ne _ _ (Ne.symm hname.1)).trans h)

/-! ## Statements -/

theorem frames_addStatics (here : FrameId) (decls : List FunctionDecl) (s : Store) :
    (Eval.addStatics here decls s).2.frames = s.frames := by
  unfold Eval.addStatics
  generalize (NameMap.empty : NameMap FunctionId) = statics
  induction decls generalizing s statics with
  | nil => rfl
  | cons decl decls ih => exact ih (s.addFunction ⟨decl, here, false⟩).2 _

theorem frames_declareClass {decl : ClassDecl} {base : Option ClassId} {m after : Machine}
    {u : Unit} (h : Eval.declareClass decl base m = .ok u after) :
    ∃ value, after.store.frames = (m.store.declare m.here decl.name.lexeme value true).frames := by
  rw [Eval.declareClass] at h
  obtain ⟨m₁, _, hget, h⟩ := exists_of_bind h
  cases hget
  obtain ⟨id, m₁, hmade, h⟩ := exists_of_bind h
  obtain ⟨-, rfl⟩ := Eval.ok_of_updateStore hmade
  cases h
  refine ⟨some (.callable (.class id)), ?_⟩
  have hsame := frames_addStatics m.here decl.statics m.store
  exact congrArg (fun frames : Array Frame => Store.frames (Store.declare { frames } _ _ _ _)) hsame

/-- To ask whether a value is a class changes nothing. -/
theorem eq_of_asBaseClass {decl : ClassDecl} {base : Expr} {value : Value} {id : ClassId}
    {m after : Machine} (h : Eval.asBaseClass decl base value m = .ok id after) : after = m := by
  obtain ⟨found, m₁, hask, h⟩ := exists_of_bind h
  obtain ⟨-, rfl⟩ := Eval.ok_of_inspect hask
  cases found with
  | some id =>
    cases h
    rfl
  | none =>
    dsimp only at h
    split at h <;> cases h

/-- The machine behind the expression that a statement evaluates first. -/
def Stmt.Behind (fuel : Nat) (lookup : Lookup) (s : Stmt) (m m₁ : Machine) : Prop :=
  (s.first? = none ∧ m₁ = m) ∨
    ∃ first v, s.first? = some first ∧ Eval.evaluate fuel lookup first m = .ok v m₁

/-- A statement that declares a name binds it in the current frame, when it has evaluated what it
has to. -/
theorem Stmt.binds {fuel : Nat} {lookup : Lookup} {s : Stmt} {name : Token} {kind : DeclarationKind}
    {m after : Machine} {signal : Signal} (hname : s.declaration? = some (name, kind))
    (hrun : Eval.execute (fuel + 1) lookup s m = .ok signal after) :
    ∃ m₁ value, s.Behind fuel lookup m m₁ ∧ after.store.frames =
      (m₁.store.declare m₁.here name.lexeme value !kind.isMutable).frames := by
  cases s with
  | var name initializer =>
    cases hname
    rw [Eval.execute.eq_def] at hrun
    cases initializer with
    | none =>
      cases hrun
      exact ⟨m, none, .inl ⟨rfl, rfl⟩, rfl⟩
    | some initializer =>
      obtain ⟨v, m₁, hvalue, hrun⟩ := exists_of_bind hrun
      cases hrun
      exact ⟨m₁, some v, .inr ⟨initializer, v, rfl, hvalue⟩, rfl⟩
  | const name initializer =>
    cases hname
    rw [Eval.execute] at hrun
    obtain ⟨v, m₁, hvalue, hrun⟩ := exists_of_bind hrun
    cases hrun
    exact ⟨m₁, some v, .inr ⟨initializer, v, rfl, hvalue⟩, rfl⟩
  | function decl =>
    cases hname
    rw [Eval.execute] at hrun
    cases hrun
    exact ⟨m, _, .inl ⟨rfl, rfl⟩, rfl⟩
  | «class» decl =>
    cases hname
    rw [Eval.execute] at hrun
    cases hbase : decl.base with
    | none =>
      rw [hbase] at hrun
      obtain ⟨_, _, hnone, hrun⟩ := exists_of_bind hrun
      cases hnone
      obtain ⟨_, m₁, hdeclare, hrun⟩ := exists_of_bind hrun
      cases hrun
      obtain ⟨value, hframes⟩ := frames_declareClass hdeclare
      exact ⟨m, value, .inl ⟨hbase, rfl⟩, hframes⟩
    | some base =>
      rw [hbase] at hrun
      obtain ⟨v, m₁, hvalue, hrun⟩ := exists_of_bind hrun
      obtain ⟨id, m₂, hclass, hrun⟩ := exists_of_bind hrun
      obtain ⟨_, m₃, hdeclare, hrun⟩ := exists_of_bind hrun
      cases hrun
      rw [map_eq_pure_bind] at hclass
      obtain ⟨base, _, hclass, hsome⟩ := exists_of_bind hclass
      cases hsome
      obtain rfl := eq_of_asBaseClass hclass
      obtain ⟨value, hframes⟩ := frames_declareClass hdeclare
      exact ⟨m₂, value, .inr ⟨_, v, hbase, hvalue⟩, hframes⟩
  | expression | print | println | block | ifElse | «while» | «for» | «break» | «continue» | assert
  | «return» => cases hname

/-- Where a statement was accepted, the frame does not bind its name yet. -/
theorem Stmt.Fits.binds_new {course : Course} {fuel : Nat} {s : Stmt} {ribs : List Rib}
    {name : Token} {kind : DeclarationKind} {m after : Machine} {signal : Signal}
    (hs : s.Fits course ribs) (hhosts : Hosts ribs s) (h : Placed course ribs m)
    (hname : s.declaration? = some (name, kind))
    (hrun : Eval.execute (fuel + 1) course.lookup s m = .ok signal after) :
    ∃ m₁ value, s.Behind fuel course.lookup m m₁ ∧ m₁.here = m.here ∧
      m₁.store.slot? m.here name.lexeme = none ∧
      after.store.frames = (m₁.store.declare m.here name.lexeme value !kind.isMutable).frames := by
  obtain ⟨m₁, value, hbehind, hframes⟩ := s.binds hname hrun
  have hkeeps : Keeps course none m m₁ := by
    obtain ⟨-, rfl⟩ | ⟨first, v, hfirst, hvalue⟩ := hbehind
    · exact .refl h.sound
    · have hlies : Eval.Lies course fuel (.execute s) m (.evaluate first) m :=
        (Eval.Begins.expression hfirst).execute_lies ⟨ribs, hs, hhosts, h⟩
      exact Expr.Stands.evaluates hlies.fits |>.ok hvalue
  obtain ⟨rib, outer, rfl⟩ : ∃ rib outer, ribs = rib :: outer := by
    cases h.stands.mirrors with
    | outermost | inner => exact ⟨_, _, rfl⟩
  have hfree := (hkeeps.placed h).stands.constant?_none (hs.fresh hname)
  rw [hkeeps.here, Store.constant?_eq_slot?, Option.map_eq_none_iff] at hfree
  exact ⟨m₁, value, hbehind, hkeeps.here, hfree, hkeeps.here ▸ hframes⟩

/-! ## Runs of programs -/

section Programs

variable {course : Course} {bound fuel : Nat} {ribs : List Rib} {s : Stmt} {program : List Stmt}
  {start m : Machine}

/-- From before a program to behind it constants stay. -/
theorem Rests.endures_interpret (h : Rests course ribs m) (hribs : Outermost ribs)
    (hfits : BodyFits course program ribs) :
    m.store.Endures (m.interpret bound course.lookup program).2.store := by
  induction program generalizing m ribs with
  | nil =>
    rw [Machine.interpret]
    split <;> exact .refl _
  | cons s rest ih =>
    obtain ⟨hs, hrest⟩ := hfits.cons
    have htask : (Eval.Task.execute s).Fits course m := ⟨ribs, hs, hribs.hosts s, h.toPlaced⟩
    have hfirst : m.store.Endures ((Eval.execute bound course.lookup s).leaves m).store :=
      htask.endures
    rw [Machine.interpret]
    cases hrun : Eval.execute bound course.lookup s m with
    | ok signal m₁ =>
      rw [leaves_of_ok hrun] at hfirst
      exact hfirst.trans (ih (h.execute_ok hribs hs hrun) (hribs.grow s) hrest)
    | error halt m₁ =>
      rw [leaves_of_error hrun] at hfirst
      exact hfirst

/-- A run comes to its statements where they were accepted, and constants stay from the end of each
to its own end. -/
theorem Machine.Executes.fits (h : Machine.Executes bound course.lookup s m start program)
    (hstart : Rests course ribs start) (hribs : Outermost ribs)
    (hfits : BodyFits course program ribs) :
    (Eval.Task.execute s).Fits course m ∧
      ((Eval.execute bound course.lookup s).leaves m).store.Endures
        (start.interpret bound course.lookup program).2.store := by
  induction h generalizing ribs with
  | @here rest =>
    obtain ⟨hs, hrest⟩ := hfits.cons
    refine ⟨⟨ribs, hs, hribs.hosts s, hstart.toPlaced⟩, ?_⟩
    rw [Machine.interpret]
    cases hrun : Eval.execute bound course.lookup s m with
    | ok signal m₁ =>
      rw [leaves_of_ok hrun]
      exact (hstart.execute_ok hribs hs hrun).endures_interpret (hribs.grow s) hrest
    | error halt m₁ =>
      rw [leaves_of_error hrun]
      exact .refl _
  | later hfirst _ ih =>
    obtain ⟨hs, hrest⟩ := hfits.cons
    rw [Machine.interpret, hfirst]
    exact ih (hstart.execute_ok hribs hs hfirst) (hribs.grow _) hrest

/-- A run comes to calls where their code was accepted. -/
theorem Machine.Comes.fits {task : Eval.Task}
    (h : Machine.Comes bound course.lookup start program fuel task m)
    (hstart : Rests course ribs start) (hribs : Outermost ribs)
    (hfits : BodyFits course program ribs) : task.Fits course m := by
  induction h with
  | statement hs => exact (hs.fits hstart hribs hfits).1
  | call _ hbegins ih => exact (hbegins.lies ih).fits

end Programs

end LoxLang
