import LoxLang.Proofs.Machine.Stages

/-!
# Straight-line runs

A straight-line program that is accepted goes from stage to stage, and where it reads a name without
a value, it does so at one of its hazards (`straightRuns`, `Stage.interpret`): such a program comes
to no object, so that it always stops at the object of a property assignment before it evaluates the
value, while the analysis takes the value first.
-/

namespace LoxLang

/-- How a straight-line run may stop: at a name without a value only where there is a hazard. -/
def Halt.Excused (hazards : List Token) : Halt → Prop
  | .error (.located (.uninitialized name) token) => name = token.lexeme ∧ token ∈ hazards
  | _ => True

theorem Halt.Excused.imp {hazards hazards' : List Token} (h : ∀ token ∈ hazards, token ∈ hazards')
    {halt : Halt} (hhalt : halt.Excused hazards) : halt.Excused hazards' := by
  unfold Excused at hhalt ⊢
  split
  · exact ⟨hhalt.1, h _ hhalt.2⟩
  · trivial

theorem Halt.excused_located {hazards : List Token} {cause : RunFault}
    (hcause : ∀ name, cause ≠ .uninitialized name) (token : Token) :
    Halt.Excused hazards (.error (.located cause token)) := by
  cases cause
  case uninitialized name => exact absurd rfl (hcause name)
  all_goals trivial

/-- A step that ends in a given way, or stops in a way that is excused. -/
abbrev Heeds {α : Type} (hazards : List Token) (act : Eval α) (m : Machine)
    (post : α → Machine → Prop) : Prop :=
  Ends post (fun halt _ => halt.Excused hazards) (act m)

namespace Heeds

variable {α β : Type} {hazards hazards' : List Token} {act : Eval α} {k : α → Eval β} {m : Machine}
  {P P' : α → Machine → Prop} {Q : β → Machine → Prop}

theorem bind (h : Heeds hazards act m P) (hk : ∀ a m₁, P a m₁ → Heeds hazards (k a) m₁ Q) :
    Heeds hazards (act >>= k) m Q := Ends.bind h fun a m₁ _ => hk a m₁

theorem imp (h : Heeds hazards act m P) (hsub : ∀ token ∈ hazards, token ∈ hazards')
    (hpost : ∀ a after, P a after → P' a after) : Heeds hazards' act m P' :=
  Ends.imp h hpost fun _ _ => .imp hsub

/-- Of two steps the former has the former hazards. -/
theorem left (h : Heeds hazards act m P) : Heeds (hazards ++ hazards') act m P :=
  h.imp (fun _ => List.mem_append_left _) fun _ _ => id

theorem right (h : Heeds hazards' act m P) : Heeds (hazards ++ hazards') act m P :=
  h.imp (fun _ => List.mem_append_right _) fun _ _ => id

theorem pure {a : α} (h : P a m) : Heeds hazards (pure a : Eval α) m P := h

theorem discard (h : Heeds hazards act m P) :
    Heeds hazards (discard act) m fun _ after => ∃ a, P a after :=
  Ends.discard h fun a _ hpost => ⟨a, hpost⟩

theorem outOfFuel : Heeds hazards (Eval.outOfFuel : Eval α) m P := trivial

theorem fail {cause : RunFault} (hcause : ∀ name, cause ≠ .uninitialized name) (token : Token) :
    Heeds hazards (Eval.fail cause token) m P := Halt.excused_located hcause token

/-- A question that may fail. -/
theorem ask {question : Machine → Except RunError α}
    (herror : ∀ error, question m = .error error → Halt.Excused hazards (.error error)) :
    Heeds hazards (Eval.ask question) m fun a after => after = m ∧ question m = .ok a :=
  Ends.ask (fun _ ha => ⟨rfl, ha⟩) herror

theorem inspect {question : Store → α} (h : Heeds hazards (k (question m.store)) m Q) :
    Heeds hazards (Eval.inspect question >>= k) m Q := h

end Heeds

/-- What a part of a straight-line program does: it comes back to its frame, and the frames keep
their places. -/
structure Advances (exempt : List String) (scopes : List StaticScope) (m after : Machine) : Prop where
  here : after.here = m.here
  frames : ∀ id, (m.store.frame? id).isSome →
    (after.store.frame? id).isSome ∧ after.store.outer? id = m.store.outer? id
  stage : Stage exempt scopes after

namespace Advances

variable {exempt exempt' : List String} {scopes scopes' : List StaticScope} {m m₁ m₂ : Machine}

theorem refl (h : Stage exempt scopes m) : Advances exempt scopes m m :=
  ⟨rfl, fun _ hid => ⟨hid, rfl⟩, h⟩

theorem trans (h : Advances exempt scopes m m₁) (h' : Advances exempt' scopes' m₁ m₂) :
    Advances exempt' scopes' m m₂ where
  here := h'.here.trans h.here
  frames id hid := by
    obtain ⟨hmid, houter⟩ := h.frames id hid
    obtain ⟨hafter, houter'⟩ := h'.frames id hmid
    exact ⟨hafter, houter'.trans houter⟩
  stage := h'.stage

/-- Where nothing has come to be stored in. -/
theorem stores (h : Advances exempt scopes m m₁) (hstores : Stores [] scopes scopes') :
    Advances exempt scopes' m m₁ := ⟨h.here, h.frames, h.stage.stores hstores⟩

end Advances

/-! ## Steps -/

section Steps

variable {exempt : List String} {a : Analysis} {scopes : List StaticScope} {m : Machine}
  {lookup : Lookup} {hazards : List Token} {node : NodeId} {name : Token} {hops : Nat} {value : Value}

/-- Calls of this type: an expression with a value that is simple. -/
def Valued (exempt : List String) (scopes : List StaticScope) (m : Machine) (value : Value)
    (after : Machine) : Prop := value.Simple ∧ Advances exempt scopes m after

theorem Heeds.computed {operator : Token} {result : Computed} (h : Stage exempt scopes m)
    (hscalar : ∀ value, result = .ok value → value.Scalar)
    (hfault : ∀ cause, result = .error cause → cause.isOfOperator = true) :
    Heeds hazards (Eval.computed result operator) m (Valued exempt scopes m) :=
  Ends.computed (fun value hvalue => ⟨.inl (hscalar value hvalue), .refl h⟩) fun cause hcause =>
    Halt.excused_located (fun name heq => by subst heq; exact nomatch hfault _ hcause) operator

/-- A watch stops a run in a way of its own. -/
theorem Heeds.watched {α : Type} {act : Eval α} {post : α → Machine → Prop}
    (h : Heeds hazards act m post) :
    Heeds hazards (Eval.watch lookup node name >>= fun _ => act) m post :=
  Ends.watch_bind (fun _ => trivial) h

theorem Store.read_of_getAt (s : Store) (here : FrameId) (hops : Nat) (name : Token) :
    (∃ owner slot, s.ancestor? here hops = some owner ∧ s.slot? owner name.lexeme = some slot ∧
      s.getAt here hops name = slot.read name) ∨
        s.getAt here hops name = .error (Store.unboundError name) := by
  unfold getAt searchAt
  cases howner : s.ancestor? here hops with
  | none => exact .inr rfl
  | some owner =>
    dsimp only
    cases hslot : s.slot? owner name.lexeme with
    | none => exact .inr rfl
    | some slot => exact .inl ⟨owner, slot, rfl, hslot, rfl⟩

/-- A name is read where the analysis takes it to have a value, or it is exempt. -/
theorem Heeds.readName (h : Stage exempt scopes m) (hdistance : lookup.distances[node]? = some hops)
    {scope : StaticScope} (hscope : scopes[hops]? = some scope)
    (hstored : scope.isStored name.lexeme = true) :
    Heeds (if name.lexeme ∈ exempt then [name] else []) (Eval.readName lookup node name) m
      (Valued exempt scopes m) := by
  refine .watched (.imp (.ask fun error herror => ?_) (fun _ => id) fun value after hread => ?_)
  · rw [hdistance] at herror
    dsimp only at herror
    rcases m.store.read_of_getAt m.here hops name with
      ⟨owner, slot, howner, hslot, hread⟩ | hread
    · rw [hread, Slot.read] at herror
      split at herror <;> cases herror
      next hvalue =>
      refine ⟨rfl, ?_⟩
      by_cases hexempt : name.lexeme ∈ exempt
      · rw [if_pos hexempt]
        exact List.mem_singleton_self _
      · have hsome := h.stored hscope hstored hexempt howner hslot
        rw [hvalue] at hsome
        cases hsome
    · cases hread.symm.trans herror
      trivial
  · obtain ⟨rfl, hread⟩ := hread
    rw [hdistance] at hread
    dsimp only at hread
    rcases after.store.read_of_getAt after.here hops name
      with ⟨owner, slot, howner, hslot, hfound⟩ | hfound
    · rw [hfound, Slot.read] at hread
      split at hread <;> cases hread
      next hvalue => exact ⟨h.simple hslot hvalue, .refl h⟩
    · cases hfound.symm.trans hread

/-- What a frame takes that may be written. -/
theorem Store.exists_of_writableAt {s : Store} {here owner : FrameId}
    (h : s.writableAt here hops name = .ok owner) : s.ancestor? here hops = some owner := by
  unfold writableAt searchAt at h
  cases howner : s.ancestor? here hops with
  | none =>
    rw [howner] at h
    cases h
  | some found =>
    rw [howner] at h
    dsimp only at h
    cases hslot : s.slot? found name.lexeme with
    | none =>
      rw [hslot] at h
      cases h
    | some slot =>
      rw [hslot] at h
      cases hcheck : slot.checkWrite name with
      | error error => simp only [Bind.bind, Except.bind, hcheck] at h; cases h
      | ok =>
        simp only [Bind.bind, Except.bind, hcheck] at h
        cases h
        rfl

theorem Store.writableAt_fault {s : Store} {here : FrameId} {error : RunError}
    (h : s.writableAt here hops name = .error error) :
    Halt.Excused hazards (.error error) := by
  unfold writableAt at h
  cases hsearch : s.searchAt here hops name with
  | error cause =>
    rw [hsearch] at h
    cases h
    cases searchAt_error hsearch
    trivial
  | ok found =>
    rw [hsearch] at h
    obtain ⟨owner, slot⟩ := found
    cases hconst : slot.isConst with
    | true =>
      simp only [Bind.bind, Except.bind, Slot.checkWrite, hconst, if_true] at h
      cases h
      trivial
    | false =>
      simp only [Bind.bind, Except.bind, Slot.checkWrite, hconst] at h
      cases h

theorem Heeds.writeName (h : Stage exempt scopes m) (hdistance : lookup.distances[node]? = some hops)
    (hvalue : value.Simple) {behind : List StaticScope} {change : StaticBinding → StaticBinding}
    (hbehind : behind = Analysis.modifyAt name.lexeme change hops scopes) :
    Heeds hazards (Eval.writeName lookup node name value) m fun _ after =>
      Advances exempt behind m after := by
  subst hbehind
  refine .watched (Heeds.bind (.ask fun error herror => ?_) fun owner m₁ hask => ?_)
  · rw [hdistance] at herror
    exact Store.writableAt_fault herror
  · obtain ⟨rfl, howner⟩ := hask
    rw [hdistance] at howner
    refine ⟨rfl, fun other hother => ⟨?_, Store.outer?_store ..⟩,
      h.write (Store.exists_of_writableAt howner) hvalue change⟩
    show ((m₁.store.store owner name.lexeme value).frame? other).isSome
    rw [Store.frame?_store]
    split
    · rw [Option.isSome_map]
      exact hother
    · exact hother

theorem Heeds.callNative {native : NativeId} {args : List Value} {paren : Token}
    (h : Stage exempt scopes m) :
    Heeds hazards (Eval.callNative native args paren) m (Valued exempt scopes m) := by
  have hset (host : Host) : Advances exempt scopes m { m with host } :=
    ⟨rfl, fun _ hid => ⟨hid, rfl⟩, h.here, h.descends, h.simple, h.stored⟩
  exact Ends.callNative (fun _ host hscalar => ⟨.inl hscalar, hset host⟩) fun _ _ => trivial

/-- A simple value that can be called is a built-in function. -/
theorem Heeds.invoke {fuel : Nat} {callee : Value} {paren : Token} {args : List Value}
    (h : Stage exempt scopes m) (hcallee : callee.Simple) :
    Heeds hazards (Eval.invoke fuel lookup callee paren args) m (Valued exempt scopes m) := by
  cases fuel with rw [Eval.invoke]
  | zero => exact .outOfFuel
  | succ fuel =>
    have hcheck : Heeds hazards (Eval.checkCall callee paren args.length) m fun found after =>
        after = m ∧ ∃ native, found = .native native := by
      rcases hcallee with hscalar | ⟨native, rfl⟩
      · cases callee with
        | callable | «instance» => exact hscalar.elim
        | nil | bool | int | float | str => exact trivial
      · refine .inspect ?_
        split
        · exact ⟨rfl, native, rfl⟩
        · exact trivial
    refine hcheck.bind fun found m₁ hfound => ?_
    obtain ⟨rfl, native, rfl⟩ := hfound
    exact Heeds.callNative h

theorem Heeds.write (h : Stage exempt scopes m) (text : String) :
    Heeds hazards (Eval.write text) m fun _ after => Advances exempt scopes m after := by
  have hwritten : Advances exempt scopes m { m with sink := (m.sink.write text).2 } :=
    ⟨rfl, fun _ hid => ⟨hid, rfl⟩, h.here, h.descends, h.simple, h.stored⟩
  exact Ends.write hwritten fun _ => trivial

/-- A name is bound in the current frame. -/
theorem Heeds.declare {before after : List StaticScope} (h : Stage exempt before m) {name : String}
    {value : Option Value} {isConst : Bool} (hvalue : ∀ v, value = some v → v.Simple)
    (hscopes : ∀ {hops scope}, after[hops]? = some scope → ∃ earlier, before[hops]? = some earlier ∧
      ∀ other, scope.isStored other = true →
        (hops = 0 ∧ other = name ∧ value.isSome) ∨
          ((hops = 0 → other ≠ name) ∧ earlier.isStored other = true)) :
    Heeds hazards (Eval.declare name value isConst) m fun _ behind =>
      Advances exempt after m behind := by
  refine ⟨rfl, fun other hother => ⟨?_, Store.outer?_declare ..⟩, h.declare hvalue hscopes⟩
  show ((m.store.declare m.here name value isConst).frame? other).isSome
  rw [Store.frame?_declare]
  split
  · rw [Option.isSome_map]
    exact hother
  · exact hother

/-- Something that is done in a new frame inside the current one. -/
theorem Heeds.opened {α : Type} {kind : ScopeKind} {act : Eval α} {post : α → Prop}
    {after : List StaticScope} (h : Stage exempt scopes m)
    (hact : ∀ inner, Stage exempt (⟨kind, .empty⟩ :: scopes) inner →
      Heeds hazards act inner fun a behind => post a ∧ Advances exempt after inner behind) :
    Heeds hazards (Eval.openFrame kind >>= fun frame => Eval.within frame act) m fun a behind =>
      post a ∧ Advances exempt after.tail m behind := by
  let frame : Frame := ⟨kind, .empty, some m.here⟩
  let opened : Machine := { m with store := (m.store.addFrame frame).2 }
  let inner : Machine := { opened with here := (m.store.addFrame frame).1 }
  have hinner := hact inner (h.enter kind kind)
  have hold : ∀ id, (m.store.frame? id).isSome →
      (inner.store.frame? id).isSome ∧ inner.store.outer? id = m.store.outer? id := by
    intro id hid
    have hne : id ≠ (m.store.addFrame frame).1 := fun heq => by
      rw [heq, Store.frame?_addFrame_new] at hid
      cases hid
    have hframe : inner.store.frame? id = m.store.frame? id :=
      (Store.frame?_addFrame ..).trans (if_neg hne)
    exact ⟨hframe ▸ hid, congrArg (Option.bind · Frame.outer) hframe⟩
  have hnew : inner.store.frame? inner.here = some frame :=
    (Store.frame?_addFrame ..).trans (if_pos rfl)
  refine .within (Ends.imp hinner ?_ fun _ _ => id)
  rintro a behind ⟨hpost, hbehind⟩
  have hhere : behind.here = inner.here := hbehind.here
  have houter : behind.store.outer? behind.here = some m.here := by
    rw [hhere, (hbehind.frames inner.here (Option.isSome_iff_exists.mpr ⟨_, hnew⟩)).2,
      Store.outer?, hnew]
    rfl
  refine ⟨hpost, rfl, fun id hid => ?_, hbehind.stage.leave houter
    (hbehind.frames m.here (hold m.here h.here).1).1⟩
  obtain ⟨hkept, hsame⟩ := hold id hid
  obtain ⟨hafter, hsame'⟩ := hbehind.frames id hkept
  exact ⟨hafter, hsame'.trans hsame⟩

end Steps

/-! ## Runs -/

/-- What is known of straight-line runs up to some depth: code that the analysis accepts goes on
where the analysis does. -/
structure StraightRuns (record : Record) (lookup : Lookup) (fuel : Nat) : Prop where
  evaluate : ∀ {e : Expr} {a : Analysis} {exempt : List String} {m : Machine}, e.isStraight = true →
    a.around.classRole = .none →
    Ready record e.Regular (e.analyse record.settings a) (e.visits record.settings a) →
    Stage exempt a.scopes m →
    Heeds (e.hazards exempt) (Eval.evaluate fuel lookup e) m
      (Valued exempt (e.analyse record.settings a).scopes m)
  evaluateEach : ∀ {es : List Expr} {a : Analysis} {exempt : List String} {m : Machine},
    areStraight es = true → a.around.classRole = .none →
    Ready record (RegularEach es) (analyseEach record.settings es a)
      (visitsOfEach record.settings es a) →
    Stage exempt a.scopes m →
    Heeds (hazardsOfEach exempt es) (Eval.evaluateEach fuel lookup es) m
      fun _ => Advances exempt (analyseEach record.settings es a).scopes m
  execute : ∀ {s : Stmt} {a : Analysis} {m : Machine}, s.isStraight = true →
    a.around.classRole = .none →
    Ready record s.Regular (s.analyse record.settings a) (s.visits record.settings a) →
    Stage [] a.scopes m →
    Heeds s.hazards (Eval.execute fuel lookup s) m
      fun signal after => signal = .completed ∧
        Advances [] (s.analyse record.settings a).scopes m after
  executeEach : ∀ {ss : List Stmt} {a : Analysis} {m : Machine}, isStraightBody ss = true →
    a.around.classRole = .none →
    Ready record (RegularBody ss) (analyseBody record.settings ss a)
      (visitsOfBody record.settings ss a) →
    Stage [] a.scopes m →
    Heeds (hazardsOfBody ss) (Eval.executeEach fuel lookup ss) m
      fun signal after => signal = .completed ∧
        Advances [] (analyseBody record.settings ss a).scopes m after

namespace StraightRuns

variable {record : Record} {lookup : Lookup} {fuel : Nat} {a : Analysis} {exempt : List String}
  {m : Machine}

theorem zero : StraightRuns record lookup 0 where
  evaluate _ _ _ _ := by
    rw [Eval.evaluate]
    exact .outOfFuel
  evaluateEach _ _ _ _ := by
    rw [Eval.evaluateEach]
    exact .outOfFuel
  execute _ _ _ _ := by
    rw [Eval.execute]
    exact .outOfFuel
  executeEach _ _ _ _ := by
    rw [Eval.executeEach]
    exact .outOfFuel

/-- A node is looked up where the analysis found its name. -/
theorem exists_distance (hagrees : Agrees record lookup.distances) {v : Visit}
    (hv : record.visited v) {hops : Nat} {binding : StaticBinding}
    (hfound : v.binding? = some (hops, binding)) : lookup.distances[v.id]? = some hops := by
  obtain ⟨found, hhops, hdistance⟩ := hagrees v hv
  rw [Visit.hops?_eq, hfound] at hhops
  cases hhops
  exact hdistance

theorem evaluate_variable (hagrees : Agrees record lookup.distances) {node : NodeId} {name : Token}
    (hready : Ready record (Expr.variable node name).Regular
      ((Expr.variable node name).analyse record.settings a)
      ((Expr.variable node name).visits record.settings a))
    (h : Stage exempt a.scopes m) :
    Heeds ((Expr.variable node name).hazards exempt) (Eval.readName lookup node name) m
      (Valued exempt ((Expr.variable node name).analyse record.settings a).scopes m) := by
  have hstores : Stores [] a.scopes (a.referVariable node name).scopes :=
    .referVariable hready.accepted
  have haccepted : (a.referVariable node name).failed = false := hready.accepted
  obtain ⟨hops, binding, hfound, hinitialized, -⟩ := Analysis.exists_of_referVariable haccepted
  obtain ⟨scope, hscope, hbinding⟩ := exists_of_findBinding? hfound
  have hdistance := exists_distance hagrees
    (hready.visited ⟨node, name, a.scopes⟩ (List.mem_singleton_self _)) hfound
  have hstored : scope.isStored name.lexeme = true := by
    rw [StaticScope.isStored, hbinding]
    exact hinitialized
  exact (Heeds.readName h hdistance hscope hstored).imp (fun _ => id) fun _ _ hvalue =>
    ⟨hvalue.1, hvalue.2.stores hstores⟩

/-- The value is looked at before the name is marked, and evaluated before it is written. -/
theorem evaluate_assign (hagrees : Agrees record lookup.distances)
    (ih : StraightRuns record lookup fuel) {node : NodeId} {name : Token} {value : Expr}
    (hstraight : value.isStraight = true) (hrole : a.around.classRole = .none)
    (hready : Ready record (Expr.assign node name value).Regular
      ((Expr.assign node name value).analyse record.settings a)
      ((Expr.assign node name value).visits record.settings a))
    (h : Stage exempt a.scopes m) :
    Heeds (value.hazards exempt) (Eval.evaluate (fuel + 1) lookup (.assign node name value)) m
      (Valued exempt ((Expr.assign node name value).analyse record.settings a).scopes m) := by
  rw [Eval.evaluate]
  let valued := value.analyse record.settings a
  have hnode : Analysed _ valued (valued.refer node name .write) _ [⟨.assign, node, name⟩] :=
    .refer rfl
  have haccepted : (valued.refer node name .write).failed = false := hready.accepted
  obtain ⟨hops, binding, hfound, -, hscopes⟩ := Analysis.exists_of_refer haccepted
  have hdistance := exists_distance hagrees (v := ⟨node, name, valued.scopes⟩)
    (hready.visited _ (List.mem_append_right _ (List.mem_singleton_self _))) hfound
  have hvalue := ih.evaluate hstraight hrole (hready.left And.left hnode.toWalk) h
  refine hvalue.bind fun v m₁ h₁ => ?_
  refine (Heeds.writeName h₁.2.stage hdistance h₁.1 hscopes).bind fun _ m₂ h₂ => ?_
  exact ⟨h₁.1, h₁.2.trans h₂⟩

theorem evaluate_call (ih : StraightRuns record lookup fuel) {callee : Expr} {paren : Token}
    {arguments : List Expr} (hstraight : (Expr.call callee paren arguments).isStraight = true)
    (hrole : a.around.classRole = .none)
    (hready : Ready record (Expr.call callee paren arguments).Regular
      ((Expr.call callee paren arguments).analyse record.settings a)
      ((Expr.call callee paren arguments).visits record.settings a))
    (h : Stage exempt a.scopes m) :
    Heeds ((Expr.call callee paren arguments).hazards exempt)
      (Eval.evaluate (fuel + 1) lookup (.call callee paren arguments)) m
      (Valued exempt ((Expr.call callee paren arguments).analyse record.settings a).scopes m) := by
  rw [Eval.evaluate]
  obtain ⟨hc, hargs⟩ := Bool.and_eq_true_iff.mp hstraight
  have hregular := hready.regular
  have hcallee := ih.evaluate hc hrole
    (hready.left And.left (analysedEach _ arguments _ hregular.2.1).toWalk) h
  have hbehind := (callee.analysed record.settings a hregular.1).outsideClass hrole
  refine hcallee.left.bind fun target m₁ h₁ => ?_
  have hgiven := ih.evaluateEach hargs hbehind (hready.right (·.2.1)) h₁.2.stage
  refine hgiven.right.bind fun args m₂ h₂ => ?_
  exact (Heeds.invoke h₂.stage h₁.1).imp (fun _ => id) fun _ _ h₃ =>
    ⟨h₃.1, (h₁.2.trans h₂).trans h₃.2⟩

/-- No simple value has attributes. -/
theorem evaluate_get (ih : StraightRuns record lookup fuel) {object : Expr} {name : Token}
    (hstraight : (Expr.get object name).isStraight = true) (hrole : a.around.classRole = .none)
    (hready : Ready record (Expr.get object name).Regular
      ((Expr.get object name).analyse record.settings a)
      ((Expr.get object name).visits record.settings a))
    (h : Stage exempt a.scopes m) {post : Value → Machine → Prop} :
    Heeds ((Expr.get object name).hazards exempt)
      (Eval.evaluate (fuel + 1) lookup (.get object name)) m post := by
  rw [Eval.evaluate]
  refine (ih.evaluate (e := object) hstraight hrole hready h).bind fun value m₁ h₁ => ?_
  rcases h₁.1 with hscalar | ⟨native, rfl⟩
  · cases value with
    | callable | «instance» => exact hscalar.elim
    | nil | bool | int | float | str => exact .fail (fun _ heq => by cases heq) name
  · exact .fail (fun _ heq => by cases heq) name

/-- The analysis takes the value before the object, so that in the object the names that the value
assigns to count as stored in. The evaluation comes to the object, and no further. -/
theorem evaluate_set (ih : StraightRuns record lookup fuel) {object value : Expr} {name : Token}
    (hstraight : (Expr.set object name value).isStraight = true)
    (hrole : a.around.classRole = .none)
    (hready : Ready record (Expr.set object name value).Regular
      ((Expr.set object name value).analyse record.settings a)
      ((Expr.set object name value).visits record.settings a))
    (h : Stage exempt a.scopes m) {post : Value → Machine → Prop} :
    Heeds ((Expr.set object name value).hazards exempt)
      (Eval.evaluate (fuel + 1) lookup (.set object name value)) m post := by
  rw [Eval.evaluate]
  obtain ⟨ho, hv⟩ := Bool.and_eq_true_iff.mp hstraight
  have hregular := hready.regular
  have hstores := value.stores hv hrole
    (hready.left (·.2.1) (object.analysed _ _ hregular.1).toWalk)
  have hbehind := (value.analysed record.settings a hregular.2.1).outsideClass hrole
  have hobject := ih.evaluate ho hbehind (hready.right And.left) (h.stores hstores)
  refine hobject.left.bind fun target m₁ h₁ => ?_
  rcases h₁.1 with hscalar | ⟨native, rfl⟩
  · cases target with
    | callable | «instance» => exact hscalar.elim
    | nil | bool | int | float | str => exact .fail (fun _ heq => by cases heq) name
  · exact .fail (fun _ heq => by cases heq) name

theorem evaluate_succ (hagrees : Agrees record lookup.distances)
    (ih : StraightRuns record lookup fuel) {e : Expr} (hstraight : e.isStraight = true)
    (hrole : a.around.classRole = .none)
    (hready : Ready record e.Regular (e.analyse record.settings a) (e.visits record.settings a))
    (h : Stage exempt a.scopes m) :
    Heeds (e.hazards exempt) (Eval.evaluate (fuel + 1) lookup e) m
      (Valued exempt (e.analyse record.settings a).scopes m) := by
  cases e with
  | literal value =>
    rw [Eval.evaluate]
    exact .pure ⟨.inl (Eval.scalar_literalValue value), .refl h⟩
  | grouping inner =>
    rw [Eval.evaluate]
    exact ih.evaluate (e := inner) hstraight hrole hready h
  | unary operator right =>
    rw [Eval.evaluate]
    refine (ih.evaluate (e := right) hstraight hrole hready h).bind fun value m₁ h₁ => ?_
    split
    · exact (Heeds.computed h₁.2.stage (fun _ => Value.scalar_applyUnary) fun _ =>
        Value.applyUnary_fault).imp (fun _ => id) fun _ _ h₂ => ⟨h₂.1, h₁.2.trans h₂.2⟩
    · exact .fail (fun _ heq => by cases heq) operator
  | binary left operator right =>
    rw [Eval.evaluate]
    obtain ⟨hl, hr⟩ := Bool.and_eq_true_iff.mp hstraight
    have hregular := hready.regular
    have hleft := ih.evaluate hl hrole
      (hready.left And.left (right.analysed _ _ hregular.2.1).toWalk) h
    have hbehind := (left.analysed record.settings a hregular.1).outsideClass hrole
    refine hleft.left.bind fun leftValue m₁ h₁ => ?_
    have hright := ih.evaluate hr hbehind (hready.right (·.2.1)) h₁.2.stage
    refine hright.right.bind fun rightValue m₂ h₂ => ?_
    split
    · exact .pure ⟨h₂.1, h₁.2.trans h₂.2⟩
    · exact (Heeds.computed h₂.2.stage (fun _ => Value.scalar_applyBinary) fun _ =>
        Value.applyBinary_fault).imp (fun _ => id) fun _ _ h₃ =>
          ⟨h₃.1, (h₁.2.trans h₂.2).trans h₃.2⟩
  | «variable» node name =>
    rw [Eval.evaluate]
    exact evaluate_variable hagrees hready h
  | assign node name value => exact evaluate_assign hagrees ih hstraight hrole hready h
  | call callee paren arguments => exact evaluate_call ih hstraight hrole hready h
  | get object name => exact evaluate_get ih hstraight hrole hready h
  | set object name value => exact evaluate_set ih hstraight hrole hready h
  | this node keyword =>
    cases (Analysis.failed_referThis hrole node keyword).symm.trans hready.accepted
  | super node keyword method =>
    cases (Analysis.failed_referSuper hrole node keyword).symm.trans hready.accepted
  | logical | ternary | arrow => cases hstraight

theorem evaluateEach_succ (ih : StraightRuns record lookup fuel) {es : List Expr}
    (hstraight : areStraight es = true) (hrole : a.around.classRole = .none)
    (hready : Ready record (RegularEach es) (analyseEach record.settings es a)
      (visitsOfEach record.settings es a))
    (h : Stage exempt a.scopes m) :
    Heeds (hazardsOfEach exempt es) (Eval.evaluateEach (fuel + 1) lookup es) m
      fun _ => Advances exempt (analyseEach record.settings es a).scopes m := by
  cases es with
  | nil =>
    rw [Eval.evaluateEach]
    exact .pure (.refl h)
  | cons e es =>
    rw [Eval.evaluateEach]
    obtain ⟨he, hes⟩ := Bool.and_eq_true_iff.mp hstraight
    have hregular := hready.regular
    have hfirst := ih.evaluate he hrole
      (hready.left And.left (analysedEach _ es _ hregular.2.1).toWalk) h
    have hbehind := (e.analysed record.settings a hregular.1).outsideClass hrole
    refine hfirst.left.bind fun value m₁ h₁ => ?_
    have hrest := ih.evaluateEach hes hbehind (hready.right (·.2.1)) h₁.2.stage
    exact hrest.right.bind fun values m₂ h₂ => .pure (h₁.2.trans h₂)

/-! ### Statements -/

theorem execute_uninitialized {name : Token} {hazards : List Token} (h : Stage [] a.scopes m) :
    Heeds hazards (do
        Eval.declare name.lexeme none false
        return Signal.completed) m fun signal after => signal = .completed ∧
      Advances [] ((a.declare record.settings .variable name).define name).scopes m after := by
  have hdeclare : Heeds hazards (Eval.declare name.lexeme none false) m fun _ after =>
      Advances [] (a.declare record.settings .variable name).scopes m after := by
    refine .declare h (fun _ hnone => by cases hnone) fun hscope => ?_
    obtain ⟨earlier, hearlier, hnames⟩ := Analysis.stored_declare hscope
    exact ⟨earlier, hearlier, fun other hother => .inr (hnames other hother)⟩
  exact hdeclare.bind fun _ m₁ h₁ => .pure ⟨rfl, h₁.stores (.define _ name)⟩

theorem execute_initialized (ih : StraightRuns record lookup fuel) {kind : DeclarationKind}
    {name : Token} (initializer : Expr) {isConst : Bool}
    (hstraight : initializer.isStraight = true) (hrole : a.around.classRole = .none)
    (hready : Ready record initializer.Regular
      (initializer.analyse record.settings (a.declare record.settings kind name))
      (initializer.visits record.settings (a.declare record.settings kind name)))
    (h : Stage [] a.scopes m) :
    Heeds (initializer.hazards []) (do
        let value ← Eval.evaluate fuel lookup initializer
        Eval.declare name.lexeme (some value) isConst
        return Signal.completed) m fun signal after => signal = .completed ∧
      Advances [] (((initializer.analyse record.settings
        (a.declare record.settings kind name)).markReady name).define name).scopes m after := by
  let declared := a.declare record.settings kind name
  have hdeclared : declared.around.classRole = .none := Analysed.declare.outsideClass hrole
  have hstage : Stage [] declared.scopes m := h.stores (.declare kind name a)
  refine (ih.evaluate hstraight hdeclared hready hstage).bind fun value m₁ h₁ => ?_
  have hdeclare : Heeds (initializer.hazards []) (Eval.declare name.lexeme (some value) isConst) m₁
      fun _ after => Advances []
        ((initializer.analyse record.settings declared).markReady name).scopes m₁ after := by
    refine .declare h₁.2.stage (fun v hv => Option.some.inj hv ▸ h₁.1) fun {i _} hscope => ?_
    obtain ⟨earlier, hearlier, hnames⟩ := Analysis.stored_markReady hscope
    refine ⟨earlier, hearlier, fun other hother => ?_⟩
    by_cases hsame : i = 0 ∧ other = name.lexeme
    · exact .inl ⟨hsame.1, hsame.2, rfl⟩
    · exact .inr ⟨fun hi heq => hsame ⟨hi, heq⟩, (hnames other hother).resolve_left hsame⟩
  exact hdeclare.bind fun _ m₂ h₂ => .pure ⟨rfl, h₁.2.trans (h₂.stores (.define _ name))⟩

/-- What is written out is the text of a value. -/
theorem execute_written (ih : StraightRuns record lookup fuel) (value : Expr)
    (hstraight : value.isStraight = true) (hrole : a.around.classRole = .none)
    (hready : Ready record value.Regular (value.analyse record.settings a)
      (value.visits record.settings a))
    (h : Stage [] a.scopes m) (text : Store → Value → String) :
    Heeds (value.hazards []) (do
        let value ← Eval.evaluate fuel lookup value
        Eval.write (← Eval.inspect fun s => text s value)
        return Signal.completed) m fun signal after => signal = .completed ∧
      Advances [] (value.analyse record.settings a).scopes m after := by
  refine (ih.evaluate hstraight hrole hready h).bind fun v m₁ h₁ => .inspect ?_
  exact (Heeds.write h₁.2.stage _).bind fun _ m₂ h₂ => .pure ⟨rfl, h₁.2.trans h₂⟩

theorem execute_block (ih : StraightRuns record lookup fuel) {body : List Stmt}
    (hstraight : (Stmt.block body).isStraight = true) (hrole : a.around.classRole = .none)
    (hready : Ready record (Stmt.block body).Regular
      ((Stmt.block body).analyse record.settings a) ((Stmt.block body).visits record.settings a))
    (h : Stage [] a.scopes m) :
    Heeds (hazardsOfBody body) (Eval.execute (fuel + 1) lookup (.block body)) m
      fun signal after => signal = .completed ∧
        Advances [] ((Stmt.block body).analyse record.settings a).scopes m after := by
  rw [Eval.execute]
  let opened := a.openScope (.block body)
  have hbody : Ready record (RegularBody body) (analyseBody record.settings body opened)
      (visitsOfBody record.settings body opened) := hready.before Analysed.closeScope.toWalk
  have hclosed : ((Stmt.block body).analyse record.settings a).scopes =
      (analyseBody record.settings body opened).scopes.tail :=
    (Analysis.closeScope_eq record.settings _).1
  rw [hclosed]
  exact .opened h fun inner hinner => ih.executeEach (a := opened) hstraight hrole hbody hinner

theorem execute_succ (ih : StraightRuns record lookup fuel) {s : Stmt}
    (hstraight : s.isStraight = true) (hrole : a.around.classRole = .none)
    (hready : Ready record s.Regular (s.analyse record.settings a) (s.visits record.settings a))
    (h : Stage [] a.scopes m) :
    Heeds s.hazards (Eval.execute (fuel + 1) lookup s) m fun signal after =>
      signal = .completed ∧ Advances [] (s.analyse record.settings a).scopes m after := by
  cases s with
  | expression value =>
    rw [Eval.execute]
    have hvalue := ih.evaluate (e := value) hstraight hrole hready h
    refine hvalue.discard.bind fun _ m₁ h₁ => ?_
    obtain ⟨_, h₁⟩ := h₁
    exact .pure ⟨rfl, h₁.2⟩
  | print value =>
    rw [Eval.execute]
    exact execute_written ih value hstraight hrole hready h Store.display
  | println value =>
    rw [Eval.execute]
    exact execute_written ih value hstraight hrole hready h
      fun s value => s.display value ++ "\n"
  | var name initializer =>
    cases initializer with
    | none =>
      rw [Eval.execute]
      exact execute_uninitialized h
    | some initializer =>
      rw [Eval.execute]
      exact execute_initialized ih initializer hstraight hrole
        (((hready.imp And.left).before Analysed.define.toWalk).before Analysed.markReady.toWalk) h
  | const name initializer =>
    rw [Eval.execute]
    exact execute_initialized ih initializer hstraight hrole
      (((hready.imp And.left).before Analysed.define.toWalk).before Analysed.markReady.toWalk) h
  | block body => exact execute_block ih hstraight hrole hready h
  | ifElse | «while» | «for» | «break» | «continue» | assert | function | «return» | «class» =>
    cases hstraight

theorem executeEach_succ (ih : StraightRuns record lookup fuel) {ss : List Stmt}
    (hstraight : isStraightBody ss = true) (hrole : a.around.classRole = .none)
    (hready : Ready record (RegularBody ss) (analyseBody record.settings ss a)
      (visitsOfBody record.settings ss a))
    (h : Stage [] a.scopes m) :
    Heeds (hazardsOfBody ss) (Eval.executeEach (fuel + 1) lookup ss) m fun signal after =>
      signal = .completed ∧ Advances [] (analyseBody record.settings ss a).scopes m after := by
  cases ss with
  | nil =>
    rw [Eval.executeEach]
    exact .pure ⟨rfl, .refl h⟩
  | cons s ss =>
    rw [Eval.executeEach]
    obtain ⟨hs, hss⟩ := Bool.and_eq_true_iff.mp hstraight
    have hregular := hready.regular
    have hfirst := ih.execute hs hrole
      (hready.left And.left (analysedBody _ ss _ hregular.2.1).toWalk) h
    have hbehind := (s.analysed record.settings a hregular.1).outsideClass hrole
    refine hfirst.left.bind fun signal m₁ h₁ => ?_
    obtain ⟨rfl, h₁⟩ := h₁
    have hrest := ih.executeEach hss hbehind (hready.right (·.2.1)) h₁.stage
    exact hrest.right.imp (fun _ => id) fun _ _ h₂ => ⟨h₂.1, h₁.trans h₂.2⟩

end StraightRuns

/-- Straight-line code that the analysis accepts goes on where the analysis does, and stops at a
name without a value only where there is a hazard. -/
theorem straightRuns {record : Record} {lookup : Lookup} (hagrees : Agrees record lookup.distances)
    (fuel : Nat) : StraightRuns record lookup fuel := by
  induction fuel with
  | zero => exact .zero
  | succ fuel ih =>
    exact ⟨ih.evaluate_succ hagrees, ih.evaluateEach_succ, ih.execute_succ, ih.executeEach_succ⟩

/-- A straight-line program that is accepted. -/
theorem Stage.interpret {record : Record} {program : List Stmt} {a : Analysis} {m : Machine}
    (bound : Nat) (lookup : Lookup) (hagrees : Agrees record lookup.distances)
    (hstraight : isStraightBody program = true) (hrole : a.around.classRole = .none)
    (hready : Ready record (RegularBody program) (analyseBody record.settings program a)
      (visitsOfBody record.settings program a))
    (h : Stage [] a.scopes m) :
    match m.interpret bound lookup program with
    | (.ok _, after) => Advances [] (analyseBody record.settings program a).scopes m after
    | (.error halt, _) => halt.Excused (hazardsOfBody program) := by
  induction program generalizing a m with
  | nil =>
    rw [Machine.interpret]
    split
    · next hflush =>
      split at hflush <;> cases hflush
      exact .refl h
    · next hflush =>
      split at hflush <;> cases hflush
      trivial
  | cons s rest ih =>
    obtain ⟨hs, hrest⟩ := Bool.and_eq_true_iff.mp hstraight
    have hregular := hready.regular
    have hfirst := (straightRuns hagrees bound).execute hs hrole
      (hready.left And.left (analysedBody _ rest _ hregular.2.1).toWalk) h
    have hbehind := (s.analysed record.settings a hregular.1).outsideClass hrole
    rw [Machine.interpret]
    cases hrun : Eval.execute bound lookup s m with
    | error halt after => exact (hfirst.error hrun).imp fun _ => List.mem_append_left _
    | ok signal m₁ =>
      obtain ⟨-, hadvances⟩ := hfirst.ok hrun
      have hnext := ih hrest hbehind (hready.right (·.2.1)) hadvances.stage
      dsimp only
      split
      · next hlater =>
        rw [hlater] at hnext
        exact hadvances.trans hnext
      · next hlater =>
        rw [hlater] at hnext
        exact hnext.imp fun _ => List.mem_append_right _

end LoxLang
