import LoxLang.Proofs.Machine.StraightRuns
import LoxLang.Proofs.Session.Steady
import LoxLang.Proofs.Session.WellFormed

/-!
# Names without a value in straight-line programs

In a session of straight-line programs the names that the analysis takes to have a value have one
(`Calm`). So an accepted program of this kind reads a name without a value only in the object of a
property assignment whose value assigns to the name (`uninitialized_at_hazard`).
-/

namespace LoxLang

variable {s after : Session} {globals : StaticScope} {visits : List Visit} {program : List Stmt}

/-- A session between inputs in which all that the analysis takes to have a value has one. -/
structure Calm (s : Session) (globals : StaticScope) (visits : List Visit) : Prop extends
    Steady s globals visits where
  stage : Stage [] [globals] s.machine

/-- An accepted program, about to be executed where the analysis began. -/
structure Calm.Accepts (s : Session) (globals : StaticScope) (visits : List Visit)
    (program : List Stmt) (log : Log) : Prop where
  agrees : Agrees (s.record visits) s.distances
  ready : Ready (s.record visits) (RegularBody program)
    (analyseBody s.settings program ((Resolver.ofGlobals globals).opening log))
    (visitsOfBody s.settings program ((Resolver.ofGlobals globals).opening log))
  stage : Stage [] [globals] s.machine
  resolver : s.resolver.scopes =
    (analyseBody s.settings program ((Resolver.ofGlobals globals).opening log)).scopes

theorem Calm.resolve (h : Calm s globals visits) {firstId : NodeId}
    (hfirst : ∀ v ∈ visits, v.id < firstId) (hmade : MadeBody program firstId s.nextId)
    {accepted : List Stmt} (haccept : s.resolve program = (some accepted, after)) :
    accepted = program ∧
      Calm.Accepts after globals (visits ++ s.visitsOf program) program s.log := by
  have hloaded := h.toSteady.resolve hfirst hmade
  rw [haccept] at hloaded
  obtain ⟨rfl, hloaded⟩ := hloaded
  have hresolver := h.resolver
  unfold Session.resolve at haccept
  dsimp only at haccept
  split at haccept
  · cases haccept
  · next table htable =>
    cases haccept
    have haccepted := (Resolver.accepted htable).1
    rw [hresolver] at haccepted
    refine ⟨rfl, hloaded.agrees, ⟨hmade.regular, haccepted, fun v hv => ?_⟩, h.stage, ?_⟩
    · refine List.mem_append_right _ ?_
      rw [Session.visitsOf, htable, hresolver]
      exact hv
    · have hafter := Resolver.resolver_of_accepted htable
      rw [hresolver] at hafter
      exact (congrArg (fun b => (Resolver.resolve s.settings s.log accepted b).resolver.scopes)
        hresolver).trans (congrArg Resolver.scopes hafter)

/-- Nothing but what the next input gives is seen of the rest of a session. -/
theorem Stage.of_machine {scopes : List StaticScope} {m m' : Machine} (h : Stage [] scopes m)
    (hstore : m'.store = m.store) (hhere : m'.here = m.here) : Stage [] scopes m' := by
  obtain ⟨hframe, hdescends, hsimple, hstored⟩ := h
  constructor <;> rw [hstore]
  · exact hhere ▸ hframe
  · exact hdescends
  · exact hsimple
  · exact hhere ▸ hstored

theorem Calm.readInput (h : Calm s globals visits) (input : Input) :
    Calm (s.readInput input).2 globals visits ∧
      ∀ program ∈ (s.readInput input).1, ∃ firstId, (∀ v ∈ visits, v.id < firstId) ∧
        MadeBody program firstId (s.readInput input).2.nextId := by
  obtain ⟨hsteady, hmade⟩ := h.toSteady.readInput input
  refine ⟨⟨hsteady, h.stage.of_machine ?_ ?_⟩, hmade⟩
  all_goals
    cases input with
    | program source => rw [Session.readInput, (s.read_wellFormed source false).1]
    | line source =>
      exact congrArg _ (Session.read_wellFormed { s with log := s.log.reset } source true).1
    | outside host sink => rfl

/-- An input is either rejected or about to be executed where the analysis began. -/
theorem Calm.take (h : Calm s globals visits) (input : Input) :
    match s.take input with
    | (none, after) => Calm after globals visits
    | (some program, after) =>
      ∃ visits log, Calm.Accepts after globals visits program log := by
  have hsteady := h.toSteady.take input
  obtain ⟨hcalm, hmade⟩ := h.readInput input
  unfold Session.take at hsteady ⊢
  cases hinput : s.readInput input with
  | mk parsed mid =>
    rw [hinput] at hsteady hcalm hmade
    cases parsed with
    | none => exact hcalm
    | some program =>
      obtain ⟨firstId, hfirst, hmade⟩ := hmade program rfl
      have hmachine := (mid.resolve_program program).1
      dsimp only at hsteady ⊢
      cases hresolve : mid.resolve program with
      | mk accepted after =>
        rw [hresolve] at hsteady hmachine
        cases accepted with
        | none => exact ⟨hsteady.1, hcalm.stage.of_machine (congrArg _ hmachine) (congrArg _ hmachine)⟩
        | some accepted =>
          obtain ⟨rfl, haccepts⟩ := hcalm.resolve hfirst hmade hresolve
          exact ⟨_, _, haccepts⟩

/-- The run of an accepted straight-line program. -/
theorem Calm.Accepts.interpret {log : Log} (h : Calm.Accepts s globals visits program log)
    (hstraight : isStraightBody program = true) :
    match s.machine.interpret s.bound { distances := s.distances } program with
    | (.ok _, after) => Stage [] s.resolver.scopes after
    | (.error halt, _) => halt.Excused (hazardsOfBody program) := by
  have hrun := Stage.interpret s.bound { distances := s.distances } h.agrees hstraight rfl h.ready
    h.stage
  rw [h.resolver]
  split
  · next heq =>
    rw [heq] at hrun
    exact hrun.stage
  · next heq =>
    rw [heq] at hrun
    exact hrun

namespace Session

/-- Inputs that are straight-line programs and go without a fault, or are rejected. -/
def StraightAll (s : Session) : List Input → Prop
  | [] => True
  | input :: rest => (∀ program ∈ (s.take input).1, isStraightBody program = true) ∧
      (∀ halt, s.outcome input ≠ some (.error halt)) ∧ (s.feed input).StraightAll rest

end Session

theorem Calm.feed (h : Calm s globals visits) {input : Input}
    (hstraight : ∀ program ∈ (s.take input).1, isStraightBody program = true)
    (hgood : ∀ halt, s.outcome input ≠ some (.error halt)) :
    ∃ globals visits, Calm (s.feed input) globals visits := by
  obtain ⟨globals', hsteady⟩ := h.toSteady.feed input
  have htake := h.take input
  unfold Session.outcome at hgood
  rw [Session.feed_eq] at hsteady ⊢
  cases htaken : s.take input with
  | mk taken after =>
    rw [htaken] at htake hstraight hgood hsteady
    cases taken with
    | none => exact ⟨globals, visits, htake⟩
    | some program =>
      obtain ⟨visits', log, haccepts⟩ := htake
      have hrun := haccepts.interpret (hstraight program rfl)
      dsimp only at hsteady hgood ⊢
      cases hresult : after.machine.interpret after.bound { distances := after.distances } program with
      | mk result machine =>
        rw [hresult] at hrun hgood
        cases result with
        | error halt => exact absurd rfl (hgood halt)
        | ok =>
          rw [Session.interpret_eq hresult] at hsteady ⊢
          have hscopes : after.resolver.scopes = [globals'] :=
            congrArg Resolver.scopes hsteady.resolver
          exact ⟨globals', _, hsteady, hscopes ▸ hrun⟩

theorem Calm.feedAll (h : Calm s globals visits) {inputs : List Input} (hall : s.StraightAll inputs) :
    ∃ globals visits, Calm (s.feedAll inputs) globals visits := by
  induction inputs generalizing s globals visits with
  | nil => exact ⟨globals, visits, h⟩
  | cons input rest ih =>
    obtain ⟨hstraight, hgood, hrest⟩ := hall
    obtain ⟨globals', visits', hnext⟩ := h.feed hstraight hgood
    exact ih hnext hrest

/-- A store whose names are all built-in functions. -/
structure Store.OnlyNatives (s : Store) : Prop where
  globals : (s.frame? globalFrame).isSome
  descends : s.Descends
  native : ∀ {id name slot}, s.slot? id name = some slot →
    ∃ native, slot.value = some (.callable (.native native))

theorem Store.OnlyNatives.bindNative {s : Store} (h : s.OnlyNatives) (native : Native) :
    (Machine.bindNative s native).OnlyNatives where
  globals := frame?_bindNative h.globals native
  descends id outer houter :=
    h.descends id outer ((Store.outer?_declare (s.addNative native).2 ..).symm.trans houter)
  native {id name slot} hslot := by
    unfold Machine.bindNative at hslot
    by_cases hsame : globalFrame = id ∧ native.name = name
    · obtain ⟨rfl, rfl⟩ := hsame
      have hbound := (slot?_bindNative h.globals native native.name).trans (if_pos rfl)
      cases hbound.symm.trans hslot
      exact ⟨_, rfl⟩
    · exact h.native ((Store.slot?_declare_of_ne (s.addNative native).2 (not_and_or.mp hsame) _
        _).symm.trans hslot)

theorem Store.OnlyNatives.start (natives : List Native) (host : Host) (sink : Sink) :
    (Machine.start natives host sink).store.OnlyNatives := by
  have hbound {s : Store} (h : s.OnlyNatives) : (natives.foldl Machine.bindNative s).OnlyNatives := by
    induction natives generalizing s with
    | nil => exact h
    | cons native rest ih => exact ih (h.bindNative native)
  refine hbound ⟨rfl, fun id outer houter => ?_, fun {id name slot} hslot => ?_⟩
  all_goals
    obtain ⟨index⟩ := id
    cases index with
    | zero => first | cases houter | cases hslot
    | succ index => first | cases houter | cases hslot

theorem Store.OnlyNatives.stage {m : Machine} (h : m.store.OnlyNatives)
    (hhere : m.here = globalFrame) (scopes : List StaticScope) : Stage [] scopes m where
  here := hhere ▸ h.globals
  descends := h.descends
  simple hslot hvalue := by
    obtain ⟨native, hnative⟩ := h.native hslot
    exact .inr ⟨native, Option.some.inj (hvalue.symm.trans hnative)⟩
  stored _ _ _ _ hslot := by
    obtain ⟨native, hnative⟩ := h.native hslot
    rw [hnative]
    rfl

theorem Calm.start (bound : Nat) (settings : Settings) (host : Host) (sink : Sink) :
    ∃ globals, Calm (.startWithin bound settings host sink) globals [] := by
  obtain ⟨globals, hsteady⟩ := Steady.start bound settings host sink
  exact ⟨globals, hsteady, (Store.OnlyNatives.start standardNatives host sink).stage rfl _⟩

/-- After straight-line programs that went without a fault, an accepted straight-line program that
stops because a name has no value does so where it reads the name in the object of a property
assignment whose value assigns to the name. -/
theorem uninitialized_at_hazard (bound : Nat) (settings : Settings) (host : Host) (sink : Sink)
    (inputs : List Input) (input : Input) (program : List Stmt) (name : String) (token : Token)
    (hinputs : (Session.startWithin bound settings host sink).StraightAll inputs)
    (hprogram : (((Session.startWithin bound settings host sink).feedAll inputs).take input).1 =
      some program)
    (hstraight : isStraightBody program = true)
    (hfault : ((Session.startWithin bound settings host sink).feedAll inputs).outcome input =
      some (.error (.error (.located (.uninitialized name) token)))) :
    name = token.lexeme ∧ token ∈ hazardsOfBody program := by
  obtain ⟨globals, hstart⟩ := Calm.start bound settings host sink
  obtain ⟨globals', visits, hcalm⟩ := hstart.feedAll hinputs
  have htake := hcalm.take input
  unfold Session.outcome at hfault
  cases htaken : ((Session.startWithin bound settings host sink).feedAll inputs).take input with
  | mk taken after =>
    rw [htaken] at htake hprogram hfault
    obtain rfl : taken = some program := hprogram
    obtain ⟨visits', log, haccepts⟩ := htake
    have hrun := haccepts.interpret hstraight
    cases hresult : after.machine.interpret after.bound { distances := after.distances } program with
    | mk result machine =>
      dsimp only at hfault
      rw [hresult] at hrun hfault
      cases hfault
      exact hrun

/-- The name without a value at which a run has stopped, and where it is read. -/
def missing? : Except Halt Unit → Option (String × Token)
  | .error (.error (.located (.uninitialized name) token)) => some (name, token)
  | _ => none

theorem eq_of_missing? {result : Except Halt Unit} {name : String} {token : Token}
    (h : missing? result = some (name, token)) :
    result = .error (.error (.located (.uninitialized name) token)) := by
  unfold missing? at h
  split at h <;> cases h
  rfl

/-- A property of a name without a value, assigned by way of an assignment to the name. -/
theorem uninitialized_at_own_property :
    let s := Session.startWithin 30 {} ⟨(0.0 : Float), []⟩ {}
    ∃ program name token, ((s.feedAll [.line "var b = 1;"]).take (.line "var a; a.x = a = b;")).1 =
        some program ∧ isStraightBody program = true ∧
      (s.feedAll [.line "var b = 1;"]).outcome (.line "var a; a.x = a = b;") =
        some (.error (.error (.located (.uninitialized name) token))) ∧
      name = token.lexeme ∧ token ∈ hazardsOfBody program := by
  intro s
  have htaken : (((s.feedAll [.line "var b = 1;"]).take (.line "var a; a.x = a = b;")).1.any
      isStraightBody) = true := by
    decide +kernel
  have hstops : (((s.feedAll [.line "var b = 1;"]).outcome (.line "var a; a.x = a = b;")).any
      fun result => (missing? result).isSome) = true := by
    decide +kernel
  have hbefore : ((s.take (.line "var b = 1;")).1.all isStraightBody) = true ∧
      ((s.outcome (.line "var b = 1;")).all Except.isOk) = true := by
    decide +kernel
  obtain ⟨program, hprogram, hstraight⟩ := (Option.any_eq_true _ _).mp htaken
  obtain ⟨result, hresult, hmissing⟩ := (Option.any_eq_true _ _).mp hstops
  obtain ⟨⟨name, token⟩, hmissing⟩ := Option.isSome_iff_exists.mp hmissing
  rw [eq_of_missing? hmissing] at hresult
  have hstart : s.StraightAll [.line "var b = 1;"] := by
    refine ⟨fun first hfirst => ?_, fun halt hhalt => ?_, trivial⟩
    · have hall := hbefore.1
      rw [Option.mem_def.mp hfirst] at hall
      exact hall
    · have hall := hbefore.2
      rw [hhalt] at hall
      cases hall
  exact ⟨program, name, token, hprogram, hstraight, hresult,
    uninitialized_at_hazard _ _ _ _ _ _ _ _ _ hstart hprogram hstraight hresult⟩

end LoxLang
