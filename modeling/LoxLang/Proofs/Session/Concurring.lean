import LoxLang.Proofs.Binding.Concurring
import LoxLang.Proofs.Session.Verdict

/-!
# Settings and behaviour

The settings decide which warnings are reported and how many diagnostics are kept. Nothing else of a
session depends on them: two sessions that get the same inputs under different settings tell the
same, write the same and come to the same state (`Session.Concurs`, `settings_only_report`).
-/

namespace LoxLang

theorem Log.sawError_addFaults_congr {log log' : Log} (h : log.sawError = log'.sawError)
    (faults : List Fault) : (log.addFaults faults).sawError = (log'.addFaults faults).sawError := by
  rw [sawError_addFaults, sawError_addFaults, h]

namespace Session

/-- Sessions that differ in nothing but the settings and what has been reported; an error has been
seen in both or in neither. -/
structure Concurs (s s' : Session) : Prop where
  resolver : s.resolver = s'.resolver
  distances : s.distances = s'.distances
  machine : s.machine = s'.machine
  nextId : s.nextId = s'.nextId
  bound : s.bound = s'.bound
  seen : s.log.sawError = s'.log.sawError

/-- Runs that tell the same and end in sessions that concur. -/
structure ConcurringRun (run run' : Bool × Session) : Prop where
  went : run.1 = run'.1
  session : run.2.Concurs run'.2

/-- The same program, or none, in sessions that concur. -/
structure ConcurringProgram (result result' : Option (List Stmt) × Session) : Prop where
  program : result.1 = result'.1
  session : result.2.Concurs result'.2

variable {s s' : Session}

theorem Concurs.exitCode (h : s.Concurs s') : s.exitCode = s'.exitCode := by
  rw [Session.exitCode, Session.exitCode, h.seen]

theorem Concurs.reset (h : s.Concurs s') :
    Concurs { s with log := s.log.reset } { s' with log := s'.log.reset } :=
  { h with seen := rfl }

theorem Concurs.read (h : s.Concurs s') (source : String) (interactive : Bool) :
    ConcurringProgram (s.read source interactive) (s'.read source interactive) := by
  have hscanned := Log.sawError_addFaults_congr h.seen (scan source).2
  unfold Session.read
  dsimp only
  rw [← hscanned, ← h.nextId]
  split
  · exact ⟨rfl, { h with nextId := rfl, seen := hscanned }⟩
  · exact ⟨rfl, { h with nextId := rfl, seen := Log.sawError_addFaults_congr hscanned _ }⟩

/-- The verdict on a program is the same, and its faults are reported in both or in neither. -/
theorem Concurs.resolve (h : s.Concurs s') {program : List Stmt}
    (hformed : WellFormedBody program false) (hseen : s.log.sawError = false) :
    ConcurringProgram (s.resolve program) (s'.resolve program) := by
  obtain ⟨hresolver, hdistances⟩ := Resolver.resolve_concurs s.settings s'.settings s.log s'.log
    program s.resolver
  have hlog : (s.resolver.resolve s.settings s.log program).log.sawError =
      (s.resolver.resolve s'.settings s'.log program).log.sawError := by
    rw [(s.resolver.reports_resolve s.settings s.log hformed).2 hseen, hdistances,
      (s.resolver.reports_resolve s'.settings s'.log hformed).2 (h.seen ▸ hseen)]
  unfold Session.resolve
  dsimp only
  rw [← h.resolver, ← hdistances]
  split
  · exact ⟨rfl, { h with seen := hlog, resolver := hresolver }⟩
  · exact ⟨rfl, { h with
      seen := hlog
      resolver := hresolver
      distances := congrArg (noteDistances · _) h.distances }⟩

theorem Concurs.interpret (h : s.Concurs s') (program : List Stmt) :
    ConcurringRun (s.interpret program) (s'.interpret program) := by
  unfold Session.interpret
  dsimp only
  rw [← h.machine, ← h.bound, ← h.distances]
  split
  · exact ⟨rfl, { h with machine := rfl, distances := rfl, bound := rfl }⟩
  · next halt machine _ =>
    have hresolver := congrArg (Resolver.retain machine.isGlobal) h.resolver
    cases halt with
    | error error =>
      have hlog : (s.log.addFault error.toFault).sawError =
          (s'.log.addFault error.toFault).sawError := by
        rw [Log.sawError_addFault, Log.sawError_addFault]
      exact ⟨rfl, { h with
        machine := rfl, resolver := hresolver, distances := rfl, bound := rfl, seen := hlog }⟩
    | outOfFuel =>
      exact ⟨rfl, { h with machine := rfl, resolver := hresolver, distances := rfl, bound := rfl }⟩

theorem Concurs.accept (h : s.Concurs s') (source : String) (interactive : Bool) :
    ConcurringProgram (s.accept source interactive) (s'.accept source interactive) := by
  have hread := h.read source interactive
  have hseen := s.sawError_read source interactive
  have hformed := (s.read_wellFormed source interactive).2
  unfold Session.accept
  generalize s.read source interactive = result, s'.read source interactive = result'
    at hread hseen hformed
  obtain ⟨parsed, mid⟩ := result
  obtain ⟨parsed', mid'⟩ := result'
  obtain ⟨rfl, hmid⟩ := hread
  cases parsed with
  | none => exact ⟨rfl, hmid⟩
  | some program => exact Concurs.resolve hmid (hformed program rfl) hseen

theorem Concurs.execute (h : s.Concurs s') (source : String) (interactive : Bool) :
    ConcurringRun (s.execute source interactive) (s'.execute source interactive) := by
  have haccept := h.accept source interactive
  unfold Session.execute
  generalize s.accept source interactive = result, s'.accept source interactive = result'
    at haccept
  obtain ⟨accepted, after⟩ := result
  obtain ⟨accepted', after'⟩ := result'
  obtain ⟨rfl, hafter⟩ := haccept
  cases accepted with
  | none => exact ⟨rfl, hafter⟩
  | some program => exact Concurs.interpret hafter program

theorem Concurs.run (h : s.Concurs s') (source : String) :
    ConcurringRun (s.run source) (s'.run source) :=
  h.execute source false

theorem Concurs.runLine (h : s.Concurs s') (line : String) :
    ConcurringRun (s.runLine line) (s'.runLine line) :=
  h.reset.execute line true

theorem Concurs.feed (h : s.Concurs s') (input : Input) : (s.feed input).Concurs (s'.feed input) := by
  cases input with
  | program source => exact (h.run source).session
  | line source => exact (h.runLine source).session
  | outside host sink =>
    exact { h with machine := congrArg (fun m : Machine => { m with host, sink }) h.machine }

theorem Concurs.feedAll (h : s.Concurs s') (inputs : List Input) :
    (s.feedAll inputs).Concurs (s'.feedAll inputs) := by
  induction inputs generalizing s s' with
  | nil => exact h
  | cons input rest ih => exact ih (h.feed input)

end Session

/-- Two sessions under different settings get the same inputs. At every step they have the same
globals, of the analysis and of the machine, have written the same and have the same exit code. The
next program or line tells the same in both and leaves them so, and the analysis accepts the same
programs, with the same distance for every node. -/
theorem settings_only_report (bound : Nat) (settings settings' : Settings) (host : Host)
    (sink : Sink) (inputs : List Input) :
    let s := (Session.startWithin bound settings host sink).feedAll inputs
    let s' := (Session.startWithin bound settings' host sink).feedAll inputs
    s.Concurs s' ∧ s.exitCode = s'.exitCode ∧
      (∀ source, Session.ConcurringRun (s.run source) (s'.run source) ∧
        Session.ConcurringRun (s.runLine source) (s'.runLine source)) ∧
      ∀ program, (s.resolver.resolve s.settings s.log program).distances =
        (s'.resolver.resolve s'.settings s'.log program).distances := by
  intro s s'
  have hstart : (Session.startWithin bound settings host sink).Concurs
      (Session.startWithin bound settings' host sink) := ⟨rfl, rfl, rfl, rfl, rfl, rfl⟩
  have h : s.Concurs s' := hstart.feedAll inputs
  refine ⟨h, h.exitCode, fun source => ⟨h.run source, h.runLine source⟩, fun program => ?_⟩
  rw [← h.resolver]
  exact (Resolver.resolve_concurs _ _ _ _ program s.resolver).2

end LoxLang
