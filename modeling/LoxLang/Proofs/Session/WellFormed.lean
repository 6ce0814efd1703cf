import LoxLang.Proofs.Binding.Reports
import LoxLang.Proofs.Grammar.Forming
import LoxLang.Proofs.Machine.Tidy
import LoxLang.Proofs.Session.History

/-!
# Sessions of well-formed programs

All programs that a session runs come from the grammar, so the code in its store is well formed
after any inputs (`Session.tidy_feedAll`), and no run stops at an operator that the evaluation does
not know.
-/

namespace LoxLang

/-- Before the first program there is no code. -/
theorem Machine.tidy_start (natives : List Native) (host : Host) (sink : Sink) :
    (Machine.start natives host sink).store.Tidy := by
  have hbound {s : Store} (h : s.Tidy) : (natives.foldl bindNative s).Tidy := by
    induction natives generalizing s with
    | nil => exact h
    | cons native rest ih => exact ih (h.of_eq rfl rfl rfl)
  refine hbound ⟨?_, ?_, ?_⟩ <;> intro id found hfound <;>
    simp [Store.function?, Store.arrow?, Store.class?] at hfound

namespace Session

variable {s : Session}

/-- Reading does not touch the machine. -/
theorem read_wellFormed (s : Session) (source : String) (interactive : Bool) :
    (s.read source interactive).2.machine = s.machine ∧
      ∀ program ∈ (s.read source interactive).1, WellFormedBody program false := by
  unfold read
  dsimp only
  split
  · exact ⟨rfl, nofun⟩
  · exact ⟨rfl, fun _ hprogram => Parse.program_wellFormed hprogram⟩

theorem readInput_wellFormed (s : Session) (input : Input) :
    ∀ program ∈ (s.readInput input).1, WellFormedBody program false := by
  cases input with
  | program source => exact (s.read_wellFormed source false).2
  | line source => exact (read_wellFormed { s with log := s.log.reset } source true).2
  | outside host sink => nofun

theorem tidy_readInput (h : s.machine.store.Tidy) (input : Input) :
    (s.readInput input).2.machine.store.Tidy := by
  cases input with
  | program source => exact (s.read_wellFormed source false).1.symm ▸ h
  | line source =>
    exact (read_wellFormed { s with log := s.log.reset } source true).1.symm ▸ h
  | outside host sink => exact h

/-- The analysis hands on the program it is given, and does not touch the machine either. -/
theorem resolve_program (s : Session) (program : List Stmt) :
    (s.resolve program).2.machine = s.machine ∧
      ∀ accepted ∈ (s.resolve program).1, accepted = program := by
  unfold resolve
  dsimp only
  split
  · exact ⟨rfl, nofun⟩
  · exact ⟨rfl, fun _ hsame => (Option.some.inj hsame).symm⟩

theorem take_wellFormed (h : s.machine.store.Tidy) (input : Input) :
    (s.take input).2.machine.store.Tidy ∧
      ∀ program ∈ (s.take input).1, WellFormedBody program false := by
  have htidy := tidy_readInput h input
  have hread := s.readInput_wellFormed input
  unfold take
  cases hinput : s.readInput input with
  | mk parsed after =>
    rw [hinput] at htidy hread
    cases parsed with
    | none => exact ⟨htidy, nofun⟩
    | some program =>
      obtain ⟨hmachine, hsame⟩ := after.resolve_program program
      exact ⟨hmachine.symm ▸ htidy, fun accepted haccepted =>
        hsame accepted haccepted ▸ hread program rfl⟩

theorem tidy_feed (h : s.machine.store.Tidy) (input : Input) :
    (s.feed input).machine.store.Tidy := by
  obtain ⟨htidy, hprogram⟩ := take_wellFormed h input
  rw [feed_eq]
  cases htaken : s.take input with
  | mk taken after =>
    rw [htaken] at htidy hprogram
    cases taken with
    | none => exact htidy
    | some program =>
      show (after.interpret program).2.machine.store.Tidy
      rw [machine_interpret]
      exact (Machine.interpret_orderly _ _ (hprogram program rfl) ⟨htidy, rfl⟩).1.store

theorem tidy_feedAll (h : s.machine.store.Tidy) (inputs : List Input) :
    (s.feedAll inputs).machine.store.Tidy := by
  induction inputs generalizing s with
  | nil => exact h
  | cons input rest ih => exact ih (tidy_feed h input)

theorem admissible_outcome (h : s.machine.store.Tidy) {input : Input} {halt : Halt}
    (hrun : s.outcome input = some (.error halt)) : halt.Admissible := by
  obtain ⟨htidy, hprogram⟩ := take_wellFormed h input
  unfold outcome at hrun
  cases htaken : s.take input with
  | mk taken after =>
    rw [htaken] at htidy hprogram hrun
    cases taken with
    | none => cases hrun
    | some program =>
      exact (Machine.interpret_orderly _ _ (hprogram program rfl) ⟨htidy, rfl⟩).2 halt
        (Option.some.inj hrun)

end Session

/-- Every program that is read is well formed. So its analysis, after whatever programs, reports no
jump outside a loop, and no run of a session, after whatever inputs, stops because a unary or binary
operator is not known. -/
theorem parsed_wellFormed :
    (∀ (interactive : Bool) (firstId : NodeId) (tokens : List Token) (statements : List Stmt),
      (Parse.program interactive firstId tokens).statements = some statements →
        WellFormedBody statements false ∧ ∀ (settings : Settings) (log : Log) (resolver : Resolver),
          log.Grows StaticFault.IsNoJump (resolver.resolve settings log statements).log) ∧
    ∀ (bound : Nat) (settings : Settings) (host : Host) (sink : Sink) (inputs : List Input)
      (input : Input) (halt : Halt),
      ((Session.startWithin bound settings host sink).feedAll inputs).outcome input =
        some (.error halt) → halt.Admissible := by
  refine ⟨fun interactive firstId tokens statements h => ?_,
    fun bound settings host sink inputs input halt h => ?_⟩
  · have hformed := Parse.program_wellFormed h
    exact ⟨hformed, fun settings log resolver => (resolver.reports_resolve settings log hformed).1⟩
  · exact Session.admissible_outcome
      (Session.tidy_feedAll (Machine.tidy_start standardNatives host sink) inputs) h

/-- A loop with jumps, and a sum of values that cannot be added. -/
theorem parsed_wellFormed_loop :
    (∃ statements, (Parse.program false 0
        (scan "while (true) \x7b if (nil) continue; break; \x7d").1).statements = some statements ∧
      WellFormedBody statements false) ∧
    ∃ halt, (Session.startWithin 30 {} ⟨(0.0 : Float), []⟩ {}).outcome (.line "nil + nil") =
      some (.error halt) ∧ halt.Admissible := by
  obtain ⟨statements, hstatements⟩ := Option.isSome_iff_exists.mp
    (show ((Parse.program false 0
        (scan "while (true) \x7b if (nil) continue; break; \x7d").1).statements).isSome = true by
      decide +kernel)
  have hstops : (((Session.startWithin 30 {} ⟨(0.0 : Float), []⟩ {}).outcome
      (.line "nil + nil")).any fun result => !result.isOk) = true := by
    decide +kernel
  obtain ⟨result, hresult, hstops⟩ := (Option.any_eq_true _ _).mp hstops
  refine ⟨⟨statements, hstatements, (parsed_wellFormed.1 _ _ _ _ hstatements).1⟩, ?_⟩
  cases result with
  | ok => cases hstops
  | error halt => exact ⟨halt, hresult, parsed_wellFormed.2 _ _ _ _ [] _ _ hresult⟩

end LoxLang
