import LoxLang.Proofs.Binding.Reports
import LoxLang.Proofs.Grammar.Verdict
import LoxLang.Proofs.Session.WellFormed

/-!
# Verdicts of a session

A run tells that it went without a fault just if no error is seen afterwards (`Session.Coherent`,
`verdict_coherent`).
-/

namespace LoxLang

@[simp] theorem Log.sawError_addFault (log : Log) (fault : Fault) :
    (log.addFault fault).sawError = true := by
  simp [Log.addFault, Log.add]

theorem Log.sawError_addFaults (log : Log) (faults : List Fault) :
    (log.addFaults faults).sawError = (log.sawError || !faults.isEmpty) := by
  have hseen {log : Log} (h : log.sawError = true) (faults : List Fault) :
      (log.addFaults faults).sawError = true := by
    induction faults generalizing log with
    | nil => exact h
    | cons fault rest ih => exact ih (log.sawError_addFault fault)
  cases faults with
  | nil => simp [Log.addFaults]
  | cons fault rest =>
    rw [List.isEmpty_cons, Bool.not_false, Bool.or_true]
    exact hseen (log.sawError_addFault fault) rest

namespace Session

/-- What a run tells, what has been reported behind it and the exit code say the same. -/
structure Coherent (run : Bool × Session) : Prop where
  verdict : run.1 = !run.2.log.sawError
  exitCode : run.2.exitCode = 0 ↔ run.1 = true

theorem Coherent.of_verdict {run : Bool × Session} (h : run.1 = !run.2.log.sawError) :
    Coherent run := by
  refine ⟨h, ?_⟩
  rw [h, Session.exitCode]
  cases run.2.log.sawError <;> decide

variable {s : Session}

/-- A source is rejected by the scanner or the grammar just if an error is seen. -/
theorem sawError_read (s : Session) (source : String) (interactive : Bool) :
    (s.read source interactive).2.log.sawError = (s.read source interactive).1.isNone := by
  unfold read
  dsimp only
  split
  · next hseen => exact hseen
  · next hseen =>
    have hverdict := Parse.program_verdict interactive s.nextId (scan source).1
    rw [Log.sawError_addFaults, Bool.eq_false_iff.mpr hseen, Bool.false_or, ParseResult.faults,
      List.isEmpty_map]
    dsimp only
    cases hstatements : (Parse.program interactive s.nextId (scan source).1).statements with
    | none => simpa using hverdict.mp hstatements
    | some =>
      rw [hstatements] at hverdict
      simpa using hverdict

/-- A program is rejected by the analysis just if an error is seen. -/
theorem sawError_resolve {program : List Stmt} (h : WellFormedBody program false)
    (hlog : s.log.sawError = false) :
    (s.resolve program).2.log.sawError = (s.resolve program).1.isNone := by
  have hseen := (s.resolver.reports_resolve s.settings s.log h).2 hlog
  unfold resolve
  dsimp only
  split
  · next hnone => rw [hseen, hnone]; rfl
  · next hsome => rw [hseen, hsome]; rfl

theorem sawError_accept (s : Session) (source : String) (interactive : Bool) :
    (s.accept source interactive).2.log.sawError = (s.accept source interactive).1.isNone := by
  have hread := s.sawError_read source interactive
  have hformed := (s.read_wellFormed source interactive).2
  unfold accept
  split
  · next heq => rw [heq] at hread; exact hread
  · next program after heq =>
    rw [heq] at hread hformed
    exact sawError_resolve (hformed program rfl) hread

theorem coherent_interpret {program : List Stmt} (hlog : s.log.sawError = false)
    (hbound : (s.machine.interpret s.bound { distances := s.distances } program).1 ≠
      .error .outOfFuel) : Coherent (s.interpret program) := by
  refine .of_verdict ?_
  unfold interpret
  dsimp only
  split
  · exact (congrArg not hlog).symm
  · next halt machine hrun =>
    rw [hrun] at hbound
    cases halt with
    | error error => simp
    | outOfFuel => exact absurd rfl hbound

theorem coherent_execute {source : String} {interactive : Bool}
    (hbound : ∀ program after, s.accept source interactive = (some program, after) →
      (after.machine.interpret after.bound { distances := after.distances } program).1 ≠
        .error .outOfFuel) : Coherent (s.execute source interactive) := by
  have haccept := s.sawError_accept source interactive
  unfold execute
  split
  · next heq =>
    rw [heq] at haccept
    exact .of_verdict (congrArg not haccept).symm
  · next program after heq =>
    rw [heq] at haccept
    exact coherent_interpret haccept (hbound program after heq)

theorem coherent_of_outcome {source : String} {interactive : Bool} {input : Input}
    {before : Session} (haccept : s.take input = before.accept source interactive)
    (hbound : s.outcome input ≠ some (.error .outOfFuel)) :
    Coherent (before.execute source interactive) := by
  refine coherent_execute fun program after heq hrun => hbound ?_
  rw [outcome, haccept, heq]
  exact congrArg some hrun

end Session

/-- A parse gives no program just if it reports a fault. So a run, in whatever session and of
whatever source, tells that it failed just if an error is seen behind it, and just then the exit
code is not zero; but for a run that reaches the bound on its depth. -/
theorem verdict_coherent :
    (∀ (interactive : Bool) (firstId : NodeId) (tokens : List Token),
      (Parse.program interactive firstId tokens).statements = none ↔
        (Parse.program interactive firstId tokens).errors ≠ []) ∧
    ∀ (s : Session) (source : String),
      (s.outcome (.program source) ≠ some (.error .outOfFuel) → Session.Coherent (s.run source)) ∧
      (s.outcome (.line source) ≠ some (.error .outOfFuel) → Session.Coherent (s.runLine source)) :=
  ⟨Parse.program_verdict, fun _ _ =>
    ⟨Session.coherent_of_outcome rfl, Session.coherent_of_outcome rfl⟩⟩

/-- A program that prints a number, and a line that is tried again and notes the same fault twice.
-/
theorem verdict_coherent_tried_again :
    let s := Session.startWithin 30 {} ⟨(0.0 : Float), []⟩ {}
    Session.Coherent (s.run "print 1;") ∧ (s.run "print 1;").1 = true ∧
      Session.Coherent (s.runLine "1 = 2") ∧ (s.runLine "1 = 2").1 = false := by
  have hprint : ((Session.startWithin 30 {} ⟨(0.0 : Float), []⟩ {}).outcome
      (.program "print 1;")).any Except.isOk = true := by
    decide +kernel
  have hagain : ((Session.startWithin 30 {} ⟨(0.0 : Float), []⟩ {}).outcome
      (.line "1 = 2")).isNone = true := by
    decide +kernel
  refine ⟨(verdict_coherent.2 _ _).1 fun h => ?_, by decide +kernel,
    (verdict_coherent.2 _ _).2 fun h => ?_, by decide +kernel⟩
  · rw [h] at hprint
    cases hprint
  · rw [h] at hagain
    cases hagain

end LoxLang
