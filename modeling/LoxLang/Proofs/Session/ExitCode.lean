import LoxLang.Proofs.Log
import LoxLang.Proofs.Session.WellFormed

/-!
# The exit code and the diagnostics on record

The log of a session is one that was once empty, after any inputs (`Session.kept_feedAll`). So the
exit code tells of an error just if one is on record, but for the note that a log writes when it has
overflowed with warnings (`exitCode_feedAll`).
-/

namespace LoxLang

namespace Session

variable {s : Session}

theorem kept_read (h : s.log.Kept) (source : String) (interactive : Bool) :
    (s.read source interactive).2.log.Kept := by
  unfold read
  dsimp only
  split
  · exact h.addFaults _
  · exact (h.addFaults _).addFaults _

/-- Reading a line begins with an empty log. -/
theorem kept_readInput (h : s.log.Kept) (input : Input) : (s.readInput input).2.log.Kept := by
  cases input with
  | program source => exact kept_read h source false
  | line source => exact kept_read (Log.kept_empty _) source true
  | outside host sink => exact h

theorem kept_resolve (h : s.log.Kept) {program : List Stmt} (hformed : WellFormedBody program false) :
    (s.resolve program).2.log.Kept := by
  have hkept := h.grows (s.resolver.reports_resolve s.settings s.log hformed).1
  unfold resolve
  dsimp only
  split
  · exact hkept
  · exact hkept

theorem kept_interpret (h : s.log.Kept) (program : List Stmt) : (s.interpret program).2.log.Kept := by
  obtain ⟨ended, after, hrun⟩ := s.exists_interpret program
  rw [hrun]
  rcases ended with (error | _) | _
  · exact h.add _
  · exact h
  · exact h

theorem kept_take (h : s.log.Kept) (input : Input) : (s.take input).2.log.Kept := by
  have hread := kept_readInput h input
  have hformed := s.readInput_wellFormed input
  unfold take
  split
  · next hinput =>
    rw [hinput] at hread
    exact hread
  · next program _ hinput =>
    rw [hinput] at hread hformed
    exact kept_resolve hread (hformed program rfl)

theorem kept_feed (h : s.log.Kept) (input : Input) : (s.feed input).log.Kept := by
  have htake := kept_take h input
  rw [feed_eq]
  split
  · next htaken =>
    rw [htaken] at htake
    exact htake
  · next program after htaken =>
    rw [htaken] at htake
    exact kept_interpret htake program

theorem kept_feedAll (h : s.log.Kept) (inputs : List Input) : (s.feedAll inputs).log.Kept := by
  induction inputs generalizing s with
  | nil => exact h
  | cons input rest ih => exact ih (kept_feed h input)

/-- What the exit code says of the diagnostics on record. -/
structure ExitMatches (s : Session) : Prop where
  /-- There is an error or worse on record just if the exit code says so or the note has been
  written. -/
  fault_iff : (∃ d ∈ s.log.recorded, d.isFault = true) ↔ s.exitCode = 1 ∨ s.log.overflowed = true
  /-- Behind an exit code of zero there is nothing worse than a warning on record but the note. -/
  only_note : s.exitCode = 0 → s.log.recorded.filter Diagnostic.isFault =
    if s.log.overflowed then [Log.overflowNote s.log.cap] else []
  /-- The exit code is one or zero. -/
  binary : s.exitCode = 0 ∨ s.exitCode = 1

theorem exitCode_eq_one : s.exitCode = 1 ↔ s.log.sawError = true := by
  unfold exitCode
  cases s.log.sawError <;> decide

theorem exitCode_eq_zero : s.exitCode = 0 ↔ s.log.sawError = false := by
  unfold exitCode
  cases s.log.sawError <;> decide

theorem ExitMatches.of_kept (h : s.log.Kept) : ExitMatches s := by
  obtain ⟨reported, htells⟩ := h
  refine ⟨⟨?_, ?_⟩, fun hzero => htells.filter_recorded (exitCode_eq_zero.mp hzero), ?_⟩
  · rintro ⟨d, hd, hfault⟩
    rw [exitCode_eq_one, or_iff_not_imp_left, Bool.not_eq_true]
    intro hseen
    have honly := htells.filter_recorded hseen
    by_contra hover
    rw [if_neg hover, List.filter_eq_nil_iff] at honly
    exact honly d hd hfault
  · rintro (hone | hover)
    · exact htells.exists_fault (exitCode_eq_one.mp hone)
    · exact ⟨_, htells.note_mem hover, rfl⟩
  · rw [exitCode_eq_zero, exitCode_eq_one]
    exact (Bool.eq_false_or_eq_true _).symm

end Session

/-- After any inputs, whatever the settings, the exit code is one just if an error or worse is on
record, unless diagnostics have been left out and all that came were warnings: then the note is the
only thing on record that is worse. -/
theorem exitCode_feedAll (bound : Nat) (settings : Settings) (host : Host) (sink : Sink)
    (inputs : List Input) :
    ((Session.startWithin bound settings host sink).feedAll inputs).ExitMatches :=
  .of_kept (Session.kept_feedAll (Log.kept_empty _) inputs)

/-- A warning that finds no room leaves the note on record and the exit code at zero. -/
example :
    let s := (Session.startWithin 30 { maxErrors := 0 } ⟨(0.0 : Float), []⟩ {}).feedAll
      [.program "\x7b var a = 1; \x7d"]
    s.exitCode = 0 ∧ s.log.recorded.any Diagnostic.isFault = true := by
  decide +kernel

end LoxLang
