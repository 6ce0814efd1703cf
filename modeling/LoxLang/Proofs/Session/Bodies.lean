import LoxLang.Proofs.Machine.Bodies
import LoxLang.Proofs.Session.Signals

/-!
# Bodies inside one another in a session

Whatever a call does, it leaves the current frame and the number of bodies that are being executed
as they were. So the machine counts just the bodies that a call lies in, between inputs there are
none, and a run stops for this reason just where one more body would be one too many
(`Session.Counts`).
-/

namespace LoxLang

namespace Session

/-- The run of an input comes to a call inside of so many bodies that are being executed. -/
def Nests (s : Session) (input : Input) (n fuel : Nat) (task : Eval.Task) (m : Machine) : Prop :=
  ∃ program, (s.take input).1 = some program ∧
    (s.take input).2.machine.Nests (s.take input).2.bound (s.lookup input) program n fuel task m

/-- A session whose machine counts the bodies that are being executed. -/
structure Counts (s : Session) : Prop where
  /-- Whatever is evaluated or executed in a machine, and however it ends, the machine is in the same
  frame afterwards and counts as many bodies. -/
  balanced : ∀ lookup fuel (task : Eval.Task) m,
    (task.leaves fuel lookup m).here = m.here ∧ (task.leaves fuel lookup m).depth = m.depth
  /-- Between inputs the machine is in the frame of the globals and counts no bodies. -/
  idle : ∀ inputs, (s.feedAll inputs).machine.here = globalFrame ∧
    (s.feedAll inputs).machine.depth = 0
  /-- A call that a run comes to lies in some number of bodies. This is what the machine counts, and
  it is never above the bound. -/
  depth : ∀ {inputs input fuel task m}, (s.feedAll inputs).Comes input fuel task m →
    (∃ n, (s.feedAll inputs).Nests input n fuel task m) ∧
      ∀ {n}, (s.feedAll inputs).Nests input n fuel task m → m.depth = n ∧ n ≤ maxDepth
  /-- A body that is not one too many is executed. -/
  entered : ∀ {inputs input n fuel outer params body args place m},
    (s.feedAll inputs).Nests input n (fuel + 1) (.callBody outer params body args place) m →
    n + 1 ≤ maxDepth →
      (s.feedAll inputs).Nests input (n + 1) fuel (.executeEach body)
        (m.calling outer params body args)
  /-- One that would be one too many stops the run with the fault for it. -/
  refused : ∀ {inputs input n fuel outer params body args place m},
    (s.feedAll inputs).Nests input n (fuel + 1) (.callBody outer params body args place) m →
    maxDepth < n + 1 →
      ∃ after, Eval.callBody (fuel + 1) ((s.feedAll inputs).lookup input) outer params body args
        place m = .error (.error (.located .tooDeep place)) after
  /-- No run stops with this fault for any other reason. -/
  raised : ∀ {inputs input place},
    (s.feedAll inputs).outcome input = some (.error (.error (.located .tooDeep place))) ↔
      ∃ n fuel outer params body args m,
        (s.feedAll inputs).Nests input n (fuel + 1) (.callBody outer params body args place) m ∧
          maxDepth < n + 1

section Runs

variable {s : Session} {input : Input} {n fuel : Nat} {task : Eval.Task} {m : Machine}

theorem Nests.comes (h : s.Nests input n fuel task m) : s.Comes input fuel task m :=
  let ⟨program, htake, hnests⟩ := h
  ⟨program, htake, hnests.comes⟩

theorem Comes.nests (h : s.Comes input fuel task m) : ∃ n, s.Nests input n fuel task m := by
  obtain ⟨program, htake, hcomes⟩ := h
  obtain ⟨n, hnests⟩ := hcomes.nests
  exact ⟨n, program, htake, hnests⟩

theorem Nests.depth {globals : StaticScope} {visits : List Visit} (h : s.Nests input n fuel task m)
    (hsteady : Steady s globals visits) : m.depth = n ∧ n ≤ maxDepth := by
  obtain ⟨program, htake, hnests⟩ := h
  obtain ⟨host, sink, hmachine⟩ := s.exists_machine_take input
  refine hnests.depth ?_
  rw [hmachine]
  exact hsteady.rests.depth

end Runs

end Session

/-- A call never leaves the frame or the count of bodies changed, the count is that of the bodies
around a call, and just one body too many stops a run for its depth, whatever inputs a session is
given. -/
theorem bodies_are_counted (bound : Nat) (settings : Settings) (host : Host) (sink : Sink) :
    (Session.startWithin bound settings host sink).Counts := by
  obtain ⟨globals, hstart⟩ := Steady.start bound settings host sink
  have hdepth {inputs input n fuel task m}
      (h : ((Session.startWithin bound settings host sink).feedAll inputs).Nests input n fuel task m) :
      m.depth = n ∧ n ≤ maxDepth := by
    obtain ⟨globals', hsteady⟩ := hstart.feedAll inputs
    exact h.depth hsteady
  constructor
  case balanced => exact Eval.Task.balanced
  case idle =>
    intro inputs
    obtain ⟨globals', hsteady⟩ := hstart.feedAll inputs
    exact ⟨hsteady.rests.here, hsteady.rests.depth⟩
  case depth =>
    intro inputs input fuel task m hcomes
    exact ⟨hcomes.nests, hdepth⟩
  case entered =>
    intro inputs input n fuel outer params body args place m hnests hroom
    have hbelow : m.depth < maxDepth := by
      rw [(hdepth hnests).1]
      exact hroom
    obtain ⟨program, htake, hinside⟩ := hnests
    exact ⟨program, htake, hinside.body rfl (.statements hbelow)⟩
  case refused =>
    intro inputs input n fuel outer params body args place m hnests hfull
    have hlimit : maxDepth ≤ m.depth := by
      rw [(hdepth hnests).1]
      exact Nat.le_of_lt_succ hfull
    exact (Eval.Task.AtLimit.tooDeep hlimit).cutShort
  case raised =>
    intro inputs input place
    rw [Session.outcome_eq_limit_iff rfl]
    constructor
    · rintro ⟨fuel, task, m, hcomes, hmeets⟩
      obtain ⟨n, hnests⟩ := hcomes.nests
      cases hmeets with
      | tooDeep hlimit =>
        rw [(hdepth hnests).1] at hlimit
        exact ⟨n, _, _, _, _, _, _, hnests, Nat.lt_succ_of_le hlimit⟩
    · rintro ⟨n, fuel, outer, params, body, args, m, hnests, hfull⟩
      have hlimit : maxDepth ≤ m.depth := by
        rw [(hdepth hnests).1]
        exact Nat.le_of_lt_succ hfull
      exact ⟨fuel + 1, _, m, hnests.comes, .tooDeep hlimit⟩

/-- The body of a function that a line calls lies in none, and what it executes lies in one. -/
theorem bodies_are_counted_in_call :
    let s := (Session.startWithin 30 {} ⟨(0.0 : Float), []⟩ {}).feedAll [.line "fun f() \x7b\x7d"]
    ∃ (c : Closure) (paren : Token) (m : Machine),
      s.Nests (.line "f();") 0 26 (.callBody c.frame c.decl.params c.decl.body [] paren) m ∧
      s.Nests (.line "f();") 1 25 (.executeEach c.decl.body)
        (m.calling c.frame c.decl.params c.decl.body []) ∧
      (m.calling c.frame c.decl.params c.decl.body []).depth = 1 := by
  intro s
  let callee : Expr := .variable 0 ⟨.identifier, "f", 1, ⟨0, 1⟩⟩
  let paren : Token := ⟨.symbol .rightParen, ")", 1, ⟨2, 3⟩⟩
  let m := (s.take (.line "f();")).2.machine
  have hcounts := bodies_are_counted 30 {} ⟨(0.0 : Float), []⟩ {}
  have hnumber : s.nextId = 0 := by decide +kernel
  have hstmt : s.Executes (.line "f();") (.expression (.call callee paren [])) m :=
    Session.executes_line (by rw [hnumber]; rfl) (by decide +kernel)
  have hcallee := ok_of_run' (show (Eval.evaluate 28 (s.lookup (.line "f();")) callee).run' m =
    some (.callable (.function ⟨0⟩)) by decide +kernel)
  let m₁ := (Eval.evaluate 28 (s.lookup (.line "f();")) callee).leaves m
  have hcheck := ok_of_run' (show
    (Eval.checkCall (.callable (.function ⟨0⟩)) paren 0).run' m₁ = some (.function ⟨0⟩)
      by decide +kernel)
  let m₂ := (Eval.checkCall (.callable (.function ⟨0⟩)) paren 0).leaves m₁
  obtain ⟨c, hc⟩ := Option.isSome_iff_exists.mp (show (m₂.store.function? ⟨0⟩).isSome
    by decide +kernel)
  have hcall : s.Comes (.line "f();") 29 (.evaluate (.call callee paren [])) m :=
    (hstmt.comes (by decide +kernel)).begins (.expression rfl)
  have hcomes : s.Comes (.line "f();") 26
      (.callBody c.frame c.decl.params c.decl.body [] paren) m₂ :=
    ((hcall.begins (.call hcallee rfl)).begins (.function hcheck hc)).begins .body
  obtain ⟨⟨n, hnests⟩, hdepth⟩ := hcounts.depth hcomes
  have hnone : m₂.depth = 0 := by decide +kernel
  obtain rfl : n = 0 := (hdepth hnests).1.symm.trans hnone
  have hentered := hcounts.entered hnests (by decide)
  exact ⟨c, paren, m₂, hnests, hentered, congrArg (· + 1) hnone⟩

end LoxLang
