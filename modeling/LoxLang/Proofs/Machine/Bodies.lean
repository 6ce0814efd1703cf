import LoxLang.Proofs.Machine.CutShort

/-!
# Bodies inside one another

A run comes to a call inside of so many function bodies that are being executed (`Machine.Nests`),
and this is the number that the machine counts (`Machine.Nests.depth`): each call that a body makes
lies in one more body, and calls that went well before it have left theirs.
-/

namespace LoxLang

namespace Eval

variable {α : Type} {act : Eval α} {lookup : Lookup} {fuel : Nat} {m m₁ : Machine}

theorem Balanced.depth_of_ok {a : α} (h : Balanced act) (hact : act m = .ok a m₁) :
    m₁.depth = m.depth := ((h m).ok trivial hact).1.2

/-- Only a call that runs a body counts one more. -/
theorem Begins.depth {task task' : Task} {m' : Machine} (h : Begins lookup fuel task m task' m') :
    m'.depth = if task.isBody then m.depth + 1 else m.depth := by
  have hall := balances lookup fuel
  cases h with
  | operand | head | getter | body | expression | block | «while» | clause | «for» | first
  | condition | forCondition | initializer | statements => rfl
  | right hrun | undecided hrun | chosen hrun | otherwise hrun | arguments hrun
  | assigned hrun | tail hrun | thenBranch hrun | elseBranch hrun | message hrun | round hrun =>
    exact (hall.evaluate _).depth_of_ok hrun
  | call hcallee hargs =>
    exact ((hall.evaluateEach _).depth_of_ok hargs).trans ((hall.evaluate _).depth_of_ok hcallee)
  | member hobject hfound =>
    exact (Simple.updateStore.balanced.depth_of_ok hfound).trans
      ((hall.evaluate _).depth_of_ok hobject)
  | inherited hbase hfound =>
    exact (Simple.updateStore.balanced.depth_of_ok hfound).trans
      (Simple.readName.balanced.depth_of_ok hbase)
  | function hcheck | arrow hcheck | construction hcheck =>
    have hchecked := Simple.checkCall.balanced.depth_of_ok hcheck
    exact hchecked
  | forBehind hclause =>
    have hbehind := (hall.execute _).depth_of_ok hclause
    exact hbehind
  | rest hfirst => exact (hall.execute _).depth_of_ok hfirst
  | rounds hcondition _ hbody =>
    exact ((hall.execute _).depth_of_ok hbody).trans ((hall.evaluate _).depth_of_ok hcondition)
  | forRound hcondition => exact (hall.goesOn _).depth_of_ok hcondition
  | update hcondition hbody =>
    exact ((hall.execute _).depth_of_ok hbody).trans ((hall.goesOn _).depth_of_ok hcondition)
  | forRounds hcondition hbody _ hupdate =>
    exact ((hall.step _).depth_of_ok hupdate).trans
      (((hall.execute _).depth_of_ok hbody).trans ((hall.goesOn _).depth_of_ok hcondition))

end Eval

namespace Machine

/-- The run of a program comes to a call inside of so many bodies that are being executed. -/
inductive Nests (bound : Nat) (lookup : Lookup) (start : Machine) (program : List Stmt) :
    Nat → Nat → Eval.Task → Machine → Prop
  | statement {s m} (h : Executes bound lookup s m start program) :
    Nests bound lookup start program 0 bound (.execute s) m
  | call {n fuel task m task' m'} (h : Nests bound lookup start program n (fuel + 1) task m)
    (hown : task.isBody = false) (hbegins : Eval.Begins lookup fuel task m task' m') :
    Nests bound lookup start program n fuel task' m'
  | body {n fuel task m task' m'} (h : Nests bound lookup start program n (fuel + 1) task m)
    (hbody : task.isBody) (hbegins : Eval.Begins lookup fuel task m task' m') :
    Nests bound lookup start program (n + 1) fuel task' m'

variable {bound n fuel : Nat} {lookup : Lookup} {start m : Machine} {program : List Stmt}
  {task : Eval.Task}

theorem Nests.comes (h : start.Nests bound lookup program n fuel task m) :
    start.Comes bound lookup program fuel task m := by
  induction h with
  | statement hexecutes => exact .statement hexecutes
  | call _ _ hbegins ih | body _ _ hbegins ih => exact ih.call hbegins

theorem Comes.nests (h : start.Comes bound lookup program fuel task m) :
    ∃ n, start.Nests bound lookup program n fuel task m := by
  induction h with
  | statement hexecutes => exact ⟨0, .statement hexecutes⟩
  | @call _ task _ _ _ _ hbegins ih =>
    obtain ⟨n, hn⟩ := ih
    cases hbody : task.isBody with
    | false => exact ⟨n, hn.call hbody hbegins⟩
    | true => exact ⟨n + 1, hn.body hbody hbegins⟩

theorem Executes.depth {s : Stmt} (h : Executes bound lookup s m start program) :
    m.depth = start.depth := by
  induction h with
  | here => rfl
  | later hfirst _ ih =>
    exact ih.trans (((Eval.balances lookup bound).execute _).depth_of_ok hfirst)

/-- The machine counts the bodies that are being executed, and lets them be no more than the bound. -/
theorem Nests.depth (h : start.Nests bound lookup program n fuel task m) (hstart : start.depth = 0) :
    m.depth = n ∧ n ≤ maxDepth := by
  induction h with
  | statement hexecutes => exact ⟨hexecutes.depth.trans hstart, Nat.zero_le _⟩
  | call _ hown hbegins ih =>
    have hdepth := hbegins.depth
    rw [hown] at hdepth
    exact ⟨hdepth.trans ih.1, ih.2⟩
  | body _ hbody hbegins ih =>
    have hdepth := hbegins.depth
    rw [hbody, ih.1] at hdepth
    refine ⟨hdepth, ?_⟩
    cases hbegins with
    | statements hlimit => exact ih.1 ▸ hlimit
    | _ => cases hbody

end Machine

end LoxLang
