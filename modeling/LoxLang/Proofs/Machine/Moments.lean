import LoxLang.Proofs.Machine.Holding

/-!
# Moments of a run

While a program runs, functions of the evaluation call each other: an `Eval.Task` is such a call,
and `Eval.Begins` says which calls a call makes itself, and in which state of the machine. From the
statements of a program this leads to every call that its run makes (`Machine.Comes`). A call is
made with well-formed code and with values that the store knows (`Eval.Task.Ready`), because a call
that was made so makes others so (`Eval.Begins.ready`).
-/

namespace LoxLang

/-- A call of one of the functions of the evaluation. -/
inductive Eval.Task
  | evaluate (e : Expr)
  | evaluateEach (es : List Expr)
  | attributeValue (found : Attribute) (name : Token)
  | invoke (callee : Value) (paren : Token) (args : List Value)
  | construct (object : InstanceId) (args : List Value) (paren : Token)
  | callFunction (c : Closure) (args : List Value) (place : Token)
  | callBody (outer : FrameId) (params : List Token) (body : List Stmt) (args : List Value)
    (place : Token)
  | execute (s : Stmt)
  | executeEach (ss : List Stmt)
  | whileLoop (condition : Expr) (body : Stmt)
  | forLoop (condition update : Option Expr) (body : Stmt)

/-- Whether a call runs the body of a function. -/
def Eval.Task.isBody : Eval.Task → Bool
  | .callBody _ _ _ _ _ => true
  | _ => false

/-- The part of an expression that is evaluated before anything else is done. -/
def Expr.first? : Expr → Option Expr
  | .grouping first | .unary _ first | .binary first _ _ | .logical first _ _
  | .ternary first _ _ _ | .assign _ _ first | .call first _ _ | .get first _
  | .set first _ _ => some first
  | .literal _ | .variable _ _ | .this _ _ | .super _ _ _ | .arrow _ => none

/-- The expression of a statement that is evaluated before anything else is done. -/
def Stmt.first? : Stmt → Option Expr
  | .expression first | .print first | .println first | .const _ first
  | .ifElse first _ _ | .assert _ first _ => some first
  | .var _ first? | .return _ first? => first?
  | .class decl => decl.base
  | .block _ | .while _ _ | .for _ _ _ _ | .break _ | .continue _ | .function _ => none

/-- A machine in which a frame has been opened and entered. -/
def Machine.entering (m : Machine) (frame : Frame) : Machine :=
  { m with store := (m.store.addFrame frame).2, here := (m.store.addFrame frame).1 }

/-- The machine in which the body of a call is executed. -/
def Machine.calling (m : Machine) (outer : FrameId) (params : List Token) (body : List Stmt)
    (args : List Value) : Machine :=
  { m.entering (Eval.parameterFrame params body args outer) with depth := m.depth + 1 }

/-- A call with one more as the bound on its depth, made with a machine, makes another call with
another machine: the calls before it went well. -/
inductive Eval.Begins (lookup : Lookup) (fuel : Nat) :
    Eval.Task → Machine → Eval.Task → Machine → Prop
  -- expressions
  | operand {e first m} (hfirst : e.first? = some first) :
    Eval.Begins lookup fuel (.evaluate e) m (.evaluate first) m
  | right {left operator right m v m₁} (hleft : Eval.evaluate fuel lookup left m = .ok v m₁) :
    Eval.Begins lookup fuel (.evaluate (.binary left operator right)) m (.evaluate right) m₁
  | undecided {left operator right m v m₁} (hleft : Eval.evaluate fuel lookup left m = .ok v m₁)
    (hopen : Eval.decides operator v = false) :
    Eval.Begins lookup fuel (.evaluate (.logical left operator right)) m (.evaluate right) m₁
  | chosen {condition question thenBranch elseBranch m v m₁}
    (hcondition : Eval.evaluate fuel lookup condition m = .ok v m₁) (htrue : v.isTruthy = true) :
    Eval.Begins lookup fuel (.evaluate (.ternary condition question thenBranch elseBranch)) m
      (.evaluate thenBranch) m₁
  | otherwise {condition question thenBranch elseBranch m v m₁}
    (hcondition : Eval.evaluate fuel lookup condition m = .ok v m₁) (hfalse : v.isTruthy = false) :
    Eval.Begins lookup fuel (.evaluate (.ternary condition question thenBranch elseBranch)) m
      (.evaluate elseBranch) m₁
  | arguments {callee paren arguments m v m₁}
    (hcallee : Eval.evaluate fuel lookup callee m = .ok v m₁) :
    Eval.Begins lookup fuel (.evaluate (.call callee paren arguments)) m
      (.evaluateEach arguments) m₁
  | call {callee paren arguments m v m₁ args m₂}
    (hcallee : Eval.evaluate fuel lookup callee m = .ok v m₁)
    (hargs : Eval.evaluateEach fuel lookup arguments m₁ = .ok args m₂) :
    Eval.Begins lookup fuel (.evaluate (.call callee paren arguments)) m (.invoke v paren args) m₂
  | member {object name m id m₁ found m₂}
    (hobject : Eval.evaluate fuel lookup object m = .ok (.instance id) m₁)
    (hfound : Eval.instanceAttribute? id name.lexeme m₁ = .ok (some found) m₂) :
    Eval.Begins lookup fuel (.evaluate (.get object name)) m (.attributeValue found name) m₂
  | assigned {object name value m target m₁}
    (hobject : Eval.evaluate fuel lookup object m = .ok target m₁)
    (htarget : (∃ id, target = .instance id) ∨ ∃ id, target = .callable (.class id)) :
    Eval.Begins lookup fuel (.evaluate (.set object name value)) m (.evaluate value) m₁
  | inherited {id keyword method m base m₁ found m₂}
    (hbase : Eval.readName lookup id keyword m = .ok (.instance base) m₁)
    (hfound : Eval.instanceAttribute? base method.lexeme m₁ = .ok (some found) m₂) :
    Eval.Begins lookup fuel (.evaluate (.super id keyword method)) m
      (.attributeValue found method) m₂
  | head {e es m} : Eval.Begins lookup fuel (.evaluateEach (e :: es)) m (.evaluate e) m
  | tail {e es m v m₁} (hhead : Eval.evaluate fuel lookup e m = .ok v m₁) :
    Eval.Begins lookup fuel (.evaluateEach (e :: es)) m (.evaluateEach es) m₁
  -- calls
  | getter {bound name m} : Eval.Begins lookup fuel (.attributeValue (.getter bound) name) m
    (.callFunction bound [] name) m
  | function {callee paren args m id m₁ c}
    (hcheck : Eval.checkCall callee paren args.length m = .ok (.function id) m₁)
    (hfound : m₁.store.function? id = some c) :
    Eval.Begins lookup fuel (.invoke callee paren args) m (.callFunction c args paren) m₁
  | arrow {callee paren args m id m₁ c}
    (hcheck : Eval.checkCall callee paren args.length m = .ok (.arrow id) m₁)
    (hfound : m₁.store.arrow? id = some c) :
    Eval.Begins lookup fuel (.invoke callee paren args) m
      (.callBody c.frame c.decl.params c.decl.body args paren) m₁
  | construction {callee paren args m id m₁ object}
    (hcheck : Eval.checkCall callee paren args.length m = .ok (.class id) m₁)
    (hfound : m₁.store.class? id = some object) :
    Eval.Begins lookup fuel (.invoke callee paren args) m
      (.construct (m₁.store.instantiate id).1 args paren)
      { m₁ with store := (m₁.store.instantiate id).2 }
  | initializer {object args paren m portion c}
    (hfound : m.store.initializer? object = some (portion, c)) :
    Eval.Begins lookup fuel (.construct object args paren) m
      (.callFunction (m.store.bind c portion).1 args paren)
      { m with store := (m.store.bind c portion).2 }
  | body {c args place m} : Eval.Begins lookup fuel (.callFunction c args place) m
    (.callBody c.frame c.decl.params c.decl.body args place) m
  | statements {outer params body args place m} (hdepth : m.depth < maxDepth) :
    Eval.Begins lookup fuel (.callBody outer params body args place) m (.executeEach body)
      (m.calling outer params body args)
  -- statements
  | expression {s first m} (hfirst : s.first? = some first) :
    Eval.Begins lookup fuel (.execute s) m (.evaluate first) m
  | block {body m} : Eval.Begins lookup fuel (.execute (.block body)) m (.executeEach body)
    (m.entering ⟨.block body, .empty, some m.here⟩)
  | thenBranch {condition thenBranch elseBranch m v m₁}
    (hcondition : Eval.evaluate fuel lookup condition m = .ok v m₁) (htrue : v.isTruthy = true) :
    Eval.Begins lookup fuel (.execute (.ifElse condition thenBranch elseBranch)) m
      (.execute thenBranch) m₁
  | elseBranch {condition thenBranch elseBranch m v m₁}
    (hcondition : Eval.evaluate fuel lookup condition m = .ok v m₁) (hfalse : v.isTruthy = false) :
    Eval.Begins lookup fuel (.execute (.ifElse condition thenBranch (some elseBranch))) m
      (.execute elseBranch) m₁
  | while {condition body m} : Eval.Begins lookup fuel (.execute (.while condition body)) m
    (.whileLoop condition body) m
  | clause {initializer condition update body m} :
    Eval.Begins lookup fuel (.execute (.for (some initializer) condition update body)) m
      (.execute initializer)
      (m.entering ⟨.clauses (some initializer) condition update body, .empty, some m.here⟩)
  | for {condition update body m} :
    Eval.Begins lookup fuel (.execute (.for none condition update body)) m
      (.forLoop condition update body)
      (m.entering ⟨.clauses none condition update body, .empty, some m.here⟩)
  | forBehind {initializer condition update body m signal m₁}
    (hclause : Eval.execute fuel lookup initializer
      (m.entering ⟨.clauses (some initializer) condition update body, .empty, some m.here⟩) =
        .ok signal m₁) :
    Eval.Begins lookup fuel (.execute (.for (some initializer) condition update body)) m
      (.forLoop condition update body) m₁
  | message {keyword condition message m v m₁}
    (hcondition : Eval.evaluate fuel lookup condition m = .ok v m₁) (hfalse : v.isTruthy = false) :
    Eval.Begins lookup fuel (.execute (.assert keyword condition (some message))) m
      (.evaluate message) m₁
  | first {s ss m} : Eval.Begins lookup fuel (.executeEach (s :: ss)) m (.execute s) m
  | rest {s ss m m₁} (hfirst : Eval.execute fuel lookup s m = .ok .completed m₁) :
    Eval.Begins lookup fuel (.executeEach (s :: ss)) m (.executeEach ss) m₁
  -- loops
  | condition {condition body m} : Eval.Begins lookup fuel (.whileLoop condition body) m
    (.evaluate condition) m
  | round {condition body m v m₁} (hcondition : Eval.evaluate fuel lookup condition m = .ok v m₁)
    (htrue : v.isTruthy = true) :
    Eval.Begins lookup fuel (.whileLoop condition body) m (.execute body) m₁
  | rounds {condition body m v m₁ signal m₂}
    (hcondition : Eval.evaluate fuel lookup condition m = .ok v m₁) (htrue : v.isTruthy = true)
    (hbody : Eval.execute fuel lookup body m₁ = .ok signal m₂) (hround : signal.goesRound = true) :
    Eval.Begins lookup fuel (.whileLoop condition body) m (.whileLoop condition body) m₂
  | forCondition {condition update body m} :
    Eval.Begins lookup fuel (.forLoop (some condition) update body) m (.evaluate condition) m
  | forRound {condition update body m m₁}
    (hcondition : Eval.goesOn fuel lookup condition m = .ok true m₁) :
    Eval.Begins lookup fuel (.forLoop condition update body) m (.execute body) m₁
  | update {condition update body m m₁ signal m₂}
    (hcondition : Eval.goesOn fuel lookup condition m = .ok true m₁)
    (hbody : Eval.execute fuel lookup body m₁ = .ok signal m₂) (hround : signal.goesRound = true) :
    Eval.Begins lookup fuel (.forLoop condition (some update) body) m (.evaluate update) m₂
  | forRounds {condition update body m m₁ signal m₂ m₃}
    (hcondition : Eval.goesOn fuel lookup condition m = .ok true m₁)
    (hbody : Eval.execute fuel lookup body m₁ = .ok signal m₂) (hround : signal.goesRound = true)
    (hupdate : Eval.step fuel lookup update m₂ = .ok () m₃) :
    Eval.Begins lookup fuel (.forLoop condition update body) m (.forLoop condition update body) m₃

/-- The run of a program comes to one of its statements. -/
inductive Machine.Executes (bound : Nat) (lookup : Lookup) (s : Stmt) (reached : Machine) :
    Machine → List Stmt → Prop
  | here {rest} : Executes bound lookup s reached reached (s :: rest)
  | later {m first rest signal m₁} (hfirst : Eval.execute bound lookup first m = .ok signal m₁)
    (hrest : Executes bound lookup s reached m₁ rest) :
    Executes bound lookup s reached m (first :: rest)

/-- The run of a program comes to a call, with a bound on its depth and a machine. -/
inductive Machine.Comes (bound : Nat) (lookup : Lookup) (start : Machine) (program : List Stmt) :
    Nat → Eval.Task → Machine → Prop
  | statement {s m} (h : Machine.Executes bound lookup s m start program) :
    Comes bound lookup start program bound (.execute s) m
  | call {fuel task m task' m'} (h : Comes bound lookup start program (fuel + 1) task m)
    (hbegins : Eval.Begins lookup fuel task m task' m') :
    Comes bound lookup start program fuel task' m'

/-! ## What calls are made with -/

/-- A call is made with well-formed code and with values that the store knows. -/
def Eval.Task.Ready (s : Store) : Eval.Task → Prop
  | .evaluate e => e.WellFormed
  | .evaluateEach es => WellFormedEach es
  | .attributeValue found _ => found.Whole s
  | .invoke callee _ args => callee.Known s ∧ ∀ v ∈ args, v.Known s
  | .construct _ args _ => ∀ v ∈ args, v.Known s
  | .callFunction c args _ => (c.decl.WellFormed ∧ c.Bound s) ∧ ∀ v ∈ args, v.Known s
  | .callBody _ _ body args _ => WellFormedBody body false ∧ ∀ v ∈ args, v.Known s
  | .execute s => ∃ inLoop, s.WellFormed inLoop
  | .executeEach ss => ∃ inLoop, WellFormedBody ss inLoop
  | .whileLoop condition body => condition.WellFormed ∧ body.WellFormed true
  | .forLoop condition update body =>
    WellFormedOptional condition ∧ WellFormedOptional update ∧ body.WellFormed true

theorem Expr.WellFormed.first {e first : Expr} (h : e.WellFormed) (hfirst : e.first? = some first) :
    first.WellFormed := by
  cases e with
  | grouping | assign | get =>
    cases hfirst
    exact h
  | unary =>
    cases hfirst
    exact h.2
  | binary | logical =>
    cases hfirst
    exact h.2.1
  | ternary | call | set =>
    cases hfirst
    exact h.1
  | literal | «variable» | this | super | arrow => cases hfirst

theorem Stmt.WellFormed.first {s : Stmt} {first : Expr} {inLoop : Bool} (h : s.WellFormed inLoop)
    (hfirst : s.first? = some first) : first.WellFormed := by
  cases s with
  | expression | print | println | const =>
    cases hfirst
    exact h
  | ifElse | assert =>
    cases hfirst
    exact h.1
  | var _ initializer | «return» _ initializer =>
    cases initializer with
    | none => cases hfirst
    | some value =>
      cases hfirst
      exact h
  | «class» decl =>
    obtain ⟨name, base, methods, statics, getters⟩ := decl
    obtain ⟨id, baseName, rfl⟩ := h.1 first hfirst
    trivial
  | block | «while» | «for» | «break» | «continue» | function => cases hfirst

namespace Machine.Whole

variable {m : Machine}

theorem entering (h : m.Whole) {frame : Frame} (hframe : frame.Whole m.store)
    (hkind : frame.kind.isReceiver = false) : (m.entering frame).Whole where
  store := (h.store.addFrame hframe).whole
  here := ⟨frame, (Store.frame?_addFrame ..).trans (if_pos rfl), hkind⟩

/-- A scope is opened inside the current one. -/
theorem opening (h : m.Whole) {kind : ScopeKind} (hkind : kind.isReceiver = false) :
    (m.entering ⟨kind, .empty, some m.here⟩).Whole := h.entering (.bare hkind) hkind

theorem calling (h : m.Whole) {outer : FrameId} {params : List Token} {body : List Stmt}
    {args : List Value} (hargs : ∀ v ∈ args, v.Known m.store) :
    (m.calling outer params body args).Whole :=
  have hframe : (Eval.parameterFrame params body args outer).Whole m.store :=
    whole_parameterFrame hargs
  have hentered := h.entering hframe rfl
  ⟨hentered.store, hentered.here⟩

end Machine.Whole

section Ready

variable {lookup : Lookup} {fuel : Nat} {m m₁ m₂ : Machine}

/-- What a well-formed expression evaluates to is known, and the machine stays whole. -/
theorem Expr.WellFormed.ran {e : Expr} {v : Value} (h : e.WellFormed) (hm : m.Whole)
    (hrun : Eval.evaluate fuel lookup e m = .ok v m₁) : m₁.Whole ∧ v.Known m₁.store :=
  have ⟨hbecomes, hvalue⟩ := ((holding lookup fuel).evaluate m h).ok hm hrun
  ⟨hbecomes.whole hm, hvalue⟩

theorem Stmt.WellFormed.ran {s : Stmt} {inLoop : Bool} {signal : Signal} (h : s.WellFormed inLoop)
    (hm : m.Whole) (hrun : Eval.execute fuel lookup s m = .ok signal m₁) : m₁.Whole :=
  (((holding lookup fuel).execute m h).ok hm hrun).1.whole hm

/-- What is found among the attributes of an object is whole. -/
theorem Machine.Whole.found {id : InstanceId} {name : String} {found : Attribute} (hm : m.Whole)
    (hfound : Eval.instanceAttribute? id name m = .ok (some found) m₁) :
    found.Whole m₁.store ∧ m₁.Whole := by
  obtain ⟨hbecomes, hwhole⟩ := Holds.instanceAttribute.ok hm hfound
  exact ⟨hwhole found rfl, hbecomes.whole hm⟩

/-- Arguments that are known stay so while the call is checked. -/
theorem Machine.Whole.checked {callee : Value} {paren : Token} {args : List Value} {c : Callable}
    (hm : m.Whole) (hargs : ∀ v ∈ args, v.Known m.store)
    (hcheck : Eval.checkCall callee paren args.length m = .ok c m₁) :
    m₁.Whole ∧ ∀ v ∈ args, v.Known m₁.store := by
  obtain ⟨hbecomes, -⟩ := Holds.checkCall.ok hm hcheck
  exact ⟨hbecomes.whole hm, fun v hv => (hargs v hv).mono hbecomes.store.precedes⟩

end Ready

namespace Eval.Begins

variable {lookup : Lookup} {fuel : Nat} {task task' : Eval.Task} {m m' : Machine}

theorem evaluate_ready {e : Expr} (h : Begins lookup fuel (.evaluate e) m task' m')
    (he : e.WellFormed) (hm : m.Whole) : task'.Ready m'.store ∧ m'.Whole := by
  cases h with
  | operand hfirst => exact ⟨he.first hfirst, hm⟩
  | right hleft | undecided hleft => exact ⟨he.2.2, (Expr.WellFormed.ran he.2.1 hm hleft).1⟩
  | chosen hcondition => exact ⟨he.2.1, (Expr.WellFormed.ran he.1 hm hcondition).1⟩
  | otherwise hcondition => exact ⟨he.2.2, (Expr.WellFormed.ran he.1 hm hcondition).1⟩
  | arguments hcallee => exact ⟨he.2.2, (Expr.WellFormed.ran he.1 hm hcallee).1⟩
  | call hcallee hargs =>
    obtain ⟨h₁, hvalue⟩ := Expr.WellFormed.ran he.1 hm hcallee
    obtain ⟨hbecomes, hvalues⟩ := ((holding lookup fuel).evaluateEach _ he.2.2).ok h₁ hargs
    exact ⟨⟨hvalue.mono hbecomes.store.precedes, hvalues⟩, hbecomes.whole h₁⟩
  | @member object _ _ _ _ _ _ hobject hfound =>
    have hwell : object.WellFormed := he
    exact (hwell.ran hm hobject).1.found hfound
  | assigned hobject => exact ⟨he.2, (Expr.WellFormed.ran he.1 hm hobject).1⟩
  | inherited hbase hfound => exact ((Holds.readName.ok hm hbase).1.whole hm).found hfound

theorem evaluateEach_ready {es : List Expr} (h : Begins lookup fuel (.evaluateEach es) m task' m')
    (hes : WellFormedEach es) (hm : m.Whole) : task'.Ready m'.store ∧ m'.Whole := by
  cases h with
  | head => exact ⟨hes.1, hm⟩
  | tail hhead => exact ⟨hes.2, (Expr.WellFormed.ran hes.1 hm hhead).1⟩

theorem invoke_ready {callee : Value} {paren : Token} {args : List Value}
    (h : Begins lookup fuel (.invoke callee paren args) m task' m')
    (hargs : ∀ v ∈ args, v.Known m.store) (hm : m.Whole) : task'.Ready m'.store ∧ m'.Whole := by
  cases h with
  | function hcheck hfound =>
    obtain ⟨h₁, hknown⟩ := hm.checked hargs hcheck
    exact ⟨⟨⟨h₁.store.tidy.functions hfound, h₁.store.functions hfound⟩, hknown⟩, h₁⟩
  | arrow hcheck hfound =>
    obtain ⟨h₁, hknown⟩ := hm.checked hargs hcheck
    exact ⟨⟨(h₁.store.tidy.arrows hfound).body, hknown⟩, h₁⟩
  | @construction _ _ _ _ id _ _ hcheck hfound =>
    obtain ⟨h₁, hknown⟩ := hm.checked hargs hcheck
    have hmade := Machine.Whole.becomes (h₁.store.instantiate id).1
    exact ⟨fun v hv => (hknown v hv).mono hmade.store.precedes, hmade.whole h₁⟩

theorem construct_ready {object : InstanceId} {args : List Value} {paren : Token}
    (h : Begins lookup fuel (.construct object args paren) m task' m')
    (hargs : ∀ v ∈ args, v.Known m.store) (hm : m.Whole) : task'.Ready m'.store ∧ m'.Whole := by
  cases h with
  | @initializer _ _ _ _ portion c hfound =>
    have hdecl := hm.store.tidy.initializer? hfound
    obtain ⟨p, hportion⟩ := Store.portion_of_initializer? hfound
    obtain ⟨hbind, hreceives⟩ := hm.store.bind c hportion
    exact ⟨⟨⟨hdecl, fun _ => ⟨portion, hreceives⟩⟩, fun v hv => (hargs v hv).mono hbind.precedes⟩,
      (Machine.Whole.becomes hbind).whole hm⟩

theorem execute_ready {s : Stmt} {inLoop : Bool} (h : Begins lookup fuel (.execute s) m task' m')
    (hs : s.WellFormed inLoop) (hm : m.Whole) : task'.Ready m'.store ∧ m'.Whole := by
  cases h with
  | expression hfirst => exact ⟨hs.first hfirst, hm⟩
  | block => exact ⟨⟨inLoop, hs⟩, hm.opening rfl⟩
  | thenBranch hcondition =>
    exact ⟨⟨inLoop, hs.2.1⟩, (Expr.WellFormed.ran hs.1 hm hcondition).1⟩
  | elseBranch hcondition =>
    exact ⟨⟨inLoop, hs.2.2⟩, (Expr.WellFormed.ran hs.1 hm hcondition).1⟩
  | «while» => exact ⟨hs, hm⟩
  | clause => exact ⟨⟨false, hs.1⟩, hm.opening rfl⟩
  | «for» =>
    obtain ⟨-, hc, hu, -, hb⟩ := hs
    exact ⟨⟨hc, hu, hb⟩, hm.opening rfl⟩
  | @forBehind initializer _ _ _ _ _ _ hclause =>
    obtain ⟨hi, hc, hu, -, hb⟩ := hs
    have hwell : initializer.WellFormed false := hi
    exact ⟨⟨hc, hu, hb⟩, hwell.ran (hm.opening rfl) hclause⟩
  | message hcondition => exact ⟨hs.2, (Expr.WellFormed.ran hs.1 hm hcondition).1⟩

theorem executeEach_ready {ss : List Stmt} {inLoop : Bool}
    (h : Begins lookup fuel (.executeEach ss) m task' m') (hss : WellFormedBody ss inLoop)
    (hm : m.Whole) : task'.Ready m'.store ∧ m'.Whole := by
  cases h with
  | first => exact ⟨⟨inLoop, hss.1⟩, hm⟩
  | rest hfirst => exact ⟨⟨inLoop, hss.2⟩, hss.1.ran hm hfirst⟩

theorem whileLoop_ready {condition : Expr} {body : Stmt}
    (h : Begins lookup fuel (.whileLoop condition body) m task' m') (hc : condition.WellFormed)
    (hb : body.WellFormed true) (hm : m.Whole) : task'.Ready m'.store ∧ m'.Whole := by
  cases h with
  | condition => exact ⟨hc, hm⟩
  | round hcondition => exact ⟨⟨true, hb⟩, (hc.ran hm hcondition).1⟩
  | rounds hcondition htrue hbody => exact ⟨⟨hc, hb⟩, hb.ran (hc.ran hm hcondition).1 hbody⟩

theorem forLoop_ready {condition update : Option Expr} {body : Stmt}
    (h : Begins lookup fuel (.forLoop condition update body) m task' m')
    (hc : WellFormedOptional condition) (hu : WellFormedOptional update)
    (hb : body.WellFormed true) (hm : m.Whole) : task'.Ready m'.store ∧ m'.Whole := by
  have hgone {goes : Bool} {m₁ : Machine} (hrun : goesOn fuel lookup condition m = .ok goes m₁) :
      m₁.Whole := (((holding lookup fuel).goesOn m hc).ok hm hrun).1.whole hm
  cases h with
  | forCondition => exact ⟨hc, hm⟩
  | forRound hcondition => exact ⟨⟨true, hb⟩, hgone hcondition⟩
  | update hcondition hbody => exact ⟨hu, hb.ran (hgone hcondition) hbody⟩
  | forRounds hcondition hbody hround hupdate =>
    have h₂ := hb.ran (hgone hcondition) hbody
    obtain ⟨hbecomes, -⟩ := ((holding lookup fuel).step _ hu).ok h₂ hupdate
    exact ⟨⟨hc, hu, hb⟩, hbecomes.whole h₂⟩

/-- A call that is ready makes calls that are ready. -/
theorem ready (h : Eval.Begins lookup fuel task m task' m') (htask : task.Ready m.store)
    (hm : m.Whole) : task'.Ready m'.store ∧ m'.Whole := by
  cases task with
  | evaluate e => exact h.evaluate_ready htask hm
  | evaluateEach es => exact h.evaluateEach_ready htask hm
  | attributeValue found name =>
    cases h with
    | getter => exact ⟨⟨htask, fun v hv => absurd hv List.not_mem_nil⟩, hm⟩
  | invoke callee paren args => exact h.invoke_ready htask.2 hm
  | construct object args paren => exact h.construct_ready htask hm
  | callFunction c args place =>
    cases h with
    | body => exact ⟨⟨htask.1.1.body, htask.2⟩, hm⟩
  | callBody outer params body args place =>
    cases h with
    | statements => exact ⟨⟨false, htask.1⟩, hm.calling htask.2⟩
  | execute s =>
    obtain ⟨inLoop, hs⟩ := htask
    exact h.execute_ready hs hm
  | executeEach ss =>
    obtain ⟨inLoop, hss⟩ := htask
    exact h.executeEach_ready hss hm
  | whileLoop condition body => exact h.whileLoop_ready htask.1 htask.2 hm
  | forLoop condition update body => exact h.forLoop_ready htask.1 htask.2.1 htask.2.2 hm

end Eval.Begins

section Runs

variable {bound fuel : Nat} {lookup : Lookup} {start m : Machine} {program : List Stmt}

/-- What stands before a statement of a program leads from a whole machine to a whole machine. -/
theorem Machine.Executes.ready {s : Stmt} (h : Machine.Executes bound lookup s m start program)
    (hformed : WellFormedBody program false) (hstart : start.Whole) :
    s ∈ program ∧ s.WellFormed false ∧ m.Whole := by
  induction h with
  | here => exact ⟨List.mem_cons_self, hformed.1, hstart⟩
  | @later before _ _ _ _ hfirst _ ih =>
    obtain ⟨hbecomes, -⟩ := ((holding lookup bound).execute before hformed.1).ok hstart hfirst
    obtain ⟨hs, hsFormed, hm⟩ := ih hformed.2 (hbecomes.whole hstart)
    exact ⟨List.mem_cons_of_mem _ hs, hsFormed, hm⟩

/-- The calls that the run of a program comes to are ready. -/
theorem Machine.Comes.ready {task : Eval.Task}
    (h : Machine.Comes bound lookup start program fuel task m)
    (hformed : WellFormedBody program false) (hstart : start.Whole) :
    task.Ready m.store ∧ m.Whole := by
  induction h with
  | statement hs =>
    obtain ⟨-, hs, hm⟩ := hs.ready hformed hstart
    exact ⟨⟨false, hs⟩, hm⟩
  | call _ hbegins ih =>
    obtain ⟨htask, hm⟩ := ih
    exact hbegins.ready htask hm

end Runs

end LoxLang
