import LoxLang.Proofs.Machine.Passing

/-!
# How calls lie in each other

Every construct of the language makes its calls in its own way. For each of them there is one lemma
about the calls that it makes (`Eval.Lies`): the one that it makes first, with all that may come
behind it, and those that it makes behind others, which have left their place as it was. The lemmas
are put together for the functions of the evaluation, and then for all calls (`Eval.Begins.lies`).
-/

namespace LoxLang

section Calls

variable {course : Course} {fuel : Nat} {task task' : Eval.Task} {m m' : Machine} {ribs : List Rib}

/-! ## Expressions -/

theorem Expr.Stands.fits {e first : Expr} (h : e.Stands course m) (hfirst : e.first? = some first) :
    ∃ ribs, e.Fits course ribs ∧ Placed course ribs m := by
  obtain ⟨ribs, h, hfits | ⟨_, _, rfl, -⟩⟩ := h
  · exact ⟨ribs, hfits, h⟩
  · cases hfirst

/-- The part of an expression that is evaluated first, with the rest behind it. -/
theorem Eval.Lies.operand {e first : Expr} {k : Value → Eval Value} (h : Placed course ribs m)
    (hfirst : first.Fits course ribs)
    (heq : Eval.evaluate (fuel + 1) course.lookup e =
      Eval.evaluate fuel course.lookup first >>= k)
    (hk : ∀ v m₁, Placed course ribs m₁ → Evaluates course (k v) m₁) :
    Eval.Lies course fuel (.evaluate e) m (.evaluate first) m :=
  .of_evaluates ⟨ribs, h, .inl hfirst⟩ (.refl rfl) rfl
    (congrArg (fun run => (Eval.leaves run m).store) heq)
    fun v m₁ hrun => hk v m₁ (hfirst.ran h hrun).2

namespace Eval.Begins

theorem grouping_lies {inner : Expr}
    (hbegins : Begins course.lookup fuel (.evaluate (.grouping inner)) m task' m')
    (hstands : (Expr.grouping inner).Stands course m) :
    Lies course fuel (.evaluate (.grouping inner)) m task' m' := by
  obtain ⟨ribs, hfits, h⟩ := hstands.fits rfl
  cases hbegins with
  | operand hfirst =>
    cases hfirst
    refine .last ⟨ribs, h, .inl hfits⟩ (.refl rfl) ?_
    rw [Task.leaves, Eval.evaluate]
    rfl

theorem unary_lies {operator : Token} {right : Expr}
    (hbegins : Begins course.lookup fuel (.evaluate (.unary operator right)) m task' m')
    (hstands : (Expr.unary operator right).Stands course m) :
    Lies course fuel (.evaluate (.unary operator right)) m task' m' := by
  obtain ⟨ribs, hfits, h⟩ := hstands.fits rfl
  cases hbegins with
  | operand hfirst =>
    cases hfirst
    refine .operand h hfits (by rw [Eval.evaluate]) fun v m₁ h₁ => ?_
    split
    · exact .computed h₁.sound fun _ h => Bool.noConfusion (Value.applyUnary_fault h)
    · exact .fail h₁.sound fun _ h => by cases h

theorem binary_lies {left right : Expr} {operator : Token}
    (hbegins : Begins course.lookup fuel (.evaluate (.binary left operator right)) m task' m')
    (hstands : (Expr.binary left operator right).Stands course m) :
    Lies course fuel (.evaluate (.binary left operator right)) m task' m' := by
  obtain ⟨ribs, hfits, h⟩ := hstands.fits rfl
  obtain ⟨hl, hr⟩ := hfits.binary
  have hbehind (a b : Value) {m₂ : Machine} (h₂ : m₂.store.Sound course) :
      Evaluates course (if operator.kind.isSymbol .comma then pure b
        else computed (Value.applyBinary operator a b) operator) m₂ :=
    .ite (fun _ => .pure h₂) fun _ =>
      .computed h₂ fun _ h => Bool.noConfusion (Value.applyBinary_fault h)
  cases hbegins with
  | operand hfirst =>
    cases hfirst
    exact .operand h hl (by rw [Eval.evaluate]) fun a m₁ h₁ =>
      ((behaves course fuel).evaluate hr h₁).bind fun b m₂ h₂ => hbehind a b h₂.sound
  | @right _ _ _ _ a _ hleft =>
    obtain ⟨hkeeps, h₁⟩ := hl.ran h hleft
    exact .of_evaluates ⟨ribs, h₁, .inl hr⟩ (hkeeps.moves rfl) rfl
      (by rw [Task.leaves, Eval.evaluate, leaves_bind_of_ok hleft]) fun b m₂ hright =>
        hbehind a b (hr.ran h₁ hright).1.sound

theorem logical_lies {left right : Expr} {operator : Token}
    (hbegins : Begins course.lookup fuel (.evaluate (.logical left operator right)) m task' m')
    (hstands : (Expr.logical left operator right).Stands course m) :
    Lies course fuel (.evaluate (.logical left operator right)) m task' m' := by
  obtain ⟨ribs, hfits, h⟩ := hstands.fits rfl
  obtain ⟨hl, hr⟩ := hfits.logical
  cases hbegins with
  | operand hfirst =>
    cases hfirst
    exact .operand h hl (by rw [Eval.evaluate]) fun v m₁ h₁ =>
      .ite (fun _ => .pure h₁.sound) fun _ => (behaves course fuel).evaluate hr h₁
  | undecided hleft hopen =>
    obtain ⟨hkeeps, h₁⟩ := hl.ran h hleft
    refine .last ⟨ribs, h₁, .inl hr⟩ (hkeeps.moves rfl) ?_
    rw [Task.leaves, Eval.evaluate, leaves_bind_of_ok hleft, hopen]
    rfl

theorem ternary_lies {condition thenBranch elseBranch : Expr} {question : Token}
    (hbegins : Begins course.lookup fuel
      (.evaluate (.ternary condition question thenBranch elseBranch)) m task' m')
    (hstands : (Expr.ternary condition question thenBranch elseBranch).Stands course m) :
    Lies course fuel (.evaluate (.ternary condition question thenBranch elseBranch)) m
      task' m' := by
  obtain ⟨ribs, hfits, h⟩ := hstands.fits rfl
  obtain ⟨hc, ht, he⟩ := hfits.ternary
  have hall := behaves course fuel
  cases hbegins with
  | operand hfirst =>
    cases hfirst
    exact .operand h hc (by rw [Eval.evaluate]) fun v m₁ h₁ =>
      .ite (fun _ => hall.evaluate ht h₁) fun _ => hall.evaluate he h₁
  | chosen hcondition htrue =>
    obtain ⟨hkeeps, h₁⟩ := hc.ran h hcondition
    refine .last ⟨ribs, h₁, .inl ht⟩ (hkeeps.moves rfl) ?_
    rw [Task.leaves, Eval.evaluate, leaves_bind_of_ok hcondition, htrue]
    rfl
  | otherwise hcondition hfalse =>
    obtain ⟨hkeeps, h₁⟩ := hc.ran h hcondition
    refine .last ⟨ribs, h₁, .inl he⟩ (hkeeps.moves rfl) ?_
    rw [Task.leaves, Eval.evaluate, leaves_bind_of_ok hcondition, hfalse]
    rfl

theorem assign_lies {id : NodeId} {name : Token} {value : Expr}
    (hbegins : Begins course.lookup fuel (.evaluate (.assign id name value)) m task' m')
    (hstands : (Expr.assign id name value).Stands course m) :
    Lies course fuel (.evaluate (.assign id name value)) m task' m' := by
  obtain ⟨ribs, hfits, h⟩ := hstands.fits rfl
  obtain ⟨hv, hnode⟩ := hfits.assign
  cases hbegins with
  | operand hfirst =>
    cases hfirst
    exact .operand h hv (by rw [Eval.evaluate]) fun v m₁ h₁ =>
      (Evaluates.writeName h₁ hnode v).bind fun _ m₂ h₂ => .pure h₂.sound

theorem call_lies {callee : Expr} {paren : Token} {arguments : List Expr}
    (hbegins : Begins course.lookup fuel (.evaluate (.call callee paren arguments)) m task' m')
    (hstands : (Expr.call callee paren arguments).Stands course m) :
    Lies course fuel (.evaluate (.call callee paren arguments)) m task' m' := by
  obtain ⟨ribs, hfits, h⟩ := hstands.fits rfl
  obtain ⟨hc, hargs⟩ := hfits.call
  have hall := behaves course fuel
  cases hbegins with
  | operand hfirst =>
    cases hfirst
    exact .operand h hc (by rw [Eval.evaluate]) fun v m₁ h₁ =>
      (hall.evaluateEach hargs h₁).bind fun args m₂ h₂ => hall.invoke v paren args h₂.sound
  | @arguments _ _ _ _ v _ hcallee =>
    obtain ⟨hkeeps, h₁⟩ := hc.ran h hcallee
    exact .of_evaluates ⟨ribs, hargs, h₁⟩ (hkeeps.moves rfl) rfl
      (by rw [Task.leaves, Eval.evaluate, leaves_bind_of_ok hcallee]) fun args m₂ hrun =>
        hall.invoke v paren args ((hall.evaluateEach hargs h₁).ok hrun).sound
  | call hcallee hrun =>
    obtain ⟨hkeeps, h₁⟩ := hc.ran h hcallee
    have hkeeps' := (hall.evaluateEach hargs h₁).ok hrun
    refine .last hkeeps'.sound ((hkeeps.trans hkeeps').moves rfl) ?_
    rw [Task.leaves, Eval.evaluate, leaves_bind_of_ok hcallee, leaves_bind_of_ok hrun]
    rfl

theorem get_lies {object : Expr} {name : Token}
    (hbegins : Begins course.lookup fuel (.evaluate (.get object name)) m task' m')
    (hstands : (Expr.get object name).Stands course m) :
    Lies course fuel (.evaluate (.get object name)) m task' m' := by
  obtain ⟨ribs, hfits, h⟩ := hstands.fits rfl
  have hobject : object.Fits course ribs := hfits
  cases hbegins with
  | operand hfirst =>
    cases hfirst
    refine .operand h hobject (by rw [Eval.evaluate]) fun v m₁ h₁ => ?_
    split
    · refine .instanceAttribute h₁.sound fun found m₂ h₂ hfound => ?_
      cases found with
      | some found => exact (behaves course fuel).attributeValue name (hfound found rfl) h₂
      | none => exact .inspect (.fail h₂ fun _ h => by cases h)
    · refine .inspect ?_
      split
      · exact .pure h₁.sound
      · exact .inspect (.fail h₁.sound fun _ h => by cases h)
    · exact .fail h₁.sound fun _ h => by cases h
  | member hrun hfound =>
    obtain ⟨hkeeps, hsound⟩ := (hobject.ran h hrun).1.found hfound
    refine .last ⟨hsound, hkeeps.sound⟩ (hkeeps.moves rfl) ?_
    rw [Task.leaves, Eval.evaluate, leaves_bind_of_ok hrun]
    exact congrArg Machine.store (leaves_bind_of_ok hfound)

theorem set_lies {object value : Expr} {name : Token}
    (hbegins : Begins course.lookup fuel (.evaluate (.set object name value)) m task' m')
    (hstands : (Expr.set object name value).Stands course m) :
    Lies course fuel (.evaluate (.set object name value)) m task' m' := by
  obtain ⟨ribs, hfits, h⟩ := hstands.fits rfl
  obtain ⟨ho, hv⟩ := hfits.set
  have hall := behaves course fuel
  cases hbegins with
  | operand hfirst =>
    cases hfirst
    refine .operand h ho (by rw [Eval.evaluate]) fun v m₁ h₁ => ?_
    split
    · exact (hall.evaluate hv h₁).bind fun value m₂ h₂ => .setInstanceField h₂.sound
    · exact (hall.evaluate hv h₁).bind fun value m₂ h₂ => .setClassField h₂.sound
    · exact .fail h₁.sound fun _ h => by cases h
  | assigned hobject htarget =>
    obtain ⟨hkeeps, h₁⟩ := ho.ran h hobject
    obtain ⟨id, rfl⟩ | ⟨id, rfl⟩ := htarget
    · exact .of_evaluates ⟨ribs, h₁, .inl hv⟩ (hkeeps.moves rfl) rfl
        (by rw [Task.leaves, Eval.evaluate, leaves_bind_of_ok hobject]) fun v m₂ hrun =>
          .setInstanceField (hv.ran h₁ hrun).1.sound
    · exact .of_evaluates ⟨ribs, h₁, .inl hv⟩ (hkeeps.moves rfl) rfl
        (by rw [Task.leaves, Eval.evaluate, leaves_bind_of_ok hobject]) fun v m₂ hrun =>
          .setClassField (hv.ran h₁ hrun).1.sound

theorem super_lies {id : NodeId} {keyword method : Token}
    (hbegins : Begins course.lookup fuel (.evaluate (.super id keyword method)) m task' m')
    (hstands : (Expr.super id keyword method).Stands course m) :
    Lies course fuel (.evaluate (.super id keyword method)) m task' m' := by
  obtain ⟨ribs, h, hfits | ⟨_, _, heq, -⟩⟩ := hstands
  case inr => cases heq
  cases hbegins with
  | operand hfirst => cases hfirst
  | inherited hbase hfound =>
    have hread := (Evaluates.readName h (hfits.node fun _ _ => rfl)).ok hbase
    obtain ⟨hkeeps, hsound⟩ := hread.found hfound
    refine .last ⟨hsound, hkeeps.sound⟩ (hkeeps.moves rfl) ?_
    rw [Task.leaves, Eval.evaluate, leaves_bind_of_ok hbase]
    exact congrArg Machine.store (leaves_bind_of_ok hfound)

/-- The calls that an expression makes. -/
theorem evaluate_lies {e : Expr} (hbegins : Begins course.lookup fuel (.evaluate e) m task' m')
    (hstands : e.Stands course m) : Lies course fuel (.evaluate e) m task' m' := by
  cases e with
  | grouping inner => exact hbegins.grouping_lies hstands
  | unary operator right => exact hbegins.unary_lies hstands
  | binary left operator right => exact hbegins.binary_lies hstands
  | logical left operator right => exact hbegins.logical_lies hstands
  | ternary condition question thenBranch elseBranch => exact hbegins.ternary_lies hstands
  | assign id name value => exact hbegins.assign_lies hstands
  | call callee paren arguments => exact hbegins.call_lies hstands
  | get object name => exact hbegins.get_lies hstands
  | set object name value => exact hbegins.set_lies hstands
  | super id keyword method => exact hbegins.super_lies hstands
  | literal | «variable» | this | arrow =>
    cases hbegins with
    | operand hfirst => cases hfirst

theorem evaluateEach_lies {es : List Expr}
    (hbegins : Begins course.lookup fuel (.evaluateEach es) m task' m')
    (htask : (Task.evaluateEach es).Fits course m) :
    Lies course fuel (.evaluateEach es) m task' m' := by
  obtain ⟨ribs, hfits, h⟩ := htask
  cases hbegins with
  | head =>
    obtain ⟨he, hes⟩ := hfits.cons
    exact .of_evaluates ⟨ribs, h, .inl he⟩ (.refl rfl) rfl
      (by rw [Task.leaves, Eval.evaluateEach]) fun v m₁ hrun =>
        ((behaves course fuel).evaluateEach hes (he.ran h hrun).2).bind fun _ _ h₂ =>
          .pure h₂.sound
  | tail hhead =>
    obtain ⟨he, hes⟩ := hfits.cons
    obtain ⟨hkeeps, h₁⟩ := he.ran h hhead
    exact .of_bind ⟨ribs, hes, h₁⟩ (hkeeps.moves rfl) rfl
      (by rw [Task.leaves, Eval.evaluateEach, leaves_bind_of_ok hhead]) fun _ _ _ => .refl _

/-! ## Calls of values -/

theorem attributeValue_lies {found : Attribute} {name : Token}
    (hbegins : Begins course.lookup fuel (.attributeValue found name) m task' m')
    (htask : (Task.attributeValue found name).Fits course m) :
    Lies course fuel (.attributeValue found name) m task' m' := by
  cases hbegins with
  | getter =>
    obtain ⟨⟨hbound, hbare⟩, hsound⟩ := htask
    refine .last ⟨hsound, hbound, by rw [hbare]; rfl⟩ (.refl rfl) ?_
    rw [Task.leaves, Eval.attributeValue]
    rfl

theorem invoke_lies {callee : Value} {paren : Token} {args : List Value}
    (hbegins : Begins course.lookup fuel (.invoke callee paren args) m task' m')
    (h : m.store.Sound course) : Lies course fuel (.invoke callee paren args) m task' m' := by
  have hchecked {c : Callable} {m₁ : Machine}
      (hcheck : checkCall callee paren args.length m = .ok c m₁) :
      m₁ = m ∧ args.length = m.store.arity c := (runs_checkCall h _ _ _).ok hcheck
  cases hbegins with
  | function hcheck hfound =>
    obtain ⟨rfl, hlength⟩ := hchecked hcheck
    rw [Store.arity, hfound] at hlength
    refine .last ⟨h, h.functions hfound, hlength⟩ (.refl rfl) ?_
    rw [Task.leaves, Eval.invoke, leaves_bind_of_ok hcheck]
    dsimp only
    rw [leaves_inspect_bind (·.function? _) hfound]
    rfl
  | arrow hcheck hfound =>
    obtain ⟨rfl, hlength⟩ := hchecked hcheck
    rw [Store.arity, hfound] at hlength
    refine .last ⟨h, hlength, h.arrows hfound⟩ (.refl rfl) ?_
    rw [Task.leaves, Eval.invoke, leaves_bind_of_ok hcheck]
    dsimp only
    rw [leaves_inspect_bind (·.arrow? _) hfound]
    exact congrArg Machine.store leaves_bind_pure
  | construction hcheck hfound =>
    obtain ⟨rfl, hlength⟩ := hchecked hcheck
    rw [Store.arity] at hlength
    obtain ⟨hsound, hgrows, -, -⟩ := h.instantiate hfound
    refine .last ⟨hsound, fun portion c hinitializer => ?_⟩ ⟨hgrows.endures, .inl rfl⟩ ?_
    · exact hlength.trans (Store.initializer?_instantiate h hfound hinitializer)
    · rw [Task.leaves, Eval.invoke, leaves_bind_of_ok hcheck]
      dsimp only
      rw [leaves_inspect_bind (·.class? _) hfound]
      exact congrArg Machine.store leaves_bind_pure

theorem construct_lies {object : InstanceId} {args : List Value} {paren : Token}
    (hbegins : Begins course.lookup fuel (.construct object args paren) m task' m')
    (htask : (Task.construct object args paren).Fits course m) :
    Lies course fuel (.construct object args paren) m task' m' := by
  obtain ⟨h, hargs⟩ := htask
  cases hbegins with
  | @initializer _ _ _ _ portion c hfound =>
    obtain ⟨hsound, hgrows, hbound, hdecl⟩ : (m.store.bind c portion).2.Sound course ∧
        m.store.Grows none (m.store.bind c portion).2 ∧
        (m.store.bind c portion).1.Sound course (m.store.bind c portion).2 ∧
        (m.store.bind c portion).1.decl = c.decl := by
      cases Store.methods_of_initializer? hfound with
      | method hportion hobject hc => exact h.bind hportion hobject ((h.classes hobject).methods hc)
    refine .last ⟨hsound, hbound, hdecl ▸ hargs portion c hfound⟩ ⟨hgrows.endures, .inl rfl⟩ ?_
    rw [Task.leaves, Eval.construct, leaves_inspect_bind (·.initializer? object) hfound]
    exact congrArg Machine.store leaves_discard

theorem callFunction_lies {c : Closure} {args : List Value} {place : Token}
    (hbegins : Begins course.lookup fuel (.callFunction c args place) m task' m')
    (htask : (Task.callFunction c args place).Fits course m) :
    Lies course fuel (.callFunction c args place) m task' m' := by
  obtain ⟨h, hc, hlength⟩ := htask
  cases hbegins with
  | body =>
    refine .of_evaluates ⟨h, hlength, hc.place⟩ (.refl rfl) rfl
      (by rw [Task.leaves, Eval.callFunction]) fun signal m₁ hrun => ?_
    obtain ⟨ribs, hmirrors, hfits⟩ := hc.place
    have h₁ := ((behaves course fuel).callBody place hmirrors hfits h hlength).ok hrun
    exact .ite (fun hinitializer => .initializedObject h₁.sound
      ((hc.mono h₁.grows).receiver hinitializer)) fun _ => .pure h₁.sound

theorem callBody_lies {outer : FrameId} {params : List Token} {body : List Stmt}
    {args : List Value} {place : Token}
    (hbegins : Begins course.lookup fuel (.callBody outer params body args place) m task' m')
    (htask : (Task.callBody outer params body args place).Fits course m) :
    Lies course fuel (.callBody outer params body args place) m task' m' := by
  obtain ⟨h, hlength, ribs, hmirrors, hfits⟩ := htask
  have hframe : (Eval.parameterFrame params body args outer).WellFormed (m.store.addFrame _).1 :=
    wellFormed_parameterFrame hmirrors hlength
  cases hbegins with
  | statements hdepth =>
    refine .last ⟨_, hfits.body, fun _ => hosts_parameterRib, h.addFrame hframe,
      hmirrors.parameterFrame hlength⟩ (.opening rfl rfl rfl rfl) ?_
    rw [Task.leaves, Eval.callBody, leaves_called hdepth]
    rfl

end Eval.Begins

/-! ## Statements -/

/-- The expression of a statement that is evaluated first, with the rest behind it. -/
theorem Eval.Lies.expression {s : Stmt} {first : Expr} {k : Value → Eval Signal}
    (hfirst : first.Stands course m)
    (heq : Eval.execute (fuel + 1) course.lookup s = Eval.evaluate fuel course.lookup first >>= k)
    (hk : ∀ v m₁, Keeps course none m m₁ → Evaluates course (k v) m₁) :
    Eval.Lies course fuel (.execute s) m (.evaluate first) m :=
  .of_evaluates hfirst (.refl rfl) rfl (congrArg (fun run => (Eval.leaves run m).store) heq)
    fun v m₁ hrun => hk v m₁ (hfirst.evaluates.ok hrun)

/-- A value whose text is written out. -/
theorem Eval.Lies.written {s : Stmt} {value : Expr} {text : Store → Value → String}
    (hvalue : value.Fits course ribs) (h : Placed course ribs m)
    (heq : Eval.execute (fuel + 1) course.lookup s = do
      let v ← Eval.evaluate fuel course.lookup value
      Eval.write (← Eval.inspect fun s => text s v)
      return Signal.completed) :
    Eval.Lies course fuel (.execute s) m (.evaluate value) m :=
  .expression ⟨ribs, h, .inl hvalue⟩ heq fun _ _ h₁ =>
    .inspect ((Evaluates.write h₁.sound _).bind fun _ _ h₂ => .pure h₂.sound)

/-- The value of a name that is declared. It is evaluated while the name is not bound yet. -/
theorem Eval.Lies.declared {s : Stmt} {value : Expr} {name : Token} {kind : DeclarationKind}
    (hs : s.Fits course ribs) (hhosts : Hosts ribs s) (h : Placed course ribs m)
    (hname : s.declaration? = some (name, kind)) (hvalue : value.Stands course m)
    (heq : Eval.execute (fuel + 1) course.lookup s = do
      let v ← Eval.evaluate fuel course.lookup value
      Eval.declare name.lexeme (some v) !kind.isMutable
      return Signal.completed) :
    Eval.Lies course fuel (.execute s) m (.evaluate value) m := by
  refine .of_bind hvalue (.refl rfl) rfl (congrArg (fun run => (Eval.leaves run m).store) heq)
    fun v m₁ hrun => ?_
  have hplaced := (hvalue.evaluates.ok hrun).placed h
  rw [leaves_bind_pure]
  exact (hs.runs_declare hhosts hplaced hname (some v)).endures_executed

/-- The clauses of a `for` stand in a scope of their own. -/
theorem Stmt.Fits.clause {initializer body : Stmt} {condition update : Option Expr}
    (hs : (Stmt.for (some initializer) condition update body).Fits course ribs)
    (h : Placed course ribs m) :
    let scope := ScopeKind.clauses (some initializer) condition update body
    initializer.Fits course (.bare scope :: ribs) ∧ Hosts (.bare scope :: ribs) initializer ∧
      Placed course (.bare scope :: ribs) (m.entering ⟨scope, .empty, some m.here⟩) :=
  ⟨hs.for.1, hosts_bare fun _ hname => ⟨initializer, rfl, hname⟩,
    h.opening _ fun _ hkind => by cases hkind⟩

namespace Eval.Begins

theorem expression_lies {value : Expr}
    (hbegins : Begins course.lookup fuel (.execute (.expression value)) m task' m')
    (hvalue : value.Fits course ribs) (h : Placed course ribs m) :
    Lies course fuel (.execute (.expression value)) m task' m' := by
  cases hbegins with
  | expression hfirst =>
    cases hfirst
    refine .last ⟨ribs, h, .inl hvalue⟩ (.refl rfl) ?_
    show (leaves (execute (fuel + 1) course.lookup (.expression value)) m).store = _
    rw [Eval.execute, leaves_bind_pure, leaves_discard]
    rfl

theorem ifElse_lies {condition : Expr} {thenBranch : Stmt} {elseBranch : Option Stmt}
    (hbegins : Begins course.lookup fuel (.execute (.ifElse condition thenBranch elseBranch)) m
      task' m')
    (hs : (Stmt.ifElse condition thenBranch elseBranch).Fits course ribs)
    (h : Placed course ribs m) :
    Lies course fuel (.execute (.ifElse condition thenBranch elseBranch)) m task' m' := by
  obtain ⟨hc, ⟨ht, hplain⟩, he⟩ := hs.ifElse
  have hall := behaves course fuel
  cases hbegins with
  | expression hfirst =>
    cases hfirst
    cases elseBranch with
    | none =>
      exact .expression ⟨ribs, h, .inl hc⟩ (by rw [Eval.execute]) fun v m₁ h₁ =>
        .ite (fun _ => hall.executePlain ht hplain (h₁.placed h)) fun _ => .pure h₁.sound
    | some elseBranch =>
      obtain ⟨hother, hotherPlain⟩ := he elseBranch rfl
      exact .expression ⟨ribs, h, .inl hc⟩ (by rw [Eval.execute]) fun v m₁ h₁ =>
        .ite (fun _ => hall.executePlain ht hplain (h₁.placed h)) fun _ =>
          hall.executePlain hother hotherPlain (h₁.placed h)
  | thenBranch hcondition htrue =>
    obtain ⟨hkeeps, h₁⟩ := hc.ran h hcondition
    refine .last ⟨ribs, ht, .of_plain hplain, h₁⟩ (hkeeps.moves rfl) ?_
    cases elseBranch <;> rw [Task.leaves, Eval.execute, leaves_bind_of_ok hcondition, htrue] <;> rfl
  | elseBranch hcondition hfalse =>
    obtain ⟨hother, hotherPlain⟩ := he _ rfl
    obtain ⟨hkeeps, h₁⟩ := hc.ran h hcondition
    refine .last ⟨ribs, hother, .of_plain hotherPlain, h₁⟩ (hkeeps.moves rfl) ?_
    rw [Task.leaves, Eval.execute, leaves_bind_of_ok hcondition, hfalse]
    rfl

theorem assert_lies {keyword : Token} {condition : Expr} {message : Option Expr}
    (hbegins : Begins course.lookup fuel (.execute (.assert keyword condition message)) m task' m')
    (hs : (Stmt.assert keyword condition message).Fits course ribs) (h : Placed course ribs m) :
    Lies course fuel (.execute (.assert keyword condition message)) m task' m' := by
  obtain ⟨hc, hm⟩ := hs.assert
  cases hbegins with
  | expression hfirst =>
    cases hfirst
    refine .expression ⟨ribs, h, .inl hc⟩ (by rw [Eval.execute]) fun v m₁ h₁ => ?_
    refine .ite (fun _ => .pure h₁.sound) fun _ => ?_
    cases message with
    | none => exact .fail h₁.sound fun _ h => by cases h
    | some message =>
      have hmessage : message.Fits course ribs := hm
      exact ((behaves course fuel).evaluate hmessage (h₁.placed h)).bind fun value m₂ h₂ =>
        .inspect (.fail h₂.sound fun _ h => by cases h)
  | message hcondition hfalse =>
    obtain ⟨hkeeps, h₁⟩ := hc.ran h hcondition
    exact .of_bind ⟨ribs, h₁, .inl hm⟩ (hkeeps.moves rfl) rfl
      (by rw [Task.leaves, Eval.execute, leaves_bind_of_ok hcondition, hfalse]; rfl)
      fun _ _ _ => .refl _

theorem for_lies {initializer : Option Stmt} {condition update : Option Expr} {body : Stmt}
    (hbegins : Begins course.lookup fuel (.execute (.for initializer condition update body)) m
      task' m')
    (hs : (Stmt.for initializer condition update body).Fits course ribs)
    (h : Placed course ribs m) :
    Lies course fuel (.execute (.for initializer condition update body)) m task' m' := by
  obtain ⟨-, hc, hu, hb, hplain⟩ := hs.for
  have hall := behaves course fuel
  cases hbegins with
  | expression hfirst => cases hfirst
  | clause =>
    obtain ⟨hi, hhosts, hopened⟩ := hs.clause h
    refine .of_evaluates ⟨_, hi, hhosts, hopened⟩ (.opening rfl rfl rfl rfl)
      (congrArg Machine.store leaves_discard.symm)
      (by rw [Task.leaves, Eval.execute, leaves_openFrame_bind, leaves_within]; rfl)
      fun _ m₁ hrun => ?_
    obtain ⟨_, hexecuted⟩ := (hall.execute hi hhosts hopened).discard.ok hrun
    exact hall.forLoop hc hu hb hplain hexecuted.placed
  | «for» =>
    refine .last ⟨_, hc, hu, hb, hplain, h.opening _ fun _ hkind => by cases hkind⟩
      (.opening rfl rfl rfl rfl) ?_
    rw [Task.leaves, Eval.execute, leaves_openFrame_bind, leaves_within]
    rfl
  | forBehind hclause =>
    obtain ⟨hi, hhosts, hopened⟩ := hs.clause h
    have hexecuted := (hall.execute hi hhosts hopened).ok hclause
    refine .last ⟨_, hc, hu, hb, hplain, hexecuted.placed⟩
      ((Eval.Task.Moves.opening rfl rfl rfl rfl).keeps hexecuted.grown) ?_
    rw [Task.leaves, Eval.execute, leaves_openFrame_bind, leaves_within]
    have hloop := congrArg Machine.store (leaves_discard_bind_of_ok hclause
      (k := fun _ => Eval.forLoop fuel course.lookup condition update body))
    exact hloop

/-- The base of a class is evaluated before the name of the class is declared. -/
theorem class_lies {decl : ClassDecl}
    (hbegins : Begins course.lookup fuel (.execute (.class decl)) m task' m')
    (hs : (Stmt.class decl).Fits course ribs) (hhosts : Hosts ribs (.class decl))
    (h : Placed course ribs m) : Lies course fuel (.execute (.class decl)) m task' m' := by
  cases hbegins with
  | @expression _ first _ hfirst =>
    have hbase : decl.base = some first := hfirst
    obtain ⟨id, name, rfl, hnode⟩ := hs.class.base first hbase
    have hone : (Expr.variable id name).Stands course m := ⟨ribs, h, .inr ⟨id, name, rfl, hnode⟩⟩
    have heq : Eval.execute (fuel + 1) course.lookup (.class decl) = do
        let value ← Eval.evaluate fuel course.lookup (.variable id name)
        let base ← some <$> Eval.asBaseClass decl (.variable id name) value
        Eval.declareClass decl base
        return Signal.completed := by
      rw [Eval.execute, hbase]
    refine .of_bind hone (.refl rfl) rfl (congrArg (fun run => (Eval.leaves run m).store) heq)
      fun v m₁ hrun => ?_
    have h₁ := hone.evaluates.ok hrun
    rw [map_eq_pure_bind, bind_assoc]
    refine @Runs.endures_executed _ course _ _ (.class decl) ribs ?_
    refine (runs_asBaseClass h₁.sound decl _ v).bind fun base m₂ hfound => ⟨hfound.1, ?_⟩
    have hclass : ∀ other ∈ some base, (m₂.store.class? other).isSome := by
      rintro other ⟨⟩
      exact hfound.2
    exact (runs_declareClass hs hhosts (hfound.1.placed (h₁.placed h)) (by rw [hbase]; rfl)
      hclass).andReturn fun _ _ h₂ => h₂.behind hfound.1

/-- The calls that a statement makes. -/
theorem execute_lies {s : Stmt} (hbegins : Begins course.lookup fuel (.execute s) m task' m')
    (htask : (Task.execute s).Fits course m) : Lies course fuel (.execute s) m task' m' := by
  obtain ⟨ribs, hs, hhosts, h⟩ := htask
  cases s with
  | expression value => exact hbegins.expression_lies hs h
  | ifElse condition thenBranch elseBranch => exact hbegins.ifElse_lies hs h
  | assert keyword condition message => exact hbegins.assert_lies hs h
  | «for» initializer condition update body => exact hbegins.for_lies hs h
  | «class» decl => exact hbegins.class_lies hs hhosts h
  | print value | println value =>
    cases hbegins with
    | expression hfirst =>
      cases hfirst
      exact .written hs h (by rw [Eval.execute])
  | var name initializer =>
    cases hbegins with
    | expression hfirst =>
      cases hfirst
      refine .declared hs hhosts h rfl ⟨_, hs.placed_beginning h rfl, .inl hs.var⟩ ?_
      rw [Eval.execute]
      rfl
  | const name initializer =>
    cases hbegins with
    | expression hfirst =>
      cases hfirst
      refine .declared hs hhosts h rfl ⟨_, hs.placed_beginning h rfl, .inl hs.const⟩ ?_
      rw [Eval.execute]
      rfl
  | block body =>
    cases hbegins with
    | expression hfirst => cases hfirst
    | block =>
      refine .last ⟨_, hs.block, fun s hmem => hosts_bare fun _ hname => ⟨s, hmem, hname⟩,
        h.opening _ fun _ hkind => by cases hkind⟩ (.opening rfl rfl rfl rfl) ?_
      rw [Task.leaves, Eval.execute, leaves_openFrame_bind, leaves_within]
      rfl
  | «while» condition body =>
    cases hbegins with
    | expression hfirst => cases hfirst
    | «while» =>
      obtain ⟨hc, hb, hplain⟩ := hs.while
      refine .last ⟨ribs, hc, hb, hplain, h⟩ (.refl rfl) ?_
      rw [Task.leaves, Eval.execute]
      rfl
  | «return» keyword value =>
    cases hbegins with
    | expression hfirst =>
      cases hfirst
      exact .expression ⟨ribs, h, .inl hs.return⟩ (by rw [Eval.execute]) fun _ _ h₁ =>
        .pure h₁.sound
  | «break» | «continue» | function =>
    cases hbegins with
    | expression hfirst => cases hfirst

theorem executeEach_lies {ss : List Stmt}
    (hbegins : Begins course.lookup fuel (.executeEach ss) m task' m')
    (htask : (Task.executeEach ss).Fits course m) :
    Lies course fuel (.executeEach ss) m task' m' := by
  obtain ⟨ribs, hss, hhosts, h⟩ := htask
  have hall := behaves course fuel
  cases hbegins with
  | @first s ss =>
    obtain ⟨hs, hrest⟩ := hss.cons
    refine .of_bind ⟨ribs, hs, hhosts _ List.mem_cons_self, h⟩ (.refl rfl) rfl
      (by rw [Task.leaves, Eval.executeEach]) fun signal m₁ hrun => ?_
    have h₁ := (hall.execute hs (hhosts _ List.mem_cons_self) h).ok hrun
    have hhosts := fun t (ht : t ∈ ss) => (hhosts t (List.mem_cons_of_mem _ ht)).grow s
    cases signal with
    | completed => exact Runs.endures (hall.executeEach hrest hhosts h₁.placed) fun _ _ => id
    | broke | continued | returned => exact .refl _
  | rest hfirst =>
    obtain ⟨hs, hrest⟩ := hss.cons
    have h₁ := (hall.execute hs (hhosts _ List.mem_cons_self) h).ok hfirst
    refine .last ⟨_, hrest, fun t ht => (hhosts t (List.mem_cons_of_mem _ ht)).grow _, h₁.placed⟩
      (h₁.grown.moves rfl) ?_
    rw [Task.leaves, Eval.executeEach, leaves_bind_of_ok hfirst]
    rfl

/-! ## Loops -/

theorem whileLoop_lies {condition : Expr} {body : Stmt}
    (hbegins : Begins course.lookup fuel (.whileLoop condition body) m task' m')
    (htask : (Task.whileLoop condition body).Fits course m) :
    Lies course fuel (.whileLoop condition body) m task' m' := by
  obtain ⟨ribs, hc, hb, hplain, h⟩ := htask
  have hall := behaves course fuel
  cases hbegins with
  | condition =>
    refine .of_evaluates ⟨ribs, h, .inl hc⟩ (.refl rfl) rfl
      (by rw [Task.leaves, Eval.whileLoop]) fun v m₁ hrun => ?_
    obtain ⟨-, h₁⟩ := hc.ran h hrun
    refine .ite (fun _ => ?_) fun _ => .pure h₁.sound
    refine (hall.executePlain hb hplain h₁).bind fun signal m₂ h₂ => ?_
    cases signal with
    | broke | returned => exact .pure h₂.sound
    | completed | continued => exact hall.whileLoop hc hb hplain (h₂.placed h₁)
  | round hcondition htrue =>
    obtain ⟨hkeeps, h₁⟩ := hc.ran h hcondition
    refine .of_evaluates ⟨ribs, hb, .of_plain hplain, h₁⟩ (hkeeps.moves rfl) rfl
      (by rw [Task.leaves, Eval.whileLoop, leaves_bind_of_ok hcondition, htrue]; rfl)
      fun signal m₂ hrun => ?_
    obtain ⟨-, h₂⟩ := hb.ran hplain h₁ hrun
    cases signal with
    | broke | returned => exact .pure h₂.sound
    | completed | continued => exact hall.whileLoop hc hb hplain h₂
  | @rounds _ _ _ _ _ signal _ hcondition htrue hbody hround =>
    obtain ⟨hkeeps, h₁⟩ := hc.ran h hcondition
    obtain ⟨hkeeps', h₂⟩ := hb.ran hplain h₁ hbody
    refine .last ⟨ribs, hc, hb, hplain, h₂⟩ ((hkeeps.trans hkeeps').moves rfl) ?_
    rw [Task.leaves, Eval.whileLoop, leaves_bind_of_ok hcondition, htrue, if_pos rfl,
      leaves_bind_of_ok hbody]
    cases signal with
    | broke | returned => cases hround
    | completed | continued => rfl

theorem forLoop_lies {condition update : Option Expr} {body : Stmt}
    (hbegins : Begins course.lookup fuel (.forLoop condition update body) m task' m')
    (htask : (Task.forLoop condition update body).Fits course m) :
    Lies course fuel (.forLoop condition update body) m task' m' := by
  obtain ⟨ribs, hc, hu, hb, hplain, h⟩ := htask
  have hall := behaves course fuel
  -- behind the condition and the body of a round
  have hrounded {signal : Signal} {m₁ m₂ : Machine}
      (hcondition : goesOn fuel course.lookup condition m = .ok true m₁)
      (hbody : execute fuel course.lookup body m₁ = .ok signal m₂) :
      Keeps course none m m₂ ∧ Placed course ribs m₂ := by
    obtain ⟨hkeeps, h₁⟩ := hc.went h hcondition
    obtain ⟨hkeeps', h₂⟩ := hb.ran hplain h₁ hbody
    exact ⟨hkeeps.trans hkeeps', h₂⟩
  cases hbegins with
  | forCondition =>
    refine .of_evaluates ⟨ribs, h, .inl hc⟩ (.refl rfl) (congrArg Machine.store leaves_map.symm)
      (by rw [Task.leaves, Eval.forLoop_eq]; rfl) fun goes m₁ hrun => ?_
    obtain ⟨-, h₁⟩ := hc.went h hrun
    refine .ite (fun _ => ?_) fun _ => .pure h₁.sound
    exact (hall.executePlain hb hplain h₁).bind fun signal m₂ h₂ =>
      hall.behindRound hc hu hb hplain (h₂.placed h₁) signal
  | forRound hcondition =>
    obtain ⟨hkeeps, h₁⟩ := hc.went h hcondition
    exact .of_evaluates ⟨ribs, hb, .of_plain hplain, h₁⟩ (hkeeps.moves rfl) rfl
      (by rw [Task.leaves, Eval.forLoop_eq, leaves_bind_of_ok hcondition]; rfl)
      fun signal m₂ hrun =>
        hall.behindRound hc hu hb hplain (hb.ran hplain h₁ hrun).2 signal
  | update hcondition hbody hround =>
    obtain ⟨hkeeps, h₂⟩ := hrounded hcondition hbody
    exact .of_evaluates ⟨ribs, h₂, .inl hu⟩ (hkeeps.moves rfl)
      (congrArg Machine.store leaves_discard.symm)
      (by rw [Task.leaves, Eval.forLoop_eq, leaves_bind_of_ok hcondition, if_pos rfl,
        leaves_bind_of_ok hbody, Eval.behindRound_of_goesRound hround]; rfl) fun v m₃ hrun =>
        hall.forLoop hc hu hb hplain (hu.stepped h₂ hrun).2
  | forRounds hcondition hbody hround hupdate =>
    obtain ⟨hkeeps, h₂⟩ := hrounded hcondition hbody
    obtain ⟨hkeeps', h₃⟩ := hu.stepped h₂ hupdate
    refine .last ⟨ribs, hc, hu, hb, hplain, h₃⟩ ((hkeeps.trans hkeeps').moves rfl) ?_
    rw [Task.leaves, Eval.forLoop_eq, leaves_bind_of_ok hcondition, if_pos rfl,
      leaves_bind_of_ok hbody, Eval.behindRound_of_goesRound hround, leaves_bind_of_ok hupdate]
    rfl

/-! ## All calls -/

/-- A call lies in the call that makes it. -/
theorem lies (hbegins : Begins course.lookup fuel task m task' m')
    (htask : task.Fits course m) : Lies course fuel task m task' m' := by
  cases task with
  | evaluate e => exact hbegins.evaluate_lies htask
  | evaluateEach es => exact hbegins.evaluateEach_lies htask
  | attributeValue found name => exact hbegins.attributeValue_lies htask
  | invoke callee paren args => exact hbegins.invoke_lies htask
  | construct object args paren => exact hbegins.construct_lies htask
  | callFunction c args place => exact hbegins.callFunction_lies htask
  | callBody outer params body args place => exact hbegins.callBody_lies htask
  | execute s => exact hbegins.execute_lies htask
  | executeEach ss => exact hbegins.executeEach_lies htask
  | whileLoop condition body => exact hbegins.whileLoop_lies htask
  | forLoop condition update body => exact hbegins.forLoop_lies htask

end Eval.Begins

end Calls

end LoxLang
