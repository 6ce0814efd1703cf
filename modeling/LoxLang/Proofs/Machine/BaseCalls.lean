import LoxLang.Proofs.Machine.Bases

/-!
# Calls through the word for the base

A method that the word for the base finds is entered with a base portion as its object
(`Eval.EntersBase`). What follows is entered from the body of this method in the same way, because
its class has a base again: otherwise its body would not have been accepted
(`Eval.Contains.not_super`). So the objects of such a chain of calls are portions of one object, each
behind the one before it (`Eval.BaseCalls.sublist`).
-/

namespace LoxLang

/-! ## Inside of classes -/

section Accepted

variable {settings : Settings} {role : ClassRole}

theorem Expr.AcceptedIn.first {e first : Expr} (h : e.AcceptedIn settings role)
    (hfirst : e.first? = some first) : first.AcceptedIn settings role := by
  cases e with
  | grouping | unary | get =>
    cases hfirst
    exact h
  | binary =>
    cases hfirst
    exact h.binary.1
  | logical =>
    cases hfirst
    exact h.logical.1
  | ternary =>
    cases hfirst
    exact h.ternary.1
  | assign =>
    cases hfirst
    exact h.assign
  | call =>
    cases hfirst
    exact h.call.1
  | set =>
    cases hfirst
    exact h.set.1
  | literal | «variable» | this | super | arrow => cases hfirst

/-- A part of a program that was accepted inside of a class, or the name of a base class, which
stands before the class that derives from it. -/
def Expr.AcceptedAround (settings : Settings) (role : ClassRole) (e : Expr) : Prop :=
  e.AcceptedIn settings role ∨ ∃ id name, e = .variable id name

theorem Stmt.AcceptedIn.first {s : Stmt} {first : Expr} (h : s.AcceptedIn settings role)
    (hfirst : s.first? = some first) : first.AcceptedAround settings role := by
  cases s with
  | expression | print | println =>
    cases hfirst
    exact .inl h
  | const =>
    cases hfirst
    obtain ⟨⟨hv, -⟩, a, hrole, haccepted⟩ := h
    exact .inl (Stmt.AcceptedIn.initializer hv hrole haccepted)
  | var _ initializer =>
    cases initializer with
    | none => cases hfirst
    | some value =>
      cases hfirst
      obtain ⟨⟨hv, -⟩, a, hrole, haccepted⟩ := h
      exact .inl (Stmt.AcceptedIn.initializer hv hrole haccepted)
  | ifElse =>
    cases hfirst
    exact .inl h.ifElse.1
  | assert =>
    cases hfirst
    exact .inl h.assert.1
  | «return» _ value =>
    cases value with
    | none => cases hfirst
    | some value =>
      cases hfirst
      exact .inl h.return
  | «class» decl =>
    obtain ⟨name, base, methods, statics, getters⟩ := decl
    exact .inr (h.1.1 first hfirst)
  | block | «while» | «for» | «break» | «continue» | function => cases hfirst

/-- The code of a call was accepted inside of a class. Calls of functions bring code of their own. -/
def Eval.Task.AcceptedIn (settings : Settings) (role : ClassRole) : Eval.Task → Prop
  | .evaluate e => e.AcceptedAround settings role
  | .evaluateEach es => EachAcceptedIn settings role es
  | .attributeValue _ _ | .invoke _ _ _ | .construct _ _ _ | .callFunction _ _ _ => True
  | .callBody _ _ body _ _ | .executeEach body => BodyAcceptedIn settings role body
  | .execute s => s.AcceptedIn settings role
  | .whileLoop condition body =>
    condition.AcceptedIn settings role ∧ body.AcceptedIn settings role
  | .forLoop condition update body =>
    OptionalAcceptedIn settings role condition ∧ OptionalAcceptedIn settings role update ∧
      body.AcceptedIn settings role

/-- The calls that a call makes on its own code. -/
theorem Eval.Begins.acceptedIn {lookup : Lookup} {fuel : Nat} {task task' : Eval.Task}
    {m m' : Machine} (h : Eval.Begins lookup fuel task m task' m')
    (htask : task.AcceptedIn settings role) (hown : task'.isBody = false) :
    task'.AcceptedIn settings role := by
  have hexpr {e : Expr} (h : e.AcceptedAround settings role)
      (hother : ∀ id name, e ≠ .variable id name) : e.AcceptedIn settings role :=
    h.resolve_right fun ⟨id, name, heq⟩ => hother id name heq
  cases h with
  | operand hfirst =>
    refine .inl (Expr.AcceptedIn.first (hexpr htask ?_) hfirst)
    rintro id name rfl
    cases hfirst
  | right => exact .inl (hexpr htask (by intro _ _ heq; cases heq)).binary.2
  | undecided => exact .inl (hexpr htask (by intro _ _ heq; cases heq)).logical.2
  | chosen => exact .inl (hexpr htask (by intro _ _ heq; cases heq)).ternary.2.1
  | otherwise => exact .inl (hexpr htask (by intro _ _ heq; cases heq)).ternary.2.2
  | arguments => exact (hexpr htask (by intro _ _ heq; cases heq)).call.2
  | assigned => exact .inl (hexpr htask (by intro _ _ heq; cases heq)).set.2
  | head => exact .inl htask.cons.1
  | tail => exact htask.cons.2
  | call | member | inherited | getter | function | construction | initializer => trivial
  | arrow | body => cases hown
  | statements => exact htask
  | expression hfirst => exact Stmt.AcceptedIn.first htask hfirst
  | block => exact htask.block
  | thenBranch => exact htask.ifElse.2.1
  | elseBranch => exact htask.ifElse.2.2
  | «while» => exact htask.while
  | clause => exact htask.for.1
  | «for» | forBehind => exact htask.for.2
  | message => exact .inl htask.assert.2
  | first => exact htask.cons.1
  | rest => exact htask.cons.2
  | condition => exact .inl htask.1
  | round => exact htask.2
  | rounds => exact htask
  | forCondition => exact .inl htask.1
  | forRound => exact htask.2.2
  | update => exact .inl htask.2.1
  | forRounds => exact htask

/-- The body of a method of a class without a base does not come to the word for the base. -/
theorem Eval.Contains.not_super {lookup : Lookup} {fuel fuel' : Nat} {task : Eval.Task}
    {m m' : Machine} {id : NodeId} {keyword method : Token} (htask : task.AcceptedIn settings .root) :
    ¬Eval.Contains lookup fuel task m fuel' (.evaluate (.super id keyword method)) m' := by
  have hown {fuel' : Nat} {task' : Eval.Task} {m' : Machine}
      (h : Eval.Contains lookup fuel task m fuel' task' m') (hown : task'.isBody = false) :
      task'.AcceptedIn settings .root := by
    induction h with
    | begins hbegins => exact hbegins.acceptedIn htask hown
    | further _ hsame hbegins ih => exact hbegins.acceptedIn (ih hsame) hown
  intro h
  rcases hown h rfl with haccepted | ⟨_, _, heq⟩
  · exact haccepted.not_super
  · cases heq

end Accepted

/-! ## While a body runs -/

section Bodies

variable {course : Course} {fuel fuel' : Nat} {task task' : Eval.Task} {m m' : Machine}
  {object q : InstanceId}

theorem Eval.Contains.lies (h : Eval.Contains course.lookup fuel task m fuel' task' m')
    (hfits : task.Fits course m) : task'.Fits course m' ∧ m.store.Endures m'.store := by
  induction h with
  | begins hbegins =>
    have hlies := hbegins.lies hfits
    exact ⟨hlies.fits, hlies.before.endures⟩
  | further _ _ hbegins ih =>
    have hlies := hbegins.lies ih.1
    exact ⟨hlies.fits, ih.2.trans hlies.before.endures⟩

theorem Eval.Contains.ready {lookup : Lookup}
    (h : Eval.Contains lookup fuel task m fuel' task' m') (htask : task.Ready m.store)
    (hm : m.Whole) : task'.Ready m'.store ∧ m'.Whole := by
  induction h with
  | begins hbegins => exact hbegins.ready htask hm
  | further _ _ hbegins ih => exact hbegins.ready ih.1 ih.2

/-- A call is made on an object. If the object has no base portion, then the code of the call was
accepted in a class without a base. -/
structure Eval.Task.Serves (course : Course) (object : InstanceId) (task : Eval.Task) (m : Machine) :
    Prop where
  fits : task.Fits course m
  ready : task.Ready m.store
  whole : m.Whole
  works : m.store.WorksOn object (task.home m)
  derived : ∃ portion, m.store.portion? object = some portion ∧
    (portion.base.isSome ∨ task.AcceptedIn course.settings .root)

/-- Where the word for the base is looked up, it stands for the base portion of the object. -/
theorem Eval.Task.Serves.base (h : task.Serves course object m) {id : NodeId}
    {keyword method : Token} {m₁ : Machine}
    (hcontains : Eval.Contains course.lookup fuel task m (fuel' + 1)
      (.evaluate (.super id keyword method)) m₁)
    (hcalm : course.lookup.stopsAt id keyword m₁ = false) : ∃ portion base,
      m.store.portion? object = some portion ∧ portion.base = some base ∧
        Eval.readName course.lookup id keyword m₁ = .ok (.instance base) m₁ := by
  obtain ⟨portion, hportion, hderived⟩ := h.derived
  obtain ⟨base, hbase⟩ := Option.isSome_iff_exists.mp
    (hderived.resolve_right fun hroot => Eval.Contains.not_super hroot hcontains)
  obtain ⟨hfits, hendures⟩ := hcontains.lies h.fits
  obtain ⟨after, hafter, -, hsame⟩ := hendures.portion hportion
  exact ⟨portion, base, hportion, hbase, hfits.readName_super
    (hcontains.ready h.ready h.whole).2 hcalm (hcontains.worksOn h.fits h.works).2 hafter
    (hsame.trans hbase)⟩

/-- What the word for the base finds is a member of a portion behind the one that is worked on. The
search begins at the base portion, whose chain is the same since the body was entered. -/
theorem Eval.Task.Serves.searched (h : task.Serves course object m)
    (hcalm : ∀ id name m, course.lookup.stopsAt id name m = false) {id : NodeId}
    {keyword method : Token} {m₁ : Machine} {base : InstanceId} {member : Member}
    (hcontains : Eval.Contains course.lookup fuel task m (fuel' + 1)
      (.evaluate (.super id keyword method)) m₁)
    (hread : Eval.readName course.lookup id keyword m₁ = .ok (.instance base) m₁)
    (hmember : m₁.store.member? base method.lexeme = some (q, member)) : ∃ portion base,
    m.store.portion? object = some portion ∧ portion.base = some base ∧
      q ∈ m.store.portionChain base := by
  obtain ⟨portion, below, hportion, hbase, hread'⟩ := h.base hcontains (hcalm ..)
  cases hread.symm.trans hread'
  obtain ⟨hfits, hendures⟩ := hcontains.lies h.fits
  obtain ⟨before, behind, hchain, -⟩ := Store.member?_eq_some_iff.mp hmember
  obtain ⟨below, hbelow⟩ : ∃ below, m.store.portion? base = some below := by
    obtain ⟨c, -, hrel⟩ := h.fits.sound.portions hportion
    rw [hbase] at hrel
    generalize c.base = baseClass at hrel
    cases hrel with
    | some hunderlies => exact ⟨_, hunderlies.2.choose_spec.1⟩
  have hsame := h.fits.sound.chained.portionChain_endures hfits.sound.chained hendures hbelow
  refine ⟨portion, base, hportion, hbase, ?_⟩
  rw [← hsame, hchain]
  exact List.mem_append_right _ List.mem_cons_self

/-! ## Calls -/

/-- From a call, a method or getter that the word for the base finds is entered: it is a member of
this portion. -/
inductive Eval.EntersBase (lookup : Lookup) (fuel : Nat) (task : Eval.Task) (m : Machine)
    (q : InstanceId) : Nat → Eval.Task → Machine → Prop
  /-- A getter is called where it is found. -/
  | getter {fuel' id keyword method m₁ base c bound m₂}
    (hcontains : Eval.Contains lookup fuel task m (fuel' + 3)
      (.evaluate (.super id keyword method)) m₁)
    (hbase : Eval.readName lookup id keyword m₁ = .ok (.instance base) m₁)
    (hmember : m₁.store.member? base method.lexeme = some (q, .getter c))
    (hfound : Eval.instanceAttribute? base method.lexeme m₁ = .ok (some (.getter bound)) m₂) :
    EntersBase lookup fuel task m q fuel'
      (.callBody bound.frame bound.decl.params bound.decl.body [] method) m₂
  /-- A method is the callee of a call. -/
  | method {fuel' id keyword method paren arguments m₁ base c function m₂ args m₃ bound}
    (hcontains : Eval.Contains lookup fuel task m (fuel' + 3)
      (.evaluate (.call (.super id keyword method) paren arguments)) m₁)
    (hbase : Eval.readName lookup id keyword m₁ = .ok (.instance base) m₁)
    (hmember : m₁.store.member? base method.lexeme = some (q, .method c))
    (hcallee : Eval.evaluate (fuel' + 2) lookup (.super id keyword method) m₁ =
      .ok (Store.functionValue function) m₂)
    (hargs : Eval.evaluateEach (fuel' + 2) lookup arguments m₂ = .ok args m₃)
    (hcheck : Eval.checkCall (Store.functionValue function) paren args.length m₃ =
      .ok (.function function) m₃)
    (hfound : m₃.store.function? function = some bound) :
    EntersBase lookup fuel task m q fuel'
      (.callBody bound.frame bound.decl.params bound.decl.body args paren) m₃

/-- Calls each of which the body before it makes through the word for the base, with the portions
that their methods are members of. -/
inductive Eval.BaseCalls (lookup : Lookup) (fuel : Nat) (task : Eval.Task) (m : Machine) :
    List InstanceId → Nat → Eval.Task → Machine → Prop
  | none : BaseCalls lookup fuel task m [] fuel task m
  | further {qs fuel' task' m' q fuel'' task'' m''}
    (h : BaseCalls lookup fuel task m qs (fuel' + 1) task' m')
    (hnext : Eval.EntersBase lookup fuel' task' m' q fuel'' task'' m'') :
    BaseCalls lookup fuel task m (qs ++ [q]) fuel'' task'' m''

/-- If the portion of a method or getter has no base portion, then its body was accepted in a class
without a base. -/
theorem Store.Sound.derived_of_provides {record : Record} {s : Store} {name : String}
    {member : Member} {c : Closure} (h : s.Sound record) (hprovides : Provides s q name member)
    (hmember : member = .getter c ∨ member = .method c) : ∃ portion,
      s.portion? q = some portion ∧
        (portion.base.isSome ∨ BodyAcceptedIn record.settings .root c.decl.body) := by
  have haccepted {portion : Portion} {object : ClassObject} {c : Closure}
      (hportion : s.portion? q = some portion)
      (hobject : s.class? portion.classId = some object)
      (hc : c.MethodSound record s object.decl) :
      portion.base.isSome ∨ BodyAcceptedIn record.settings .root c.decl.body := by
    obtain ⟨ribs, -, hfits⟩ := hc
    obtain ⟨object', hobject', hrel⟩ := h.portions hportion
    cases hobject.symm.trans hobject'
    have hderived := (h.classes hobject).derived
    generalize portion.base = base, object.base = baseClass at hrel hderived
    cases hrel with
    | some => exact .inl rfl
    | none =>
      have hrole : object.decl.role = .root := by
        rw [ClassDecl.role, ← hderived]
        rfl
      exact .inr (hrole ▸ hfits.accepted)
  cases hprovides with
  | value value =>
    rcases hmember with heq | heq
    · cases heq
    · cases heq
  | getter hportion hobject hc =>
    rcases hmember with heq | heq
    · cases heq
      exact ⟨_, hportion, haccepted hportion hobject ((h.classes hobject).getters hc).1⟩
    · cases heq
  | method hportion hobject hc =>
    rcases hmember with heq | heq
    · cases heq
    · cases heq
      exact ⟨_, hportion, haccepted hportion hobject ((h.classes hobject).methods hc)⟩

/-- What a method or getter that is entered works on. -/
theorem Store.Sound.serves {fuel₁ : Nat} {task₁ : Eval.Task} {m₁ : Machine} {base : InstanceId}
    {name : String} {member : Member} {c bound : Closure} {args : List Value} {place : Token}
    (hsound : m₁.store.Sound course) (hready : task₁.Ready m₁.store) (hm : m₁.Whole)
    (hfits : task₁.Fits course m₁)
    (hmember : m₁.store.member? base name = some (q, member))
    (hkind : member = .getter c ∨ member = .method c)
    (hcontains : Eval.Contains course.lookup fuel₁ task₁ m₁ fuel'
      (.callBody bound.frame bound.decl.params bound.decl.body args place) m')
    (hbinds : c.Binds m'.store q bound) :
    Eval.Task.Serves course q (.callBody bound.frame bound.decl.params bound.decl.body args place)
      m' := by
  obtain ⟨hfits', hendures⟩ := hcontains.lies hfits
  obtain ⟨hready', hm'⟩ := hcontains.ready hready hm
  obtain ⟨portion, hportion, hderived⟩ :=
    hsound.derived_of_provides (Store.provides_of_member? hmember) hkind
  obtain ⟨after, hafter, -, hsame⟩ := hendures.portion hportion
  refine ⟨hfits', hready', hm', .here hbinds.receives, after, hafter, ?_⟩
  rw [hsame]
  refine hderived.imp_right fun haccepted => ?_
  show BodyAcceptedIn course.settings .root bound.decl.body
  rw [hbinds.decl]
  exact haccepted

namespace Eval.EntersBase

theorem contains {lookup : Lookup} (h : Eval.EntersBase lookup fuel task m q fuel' task' m') :
    Eval.Contains lookup fuel task m fuel' task' m' := by
  cases h with
  | getter hcontains hbase _ hfound =>
    exact ((hcontains.further rfl (.inherited hbase hfound)).further rfl .getter).further rfl .body
  | method hcontains _ _ hcallee hargs hcheck hfound =>
    exact ((hcontains.further rfl (.call hcallee hargs)).further rfl
      (.function hcheck hfound)).further rfl .body

/-- What is entered through the word for the base is a member of a base portion of the object, and
works on this portion. -/
theorem serves (h : Eval.EntersBase course.lookup fuel task m q fuel' task' m')
    (hserves : task.Serves course object m)
    (hcalm : ∀ id name m, course.lookup.stopsAt id name m = false) : ∃ portion base,
      m.store.portion? object = some portion ∧ portion.base = some base ∧
        q ∈ m.store.portionChain base ∧ task'.Serves course q m' := by
  cases h with
  | @getter id keyword method m₁ base c bound _ hcontains hread hmember hfound =>
    obtain ⟨portion, below, hportion, hbase, hmem⟩ :=
      hserves.searched hcalm hcontains hread hmember
    obtain ⟨hfits, -⟩ := hcontains.lies hserves.fits
    obtain ⟨hready, hm⟩ := hcontains.ready hserves.ready hserves.whole
    obtain ⟨found, hrun, hrealized⟩ := hm.store.attribute?_realizes hmember
    have hlater : Eval.instanceAttribute? _ method.lexeme m₁ =
        .ok (some found) { m₁ with store := (m₁.store.attribute? _ method.lexeme).2 } :=
      congrArg (EStateM.Result.ok · _) hrun
    cases hlater.symm.trans hfound
    refine ⟨portion, below, hportion, hbase, hmem, ?_⟩
    have hrest : Eval.Contains course.lookup (fuel' + 2) _ m₁ fuel' _ _ :=
      ((Eval.Contains.begins (.inherited hread hfound)).further rfl .getter).further rfl .body
    cases hrealized with
    | getter hbinds => exact hfits.sound.serves hready hm hfits hmember (.inl rfl) hrest hbinds
  | @method id keyword method paren arguments m₁ base c function m₂ args _ bound hcontains hread
      hmember hcallee hargs hcheck hfunction =>
    obtain ⟨portion, below, hportion, hbase, hmem⟩ :=
      hserves.searched hcalm (hcontains.further rfl (.operand rfl)) hread hmember
    obtain ⟨hfits, -⟩ := hcontains.lies hserves.fits
    obtain ⟨hready, hm⟩ := hcontains.ready hserves.ready hserves.whole
    refine ⟨portion, below, hportion, hbase, hmem, ?_⟩
    obtain ⟨-, found, m₂', hrun, hrealized, hvalue⟩ :=
      (Eval.searchesFrom hm.store hread).found hmember
    rw [hcallee] at hvalue
    have hrest : Eval.Contains course.lookup (fuel' + 2) _ m₁ fuel' _ _ :=
      ((Eval.Contains.begins (.call hcallee hargs)).further rfl
        (.function hcheck hfunction)).further rfl .body
    cases hrealized with
    | method hbound hbinds =>
      cases hvalue
      have hargsEndure : m₂.store.Endures m'.store := by
        obtain ⟨ribs, hargsFit, hplaced⟩ := ((Eval.Begins.arguments hcallee).lies hfits).fits
        exact (((behaves course _).evaluateEach hargsFit hplaced).ok hargs).grows.endures
      cases hfunction.symm.trans (hargsEndure.function hbound)
      exact hfits.sound.serves hready hm hfits hmember (.inr rfl) hrest
        ⟨hbinds.decl, hbinds.isInitializer, hbinds.receives.endures hargsEndure⟩

end Eval.EntersBase

namespace Eval.BaseCalls

variable {qs : List InstanceId}

/-- A chain of calls comes ever further behind in the chain of portions of one object. -/
theorem serves (h : Eval.BaseCalls course.lookup fuel task m qs fuel' task' m')
    (hserves : task.Serves course object m)
    (hcalm : ∀ id name m, course.lookup.stopsAt id name m = false) :
    ∃ last, task'.Serves course last m' ∧ m.store.Endures m'.store ∧
      ∃ front behind, m.store.portionChain object = front ++ last :: behind ∧
        (object :: qs).Sublist (front ++ [last]) := by
  induction h with
  | none => exact ⟨object, hserves, .refl _, [], _, m.store.portionsFrom_succ .., .refl _⟩
  | @further qs _ task' m' q _ task'' m'' _ hnext ih =>
    obtain ⟨last, hlast, hendures, front, behind, hchain, hsublist⟩ := ih
    obtain ⟨portion, base, hportion, hbase, hmem, hnew⟩ := hnext.serves hlast hcalm
    obtain ⟨first, hfirst, -⟩ := hserves.derived
    obtain ⟨later, hlater, -⟩ := hendures.portion hfirst
    -- behind the last portion there are just its base portion and those behind this
    have hsame := hserves.fits.sound.chained.portionChain_endures hlast.fits.sound.chained hendures hfirst
    have hown := hlast.fits.sound.chained.portionChain_of_append hlater (hsame.trans hchain)
    rw [hlast.fits.sound.chained.portionChain_eq hportion, hbase, Option.elim_some] at hown
    cases hown
    obtain ⟨middle, rest, hsplit⟩ := List.append_of_mem hmem
    refine ⟨q, hnew, hendures.trans (hnext.contains.lies hlast.fits).2, front ++ last :: middle, rest,
      ?_, ?_⟩
    · rw [hchain, hsplit, List.append_assoc]
      rfl
    · have hall : front ++ last :: middle ++ [q] = (front ++ [last]) ++ (middle ++ [q]) := by
        simp only [List.append_assoc, List.cons_append, List.nil_append]
      rw [← List.cons_append, hall]
      exact hsublist.append (List.sublist_append_right middle [q])

/-- The portions of a chain of calls are portions of one object, in the order of its chain. -/
theorem sublist (h : Eval.BaseCalls course.lookup fuel task m qs fuel' task' m')
    (hserves : task.Serves course object m)
    (hcalm : ∀ id name m, course.lookup.stopsAt id name m = false) :
    (object :: qs).Sublist (m.store.portionChain object) := by
  obtain ⟨last, -, -, front, behind, hchain, hsublist⟩ := h.serves hserves hcalm
  rw [hchain, List.append_cons]
  exact hsublist.trans (List.sublist_append_left _ behind)

end Eval.BaseCalls

end Bodies

end LoxLang
