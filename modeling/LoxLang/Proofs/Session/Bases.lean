import LoxLang.Proofs.Machine.BaseCalls
import LoxLang.Proofs.Session.Dispatch

/-!
# The word for the base in a session

Whatever inputs a session is given, the word for the base stands for the portion of the object that
belongs to the direct base of the class whose method is running, and not for one that depends on the
class that the object was made of (`Session.Inherits`). So calls that are made one from the other
through this word come to ever more basic classes, and are no more than there are classes in the
chain.
-/

namespace LoxLang

namespace Session

/-- A session in which the word for the base leads from a class to its base. -/
structure Inherits (s : Session) : Prop where
  /-- A method or getter of a class that is bound to a portion for this class works on it. -/
  bound : ∀ {inputs input fuel task m q portion object name c},
    (s.feedAll inputs).Comes input fuel task m → m.store.portion? q = some portion →
    m.store.class? portion.classId = some object →
    object.methods.find? name = some c ∨ object.getters.find? name = some c →
      (m.store.bind c q).2.WorksOn q (m.store.bind c q).1.frame
  /-- In a body that works on the portion of an object for a class with a base, or in the body of a
  function inside of one, the search for an attribute of the base begins at the portion for the base
  of this class. The portions from there on are those of the base class and the classes behind it. -/
  search : ∀ {inputs input fuel outer params body args place m object fuel' id keyword method m'
      portion c baseId},
    (s.feedAll inputs).Comes input (fuel + 1) (.callBody outer params body args place) m →
    m.store.WorksOn object outer →
    Eval.Contains ((s.feedAll inputs).lookup input) fuel (.callBody outer params body args place) m
      (fuel' + 1) (.evaluate (.super id keyword method)) m' →
    m'.store.portion? object = some portion → m'.store.class? portion.classId = some c →
    c.base = some baseId → ∃ base, m'.store.Derives object portion.classId base baseId ∧
      Eval.readName ((s.feedAll inputs).lookup input) id keyword m' = .ok (.instance base) m' ∧
      Eval.SearchesFrom ((s.feedAll inputs).lookup input) fuel' id keyword method base m'
  /-- A method or getter that is found so is a member of a portion of the same object, whose class is
  one of those behind the class. -/
  entered : ∀ {inputs input fuel outer params body args place m object q fuel' task' m' portion c
      baseId},
    (s.feedAll inputs).Comes input (fuel + 1) (.callBody outer params body args place) m →
    m.store.WorksOn object outer →
    m.store.portion? object = some portion → m.store.class? portion.classId = some c →
    c.base = some baseId →
    Eval.EntersBase ((s.feedAll inputs).lookup input) fuel (.callBody outer params body args place) m
      q fuel' task' m' → ∃ base below, m.store.Derives object portion.classId base baseId ∧
        q ∈ m.store.portionChain base ∧ m.store.portion? q = some below ∧
        below.classId ∈ m.store.classChain baseId ∧ m'.store.WorksOn q (task'.home m')
  /-- This portion is the object of its body. -/
  this : ∀ {inputs input fuel outer params body args place m object q fuel' task' m' fuel'' id
      keyword m'' portion c baseId},
    (s.feedAll inputs).Comes input (fuel + 1) (.callBody outer params body args place) m →
    m.store.WorksOn object outer →
    m.store.portion? object = some portion → m.store.class? portion.classId = some c →
    c.base = some baseId →
    Eval.EntersBase ((s.feedAll inputs).lookup input) fuel (.callBody outer params body args place) m
      q (fuel' + 1) task' m' →
    Eval.Contains ((s.feedAll inputs).lookup input) fuel' task' m' (fuel'' + 1)
      (.evaluate (.this id keyword)) m'' →
      Eval.evaluate (fuel'' + 1) ((s.feedAll inputs).lookup input) (.this id keyword) m'' =
        .ok (.instance q) m''
  /-- Calls that are made one from the other through the word for the base come to portions, and so
  to classes, ever further behind: their chain is no longer than the chain of classes. -/
  chain : ∀ {inputs input fuel outer params body args place m object qs fuel' task' m' portion c
      baseId},
    (s.feedAll inputs).Comes input (fuel + 1) (.callBody outer params body args place) m →
    m.store.WorksOn object outer →
    m.store.portion? object = some portion → m.store.class? portion.classId = some c →
    c.base = some baseId →
    Eval.BaseCalls ((s.feedAll inputs).lookup input) (fuel + 1)
      (.callBody outer params body args place) m qs fuel' task' m' →
      (object :: qs).Sublist (m.store.portionChain object) ∧
      (∃ classes : List ClassId, (object :: qs).map (fun q => (m.store.portion? q).map Portion.classId) =
          classes.map some ∧ classes.Sublist (m.store.classChain portion.classId)) ∧
      (object :: qs).length ≤ (m.store.classChain portion.classId).length

section Runs

variable {s : Session} {globals : StaticScope} {visits : List Visit} {input : Input} {fuel : Nat}
  {task : Eval.Task} {m : Machine} {object : InstanceId} {portion : Portion} {c : ClassObject}
  {baseId : ClassId}

/-- A call on an object of a class with a base. -/
theorem Comes.serves (h : s.Comes input fuel task m) (hsteady : Steady s globals visits)
    (hidle : s.machine.Idle) (hworks : m.store.WorksOn object (task.home m))
    (hportion : m.store.portion? object = some portion)
    (hclass : m.store.class? portion.classId = some c) (hbase : c.base = some baseId) :
    ∃ course : Course, course.lookup = s.lookup input ∧ task.Serves course object m ∧
      ∃ base, portion.base = some base ∧ m.store.Derives object portion.classId base baseId := by
  obtain ⟨course, hlookup, hfits⟩ := h.fits hsteady
  obtain ⟨hready, hm⟩ := h.ready hidle
  obtain ⟨base, hbelow, hderives⟩ := hfits.sound.chained.derives hportion hclass hbase
  have hsome : portion.base.isSome := by
    rw [hbelow]
    rfl
  exact ⟨course, hlookup, ⟨hfits, hready, hm, hworks, portion, hportion, .inl hsome⟩, base, hbelow,
    hderives⟩

end Runs

end Session

/-! ## Bodies that begin with the word for the base -/

def Expr.isSuper : Expr → Bool
  | .super _ _ _ => true
  | _ => false

/-- The first thing that a body does is to ask for an attribute of the base and to call it. -/
def callsBaseFirst (body : List Stmt) : Bool :=
  body.head?.any fun first => first.first?.any fun call => call.first?.any Expr.isSuper

theorem Expr.exists_super {e : Expr} (h : e.isSuper = true) :
    ∃ id keyword method, e = .super id keyword method := by
  cases e with
  | super id keyword method => exact ⟨id, keyword, method, rfl⟩
  | _ => cases h

theorem Eval.Contains.exists_super {lookup : Lookup} {fuel : Nat} {outer : FrameId}
    {params : List Token} {body : List Stmt} {args : List Value} {place : Token} {m : Machine}
    (hbody : callsBaseFirst body = true) (hdepth : m.depth < maxDepth) :
    ∃ id keyword method, Eval.Contains lookup (fuel + 3) (.callBody outer params body args place) m
      fuel (.evaluate (.super id keyword method)) (m.calling outer params body args) := by
  obtain ⟨first, hhead, hcall⟩ := (Option.any_eq_true _ _).mp hbody
  obtain ⟨rest, rfl⟩ := List.head?_eq_some_iff.mp hhead
  obtain ⟨call, hfirst, hword⟩ := (Option.any_eq_true _ _).mp hcall
  obtain ⟨word, hoperand, hsuper⟩ := (Option.any_eq_true _ _).mp hword
  obtain ⟨id, keyword, method, rfl⟩ := Expr.exists_super hsuper
  have hstatements : Eval.Contains lookup (fuel + 3)
      (.callBody outer params (first :: rest) args place) m (fuel + 3) _ _ :=
    .begins (.statements hdepth)
  exact ⟨id, keyword, method, ((hstatements.further rfl .first).further rfl
    (.expression hfirst)).further rfl (.operand hoperand)⟩

/-- Whatever inputs a session is given, the word for the base in a method leads from the class of
the method to its base, whatever class the object was made of. -/
theorem super_starts_at_base (bound : Nat) (settings : Settings) (host : Host) (sink : Sink) :
    (Session.startWithin bound settings host sink).Inherits := by
  obtain ⟨globals, hstart⟩ := Steady.start bound settings host sink
  have hidle (inputs : List Input) :
      ((Session.startWithin bound settings host sink).feedAll inputs).machine.Idle :=
    Session.idle_feedAll (Machine.idle_start standardNatives host sink) inputs
  constructor
  case bound =>
    intro inputs input fuel task m q portion object name c hcomes hportion _ _
    exact .here ((hcomes.ready (hidle inputs)).2.store.bind c hportion).2
  case search =>
    intro inputs input fuel outer params body args place m object fuel' id keyword method m' portion
      c baseId hcomes hworks hcontains hportion hclass hbase
    obtain ⟨globals', hsteady⟩ := hstart.feedAll inputs
    obtain ⟨course, hlookup, hfits⟩ := hcomes.fits hsteady
    have hm := ((hcomes.contains hcontains).ready (hidle inputs)).2
    have hcalm := Session.stopsAt_of_lookup hlookup
    rw [← hlookup] at hcontains ⊢
    obtain ⟨hinside, hthere⟩ := hcontains.worksOn hfits hworks
    obtain ⟨base, hbelow, hderives⟩ := hinside.sound.chained.derives hportion hclass hbase
    have hread := hinside.readName_super hm (hcalm ..) hthere hportion hbelow
    exact ⟨base, hderives, hread, Eval.searchesFrom hm.store hread⟩
  case entered =>
    intro inputs input fuel outer params body args place m object q fuel' task' m' portion c baseId
      hcomes hworks hportion hclass hbase henters
    obtain ⟨globals', hsteady⟩ := hstart.feedAll inputs
    obtain ⟨course, hlookup, hserves, base, hbelow, hderives⟩ :=
      hcomes.serves hsteady (hidle inputs) hworks hportion hclass hbase
    have hcalm := Session.stopsAt_of_lookup hlookup
    rw [← hlookup] at henters
    obtain ⟨portion', base', hportion', hbase', hmem, hnext⟩ := henters.serves hserves hcalm
    cases hportion.symm.trans hportion'
    cases hbelow.symm.trans hbase'
    obtain ⟨k, hk, hclassOf⟩ := List.mem_map.mp (hderives.bases ▸ List.mem_map_of_mem hmem)
    obtain ⟨below, hq, rfl⟩ := Option.map_eq_some_iff.mp hclassOf.symm
    exact ⟨base, below, hderives, hmem, hq, hk, hnext.works⟩
  case this =>
    intro inputs input fuel outer params body args place m object q fuel' task' m' fuel'' id keyword
      m'' portion c baseId hcomes hworks hportion hclass hbase henters hcontains
    obtain ⟨globals', hsteady⟩ := hstart.feedAll inputs
    obtain ⟨course, hlookup, hserves, -⟩ :=
      hcomes.serves hsteady (hidle inputs) hworks hportion hclass hbase
    have hcalm := Session.stopsAt_of_lookup hlookup
    rw [← hlookup] at henters hcontains ⊢
    obtain ⟨-, -, -, -, -, hnext⟩ := henters.serves hserves hcalm
    obtain ⟨hthis, hinside⟩ := hcontains.worksOn hnext.fits hnext.works
    obtain ⟨other, hother, hrun⟩ :=
      hthis.evaluate_this (hcontains.ready hnext.ready hnext.whole).2 (hcalm ..) fuel''
    rw [hinside.unique hother]
    exact hrun
  case chain =>
    intro inputs input fuel outer params body args place m object qs fuel' task' m' portion c baseId
      hcomes hworks hportion hclass hbase hcalls
    obtain ⟨globals', hsteady⟩ := hstart.feedAll inputs
    obtain ⟨course, hlookup, hserves, -⟩ :=
      hcomes.serves hsteady (hidle inputs) hworks hportion hclass hbase
    have hcalm := Session.stopsAt_of_lookup hlookup
    rw [← hlookup] at hcalls
    have hsublist := hcalls.sublist hserves hcalm
    have hclasses := hserves.fits.sound.chained.classes_portionChain hportion
    have hmapped := hsublist.map fun q => (m.store.portion? q).map Portion.classId
    rw [hclasses] at hmapped
    obtain ⟨classes, hinner, heq⟩ := List.sublist_map_iff.mp hmapped
    refine ⟨hsublist, ⟨classes, heq, hinner⟩, ?_⟩
    have hlength := hmapped.length_le
    rwa [List.length_map, List.length_map] at hlength

/-- In a method that overrides one of the base class the search through the word for the base begins at
the portion for the base class. -/
theorem super_starts_at_base_of_override :
    let s := (Session.startWithin 30 {} ⟨(0.0 : Float), []⟩ {}).feedAll
      [.line "class A \x7b m() \x7b\x7d \x7d class B < A \x7b m() \x7b super.m(); \x7d \x7d
        var b = B();"]
    ∃ (c : Closure) (paren : Token) (id : NodeId) (keyword method : Token) (m m' : Machine)
        (base : InstanceId),
      s.Comes (.line "b.m();") 26 (.callBody c.frame c.decl.params c.decl.body [] paren) m ∧
      m.store.WorksOn ⟨1⟩ c.frame ∧
      Eval.Contains (s.lookup (.line "b.m();")) 25
        (.callBody c.frame c.decl.params c.decl.body [] paren) m 22
        (.evaluate (.super id keyword method)) m' ∧
      m'.store.Derives ⟨1⟩ ⟨1⟩ base ⟨0⟩ ∧
      Eval.SearchesFrom (s.lookup (.line "b.m();")) 21 id keyword method base m' := by
  intro s
  let callee : Expr := .get (.variable 3 ⟨.identifier, "b", 1, ⟨0, 1⟩⟩)
    ⟨.identifier, "m", 1, ⟨2, 3⟩⟩
  let paren : Token := ⟨.symbol .rightParen, ")", 1, ⟨4, 5⟩⟩
  let m := (s.take (.line "b.m();")).2.machine
  have hinherits := super_starts_at_base 30 {} ⟨(0.0 : Float), []⟩ {}
  have hnumber : s.nextId = 3 := by decide +kernel
  have hstmt : s.Executes (.line "b.m();") (.expression (.call callee paren [])) m :=
    Session.executes_line (by rw [hnumber]; rfl) (by decide +kernel)
  have hcall : s.Comes (.line "b.m();") 29 (.evaluate (.call callee paren [])) m :=
    (hstmt.comes (by decide +kernel)).begins (.expression rfl)
  have hcallee := ok_of_run' (show (Eval.evaluate 28 (s.lookup (.line "b.m();")) callee).run' m =
    some (.callable (.function ⟨0⟩)) by decide +kernel)
  let m₁ := (Eval.evaluate 28 (s.lookup (.line "b.m();")) callee).leaves m
  have hcheck := ok_of_run' (show
    (Eval.checkCall (.callable (.function ⟨0⟩)) paren 0).run' m₁ = some (.function ⟨0⟩)
      by decide +kernel)
  let m₂ := (Eval.checkCall (.callable (.function ⟨0⟩)) paren 0).leaves m₁
  obtain ⟨c, hc, hmethod⟩ := (Option.any_eq_true _ _).mp (show (m₂.store.function? ⟨0⟩).any (fun c =>
    (m₂.store.frame? c.frame).any (fun frame => frame.kind.isReceiver &&
      frame.names.find? "this" == some ⟨some (.instance ⟨1⟩), true⟩) &&
    callsBaseFirst c.decl.body) by decide +kernel)
  rw [Bool.and_eq_true] at hmethod
  obtain ⟨hframe, hbody⟩ := hmethod
  obtain ⟨frame, hframe, hthis⟩ := (Option.any_eq_true _ _).mp hframe
  rw [Bool.and_eq_true, beq_iff_eq] at hthis
  have hworks : m₂.store.WorksOn ⟨1⟩ c.frame := .here ⟨frame, hframe, hthis⟩
  have hcomes : s.Comes (.line "b.m();") 26
      (.callBody c.frame c.decl.params c.decl.body [] paren) m₂ :=
    ((hcall.begins (.call hcallee rfl)).begins (.function hcheck hc)).begins .body
  have hdepth : m₂.depth < maxDepth := by decide +kernel
  obtain ⟨id, keyword, method, hcontains⟩ : ∃ id keyword method,
      Eval.Contains (s.lookup (.line "b.m();")) 25
        (.callBody c.frame c.decl.params c.decl.body [] paren) m₂ 22
        (.evaluate (.super id keyword method)) (m₂.calling c.frame c.decl.params c.decl.body []) :=
    Eval.Contains.exists_super hbody hdepth
  obtain ⟨portion, hportion, hderived⟩ := (Option.any_eq_true _ _).mp (show
    (m₂.store.portion? ⟨1⟩).any (fun portion => portion.classId == ⟨1⟩ &&
      (m₂.store.class? portion.classId).any fun object => object.base == some ⟨0⟩)
        by decide +kernel)
  rw [Bool.and_eq_true, beq_iff_eq] at hderived
  obtain ⟨hown, hderived⟩ := hderived
  obtain ⟨object, hclass, hbase⟩ := (Option.any_eq_true _ _).mp hderived
  -- the machine is the end of a long run, which is not to be unfolded in what follows
  clear_value m₂
  obtain ⟨base, hderives, -, hsearch⟩ :=
    hinherits.search hcomes hworks hcontains hportion hclass (beq_iff_eq.mp hbase)
  rw [hown] at hderives
  exact ⟨c, paren, id, keyword, method, m₂, _, base, hcomes, hworks, hcontains, hderives, hsearch⟩

/-- In a chain of three classes each method calls the next one behind it, and the chain ends. -/
example : ((Session.startWithin 60 {} ⟨(0.0 : Float), []⟩ {}).feed (.program
    "class A { m() { println nil; } } class B < A { m() { println true; super.m(); } }
     class C < B { m() { println false; super.m(); } } class D < C {} D().m();")).machine.sink.text =
      "false\ntrue\nnil\n" := by
  decide +kernel

end LoxLang
