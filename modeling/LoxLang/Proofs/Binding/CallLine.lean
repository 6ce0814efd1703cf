import LoxLang.Proofs.Binding.Accepted
import LoxLang.Proofs.Binding.Alike
import LoxLang.Proofs.Grammar.Renumbering
import LoxLang.Token.Scan

/-!
# Lines that are calls

A line of a prompt may be nothing but the call of a name with arguments that name nothing, whose
value is printed or bound to a new name (`callLine?`). What the analysis says of such a line depends
on two global names alone (`CallLine.resolved`).
-/

namespace LoxLang

/-! ## Plain expressions -/

/-- Whether an expression is made of literals and operators. -/
def Expr.isPlain : Expr → Bool
  | .literal _ => true
  | .grouping inner => inner.isPlain
  | .unary _ right => right.isPlain
  | .binary left _ right => left.isPlain && right.isPlain
  | .logical left _ right => left.isPlain && right.isPlain
  | .ternary condition _ thenBranch elseBranch =>
    condition.isPlain && thenBranch.isPlain && elseBranch.isPlain
  | _ => false

/-- Only nodes with names have numbers. -/
theorem Expr.Alike.eq_of_isPlain {l : Likeness} (hexact : l.Exact) {e e' : Expr}
    (h : Expr.Alike l e e') (hplain : e.isPlain = true) : e = e' := by
  fun_induction Expr.isPlain e generalizing e' with
  | case1 =>
    cases h
    rfl
  | case2 inner ih =>
    cases h with
    | grouping h => rw [ih h hplain]
  | case3 operator right ih =>
    cases h with
    | unary ho hr => rw [hexact _ _ ho, ih hr hplain]
  | case4 left operator right ihl ihr =>
    obtain ⟨hleft, hright⟩ := Bool.and_eq_true_iff.mp hplain
    cases h with
    | binary hl ho hr => rw [hexact _ _ ho, ihl hl hleft, ihr hr hright]
  | case5 left operator right ihl ihr =>
    obtain ⟨hleft, hright⟩ := Bool.and_eq_true_iff.mp hplain
    cases h with
    | logical hl ho hr => rw [hexact _ _ ho, ihl hl hleft, ihr hr hright]
  | case6 condition question thenBranch elseBranch ihc iht ihe =>
    obtain ⟨hboth, helse⟩ := Bool.and_eq_true_iff.mp hplain
    obtain ⟨hcondition, hthen⟩ := Bool.and_eq_true_iff.mp hboth
    cases h with
    | ternary hc hq ht he => rw [hexact _ _ hq, ihc hc hcondition, iht ht hthen, ihe he helse]
  | case7 => cases hplain

theorem AlikeEach.eq_of_isPlain {l : Likeness} (hexact : l.Exact) {es es' : List Expr}
    (h : AlikeEach l es es') (hplain : es.all Expr.isPlain = true) : es = es' := by
  induction es generalizing es' with
  | nil =>
    cases h
    rfl
  | cons e es ih =>
    obtain ⟨he, hrest⟩ := Bool.and_eq_true_iff.mp hplain
    cases h with
    | cons h hes => rw [h.eq_of_isPlain hexact he, ih hes hrest]

/-- The analysis passes over plain expressions. -/
theorem Expr.analyse_of_isPlain (settings : Settings) (a : Analysis) {e : Expr}
    (hplain : e.isPlain = true) : e.analyse settings a = a := by
  fun_induction Expr.isPlain e with
  | case1 => rfl
  | case2 inner ih => exact ih hplain
  | case3 operator right ih => exact ih hplain
  | case4 left operator right ihl ihr | case5 left operator right ihl ihr =>
    obtain ⟨hleft, hright⟩ := Bool.and_eq_true_iff.mp hplain
    rw [Expr.analyse, ihl hleft, ihr hright]
  | case6 condition question thenBranch elseBranch ihc iht ihe =>
    obtain ⟨hboth, helse⟩ := Bool.and_eq_true_iff.mp hplain
    obtain ⟨hcondition, hthen⟩ := Bool.and_eq_true_iff.mp hboth
    rw [Expr.analyse, ihc hcondition, iht hthen, ihe helse]
  | case7 => cases hplain

theorem analyseEach_of_isPlain (settings : Settings) (a : Analysis) {es : List Expr}
    (hplain : es.all Expr.isPlain = true) : analyseEach settings es a = a := by
  induction es with
  | nil => rfl
  | cons e es ih =>
    obtain ⟨he, hrest⟩ := Bool.and_eq_true_iff.mp hplain
    rw [analyseEach, e.analyse_of_isPlain settings a he, ih hrest]

/-! ## Lines -/

/-- What a line does with the value of its call. -/
inductive CallUse
  | declares (name : Token) (isConst : Bool)
  | prints
  | printsLine

structure CallLine where
  use : CallUse
  callee : Token
  paren : Token
  args : List Expr

namespace CallLine

def call (line : CallLine) (id : NodeId) : Expr :=
  .call (.variable id line.callee) line.paren line.args

def stmt (line : CallLine) (id : NodeId) : Stmt :=
  match line.use with
  | .declares name false => .var name (some (line.call id))
  | .declares name true => .const name (line.call id)
  | .prints => .print (line.call id)
  | .printsLine => .println (line.call id)

end CallLine

def Expr.callLine? (use : CallUse) : Expr → Option CallLine
  | .call (.variable _ callee) paren args =>
    if args.all Expr.isPlain then some ⟨use, callee, paren, args⟩ else none
  | _ => none

def Stmt.callLine? : Stmt → Option CallLine
  | .var name (some value) => value.callLine? (.declares name false)
  | .const name value => value.callLine? (.declares name true)
  | .print value => value.callLine? .prints
  | .println value => value.callLine? .printsLine
  | _ => none

/-- The call that a line is, if it is read without a fault and is nothing else. -/
def callLine? (source : String) : Option CallLine :=
  match scan source with
  | (tokens, []) =>
    match (Parse.program true 0 tokens).statements with
    | some [s] => s.callLine?
    | _ => none
  | _ => none

section Reading

variable {use : CallUse} {line : CallLine}

theorem Expr.eq_of_callLine? {e : Expr} (h : e.callLine? use = some line) :
    line.use = use ∧ line.args.all Expr.isPlain = true ∧ ∃ id, e = line.call id := by
  unfold callLine? at h
  split at h
  · split at h
    · cases h
      exact ⟨rfl, ‹_›, _, rfl⟩
    · cases h
  · cases h

theorem Stmt.eq_of_callLine? {s : Stmt} (h : s.callLine? = some line) :
    line.args.all Expr.isPlain = true ∧ ∃ id, s = line.stmt id := by
  unfold Stmt.callLine? at h
  split at h
  · obtain ⟨huse, hplain, id, rfl⟩ := Expr.eq_of_callLine? h
    exact ⟨hplain, id, by rw [CallLine.stmt, huse]⟩
  · obtain ⟨huse, hplain, id, rfl⟩ := Expr.eq_of_callLine? h
    exact ⟨hplain, id, by rw [CallLine.stmt, huse]⟩
  · obtain ⟨huse, hplain, id, rfl⟩ := Expr.eq_of_callLine? h
    exact ⟨hplain, id, by rw [CallLine.stmt, huse]⟩
  · obtain ⟨huse, hplain, id, rfl⟩ := Expr.eq_of_callLine? h
    exact ⟨hplain, id, by rw [CallLine.stmt, huse]⟩
  · cases h

/-- Such a line is the same up to the number of its one node. -/
theorem Expr.Alike.exists_call {l : Likeness} (hexact : l.Exact) {id : NodeId} {e : Expr}
    (hplain : line.args.all Expr.isPlain = true) (h : Expr.Alike l (line.call id) e) :
    ∃ id', e = line.call id' := by
  cases h with
  | call hc hp ha =>
    cases hc with
    | «variable» hid hname =>
      rw [← hexact _ _ hname, ← hexact _ _ hp, ← ha.eq_of_isPlain hexact hplain]
      exact ⟨_, rfl⟩

theorem Stmt.Alike.exists_stmt {l : Likeness} (hexact : l.Exact) {id : NodeId} {s : Stmt}
    (hplain : line.args.all Expr.isPlain = true) (h : Stmt.Alike l (line.stmt id) s) :
    ∃ id', s = line.stmt id' := by
  obtain ⟨use, callee, paren, args⟩ := line
  cases use with
  | declares name isConst =>
    cases isConst with
    | false =>
      cases h with
      | var hname hi =>
        cases hi with
        | some he =>
          obtain ⟨id', rfl⟩ := Expr.Alike.exists_call hexact hplain he
          rw [← hexact _ _ hname]
          exact ⟨id', rfl⟩
    | true =>
      cases h with
      | const hname he =>
        obtain ⟨id', rfl⟩ := Expr.Alike.exists_call hexact hplain he
        rw [← hexact _ _ hname]
        exact ⟨id', rfl⟩
  | prints =>
    cases h with
    | print he =>
      obtain ⟨id', rfl⟩ := Expr.Alike.exists_call hexact hplain he
      exact ⟨id', rfl⟩
  | printsLine =>
    cases h with
    | println he =>
      obtain ⟨id', rfl⟩ := Expr.Alike.exists_call hexact hplain he
      exact ⟨id', rfl⟩

/-- How a line that is a call is read, whatever the number of its node. -/
theorem parsed_of_callLine? {source : String} (h : callLine? source = some line) :
    (scan source).2 = [] ∧ line.args.all Expr.isPlain = true ∧
      ∀ firstId, ∃ id, (Parse.program true firstId (scan source).1).statements =
        some [line.stmt id] := by
  unfold callLine? at h
  split at h
  · next tokens hscan =>
    split at h
    · next s hparsed =>
      obtain ⟨hplain, id, rfl⟩ := Stmt.eq_of_callLine? h
      rw [hscan]
      refine ⟨rfl, hplain, fun firstId => ?_⟩
      have hboth : ParseResult.Alike (.ofNodes fun _ _ => True) (Parse.program true 0 tokens)
          (Parse.program true firstId tokens) :=
        Parse.program_alike true (List.forall₂_same.mpr fun _ _ => rfl) fun _ => trivial
      have halike := hboth.statements
      rw [hparsed] at halike
      generalize (Parse.program true firstId tokens).statements = statements at halike
      cases halike with
      | some hbody =>
        cases hbody with
        | cons hs hrest =>
          cases hrest
          obtain ⟨id', rfl⟩ := Stmt.Alike.exists_stmt (fun _ _ h => h) hplain hs
          exact ⟨id', rfl⟩
    · cases h
  · cases h

end Reading

/-! ## Analysis -/

/-- Whether a value has been stored in a name of the scope, if it has the name. -/
def StaticScope.ready? (scope : StaticScope) (name : String) : Option Bool :=
  (scope.names.find? name).map StaticBinding.initialized

namespace StaticScope

variable {scope : StaticScope}

/-- A scope in which the declarations of all names are complete. -/
def Complete (scope : StaticScope) : Prop :=
  ∀ name binding, scope.names.find? name = some binding → binding.defined = true

theorem contains_eq_isSome_ready? (scope : StaticScope) (name : String) :
    scope.contains name = (scope.ready? name).isSome := by
  rw [contains, NameMap.contains, ready?, Option.isSome_map]

theorem ready?_insert (scope : StaticScope) (name other : String) (binding : StaticBinding) :
    ready? { scope with names := scope.names.insert name binding } other =
      if name = other then some binding.initialized else scope.ready? other := by
  rw [ready?, NameMap.find?_insert]
  split <;> rfl

theorem ready?_modify (scope : StaticScope) (name other : String)
    {change : StaticBinding → StaticBinding} {f : Bool → Bool}
    (hchange : ∀ b, (change b).initialized = f b.initialized) :
    (scope.modify name change).ready? other =
      if name = other then (scope.ready? other).map f else scope.ready? other := by
  rw [ready?, modify, NameMap.find?_modify, ready?]
  split
  · rw [Option.map_map, Option.map_map]
    exact congrArg (Option.map · _) (funext hchange)
  · rfl

end StaticScope

namespace Analysis

variable {a : Analysis} {scope : StaticScope}

/-- A reference in the outermost scope. -/
theorem referVariable_outermost (hscopes : a.scopes = [scope]) {name : Token}
    (hdefined : ∀ binding, scope.names.find? name.lexeme = some binding → binding.defined = true)
    (id : NodeId) :
    a.referVariable id name = match scope.ready? name.lexeme with
      | none => a.fail (.undefined name.lexeme) name
      | some ready =>
        let marked := { a with
          scopes := [scope.modify name.lexeme fun binding =>
            { binding with initialized := true, used := true }]
          distances := a.distances.insert id 0 }
        if ready then marked else marked.fail (.uninitialized name.lexeme) name := by
  unfold referVariable inOwnInitializer refer StaticScope.ready?
  rw [hscopes]
  cases hfind : scope.names.find? name.lexeme with
  | none => simp [findBinding?, hfind]
  | some binding =>
    have hready := hdefined binding hfind
    cases hinitialized : binding.initialized <;>
      simp [findBinding?, hfind, hready, hinitialized, problem?, modifyAt]

end Analysis

namespace CallLine

variable {line : CallLine} {scope : StaticScope} {a : Analysis}

def declared? (line : CallLine) : Option Token :=
  match line.use with
  | .declares name _ => some name
  | .prints | .printsLine => none

/-- What is wrong with the new name, if the line has one. -/
def declarationFaults (line : CallLine) (ready? : String → Option Bool) : List Fault :=
  match line.use with
  | .declares name isConst =>
    if (ready? name.lexeme).isSome then
      [(StaticFault.redeclared (if isConst then .constant else .variable) name.lexeme).toFault name]
    else []
  | .prints | .printsLine => []

/-- What is wrong with the name of the callee. -/
def calleeFaults (line : CallLine) (ready? : String → Option Bool) : List Fault :=
  match ready? line.callee.lexeme with
  | none => [(StaticFault.undefined line.callee.lexeme).toFault line.callee]
  | some false => [(StaticFault.uninitialized line.callee.lexeme).toFault line.callee]
  | some true => []

/-- Another name than that of the callee is declared. -/
def Proper (line : CallLine) : Prop := ∀ name ∈ line.declared?, name.lexeme ≠ line.callee.lexeme

/-- Where the analysis comes out of a call: with the faults of its callee, or else with the same
names and the distance of the callee. -/
structure Referred (line : CallLine) (ready? : String → Option Bool) (id : NodeId)
    (a after : Analysis) : Prop where
  log : after.log = a.log.addFaults (line.calleeFaults ready?)
  failed : after.failed = (a.failed || !(line.calleeFaults ready?).isEmpty)
  distances : after.failed = false → after.distances = a.distances.insert id 0
  scopes : ∃ scope : StaticScope, after.scopes = [scope] ∧
    (after.failed = false → ∀ name, scope.ready? name = ready? name)

theorem referred_call (hscopes : a.scopes = [scope])
    (hdefined : ∀ binding, scope.names.find? line.callee.lexeme = some binding →
      binding.defined = true)
    (hplain : line.args.all Expr.isPlain = true) (settings : Settings) (id : NodeId) :
    line.Referred scope.ready? id a ((line.call id).analyse settings a) := by
  have hcall : (line.call id).analyse settings a = a.referVariable id line.callee := by
    rw [call, Expr.analyse, analyseEach_of_isPlain settings _ hplain, Expr.analyse]
  rw [hcall, Analysis.referVariable_outermost hscopes hdefined]
  cases hready : scope.ready? line.callee.lexeme with
  | none =>
    refine ⟨?_, ?_, fun h => (nomatch h), _, hscopes, fun h => nomatch h⟩
    · rw [calleeFaults, hready]
      rfl
    · rw [calleeFaults, hready]
      exact (Bool.or_true _).symm
  | some ready =>
    cases ready with
    | false =>
      refine ⟨?_, ?_, fun h => (nomatch h), _, rfl, fun h => nomatch h⟩
      · rw [calleeFaults, hready]
        rfl
      · rw [calleeFaults, hready]
        exact (Bool.or_true _).symm
    | true =>
      refine ⟨?_, ?_, fun _ => rfl, _, rfl, fun _ name => ?_⟩
      · rw [calleeFaults, hready]
        rfl
      · rw [calleeFaults, hready]
        exact (Bool.or_false _).symm
      · rw [scope.ready?_modify _ _ (f := fun _ => true) fun _ => rfl]
        split
        · next heq => rw [← heq, hready, Option.map_some]
        · rfl

/-- The analysis behind a line that is a call, where only the outermost scope is open. -/
structure Passed (line : CallLine) (ready? : String → Option Bool) (id : NodeId)
    (a after : Analysis) : Prop where
  log : after.log = (a.log.addFaults (line.declarationFaults ready?)).addFaults
    (line.calleeFaults ready?)
  failed : after.failed = (a.failed || !(line.declarationFaults ready?).isEmpty ||
    !(line.calleeFaults ready?).isEmpty)
  distances : after.failed = false → after.distances = a.distances.insert id 0
  scopes : ∃ scope : StaticScope, after.scopes = [scope] ∧
    (after.failed = false → ∀ name, scope.ready? name =
      if line.declared?.any (·.lexeme = name) then some true else ready? name)

theorem declare_outermost (hscopes : a.scopes = [scope]) (settings : Settings)
    (kind : DeclarationKind) (name : Token) :
    a.declare settings kind name =
      { (if (scope.ready? name.lexeme).isSome then
          a.fail (.redeclared kind name.lexeme) name else a) with
        scopes := [{ scope with
          names := scope.names.insert name.lexeme (.declared kind name) }] } := by
  have hdeclares : a.declares name.lexeme = (scope.ready? name.lexeme).isSome := by
    rw [Analysis.declares, hscopes, ← scope.contains_eq_isSome_ready?]
    rfl
  rw [Analysis.declare, Analysis.checkDeclaration, hdeclares]
  have hhidden : Analysis.hidden? name.lexeme a.scopes.tail = none := by
    rw [hscopes]
    rfl
  rw [hhidden]
  cases (scope.ready? name.lexeme).isSome <;> simp [Analysis.enter, hscopes, Analysis.fail]

/-- The end of a declaration in the outermost scope. -/
theorem complete_outermost (hscopes : a.scopes = [scope]) (name : Token) :
    ∃ after : StaticScope, (a.markReady name).define name = { a with scopes := [after] } ∧
      ∀ other, after.ready? other =
        if name.lexeme = other then (scope.ready? other).map fun _ => true
        else scope.ready? other := by
  unfold Analysis.define Analysis.markReady Analysis.modifyInnermost
  rw [hscopes]
  refine ⟨_, rfl, fun other => ?_⟩
  have hmark : (scope.modify name.lexeme fun binding => { binding with initialized := true }).ready?
      other = _ := scope.ready?_modify _ _ (f := fun _ => true) fun _ => rfl
  have hdefine (scope : StaticScope) : (scope.modify name.lexeme fun binding =>
      { binding with defined := true }).ready? other =
        if name.lexeme = other then (scope.ready? other).map id else scope.ready? other :=
    scope.ready?_modify _ _ fun _ => rfl
  rw [hdefine, Option.map_id, id, ite_self, hmark]

theorem passed_printing (hscopes : a.scopes = [scope]) (hcomplete : scope.Complete)
    (hdeclared : line.declared? = none) (hfaultless : line.declarationFaults scope.ready? = [])
    (hplain : line.args.all Expr.isPlain = true) (settings : Settings) (id : NodeId) :
    line.Passed scope.ready? id a ((line.call id).analyse settings a) := by
  obtain ⟨hlog, hfailed, hdistances, hscopes'⟩ :=
    referred_call hscopes (hcomplete _) hplain settings id
  refine ⟨?_, ?_, hdistances, ?_⟩
  · rw [hlog, hfaultless]
    rfl
  · rw [hfailed, hfaultless, List.isEmpty_nil, Bool.not_true, Bool.or_false]
  · rw [hdeclared]
    exact hscopes'

theorem passed_declaring (hscopes : a.scopes = [scope]) (hcomplete : scope.Complete) {name : Token}
    {isConst : Bool} (huse : line.use = .declares name isConst)
    (hne : name.lexeme ≠ line.callee.lexeme) (hplain : line.args.all Expr.isPlain = true)
    (settings : Settings) (id : NodeId) {kind : DeclarationKind}
    (hkind : kind = if isConst then .constant else .variable) :
    line.Passed scope.ready? id a
      ((((line.call id).analyse settings (a.declare settings kind name)).markReady name).define
        name) := by
  let inner : StaticScope :=
    { scope with names := scope.names.insert name.lexeme (.declared kind name) }
  have hdeclared : line.declared? = some name := by rw [declared?, huse]
  have hdeclaration : line.declarationFaults scope.ready? =
      if (scope.ready? name.lexeme).isSome then
        [(StaticFault.redeclared kind name.lexeme).toFault name] else [] := by
    rw [declarationFaults, huse, hkind]
  have hready (other : String) :
      inner.ready? other = if name.lexeme = other then some false else scope.ready? other :=
    scope.ready?_insert name.lexeme other _
  have hfaults : line.calleeFaults inner.ready? = line.calleeFaults scope.ready? := by
    rw [calleeFaults, hready, if_neg hne, calleeFaults]
  have hdefined (binding : StaticBinding)
      (hfind : inner.names.find? line.callee.lexeme = some binding) : binding.defined = true :=
    hcomplete _ binding ((NameMap.find?_insert_of_ne _ _ hne).symm.trans hfind)
  have hdeclare := declare_outermost hscopes settings kind name
  have hbefore : (a.declare settings kind name).log =
        a.log.addFaults (line.declarationFaults scope.ready?) ∧
      (a.declare settings kind name).failed =
        (a.failed || !(line.declarationFaults scope.ready?).isEmpty) ∧
      (a.declare settings kind name).distances = a.distances ∧
      (a.declare settings kind name).scopes = [inner] := by
    rw [hdeclare, hdeclaration]
    cases (scope.ready? name.lexeme).isSome with
    | false => exact ⟨rfl, (Bool.or_false _).symm, rfl, rfl⟩
    | true => exact ⟨rfl, (Bool.or_true _).symm, rfl, rfl⟩
  obtain ⟨hlogBefore, hfailedBefore, hdistancesBefore, hscopesBefore⟩ := hbefore
  obtain ⟨hlog, hfailed, hdistances, called, hcalled, hsame⟩ :=
    referred_call hscopesBefore hdefined hplain settings id
  rw [hfaults, hlogBefore] at hlog
  rw [hfaults, hfailedBefore] at hfailed
  rw [hdistancesBefore] at hdistances
  obtain ⟨completed, hcompleted, hcompletes⟩ := complete_outermost hcalled name
  rw [hcompleted]
  refine ⟨hlog, hfailed, hdistances, completed, rfl, fun haccepted other => ?_⟩
  rw [hcompletes, hdeclared, Option.any_some, hsame haccepted, hready]
  by_cases hname : name.lexeme = other
  · simp [hname]
  · simp [hname]

theorem passed_stmt (hscopes : a.scopes = [scope]) (hcomplete : scope.Complete)
    (hproper : line.Proper) (hplain : line.args.all Expr.isPlain = true) (settings : Settings)
    (id : NodeId) : line.Passed scope.ready? id a ((line.stmt id).analyse settings a) := by
  unfold stmt
  cases huse : line.use with
  | prints | printsLine =>
    exact passed_printing hscopes hcomplete (by rw [declared?, huse])
      (by rw [declarationFaults, huse]) hplain settings id
  | declares name isConst =>
    have hne := hproper name (show line.declared? = some name by rw [declared?, huse])
    cases isConst with
    | false => exact passed_declaring hscopes hcomplete huse hne hplain settings id rfl
    | true => exact passed_declaring hscopes hcomplete huse hne hplain settings id rfl

/-- Whether nothing is wrong with the names of a line. -/
def isAccepted (line : CallLine) (ready? : String → Option Bool) : Bool :=
  (line.declarationFaults ready?).isEmpty && (line.calleeFaults ready?).isEmpty

/-- What is known of global names behind a line. -/
def readyBehind (line : CallLine) (ready? : String → Option Bool) (name : String) : Option Bool :=
  if line.isAccepted ready? && line.declared?.any (·.lexeme = name) then some true else ready? name

/-- What the analysis gives for a line that is a call. -/
structure Resolved (line : CallLine) (ready? : String → Option Bool) (log : Log) (id : NodeId)
    (result : BindingResult) : Prop where
  log : result.log = (log.addFaults (line.declarationFaults ready?)).addFaults
    (line.calleeFaults ready?)
  ready : ∀ name, result.globals.ready? name = line.readyBehind ready? name
  accepted : line.isAccepted ready? = true → ∃ table, result.distances = some table ∧
    table[id]? = some 0
  rejected : line.isAccepted ready? = false → result.distances = none

theorem resolved (hcomplete : scope.Complete) (hproper : line.Proper)
    (hplain : line.args.all Expr.isPlain = true) (settings : Settings) (log : Log) (id : NodeId) :
    line.Resolved scope.ready? log id
      ((Resolver.ofGlobals scope).resolve settings log [line.stmt id]) := by
  have hpassed : line.Passed scope.ready? id ((Resolver.ofGlobals scope).opening log)
      (Resolver.closing settings log [line.stmt id] (.ofGlobals scope)) :=
    passed_stmt rfl hcomplete hproper hplain settings id
  obtain ⟨hlog, hfailed, hdistances, after, hscopes, hready⟩ := hpassed
  have hfailed' : (Resolver.closing settings log [line.stmt id] (.ofGlobals scope)).failed =
      !line.isAccepted scope.ready? := by
    rw [hfailed, isAccepted, Bool.not_and]
    rfl
  rw [Resolver.resolve_eq, hscopes]
  cases haccepted : line.isAccepted scope.ready? with
  | false =>
    rw [haccepted, Bool.not_false] at hfailed'
    rw [hfailed', if_pos rfl]
    refine ⟨hlog, fun name => ?_, fun h => ?_, fun _ => rfl⟩
    · rw [readyBehind, haccepted, Bool.false_and, if_neg Bool.false_ne_true]
      rfl
    · cases haccepted.symm.trans h
  | true =>
    rw [haccepted, Bool.not_true] at hfailed'
    rw [hfailed', if_neg Bool.false_ne_true]
    refine ⟨hlog, fun name => ?_, fun _ => ⟨_, rfl, ?_⟩, fun h => ?_⟩
    · rw [readyBehind, haccepted, Bool.true_and, ← hready hfailed' name]
      rfl
    · rw [hdistances hfailed', Std.TreeMap.getElem?_insert_self]
    · cases haccepted.symm.trans h

end CallLine

end LoxLang
