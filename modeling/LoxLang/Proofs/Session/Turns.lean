import LoxLang.Proofs.Binding.Reports
import LoxLang.Proofs.Machine.CallLines
import LoxLang.Proofs.Session.Alignment
import LoxLang.Proofs.Session.Parallel

/-!
# Calls at a prompt

What becomes of a line that is a call when it is typed: how it is read and analysed
(`Session.enter_eq`), and, where two sessions have in common what one global name stands for, that
they reply alike to a line that makes it or calls it (`Counterparts.enter`).
-/

namespace LoxLang

/-! ## What is known of globals -/

theorem Resolver.getLast?_changeLast (change : StaticScope → StaticScope)
    (scopes : List StaticScope) :
    (changeLast change scopes).getLast? = scopes.getLast?.map change := by
  fun_induction changeLast change scopes with
  | case1 => rfl
  | case2 scope => rfl
  | case3 scope outer hne ih =>
    obtain ⟨next, rest, rfl⟩ := List.exists_cons_of_ne_nil hne
    rw [List.getLast?_cons_cons, ← ih]
    cases rest <;> rfl

theorem StaticScope.ready?_retain (scope : StaticScope) (keep : String → Bool) (name : String) :
    (scope.retain keep).ready? name = if keep name then scope.ready? name else none := by
  rw [ready?, retain, NameMap.find?_retain]
  split <;> rfl

theorem Resolver.ready?_retain (r : Resolver) (keep : String → Bool) (name : String) :
    (r.retain keep).globals.ready? name = if keep name then r.globals.ready? name else none := by
  unfold retain globals changeGlobals
  rw [getLast?_changeLast]
  cases r.scopes.getLast? with
  | none => cases keep name <;> rfl
  | some scope => exact scope.ready?_retain keep name

theorem Rib.Settled.complete_scope {scope : StaticScope} (h : scope.rib.Settled) : scope.Complete :=
  fun _ _ hfind => h.complete (congrArg (Option.map StaticBinding.status) hfind)

namespace CallLine

variable {line : CallLine} {ready? ready?' : String → Option Bool} {make name : String}

theorem declarationFaults_congr
    (h : ∀ declared ∈ line.declared?, ready? declared.lexeme = ready?' declared.lexeme) :
    line.declarationFaults ready? = line.declarationFaults ready?' := by
  unfold declared? at h
  unfold declarationFaults
  split
  · next declared _ huse =>
    rw [huse] at h
    rw [h declared rfl]
  · rfl
  · rfl

theorem calleeFaults_congr (h : ready? line.callee.lexeme = ready?' line.callee.lexeme) :
    line.calleeFaults ready? = line.calleeFaults ready?' := by
  rw [calleeFaults, h, calleeFaults]

theorem readyBehind_of_ne (h : ∀ declared ∈ line.declared?, declared.lexeme = name) {other : String}
    (hne : other ≠ name) : line.readyBehind ready? other = ready? other := by
  have hother : line.declared?.any (·.lexeme = other) = false := by
    cases hdeclared : line.declared? with
    | none => rfl
    | some declared =>
      rw [Option.any_some, h declared hdeclared]
      exact decide_eq_false hne.symm
  rw [readyBehind, hother, Bool.and_false, if_neg Bool.false_ne_true]

theorem Concerns.declared (h : line.Concerns make name) :
    ∀ declared ∈ line.declared?, declared.lexeme = name ∧ line.callee.lexeme = make := by
  unfold Concerns at h
  unfold declared?
  intro declared hdeclared
  split at h
  · next huse =>
    rw [huse] at hdeclared
    cases hdeclared
    exact h
  · next huse =>
    rw [huse] at hdeclared
    cases hdeclared
  · next huse =>
    rw [huse] at hdeclared
    cases hdeclared

theorem Concerns.callee (h : line.Concerns make name) :
    line.callee.lexeme = make ∨ line.callee.lexeme = name := by
  unfold Concerns at h
  split at h
  · exact .inl h.2
  · exact .inr h
  · exact .inr h

theorem Concerns.proper (h : line.Concerns make name) (hne : name ≠ make) : line.Proper := by
  intro declared hdeclared
  obtain ⟨hname, hcallee⟩ := h.declared declared hdeclared
  rw [hname, hcallee]
  exact hne

end CallLine

/-! ## One session -/

/-- A line that is typed at a prompt, and the device that its output goes to. -/
structure Entry where
  line : String
  sink : Sink

namespace Session

variable {s : Session} {globals : StaticScope} {visits : List Visit}

/-- A line is typed in a session. -/
def enter (s : Session) (host : Host) (entry : Entry) : Bool × Session :=
  (s.feed (.outside host entry.sink)).runLine entry.line

/-- Whether a value has been stored in a global name, if the analysis knows the name. -/
def ready? (s : Session) (name : String) : Option Bool := s.resolver.globals.ready? name

/-- The faults of a line that is parsed. -/
def parseFaults (source : String) : List Fault :=
  (Parse.program true 0 (scan source).1).faults

theorem read_callLine {source : String} {line : CallLine} (h : callLine? source = some line)
    (hlog : s.log.sawError = false) : ∃ id nextId, s.read source true =
      (some [line.stmt id], { s with log := s.log.addFaults (parseFaults source), nextId }) := by
  obtain ⟨hscanned, -, hparsed⟩ := parsed_of_callLine? h
  obtain ⟨id, hid⟩ := hparsed s.nextId
  have halike : ParseResult.Alike (.ofNodes fun _ _ => True)
      (Parse.program true s.nextId (scan source).1) (Parse.program true 0 (scan source).1) :=
    Parse.program_alike true (List.forall₂_same.mpr fun _ _ => rfl) fun _ => trivial
  have hfaults : (Parse.program true s.nextId (scan source).1).faults = parseFaults source :=
    (halike.faults fun _ _ h => h).1
  have hunseen : (s.log.addFaults []).sawError = false := hlog
  refine ⟨id, (Parse.program true s.nextId (scan source).1).nextId, ?_⟩
  unfold read
  dsimp only
  rw [hscanned, hunseen, if_neg Bool.false_ne_true, hid, hfaults]
  rfl

/-- A session behind the analysis of a line that is a call. -/
structure Prepared (line : CallLine) (id : NodeId) (s mid : Session) : Prop where
  bound : mid.bound = s.bound
  machine : mid.machine = s.machine
  log : mid.log = (s.log.addFaults (line.declarationFaults s.ready?)).addFaults
    (line.calleeFaults s.ready?)
  ready : ∀ name, mid.ready? name = line.readyBehind s.ready? name
  found : line.isAccepted s.ready? = true → mid.distances[id]? = some 0

theorem resolve_callLine (hresolver : s.resolver = .ofGlobals globals)
    (hcomplete : globals.Complete) {line : CallLine} (hproper : line.Proper)
    (hplain : line.args.all Expr.isPlain = true) (id : NodeId) : ∃ mid, Prepared line id s mid ∧
      s.resolve [line.stmt id] =
        (if line.isAccepted s.ready? then some [line.stmt id] else none, mid) := by
  have hready : globals.ready? = s.ready? := by
    unfold ready?
    rw [hresolver]
    rfl
  have hresolved := CallLine.resolved hcomplete hproper hplain s.settings s.log id
  rw [hready, ← hresolver] at hresolved
  generalize hresult : s.resolver.resolve s.settings s.log [line.stmt id] = result at hresolved
  let passed : Session := { s with resolver := result.resolver, log := result.log }
  cases hgood : line.isAccepted s.ready? with
  | false =>
    refine ⟨passed, ⟨rfl, rfl, hresolved.log, hresolved.ready, fun h => nomatch hgood.symm.trans h⟩,
      ?_⟩
    simp only [resolve, hresult, hresolved.rejected hgood, passed]
    rfl
  | true =>
    obtain ⟨table, htable, hid⟩ := hresolved.accepted hgood
    refine ⟨{ passed with distances := noteDistances s.distances table },
      ⟨rfl, rfl, hresolved.log, hresolved.ready, fun _ => ?_⟩, ?_⟩
    · rw [getElem?_noteDistances, hid]
      rfl
    · simp only [resolve, hresult, htable, passed]
      rfl

/-- A session about to read a line. -/
def awaiting (s : Session) (host : Host) (entry : Entry) : Session :=
  { s with
    machine := { s.machine with host, sink := entry.sink }
    log := s.log.reset.addFaults (parseFaults entry.line) }

/-- A line that is a call is either rejected or executed. -/
theorem enter_eq (hresolver : s.resolver = .ofGlobals globals) (hcomplete : globals.Complete)
    (host : Host) {entry : Entry} {line : CallLine} (hline : callLine? entry.line = some line)
    (hproper : line.Proper) : ∃ id mid, Prepared line id (s.awaiting host entry) mid ∧
      s.enter host entry =
        if line.isAccepted s.ready? then mid.interpret [line.stmt id] else (false, mid) := by
  obtain ⟨-, hplain, -⟩ := parsed_of_callLine? hline
  let opened : Session :=
    { s with machine := { s.machine with host, sink := entry.sink }, log := s.log.reset }
  obtain ⟨id, nextId, hread⟩ := read_callLine (s := opened) hline rfl
  let parsed : Session := { s.awaiting host entry with nextId }
  have hread' : opened.read entry.line true = (some [line.stmt id], parsed) := hread
  obtain ⟨mid, hmid, hresolve⟩ :=
    resolve_callLine (s := parsed) hresolver hcomplete hproper hplain id
  have hready : parsed.ready? = s.ready? := rfl
  refine ⟨id, mid, { hmid with }, ?_⟩
  show opened.execute entry.line true = _
  rw [execute, accept, hread']
  simp only [hresolve, hready]
  cases line.isAccepted s.ready? <;> rfl

/-- A steady session that has all nodes of some code on record. -/
def Covers (s : Session) (region : Region) : Prop :=
  ∃ globals visits, Steady s globals visits ∧ ∀ v, region.visited v → v ∈ visits

section Covers

variable {region : Region}

theorem Covers.enter (h : s.Covers region) (host : Host) (entry : Entry) :
    (s.enter host entry).2.Covers region := by
  obtain ⟨globals, visits, hsteady, hvisits⟩ := h
  obtain ⟨_, hopened⟩ := hsteady.feed (.outside host entry.sink)
  obtain ⟨globals, hafter⟩ := hopened.feed (.line entry.line)
  exact ⟨globals, _, hafter, fun v hv =>
    List.mem_append_left _ (List.mem_append_left _ (hvisits v hv))⟩

theorem Covers.agrees (h : s.Covers region) : Agrees region s.distances := by
  obtain ⟨globals, visits, hsteady, hvisits⟩ := h
  exact fun v hv => hsteady.agrees v (hvisits v hv)

theorem Covers.aligned (h : s.Covers region) : s.Aligned :=
  let ⟨_, _, hsteady, _⟩ := h
  hsteady.aligned

end Covers

end Session

/-! ## Two sessions -/

/-- Two sessions, and what they have in common of one global name and of the maker. -/
structure Counterparts (region : Region) (maker : Maker) (make name : String) (p : Matching)
    (s s' : Session) : Prop where
  bound : s.bound = s'.bound
  cap : s.log.cap = s'.log.cap
  ready : s.ready? name = s'.ready? name
  readyMake : s.ready? make = s'.ready? make
  machine : s.machine.Beside region maker make name p s'.machine
  covers : s.Covers region
  covers' : s'.Covers region

/-- The same reply of two sessions to a line that concerns one name only. -/
structure EnteredAlike (region : Region) (name : String) (p : Matching) (s s' : Session)
    (run run' : Bool × Session) : Prop where
  reply : Session.Reply.of run = Session.Reply.of run'
  bound : run.2.bound = run'.2.bound
  bound' : run'.2.bound = s'.bound
  cap' : run'.2.log.cap = s'.log.cap
  ready : run.2.ready? name = run'.2.ready? name
  kept : ∀ other, other ≠ name → run.2.ready? other = s.ready? other
  kept' : ∀ other, other ≠ name → run'.2.ready? other = s'.ready? other
  moved : ∃ q, s.machine.Moved region name p s'.machine q run.2.machine run'.2.machine

/-- Two sessions in which a line that concerns one name has been analysed. -/
structure PreparedAlike (region : Region) (name : String) (p : Matching) (s s' mid mid' : Session) :
    Prop where
  bound : mid.bound = mid'.bound
  bound' : mid'.bound = s'.bound
  log : mid.log = mid'.log
  cap' : mid'.log.cap = s'.log.cap
  ready : mid.ready? name = mid'.ready? name
  kept : ∀ other, other ≠ name → mid.ready? other = s.ready? other
  kept' : ∀ other, other ≠ name → mid'.ready? other = s'.ready? other
  store : mid.machine.store = s.machine.store
  store' : mid'.machine.store = s'.machine.store
  machine : Machine.Matches region p globalFrame globalFrame mid.machine mid'.machine

section Ending

variable {region : Region} {name : String} {p q : Matching} {s s' mid mid' : Session}
  {after after' : Machine}

/-- The names that are forgotten after a fault are those that the machine does not know. -/
theorem Session.ready?_ending (haligned : s.Aligned) {taken taken' : Place → Prop}
    (hready : ∀ other, other ≠ name → mid.ready? other = s.ready? other)
    (hchanges : s.machine.store.ChangesAt taken name after.store taken')
    (ended : Except Halt Unit) (other : String) (hne : other ≠ name) :
    (mid.ending after ended).2.ready? other = s.ready? other := by
  cases ended with
  | ok => exact hready other hne
  | error halt =>
    have hglobal : after.isGlobal other = (s.ready? other).isSome := by
      have hnames := haligned.names other
      rw [StaticScope.contains_eq_isSome_ready?] at hnames
      rw [Machine.isGlobal, Store.isDeclared, hchanges.kept other hne]
      exact hnames.symm
    show (mid.resolver.retain after.isGlobal).globals.ready? other = _
    rw [Resolver.ready?_retain, hglobal]
    have hother : mid.resolver.globals.ready? other = s.ready? other := hready other hne
    rw [hother]
    cases s.ready? other <;> rfl

theorem PreparedAlike.rejected (h : PreparedAlike region name p s s' mid mid')
    (hmoved : s.machine.Moved region name p s'.machine q mid.machine mid'.machine) :
    EnteredAlike region name p s s' (false, mid) (false, mid') :=
  ⟨congrArg₂ _ h.machine.sink h.log, h.bound, h.bound', h.cap', h.ready, h.kept, h.kept', q, hmoved⟩

/-- The same end of a run in two sessions. -/
theorem PreparedAlike.ending (h : PreparedAlike region name p s s' mid mid') (hs : s.Aligned)
    (hs' : s'.Aligned) (hmoved : s.machine.Moved region name p s'.machine q after after')
    (ended : Except Halt Unit) :
    EnteredAlike region name p s s' (mid.ending after ended) (mid'.ending after' ended) := by
  have hkept := Session.ready?_ending hs h.kept hmoved.changes ended
  have hkept' := Session.ready?_ending hs' h.kept' hmoved.changes' ended
  cases ended with
  | ok =>
    exact ⟨congrArg₂ _ hmoved.sink h.log, h.bound, h.bound', h.cap', h.ready, hkept, hkept', q,
      hmoved⟩
  | error halt =>
    refine ⟨congrArg₂ _ hmoved.sink ?_, h.bound, h.bound', ?_, ?_, hkept, hkept', q, hmoved⟩
    · cases halt with
      | error error => exact congrArg (Log.addFault · error.toFault) h.log
      | outOfFuel => exact h.log
    · cases halt with
      | error error => exact h.cap'
      | outOfFuel => exact h.cap'
    · have hglobal : after.isGlobal name = after'.isGlobal name := by
        have hslot := hmoved.slot
        rw [Machine.isGlobal, Machine.isGlobal, Store.isDeclared, Store.isDeclared]
        generalize after.store.slot? globalFrame name = slot,
          after'.store.slot? globalFrame name = slot' at hslot
        cases hslot <;> rfl
      show (mid.resolver.retain after.isGlobal).globals.ready? name =
        (mid'.resolver.retain after'.isGlobal).globals.ready? name
      rw [Resolver.ready?_retain, Resolver.ready?_retain, hglobal]
      exact congrArg (fun ready => if after'.isGlobal name then ready else none) h.ready

end Ending

section Entering

variable {region : Region} {maker : Maker} {make name : String} {p : Matching}
  {s s' mid mid' : Session} {entry : Entry} {line : CallLine} {host host' : Host} {id id' : NodeId}

/-- The analysis says the same of a line. -/
theorem Counterparts.faults (h : Counterparts region maker make name p s s')
    (hline : line.Concerns make name) :
    line.declarationFaults s.ready? = line.declarationFaults s'.ready? ∧
      line.calleeFaults s.ready? = line.calleeFaults s'.ready? := by
  refine ⟨CallLine.declarationFaults_congr fun declared hdeclared => ?_,
    CallLine.calleeFaults_congr ?_⟩
  · rw [(hline.declared declared hdeclared).1, h.ready]
  · rcases hline.callee with hcallee | hcallee
    · rw [hcallee, h.readyMake]
    · rw [hcallee, h.ready]

theorem Counterparts.accepted (h : Counterparts region maker make name p s s')
    (hline : line.Concerns make name) : line.isAccepted s.ready? = line.isAccepted s'.ready? := by
  obtain ⟨hdeclaration, hcallee⟩ := h.faults hline
  rw [CallLine.isAccepted, hdeclaration, hcallee, CallLine.isAccepted]

theorem Counterparts.prepared (h : Counterparts region maker make name p s s')
    (hline : line.Concerns make name) (hmid : Session.Prepared line id (s.awaiting host entry) mid)
    (hmid' : Session.Prepared line id' (s'.awaiting host' entry) mid') :
    PreparedAlike region name p s s' mid mid' where
  bound := hmid.bound.trans (h.bound.trans hmid'.bound.symm)
  bound' := hmid'.bound
  log := by
    obtain ⟨hdeclaration, hcallee⟩ := h.faults hline
    rw [hmid.log, hmid'.log]
    show (((Log.empty s.log.cap).addFaults _).addFaults (line.declarationFaults s.ready?)).addFaults
        (line.calleeFaults s.ready?) =
      (((Log.empty s'.log.cap).addFaults _).addFaults (line.declarationFaults s'.ready?)).addFaults
        (line.calleeFaults s'.ready?)
    rw [h.cap, hdeclaration, hcallee]
  cap' := by
    rw [hmid'.log, Log.cap_addFaults, Log.cap_addFaults]
    exact Log.cap_addFaults _ _
  ready := by
    rw [hmid.ready, hmid'.ready]
    show line.readyBehind s.ready? name = line.readyBehind s'.ready? name
    rw [CallLine.readyBehind, h.accepted hline, h.ready, CallLine.readyBehind]
  kept _ hother := (hmid.ready _).trans
    (CallLine.readyBehind_of_ne (fun declared hd => (hline.declared declared hd).1) hother)
  kept' _ hother := (hmid'.ready _).trans
    (CallLine.readyBehind_of_ne (fun declared hd => (hline.declared declared hd).1) hother)
  store := by
    rw [hmid.machine]
    rfl
  store' := by
    rw [hmid'.machine]
    rfl
  machine := by
    rw [hmid.machine, hmid'.machine]
    exact ⟨h.machine.store, h.covers.aligned.here, h.covers'.aligned.here,
      h.covers.aligned.depth.trans h.covers'.aligned.depth.symm, rfl⟩

/-- Two sessions that have in common what one name stands for reply alike to a line that makes it or
calls it, and nothing else changes in either. -/
theorem Counterparts.enter (h : Counterparts region maker make name p s s')
    (hinner : ∀ v, region.visited v → ∀ hops, v.hops? = some hops →
      hops + region.outside < v.scopes.length)
    (hmaker : maker.Inside region) (hne : name ≠ make) (hline : callLine? entry.line = some line)
    (hconcerns : line.Concerns make name) (host host' : Host) :
    EnteredAlike region name p s s' (s.enter host entry) (s'.enter host' entry) := by
  obtain ⟨globals, _, hsteady, -⟩ := h.covers
  obtain ⟨globals', _, hsteady', -⟩ := h.covers'
  have hproper := hconcerns.proper hne
  obtain ⟨-, hplain, -⟩ := parsed_of_callLine? hline
  obtain ⟨id, mid, hmid, hrun⟩ :=
    s.enter_eq hsteady.resolver hsteady.settled.complete_scope host hline hproper
  obtain ⟨id', mid', hmid', hrun'⟩ :=
    s'.enter_eq hsteady'.resolver hsteady'.settled.complete_scope host' hline hproper
  have hprepared := h.prepared hconcerns hmid hmid'
  have hbeside : mid.machine.Beside region maker make name p mid'.machine := by
    rw [hmid.machine, hmid'.machine]
    exact { h.machine with }
  have hback {q : Matching} {after after' : Machine}
      (hmoved : mid.machine.Moved region name p mid'.machine q after after') :
      s.machine.Moved region name p s'.machine q after after' :=
    { hmoved with
      changes := hprepared.store ▸ hmoved.changes
      changes' := hprepared.store' ▸ hmoved.changes' }
  have haccepted := h.accepted hconcerns
  cases hgood : line.isAccepted s'.ready? with
  | false =>
    rw [haccepted, hgood, if_neg Bool.false_ne_true] at hrun
    rw [hgood, if_neg Bool.false_ne_true] at hrun'
    rw [hrun, hrun']
    exact hprepared.rejected (hback (hbeside.moved (.refl _ _ _) hprepared.machine))
  | true =>
    rw [haccepted, hgood, if_pos rfl] at hrun
    rw [hgood, if_pos rfl] at hrun'
    have hagrees := (h.covers.enter host entry).agrees
    have hagrees' := (h.covers'.enter host' entry).agrees
    rw [hrun, Session.distances_interpret] at hagrees
    rw [hrun', Session.distances_interpret] at hagrees'
    have hlookup : Enclosed region { distances := mid.distances } { distances := mid'.distances } :=
      ⟨hagrees, hagrees', fun _ _ _ => rfl, fun _ _ _ => rfl, fun hv _ => hinner _ hv _⟩
    obtain ⟨q, after, after', ended, hends, hends', hmoved⟩ :=
      CallLine.interpret_matches hbeside hlookup hmaker hprepared.machine hconcerns hplain
        (hmid.found (haccepted.trans hgood)) (hmid'.found hgood) mid.bound
    rw [hrun, hrun', Session.interpret_eq hends, Session.interpret_eq (hprepared.bound ▸ hends')]
    exact hprepared.ending h.covers.aligned h.covers'.aligned (hback hmoved) ended

end Entering

end LoxLang
