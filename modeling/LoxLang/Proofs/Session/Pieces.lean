import LoxLang.Proofs.Grammar.Portions
import LoxLang.Proofs.Session.Parallel
import LoxLang.Proofs.Session.Rejected
import LoxLang.Proofs.Session.Verdict
import LoxLang.Proofs.Token.Cutting

/-!
# A program line by line

A program that goes without a fault may as well be given statement by statement (`Abreast.line`):
each line goes without a fault, writes what its statement wrote in the program, and leaves the names
and the values that it left there (`run_by_lines`).
-/

namespace LoxLang

/-! ## Correspondence up to places -/

/-- Nodes of some numbers correspond to themselves, and tokens to tokens in other places. -/
def Likeness.among (P : NodeId → Prop) : Likeness := .placeless fun i j => i = j ∧ P i

namespace Likeness

variable {P P' : NodeId → Prop}

theorem among_refines (h : ∀ id, P id → P' id) : (among P).Refines (among P') :=
  ⟨fun _ _ ht => ht, fun _ _ hid => ⟨hid.1, h _ hid.2⟩⟩

theorem among_refines_placeless : (among P).Refines (.placeless Eq) :=
  ⟨fun _ _ ht => ht, fun _ _ hid => hid.1⟩

theorem carries_among {references : List Reference} (h : ∀ r ∈ references, P r.id) :
    (placeless Eq).Carries (among P) references :=
  ⟨fun _ _ ht => ht, fun r hr _ hid => ⟨hid, h r hr⟩⟩

theorem oneToOne_among : (among P).OneToOne := by
  rintro i _ i' _ ⟨rfl, -⟩ ⟨rfl, -⟩
  exact Iff.rfl

theorem not_exact_among : ¬(among P).Exact := fun h =>
  nomatch congrArg Token.line (h ⟨.eof, "", 1, ⟨0, 0⟩⟩ ⟨.eof, "", 2, ⟨0, 0⟩⟩ ⟨rfl, rfl⟩)

end Likeness

/-! ## Analysis -/

section Analysis

variable {settings : Settings} {a : Analysis} {r : Resolver} {stmt stmt' : Stmt} {lo hi : NodeId}

/-- The distances of other nodes stay. -/
theorem Walk.getElem?_of_ne {b : Analysis} {visits : List Visit} {references : List Reference}
    (h : Walk a b visits references) (hgood : b.failed = false) {id : NodeId}
    (hid : ∀ ref ∈ references, ref.id ≠ id) : b.distances[id]? = a.distances[id]? := by
  rw [h.distances hgood, Visit.getElem?_foldl_note_of_ne]
  intro v hv heq
  obtain ⟨ref, href, hrid⟩ := h.origin v hv
  exact hid ref href (hrid.trans heq)

/-- What an analysis has made of the scopes. -/
def Analysis.resolver (a : Analysis) : Resolver := ⟨a.scopes, a.around⟩

theorem Resolver.resolve_of_good {log : Log} {program : List Stmt}
    (h : (closing settings log program r).failed = false) :
    r.resolve settings log program =
      { resolver := (closing settings log program r).resolver
        distances := some (closing settings log program r).distances
        log := (closing settings log program r).log } := by
  rw [resolve_eq, h, if_neg Bool.false_ne_true]
  rfl

/-- The analysis of a statement in its place finds what it finds in a line of its own. -/
theorem resolve_alone (hresolver : a.resolver.Alike (.placeless Eq) r) (hfailed : a.failed = false)
    (hnew : ∀ id, lo ≤ id → a.distances[id]? = none)
    (halike : Stmt.Alike (.placeless Eq) stmt stmt') (hmade : stmt.Made lo hi)
    (hmade' : MadeBody [stmt'] lo hi) (hgood : (stmt.analyse settings a).failed = false)
    (log : Log) :
    ∃ table, (r.resolve settings log [stmt']).distances = some table ∧
      (stmt.analyse settings a).resolver.Alike (.placeless Eq)
        (r.resolve settings log [stmt']).resolver ∧
      (∀ id, lo ≤ id → id < hi → (stmt.analyse settings a).distances[id]? = table[id]?) ∧
      ∀ id, id < lo ∨ hi ≤ id → table[id]? = none := by
  have hscopes : a.resolver.Alike (.among fun id => lo ≤ id ∧ id < hi) r :=
    hresolver.imp fun _ _ ht => ht
  have hstmt : Stmt.Alike (.among fun id => lo ≤ id ∧ id < hi) stmt stmt' :=
    halike.imp (Likeness.carries_among hmade.within)
  have hopening : Analysis.Alike (.among fun id => lo ≤ id ∧ id < hi) a (r.opening log) :=
    { oneToOne := Likeness.oneToOne_among
      scopes := hscopes.scopes
      around := hscopes.around
      distances := fun id id' hid => (hnew id hid.2.1).trans Std.TreeMap.getElem?_emptyc.symm
      failed := hfailed
      log := fun hexact => absurd hexact Likeness.not_exact_among }
  have hwalk : Analysis.Alike (.among fun id => lo ≤ id ∧ id < hi) (stmt.analyse settings a)
      (stmt'.analyse settings (r.opening log)) := hstmt.analyse hopening
  have hgood' : (Resolver.closing settings log [stmt'] r).failed = false :=
    hwalk.failed.symm.trans hgood
  have hresolve := Resolver.resolve_of_good hgood'
  have htable := congrArg BindingResult.distances hresolve
  refine ⟨_, htable, ?_, fun id hlo hhi => hwalk.distances id id ⟨rfl, hlo, hhi⟩, fun id hid => ?_⟩
  · rw [hresolve]
    exact Resolver.Alike.imp ⟨hwalk.scopes, hwalk.around⟩ fun _ _ ht => ht
  · refine Resolver.getElem?_of_not_visited hmade'.regular htable fun v hv heq => ?_
    obtain ⟨ref, href, hrid⟩ := (analysedBody settings [stmt'] _ hmade'.regular).origin v hv
    have hwithin := hmade'.within ref href
    rw [hrid, heq] at hwithin
    exact hid.elim (Nat.not_lt_of_le hwithin.1) (Nat.not_le_of_lt hwithin.2)

end Analysis

/-! ## One line -/

namespace Session

/-- A run of a program before a statement, abreast of a session that has been given what stands
before it line by line. -/
structure Abreast (settings : Settings) (bound : Nat) (table : Distances) (p : ParseState)
    (a : Analysis) (m : Machine) (t : Session) : Prop where
  settings : t.settings = settings
  bound : t.bound = bound
  nextId : t.nextId = p.nextId
  spelled : p.Spelled
  resolver : a.resolver.Alike (.placeless Eq) t.resolver
  found : ∀ id, p.nextId ≤ id → a.distances[id]? = none
  known : ∀ id, p.nextId ≤ id → t.distances[id]? = none
  distances : ∀ id, id < p.nextId → table[id]? = t.distances[id]?
  machine : Machine.Alike (.among (· < p.nextId)) m t.machine

variable {settings : Settings} {bound fuel : Nat} {table : Distances} {p p' : ParseState}
  {a : Analysis} {m m' : Machine} {t : Session} {stmt : Stmt} {tokens tokens' : List Token}
  {source : String} {last : Token} {signal : Signal}

/-- A line of one statement is read as the statement is read in its place. -/
theorem read_alone (hone : Parse.ReadsOne fuel p stmt tokens p') (hnumber : t.nextId = p.nextId)
    (hlog : t.log.sawError = false) (hscan : scan source = (tokens' ++ [last], []))
    (htokens : List.Forall₂ Token.SameWord tokens tokens') (hlast : last.kind.isEof = true) :
    ∃ stmt', Stmt.Alike (.placeless Eq) stmt stmt' ∧ MadeBody [stmt'] p.nextId p'.nextId ∧
      t.read source true = (some [stmt'], { t with nextId := p'.nextId }) := by
  obtain ⟨stmt', halike, hprogram⟩ := Parse.program_of_portion hone htokens hlast
  refine ⟨stmt', halike, ?_, ?_⟩
  · have hspelled : ∀ t ∈ tokens' ++ [last], t.Spelled := by
      have hsource := spelled_scan source
      rwa [hscan] at hsource
    have hmade := Parse.program_made hspelled (congrArg ParseResult.statements hprogram)
    rwa [hprogram] at hmade
  · unfold read
    rw [hscan]
    dsimp only
    split
    · next hseen => cases hlog.symm.trans hseen
    · rw [hnumber, hprogram]
      rfl

variable {interactive : Bool} {program : List Stmt} {new : Distances}

theorem resolve_of_some (h : (t.resolver.resolve t.settings t.log program).distances = some new) :
    t.resolve program = (some program, { t with
      resolver := (t.resolver.resolve t.settings t.log program).resolver
      log := (t.resolver.resolve t.settings t.log program).log
      distances := noteDistances t.distances new }) := by
  unfold resolve
  dsimp only
  rw [h]

theorem interpret_of_ok {after : Machine}
    (h : t.machine.interpret t.bound { distances := t.distances } program = (.ok (), after)) :
    t.interpret program = (true, { t with machine := after }) := interpret_eq h

/-- Before the first statement, in a new session. -/
theorem Abreast.start (bound : Nat) (settings : Settings) (host : Host) (sink : Sink)
    {tokens : List Token} (htokens : ∀ t ∈ tokens, t.Spelled) (log : Log) :
    let s := startWithin bound settings host sink
    Abreast settings bound table { last := none, rest := tokens, nextId := s.nextId }
      (s.resolver.opening log) s.machine s where
  settings := rfl
  bound := rfl
  nextId := rfl
  spelled := htokens
  resolver := .refl (l := .placeless Eq) (fun _ => ⟨rfl, rfl⟩) _
  found _ _ := Std.TreeMap.getElem?_emptyc
  known _ _ := Std.TreeMap.getElem?_emptyc
  distances _ hid := absurd hid (Nat.not_lt_zero _)
  machine := .start standardNatives host sink

/-- A source that goes through all passes. -/
theorem execute_of_ok {mid : Session} {final : Machine}
    (hread : t.read source interactive = (some program, mid))
    (hnew : (mid.resolver.resolve mid.settings mid.log program).distances = some new)
    (hrun : mid.machine.interpret mid.bound { distances := noteDistances mid.distances new }
      program = (.ok (), final)) :
    t.execute source interactive = (true, { mid with
      resolver := (mid.resolver.resolve mid.settings mid.log program).resolver
      log := (mid.resolver.resolve mid.settings mid.log program).log
      distances := noteDistances mid.distances new
      machine := final }) := by
  rw [execute, accept, hread]
  dsimp only
  rw [resolve_of_some hnew]
  exact interpret_of_ok hrun

/-- The distances of the nodes of a statement are known behind its line. -/
theorem Abreast.distances_next (h : Abreast settings bound table p a m t)
    (htable : ∀ id, p.nextId ≤ id → id < p'.nextId → table[id]? = new[id]?)
    (hbefore : ∀ id, id < p.nextId → new[id]? = none) (id : NodeId) (hid : id < p'.nextId) :
    table[id]? = (noteDistances t.distances new)[id]? := by
  rw [getElem?_noteDistances]
  by_cases hold : id < p.nextId
  · rw [hbefore id hold, Option.none_or, h.distances id hold]
  · have hlo := Nat.le_of_not_lt hold
    rw [htable id hlo hid, h.known id hlo, Option.or_none]

/-- The statement goes the same way in its place and in a line of its own. -/
theorem Abreast.line (h : Abreast settings bound table p a m t)
    (hone : Parse.ReadsOne fuel p stmt tokens p') (hfailed : a.failed = false)
    (hgood : (stmt.analyse settings a).failed = false)
    (htable : ∀ id, p.nextId ≤ id → id < p'.nextId →
      table[id]? = (stmt.analyse settings a).distances[id]?)
    (hrun : Eval.execute bound { distances := table } stmt m = .ok signal m')
    (hflush : m'.sink.failFlush = false) (hscan : scan source = (tokens' ++ [last], []))
    (htokens : List.Forall₂ Token.SameWord tokens tokens') (hlast : last.kind.isEof = true) :
    (t.runLine source).1 = true ∧
      Abreast settings bound table p' (stmt.analyse settings a) m' (t.runLine source).2 := by
  obtain ⟨hfrom, hmade⟩ := hone.made h.spelled
  have hle := hfrom.number
  obtain ⟨stmt', halike, hmade', hread⟩ := read_alone (t := { t with log := t.log.reset }) hone
    h.nextId rfl hscan htokens hlast
  obtain ⟨new, hnew, hresolver, hinside, houtside⟩ :=
    resolve_alone h.resolver hfailed h.found halike hmade hmade' hgood t.log.reset
  have hdistances := h.distances_next (fun id hlo hhi => (htable id hlo hhi).trans
    (hinside id hlo hhi)) fun id hid => houtside id (.inl hid)
  have hlookup : Lookup.Alike (.among (· < p'.nextId)) { distances := table }
      { distances := noteDistances t.distances new } :=
    ⟨fun id id' hid => hid.1 ▸ hdistances id hid.2, fun _ _ _ => rfl, fun _ _ _ => rfl⟩
  have hstmt : Stmt.Alike (.among (· < p'.nextId)) stmt stmt' :=
    halike.imp (Likeness.carries_among fun r hr => (hmade.within r hr).2)
  have hstart : Machine.Alike (.among (· < p'.nextId)) m t.machine :=
    h.machine.imp (Likeness.among_refines fun _ hid => Nat.lt_of_lt_of_le hid hle)
  have hexecute := (runsParallel hlookup bound).execute hstmt m t.machine hstart
  rw [hrun] at hexecute
  generalize hrun' :
    Eval.execute bound { distances := noteDistances t.distances new } stmt' t.machine =
      result at hexecute
  cases hexecute with
  | @ok _ signal' _ after machine =>
    have hinterpret :
        t.machine.interpret t.bound { distances := noteDistances t.distances new } [stmt'] =
          (.ok (), after) := by
      rw [h.bound, Machine.interpret, hrun']
      dsimp only
      rw [Machine.interpret, ← machine.sink, hflush, if_neg Bool.false_ne_true]
    rw [runLine, execute_of_ok hread (h.settings ▸ hnew) hinterpret]
    refine ⟨rfl, { settings := h.settings, bound := h.bound, nextId := rfl
                   spelled := hfrom.spelled
                   resolver := h.settings ▸ hresolver
                   found := fun id hid => ?_
                   known := fun id hid => ?_
                   distances := hdistances
                   machine := machine }⟩
    · have hother : ∀ r ∈ stmt.references, r.id ≠ id := fun r hr =>
        Nat.ne_of_lt (Nat.lt_of_lt_of_le (hmade.within r hr).2 hid)
      rw [(stmt.analysed settings a hmade.regular).getElem?_of_ne hgood hother]
      exact h.found id (Nat.le_trans hle hid)
    · rw [getElem?_noteDistances, houtside id (.inr hid), Option.none_or]
      exact h.known id (Nat.le_trans hle hid)

/-! ## All lines -/

/-- A source that scans to some tokens, wherever they stand. -/
def Spells (tokens : List Token) (source : String) : Prop :=
  ∃ tokens' last, last.kind.isEof = true ∧ List.Forall₂ Token.SameWord tokens tokens' ∧
    scan source = (tokens' ++ [last], [])

theorem failFlush_of_ok {bound : Nat} {lookup : Lookup} {ss : List Stmt} {m final : Machine}
    (h : m.interpret bound lookup ss = (.ok (), final)) : final.sink.failFlush = false := by
  induction ss generalizing m with
  | nil =>
    rw [Machine.interpret] at h
    split at h
    · cases h
    · next hflush =>
      cases h
      simpa using hflush
  | cons s ss ih =>
    rw [Machine.interpret] at h
    split at h
    · exact ih h
    · cases h

/-- A device that passes the output on at the end has done so from the beginning. -/
theorem tidy_of_ok {bound : Nat} {lookup : Lookup} {ss : List Stmt} {m final : Machine}
    (hformed : WellFormedBody ss false) (hm : m.store.Tidy)
    (h : m.interpret bound lookup ss = (.ok (), final)) : m.Tidy false := by
  have hkept := (Machine.interpret_orderly bound lookup hformed ⟨hm, rfl⟩).1.device
  rw [h] at hkept
  exact ⟨hm, hkept.symm.trans (failFlush_of_ok h)⟩

theorem Abreast.lines {ss : List Stmt} {parts : List (List Token)} {sources : List String}
    {final : Machine} (hreads : Parse.Reads fuel p ss parts)
    (h : Abreast settings bound table p a m t) (hsources : List.Forall₂ Spells parts sources)
    (hgood : (analyseBody settings ss a).failed = false)
    (htable : ∀ id : NodeId, table[id]? = (analyseBody settings ss a).distances[id]?)
    (hformed : WellFormedBody ss false) (hm : m.Tidy false)
    (hrun : m.interpret bound { distances := table } ss = (.ok (), final)) :
    (∀ reply ∈ t.replies sources, reply.went = true) ∧
      ∃ p', Abreast settings bound table p' (analyseBody settings ss a) final
        (t.feedAll (sources.map .line)) := by
  induction hreads generalizing a m t sources with
  | done =>
    cases hsources
    rw [Machine.interpret] at hrun
    split at hrun
    · cases hrun
    · cases hrun
      exact ⟨fun _ hreply => absurd hreply List.not_mem_nil, _, h⟩
  | @next p stmt tokens p' ss parts hone hothers ih =>
    obtain _ | ⟨⟨tokens', last, hlast, htokens, hscan⟩, hrest⟩ := hsources
    obtain ⟨hfrom, hone'⟩ := hone.made h.spelled
    obtain ⟨hi, -, hmade⟩ := hothers.made hfrom.spelled
    have hbehind := analysedBody settings ss (stmt.analyse settings a) hmade.regular
    have hgood' : (stmt.analyse settings a).failed = false := hbehind.sound hgood
    have hfailed := (stmt.analysed settings a hone'.regular).sound hgood'
    have htable' : ∀ id, p.nextId ≤ id → id < p'.nextId →
        table[id]? = (stmt.analyse settings a).distances[id]? := fun id _ hid =>
      (htable id).trans <| hbehind.getElem?_of_ne hgood fun r hr =>
        (Nat.ne_of_lt (Nat.lt_of_lt_of_le hid (hmade.within r hr).1)).symm
    have horderly := ((proceeding { distances := table } bound).execute stmt hformed.1).tidy hm
    rw [Machine.interpret] at hrun
    cases hexecute : Eval.execute bound { distances := table } stmt m with
    | error halt after =>
      rw [hexecute] at hrun
      cases hrun
    | ok signal m' =>
      rw [hexecute] at hrun
      have htidy := horderly.ok hexecute
      obtain ⟨hwent, hnext⟩ := h.line hone hfailed hgood' htable' hexecute htidy.device hscan
        htokens hlast
      obtain ⟨hreplies, hfinal⟩ := ih hnext hrest hgood htable hformed.2 htidy hrun
      exact ⟨List.forall_mem_cons.mpr ⟨hwent, hreplies⟩, hfinal⟩

end Session

/-! ## Programs -/

/-- The source of each statement of a program. -/
def statementTexts (source : String) : List String :=
  let tokens := (scan source).1
  (Parse.portions (Parse.depthBound tokens) tokens.length { last := none, rest := tokens }).map
    (textOf source)

theorem Parse.Reads.spells {fuel : Nat} {p : ParseState} {ss : List Stmt}
    {parts : List (List Token)}
    (h : Parse.Reads fuel p ss parts) {source : String} {before : List Token}
    (hscan : scan source = (before ++ p.rest, [])) :
    List.Forall₂ Session.Spells parts (parts.map (textOf source)) := by
  induction h generalizing before with
  | done => exact .nil
  | next one _ ih =>
    rw [one.rest, ← List.append_assoc] at hscan
    exact .cons (scan_textOf hscan one.some one.noEnd) (ih hscan)

namespace Session

/-- Sessions with the same names and the same values. Code that the values hold may differ in the
places of its tokens. -/
structure Equivalent (s s' : Session) : Prop where
  names : s.resolver.globals.names.entries.map Prod.fst =
    s'.resolver.globals.names.entries.map Prod.fst
  values : ∀ name, s.machine.store.slot? globalFrame name = s'.machine.store.slot? globalFrame name
  output : s.machine.sink = s'.machine.sink
  resolver : s.resolver.Alike (.placeless Eq) s'.resolver
  machine : Machine.Alike (.placeless Eq) s.machine s'.machine

theorem Equivalent.of_alike {s s' : Session}
    (hresolver : s.resolver.Alike (.placeless Eq) s'.resolver)
    (hmachine : Machine.Alike (.placeless Eq) s.machine s'.machine) : s.Equivalent s' where
  names := by
    have hglobals : List.Forall₂ _ s.resolver.globals.names.entries
        s'.resolver.globals.names.entries :=
      hresolver.globals
    generalize s.resolver.globals.names.entries = entries,
      s'.resolver.globals.names.entries = entries' at hglobals
    induction hglobals with
    | nil => rfl
    | cons hentry _ ih => rw [List.map_cons, List.map_cons, hentry.1, ih]
  values := hmachine.store.slot?_eq globalFrame
  output := hmachine.sink
  resolver := hresolver
  machine := hmachine

variable {s : Session} {source : String} {interactive : Bool}

/-- A source that is read has no faults. -/
theorem scan_of_read {program : List Stmt} (h : (s.read source interactive).1 = some program) :
    ∃ tokens, scan source = (tokens, []) ∧
      (Parse.program interactive s.nextId tokens).statements = some program := by
  unfold read at h
  dsimp only at h
  split at h
  · cases h
  · next hseen =>
    rw [Log.sawError_addFaults, Bool.or_eq_true, not_or] at hseen
    exact ⟨(scan source).1, Prod.ext rfl (by simpa using hseen.2), h⟩

/-- A run that goes without a fault goes through all passes. -/
theorem execute_of_went (h : (s.execute source interactive).1 = true) :
    ∃ program mid new final, s.read source interactive = (some program, mid) ∧
      (mid.resolver.resolve mid.settings mid.log program).distances = some new ∧
      mid.machine.interpret mid.bound { distances := noteDistances mid.distances new } program =
        (.ok (), final) := by
  unfold execute accept at h
  cases hread : s.read source interactive with
  | mk parsed mid =>
    rw [hread] at h
    cases parsed with
    | none => cases h
    | some program =>
      dsimp only at h
      cases hdistances : (mid.resolver.resolve mid.settings mid.log program).distances with
      | none =>
        simp only [resolve, hdistances] at h
        cases h
      | some new =>
        rw [resolve_of_some hdistances] at h
        dsimp only at h
        cases hrun : mid.machine.interpret mid.bound
            { distances := noteDistances mid.distances new } program with
        | mk result final =>
          cases result with
          | error halt =>
            simp only [interpret, hrun] at h
            cases h
          | ok => exact ⟨program, mid, new, final, rfl, hdistances, hrun⟩

end Session

/-- A program that goes without a fault, against its statements given to a new session line by line.
Each line goes without a fault; behind the last one the same has been written, the same names are
known, and they have the same values. -/
theorem run_by_lines (bound : Nat) (settings : Settings) (host : Host) (sink : Sink)
    (source : String) :
    let s := Session.startWithin bound settings host sink
    (s.run source).1 = true →
      (∀ program, (s.read source false).1 = some program →
        (statementTexts source).length = program.length) ∧
      (∀ reply ∈ s.replies (statementTexts source), reply.went = true) ∧
      (s.run source).2.Equivalent (s.feedAll ((statementTexts source).map .line)) := by
  intro s hwent
  obtain ⟨program, mid, new, final, hread, hnew, hrun⟩ := Session.execute_of_went hwent
  have hend := Session.execute_of_ok hread hnew hrun
  obtain ⟨tokens, hscan, hstatements⟩ := Session.scan_of_read (congrArg Prod.fst hread)
  obtain ⟨log, nextId, -, -, hmid⟩ := s.relogged_read source false
  rw [hread] at hmid
  obtain rfl : mid = { s with log, nextId } := hmid
  have hreads := Parse.reads_program hstatements
  have htexts : statementTexts source = (Parse.portions (Parse.depthBound tokens) tokens.length
      { last := none, rest := tokens, nextId := s.nextId }).map (textOf source) := by
    rw [statementTexts, hscan]
    rfl
  have hsources : List.Forall₂ Session.Spells _ (statementTexts source) :=
    htexts ▸ hreads.spells (List.nil_append tokens ▸ hscan)
  obtain ⟨hgood, rfl⟩ := Resolver.accepted hnew
  have htable (id : NodeId) : (Session.noteDistances ∅
      (Resolver.closing settings log program s.resolver).distances)[id]? =
        (Resolver.closing settings log program s.resolver).distances[id]? := by
    rw [Session.getElem?_noteDistances, Std.TreeMap.getElem?_emptyc, Option.or_none]
  have hformed := Parse.program_wellFormed hstatements
  have htidy := Session.tidy_of_ok hformed (Machine.tidy_start standardNatives host sink) hrun
  have hspelled : ∀ t ∈ tokens, t.Spelled := by
    have hsource := spelled_scan source
    rwa [hscan] at hsource
  obtain ⟨hreplies, p', hlines⟩ := (Session.Abreast.start bound settings host sink hspelled log).lines
    hreads hsources hgood htable hformed htidy hrun
  have hresolver := congrArg BindingResult.resolver (Resolver.resolve_of_good hgood)
  refine ⟨fun other hother => ?_, hreplies, ?_⟩
  · rw [hread] at hother
    cases hother
    rw [htexts, List.length_map, hreads.length_eq]
  · rw [Session.run, hend]
    exact .of_alike (hresolver ▸ hlines.resolver)
      (hlines.machine.imp Likeness.among_refines_placeless)

/-- A program with comments, a function and a loop, and its statements. -/
theorem run_by_lines_counting :
    let s := Session.startWithin 60 {} ⟨(0.0 : Float), []⟩ {}
    let source :=
      "var n = 0; // count\nfun step() \x7b n += 1; \x7d /* twice */ while (n < 2) step(); print n;"
    (s.run source).1 = true ∧
      statementTexts source =
        ["var n = 0;", "fun step() \x7b n += 1; \x7d", "while (n < 2) step();", "print n;"] ∧
      (∀ reply ∈ s.replies (statementTexts source), reply.went = true) ∧
      (s.run source).2.Equivalent (s.feedAll ((statementTexts source).map .line)) := by
  intro s source
  have hwent : (s.run source).1 = true := by decide +kernel
  obtain ⟨-, hreplies, hsame⟩ := run_by_lines 60 {} ⟨(0.0 : Float), []⟩ {} source hwent
  exact ⟨hwent, by decide +kernel, hreplies, hsame⟩

end LoxLang
