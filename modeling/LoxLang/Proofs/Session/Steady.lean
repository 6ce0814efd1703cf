import LoxLang.Proofs.Grammar.Program
import LoxLang.Proofs.Machine.Start
import LoxLang.Proofs.Session.History

/-!
# Steady sessions

Between inputs the analysis and the machine know the same globals, and everything in the store lies
where the analysis of some accepted program saw it (`Steady`). Reading changes none of that
(`Steady.read`), an accepted program is executed where it was analysed (`Loaded`), and whatever
comes of an input, the session is steady afterwards (`Steady.feed`).
-/

namespace LoxLang

/-- What is on record of a session, given the visits of the programs it accepted. -/
def Session.record (s : Session) (visits : List Visit) : Record :=
  ⟨s.settings, fun v => v ∈ visits⟩

/-- A session whose machine rests with the names of a rib. -/
structure Grounded (s : Session) (rib : Rib) (visits : List Visit) : Prop where
  settled : rib.Settled
  rests : Rests (s.record visits) [rib] s.machine
  agrees : Agrees (s.record visits) s.distances
  older : ∀ v ∈ visits, v.id < s.nextId
  coherent : Coherent visits
  unnamed : ∀ word : Keyword, rib.status word.text = none
  reserved : ∀ v ∈ visits, WordsReserved v.ribs

/-- How programs run in a session where a watch may stop them. -/
def Grounded.course {s : Session} {rib : Rib} {visits : List Visit} (h : Grounded s rib visits)
    (stopsAt : NodeId → Token → Machine → Bool) : Course where
  toRecord := s.record visits
  lookup := { distances := s.distances, stopsAt }
  agrees := h.agrees
  reserved {v} := h.reserved v

/-- The global scope is not the scope of an object. -/
theorem Rib.Settled.wordsReserved {rib : Rib} (h : rib.Settled) :
    WordsReserved [rib] ↔ ∀ word : Keyword, rib.status word.text = none := by
  have hkind (word : Keyword) : ¬∃ decl, rib.kind = .receiver decl ∧ decl.Gives word :=
    fun ⟨decl, heq, _⟩ => by cases h.kind.symm.trans heq
  rw [WordsReserved, List.forall_mem_singleton]
  refine forall_congr' fun word => ?_
  rw [iff_false_right (hkind word), Option.not_isSome_iff_eq_none]

theorem Grounded.outermost {s : Session} {rib : Rib} {visits : List Visit}
    (h : Grounded s rib visits) : Outermost [rib] := fun _ hrib => by
  cases hrib
  exact h.settled

/-- A session between inputs. -/
structure Steady (s : Session) (globals : StaticScope) (visits : List Visit) : Prop extends
    Grounded s globals.rib visits where
  resolver : s.resolver = .ofGlobals globals

/-- A session that is about to execute a program. -/
structure Loaded (s : Session) (rib : Rib) (program : List Stmt) (visits : List Visit) : Prop extends
    Grounded s rib visits where
  fits : BodyFits (s.record visits) program [rib]
  resolver : ∃ globals, s.resolver = .ofGlobals globals ∧ growBody program [rib] = [globals.rib]

/-! ## Reading -/

section Reading

variable {s : Session} {globals : StaticScope} {visits : List Visit}

/-- The log does not matter, and numbers may be passed over. -/
theorem Steady.relog (h : Steady s globals visits) (log : Log) {nextId : NodeId}
    (hle : s.nextId ≤ nextId) : Steady { s with log, nextId } globals visits where
  settled := h.settled
  rests := h.rests
  agrees := h.agrees
  older v hv := Nat.lt_of_lt_of_le (h.older v hv) hle
  coherent := h.coherent
  unnamed := h.unnamed
  reserved := h.reserved
  resolver := h.resolver

/-- Reading a program takes new numbers for its nodes. -/
theorem Steady.read (h : Steady s globals visits) (source : String) (interactive : Bool) :
    Steady (s.read source interactive).2 globals visits ∧
      ∀ program ∈ (s.read source interactive).1, ∃ firstId, (∀ v ∈ visits, v.id < firstId) ∧
        MadeBody program firstId (s.read source interactive).2.nextId := by
  unfold Session.read
  dsimp only
  split
  · exact ⟨h.relog _ (Nat.le_refl _), nofun⟩
  · have hspelled := spelled_scan source
    exact ⟨h.relog _ (Parse.firstId_le_nextId hspelled), fun program hprogram =>
      ⟨s.nextId, h.older, Parse.program_made hspelled hprogram⟩⟩

theorem Steady.readInput (h : Steady s globals visits) (input : Input) :
    Steady (s.readInput input).2 globals visits ∧
      ∀ program ∈ (s.readInput input).1, ∃ firstId, (∀ v ∈ visits, v.id < firstId) ∧
        MadeBody program firstId (s.readInput input).2.nextId := by
  cases input with
  | program source => exact h.read source false
  | line source => exact (h.relog s.log.reset (Nat.le_refl _)).read source true
  | outside host sink =>
    have hrests : Rests (s.record visits) [globals.rib] { s.machine with host, sink } :=
      ⟨⟨h.rests.sound, h.rests.stands⟩, h.rests.here, h.rests.depth⟩
    exact ⟨⟨⟨h.settled, hrests, h.agrees, h.older, h.coherent, h.unnamed, h.reserved⟩, h.resolver⟩,
      nofun⟩

end Reading

/-! ## Analysis -/

theorem exists_growBody (ss : List Stmt) (rib : Rib) : ∃ rib', growBody ss [rib] = [rib'] := by
  induction ss generalizing rib with
  | nil => exact ⟨rib, rfl⟩
  | cons s ss ih =>
    rw [growBody, Function.comp_apply, Stmt.grow]
    rcases s.declaration? with _ | ⟨name, kind⟩
    · exact ih rib
    · exact ih _

/-- Behind a program no scope but the global one is open, and nothing is around. -/
theorem Resolver.exists_closing (settings : Settings) (log : Log) {program : List Stmt}
    (hregular : RegularBody program) (globals : StaticScope) :
    ∃ after, (closing settings log program (.ofGlobals globals)).scopes = [after] ∧
      (closing settings log program (.ofGlobals globals)).around = {} ∧
      growBody program [globals.rib] = [after.rib] := by
  have hway := analysedBody settings program ((Resolver.ofGlobals globals).opening log) hregular
  have hribs : ribsOf (closing settings log program (.ofGlobals globals)).scopes =
      growBody program [globals.rib] := hway.ribs
  obtain ⟨rib', hgrow⟩ := exists_growBody program globals.rib
  rw [hgrow] at hribs
  obtain ⟨after, hscopes, hrib⟩ := List.map_eq_singleton_iff.mp hribs
  exact ⟨after, hscopes, hway.around, hrib ▸ hgrow⟩

section Analysis

variable {s : Session} {globals : StaticScope} {visits : List Visit} {program : List Stmt}

/-- The visits of a program whose nodes have new numbers. -/
theorem Agrees.noteDistances {table other : Distances} {s : Session}
    (h : Agrees (s.record visits) table) {new : List Visit}
    (hold : ∀ v ∈ visits, other[v.id]? = none)
    (hnew : ∀ v ∈ new, ∃ hops, v.hops? = some hops ∧ other[v.id]? = some hops) :
    Agrees (s.record (visits ++ new)) (Session.noteDistances table other) := by
  intro v hv
  rw [Session.getElem?_noteDistances]
  rcases List.mem_append.mp hv with hv | hv
  · obtain ⟨hops, hhops, hdistance⟩ := h v hv
    exact ⟨hops, hhops, by rw [hold v hv, Option.none_or, hdistance]⟩
  · obtain ⟨hops, hhops, hdistance⟩ := hnew v hv
    exact ⟨hops, hhops, by rw [hdistance, Option.some_or]⟩

theorem Rests.widen {record record' : Record} {ribs : List Rib} {m : Machine}
    (h : Rests record ribs m) (hsettings : record'.settings = record.settings)
    (hvisited : ∀ v, record.visited v → record'.visited v) : Rests record' ribs m :=
  ⟨⟨h.sound.widen hsettings hvisited, h.stands⟩, h.here, h.depth⟩

/-- A program that is rejected leaves no trace, and one that is accepted can be executed. -/
theorem Steady.resolve (h : Steady s globals visits) {firstId : NodeId}
    (hfirst : ∀ v ∈ visits, v.id < firstId) (hmade : MadeBody program firstId s.nextId) :
    match s.resolve program with
    | (none, after) => Steady after globals visits ∧ s.visitsOf program = []
    | (some accepted, after) =>
      accepted = program ∧ Loaded after globals.rib program (visits ++ s.visitsOf program) := by
  have hregular := hmade.regular
  have hresolver := h.resolver
  obtain ⟨after, hscopes, haround, hgrow⟩ :=
    Resolver.exists_closing s.settings s.log hregular globals
  have hresolve := Resolver.resolve_eq s.settings s.log program (.ofGlobals globals)
  rw [hscopes, haround] at hresolve
  cases hfailed : (Resolver.closing s.settings s.log program (.ofGlobals globals)).failed with
  | true =>
    rw [hfailed, if_pos rfl] at hresolve
    simp only [Session.resolve, Session.visitsOf, hresolver, hresolve]
    exact ⟨⟨⟨h.settled, h.rests, h.agrees, h.older, h.coherent, h.unnamed, h.reserved⟩, rfl⟩, rfl⟩
  | false =>
    rw [hfailed, if_neg Bool.false_ne_true] at hresolve
    have htable := congrArg BindingResult.distances hresolve
    dsimp only at htable
    let new := visitsOfBody s.settings program ((Resolver.ofGlobals globals).opening s.log)
    have hnumbers : ∀ v ∈ new, firstId ≤ v.id ∧ v.id < s.nextId := fun v hv => by
      obtain ⟨r, hr, hid⟩ := (analysedBody s.settings program _ hregular).origin v hv
      exact hid ▸ hmade.within r hr
    have hold : ∀ v ∈ visits, ∀ w ∈ new, w.id ≠ v.id := fun v hv w hw heq =>
      absurd (hfirst v hv) (Nat.not_lt.mpr (heq ▸ (hnumbers w hw).1))
    simp only [Session.resolve, Session.visitsOf, hresolver, hresolve, Option.isSome_some, if_true]
    refine ⟨trivial, ⟨h.settled, ?_, ?_, ?_, ?_, h.unnamed, ?_⟩, ?_, after, rfl, hgrow⟩
    · exact h.rests.widen rfl fun v hv => List.mem_append_left new hv
    · exact h.agrees.noteDistances
        (fun v hv => Resolver.getElem?_of_not_visited hregular htable (hold v hv))
        (Resolver.getElem?_of_visit hregular htable)
    · exact fun v hv => (List.mem_append.mp hv).elim (h.older v) fun hv => (hnumbers v hv).2
    · exact h.coherent.append_of_ne (coherentBody _ _ _ hregular) fun v hv w hw heq =>
        hold v hv w hw heq.symm
    · exact List.forall_mem_append.mpr ⟨h.reserved, visitsOfBody_kept kept_wordsReserved s.settings
        program hregular (h.settled.wordsReserved.mpr h.unnamed)⟩
    · exact ⟨(Resolver.ofGlobals globals).opening s.log, rfl, hregular, hfailed,
        fun v hv => List.mem_append_right _ hv⟩

end Analysis

/-! ## Execution -/

/-- What is known of a name before statements is known behind them. -/
theorem BodyFits.status_kept {record : Record} {ss : List Stmt} {rib rib' : Rib}
    (hfits : BodyFits record ss [rib]) (hgrow : growBody ss [rib] = [rib']) {name : String}
    {status : Status} (hstatus : rib.status name = some status) : rib'.status name = some status := by
  obtain ⟨a, hribs, hready⟩ := hfits
  have hbehind := (analysedBody record.settings ss a hready.regular).ribs
  rw [hribs, hgrow] at hbehind
  exact status_of_analysed hready.regular hready.accepted hribs hbehind hstatus

theorem StaticScope.status_retain (scope : StaticScope) (keep : String → Bool) (name : String) :
    (scope.retain keep).rib.status name = if keep name then scope.rib.status name else none := by
  simp only [rib, retain, NameMap.find?_retain]
  split <;> rfl

section Execution

variable {s : Session} {globals : StaticScope} {rib : Rib} {program : List Stmt} {visits : List Visit}

/-- The names that the machine does not know are those whose declaration was not executed. -/
theorem Rests.retain {record : Record} {m : Machine} {done : Rib}
    (h : Rests record [done] m) (hdone : done.Settled) (hkind : globals.kind = .globals)
    (hkept : ∀ {name status}, done.status name = some status →
      globals.rib.status name = some status) :
    (globals.retain m.isGlobal).rib.Settled ∧
      Rests record [(globals.retain m.isGlobal).rib] m := by
  have hbound : ∀ name, m.store.constant? globalFrame name = done.constant? name := fun name => by
    rw [← h.here]
    exact h.stands.exact done rfl name
  have hstatus : ∀ name, (globals.retain m.isGlobal).rib.status name = done.status name :=
    fun name => by
      rw [StaticScope.status_retain, Machine.isGlobal, Store.isDeclared_eq, hbound, Rib.constant?]
      cases hname : done.status name with
      | none => rfl
      | some status => simp [hdone.complete hname, hkept hname]
  refine ⟨⟨hkind, fun hname => hdone.complete ((hstatus _).symm.trans hname)⟩,
    ⟨⟨h.sound, h.stands.congr (hkind.trans hdone.kind.symm) fun name => ?_⟩, h.here, h.depth⟩⟩
  rw [Rib.constant?, Rib.constant?, hstatus]

/-- Whatever comes of the execution of a program, the session is steady afterwards. -/
theorem Loaded.interpret (h : Loaded s rib program visits) :
    ∃ globals, Steady (s.interpret program).2 globals visits := by
  obtain ⟨globals, hresolver, hgrow⟩ := h.resolver
  have houtermost := h.outermost
  have hmachine : Rests (h.course fun _ _ _ => false) [rib] s.machine := h.rests
  have hunnamed : ∀ word : Keyword, globals.rib.status word.text = none := by
    obtain ⟨a, -, hready⟩ := h.fits
    have hkept := kept_wordsReserved.body hready.regular (h.settled.wordsReserved.mpr h.unnamed)
    have hsettled := houtermost.growBody program
    rw [hgrow] at hkept hsettled
    exact (hsettled _ rfl).wordsReserved.mp hkept
  cases hrun : s.machine.interpret s.bound { distances := s.distances } program with
  | mk result after =>
    cases result with
    | ok =>
      have hrests := hmachine.of_ok houtermost h.fits hrun
      have hsettled := houtermost.growBody program
      rw [hgrow] at hrests hsettled
      rw [Session.interpret_eq hrun]
      exact ⟨globals, ⟨hsettled _ rfl, hrests, h.agrees, h.older, h.coherent, hunnamed, h.reserved⟩,
        hresolver⟩
    | error halt =>
      obtain ⟨-, done, rest, rfl, hrest, hrests⟩ := hmachine.of_error houtermost h.fits hrun
      obtain ⟨reached, hreached⟩ := exists_growBody done rib
      have hsettled := houtermost.growBody done
      have hfinal := houtermost.growBody (done ++ rest)
      rw [hgrow] at hfinal
      rw [growBody_append] at hgrow
      rw [hreached] at hrest hrests hsettled hgrow
      obtain ⟨hretained, hknown⟩ := hrests.retain (hsettled _ rfl) (hfinal _ rfl).kind
        (hrest.status_kept hgrow)
      rw [Session.interpret_eq hrun]
      exact ⟨globals.retain after.isGlobal,
        ⟨hretained, hknown, h.agrees, h.older, h.coherent,
          fun word => by rw [StaticScope.status_retain, hunnamed, ite_self], h.reserved⟩,
        congrArg (Resolver.retain after.isGlobal) hresolver⟩

end Execution

/-! ## Inputs -/

section Inputs

variable {s : Session} {globals : StaticScope} {visits : List Visit}

/-- An input is either rejected or about to be executed. -/
theorem Steady.take (h : Steady s globals visits) (input : Input) :
    match s.take input with
    | (none, after) => Steady after globals visits ∧ s.visits input = []
    | (some program, after) => Loaded after globals.rib program (visits ++ s.visits input) := by
  obtain ⟨hread, hmade⟩ := h.readInput input
  unfold Session.take Session.visits
  cases hprogram : s.readInput input with
  | mk parsed after =>
    rw [hprogram] at hread hmade
    cases parsed with
    | none => exact ⟨hread, rfl⟩
    | some program =>
      obtain ⟨firstId, hfirst, hmade⟩ := hmade program rfl
      have hresolve := hread.resolve hfirst hmade
      dsimp only
      split at hresolve
      · next heq =>
        rw [heq]
        exact hresolve
      · next heq =>
        rw [heq]
        obtain ⟨rfl, hloaded⟩ := hresolve
        exact hloaded

theorem Steady.feed (h : Steady s globals visits) (input : Input) :
    ∃ globals', Steady (s.feed input) globals' (visits ++ s.visits input) := by
  have htake := h.take input
  rw [Session.feed_eq]
  cases htaken : s.take input with
  | mk taken after =>
    rw [htaken] at htake
    cases taken with
    | none =>
      obtain ⟨hsteady, hvisits⟩ := htake
      rw [hvisits, List.append_nil]
      exact ⟨globals, hsteady⟩
    | some program => exact htake.interpret

theorem Steady.feedAll (h : Steady s globals visits) (inputs : List Input) :
    ∃ globals', Steady (s.feedAll inputs) globals' (visits ++ s.visitsAll inputs) := by
  induction inputs generalizing s globals visits with
  | nil => exact ⟨globals, by rw [Session.visitsAll, List.append_nil]; exact h⟩
  | cons input rest ih =>
    obtain ⟨globals', hnext⟩ := h.feed input
    obtain ⟨globals'', hall⟩ := ih hnext
    exact ⟨globals'', by rw [Session.visitsAll, ← List.append_assoc]; exact hall⟩

theorem Steady.start (bound : Nat) (settings : Settings) (host : Host) (sink : Sink) :
    ∃ globals, Steady (.startWithin bound settings host sink) globals [] := by
  obtain ⟨hsettled, hrests⟩ := Rests.start ⟨settings, fun v => v ∈ []⟩ standardNatives host sink
  exact ⟨_, ⟨hsettled, hrests, fun _ hv => (nomatch hv), fun _ hv => (nomatch hv), .nil,
    fun word => by cases word <;> rfl, fun _ hv => (nomatch hv)⟩, rfl⟩

end Inputs

end LoxLang
