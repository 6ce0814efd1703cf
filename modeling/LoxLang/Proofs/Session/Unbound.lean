import LoxLang.Proofs.Machine.Watching
import LoxLang.Proofs.Session.Looks

/-!
# Names that are not bound

A node does not find its name just if the analysis came to it inside the initializer of that name
and the frame there does not bind the name yet (`Look.At.unbound_iff`). A run stops for that reason
just if it comes to such a node (`Loaded.unbound_iff`).
-/

namespace LoxLang

/-- The node of a look does not find its name: the frame at its distance does not bind it. -/
def Look.Unbound (look : Look) (table : Distances) : Prop :=
  ∃ hops, table[look.id]? = some hops ∧
    look.store.searchAt look.here hops look.name = .error (Store.unboundError look.name)

/-- A watch for nodes that do not find their names. -/
def unboundAt (table : Distances) (id : NodeId) (name : Token) (m : Machine) : Bool :=
  table[id]?.any fun hops => !(m.store.searchAt m.here hops name).isOk

section Looks

variable {look : Look} {table : Distances} {v : Visit}

theorem Look.At.unbound_iff (h : look.At table v) :
    look.Unbound table ↔ v.Pending ∧ v.Unbound look.store look.here := by
  obtain ⟨hops, hhops, hdistance⟩ := h.distance
  obtain ⟨ribs, hstands, hviews⟩ := h.meets
  obtain ⟨owner, binding, howner, -⟩ := hstands.mirrors.target hviews hhops
  have hsearch := searchAt_eq_unbound_iff howner v.name
  constructor
  · rintro ⟨hops', hdistance', hunbound⟩
    cases hdistance.symm.trans hdistance'
    rw [← h.name] at hunbound
    have hfree : v.Unbound look.store look.here :=
      ⟨hops, owner, hhops, howner, hsearch.mp hunbound⟩
    exact ⟨h.meets.pending hfree, hfree⟩
  · rintro ⟨-, hops', owner', hhops', howner', hfree⟩
    cases hhops.symm.trans hhops'
    cases howner.symm.trans howner'
    exact ⟨hops, hdistance, h.name ▸ hsearch.mpr hfree⟩

/-- Straight inside its initializer a name is never bound. -/
theorem Look.At.unbound_of_pending (h : look.At table v) (hpending : v.Pending)
    (hhops : v.hops? = some 0) : look.Unbound table := by
  obtain ⟨ribs, hstands, hviews⟩ := h.meets
  obtain ⟨owner, binding, howner, hbinding, -⟩ := hstands.mirrors.target hviews hhops
  obtain ⟨found, hfound, hdefined⟩ := hpending
  cases hbinding.symm.trans hfound
  obtain ⟨rib, hrib, hstatus⟩ := Visit.exists_rib_of_binding? hviews hbinding
  have hcomplete : binding.status.defined ≠ true := Bool.eq_false_iff.mp hdefined
  have hfree : look.store.isDeclared look.here v.name.lexeme = false := by
    rw [Store.isDeclared_eq, hstands.exact rib (List.head?_eq_getElem? ▸ hrib), Rib.constant?,
      hstatus, Option.bind_some, if_neg hcomplete]
    rfl
  exact h.unbound_iff.mpr ⟨⟨_, hbinding, hdefined⟩, 0, look.here, hhops, rfl, hfree⟩

end Looks

/-! ## Runs -/

section Runs

variable {s : Session} {rib : Rib} {program : List Stmt} {visits : List Visit}

/-- The watch notices the nodes that do not find their names. -/
theorem unboundAt_iff {look : Look} {table : Distances} {m : Machine} (hstore : m.store = look.store)
    (hhere : m.here = look.here) :
    unboundAt table look.id look.name m = true ↔ look.Unbound table := by
  rw [unboundAt, hstore, hhere, Look.Unbound]
  cases table[look.id]? with
  | none => simp
  | some hops =>
    simp only [Option.any_some, Option.some.injEq, exists_eq_left']
    cases hsearch : look.store.searchAt look.here hops look.name with
    | ok found => exact ⟨nofun, nofun⟩
    | error error =>
      cases searchAt_error hsearch
      exact ⟨fun _ => rfl, fun _ => rfl⟩

/-- A run stops because a name is not bound just if it comes to a node that does not find its name.
-/
theorem Loaded.unbound_iff (h : Loaded s rib program visits) (name : String) (token : Token) :
    (s.machine.interpret s.bound { distances := s.distances } program).1 =
        .error (.error (.located (.unbound name) token)) ↔
      name = token.lexeme ∧ ∃ stopsAt look,
        s.machine.look? s.bound { distances := s.distances, stopsAt } program = some look ∧
          look.name = token ∧ look.Unbound s.distances := by
  have hmachine : ∀ stopsAt, Rests (h.course stopsAt) [rib] s.machine := fun _ => h.rests
  constructor
  · intro hfails
    have hwatched :=
      s.machine.interpret_watched s.bound s.distances (unboundAt s.distances) program
    rcases hwatched with hsame | ⟨look, hlook, hfault⟩
    · -- no watch noticed the node, which cannot be
      cases hrun : s.machine.interpret s.bound { distances := s.distances } program with
      | mk result after =>
        rw [hrun] at hfails hsame
        subst hfails
        obtain ⟨v, here, -, hunbound, hreaches⟩ :=
          ((hmachine (unboundAt s.distances)).of_error h.outermost h.fits hsame).1
        obtain ⟨m, hstore, hhere, hpassed⟩ := hreaches.watch
        let look : Look := ⟨v.id, v.name, here, after.store⟩
        have hat : look.At s.distances v := ⟨rfl, hreaches.meets, h.agrees v hreaches.visited⟩
        have hnoticed : unboundAt s.distances v.id v.name m = true :=
          (unboundAt_iff hstore hhere).mpr
            (hat.unbound_iff.mpr ⟨hreaches.meets.pending hunbound, hunbound⟩)
        exact absurd (hnoticed.symm.trans hpassed) nofun
    · obtain ⟨-, v, hid, hname, hreaches⟩ :=
        (hmachine (unboundAt s.distances)).exists_visit h.outermost h.fits hlook
      obtain ⟨m, hstore, hhere, hstops⟩ := hreaches.watch
      obtain ⟨hops, hdistance, hsearch⟩ := (unboundAt_iff hstore hhere).mp (hid ▸ hname ▸ hstops)
      cases hfails.symm.trans (hfault hops _ hdistance hsearch)
      exact ⟨rfl, _, look, hlook, rfl, hops, hdistance, hsearch⟩
  · rintro ⟨rfl, stopsAt, look, hlook, rfl, hops, hdistance, hsearch⟩
    rcases s.machine.interpret_watched s.bound s.distances stopsAt program with
      hsame | ⟨look', hlook', hfault⟩
    · -- without a watch no run stops at a look
      rw [Machine.look?, hsame] at hlook
      obtain ⟨-, v, -, -, hreaches⟩ :=
        (hmachine fun _ _ _ => false).exists_visit h.outermost h.fits hlook
      obtain ⟨m, -, -, hstops⟩ := hreaches.watch
      cases hstops
    · cases hlook.symm.trans hlook'
      exact hfault hops _ hdistance hsearch

theorem Steady.unbound_iff {globals : StaticScope} (h : Steady s globals visits) (input : Input)
    (name : String) (token : Token) :
    s.outcome input = some (.error (.error (.located (.unbound name) token))) ↔
      name = token.lexeme ∧ ∃ stopsAt look, s.look? input stopsAt = some look ∧
        look.name = token ∧ look.Unbound (s.table input) := by
  have htake := h.take input
  unfold Session.outcome Session.look? Session.table
  cases htaken : s.take input with
  | mk taken after =>
    rw [htaken] at htake
    cases taken with
    | none => simp
    | some program => exact Option.some_inj.trans (htake.unbound_iff name token)

end Runs

/-- In whatever input and after whatever inputs, a node of an accepted program does not find its
name just if it was visited inside the initializer of that name and the frame there does not bind
the name yet, as no frame does straight inside the initializer; and a run ends with that fault just
if it comes to such a node. -/
theorem unbound_iff_pending (bound : Nat) (settings : Settings) (host : Host) (sink : Sink)
    (inputs : List Input) (input : Input) :
    let s := (Session.startWithin bound settings host sink).feedAll inputs
    let visits := (Session.startWithin bound settings host sink).visitsAll (inputs ++ [input])
    (∀ stopsAt look, s.look? input stopsAt = some look → ∀ v ∈ visits, v.id = look.id →
        (look.Unbound (s.table input) ↔ v.Pending ∧ v.Unbound look.store look.here) ∧
          (v.Pending → v.hops? = some 0 → look.Unbound (s.table input))) ∧
      ∀ name token, s.outcome input = some (.error (.error (.located (.unbound name) token))) ↔
        name = token.lexeme ∧ ∃ stopsAt look, s.look? input stopsAt = some look ∧
          look.name = token ∧ look.Unbound (s.table input) := by
  intro s visits
  obtain ⟨globals, hstart⟩ := Steady.start bound settings host sink
  obtain ⟨globals', hsteady⟩ := hstart.feedAll inputs
  refine ⟨fun stopsAt look hlook v hv hid => ?_, hsteady.unbound_iff input⟩
  obtain ⟨-, -, hat⟩ := hsteady.look hlook
  rw [List.nil_append, ← Session.visitsAll_append] at hat
  have hhere := hat v hv hid
  exact ⟨hhere.unbound_iff, hhere.unbound_of_pending⟩

/-- The value of an initializer assigns to the name itself. -/
theorem unbound_in_own_initializer :
    ∃ token, (Session.startWithin 30 {} ⟨(0.0 : Float), []⟩ {}).outcome (.line "var a = a = nil;") =
      some (.error (.error (.located (.unbound token.lexeme) token))) := by
  let s := Session.startWithin 30 {} ⟨(0.0 : Float), []⟩ {}
  let input : Input := .line "var a = a = nil;"
  obtain ⟨look, hlook, hnoticed⟩ := (Option.any_eq_true _ _).mp
    (show ((s.look? input fun _ _ _ => true).any fun look => unboundAt (s.table input) look.id
      look.name { s.machine with store := look.store, here := look.here }) = true by decide +kernel)
  have hunbound : look.Unbound (s.table input) := (unboundAt_iff rfl rfl).mp hnoticed
  exact ⟨look.name, ((unbound_iff_pending 30 {} ⟨(0.0 : Float), []⟩ {} [] input).2 _ _).mpr
    ⟨rfl, _, look, hlook, rfl, hunbound⟩⟩

end LoxLang
