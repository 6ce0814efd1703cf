import LoxLang.Proofs.Session.Parallel
import LoxLang.Proofs.Session.Steady
import LoxLang.Proofs.Session.WellFormed

/-!
# Rejected lines

A line that the scanner, the grammar or the analysis rejects changes nothing but the log, which the
next line discards, and the number of the next node. No code in the store and no distance knows a
number that has not been given yet (`Session.Fresh`), so the session that did not see the line is
alike to the one that did, with all later numbers shifted, and every later line has the same reply
(`rejected_line`).
-/

namespace LoxLang

/-! ## Numbers that have not been given -/

/-- The nodes below a number correspond to themselves, and no others. -/
def Likeness.below (n : NodeId) : Likeness := ofNodes fun i j => i = j ∧ i < n

/-- The nodes below a number stay, and the others are shifted. -/
def Likeness.shifted (n shift : Nat) : Likeness :=
  ofNodes fun i j => i < n ∧ j = i ∨ n ≤ i ∧ j = i + shift

theorem Likeness.below_refines {n n' : NodeId} (h : n ≤ n') : (below n).Refines (below n') :=
  ⟨fun _ _ ht => ht, fun _ _ hid => ⟨hid.1, Nat.lt_of_lt_of_le hid.2 h⟩⟩

theorem Likeness.below_refines_shifted (n shift : Nat) : (below n).Refines (shifted n shift) :=
  ⟨fun _ _ ht => ht, fun _ _ hid => .inl ⟨hid.2, hid.1.symm⟩⟩

theorem Likeness.oneToOne_shifted (n shift : Nat) : (shifted n shift).OneToOne := by
  have hshifted (i j i' j' : Nat) : i < n ∧ j = i ∨ n ≤ i ∧ j = i + shift →
      i' < n ∧ j' = i' ∨ n ≤ i' ∧ j' = i' + shift → (i = i' ↔ j = j') := by
    omega
  exact fun {i j i' j'} => hshifted i j i' j'

/-- A program whose nodes are below a number. -/
structure Below (n : NodeId) (program : List Stmt) : Prop where
  alike : AlikeBody (.below n) program program
  regular : RegularBody program
  below : ∀ r ∈ referencesOfBody program, r.id < n

theorem Parse.program_below {interactive : Bool} {firstId : NodeId} {tokens : List Token}
    {program : List Stmt} (htokens : ∀ t ∈ tokens, t.Spelled)
    (h : (Parse.program interactive firstId tokens).statements = some program) :
    Below (Parse.program interactive firstId tokens).nextId program := by
  have hmade := Parse.program_made htokens h
  have hbelow : ∀ r ∈ referencesOfBody program,
      r.id < (Parse.program interactive firstId tokens).nextId := fun r hr => (hmade.within r hr).2
  have hself : (Parse.program interactive firstId tokens).Alike (.ofNodes Eq)
      (Parse.program interactive firstId tokens) :=
    Parse.program_alike interactive (List.forall₂_same.mpr fun _ _ => rfl) fun _ => rfl
  have hstatements := hself.statements
  rw [h] at hstatements
  cases hstatements with
  | some hsame =>
    exact ⟨hsame.imp ⟨fun _ _ ht => ht, fun r hr _ hid => ⟨hid, hbelow r hr⟩⟩,
      hmade.regular, hbelow⟩

namespace Session

/-- A session that knows no number that has not been given yet. -/
structure Fresh (s : Session) : Prop where
  machine : Machine.Alike (.below s.nextId) s.machine s.machine
  distances : ∀ id, s.nextId ≤ id → s.distances[id]? = none

variable {s : Session}

theorem Fresh.relog (h : s.Fresh) (log : Log) {nextId : NodeId} (hle : s.nextId ≤ nextId) :
    Fresh { s with log, nextId } :=
  ⟨h.machine.imp (Likeness.below_refines hle), fun id hid => h.distances id (Nat.le_trans hle hid)⟩

theorem Fresh.read (h : s.Fresh) (source : String) (interactive : Bool) :
    (s.read source interactive).2.Fresh ∧
      ∀ program ∈ (s.read source interactive).1,
        Below (s.read source interactive).2.nextId program := by
  unfold Session.read
  dsimp only
  split
  · exact ⟨h.relog _ (Nat.le_refl _), nofun⟩
  · have hspelled := spelled_scan source
    exact ⟨h.relog _ (Parse.firstId_le_nextId hspelled), fun _ => Parse.program_below hspelled⟩

theorem Fresh.readInput (h : s.Fresh) (input : Input) :
    (s.readInput input).2.Fresh ∧
      ∀ program ∈ (s.readInput input).1, Below (s.readInput input).2.nextId program := by
  cases input with
  | program source => exact h.read source false
  | line source => exact (h.relog s.log.reset (Nat.le_refl _)).read source true
  | outside host sink => exact ⟨⟨{ h.machine with host := rfl, sink := rfl }, h.distances⟩, nofun⟩

theorem Fresh.resolve (h : s.Fresh) {program : List Stmt} (hprogram : Below s.nextId program) :
    (s.resolve program).2.Fresh ∧
      ∀ accepted ∈ (s.resolve program).1, Below (s.resolve program).2.nextId accepted := by
  unfold Session.resolve
  dsimp only
  cases hdistances : (s.resolver.resolve s.settings s.log program).distances with
  | none => exact ⟨⟨h.machine, h.distances⟩, nofun⟩
  | some table =>
    refine ⟨⟨h.machine, fun id hid => ?_⟩, fun _ haccepted => Option.some.inj haccepted ▸ hprogram⟩
    have hfar : table[id]? = none :=
      Resolver.getElem?_of_not_visited hprogram.regular hdistances fun v hv heq => by
        obtain ⟨r, hr, hrid⟩ := (analysedBody s.settings program _ hprogram.regular).origin v hv
        exact absurd (hrid.trans heq ▸ hprogram.below r hr) (Nat.not_lt.mpr hid)
    rw [getElem?_noteDistances, hfar, Option.none_or]
    exact h.distances id hid

theorem Fresh.interpret (h : s.Fresh) {program : List Stmt} (hprogram : Below s.nextId program) :
    (s.interpret program).2.Fresh := by
  have hlookup : Lookup.Alike (.below s.nextId) { distances := s.distances }
      { distances := s.distances } :=
    ⟨fun _ _ hid => congrArg (s.distances[·]?) hid.1, fun _ _ _ => rfl, fun _ _ _ => rfl⟩
  have hmachine := (Machine.Alike.interpret hlookup s.bound hprogram.alike h.machine).2
  rw [← machine_interpret] at hmachine
  obtain ⟨ended, after, hrun⟩ := s.exists_interpret program
  rw [hrun] at hmachine ⊢
  cases ended <;> exact ⟨hmachine, h.distances⟩

theorem Fresh.feed (h : s.Fresh) (input : Input) : (s.feed input).Fresh := by
  obtain ⟨hread, hbelow⟩ := h.readInput input
  rw [feed_eq]
  unfold take
  cases hinput : s.readInput input with
  | mk parsed mid =>
    rw [hinput] at hread hbelow
    cases parsed with
    | none => exact hread
    | some program =>
      obtain ⟨hresolve, hbelow⟩ := hread.resolve (hbelow program rfl)
      dsimp only
      cases hresolved : mid.resolve program with
      | mk accepted after =>
        rw [hresolved] at hresolve hbelow
        cases accepted with
        | none => exact hresolve
        | some accepted => exact hresolve.interpret (hbelow accepted rfl)

theorem Fresh.feedAll (h : s.Fresh) (inputs : List Input) : (s.feedAll inputs).Fresh := by
  induction inputs generalizing s with
  | nil => exact h
  | cons input rest ih => exact ih (h.feed input)

theorem Fresh.start (bound : Nat) (settings : Settings) (host : Host) (sink : Sink) :
    (startWithin bound settings host sink).Fresh :=
  ⟨.start standardNatives host sink, fun _ _ => Std.TreeMap.getElem?_emptyc⟩

/-! ## A line that is rejected -/

/-- A session that knows no new numbers is alike to itself with numbers passed over. -/
theorem Fresh.between (h : s.Fresh) {log : Log} (hcap : log.cap = s.log.cap) (shift : Nat) :
    AlikeBetween (.shifted s.nextId shift) s { s with log, nextId := s.nextId + shift } where
  alike :=
    { settings := rfl
      bound := rfl
      resolver := .refl (fun _ => rfl) _
      distances := by
        rintro id _ (⟨hid, rfl⟩ | ⟨hid, rfl⟩)
        · rfl
        · exact (h.distances id hid).trans (h.distances _ (Nat.le_add_right_of_le hid)).symm
      machine := h.machine.imp (Likeness.below_refines_shifted _ _)
      log := by
        rw [Log.reset, Log.reset, hcap]
        exact .empty s.log.cap
      numbers m := .inr ⟨Nat.le_add_right _ _, Nat.add_right_comm _ _ _⟩ }
  knows _ _ _ := rfl

/-- A session in which only the log and the number of the next node have changed. -/
def Relogged (s after : Session) : Prop :=
  ∃ log nextId, log.cap = s.log.cap ∧ s.nextId ≤ nextId ∧ after = { s with log, nextId }

theorem relogged_read (s : Session) (source : String) (interactive : Bool) :
    s.Relogged (s.read source interactive).2 := by
  unfold read
  dsimp only
  split
  · exact ⟨_, _, Log.cap_addFaults _ _, Nat.le_refl _, rfl⟩
  · exact ⟨_, _, (Log.cap_addFaults _ _).trans (Log.cap_addFaults _ _),
      Parse.firstId_le_nextId (spelled_scan source), rfl⟩

/-- The analysis of a program that it rejects. -/
theorem relogged_resolve {program : List Stmt} (hformed : WellFormedBody program false)
    (h : (s.resolve program).1 = none) (hresolver : (s.resolve program).2.resolver = s.resolver) :
    s.Relogged (s.resolve program).2 := by
  have hcap := (s.resolver.reports_resolve s.settings s.log hformed).1.cap
  unfold resolve at h hresolver ⊢
  dsimp only at h hresolver ⊢
  split at h
  · next hnone =>
    simp only [hnone] at hresolver
    exact ⟨_, _, hcap, Nat.le_refl _, by rw [hresolver]⟩
  · cases h

theorem Relogged.trans {before mid : Session} (h : before.Relogged mid) (h' : mid.Relogged s) :
    before.Relogged s := by
  obtain ⟨log, nextId, hcap, hle, rfl⟩ := h
  obtain ⟨log', nextId', hcap', hle', rfl⟩ := h'
  exact ⟨log', nextId', hcap'.trans hcap, Nat.le_trans hle hle', rfl⟩

/-- A line that is rejected in a steady session. -/
theorem relogged_take {globals : StaticScope} {visits : List Visit}
    (hsteady : Steady s globals visits)
    {line : String} (h : (s.take (.line line)).1 = none) : s.Relogged (s.take (.line line)).2 := by
  have hread : s.Relogged (s.readInput (.line line)).2 :=
    Relogged.trans ⟨s.log.reset, s.nextId, rfl, Nat.le_refl _, rfl⟩ (relogged_read _ line true)
  have hformed := (read_wellFormed { s with log := s.log.reset } line true).2
  have hafter := hsteady.take (.line line)
  unfold take at h hafter ⊢
  cases hinput : s.readInput (.line line) with
  | mk parsed mid =>
    rw [hinput] at hread h hafter
    cases parsed with
    | none => exact hread
    | some program =>
      dsimp only at h hafter ⊢
      refine hread.trans (relogged_resolve (hformed program (congrArg Prod.fst hinput)) h ?_)
      cases hresolved : mid.resolve program with
      | mk accepted after =>
        rw [hresolved] at h hafter
        cases h
        obtain ⟨_, _, -, -, rfl⟩ := hread
        exact hafter.1.resolver.trans hsteady.resolver.symm

end Session

/-- A line that the scanner, the grammar or the analysis rejects, after whatever inputs, changes
nothing of the session but its log and the number of the next node: the machine with its globals and
its output, the globals of the analysis and the distances are as before. And whatever lines follow,
the replies to them are as if the line had not been there. -/
theorem rejected_line (bound : Nat) (settings : Settings) (host : Host) (sink : Sink)
    (inputs : List Input) (line : String) :
    let s := (Session.startWithin bound settings host sink).feedAll inputs
    (s.take (.line line)).1 = none →
      (∃ log nextId, s.runLine line = (false, { s with log, nextId })) ∧
        ∀ lines, (s.runLine line).2.replies lines = s.replies lines := by
  intro s h
  obtain ⟨globals, hstart⟩ := Steady.start bound settings host sink
  obtain ⟨globals, hsteady⟩ := hstart.feedAll inputs
  have hfresh : s.Fresh := (Session.Fresh.start bound settings host sink).feedAll inputs
  obtain ⟨log, nextId, hcap, hle, hafter⟩ := Session.relogged_take hsteady h
  have hrun : s.runLine line = (false, { s with log, nextId }) := by
    have haccept : Session.accept { s with log := s.log.reset } line true =
        (none, { s with log, nextId }) := Prod.ext h hafter
    rw [Session.runLine, Session.execute, haccept]
  refine ⟨⟨log, nextId, hrun⟩, fun lines => ?_⟩
  obtain ⟨shift, rfl⟩ := Nat.exists_eq_add_of_le hle
  rw [hrun]
  exact ((hfresh.between hcap shift).replies (fun _ _ ht => ht)
    (Likeness.oneToOne_shifted _ _) lines).symm

/-- A line that declares a name and uses one in its own initializer, and lines behind it. -/
theorem rejected_line_declaring :
    let s := (Session.startWithin 30 {} ⟨(0.0 : Float), []⟩ {}).feedAll [.line "var a = 1;"]
    (s.take (.line "var b = a; var c = c;")).1 = none ∧
      (∃ log nextId, s.runLine "var b = a; var c = c;" = (false, { s with log, nextId })) ∧
      (s.runLine "var b = a; var c = c;").2.replies ["var b = a;", "print b;"] =
        s.replies ["var b = a;", "print b;"] ∧
      (s.replies ["var b = a;", "print b;"]).map Session.Reply.went = [true, true] := by
  intro s
  have hrejected : (s.take (.line "var b = a; var c = c;")).1 = none :=
    Option.isNone_iff_eq_none.mp (by decide +kernel)
  obtain ⟨hchanged, hreplies⟩ := rejected_line 30 {} ⟨(0.0 : Float), []⟩ {} [.line "var a = 1;"]
    "var b = a; var c = c;" hrejected
  exact ⟨hrejected, hchanged, hreplies _, by decide +kernel⟩

end LoxLang
