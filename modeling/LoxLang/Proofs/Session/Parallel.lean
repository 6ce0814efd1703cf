import LoxLang.Proofs.Binding.Accepted
import LoxLang.Proofs.Binding.Alike
import LoxLang.Proofs.Grammar.Renumbering
import LoxLang.Proofs.Machine.Parallel
import LoxLang.Proofs.Token.Tiling
import LoxLang.Session

/-!
# Sessions side by side

Two sessions that differ only in the numbers of the nodes they have read and of those to come
(`Session.Alike`) answer every line alike (`Session.AlikeBetween.runLine`): they tell the same,
write the same and report the same, and they go on to differ in nothing else
(`Session.AlikeBetween.replies`).
-/

namespace LoxLang

variable {l : Likeness}

theorem RunError.Alike.toFault {error error' : RunError} (h : RunError.Alike l error error')
    (hexact : l.Exact) :
    error.toFault = error'.toFault ∧ ∀ t ∈ error.toFault.token?, l.token t t := by
  cases h with
  | @located token _ cause htoken =>
    obtain rfl := hexact _ _ htoken
    refine ⟨rfl, fun t ht => ?_⟩
    cases ht
    exact htoken
  | device => exact ⟨rfl, fun _ ht => nomatch ht⟩

theorem ParseResult.Alike.faults {result result' : ParseResult} (h : result.Alike l result')
    (hexact : l.Exact) :
    result.faults = result'.faults ∧ ∀ fault ∈ result.faults, ∀ t ∈ fault.token?, l.token t t := by
  have herrors := h.errors
  unfold ParseResult.faults
  generalize result.errors = errors, result'.errors = errors' at herrors
  induction herrors with
  | nil => exact ⟨rfl, fun _ hfault => nomatch hfault⟩
  | @cons error error' _ _ herror _ ih =>
    obtain ⟨hrest, htokens⟩ := ih
    have htoken := herror.token
    have hsame : error = error' := by
      cases error
      cases error'
      exact congrArg₂ _ herror.fault (hexact _ _ htoken)
    subst hsame
    refine ⟨by rw [List.map_cons, List.map_cons, hrest], fun fault hfault => ?_⟩
    rcases List.mem_cons.mp hfault with rfl | hfault
    · intro t ht
      cases ht
      exact htoken
    · exact htokens fault hfault

namespace Session

/-- Sessions that differ only in the numbers of nodes. -/
structure Alike (l : Likeness) (s s' : Session) : Prop where
  settings : s.settings = s'.settings
  bound : s.bound = s'.bound
  resolver : s.resolver.Alike l s'.resolver
  distances : l.SameDistances s.distances s'.distances
  machine : Machine.Alike l s.machine s'.machine
  log : s.log.Alike l s'.log
  numbers : ∀ m, l.node (s.nextId + m) (s'.nextId + m)

/-- Runs that tell the same. -/
structure SameRun (l : Likeness) (run run' : Bool × Session) : Prop where
  went : run.1 = run'.1
  session : run.2.Alike l run'.2

/-- Programs, or none, in sessions that are alike. -/
structure SameProgram (l : Likeness) (result result' : Option (List Stmt) × Session) : Prop where
  program : Option.Rel (AlikeBody l) result.1 result'.1
  session : result.2.Alike l result'.2

variable {s s' : Session} {source : String}

theorem Alike.noteDistances {known known' new new' : Distances}
    (hknown : l.SameDistances known known') (hnew : l.SameDistances new new') :
    l.SameDistances (noteDistances known new) (Session.noteDistances known' new') := by
  intro id id' hid
  rw [getElem?_noteDistances, getElem?_noteDistances, hknown id id' hid, hnew id id' hid]

theorem Alike.relog (h : s.Alike l s') {log log' : Log} (hlog : log.Alike l log') :
    Alike l { s with log } { s' with log := log' } :=
  { h with log := hlog }

/-- The tokens of a source, also those of its malformed pieces, correspond to themselves. -/
def Knows (l : Likeness) (source : String) : Prop :=
  ∀ item ∈ Scanned.ofSource source, l.token item.located item.located

theorem Knows.tokens (h : Knows l source) : ∀ t ∈ (scan source).1, l.token t t := by
  intro t ht
  obtain ⟨item, hitem, htoken⟩ := List.mem_filterMap.mp ht
  cases item with
  | token =>
    cases htoken
    exact h _ hitem
  | fault => cases htoken

theorem Knows.faults (h : Knows l source) :
    ∀ fault ∈ (scan source).2, ∀ t ∈ fault.token?, l.token t t := by
  intro fault hfault t ht
  obtain ⟨item, hitem, hlocated⟩ := List.mem_filterMap.mp hfault
  cases item with
  | token => cases hlocated
  | fault =>
    cases hlocated
    cases ht
    exact h _ hitem

theorem Alike.read (hexact : l.Exact) (h : s.Alike l s') {source : String}
    (hknows : Knows l source) (interactive : Bool) :
    SameProgram l (s.read source interactive) (s'.read source interactive) := by
  have hparsed := Parse.program_alike interactive
    (List.forall₂_same.mpr hknows.tokens : List.Forall₂ l.token (scan source).1 _) h.numbers
  obtain ⟨hscanned, htokens⟩ := h.log.addFaults hknows.faults
  have hlog : (s.log.addFaults (scan source).2).Alike l (s.log.addFaults (scan source).2) :=
    ⟨rfl, htokens⟩
  unfold Session.read
  dsimp only
  rw [← hscanned]
  split
  · exact ⟨.none, h.relog hlog⟩
  · obtain ⟨hsame, hfaults⟩ := hparsed.faults hexact
    rw [← hsame]
    exact ⟨hparsed.statements,
      { h.relog (hlog.addFaults hfaults) with numbers := hparsed.numbers }⟩

theorem Alike.resolve (hexact : l.Exact) (hnodes : l.OneToOne) (h : s.Alike l s')
    {program program' : List Stmt} (hprogram : AlikeBody l program program') :
    SameProgram l (s.resolve program) (s'.resolve program') := by
  have hresult : (s.resolver.resolve s.settings s.log program).Alike l
      (s'.resolver.resolve s'.settings s'.log program') :=
    h.settings ▸ h.resolver.resolve hnodes hprogram fun _ => h.log
  have hlog := hresult.log hexact
  have hdistances := hresult.distances
  unfold Session.resolve
  dsimp only
  generalize s.resolver.resolve s.settings s.log program = result,
    s'.resolver.resolve s'.settings s'.log program' = result' at hresult hlog hdistances ⊢
  obtain ⟨resolver, distances, log⟩ := result
  obtain ⟨resolver', distances', log'⟩ := result'
  cases hdistances with
  | none => exact ⟨.none, { h.relog hlog with resolver := hresult.resolver }⟩
  | some hnew =>
    exact ⟨.some hprogram, { h.relog hlog with
      resolver := hresult.resolver
      distances := noteDistances h.distances hnew }⟩

theorem Alike.interpret (hexact : l.Exact) (h : s.Alike l s') {program program' : List Stmt}
    (hprogram : AlikeBody l program program') :
    SameRun l (s.interpret program) (s'.interpret program') := by
  have hlookup : Lookup.Alike l { distances := s.distances } { distances := s'.distances } :=
    ⟨h.distances, fun _ _ _ => rfl, fun _ _ _ => rfl⟩
  have hrun : SameEnd l
        (s.machine.interpret s.bound { distances := s.distances } program).1
        (s'.machine.interpret s'.bound { distances := s'.distances } program').1 ∧
      Machine.Alike l
        (s.machine.interpret s.bound { distances := s.distances } program).2
        (s'.machine.interpret s'.bound { distances := s'.distances } program').2 :=
    h.bound ▸ Machine.Alike.interpret hlookup s.bound hprogram h.machine
  unfold Session.interpret
  dsimp only
  generalize s.machine.interpret s.bound _ program = result,
    s'.machine.interpret s'.bound _ program' = result' at hrun ⊢
  obtain ⟨ended, machine⟩ := result
  obtain ⟨ended', machine'⟩ := result'
  obtain ⟨hend, hmachine⟩ := hrun
  dsimp only at hend hmachine
  cases hend with
  | ok => exact ⟨rfl, { h with machine := hmachine }⟩
  | error hhalt =>
    have hglobal : machine.isGlobal = machine'.isGlobal := funext fun name => by
      rw [Machine.isGlobal, Machine.isGlobal, Store.isDeclared, Store.isDeclared,
        hmachine.store.slot?_eq]
    have hresolver : (s.resolver.retain machine.isGlobal).Alike l
        (s'.resolver.retain machine'.isGlobal) := by
      rw [hglobal]
      exact h.resolver.retain machine'.isGlobal
    cases hhalt with
    | outOfFuel => exact ⟨rfl, { h with machine := hmachine, resolver := hresolver }⟩
    | error herror =>
      obtain ⟨hsame, htoken⟩ := herror.toFault hexact
      have hlog := h.log.addFault htoken
      exact ⟨rfl, { h.relog (hsame ▸ hlog) with machine := hmachine, resolver := hresolver }⟩

theorem Alike.execute (hexact : l.Exact) (hnodes : l.OneToOne) (h : s.Alike l s')
    {source : String} (hknows : Knows l source) (interactive : Bool) :
    SameRun l (s.execute source interactive) (s'.execute source interactive) := by
  have hread := h.read hexact hknows interactive
  unfold Session.execute Session.accept
  generalize s.read source interactive = result, s'.read source interactive = result' at hread
  obtain ⟨parsed, mid⟩ := result
  obtain ⟨parsed', mid'⟩ := result'
  obtain ⟨hparsed, hmid⟩ := hread
  cases hparsed with
  | none => exact ⟨rfl, hmid⟩
  | @some program program' hprogram =>
    have hresolve := Alike.resolve hexact hnodes hmid hprogram
    dsimp only
    generalize mid.resolve program = result, mid'.resolve program' = result' at hresolve
    obtain ⟨accepted, after⟩ := result
    obtain ⟨accepted', after'⟩ := result'
    obtain ⟨haccepted, hafter⟩ := hresolve
    cases haccepted with
    | none => exact ⟨rfl, hafter⟩
    | some haccepted => exact Alike.interpret hexact hafter haccepted

/-! ## Lines -/

/-- What can be seen of a line: whether it went without a fault, what has been written up to its
end, with the state of the device, and what it reports. -/
structure Reply where
  went : Bool
  sink : Sink
  log : Log

def Reply.of (run : Bool × Session) : Reply := ⟨run.1, run.2.machine.sink, run.2.log⟩

/-- The replies to lines, one after another. -/
def replies (s : Session) : List String → List Reply
  | [] => []
  | line :: rest => .of (s.runLine line) :: (s.runLine line).2.replies rest

/-- Sessions between the same lines: what earlier lines reported does not matter. -/
structure AlikeBetween (l : Likeness) (s s' : Session) : Prop where
  alike : Alike l { s with log := s.log.reset } { s' with log := s'.log.reset }
  knows : ∀ line, Knows l line

theorem Alike.between (h : s.Alike l s') (hknows : ∀ line, Knows l line) : s.AlikeBetween l s' :=
  ⟨h.relog h.log.reset, hknows⟩

/-- A line between the same lines has the same reply. -/
theorem AlikeBetween.runLine (hexact : l.Exact) (hnodes : l.OneToOne) (h : s.AlikeBetween l s')
    (line : String) : SameRun l (s.runLine line) (s'.runLine line) :=
  Alike.execute hexact hnodes h.alike (h.knows line) true

theorem AlikeBetween.replies (hexact : l.Exact) (hnodes : l.OneToOne) (h : s.AlikeBetween l s')
    (lines : List String) : s.replies lines = s'.replies lines := by
  induction lines generalizing s s' with
  | nil => rfl
  | cons line rest ih =>
    obtain ⟨hwent, hafter⟩ := h.runLine hexact hnodes line
    have hreply : Reply.of (s.runLine line) = Reply.of (s'.runLine line) := by
      rw [Reply.of, Reply.of, hwent, hafter.machine.sink, hafter.log.same]
    rw [Session.replies, Session.replies, hreply, ih (hafter.between h.knows)]

end Session

end LoxLang
