import LoxLang.Proofs.Session.Turns

/-!
# Isolated closures

A function whose names are all bound inside of it is called again and again at a prompt, and what it
hands back is called in turn, in whatever order. Each of these things goes its own way: what is
replied to the calls of one of them depends on these calls alone (`replies_of_closure`). The session
is compared, for each name, to another one in which no other name is ever mentioned (`Shared`).
-/

namespace LoxLang

/-- A line that is typed in the course of a session, and the name that it concerns. -/
structure Turn extends Entry where
  name : String
  host : Host

/-- The line makes something of the name or calls it, and is nothing else. -/
def Turn.Fits (make : String) (turn : Turn) : Prop :=
  ∃ line ∈ callLine? turn.line, line.Concerns make turn.name

instance (make : String) (turn : Turn) : Decidable (turn.Fits make) :=
  inferInstanceAs (Decidable (∃ line ∈ _, _))

/-- The lines that concern a name. -/
def entriesOf (name : String) (turns : List Turn) : List Entry :=
  (turns.filter (·.name = name)).map Turn.toEntry

theorem entriesOf_cons (name : String) (turn : Turn) (rest : List Turn) :
    entriesOf name (turn :: rest) =
      if turn.name = name then turn.toEntry :: entriesOf name rest else entriesOf name rest := by
  rw [entriesOf, List.filter_cons]
  by_cases heq : turn.name = name
  · rw [if_pos (decide_eq_true heq), if_pos heq]
    rfl
  · rw [if_neg (by simpa using heq), if_neg heq]
    rfl

namespace Session

/-- The replies to the lines that concern a name, in the course of a session. -/
def repliesOf (name : String) (s : Session) : List Turn → List Reply
  | [] => []
  | turn :: rest =>
    let run := s.enter turn.host turn.toEntry
    if turn.name = name then .of run :: run.2.repliesOf name rest else run.2.repliesOf name rest

/-- The replies to lines that are typed one after another. -/
def repliesTo (host : Host) (s : Session) : List Entry → List Reply
  | [] => []
  | entry :: rest => .of (s.enter host entry) :: (s.enter host entry).2.repliesTo host rest

end Session

section Counterparts

variable {region : Region} {maker : Maker} {make name other : String} {p : Matching}
  {s s' : Session} {entry : Entry} {host host' : Host}

theorem Counterparts.behind (h : Counterparts region maker make name p s s') (hne : name ≠ make)
    (hentered : EnteredAlike region name p s s' (s.enter host entry) (s'.enter host' entry)) :
    ∃ q, Counterparts region maker make name q (s.enter host entry).2 (s'.enter host' entry).2 ∧
      s'.machine.store.ChangesAt p.OnRight name (s'.enter host' entry).2.machine.store
        q.OnRight := by
  obtain ⟨q, hmoved⟩ := hentered.moved
  refine ⟨q, ⟨hentered.bound, congrArg (·.log.cap) hentered.reply, hentered.ready, ?_,
    h.machine.behind hne hmoved, h.covers.enter host entry, h.covers'.enter host' entry⟩,
    hmoved.changes'⟩
  rw [hentered.kept make hne.symm, hentered.kept' make hne.symm, h.readyMake]

/-- A line that concerns another name. -/
theorem Counterparts.stays (h : Counterparts region maker make other p s s') {t : Session}
    {p' q' : Matching}
    (hentered : EnteredAlike region name p' t s' (t.enter host entry) (s'.enter host' entry))
    (hchanges : s'.machine.store.ChangesAt p'.OnRight name
      (s'.enter host' entry).2.machine.store q'.OnRight)
    (hne : other ≠ name) (hmake : name ≠ make) (hapart : ∀ r, p.OnRight r → ¬p'.OnRight r)
    (haside : ¬p'.OnRight maker.place) :
    Counterparts region maker make other p s (s'.enter host' entry).2 ∧
      ∀ r, p.OnRight r → ¬q'.OnRight r := by
  obtain ⟨hmachine, hapart'⟩ := h.machine.stays hchanges hne hmake hapart haside
  exact ⟨⟨h.bound.trans hentered.bound'.symm, h.cap.trans hentered.cap'.symm,
    h.ready.trans (hentered.kept' other hne).symm,
    h.readyMake.trans (hentered.kept' make hmake.symm).symm, hmachine, h.covers,
    h.covers'.enter host' entry⟩, hapart'⟩

end Counterparts

/-! ## Many names -/

/-- One session, and for each of some names another one with which it has in common what the name
stands for. What it has in common with different ones is different. -/
structure Shared (region : Region) (maker : Maker) (make : String) (names : String → Prop)
    (p : String → Matching) (alone : String → Session) (s : Session) : Prop where
  counterparts : ∀ name, names name → Counterparts region maker make name (p name) (alone name) s
  apart : ∀ name other, names name → names other → name ≠ other →
    ∀ r, (p name).OnRight r → ¬(p other).OnRight r

section Shared

variable {region : Region} {maker : Maker} {make : String} {names : String → Prop}

/-- Nothing but the name is shared at first. -/
theorem Shared.start {s : Session} (hcovers : s.Covers region)
    (hknown : maker.In make s.machine.store)
    (hnew : ∀ name, names name → s.machine.store.slot? globalFrame name = none) :
    Shared region maker make names (fun _ => .empty) (fun _ => s) s where
  counterparts name hname := by
    refine ⟨rfl, rfl, rfl, rfl, ⟨fun _ _ h => h.elim, ?_, ?_, ?_, ?_, ?_, hknown, hknown⟩, hcovers,
      hcovers⟩
    · rw [hnew name hname]
      exact .none
    all_goals exact fun ⟨_, h⟩ => h
  apart _ _ _ _ _ _ := fun ⟨_, h⟩ => h.elim

variable (hinner : ∀ v, region.visited v → ∀ hops, v.hops? = some hops →
    hops + region.outside < v.scopes.length)
  (hmaker : maker.Inside region) (hmake : ¬names make)

include hinner hmaker hmake

theorem Shared.enter {p : String → Matching} {alone : String → Session} {s : Session}
    (h : Shared region maker make names p alone s) {turn : Turn} (hfits : turn.Fits make)
    (hname : names turn.name) (host : Host) :
    Session.Reply.of ((alone turn.name).enter host turn.toEntry) =
        Session.Reply.of (s.enter turn.host turn.toEntry) ∧
      ∃ q, Shared region maker make names (Function.update p turn.name q)
        (Function.update alone turn.name ((alone turn.name).enter host turn.toEntry).2)
        (s.enter turn.host turn.toEntry).2 := by
  obtain ⟨line, hline, hconcerns⟩ := hfits
  have hne : turn.name ≠ make := fun heq => hmake (heq ▸ hname)
  have hown := h.counterparts turn.name hname
  have hentered := hown.enter hinner hmaker hne hline hconcerns host turn.host
  obtain ⟨q, hbehind, hchanges⟩ := hown.behind hne hentered
  have hothers name (hother : names name) (hdiffers : name ≠ turn.name) :=
    (h.counterparts name hother).stays hentered hchanges hdiffers hne
      (h.apart name turn.name hother hname hdiffers) hown.machine.aside'
  refine ⟨hentered.reply, q, ⟨fun name hnamed => ?_, fun name other hnamed hother hdiffers r => ?_⟩⟩
  · by_cases heq : name = turn.name
    · subst heq
      rw [Function.update_self, Function.update_self]
      exact hbehind
    · rw [Function.update_of_ne heq, Function.update_of_ne heq]
      exact (hothers name hnamed heq).1
  · by_cases heq : name = turn.name
    · have hother' : other ≠ turn.name := fun h => hdiffers (heq.trans h.symm)
      rw [heq, Function.update_self, Function.update_of_ne hother']
      exact fun hq hp => (hothers other hother hother').2 r hp hq
    · rw [Function.update_of_ne heq]
      by_cases heq' : other = turn.name
      · rw [heq', Function.update_self]
        exact (hothers name hnamed heq).2 r
      · rw [Function.update_of_ne heq']
        exact h.apart name other hnamed hother hdiffers r

/-- The replies to the lines that concern a name are those of a session that is told nothing
else. -/
theorem Shared.repliesOf {p : String → Matching} {alone : String → Session} {s : Session}
    (h : Shared region maker make names p alone s) {turns : List Turn}
    (hturns : ∀ turn ∈ turns, turn.Fits make ∧ names turn.name) {name : String} (host : Host) :
    s.repliesOf name turns = (alone name).repliesTo host (entriesOf name turns) := by
  induction turns generalizing p alone s with
  | nil => rfl
  | cons turn rest ih =>
    obtain ⟨⟨hfits, hname⟩, hrest⟩ := List.forall_mem_cons.mp hturns
    obtain ⟨hreply, q, hnext⟩ := h.enter hinner hmaker hmake hfits hname host
    have hreplies := ih hnext hrest
    rw [Session.repliesOf, hreplies]
    rw [entriesOf_cons]
    by_cases heq : turn.name = name
    · subst heq
      rw [if_pos rfl, if_pos rfl, Function.update_self, ← hreply, Session.repliesTo]
    · rw [if_neg heq, if_neg heq, Function.update_of_ne (Ne.symm heq)]

end Shared

/-- A closed function can be cut off from all that lies around it. -/
theorem Steady.exists_inside {s : Session} {globals : StaticScope} {visits : List Visit}
    (h : Steady s globals visits) {maker : Maker} {make : String}
    (hknown : maker.In make s.machine.store) (hplain : maker.isInitializer = false)
    (hclosed : ClosedFunction maker.params maker.body) : ∃ region : Region,
      maker.Inside region ∧ s.Covers region ∧
        ∀ v, region.visited v → ∀ hops, v.hops? = some hops →
          hops + region.outside < v.scopes.length := by
  have hfits : ∃ ribs, FunctionFits (s.record visits) maker.params maker.body ribs := by
    cases maker with
    | function id c =>
      obtain ⟨ribs, -, hfits⟩ :=
        (h.rests.sound.functions (Store.function?_of_thing? hknown.thing)).place
      exact ⟨ribs, hfits⟩
    | arrow id c =>
      obtain ⟨ribs, -, hfits⟩ := h.rests.sound.arrows (Store.arrow?_of_thing? hknown.thing)
      exact ⟨ribs, hfits⟩
  obtain ⟨ribs, hfits⟩ := hfits
  exact ⟨(s.record visits).within ribs.length,
    ⟨hplain, ribs, hfits.within hclosed, Nat.sub_self _⟩,
    ⟨globals, visits, h, fun _ hv => hv.1⟩, fun _ hv => hv.2⟩

/-- After whatever inputs, let a global name stand for a function in which all names, those in the
functions inside of it included, are bound inside of it. Lines are typed at a prompt that bind new
names to what the function hands back for plain arguments, or that call one of these names with
plain arguments and print what comes of it. The replies to the lines that concern one of the new
names are as if nothing had been typed but these lines: it does not matter what the other names
stand for, nor whether, when and with what they are called, nor what time it is or what is typed for
the program to read. -/
theorem replies_of_closure (bound : Nat) (settings : Settings) (host : Host) (sink : Sink)
    (inputs : List Input) :
    let s := (Session.startWithin bound settings host sink).feedAll inputs
    ∀ {make maker}, s.machine.store.maker? make = some maker → maker.isInitializer = false →
      ClosedFunction maker.params maker.body →
      ∀ {turns : List Turn},
        (∀ turn ∈ turns, turn.Fits make ∧ s.machine.isGlobal turn.name = false) →
        ∀ name host', s.repliesOf name turns = s.repliesTo host' (entriesOf name turns) := by
  intro s make maker hmade hplain hclosed turns hturns name host'
  have hknown := Store.in_of_maker? hmade
  obtain ⟨globals, hstart⟩ := Steady.start bound settings host sink
  obtain ⟨globals, hsteady⟩ := hstart.feedAll inputs
  obtain ⟨region, hmaker, hcovers, hinner⟩ := hsteady.exists_inside hknown hplain hclosed
  have hmake : ¬s.machine.isGlobal make = false := fun hnew => by
    obtain ⟨_, hslot⟩ := hknown.slot
    rw [Machine.isGlobal, Store.isDeclared, hslot] at hnew
    cases hnew
  have hshared : Shared region maker make (fun name => s.machine.isGlobal name = false)
      (fun _ => .empty) (fun _ => s) s :=
    .start hcovers hknown fun name hnew => by
      rw [Machine.isGlobal, Store.isDeclared] at hnew
      simpa using hnew
  exact hshared.repliesOf hinner hmaker hmake hturns host'

def countingSource : String :=
  "fun make(i) \x7b fun count(d) \x7b i = i + d; return i; \x7d return count; \x7d"

/-- A session with a function that makes counters. -/
def counting : Session :=
  (Session.startWithin 40 {} ⟨(0.0 : Float), []⟩ {}).feedAll [.program countingSource]

/-- Two counters that are made and called by turns. -/
def countingTurns : List Turn :=
  [("c", "var c = make(0);"), ("d", "const d = make(7);"), ("c", "print c(1);"),
    ("d", "print d(5);"), ("c", "c(1)")].map fun (name, line) =>
      ⟨⟨line, {}⟩, name, ⟨(0.0 : Float), []⟩⟩

theorem replies_of_counter :
    counting.repliesOf "c" countingTurns =
        counting.repliesTo ⟨(0.0 : Float), []⟩ (entriesOf "c" countingTurns) ∧
      (counting.repliesOf "c" countingTurns).map (·.sink.text) = ["", "1", "2\n"] := by
  have hmade : ((counting.machine.store.maker? "make").any fun maker =>
      !maker.isInitializer && decide (ClosedFunction maker.params maker.body)) = true := by
    decide +kernel
  have hturns : ∀ turn ∈ countingTurns,
      turn.Fits "make" ∧ counting.machine.isGlobal turn.name = false := by decide +kernel
  obtain ⟨maker, hmaker, hcloses⟩ := (Option.any_eq_true _ _).mp hmade
  obtain ⟨hplain, hclosed⟩ := Bool.and_eq_true_iff.mp hcloses
  have hreplies := @replies_of_closure 40 {} ⟨(0.0 : Float), []⟩ {} [.program countingSource] "make"
    maker
  rw [← counting] at hreplies
  exact ⟨hreplies hmaker (by simpa using hplain) (of_decide_eq_true hclosed) hturns "c"
    ⟨(0.0 : Float), []⟩, by decide +kernel⟩

end LoxLang
