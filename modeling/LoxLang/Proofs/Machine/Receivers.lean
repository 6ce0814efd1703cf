import LoxLang.Proofs.Machine.Inheritance
import LoxLang.Proofs.Machine.Lying

/-!
# The objects that bodies work on

The nearest frame of an object, on the way out from a frame, says which object is worked on there
(`Store.WorksOn`). The word for it is looked up in this very frame (`Placed.readName_this`), because
the analysis found it in the nearest scope of an object. While the body of a call runs, up to the
bodies that it calls, the object stays the same (`Eval.Contains.worksOn`).
-/

namespace LoxLang

/-- The nearest frame of an object, on the way out, is that of the given one. -/
inductive Store.WorksOn (s : Store) (object : InstanceId) : FrameId → Prop
  | here {id : FrameId} (h : s.Receives id object) : WorksOn s object id
  | outward {id outer : FrameId} {frame : Frame} (hframe : s.frame? id = some frame)
    (hkind : frame.kind.isReceiver = false) (houter : frame.outer = some outer)
    (h : WorksOn s object outer) : WorksOn s object id

namespace Store

variable {s t : Store} {object other : InstanceId} {id : FrameId}

theorem Receives.endures (h : s.Receives id object) (hle : s.Endures t) : t.Receives id object := by
  obtain ⟨frame, hframe, hreceiver, hthis⟩ := h
  obtain ⟨after, hafter, hgrows⟩ := hle.frame hframe
  exact ⟨after, hafter, hgrows.kind ▸ hreceiver, hgrows.fixed hthis rfl⟩

theorem WorksOn.endures (h : s.WorksOn object id) (hle : s.Endures t) : t.WorksOn object id := by
  induction h with
  | here h => exact .here (h.endures hle)
  | outward hframe hkind houter _ ih =>
    obtain ⟨after, hafter, hgrows⟩ := hle.frame hframe
    exact .outward hafter (hgrows.kind ▸ hkind) (hgrows.outer.trans houter) ih

theorem WorksOn.unique (h : s.WorksOn object id) (h' : s.WorksOn other id) : object = other := by
  induction h with
  | here h =>
    obtain ⟨frame, hframe, hreceiver, hthis⟩ := h
    cases h' with
    | here h' =>
      obtain ⟨frame', hframe', -, hthis'⟩ := h'
      cases hframe.symm.trans hframe'
      cases hthis.symm.trans hthis'
      rfl
    | outward hframe' hkind' =>
      cases hframe.symm.trans hframe'
      exact (Bool.false_ne_true (hkind'.symm.trans hreceiver)).elim
  | outward hframe hkind houter _ ih =>
    cases h' with
    | here h' =>
      obtain ⟨frame', hframe', hreceiver, -⟩ := h'
      cases hframe.symm.trans hframe'
      exact (Bool.false_ne_true (hkind.symm.trans hreceiver)).elim
    | outward hframe' _ houter' h' =>
      cases hframe.symm.trans hframe'
      cases houter.symm.trans houter'
      exact ih h'

end Store

/-- The first frame of an object on the way out from a frame that mirrors ribs. -/
theorem Mirrors.worksOn {s : Store} {id : FrameId} {ribs : List Rib} (h : Mirrors s id ribs)
    (hs : s.Whole) {hops : Nat} {rib : Rib} (hrib : ribs[hops]? = some rib)
    (hreceiver : rib.kind.isReceiver)
    (hbefore : ∀ i < hops, ∀ rib, ribs[i]? = some rib → rib.kind.isReceiver = false) :
    ∃ owner object, s.ancestor? id hops = some owner ∧ s.Receives owner object ∧
      s.WorksOn object id := by
  have hfound {id : FrameId} {frame : Frame} {first : Rib} (hframe : s.frame? id = some frame)
      (hcovers : frame.Covers first) (hfirst : first.kind.isReceiver) :
      ∃ object, s.Receives id object := by
    have hkind : frame.kind.isReceiver := hcovers.kind ▸ hfirst
    obtain ⟨object, portion, -, hnames⟩ := (hs.frames hframe).object hkind
    exact ⟨object, frame, hframe, hkind,
      hnames ▸ Store.Whole.find?_receiverNames_this object portion.base⟩
  induction h generalizing hops with
  | outermost hframe houter hcovers =>
    cases hops with
    | zero =>
      cases hrib
      obtain ⟨object, hobject⟩ := hfound hframe hcovers hreceiver
      exact ⟨_, object, rfl, hobject, .here hobject⟩
    | succ hops => cases hrib
  | @inner id outer frame first rest hframe houter hcovers _ ih =>
    cases hops with
    | zero =>
      cases hrib
      obtain ⟨object, hobject⟩ := hfound hframe hcovers hreceiver
      exact ⟨_, object, rfl, hobject, .here hobject⟩
    | succ hops =>
      obtain ⟨owner, object, howner, hobject, hworks⟩ := ih hrib fun i hi =>
        hbefore (i + 1) (Nat.succ_lt_succ hi)
      have hkind : frame.kind.isReceiver = false :=
        hcovers.kind ▸ hbefore 0 (Nat.succ_pos _) first rfl
      refine ⟨owner, object, ?_, hobject, .outward hframe hkind houter hworks⟩
      simp only [Store.ancestor?, Store.outer?, hframe, Option.bind_some, houter, howner]

/-! ## The words for the object -/

section Words

variable {course : Course} {m : Machine} {ribs : List Rib} {id : NodeId} {keyword : Token}

/-- A word that classes give their methods is looked up in the nearest frame of an object whose class
gives it. -/
theorem NodeFits.readName_word (hnode : NodeFits course id keyword ribs) {word : Keyword}
    (hword : keyword.lexeme = word.text) (hcalm : course.lookup.stopsAt id keyword m = false) :
    ∃ hops rib decl, ribs[hops]? = some rib ∧ rib.kind = .receiver decl ∧ decl.Gives word ∧
      (∀ i < hops, ∀ rib, ribs[i]? = some rib → ∀ decl, rib.kind = .receiver decl →
        ¬decl.Gives word) ∧
      ∀ owner value, m.store.ancestor? m.here hops = some owner →
        m.store.slot? owner word.text = some ⟨some value, true⟩ →
        Eval.readName course.lookup id keyword m = .ok value m := by
  obtain ⟨v, hv, rfl, rfl, hviews⟩ := hnode
  obtain ⟨hops, hhops, hdistance⟩ := course.agrees v hv
  obtain ⟨⟨seen, status, hseen, hstatus⟩, hbefore⟩ := Rib.exists_of_hops? hhops
  have hreserved := course.reserved hv
  rw [hword] at hstatus hbefore
  obtain ⟨decl, hseenKind, hgives⟩ := (hreserved seen (List.mem_of_getElem? hseen) word).mp
    (by rw [hstatus]; rfl)
  obtain ⟨rib, hrib, hkind, -⟩ := Rib.exists_of_views hviews hseen
  refine ⟨hops, rib, decl, hrib, hkind.trans hseenKind, hgives, ?_, ?_⟩
  · intro i hi rib hrib decl hdecl hgives
    obtain ⟨seen, hseen, hkind, -⟩ := Rib.exists_of_views hviews.symm hrib
    have hknown := (hreserved seen (List.mem_of_getElem? hseen) word).mpr
      ⟨decl, hkind.trans hdecl, hgives⟩
    rw [hbefore i hi seen hseen] at hknown
    cases hknown
  · intro owner value howner hslot
    have hread : m.store.getAt m.here hops v.name = .ok value := by
      rw [Store.getAt, Store.searchAt, howner]
      dsimp only
      rw [hword, hslot]
      rfl
    have hwatch : Eval.watch course.lookup v.id v.name m = .ok () m := by
      show (if course.lookup.stopsAt v.id v.name m then
        Eval.stop (.watched v.id v.name m.here) else return ()) m = _
      rw [hcalm]
      rfl
    rw [Eval.readName, bind_of_ok hwatch, Eval.ask, hdistance]
    dsimp only
    rw [hread]

/-- The word for the object is looked up in the nearest frame of an object. -/
theorem Placed.readName_this (h : Placed course ribs m) (hm : m.Whole)
    (hnode : NodeFits course id keyword ribs) (hword : keyword.lexeme = Keyword.this.text)
    (hcalm : course.lookup.stopsAt id keyword m = false) : ∃ object,
    m.store.WorksOn object m.here ∧
      Eval.readName course.lookup id keyword m = .ok (.instance object) m := by
  obtain ⟨hops, rib, decl, hrib, hkind, -, hbefore, hread⟩ := hnode.readName_word hword hcalm
  have hplain : ∀ i < hops, ∀ rib, ribs[i]? = some rib → rib.kind.isReceiver = false := by
    intro i hi rib hrib
    cases hkind : rib.kind with
    | receiver decl => exact (hbefore i hi rib hrib decl hkind trivial).elim
    | _ => rfl
  have hreceiver : rib.kind.isReceiver := by
    rw [hkind]
    rfl
  obtain ⟨owner, object, howner, ⟨frame, hframe, -, hthis⟩, hworks⟩ :=
    h.stands.mirrors.worksOn hm.store hrib hreceiver hplain
  refine ⟨object, hworks, hread owner _ howner ?_⟩
  rw [Store.slot?, hframe]
  exact hthis

theorem Eval.Task.Fits.evaluate_this
    (h : Eval.Task.Fits course m (.evaluate (.this id keyword))) (hm : m.Whole)
    (hcalm : course.lookup.stopsAt id keyword m = false) (fuel : Nat) : ∃ object,
    m.store.WorksOn object m.here ∧
      Eval.evaluate (fuel + 1) course.lookup (.this id keyword) m = .ok (.instance object) m := by
  obtain ⟨ribs, hplaced, hfits | ⟨_, _, heq, -⟩⟩ := h
  case inr => cases heq
  have hnode := hfits.node fun _ _ => rfl
  obtain ⟨a, -, hready⟩ := hfits
  rw [Eval.evaluate]
  exact hplaced.readName_this hm hnode hready.regular hcalm

end Words

/-! ## While a body runs -/

theorem Eval.Task.home_of_not_isBody {task : Eval.Task} (h : task.isBody = false) (m : Machine) :
    task.home m = m.here := by
  cases task
  case callBody => cases h
  all_goals rfl

/-- A call comes to another one without running the body of a further function. -/
inductive Eval.Contains (lookup : Lookup) (fuel : Nat) (task : Eval.Task) (m : Machine) :
    Nat → Eval.Task → Machine → Prop
  | begins {task' m'} (h : Eval.Begins lookup fuel task m task' m') :
    Contains lookup fuel task m fuel task' m'
  | further {fuel' task' m' task'' m''} (h : Contains lookup fuel task m (fuel' + 1) task' m')
    (hsame : task'.isBody = false) (hbegins : Eval.Begins lookup fuel' task' m' task'' m'') :
    Contains lookup fuel task m fuel' task'' m''

section Bodies

variable {course : Course} {fuel fuel' : Nat} {task task' : Eval.Task} {m m' : Machine}
  {object : InstanceId}

/-- A call moves on in the scope of the object that it works on. -/
theorem Eval.Task.Moves.worksOn (h : task.Moves m m') (hworks : m.store.WorksOn object (task.home m)) :
    m'.store.WorksOn object m'.here := by
  have hlater := hworks.endures h.endures
  rcases h.here with hhere | ⟨frame, hframe, hkind, houter⟩
  · rwa [hhere]
  · exact .outward hframe hkind houter hlater

/-- What a call does itself, it does in the scope of one object. -/
theorem Eval.Contains.worksOn (h : Eval.Contains course.lookup fuel task m fuel' task' m')
    (hfits : task.Fits course m) (hworks : m.store.WorksOn object (task.home m)) :
    task'.Fits course m' ∧ m'.store.WorksOn object m'.here := by
  induction h with
  | begins hbegins =>
    have hlies := hbegins.lies hfits
    exact ⟨hlies.fits, hlies.before.worksOn hworks⟩
  | further _ hsame hbegins ih =>
    have hlies := hbegins.lies ih.1
    refine ⟨hlies.fits, hlies.before.worksOn ?_⟩
    rw [Eval.Task.home_of_not_isBody hsame]
    exact ih.2

end Bodies

end LoxLang
