import LoxLang.Proofs.Machine.Receivers

/-!
# Base portions

An object of a class that derives from another one has a portion for this base class, and from this
portion on its chain shows what the base class and those behind it give (`Store.Derives`). The word
for the base stands for this portion wherever the object is worked on (`Placed.readName_super`): it
is in the nearest frame of an object, whatever object the method was called on. The search for an
attribute begins there (`Eval.SearchesFrom`).
-/

namespace LoxLang

namespace Store

/-- The portion of an object for a class, and the portion for the base of this class behind it. -/
structure Derives (s : Store) (object : InstanceId) (id : ClassId) (base : InstanceId)
    (baseId : ClassId) : Prop where
  portions : s.portionChain object = object :: s.portionChain base
  classes : s.classChain id = id :: s.classChain baseId
  /-- From the base portion on there is one portion for each class from the base class on. -/
  bases : (s.portionChain base).map (fun q => (s.portion? q).map Portion.classId) =
    (s.classChain baseId).map some
  /-- These are the ones that the whole object has behind the portion for the class. -/
  behind : ∀ {top portion before behind}, s.portion? top = some portion →
    s.portionChain top = before ++ object :: behind → behind = s.portionChain base
  /-- None of them belongs to the class itself or to a class that derives from it. -/
  proper : ∀ {other}, id ∈ s.classChain other → other ∉ s.classChain baseId

variable {s t : Store} {id k : ClassId} {object base : InstanceId}
  {portion : Portion} {c : ClassObject}

namespace Chained

/-- Behind a class there are only older ones. -/
theorem older_of_mem_classChain (h : s.Chained) (hmem : k ∈ s.classChain id) :
    k = id ∨ k.index < id.index := by
  obtain ⟨index⟩ := id
  induction index using Nat.strongRecOn with
  | _ index ih =>
    cases hobject : s.class? ⟨index⟩ with
    | none =>
      rw [classChain, classesFrom_succ, hobject] at hmem
      exact .inl (List.mem_singleton.mp hmem)
    | some object =>
      rw [h.classChain_eq hobject] at hmem
      refine (List.mem_cons.mp hmem).imp_right fun hmem => ?_
      cases hbase : object.base with
      | none =>
        rw [hbase] at hmem
        cases hmem
      | some base =>
        rw [hbase, Option.elim_some] at hmem
        have holder : base.index < index := h.older hobject base hbase
        rcases ih base.index holder hmem with rfl | hlt
        · exact holder
        · exact Nat.lt_trans hlt holder

theorem derives (h : s.Chained) (hportion : s.portion? object = some portion)
    (hclass : s.class? portion.classId = some c) {baseId : ClassId} (hbase : c.base = some baseId) :
    ∃ base, portion.base = some base ∧ s.Derives object portion.classId base baseId := by
  obtain ⟨c', hclass', hrel⟩ := h.portions hportion
  cases hclass.symm.trans hclass'
  have hportions := h.portionChain_eq hportion
  have hclasses := h.classChain_eq hclass
  have holder := h.older hclass baseId hbase
  rw [hbase, Option.elim_some] at hclasses
  rw [hbase] at hrel
  generalize portion.base = below at hrel hportions
  cases hrel with
  | @some base _ hunderlies =>
    obtain ⟨-, below, hbelow, rfl⟩ := hunderlies
    refine ⟨base, rfl, hportions, hclasses, h.classes_portionChain hbelow, ?_, ?_⟩
    · intro top first before behind htop hchain
      have hown := h.portionChain_of_append htop hchain
      exact (List.cons.inj (hown.symm.trans hportions)).2
    · intro other hmem hother
      have hfirst := h.older_of_mem_classChain hmem
      have hlast := h.older_of_mem_classChain hother
      rcases hfirst with rfl | hfirst <;> rcases hlast with heq | hlast
      · rw [heq] at holder
        exact Nat.lt_irrefl _ holder
      · omega
      · rw [heq] at hfirst
        omega
      · omega

/-- The portions of an object are the same from then on. -/
theorem portionChain_endures (h : s.Chained) (ht : t.Chained) (hle : s.Endures t)
    (hportion : s.portion? object = some portion) :
    t.portionChain object = s.portionChain object := by
  refine h.portion_induction (P := fun object _ => t.portionChain object = s.portionChain object)
    ?_ ?_ hportion
  · intro id portion hportion hroot
    obtain ⟨after, hafter, -, hsame⟩ := hle.portion hportion
    rw [ht.portionChain_eq hafter, h.portionChain_eq hportion, hsame, hroot]
    rfl
  · intro id portion base below hportion hbase _ ih
    obtain ⟨after, hafter, -, hsame⟩ := hle.portion hportion
    rw [ht.portionChain_eq hafter, h.portionChain_eq hportion, hsame, hbase, Option.elim_some, ih]
    rfl

end Chained

/-- The nearest frame of an object among the frames that mirror ribs. -/
theorem WorksOn.nearest {here : FrameId} {ribs : List Rib} (h : s.WorksOn object here)
    (hmirrors : Mirrors s here ribs) : ∃ hops owner frame rib,
      s.ancestor? here hops = some owner ∧ s.frame? owner = some frame ∧
        frame.names.find? "this" = some ⟨some (.instance object), true⟩ ∧
      ribs[hops]? = some rib ∧ rib.kind = frame.kind ∧ rib.kind.isReceiver ∧
        ∀ i < hops, ∀ rib, ribs[i]? = some rib → rib.kind.isReceiver = false := by
  induction h generalizing ribs with
  | here h =>
    obtain ⟨frame, hframe, hreceiver, hthis⟩ := h
    cases hmirrors with
    | @outermost _ _ rib hframe' _ hcovers | @inner _ _ _ rib _ hframe' _ hcovers =>
      cases hframe.symm.trans hframe'
      exact ⟨0, _, frame, rib, rfl, hframe, hthis, rfl, hcovers.kind.symm,
        hcovers.kind ▸ hreceiver, fun i hi => absurd hi (Nat.not_lt_zero i)⟩
  | @outward id outer frame hframe hkind houter _ ih =>
    cases hmirrors with
    | outermost hframe' hnone =>
      cases hframe.symm.trans hframe'
      cases houter.symm.trans hnone
    | inner hframe' houter' hcovers hrest =>
      cases hframe.symm.trans hframe'
      cases houter.symm.trans houter'
      obtain ⟨hops, owner, last, rib, howner, hlast, hthis, hrib, hsame, hreceiver, hbefore⟩ :=
        ih hrest
      refine ⟨hops + 1, owner, last, rib, ?_, hlast, hthis, hrib, hsame, hreceiver, ?_⟩
      · simp only [ancestor?, outer?, hframe, Option.bind_some, houter, howner]
      · intro i hi rib hrib
        cases i with
        | zero =>
          cases hrib
          exact hcovers.kind ▸ hkind
        | succ i => exact hbefore i (Nat.lt_of_succ_lt_succ hi) rib hrib

end Store

/-! ## The word for the base -/

section Words

variable {course : Course} {m : Machine} {ribs : List Rib} {id : NodeId} {keyword method : Token}
  {object base : InstanceId} {portion : Portion}

/-- The word for the base stands for the base portion of the object that is worked on. -/
theorem Placed.readName_super (h : Placed course ribs m) (hm : m.Whole)
    (hnode : NodeFits course id keyword ribs) (hword : keyword.lexeme = Keyword.super.text)
    (hcalm : course.lookup.stopsAt id keyword m = false) (hworks : m.store.WorksOn object m.here)
    (hportion : m.store.portion? object = some portion) (hbase : portion.base = some base) :
    Eval.readName course.lookup id keyword m = .ok (.instance base) m := by
  obtain ⟨hops, rib, decl, hrib, hkind, -, hbefore, hread⟩ := hnode.readName_word hword hcalm
  obtain ⟨n, owner, frame, first, howner, hframe, hthis, hfirst, hsame, hreceiver, hplain⟩ :=
    hworks.nearest h.stands.mirrors
  rw [hsame] at hreceiver
  obtain ⟨other, portion', hportion', hnames⟩ := (hm.store.frames hframe).object hreceiver
  rw [hnames, Store.Whole.find?_receiverNames_this] at hthis
  cases hthis
  cases hportion.symm.trans hportion'
  have hslot : frame.names.find? Keyword.super.text = some ⟨some (.instance base), true⟩ := by
    rw [hnames, hbase]
    exact NameMap.find?_insert_self ..
  -- the class of this object has a base, so its methods know the word
  obtain ⟨decl', hkind', hgives⟩ : ∃ decl, frame.kind = .receiver decl ∧ decl.Gives .super := by
    cases hframeKind : frame.kind with
    | receiver decl =>
      have hbound : (frame.constant? Keyword.super.text).isSome := by
        rw [Frame.constant?, hslot]
        rfl
      have hdeclares := (h.sound.frames hframe).declared _ hbound
      rw [hframeKind] at hdeclares
      exact ⟨decl, rfl, hdeclares.elim (fun heq => absurd heq (by decide)) And.right⟩
    | _ =>
      rw [hframeKind] at hreceiver
      cases hreceiver
  have heq : n = hops := by
    rcases Nat.lt_trichotomy n hops with hlt | heq | hlt
    · exact (hbefore n hlt first hfirst decl' (hsame.trans hkind') hgives).elim
    · exact heq
    · have hnot := hplain hops hlt rib hrib
      rw [hkind] at hnot
      cases hnot
  refine hread owner _ (heq ▸ howner) ?_
  rw [Store.slot?, hframe]
  exact hslot

theorem Eval.Task.Fits.readName_super
    (h : Eval.Task.Fits course m (.evaluate (.super id keyword method))) (hm : m.Whole)
    (hcalm : course.lookup.stopsAt id keyword m = false) (hworks : m.store.WorksOn object m.here)
    (hportion : m.store.portion? object = some portion) (hbase : portion.base = some base) :
    Eval.readName course.lookup id keyword m = .ok (.instance base) m := by
  obtain ⟨ribs, hplaced, hfits | ⟨_, _, heq, -⟩⟩ := h
  case inr => cases heq
  have hnode := hfits.node fun _ _ => rfl
  obtain ⟨a, -, hready⟩ := hfits
  exact hplaced.readName_super hm hnode hready.regular hcalm hworks hportion hbase

/-- An attribute that is asked for through the word for the base is searched for from a portion
on. -/
structure Eval.SearchesFrom (lookup : Lookup) (fuel : Nat) (id : NodeId) (keyword method : Token)
    (base : InstanceId) (m : Machine) : Prop where
  /-- The member of the first portion that has one of this name is bound to this portion. -/
  found : ∀ {q member}, m.store.member? base method.lexeme = some (q, member) →
    (∃ before behind, m.store.portionChain base = before ++ q :: behind ∧
      (∀ p ∈ before, m.store.portionMember? p method.lexeme = none) ∧
        m.store.portionMember? q method.lexeme = some member) ∧
    ∃ found m₁, Eval.instanceAttribute? base method.lexeme m = .ok (some found) m₁ ∧
      member.RealizedAs m₁.store q found ∧
        Eval.evaluate (fuel + 1) lookup (.super id keyword method) m =
          Eval.attributeValue fuel lookup found method m₁
  missing : m.store.member? base method.lexeme = none →
    Eval.evaluate (fuel + 1) lookup (.super id keyword method) m =
      .error (.error (.located (.noBaseAttribute method.lexeme (m.store.instanceClassName base))
        method)) m

theorem Eval.searchesFrom {lookup : Lookup} {fuel : Nat} (hm : m.store.Whole)
    (hread : Eval.readName lookup id keyword m = .ok (.instance base) m) :
    Eval.SearchesFrom lookup fuel id keyword method base m where
  found {q member} hmember := by
    obtain ⟨found, hfound, hrealized⟩ := hm.attribute?_realizes hmember
    have hrun : Eval.instanceAttribute? base method.lexeme m =
        .ok (some found) { m with store := (m.store.attribute? base method.lexeme).2 } :=
      congrArg (EStateM.Result.ok · _) hfound
    refine ⟨Store.member?_eq_some_iff.mp hmember, found, _, hrun, hrealized, ?_⟩
    rw [Eval.evaluate, bind_of_ok hread]
    dsimp only
    rw [bind_of_ok hrun]
  missing hnone := by
    have hrun : Eval.instanceAttribute? base method.lexeme m = .ok none m := by
      show EStateM.Result.ok (m.store.attribute? base method.lexeme).1
        { m with store := (m.store.attribute? base method.lexeme).2 } = _
      rw [Store.attribute?, hnone]
    rw [Eval.evaluate, bind_of_ok hread]
    dsimp only
    rw [bind_of_ok hrun]
    rfl

end Words

end LoxLang
