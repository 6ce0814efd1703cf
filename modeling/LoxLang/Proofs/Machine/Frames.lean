import LoxLang.Machine.Evaluate
import LoxLang.Proofs.Binding.Analysed

/-!
# Frames and ribs

The frames from the current one outward against the ribs of a static analysis: frame by frame they
are of one kind, and a frame binds the names whose declaration the rib shows as complete
(`Mirrors`). Frames lose nothing while a program runs (`Store.Grows`), so they mirror the same ribs
from then on (`Mirrors.mono`).
-/

namespace LoxLang

/-! ## What is bound where -/

/-- Whether a name of a rib is a constant, if its declaration is complete. -/
def Rib.constant? (rib : Rib) (name : String) : Option Bool :=
  (rib.status name).bind fun status => if status.defined then some !status.isMutable else none

theorem Rib.constant?_set (rib : Rib) (name other : String) (status : Status) :
    (rib.set name status).constant? other =
      if name = other then if status.defined then some !status.isMutable else none
      else rib.constant? other := by
  unfold constant? set
  by_cases h : name = other <;> simp [h]

/-- Whether a name of a frame is a constant, if it is bound. -/
def Frame.constant? (frame : Frame) (name : String) : Option Bool :=
  (frame.names.find? name).map Slot.isConst

def Store.constant? (s : Store) (id : FrameId) (name : String) : Option Bool :=
  (s.frame? id).bind fun frame => frame.constant? name

theorem Store.constant?_eq_slot? (s : Store) (id : FrameId) (name : String) :
    s.constant? id name = (s.slot? id name).map Slot.isConst := by
  unfold constant? slot? Frame.constant?
  cases s.frame? id <;> rfl

theorem Store.isDeclared_eq (s : Store) (id : FrameId) (name : String) :
    s.isDeclared id name = (s.constant? id name).isSome := by
  rw [constant?_eq_slot?, Option.isSome_map, isDeclared]

/-- A statement declares the name in the scope that it stands in. -/
def Stmt.Declares (s : Stmt) (name : String) : Prop :=
  ∃ declared ∈ s.declaration?, declared.1.lexeme = name

/-- The names that can come to be bound in a scope. -/
def ScopeKind.Declares (name : String) : ScopeKind → Prop
  | .globals => True
  | .block body => ∃ s ∈ body, s.Declares name
  | .clauses initializer _ _ _ => ∃ s ∈ initializer, s.Declares name
  | .parameters params body => (∃ p ∈ params, p.lexeme = name) ∨ ∃ s ∈ body, s.Declares name
  | .receiver decl => name = "this" ∨ name = "super" ∧ decl.base.isSome

/-- What holds of every frame of a running program. -/
structure Frame.WellFormed (frame : Frame) (id : FrameId) : Prop where
  older : ∀ outer ∈ frame.outer, outer.index < id.index
  declared : ∀ name, (frame.constant? name).isSome → frame.kind.Declares name
  receiver : ∀ decl name, frame.kind = .receiver decl → frame.kind.Declares name →
    (frame.constant? name).isSome

/-! ## Growth -/

/-- What a frame has, the other has too. -/
structure Frame.Grows (frame after : Frame) : Prop where
  kind : after.kind = frame.kind
  outer : after.outer = frame.outer
  kept : ∀ {name c}, frame.constant? name = some c → after.constant? name = some c
  /-- Constants keep their values. -/
  fixed : ∀ {name slot}, frame.names.find? name = some slot → slot.isConst →
    after.names.find? name = some slot

theorem Frame.Grows.refl (frame : Frame) : frame.Grows frame := ⟨rfl, rfl, id, fun h _ => h⟩

theorem Frame.Grows.trans {f g h : Frame} (h₁ : f.Grows g) (h₂ : g.Grows h) : f.Grows h :=
  ⟨h₂.kind.trans h₁.kind, h₂.outer.trans h₁.outer, fun hc => h₂.kept (h₁.kept hc),
    fun hslot hconst => h₂.fixed (h₁.fixed hslot hconst) hconst⟩

/-- Frames stay and grow; only the free one gains names. Functions stay as they are, and objects stay
what they are. -/
structure Store.Grows (free : Option FrameId) (s t : Store) : Prop where
  frame : ∀ {id frame}, s.frame? id = some frame → ∃ after, t.frame? id = some after ∧
    frame.Grows after ∧ (some id ≠ free → ∀ name, after.constant? name = frame.constant? name)
  function : ∀ {id c}, s.function? id = some c → t.function? id = some c
  portion : ∀ {id portion}, s.portion? id = some portion → ∃ after, t.portion? id = some after ∧
    after.classId = portion.classId ∧ after.base = portion.base

theorem getElem?_push_of_some {α : Type} {table : Array α} {i : Nat} {a : α}
    (h : table[i]? = some a) (new : α) : (table.push new)[i]? = some a := by
  rw [Array.getElem?_push, if_neg (Nat.ne_of_lt (Array.getElem?_eq_some_iff.mp h).1), h]

namespace Store

variable {s t u : Store} {free : Option FrameId} {id : FrameId} {frame : Frame}

theorem Grows.of_frames (h : t.frames = s.frames)
    (hfunction : ∀ {id c}, s.function? id = some c → t.function? id = some c)
    (hportion : ∀ {id portion}, s.portion? id = some portion → ∃ after,
      t.portion? id = some after ∧ after.classId = portion.classId ∧ after.base = portion.base) :
    Grows free s t where
  frame {_ frame} hframe :=
    ⟨frame, by rw [frame?, h]; exact hframe, .refl frame, fun _ _ => rfl⟩
  function := hfunction
  portion := hportion

/-- Only functions, arrows, classes or natives are added. -/
theorem Grows.of_instances (h : t.frames = s.frames)
    (hfunction : ∀ {id c}, s.function? id = some c → t.function? id = some c)
    (hinstances : t.instances = s.instances) : Grows free s t :=
  .of_frames h hfunction fun hportion => ⟨_, by rwa [portion?, hinstances], rfl, rfl⟩

theorem Grows.refl (s : Store) : Grows free s s := .of_instances rfl id rfl

theorem Grows.trans (h₁ : Grows free s t) (h₂ : Grows free t u) : Grows free s u where
  frame hframe := by
    obtain ⟨f, hf, hgrows, hsame⟩ := h₁.frame hframe
    obtain ⟨g, hg, hgrows', hsame'⟩ := h₂.frame hf
    exact ⟨g, hg, hgrows.trans hgrows', fun hne name => (hsame' hne name).trans (hsame hne name)⟩
  function hc := h₂.function (h₁.function hc)
  portion hportion := by
    obtain ⟨p, hp, hclass, hbase⟩ := h₁.portion hportion
    obtain ⟨q, hq, hclass', hbase'⟩ := h₂.portion hp
    exact ⟨q, hq, hclass'.trans hclass, hbase'.trans hbase⟩

theorem Grows.allow (h : Grows none s t) : Grows free s t where
  frame hframe := by
    obtain ⟨f, hf, hgrows, hsame⟩ := h.frame hframe
    exact ⟨f, hf, hgrows, fun _ => hsame nofun⟩
  function := h.function
  portion := h.portion

/-- Names of a new frame do not show in the frames before it. -/
theorem Grows.forget (h₁ : Grows none s t) (hnew : s.frame? id = none) (h₂ : Grows (some id) t u) :
    Grows none s u where
  frame {other frame} hframe := by
    have hne : other ≠ id := fun heq => by rw [heq, hnew] at hframe; cases hframe
    obtain ⟨f, hf, hgrows, hsame⟩ := h₁.frame hframe
    obtain ⟨g, hg, hgrows', hsame'⟩ := h₂.frame hf
    exact ⟨g, hg, hgrows.trans hgrows', fun _ name =>
      (hsame' (fun heq => hne (Option.some.inj heq)) name).trans (hsame nofun name)⟩
  function hc := h₂.function (h₁.function hc)
  portion := (h₁.allow.trans h₂).portion

/-- A frame that is not free binds the same names afterwards. -/
theorem Grows.constant?_eq (h : Grows none s t) (hframe : s.frame? id = some frame)
    (name : String) : t.constant? id name = s.constant? id name := by
  obtain ⟨f, hf, -, hsame⟩ := h.frame hframe
  rw [constant?, constant?, hf, hframe]
  exact hsame nofun name

theorem Grows.constant?_some (h : Grows free s t) {name : String} {c : Bool}
    (hc : s.constant? id name = some c) : t.constant? id name = some c := by
  obtain ⟨frame, hframe, hbound⟩ := Option.bind_eq_some_iff.mp hc
  obtain ⟨f, hf, hgrows, -⟩ := h.frame hframe
  rw [constant?, hf]
  exact hgrows.kept hbound

theorem ancestor?_succ {outer : FrameId} {hops : Nat} (houter : s.outer? id = some outer) :
    s.ancestor? id (hops + 1) = s.ancestor? outer hops := by
  rw [ancestor?, houter, Option.bind_some]

/-- Outer frames are older. -/
def Descends (s : Store) : Prop :=
  ∀ id outer, s.outer? id = some outer → outer.index < id.index

theorem Descends.ancestor?_index_le (h : s.Descends) {owner : FrameId} {hops : Nat}
    (howner : s.ancestor? id hops = some owner) : owner.index + hops ≤ id.index := by
  induction hops generalizing id with
  | zero =>
    cases howner
    exact Nat.le_refl _
  | succ hops ih =>
    obtain ⟨outer, houter, hrest⟩ := Option.bind_eq_some_iff.mp howner
    exact Nat.lt_of_le_of_lt (ih hrest) (h id outer houter)

/-- No frame is met twice on the way out. -/
theorem Descends.ancestor?_inj (h : s.Descends) {owner : FrameId} {i j : Nat}
    (hi : s.ancestor? id i = some owner) (hj : s.ancestor? id j = some owner) : i = j := by
  induction i generalizing id j with
  | zero =>
    cases hi
    have hle := h.ancestor?_index_le hj
    omega
  | succ i ih =>
    cases j with
    | zero =>
      cases hj
      have hle := h.ancestor?_index_le hi
      omega
    | succ j =>
      obtain ⟨outer, houter, hrest⟩ := Option.bind_eq_some_iff.mp hi
      rw [ancestor?_succ houter] at hj
      rw [ih hrest hj]

/-! ## The operations on frames -/

theorem frame?_addFrame (s : Store) (frame : Frame) (id : FrameId) :
    (s.addFrame frame).2.frame? id =
      if id = (s.addFrame frame).1 then some frame else s.frame? id := by
  obtain ⟨index⟩ := id
  simp only [addFrame, frame?, Array.getElem?_push, FrameId.mk.injEq]

theorem frame?_addFrame_new (s : Store) (frame : Frame) :
    s.frame? (s.addFrame frame).1 = none := by
  simp [addFrame, frame?]

theorem grows_addFrame (s : Store) (frame : Frame) : Grows none s (s.addFrame frame).2 where
  frame {id f} hf := by
    refine ⟨f, ?_, .refl f, fun _ _ => rfl⟩
    rw [frame?_addFrame, if_neg, hf]
    rintro rfl
    rw [frame?_addFrame_new] at hf
    cases hf
  function hc := hc
  portion hp := ⟨_, hp, rfl, rfl⟩

theorem grows_addFunction (s : Store) (c : Closure) : Grows free s (s.addFunction c).2 :=
  .of_instances rfl (fun hd => getElem?_push_of_some hd c) rfl

theorem frame?_declare (s : Store) (id : FrameId) (name : String) (value : Option Value)
    (isConst : Bool) (other : FrameId) :
    (s.declare id name value isConst).frame? other =
      if id = other then (s.frame? other).map fun frame =>
        { frame with names := frame.names.insert name ⟨value, isConst⟩ }
      else s.frame? other := by
  obtain ⟨index⟩ := id
  obtain ⟨otherIndex⟩ := other
  simp only [declare, frame?, Array.getElem?_modify, FrameId.mk.injEq]

theorem constant?_declare_frame (frame : Frame) (name other : String) (value : Option Value)
    (isConst : Bool) :
    Frame.constant? { frame with names := frame.names.insert name ⟨value, isConst⟩ } other =
      if name = other then some isConst else frame.constant? other := by
  rw [Frame.constant?, NameMap.find?_insert]
  split <;> rfl

/-- A frame that gains a new name. -/
theorem grows_insert_frame {frame : Frame} {name : String} (hnew : frame.constant? name = none)
    (value : Option Value) (isConst : Bool) :
    frame.Grows { frame with names := frame.names.insert name ⟨value, isConst⟩ } := by
  refine ⟨rfl, rfl, fun {other c} hc => ?_, fun {other slot} hslot _ => ?_⟩
  · rw [constant?_declare_frame, if_neg, hc]
    rintro rfl
    cases hc.symm.trans hnew
  · rw [NameMap.find?_insert, if_neg, hslot]
    rintro rfl
    rw [Frame.constant?, hslot] at hnew
    cases hnew

/-- To bind a new name takes none away. -/
theorem grows_declare {name : String} (hnew : s.constant? id name = none) (value : Option Value)
    (isConst : Bool) : Grows (some id) s (s.declare id name value isConst) where
  frame {other f} hf := by
    rw [frame?_declare]
    split
    · next heq =>
      subst heq
      rw [hf]
      exact ⟨_, rfl, grows_insert_frame (by rw [← hnew, constant?, hf, Option.bind_some]) _ _,
        fun hne => absurd rfl hne⟩
    · exact ⟨f, hf, .refl f, fun _ _ => rfl⟩
  function hc := hc
  portion hp := ⟨_, hp, rfl, rfl⟩

theorem frame?_store (s : Store) (id : FrameId) (name : String) (value : Value) (other : FrameId) :
    (s.store id name value).frame? other =
      if id = other then (s.frame? other).map fun frame =>
        { frame with
          names := frame.names.modify name fun slot => { slot with value := some value } }
      else s.frame? other := by
  obtain ⟨index⟩ := id
  obtain ⟨otherIndex⟩ := other
  simp only [store, frame?, Array.getElem?_modify, FrameId.mk.injEq]

theorem constant?_store_frame (frame : Frame) (name other : String) (value : Value) :
    Frame.constant? { frame with
        names := frame.names.modify name fun slot => { slot with value := some value } } other =
      frame.constant? other := by
  rw [Frame.constant?, Frame.constant?, NameMap.find?_modify]
  split
  · rw [Option.map_map]
    rfl
  · rfl

/-- A frame in which a name is written that is not a constant. -/
theorem grows_modify_frame {frame : Frame} {name : String}
    (hname : frame.constant? name ≠ some true) (value : Value) :
    frame.Grows { frame with
      names := frame.names.modify name fun slot => { slot with value := some value } } := by
  refine ⟨rfl, rfl, fun hc => (constant?_store_frame ..).trans hc, fun {other slot} hslot hconst => ?_⟩
  rw [NameMap.find?_modify, if_neg, hslot]
  rintro rfl
  rw [Frame.constant?, hslot, Option.map_some, hconst] at hname
  exact hname rfl

/-- To write a name that is not a constant changes neither which names are bound nor which are
constant. -/
theorem grows_store {name : String} (hname : s.constant? id name ≠ some true) (value : Value) :
    Grows none s (s.store id name value) where
  frame {other f} hf := by
    rw [frame?_store]
    split
    · next heq =>
      subst heq
      rw [hf]
      rw [constant?, hf, Option.bind_some] at hname
      exact ⟨_, rfl, grows_modify_frame hname value, fun _ _ => constant?_store_frame ..⟩
    · exact ⟨f, hf, .refl f, fun _ _ => rfl⟩
  function hc := hc
  portion hp := ⟨_, hp, rfl, rfl⟩

end Store

/-! ## Mirroring -/

/-- A frame is of the kind of a rib and binds what the rib shows as declared. -/
structure Frame.Covers (frame : Frame) (rib : Rib) : Prop where
  kind : frame.kind = rib.kind
  bound : ∀ {name c}, rib.constant? name = some c → frame.constant? name = some c

theorem Frame.Covers.mono {frame after : Frame} {rib : Rib} (h : frame.Covers rib)
    (hgrows : frame.Grows after) : after.Covers rib :=
  ⟨hgrows.kind.trans h.kind, fun hc => hgrows.kept (h.bound hc)⟩

/-- The frames from one outward cover the ribs, from the innermost to the outermost. -/
inductive Mirrors (s : Store) : FrameId → List Rib → Prop
  | outermost {id : FrameId} {frame : Frame} {rib : Rib} (hframe : s.frame? id = some frame)
    (houter : frame.outer = none) (hcovers : frame.Covers rib) : Mirrors s id [rib]
  | inner {id outer : FrameId} {frame : Frame} {rib : Rib} {ribs : List Rib}
    (hframe : s.frame? id = some frame) (houter : frame.outer = some outer)
    (hcovers : frame.Covers rib) (hrest : Mirrors s outer ribs) : Mirrors s id (rib :: ribs)

namespace Mirrors

variable {s t : Store} {free : Option FrameId} {id : FrameId} {rib : Rib} {ribs : List Rib}

theorem mono (h : Mirrors s id ribs) (hgrows : s.Grows free t) : Mirrors t id ribs := by
  induction h with
  | outermost hframe houter hcovers =>
    obtain ⟨after, hafter, hg, -⟩ := hgrows.frame hframe
    exact .outermost hafter (hg.outer.trans houter) (hcovers.mono hg)
  | inner hframe houter hcovers _ ih =>
    obtain ⟨after, hafter, hg, -⟩ := hgrows.frame hframe
    exact .inner hafter (hg.outer.trans houter) (hcovers.mono hg) ih

theorem head (h : Mirrors s id (rib :: ribs)) :
    ∃ frame, s.frame? id = some frame ∧ frame.Covers rib := by
  cases h with
  | outermost hframe _ hcovers | inner hframe _ hcovers _ => exact ⟨_, hframe, hcovers⟩

/-- The first frame may be matched with any rib that it covers. -/
theorem replace {frame : Frame} {rib' : Rib} (h : Mirrors s id (rib :: ribs))
    (hframe : s.frame? id = some frame) (hcovers : frame.Covers rib') :
    Mirrors s id (rib' :: ribs) := by
  cases h with
  | outermost hframe' houter _ =>
    cases hframe.symm.trans hframe'
    exact .outermost hframe houter hcovers
  | inner hframe' houter _ hrest =>
    cases hframe.symm.trans hframe'
    exact .inner hframe houter hcovers hrest

theorem exists_frame (h : Mirrors s id ribs) : ∃ frame, s.frame? id = some frame := by
  cases h with
  | outermost hframe _ _ | inner hframe _ _ _ => exact ⟨_, hframe⟩

/-- The frame so many steps out covers the rib so many steps out. -/
theorem ancestor (h : Mirrors s id ribs) {i : Nat} (hrib : ribs[i]? = some rib) :
    ∃ owner frame, s.ancestor? id i = some owner ∧ s.frame? owner = some frame ∧
      frame.Covers rib := by
  induction h generalizing i with
  | outermost hframe houter hcovers =>
    cases i with
    | zero =>
      cases hrib
      exact ⟨_, _, rfl, hframe, hcovers⟩
    | succ i => simp at hrib
  | inner hframe houter hcovers _ ih =>
    cases i with
    | zero =>
      cases hrib
      exact ⟨_, _, rfl, hframe, hcovers⟩
    | succ i =>
      obtain ⟨owner, frame, howner, hrest⟩ := ih hrib
      refine ⟨owner, frame, ?_, hrest⟩
      simp only [Store.ancestor?, Store.outer?, hframe, Option.bind_some, houter, howner]

/-- There is no frame beyond the ribs. -/
theorem ancestor_length (h : Mirrors s id ribs) : s.ancestor? id ribs.length = none := by
  induction h with
  | outermost hframe houter _ =>
    simp [Store.ancestor?, Store.outer?, hframe, houter]
  | inner hframe houter _ _ ih =>
    simp only [List.length_cons, Store.ancestor?, Store.outer?, hframe, Option.bind_some, houter, ih]

end Mirrors

/-- A point of a run against the ribs of an analysis: the frames mirror the ribs, and the current
one binds no other names than its rib shows. -/
structure Stands (s : Store) (here : FrameId) (ribs : List Rib) : Prop where
  mirrors : Mirrors s here ribs
  exact : ∀ rib ∈ ribs.head?, ∀ name, s.constant? here name = rib.constant? name

namespace Stands

variable {s t : Store} {free : Option FrameId} {id here : FrameId} {rib : Rib} {ribs : List Rib}

theorem mono (h : Stands s here ribs) (hgrows : s.Grows none t) : Stands t here ribs where
  mirrors := h.mirrors.mono hgrows
  exact rib hrib name := by
    obtain ⟨frame, hframe⟩ := h.mirrors.exists_frame
    rw [hgrows.constant?_eq hframe, h.exact rib hrib]

/-- A frame that is opened with the names of a rib. -/
theorem addFrame (h : Mirrors s here ribs) {frame : Frame} (houter : frame.outer = some here)
    (hkind : frame.kind = rib.kind) (hnames : ∀ name, frame.constant? name = rib.constant? name) :
    Stands (s.addFrame frame).2 (s.addFrame frame).1 (rib :: ribs) := by
  have hframe : (s.addFrame frame).2.frame? (s.addFrame frame).1 = some frame := by
    rw [Store.frame?_addFrame, if_pos rfl]
  refine ⟨.inner hframe houter ⟨hkind, fun hc => (hnames _).trans hc⟩
    (h.mono (Store.grows_addFrame s frame)), fun rib' hrib name => ?_⟩
  cases hrib
  rw [Store.constant?, hframe]
  exact hnames name

/-- What a rib shows of an incomplete declaration does not matter. -/
theorem congr {rib' : Rib} (h : Stands s here (rib :: ribs)) (hkind : rib'.kind = rib.kind)
    (hnames : ∀ name, rib'.constant? name = rib.constant? name) : Stands s here (rib' :: ribs) := by
  obtain ⟨frame, hframe, hcovers⟩ := h.mirrors.head
  refine ⟨h.mirrors.replace hframe ⟨hcovers.kind.trans hkind.symm, fun hc =>
    hcovers.bound ((hnames _).symm.trans hc)⟩, fun r hr name => ?_⟩
  cases hr
  rw [hnames]
  exact h.exact rib rfl name

theorem constant?_none (h : Stands s here (rib :: ribs)) {name : String}
    (hnew : rib.status name = none) : s.constant? here name = none := by
  rw [h.exact rib rfl, Rib.constant?, hnew]
  rfl

/-- A declaration that begins is not seen in the frame yet. -/
theorem begin (h : Stands s here (rib :: ribs)) {name : String} (hnew : rib.status name = none)
    (isMutable : Bool) : Stands s here (rib.set name ⟨isMutable, false⟩ :: ribs) := by
  refine h.congr rfl ?_
  intro other
  rw [Rib.constant?_set]
  split
  · next heq => rw [← heq, Rib.constant?, hnew]; rfl
  · rfl

/-- The frame binds the name when the declaration is complete. -/
theorem declare (h : Stands s here (rib :: ribs)) {name : String} (hnew : rib.status name = none)
    (value : Option Value) (isMutable : Bool) :
    Stands (s.declare here name value !isMutable) here
      (rib.set name ⟨isMutable, true⟩ :: ribs) := by
  obtain ⟨frame, hframe, hcovers⟩ := h.mirrors.head
  have hafter : (s.declare here name value !isMutable).frame? here =
      some { frame with names := frame.names.insert name ⟨value, !isMutable⟩ } := by
    rw [Store.frame?_declare, if_pos rfl, hframe]
    rfl
  have hmirrors := h.mirrors.mono (Store.grows_declare (h.constant?_none hnew) value !isMutable)
  have hnames : ∀ other, Frame.constant?
      { frame with names := frame.names.insert name ⟨value, !isMutable⟩ } other =
        (rib.set name ⟨isMutable, true⟩).constant? other := fun other => by
    rw [Store.constant?_declare_frame, Rib.constant?_set]
    split
    · rfl
    · rw [← h.exact rib rfl, Store.constant?, hframe]
      rfl
  refine ⟨hmirrors.replace hafter ⟨hcovers.kind, fun hc => (hnames _).trans hc⟩,
    fun r hr other => ?_⟩
  cases hr
  rw [Store.constant?, hafter]
  exact hnames other

end Stands

end LoxLang
