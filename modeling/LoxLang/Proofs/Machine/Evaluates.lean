import LoxLang.Proofs.Binding.Reserved
import LoxLang.Proofs.Machine.Objects
import LoxLang.Proofs.Machine.Steps

/-!
# Steps of a running program

A step of an evaluation is taken in order (`Evaluates`) if it comes back to the frame and the depth
that it began with, lets no frame but new ones gain names, leaves the store sound, and stops only
for reasons that the analysis knows of (`Explained`). Steps taken in order can be put together.
-/

namespace LoxLang

/-- A node is visited inside the initializer of the name that it refers to. -/
def Visit.Pending (v : Visit) : Prop :=
  ∃ found ∈ v.binding?, found.2.defined = false

/-- A point of a run against a visit: the ribs there show of the name what they showed at the
visit. -/
def Visit.Meets (v : Visit) (s : Store) (here : FrameId) : Prop :=
  ∃ ribs, Stands s here ribs ∧ v.views = Rib.views v.name.lexeme ribs

/-- The frame at the distance of a visit does not bind the name. -/
def Visit.Unbound (v : Visit) (s : Store) (here : FrameId) : Prop :=
  ∃ hops owner, v.hops? = some hops ∧ s.ancestor? here hops = some owner ∧
    s.isDeclared owner v.name.lexeme = false

/-- The distances give every visited node the way to its name. -/
def Agrees (record : Record) (distances : Distances) : Prop :=
  ∀ v, record.visited v → ∃ hops, v.hops? = some hops ∧ distances[v.id]? = some hops

/-- What a run goes by: the programs on record, and how their nodes look their names up. -/
structure Course extends Record where
  lookup : Lookup
  agrees : Agrees toRecord lookup.distances
  reserved : ∀ {v}, visited v → WordsReserved v.ribs

instance : Coe Course Record := ⟨Course.toRecord⟩

/-- A node that was visited is about to look its name up, and this is what the watch says. -/
structure Course.Reaches (course : Course) (v : Visit) (s : Store) (here : FrameId) (stops : Bool) :
    Prop where
  visited : course.visited v
  meets : v.Meets s here
  watch : ∃ m : Machine, m.store = s ∧ m.here = here ∧ course.lookup.stopsAt v.id v.name m = stops

/-- How a run may stop. Where a watch stops it, and where it stops because a name is not bound, it
has reached a node that the analysis visited. -/
def Explained (course : Course) (s : Store) : Halt → Prop
  | .error (.watched id name here) =>
    ∃ v, v.id = id ∧ v.name = name ∧ course.Reaches v s here true
  | .error (.located (.unbound _) token) =>
    ∃ v here, v.name = token ∧ v.Unbound s here ∧ course.Reaches v s here false
  | _ => True

/-- What stays of a machine while it runs. -/
structure Keeps (record : Record) (free : Option FrameId) (m after : Machine) : Prop where
  here : after.here = m.here
  depth : after.depth = m.depth
  grows : m.store.Grows free after.store
  sound : after.store.Sound record

namespace Keeps

variable {record : Record} {free : Option FrameId} {m m₁ m₂ : Machine}

theorem refl (h : m.store.Sound record) : Keeps record free m m := ⟨rfl, rfl, .refl _, h⟩

theorem trans (h₁ : Keeps record free m m₁) (h₂ : Keeps record free m₁ m₂) :
    Keeps record free m m₂ :=
  ⟨h₂.here.trans h₁.here, h₂.depth.trans h₁.depth, h₁.grows.trans h₂.grows, h₂.sound⟩

theorem allow (h : Keeps record none m m₁) : Keeps record free m m₁ :=
  ⟨h.here, h.depth, h.grows.allow, h.sound⟩

end Keeps

/-- A machine with a sound store, at a point that has the ribs of an analysis around it. -/
structure Placed (record : Record) (ribs : List Rib) (m : Machine) : Prop where
  sound : m.store.Sound record
  stands : Stands m.store m.here ribs

theorem Keeps.placed {record : Record} {ribs : List Rib} {m m₁ : Machine}
    (h : Keeps record none m m₁) (hplaced : Placed record ribs m) : Placed record ribs m₁ :=
  ⟨h.sound, h.here ▸ hplaced.stands.mono h.grows⟩

/-- An evaluation that ends in a given way, or stops for a reason that is known. -/
abbrev Runs {α : Type} (course : Course) (free : Option FrameId) (act : Eval α) (m : Machine)
    (post : α → Machine → Prop) : Prop :=
  Ends post (fun halt after => Keeps course free m after ∧ Explained course after.store halt)
    (act m)

/-- An evaluation that is taken in order, whatever its result. -/
def Evaluates {α : Type} (course : Course) (act : Eval α) (m : Machine) : Prop :=
  Runs course none act m fun _ after => Keeps course none m after

section Rules

variable {α β : Type} {course : Course} {free : Option FrameId} {act : Eval α} {k : α → Eval β}
  {m : Machine} {post post' : α → Machine → Prop} {Q : β → Machine → Prop}

/-! ## Putting steps together -/

theorem Runs.bind (h : Runs course free act m post)
    (hk : ∀ a m₁, post a m₁ → Keeps course free m m₁ ∧ Runs course free (k a) m₁ Q) :
    Runs course free (act >>= k) m Q :=
  Ends.bind h fun a m₁ _ hpost =>
    have ⟨hkeeps, hrest⟩ := hk a m₁ hpost
    Ends.imp hrest (fun _ _ => id) fun _ _ hhalt => ⟨hkeeps.trans hhalt.1, hhalt.2⟩

theorem Runs.imp (h : Runs course free act m post) (himp : ∀ a after, post a after → post' a after) :
    Runs course free act m post' := Ends.imp h himp fun _ _ => id

theorem Runs.allow (h : Runs course none act m post) : Runs course free act m post :=
  Ends.imp h (fun _ _ => id) fun _ _ hhalt => ⟨hhalt.1.allow, hhalt.2⟩

/-- To give something back does nothing. -/
theorem Runs.andReturn {b : β} (h : Runs course free act m post)
    (hpost : ∀ a after, post a after → Q b after) :
    Runs course free (act >>= fun _ => pure b) m Q := Ends.bind h fun a after _ => hpost a after

theorem Runs.discard (h : Runs course free act m post) :
    Runs course free (discard act) m fun _ after => ∃ a, post a after :=
  Ends.discard h fun a _ hpost => ⟨a, hpost⟩

/-- A step in order, and then steps that the state behind it allows. -/
theorem Evaluates.run (h : Evaluates course act m)
    (hk : ∀ a m₁, Keeps course none m m₁ → Runs course free (k a) m₁ Q) :
    Runs course free (act >>= k) m Q :=
  (Runs.allow h).bind fun a m₁ h₁ => ⟨h₁.allow, hk a m₁ h₁⟩

theorem Evaluates.bind (h : Evaluates course act m)
    (hk : ∀ a m₁, Keeps course none m m₁ → Evaluates course (k a) m₁) :
    Evaluates course (act >>= k) m :=
  h.run fun a m₁ h₁ => (hk a m₁ h₁).imp fun _ _ h₂ => h₁.trans h₂

theorem Evaluates.pure {a : α} (h : m.store.Sound course) :
    Evaluates course (pure a : Eval α) m := Keeps.refl h

theorem Evaluates.map {f : α → β} (h : Evaluates course act m) :
    Evaluates course (f <$> act) m := Ends.map h fun _ _ => id

theorem Evaluates.discard (h : Evaluates course act m) : Evaluates course (discard act) m :=
  Runs.imp (Runs.discard h) fun _ _ ⟨_, h₁⟩ => h₁

theorem Evaluates.ite {c : Prop} [Decidable c] {other : Eval α} (h : c → Evaluates course act m)
    (h' : ¬c → Evaluates course other m) : Evaluates course (if c then act else other) m :=
  Ends.ite h h'

/-! ## Steps that stop -/

theorem Evaluates.outOfFuel (h : m.store.Sound course) :
    Evaluates course (Eval.outOfFuel : Eval α) m := ⟨.refl h, trivial⟩

theorem explained_located {cause : RunFault} (hcause : ∀ name, cause ≠ .unbound name)
    (token : Token) (s : Store) : Explained course s (.error (.located cause token)) := by
  cases cause
  case unbound name => exact absurd rfl (hcause name)
  all_goals trivial

theorem Evaluates.fail (h : m.store.Sound course) {cause : RunFault} {token : Token}
    (hcause : ∀ name, cause ≠ .unbound name) :
    Evaluates course (Eval.fail cause token : Eval α) m :=
  ⟨.refl h, explained_located hcause token _⟩

theorem Evaluates.computed (h : m.store.Sound course) {result : Computed} {operator : Token}
    (hresult : ∀ name, result ≠ .error (.unbound name)) :
    Evaluates course (Eval.computed result operator) m :=
  Ends.computed (fun _ _ => .refl h) fun _ hcause =>
    ⟨.refl h, explained_located (fun name heq => hresult name (heq ▸ hcause)) _ _⟩

/-! ## Steps on the store -/

theorem Evaluates.updateStore {update : Store → α × Store}
    (hgrows : m.store.Grows none (update m.store).2) (hsound : (update m.store).2.Sound course)
    (hk : Evaluates course (k (update m.store).1) { m with store := (update m.store).2 }) :
    Evaluates course (Eval.updateStore update >>= k) m := by
  have hkeeps : Keeps course none m { m with store := (update m.store).2 } :=
    ⟨rfl, rfl, hgrows, hsound⟩
  have hrun : Runs course none (Eval.updateStore update) m fun a after =>
      a = (update m.store).1 ∧ after = { m with store := (update m.store).2 } := ⟨rfl, rfl⟩
  refine hrun.bind ?_
  intro a m₁ h₁
  obtain ⟨rfl, rfl⟩ := h₁
  exact ⟨hkeeps, hk.imp fun _ _ h₂ => hkeeps.trans h₂⟩

theorem Evaluates.changeStore {change : Store → Store} (hgrows : m.store.Grows none (change m.store))
    (hsound : (change m.store).Sound course) : Evaluates course (Eval.changeStore change) m :=
  ⟨rfl, rfl, hgrows, hsound⟩

/-- Output does not touch the store. -/
theorem Evaluates.write (h : m.store.Sound course) (text : String) :
    Evaluates course (Eval.write text) m := by
  have hwritten : Keeps course none m { m with sink := (m.sink.write text).2 } :=
    ⟨rfl, rfl, .refl _, h⟩
  exact Ends.write hwritten fun _ => ⟨hwritten, trivial⟩

theorem Runs.inspect {question : Store → α} (h : Runs course free (k (question m.store)) m Q) :
    Runs course free (Eval.inspect question >>= k) m Q := h

/-- A question that may fail. -/
theorem Runs.ask {question : Machine → Except RunError α} (h : m.store.Sound course)
    (herror : ∀ error, question m = .error error → Explained course m.store (.error error)) :
    Runs course free (Eval.ask question) m fun a after => after = m ∧ question m = .ok a :=
  Ends.ask (fun _ ha => ⟨rfl, ha⟩) fun error hquestion => ⟨.refl h, herror error hquestion⟩

theorem Evaluates.ask {question : Machine → Except RunError α} (h : m.store.Sound course)
    (herror : ∀ error, question m = .error error → Explained course m.store (.error error)) :
    Evaluates course (Eval.ask question) m :=
  Ends.ask (fun _ _ => .refl h) fun error hquestion => ⟨.refl h, herror error hquestion⟩

/-! ## Frames -/

/-- A frame that is opened, with what is done inside. -/
theorem Evaluates.scoped {frame : Frame} {act : Eval α} (h : m.store.Sound course)
    (hframe : frame.WellFormed (m.store.addFrame frame).1)
    (hact : ∀ inner : Machine, inner.store = (m.store.addFrame frame).2 →
      inner.here = (m.store.addFrame frame).1 → inner.store.Sound course →
      Runs course (some inner.here) act inner fun _ after =>
        Keeps course (some inner.here) inner after) :
    Evaluates course (Eval.updateStore (·.addFrame frame) >>= fun id => Eval.within id act) m := by
  let id := (m.store.addFrame frame).1
  let opened : Machine := { m with store := (m.store.addFrame frame).2 }
  have hopened : opened.store.Sound course := h.addFrame hframe
  have hback : ∀ after : Machine, Keeps course (some id) { opened with here := id } after →
      Keeps course none m { after with here := m.here } := fun after hafter =>
    ⟨rfl, hafter.depth, (Store.grows_addFrame m.store frame).forget
      (Store.frame?_addFrame_new m.store frame) hafter.grows, hafter.sound⟩
  have hinner := hact { opened with here := id } rfl rfl hopened
  have hopen : (Eval.updateStore (·.addFrame frame) >>= fun id => Eval.within id act) m =
      Eval.within id act opened := rfl
  rw [Evaluates, Runs, hopen]
  exact .within <| Ends.imp hinner (fun _ => hback) fun _ after hhalt =>
    ⟨hback after hhalt.1, hhalt.2⟩

/-- The frame of a scope that is opened inside the current one. -/
theorem Placed.wellFormed_bare {record : Record} {ribs : List Rib} {kind : ScopeKind}
    (h : Placed record ribs m) (hkind : ∀ decl, kind ≠ .receiver decl) :
    Frame.WellFormed ⟨kind, .empty, some m.here⟩
      (m.store.addFrame ⟨kind, .empty, some m.here⟩).1 := by
  refine ⟨fun outer houter => ?_, fun _ => nofun, fun decl _ hreceiver => ?_⟩
  · cases houter
    obtain ⟨f, hf⟩ := h.stands.mirrors.exists_frame
    exact (Array.getElem?_eq_some_iff.mp hf).1
  · exact absurd hreceiver (hkind decl)

/-- A scope that is opened inside the current one. -/
theorem Evaluates.opened {ribs : List Rib} {kind : ScopeKind} {act : Eval α}
    (h : Placed course ribs m) (hkind : ∀ decl, kind ≠ .receiver decl)
    (hact : ∀ inner, Placed course (.bare kind :: ribs) inner →
      Runs course (some inner.here) act inner fun _ after =>
        Keeps course (some inner.here) inner after) :
    Evaluates course (Eval.openFrame kind >>= fun id => Eval.within id act) m := by
  refine Evaluates.scoped h.sound (h.wellFormed_bare hkind) ?_
  intro inner hstore hhere hsound
  refine hact inner ⟨hsound, ?_⟩
  rw [hstore, hhere]
  exact .addFrame h.stands.mirrors rfl rfl fun _ => rfl

/-- The body of a call: it is counted while the frame of its parameters is open. -/
theorem Evaluates.called {frame : Frame} {act : Eval α} {place : Token} (h : m.store.Sound course)
    (hframe : frame.WellFormed (m.store.addFrame frame).1)
    (hact : ∀ inner : Machine, inner.store = (m.store.addFrame frame).2 →
      inner.here = (m.store.addFrame frame).1 → inner.store.Sound course →
      Runs course (some inner.here) act inner fun _ after =>
        Keeps course (some inner.here) inner after) :
    Evaluates course (Eval.updateStore (·.addFrame frame) >>= fun id =>
      Eval.counted place (Eval.within id act)) m := by
  let id := (m.store.addFrame frame).1
  let opened : Machine := { m with store := (m.store.addFrame frame).2 }
  have hscoped : Evaluates course
      (Eval.updateStore (·.addFrame frame) >>= fun id => Eval.within id act)
      { m with depth := m.depth + 1 } := .scoped h hframe hact
  have hback : ∀ after : Machine, Keeps course none { m with depth := m.depth + 1 } after →
      Keeps course none m { after with depth := after.depth - 1 } := fun after hafter =>
    ⟨hafter.here, by show after.depth - 1 = m.depth; rw [hafter.depth]; rfl, hafter.grows,
      hafter.sound⟩
  exact Ends.counted (m := opened)
    ⟨⟨rfl, rfl, Store.grows_addFrame m.store frame, h.addFrame hframe⟩, trivial⟩ fun _ =>
      Ends.imp hscoped (fun _ => hback) fun _ after hhalt => ⟨hback after hhalt.1, hhalt.2⟩

end Rules

end LoxLang
