import LoxLang.Proofs.Machine.Mirroring

/-!
# Running programs

Between the statements of a program the machine rests in the global frame, which binds the names of
the statements before (`Rests`). A run that stops leaves it at rest behind the statements that were
executed to the end (`Rests.of_error`), and a look is at a point that the analysis visited
(`Rests.exists_visit`).
-/

namespace LoxLang

theorem growBody_append (done rest : List Stmt) (ribs : List Rib) :
    growBody (done ++ rest) ribs = growBody rest (growBody done ribs) := by
  induction done generalizing ribs with
  | nil => rfl
  | cons s done ih => exact ih (s.grow ribs)

/-- A machine between two statements of a program. -/
structure Rests (record : Record) (ribs : List Rib) (m : Machine) : Prop extends
    Placed record ribs m where
  here : m.here = globalFrame
  depth : m.depth = 0

/-- A rib of the globals between two statements. -/
structure Rib.Settled (rib : Rib) : Prop where
  kind : rib.kind = .globals
  complete : ∀ {name status}, rib.status name = some status → status.defined = true

def Outermost (ribs : List Rib) : Prop := ∀ rib ∈ ribs.head?, rib.Settled

theorem Outermost.grow {ribs : List Rib} (h : Outermost ribs) (s : Stmt) : Outermost (s.grow ribs) := by
  unfold Stmt.grow
  rcases s.declaration? with _ | ⟨name, kind⟩
  · exact h
  · cases ribs with
    | nil => exact h
    | cons rib outer =>
      intro rib' hrib
      cases hrib
      refine ⟨(h rib rfl).kind, fun {other status} hstatus => ?_⟩
      by_cases hname : name.lexeme = other
      · rw [hname, Rib.set_status_self] at hstatus
        cases hstatus
        rfl
      · rw [Rib.set_status_of_ne _ _ hname] at hstatus
        exact (h rib rfl).complete hstatus

theorem Outermost.growBody {ribs : List Rib} (h : Outermost ribs) (ss : List Stmt) :
    Outermost (growBody ss ribs) := by
  induction ss generalizing ribs with
  | nil => exact h
  | cons s ss ih => exact ih (h.grow s)

theorem Outermost.hosts {ribs : List Rib} (h : Outermost ribs) (s : Stmt) : Hosts ribs s := by
  intro rib hrib name _
  rw [(h rib hrib).kind]
  trivial

namespace Rests

variable {course : Course} {bound : Nat} {ribs : List Rib} {s : Stmt} {ss : List Stmt}
  {m after : Machine} {signal : Signal} {halt : Halt}

theorem execute_ok (h : Rests course ribs m) (hribs : Outermost ribs) (hfits : s.Fits course ribs)
    (hrun : Eval.execute bound course.lookup s m = .ok signal after) :
    Rests course (s.grow ribs) after := by
  have hexecute := ((behaves course bound).execute hfits (hribs.hosts s) h.toPlaced).ok hrun
  exact ⟨hexecute.placed, hexecute.keeps.here.trans h.here, hexecute.keeps.depth.trans h.depth⟩

theorem execute_error (h : Rests course ribs m) (hribs : Outermost ribs)
    (hfits : s.Fits course ribs)
    (hrun : Eval.execute bound course.lookup s m = .error halt after) :
    Rests course ribs { after with here := globalFrame } ∧ Explained course after.store halt := by
  obtain ⟨hkeeps, hexplained⟩ :=
    ((behaves course bound).execute hfits (hribs.hosts s) h.toPlaced).error hrun
  have hplaced := hkeeps.placed h.toPlaced
  refine ⟨⟨⟨hplaced.sound, ?_⟩, rfl, hkeeps.depth.trans h.depth⟩, hexplained⟩
  exact (hkeeps.here.trans h.here) ▸ hplaced.stands

/-- A run that goes through executes every statement. -/
theorem of_ok (h : Rests course ribs m) (hribs : Outermost ribs) (hfits : BodyFits course ss ribs)
    (hrun : m.interpret bound course.lookup ss = (.ok (), after)) :
    Rests course (growBody ss ribs) after := by
  induction ss generalizing m ribs with
  | nil =>
    rw [Machine.interpret] at hrun
    split at hrun <;> cases hrun
    exact h
  | cons s ss ih =>
    obtain ⟨hs, hss⟩ := hfits.cons
    rw [Machine.interpret] at hrun
    cases hexecute : Eval.execute bound course.lookup s m with
    | ok signal m₁ =>
      rw [hexecute] at hrun
      exact ih (h.execute_ok hribs hs hexecute) (hribs.grow s) hss hrun
    | error halt m₁ =>
      rw [hexecute] at hrun
      cases hrun

/-- A run that stops has executed some statements to the end. The first of the rest may have changed
values, but has declared nothing. -/
theorem of_error (h : Rests course ribs m) (hribs : Outermost ribs)
    (hfits : BodyFits course ss ribs)
    (hrun : m.interpret bound course.lookup ss = (.error halt, after)) :
    Explained course after.store halt ∧ ∃ done rest, ss = done ++ rest ∧
      BodyFits course rest (growBody done ribs) ∧ Rests course (growBody done ribs) after := by
  induction ss generalizing m ribs with
  | nil =>
    rw [Machine.interpret] at hrun
    split at hrun <;> cases hrun
    exact ⟨trivial, [], [], rfl, hfits, h⟩
  | cons s ss ih =>
    obtain ⟨hs, hss⟩ := hfits.cons
    rw [Machine.interpret] at hrun
    cases hexecute : Eval.execute bound course.lookup s m with
    | ok signal m₁ =>
      rw [hexecute] at hrun
      obtain ⟨hexplained, done, rest, rfl, hrest, hrests⟩ :=
        ih (h.execute_ok hribs hs hexecute) (hribs.grow s) hss hrun
      exact ⟨hexplained, s :: done, rest, rfl, hrest, hrests⟩
    | error halt m₁ =>
      rw [hexecute] at hrun
      cases hrun
      obtain ⟨hrests, hexplained⟩ := h.execute_error hribs hs hexecute
      exact ⟨hexplained, [], s :: ss, rfl, hfits, hrests⟩

/-- Where a node is about to look its name up, the analysis visited it. -/
theorem exists_visit {look : Look} (h : Rests course ribs m) (hribs : Outermost ribs)
    (hfits : BodyFits course ss ribs) (hlook : m.look? bound course.lookup ss = some look) :
    look.store.Sound course ∧
      ∃ v, v.id = look.id ∧ v.name = look.name ∧ course.Reaches v look.store look.here true := by
  unfold Machine.look? at hlook
  split at hlook
  · next hrun =>
    cases hlook
    obtain ⟨hexplained, done, rest, -, -, hrests⟩ := h.of_error hribs hfits hrun
    exact ⟨hrests.sound, hexplained⟩
  · cases hlook

end Rests

end LoxLang
