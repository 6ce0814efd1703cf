import LoxLang.Proofs.Sequence

/-!
# The ends of steps

A step gives something back or stops, and leaves a state behind either way. `Ends` says what holds
then, and `Ends.bind` is the one place that looks at how the first of two steps ends.

Many a family of steps keeps to a `Conduct`: from good states the steps lead to good states,
something of the state stays, however they end, and they stop only for some reasons. The families
differ in the conduct and in what is promised of results; the laws for steps that are put together
are proved here, once for all of them, about the steps from one state (`Conduct.From`) and from any
(`Conduct.Always`).
-/

namespace LoxLang

variable {ε σ α β : Type}

/-- What holds at the end of a step: of what it gives back, or of why it stops, and of the state
behind it. -/
def Ends (post : α → σ → Prop) (stop : ε → σ → Prop) : EStateM.Result ε σ α → Prop
  | .ok a t => post a t
  | .error e t => stop e t

namespace Ends

variable {post post' : α → σ → Prop} {next : β → σ → Prop} {stop stop' : ε → σ → Prop}
  {result : EStateM.Result ε σ α} {act other : EStateM ε σ α} {k : α → EStateM ε σ β} {s t : σ}

theorem ok {a : α} (h : Ends post stop result) (hrun : result = .ok a t) : post a t := by
  subst hrun
  exact h

theorem error {e : ε} (h : Ends post stop result) (hrun : result = .error e t) : stop e t := by
  subst hrun
  exact h

theorem intro (hpost : ∀ a t, post a t) (hstop : ∀ e t, stop e t) : Ends post stop result := by
  cases result with
  | ok a t => exact hpost a t
  | error e t => exact hstop e t

theorem imp (h : Ends post stop result) (hpost : ∀ a t, post a t → post' a t)
    (hstop : ∀ e t, stop e t → stop' e t) : Ends post' stop' result := by
  cases result with
  | ok a t => exact hpost a t h
  | error e t => exact hstop e t h

/-- Two steps end as the second one does, or stop where the first one does. -/
theorem bind (h : Ends post stop (act s))
    (hk : ∀ a t, act s = .ok a t → post a t → Ends next stop (k a t)) :
    Ends next stop ((act >>= k) s) := by
  cases hact : act s with
  | ok a t =>
    rw [bind_of_ok hact]
    exact hk a t hact (h.ok hact)
  | error e t =>
    rw [bind_of_error hact]
    exact h.error hact

theorem map {f : α → β} (h : Ends post stop (act s)) (hf : ∀ a t, post a t → next (f a) t) :
    Ends next stop ((f <$> act) s) := by
  rw [map_eq_pure_bind]
  exact h.bind fun a t _ => hf a t

theorem discard {next : Unit → σ → Prop} (h : Ends post stop (act s))
    (hnext : ∀ a t, post a t → next () t) :
    Ends next stop ((discard act : EStateM ε σ Unit) s) := by
  rw [Functor.discard, Functor.mapConst]
  exact h.bind fun a t _ => hnext a t

theorem ite {c : Prop} [Decidable c] (h : c → Ends post stop (act s))
    (h' : ¬c → Ends post stop (other s)) : Ends post stop ((if c then act else other) s) :=
  iteInduction (motive := fun act : EStateM ε σ α => Ends post stop (act s)) h h'

end Ends

/-- What steps keep to: the states that they go from, what stays of a state, however they end, and
the reasons for which they may stop. -/
structure Conduct (ε σ : Type) where
  good : σ → Prop
  keeps : σ → σ → Prop
  stops : ε → Prop
  refl : ∀ {s}, good s → keeps s s
  trans : ∀ {s t u}, keeps s t → keeps t u → keeps s u
  stays : ∀ {s t}, keeps s t → good s → good t

namespace Conduct

variable (c : Conduct ε σ)

/-- From this state, if it is good, a step keeps to the conduct, and its result is as promised. -/
def From (act : EStateM ε σ α) (s : σ) (P : α → σ → Prop) : Prop :=
  c.good s → Ends (fun a t => c.keeps s t ∧ P a t) (fun e t => c.keeps s t ∧ c.stops e) (act s)

/-- A step keeps to the conduct wherever it is taken. -/
def Always (act : EStateM ε σ α) (P : α → Prop) : Prop :=
  ∀ s, c.From act s fun a _ => P a

variable {c} {d : Conduct ε σ} {act other : EStateM ε σ α} {k : α → EStateM ε σ β} {s t : σ}

namespace From

variable {P P' : α → σ → Prop} {Q : β → σ → Prop}

theorem ok {a : α} (h : c.From act s P) (hs : c.good s) (hrun : act s = .ok a t) :
    c.keeps s t ∧ P a t := (h hs).ok hrun

theorem error {e : ε} (h : c.From act s P) (hs : c.good s) (hrun : act s = .error e t) :
    c.keeps s t ∧ c.stops e := (h hs).error hrun

theorem assuming (h : c.good s → c.From act s P) : c.From act s P := fun hs => h hs hs

theorem pure {a : α} (h : P a s) : c.From (pure a) s P := fun hs => ⟨c.refl hs, h⟩

theorem bind (h : c.From act s P)
    (hk : ∀ a t, c.keeps s t → c.good t → P a t → c.From (k a) t Q) : c.From (act >>= k) s Q := by
  intro hs
  refine (h hs).bind fun a t _ ⟨hkeeps, hP⟩ => ?_
  have ht := c.stays hkeeps hs
  exact (hk a t hkeeps ht hP ht).imp (fun b u ⟨hkeeps', hQ⟩ => ⟨c.trans hkeeps hkeeps', hQ⟩)
    fun e u ⟨hkeeps', hstops⟩ => ⟨c.trans hkeeps hkeeps', hstops⟩

theorem imp (h : c.From act s P) (himp : ∀ a t, c.keeps s t → P a t → P' a t) :
    c.From act s P' := fun hs =>
  (h hs).imp (fun a t ⟨hkeeps, hP⟩ => ⟨hkeeps, himp a t hkeeps hP⟩) fun _ _ => id

/-- A conduct may keep less and allow more reasons to stop. -/
theorem weaken (h : c.From act s P) (hgood : d.good s → c.good s)
    (hkeeps : ∀ t, d.good s → c.keeps s t → d.keeps s t) (hstops : ∀ e, c.stops e → d.stops e) :
    d.From act s P := fun hs =>
  (h (hgood hs)).imp (fun _ t ⟨hkept, hP⟩ => ⟨hkeeps t hs hkept, hP⟩)
    fun e t ⟨hkept, hstop⟩ => ⟨hkeeps t hs hkept, hstops e hstop⟩

theorem map {f : α → β} (h : c.From act s P) (hf : ∀ a t, P a t → Q (f a) t) :
    c.From (f <$> act) s Q := fun hs => (h hs).map fun a t ⟨hkeeps, hP⟩ => ⟨hkeeps, hf a t hP⟩

theorem discard (h : c.From act s P) : c.From (discard act) s fun _ t => ∃ a, P a t := fun hs =>
  (h hs).discard fun a _ ⟨hkeeps, hP⟩ => ⟨hkeeps, a, hP⟩

theorem ite {p : Prop} [Decidable p] (h : p → c.From act s P) (h' : ¬p → c.From other s P) :
    c.From (if p then act else other) s P := fun hs => .ite (fun hp => h hp hs) fun hp => h' hp hs

theorem get {k : σ → EStateM ε σ β} (h : c.From (k s) s Q) : c.From (MonadState.get >>= k) s Q := h

end From

namespace Always

variable {P P' : α → Prop} {Q : β → Prop}

theorem pure {a : α} (h : P a) : c.Always (pure a) P := fun _ => .pure h

theorem bind (h : c.Always act P) (hk : ∀ a, P a → c.Always (k a) Q) : c.Always (act >>= k) Q :=
  fun s => (h s).bind fun a t _ _ hP => hk a hP t

/-- A step whose result does not matter, and then another. -/
theorem andThen (h : c.Always act P) (hk : ∀ a, c.Always (k a) Q) : c.Always (act >>= k) Q :=
  h.bind fun a _ => hk a

theorem imp (h : c.Always act P) (himp : ∀ a, P a → P' a) : c.Always act P' :=
  fun s => (h s).imp fun a _ _ => himp a

theorem map {f : α → β} (h : c.Always act P) : c.Always (f <$> act) fun _ => True :=
  fun s => (h s).map fun _ _ _ => trivial

theorem discard (h : c.Always act P) : c.Always (discard act) fun _ => True :=
  fun s => (h s).discard.imp fun _ _ _ _ => trivial

theorem ite {p : Prop} [Decidable p] (h : p → c.Always act P) (h' : ¬p → c.Always other P) :
    c.Always (if p then act else other) P := fun s => .ite (fun hp => h hp s) fun hp => h' hp s

end Always

end Conduct

end LoxLang
