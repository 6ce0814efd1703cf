import LoxLang.Proofs.Session.Steady

/-!
# Aligned sessions

Whatever comes of an input, the static analysis and the machine know the same globals afterwards,
and nothing is left over of it: no scope is open but the global one, and no function is being
executed.
-/

namespace LoxLang

structure Session.Aligned (s : Session) : Prop where
  scopes : s.resolver.scopes.length = 1
  around : s.resolver.around = {}
  names : ∀ name, s.resolver.globals.contains name = s.machine.isGlobal name
  /-- A global can be assigned just if it is not a constant. -/
  mutability : ∀ {name binding slot}, s.resolver.globals.names.find? name = some binding →
    s.machine.store.slot? globalFrame name = some slot → binding.isMutable = !slot.isConst
  here : s.machine.here = globalFrame
  depth : s.machine.depth = 0

theorem Rib.Settled.constant?_eq {scope : StaticScope} (h : scope.rib.Settled) (name : String) :
    scope.rib.constant? name = (scope.names.find? name).map fun binding => !binding.isMutable := by
  rw [Rib.constant?]
  cases hfind : scope.names.find? name with
  | none => simp [StaticScope.rib, hfind]
  | some binding =>
    have hstatus : scope.rib.status name = some binding.status :=
      congrArg (Option.map StaticBinding.status) hfind
    have hdefined : binding.status.defined = true := h.complete hstatus
    rw [hstatus, Option.bind_some, if_pos hdefined]
    rfl

theorem Steady.aligned {s : Session} {globals : StaticScope} {visits : List Visit}
    (h : Steady s globals visits) : s.Aligned := by
  have hglobals : s.resolver.globals = globals := by
    rw [h.resolver]
    rfl
  have hbound : ∀ name, (s.machine.store.slot? globalFrame name).map Slot.isConst =
      (globals.names.find? name).map fun binding => !binding.isMutable := fun name => by
    rw [← Store.constant?_eq_slot?, ← h.rests.here, h.rests.stands.exact _ rfl name]
    exact h.settled.constant?_eq name
  refine ⟨by rw [h.resolver]; rfl, by rw [h.resolver]; rfl, fun name => ?_, ?_, h.rests.here,
    h.rests.depth⟩
  · rw [hglobals, StaticScope.contains, NameMap.contains, Machine.isGlobal, Store.isDeclared]
    simpa using (congrArg Option.isSome (hbound name)).symm
  · intro name binding slot hbinding hslot
    have hsame := hbound name
    rw [hglobals] at hbinding
    rw [hbinding, hslot] at hsame
    rw [Option.some.inj hsame, Bool.not_not]

/-- Sessions are aligned before and after each input, whether it is rejected by scanning, parsing or
analysis, stops at a fault or goes through. -/
theorem aligned_feedAll (bound : Nat) (settings : Settings) (host : Host) (sink : Sink)
    (inputs : List Input) :
    ((Session.startWithin bound settings host sink).feedAll inputs).Aligned := by
  obtain ⟨globals, hstart⟩ := Steady.start bound settings host sink
  obtain ⟨globals', hsteady⟩ := hstart.feedAll inputs
  exact hsteady.aligned

end LoxLang
