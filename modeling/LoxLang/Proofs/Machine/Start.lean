import LoxLang.Proofs.Machine.Running

/-!
# The machine before its first program

Its only frame is the global one, which binds the built-in functions; the analysis begins with a
scope of the same names (`Rests.start`).
-/

namespace LoxLang

/-- A store in which nothing but global names has been made. -/
def Store.ofGlobals (natives : Array Native) (names : NameMap Slot) : Store :=
  { frames := #[⟨.globals, names, none⟩], natives }

/-- The names of the global frame against those of the global scope. -/
def NamesAgree (names : NameMap Slot) (scope : NameMap StaticBinding) : Prop :=
  ∀ name, (∀ binding, scope.find? name = some binding → binding.defined = true) ∧
    (names.find? name).map Slot.isConst = (scope.find? name).map fun binding => !binding.isMutable

namespace NamesAgree

variable {names : NameMap Slot} {scope : NameMap StaticBinding}

theorem insert (h : NamesAgree names scope) (name : String) (value : Option Value) :
    NamesAgree (names.insert name ⟨value, true⟩) (scope.insert name (.provided .function)) := by
  intro other
  rw [NameMap.find?_insert, NameMap.find?_insert]
  split
  · refine ⟨fun binding hbinding => ?_, rfl⟩
    cases hbinding
    rfl
  · exact h other

theorem settled (h : NamesAgree names scope) : (StaticScope.rib ⟨.globals, scope⟩).Settled := by
  refine ⟨rfl, fun {name status} hstatus => ?_⟩
  obtain ⟨binding, hbinding, rfl⟩ := Option.map_eq_some_iff.mp hstatus
  exact (h name).1 binding hbinding

theorem constant? (h : NamesAgree names scope) (name : String) :
    Frame.constant? ⟨.globals, names, none⟩ name =
      (StaticScope.rib ⟨.globals, scope⟩).constant? name := by
  obtain ⟨hdefined, hsame⟩ := h name
  rw [Frame.constant?, hsame, Rib.constant?, StaticScope.rib]
  cases hfind : scope.find? name with
  | none => simp [hfind]
  | some binding => simp [hfind, StaticBinding.status, hdefined binding hfind]

end NamesAgree

/-- The built-in functions are bound one after another. -/
theorem Machine.exists_foldl_bindNative (natives : List Native) (made : Array Native)
    {names : NameMap Slot} {scope : NameMap StaticBinding} (h : NamesAgree names scope) :
    ∃ made' names', natives.foldl bindNative (.ofGlobals made names) = .ofGlobals made' names' ∧
      NamesAgree names' (natives.foldl
        (fun scope native => scope.insert native.name (.provided .function)) scope) := by
  induction natives generalizing made names scope with
  | nil => exact ⟨made, names, rfl, h⟩
  | cons native rest ih => exact ih (made.push native) (h.insert native.name _)

theorem StaticScope.names_globals (natives : List Native) :
    (globals (natives.map Native.name)).names =
      natives.foldl (fun scope native => scope.insert native.name (.provided .function)) .empty := by
  rw [globals, NameMap.ofList, List.map_map, List.foldl_map]
  rfl

theorem Store.ofGlobals_sound (record : Record) (natives : Array Native) (names : NameMap Slot) :
    (Store.ofGlobals natives names).Sound record where
  frames {id frame} hframe := by
    have hid : id = globalFrame := by
      obtain ⟨hlt, -⟩ := Array.getElem?_eq_some_iff.mp hframe
      obtain ⟨index⟩ := id
      exact congrArg FrameId.mk (Nat.lt_one_iff.mp hlt)
    subst hid
    cases hframe
    exact ⟨nofun, fun _ _ => trivial, fun _ _ hkind => nomatch hkind⟩
  functions h := by simp [function?, ofGlobals] at h
  arrows h := by simp [arrow?, ofGlobals] at h
  classes h := by simp [class?, ofGlobals] at h
  portions h := by simp [portion?, ofGlobals] at h

theorem Rests.start (record : Record) (natives : List Native) (host : Host) (sink : Sink) :
    let scope := StaticScope.globals (natives.map Native.name)
    scope.rib.Settled ∧ Rests record [scope.rib] (Machine.start natives host sink) := by
  intro scope
  have hempty : NamesAgree .empty .empty := fun _ => ⟨fun _ h => (nomatch h), rfl⟩
  obtain ⟨made, names, hstore, hnames⟩ :=
    Machine.exists_foldl_bindNative natives #[] hempty
  rw [← StaticScope.names_globals] at hnames
  have hstart : (Machine.start natives host sink).store = .ofGlobals made names := hstore
  refine ⟨hnames.settled, ⟨⟨?_, ?_⟩, rfl, rfl⟩⟩ <;> rw [hstart]
  · exact Store.ofGlobals_sound record made names
  have hframe : (Store.ofGlobals made names).frame? globalFrame = some ⟨.globals, names, none⟩ := rfl
  refine ⟨.outermost hframe rfl ⟨rfl, fun hc => (hnames.constant? _).trans hc⟩, fun rib hrib name => ?_⟩
  cases hrib
  show (Store.ofGlobals made names).constant? globalFrame name = scope.rib.constant? name
  rw [Store.constant?, hframe]
  exact hnames.constant? name

end LoxLang
