import LoxLang.Proofs.Session.Looks

/-!
# Frames mirror scopes

The static analysis and the running program open scopes in different code, but for the same
constructs: whenever a node looks its name up, the frames from the current one out to the globals
are those of the scopes that were open when the analysis visited the node.
-/

namespace LoxLang

/-- The frames from the current one outward stand for scopes, one for one: each was opened for the
construct of its scope, and that of an object has a `super` just if its class has a base. -/
structure Look.Mirrors (look : Look) (scopes : List StaticScope) : Prop where
  frame : ∀ {i scope}, scopes[i]? = some scope → ∃ owner frame,
    look.store.ancestor? look.here i = some owner ∧ look.store.frame? owner = some frame ∧
      frame.kind = scope.kind ∧
      ∀ decl, scope.kind = .receiver decl → frame.names.contains "super" = decl.base.isSome
  outermost : look.store.ancestor? look.here scopes.length = none

theorem Frame.WellFormed.contains_super {frame : Frame} {id : FrameId} (h : frame.WellFormed id)
    {decl : ClassDecl} (hkind : frame.kind = .receiver decl) :
    frame.names.contains "super" = decl.base.isSome := by
  have hcontains : frame.names.contains "super" = (frame.constant? "super").isSome := by
    rw [Frame.constant?, Option.isSome_map, NameMap.contains]
  have hdeclares : frame.kind.Declares "super" ↔ decl.base.isSome = true := by
    rw [hkind]
    simp [ScopeKind.Declares]
  rw [hcontains, Bool.eq_iff_iff, ← hdeclares]
  exact ⟨h.declared "super", h.receiver decl "super" hkind⟩

theorem Look.At.mirrors {look : Look} {table : Distances} {v : Visit} {record : Record}
    (h : look.At table v) (hsound : look.store.Sound record) : look.Mirrors v.scopes := by
  obtain ⟨ribs, hstands, hviews⟩ := h.meets
  have hlength : ribs.length = v.scopes.length := by
    simpa [Visit.views, Visit.ribs, Rib.views, ribsOf] using (congrArg List.length hviews).symm
  refine ⟨fun {i scope} hscope => ?_, hlength ▸ hstands.mirrors.ancestor_length⟩
  obtain ⟨rib, hrib, hkind, -⟩ := Visit.exists_rib hviews hscope
  obtain ⟨owner, frame, howner, hframe, hcovers⟩ := hstands.mirrors.ancestor hrib
  have hsame : frame.kind = scope.kind := hcovers.kind.trans hkind
  exact ⟨owner, frame, howner, hframe, hsame, fun decl hreceiver =>
    (hsound.frames hframe).contains_super (hsame.trans hreceiver)⟩

/-- Wherever a node of an accepted program looks its name up, in whatever input and after whatever
inputs, the frames mirror the scopes of every visit to the node, and no recorded distance leads past
the globals. -/
theorem frames_mirror_scopes (bound : Nat) (settings : Settings) (host : Host) (sink : Sink)
    (inputs : List Input) (input : Input) (stopsAt : NodeId → Token → Machine → Bool) {look : Look}
    (h : ((Session.startWithin bound settings host sink).feedAll inputs).look? input stopsAt =
      some look) :
    let s := Session.startWithin bound settings host sink
    let visits := s.visitsAll (inputs ++ [input])
    (∃ v ∈ visits, v.id = look.id) ∧
      (∀ v ∈ visits, v.id = look.id → v.name = look.name ∧ look.Mirrors v.scopes) ∧
      ∀ distance, ((s.feedAll inputs).table input)[look.id]? = some distance →
        (look.store.ancestor? look.here distance).isSome := by
  intro s visits
  obtain ⟨globals, hstart⟩ := Steady.start bound settings host sink
  obtain ⟨globals', hsteady⟩ := hstart.feedAll inputs
  obtain ⟨⟨record, hsound⟩, ⟨v, hv, hid⟩, hat⟩ := hsteady.look h
  have hvisits : visits = s.visitsAll inputs ++ (s.feedAll inputs).visits input :=
    s.visitsAll_append inputs input
  rw [List.nil_append, ← hvisits] at hv hat
  refine ⟨⟨v, hv, hid⟩, fun w hw hwid => ?_, fun distance hdistance => ?_⟩
  · exact ⟨(hat w hw hwid).name, (hat w hw hwid).mirrors hsound⟩
  · obtain ⟨hops, hhops, htable⟩ := (hat v hv hid).distance
    cases hdistance.symm.trans htable
    obtain ⟨ribs, hstands, hviews⟩ := (hat v hv hid).meets
    obtain ⟨owner, binding, howner, -⟩ := hstands.mirrors.target hviews hhops
    rw [howner]
    rfl

/-- A method is called in a later line than the one that declares it, and looks `super` up there. -/
theorem frames_mirror_scopes_in_kept_method :
    let s := Session.startWithin 30 {} ⟨(0.0 : Float), []⟩ {}
    let inputs := [.line "class B { m() {} } class A < B { m() { super.m(); } }"]
    let input := .line "A().m();"
    ∃ look, (s.feedAll inputs).look? input (fun _ name _ => name.lexeme == "super") = some look ∧
      ∃ v ∈ s.visitsAll (inputs ++ [input]), v.id = look.id ∧ look.Mirrors v.scopes := by
  intro s inputs input
  obtain ⟨look, hlook⟩ := Option.isSome_iff_exists.mp
    (show ((s.feedAll inputs).look? input fun _ name _ => name.lexeme == "super").isSome = true by
      decide +kernel)
  obtain ⟨⟨v, hv, hid⟩, hall, -⟩ :=
    frames_mirror_scopes 30 {} ⟨(0.0 : Float), []⟩ {} inputs input
      (fun _ name _ => name.lexeme == "super") hlook
  exact ⟨look, hlook, v, hv, hid, (hall v hv hid).2⟩

end LoxLang
