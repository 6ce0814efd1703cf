import LoxLang.Proofs.Session.Steady

/-!
# Looks

Where a node is about to look its name up, in whatever input of a session and after whatever inputs
before, it is at a point that the analysis of an accepted program visited (`Steady.look`): all
visits of the node show the same, and the table has their distance.
-/

namespace LoxLang

theorem Session.visitsAll_append (s : Session) (inputs : List Input) (input : Input) :
    s.visitsAll (inputs ++ [input]) = s.visitsAll inputs ++ (s.feedAll inputs).visits input := by
  induction inputs generalizing s with
  | nil => exact List.append_nil _
  | cons first rest ih =>
    rw [List.cons_append, visitsAll, ih, visitsAll, List.append_assoc]
    rfl

/-- A point at which a node is about to look its name up, and a visit of the analysis to the node.
-/
structure Look.At (look : Look) (table : Distances) (v : Visit) : Prop where
  name : v.name = look.name
  meets : v.Meets look.store look.here
  distance : ∃ hops, v.hops? = some hops ∧ table[look.id]? = some hops

section Looks

variable {s : Session} {globals : StaticScope} {visits : List Visit}

theorem Steady.look (h : Steady s globals visits) {input : Input}
    {stopsAt : NodeId → Token → Machine → Bool} {look : Look}
    (hlook : s.look? input stopsAt = some look) :
    (∃ record, look.store.Sound record) ∧ (∃ v ∈ visits ++ s.visits input, v.id = look.id) ∧
      ∀ v ∈ visits ++ s.visits input, v.id = look.id → look.At (s.table input) v := by
  have htake := h.take input
  unfold Session.look? at hlook
  unfold Session.table
  cases htaken : s.take input with
  | mk taken after =>
    rw [htaken] at htake hlook
    cases taken with
    | none => cases hlook
    | some program =>
      have hmachine : Rests (htake.course stopsAt) [globals.rib] after.machine := htake.rests
      obtain ⟨hsound, v, hid, hname, hv, hmeets, -⟩ :=
        hmachine.exists_visit htake.outermost htake.fits hlook
      refine ⟨⟨_, hsound⟩, ⟨v, hv, hid⟩, fun w hw hwid => ?_⟩
      have hkey := htake.coherent v hv w hw (hid.trans hwid.symm)
      have hsame : v.name = w.name ∧ v.ribs = w.ribs := by
        simpa [Visit.key] using congrArg Prod.snd hkey
      obtain ⟨ribs, hstands, hviews⟩ := hmeets
      refine ⟨hsame.1.symm.trans hname, ⟨ribs, hstands, ?_⟩, ?_⟩
      · rw [Visit.views, ← hsame.1, ← hsame.2]
        exact hviews
      · exact hwid ▸ htake.agrees w hw

end Looks

end LoxLang
