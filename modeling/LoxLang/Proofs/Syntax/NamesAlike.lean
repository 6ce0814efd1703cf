import Mathlib.Data.List.Forall2
import LoxLang.NameMap

/-!
# Name maps alike

Two name maps are alike if they hold the same names in the same order and their values correspond
(`NameMap.Alike`). All operations keep this.
-/

namespace LoxLang.NameMap

variable {α β : Type} {R R' : α → β → Prop} {map : NameMap α} {map' : NameMap β}

/-- Entries of one name whose values correspond. -/
def Entry (R : α → β → Prop) (entry : String × α) (entry' : String × β) : Prop :=
  entry.1 = entry'.1 ∧ R entry.2 entry'.2

def Alike (R : α → β → Prop) (map : NameMap α) (map' : NameMap β) : Prop :=
  List.Forall₂ (Entry R) map.entries map'.entries

namespace Alike

theorem empty : Alike R (NameMap.empty : NameMap α) (NameMap.empty : NameMap β) := .nil

theorem imp (h : Alike R map map') (himp : ∀ a b, R a b → R' a b) : Alike R' map map' :=
  List.Forall₂.imp (fun _ _ hentry => ⟨hentry.1, himp _ _ hentry.2⟩) h

theorem find? (h : Alike R map map') (name : String) :
    Option.Rel R (map.find? name) (map'.find? name) := by
  obtain ⟨entries⟩ := map
  obtain ⟨entries'⟩ := map'
  show Option.Rel R (findIn name entries) (findIn name entries')
  replace h : List.Forall₂ (Entry R) entries entries' := h
  induction h with
  | nil => exact .none
  | @cons entry entry' _ _ hentry _ ih =>
    obtain ⟨key, value⟩ := entry
    obtain ⟨key', value'⟩ := entry'
    obtain ⟨rfl, hvalue⟩ := hentry
    rw [findIn, findIn]
    split
    · exact .some hvalue
    · exact ih

theorem contains (h : Alike R map map') (name : String) :
    map.contains name = map'.contains name := by
  have hfound := h.find? name
  rw [NameMap.contains, NameMap.contains]
  generalize map.find? name = found, map'.find? name = found' at hfound
  cases hfound with
  | none => rfl
  | some => rfl

theorem insert (h : Alike R map map') (name : String) {value : α} {value' : β}
    (hvalue : R value value') : Alike R (map.insert name value) (map'.insert name value') := by
  obtain ⟨entries⟩ := map
  obtain ⟨entries'⟩ := map'
  show List.Forall₂ (Entry R) (insertIn name value entries) (insertIn name value' entries')
  replace h : List.Forall₂ (Entry R) entries entries' := h
  induction h with
  | nil => exact .cons ⟨rfl, hvalue⟩ .nil
  | @cons entry entry' _ _ hentry hrest ih =>
    obtain ⟨key, old⟩ := entry
    obtain ⟨key', old'⟩ := entry'
    obtain ⟨rfl, hold⟩ := hentry
    rw [insertIn, insertIn]
    split
    · exact .cons ⟨rfl, hvalue⟩ hrest
    · exact .cons ⟨rfl, hold⟩ ih

theorem modify (h : Alike R map map') (name : String) {change : α → α} {change' : β → β}
    (hchange : ∀ a b, R a b → R (change a) (change' b)) :
    Alike R (map.modify name change) (map'.modify name change') := by
  have hfound := h.find? name
  unfold NameMap.modify
  generalize map.find? name = found, map'.find? name = found' at hfound
  cases hfound with
  | none => exact h
  | some hvalue => exact h.insert name (hchange _ _ hvalue)

theorem retain (h : Alike R map map') (keep : String → Bool) :
    Alike R (map.retain keep) (map'.retain keep) := by
  obtain ⟨entries⟩ := map
  obtain ⟨entries'⟩ := map'
  show List.Forall₂ (Entry R) (entries.filter fun entry => keep entry.1)
    (entries'.filter fun entry => keep entry.1)
  replace h : List.Forall₂ (Entry R) entries entries' := h
  induction h with
  | nil => exact .nil
  | cons hentry _ ih =>
    rw [List.filter_cons, List.filter_cons, hentry.1]
    split
    · exact .cons hentry ih
    · exact ih

theorem ofList {pairs : List (String × α)} {pairs' : List (String × β)}
    (h : List.Forall₂ (Entry R) pairs pairs') : Alike R (ofList pairs) (ofList pairs') := by
  have hfold {map : NameMap α} {map' : NameMap β} (hmap : Alike R map map') :
      Alike R (pairs.foldl (fun map pair => map.insert pair.1 pair.2) map)
        (pairs'.foldl (fun map pair => map.insert pair.1 pair.2) map') := by
    induction h generalizing map map' with
    | nil => exact hmap
    | cons hentry _ ih =>
      obtain ⟨hname, hvalue⟩ := hentry
      rw [List.foldl_cons, List.foldl_cons, hname]
      exact ih (hmap.insert _ hvalue)
  exact hfold .empty

theorem eq {map map' : NameMap α} (h : Alike Eq map map') : map = map' := by
  obtain ⟨entries⟩ := map
  obtain ⟨entries'⟩ := map'
  replace h : List.Forall₂ (Entry Eq) entries entries' := h
  refine congrArg NameMap.mk ?_
  induction h with
  | nil => rfl
  | cons hentry _ ih => rw [Prod.ext hentry.1 hentry.2, ih]

end Alike

end LoxLang.NameMap
