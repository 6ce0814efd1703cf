import LoxLang.Proofs.Binding.Extents
import Mathlib.Data.List.Pairwise

/-!
# Names that wait to be used

What a part of a tree does to one open scope: it declares names in it, one behind the other, and
some names are used (`StaticScope.Becomes`). Names are used only once they are declared, and used they
stay. So a scope that is closed tells of what was declared in it and is not used, in the order of the
source (`StaticScope.Becomes.unused`, `sortBySite_eq`).
-/

namespace LoxLang

/-- What is told of a binding if it is still not used when its scope is closed. -/
def StaticBinding.pending (binding : StaticBinding) : Option (Token × DeclarationKind) :=
  if binding.used then none else binding.site.map fun site => (site, binding.kind)

namespace StaticScope

def pending (scope : StaticScope) (name : String) : Option (Token × DeclarationKind) :=
  (scope.names.find? name).bind StaticBinding.pending

/-! ## Sorting -/

def sortBySite (entries : List (String × Token × DeclarationKind)) :
    List (String × Token × DeclarationKind) :=
  entries.foldl (fun sorted entry => insertBySite entry sorted) []

variable {entry : String × Token × DeclarationKind}
  {entries sorted : List (String × Token × DeclarationKind)}

theorem insertBySite_perm : (insertBySite entry sorted).Perm (entry :: sorted) := by
  induction sorted with
  | nil => exact .refl _
  | cons other rest ih =>
    rw [insertBySite]
    split
    · exact (ih.cons other).trans (.swap entry other rest)
    · exact .refl _

theorem sortBySite_perm : (sortBySite entries).Perm entries := by
  suffices h : ∀ sorted, (entries.foldl (fun sorted entry => insertBySite entry sorted) sorted).Perm
      (sorted ++ entries) from h []
  induction entries with
  | nil => exact fun sorted => by rw [List.append_nil]; exact .refl _
  | cons entry rest ih =>
    intro sorted
    have hentry : (insertBySite entry sorted ++ rest).Perm (entry :: sorted ++ rest) :=
      insertBySite_perm.append_right rest
    exact (ih _).trans (hentry.trans List.perm_middle.symm)

/-- In the order of the source. -/
def InOrder (entries : List (String × Token × DeclarationKind)) : Prop :=
  entries.Pairwise fun entry other => entry.2.1.span.start ≤ other.2.1.span.start

theorem InOrder.insertBySite (h : InOrder sorted) : InOrder (insertBySite entry sorted) := by
  induction sorted with
  | nil => exact List.pairwise_singleton _ _
  | cons other rest ih =>
    obtain ⟨hother, hrest⟩ := List.pairwise_cons.mp h
    rw [StaticScope.insertBySite]
    split
    · next hle =>
      refine List.pairwise_cons.mpr ⟨fun later hlater => ?_, ih hrest⟩
      rcases List.mem_cons.mp (insertBySite_perm.subset hlater) with rfl | hlater
      · exact hle
      · exact hother later hlater
    · next hlt =>
      have hfirst := Nat.le_of_not_le hlt
      refine List.pairwise_cons.mpr ⟨List.forall_mem_cons.mpr ⟨hfirst, fun later hlater => ?_⟩, h⟩
      exact Nat.le_trans hfirst (hother later hlater)

theorem inOrder_sortBySite : InOrder (sortBySite entries) := by
  suffices h : ∀ sorted, InOrder sorted →
      InOrder (entries.foldl (fun sorted entry => StaticScope.insertBySite entry sorted) sorted) from
    h [] .nil
  induction entries with
  | nil => exact fun _ h => h
  | cons entry rest ih => exact fun sorted h => ih _ h.insertBySite

/-- Names that stand in different places are sorted in one way only. -/
theorem sortBySite_eq (hperm : entries.Perm sorted)
    (h : sorted.Pairwise fun entry other => entry.2.1.span.start < other.2.1.span.start) :
    sortBySite entries = sorted := by
  have hsorted : InOrder sorted := h.imp Nat.le_of_lt
  have hplaces : sorted.Pairwise fun entry other =>
      entry.2.1.span.start ≠ other.2.1.span.start := h.imp Nat.ne_of_lt
  have hsame : (sortBySite entries).Perm sorted := sortBySite_perm.trans hperm
  have hsymm : Std.Symm fun entry other : String × Token × DeclarationKind =>
      entry.2.1.span.start ≠ other.2.1.span.start := ⟨fun _ _ hne => hne.symm⟩
  refine hsame.eq_of_pairwise (fun entry other hentry hother hle hge => ?_) inOrder_sortBySite
    hsorted
  by_contra hne
  exact hplaces.forall (hsame.subset hentry) hother hne (Nat.le_antisymm hle hge)

/-- The names that a scope tells of are those that wait to be used. -/
theorem unused_eq (scope : StaticScope) :
    scope.unused = sortBySite (scope.names.entries.filterMap fun entry =>
      entry.2.pending.map (entry.1, ·)) := by
  refine congrArg sortBySite (List.filterMap_congr fun entry _ => ?_)
  obtain ⟨name, binding⟩ := entry
  dsimp only [StaticBinding.pending]
  split
  · rfl
  · rw [Option.map_map]
    rfl

/-! ## What becomes of a scope -/

/-- A scope in which names have been declared and names have been used. -/
structure Becomes (before after : StaticScope) (news : List (Token × DeclarationKind))
    (used : String → Bool) : Prop where
  keys : after.names.keys = before.names.keys ++ news.map fun d => d.1.lexeme
  fresh : ∀ d ∈ news, d.1.lexeme ∉ before.names.keys
  distinct : (news.map fun d => d.1.lexeme).Nodup
  /-- What is used has been declared. -/
  known : ∀ name, used name = true → name ∈ after.names.keys
  kept : ∀ name ∈ before.names.keys,
    after.pending name = if used name then none else before.pending name
  added : ∀ d ∈ news, after.pending d.1.lexeme = if used d.1.lexeme then none else some d

namespace Becomes

variable {scope before mid after : StaticScope} {news news' : List (Token × DeclarationKind)}
  {used used' : String → Bool}

theorem same (hkeys : after.names.keys = before.names.keys)
    (hpending : ∀ name, after.pending name = before.pending name) :
    before.Becomes after [] fun _ => false where
  keys := by rw [hkeys, List.map_nil, List.append_nil]
  fresh _ h := absurd h List.not_mem_nil
  distinct := .nil
  known _ h := absurd h Bool.false_ne_true
  kept name _ := hpending name
  added _ h := absurd h List.not_mem_nil

theorem trans (h : before.Becomes mid news used) (h' : mid.Becomes after news' used') :
    before.Becomes after (news ++ news') fun name => used name || used' name where
  keys := by rw [h'.keys, h.keys, List.append_assoc, List.map_append]
  fresh := by
    refine List.forall_mem_append.mpr ⟨h.fresh, fun d hd hold => h'.fresh d hd ?_⟩
    rw [h.keys]
    exact List.mem_append_left _ hold
  distinct := by
    rw [List.map_append]
    refine List.nodup_append.mpr ⟨h.distinct, h'.distinct, ?_⟩
    rintro _ hnew _ hnew' rfl
    obtain ⟨d, hd, heq⟩ := List.mem_map.mp hnew'
    refine h'.fresh d hd ?_
    rw [h.keys, heq]
    exact List.mem_append_right _ hnew
  known name hname := by
    rw [h'.keys]
    rcases (Bool.or_eq_true _ _).mp hname with hname | hname
    · exact List.mem_append_left _ (h.known name hname)
    · exact h'.keys ▸ h'.known name hname
  kept name hname := by
    have hmid : name ∈ mid.names.keys := by
      rw [h.keys]
      exact List.mem_append_left _ hname
    rw [h'.kept name hmid, h.kept name hname]
    cases used name <;> cases used' name <;> rfl
  added := by
    refine List.forall_mem_append.mpr ⟨fun d hd => ?_, fun d hd => ?_⟩
    · have hmid : d.1.lexeme ∈ mid.names.keys := by
        rw [h.keys]
        exact List.mem_append_right _ (List.mem_map_of_mem hd)
      rw [h'.kept _ hmid, h.added d hd]
      cases used d.1.lexeme <;> cases used' d.1.lexeme <;> rfl
    · -- Nothing uses a name of this scope before it is declared.
      have hunused : used d.1.lexeme = false :=
        Bool.eq_false_iff.mpr fun hused => h'.fresh d hd (h.known _ hused)
      rw [h'.added d hd, hunused, Bool.false_or]

theorem declared {name : Token} {kind : DeclarationKind} (hnew : name.lexeme ∉ scope.names.keys) :
    scope.Becomes { scope with names := scope.names.insert name.lexeme (.declared kind name) }
      [(name, kind)] fun _ => false where
  keys := NameMap.keys_insert_of_new _ hnew
  fresh := List.forall_mem_singleton.mpr hnew
  distinct := List.nodup_singleton _
  known _ h := absurd h Bool.false_ne_true
  kept other hother := by
    have hne : name.lexeme ≠ other := fun heq => hnew (heq ▸ hother)
    exact congrArg (Option.bind · _) (NameMap.find?_insert_of_ne _ _ hne)
  added := by
    refine List.forall_mem_singleton.mpr ?_
    exact congrArg (Option.bind · _) (NameMap.find?_insert_self _ _ _)

/-- A change of a binding that does not matter to what is told of it. -/
theorem modify (scope : StaticScope) (name : String) {change : StaticBinding → StaticBinding}
    (h : ∀ binding, (change binding).pending = binding.pending) :
    scope.Becomes (scope.modify name change) [] fun _ => false := by
  refine .same (NameMap.keys_modify _ _ _) fun other => ?_
  show ((scope.names.modify name change).find? other).bind _ = (scope.names.find? other).bind _
  rw [NameMap.find?_modify]
  split
  · rw [Option.bind_map]
    exact congrArg _ (funext h)
  · rfl

theorem marked {name : String} {binding : StaticBinding} {change : StaticBinding → StaticBinding}
    (hfind : scope.names.find? name = some binding) (h : ∀ binding, (change binding).pending = none) :
    scope.Becomes (scope.modify name change) [] fun other => name == other where
  keys := (NameMap.keys_modify _ _ _).trans (List.append_nil _).symm
  fresh _ h := absurd h List.not_mem_nil
  distinct := .nil
  known other hother := by
    rw [← beq_iff_eq.mp hother, NameMap.mem_keys]
    show ((scope.names.modify name change).find? name).isSome = true
    rw [NameMap.find?_modify, if_pos rfl, hfind]
    rfl
  kept other _ := by
    show ((scope.names.modify name change).find? other).bind _ = _
    rw [NameMap.find?_modify]
    split
    · next heq =>
      rw [if_pos (beq_iff_eq.mpr heq), ← heq, hfind]
      exact h binding
    · next hne =>
      rw [if_neg (by simpa using hne)]
      rfl
  added _ h := absurd h List.not_mem_nil

/-- A scope that began with nothing to tell of tells of what has been declared in it and is not
used. -/
theorem unused (h : before.Becomes after news used) (hdistinct : before.names.keys.Nodup)
    (hquiet : ∀ name ∈ before.names.keys, before.pending name = none) :
    after.unused = sortBySite ((news.filter fun d => !used d.1.lexeme).map listed) := by
  have hkeys : after.names.keys.Nodup := by
    rw [h.keys]
    refine List.nodup_append.mpr ⟨hdistinct, h.distinct, ?_⟩
    rintro _ hold _ hnew rfl
    obtain ⟨d, hd, heq⟩ := List.mem_map.mp hnew
    exact h.fresh d hd (heq ▸ hold)
  have hold : before.names.keys.filterMap (fun name => (after.pending name).map (name, ·)) = [] := by
    refine List.filterMap_eq_nil_iff.mpr fun name hname => ?_
    rw [h.kept name hname, hquiet name hname, ite_self]
    rfl
  rw [unused_eq]
  refine congrArg sortBySite ?_
  calc after.names.entries.filterMap (fun entry => entry.2.pending.map (entry.1, ·))
    _ = after.names.entries.filterMap
        ((fun name => (after.pending name).map (name, ·)) ∘ (·.1)) := by
      refine List.filterMap_congr fun entry hentry => ?_
      rw [Function.comp, StaticScope.pending, NameMap.find?_of_mem hkeys hentry]
      rfl
    _ = after.names.keys.filterMap fun name => (after.pending name).map (name, ·) := by
      rw [← List.filterMap_map]
      rfl
    _ = (news.map fun d => d.1.lexeme).filterMap
        fun name => (after.pending name).map (name, ·) := by
      rw [h.keys, List.filterMap_append, hold, List.nil_append]
    _ = news.filterMap fun d => if used d.1.lexeme then none else some (listed d) := by
      rw [List.filterMap_map]
      refine List.filterMap_congr fun d hd => ?_
      rw [Function.comp, h.added d hd]
      split <;> rfl
    _ = (news.filter fun d => !used d.1.lexeme).map listed := by
      rw [← List.filterMap_eq_map, List.filterMap_filter]
      refine List.filterMap_congr fun d _ => ?_
      cases used d.1.lexeme <;> rfl

end Becomes

end StaticScope

end LoxLang
