import LoxLang.Proofs.Binding.Fits
import LoxLang.Proofs.Syntax.StraightLine

/-!
# Names that count as stored in

The analysis counts a name as one that has a value from the first reference to it on that is no
fault. Outside of functions an accepted expression adds to these names only those that it assigns to
(`Expr.stores`).
-/

namespace LoxLang

open Analysis

/-- Whether the analysis takes a name of a scope to have a value. -/
def StaticScope.isStored (scope : StaticScope) (name : String) : Bool :=
  (scope.names.find? name).any StaticBinding.initialized

theorem StaticScope.isStored_insert (scope : StaticScope) (name other : String)
    (binding : StaticBinding) :
    isStored { scope with names := scope.names.insert name binding } other =
      if name = other then binding.initialized else scope.isStored other := by
  rw [isStored, NameMap.find?_insert]
  split <;> rfl

/-- A mark that keeps whether a value is stored. -/
theorem StaticScope.isStored_modify (scope : StaticScope) (name other : String)
    {change : StaticBinding → StaticBinding}
    (h : ∀ binding, (change binding).initialized = binding.initialized) :
    (scope.modify name change).isStored other = scope.isStored other := by
  rw [isStored, isStored, modify, NameMap.find?_modify]
  split
  · rw [Option.any_map]
    exact congrArg (Option.any · _) (funext h)
  · rfl

/-- The mark that a reference leaves. -/
theorem StaticScope.isStored_mark {scope : StaticScope} {name other : String}
    {change : StaticBinding → StaticBinding}
    (h : (scope.modify name change).isStored other = true) :
    name = other ∨ scope.isStored other = true := by
  rw [isStored, modify, NameMap.find?_modify] at h
  split at h
  · next heq => exact .inl heq
  · exact .inr h

theorem getElem?_modifyAt (name : String) (change : StaticBinding → StaticBinding) (hops i : Nat)
    (scopes : List StaticScope) :
    (modifyAt name change hops scopes)[i]? =
      if i = hops then scopes[i]?.map fun scope => scope.modify name change else scopes[i]? := by
  induction scopes generalizing hops i with
  | nil => simp [modifyAt]
  | cons scope outer ih =>
    cases hops with
    | zero => cases i <;> simp [modifyAt]
    | succ hops => cases i <;> simp [modifyAt, ih]

/-- A reference that is no fault marks the binding that it has found. -/
theorem Analysis.exists_of_refer {a : Analysis} {id : NodeId} {name : Token} {access : Access}
    (h : (a.refer id name access).failed = false) :
    ∃ hops binding, findBinding? name.lexeme a.scopes = some (hops, binding) ∧
      problem? name.lexeme access binding = none ∧
      (a.refer id name access).scopes = modifyAt name.lexeme
        (fun binding => { binding with initialized := true, used := true }) hops a.scopes := by
  unfold refer at h ⊢
  cases hfound : findBinding? name.lexeme a.scopes with
  | none =>
    rw [hfound] at h
    cases h
  | some found =>
    obtain ⟨hops, binding⟩ := found
    rw [hfound] at h
    dsimp only at h ⊢
    split at h
    · cases h
    · next hproblem => exact ⟨hops, binding, rfl, hproblem, rfl⟩

/-- A name that is read without a fault has been stored in before. -/
theorem Analysis.exists_of_referVariable {a : Analysis} {id : NodeId} {name : Token}
    (h : (a.referVariable id name).failed = false) :
    ∃ hops binding, findBinding? name.lexeme a.scopes = some (hops, binding) ∧
      binding.initialized = true ∧
      (a.referVariable id name).scopes = modifyAt name.lexeme
        (fun binding => { binding with initialized := true, used := true }) hops a.scopes := by
  unfold referVariable at h ⊢
  split at h
  · cases h
  · next hfree =>
    rw [if_neg hfree]
    obtain ⟨hops, binding, hfound, hproblem, hscopes⟩ := exists_of_refer h
    refine ⟨hops, binding, hfound, ?_, hscopes⟩
    unfold problem? at hproblem
    by_contra hinitialized
    simp [hinitialized] at hproblem

/-- The scopes behind a part of a program: nothing but these names has come to be stored in. -/
structure Stores (names : List String) (before after : List StaticScope) : Prop where
  scope : ∀ {hops : Nat} {scope : StaticScope}, after[hops]? = some scope →
    ∃ earlier, before[hops]? = some earlier ∧
      ∀ name, scope.isStored name = true → name ∈ names ∨ earlier.isStored name = true

namespace Stores

variable {names names' : List String} {before mid after : List StaticScope}

theorem refl (scopes : List StaticScope) : Stores [] scopes scopes :=
  ⟨fun hscope => ⟨_, hscope, fun _ h => .inr h⟩⟩

theorem trans (h : Stores names before mid) (h' : Stores names' mid after) :
    Stores (names ++ names') before after := by
  refine ⟨fun {hops scope} hscope => ?_⟩
  obtain ⟨between, hbetween, hlater⟩ := h'.scope hscope
  obtain ⟨earlier, hearlier, hformer⟩ := h.scope hbetween
  refine ⟨earlier, hearlier, fun name hname => ?_⟩
  rcases hlater name hname with hmem | hstored
  · exact .inl (List.mem_append_right _ hmem)
  · rcases hformer name hstored with hmem | hstored
    · exact .inl (List.mem_append_left _ hmem)
    · exact .inr hstored

theorem imp (h : Stores names before after) (hsub : ∀ name ∈ names, name ∈ names') :
    Stores names' before after := by
  refine ⟨fun {hops scope} hscope => ?_⟩
  obtain ⟨earlier, hearlier, hnames⟩ := h.scope hscope
  exact ⟨earlier, hearlier, fun name hname => (hnames name hname).imp_left (hsub name)⟩

theorem modifyAt (name : String) (change : StaticBinding → StaticBinding) (hops : Nat)
    (scopes : List StaticScope) : Stores [name] scopes (modifyAt name change hops scopes) := by
  refine ⟨fun {i scope} hscope => ?_⟩
  rw [getElem?_modifyAt] at hscope
  split at hscope
  · obtain ⟨earlier, hearlier, rfl⟩ := Option.map_eq_some_iff.mp hscope
    refine ⟨earlier, hearlier, fun other hother => ?_⟩
    exact (StaticScope.isStored_mark hother).imp_left fun heq => List.mem_singleton.mpr heq.symm
  · exact ⟨scope, hscope, fun _ h => .inr h⟩

/-- To mark a binding that is stored in already adds nothing. -/
theorem of_stored {scopes : List StaticScope} {name : String} {hops : Nat} {binding : StaticBinding}
    (hfound : findBinding? name scopes = some (hops, binding)) (hstored : binding.initialized = true)
    (change : StaticBinding → StaticBinding) :
    Stores [] scopes (Analysis.modifyAt name change hops scopes) := by
  refine ⟨fun {i scope} hscope => ?_⟩
  obtain ⟨earlier, hearlier, hnames⟩ := (modifyAt name change hops scopes).scope hscope
  refine ⟨earlier, hearlier, fun other hother => .inr ?_⟩
  rcases hnames other hother with hmem | hother
  · obtain rfl := List.mem_singleton.mp hmem
    rw [getElem?_modifyAt] at hscope
    split at hscope
    · next hi =>
      obtain ⟨found, hfound, hbinding⟩ := exists_of_findBinding? hfound
      rw [hi, hfound] at hearlier
      cases hearlier
      rw [StaticScope.isStored, hbinding]
      exact hstored
    · rw [hscope] at hearlier
      cases hearlier
      exact hother
  · exact hother

theorem referVariable {a : Analysis} {id : NodeId} {name : Token}
    (h : (a.referVariable id name).failed = false) :
    Stores [] a.scopes (a.referVariable id name).scopes := by
  obtain ⟨hops, binding, hfound, hstored, hscopes⟩ := exists_of_referVariable h
  rw [hscopes]
  exact of_stored hfound hstored _

theorem refer {a : Analysis} {id : NodeId} {name : Token} {access : Access}
    (h : (a.refer id name access).failed = false) :
    Stores [name.lexeme] a.scopes (a.refer id name access).scopes := by
  obtain ⟨hops, binding, -, -, hscopes⟩ := exists_of_refer h
  rw [hscopes]
  exact modifyAt _ _ hops _

end Stores

theorem Analysis.scopes_modifyInnermost (a : Analysis) (name : String)
    (change : StaticBinding → StaticBinding) :
    (a.modifyInnermost name change).scopes = modifyAt name change 0 a.scopes := by
  unfold modifyInnermost
  split <;> simp [*, modifyAt]

theorem Stores.define (a : Analysis) (name : Token) : Stores [] a.scopes (a.define name).scopes := by
  rw [Analysis.define, scopes_modifyInnermost]
  refine ⟨fun {i scope} hscope => ?_⟩
  rw [getElem?_modifyAt] at hscope
  split at hscope
  · obtain ⟨earlier, hearlier, rfl⟩ := Option.map_eq_some_iff.mp hscope
    refine ⟨earlier, hearlier, fun other hother => .inr ?_⟩
    rw [StaticScope.isStored_modify] at hother
    · exact hother
    · exact fun _ => rfl
  · exact ⟨scope, hscope, fun _ h => .inr h⟩

/-- A name that is declared is not stored in. -/
theorem Analysis.stored_declare {settings : Settings} {kind : DeclarationKind} {name : Token}
    {a : Analysis} {hops : Nat} {scope : StaticScope}
    (h : (a.declare settings kind name).scopes[hops]? = some scope) :
    ∃ earlier, a.scopes[hops]? = some earlier ∧ ∀ other, scope.isStored other = true →
      (hops = 0 → other ≠ name.lexeme) ∧ earlier.isStored other = true := by
  have hchecked := (checkDeclaration_eq settings kind name a).1
  rw [declare, enter, hchecked] at h
  split at h
  · next hnone =>
    rw [hchecked, hnone] at h
    cases h
  · next first outer hscopes =>
    rw [hscopes]
    cases hops with
    | zero =>
      cases h
      refine ⟨first, rfl, fun other hother => ?_⟩
      rw [StaticScope.isStored_insert] at hother
      split at hother
      · cases hother
      · next hne => exact ⟨fun _ heq => hne heq.symm, hother⟩
    | succ hops => exact ⟨scope, h, fun _ hother => ⟨fun hzero => absurd hzero (Nat.succ_ne_zero hops), hother⟩⟩

theorem Stores.declare {settings : Settings} (kind : DeclarationKind) (name : Token)
    (a : Analysis) : Stores [] a.scopes (a.declare settings kind name).scopes := by
  refine ⟨fun hscope => ?_⟩
  obtain ⟨earlier, hearlier, hnames⟩ := stored_declare hscope
  exact ⟨earlier, hearlier, fun other hother => .inr (hnames other hother).2⟩

/-- A name whose initializer has been read is stored in where it is declared. -/
theorem Analysis.stored_markReady {name : Token} {a : Analysis} {hops : Nat} {scope : StaticScope}
    (h : (a.markReady name).scopes[hops]? = some scope) :
    ∃ earlier, a.scopes[hops]? = some earlier ∧ ∀ other, scope.isStored other = true →
      hops = 0 ∧ other = name.lexeme ∨ earlier.isStored other = true := by
  rw [markReady, scopes_modifyInnermost, getElem?_modifyAt] at h
  split at h
  · next hzero =>
    obtain ⟨earlier, hearlier, rfl⟩ := Option.map_eq_some_iff.mp h
    exact ⟨earlier, hearlier, fun other hother =>
      (StaticScope.isStored_mark hother).imp_left fun heq => ⟨hzero, heq.symm⟩⟩
  · exact ⟨scope, h, fun _ hother => .inr hother⟩

/-- Outside of classes there is no object to refer to. -/
theorem Analysis.failed_referThis {a : Analysis} (h : a.around.classRole = .none) (id : NodeId)
    (keyword : Token) : (a.referThis id keyword).failed = true := by
  rw [referThis, h]
  rfl

theorem Analysis.failed_referSuper {a : Analysis} (h : a.around.classRole = .none) (id : NodeId)
    (keyword : Token) : (a.referSuper id keyword).failed = true := by
  rw [referSuper, h]
  rfl

theorem Analysed.outsideClass {grow : List Rib → List Rib} {a b : Analysis} {visits : List Visit}
    {references : List Reference} (h : Analysed grow a b visits references)
    (hrole : a.around.classRole = .none) : b.around.classRole = .none :=
  (congrArg Surroundings.classRole h.around).trans hrole

mutual

/-- A straight-line expression that is accepted outside of classes. -/
theorem Expr.stores {record : Record} : ∀ (e : Expr) {a : Analysis}, e.isStraight = true →
    a.around.classRole = .none →
    Ready record e.Regular (e.analyse record.settings a) (e.visits record.settings a) →
      Stores e.assigned a.scopes (e.analyse record.settings a).scopes
  | .literal _, _, _, _, _ => .refl _
  | .grouping inner, _, h, hrole, hready => inner.stores h hrole hready
  | .unary _ right, _, h, hrole, hready => right.stores h hrole hready
  | .binary left _ right, a, h, hrole, hready => by
    obtain ⟨hl, hr⟩ := Bool.and_eq_true_iff.mp h
    have hl' := hready.regular.1
    have hr' := hready.regular.2.1
    exact (left.stores hl hrole (hready.left And.left (right.analysed _ _ hr').toWalk)).trans
      (right.stores hr ((left.analysed _ a hl').outsideClass hrole)
        (hready.right (·.2.1)))
  | .variable _ _, _, _, _, hready => .referVariable hready.accepted
  | .assign id name value, a, h, hrole, hready => by
    let valued := value.analyse record.settings a
    have hnode : Analysed _ valued (valued.refer id name .write) _ [⟨.assign, id, name⟩] := .refer rfl
    exact (value.stores h hrole (hready.left And.left hnode.toWalk)).trans
      (.refer (a := valued) hready.accepted)
  | .call callee _ arguments, a, h, hrole, hready => by
    obtain ⟨hc, hargs⟩ := Bool.and_eq_true_iff.mp h
    have hc' := hready.regular.1
    have hargs' := hready.regular.2.1
    exact (callee.stores hc hrole
      (hready.left And.left (analysedEach _ arguments _ hargs').toWalk)).trans
      (storesEach arguments hargs ((callee.analysed _ a hc').outsideClass hrole)
        (hready.right (·.2.1)))
  | .get object _, _, h, hrole, hready => object.stores h hrole hready
  | .set object _ value, a, h, hrole, hready => by
    obtain ⟨ho, hv⟩ := Bool.and_eq_true_iff.mp h
    have ho' := hready.regular.1
    have hv' := hready.regular.2.1
    exact ((value.stores hv hrole (hready.left (·.2.1) (object.analysed _ _ ho').toWalk)).trans
      (object.stores ho ((value.analysed _ a hv').outsideClass hrole)
        (hready.right And.left))).imp fun _ hname =>
          List.mem_append.mpr (List.mem_append.mp hname).symm
  | .this id keyword, _, _, hrole, hready => by
    have haccepted := hready.accepted
    cases (failed_referThis hrole id keyword).symm.trans haccepted
  | .super id keyword _, _, _, hrole, hready => by
    have haccepted := hready.accepted
    cases (failed_referSuper hrole id keyword).symm.trans haccepted
  | .logical _ _ _, _, h, _, _ | .ternary _ _ _ _, _, h, _, _ | .arrow _, _, h, _, _ =>
    absurd h Bool.false_ne_true

theorem storesEach {record : Record} : ∀ (es : List Expr) {a : Analysis}, areStraight es = true →
    a.around.classRole = .none →
    Ready record (RegularEach es) (analyseEach record.settings es a)
      (visitsOfEach record.settings es a) →
      Stores (assignedByEach es) a.scopes (analyseEach record.settings es a).scopes
  | [], _, _, _, _ => .refl _
  | e :: es, a, h, hrole, hready => by
    obtain ⟨he, hes⟩ := Bool.and_eq_true_iff.mp h
    have he' := hready.regular.1
    have hes' := hready.regular.2.1
    exact (e.stores he hrole (hready.left And.left (analysedEach _ es _ hes').toWalk)).trans
      (storesEach es hes ((e.analysed _ a he').outsideClass hrole)
        (hready.right (·.2.1)))

end

end LoxLang
