import LoxLang.Binding.Analysis

/-!
# Ribs

A scope of the static analysis without the marks that references leave in it: the construct it was
opened for and, for each of its names, whether it may be assigned to and whether its declaration is
complete. References do not change ribs (`refer_eq`), and declarations change the innermost one
(`declare_eq`, `ribs_define`).
-/

namespace LoxLang

/-- What does not change about a declared name, but for the end of its declaration. -/
structure Status where
  isMutable : Bool
  defined : Bool

def StaticBinding.status (binding : StaticBinding) : Status :=
  ⟨binding.isMutable, binding.defined⟩

structure Rib where
  kind : ScopeKind
  status : String → Option Status

namespace Rib

/-- A scope in which nothing has been declared. -/
def bare (kind : ScopeKind) : Rib := ⟨kind, fun _ => none⟩

def set (rib : Rib) (name : String) (status : Status) : Rib :=
  { rib with status := fun other => if name = other then some status else rib.status other }

/-- Complete the declaration of a name. -/
def define (rib : Rib) (name : String) : Rib :=
  { rib with status := fun other =>
      if name = other then (rib.status other).map fun status => { status with defined := true }
      else rib.status other }

/-- The number of ribs before the first that has the name. -/
def hops? (name : String) : List Rib → Option Nat
  | [] => none
  | rib :: outer => if (rib.status name).isSome then some 0 else (hops? name outer).map (· + 1)

/-- The first rib that has the name. -/
theorem exists_of_hops? {name : String} {ribs : List Rib} {hops : Nat}
    (h : hops? name ribs = some hops) :
    (∃ rib status, ribs[hops]? = some rib ∧ rib.status name = some status) ∧
      ∀ i < hops, ∀ rib, ribs[i]? = some rib → rib.status name = none := by
  induction ribs generalizing hops with
  | nil => cases h
  | cons first outer ih =>
    rw [hops?] at h
    split at h
    · next hfirst =>
      cases h
      obtain ⟨status, hstatus⟩ := Option.isSome_iff_exists.mp hfirst
      exact ⟨⟨first, status, rfl, hstatus⟩, fun i hi => absurd hi (Nat.not_lt_zero i)⟩
    · next hfirst =>
      obtain ⟨further, hfurther, rfl⟩ := Option.map_eq_some_iff.mp h
      obtain ⟨hfound, hbefore⟩ := ih hfurther
      refine ⟨hfound, fun i hi rib hrib => ?_⟩
      cases i with
      | zero =>
        cases hrib
        exact Option.not_isSome_iff_eq_none.mp hfirst
      | succ i => exact hbefore i (Nat.lt_of_succ_lt_succ hi) rib hrib

/-- The construct of each rib and what it shows of one name. -/
def views (name : String) (ribs : List Rib) : List (ScopeKind × Option Status) :=
  ribs.map fun rib => (rib.kind, rib.status name)

theorem exists_of_views {name : String} {ribs ribs' : List Rib}
    (h : views name ribs = views name ribs') {i : Nat} {rib : Rib} (hrib : ribs[i]? = some rib) :
    ∃ rib', ribs'[i]? = some rib' ∧ rib'.kind = rib.kind ∧ rib'.status name = rib.status name := by
  have hview : (views name ribs')[i]? = some (rib.kind, rib.status name) := by
    rw [← h, views, List.getElem?_map, hrib]
    rfl
  rw [views, List.getElem?_map] at hview
  obtain ⟨rib', hrib', heq⟩ := Option.map_eq_some_iff.mp hview
  exact ⟨rib', hrib', (Prod.mk.inj heq).1, (Prod.mk.inj heq).2⟩

@[simp] theorem set_kind (rib : Rib) (name : String) (status : Status) :
    (rib.set name status).kind = rib.kind := rfl

@[simp] theorem set_status_self (rib : Rib) (name : String) (status : Status) :
    (rib.set name status).status name = some status := by
  simp [set]

theorem set_status_of_ne (rib : Rib) {name other : String} (status : Status) (h : name ≠ other) :
    (rib.set name status).status other = rib.status other := by
  simp [set, h]

theorem define_set (rib : Rib) (name : String) (status : Status) :
    (rib.set name status).define name = rib.set name { status with defined := true } := by
  simp only [define, set, mk.injEq, true_and]
  funext other
  by_cases h : name = other <;> simp [h]

/-- Change the innermost rib. -/
def onHead (change : Rib → Rib) : List Rib → List Rib
  | [] => []
  | rib :: outer => change rib :: outer

@[simp] theorem onHead_nil (change : Rib → Rib) : onHead change [] = [] := rfl

@[simp] theorem onHead_cons (change : Rib → Rib) (rib : Rib) (outer : List Rib) :
    onHead change (rib :: outer) = change rib :: outer := rfl

@[simp] theorem tail_onHead (change : Rib → Rib) (ribs : List Rib) :
    (onHead change ribs).tail = ribs.tail := by
  cases ribs <;> rfl

theorem onHead_onHead (f g : Rib → Rib) (ribs : List Rib) :
    onHead f (onHead g ribs) = onHead (fun rib => f (g rib)) ribs := by
  cases ribs <;> rfl

theorem onHead_eq_self {f : Rib → Rib} (h : ∀ rib, f rib = rib) (ribs : List Rib) :
    onHead f ribs = ribs := by
  cases ribs <;> simp [h]

theorem views_onHead_set {name other : String} (h : name ≠ other) (status : Status)
    (ribs : List Rib) : views other (onHead (·.set name status) ribs) = views other ribs := by
  cases ribs with
  | nil => rfl
  | cons rib outer => simp [views, set_status_of_ne rib status h]

end Rib

namespace StaticScope

def rib (scope : StaticScope) : Rib :=
  ⟨scope.kind, fun name => (scope.names.find? name).map StaticBinding.status⟩

theorem rib_insert (scope : StaticScope) (name : String) (binding : StaticBinding) :
    rib { scope with names := scope.names.insert name binding } =
      scope.rib.set name binding.status := by
  simp only [rib, Rib.set, Rib.mk.injEq, true_and]
  funext other
  by_cases h : name = other <;> simp [NameMap.find?_insert, h]

/-- A change that keeps what a rib shows of a binding is not seen in the rib. -/
theorem rib_modify_of_status (scope : StaticScope) (name : String)
    (change : StaticBinding → StaticBinding)
    (h : ∀ binding, (change binding).status = binding.status) :
    (scope.modify name change).rib = scope.rib := by
  simp only [rib, modify, Rib.mk.injEq, true_and]
  funext other
  by_cases hname : name = other
  · cases hfind : scope.names.find? other <;> simp [NameMap.find?_modify, hname, hfind, h]
  · simp [NameMap.find?_modify, hname]

theorem rib_modify_defined (scope : StaticScope) (name : String) :
    (scope.modify name fun binding => { binding with defined := true }).rib =
      scope.rib.define name := by
  simp only [rib, modify, Rib.define, Rib.mk.injEq, true_and]
  funext other
  by_cases hname : name = other
  · cases hfind : scope.names.find? other <;>
      simp [NameMap.find?_modify, hname, hfind, StaticBinding.status]
  · simp [NameMap.find?_modify, hname]

end StaticScope

/-- The ribs of open scopes, the innermost first. -/
def ribsOf (scopes : List StaticScope) : List Rib :=
  scopes.map StaticScope.rib

theorem ribsOf_modifyAt (name : String) (change : StaticBinding → StaticBinding)
    (h : ∀ binding, (change binding).status = binding.status) (hops : Nat)
    (scopes : List StaticScope) :
    ribsOf (Analysis.modifyAt name change hops scopes) = ribsOf scopes := by
  induction scopes generalizing hops with
  | nil => cases hops <;> rfl
  | cons scope outer ih =>
    cases hops with
    | zero => simp [Analysis.modifyAt, ribsOf, StaticScope.rib_modify_of_status scope name change h]
    | succ hops =>
      have := ih hops
      simp_all [Analysis.modifyAt, ribsOf]

theorem hops?_ribsOf (name : String) (scopes : List StaticScope) :
    Rib.hops? name (ribsOf scopes) = (Analysis.findBinding? name scopes).map (·.1) := by
  induction scopes with
  | nil => rfl
  | cons scope outer ih =>
    simp only [ribsOf, List.map_cons, Rib.hops?, Analysis.findBinding?] at ih ⊢
    cases hfind : scope.names.find? name with
    | some binding => simp [StaticScope.rib, hfind]
    | none =>
      simp only [StaticScope.rib, hfind, Option.map_none, Option.isSome_none, Bool.false_eq_true,
        if_false, Option.map_map]
      rw [ih, Option.map_map]
      rfl

/-- The binding of a name is that of the scope at its distance. -/
theorem exists_of_findBinding? {name : String} {scopes : List StaticScope} {hops : Nat}
    {binding : StaticBinding} (h : Analysis.findBinding? name scopes = some (hops, binding)) :
    ∃ scope, scopes[hops]? = some scope ∧ scope.names.find? name = some binding := by
  induction scopes generalizing hops with
  | nil => cases h
  | cons scope outer ih =>
    rw [Analysis.findBinding?] at h
    split at h
    · next hfind =>
      cases h
      exact ⟨scope, rfl, hfind⟩
    · obtain ⟨⟨further, found⟩, hfound, heq⟩ := Option.map_eq_some_iff.mp h
      cases heq
      exact ih hfound

namespace Analysis

def ribs (a : Analysis) : List Rib := ribsOf a.scopes

/-! ## Each step of an analysis

What it does to the ribs, and that it leaves the surroundings and the distances alone. -/

variable {settings : Settings} {a : Analysis}

@[simp] theorem ribs_fail (cause : StaticFault) (token : Token) :
    (a.fail cause token).ribs = a.ribs := rfl

@[simp] theorem ribs_openScope (kind : ScopeKind) :
    (a.openScope kind).ribs = .bare kind :: a.ribs := rfl

@[simp] theorem ribs_enter (name : String) (binding : StaticBinding) :
    (a.enter name binding).ribs = Rib.onHead (·.set name binding.status) a.ribs := by
  unfold enter ribs
  split <;> simp [*, ribsOf, StaticScope.rib_insert]

theorem enter_eq (name : String) (binding : StaticBinding) :
    (a.enter name binding).around = a.around ∧ (a.enter name binding).distances = a.distances ∧
      (a.enter name binding).failed = a.failed := by
  unfold enter
  split <;> exact ⟨rfl, rfl, rfl⟩

theorem modifyInnermost_eq (name : String) (change : StaticBinding → StaticBinding) :
    (a.modifyInnermost name change).around = a.around ∧
      (a.modifyInnermost name change).distances = a.distances ∧
      (a.modifyInnermost name change).failed = a.failed := by
  unfold modifyInnermost
  split <;> exact ⟨rfl, rfl, rfl⟩

@[simp] theorem ribs_markReady (name : Token) : (a.markReady name).ribs = a.ribs := by
  unfold markReady modifyInnermost ribs
  split
  · rfl
  · next scope outer h =>
    simp [h, ribsOf, StaticScope.rib_modify_of_status scope name.lexeme
      (fun binding => { binding with initialized := true }) fun _ => rfl]

@[simp] theorem ribs_define (name : Token) :
    (a.define name).ribs = Rib.onHead (·.define name.lexeme) a.ribs := by
  unfold define modifyInnermost ribs
  split <;> simp [*, ribsOf, StaticScope.rib_modify_defined]

theorem foldl_warnUnused_eq (entries : List (String × Token × DeclarationKind)) (a : Analysis) :
    (entries.foldl warnUnused a).scopes = a.scopes ∧
      (entries.foldl warnUnused a).around = a.around ∧
      (entries.foldl warnUnused a).distances = a.distances ∧
      (entries.foldl warnUnused a).failed = a.failed := by
  induction entries generalizing a with
  | nil => exact ⟨rfl, rfl, rfl, rfl⟩
  | cons entry rest ih => exact ih _

/-- To close a scope only takes it away; the warnings go to the log. -/
theorem closeScope_eq (settings : Settings) (a : Analysis) :
    (a.closeScope settings).scopes = a.scopes.tail ∧
      (a.closeScope settings).around = a.around ∧
      (a.closeScope settings).distances = a.distances ∧
      (a.closeScope settings).failed = a.failed := by
  unfold closeScope
  split
  · next h => exact ⟨by simp [h], rfl, rfl, rfl⟩
  · next h =>
    rw [h]
    split
    · exact foldl_warnUnused_eq _ _
    · exact ⟨rfl, rfl, rfl, rfl⟩

@[simp] theorem ribs_closeScope : (a.closeScope settings).ribs = a.ribs.tail := by
  rw [ribs, (closeScope_eq settings a).1, ribs, ribsOf, ribsOf, List.map_tail]

theorem warnShadow_eq (name : Token) (hidden : StaticBinding) :
    (a.warnShadow name hidden).scopes = a.scopes ∧
      (a.warnShadow name hidden).around = a.around ∧
      (a.warnShadow name hidden).distances = a.distances ∧
      (a.warnShadow name hidden).failed = a.failed := by
  unfold warnShadow
  split <;> exact ⟨rfl, rfl, rfl, rfl⟩

theorem checkDeclaration_eq (settings : Settings) (kind : DeclarationKind) (name : Token)
    (a : Analysis) :
    (a.checkDeclaration settings kind name).scopes = a.scopes ∧
      (a.checkDeclaration settings kind name).around = a.around ∧
      (a.checkDeclaration settings kind name).distances = a.distances ∧
      (a.checkDeclaration settings kind name).failed = (a.failed || a.declares name.lexeme) := by
  unfold checkDeclaration
  split
  · next h => exact ⟨rfl, rfl, rfl, by simp [h, fail]⟩
  · next h =>
    rw [Bool.not_eq_true] at h
    split
    · split
      · next hidden _ =>
        obtain ⟨hs, ha, hd, hf⟩ := warnShadow_eq (a := a) name hidden
        exact ⟨hs, ha, hd, by simp [h, hf]⟩
      · exact ⟨rfl, rfl, rfl, by simp [h]⟩
    · exact ⟨rfl, rfl, rfl, by simp [h]⟩

/-- A declaration enters its name into the innermost scope, and is a fault only if the name is
there already. -/
theorem declare_eq (settings : Settings) (kind : DeclarationKind) (name : Token) (a : Analysis) :
    (a.declare settings kind name).ribs =
        Rib.onHead (·.set name.lexeme ⟨kind.isMutable, false⟩) a.ribs ∧
      (a.declare settings kind name).around = a.around ∧
      (a.declare settings kind name).distances = a.distances ∧
      (a.declare settings kind name).failed = (a.failed || a.declares name.lexeme) := by
  obtain ⟨hs, ha, hd, hf⟩ := checkDeclaration_eq settings kind name a
  refine ⟨?_, ?_, ?_, ?_⟩
  · rw [declare, ribs_enter, ribs, hs]
    rfl
  · simp [declare, enter_eq, ha]
  · simp [declare, enter_eq, hd]
  · simp [declare, enter_eq, hf]

theorem declares_eq_false {name : String} {rib : Rib} {outer : List Rib}
    (hribs : a.ribs = rib :: outer) : a.declares name = false ↔ rib.status name = none := by
  obtain ⟨scopes, _, _, _, _⟩ := a
  cases scopes with
  | nil => cases hribs
  | cons scope rest =>
    cases hribs
    simp [declares, StaticScope.contains, NameMap.contains, StaticScope.rib]

theorem declareReady_eq (settings : Settings) (kind : DeclarationKind) (name : Token)
    (a : Analysis) :
    (a.declareReady settings kind name).ribs =
        Rib.onHead (·.set name.lexeme ⟨kind.isMutable, true⟩) a.ribs ∧
      (a.declareReady settings kind name).around = a.around ∧
      (a.declareReady settings kind name).distances = a.distances ∧
      (a.declareReady settings kind name).failed = (a.failed || a.declares name.lexeme) := by
  obtain ⟨hr, ha, hd, hf⟩ := declare_eq settings kind name a
  refine ⟨?_, ?_, ?_, ?_⟩
  · simp [declareReady, hr, Rib.onHead_onHead, Rib.define_set]
  · simp [declareReady, define, markReady, modifyInnermost_eq, ha]
  · simp [declareReady, define, markReady, modifyInnermost_eq, hd]
  · simp [declareReady, define, markReady, modifyInnermost_eq, hf]

/-- A reference marks its binding as used; no rib shows that. -/
theorem refer_eq (id : NodeId) (name : Token) (access : Access) (a : Analysis) :
    (a.refer id name access).ribs = a.ribs ∧ (a.refer id name access).around = a.around := by
  unfold refer
  split
  · exact ⟨rfl, rfl⟩
  · have h := ribsOf_modifyAt name.lexeme
      (fun binding => { binding with initialized := true, used := true }) (fun _ => rfl)
    split <;> exact ⟨h _ _, rfl⟩

/-- A reference that is no fault has found its binding and notes the distance. -/
theorem distances_refer {id : NodeId} {name : Token} {access : Access}
    (h : (a.refer id name access).failed = false) :
    a.failed = false ∧ ∃ hops, Rib.hops? name.lexeme a.ribs = some hops ∧
      (a.refer id name access).distances = a.distances.insert id hops := by
  unfold refer at h ⊢
  rw [ribs, hops?_ribsOf]
  cases hfound : findBinding? name.lexeme a.scopes with
  | none =>
    rw [hfound] at h
    cases h
  | some found =>
    obtain ⟨hops, binding⟩ := found
    rw [hfound] at h
    dsimp only at h ⊢
    split at h
    · cases h
    · next hproblem => exact ⟨h, hops, rfl, rfl⟩

end Analysis

end LoxLang
