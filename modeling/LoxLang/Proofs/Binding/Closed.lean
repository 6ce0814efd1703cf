import LoxLang.Proofs.Binding.Sites

/-!
# Closed functions

A function is closed if every name in it, those of the functions inside of it included, is bound
inside of it (`ClosedFunction`): by its parameters, its variables or a scope of its body. What stands
outside does not matter for its names (`sitesOfBody_append`), so that the analysis found all of them
before it came to a scope that lies outside (`FunctionFits.within`).
-/

namespace LoxLang

/-! ## Scopes outside -/

theorem Rib.onHead_append (change : Rib → Rib) {ribs : List Rib} (h : ribs ≠ [])
    (outer : List Rib) : onHead change (ribs ++ outer) = onHead change ribs ++ outer := by
  cases ribs with
  | nil => exact absurd rfl h
  | cons => rfl

theorem Rib.onHead_ne_nil (change : Rib → Rib) {ribs : List Rib} (h : ribs ≠ []) :
    onHead change ribs ≠ [] := by
  cases ribs with
  | nil => exact h
  | cons => exact List.cons_ne_nil _ _

theorem declaring_append (declaration : Option (Token × DeclarationKind)) {ribs : List Rib}
    (h : ribs ≠ []) (outer : List Rib) :
    declaring declaration (ribs ++ outer) = declaring declaration ribs ++ outer := by
  cases declaration with
  | none => rfl
  | some => exact Rib.onHead_append _ h outer

theorem declaring_ne_nil (declaration : Option (Token × DeclarationKind)) {ribs : List Rib}
    (h : ribs ≠ []) : declaring declaration ribs ≠ [] := by
  cases declaration with
  | none => exact h
  | some => exact Rib.onHead_ne_nil _ h

theorem growBranch_append (s : Option Stmt) {ribs : List Rib} (h : ribs ≠ []) (outer : List Rib) :
    growBranch s (ribs ++ outer) = growBranch s ribs ++ outer := by
  cases s with
  | none => rfl
  | some => exact declaring_append _ h outer

theorem growBranch_ne_nil (s : Option Stmt) {ribs : List Rib} (h : ribs ≠ []) :
    growBranch s ribs ≠ [] := by
  cases s with
  | none => exact h
  | some => exact declaring_ne_nil _ h

/-- The first rib that has a name is found before those outside are looked at. -/
theorem Rib.hops?_append {name : String} {ribs : List Rib} {hops : Nat}
    (h : hops? name ribs = some hops) (outer : List Rib) :
    hops? name (ribs ++ outer) = some hops ∧ hops < ribs.length := by
  induction ribs generalizing hops with
  | nil => cases h
  | cons rib ribs ih =>
    rw [hops?] at h
    rw [List.cons_append, hops?]
    split at h
    · next hfirst =>
      cases h
      exact ⟨if_pos hfirst, Nat.zero_lt_succ _⟩
    · next hfirst =>
      obtain ⟨further, hfurther, rfl⟩ := Option.map_eq_some_iff.mp h
      obtain ⟨hfound, hlt⟩ := ih hfurther
      exact ⟨by rw [if_neg hfirst, hfound]; rfl, Nat.succ_lt_succ hlt⟩

/-- A node with more scopes around it. -/
def Site.within (outer : List Rib) (site : Site) : Site := ⟨site.reference, site.ribs ++ outer⟩

section Sites

variable (outer : List Rib)

/-- Nodes of parts that stand side by side. -/
theorem map_within_append (former latter : List Site) {former' latter' : List Site}
    (h : former' = former.map (Site.within outer)) (h' : latter' = latter.map (Site.within outer)) :
    former' ++ latter' = (former ++ latter).map (Site.within outer) := by
  rw [List.map_append, h, h']

mutual

/-- More scopes around a part of a tree are around each of its nodes. -/
theorem Expr.sites_append : ∀ (e : Expr) {ribs : List Rib}, ribs ≠ [] →
    e.sites (ribs ++ outer) = (e.sites ribs).map (Site.within outer)
  | .literal _, _, _ => rfl
  | .grouping inner, _, h => inner.sites_append h
  | .unary _ right, _, h => right.sites_append h
  | .binary left _ right, _, h | .logical left _ right, _, h =>
    map_within_append outer _ _ (left.sites_append h) (right.sites_append h)
  | .ternary condition _ thenBranch elseBranch, _, h =>
    map_within_append outer _ _
      (map_within_append outer _ _ (condition.sites_append h) (thenBranch.sites_append h))
      (elseBranch.sites_append h)
  | .variable _ _, _, _ | .this _ _, _, _ | .super _ _ _, _, _ => rfl
  | .assign _ _ value, _, h => map_within_append outer _ _ (value.sites_append h) rfl
  | .call callee _ arguments, _, h =>
    map_within_append outer _ _ (callee.sites_append h) (sitesOfEach_append arguments h)
  | .get object _, _, h => object.sites_append h
  | .set object _ value, _, h =>
    map_within_append outer _ _ (value.sites_append h) (object.sites_append h)
  | .arrow ⟨_, _, body⟩, _, _ => sitesOfBody_append body (List.cons_ne_nil _ _)

theorem sitesOfEach_append : ∀ (es : List Expr) {ribs : List Rib}, ribs ≠ [] →
    sitesOfEach es (ribs ++ outer) = (sitesOfEach es ribs).map (Site.within outer)
  | [], _, _ => rfl
  | e :: es, _, h => map_within_append outer _ _ (e.sites_append h) (sitesOfEach_append es h)

theorem sitesOfOptional_append : ∀ (e : Option Expr) {ribs : List Rib}, ribs ≠ [] →
    sitesOfOptional e (ribs ++ outer) = (sitesOfOptional e ribs).map (Site.within outer)
  | none, _, _ => rfl
  | some e, _, h => e.sites_append h

theorem Stmt.sites_append : ∀ (s : Stmt) {ribs : List Rib}, ribs ≠ [] →
    s.sites (ribs ++ outer) = (s.sites ribs).map (Site.within outer)
  | .expression value, _, h | .print value, _, h | .println value, _, h => value.sites_append h
  | .var name initializer, ribs, h => by
    have hinside := Rib.onHead_ne_nil (·.set name.lexeme ⟨true, false⟩) h
    have hinitializer := sitesOfOptional_append initializer hinside
    rw [← Rib.onHead_append _ h] at hinitializer
    exact hinitializer
  | .const name initializer, ribs, h => by
    have hinside := Rib.onHead_ne_nil (·.set name.lexeme ⟨false, false⟩) h
    have hinitializer := initializer.sites_append hinside
    rw [← Rib.onHead_append _ h] at hinitializer
    exact hinitializer
  | .block body, _, _ => sitesOfBody_append body (List.cons_ne_nil _ _)
  | .ifElse condition thenBranch elseBranch, _, h =>
    map_within_append outer _ _
      (map_within_append outer _ _ (condition.sites_append h) (thenBranch.sites_append h))
      (sitesOfBranch_append elseBranch h)
  | .while condition body, _, h =>
    map_within_append outer _ _ (condition.sites_append h) (body.sites_append h)
  | .for initializer condition update body, ribs, h => by
    have hopened := List.cons_ne_nil (Rib.bare (.clauses initializer condition update body)) ribs
    have hbegun := growBranch_ne_nil initializer hopened
    have hgrown := growBranch_append initializer hopened outer
    have hcondition := sitesOfOptional_append condition hbegun
    have hupdate := sitesOfOptional_append update hbegun
    have hbody := body.sites_append hbegun
    rw [← hgrown] at hcondition hupdate hbody
    exact map_within_append outer _ _ (map_within_append outer _ _ (map_within_append outer _ _
      (sitesOfBranch_append initializer hopened) hcondition) hupdate) hbody
  | .break _, _, _ | .continue _, _, _ => rfl
  | .assert _ condition message, _, h =>
    map_within_append outer _ _ (condition.sites_append h) (sitesOfOptional_append message h)
  | .function decl, ribs, h => by
    have hdecl := decl.sites_append (declaring (some (decl.name, .function)) ribs)
    rw [← declaring_append _ h] at hdecl
    exact hdecl
  | .return _ value, _, h => sitesOfOptional_append value h
  | .class decl, _, h => by
    have hdecl := decl.sites_append (declaring_ne_nil (some (decl.name, .class)) h)
    rw [← declaring_append _ h] at hdecl
    exact hdecl

theorem sitesOfBranch_append : ∀ (s : Option Stmt) {ribs : List Rib}, ribs ≠ [] →
    sitesOfBranch s (ribs ++ outer) = (sitesOfBranch s ribs).map (Site.within outer)
  | none, _, _ => rfl
  | some s, _, h => s.sites_append h

theorem sitesOfBody_append : ∀ (ss : List Stmt) {ribs : List Rib}, ribs ≠ [] →
    sitesOfBody ss (ribs ++ outer) = (sitesOfBody ss ribs).map (Site.within outer)
  | [], _, _ => rfl
  | s :: ss, _, h => by
    have hrest := sitesOfBody_append ss (declaring_ne_nil s.declaration? h)
    rw [← declaring_append _ h] at hrest
    exact map_within_append outer _ _ (s.sites_append h) hrest

theorem FunctionDecl.sites_append : ∀ (d : FunctionDecl) (ribs : List Rib),
    d.sites (ribs ++ outer) = (d.sites ribs).map (Site.within outer)
  | ⟨_, _, body⟩, _ => sitesOfBody_append body (List.cons_ne_nil _ _)

theorem sitesOfFunctions_append : ∀ (ds : List FunctionDecl) (ribs : List Rib),
    sitesOfFunctions ds (ribs ++ outer) = (sitesOfFunctions ds ribs).map (Site.within outer)
  | [], _ => rfl
  | d :: ds, ribs =>
    map_within_append outer _ _ (d.sites_append ribs) (sitesOfFunctions_append ds ribs)

theorem ClassDecl.sites_append : ∀ (d : ClassDecl) {ribs : List Rib}, ribs ≠ [] →
    d.sites (ribs ++ outer) = (d.sites ribs).map (Site.within outer)
  | ⟨_, base, methods, statics, getters⟩, ribs, h =>
    map_within_append outer _ _
      (map_within_append outer _ _ (sitesOfOptional_append base h)
        (sitesOfFunctions_append statics ribs))
      (map_within_append outer _ _ (sitesOfFunctions_append methods (_ :: ribs))
        (sitesOfFunctions_append getters (_ :: ribs)))

end

end Sites

/-! ## Closed functions -/

/-- Every name in the function is that of a parameter, of a variable of its body or of something in
a scope of its body. -/
def ClosedFunction (params : List Token) (body : List Stmt) : Prop :=
  ∀ site ∈ sitesOfBody body [parameterRib params body], (Rib.hops? site.name site.ribs).isSome

instance (params : List Token) (body : List Stmt) : Decidable (ClosedFunction params body) :=
  inferInstanceAs (Decidable (∀ site ∈ _, _))

/-- Code on record, and the number of scopes that lie outside of it. -/
structure Region extends Record where
  outside : Nat

instance : Coe Region Record := ⟨Region.toRecord⟩

/-- The nodes on record whose names are not bound by one of so many outermost scopes. -/
def Record.within (record : Record) (outside : Nat) : Region where
  settings := record.settings
  visited v := record.visited v ∧ ∀ hops, v.hops? = some hops → hops + outside < v.scopes.length
  outside := outside

/-- A closed function names nothing of the scopes that it is declared in. -/
theorem FunctionFits.within {record : Record} {params : List Token} {body : List Stmt}
    {ribs : List Rib} (h : FunctionFits record params body ribs)
    (hclosed : ClosedFunction params body) :
    FunctionFits (record.within ribs.length) params body ribs := by
  obtain ⟨⟨a, hribs, hready⟩, hdistinct⟩ := h
  refine ⟨⟨a, hribs, hready.regular, hready.accepted, fun v hv => ⟨hready.visited v hv, ?_⟩⟩,
    hdistinct⟩
  intro hops hhops
  obtain ⟨site, hsite, hkey⟩ := (sitedBody record.settings body a hready.regular hribs).origin v hv
  have hinside := sitesOfBody_append ribs body (List.cons_ne_nil (parameterRib params body) [])
  rw [List.singleton_append] at hinside
  rw [hinside] at hsite
  obtain ⟨inner, hinner, rfl⟩ := List.mem_map.mp hsite
  obtain ⟨found, hfound⟩ := Option.isSome_iff_exists.mp (hclosed inner hinner)
  obtain ⟨hall, hlt⟩ := Rib.hops?_append hfound ribs
  obtain ⟨id, name, scopes⟩ := v
  obtain ⟨rfl, rfl, hscopes⟩ : id = _ ∧ name = _ ∧ ribsOf scopes = inner.ribs ++ ribs := by
    simpa [Visit.key, Visit.ribs, Site.within] using hkey
  rw [Visit.hops?, Visit.ribs, hscopes] at hhops
  cases hhops.symm.trans hall
  have hlength := congrArg List.length hscopes
  rw [ribsOf, List.length_map, List.length_append] at hlength
  show hops + ribs.length < scopes.length
  omega

end LoxLang
