import LoxLang.Proofs.Binding.Pending
import LoxLang.Proofs.Binding.Reserved
import LoxLang.Proofs.Log

/-!
# Scopes that are closed

The warnings about unused names on the way of an analysis through a tree (`Stmt.linted`). A reference
marks the name that it finds in whatever open scope that lies, so every part of a tree is described
by what it does to all of the scopes around it (`Linted`); when a scope is closed, the nodes from
inside are those that have found a name in it.
-/

namespace LoxLang

open Analysis

/-! ## Warnings -/

/-- The warning about a name that nothing uses. -/
def unusedWarning (entry : String × Token × DeclarationKind) : Diagnostic :=
  ⟨.warning, "[line " ++ toString entry.2.1.line ++ "] Warning: " ++
    ("-Wunused: Unused " ++ entry.2.2.describe ++ " \"" ++ entry.1 ++ "\""), some entry.2.1⟩

/-- Whether a diagnostic is a warning about a name that nothing uses. -/
def Diagnostic.isUnused (d : Diagnostic) : Bool :=
  d.token.any fun t =>
    ("[line " ++ toString t.line ++ "] Warning: " ++ "-Wunused").toList.isPrefixOf d.message.toList

theorem Diagnostic.isUnused_warning {text : String} {token : Token} :
    isUnused ⟨.warning, "[line " ++ toString token.line ++ "] Warning: " ++ text, some token⟩ =
      "-Wunused".toList.isPrefixOf text.toList := by
  show ("[line " ++ toString token.line ++ "] Warning: " ++ "-Wunused").toList.isPrefixOf
    ("[line " ++ toString token.line ++ "] Warning: " ++ text).toList = _
  rw [Bool.eq_iff_iff, List.isPrefixOf_iff_prefix, List.isPrefixOf_iff_prefix,
    String.toList_append (t := "-Wunused"), String.toList_append (t := text),
    List.prefix_append_right_inj]

theorem isUnused_unusedWarning (entry : String × Token × DeclarationKind) :
    (unusedWarning entry).isUnused = true := by
  have hsplit : "-Wunused: Unused " = "-Wunused" ++ ": Unused " := by decide
  rw [unusedWarning, Diagnostic.isUnused_warning, List.isPrefixOf_iff_prefix, hsplit]
  simp only [String.toList_append, List.append_assoc]
  exact List.prefix_append _ _

/-- A log to which an analysis has added diagnostics, with those of them that are about names that
nothing uses. -/
def Log.Warns (log after : Log) (warnings : List Diagnostic) : Prop :=
  ∃ reported : List Diagnostic, after = reported.foldl Log.add log ∧
    reported.filter Diagnostic.isUnused = warnings

namespace Log.Warns

variable {log mid after : Log} {warnings warnings' : List Diagnostic}

theorem refl (log : Log) : log.Warns log [] := ⟨[], rfl, rfl⟩

theorem trans (h : log.Warns mid warnings) (h' : mid.Warns after warnings') :
    log.Warns after (warnings ++ warnings') := by
  obtain ⟨reported, rfl, hfilter⟩ := h
  obtain ⟨reported', rfl, hfilter'⟩ := h'
  exact ⟨reported ++ reported', List.foldl_append.symm,
    by rw [List.filter_append, hfilter, hfilter']⟩

end Log.Warns

/-- The other lint is about names that are hidden. -/
theorem Analysis.warns_checkDeclaration (settings : Settings) (kind : DeclarationKind)
    (name : Token) {a : Analysis} (h : a.declares name.lexeme = false) :
    a.log.Warns (a.checkDeclaration settings kind name).log [] := by
  have hshadow (before : Analysis) (text : String) (token : Token)
      (htext : "-Wunused".toList.isPrefixOf text.toList = false) :
      before.log.Warns (before.warn text token).log [] :=
    ⟨[_], rfl, List.filter_eq_nil_iff.mpr
      (List.forall_mem_singleton.mpr (by rw [Diagnostic.isUnused_warning, htext]; nofun))⟩
  unfold checkDeclaration
  rw [h, if_neg Bool.false_ne_true]
  split
  · split
    · next hidden _ =>
      unfold warnShadow
      have hfirst := hshadow a
        ("-Wshadow: Declaration of \"" ++ name.lexeme ++ "\" shadows previous declaration") name
        (by simp [String.toList_append, List.isPrefixOf])
      cases hidden.site with
      | none => exact hfirst
      | some site =>
        exact hfirst.trans (hshadow _ ("-Wshadow: \"" ++ name.lexeme ++ "\" previously declared here")
          site (by simp [String.toList_append, List.isPrefixOf]))
    · exact .refl _
  · exact .refl _

theorem Analysis.warns_foldl_warnUnused (entries : List (String × Token × DeclarationKind))
    (a : Analysis) : a.log.Warns (entries.foldl warnUnused a).log (entries.map unusedWarning) := by
  induction entries generalizing a with
  | nil => exact .refl _
  | cons entry rest ih =>
    have hfirst : a.log.Warns (a.warnUnused entry).log [unusedWarning entry] :=
      ⟨[unusedWarning entry], rfl, List.filter_eq_self.mpr
        (List.forall_mem_singleton.mpr (isUnused_unusedWarning entry))⟩
    exact hfirst.trans (ih (a.warnUnused entry))

theorem Analysis.warns_closeScope {settings : Settings} {a : Analysis} {scope : StaticScope}
    (hwarn : settings.warnUnused = true) (hscope : a.scopes[0]? = some scope) :
    a.log.Warns (a.closeScope settings).log (scope.unused.map unusedWarning) := by
  unfold closeScope
  cases hstack : a.scopes with
  | nil =>
    rw [hstack] at hscope
    cases hscope
  | cons first outer =>
    rw [hstack] at hscope
    cases hscope
    dsimp only
    rw [if_pos hwarn]
    exact warns_foldl_warnUnused _ _

/-- A reference that is no fault reports nothing. -/
theorem Analysis.log_refer {a : Analysis} {id : NodeId} {name : Token} {access : Access}
    (h : (a.refer id name access).failed = false) : (a.refer id name access).log = a.log := by
  unfold Analysis.refer at h ⊢
  split
  · next hnone =>
    rw [hnone] at h
    cases h
  · next hsome =>
    rw [hsome] at h
    dsimp only at h ⊢
    split
    · next hproblem =>
      rw [hproblem] at h
      cases h
    · rfl

theorem Analysis.scopes_length_eq_of_ribs {a : Analysis} {ribs : List Rib} (h : a.ribs = ribs) :
    a.scopes.length = ribs.length := by
  rw [← h, Analysis.ribs, ribsOf, List.length_map]

/-! ## Walks -/

namespace Extent

/-- What is declared here and found by no node from inside. -/
def waiting (extent : Extent) : List (String × Token × DeclarationKind) :=
  (extent.declared.filter fun d =>
    !extent.sites.any fun site => site.hits site.hops? extent.depth d.1.lexeme).map listed

def warnings (extent : Extent) : List Diagnostic :=
  (StaticScope.sortBySite extent.waiting).map unusedWarning

end Extent

/-- A part of a tree that the analysis has walked through: it declares `news` in the innermost
scope, and the scopes that are open around it know which names its nodes find. -/
structure Linted (settings : Settings) (news : List (Token × DeclarationKind)) (a b : Analysis)
    (sites : List Site) (extents : List Extent) : Prop where
  sound : b.failed = false → a.failed = false
  length : b.scopes.length = a.scopes.length
  scopes : b.failed = false → ∀ (i : Nat) (before : StaticScope), a.scopes[i]? = some before →
    ∃ after, b.scopes[i]? = some after ∧ before.Becomes after (if i = 0 then news else []) fun name =>
      sites.any fun site => site.hits site.hops? (a.scopes.length - (i + 1)) name
  warns : b.failed = false → settings.warnUnused = true →
    a.log.Warns b.log (extents.flatMap Extent.warnings)
  within : ∀ extent ∈ extents, ∀ site ∈ extent.sites, site ∈ sites
  named : ∀ extent ∈ extents, ∀ d ∈ extent.declared, d.1.IsName
  distinct : b.failed = false →
    ∀ extent ∈ extents, (extent.declared.map fun d => d.1.lexeme).Nodup
  keywords : ∀ site ∈ sites, site.isUse = false → ∃ word : Keyword, site.name = word.text

namespace Linted

variable {settings : Settings} {a b c : Analysis} {news news' : List (Token × DeclarationKind)}
  {sites sites' : List Site} {extents extents' : List Extent}

/-- A step that closes no scope. -/
theorem ofStep (hsound : b.failed = false → a.failed = false)
    (hlength : b.scopes.length = a.scopes.length)
    (hscopes : b.failed = false → ∀ (i : Nat) (before : StaticScope), a.scopes[i]? = some before →
      ∃ after, b.scopes[i]? = some after ∧
        before.Becomes after (if i = 0 then news else []) fun name =>
          sites.any fun site => site.hits site.hops? (a.scopes.length - (i + 1)) name)
    (hwarns : b.failed = false → a.log.Warns b.log [])
    (hkeywords : ∀ site ∈ sites, site.isUse = false → ∃ word : Keyword, site.name = word.text) :
    Linted settings news a b sites [] where
  sound := hsound
  length := hlength
  scopes := hscopes
  warns hb _ := hwarns hb
  within _ h := absurd h List.not_mem_nil
  named _ h := absurd h List.not_mem_nil
  distinct _ _ h := absurd h List.not_mem_nil
  keywords := hkeywords

/-- A step that changes no scope and reports nothing. -/
theorem quiet (hsound : b.failed = false → a.failed = false) (hscopes : b.scopes = a.scopes)
    (hlog : b.failed = false → b.log = a.log) : Linted settings [] a b [] [] := by
  refine .ofStep hsound (congrArg List.length hscopes) (fun _ i before hbefore => ?_)
    (fun hb => hlog hb ▸ .refl _) fun _ h => absurd h List.not_mem_nil
  rw [hscopes, ite_self]
  exact ⟨before, hbefore, .same rfl fun _ => rfl⟩

theorem refl : Linted settings [] a a [] [] := quiet id rfl fun _ => rfl

theorem trans (h : Linted settings news a b sites extents)
    (h' : Linted settings news' b c sites' extents') :
    Linted settings (news ++ news') a c (sites ++ sites') (extents ++ extents') where
  sound hc := h.sound (h'.sound hc)
  length := h'.length.trans h.length
  scopes hc i before hbefore := by
    obtain ⟨mid, hmid, hfirst⟩ := h.scopes (h'.sound hc) i before hbefore
    obtain ⟨after, hafter, hsecond⟩ := h'.scopes hc i mid hmid
    refine ⟨after, hafter, ?_⟩
    have hboth := hfirst.trans hsecond
    rw [h.length] at hboth
    have hnews : (if i = 0 then news else []) ++ (if i = 0 then news' else []) =
        if i = 0 then news ++ news' else [] := by split <;> rfl
    simp only [List.any_append]
    rwa [hnews] at hboth
  warns hc hwarn := by
    rw [List.flatMap_append]
    exact (h.warns (h'.sound hc) hwarn).trans (h'.warns hc hwarn)
  within := List.forall_mem_append.mpr
    ⟨fun extent hextent site hsite => List.mem_append_left _ (h.within extent hextent site hsite),
      fun extent hextent site hsite => List.mem_append_right _ (h'.within extent hextent site hsite)⟩
  named := List.forall_mem_append.mpr ⟨h.named, h'.named⟩
  distinct hc := List.forall_mem_append.mpr ⟨h.distinct (h'.sound hc), h'.distinct hc⟩
  keywords := List.forall_mem_append.mpr ⟨h.keywords, h'.keywords⟩

theorem after (h' : Linted settings news' b c sites extents) (h : Linted settings news a b [] []) :
    Linted settings (news ++ news') a c sites extents := h.trans h'

theorem andThen (h : Linted settings news a b sites extents) (h' : Linted settings [] b c [] []) :
    Linted settings news a c sites extents := by
  simpa using h.trans h'

/-! ### Steps -/

theorem fail {cause : StaticFault} {token : Token} :
    Linted settings [] a (a.fail cause token) [] [] :=
  .quiet (fun h => by cases h) rfl fun h => by cases h

theorem checked {ok : Prop} [Decidable ok] {cause : StaticFault} {token : Token} :
    Linted settings [] a (if ok then a.fail cause token else a) [] [] := by
  split
  · exact .fail
  · exact .refl

theorem checkOwnBase {name : Token} {base : Expr} :
    Linted settings [] a (a.checkOwnBase name base) [] [] := by
  unfold Analysis.checkOwnBase
  split
  · exact .checked
  · exact .refl

/-- A step that changes the innermost scope only. -/
theorem innermost (change : StaticScope → StaticScope)
    (hsound : b.failed = false → a.failed = false) (hscopes : b.scopes = a.scopes.modifyHead change)
    (hhead : b.failed = false →
      ∀ scope ∈ a.scopes.head?, scope.Becomes (change scope) news fun _ => false)
    (hwarns : b.failed = false → a.log.Warns b.log []) : Linted settings news a b [] [] := by
  refine .ofStep hsound (by rw [hscopes, List.length_modifyHead])
    (fun hb i before hbefore => ?_) hwarns fun _ h => absurd h List.not_mem_nil
  rw [hscopes]
  cases hstack : a.scopes with
  | nil =>
    rw [hstack] at hbefore
    cases hbefore
  | cons scope outer =>
    rw [hstack] at hbefore
    cases i with
    | zero =>
      cases hbefore
      exact ⟨_, rfl, hhead hb _ (by rw [hstack]; rfl)⟩
    | succ i => exact ⟨before, hbefore, .same rfl fun _ => rfl⟩

theorem declare {kind : DeclarationKind} {name : Token} :
    Linted settings [(name, kind)] a (a.declare settings kind name) [] [] := by
  obtain ⟨hscopes, -, -, -⟩ := checkDeclaration_eq settings kind name a
  have hsound (h : (a.declare settings kind name).failed = false) :
      a.failed = false ∧ a.declares name.lexeme = false := by
    rwa [(declare_eq settings kind name a).2.2.2, Bool.or_eq_false_iff] at h
  refine innermost (fun scope =>
      { scope with names := scope.names.insert name.lexeme (.declared kind name) })
    (fun h => (hsound h).1) ?_ (fun h scope hscope => .declared ?_) fun h => ?_
  · unfold Analysis.declare enter
    rw [hscopes]
    cases hstack : a.scopes with
    | nil => exact hscopes.trans hstack
    | cons => rfl
  · have hfree := (hsound h).2
    rw [declares, Option.mem_def.mp hscope] at hfree
    rw [NameMap.mem_keys]
    exact Bool.eq_false_iff.mp hfree
  · have hlog : (a.declare settings kind name).log =
        (a.checkDeclaration settings kind name).log := by
      unfold Analysis.declare enter
      split <;> rfl
    exact hlog ▸ warns_checkDeclaration settings kind name (hsound h).2

/-- A change of a binding that does not matter to what is told of it. -/
theorem modifyInnermost {name : String} {change : StaticBinding → StaticBinding}
    (h : ∀ binding, (change binding).pending = binding.pending) :
    Linted settings [] a (a.modifyInnermost name change) [] [] := by
  refine innermost (fun scope => scope.modify name change)
    (fun hb => (modifyInnermost_eq name change).2.2 ▸ hb) ?_ (fun _ scope _ => .modify scope name h)
    fun _ => ?_
  · unfold Analysis.modifyInnermost
    cases hstack : a.scopes with
    | nil => exact hstack
    | cons => rfl
  · unfold Analysis.modifyInnermost
    split <;> exact .refl _

theorem markReady {name : Token} : Linted settings [] a (a.markReady name) [] [] :=
  .modifyInnermost fun _ => rfl

theorem define {name : Token} : Linted settings [] a (a.define name) [] [] :=
  .modifyInnermost fun _ => rfl

theorem declareReady {kind : DeclarationKind} {name : Token} :
    Linted settings [(name, kind)] a (a.declareReady settings kind name) [] [] :=
  (declare.andThen markReady).andThen define

theorem declareParameters (params : List Token) :
    Linted settings (params.map fun param => (param, .parameter)) a
      (a.declareParameters settings params) [] [] := by
  induction params generalizing a with
  | nil => exact .refl
  | cons param rest ih => exact ih.after declareReady

/-- A node whose name is found, and counts as used from here on. -/
theorem refer {id : NodeId} {name : Token} {access : Access} {kind : ReferenceKind}
    {ribs : List Rib} (hribs : a.ribs = ribs)
    (hkeyword : (⟨⟨kind, id, name⟩, ribs⟩ : Site).isUse = false →
      ∃ word : Keyword, name.lexeme = word.text) :
    Linted settings [] a (a.refer id name access) [⟨⟨kind, id, name⟩, ribs⟩] [] := by
  refine .ofStep (fun h => (distances_refer h).1) ?_ (fun h i before hbefore => ?_) (fun h => ?_)
    (List.forall_mem_singleton.mpr hkeyword)
  · rw [scopes_length_eq_of_ribs (refer_eq id name access a).1, scopes_length_eq_of_ribs rfl]
  · obtain ⟨hops, binding, hfound, -, hscopes⟩ := exists_of_refer h
    obtain ⟨scope, hscope, hfind⟩ := exists_of_findBinding? hfound
    have hhops : (⟨⟨kind, id, name⟩, ribs⟩ : Site).hops? = some hops := by
      rw [Site.hops?, ← hribs, Analysis.ribs]
      exact (hops?_ribsOf _ _).trans (congrArg _ hfound)
    have hi := (List.getElem?_eq_some_iff.mp hbefore).1
    have hlt := (List.getElem?_eq_some_iff.mp hscope).1
    -- Of the scopes around the node it is the one at its distance.
    have hhits (other : String) : (⟨⟨kind, id, name⟩, ribs⟩ : Site).hits (some hops)
        (a.scopes.length - (i + 1)) other = (name.lexeme == other && decide (i = hops)) := by
      refine congrArg (name.lexeme == other && ·) ?_
      rw [Bool.eq_iff_iff, decide_eq_true_iff, Option.any_some, beq_iff_eq,
        ← scopes_length_eq_of_ribs hribs]
      omega
    simp only [List.any_cons, List.any_nil, Bool.or_false, hhops, hhits, ite_self]
    rw [hscopes, getElem?_modifyAt]
    by_cases heq : i = hops
    · subst heq
      cases hbefore.symm.trans hscope
      refine ⟨_, by rw [if_pos rfl, hbefore, Option.map_some], ?_⟩
      simpa using StaticScope.Becomes.marked hfind fun _ => rfl
    · refine ⟨before, by rw [if_neg heq, hbefore], ?_⟩
      simpa [heq] using StaticScope.Becomes.same rfl fun _ => rfl
  · rw [log_refer h]
    exact .refl _

/-- A node whose name is refused before it is looked up. -/
theorem refused {cause : StaticFault} {token : Token} {site : Site}
    (hkeyword : site.isUse = false → ∃ word : Keyword, site.name = word.text) :
    Linted settings [] a (a.fail cause token) [site] [] :=
  .ofStep (fun h => by cases h) rfl (fun h => by cases h) (fun h => by cases h)
    (List.forall_mem_singleton.mpr hkeyword)

theorem referVariable {id : NodeId} {name : Token} {ribs : List Rib} (hribs : a.ribs = ribs) :
    Linted settings [] a (a.referVariable id name) [⟨⟨.variable, id, name⟩, ribs⟩] [] := by
  have hkeyword : (⟨⟨.variable, id, name⟩, ribs⟩ : Site).isUse = false →
      ∃ word : Keyword, name.lexeme = word.text := fun h => by cases h
  unfold Analysis.referVariable
  split
  · exact .refused hkeyword
  · exact .refer hribs hkeyword

theorem referThis {id : NodeId} {keyword : Token} {ribs : List Rib} (hribs : a.ribs = ribs)
    (h : keyword.lexeme = Keyword.this.text) :
    Linted settings [] a (a.referThis id keyword) [⟨⟨.this, id, keyword⟩, ribs⟩] [] := by
  unfold Analysis.referThis
  split
  · exact .refused fun _ => ⟨_, h⟩
  · exact .refer hribs fun _ => ⟨_, h⟩

theorem referSuper {id : NodeId} {keyword : Token} {ribs : List Rib} (hribs : a.ribs = ribs)
    (h : keyword.lexeme = Keyword.super.text) :
    Linted settings [] a (a.referSuper id keyword) [⟨⟨.super, id, keyword⟩, ribs⟩] [] := by
  unfold Analysis.referSuper
  split
  · exact .refused fun _ => ⟨_, h⟩
  · exact .refused fun _ => ⟨_, h⟩
  · exact .refer hribs fun _ => ⟨_, h⟩

/-! ### Constructs -/

theorem declaredWith {kind : DeclarationKind} {name : Token}
    (h : Linted settings [] (a.declare settings kind name) b sites extents) :
    Linted settings [(name, kind)] a (b.define name) sites extents :=
  (h.after declare).andThen define

theorem loop (h : Linted settings news a.enterLoop b sites extents) :
    Linted settings news a b.leaveLoop sites extents := by
  have henter : Linted settings [] a a.enterLoop [] [] := .quiet id rfl fun _ => rfl
  have hleave : Linted settings [] b b.leaveLoop [] [] := .quiet id rfl fun _ => rfl
  exact (h.after henter).andThen hleave

/-- A scope that is opened with nothing to tell of. When it is closed it tells of what has been
declared in it and is not used. -/
theorem closing {opened : Analysis} {closed : List Extent}
    (h : Linted settings news opened b sites extents) (scope : StaticScope)
    (hopened : opened.scopes = scope :: a.scopes) (hsound : opened.failed = a.failed)
    (hlog : opened.log = a.log) (hdistinct : scope.names.keys.Nodup)
    (hquiet : ∀ name ∈ scope.names.keys, scope.pending name = none)
    (hnamed : ∀ d ∈ news, d.1.IsName)
    (hclosed : closed = [⟨a.scopes.length, news, sites⟩] ∨ news = [] ∧ closed = []) :
    Linted settings [] a (b.closeScope settings) sites (extents ++ closed) := by
  obtain ⟨hscopes, -, -, hfailed⟩ := closeScope_eq settings b
  have hmem : ∀ extent ∈ closed, extent = ⟨a.scopes.length, news, sites⟩ := by
    rcases hclosed with rfl | ⟨-, rfl⟩
    · exact fun _ => List.mem_singleton.mp
    · exact fun _ hextent => absurd hextent List.not_mem_nil
  have hinner (hb : b.failed = false) : ∃ after, b.scopes[0]? = some after ∧
      scope.Becomes after news fun name =>
        sites.any fun site => site.hits site.hops? a.scopes.length name := by
    obtain ⟨after, hafter, hbecomes⟩ := h.scopes hb 0 scope (by rw [hopened]; rfl)
    rw [hopened, List.length_cons, Nat.add_sub_cancel, if_pos rfl] at hbecomes
    exact ⟨after, hafter, hbecomes⟩
  exact
    { sound := fun hb => hsound ▸ h.sound (hfailed ▸ hb)
      length := by
        rw [hscopes, List.length_tail, h.length, hopened]
        rfl
      scopes := fun hb i before hbefore => by
        have houter : opened.scopes[i + 1]? = some before := by rw [hopened]; exact hbefore
        obtain ⟨after, hafter, hbecomes⟩ := h.scopes (hfailed ▸ hb) (i + 1) before houter
        refine ⟨after, by rw [hscopes, List.getElem?_tail]; exact hafter, ?_⟩
        rw [hopened, List.length_cons, Nat.add_sub_add_right] at hbecomes
        rwa [ite_self]
      warns := fun hb hwarn => by
        obtain ⟨after, hafter, hbecomes⟩ := hinner (hfailed ▸ hb)
        have hwarned := warns_closeScope hwarn hafter
        rw [hbecomes.unused hdistinct hquiet] at hwarned
        rw [List.flatMap_append]
        refine (hlog ▸ h.warns (hfailed ▸ hb) hwarn : a.log.Warns b.log _).trans ?_
        rcases hclosed with rfl | ⟨rfl, rfl⟩
        · rwa [List.flatMap_singleton]
        · exact hwarned
      within := List.forall_mem_append.mpr
        ⟨h.within, fun extent hextent site hsite => by rwa [hmem extent hextent] at hsite⟩
      named := List.forall_mem_append.mpr
        ⟨h.named, fun extent hextent d hd => hnamed d (by rwa [hmem extent hextent] at hd)⟩
      distinct := fun hb => List.forall_mem_append.mpr
        ⟨h.distinct (hfailed ▸ hb), fun extent hextent => by
          obtain ⟨_, -, hbecomes⟩ := hinner (hfailed ▸ hb)
          rw [hmem extent hextent]
          exact hbecomes.distinct⟩
      keywords := h.keywords }

theorem scope {kind : ScopeKind} {ribs : List Rib} (hribs : a.ribs = ribs)
    (hnamed : ∀ d ∈ news, d.1.IsName)
    (h : Linted settings news (a.openScope kind) b sites extents) :
    Linted settings [] a (b.closeScope settings) sites (extents ++ [⟨ribs.length, news, sites⟩]) :=
  scopes_length_eq_of_ribs hribs ▸ h.closing ⟨kind, .empty⟩ rfl rfl rfl .nil
    (fun _ hname => absurd hname List.not_mem_nil) hnamed (.inl rfl)

theorem function {role : FunctionRole} {params : List Token} {body : List Stmt} {ribs : List Rib}
    (hribs : a.ribs = ribs) (hparams : ∀ p ∈ params, p.IsName)
    (hbody : ∀ d ∈ declaredBy body, d.1.IsName)
    (h : Linted settings (declaredBy body) (a.openFunction settings role params body) b sites extents) :
    Linted settings [] a (b.closeFunction settings a.around) sites
      (extents ++ [⟨ribs.length, declaredIn params body, sites⟩]) := by
  have hnamed : ∀ d ∈ declaredIn params body, d.1.IsName :=
    List.forall_mem_append.mpr ⟨List.forall_mem_map.mpr hparams, hbody⟩
  have hclosed : Linted settings [] (a.enterFunction role) (b.closeScope settings) sites
      (extents ++ [⟨ribs.length, declaredIn params body, sites⟩]) :=
    (h.after (declareParameters params)).scope (a := a.enterFunction role) hribs hnamed
  have henter : Linted settings [] a (a.enterFunction role) [] [] := .quiet id rfl fun _ => rfl
  have hleave : Linted settings [] (b.closeScope settings) (b.closeFunction settings a.around) [] [] :=
    .quiet id rfl fun _ => rfl
  exact (hclosed.after henter).andThen hleave

/-- The scope in which methods find their object has nothing to tell of. -/
theorem receiver {decl : ClassDecl} (h : Linted settings [] (a.openReceiver decl) b sites extents) :
    Linted settings [] a (b.closeScope settings) sites extents := by
  have hnone : ∀ d ∈ ([] : List (Token × DeclarationKind)), d.1.IsName :=
    fun _ hd => absurd hd List.not_mem_nil
  rw [← List.append_nil extents]
  by_cases hbase : decl.base.isSome = true
  · have hopened : a.openReceiver decl =
        ((a.openScope (.receiver decl)).enter "this" (.provided .constant)).enter "super"
          (.provided .constant) := if_pos hbase
    rw [hopened] at h
    refine h.closing _ rfl rfl rfl (?_ : ["this", "super"].Nodup) (fun name hname => ?_) hnone
      (.inr ⟨rfl, rfl⟩)
    · decide
    · rcases List.mem_cons.mp hname with rfl | hname
      · rfl
      · cases List.mem_singleton.mp hname
        rfl
  · have hopened : a.openReceiver decl =
        (a.openScope (.receiver decl)).enter "this" (.provided .constant) := if_neg hbase
    rw [hopened] at h
    refine h.closing _ rfl rfl rfl (List.nodup_singleton "this") (fun name hname => ?_) hnone
      (.inr ⟨rfl, rfl⟩)
    cases List.mem_singleton.mp hname
    rfl

end Linted

/-! ## The walk over a tree -/

theorem declaredBy_cons (s : Stmt) (ss : List Stmt) :
    declaredBy (s :: ss) = s.declaration?.toList ++ declaredBy ss := by
  rw [declaredBy, List.filterMap_cons]
  cases s.declaration? <;> rfl

theorem isName_of_declaredBy {ss : List Stmt} (h : RegularBody ss) :
    ∀ d ∈ declaredBy ss, d.1.IsName := by
  induction ss with
  | nil => exact fun _ hd => absurd hd List.not_mem_nil
  | cons s ss ih =>
    rw [declaredBy_cons]
    exact List.forall_mem_append.mpr
      ⟨fun d hd => h.1.isName (Option.mem_toList.mp hd), ih h.2.1⟩

theorem isName_of_branch {s : Option Stmt} (h : RegularBranch s) :
    ∀ d ∈ (s.bind Stmt.declaration?).toList, d.1.IsName := by
  cases s with
  | none => exact fun _ hd => absurd hd List.not_mem_nil
  | some s => exact fun d hd => Stmt.Regular.isName h (Option.mem_toList.mp hd)

open Linted

theorem lintedBase {settings : Settings} {name : Token} {base : Option Expr} {a : Analysis}
    {ribs : List Rib} (h : ∀ e ∈ base, ∃ id name, e = .variable id name) (hribs : a.ribs = ribs) :
    Linted settings [] a (analyseBase settings name base a) (sitesOfOptional base ribs)
      (extentsOfOptional base ribs) := by
  cases base with
  | none => exact .refl
  | some base =>
    obtain ⟨node, baseName, rfl⟩ := h base rfl
    have hcheck : Linted settings [] a (a.checkOwnBase name (.variable node baseName)) [] [] :=
      .checkOwnBase
    have henter : Linted settings [] (a.checkOwnBase name (.variable node baseName))
        ((a.checkOwnBase name (.variable node baseName)).enterClass .derived) [] [] :=
      .quiet id rfl fun _ => rfl
    have hway : Analysed id a (a.checkOwnBase name (.variable node baseName)) [] [] :=
      .checkOwnBase
    have hribsChecked : ((a.checkOwnBase name (.variable node baseName)).enterClass .derived).ribs =
        ribs := hway.ribs.trans hribs
    exact ((referVariable hribsChecked).after henter).after hcheck

mutual

theorem Expr.linted (settings : Settings) : ∀ (e : Expr) (a : Analysis) {ribs : List Rib},
    e.Regular → a.ribs = ribs →
    Linted settings [] a (e.analyse settings a) (e.sites ribs) (e.extents ribs)
  | .literal _, _, _, _, _ => .refl
  | .grouping inner, a, _, h, hribs => inner.linted settings a h hribs
  | .unary _ right, a, _, h, hribs => right.linted settings a h hribs
  | .binary left _ right, a, _, h, hribs | .logical left _ right, a, _, h, hribs =>
    (left.linted settings a h.1 hribs).trans
      (right.linted settings _ h.2.1 ((left.analysed settings a h.1).ribs.trans hribs))
  | .ternary condition _ thenBranch elseBranch, a, _, h, hribs => by
    obtain ⟨hc, ht, he, -⟩ := h
    have hribsThen := (condition.analysed settings a hc).ribs.trans hribs
    have hribsElse := (thenBranch.analysed settings _ ht).ribs.trans hribsThen
    exact ((condition.linted settings a hc hribs).trans
      (thenBranch.linted settings _ ht hribsThen)).trans (elseBranch.linted settings _ he hribsElse)
  | .variable _ _, _, _, _, hribs => .referVariable hribs
  | .assign id name value, a, ribs, h, hribs => by
    have hribsValue := (value.analysed settings a h.1).ribs.trans hribs
    have hrefer : Linted settings [] (value.analyse settings a)
        ((value.analyse settings a).refer id name .write) [⟨⟨.assign, id, name⟩, _⟩] [] :=
      .refer hribsValue fun h => by cases h
    have hall := (value.linted settings a h.1 hribs).trans hrefer
    rwa [List.append_nil (value.extents ribs)] at hall
  | .call callee _ arguments, a, _, h, hribs =>
    (callee.linted settings a h.1 hribs).trans
      (lintedEach settings arguments _ h.2.1 ((callee.analysed settings a h.1).ribs.trans hribs))
  | .get object _, a, _, h, hribs => object.linted settings a h hribs
  | .set object _ value, a, _, h, hribs =>
    (value.linted settings a h.2.1 hribs).trans
      (object.linted settings _ h.1 ((value.analysed settings a h.2.1).ribs.trans hribs))
  | .this _ _, _, _, h, hribs => .referThis hribs h
  | .super _ _ _, _, _, h, hribs => .referSuper hribs h
  | .arrow decl, a, _, h, hribs => decl.linted settings a h hribs

theorem ArrowDecl.linted (settings : Settings) : ∀ (d : ArrowDecl) (a : Analysis) {ribs : List Rib},
    d.Regular → a.ribs = ribs →
    Linted settings [] a (d.analyse settings a) (d.sites ribs) (d.extents ribs)
  | ⟨_, params, body⟩, a, _, h, hribs =>
    .function hribs h.2 (isName_of_declaredBy h.1) (lintedBody settings body _ h.1
      ((Analysed.ribs_openFunction _ params body a).trans (congrArg _ hribs)))

theorem lintedEach (settings : Settings) : ∀ (es : List Expr) (a : Analysis) {ribs : List Rib},
    RegularEach es → a.ribs = ribs →
    Linted settings [] a (analyseEach settings es a) (sitesOfEach es ribs) (extentsOfEach es ribs)
  | [], _, _, _, _ => .refl
  | e :: es, a, _, h, hribs =>
    (e.linted settings a h.1 hribs).trans
      (lintedEach settings es _ h.2.1 ((e.analysed settings a h.1).ribs.trans hribs))

theorem lintedOptional (settings : Settings) : ∀ (e : Option Expr) (a : Analysis) {ribs : List Rib},
    RegularOptional e → a.ribs = ribs →
    Linted settings [] a (analyseOptional settings e a) (sitesOfOptional e ribs)
      (extentsOfOptional e ribs)
  | none, _, _, _, _ => .refl
  | some e, a, _, h, hribs => e.linted settings a h hribs

theorem Stmt.linted (settings : Settings) : ∀ (s : Stmt) (a : Analysis) {ribs : List Rib},
    s.Regular → a.ribs = ribs →
    Linted settings s.declaration?.toList a (s.analyse settings a) (s.sites ribs) (s.extents ribs)
  | .expression value, a, _, h, hribs | .print value, a, _, h, hribs
  | .println value, a, _, h, hribs => value.linted settings a h hribs
  | .var _ none, _, _, _, _ => .declaredWith .refl
  | .var name (some initializer), a, _, h, hribs =>
    .declaredWith ((initializer.linted settings _ h.1
      ((declare_eq settings .variable name a).1.trans (congrArg _ hribs))).andThen .markReady)
  | .const name initializer, a, _, h, hribs =>
    .declaredWith ((initializer.linted settings _ h.1
      ((declare_eq settings .constant name a).1.trans (congrArg _ hribs))).andThen .markReady)
  | .block body, a, _, h, hribs =>
    .scope hribs (isName_of_declaredBy h)
      (lintedBody settings body (a.openScope (.block body)) h (by rw [ribs_openScope, hribs]))
  | .ifElse condition thenBranch elseBranch, a, _, h, hribs => by
    obtain ⟨hc, ht, he, hpt, hpe, -⟩ := h
    have hribsThen := (condition.analysed settings a hc).ribs.trans hribs
    have hwayThen := (thenBranch.analysed settings (condition.analyse settings a) ht).ribs
    rw [Stmt.grow_of_plain hpt] at hwayThen
    have hthen := thenBranch.linted settings _ ht hribsThen
    rw [hpt] at hthen
    have helse := lintedBranch settings elseBranch _ he (hwayThen.trans hribsThen)
    rw [show elseBranch.bind Stmt.declaration? = none from Option.bind_eq_none_iff.mpr hpe] at helse
    exact ((condition.linted settings a hc hribs).trans hthen).trans helse
  | .while condition body, a, _, h, hribs => by
    obtain ⟨hc, hb, hp, -⟩ := h
    have hbody := body.linted settings (condition.analyse settings a).enterLoop hb
      ((condition.analysed settings a hc).ribs.trans hribs)
    rw [hp] at hbody
    exact (condition.linted settings a hc hribs).trans hbody.loop
  | .for initializer condition update body, a, known, h, hribs => by
    obtain ⟨hi, hc, hu, hb, hp, -⟩ := h
    let opened := a.openScope (.clauses initializer condition update body)
    let begun := analyseBranch settings initializer opened
    let tested := analyseOptional settings condition begun
    let updated := analyseOptional settings update tested
    have hribsOpened : opened.ribs = .bare (.clauses initializer condition update body) :: known := by
      rw [ribs_openScope, hribs]
    have hribsBegun := (analysedBranch settings initializer opened hi).ribs.trans
      (congrArg _ hribsOpened)
    have hribsTested := (analysedOptional settings condition begun hc).ribs.trans hribsBegun
    have hribsUpdated := (analysedOptional settings update tested hu).ribs.trans hribsTested
    have hbody := body.linted settings updated.enterLoop hb hribsUpdated
    rw [hp] at hbody
    have hall := (((lintedBranch settings initializer opened hi hribsOpened).trans
      (lintedOptional settings condition begun hc hribsBegun)).trans
        (lintedOptional settings update tested hu hribsTested)).trans hbody.loop
    simp only [Option.toList_none, List.append_nil] at hall
    exact hall.scope hribs (isName_of_branch hi)
  | .break _, _, _, _, _ | .continue _, _, _, _, _ | .return _ none, _, _, _, _ => .checked
  | .assert _ condition message, a, _, h, hribs =>
    (condition.linted settings a h.1 hribs).trans
      (lintedOptional settings message _ h.2.1 ((condition.analysed settings a h.1).ribs.trans hribs))
  | .function decl, a, _, h, hribs =>
    (decl.linted settings .function _ h
      ((declareReady_eq settings .function decl.name a).1.trans (congrArg _ hribs))).after
        declareReady
  | .return keyword (some value), a, _, h, hribs => by
    have hreturn : Linted settings [] a (a.checkReturn keyword) [] [] := .checked
    have hvalued : Linted settings [] (a.checkReturn keyword)
        ((a.checkReturn keyword).checkReturnValue keyword) [] [] := .checked
    have hribsReturn : (a.checkReturn keyword).ribs = a.ribs := (Analysed.checked (a := a)).ribs
    have hribsValued : ((a.checkReturn keyword).checkReturnValue keyword).ribs =
        (a.checkReturn keyword).ribs := (Analysed.checked (a := a.checkReturn keyword)).ribs
    exact ((value.linted settings _ h (hribsValued.trans (hribsReturn.trans hribs))).after
      hvalued).after hreturn
  | .class decl, a, _, h, hribs => decl.linted settings a h hribs

theorem lintedBranch (settings : Settings) : ∀ (s : Option Stmt) (a : Analysis) {ribs : List Rib},
    RegularBranch s → a.ribs = ribs →
    Linted settings (s.bind Stmt.declaration?).toList a (analyseBranch settings s a)
      (sitesOfBranch s ribs) (extentsOfBranch s ribs)
  | none, _, _, _, _ => .refl
  | some s, a, _, h, hribs => s.linted settings a h hribs

theorem lintedBody (settings : Settings) : ∀ (ss : List Stmt) (a : Analysis) {ribs : List Rib},
    RegularBody ss → a.ribs = ribs →
    Linted settings (declaredBy ss) a (analyseBody settings ss a) (sitesOfBody ss ribs)
      (extentsOfBody ss ribs)
  | [], _, _, _, _ => .refl
  | s :: ss, a, _, h, hribs => by
    rw [declaredBy_cons]
    exact (s.linted settings a h.1 hribs).trans (lintedBody settings ss _ h.2.1
      ((s.analysed settings a h.1).ribs.trans (congrArg _ hribs)))

theorem FunctionDecl.linted (settings : Settings) (role : FunctionRole) :
    ∀ (d : FunctionDecl) (a : Analysis) {ribs : List Rib}, d.Regular → a.ribs = ribs →
    Linted settings [] a (d.analyse settings role a) (d.sites ribs) (d.extents ribs)
  | ⟨_, params, body⟩, a, _, h, hribs =>
    .function hribs h.2.2 (isName_of_declaredBy h.1) (lintedBody settings body _ h.1
      ((Analysed.ribs_openFunction role params body a).trans (congrArg _ hribs)))

theorem lintedStatics (settings : Settings) : ∀ (ds : List FunctionDecl) (a : Analysis)
    {ribs : List Rib}, RegularFunctions ds → a.ribs = ribs →
    Linted settings [] a (analyseStatics settings ds a) (sitesOfFunctions ds ribs)
      (extentsOfFunctions ds ribs)
  | [], _, _, _, _ => .refl
  | d :: ds, a, _, h, hribs => by
    have hcheck : Linted settings [] a (a.checkNoInitializer d.name .staticInitializer) [] [] :=
      .checked
    have hribsChecked : (a.checkNoInitializer d.name .staticInitializer).ribs = _ :=
      (Analysed.checked (a := a)).ribs.trans hribs
    exact ((d.linted settings .method _ h.1 hribsChecked).after hcheck).trans
      (lintedStatics settings ds _ h.2.1
        ((d.analysed settings .method _ h.1).ribs.trans hribsChecked))

theorem lintedMethods (settings : Settings) : ∀ (ds : List FunctionDecl) (a : Analysis)
    {ribs : List Rib}, RegularFunctions ds → a.ribs = ribs →
    Linted settings [] a (analyseMethods settings ds a) (sitesOfFunctions ds ribs)
      (extentsOfFunctions ds ribs)
  | [], _, _, _, _ => .refl
  | d :: ds, a, _, h, hribs =>
    (d.linted settings (methodRole d.name) a h.1 hribs).trans
      (lintedMethods settings ds _ h.2.1
        ((d.analysed settings (methodRole d.name) a h.1).ribs.trans hribs))

theorem lintedGetters (settings : Settings) : ∀ (ds : List FunctionDecl) (a : Analysis)
    {ribs : List Rib}, RegularFunctions ds → a.ribs = ribs →
    Linted settings [] a (analyseGetters settings ds a) (sitesOfFunctions ds ribs)
      (extentsOfFunctions ds ribs)
  | [], _, _, _, _ => .refl
  | d :: ds, a, _, h, hribs => by
    have hcheck : Linted settings [] a (a.checkNoInitializer d.name .getterInitializer) [] [] :=
      .checked
    have hribsChecked : (a.checkNoInitializer d.name .getterInitializer).ribs = _ :=
      (Analysed.checked (a := a)).ribs.trans hribs
    exact ((d.linted settings .method _ h.1 hribsChecked).after hcheck).trans
      (lintedGetters settings ds _ h.2.1
        ((d.analysed settings .method _ h.1).ribs.trans hribsChecked))

theorem ClassDecl.linted (settings : Settings) : ∀ (d : ClassDecl) (a : Analysis) {ribs : List Rib},
    d.Regular → a.ribs = ribs →
    Linted settings [(d.name, .class)] a (d.analyse settings a)
      (d.sites (declaring (some (d.name, .class)) ribs))
      (d.extents (declaring (some (d.name, .class)) ribs))
  | ⟨name, base, methods, statics, getters⟩, a, known, h, hribs => by
    obtain ⟨hbase, -, hm, hs, hg, -⟩ := h
    let named := a.nameClass settings name
    let based := analyseBase settings name base named
    let outer := analyseStatics settings statics based
    let inner := outer.openReceiver ⟨name, base, methods, statics, getters⟩
    let closed := (analyseGetters settings getters (analyseMethods settings methods inner)).closeScope
      settings
    have hribsNamed : named.ribs = declaring (some (name, .class)) known :=
      (declareReady_eq settings .class name (a.enterClass .root)).1.trans (congrArg _ hribs)
    obtain ⟨role, hb⟩ := analysedBase settings name base named hbase
    have hribsBased := hb.ribs.trans hribsNamed
    have hribsOuter := (analysedStatics settings statics based hs).ribs.trans hribsBased
    have hribsInner := (Analysed.openReceiver (a := outer)
      ⟨name, base, methods, statics, getters⟩).ribs.trans (congrArg _ hribsOuter)
    have hribsMethods := (analysedMethods settings methods inner hm).ribs.trans hribsInner
    have henter : Linted settings [] a (a.enterClass .root) [] [] := .quiet id rfl fun _ => rfl
    have hname : Linted settings [(name, .class)] a named [] [] := declareReady.after henter
    have houter := (lintedBase hbase hribsNamed).trans
      (lintedStatics settings statics based hs hribsBased)
    have hmembers : Linted settings [] outer closed _ _ :=
      ((lintedMethods settings methods inner hm hribsInner).trans
        (lintedGetters settings getters _ hg hribsMethods)).receiver
    have hleave : Linted settings [] closed (closed.leaveClass a.around) [] [] :=
      .quiet id rfl fun _ => rfl
    exact ((houter.trans hmembers).after hname).andThen hleave

end

end LoxLang
