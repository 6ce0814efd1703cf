import LoxLang.Proofs.Binding.Linted
import LoxLang.Proofs.Grammar.Renumbering
import LoxLang.Proofs.Token.Tiling

/-!
# Unused names

The warnings about unused names are one for each declaration in a scope of the tree that no variable
and no assignment is led to by the table, and no others (`Resolver.unused_told`). Those of one scope
are in the order of the source, in whatever order the scope keeps its names.
-/

namespace LoxLang

/-! ## Places of declarations -/

/-- Tokens correspond to themselves, and identifiers only if they are read in the source. -/
def Likeness.reading (source : String) : Likeness where
  node _ _ := True
  token t t' := t = t' ∧ (t.kind.isIdentifier = true → Scanned.token t ∈ Scanned.ofSource source)
  kind h := h.1 ▸ rfl
  lexeme h := h.1 ▸ rfl
  synthetic _ _ hkind h := by
    obtain ⟨rfl, -⟩ := h
    exact ⟨rfl, fun hname => absurd hname (Bool.eq_false_iff.mp hkind)⟩
  ended := ⟨rfl, fun h => by cases h⟩

/-- What a program declares is read in its source. -/
theorem mem_ofSource_of_declared {source : String} {interactive : Bool} {firstId : NodeId}
    {program : List Stmt} {ribs : List Rib}
    (hparsed : (Parse.program interactive firstId (scan source).1).statements = some program) :
    ∀ extent ∈ extentsOfBody program ribs, ∀ d ∈ extent.declared, d.1.IsName →
      Scanned.token d.1 ∈ Scanned.ofSource source := by
  have htokens : ∀ t ∈ (scan source).1, (Likeness.reading source).token t t := by
    intro t ht
    obtain ⟨item, hitem, htoken⟩ := List.mem_filterMap.mp ht
    cases item with
    | fault => cases htoken
    | token =>
      cases htoken
      exact ⟨rfl, fun _ => hitem⟩
  have hself : (Parse.program interactive firstId (scan source).1).Alike (.reading source)
      (Parse.program interactive firstId (scan source).1) :=
    Parse.program_alike interactive (List.forall₂_same.mpr htokens) fun _ => trivial
  have hprogram := hself.statements
  rw [hparsed] at hprogram
  cases hprogram with
  | some hbody =>
    intro extent hextent d hd hname
    obtain ⟨t, -, hread⟩ := hbody.carried ribs extent hextent d hd
    exact hread hname.kind

/-! ## What a scope tells of -/

namespace Extent

variable {extent : Extent} {table : Distances}

/-- The table says no more of a name than what the scopes around the nodes show. -/
theorem uses_eq (htable : ∀ site ∈ extent.sites, table[site.reference.id]? = site.hops?)
    (hkeywords : ∀ site ∈ extent.sites, site.isUse = false →
      ∃ word : Keyword, site.name = word.text) {name : Token} (hname : name.IsName) :
    extent.uses table name.lexeme =
      extent.sites.any fun site => site.hits site.hops? extent.depth name.lexeme := by
  rw [uses, Bool.eq_iff_iff, List.any_eq_true, List.any_eq_true]
  refine exists_congr fun site => and_congr_right fun hsite => ?_
  rw [htable site hsite]
  cases huse : site.isUse with
  | true => exact Iff.rfl
  | false =>
    -- A keyword is led to no name that is declared.
    obtain ⟨word, hword⟩ := hkeywords site hsite huse
    have hne : site.name ≠ name.lexeme := fun heq => hname.ne word (heq.symm.trans hword)
    rw [Site.hits, beq_eq_false_iff_ne.mpr hne]
    exact Iff.rfl

/-- What waits to be used is what the table leads no node to. -/
theorem perm_waiting (huses : ∀ d ∈ extent.declared, extent.uses table d.1.lexeme =
      extent.sites.any fun site => site.hits site.hops? extent.depth d.1.lexeme) :
    extent.waiting.Perm (extent.unused table) := by
  have heq : extent.waiting =
      (extent.declared.filter fun d => !extent.uses table d.1.lexeme).map listed := by
    refine congrArg (List.map listed) (List.filter_congr fun d hd => ?_)
    rw [huses d hd]
  rw [heq]
  exact (List.perm_insertionSort _ _).symm

/-- Declarations of one scope stand in different places of the source. -/
theorem ordered_unused {source : String}
    (hdistinct : (extent.declared.map fun d => d.1.lexeme).Nodup)
    (hnamed : ∀ d ∈ extent.declared, d.1.IsName)
    (hread : ∀ d ∈ extent.declared, Scanned.token d.1 ∈ Scanned.ofSource source) :
    (extent.unused table).Pairwise fun entry other =>
      entry.2.1.span.start < other.2.1.span.start := by
  have htotal : Std.Total fun entry other : String × Token × DeclarationKind =>
      entry.2.1.span.start ≤ other.2.1.span.start := ⟨fun _ _ => Nat.le_total _ _⟩
  have htrans : IsTrans (String × Token × DeclarationKind) fun entry other =>
      entry.2.1.span.start ≤ other.2.1.span.start := ⟨fun _ _ _ => Nat.le_trans⟩
  have hsorted : (extent.unused table).Pairwise fun entry other =>
      entry.2.1.span.start ≤ other.2.1.span.start := List.pairwise_insertionSort _ _
  have hplaces : extent.declared.Pairwise fun d d' => d.1.span.start ≠ d'.1.span.start := by
    refine (List.pairwise_map.mp hdistinct).imp_of_mem fun {d d'} hd hd' hne hstart => hne ?_
    have hend {u : Token × DeclarationKind} (hu : u ∈ extent.declared) : u.1.kind.isEof = false :=
      Parse.not_eof_of_isIdentifier (hnamed u hu).kind
    rw [Scanned.eq_of_start (hread d hd) (hread d' hd') (hend hd) (hend hd') hstart]
  have hwaiting : ((extent.declared.filter fun d => !extent.uses table d.1.lexeme).map
      listed).Pairwise fun entry other => entry.2.1.span.start ≠ other.2.1.span.start :=
    List.pairwise_map.mpr (hplaces.filter _)
  have hunused : (extent.unused table).Pairwise fun entry other =>
      entry.2.1.span.start ≠ other.2.1.span.start :=
    ((List.perm_insertionSort _ _).pairwise_iff fun hne => hne.symm).mpr hwaiting
  exact (hsorted.and hunused).imp fun h => Nat.lt_of_le_of_ne h.1 h.2

end Extent

/-! ## Programs -/

/-- What an analysis tells of the scopes of a tree whose nodes the table leads to their names. -/
structure TellsUnused (table : Distances) (extents : List Extent) (log after : Log) : Prop where
  /-- There is one warning for each declaration that no variable and no assignment is led to, scope
  by scope as these are closed, and no other about unused names. -/
  told : after.recorded.filter Diagnostic.isUnused = log.recorded.filter Diagnostic.isUnused ++
    extents.flatMap fun extent => (extent.unused table).map unusedWarning
  /-- Those of one scope are in the order of the source. -/
  ordered : ∀ extent ∈ extents, (extent.unused table).Pairwise fun entry other =>
    entry.2.1.span.start < other.2.1.span.start
  /-- They would be so in whatever order the scope kept its names. -/
  anyOrder : ∀ extent ∈ extents, ∀ scope : StaticScope,
    (scope.names.entries.filterMap fun entry => entry.2.pending.map (entry.1, ·)).Perm
      (extent.unused table) → scope.unused = extent.unused table

namespace Resolver

variable {settings : Settings} {log : Log} {program : List Stmt} {r : Resolver} {table : Distances}

/-- The table leads a node to the scope in which its name is first found. -/
theorem getElem?_of_site (hregular : RegularBody program)
    (h : (r.resolve settings log program).distances = some table) :
    ∀ site ∈ sitesOfBody program (ribsOf r.scopes), table[site.reference.id]? = site.hops? := by
  intro site hsite
  have hsited := sitedBody settings program (r.opening log) hregular rfl
  obtain ⟨v, hv, hkey, -⟩ := hsited.visited site hsite
  obtain ⟨hops, hhops, hentry⟩ := getElem?_of_visit hregular h v hv
  obtain ⟨⟨kind, id, token⟩, ribs⟩ := site
  cases hkey
  exact hentry.trans hhops.symm

theorem log_of_accepted (h : (r.resolve settings log program).distances = some table) :
    (r.resolve settings log program).log = (closing settings log program r).log := by
  rw [resolve_eq, if_neg (Bool.eq_false_iff.mp (accepted h).1)]

/-- If the log has room, the analysis of an accepted program tells of its unused names, of each in
the scope that declares it, and of nothing else that would be unused. -/
theorem unused_told (source : String) (interactive : Bool) (firstId : NodeId)
    (hparsed : (Parse.program interactive firstId (scan source).1).statements = some program)
    (h : (r.resolve settings log program).distances = some table)
    (hlint : settings.warnUnused = true)
    (hroom : (r.resolve settings log program).log.overflowed = false) :
    TellsUnused table (extentsOfBody program (ribsOf r.scopes)) log
      (r.resolve settings log program).log := by
  have hregular : RegularBody program := (Parse.program_made (spelled_scan source) hparsed).regular
  have haccepted := (accepted h).1
  have hlinted := lintedBody settings program (r.opening log) hregular rfl
  have hperm : ∀ extent ∈ extentsOfBody program (ribsOf r.scopes),
      extent.waiting.Perm (extent.unused table) := fun extent hextent =>
    Extent.perm_waiting fun d hd => Extent.uses_eq
      (fun site hsite => getElem?_of_site hregular h site (hlinted.within extent hextent site hsite))
      (fun site hsite => hlinted.keywords site (hlinted.within extent hextent site hsite))
      (hlinted.named extent hextent d hd)
  have hordered : ∀ extent ∈ extentsOfBody program (ribsOf r.scopes),
      (extent.unused table).Pairwise fun entry other =>
        entry.2.1.span.start < other.2.1.span.start := fun extent hextent =>
    Extent.ordered_unused (hlinted.distinct haccepted extent hextent) (hlinted.named extent hextent)
      fun d hd => mem_ofSource_of_declared hparsed extent hextent d hd
        (hlinted.named extent hextent d hd)
  refine ⟨?_, hordered, fun extent hextent scope hscope => ?_⟩
  · obtain ⟨reported, hlog, hfilter⟩ := hlinted.warns haccepted hlint
    have hrecorded : (r.resolve settings log program).log = reported.foldl Log.add log :=
      (log_of_accepted h).trans hlog
    rw [hrecorded] at hroom ⊢
    rw [Log.recorded_foldl_add hroom, List.filter_append, hfilter]
    refine congrArg _ (List.flatMap_congr fun extent hextent => ?_)
    rw [Extent.warnings, StaticScope.sortBySite_eq (hperm extent hextent) (hordered extent hextent)]
  · rw [StaticScope.unused_eq]
    exact StaticScope.sortBySite_eq hscope (hordered extent hextent)

/-- A name of a block that hides a parameter. -/
theorem unused_told_of_hidden : ∃ program table,
    (Parse.program false 0
        (scan "fun f(a, b) \x7b \x7b var a = b; \x7d return a; \x7d").1).statements = some program ∧
      ((Resolver.ofGlobals (.globals [])).resolve {} (.empty 100) program).distances = some table ∧
      ((Resolver.ofGlobals (.globals [])).resolve {} (.empty 100) program).log.overflowed = false ∧
      TellsUnused table
        (extentsOfBody program (ribsOf (Resolver.ofGlobals (.globals [])).scopes)) (.empty 100)
        ((Resolver.ofGlobals (.globals [])).resolve {} (.empty 100) program).log := by
  let source := "fun f(a, b) \x7b \x7b var a = b; \x7d return a; \x7d"
  let r := Resolver.ofGlobals (.globals [])
  have hparses : (Parse.program false 0 (scan source).1).statements.isSome = true := by
    decide +kernel
  have hresolves : (Parse.program false 0 (scan source).1).statements.any (fun program =>
      (r.resolve {} (.empty 100) program).distances.isSome &&
        !(r.resolve {} (.empty 100) program).log.overflowed) = true := by decide +kernel
  obtain ⟨program, hparsed⟩ := Option.isSome_iff_exists.mp hparses
  rw [hparsed, Option.any_some, Bool.and_eq_true, Bool.not_eq_true'] at hresolves
  obtain ⟨haccepted, hroom⟩ := hresolves
  obtain ⟨table, htable⟩ := Option.isSome_iff_exists.mp haccepted
  exact ⟨program, table, hparsed, htable, hroom, unused_told source false 0 hparsed htable rfl hroom⟩

example : (Parse.program false 0
    (scan "fun f(a, b) \x7b \x7b var a = b; \x7d return a; \x7d").1).statements.map (fun program =>
      (((Resolver.ofGlobals (.globals [])).resolve {} (.empty 100) program).log.recorded.filter
        Diagnostic.isUnused).map Diagnostic.message) =
    some ["[line 1] Warning: -Wunused: Unused variable \"a\""] := by decide +kernel

/-- The object of a property that is assigned to by way of its old value stands twice in the tree,
and so does the function in it: of a variable that is declared once in the source and used nowhere
there are two warnings. -/
theorem unused_told_twice :
    ((scan "var o = nil; (() => \x7b var u = 1; return o; \x7d)().x += 1;").1.filter
        fun t => t.lexeme == "u").length = 1 ∧
      (Parse.program false 0
          (scan "var o = nil; (() => \x7b var u = 1; return o; \x7d)().x += 1;").1).statements.map
        (fun program =>
          let result := (Resolver.ofGlobals (.globals [])).resolve {} (.empty 100) program
          (result.distances.isSome, result.log.overflowed,
            (result.log.recorded.filter Diagnostic.isUnused).map fun d =>
              (d.message, d.token.map fun t => t.span.start))) =
        some (true, false, [("[line 1] Warning: -Wunused: Unused variable \"u\"", some 26),
          ("[line 1] Warning: -Wunused: Unused variable \"u\"", some 26)]) := by
  decide +kernel

end Resolver

end LoxLang
