import LoxLang.Proofs.Binding.Rib
import LoxLang.Proofs.Syntax.Alike
import LoxLang.Proofs.Syntax.NamesAlike

/-!
# Analyses side by side

The analyses of two trees that are alike go the same way (`Stmt.Alike.analyse`): they find the same
names, note the same distances for nodes that correspond, and find faults at the same points. If
tokens correspond only to themselves, they report the same.
-/

namespace LoxLang

/-- Tokens correspond only to themselves. -/
def Likeness.Exact (l : Likeness) : Prop := ∀ t t', l.token t t' → t = t'

/-- Nodes correspond one for one. -/
def Likeness.OneToOne (l : Likeness) : Prop :=
  ∀ {i j i' j'}, l.node i j → l.node i' j' → (i = i' ↔ j = j')

/-- Logs that are the same. Their tokens correspond to themselves. -/
structure Log.Alike (l : Likeness) (log log' : Log) : Prop where
  same : log = log'
  tokens : ∀ d ∈ log.recorded, ∀ t ∈ d.token, l.token t t

/-- What is known about a name, wherever it is declared. -/
structure StaticBinding.Alike (l : Likeness) (b b' : StaticBinding) : Prop where
  kind : b.kind = b'.kind
  isMutable : b.isMutable = b'.isMutable
  initialized : b.initialized = b'.initialized
  defined : b.defined = b'.defined
  used : b.used = b'.used
  site : Option.Rel l.token b.site b'.site

/-- The names of two scopes; it does not matter what opened them. -/
def StaticScope.Alike (l : Likeness) (scope scope' : StaticScope) : Prop :=
  scope.names.Alike (StaticBinding.Alike l) scope'.names

/-- Two analyses at corresponding points. -/
structure Analysis.Alike (l : Likeness) (a a' : Analysis) : Prop where
  oneToOne : l.OneToOne
  scopes : List.Forall₂ (StaticScope.Alike l) a.scopes a'.scopes
  around : a.around = a'.around
  distances : ∀ id id', l.node id id' → a.distances[id]? = a'.distances[id']?
  failed : a.failed = a'.failed
  log : l.Exact → a.log.Alike l a'.log

variable {l : Likeness}

namespace Log.Alike

variable {log log' : Log}

theorem empty (cap : Nat) : (Log.empty cap).Alike l (Log.empty cap) :=
  ⟨rfl, fun _ hd => absurd hd List.not_mem_nil⟩

theorem reset (h : log.Alike l log') : log.reset.Alike l log'.reset := by
  rw [Log.reset, Log.reset, h.same]
  exact empty log'.cap

theorem add (h : log.Alike l log') {d : Diagnostic} (hd : ∀ t ∈ d.token, l.token t t) :
    (log.add d).Alike l (log'.add d) := by
  refine ⟨congrArg (Log.add · d) h.same, fun kept hkept => ?_⟩
  rw [show (log.add d).recorded = log.record d from rfl, Log.record] at hkept
  split at hkept
  · exact h.tokens kept hkept
  · split at hkept
    · rcases List.mem_append.mp hkept with hkept | hnote
      · exact h.tokens kept hkept
      · rw [List.mem_singleton.mp hnote]
        exact fun t ht => nomatch ht
    · rcases List.mem_append.mp hkept with hkept | hadded
      · exact h.tokens kept hkept
      · exact List.mem_singleton.mp hadded ▸ hd

theorem addFault (h : log.Alike l log') {fault : Fault} (hfault : ∀ t ∈ fault.token?, l.token t t) :
    (log.addFault fault).Alike l (log'.addFault fault) := h.add hfault

theorem addFaults (h : log.Alike l log') {faults : List Fault}
    (hfaults : ∀ fault ∈ faults, ∀ t ∈ fault.token?, l.token t t) :
    (log.addFaults faults).Alike l (log'.addFaults faults) := by
  induction faults generalizing log log' with
  | nil => exact h
  | cons fault rest ih =>
    exact ih (h.addFault (hfaults fault List.mem_cons_self))
      fun later hlater => hfaults later (List.mem_cons_of_mem _ hlater)

end Log.Alike

namespace StaticBinding.Alike

variable {b b' : StaticBinding}

theorem refl (hrefl : ∀ t, l.token t t) (b : StaticBinding) : b.Alike l b :=
  ⟨rfl, rfl, rfl, rfl, rfl, match b.site with
    | none => .none
    | some token => .some (hrefl token)⟩

theorem imp {l' : Likeness} (h : b.Alike l b') (hl : ∀ t t', l.token t t' → l'.token t t') :
    b.Alike l' b' := by
  obtain ⟨kind, isMutable, initialized, defined, used, hsite⟩ := h
  refine ⟨kind, isMutable, initialized, defined, used, ?_⟩
  generalize b.site = site, b'.site = site' at hsite
  cases hsite with
  | none => exact .none
  | some ht => exact .some (hl _ _ ht)

theorem provided (kind : DeclarationKind) : Alike l (provided kind) (provided kind) :=
  ⟨rfl, rfl, rfl, rfl, rfl, .none⟩

theorem declared {name name' : Token} (h : l.token name name') (kind : DeclarationKind) :
    Alike l (declared kind name) (declared kind name') :=
  ⟨rfl, rfl, rfl, rfl, rfl, .some h⟩

theorem eq (h : Alike l b b') (hexact : l.Exact) : b = b' := by
  obtain ⟨kind, isMutable, initialized, defined, used, site⟩ := b
  obtain ⟨kind', isMutable', initialized', defined', used', site'⟩ := b'
  obtain ⟨rfl, rfl, rfl, rfl, rfl, hsite⟩ := h
  cases hsite with
  | none => rfl
  | some hsite => rw [hexact _ _ hsite]

theorem problem? (h : Alike l b b') (name : String) (access : Access) :
    Analysis.problem? name access b = Analysis.problem? name access b' := by
  unfold Analysis.problem?
  rw [h.initialized, h.isMutable, h.kind]

end StaticBinding.Alike

theorem StaticScope.mem_insertBySite {entry other : String × Token × DeclarationKind}
    {sorted : List (String × Token × DeclarationKind)} (h : other ∈ insertBySite entry sorted) :
    other = entry ∨ other ∈ sorted := by
  induction sorted with
  | nil => exact .inl (List.mem_singleton.mp h)
  | cons first rest ih =>
    rw [insertBySite] at h
    split at h
    · rcases List.mem_cons.mp h with rfl | h
      · exact .inr List.mem_cons_self
      · exact (ih h).imp_right (List.mem_cons_of_mem _)
    · exact List.mem_cons.mp h

/-- A name that nothing uses is one of the scope. -/
theorem StaticScope.exists_of_mem_unused {scope : StaticScope}
    {entry : String × Token × DeclarationKind} (h : entry ∈ scope.unused) :
    ∃ known ∈ scope.names.entries, known.2.site = some entry.2.1 := by
  have hsorted (found sorted : List (String × Token × DeclarationKind))
      (h : entry ∈ found.foldl (fun sorted entry => insertBySite entry sorted) sorted) :
      entry ∈ found ∨ entry ∈ sorted := by
    induction found generalizing sorted with
    | nil => exact .inr h
    | cons first rest ih =>
      rcases ih _ h with h | h
      · exact .inl (List.mem_cons_of_mem _ h)
      · rcases mem_insertBySite h with rfl | h
        · exact .inl List.mem_cons_self
        · exact .inr h
  rcases hsorted _ [] h with h | h
  · obtain ⟨⟨name, binding⟩, hknown, hentry⟩ := List.mem_filterMap.mp h
    dsimp only at hentry
    split at hentry
    · cases hentry
    · obtain ⟨site, hsite, rfl⟩ := Option.map_eq_some_iff.mp hentry
      exact ⟨_, hknown, hsite⟩
  · cases h

theorem StaticScope.Alike.unused {scope scope' : StaticScope} (h : scope.Alike l scope')
    (hexact : l.Exact) :
    scope.unused = scope'.unused ∧ ∀ entry ∈ scope.unused, l.token entry.2.1 entry.2.1 := by
  have hnames : scope.names = scope'.names := (NameMap.Alike.imp h fun _ _ hb => hb.eq hexact).eq
  refine ⟨by rw [StaticScope.unused, StaticScope.unused, hnames], fun entry hentry => ?_⟩
  obtain ⟨known, hknown, hsite⟩ := exists_of_mem_unused hentry
  have hself : scope.Alike l scope := by
    rw [StaticScope.Alike, NameMap.Alike, ← hnames] at h
    exact h
  have hsame := (List.forall₂_same.mp hself known hknown).2.site
  rw [hsite] at hsame
  cases hsame with
  | some htoken => exact htoken

namespace Analysis.Alike

variable {a a' : Analysis} {name name' : Token} {settings : Settings}

/-! ## Reports -/

theorem fail (h : Alike l a a') (cause : StaticFault) (hname : l.token name name') :
    Alike l (a.fail cause name) (a'.fail cause name') :=
  ⟨h.oneToOne, h.scopes, h.around, h.distances, rfl, fun hexact => by
    obtain rfl := hexact _ _ hname
    refine (h.log hexact).addFault fun t ht => ?_
    cases ht
    exact hname⟩

theorem warn (h : Alike l a a') (text : String) (hname : l.token name name') :
    Alike l (a.warn text name) (a'.warn text name') :=
  ⟨h.oneToOne, h.scopes, h.around, h.distances, h.failed, fun hexact => by
    obtain rfl := hexact _ _ hname
    refine (h.log hexact).add fun t ht => ?_
    cases ht
    exact hname⟩

theorem foldl_warnUnused (h : Alike l a a')
    {entries entries' : List (String × Token × DeclarationKind)}
    (hentries : l.Exact → entries = entries' ∧ ∀ entry ∈ entries, l.token entry.2.1 entry.2.1) :
    Alike l (entries.foldl warnUnused a) (entries'.foldl warnUnused a') := by
  obtain ⟨hscopes, haround, hdistances, hfailed⟩ := foldl_warnUnused_eq entries a
  obtain ⟨hscopes', haround', hdistances', hfailed'⟩ := foldl_warnUnused_eq entries' a'
  refine ⟨h.oneToOne, ?_, ?_, ?_, ?_, fun hexact => ?_⟩
  · rw [hscopes, hscopes']; exact h.scopes
  · rw [haround, haround']; exact h.around
  · rw [hdistances, hdistances']; exact h.distances
  · rw [hfailed, hfailed']; exact h.failed
  · obtain ⟨rfl, htokens⟩ := hentries hexact
    have hlog := h.log hexact
    clear hscopes haround hdistances hfailed hscopes' haround' hdistances' hfailed' hentries h
    induction entries generalizing a a' with
    | nil => exact hlog
    | cons entry rest ih =>
      refine ih (fun later hlater => htokens later (List.mem_cons_of_mem _ hlater))
        (hlog.add fun t ht => ?_)
      cases ht
      exact htokens entry List.mem_cons_self

/-! ## Scopes -/

theorem openScope (h : Alike l a a') (kind kind' : ScopeKind) :
    Alike l (a.openScope kind) (a'.openScope kind') :=
  ⟨h.oneToOne, .cons .empty h.scopes, h.around, h.distances, h.failed, h.log⟩

theorem enter (h : Alike l a a') (name : String) {binding binding' : StaticBinding}
    (hbinding : binding.Alike l binding') :
    Alike l (a.enter name binding) (a'.enter name binding') := by
  have hscopes := h.scopes
  unfold Analysis.enter
  generalize a.scopes = scopes, a'.scopes = scopes' at hscopes
  cases hscopes with
  | nil => exact h
  | cons hscope houter =>
    exact ⟨h.oneToOne, .cons (NameMap.Alike.insert hscope name hbinding) houter, h.around,
      h.distances, h.failed, h.log⟩

theorem modifyInnermost (h : Alike l a a') (name : String)
    {change change' : StaticBinding → StaticBinding}
    (hchange : ∀ b b', b.Alike l b' → (change b).Alike l (change' b')) :
    Alike l (a.modifyInnermost name change) (a'.modifyInnermost name change') := by
  have hscopes := h.scopes
  unfold Analysis.modifyInnermost
  generalize a.scopes = scopes, a'.scopes = scopes' at hscopes
  cases hscopes with
  | nil => exact h
  | cons hscope houter =>
    exact ⟨h.oneToOne, .cons (NameMap.Alike.modify hscope name hchange) houter, h.around,
      h.distances, h.failed, h.log⟩

theorem closeScope (h : Alike l a a') :
    Alike l (closeScope settings a) (closeScope settings a') := by
  have hscopes := h.scopes
  unfold Analysis.closeScope
  generalize a.scopes = scopes, a'.scopes = scopes' at hscopes
  cases hscopes with
  | nil => exact h
  | cons hscope houter =>
    have hclosed : Alike l { a with scopes := _ } { a' with scopes := _ } :=
      ⟨h.oneToOne, houter, h.around, h.distances, h.failed, h.log⟩
    dsimp only
    split
    · exact hclosed.foldl_warnUnused hscope.unused
    · exact hclosed

/-! ## Declarations -/

theorem declares (h : Alike l a a') (name : String) : a.declares name = a'.declares name := by
  have hscopes := h.scopes
  unfold Analysis.declares
  generalize a.scopes = scopes, a'.scopes = scopes' at hscopes
  cases hscopes with
  | nil => rfl
  | cons hscope _ => exact NameMap.Alike.contains hscope name

theorem hidden? {scopes scopes' : List StaticScope}
    (h : List.Forall₂ (StaticScope.Alike l) scopes scopes')
    (name : String) :
    Option.Rel (StaticBinding.Alike l) (hidden? name scopes) (hidden? name scopes') := by
  induction h with
  | nil => exact .none
  | @cons scope scope' _ _ hscope _ ih =>
    have hfound := NameMap.Alike.find? hscope name
    rw [Analysis.hidden?, Analysis.hidden?, List.findSome?_cons, List.findSome?_cons]
    generalize scope.names.find? name = found, scope'.names.find? name = found' at hfound
    cases hfound with
    | none => exact ih
    | some hbinding => exact .some hbinding

theorem warnShadow (h : Alike l a a') (hname : l.token name name')
    {binding binding' : StaticBinding}
    (hbinding : binding.Alike l binding') :
    Alike l (a.warnShadow name binding) (a'.warnShadow name' binding') := by
  have hsite := hbinding.site
  unfold Analysis.warnShadow
  rw [← l.lexeme hname]
  generalize binding.site = site, binding'.site = site' at hsite
  cases hsite with
  | none => exact h.warn _ hname
  | some hsite => exact (h.warn _ hname).warn _ hsite

theorem checkDeclaration (h : Alike l a a') (kind : DeclarationKind) (hname : l.token name name') :
    Alike l (a.checkDeclaration settings kind name) (a'.checkDeclaration settings kind name') := by
  unfold Analysis.checkDeclaration
  rw [← l.lexeme hname, ← h.declares]
  split
  · exact h.fail _ hname
  · split
    · have htail : List.Forall₂ (StaticScope.Alike l) a.scopes.tail a'.scopes.tail := by
        have hscopes := h.scopes
        generalize a.scopes = scopes, a'.scopes = scopes' at hscopes
        cases hscopes with
        | nil => exact .nil
        | cons _ houter => exact houter
      have hhidden := hidden? htail name.lexeme
      generalize Analysis.hidden? name.lexeme a.scopes.tail = found,
        Analysis.hidden? name.lexeme a'.scopes.tail = found' at hhidden
      cases hhidden with
      | none => exact h
      | some hbinding => exact h.warnShadow hname hbinding
    · exact h

theorem declare (h : Alike l a a') (kind : DeclarationKind) (hname : l.token name name') :
    Alike l (a.declare settings kind name) (a'.declare settings kind name') := by
  unfold Analysis.declare
  rw [← l.lexeme hname]
  exact (h.checkDeclaration kind hname).enter _ (.declared hname kind)

theorem define (h : Alike l a a') (hname : l.token name name') :
    Alike l (a.define name) (a'.define name') := by
  unfold Analysis.define
  rw [← l.lexeme hname]
  exact h.modifyInnermost _ fun b b' hb =>
    ⟨hb.kind, hb.isMutable, hb.initialized, rfl, hb.used, hb.site⟩

theorem markReady (h : Alike l a a') (hname : l.token name name') :
    Alike l (a.markReady name) (a'.markReady name') := by
  unfold Analysis.markReady
  rw [← l.lexeme hname]
  exact h.modifyInnermost _ fun b b' hb =>
    ⟨hb.kind, hb.isMutable, rfl, hb.defined, hb.used, hb.site⟩

theorem declareReady (h : Alike l a a') (kind : DeclarationKind) (hname : l.token name name') :
    Alike l (a.declareReady settings kind name) (a'.declareReady settings kind name') :=
  ((h.declare kind hname).markReady hname).define hname

/-! ## Uses -/

/-- Bindings that two searches find at one distance. -/
def Found (l : Likeness) (found found' : Nat × StaticBinding) : Prop :=
  found.1 = found'.1 ∧ found.2.Alike l found'.2

theorem findBinding? {scopes scopes' : List StaticScope}
    (h : List.Forall₂ (StaticScope.Alike l) scopes scopes') (name : String) :
    Option.Rel (Found l) (findBinding? name scopes) (findBinding? name scopes') := by
  induction h with
  | nil => exact .none
  | @cons scope scope' outer outer' hscope _ ih =>
    have hfound := NameMap.Alike.find? hscope name
    rw [Analysis.findBinding?, Analysis.findBinding?]
    generalize scope.names.find? name = found, scope'.names.find? name = found' at hfound
    cases hfound with
    | some hbinding => exact .some ⟨rfl, hbinding⟩
    | none =>
      dsimp only
      generalize Analysis.findBinding? name outer = further,
        Analysis.findBinding? name outer' = further' at ih
      cases ih with
      | none => exact .none
      | some hfurther => exact .some ⟨congrArg (· + 1) hfurther.1, hfurther.2⟩

theorem modifyAt {scopes scopes' : List StaticScope}
    (h : List.Forall₂ (StaticScope.Alike l) scopes scopes') (name : String)
    {change : StaticBinding → StaticBinding}
    (hchange : ∀ b b', b.Alike l b' → (change b).Alike l (change b')) (hops : Nat) :
    List.Forall₂ (StaticScope.Alike l) (modifyAt name change hops scopes)
      (modifyAt name change hops scopes') := by
  induction h generalizing hops with
  | nil => cases hops <;> exact .nil
  | cons hscope houter ih =>
    cases hops with
    | zero => exact .cons (NameMap.Alike.modify hscope name hchange) houter
    | succ hops => exact .cons hscope (ih hops)

theorem refer (h : Alike l a a') {id id' : NodeId} (hid : l.node id id')
    (hname : l.token name name') (access : Access) :
    Alike l (a.refer id name access) (a'.refer id' name' access) := by
  have hfound := findBinding? h.scopes name.lexeme
  unfold Analysis.refer
  rw [← l.lexeme hname]
  generalize Analysis.findBinding? name.lexeme a.scopes = found,
    Analysis.findBinding? name.lexeme a'.scopes = found' at hfound
  cases hfound with
  | none => exact h.fail _ hname
  | @some entry entry' hentry =>
    obtain ⟨hops, binding⟩ := entry
    obtain ⟨hops', binding'⟩ := entry'
    obtain ⟨rfl, hbinding⟩ := hentry
    have hmarked : Alike l
        { a with
          scopes := Analysis.modifyAt name.lexeme
            (fun binding => { binding with initialized := true, used := true }) hops a.scopes
          distances := a.distances.insert id hops }
        { a' with
          scopes := Analysis.modifyAt name.lexeme
            (fun binding => { binding with initialized := true, used := true }) hops a'.scopes
          distances := a'.distances.insert id' hops } := by
      have hassigned (b b' : StaticBinding) (hb : b.Alike l b') :
          StaticBinding.Alike l { b with initialized := true, used := true }
            { b' with initialized := true, used := true } :=
        ⟨hb.kind, hb.isMutable, rfl, hb.defined, rfl, hb.site⟩
      have hscopes := modifyAt h.scopes name.lexeme hassigned hops
      refine ⟨h.oneToOne, hscopes, h.around, fun i j hij => ?_, h.failed, h.log⟩
      rw [Std.TreeMap.getElem?_insert, Std.TreeMap.getElem?_insert]
      have hsame := h.oneToOne hid hij
      by_cases heq : id = i
      · rw [if_pos (by simpa using heq), if_pos (by simpa using hsame.mp heq)]
      · rw [if_neg (by simpa using heq), if_neg (by simpa using hsame.not.mp heq)]
        exact h.distances i j hij
    have hproblem := hbinding.problem? name.lexeme access
    dsimp only at hproblem ⊢
    rw [← hproblem]
    cases Analysis.problem? name.lexeme access binding with
    | some cause => exact hmarked.fail cause hname
    | none => exact hmarked

theorem inOwnInitializer (h : Alike l a a') (name : String) :
    a.inOwnInitializer name = a'.inOwnInitializer name := by
  have hscopes := h.scopes
  unfold Analysis.inOwnInitializer
  generalize a.scopes = scopes, a'.scopes = scopes' at hscopes
  cases hscopes with
  | nil => rfl
  | @cons scope scope' _ _ hscope _ =>
    have hfound := NameMap.Alike.find? hscope name
    rw [List.head?_cons, List.head?_cons, Option.any_some, Option.any_some]
    generalize scope.names.find? name = found, scope'.names.find? name = found' at hfound
    cases hfound with
    | none => rfl
    | some hbinding => rw [Option.any_some, Option.any_some, hbinding.defined]

/-! ## Entering and leaving constructs -/

/-- Two analyses that go into corresponding constructs. -/
theorem surround (h : Alike l a a') (change : Surroundings → Surroundings) :
    Alike l { a with around := change a.around } { a' with around := change a'.around } :=
  ⟨h.oneToOne, h.scopes, congrArg change h.around, h.distances, h.failed, h.log⟩

theorem checkJump (h : Alike l a a') (hname : l.token name name') :
    Alike l (a.checkJump name) (a'.checkJump name') := by
  unfold Analysis.checkJump
  rw [← h.around, ← l.lexeme hname]
  split
  · exact h.fail _ hname
  · exact h

theorem checkReturn (h : Alike l a a') (hname : l.token name name') :
    Alike l (a.checkReturn name) (a'.checkReturn name') := by
  unfold Analysis.checkReturn
  rw [← h.around]
  split
  · exact h.fail _ hname
  · exact h

theorem checkReturnValue (h : Alike l a a') (hname : l.token name name') :
    Alike l (a.checkReturnValue name) (a'.checkReturnValue name') := by
  unfold Analysis.checkReturnValue
  rw [← h.around]
  split
  · exact h.fail _ hname
  · exact h

theorem checkNoInitializer (h : Alike l a a') (hname : l.token name name') (cause : StaticFault) :
    Alike l (a.checkNoInitializer name cause) (a'.checkNoInitializer name' cause) := by
  unfold Analysis.checkNoInitializer
  rw [← l.lexeme hname]
  split
  · exact h.fail _ hname
  · exact h

theorem checkOwnBase (h : Alike l a a') (hname : l.token name name') {base base' : Expr}
    (hbase : Expr.Alike l base base') :
    Alike l (a.checkOwnBase name base) (a'.checkOwnBase name' base') := by
  unfold Analysis.checkOwnBase
  cases hbase with
  | «variable» _ hbaseName =>
    dsimp only
    rw [← l.lexeme hname, ← l.lexeme hbaseName]
    split
    · exact h.fail _ hname
    · exact h
  | _ => exact h

theorem openReceiver (h : Alike l a a') {decl decl' : ClassDecl}
    (hbase : decl.base.isSome = decl'.base.isSome) :
    Alike l (a.openReceiver decl) (a'.openReceiver decl') := by
  have hopened := (h.openScope (.receiver decl) (.receiver decl')).enter "this"
    (.provided .constant)
  unfold Analysis.openReceiver
  dsimp only
  rw [← hbase]
  split
  · exact hopened.enter "super" (.provided .constant)
  · exact hopened

theorem openFunction (h : Alike l a a') (role : FunctionRole) {params params' : List Token}
    (hparams : List.Forall₂ l.token params params') (body body' : List Stmt) :
    Alike l (a.openFunction settings role params body)
      (a'.openFunction settings role params' body') := by
  have hopened : Alike l ((a.enterFunction role).openScope (.parameters params body))
      ((a'.enterFunction role).openScope (.parameters params' body')) :=
    (h.surround fun around => { around with functionRole := role, loopDepth := 0 }).openScope _ _
  unfold Analysis.openFunction Analysis.declareParameters
  generalize (a.enterFunction role).openScope (.parameters params body) = b,
    (a'.enterFunction role).openScope (.parameters params' body') = b' at hopened
  induction hparams generalizing b b' with
  | nil => exact hopened
  | cons hparam _ ih => exact ih _ _ (hopened.declareReady .parameter hparam)

theorem referThis (h : Alike l a a') {id id' : NodeId} (hid : l.node id id')
    (hname : l.token name name') : Alike l (a.referThis id name) (a'.referThis id' name') := by
  unfold Analysis.referThis
  rw [← h.around]
  split
  · exact h.fail _ hname
  · exact h.refer hid hname .keyword

theorem referSuper (h : Alike l a a') {id id' : NodeId} (hid : l.node id id')
    (hname : l.token name name') : Alike l (a.referSuper id name) (a'.referSuper id' name') := by
  unfold Analysis.referSuper
  rw [← h.around]
  split
  · exact h.fail _ hname
  · exact h.fail _ hname
  · exact h.refer hid hname .keyword

theorem referVariable (h : Alike l a a') {id id' : NodeId} (hid : l.node id id')
    (hname : l.token name name') :
    Alike l (a.referVariable id name) (a'.referVariable id' name') := by
  unfold Analysis.referVariable
  rw [← l.lexeme hname, ← h.inOwnInitializer]
  split
  · exact h.fail _ hname
  · exact h.refer hid hname .read

theorem closeFunction (h : Alike l a a') {outside outside' : Surroundings}
    (houtside : outside = outside') :
    Alike l (closeFunction settings outside a) (closeFunction settings outside' a') := by
  subst houtside
  exact h.closeScope.surround fun around => { around with
    functionRole := outside.functionRole, loopDepth := outside.loopDepth }

theorem closeClass (h : Alike l a a') {outside outside' : Surroundings}
    (houtside : outside = outside') :
    Alike l (closeClass settings outside a) (closeClass settings outside' a') := by
  subst houtside
  exact h.closeScope.surround fun around => { around with classRole := outside.classRole }

theorem enterClass (h : Alike l a a') (role : ClassRole) :
    Alike l (a.enterClass role) (a'.enterClass role) :=
  h.surround fun around => { around with classRole := role }

theorem enterLoop (h : Alike l a a') : Alike l a.enterLoop a'.enterLoop :=
  h.surround fun around => { around with loopDepth := around.loopDepth + 1 }

theorem leaveLoop (h : Alike l a a') : Alike l a.leaveLoop a'.leaveLoop :=
  h.surround fun around => { around with loopDepth := around.loopDepth - 1 }

end Analysis.Alike

/-! ## Trees -/

theorem AlikeOptional.isSome {e e' : Option Expr} (h : AlikeOptional l e e') :
    e.isSome = e'.isSome := by
  cases h <;> rfl

theorem FunctionDecl.Alike.methodRole {d d' : FunctionDecl} (h : FunctionDecl.Alike l d d') :
    Analysis.methodRole d.name = Analysis.methodRole d'.name := by
  unfold Analysis.methodRole
  rw [l.lexeme h.name]

variable {settings : Settings}

mutual

theorem Expr.Alike.analyse {e e' : Expr} {a a' : Analysis} : Expr.Alike l e e' →
    Analysis.Alike l a a' → Analysis.Alike l (e.analyse settings a) (e'.analyse settings a')
  | .literal _, h => h
  | .grouping hi, h => hi.analyse h
  | .unary _ hr, h => hr.analyse h
  | .binary hleft _ hr, h | .logical hleft _ hr, h => hr.analyse (hleft.analyse h)
  | .ternary hc _ ht he, h => he.analyse (ht.analyse (hc.analyse h))
  | .variable hid hname, h => h.referVariable hid hname
  | .assign hid hname hv, h => (hv.analyse h).refer hid hname .write
  | .call hc _ ha, h => ha.analyse (hc.analyse h)
  | .get ho _, h => ho.analyse h
  | .set ho _ hv, h => ho.analyse (hv.analyse h)
  | .this hid hk, h => h.referThis hid hk
  | .super hid hk _, h => h.referSuper hid hk
  | .arrow hd, h => hd.analyse h

theorem ArrowDecl.Alike.analyse {d d' : ArrowDecl} {a a' : Analysis} : ArrowDecl.Alike l d d' →
    Analysis.Alike l a a' → Analysis.Alike l (d.analyse settings a) (d'.analyse settings a')
  | .mk _ hp hb, h => (hb.analyse (h.openFunction .function hp _ _)).closeFunction h.around

theorem AlikeEach.analyse {es es' : List Expr} {a a' : Analysis} : AlikeEach l es es' →
    Analysis.Alike l a a' →
      Analysis.Alike l (analyseEach settings es a) (analyseEach settings es' a')
  | .nil, h => h
  | .cons he hes, h => hes.analyse (he.analyse h)

theorem AlikeOptional.analyse {e e' : Option Expr} {a a' : Analysis} : AlikeOptional l e e' →
    Analysis.Alike l a a' →
      Analysis.Alike l (analyseOptional settings e a) (analyseOptional settings e' a')
  | .none, h => h
  | .some he, h => he.analyse h

theorem Stmt.Alike.analyse {s s' : Stmt} {a a' : Analysis} : Stmt.Alike l s s' →
    Analysis.Alike l a a' → Analysis.Alike l (s.analyse settings a) (s'.analyse settings a')
  | .expression hv, h | .print hv, h | .println hv, h => hv.analyse h
  | .var hname .none, h => (h.declare .variable hname).define hname
  | .var hname (.some hi), h =>
    ((hi.analyse (h.declare .variable hname)).markReady hname).define hname
  | .const hname hi, h => ((hi.analyse (h.declare .constant hname)).markReady hname).define hname
  | .block hb, h => (hb.analyse (h.openScope _ _)).closeScope
  | .ifElse hc ht he, h => he.analyse (ht.analyse (hc.analyse h))
  | .while hc hb, h => (hb.analyse (hc.analyse h).enterLoop).leaveLoop
  | .for hi hc hu hb, h =>
    (hb.analyse
      (hu.analyse (hc.analyse (hi.analyse (h.openScope _ _)))).enterLoop).leaveLoop.closeScope
  | .break hk, h | .continue hk, h => h.checkJump hk
  | .assert _ hc hm, h => hm.analyse (hc.analyse h)
  | .function hd, h => hd.analyse .function (h.declareReady .function hd.name)
  | .return hk .none, h => h.checkReturn hk
  | .return hk (.some hv), h => hv.analyse ((h.checkReturn hk).checkReturnValue hk)
  | .class hd, h => hd.analyse h

theorem AlikeBranch.analyse {s s' : Option Stmt} {a a' : Analysis} : AlikeBranch l s s' →
    Analysis.Alike l a a' →
      Analysis.Alike l (analyseBranch settings s a) (analyseBranch settings s' a')
  | .none, h => h
  | .some hs, h => hs.analyse h

theorem AlikeBody.analyse {ss ss' : List Stmt} {a a' : Analysis} : AlikeBody l ss ss' →
    Analysis.Alike l a a' →
      Analysis.Alike l (analyseBody settings ss a) (analyseBody settings ss' a')
  | .nil, h => h
  | .cons hs hss, h => hss.analyse (hs.analyse h)

theorem FunctionDecl.Alike.analyse {d d' : FunctionDecl} {a a' : Analysis} (role : FunctionRole) :
    FunctionDecl.Alike l d d' → Analysis.Alike l a a' →
      Analysis.Alike l (d.analyse settings role a) (d'.analyse settings role a')
  | .mk _ hp hb, h => (hb.analyse (h.openFunction role hp _ _)).closeFunction h.around

theorem AlikeFunctions.analyseStatics {ds ds' : List FunctionDecl} {a a' : Analysis} :
    AlikeFunctions l ds ds' → Analysis.Alike l a a' →
      Analysis.Alike l (analyseStatics settings ds a) (analyseStatics settings ds' a')
  | .nil, h => h
  | .cons hd hds, h =>
    hds.analyseStatics (hd.analyse .method (h.checkNoInitializer hd.name .staticInitializer))

theorem AlikeFunctions.analyseMethods {ds ds' : List FunctionDecl} {a a' : Analysis} :
    AlikeFunctions l ds ds' → Analysis.Alike l a a' →
      Analysis.Alike l (analyseMethods settings ds a) (analyseMethods settings ds' a')
  | .nil, h => h
  | .cons hd hds, h =>
    hds.analyseMethods (hd.methodRole ▸ hd.analyse (Analysis.methodRole _) h)

theorem AlikeFunctions.analyseGetters {ds ds' : List FunctionDecl} {a a' : Analysis} :
    AlikeFunctions l ds ds' → Analysis.Alike l a a' →
      Analysis.Alike l (analyseGetters settings ds a) (analyseGetters settings ds' a')
  | .nil, h => h
  | .cons hd hds, h =>
    hds.analyseGetters (hd.analyse .method (h.checkNoInitializer hd.name .getterInitializer))

theorem AlikeOptional.analyseBase {name name' : Token} {base base' : Option Expr} {a a' : Analysis}
    (hname : l.token name name') : AlikeOptional l base base' → Analysis.Alike l a a' →
      Analysis.Alike l (analyseBase settings name base a) (analyseBase settings name' base' a')
  | .none, h => h
  | .some hb, h => hb.analyse ((h.checkOwnBase hname hb).enterClass .derived)

theorem ClassDecl.Alike.analyse {d d' : ClassDecl} {a a' : Analysis} : ClassDecl.Alike l d d' →
    Analysis.Alike l a a' → Analysis.Alike l (d.analyse settings a) (d'.analyse settings a')
  | .mk hname hb hm hs hg, h =>
    (hg.analyseGetters (hm.analyseMethods ((hs.analyseStatics (hb.analyseBase hname
      ((h.enterClass .root).declareReady .class hname))).openReceiver hb.isSome))).closeClass
        h.around

end

/-! ## Programs -/

structure Resolver.Alike (l : Likeness) (r r' : Resolver) : Prop where
  scopes : List.Forall₂ (StaticScope.Alike l) r.scopes r'.scopes
  around : r.around = r'.around

/-- Distances of nodes that correspond. -/
def Likeness.SameDistances (l : Likeness) (distances distances' : Distances) : Prop :=
  ∀ id id', l.node id id' → distances[id]? = distances'[id']?

structure BindingResult.Alike (l : Likeness) (result result' : BindingResult) : Prop where
  resolver : result.resolver.Alike l result'.resolver
  distances : Option.Rel l.SameDistances result.distances result'.distances
  log : l.Exact → result.log.Alike l result'.log

namespace Resolver.Alike

variable {r r' : Resolver}

theorem refl (hrefl : ∀ t, l.token t t) (r : Resolver) : r.Alike l r :=
  ⟨List.forall₂_same.mpr fun _ _ => List.forall₂_same.mpr fun entry _ =>
    ⟨rfl, .refl hrefl entry.2⟩, rfl⟩

theorem imp {l' : Likeness} (h : r.Alike l r') (hl : ∀ t t', l.token t t' → l'.token t t') :
    r.Alike l' r' :=
  ⟨h.scopes.imp fun _ _ hscope => NameMap.Alike.imp hscope fun _ _ hb => hb.imp hl, h.around⟩

theorem globals (h : r.Alike l r') : r.globals.Alike l r'.globals := by
  have hscopes := h.scopes
  unfold Resolver.globals
  generalize r.scopes = scopes, r'.scopes = scopes' at hscopes
  induction hscopes with
  | nil => exact NameMap.Alike.empty
  | cons hscope houter ih =>
    cases houter with
    | nil => exact hscope
    | cons => simpa [List.getLast?_cons_cons] using ih

theorem changeGlobals (h : r.Alike l r') {change change' : StaticScope → StaticScope}
    (hchange : ∀ scope scope', scope.Alike l scope' → (change scope).Alike l (change' scope')) :
    (r.changeGlobals change).Alike l (r'.changeGlobals change') := by
  refine ⟨?_, h.around⟩
  have hscopes := h.scopes
  show List.Forall₂ _ (changeLast change r.scopes) (changeLast change' r'.scopes)
  generalize r.scopes = scopes, r'.scopes = scopes' at hscopes
  induction hscopes with
  | nil => exact .nil
  | cons hscope houter ih =>
    cases houter with
    | nil => exact .cons (hchange _ _ hscope) .nil
    | cons => exact .cons hscope ih

theorem retain (h : r.Alike l r') (keep : String → Bool) :
    (r.retain keep).Alike l (r'.retain keep) :=
  h.changeGlobals fun _ _ hscope => NameMap.Alike.retain hscope keep

/-- Analyses of programs that are alike over globals that are alike. -/
theorem resolve (h : r.Alike l r') (hl : l.OneToOne) {program program' : List Stmt}
    (hprogram : AlikeBody l program program') {log log' : Log}
    (hlog : l.Exact → log.Alike l log') :
    (r.resolve settings log program).Alike l (r'.resolve settings log' program') := by
  have hwalk : Analysis.Alike l (analyseBody settings program (r.opening log))
      (analyseBody settings program' (r'.opening log')) :=
    hprogram.analyse ⟨hl, h.scopes, h.around, fun _ _ _ => rfl, rfl, hlog⟩
  have hafter : (⟨(analyseBody settings program (r.opening log)).scopes,
      (analyseBody settings program (r.opening log)).around⟩ : Resolver).Alike l
      ⟨(analyseBody settings program' (r'.opening log')).scopes,
        (analyseBody settings program' (r'.opening log')).around⟩ := ⟨hwalk.scopes, hwalk.around⟩
  unfold Resolver.resolve
  dsimp only
  rw [← hwalk.failed]
  split
  · exact ⟨hafter.changeGlobals fun _ _ _ => h.globals, .none, hwalk.log⟩
  · exact ⟨hafter, .some hwalk.distances, hwalk.log⟩

end Resolver.Alike

end LoxLang
