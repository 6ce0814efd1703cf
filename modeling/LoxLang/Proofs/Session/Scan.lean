import LoxLang.Proofs.Machine.Forest
import LoxLang.Proofs.Session.Looks

/-!
# Distances and the plain search

What a node finds at its distance, a plain search outward finds as well, unless a nearer frame has
come to bind the same name since the analysis visited the node (`scan_agrees_iff`).
-/

namespace LoxLang

/-! ## The plain search -/

namespace Store

variable {s : Store} {id owner : FrameId} {hops i j : Nat}

/-- On the way out frames are older and older. -/
theorem Sound.descends {record : Record} (h : s.Sound record) : s.Descends := by
  intro id outer houter
  obtain ⟨frame, hframe, hout⟩ := Option.bind_eq_some_iff.mp houter
  exact (h.frames hframe).older outer hout

/-- The plain search finds what is at a distance just if no nearer frame binds the name. -/
theorem Sound.search_eq_iff {record : Record} (h : s.Sound record) {name : Token}
    {found : FrameId × Slot} (hfound : s.searchAt id hops name = .ok found) :
    s.search id name = .ok found ↔
      ∀ i < hops, ∀ nearer, s.ancestor? id i = some nearer →
        s.isDeclared nearer name.lexeme = false := by
  unfold searchAt at hfound
  split at hfound
  · next owner howner =>
    split at hfound
    · next slot hslot =>
      cases hfound
      have hdeclared : s.isDeclared owner name.lexeme = true := by
        rw [isDeclared, hslot]
        rfl
      obtain ⟨i, hi, nearest, hfirst⟩ := exists_nearest howner hdeclared
      unfold search
      rw [h.descends.owner?_of_nearest hfirst]
      dsimp only
      constructor
      · intro hsame
        obtain rfl : nearest = owner := by
          split at hsame
          · cases hsame
            rfl
          · cases hsame
        cases h.descends.ancestor?_inj hfirst.ancestor howner
        exact hfirst.nearer
      · intro hfree
        obtain rfl | hlt := Nat.eq_or_lt_of_le hi
        · cases hfirst.ancestor.symm.trans howner
          rw [hslot]
        · exact absurd hfirst.declared
            (Bool.eq_false_iff.mp (hfree i hlt nearest hfirst.ancestor))
    · cases hfound
  · cases hfound

end Store

/-! ## Looks -/

theorem ok_of_toOption {ε α : Type} {result : Except ε α} {a : α} (h : result.toOption = some a) :
    result = .ok a := by
  cases result with
  | ok b =>
    cases h
    rfl
  | error e => cases h

/-- The plain search from a look finds the binding at the distance: it reads the same value and
writes the same frame. -/
structure Look.ScanAgrees (look : Look) (hops : Nat) : Prop where
  binding : look.store.search look.here look.name = look.store.searchAt look.here hops look.name
  read : look.store.get look.here look.name = look.store.getAt look.here hops look.name
  write : look.store.writable look.here look.name = look.store.writableAt look.here hops look.name

theorem Look.scanAgrees_iff {look : Look} {hops : Nat} :
    look.ScanAgrees hops ↔
      look.store.search look.here look.name = look.store.searchAt look.here hops look.name := by
  refine ⟨fun h => h.binding, fun h => ⟨h, ?_, ?_⟩⟩
  · rw [Store.get, Store.getAt, h]
  · rw [Store.writable, Store.writableAt, h]

/-- A nearer frame that binds the name belongs to a scope around the current one, which did not have
the name when the analysis visited the node; the construct declares it further down. -/
theorem Look.At.declared_later {look : Look} {table : Distances} {v : Visit} {record : Record}
    (h : look.At table v) (hsound : look.store.Sound record) {hops i : Nat} {nearer : FrameId}
    (hhops : v.hops? = some hops) (hi : i < hops)
    (hnearer : look.store.ancestor? look.here i = some nearer)
    (hbound : look.store.isDeclared nearer look.name.lexeme = true) :
    0 < i ∧ ∃ scope, v.scopes[i]? = some scope ∧ scope.contains look.name.lexeme = false ∧
      scope.kind.Declares look.name.lexeme := by
  obtain ⟨ribs, hstands, hviews⟩ := h.meets
  obtain ⟨⟨target, status, htarget, -⟩, hbefore⟩ := Rib.exists_of_hops? hhops
  obtain ⟨scope, hscope⟩ : ∃ scope, v.scopes[i]? = some scope := by
    obtain ⟨hlt, -⟩ := List.getElem?_eq_some_iff.mp htarget
    rw [Visit.ribs, ribsOf, List.length_map] at hlt
    exact ⟨_, List.getElem?_eq_getElem (Nat.lt_trans hi hlt)⟩
  have hnew : scope.rib.status v.name.lexeme = none :=
    hbefore i hi scope.rib (by rw [Visit.ribs, ribsOf, List.getElem?_map, hscope]; rfl)
  obtain ⟨rib, hrib, hkind, hstatus⟩ := Visit.exists_rib hviews hscope
  obtain ⟨owner, frame, howner, hframe, hcovers⟩ := hstands.mirrors.ancestor hrib
  cases hnearer.symm.trans howner
  rw [← h.name, Store.isDeclared_eq] at hbound
  rw [← h.name]
  have hdeclares : scope.kind.Declares v.name.lexeme := by
    rw [Store.constant?, hframe] at hbound
    exact hkind ▸ hcovers.kind ▸ (hsound.frames hframe).declared _ hbound
  refine ⟨Nat.pos_of_ne_zero fun hzero => ?_, scope, hscope, ?_, hdeclares⟩
  · -- the current frame binds what its scope had at the visit
    subst hzero
    cases howner
    rw [hstands.exact rib (List.head?_eq_getElem? ▸ hrib), Rib.constant?, hstatus, hnew] at hbound
    cases hbound
  · rw [StaticScope.contains, NameMap.contains]
    simpa [StaticScope.rib] using hnew

/-- Where a node finds its name at its distance, in whatever input and after whatever inputs, the
plain search agrees just if no nearer frame binds the name; and a nearer frame that does lies
further out than the current one and was given the name by a declaration behind the visit to the
node. -/
theorem scan_agrees_iff (bound : Nat) (settings : Settings) (host : Host) (sink : Sink)
    (inputs : List Input) (input : Input) (stopsAt : NodeId → Token → Machine → Bool) {look : Look}
    {hops : Nat} {found : FrameId × Slot}
    (h : ((Session.startWithin bound settings host sink).feedAll inputs).look? input stopsAt =
      some look)
    (hdistance : (((Session.startWithin bound settings host sink).feedAll inputs).table
      input)[look.id]? = some hops)
    (hfound : look.store.searchAt look.here hops look.name = .ok found) :
    let visits := (Session.startWithin bound settings host sink).visitsAll (inputs ++ [input])
    (look.ScanAgrees hops ↔ ∀ i < hops, ∀ nearer, look.store.ancestor? look.here i = some nearer →
        look.store.isDeclared nearer look.name.lexeme = false) ∧
      ∀ i < hops, ∀ nearer, look.store.ancestor? look.here i = some nearer →
        look.store.isDeclared nearer look.name.lexeme = true → ∀ v ∈ visits, v.id = look.id →
        0 < i ∧ ∃ scope, v.scopes[i]? = some scope ∧ scope.contains look.name.lexeme = false ∧
          scope.kind.Declares look.name.lexeme := by
  intro visits
  obtain ⟨globals, hstart⟩ := Steady.start bound settings host sink
  obtain ⟨globals', hsteady⟩ := hstart.feedAll inputs
  obtain ⟨⟨record, hsound⟩, -, hat⟩ := hsteady.look h
  rw [List.nil_append, ← Session.visitsAll_append] at hat
  refine ⟨?_, fun i hi nearer hnearer hbound v hv hid => ?_⟩
  · rw [Look.scanAgrees_iff, hfound]
    exact hsound.search_eq_iff hfound
  · obtain ⟨hops', hhops, htable⟩ := (hat v hv hid).distance
    cases hdistance.symm.trans htable
    exact (hat v hv hid).declared_later hsound hhops hi hnearer hbound

/-- A function that assigns to a global, with no such name nearer. -/
theorem scan_agrees_in_function :
    let s := Session.startWithin 30 {} ⟨(0.0 : Float), []⟩ {}
    let inputs := [.line "var a; fun f() { a = nil; }"]
    let input := .line "f();"
    ∃ stopsAt look, (s.feedAll inputs).look? input stopsAt = some look ∧
      ((s.feedAll inputs).table input)[look.id]? = some 1 ∧ look.ScanAgrees 1 := by
  intro s inputs input
  have hfinds : (((s.feedAll inputs).look? input fun _ name _ => name.lexeme == "a").any fun look =>
      ((s.feedAll inputs).table input)[look.id]? == some 1 &&
        (look.store.searchAt look.here 1 look.name).toOption.isSome &&
        !look.store.isDeclared look.here look.name.lexeme) = true := by decide +kernel
  obtain ⟨look, hlook, hfinds⟩ := (Option.any_eq_true _ _).mp hfinds
  simp only [Bool.and_eq_true, beq_iff_eq, Bool.not_eq_true'] at hfinds
  obtain ⟨⟨hdistance, hsearch⟩, hfree⟩ := hfinds
  obtain ⟨found, hfound⟩ := Option.isSome_iff_exists.mp hsearch
  refine ⟨_, look, hlook, hdistance, ?_⟩
  apply (scan_agrees_iff 30 {} ⟨(0.0 : Float), []⟩ {} inputs input _ hlook hdistance
    (ok_of_toOption hfound)).1.mpr
  intro i hi nearer hnearer
  obtain rfl : i = 0 := Nat.lt_one_iff.mp hi
  cases hnearer
  exact hfree

/-- A function of a block reads a global, also after the block has declared a name like it, where
the plain search reads the name of the block. -/
theorem scan_reads_block :
    let s := Session.startWithin 30 {} ⟨(0.0 : Float), []⟩ {}
    let input := .program "var a = true; { fun f() { return a; } var a = false; f(); }"
    ∃ stopsAt look hops value other, s.look? input stopsAt = some look ∧
      (s.table input)[look.id]? = some hops ∧
      look.store.getAt look.here hops look.name = .ok value ∧ value.isTruthy = true ∧
      look.store.get look.here look.name = .ok other ∧ other.isTruthy = false := by
  intro s input
  have hreads : ((s.look? input fun _ name _ => name.lexeme == "a").any fun look =>
      ((s.table input)[look.id]?).any fun hops =>
        (look.store.getAt look.here hops look.name).toOption.any Value.isTruthy &&
          (look.store.get look.here look.name).toOption.any fun value => !value.isTruthy) = true := by
    decide +kernel
  obtain ⟨look, hlook, hreads⟩ := (Option.any_eq_true _ _).mp hreads
  obtain ⟨hops, hdistance, hreads⟩ := (Option.any_eq_true _ _).mp hreads
  obtain ⟨hat, hplain⟩ := (Bool.and_eq_true _ _).mp hreads
  obtain ⟨value, hvalue, htrue⟩ := (Option.any_eq_true _ _).mp hat
  obtain ⟨other, hother, hfalse⟩ := (Option.any_eq_true _ _).mp hplain
  refine ⟨_, look, hops, value, other, hlook, hdistance, ok_of_toOption hvalue, htrue,
    ok_of_toOption hother, ?_⟩
  rwa [Bool.not_eq_true'] at hfalse

end LoxLang
