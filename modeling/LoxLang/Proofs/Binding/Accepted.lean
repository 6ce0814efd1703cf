import LoxLang.Proofs.Binding.Coherent
import LoxLang.Session

/-!
# Accepted programs

An analysis without a fault has put the distance of every node it visited into its table
(`Resolver.getElem?_of_visit`), and each statement has declared a name that its scope did not have
(`Stmt.declares_fresh`), so that what a scope knew is still known behind it.
-/

namespace LoxLang

open Analysis

/-! ## The table -/

namespace Visit

theorem getElem?_note_of_ne {v : Visit} {id : NodeId} (h : v.id ≠ id) (distances : Distances) :
    (note distances v)[id]? = distances[id]? := by
  unfold note
  split
  · rw [Std.TreeMap.getElem?_insert, if_neg (by simpa using h)]
  · rfl

theorem getElem?_foldl_note_of_ne {id : NodeId} {visits : List Visit}
    (h : ∀ v ∈ visits, v.id ≠ id) (distances : Distances) :
    (visits.foldl note distances)[id]? = distances[id]? := by
  induction visits generalizing distances with
  | nil => rfl
  | cons v rest ih =>
    rw [List.foldl_cons, ih (fun w hw => h w (List.mem_cons_of_mem _ hw)),
      getElem?_note_of_ne (h v List.mem_cons_self)]

/-- Later visits of a node note the same distance again. -/
theorem getElem?_foldl_note {visits : List Visit} (hcoherent : Coherent visits)
    (hfound : ∀ v ∈ visits, ∃ hops, v.hops? = some hops) (distances : Distances) :
    ∀ v ∈ visits, (visits.foldl note distances)[v.id]? = v.hops? := by
  induction visits generalizing distances with
  | nil => exact fun _ h => nomatch h
  | cons first rest ih =>
    have hrest := ih (fun v hv w hw => hcoherent v (List.mem_cons_of_mem _ hv) w
      (List.mem_cons_of_mem _ hw)) (fun v hv => hfound v (List.mem_cons_of_mem _ hv))
    intro v hv
    by_cases hagain : ∃ w ∈ rest, w.id = v.id
    · obtain ⟨w, hw, hid⟩ := hagain
      have hkey := hcoherent w (List.mem_cons_of_mem _ hw) v hv hid
      have hhops : w.hops? = v.hops? :=
        congrArg (fun key : NodeId × Token × List Rib => Rib.hops? key.2.1.lexeme key.2.2) hkey
      rw [List.foldl_cons, ← hid, hrest _ w hw, hhops]
    · rcases List.mem_cons.mp hv with rfl | hv
      · obtain ⟨hops, hhops⟩ := hfound v List.mem_cons_self
        rw [List.foldl_cons, getElem?_foldl_note_of_ne (fun w hw heq => hagain ⟨w, hw, heq⟩), note,
          hhops]
        exact Std.TreeMap.getElem?_insert_self
      · exact absurd ⟨v, hv, rfl⟩ hagain

end Visit

namespace Resolver

variable {settings : Settings} {log : Log} {program : List Stmt} {r : Resolver} {table : Distances}

/-- The state in which the analysis of a program ends. -/
def closing (settings : Settings) (log : Log) (program : List Stmt) (r : Resolver) : Analysis :=
  analyseBody settings program (r.opening log)

theorem resolve_eq (settings : Settings) (log : Log) (program : List Stmt) (r : Resolver) :
    r.resolve settings log program =
      if (closing settings log program r).failed then
        { resolver := changeGlobals (fun _ => r.globals)
            ⟨(closing settings log program r).scopes, (closing settings log program r).around⟩
          distances := none
          log := (closing settings log program r).log }
      else
        { resolver :=
            ⟨(closing settings log program r).scopes, (closing settings log program r).around⟩
          distances := some (closing settings log program r).distances
          log := (closing settings log program r).log } := rfl

theorem accepted (h : (r.resolve settings log program).distances = some table) :
    (closing settings log program r).failed = false ∧
      table = (closing settings log program r).distances := by
  rw [resolve_eq] at h
  split at h
  · cases h
  · next hfailed =>
    cases h
    exact ⟨by simpa using hfailed, rfl⟩

theorem resolver_of_accepted (h : (r.resolve settings log program).distances = some table) :
    (r.resolve settings log program).resolver =
      ⟨(closing settings log program r).scopes, (closing settings log program r).around⟩ := by
  rw [resolve_eq, if_neg (Bool.eq_false_iff.mp (accepted h).1)]

/-- The table gives every node that is visited the distance of its name. -/
theorem getElem?_of_visit (hregular : RegularBody program)
    (h : (r.resolve settings log program).distances = some table) :
    ∀ v ∈ visitsOfBody settings program (r.opening log),
      ∃ hops, v.hops? = some hops ∧ table[v.id]? = some hops := by
  obtain ⟨hfailed, rfl⟩ := accepted h
  have hway := analysedBody settings program (r.opening log) hregular
  intro v hv
  obtain ⟨hops, hhops⟩ := hway.found hfailed v hv
  refine ⟨hops, hhops, ?_⟩
  rw [closing, hway.distances hfailed, Visit.getElem?_foldl_note
    (coherentBody settings program _ hregular) (hway.found hfailed) _ v hv, hhops]

/-- The table has no other nodes. -/
theorem getElem?_of_not_visited {id : NodeId} (hregular : RegularBody program)
    (h : (r.resolve settings log program).distances = some table)
    (hid : ∀ v ∈ visitsOfBody settings program (r.opening log), v.id ≠ id) : table[id]? = none := by
  obtain ⟨hfailed, rfl⟩ := accepted h
  rw [closing, (analysedBody settings program (r.opening log) hregular).distances hfailed,
    Visit.getElem?_foldl_note_of_ne hid]
  exact Std.TreeMap.getElem?_emptyc

end Resolver

namespace Session

theorem getElem?_foldl_insert (entries : List (NodeId × Nat)) (known : Distances) (id : NodeId)
    (hdistinct : entries.Pairwise fun e f => e.1 ≠ f.1) :
    (∀ distance, (id, distance) ∈ entries →
        (entries.foldl (fun all e => all.insert e.1 e.2) known)[id]? = some distance) ∧
      ((∀ distance, (id, distance) ∉ entries) →
        (entries.foldl (fun all e => all.insert e.1 e.2) known)[id]? = known[id]?) := by
  induction entries generalizing known with
  | nil => exact ⟨(fun _ h => nomatch h), fun _ => rfl⟩
  | cons e rest ih =>
    obtain ⟨hne, hrest⟩ := List.pairwise_cons.mp hdistinct
    obtain ⟨hin, hout⟩ := ih (known.insert e.1 e.2) hrest
    refine ⟨fun distance hmem => ?_, fun hnot => ?_⟩
    · rcases List.mem_cons.mp hmem with rfl | hmem
      · rw [List.foldl_cons, hout fun other h => hne _ h rfl]
        exact Std.TreeMap.getElem?_insert_self
      · exact hin distance hmem
    · have hid : e.1 ≠ id := fun heq => hnot e.2 (heq ▸ List.mem_cons_self)
      rw [List.foldl_cons, hout fun other h => hnot other (List.mem_cons_of_mem _ h),
        Std.TreeMap.getElem?_insert, if_neg (by simpa using hid)]

/-- The distances of a new program come before those of earlier ones. -/
theorem getElem?_noteDistances (known new : Distances) (id : NodeId) :
    (noteDistances known new)[id]? = new[id]?.or known[id]? := by
  have hdistinct : new.toList.Pairwise fun e f => e.1 ≠ f.1 :=
    Std.TreeMap.distinct_keys_toList.imp fun h heq => h (by simp [heq])
  have hentries := getElem?_foldl_insert new.toList known id hdistinct
  rw [noteDistances, Std.TreeMap.foldl_eq_foldl_toList]
  cases hnew : new[id]? with
  | some distance =>
    exact hentries.1 distance (Std.TreeMap.mem_toList_iff_getElem?_eq_some.mpr hnew)
  | none =>
    refine hentries.2 ?_
    intro distance hmem
    rw [Std.TreeMap.mem_toList_iff_getElem?_eq_some.mp hmem] at hnew
    cases hnew

end Session

/-! ## Fresh names -/

section Fresh

variable {settings : Settings} {a : Analysis} {name : Token} {kind : DeclarationKind}

theorem Analysis.declares_of_declare (h : (a.declare settings kind name).failed = false) :
    a.declares name.lexeme = false := by
  rw [(declare_eq settings kind name a).2.2.2, Bool.or_eq_false_iff] at h
  exact h.2

theorem Analysis.declares_of_declareReady (h : (a.declareReady settings kind name).failed = false) :
    a.declares name.lexeme = false := by
  rw [(declareReady_eq settings kind name a).2.2.2, Bool.or_eq_false_iff] at h
  exact h.2

/-- The name that an accepted statement declares is new in its scope. -/
theorem Stmt.declares_fresh {s : Stmt} (hregular : s.Regular)
    (h : (s.analyse settings a).failed = false) (hname : s.declaration? = some (name, kind)) :
    a.declares name.lexeme = false := by
  cases s <;> cases hname
  case var initializer =>
    cases initializer with
    | none => exact declares_of_declare (Analysed.define.sound h)
    | some initializer =>
      have hvalue := Analysed.markReady.sound (Analysed.define.sound h)
      exact declares_of_declare ((initializer.analysed settings _ hregular.1).sound hvalue)
  case const initializer =>
    have hvalue := Analysed.markReady.sound (Analysed.define.sound h)
    exact declares_of_declare ((initializer.analysed settings _ hregular.1).sound hvalue)
  case function decl =>
    exact declares_of_declareReady ((decl.analysed settings .function _ hregular).sound h)
  case «class» decl =>
    obtain ⟨name, base, methods, statics, getters⟩ := decl
    obtain ⟨hbase, -, hm, hs, hg, -⟩ := hregular
    have hgetters := Analysed.closeScope.sound h
    have hmethods := (analysedGetters settings getters _ hg).sound hgetters
    have hreceiver := (analysedMethods settings methods _ hm).sound hmethods
    have hstatics := (Analysed.openReceiver _).sound hreceiver
    obtain ⟨_, hb⟩ := analysedBase settings name base (a.nameClass settings name) hbase
    have hnamed : (a.nameClass settings name).failed = false :=
      hb.sound ((analysedStatics settings statics _ hs).sound hstatics)
    exact declares_of_declareReady (a := a.enterClass .root) hnamed

/-- What the innermost scope knows before accepted statements, it knows behind them. -/
theorem status_of_analysed {ss : List Stmt} {rib rib' : Rib} {outer outer' : List Rib}
    (hregular : RegularBody ss) (h : (analyseBody settings ss a).failed = false)
    (hribs : a.ribs = rib :: outer) (hribs' : (analyseBody settings ss a).ribs = rib' :: outer')
    {name : String} {status : Status} (hstatus : rib.status name = some status) :
    rib'.status name = some status := by
  induction ss generalizing a rib with
  | nil =>
    cases hribs.symm.trans hribs'
    exact hstatus
  | cons s ss ih =>
    have hs : (s.analyse settings a).failed = false :=
      (analysedBody settings ss _ hregular.2.1).sound h
    have hgrow := (s.analysed settings a hregular.1).ribs
    rw [hribs, Stmt.grow] at hgrow
    cases hdecl : s.declaration? with
    | none => exact ih hregular.2.1 h (by rw [hgrow, hdecl]; rfl) hribs' hstatus
    | some declared =>
      obtain ⟨token, kind⟩ := declared
      have hfresh := (declares_eq_false hribs).mp (Stmt.declares_fresh hregular.1 hs hdecl)
      have hne : token.lexeme ≠ name := fun heq => by
        rw [heq, hstatus] at hfresh
        cases hfresh
      refine ih hregular.2.1 h (by rw [hgrow, hdecl]; rfl) hribs' ?_
      rw [Rib.set_status_of_ne _ _ hne, hstatus]

end Fresh

end LoxLang
