import LoxLang.Proofs.Binding.Analysed

/-!
# One node, one place

In a regular tree a node that is visited twice is visited with the same ribs (`Expr.coherent`): its
visits come from the two copies of one object, which begin with the same ribs (`Expr.visits_congr`).
-/

namespace LoxLang

open Analysis Analysed

/-- What a visit shows of its node's place. -/
def Visit.key (v : Visit) : NodeId × Token × List Rib := (v.id, v.name, v.ribs)

/-- Two lists of visits to the same nodes, each with the same ribs. -/
def Twins (vs ws : List Visit) : Prop := vs.map Visit.key = ws.map Visit.key

namespace Twins

variable {vs vs' ws ws' : List Visit}

theorem append (h : Twins vs ws) (h' : Twins vs' ws') : Twins (vs ++ vs') (ws ++ ws') := by
  rw [Twins, List.map_append, List.map_append, h, h']

theorem single {id : NodeId} {name : Token} {a b : Analysis} (h : a.ribs = b.ribs) :
    Twins [⟨id, name, a.scopes⟩] [⟨id, name, b.scopes⟩] :=
  congrArg (fun ribs => [(id, name, ribs)]) h

theorem exists_of_mem (h : Twins vs ws) {w : Visit} (hw : w ∈ ws) : ∃ v ∈ vs, v.key = w.key := by
  have hmem : w.key ∈ vs.map Visit.key := h ▸ List.mem_map_of_mem hw
  exact List.mem_map.mp hmem

end Twins

/-! ## Ribs behind a part of a tree -/

section RibsCongr

variable {grow : List Rib → List Rib} {a a' b b' : Analysis} {vs vs' : List Visit}
  {rs rs' : List Reference} {settings : Settings}

/-- Ways that begin with the same ribs and do the same to them end with the same ribs. -/
theorem Analysed.ribs_congr (h : Analysed grow a b vs rs) (h' : Analysed grow a' b' vs' rs')
    (hab : a.ribs = a'.ribs) : b.ribs = b'.ribs := by
  rw [h.ribs, h'.ribs, hab]

theorem Expr.ribs_congr (e : Expr) (h : e.Regular) (hab : a.ribs = b.ribs) :
    (e.analyse settings a).ribs = (e.analyse settings b).ribs :=
  (e.analysed settings a h).ribs_congr (e.analysed settings b h) hab

theorem ribs_congrOptional (e : Option Expr) (h : RegularOptional e) (hab : a.ribs = b.ribs) :
    (analyseOptional settings e a).ribs = (analyseOptional settings e b).ribs :=
  (analysedOptional settings e a h).ribs_congr (analysedOptional settings e b h) hab

theorem Stmt.ribs_congr (s : Stmt) (h : s.Regular) (hab : a.ribs = b.ribs) :
    (s.analyse settings a).ribs = (s.analyse settings b).ribs :=
  (s.analysed settings a h).ribs_congr (s.analysed settings b h) hab

theorem ribs_congrBranch (s : Option Stmt) (h : RegularBranch s) (hab : a.ribs = b.ribs) :
    (analyseBranch settings s a).ribs = (analyseBranch settings s b).ribs :=
  (analysedBranch settings s a h).ribs_congr (analysedBranch settings s b h) hab

theorem FunctionDecl.ribs_congr (role : FunctionRole) (d : FunctionDecl) (h : d.Regular)
    (hab : a.ribs = b.ribs) :
    (d.analyse settings role a).ribs = (d.analyse settings role b).ribs :=
  (d.analysed settings role a h).ribs_congr (d.analysed settings role b h) hab

theorem ribs_congrBase (name : Token) (base : Option Expr)
    (h : ∀ e ∈ base, ∃ id name, e = .variable id name) (hab : a.ribs = b.ribs) :
    (analyseBase settings name base a).ribs = (analyseBase settings name base b).ribs := by
  obtain ⟨_, ha⟩ := analysedBase settings name base a h
  obtain ⟨_, hb⟩ := analysedBase settings name base b h
  exact ha.ribs.trans (hab.trans hb.ribs.symm)

/-- The base of a class is visited in the scope of the class. -/
theorem visitsOfBase_congr (name : Token) (base : Option Expr)
    (h : ∀ e ∈ base, ∃ id name, e = .variable id name) (hab : a.ribs = b.ribs) :
    Twins (visitsOfBase settings name base a) (visitsOfBase settings name base b) := by
  cases base with
  | none => rfl
  | some base =>
    obtain ⟨node, baseName, rfl⟩ := h base rfl
    have hribs : (a.checkOwnBase name (.variable node baseName)).ribs =
        (b.checkOwnBase name (.variable node baseName)).ribs :=
      Analysed.checkOwnBase.ribs_congr .checkOwnBase hab
    exact .single hribs

end RibsCongr

mutual

theorem Expr.visits_congr (settings : Settings) : ∀ (e : Expr) {a b : Analysis}, e.Regular →
    a.ribs = b.ribs → Twins (e.visits settings a) (e.visits settings b)
  | .literal _, _, _, _, _ => rfl
  | .grouping inner, _, _, h, hab => inner.visits_congr settings h hab
  | .unary _ right, _, _, h, hab => right.visits_congr settings h hab
  | .binary left _ right, _, _, h, hab | .logical left _ right, _, _, h, hab =>
    (left.visits_congr settings h.1 hab).append (right.visits_congr settings h.2.1
      (left.ribs_congr h.1 hab))
  | .ternary condition _ thenBranch elseBranch, _, _, h, hab =>
    have hc := condition.ribs_congr h.1 hab
    have ht := thenBranch.ribs_congr h.2.1 hc
    ((condition.visits_congr settings h.1 hab).append
      (thenBranch.visits_congr settings h.2.1 hc)).append (elseBranch.visits_congr settings h.2.2.1 ht)
  | .variable _ _, _, _, _, hab | .this _ _, _, _, _, hab | .super _ _ _, _, _, _, hab => .single hab
  | .assign _ _ value, _, _, h, hab =>
    (value.visits_congr settings h.1 hab).append
      (.single (value.ribs_congr h.1 hab))
  | .call callee _ arguments, _, _, h, hab =>
    (callee.visits_congr settings h.1 hab).append (visitsOfEach_congr settings arguments h.2.1
      (callee.ribs_congr h.1 hab))
  | .get object _, _, _, h, hab => object.visits_congr settings h hab
  | .set object _ value, _, _, h, hab =>
    (value.visits_congr settings h.2.1 hab).append (object.visits_congr settings h.1
      (value.ribs_congr h.2.1 hab))
  | .arrow ⟨_, params, body⟩, _, _, h, hab =>
    visitsOfBody_congr settings body h.1 (by simp [ribs_openFunction, hab])

theorem visitsOfEach_congr (settings : Settings) : ∀ (es : List Expr) {a b : Analysis},
    RegularEach es → a.ribs = b.ribs →
    Twins (visitsOfEach settings es a) (visitsOfEach settings es b)
  | [], _, _, _, _ => rfl
  | e :: es, _, _, h, hab =>
    (e.visits_congr settings h.1 hab).append (visitsOfEach_congr settings es h.2.1
      (e.ribs_congr h.1 hab))

theorem visitsOfOptional_congr (settings : Settings) : ∀ (e : Option Expr) {a b : Analysis},
    RegularOptional e → a.ribs = b.ribs →
    Twins (visitsOfOptional settings e a) (visitsOfOptional settings e b)
  | none, _, _, _, _ => rfl
  | some e, _, _, h, hab => e.visits_congr settings h hab

theorem Stmt.visits_congr (settings : Settings) : ∀ (s : Stmt) {a b : Analysis}, s.Regular →
    a.ribs = b.ribs → Twins (s.visits settings a) (s.visits settings b)
  | .expression value, _, _, h, hab | .print value, _, _, h, hab | .println value, _, _, h, hab =>
    value.visits_congr settings h hab
  | .var _ initializer, _, _, h, hab =>
    visitsOfOptional_congr settings initializer h.1 (Analysed.declare.ribs_congr .declare hab)
  | .const _ initializer, _, _, h, hab =>
    initializer.visits_congr settings h.1 (Analysed.declare.ribs_congr .declare hab)
  | .block body, _, _, h, hab =>
    visitsOfBody_congr settings body h (Analysed.openScope.ribs_congr .openScope hab)
  | .ifElse condition thenBranch elseBranch, _, _, h, hab =>
    have hc := condition.ribs_congr h.1 hab
    have ht := thenBranch.ribs_congr h.2.1 hc
    ((condition.visits_congr settings h.1 hab).append
      (thenBranch.visits_congr settings h.2.1 hc)).append
        (visitsOfBranch_congr settings elseBranch h.2.2.1 ht)
  | .while condition body, _, _, h, hab =>
    (condition.visits_congr settings h.1 hab).append (body.visits_congr settings h.2.1
      (condition.ribs_congr h.1 hab :))
  | .for initializer condition update body, _, _, h, hab =>
    have ho := Analysed.openScope.ribs_congr .openScope hab
    have hi := ribs_congrBranch initializer h.1 ho
    have hc := ribs_congrOptional condition h.2.1 hi
    have hu := ribs_congrOptional update h.2.2.1 hc
    (((visitsOfBranch_congr settings initializer h.1 ho).append
      (visitsOfOptional_congr settings condition h.2.1 hi)).append
        (visitsOfOptional_congr settings update h.2.2.1 hc)).append
          (body.visits_congr settings h.2.2.2.1 hu)
  | .break _, _, _, _, _ | .continue _, _, _, _, _ | .return _ none, _, _, _, _ => rfl
  | .assert _ condition message, _, _, h, hab =>
    (condition.visits_congr settings h.1 hab).append (visitsOfOptional_congr settings message h.2.1
      (condition.ribs_congr h.1 hab))
  | .function decl, _, _, h, hab =>
    decl.visits_congr settings _ h (Analysed.declareReady.ribs_congr .declareReady hab)
  | .return _ (some value), _, _, h, hab =>
    value.visits_congr settings h
      (checked.ribs_congr checked (checked.ribs_congr checked hab))
  | .class decl, _, _, h, hab => decl.visits_congr settings h hab

theorem visitsOfBranch_congr (settings : Settings) : ∀ (s : Option Stmt) {a b : Analysis},
    RegularBranch s → a.ribs = b.ribs →
    Twins (visitsOfBranch settings s a) (visitsOfBranch settings s b)
  | none, _, _, _, _ => rfl
  | some s, _, _, h, hab => s.visits_congr settings h hab

theorem visitsOfBody_congr (settings : Settings) : ∀ (ss : List Stmt) {a b : Analysis},
    RegularBody ss → a.ribs = b.ribs →
    Twins (visitsOfBody settings ss a) (visitsOfBody settings ss b)
  | [], _, _, _, _ => rfl
  | s :: ss, _, _, h, hab =>
    (s.visits_congr settings h.1 hab).append (visitsOfBody_congr settings ss h.2.1
      (s.ribs_congr h.1 hab))

theorem FunctionDecl.visits_congr (settings : Settings) (role : FunctionRole) :
    ∀ (d : FunctionDecl) {a b : Analysis}, d.Regular → a.ribs = b.ribs →
    Twins (d.visits settings role a) (d.visits settings role b)
  | ⟨_, _, body⟩, _, _, h, hab =>
    visitsOfBody_congr settings body h.1 (by simp [ribs_openFunction, hab])

theorem visitsOfStatics_congr (settings : Settings) : ∀ (ds : List FunctionDecl) {a b : Analysis},
    RegularFunctions ds → a.ribs = b.ribs →
    Twins (visitsOfStatics settings ds a) (visitsOfStatics settings ds b)
  | [], _, _, _, _ => rfl
  | d :: ds, _, _, h, hab =>
    have hchecked := checked.ribs_congr checked hab
    (d.visits_congr settings .method h.1 hchecked).append (visitsOfStatics_congr settings ds h.2.1
      (d.ribs_congr .method h.1 hchecked))

theorem visitsOfMethods_congr (settings : Settings) : ∀ (ds : List FunctionDecl) {a b : Analysis},
    RegularFunctions ds → a.ribs = b.ribs →
    Twins (visitsOfMethods settings ds a) (visitsOfMethods settings ds b)
  | [], _, _, _, _ => rfl
  | d :: ds, _, _, h, hab =>
    (d.visits_congr settings _ h.1 hab).append (visitsOfMethods_congr settings ds h.2.1
      (d.ribs_congr _ h.1 hab))

theorem visitsOfGetters_congr (settings : Settings) : ∀ (ds : List FunctionDecl) {a b : Analysis},
    RegularFunctions ds → a.ribs = b.ribs →
    Twins (visitsOfGetters settings ds a) (visitsOfGetters settings ds b)
  | [], _, _, _, _ => rfl
  | d :: ds, _, _, h, hab =>
    have hchecked := checked.ribs_congr checked hab
    (d.visits_congr settings .method h.1 hchecked).append (visitsOfGetters_congr settings ds h.2.1
      (d.ribs_congr .method h.1 hchecked))

theorem ClassDecl.visits_congr (settings : Settings) : ∀ (d : ClassDecl) {a b : Analysis},
    d.Regular → a.ribs = b.ribs → Twins (d.visits settings a) (d.visits settings b)
  | ⟨name, base, methods, statics, getters⟩, a, b, h, hab => by
    obtain ⟨hbase, -, hm, hs, hg, -⟩ := h
    have hnamed : (a.nameClass settings name).ribs = (b.nameClass settings name).ribs :=
      Analysed.declareReady.ribs_congr .declareReady hab
    have hbased : (analyseBase settings name base _).ribs = (analyseBase settings name base _).ribs :=
      ribs_congrBase name base hbase hnamed
    have houter := (analysedStatics settings statics _ hs).ribs_congr
      (analysedStatics settings statics _ hs) hbased
    have hinner := (Analysed.openReceiver ⟨name, base, methods, statics, getters⟩).ribs_congr
      (.openReceiver _) houter
    have hmethods := (analysedMethods settings methods _ hm).ribs_congr
      (analysedMethods settings methods _ hm) hinner
    exact ((visitsOfBase_congr name base hbase hnamed).append
      (visitsOfStatics_congr settings statics hs hbased)).append
        ((visitsOfMethods_congr settings methods hm hinner).append
          (visitsOfGetters_congr settings getters hg hmethods))

end

/-! ## Coherence -/

/-- Visits of one node show the same place. -/
def Coherent (visits : List Visit) : Prop :=
  ∀ v ∈ visits, ∀ w ∈ visits, v.id = w.id → v.key = w.key

namespace Coherent

variable {a b c d : Analysis} {us vs ws : List Visit} {rs rs' : List Reference}

theorem nil : Coherent [] := fun _ h => nomatch h

theorem single (v : Visit) : Coherent [v] := fun u hu w hw _ => by
  rw [List.mem_singleton.mp hu, List.mem_singleton.mp hw]

theorem append_of_ne (hv : Coherent vs) (hw : Coherent ws)
    (hne : ∀ v ∈ vs, ∀ w ∈ ws, v.id ≠ w.id) : Coherent (vs ++ ws) := fun v hv' w hw' heq => by
  rcases List.mem_append.mp hv' with hl | hr <;> rcases List.mem_append.mp hw' with hl' | hr'
  · exact hv v hl w hl' heq
  · exact absurd heq (hne v hl w hr')
  · exact absurd heq.symm (hne w hl' v hr)
  · exact hw v hr w hr' heq

/-- Visits that come from nodes with different numbers. -/
theorem append (hv : Coherent vs) (hw : Coherent ws) (h : Walk a b vs rs) (h' : Walk c d ws rs')
    (hapart : Apart rs rs') : Coherent (vs ++ ws) :=
  hv.append_of_ne hw fun v hmv w hmw heq => by
    obtain ⟨r, hr, hrv⟩ := h.origin v hmv
    obtain ⟨r', hr', hrw⟩ := h'.origin w hmw
    exact hapart r hr r' hr' ((hrv.trans heq).trans hrw.symm)

/-- To repeat some of the visits adds nothing. -/
theorem repeated (h : Coherent (us ++ vs)) (htwins : Twins us ws) :
    Coherent (us ++ vs ++ ws) := by
  have hold : ∀ w ∈ us ++ vs ++ ws, ∃ v ∈ us ++ vs, v.key = w.key := fun w hw => by
    rcases List.mem_append.mp hw with hw | hw
    · exact ⟨w, hw, rfl⟩
    · obtain ⟨v, hv, hkey⟩ := htwins.exists_of_mem hw
      exact ⟨v, List.mem_append_left _ hv, hkey⟩
  intro v hv w hw heq
  obtain ⟨v', hv', hkv⟩ := hold v hv
  obtain ⟨w', hw', hkw⟩ := hold w hw
  rw [← hkv, ← hkw]
  exact h v' hv' w' hw'
    ((congrArg Prod.fst hkv).trans (heq.trans (congrArg Prod.fst hkw).symm))

end Coherent

theorem coherentBase {settings : Settings} {a : Analysis} (name : Token) (base : Option Expr)
    (h : ∀ e ∈ base, ∃ id name, e = .variable id name) :
    Coherent (visitsOfBase settings name base a) := by
  cases base with
  | none => exact .nil
  | some base =>
    obtain ⟨node, baseName, rfl⟩ := h base rfl
    exact .single _

mutual

theorem Expr.coherent (settings : Settings) : ∀ (e : Expr) (a : Analysis), e.Regular →
    Coherent (e.visits settings a)
  | .literal _, _, _ => .nil
  | .grouping inner, a, h => inner.coherent settings a h
  | .unary _ right, a, h => right.coherent settings a h
  | .binary left _ right, a, h | .logical left _ right, a, h =>
    (left.coherent settings a h.1).append (right.coherent settings _ h.2.1)
      (left.analysed settings a h.1).toWalk (right.analysed settings _ h.2.1).toWalk h.2.2
  | .ternary condition _ thenBranch elseBranch, a, h => by
    obtain ⟨hc, ht, he, hct, hcte⟩ := h
    have hwc := (condition.analysed settings a hc).toWalk
    have hwt := (thenBranch.analysed settings (condition.analyse settings a) ht).toWalk
    exact ((condition.coherent settings a hc).append (thenBranch.coherent settings _ ht)
      hwc hwt hct).append (elseBranch.coherent settings _ he) (hwc.trans hwt)
        (elseBranch.analysed settings _ he).toWalk hcte
  | .variable _ _, _, _ | .this _ _, _, _ | .super _ _ _, _, _ => .single _
  | .assign id name value, a, h => by
    let valued := value.analyse settings a
    have hnode : Analysed _ valued (valued.refer id name .write) _ [⟨.assign, id, name⟩] :=
      .refer rfl
    exact (value.coherent settings a h.1).append (.single _) (value.analysed settings a h.1).toWalk
      hnode.toWalk h.2
  | .call callee _ arguments, a, h =>
    (callee.coherent settings a h.1).append (coherentEach settings arguments _ h.2.1)
      (callee.analysed settings a h.1).toWalk (analysedEach settings arguments _ h.2.1).toWalk h.2.2
  | .get object _, a, h => object.coherent settings a h
  | .set object name value, a, ⟨ho, hv, .inl hapart⟩ =>
    (value.coherent settings a hv).append (object.coherent settings _ ho)
      (value.analysed settings a hv).toWalk (object.analysed settings _ ho).toWalk hapart.symm
  | .set object name value, a, ⟨ho, hv, .inr hold⟩ => by
    have hvalue := value.coherent settings a hv
    have hribs := (value.analysed settings a hv).ribs
    obtain ⟨operator, right, rfl⟩ := hold
    exact hvalue.repeated (object.visits_congr settings ho hribs.symm)
  | .arrow ⟨_, _, body⟩, _, h => coherentBody settings body _ h.1

theorem coherentEach (settings : Settings) : ∀ (es : List Expr) (a : Analysis), RegularEach es →
    Coherent (visitsOfEach settings es a)
  | [], _, _ => .nil
  | e :: es, a, h =>
    (e.coherent settings a h.1).append (coherentEach settings es _ h.2.1)
      (e.analysed settings a h.1).toWalk (analysedEach settings es _ h.2.1).toWalk h.2.2

theorem coherentOptional (settings : Settings) : ∀ (e : Option Expr) (a : Analysis),
    RegularOptional e → Coherent (visitsOfOptional settings e a)
  | none, _, _ => .nil
  | some e, a, h => e.coherent settings a h

theorem Stmt.coherent (settings : Settings) : ∀ (s : Stmt) (a : Analysis), s.Regular →
    Coherent (s.visits settings a)
  | .expression value, a, h | .print value, a, h | .println value, a, h =>
    value.coherent settings a h
  | .var _ initializer, _, h => coherentOptional settings initializer _ h.1
  | .const _ initializer, _, h => initializer.coherent settings _ h.1
  | .block body, _, h => coherentBody settings body _ h
  | .ifElse condition thenBranch elseBranch, a, h => by
    obtain ⟨hc, ht, he, -, -, hct, hcte⟩ := h
    have hwc := (condition.analysed settings a hc).toWalk
    have hwt := (thenBranch.analysed settings (condition.analyse settings a) ht).toWalk
    exact ((condition.coherent settings a hc).append (thenBranch.coherent settings _ ht)
      hwc hwt hct).append (coherentBranch settings elseBranch _ he) (hwc.trans hwt)
        (analysedBranch settings elseBranch _ he).toWalk hcte
  | .while condition body, a, h =>
    (condition.coherent settings a h.1).append (body.coherent settings _ h.2.1)
      (condition.analysed settings a h.1).toWalk (body.analysed settings _ h.2.1).toWalk h.2.2.2
  | .for initializer condition update body, a, h => by
    obtain ⟨hi, hc, hu, hb, -, hic, hicu, hall⟩ := h
    let begun := analyseBranch settings initializer
      (a.openScope (.clauses initializer condition update body))
    let tested := analyseOptional settings condition begun
    have hwi := (analysedBranch settings initializer
      (a.openScope (.clauses initializer condition update body)) hi).toWalk
    have hwc := (analysedOptional settings condition begun hc).toWalk
    have hwu := (analysedOptional settings update tested hu).toWalk
    have hheader := (((coherentBranch settings initializer _ hi).append
      (coherentOptional settings condition begun hc) hwi hwc hic).append
        (coherentOptional settings update tested hu) (hwi.trans hwc) hwu hicu)
    exact hheader.append (body.coherent settings _ hb) ((hwi.trans hwc).trans hwu)
      (body.analysed settings _ hb).toWalk hall
  | .break _, _, _ | .continue _, _, _ | .return _ none, _, _ => .nil
  | .assert _ condition message, a, h =>
    (condition.coherent settings a h.1).append (coherentOptional settings message _ h.2.1)
      (condition.analysed settings a h.1).toWalk
        (analysedOptional settings message _ h.2.1).toWalk h.2.2
  | .function decl, _, h => decl.coherent settings _ _ h
  | .return _ (some value), _, h => value.coherent settings _ h
  | .class decl, a, h => decl.coherent settings a h

theorem coherentBranch (settings : Settings) : ∀ (s : Option Stmt) (a : Analysis),
    RegularBranch s → Coherent (visitsOfBranch settings s a)
  | none, _, _ => .nil
  | some s, a, h => s.coherent settings a h

theorem coherentBody (settings : Settings) : ∀ (ss : List Stmt) (a : Analysis), RegularBody ss →
    Coherent (visitsOfBody settings ss a)
  | [], _, _ => .nil
  | s :: ss, a, h =>
    (s.coherent settings a h.1).append (coherentBody settings ss _ h.2.1)
      (s.analysed settings a h.1).toWalk (analysedBody settings ss _ h.2.1).toWalk h.2.2

theorem FunctionDecl.coherent (settings : Settings) (role : FunctionRole) :
    ∀ (d : FunctionDecl) (a : Analysis), d.Regular → Coherent (d.visits settings role a)
  | ⟨_, _, body⟩, _, h => coherentBody settings body _ h.1

theorem coherentStatics (settings : Settings) : ∀ (ds : List FunctionDecl) (a : Analysis),
    RegularFunctions ds → Coherent (visitsOfStatics settings ds a)
  | [], _, _ => .nil
  | d :: ds, _, h =>
    (d.coherent settings .method _ h.1).append (coherentStatics settings ds _ h.2.1)
      (d.analysed settings .method _ h.1).toWalk (analysedStatics settings ds _ h.2.1).toWalk h.2.2

theorem coherentMethods (settings : Settings) : ∀ (ds : List FunctionDecl) (a : Analysis),
    RegularFunctions ds → Coherent (visitsOfMethods settings ds a)
  | [], _, _ => .nil
  | d :: ds, a, h =>
    (d.coherent settings _ a h.1).append (coherentMethods settings ds _ h.2.1)
      (d.analysed settings _ a h.1).toWalk (analysedMethods settings ds _ h.2.1).toWalk h.2.2

theorem coherentGetters (settings : Settings) : ∀ (ds : List FunctionDecl) (a : Analysis),
    RegularFunctions ds → Coherent (visitsOfGetters settings ds a)
  | [], _, _ => .nil
  | d :: ds, _, h =>
    (d.coherent settings .method _ h.1).append (coherentGetters settings ds _ h.2.1)
      (d.analysed settings .method _ h.1).toWalk (analysedGetters settings ds _ h.2.1).toWalk h.2.2

theorem ClassDecl.coherent (settings : Settings) : ∀ (d : ClassDecl) (a : Analysis), d.Regular →
    Coherent (d.visits settings a)
  | ⟨name, base, methods, statics, getters⟩, a, h => by
    obtain ⟨hbase, -, hm, hs, hg, hbm, hbms, hall, -⟩ := h
    simp only [Apart.append_left] at hbms hall
    let named := a.nameClass settings name
    let based := analyseBase settings name base named
    let inner := (analyseStatics settings statics based).openReceiver
      ⟨name, base, methods, statics, getters⟩
    obtain ⟨role, hb⟩ := analysedBase settings name base named hbase
    have hws := (analysedStatics settings statics based hs).toWalk
    have hwm := (analysedMethods settings methods inner hm).toWalk
    have hwg := (analysedGetters settings getters (analyseMethods settings methods inner) hg).toWalk
    have houter := (coherentBase name base hbase).append (coherentStatics settings statics based hs)
      hb.toWalk hws hbms.1
    have hmembers := (coherentMethods settings methods inner hm).append
      (coherentGetters settings getters _ hg) hwm hwg hall.1.2
    refine houter.append hmembers (hb.toWalk.trans hws) (hwm.trans hwg) ?_
    simp only [Apart.append_left, Apart.append_right]
    exact ⟨⟨hbm, hbms.2.symm⟩, hall.1.1, hall.2⟩

end

end LoxLang
