import LoxLang.Proofs.Machine.Inheritance
import LoxLang.Proofs.Machine.Matching

/-!
# Stores that match

Stores that match answer every question about things that are paired alike, and they match again
after the same change on both sides (`Together`).
-/

namespace LoxLang

/-! ## Parts of answers -/

section Answers

variable {α β γ δ : Type} {R : α → β → Prop} {S : γ → δ → Prop}

theorem rel_map {x : Option α} {y : Option β} {f : α → γ} {g : β → δ} (h : Option.Rel R x y)
    (hfg : ∀ a b, R a b → S (f a) (g b)) : Option.Rel S (x.map f) (y.map g) := by
  cases h with
  | none => exact .none
  | some hab => exact .some (hfg _ _ hab)

theorem rel_bind {x : Option α} {y : Option β} {f : α → Option γ} {g : β → Option δ}
    (h : Option.Rel R x y) (hfg : ∀ a b, R a b → Option.Rel S (f a) (g b)) :
    Option.Rel S (x.bind f) (y.bind g) := by
  cases h with
  | none => exact .none
  | some hab => exact hfg _ _ hab

theorem rel_orElse {x x' : Option α} {y y' : Option β} (h : Option.Rel R x y)
    (h' : Option.Rel R x' y') : Option.Rel R (x <|> x') (y <|> y') := by
  cases h with
  | none => exact h'
  | some hab => exact .some hab

theorem rel_findSome {xs : List α} {ys : List β} {f : α → Option γ} {g : β → Option δ}
    (h : List.Forall₂ R xs ys) (hfg : ∀ a b, R a b → Option.Rel S (f a) (g b)) :
    Option.Rel S (xs.findSome? f) (ys.findSome? g) := by
  induction h with
  | nil => exact .none
  | @cons a b _ _ hab _ ih =>
    have hfound := hfg a b hab
    rw [List.findSome?_cons, List.findSome?_cons]
    generalize f a = found, g b = found' at hfound
    cases hfound with
    | none => exact ih
    | some hfound => exact .some hfound

theorem elim_eq_of_rel {x : Option α} {y : Option β} {c : γ} {f : α → γ} {g : β → γ}
    (h : Option.Rel R x y) (hfg : ∀ a b, R a b → f a = g b) : x.elim c f = y.elim c g := by
  cases h with
  | none => rfl
  | some hab => exact hfg _ _ hab

/-- Chains that correspond link by link. The age of a thing bounds its chain. -/
theorem forall₂_chain {R : α → α → Prop} {chain chain' : Nat → α → List α}
    (next? next?' : α → Option α) (age : α → Nat)
    (hstep : ∀ fuel a, chain (fuel + 1) a = a :: (next? a).elim [] (chain fuel))
    (hstep' : ∀ fuel a, chain' (fuel + 1) a = a :: (next?' a).elim [] (chain' fuel))
    (hnext : ∀ {a a'}, R a a' → Option.Rel R (next? a) (next?' a') ∧
      (∀ b ∈ next? a, age b < age a) ∧ ∀ b ∈ next?' a', age b < age a')
    {fuel fuel' : Nat} {a a' : α} (h : R a a') (hfuel : age a < fuel) (hfuel' : age a' < fuel') :
    List.Forall₂ R (chain fuel a) (chain' fuel' a') := by
  induction fuel generalizing fuel' a a' with
  | zero => exact absurd hfuel (Nat.not_lt_zero _)
  | succ fuel ih =>
    obtain _ | fuel' := fuel'
    · exact absurd hfuel' (Nat.not_lt_zero _)
    obtain ⟨hrel, holder, holder'⟩ := hnext h
    rw [hstep, hstep']
    refine .cons h ?_
    generalize next? a = b, next?' a' = b' at hrel holder holder'
    cases hrel with
    | none => exact .nil
    | some hb =>
      exact ih hb (Nat.lt_of_lt_of_le (holder _ rfl) (Nat.le_of_lt_succ hfuel))
        (Nat.lt_of_lt_of_le (holder' _ rfl) (Nat.le_of_lt_succ hfuel'))

end Answers

/-- Answers that correspond, or one fault. -/
inductive AnswersMatch {α β : Type} (Q : α → β → Prop) :
    Except RunError α → Except RunError β → Prop
  | ok {a b} (h : Q a b) : AnswersMatch Q (.ok a) (.ok b)
  | error (e) : AnswersMatch Q (.error e) (.error e)

theorem AnswersMatch.bind {α β γ δ : Type} {Q : α → β → Prop} {R : γ → δ → Prop}
    {x : Except RunError α} {y : Except RunError β} {f : α → Except RunError γ}
    {g : β → Except RunError δ} (h : AnswersMatch Q x y)
    (hfg : ∀ a b, Q a b → AnswersMatch R (f a) (g b)) : AnswersMatch R (x >>= f) (y >>= g) := by
  cases h with
  | ok hab => exact hfg _ _ hab
  | error e => exact .error e

/-- Stores that are changed on both sides match again, and the changes give what corresponds. -/
def Together {α β : Type} (region : Region) (p : Matching) (s s' : Store)
    (Q : Matching → α → β → Prop) (result : α × Store) (result' : β × Store) : Prop :=
  ∃ q, p.Moves s s' q result.2 result'.2 ∧ result.2.Matches region q result'.2 ∧
    Q q result.1 result'.1

inductive Member.Matches (region : Region) (p : Matching) : Member → Member → Prop
  | value {v v'} (h : Value.Matches p v v') : Member.Matches region p (.value v) (.value v')
  | getter {c c'} (h : Closure.Matches region p 1 c c') :
    Member.Matches region p (.getter c) (.getter c')
  | method {c c'} (h : Closure.Matches region p 1 c c') :
    Member.Matches region p (.method c) (.method c')

inductive Attribute.Matches (region : Region) (p : Matching) : Attribute → Attribute → Prop
  | value {v v'} (h : Value.Matches p v v') : Attribute.Matches region p (.value v) (.value v')
  | getter {c c'} (h : Closure.Matches region p 0 c c') :
    Attribute.Matches region p (.getter c) (.getter c')

theorem Together.after {α β : Type} {region : Region} {p q : Matching}
    {s s' mid mid' : Store}
    {Q : Matching → α → β → Prop} {result : α × Store} {result' : β × Store}
    (h : Together region q mid mid' Q result result') (hmoves : p.Moves s s' q mid mid') :
    Together region p s s' Q result result' :=
  let ⟨q', hmoves', hstore, hvalue⟩ := h
  ⟨q', hmoves.trans hmoves', hstore, hvalue⟩

/-- Things found in portions of objects that are paired. -/
def Matching.InPortion {α : Type} (p : Matching) (R : α → α → Prop)
    (found found' : InstanceId × α) : Prop :=
  p.pairs (.instance found.1) (.instance found'.1) ∧ R found.2 found'.2

variable {region : Region} {p : Matching}

theorem ClassObject.Matches.attribute? {o o' : ClassObject} (h : o.Matches region p o')
    (name : String) : Option.Rel (Value.Matches p) (Store.ClassObject.attribute? o name)
      (Store.ClassObject.attribute? o' name) :=
  rel_orElse (h.fields.find? name)
    (rel_map (h.statics.find? name) fun _ _ hpair => .callable (.function hpair))

namespace Store.Matches

variable {s s' : Store} (h : s.Matches region p s')

include h

/-! ## Names -/

theorem slot? {id id' : FrameId} (hpair : p.pairs (.frame id) (.frame id')) (name : String) :
    Option.Rel (Slot.Matches p) (s.slot? id name) (s'.slot? id' name) := by
  obtain ⟨frame, frame', hframe, hframe', hmatch⟩ := h.frame hpair
  rw [Store.slot?, Store.slot?, hframe, hframe']
  exact hmatch.names.find? name

/-- The way out from a frame, as far as frames are paired. -/
theorem ancestor? {n k : Nat} {id id' : FrameId} (hdeep : p.Deep n id id') (hk : k ≤ n - 1) :
    ∃ o o', s.ancestor? id k = some o ∧ s'.ancestor? id' k = some o' ∧
      p.pairs (.frame o) (.frame o') := by
  induction k generalizing n id id' with
  | zero => exact ⟨id, id', rfl, rfl, hdeep.pair⟩
  | succ k ih =>
    obtain ⟨frame, frame', hframe, hframe', hmatch⟩ := h.frame hdeep.pair
    obtain ⟨o, o', ho, ho', haround⟩ := hmatch.outer
    have hdepth := hdeep.depth
    have houter : p.Deep (n - 1) o o' := (haround (by omega)).le (by omega)
    rw [Store.ancestor?, Store.ancestor?, outer?, outer?, hframe, hframe', Option.bind_some,
      Option.bind_some, ho, ho']
    exact ih houter (by omega)

theorem searchAt {n k : Nat} {id id' : FrameId} (hdeep : p.Deep n id id') (hk : k ≤ n - 1)
    (name : Token) :
    AnswersMatch (fun found found' => p.pairs (.frame found.1) (.frame found'.1) ∧
      found.2.Matches p found'.2) (s.searchAt id k name) (s'.searchAt id' k name) := by
  obtain ⟨o, o', ho, ho', hpair⟩ := h.ancestor? hdeep hk
  have hslot := h.slot? hpair name.lexeme
  rw [Store.searchAt, Store.searchAt, ho, ho']
  dsimp only
  generalize s.slot? o name.lexeme = slot, s'.slot? o' name.lexeme = slot' at hslot
  cases hslot with
  | none => exact .error _
  | some hslot => exact .ok ⟨hpair, hslot⟩

theorem getAt {n k : Nat} {id id' : FrameId} (hdeep : p.Deep n id id') (hk : k ≤ n - 1)
    (name : Token) : AnswersMatch (Value.Matches p) (s.getAt id k name) (s'.getAt id' k name) := by
  refine (h.searchAt hdeep hk name).bind fun found found' hfound => ?_
  obtain ⟨-, ⟨hvalue, -⟩⟩ := hfound
  rw [Slot.read, Slot.read]
  generalize found.2.value = v, found'.2.value = v' at hvalue
  cases hvalue with
  | none => exact .error _
  | some hv => exact .ok hv

theorem writableAt {n k : Nat} {id id' : FrameId} (hdeep : p.Deep n id id') (hk : k ≤ n - 1)
    (name : Token) : AnswersMatch (fun o o' => p.pairs (.frame o) (.frame o'))
      (s.writableAt id k name) (s'.writableAt id' k name) := by
  refine (h.searchAt hdeep hk name).bind fun found found' hfound => ?_
  obtain ⟨hpair, ⟨-, hconst⟩⟩ := hfound
  dsimp only
  rw [Slot.checkWrite, Slot.checkWrite, hconst]
  split
  · exact .error _
  · exact .ok hpair

/-! ## Chains -/

theorem classChain {id id' : ClassId} (hpair : p.pairs (.class id) (.class id')) :
    List.Forall₂ (fun b b' => p.pairs (.class b) (.class b')) (s.classChain id)
      (s'.classChain id') := by
  refine forall₂_chain (fun id => (s.class? id).bind ClassObject.base)
    (fun id => (s'.class? id).bind ClassObject.base) ClassId.index s.classesFrom_succ
    s'.classesFrom_succ (fun {b b'} hb => ?_) hpair (Nat.lt_succ_self _) (Nat.lt_succ_self _)
  obtain ⟨o, o', ho, ho', hmatch, older, older'⟩ := h.class hb
  rw [ho, ho']
  exact ⟨hmatch.base, older, older'⟩

theorem portionChain {id id' : InstanceId} (hpair : p.pairs (.instance id) (.instance id')) :
    List.Forall₂ (fun b b' => p.pairs (.instance b) (.instance b')) (s.portionChain id)
      (s'.portionChain id') := by
  refine forall₂_chain (fun id => (s.portion? id).bind Portion.base)
    (fun id => (s'.portion? id).bind Portion.base) InstanceId.index s.portionsFrom_succ
    s'.portionsFrom_succ (fun {b b'} hb => ?_) hpair (Nat.lt_succ_self _) (Nat.lt_succ_self _)
  obtain ⟨portion, portion', hportion, hportion', hmatch, older, older'⟩ := h.portion hb
  rw [hportion, hportion']
  exact ⟨hmatch.base, older, older'⟩

/-! ## Classes and attributes -/

theorem class? {id id' : ClassId} (hpair : p.pairs (.class id) (.class id')) :
    Option.Rel (ClassObject.Matches region p) (s.class? id) (s'.class? id') := by
  obtain ⟨o, o', ho, ho', hmatch, -⟩ := h.class hpair
  rw [ho, ho']
  exact .some hmatch

theorem classOf? {id id' : InstanceId} (hpair : p.pairs (.instance id) (.instance id')) :
    Option.Rel (ClassObject.Matches region p) (s.classOf? id) (s'.classOf? id') := by
  obtain ⟨portion, portion', hportion, hportion', hmatch, -⟩ := h.portion hpair
  rw [Store.classOf?, Store.classOf?, hportion, hportion']
  exact h.class? hmatch.classId

theorem className_eq {id id' : ClassId} (hpair : p.pairs (.class id) (.class id')) :
    s.className id = s'.className id' :=
  elim_eq_of_rel (h.class? hpair) fun _ _ ho => ho.name

theorem instanceClassName_eq {id id' : InstanceId}
    (hpair : p.pairs (.instance id) (.instance id')) :
    s.instanceClassName id = s'.instanceClassName id' :=
  elim_eq_of_rel (h.classOf? hpair) fun _ _ ho => ho.name

theorem asClass? {v v' : Value} (hv : v.Matches p v') :
    Option.Rel (fun id id' => p.pairs (.class id) (.class id')) (s.asClass? v)
      (s'.asClass? v') := by
  cases hv with
  | callable hc =>
    cases hc with
    | «class» hpair =>
      obtain ⟨o, o', ho, ho', -⟩ := h.class hpair
      rw [Store.asClass?, Store.asClass?, ho, ho']
      exact .some hpair
    | function | arrow => exact .none
  | nil | bool | int | float | str | «instance» => exact .none

theorem classAttribute? {id id' : ClassId} (hpair : p.pairs (.class id) (.class id'))
    (name : String) :
    Option.Rel (Value.Matches p) (s.classAttribute? id name) (s'.classAttribute? id' name) :=
  rel_findSome (h.classChain hpair) fun _ _ hb =>
    rel_bind (h.class? hb) fun _ _ ho => ho.attribute? name

theorem portionMember? {id id' : InstanceId} (hpair : p.pairs (.instance id) (.instance id'))
    (name : String) :
    Option.Rel (Member.Matches region p) (s.portionMember? id name)
      (s'.portionMember? id' name) := by
  obtain ⟨portion, portion', hportion, hportion', hmatch, -⟩ := h.portion hpair
  rw [Store.portionMember?, Store.portionMember?, hportion, hportion']
  refine rel_orElse (rel_map (hmatch.fields.find? name) fun _ _ => .value) ?_
  exact rel_bind (h.class? hmatch.classId) fun o o' ho =>
    rel_orElse (rel_map (ho.getters.find? name) fun _ _ => .getter)
      (rel_orElse (rel_map (ho.methods.find? name) fun _ _ => .method)
        (rel_map (ho.attribute? name) fun _ _ => .value))

theorem member? {id id' : InstanceId} (hpair : p.pairs (.instance id) (.instance id'))
    (name : String) : Option.Rel (p.InPortion (Member.Matches region p)) (s.member? id name)
      (s'.member? id' name) :=
  rel_findSome (h.portionChain hpair) fun _ _ hb =>
    rel_map (h.portionMember? hb name) fun _ _ hmember => ⟨hb, hmember⟩

theorem initializerOf? {id id' : ClassId} (hpair : p.pairs (.class id) (.class id')) :
    Option.Rel (Closure.Matches region p 1) (s.initializerOf? id) (s'.initializerOf? id') :=
  rel_bind (h.class? hpair) fun _ _ ho => ho.methods.find? "init"

theorem initializer? {id id' : InstanceId} (hpair : p.pairs (.instance id) (.instance id')) :
    Option.Rel (p.InPortion (Closure.Matches region p 1)) (s.initializer? id)
      (s'.initializer? id') := by
  refine rel_findSome (h.portionChain hpair) fun b b' hb => ?_
  obtain ⟨portion, portion', hportion, hportion', hmatch, -⟩ := h.portion hb
  rw [hportion, hportion']
  exact rel_map (h.initializerOf? hmatch.classId) fun _ _ hc => ⟨hb, hc⟩

/-! ## Callables and texts -/

theorem function? {id id' : FunctionId} (hpair : p.pairs (.function id) (.function id')) :
    Option.Rel (Closure.Matches region p 0) (s.function? id) (s'.function? id') := by
  obtain ⟨c, c', hc, hc', hmatch⟩ := h.function hpair
  rw [hc, hc']
  exact .some hmatch

theorem arrow? {id id' : ArrowId} (hpair : p.pairs (.arrow id) (.arrow id')) :
    Option.Rel (ArrowClosure.Matches region p) (s.arrow? id) (s'.arrow? id') := by
  obtain ⟨c, c', hc, hc', hmatch⟩ := h.arrow hpair
  rw [hc, hc']
  exact .some hmatch

theorem arity_eq {c c' : Callable} (hc : c.Matches p c') : s.arity c = s'.arity c' := by
  cases hc with
  | function hpair => exact elim_eq_of_rel (h.function? hpair) fun _ _ hc => by rw [hc.decl]
  | arrow hpair => exact elim_eq_of_rel (h.arrow? hpair) fun _ _ hc => by rw [hc.decl]
  | «class» hpair =>
    exact elim_eq_of_rel (rel_findSome (h.classChain hpair) fun _ _ => h.initializerOf?)
      fun _ _ hc => by rw [hc.decl]

theorem displayCallable_eq {c c' : Callable} (hc : c.Matches p c') :
    s.displayCallable c = s'.displayCallable c' := by
  cases hc with
  | function hpair =>
    exact congrArg (fun text => "<function " ++ text ++ ">")
      (elim_eq_of_rel (h.function? hpair) fun _ _ hc => by rw [hc.decl])
  | arrow hpair => rfl
  | «class» hpair => exact congrArg (fun text => "<class " ++ text ++ ">") (h.className_eq hpair)

theorem display_eq {v v' : Value} (hv : v.Matches p v') : s.display v = s'.display v' := by
  cases hv with
  | callable hc => exact h.displayCallable_eq hc
  | «instance» hpair =>
    exact congrArg (fun text => "<" ++ text ++ " instance>") (h.instanceClassName_eq hpair)
  | nil | bool | int | float | str => rfl

/-! ## Adding to both stores -/

omit h in
theorem index_lt {α : Type} {xs : Array α} {i : Nat} {x : α} (h : xs[i]? = some x) : i < xs.size :=
  (Array.getElem?_eq_some_iff.mp h).1

/-- A frame whose surroundings are paired is paired with one more around what lies in it. -/
theorem addFrame {frame frame' : Frame} {n : Nat} (hframe : frame.Matches p n frame') :
    Together region p s s' (fun q => q.Deep (n + 1)) (s.addFrame frame) (s'.addFrame frame') := by
  obtain ⟨q, hmoves, hstore, hpair, hdepth⟩ :=
    h.add (s.adds_addFrame frame) (s'.adds_addFrame frame') (n + 1) fun q hext hdepth =>
      .frame (by rw [hdepth _ rfl]; exact hframe.mono hext)
  exact ⟨q, hmoves, hstore, hpair, Nat.le_of_eq (hdepth _ rfl).symm⟩

theorem addFunction {c c' : Closure} (hc : c.Matches region p 0 c') :
    Together region p s s' (fun q id id' => q.pairs (.function id) (.function id'))
      (s.addFunction c) (s'.addFunction c') := by
  obtain ⟨q, hmoves, hstore, hpair, -⟩ :=
    h.add (s.adds_addFunction c) (s'.adds_addFunction c') 0 fun q hext _ =>
      .function (hc.mono hext)
  exact ⟨q, hmoves, hstore, hpair⟩

theorem addArrow {c c' : ArrowClosure} (hc : c.Matches region p c') :
    Together region p s s' (fun q id id' => q.pairs (.arrow id) (.arrow id'))
      (s.addArrow c) (s'.addArrow c') := by
  obtain ⟨q, hmoves, hstore, hpair, -⟩ :=
    h.add (s.adds_addArrow c) (s'.adds_addArrow c') 0 fun q hext _ => .arrow (hc.mono hext)
  exact ⟨q, hmoves, hstore, hpair⟩

theorem addClass {o o' : ClassObject} (ho : o.Matches region p o') :
    Together region p s s' (fun q id id' => q.pairs (.class id) (.class id'))
      (s.addClass o) (s'.addClass o') := by
  have holder : (∀ b ∈ o.base, b.index < (s.addClass o).1.index) ∧
      ∀ b ∈ o'.base, b.index < (s'.addClass o').1.index := by
    have hbase := ho.base
    generalize o.base = base, o'.base = base' at hbase
    cases hbase with
    | none => exact ⟨fun _ hb => (nomatch hb), fun _ hb => (nomatch hb)⟩
    | some hpair =>
      obtain ⟨_, _, hb, hb', -⟩ := h.class hpair
      exact ⟨fun _ heq => Option.some.inj heq ▸ index_lt hb,
        fun _ heq => Option.some.inj heq ▸ index_lt hb'⟩
  obtain ⟨q, hmoves, hstore, hpair, -⟩ :=
    h.add (s.adds_addClass o) (s'.adds_addClass o') 0 fun q hext _ =>
      .class (ho.mono hext) holder.1 holder.2
  exact ⟨q, hmoves, hstore, hpair⟩

theorem addPortion {portion portion' : Portion} (hportion : portion.Matches p portion') :
    Together region p s s' (fun q id id' => q.pairs (.instance id) (.instance id'))
      (s.addPortion portion) (s'.addPortion portion') := by
  have holder : (∀ b ∈ portion.base, b.index < (s.addPortion portion).1.index) ∧
      ∀ b ∈ portion'.base, b.index < (s'.addPortion portion').1.index := by
    have hbase := hportion.base
    generalize portion.base = base, portion'.base = base' at hbase
    cases hbase with
    | none => exact ⟨fun _ hb => (nomatch hb), fun _ hb => (nomatch hb)⟩
    | some hpair =>
      obtain ⟨_, _, hb, hb', -⟩ := h.portion hpair
      exact ⟨fun _ heq => Option.some.inj heq ▸ index_lt hb,
        fun _ heq => Option.some.inj heq ▸ index_lt hb'⟩
  obtain ⟨q, hmoves, hstore, hpair, -⟩ :=
    h.add (s.adds_addPortion portion) (s'.adds_addPortion portion') 0 fun q hext _ =>
      .instance (hportion.mono hext) holder.1 holder.2
  exact ⟨q, hmoves, hstore, hpair⟩

/-! ## Changing both stores -/

theorem declare {id id' : FrameId} (hpair : p.pairs (.frame id) (.frame id')) (name : String)
    {v v' : Option Value} (hv : Option.Rel (Value.Matches p) v v') (isConst : Bool) :
    (s.declare id name v isConst).Matches region p (s'.declare id' name v' isConst) ∧
      p.Moves s s' p (s.declare id name v isConst) (s'.declare id' name v' isConst) := by
  obtain ⟨frame, frame', hframe, hframe', hmatch⟩ := h.frame hpair
  exact h.replace hpair (puts_names hframe (·.insert name ⟨v, isConst⟩))
    (puts_names hframe' (·.insert name ⟨v', isConst⟩))
    (.frame ⟨hmatch.names.insert name ⟨hv, rfl⟩, hmatch.outer⟩)

theorem store {id id' : FrameId} (hpair : p.pairs (.frame id) (.frame id')) (name : String)
    {v v' : Value} (hv : v.Matches p v') :
    (s.store id name v).Matches region p (s'.store id' name v') ∧
      p.Moves s s' p (s.store id name v) (s'.store id' name v') := by
  obtain ⟨frame, frame', hframe, hframe', hmatch⟩ := h.frame hpair
  exact h.replace hpair
    (puts_names hframe (·.modify name fun slot => { slot with value := some v }))
    (puts_names hframe' (·.modify name fun slot => { slot with value := some v' }))
    (.frame ⟨hmatch.names.modify name fun _ _ hslot => ⟨.some hv, hslot.isConst⟩, hmatch.outer⟩)

theorem setInstanceField {id id' : InstanceId} (hpair : p.pairs (.instance id) (.instance id'))
    (name : String) {v v' : Value} (hv : v.Matches p v') :
    (s.setInstanceField id name v).Matches region p (s'.setInstanceField id' name v') ∧
      p.Moves s s' p (s.setInstanceField id name v) (s'.setInstanceField id' name v') := by
  obtain ⟨portion, portion', hportion, hportion', hmatch, older, older'⟩ := h.portion hpair
  exact h.replace hpair (puts_setInstanceField hportion name v)
    (puts_setInstanceField hportion' name v')
    (.instance { hmatch with fields := hmatch.fields.insert name hv } older older')

theorem setClassField {id id' : ClassId} (hpair : p.pairs (.class id) (.class id'))
    (name : String) {v v' : Value} (hv : v.Matches p v') :
    (s.setClassField id name v).Matches region p (s'.setClassField id' name v') ∧
      p.Moves s s' p (s.setClassField id name v) (s'.setClassField id' name v') := by
  obtain ⟨o, o', ho, ho', hmatch, older, older'⟩ := h.class hpair
  exact h.replace hpair (puts_setClassField ho name v) (puts_setClassField ho' name v')
    (.class { hmatch with fields := hmatch.fields.insert name hv } older older')

/-! ## Objects -/

omit h in
theorem receiverNames {id id' : InstanceId} (hpair : p.pairs (.instance id) (.instance id'))
    {base base' : Option InstanceId}
    (hbase : Option.Rel (fun b b' => p.pairs (.instance b) (.instance b')) base base') :
    (receiverNames id base).Alike (Slot.Matches p) (Store.receiverNames id' base') := by
  have hthis : Slot.Matches p ⟨some (.instance id), true⟩ ⟨some (.instance id'), true⟩ :=
    ⟨.some (.instance hpair), rfl⟩
  have hnames := (NameMap.Alike.empty (R := Slot.Matches p)).insert "this" hthis
  cases hbase with
  | none => exact hnames
  | some hb => exact hnames.insert "super" ⟨.some (.instance hb), rfl⟩

/-- A method that is bound has the scope of its object opened. -/
theorem bind {c c' : Closure} (hc : c.Matches region p 1 c') {id id' : InstanceId}
    (hpair : p.pairs (.instance id) (.instance id')) :
    Together region p s s' (fun q => Closure.Matches region q 0) (s.bind c id)
      (s'.bind c' id') := by
  obtain ⟨portion, portion', hportion, hportion', hmatch, -⟩ := h.portion hpair
  obtain ⟨ribs, hfits, haround⟩ := hc.place
  rw [Store.bind, Store.bind, hportion, hportion']
  have hframe (kind kind' : ScopeKind) : Frame.Matches p (region.inside ribs - 1)
      ⟨kind, Store.receiverNames id portion.base, some c.frame⟩
      ⟨kind', Store.receiverNames id' portion'.base, some c'.frame⟩ :=
    ⟨receiverNames hpair hmatch.base, _, _, rfl, rfl, haround⟩
  obtain ⟨q, hmoves, hstore, hdeep⟩ := h.addFrame (hframe _ _)
  exact ⟨q, hmoves, hstore, hc.decl, hc.isInitializer,
    ⟨ribs, hfits, fun _ => hdeep.le (by omega)⟩, fun _ _ => hdeep.pair⟩

theorem realize {id id' : InstanceId} (hpair : p.pairs (.instance id) (.instance id'))
    {member member' : Member} (hmember : member.Matches region p member') :
    Together region p s s' (Attribute.Matches region) (s.realize id member)
      (s'.realize id' member') := by
  cases hmember with
  | value hv => exact ⟨p, .refl p s s', h, .value hv⟩
  | getter hc =>
    obtain ⟨q, hmoves, hstore, hbound⟩ := h.bind hc hpair
    exact ⟨q, hmoves, hstore, .getter hbound⟩
  | method hc =>
    obtain ⟨q, hmoves, hstore, hbound⟩ := h.bind hc hpair
    obtain ⟨q', hmoves', hstore', hfunction⟩ := hstore.addFunction hbound
    exact ⟨q', hmoves.trans hmoves', hstore', .value (.callable (.function hfunction))⟩

theorem attribute? {id id' : InstanceId} (hpair : p.pairs (.instance id) (.instance id'))
    (name : String) : Together region p s s' (fun q => Option.Rel (Attribute.Matches region q))
      (s.attribute? id name) (s'.attribute? id' name) := by
  have hmember := h.member? hpair name
  rw [Store.attribute?, Store.attribute?]
  generalize s.member? id name = found, s'.member? id' name = found' at hmember
  cases hmember with
  | none => exact ⟨p, .refl p s s', h, .none⟩
  | some hfound =>
    obtain ⟨q, hmoves, hstore, hattribute⟩ := h.realize hfound.1 hfound.2
    exact ⟨q, hmoves, hstore, .some hattribute⟩

theorem buildPortions {ids ids' : List ClassId}
    (hids : List.Forall₂ (fun b b' => p.pairs (.class b) (.class b')) ids ids') :
    Together region p s s' (fun q => Option.Rel fun b b' => q.pairs (.instance b) (.instance b'))
      (s.buildPortions ids) (s'.buildPortions ids') := by
  induction hids with
  | nil => exact ⟨p, .refl p s s', h, .none⟩
  | @cons id id' ids ids' hid _ ih =>
    obtain ⟨q, hmoves, hstore, hbase⟩ := ih
    have hportion : Portion.Matches q { classId := id, base := (s.buildPortions ids).1 }
        { classId := id', base := (s'.buildPortions ids').1 } :=
      ⟨hmoves.larger.pairs hid, .empty, hbase⟩
    obtain ⟨q', hmoves', hstore', hadded⟩ := hstore.addPortion hportion
    exact ⟨q', hmoves.trans hmoves', hstore', .some hadded⟩

theorem instantiate {id id' : ClassId} (hpair : p.pairs (.class id) (.class id')) :
    Together region p s s' (fun q b b' => q.pairs (.instance b) (.instance b')) (s.instantiate id)
      (s'.instantiate id') := by
  have hbases : List.Forall₂ (fun b b' => p.pairs (.class b) (.class b')) (s.classChain id).tail
      (s'.classChain id').tail := by
    have hchain := h.classChain hpair
    generalize s.classChain id = ids, s'.classChain id' = ids' at hchain
    cases hchain with
    | nil => exact .nil
    | cons _ hrest => exact hrest
  obtain ⟨q, hmoves, hstore, hbase⟩ := h.buildPortions hbases
  have hportion : Portion.Matches q
      { classId := id, base := (s.buildPortions (s.classChain id).tail).1 }
      { classId := id', base := (s'.buildPortions (s'.classChain id').tail).1 } :=
    ⟨hmoves.larger.pairs hpair, .empty, hbase⟩
  exact (hstore.addPortion hportion).after hmoves

end Store.Matches

end LoxLang
