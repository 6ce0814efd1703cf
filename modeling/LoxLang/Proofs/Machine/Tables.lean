import LoxLang.Proofs.Machine.Bases

/-!
# Tables of attributes

The attributes of an object stand in tables: the fields of its portions, and the getters, methods,
fields and static methods of the classes of its chain. `Store.tables` has them in one list, the most
derived portion first, and what is found of a name is the first entry of this list
(`Store.member?_eq`). An assignment to a field enters one name in one table
(`Store.inTable?_write`), so what is found after it depends on what stands before this table
(`Store.firstHit?_write`).
-/

namespace LoxLang

/-- A table in which attributes are sought: the fields of a portion, or one of those that all
objects of a class share. -/
inductive Table
  | fields (portion : InstanceId)
  | getters (id : ClassId)
  | methods (id : ClassId)
  | classFields (id : ClassId)
  | statics (id : ClassId)
  deriving DecidableEq

/-- The class that a table belongs to, if it does not belong to a single portion. -/
def Table.class? : Table → Option ClassId
  | .fields _ => none
  | .getters id | .methods id | .classFields id | .statics id => some id

/-- An assignment to a field of a portion of an object, or of a class. -/
inductive FieldWrite
  | onPortion (id : InstanceId) (name : String) (value : Value)
  | onClass (id : ClassId) (name : String) (value : Value)

namespace FieldWrite

def table : FieldWrite → Table
  | onPortion id _ _ => .fields id
  | onClass id _ _ => .classFields id

def name : FieldWrite → String
  | onPortion _ name _ => name
  | onClass _ name _ => name

def value : FieldWrite → Value
  | onPortion _ _ value => value
  | onClass _ _ value => value

end FieldWrite

namespace Store

/-- The store has the table. -/
def Has (s : Store) : Table → Prop
  | .fields q => (s.portion? q).isSome
  | .getters id | .methods id | .classFields id | .statics id => (s.class? id).isSome

def write (s : Store) : FieldWrite → Store
  | .onPortion id name value => s.setInstanceField id name value
  | .onClass id name value => s.setClassField id name value

/-- Assignments one after the other. -/
def writeAll (s : Store) (writes : List FieldWrite) : Store :=
  writes.foldl write s

/-- What a table has under a name. -/
def inTable? (s : Store) (name : String) : Table → Option Member
  | .fields q => (s.portion? q).bind fun portion => (portion.fields.find? name).map .value
  | .getters id => (s.class? id).bind fun object => (object.getters.find? name).map .getter
  | .methods id => (s.class? id).bind fun object => (object.methods.find? name).map .method
  | .classFields id => (s.class? id).bind fun object => (object.fields.find? name).map .value
  | .statics id => (s.class? id).bind fun object =>
    (object.statics.find? name).map fun function => .value (functionValue function)

/-- The tables of one level of an object: the fields of the portion, and what its class has. -/
def portionTables (s : Store) (q : InstanceId) : List Table :=
  .fields q :: (s.portion? q).elim [] fun portion =>
    [.getters portion.classId, .methods portion.classId, .classFields portion.classId,
      .statics portion.classId]

/-- The tables of an object from the most derived portion to the root, each with its portion. -/
def tables (s : Store) (id : InstanceId) : List (InstanceId × Table) :=
  (s.portionChain id).flatMap fun q => (s.portionTables q).map (q, ·)

/-- The tables of a class itself, from the class to the root, each with its class. -/
def classTables (s : Store) (id : ClassId) : List (ClassId × Table) :=
  (s.classChain id).flatMap fun k => [(k, .classFields k), (k, .statics k)]

/-- The first entry of a name in a list of tables, with the level it is found on. -/
def firstHit? {α : Type} (s : Store) (name : String) (tables : List (α × Table)) :
    Option (α × Member) :=
  tables.findSome? fun entry => (s.inTable? name entry.2).map (entry.1, ·)

section Tables

variable {α : Type} {s t : Store} {name : String}

/-! ## The first hit -/

theorem firstHit?_cons (s : Store) (name : String) (entry : α × Table)
    (tables : List (α × Table)) : s.firstHit? name (entry :: tables) =
      ((s.inTable? name entry.2).map (entry.1, ·)).or (s.firstHit? name tables) := by
  rw [firstHit?, List.findSome?_cons]
  cases s.inTable? name entry.2 <;> rfl

theorem firstHit?_append (s : Store) (name : String) (front tables : List (α × Table)) :
    s.firstHit? name (front ++ tables) =
      (s.firstHit? name front).or (s.firstHit? name tables) :=
  List.findSome?_append

theorem firstHit?_congr {tables : List (α × Table)}
    (h : ∀ entry ∈ tables, t.inTable? name entry.2 = s.inTable? name entry.2) :
    t.firstHit? name tables = s.firstHit? name tables := by
  induction tables with
  | nil => rfl
  | cons entry tables ih =>
    obtain ⟨hentry, hrest⟩ := List.forall_mem_cons.mp h
    rw [firstHit?_cons, firstHit?_cons, hentry, ih hrest]

/-- Level by level. -/
theorem firstHit?_flatMap (s : Store) (name : String) {β : Type} (level : β → List (α × Table))
    (bs : List β) : s.firstHit? name (bs.flatMap level) =
      bs.findSome? fun b => s.firstHit? name (level b) := by
  induction bs with
  | nil => rfl
  | cons b bs ih =>
    rw [List.flatMap_cons, firstHit?_append, ih, List.findSome?_cons]
    cases s.firstHit? name (level b) <;> rfl

theorem firstHit?_portionTables (s : Store) (name : String) (q : InstanceId) :
    s.firstHit? name ((s.portionTables q).map (q, ·)) =
      (s.portionMember? q name).map (q, ·) := by
  unfold portionTables portionMember? ClassObject.attribute?
  simp only [List.map_cons, firstHit?_cons]
  cases hportion : s.portion? q with
  | none =>
    rw [inTable?, hportion]
    rfl
  | some portion =>
    simp only [inTable?, hportion, Option.bind_some, Option.elim_some, List.map_cons,
      firstHit?_cons, List.map_nil]
    cases portion.fields.find? name with
    | some value => rfl
    | none =>
      cases s.class? portion.classId with
      | none => rfl
      | some object =>
        simp only [Option.bind_some]
        cases object.getters.find? name <;> cases object.methods.find? name <;>
          cases object.fields.find? name <;> cases object.statics.find? name <;> rfl

/-- What is found on an object is the first entry in its tables. -/
theorem member?_eq (s : Store) (id : InstanceId) (name : String) :
    s.member? id name = s.firstHit? name (s.tables id) := by
  rw [member?, tables, firstHit?_flatMap]
  exact congrArg (List.findSome? · _) (funext fun q => (s.firstHit?_portionTables name q).symm)

theorem firstHit?_classLevel (s : Store) (name : String) (k : ClassId) :
    s.firstHit? name [(k, .classFields k), (k, .statics k)] =
      ((s.class? k).bind fun object => ClassObject.attribute? object name).map
        fun value => (k, .value value) := by
  unfold ClassObject.attribute?
  simp only [firstHit?_cons, inTable?]
  cases s.class? k with
  | none => rfl
  | some object =>
    simp only [Option.bind_some]
    cases object.fields.find? name <;> cases object.statics.find? name <;> rfl

/-- What is found on a class is the first entry in its own tables. -/
theorem classAttribute?_eq (s : Store) (id : ClassId) (name : String) :
    (s.classAttribute? id name).map Member.value =
      (s.firstHit? name (s.classTables id)).map Prod.snd := by
  rw [classAttribute?, classTables, firstHit?_flatMap]
  induction s.classChain id with
  | nil => rfl
  | cons k ks ih =>
    rw [List.findSome?_cons, List.findSome?_cons, firstHit?_classLevel]
    cases (s.class? k).bind fun object => ClassObject.attribute? object name with
    | some value => rfl
    | none => exact ih

/-! ## The same levels -/

/-- Two stores with the same classes and portions, whatever these have. -/
structure SameLevels (s t : Store) : Prop where
  classes : ∀ id, (t.class? id).map ClassObject.base = (s.class? id).map ClassObject.base
  portions : ∀ q, (t.portion? q).map (fun portion => (portion.classId, portion.base)) =
    (s.portion? q).map (fun portion => (portion.classId, portion.base))

namespace SameLevels

theorem refl (s : Store) : s.SameLevels s := ⟨fun _ => rfl, fun _ => rfl⟩

theorem symm (h : s.SameLevels t) : t.SameLevels s :=
  ⟨fun id => (h.classes id).symm, fun q => (h.portions q).symm⟩

theorem class? (h : s.SameLevels t) {id : ClassId} {object : ClassObject}
    (hobject : s.class? id = some object) :
    ∃ after, t.class? id = some after ∧ after.base = object.base :=
  Option.map_eq_some_iff.mp ((h.classes id).trans (congrArg (Option.map _) hobject))

theorem portion? (h : s.SameLevels t) {q : InstanceId} {portion : Portion}
    (hportion : s.portion? q = some portion) : ∃ after, t.portion? q = some after ∧
      after.classId = portion.classId ∧ after.base = portion.base := by
  obtain ⟨after, hafter, heq⟩ := Option.map_eq_some_iff.mp
    ((h.portions q).trans (congrArg (Option.map _) hportion))
  exact ⟨after, hafter, (Prod.mk.inj heq).1, (Prod.mk.inj heq).2⟩

theorem classChain_eq (h : s.SameLevels t) (id : ClassId) : t.classChain id = s.classChain id := by
  have hbase (k : ClassId) : (t.class? k).bind ClassObject.base =
      (s.class? k).bind ClassObject.base := by
    have hclass := congrArg (Option.bind · fun base => base) (h.classes k)
    rwa [Option.bind_map, Option.bind_map] at hclass
  rw [classChain, classChain]
  generalize id.index + 1 = fuel
  induction fuel generalizing id with
  | zero => rfl
  | succ fuel ih => rw [classesFrom_succ, classesFrom_succ, hbase, funext ih]

theorem portionChain_eq (h : s.SameLevels t) (q : InstanceId) :
    t.portionChain q = s.portionChain q := by
  have hbase (q : InstanceId) : (t.portion? q).bind Portion.base =
      (s.portion? q).bind Portion.base := by
    have hportion := congrArg (Option.bind · Prod.snd) (h.portions q)
    rwa [Option.bind_map, Option.bind_map] at hportion
  rw [portionChain, portionChain]
  generalize q.index + 1 = fuel
  induction fuel generalizing q with
  | zero => rfl
  | succ fuel ih => rw [portionsFrom_succ, portionsFrom_succ, hbase, funext ih]

theorem portionTables_eq (h : s.SameLevels t) (q : InstanceId) :
    t.portionTables q = s.portionTables q := by
  rw [portionTables, portionTables]
  cases hportion : s.portion? q with
  | none => rw [Option.map_eq_none_iff.mp ((h.portions q).trans (congrArg (Option.map _) hportion))]
  | some portion =>
    obtain ⟨after, hafter, hclass, -⟩ := h.portion? hportion
    rw [hafter, Option.elim_some, Option.elim_some, hclass]

theorem tables_eq (h : s.SameLevels t) (q : InstanceId) : t.tables q = s.tables q := by
  rw [tables, tables, h.portionChain_eq, funext h.portionTables_eq]

theorem classTables_eq (h : s.SameLevels t) (id : ClassId) :
    t.classTables id = s.classTables id := by
  rw [classTables, classTables, h.classChain_eq]

end SameLevels

/-! ## Assignments -/

theorem class?_setClassField (s : Store) (id : ClassId) (name : String) (value : Value)
    (k : ClassId) : (s.setClassField id name value).class? k =
      if id = k then (s.class? k).map fun object =>
        { object with fields := object.fields.insert name value }
      else s.class? k := by
  obtain ⟨index⟩ := id
  obtain ⟨other⟩ := k
  simp only [setClassField, class?, Array.getElem?_modify, ClassId.mk.injEq]

theorem sameLevels_write (s : Store) (w : FieldWrite) : s.SameLevels (s.write w) := by
  cases w with
  | onPortion id name value =>
    refine ⟨fun _ => rfl, fun q => ?_⟩
    rw [write, Sound.portion?_setInstanceField]
    split
    · rw [Option.map_map]
      rfl
    · rfl
  | onClass id name value =>
    refine ⟨fun k => ?_, fun _ => rfl⟩
    rw [write, class?_setClassField]
    split
    · rw [Option.map_map]
      rfl
    · rfl

/-- An assignment changes no entry but one. -/
theorem inTable?_write_of_ne (s : Store) {w : FieldWrite} {table : Table}
    (h : table ≠ w.table ∨ name ≠ w.name) :
    (s.write w).inTable? name table = s.inTable? name table := by
  cases w with
  | onPortion id field value =>
    cases table with
    | fields q =>
      rw [inTable?, inTable?, write, Sound.portion?_setInstanceField]
      split
      · next heq =>
        have hne : field ≠ name := (h.resolve_left fun hne => hne (heq ▸ rfl)).symm
        cases s.portion? q with
        | none => rfl
        | some portion =>
          exact congrArg (Option.map Member.value) (NameMap.find?_insert_of_ne _ _ hne)
      · rfl
    | _ => rfl
  | onClass id field value =>
    cases table with
    | fields q => rfl
    | classFields k =>
      rw [inTable?, inTable?, write, class?_setClassField]
      split
      · next heq =>
        have hne : field ≠ name := (h.resolve_left fun hne => hne (heq ▸ rfl)).symm
        cases s.class? k with
        | none => rfl
        | some object =>
          exact congrArg (Option.map Member.value) (NameMap.find?_insert_of_ne _ _ hne)
      · rfl
    | _ k =>
      rw [inTable?, inTable?, write, class?_setClassField]
      split
      · cases s.class? k <;> rfl
      · rfl

/-- An assignment enters its value. -/
theorem inTable?_write {w : FieldWrite} (h : s.Has w.table) :
    (s.write w).inTable? w.name w.table = some (.value w.value) := by
  cases w with
  | onPortion id name value =>
    obtain ⟨portion, hportion⟩ := Option.isSome_iff_exists.mp h
    rw [FieldWrite.table, inTable?, write, Sound.portion?_setInstanceField, if_pos rfl, hportion]
    exact congrArg (Option.map Member.value) (NameMap.find?_insert_self ..)
  | onClass id name value =>
    obtain ⟨object, hobject⟩ := Option.isSome_iff_exists.mp h
    rw [FieldWrite.table, inTable?, write, class?_setClassField, if_pos rfl, hobject]
    exact congrArg (Option.map Member.value) (NameMap.find?_insert_self ..)

/-- An assignment to another table, or of another name, does not change what is found. -/
theorem firstHit?_write_of_ne (s : Store) {w : FieldWrite} {tables : List (α × Table)}
    (h : w.table ∉ tables.map Prod.snd ∨ name ≠ w.name) :
    (s.write w).firstHit? name tables = s.firstHit? name tables := by
  refine firstHit?_congr fun entry hentry => s.inTable?_write_of_ne (h.imp_left ?_)
  rintro hnone heq
  exact hnone (heq ▸ List.mem_map_of_mem hentry)

/-- What is found after an assignment: what stands before its table, or else its value. -/
theorem firstHit?_write {w : FieldWrite} (h : s.Has w.table)
    {tables before behind : List (α × Table)} {a : α} (honce : (tables.map Prod.snd).Nodup)
    (hsplit : tables = before ++ (a, w.table) :: behind) :
    (s.write w).firstHit? w.name tables =
      (s.firstHit? w.name before).or (some (a, .value w.value)) := by
  have hbefore : w.table ∉ before.map Prod.snd := by
    rw [hsplit, List.map_append, List.map_cons] at honce
    exact fun hmem => (List.nodup_append.mp honce).2.2 _ hmem _ List.mem_cons_self rfl
  rw [hsplit, firstHit?_append, firstHit?_cons, s.firstHit?_write_of_ne (.inl hbefore),
    inTable?_write h]
  rfl

/-! ## Each table once -/

theorem SameLevels.chained (h : s.SameLevels t) (hs : s.Chained) : t.Chained where
  older hobject base hbase := by
    obtain ⟨old, hold, hsame⟩ := h.symm.class? hobject
    exact hs.older hold base (hsame ▸ hbase)
  portions hportion := by
    obtain ⟨old, hold, hclass, hbase⟩ := h.symm.portion? hportion
    have hsound := (hs.portions hold).mono h.class? fun hq =>
      (h.portion? hq).imp fun _ hafter => ⟨hafter.1, hafter.2.1⟩
    rwa [Portion.Sound, hclass, hbase] at hsound

theorem mem_portionTables {q : InstanceId} {table : Table} (h : table ∈ s.portionTables q) :
    table = .fields q ∨ ∃ portion, s.portion? q = some portion ∧
      table.class? = some portion.classId := by
  refine (List.mem_cons.mp h).imp_right fun hmem => ?_
  cases hportion : s.portion? q with
  | none =>
    rw [hportion] at hmem
    cases hmem
  | some portion =>
    refine ⟨portion, rfl, ?_⟩
    rw [hportion, Option.elim_some] at hmem
    simp only [List.mem_cons, List.not_mem_nil, or_false] at hmem
    rcases hmem with rfl | rfl | rfl | rfl <;> rfl

theorem nodup_portionTables (s : Store) (q : InstanceId) : (s.portionTables q).Nodup := by
  unfold portionTables
  cases s.portion? q with
  | none => exact List.pairwise_singleton _ _
  | some portion => simp

namespace Chained

theorem pairwise_classChain (h : s.Chained) (id : ClassId) :
    (s.classChain id).Pairwise fun k l => l.index < k.index := by
  obtain ⟨index⟩ := id
  induction index using Nat.strongRecOn with
  | _ index ih =>
    cases hobject : s.class? ⟨index⟩ with
    | none =>
      rw [classChain, classesFrom_succ, hobject]
      exact List.pairwise_singleton _ _
    | some object =>
      rw [h.classChain_eq hobject]
      cases hbase : object.base with
      | none => exact List.pairwise_singleton _ _
      | some base =>
        have holder : base.index < index := h.older hobject base hbase
        refine List.pairwise_cons.mpr ⟨fun k hk => ?_, ih base.index holder⟩
        rcases h.older_of_mem_classChain hk with rfl | hlt
        · exact holder
        · exact Nat.lt_trans hlt holder

theorem pairwise_portionChain (h : s.Chained) {q : InstanceId} {portion : Portion}
    (hportion : s.portion? q = some portion) :
    (s.portionChain q).Pairwise fun p r => r.index < p.index ∧
      ∃ above below, s.portion? p = some above ∧ s.portion? r = some below ∧
        below.classId.index < above.classId.index := by
  refine h.portion_induction (P := fun q _ => (s.portionChain q).Pairwise fun p r =>
    r.index < p.index ∧ ∃ above below, s.portion? p = some above ∧ s.portion? r = some below ∧
      below.classId.index < above.classId.index) ?_ ?_ hportion
  · intro id portion hportion hbase
    rw [h.portionChain_eq hportion, hbase]
    exact List.pairwise_singleton _ _
  · intro id portion base below hportion hbase hbelow ih
    have hown := h.portionChain_eq hportion
    rw [hbase, Option.elim_some] at hown
    rw [hown]
    refine List.pairwise_cons.mpr ⟨fun r hr => ?_, ih⟩
    rcases h.older_of_mem hportion (hown ▸ List.mem_cons_of_mem _ hr) with rfl | hlater
    · have holder := h.base_older (by rw [hportion]; exact hbase)
      rcases h.older_of_mem hbelow hr with rfl | ⟨hlt, -⟩ <;> omega
    · obtain ⟨hlt, last, hlast, hclass⟩ := hlater
      exact ⟨hlt, portion, last, hportion, hlast, hclass⟩

/-- Each table of a class stands in its list once. -/
theorem nodup_classTables (h : s.Chained) (id : ClassId) :
    ((s.classTables id).map Prod.snd).Nodup := by
  rw [classTables, List.map_flatMap]
  refine List.pairwise_flatMap.mpr ⟨fun k _ => by simp, (h.pairwise_classChain id).imp ?_⟩
  intro k l hlt x hx y hy
  simp only [List.map_cons, List.map_nil, List.mem_cons, List.not_mem_nil, or_false] at hx hy
  have hne : k ≠ l := fun heq => Nat.lt_irrefl _ (heq ▸ hlt)
  rcases hx with rfl | rfl <;> rcases hy with rfl | rfl <;> simp [hne]

/-- Each table of an object stands in its list once. -/
theorem nodup_tables (h : s.Chained) (q : InstanceId) : ((s.tables q).map Prod.snd).Nodup := by
  have hlevel (p : InstanceId) :
      ((s.portionTables p).map (p, ·)).map Prod.snd = s.portionTables p := by
    rw [List.map_map]
    exact List.map_id _
  rw [tables, List.map_flatMap]
  simp only [hlevel]
  refine List.pairwise_flatMap.mpr ⟨fun p _ => s.nodup_portionTables p, ?_⟩
  cases hportion : s.portion? q with
  | none =>
    rw [portionChain, portionsFrom_succ, hportion]
    exact List.pairwise_singleton _ _
  | some portion =>
    refine (h.pairwise_portionChain hportion).imp ?_
    -- Fields tell two levels apart by their portions, all else by their classes.
    rintro p r ⟨hlt, above, below, habove, hbelow, hclass⟩ x hx y hy rfl
    rcases mem_portionTables hx with rfl | ⟨_, hp, hxclass⟩ <;>
      rcases mem_portionTables hy with hy | ⟨_, hr, hyclass⟩
    · cases hy
      exact Nat.lt_irrefl _ hlt
    · cases hyclass
    · cases hy
      cases hxclass
    · cases habove.symm.trans hp
      cases hbelow.symm.trans hr
      rw [Option.some.inj (hxclass.symm.trans hyclass)] at hclass
      exact Nat.lt_irrefl _ hclass

end Chained

/-! ## Where a table stands -/

theorem mem_tables {q o : InstanceId} {table : Table} :
    (q, table) ∈ s.tables o ↔ q ∈ s.portionChain o ∧ table ∈ s.portionTables q := by
  simp only [tables, List.mem_flatMap, List.mem_map, Prod.mk.injEq]
  constructor
  · rintro ⟨p, hp, found, hfound, rfl, rfl⟩
    exact ⟨hp, hfound⟩
  · rintro ⟨hq, htable⟩
    exact ⟨q, hq, table, htable, rfl, rfl⟩

/-- The fields of a portion are for those whose chains have this portion. -/
theorem mem_tables_fields {q o id : InstanceId} :
    (q, .fields id) ∈ s.tables o ↔ q = id ∧ id ∈ s.portionChain o := by
  rw [mem_tables]
  constructor
  · rintro ⟨hq, htable⟩
    rcases mem_portionTables htable with heq | ⟨_, _, hclass⟩
    · cases heq
      exact ⟨rfl, hq⟩
    · cases hclass
  · rintro ⟨rfl, hq⟩
    exact ⟨hq, List.mem_cons_self⟩

theorem mem_tables_classFields {q o : InstanceId} {k : ClassId} :
    (q, .classFields k) ∈ s.tables o ↔ q ∈ s.portionChain o ∧
      (s.portion? q).map Portion.classId = some k := by
  rw [mem_tables]
  refine and_congr_right fun _ => ?_
  constructor
  · intro htable
    rcases mem_portionTables htable with heq | ⟨portion, hportion, hclass⟩
    · cases heq
    · rw [hportion]
      exact hclass.symm
  · intro hclass
    obtain ⟨portion, hportion, rfl⟩ := Option.map_eq_some_iff.mp hclass
    rw [portionTables, hportion]
    simp

theorem mem_classTables_classFields {l k id : ClassId} :
    (l, .classFields k) ∈ s.classTables id ↔ l = k ∧ k ∈ s.classChain id := by
  simp only [classTables, List.mem_flatMap, List.mem_cons, Prod.mk.injEq, List.not_mem_nil,
    or_false, Table.classFields.injEq, reduceCtorEq, and_false]
  constructor
  · rintro ⟨other, hmem, rfl, rfl⟩
    exact ⟨rfl, hmem⟩
  · rintro ⟨rfl, hmem⟩
    exact ⟨_, hmem, rfl, rfl⟩

/-- The fields of a class are for the objects of the classes whose chains have this class. -/
theorem Chained.exists_classFields_iff (h : s.Chained) {o : InstanceId} {portion : Portion}
    (hportion : s.portion? o = some portion) {k : ClassId} :
    (∃ q, (q, .classFields k) ∈ s.tables o) ↔ k ∈ s.classChain portion.classId := by
  have hlevels := h.classes_portionChain hportion
  have hmem : k ∈ s.classChain portion.classId ↔
      some k ∈ (s.classChain portion.classId).map some := by
    simp
  simp only [mem_tables_classFields]
  rw [hmem, ← hlevels, List.mem_map]

end Tables

/-! ## Objects -/

/-- In a linked store no two portions share their base portion. -/
structure Linked (s : Store) : Prop extends s.Chained where
  apart : ∀ {p q above above' base}, s.portion? p = some above → s.portion? q = some above' →
    above.base = some base → above'.base = some base → p = q

/-- Two portions of the same object. -/
def SameObject (s : Store) (p q : InstanceId) : Prop :=
  ∃ top, p ∈ s.portionChain top ∧ q ∈ s.portionChain top

section Linked

variable {s t : Store} {p q r : InstanceId}

theorem SameLevels.linked (h : s.SameLevels t) (hs : s.Linked) : t.Linked where
  toChained := h.chained hs.toChained
  apart hp hq hbase hbase' := by
    obtain ⟨old, hold, -, hsame⟩ := h.symm.portion? hp
    obtain ⟨old', hold', -, hsame'⟩ := h.symm.portion? hq
    exact hs.apart hold hold' (hsame.trans hbase) (hsame'.trans hbase')

theorem Linked.writeAll (h : s.Linked) (writes : List FieldWrite) : (s.writeAll writes).Linked := by
  induction writes generalizing s with
  | nil => exact h
  | cons w writes ih => exact ih ((s.sameLevels_write w).linked h)

theorem self_mem_portionChain (s : Store) (q : InstanceId) : q ∈ s.portionChain q := by
  rw [portionChain, portionsFrom_succ]
  exact List.mem_cons_self

/-- A portion that is not in the store has no others behind it. -/
theorem eq_of_mem_portionChain (hnone : s.portion? q = none) (h : p ∈ s.portionChain q) :
    p = q := by
  rw [portionChain, portionsFrom_succ, hnone] at h
  exact List.mem_singleton.mp h

theorem Chained.mem_portionChain_trans (h : s.Chained) (hp : p ∈ s.portionChain q)
    (hq : q ∈ s.portionChain r) : p ∈ s.portionChain r := by
  cases hportion : s.portion? r with
  | none => exact eq_of_mem_portionChain hportion hq ▸ hp
  | some portion =>
    obtain ⟨before, behind, hsplit⟩ := List.append_of_mem hq
    rw [h.portionChain_of_append hportion hsplit] at hp
    exact hsplit ▸ List.mem_append_right _ hp

namespace Linked

/-- Only the portion right above a base portion, and those above that, have it behind them. -/
theorem mem_of_base (h : s.Linked) {above : Portion} {base : InstanceId}
    (hp : s.portion? p = some above) (hbase : above.base = some base)
    (hmem : base ∈ s.portionChain q) : base = q ∨ p ∈ s.portionChain q := by
  cases hportion : s.portion? q with
  | none => exact .inl (eq_of_mem_portionChain hportion hmem)
  | some portion =>
    refine h.portion_induction (P := fun q _ => base ∈ s.portionChain q →
      base = q ∨ p ∈ s.portionChain q) ?_ ?_ hportion hmem
    · intro q portion hportion hroot hmem
      rw [h.portionChain_eq hportion, hroot] at hmem
      exact .inl (List.mem_singleton.mp hmem)
    · intro q portion under below hportion hunder hbelow ih hmem
      rw [h.portionChain_eq hportion, hunder, Option.elim_some] at hmem ⊢
      rcases List.mem_cons.mp hmem with rfl | hmem
      · exact .inl rfl
      · refine .inr ?_
        rcases ih hmem with rfl | hlater
        · exact h.apart hp hportion hbase hunder ▸ List.mem_cons_self
        · exact List.mem_cons_of_mem _ hlater

/-- Two chains that meet are parts of one chain. -/
theorem chains_meet (h : s.Linked) (hq : p ∈ s.portionChain q) (hr : p ∈ s.portionChain r) :
    q ∈ s.portionChain r ∨ r ∈ s.portionChain q := by
  cases hportion : s.portion? q with
  | none => exact .inl (eq_of_mem_portionChain hportion hq ▸ hr)
  | some portion =>
    refine h.portion_induction (P := fun q _ => p ∈ s.portionChain q →
      q ∈ s.portionChain r ∨ r ∈ s.portionChain q) ?_ ?_ hportion hq
    · intro q portion hportion hroot hmem
      rw [h.portionChain_eq hportion, hroot] at hmem
      exact .inl (List.mem_singleton.mp hmem ▸ hr)
    · intro q portion base below hportion hbase hbelow ih hmem
      have hown := h.portionChain_eq hportion
      rw [hbase, Option.elim_some] at hown
      rw [hown] at hmem
      rcases List.mem_cons.mp hmem with rfl | hmem
      · exact .inl hr
      -- The base portion is met on one of the chains; no other portion has it as its base.
      rcases ih hmem with hbehind | hbehind
      · rcases h.mem_of_base hportion hbase hbehind with rfl | habove
        · exact .inr (hown ▸ List.mem_cons_of_mem _ (s.self_mem_portionChain _))
        · exact .inl habove
      · exact .inr (hown ▸ List.mem_cons_of_mem _ hbehind)

/-- Each portion belongs to one object. -/
theorem sameObject_equivalence (h : s.Linked) : Equivalence s.SameObject where
  refl q := ⟨q, s.self_mem_portionChain q, s.self_mem_portionChain q⟩
  symm := fun ⟨top, hp, hq⟩ => ⟨top, hq, hp⟩
  trans := by
    rintro p q r ⟨top, hp, hq⟩ ⟨top', hq', hr⟩
    rcases h.chains_meet hq hq' with hmem | hmem
    · exact ⟨top', h.mem_portionChain_trans hp hmem, hr⟩
    · exact ⟨top, hp, h.mem_portionChain_trans hr hmem⟩

end Linked

end Linked

/-! ## Levels -/

section Levels

variable {s : Store} {id : ClassId} {object : ClassObject} {q : InstanceId} {portion : Portion}

/-- A class is asked before its base. -/
theorem Chained.classAttribute?_step (h : s.Chained) (hobject : s.class? id = some object)
    (name : String) : s.classAttribute? id name = (ClassObject.attribute? object name).or
      (object.base.bind (s.classAttribute? · name)) := by
  rw [classAttribute?, h.classChain_eq hobject, List.findSome?_cons, hobject, Option.bind_some]
  cases ClassObject.attribute? object name <;> cases object.base <;> rfl

/-- A portion is asked before its base portion. -/
theorem Chained.member?_step (h : s.Chained) (hportion : s.portion? q = some portion)
    (name : String) : s.member? q name = ((s.portionMember? q name).map (q, ·)).or
      (portion.base.bind (s.member? · name)) := by
  rw [member?, h.portionChain_eq hportion, List.findSome?_cons]
  cases s.portionMember? q name <;> cases portion.base <;> rfl

end Levels

/-! ## New objects -/

/-- New portions have only new portions behind them. -/
structure BuiltOn (s t : Store) (newest : Option InstanceId) : Prop where
  grows : s.instances.size ≤ t.instances.size
  old : ∀ {q}, q.index < s.instances.size → t.portion? q = s.portion? q
  new : ∀ {q portion}, t.portion? q = some portion → s.instances.size ≤ q.index →
    ∀ base ∈ portion.base, s.instances.size ≤ base.index ∧ base.index < q.index
  last : ∀ q ∈ newest, s.instances.size ≤ q.index ∧ q.index + 1 = t.instances.size

section Built

variable {s t : Store} {q o : InstanceId}

theorem index_lt_of_portion? (h : (s.portion? q).isSome) : q.index < s.instances.size := by
  obtain ⟨portion, hportion⟩ := Option.isSome_iff_exists.mp h
  exact (Array.getElem?_eq_some_iff.mp hportion).1

theorem builtOn_buildPortions (s : Store) (ks : List ClassId) :
    s.BuiltOn (s.buildPortions ks).2 (s.buildPortions ks).1 := by
  induction ks with
  | nil =>
    refine ⟨Nat.le_refl _, fun _ => rfl, fun {q portion} hportion hnew => ?_, nofun⟩
    exact absurd (index_lt_of_portion? (Option.isSome_of_eq_some hportion)) (Nat.not_lt.mpr hnew)
  | cons k ks ih =>
    obtain ⟨hgrows, hold, hnew, hlast⟩ := ih
    have hportion (q : InstanceId) : (s.buildPortions (k :: ks)).2.portion? q =
        if q.index = (s.buildPortions ks).2.instances.size then
          some { classId := k, base := (s.buildPortions ks).1 }
        else (s.buildPortions ks).2.portion? q := Array.getElem?_push
    have hsize : (s.buildPortions (k :: ks)).2.instances.size =
        (s.buildPortions ks).2.instances.size + 1 := Array.size_push _
    refine ⟨by omega, fun {q} hq => ?_, fun {q portion} hq hold => ?_, fun q hq => ?_⟩
    · rw [hportion, if_neg (by omega), hold hq]
    · rw [hportion] at hq
      split at hq
      · next heq =>
        cases hq
        intro base hbase
        obtain ⟨hbase, hnext⟩ := hlast base hbase
        omega
      · exact hnew hq hold
    · cases hq
      exact ⟨hgrows, hsize.symm⟩

/-- What holds of a portion, and with each portion of its base, holds along the chain. -/
theorem forall_mem_portionChain {P : InstanceId → Prop} (hq : P q)
    (hbase : ∀ {p portion base}, P p → s.portion? p = some portion → portion.base = some base →
      P base) : ∀ p ∈ s.portionChain q, P p := by
  rw [portionChain]
  generalize q.index + 1 = fuel
  induction fuel generalizing q with
  | zero => exact List.forall_mem_nil _
  | succ fuel ih =>
    rw [portionsFrom_succ]
    refine List.forall_mem_cons.mpr ⟨hq, ?_⟩
    cases hsome : (s.portion? q).bind Portion.base with
    | none => exact List.forall_mem_nil _
    | some base =>
      obtain ⟨portion, hportion, hunder⟩ := Option.bind_eq_some_iff.mp hsome
      exact ih (hbase hq hportion hunder)

/-- A new object shares no portion with the objects that were there before. -/
theorem Chained.not_sameObject_instantiate (h : s.Chained) (ho : (s.portion? o).isSome)
    (id : ClassId) : ¬(s.instantiate id).2.SameObject o (s.instantiate id).1 := by
  obtain ⟨-, hold, hnew, hlast⟩ := s.builtOn_buildPortions (id :: (s.classChain id).tail)
  obtain ⟨hnewest, hsize⟩ := hlast (s.instantiate id).1 rfl
  replace hsize : (s.instantiate id).1.index + 1 = (s.instantiate id).2.instances.size := hsize
  replace hold {q : InstanceId} (hq : q.index < s.instances.size) :
    (s.instantiate id).2.portion? q = s.portion? q := hold hq
  have hbefore := index_lt_of_portion? ho
  have holder {p : InstanceId} {portion : Portion} {base : InstanceId}
      (hp : (s.instantiate id).2.portion? p = some portion) (hbase : portion.base = some base) :
      base.index < p.index := by
    rcases Nat.lt_or_ge p.index s.instances.size with hlt | hge
    · rw [hold hlt] at hp
      exact h.base_older (by rw [hp]; exact hbase)
    · exact (hnew hp hge base hbase).2
  rintro ⟨top, htop, hmem⟩
  have hupper := forall_mem_portionChain (P := fun p => p.index ≤ top.index) (Nat.le_refl _)
    (fun hp hportion hbase => Nat.le_trans (Nat.le_of_lt (holder hportion hbase)) hp)
  have hlower : s.instances.size ≤ top.index := Nat.le_trans hnewest (hupper _ hmem)
  have hinner := forall_mem_portionChain (P := fun p => s.instances.size ≤ p.index) hlower
    (fun hp hportion hbase => (hnew hportion hp _ hbase).1)
  exact Nat.not_lt.mpr (hinner o htop) hbefore

end Built

/-! ## The flat search -/

/-- A store in which attributes are found by one search through a list of tables, and an assignment
is seen by those whose lists have its table, where no table before it has the name. -/
structure SearchesFlat (s : Store) : Prop where
  /-- What is found on an object is the first entry in its tables. -/
  members : ∀ q name, s.member? q name = s.firstHit? name (s.tables q)
  /-- This is what the search for an attribute gives, bound to the portion it is found on. -/
  found : ∀ {q name portion member}, s.firstHit? name (s.tables q) = some (portion, member) →
    s.attribute? q name =
      (some (s.realize portion member).1, (s.realize portion member).2)
  missing : ∀ {q name}, s.firstHit? name (s.tables q) = none → s.attribute? q name = (none, s)
  /-- What is found on a class is the first entry in its own tables. -/
  classMembers : ∀ id name, (s.classAttribute? id name).map Member.value =
    (s.firstHit? name (s.classTables id)).map Prod.snd
  /-- An object has a portion for each class of the chain of its class. -/
  levels : ∀ {q portion}, s.portion? q = some portion →
    (s.portionChain q).map (fun p => (s.portion? p).map Portion.classId) =
      (s.classChain portion.classId).map some
  /-- It is the same to ask the own tables of a portion, and then the base portion. -/
  step : ∀ {q portion}, s.portion? q = some portion → ∀ name,
    s.member? q name = ((s.portionMember? q name).map (q, ·)).or
      (portion.base.bind (s.member? · name))
  classStep : ∀ {id object}, s.class? id = some object → ∀ name,
    s.classAttribute? id name = (ClassObject.attribute? object name).or
      (object.base.bind (s.classAttribute? · name))
  /-- No table is asked twice. -/
  once : ∀ q, ((s.tables q).map Prod.snd).Nodup
  classOnce : ∀ id, ((s.classTables id).map Prod.snd).Nodup
  /-- The fields of a portion are in the lists of the portion and of those above it in its object,
  and those of a class in the lists of the class, of the classes derived from it and of their
  objects. -/
  fields : ∀ {q o id}, (q, Table.fields id) ∈ s.tables o ↔ q = id ∧ id ∈ s.portionChain o
  noFields : ∀ {id k q}, (k, Table.fields q) ∉ s.classTables id
  classFields : ∀ {o portion k}, s.portion? o = some portion →
    ((∃ q, (q, Table.classFields k) ∈ s.tables o) ↔ k ∈ s.classChain portion.classId)
  classFieldsOfClass : ∀ {l k id}, (l, Table.classFields k) ∈ s.classTables id ↔
    l = k ∧ k ∈ s.classChain id
  /-- An assignment does not change the lists. -/
  sameTables : ∀ w q, (s.write w).tables q = s.tables q
  sameClassTables : ∀ w id, (s.write w).classTables id = s.classTables id
  /-- Where the table is in the list, the value is found unless something is before it. -/
  seen : ∀ {w : FieldWrite} {o before q behind}, s.Has w.table →
    s.tables o = before ++ (q, w.table) :: behind →
      (s.write w).member? o w.name = (s.firstHit? w.name before).or (some (q, .value w.value))
  classSeen : ∀ {w : FieldWrite} {id before k behind}, s.Has w.table →
    s.classTables id = before ++ (k, w.table) :: behind →
      ((s.write w).classAttribute? id w.name).map Member.value =
        ((s.firstHit? w.name before).or (some (k, .value w.value))).map Prod.snd
  /-- Nothing else changes: no other name, and nothing where the table is not in the list. -/
  unseen : ∀ {w : FieldWrite} {o name}, w.table ∉ (s.tables o).map Prod.snd ∨ name ≠ w.name →
    (s.write w).member? o name = s.member? o name
  classUnseen : ∀ {w : FieldWrite} {id name},
    w.table ∉ (s.classTables id).map Prod.snd ∨ name ≠ w.name →
      (s.write w).classAttribute? id name = s.classAttribute? id name
  /-- An assignment to a field of an object is not seen by any other object, and by no class. -/
  sameObject : Equivalence s.SameObject
  newObject : ∀ {o}, (s.portion? o).isSome → ∀ id,
    ¬(s.instantiate id).2.SameObject o (s.instantiate id).1
  otherObject : ∀ {o id}, ¬s.SameObject o id → ∀ field value name,
    (s.setInstanceField id field value).member? o name = s.member? o name
  noClass : ∀ id field value k name,
    (s.setInstanceField id field value).classAttribute? k name = s.classAttribute? k name

theorem Linked.searchesFlat {s : Store} (h : s.Linked) : s.SearchesFlat := by
  have hunseen {w : FieldWrite} {o : InstanceId} {name : String}
      (hne : w.table ∉ (s.tables o).map Prod.snd ∨ name ≠ w.name) :
      (s.write w).member? o name = s.member? o name := by
    rw [member?_eq, member?_eq, (s.sameLevels_write w).tables_eq, s.firstHit?_write_of_ne hne]
  have hnoFields {id k : ClassId} {q : InstanceId} : (k, Table.fields q) ∉ s.classTables id := by
    simp [classTables]
  have hclassUnseen {w : FieldWrite} {id : ClassId} {name : String}
      (hne : w.table ∉ (s.classTables id).map Prod.snd ∨ name ≠ w.name) :
      (s.write w).classAttribute? id name = s.classAttribute? id name := by
    refine Option.map_injective (fun _ _ => Member.value.inj) ?_
    rw [classAttribute?_eq, classAttribute?_eq, (s.sameLevels_write w).classTables_eq,
      s.firstHit?_write_of_ne hne]
  exact
    { members := s.member?_eq
      found := fun {q name portion member} hhit => by
        rw [← member?_eq] at hhit
        rw [attribute?, hhit]
      missing := fun {q name} hhit => by
        rw [← member?_eq] at hhit
        rw [attribute?, hhit]
      classMembers := s.classAttribute?_eq
      levels := h.classes_portionChain
      step := h.member?_step
      classStep := h.classAttribute?_step
      once := h.nodup_tables
      classOnce := h.nodup_classTables
      fields := mem_tables_fields
      noFields := hnoFields
      classFields := fun hportion => h.exists_classFields_iff hportion
      classFieldsOfClass := mem_classTables_classFields
      sameTables := fun w => (s.sameLevels_write w).tables_eq
      sameClassTables := fun w => (s.sameLevels_write w).classTables_eq
      seen := fun {w o before q behind} hhas hsplit => by
        rw [member?_eq, (s.sameLevels_write w).tables_eq,
          firstHit?_write hhas (h.nodup_tables o) hsplit]
      classSeen := fun {w id before k behind} hhas hsplit => by
        rw [classAttribute?_eq, (s.sameLevels_write w).classTables_eq,
          firstHit?_write hhas (h.nodup_classTables id) hsplit]
      unseen := hunseen
      classUnseen := hclassUnseen
      sameObject := h.sameObject_equivalence
      newObject := h.not_sameObject_instantiate
      otherObject := fun {o id} hother field value name => by
        refine hunseen (w := .onPortion id field value) (.inl fun hmem => hother ?_)
        obtain ⟨⟨q, table⟩, hmem, rfl⟩ := List.mem_map.mp hmem
        exact ⟨o, s.self_mem_portionChain o, (mem_tables_fields.mp hmem).2⟩
      noClass := fun id field value k name => by
        refine hclassUnseen (w := .onPortion id field value) (.inl fun hmem => ?_)
        obtain ⟨⟨l, table⟩, hmem, rfl⟩ := List.mem_map.mp hmem
        exact hnoFields hmem }

end Store

end LoxLang
