import LoxLang.Proofs.Machine.Tables
import LoxLang.Proofs.Session.Dispatch

/-!
# The search for attributes in a session

Whatever inputs a session is given, its classes and portions are linked as they are declared and
made. In such a store attributes are found by one search through a list of tables, after any
assignments to fields of objects and classes (`attributes_are_searched_flat`).
-/

namespace LoxLang

theorem Store.Sound.linked {record : Record} {s : Store} (h : s.Sound record) (hwhole : s.Whole) :
    s.Linked where
  toChained := h.chained
  apart := by
    rintro ⟨p⟩ ⟨q⟩ above above' base hp hq hbase hbase'
    have hnext := (hwhole.portions hp).base base hbase
    have hnext' := (hwhole.portions hq).base base hbase'
    exact congrArg InstanceId.mk (hnext.symm.trans hnext')

theorem Session.Comes.linked {s : Session} {globals : StaticScope} {visits : List Visit}
    {input : Input} {fuel : Nat} {task : Eval.Task} {m : Machine} (h : s.Comes input fuel task m)
    (hsteady : Steady s globals visits) (hidle : s.machine.Idle) : m.store.Linked := by
  obtain ⟨record, hsound⟩ := h.sound hsteady
  exact hsound.linked (h.ready hidle).2.store

/-- In a store whose classes and portions are linked the search for an attribute is one search
through a list of tables, also after any assignments, and at every moment of a session its store is
linked. -/
theorem attributes_are_searched_flat (bound : Nat) (settings : Settings) (host : Host)
    (sink : Sink) :
    (∀ {s : Store}, s.Linked → ∀ writes, (s.writeAll writes).SearchesFlat) ∧
      ∀ {inputs input fuel task m},
        ((Session.startWithin bound settings host sink).feedAll inputs).Comes input fuel task m →
          m.store.Linked := by
  refine ⟨fun hlinked writes => (hlinked.writeAll writes).searchesFlat, ?_⟩
  intro inputs input fuel task m hcomes
  obtain ⟨globals, hstart⟩ := Steady.start bound settings host sink
  obtain ⟨globals', hsteady⟩ := hstart.feedAll inputs
  exact hcomes.linked hsteady
    (Session.idle_feedAll (Machine.idle_start standardNatives host sink) inputs)

/-- An input behind a program that makes an object of a derived class. -/
theorem attributes_are_searched_flat_behind_object :
    let s := (Session.startWithin 40 {} ⟨(0.0 : Float), []⟩ {}).feedAll
      [.program "class A { } class B < A { } var b = B();"]
    let m := (s.take (.program "b.x = 1;")).2.machine
    (∃ fuel task, s.Comes (.program "b.x = 1;") fuel task m) ∧ m.store.Linked ∧
      (m.store.classChain ⟨1⟩, m.store.portionChain ⟨1⟩) = ([⟨1⟩, ⟨0⟩], [⟨1⟩, ⟨0⟩]) ∧
      (m.store.writeAll [.onClass ⟨0⟩ "x" .nil, .onPortion ⟨1⟩ "y" .nil]).SearchesFlat := by
  intro s m
  have hlength : (s.take (.program "b.x = 1;")).1.map List.length = some 1 := by decide +kernel
  obtain ⟨program, htake, hone⟩ := Option.map_eq_some_iff.mp hlength
  obtain ⟨stmt, rfl⟩ := List.length_eq_one_iff.mp hone
  have hcomes : s.Comes (.program "b.x = 1;") _ (.execute stmt) m :=
    ⟨[stmt], htake, .statement .here⟩
  obtain ⟨hflat, hlinked⟩ := attributes_are_searched_flat 40 {} ⟨(0.0 : Float), []⟩ {}
  exact ⟨⟨_, _, hcomes⟩, hlinked hcomes, by decide +kernel, hflat (hlinked hcomes) _⟩

/-- What a method of the base class assigns is hidden by a field of the derived class. -/
example :
    ((Session.startWithin 40 {} ⟨(0.0 : Float), []⟩ {}).feed (.program
      "class A { put() { this.x = 1; } } class B < A { }
       B.x = 2; var b = B(); b.put(); println b.x;")).machine.sink.text = "2\n" := by
  decide +kernel

end LoxLang
