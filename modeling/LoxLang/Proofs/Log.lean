import Mathlib.Data.List.DropRight
import LoxLang.Proofs.Binding.Reports

/-!
# What a log keeps

A log that is given diagnostics one after another keeps as many of the first as its cap allows, puts
the note behind them if there are more, and its flags tell of all of them (`Log.Tells`). Every action
on a log extends or empties what it tells of (`Log.Tells.after`), so a log always shows what has been
reported since it was last reset (`Log.shows_ofActions`).
-/

namespace LoxLang

namespace Diagnostic

variable {d : Diagnostic}

/-- An error or worse. -/
def isFault (d : Diagnostic) : Bool := d.severity != .warning

theorem isFault_eq_true_iff : d.isFault = true ↔ d.severity = .error ∨ d.severity = .fatal := by
  unfold isFault
  cases d.severity <;> decide

theorem isFault_eq_false_iff : d.isFault = false ↔ d.severity = .warning := by
  unfold isFault
  cases d.severity <;> decide

end Diagnostic

/-- An action on a log. -/
inductive LogAction
  | report (diagnostic : Diagnostic)
  | reportFault (fault : Fault)
  | reset

namespace LogAction

/-- The diagnostic that an action reports; a reset reports none. -/
def diagnostic? : LogAction → Option Diagnostic
  | report diagnostic => some diagnostic
  | reportFault fault => some ⟨.error, fault.message, fault.token?⟩
  | reset => none

/-- What has been reported since the last reset, or from the beginning if there was none. -/
def sinceReset (actions : List LogAction) : List Diagnostic :=
  (actions.rtakeWhile fun action => action.diagnostic?.isSome).filterMap diagnostic?

theorem sinceReset_nil : sinceReset [] = [] := by
  rw [sinceReset, List.rtakeWhile_nil, List.filterMap_nil]

/-- One more action: its diagnostic comes last, or all that has been reported is forgotten. -/
theorem sinceReset_concat (actions : List LogAction) (action : LogAction) :
    sinceReset (actions ++ [action]) =
      action.diagnostic?.elim [] fun d => sinceReset actions ++ [d] := by
  cases hreported : action.diagnostic? with
  | none =>
    rw [sinceReset, List.rtakeWhile_concat_neg _ _ _ (by simp [hreported]), List.filterMap_nil,
      Option.elim_none]
  | some d =>
    rw [sinceReset, List.rtakeWhile_concat_pos _ _ _ (by simp [hreported]), List.filterMap_append,
      List.filterMap_cons_some hreported, List.filterMap_nil, Option.elim_some, sinceReset]

end LogAction

namespace Log

def after (log : Log) : LogAction → Log
  | .report diagnostic => log.add diagnostic
  | .reportFault fault => log.addFault fault
  | .reset => log.reset

/-- The log that actions make out of an empty one. -/
def ofActions (cap : Nat) (actions : List LogAction) : Log :=
  actions.foldl after (empty cap)

/-- A log that was empty and has been given these diagnostics. -/
structure Tells (log : Log) (reported : List Diagnostic) : Prop where
  recorded : log.recorded = reported.take log.cap ++
    if log.cap < reported.length then [overflowNote log.cap] else []
  sawError : log.sawError = reported.any Diagnostic.isFault
  sawWarning : log.sawWarning = reported.any fun d => !d.isFault

namespace Tells

variable {log : Log} {reported : List Diagnostic}

theorem empty (cap : Nat) : (Log.empty cap).Tells [] := ⟨by simp [Log.empty], rfl, rfl⟩

theorem length_recorded (h : log.Tells reported) :
    log.recorded.length = min reported.length (log.cap + 1) := by
  rw [h.recorded, List.length_append, List.length_take]
  split
  · rw [List.length_singleton]
    omega
  · rw [List.length_nil]
    omega

/-- The note is there just if a diagnostic has been left out. -/
theorem overflowed_iff (h : log.Tells reported) : log.overflowed = true ↔ log.cap < reported.length := by
  rw [overflowed, decide_eq_true_iff, h.length_recorded]
  omega

/-- A diagnostic that is added is kept, gives way to the note, or comes behind the note. -/
theorem record (h : log.Tells reported) (d : Diagnostic) :
    log.record d = (reported ++ [d]).take log.cap ++
      if log.cap < (reported ++ [d]).length then [overflowNote log.cap] else [] := by
  have hlength := h.length_recorded
  rw [List.length_append, List.length_singleton, Log.record]
  by_cases hover : log.cap < reported.length
  · rw [if_pos (h.overflowed_iff.mpr hover), if_pos (Nat.lt_succ_of_lt hover), h.recorded,
      if_pos hover, List.take_append_of_le_length (Nat.le_of_lt hover)]
  · rw [if_neg (mt h.overflowed_iff.mp hover)]
    have hall : log.recorded = reported := by
      rw [h.recorded, if_neg hover, List.append_nil, List.take_of_length_le (Nat.le_of_not_lt hover)]
    rw [hall]
    by_cases hfull : reported.length = log.cap
    · rw [if_pos hfull, if_pos (by omega), List.take_left' hfull]
    · rw [if_neg hfull, if_neg (by omega), List.append_nil, List.take_of_length_le]
      rw [List.length_append, List.length_singleton]
      omega

theorem add (h : log.Tells reported) (d : Diagnostic) : (log.add d).Tells (reported ++ [d]) where
  recorded := h.record d
  sawError := by
    rw [Log.sawError_add, h.sawError, List.any_append, List.any_cons, List.any_nil, Bool.or_false]
    rfl
  sawWarning := by
    rw [List.any_append, List.any_cons, List.any_nil, Bool.or_false, ← h.sawWarning]
    simp [Log.add, Diagnostic.isFault, bne]

theorem after (h : log.Tells reported) (action : LogAction) :
    (log.after action).Tells (action.diagnostic?.elim [] fun d => reported ++ [d]) := by
  cases action with
  | report d => exact h.add d
  | reportFault fault => exact h.add ⟨.error, fault.message, fault.token?⟩
  | reset => exact empty log.cap

theorem note_mem (h : log.Tells reported) (hover : log.overflowed = true) :
    overflowNote log.cap ∈ log.recorded := by
  rw [h.recorded, if_pos (h.overflowed_iff.mp hover)]
  exact List.mem_append_right _ (List.mem_singleton_self _)

/-- An error that has been seen is on record, or the note in its place. -/
theorem exists_fault (h : log.Tells reported) (hseen : log.sawError = true) :
    ∃ d ∈ log.recorded, d.isFault = true := by
  by_cases hover : log.cap < reported.length
  · exact ⟨overflowNote log.cap, h.note_mem (h.overflowed_iff.mpr hover), rfl⟩
  · rw [h.recorded, if_neg hover, List.append_nil, List.take_of_length_le (Nat.le_of_not_lt hover)]
    exact List.any_eq_true.mp (h.sawError ▸ hseen)

/-- If no error has been seen, only the note is worse than a warning. -/
theorem filter_recorded (h : log.Tells reported) (hseen : log.sawError = false) :
    log.recorded.filter Diagnostic.isFault =
      if log.overflowed then [overflowNote log.cap] else [] := by
  have hwarnings : ∀ d ∈ reported, ¬d.isFault = true :=
    List.any_eq_false.mp (h.sawError ▸ hseen)
  have hkept : (reported.take log.cap).filter Diagnostic.isFault = [] :=
    List.filter_eq_nil_iff.mpr fun d hd => hwarnings d (List.mem_of_mem_take hd)
  rw [h.recorded, List.filter_append, hkept, List.nil_append]
  by_cases hover : log.cap < reported.length
  · rw [if_pos hover, if_pos (h.overflowed_iff.mpr hover)]
    rfl
  · rw [if_neg hover, if_neg (mt h.overflowed_iff.mp hover)]
    rfl

end Tells

/-- A log with room for a diagnostic has recorded it. -/
theorem recorded_add {log : Log} {d : Diagnostic} (h : (log.add d).overflowed = false) :
    (log.add d).recorded = log.recorded ++ [d] := by
  show log.record d = _
  replace h : ¬log.cap < (log.record d).length := of_decide_eq_false h
  unfold record at h ⊢
  split at h
  · next hover => exact absurd (of_decide_eq_true hover) h
  · next hover =>
    split at h
    · rw [List.length_append, List.length_singleton] at h
      omega
    · next hroom => rw [if_neg hover, if_neg hroom]

theorem overflowed_of_add {log : Log} {d : Diagnostic} (h : (log.add d).overflowed = false) :
    log.overflowed = false := by
  have hlength := congrArg List.length (recorded_add h)
  replace h : ¬log.cap < (log.add d).recorded.length := of_decide_eq_false h
  rw [List.length_append, List.length_singleton] at hlength
  exact decide_eq_false (by omega)

theorem overflowed_of_foldl_add {log : Log} {ds : List Diagnostic}
    (h : (ds.foldl add log).overflowed = false) : log.overflowed = false := by
  induction ds generalizing log with
  | nil => exact h
  | cons d rest ih => exact overflowed_of_add (ih h)

theorem recorded_foldl_add {log : Log} {ds : List Diagnostic}
    (h : (ds.foldl add log).overflowed = false) :
    (ds.foldl add log).recorded = log.recorded ++ ds := by
  induction ds generalizing log with
  | nil => rw [List.foldl_nil, List.append_nil]
  | cons d rest ih =>
    rw [List.foldl_cons, ih h, recorded_add (overflowed_of_foldl_add h), List.append_assoc,
      List.singleton_append]

/-- A log that was once empty. -/
def Kept (log : Log) : Prop := ∃ reported, log.Tells reported

theorem kept_empty (cap : Nat) : (empty cap).Kept := ⟨[], .empty cap⟩

theorem Kept.add {log : Log} (h : log.Kept) (d : Diagnostic) : (log.add d).Kept :=
  h.elim fun reported htells => ⟨reported ++ [d], htells.add d⟩

theorem Kept.addFaults {log : Log} (h : log.Kept) (faults : List Fault) :
    (log.addFaults faults).Kept := by
  induction faults generalizing log with
  | nil => exact h
  | cons fault rest ih => exact ih (h.add _)

theorem Kept.grows {log after : Log} {allowed : StaticFault → Prop} (h : log.Kept)
    (hgrows : log.Grows allowed after) : after.Kept := by
  induction hgrows with
  | refl => exact h
  | fault _ cause token _ ih => exact ih.add _
  | warning _ message token ih => exact ih.add _

/-! ## Reports and resets in any order -/

theorem ofActions_concat (cap : Nat) (actions : List LogAction) (action : LogAction) :
    ofActions cap (actions ++ [action]) = (ofActions cap actions).after action :=
  List.foldl_concat ..

theorem cap_after (log : Log) (action : LogAction) : (log.after action).cap = log.cap := by
  cases action <;> rfl

theorem cap_ofActions (cap : Nat) (actions : List LogAction) : (ofActions cap actions).cap = cap := by
  induction actions using List.reverseRecOn with
  | nil => rfl
  | append_singleton actions action ih => rw [ofActions_concat, cap_after, ih]

theorem tells_ofActions (cap : Nat) (actions : List LogAction) :
    (ofActions cap actions).Tells (LogAction.sinceReset actions) := by
  -- from the last action back, as only what is behind the last reset is told of
  induction actions using List.reverseRecOn with
  | nil =>
    rw [LogAction.sinceReset_nil]
    exact .empty cap
  | append_singleton actions action ih =>
    rw [ofActions_concat, LogAction.sinceReset_concat]
    exact ih.after action

/-- What a log with this cap shows of diagnostics that have been reported. -/
structure Shows (log : Log) (cap : Nat) (reported : List Diagnostic) : Prop where
  /-- The first are on record as they were reported, and the note is behind them just if there were
  too many. -/
  recorded : log.recorded = reported.take (min reported.length cap) ++
    if cap < reported.length then [overflowNote cap] else []
  /-- The note is on record as fatal. -/
  note : (overflowNote cap).severity = .fatal
  overflowed : log.overflowed = true ↔ cap < reported.length
  sawError : log.sawError = true ↔ ∃ d ∈ reported, d.severity = .error ∨ d.severity = .fatal
  sawWarning : log.sawWarning = true ↔ ∃ d ∈ reported, d.severity = .warning

theorem Tells.shows {log : Log} {reported : List Diagnostic} (h : log.Tells reported) :
    log.Shows log.cap reported where
  recorded := by rw [h.recorded, List.take_eq_take_min, Nat.min_comm]
  note := rfl
  overflowed := h.overflowed_iff
  sawError := by simp only [h.sawError, List.any_eq_true, Diagnostic.isFault_eq_true_iff]
  sawWarning := by
    simp only [h.sawWarning, List.any_eq_true, Bool.not_eq_true', Diagnostic.isFault_eq_false_iff]

/-- After any reports and resets, whatever the cap, a log shows what has been reported since the
last reset: the first diagnostics up to the cap, one note for all that are left out, and in its
flags also these. -/
theorem shows_ofActions (cap : Nat) (actions : List LogAction) :
    (ofActions cap actions).Shows cap (LogAction.sinceReset actions) := by
  have hshows := (tells_ofActions cap actions).shows
  rwa [cap_ofActions] at hshows

/-- A warning takes the room of an error, and a reset makes room again. -/
example (warning error late : Diagnostic) :
    (ofActions 1 [.report warning, .report error, .report late]).recorded =
        [warning, overflowNote 1] ∧
      (ofActions 1 [.report warning, .report error, .reset, .report late]).recorded = [late] :=
  ⟨rfl, rfl⟩

end Log

end LoxLang
