import Mathlib.Algebra.BigOperators.Group.Finset.Piecewise
import Mathlib.Data.List.Induction
import Mathlib.Data.Multiset.AddSub
import Mathlib.Logic.Function.Basic
import Mathlib.Tactic.Common

/-!
# LastWrite — tables that are overwritten by several writers

A write is a key and a value.  After a list of writes a key has the value of the last of them that
is for the key, and what it had before if there is none.

A log tells for each write which writer it came from.  The last write for a key is the last one of
its writer, so that the value of the key is decided by the writers one by one.  The writes of all
writers together are the log.
-/

namespace Rins
namespace Lib

variable {κ ν ω : Type*}

section Table

variable [DecidableEq κ]

/-- The table after the writes. -/
def applyWrites (table : κ → Option ν) (writes : List (κ × ν)) : κ → Option ν :=
  writes.foldl (fun table write => Function.update table write.1 (some write.2)) table

/-- The value that was written last for the key. -/
def latest (key : κ) (writes : List (κ × ν)) : Option ν :=
  (writes.filter fun write => write.1 = key).getLast?.map Prod.snd

@[simp] theorem latest_nil (key : κ) : latest key ([] : List (κ × ν)) = none := rfl

theorem latest_append (key : κ) (xs ys : List (κ × ν)) :
    latest key (xs ++ ys) = (latest key ys).or (latest key xs) := by
  simp [latest, List.filter_append, List.getLast?_append, Option.map_or]

theorem latest_singleton (key : κ) (write : κ × ν) :
    latest key [write] = if write.1 = key then some write.2 else none := by
  unfold latest
  by_cases hkey : write.1 = key
  · simp [hkey]
  · simp [hkey]

theorem applyWrites_append (table : κ → Option ν) (xs ys : List (κ × ν)) :
    applyWrites table (xs ++ ys) = applyWrites (applyWrites table xs) ys :=
  List.foldl_append

/-- The table has for each key the value that was written last. -/
theorem applyWrites_eq (table : κ → Option ν) (writes : List (κ × ν)) (key : κ) :
    applyWrites table writes key = (latest key writes).or (table key) := by
  induction writes using List.reverseRecOn with
  | nil => rfl
  | append_singleton writes write ih =>
      rw [applyWrites_append, latest_append, latest_singleton]
      by_cases hkey : write.1 = key
      · simp [applyWrites, hkey]
      · rw [if_neg hkey, Option.none_or, ← ih]
        simp [applyWrites, Function.update_of_ne (Ne.symm hkey)]

theorem latest_eq_none_iff {key : κ} {writes : List (κ × ν)} :
    latest key writes = none ↔ ∀ write ∈ writes, write.1 ≠ key := by
  simp [latest]

end Table

/-! ## Writers -/

section Writers

variable [DecidableEq ω]

/-- The writes of one writer. -/
def stream (writer : ω) (log : List (ω × κ × ν)) : List (κ × ν) :=
  (log.filter fun entry => entry.1 = writer).map Prod.snd

@[simp] theorem stream_append (writer : ω) (xs ys : List (ω × κ × ν)) :
    stream writer (xs ++ ys) = stream writer xs ++ stream writer ys := by
  simp [stream]

theorem stream_singleton (writer : ω) (entry : ω × κ × ν) :
    stream writer [entry] = if entry.1 = writer then [entry.2] else [] := by
  unfold stream
  by_cases hw : entry.1 = writer
  · simp [hw]
  · simp [hw]

theorem stream_subset {writer : ω} {log : List (ω × κ × ν)} {write : κ × ν}
    (h : write ∈ stream writer log) : write ∈ log.map Prod.snd := by
  rcases List.mem_map.1 h with ⟨entry, hentry, rfl⟩
  exact List.mem_map_of_mem (List.mem_filter.1 hentry).1

/-- A log of one writer is its stream, and nothing of it is in the stream of another. -/
theorem stream_of_forall {writer : ω} {log : List (ω × κ × ν)}
    (h : ∀ entry ∈ log, entry.1 = writer) : stream writer log = log.map Prod.snd := by
  unfold stream
  rw [List.filter_eq_self.2 (by simpa using h)]

theorem stream_of_ne {writer other : ω} {log : List (ω × κ × ν)}
    (h : ∀ entry ∈ log, entry.1 = other) (hne : writer ≠ other) : stream writer log = [] := by
  unfold stream
  rw [List.map_eq_nil_iff, List.filter_eq_nil_iff]
  intro entry hentry
  simpa [h entry hentry] using Ne.symm hne

/-- What was written last was the last write of its writer. -/
theorem exists_stream_latest [DecidableEq κ] {key : κ} {log : List (ω × κ × ν)} {value : ν}
    (h : latest key (log.map Prod.snd) = some value) :
    ∃ writer, latest key (stream writer log) = some value := by
  induction log using List.reverseRecOn with
  | nil => simp at h
  | append_singleton log entry ih =>
      rw [List.map_append, latest_append, List.map_singleton, latest_singleton] at h
      by_cases hkey : entry.2.1 = key
      · rw [if_pos hkey, Option.some_or] at h
        refine ⟨entry.1, ?_⟩
        rw [stream_append, latest_append, stream_singleton, if_pos rfl, latest_singleton,
          if_pos hkey, Option.some_or]
        exact h
      · rw [if_neg hkey, Option.none_or] at h
        rcases ih h with ⟨writer, hwriter⟩
        refine ⟨writer, ?_⟩
        -- the new write is for another key, whoever it is from
        have hnone : latest key (stream writer [entry]) = none := by
          rw [latest_eq_none_iff]
          intro write hwrite
          have hlast : write = entry.2 := by simpa using stream_subset hwrite
          rw [hlast]
          exact hkey
        rw [stream_append, latest_append, hnone, Option.none_or]
        exact hwriter

/-- The writes of all writers together are those of the log. -/
theorem sum_stream [Fintype ω] (log : List (ω × κ × ν)) :
    ∑ writer, (stream writer log : Multiset (κ × ν)) = (log.map Prod.snd : List (κ × ν)) := by
  induction log with
  | nil => simp [stream]
  | cons entry log ih =>
      have hone : ∀ writer, (stream writer (entry :: log) : Multiset (κ × ν)) =
          (if entry.1 = writer then {entry.2} else 0) + (stream writer log : Multiset (κ × ν)) := by
        intro writer
        by_cases hwriter : entry.1 = writer
        · simp [stream, hwriter]
        · simp [stream, hwriter]
      rw [Finset.sum_congr rfl fun writer _ => hone writer, Finset.sum_add_distrib, ih,
        Finset.sum_ite_eq, if_pos (Finset.mem_univ _), List.map_cons, Multiset.singleton_add]
      rfl

end Writers

end Lib
end Rins
