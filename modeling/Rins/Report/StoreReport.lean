import Mathlib.Algebra.Order.BigOperators.Group.Finset
import Mathlib.Data.Fintype.BigOperators
import Rins.Lib.Decimal
import Rins.Report.StatusTable

/-!
# StoreReport — what the store statements say, and how often

`store_report::store` puts the values of a result into the text of a statement with `snprintf`, in a
buffer of 1024 characters.  `statement` says what the statement does; this is what the text says,
however large the values are.

Each report is stored twice, by the reactor thread and by one of the store threads.
-/

namespace Rins
namespace Report

open Lib
open Lib.Decimal
open Proto (HostCallResult ReportStatusRequest)

/-- The format of the statement. -/
def storeFormat : List Piece :=
  [.text ("INSERT INTO ServerCallStatus" ++
      "(modid, cmdid, ip, port, caller, succ_cnt, err_cnt, ts, overload) " ++
      "VALUES (").toList,
    .number, .text ", ".toList, .number, .text ", ".toList, .number, .text ", ".toList,
    .number, .text ", ".toList, .number, .text ", ".toList, .number, .text ", ".toList,
    .number, .text ", ".toList, .number, .text ", ".toList, .number,
    .text (") ON DUPLICATE KEY " ++ "UPDATE succ_cnt = ").toList,
    .number, .text ", err_cnt = ".toList, .number, .text ", ts = ".toList, .number,
    .text ", overload = ".toList, .number]

/-- The arguments: `%d` takes an `int`, `%u` an `unsigned`. -/
def storeArgs (req : ReportStatusRequest) (result : HostCallResult) : List Int :=
  let overload : Int := if result.overload then 1 else 0
  [req.modid.toInt, req.cmdid.toInt, result.ip.toUInt32.toNat, result.port.toUInt32.toNat,
    req.caller.toUInt32.toNat, result.succ.toNat, result.err.toNat, req.timestamp.toNat, overload,
    result.succ.toNat, result.err.toNat, req.timestamp.toNat, overload]

/-- `sql`. -/
def sql (req : ReportStatusRequest) (result : HostCallResult) : List Char :=
  snprintf 1024 storeFormat (storeArgs req result)

/-- What the text says: the key, the row to insert, and the row to update to. -/
def readStatement (text : List Char) : Option (StatusKey × StatusRow × StatusRow) :=
  match parse storeFormat text with
  | some ([modid, cmdid, ip, port, caller, succ, err, ts, overload, succ', err', ts', overload'],
      []) => some (
        { modid := Int32.ofInt modid
          cmdid := Int32.ofInt cmdid
          ip := UInt32.ofNat ip.toNat
          port := UInt32.ofNat port.toNat
          caller := UInt32.ofNat caller.toNat },
        { succCnt := UInt32.ofNat succ.toNat
          errCnt := UInt32.ofNat err.toNat
          ts := UInt32.ofNat ts.toNat
          overload := overload },
        { succCnt := UInt32.ofNat succ'.toNat
          errCnt := UInt32.ofNat err'.toNat
          ts := UInt32.ofNat ts'.toNat
          overload := overload' })
  | _ => none

/-! ## The length of the text -/

theorem length_decimal_int32 (x : Int32) : (decimal x.toInt).length ≤ 11 := by
  have hlo := x.le_toInt
  have hhi := x.toInt_lt
  exact length_decimal_le (by decide) (by omega) (by omega)

theorem length_decimal_uint32 (x : UInt32) : (decimal x.toNat).length ≤ 11 := by
  have hhi : x.toNat < 10 ^ 10 := Nat.lt_trans x.toNat_lt (by decide)
  exact Nat.le_succ_of_le (length_toDigits_le (by decide) hhi)

theorem length_decimal_storeArgs (req : ReportStatusRequest) (result : HostCallResult) :
    ∀ z ∈ storeArgs req result, (decimal z).length ≤ 11 := by
  have hoverload : (decimal (if result.overload then 1 else 0)).length ≤ 11 := by
    split <;> decide
  simp only [storeArgs, List.forall_mem_cons, length_decimal_int32, length_decimal_uint32,
    hoverload, List.not_mem_nil, false_imp_iff, implies_true, and_self]

theorem length_storeFormat : (render storeFormat []).length ≤ 250 := by
  decide +kernel

theorem length_text_le (req : ReportStatusRequest) (result : HostCallResult) :
    (render storeFormat (storeArgs req result)).length ≤ 393 := by
  have hlen := length_render_le storeFormat (length_decimal_storeArgs req result)
  have hformat := length_storeFormat
  have hargs : (storeArgs req result).length = 13 := rfl
  rw [hargs] at hlen
  omega

/-! ## What it says -/

/-- Whatever the report holds: the text fits into the buffer, so that nothing is cut off; it names
the key of the result; and the row that it asks to insert is the row that it asks to update to. -/
theorem sql_says_statement (req : ReportStatusRequest) (result : HostCallResult) :
    sql req result = render storeFormat (storeArgs req result) ∧
      readStatement (sql req result) =
        some ((statement req result).1, (statement req result).2, (statement req result).2) := by
  have hwhole : sql req result = render storeFormat (storeArgs req result) :=
    List.take_of_length_le (Nat.le_trans (length_text_le req result) (by decide))
  refine ⟨hwhole, ?_⟩
  unfold readStatement
  rw [hwhole, parse_render (by decide) rfl]
  simp [storeArgs, statement]

/-! ## How often it is executed -/

/-- The queues together have all reports. -/
theorem sum_share {n : Nat} [NeZero n] {α : Type} (f : ReportStatusRequest → List α)
    (reports : List ReportStatusRequest) :
    ∑ i, ((share n i reports).flatMap f : Multiset α) = (reports.flatMap f : List α) := by
  induction reports using List.reverseRecOn with
  | nil => simp [share]
  | append_singleton reports req ih =>
      have hturn : ∀ i : Fin n, reports.length % n = i ↔ Fin.ofNat n reports.length = i := by
        intro i
        rw [Fin.ext_iff, Fin.val_ofNat]
      have hone : ∀ i, ((share n i (reports ++ [req])).flatMap f : Multiset α) =
          ((share n i reports).flatMap f : Multiset α) +
            (if Fin.ofNat n reports.length = i then (f req : Multiset α) else 0) := by
        intro i
        rw [share_append_singleton, List.flatMap_append, ← Multiset.coe_add]
        by_cases hi : reports.length % n = i
        · rw [if_pos hi, if_pos ((hturn i).1 hi), List.flatMap_singleton]
        · rw [if_neg hi, if_neg (mt (hturn i).2 hi), List.flatMap_nil]
          rfl
      rw [Finset.sum_congr rfl fun i _ => hone i, Finset.sum_add_distrib, ih, Finset.sum_ite_eq,
        if_pos (Finset.mem_univ _), List.flatMap_append, List.flatMap_singleton, Multiset.coe_add]

namespace Reporter

variable {n : Nat} {table₀ : StatusKey → Option StatusRow}

/-- The statements that were executed are those of the reactor thread and those of the store
threads. -/
theorem log_eq (s : Reporter n) :
    (s.log.map Prod.snd : Multiset (StatusKey × StatusRow)) =
      (stream none s.log : Multiset (StatusKey × StatusRow)) +
        ∑ i, (stream (some i) s.log : Multiset (StatusKey × StatusRow)) := by
  rw [← sum_stream, Fintype.sum_option]

theorem Inv.log_le [NeZero n] {s : Reporter n} (hs : s.Inv table₀) :
    (s.log.map Prod.snd : Multiset (StatusKey × StatusRow)) ≤
      2 • (s.received.flatMap store : Multiset (StatusKey × StatusRow)) := by
  have hdirect : (stream none s.log : Multiset (StatusKey × StatusRow)) ≤
      (s.received.flatMap store : List (StatusKey × StatusRow)) := by
    rw [← hs.direct, ← Multiset.coe_add]
    exact Multiset.le_add_right _ _
  have hqueued : ∑ i, (stream (some i) s.log : Multiset (StatusKey × StatusRow)) ≤
      (s.received.flatMap store : List (StatusKey × StatusRow)) := by
    calc
      ∑ i, (stream (some i) s.log : Multiset (StatusKey × StatusRow))
          ≤ ∑ i, ((share n i s.sent).flatMap store : Multiset (StatusKey × StatusRow)) := by
            refine Finset.sum_le_sum fun i _ => ?_
            rw [← hs.queued i, ← Multiset.coe_add]
            exact Multiset.le_add_right _ _
      _ = (s.sent.flatMap store : List (StatusKey × StatusRow)) := sum_share store s.sent
      _ ≤ (s.received.flatMap store : List (StatusKey × StatusRow)) := by
            rw [hs.received, List.flatMap_append, ← Multiset.coe_add]
            exact Multiset.le_add_right _ _
  rw [log_eq, two_nsmul]
  exact add_le_add hdirect hqueued

theorem Inv.log_drained [NeZero n] {s : Reporter n} (hs : s.Inv table₀) (h : s.Drained) :
    (s.log.map Prod.snd : Multiset (StatusKey × StatusRow)) =
      2 • (s.received.flatMap store : Multiset (StatusKey × StatusRow)) := by
  rcases hs.drained h with ⟨hdirect, hqueued⟩
  rw [log_eq, hdirect, Finset.sum_congr rfl fun i _ => by rw [hqueued i], sum_share, two_nsmul]

theorem mem_of_latest {key : StatusKey} {row : StatusRow} {writes : List (StatusKey × StatusRow)}
    (h : latest key writes = some row) : (key, row) ∈ writes := by
  rcases Option.map_eq_some_iff.1 h with ⟨write, hlast, rfl⟩
  have hmem := List.mem_filter.1 (List.mem_of_getLast? hlast)
  rw [← of_decide_eq_true hmem.2]
  exact hmem.1

/-- A row is as it was, or as some report has it. -/
theorem Inv.row [NeZero n] {s : Reporter n} (hs : s.Inv table₀) (key : StatusKey) :
    s.table key = table₀ key ∨
      ∃ req ∈ s.received, ∃ result ∈ req.results, ∃ row,
        statement req result = (key, row) ∧ s.table key = some row := by
  rw [hs.table, applyWrites_eq]
  cases hlast : latest key (s.log.map Prod.snd) with
  | none => exact Or.inl rfl
  | some row =>
      right
      have hmem : (key, row) ∈
          2 • (s.received.flatMap store : Multiset (StatusKey × StatusRow)) :=
        Multiset.mem_of_le hs.log_le (mem_of_latest hlast)
      rcases List.mem_flatMap.1 (Multiset.mem_of_mem_nsmul hmem) with ⟨req, hreq, hwrite⟩
      rcases List.mem_map.1 hwrite with ⟨result, hresult, hstatement⟩
      exact ⟨req, hreq, result, hresult, row, hstatement, rfl⟩

/-- In every run no statement is executed more often than twice for each time that a report asks for
it, and exactly as often once everything is stored; and whatever the table holds that it did not
hold at the start is from a report.  The statements are taken to succeed. -/
theorem statements_twice [NeZero n] (table₀ : StatusKey → Option StatusRow) (acts : List (Act n))
    (s : Reporter n) (hrun : run step (init table₀) acts = some s) :
    (s.log.map Prod.snd : Multiset (StatusKey × StatusRow)) ≤
        2 • (s.received.flatMap store : Multiset (StatusKey × StatusRow)) ∧
      (s.Drained → (s.log.map Prod.snd : Multiset (StatusKey × StatusRow)) =
        2 • (s.received.flatMap store : Multiset (StatusKey × StatusRow))) ∧
      ∀ key, s.table key = table₀ key ∨
        ∃ req ∈ s.received, ∃ result ∈ req.results, ∃ row,
          statement req result = (key, row) ∧ s.table key = some row :=
  ⟨(run_inv hrun).log_le, (run_inv hrun).log_drained, (run_inv hrun).row⟩

/-- Two reports with one result each are four statements. -/
theorem statements_twice_sample :
    ∃ s : Reporter 1, run step (init fun _ => none)
        (sampleReceives 1 ++ [.recv 0, .pop 0, .storeQueued 0, .pop 0, .storeQueued 0]) = some s ∧
      (s.log.map Prod.snd : Multiset (StatusKey × StatusRow)) =
        2 • ([sampleReport 100, sampleReport 200].flatMap store :
          Multiset (StatusKey × StatusRow)) := by
  have hcheck : (run step (init fun _ => none : Reporter 1)
      (sampleReceives 1 ++ [.recv 0, .pop 0, .storeQueued 0, .pop 0, .storeQueued 0])).map
        (fun s => (s.received, decide s.Drained)) =
      some ([sampleReport 100, sampleReport 200], true) := by
    decide +kernel
  rcases Option.map_eq_some_iff.1 hcheck with ⟨s, hrun, hs⟩
  simp only [Prod.mk.injEq, decide_eq_true_eq] at hs
  refine ⟨s, hrun, ?_⟩
  rw [← hs.1]
  exact (statements_twice (fun _ => none) _ s hrun).2.1 hs.2

end Reporter
end Report
end Rins
