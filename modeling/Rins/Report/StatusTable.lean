import Mathlib.Algebra.GroupWithZero.Nat
import Rins.Base.Proto
import Rins.Lib.LastWrite
import Rins.Lib.Run

/-!
# StatusTable — which report a row of `ServerCallStatus` ends up with

`get_report_status` stores a report itself and puts it on one of the queues, from which a store
thread stores it again.  The queues take turns, so two reports for one key may go through different
threads, and the older of them may be stored last.

A store statement is one step; the reactor thread and the store threads take their steps in any
order.  The row of a key ends up with the last report in every order if and only if, on each of the
queues, the last report with the key says the same as the last report of all.
-/

namespace Rins
namespace Report

open Lib
open Proto (HostCallResult ReportStatusRequest)

/-! ## Store statements -/

/-- The primary key of `ServerCallStatus`, in the formats of the statement. -/
structure StatusKey where
  modid : Int32
  cmdid : Int32
  ip : UInt32
  port : UInt32
  caller : UInt32
  deriving DecidableEq, Repr

/-- The other columns. -/
structure StatusRow where
  succCnt : UInt32
  errCnt : UInt32
  ts : UInt32
  overload : Int
  deriving DecidableEq, Repr

/-- The statement for one result: insert the row, or update all columns of the row that is there. -/
def statement (req : ReportStatusRequest) (result : HostCallResult) : StatusKey × StatusRow :=
  ({ modid := req.modid
     cmdid := req.cmdid
     ip := result.ip.toUInt32
     port := result.port.toUInt32
     caller := req.caller.toUInt32 },
   { succCnt := result.succ
     errCnt := result.err
     ts := req.timestamp
     overload := if result.overload then 1 else 0 })

/-- The loop of `store_report::store`. -/
def store (req : ReportStatusRequest) : List (StatusKey × StatusRow) :=
  req.results.map (statement req)

/-- The row that the last report with the key asks for. -/
def latestRow (reports : List ReportStatusRequest) (key : StatusKey) : Option StatusRow :=
  latest key (reports.flatMap store)

/-! ## The reporter -/

/-- A store thread in `thread_report`: the statements that are left of the report it stores, and
`report_msgs`. -/
structure StoreThread where
  stmts : List (StatusKey × StatusRow)
  reportMsgs : List ReportStatusRequest
  deriving DecidableEq

def StoreThread.idle : StoreThread :=
  { stmts := [], reportMsgs := [] }

/-- The reporter with `n` store threads. -/
structure Reporter (n : Nat) where
  /-- `ServerCallStatus` -/
  table : StatusKey → Option StatusRow
  /-- `get_report_status`, while it runs: what is left of its own `store`, and the report -/
  reactor : Option (List (StatusKey × StatusRow) × ReportStatusRequest)
  /-- the static `index` -/
  index : Fin n
  queues : Fin n → List ReportStatusRequest
  threads : Fin n → StoreThread
  /-- history: the reports that `get_report_status` was called with -/
  received : List ReportStatusRequest
  /-- history: those that were put on a queue -/
  sent : List ReportStatusRequest
  /-- history: the statements, with the store thread that executed them, or the reactor thread -/
  log : List (Option (Fin n) × StatusKey × StatusRow)

namespace Reporter

variable {n : Nat} [NeZero n]

def init (table : StatusKey → Option StatusRow) : Reporter n :=
  { table := table
    reactor := none
    index := Fin.ofNat n 0
    queues := fun _ => []
    threads := fun _ => .idle
    received := []
    sent := []
    log := [] }

/-- `mysql_real_query`. -/
def execute (s : Reporter n) (who : Option (Fin n)) (stmt : StatusKey × StatusRow) : Reporter n :=
  { s with
    table := Function.update s.table stmt.1 (some stmt.2)
    log := s.log ++ [(who, stmt)] }

inductive Act (n : Nat)
  /-- `get_report_status` is called -/
  | receive (req : ReportStatusRequest)
  /-- a statement of the `store` in `get_report_status` -/
  | storeDirect
  /-- `queues[index]->send`, and the next `index` -/
  | send
  /-- `queue->recv` in `thread_report` -/
  | recv (i : Fin n)
  /-- `report_msgs.front` and `report_msgs.pop` -/
  | pop (i : Fin n)
  /-- a statement of the `store` in `thread_report` -/
  | storeQueued (i : Fin n)

def step (s : Reporter n) : Act n → Option (Reporter n)
  | .receive req =>
      match s.reactor with
      | none => some { s with reactor := some (store req, req), received := s.received ++ [req] }
      | some _ => none
  | .storeDirect =>
      match s.reactor with
      | some (stmt :: stmts, req) => some { s.execute none stmt with reactor := some (stmts, req) }
      | _ => none
  | .send =>
      match s.reactor with
      | some ([], req) =>
          some { s with
            reactor := none
            index := Fin.ofNat n (s.index + 1)
            queues := Function.update s.queues s.index (s.queues s.index ++ [req])
            sent := s.sent ++ [req] }
      | _ => none
  | .recv i =>
      if s.threads i = .idle then
        some { s with
          queues := Function.update s.queues i []
          threads := Function.update s.threads i { stmts := [], reportMsgs := s.queues i } }
      else
        none
  | .pop i =>
      match s.threads i with
      | { stmts := [], reportMsgs := msg :: msgs } =>
          some { s with
            threads := Function.update s.threads i { stmts := store msg, reportMsgs := msgs } }
      | _ => none
  | .storeQueued i =>
      match s.threads i with
      | { stmts := stmt :: stmts, reportMsgs := msgs } =>
          some { s.execute (some i) stmt with
            threads := Function.update s.threads i { stmts := stmts, reportMsgs := msgs } }
      | _ => none

/-- Nothing is left to be stored. -/
def Drained (s : Reporter n) : Prop :=
  s.reactor = none ∧ ∀ i, s.queues i = [] ∧ s.threads i = .idle

instance (s : Reporter n) : Decidable s.Drained :=
  inferInstanceAs (Decidable (s.reactor = none ∧ ∀ i, s.queues i = [] ∧ s.threads i = .idle))

end Reporter

/-! ## The condition -/

/-- The reports that go to one queue: every `n`-th. -/
def share (n : Nat) (i : Fin n) (reports : List ReportStatusRequest) : List ReportStatusRequest :=
  (reports.zipIdx.filter fun entry => entry.2 % n = i).map Prod.fst

/-- On each queue, the last report with a key says about it what the last report of all says. -/
def QueuesAgree (n : Nat) (reports : List ReportStatusRequest) : Prop :=
  ∀ (i : Fin n) (key : StatusKey), latestRow (share n i reports) key ≠ none →
    latestRow (share n i reports) key = latestRow reports key

theorem share_append_singleton {n : Nat} (i : Fin n) (reports : List ReportStatusRequest)
    (req : ReportStatusRequest) :
    share n i (reports ++ [req]) =
      share n i reports ++ if reports.length % n = i then [req] else [] := by
  unfold share
  rw [List.zipIdx_append, List.filter_append, List.map_append]
  by_cases hturn : reports.length % n = i
  · simp [hturn]
  · simp [hturn]

namespace Reporter

variable {n : Nat}

/-! ## Nothing is lost on the way -/

/-- What is left of the `store` in `get_report_status`. -/
def todo (s : Reporter n) : List (StatusKey × StatusRow) :=
  match s.reactor with
  | none => []
  | some (stmts, _) => stmts

/-- The report that `get_report_status` has not put on a queue yet. -/
def handling (s : Reporter n) : List ReportStatusRequest :=
  match s.reactor with
  | none => []
  | some (_, req) => [req]

/-- The statements that are still to come from a store thread. -/
def pending (s : Reporter n) (i : Fin n) : List (StatusKey × StatusRow) :=
  (s.threads i).stmts ++ (s.threads i).reportMsgs.flatMap store ++ (s.queues i).flatMap store

structure Inv (table₀ : StatusKey → Option StatusRow) (s : Reporter n) : Prop where
  table : s.table = applyWrites table₀ (s.log.map Prod.snd)
  received : s.received = s.sent ++ s.handling
  index : (s.index : Nat) = s.sent.length % n
  direct : stream none s.log ++ s.todo = s.received.flatMap store
  queued : ∀ i, stream (some i) s.log ++ s.pending i = (share n i s.sent).flatMap store

section Proofs

variable {table₀ : StatusKey → Option StatusRow}

/-- The streams of a log with one more statement. -/
theorem stream_execute (s : Reporter n) (who who' : Option (Fin n))
    (stmt : StatusKey × StatusRow) :
    stream who' (s.execute who stmt).log =
      stream who' s.log ++ if who = who' then [stmt] else [] := by
  rw [execute, stream_append, stream_singleton]

theorem Inv.execute_table {s : Reporter n} (hs : s.Inv table₀) (who : Option (Fin n))
    (stmt : StatusKey × StatusRow) :
    (s.execute who stmt).table = applyWrites table₀ ((s.execute who stmt).log.map Prod.snd) := by
  simp only [execute, List.map_append, applyWrites_append, ← hs.table]
  rfl

theorem Inv.receive {s : Reporter n} (hs : s.Inv table₀) (hnone : s.reactor = none)
    (req : ReportStatusRequest) :
    Inv table₀ { s with reactor := some (store req, req), received := s.received ++ [req] } := by
  refine ⟨hs.table, ?_, hs.index, ?_, hs.queued⟩
  · have hreceived := hs.received
    simp only [handling, hnone, List.append_nil] at hreceived
    simp [handling, hreceived]
  · have hdirect := hs.direct
    simp only [todo, hnone, List.append_nil] at hdirect
    simp [todo, hdirect]

theorem Inv.storeDirect {s : Reporter n} (hs : s.Inv table₀) {stmt : StatusKey × StatusRow}
    {stmts : List (StatusKey × StatusRow)} {req : ReportStatusRequest}
    (hbusy : s.reactor = some (stmt :: stmts, req)) :
    Inv table₀ { s.execute none stmt with reactor := some (stmts, req) } := by
  refine ⟨hs.execute_table none stmt, ?_, hs.index, ?_, fun i => ?_⟩
  · have hreceived := hs.received
    simp only [handling, hbusy] at hreceived
    exact hreceived
  · have hdirect := hs.direct
    simp only [todo, hbusy] at hdirect
    rw [stream_execute, if_pos rfl, List.append_assoc]
    exact hdirect
  · rw [stream_execute, if_neg (by simp), List.append_nil]
    exact hs.queued i

theorem Inv.recv {s : Reporter n} (hs : s.Inv table₀) {i : Fin n} (hidle : s.threads i = .idle) :
    Inv table₀
      { s with
        queues := Function.update s.queues i []
        threads := Function.update s.threads i { stmts := [], reportMsgs := s.queues i } } := by
  refine ⟨hs.table, hs.received, hs.index, hs.direct, fun j => ?_⟩
  have hqueued := hs.queued j
  by_cases hj : j = i
  · subst hj
    simpa [pending, hidle, StoreThread.idle] using hqueued
  · simpa [pending, hj] using hqueued

theorem Inv.pop {s : Reporter n} (hs : s.Inv table₀) {i : Fin n} {msg : ReportStatusRequest}
    {msgs : List ReportStatusRequest}
    (hthread : s.threads i = { stmts := [], reportMsgs := msg :: msgs }) :
    Inv table₀
      { s with
        threads := Function.update s.threads i { stmts := store msg, reportMsgs := msgs } } := by
  refine ⟨hs.table, hs.received, hs.index, hs.direct, fun j => ?_⟩
  have hqueued := hs.queued j
  by_cases hj : j = i
  · subst hj
    simpa [pending, hthread] using hqueued
  · simpa [pending, hj] using hqueued

theorem Inv.storeQueued {s : Reporter n} (hs : s.Inv table₀) {i : Fin n}
    {stmt : StatusKey × StatusRow} {stmts : List (StatusKey × StatusRow)}
    {msgs : List ReportStatusRequest}
    (hthread : s.threads i = { stmts := stmt :: stmts, reportMsgs := msgs }) :
    Inv table₀
      { s.execute (some i) stmt with
        threads := Function.update s.threads i { stmts := stmts, reportMsgs := msgs } } := by
  refine ⟨hs.execute_table (some i) stmt, hs.received, hs.index, ?_, fun j => ?_⟩
  · rw [stream_execute, if_neg (by simp), List.append_nil]
    exact hs.direct
  · have hqueued := hs.queued j
    rw [stream_execute]
    by_cases hj : j = i
    · subst hj
      simpa [pending, hthread, execute] using hqueued
    · simpa [pending, hj, Ne.symm hj, execute] using hqueued

section Run

variable [NeZero n]

theorem Inv.send {s : Reporter n} (hs : s.Inv table₀) {req : ReportStatusRequest}
    (hbusy : s.reactor = some ([], req)) :
    Inv table₀
      { s with
        reactor := none
        index := Fin.ofNat n (s.index + 1)
        queues := Function.update s.queues s.index (s.queues s.index ++ [req])
        sent := s.sent ++ [req] } := by
  refine ⟨hs.table, ?_, ?_, ?_, fun i => ?_⟩
  · have hreceived := hs.received
    simp only [handling, hbusy] at hreceived
    simp [handling, hreceived]
  · rw [List.length_append, List.length_singleton, Fin.val_ofNat, hs.index, Nat.mod_add_mod]
  · have hdirect := hs.direct
    simp only [todo, hbusy] at hdirect
    exact hdirect
  · -- the queue whose turn it is gets the report, and its share gets it too
    have hqueued := hs.queued i
    rw [share_append_singleton, ← hs.index]
    by_cases hi : i = s.index
    · subst hi
      simp only [pending, Function.update_self, if_true, List.flatMap_append] at hqueued ⊢
      rw [← hqueued]
      simp
    · have hturn : ¬ (s.index : Nat) = i := fun heq => hi (Fin.ext heq.symm)
      simp only [pending, Function.update_of_ne hi, hturn, if_false, List.append_nil] at hqueued ⊢
      exact hqueued

theorem init_inv : (init table₀ : Reporter n).Inv table₀ := by
  refine ⟨rfl, rfl, ?_, rfl, fun i => ?_⟩
  · simp [init]
  · simp [init, pending, share, StoreThread.idle, stream]

theorem step_inv {s s' : Reporter n} {a : Act n} (hs : s.Inv table₀) (h : s.step a = some s') :
    s'.Inv table₀ := by
  cases a with
  | receive req =>
      simp only [step] at h
      split at h
      · next hnone =>
          cases h
          exact hs.receive hnone req
      · cases h
  | storeDirect =>
      simp only [step] at h
      split at h
      · next stmt stmts req hbusy =>
          cases h
          exact hs.storeDirect hbusy
      · cases h
  | send =>
      simp only [step] at h
      split at h
      · next req hbusy =>
          cases h
          exact hs.send hbusy
      · cases h
  | recv i =>
      simp only [step] at h
      split_ifs at h with hidle
      cases h
      exact hs.recv hidle
  | pop i =>
      simp only [step] at h
      split at h
      · next msg msgs hthread =>
          cases h
          exact hs.pop hthread
      · cases h
  | storeQueued i =>
      simp only [step] at h
      split at h
      · next stmt stmts msgs hthread =>
          cases h
          exact hs.storeQueued hthread
      · cases h

theorem run_inv {acts : List (Act n)} {s : Reporter n} (h : run step (init table₀) acts = some s) :
    s.Inv table₀ :=
  run_invariant_always (fun _ _ _ => step_inv) init_inv h

end Run

/-! ## Once everything is stored -/

/-- What the streams are in the end. -/
theorem Inv.drained {s : Reporter n} (hs : s.Inv table₀) (h : s.Drained) :
    stream none s.log = s.received.flatMap store ∧
      ∀ i, stream (some i) s.log = (share n i s.received).flatMap store := by
  rcases h with ⟨hnone, hempty⟩
  have hsent : s.received = s.sent := by
    have hreceived := hs.received
    simpa [handling, hnone] using hreceived
  refine ⟨?_, fun i => ?_⟩
  · have hdirect := hs.direct
    simpa [todo, hnone] using hdirect
  · have hqueued := hs.queued i
    rcases hempty i with ⟨hqueue, hidle⟩
    simpa [pending, hqueue, hidle, StoreThread.idle, hsent] using hqueued

/-- If the queues agree, the order of the threads does not matter. -/
theorem Inv.table_latest {s : Reporter n} (hs : s.Inv table₀) (h : s.Drained)
    (hagree : QueuesAgree n s.received) {key : StatusKey} {row : StatusRow}
    (hrow : latestRow s.received key = some row) : s.table key = some row := by
  rcases hs.drained h with ⟨hdirect, hqueued⟩
  -- the reactor thread at least has written the row
  have hwritten : latest key (s.log.map Prod.snd) ≠ none := by
    intro hnone
    have hstream : latest key (stream none s.log) = none :=
      latest_eq_none_iff.2 fun write hwrite =>
        latest_eq_none_iff.1 hnone write (stream_subset hwrite)
    rw [hdirect] at hstream
    rw [latestRow, hstream] at hrow
    cases hrow
  rcases Option.ne_none_iff_exists'.1 hwritten with ⟨last, hlast⟩
  rw [hs.table, applyWrites_eq, hlast, Option.some_or, ← hrow]
  -- whoever has written it last, has written what the last report says
  rcases exists_stream_latest hlast with ⟨writer, hwriter⟩
  cases writer with
  | none =>
      rw [hdirect] at hwriter
      exact hwriter.symm
  | some i =>
      rw [hqueued] at hwriter
      have hshare : latestRow (share n i s.received) key = some last := hwriter
      rw [← hshare]
      exact hagree i key (by rw [hshare]; exact Option.some_ne_none last)

end Proofs

/-! ## A store thread that comes last -/

/-- What the steps of one store thread leave alone. -/
structure ByThread (i : Fin n) (s t : Reporter n) : Prop where
  reactor : t.reactor = s.reactor
  received : t.received = s.received
  others : ∀ j, j ≠ i → t.queues j = s.queues j ∧ t.threads j = s.threads j
  log : ∃ stored, t.log = s.log ++ stored ∧ ∀ entry ∈ stored, entry.1 = some i

theorem ByThread.refl (i : Fin n) (s : Reporter n) : ByThread i s s :=
  ⟨rfl, rfl, fun _ _ => ⟨rfl, rfl⟩, [], by simp, by simp⟩

theorem ByThread.trans {i : Fin n} {s t u : Reporter n} (hst : ByThread i s t)
    (htu : ByThread i t u) : ByThread i s u := by
  rcases hst.log with ⟨first, hfirst, hfirst'⟩
  rcases htu.log with ⟨second, hsecond, hsecond'⟩
  refine ⟨htu.reactor.trans hst.reactor, htu.received.trans hst.received, fun j hj => ?_,
    first ++ second, by rw [hsecond, hfirst, List.append_assoc], ?_⟩
  · rcases hst.others j hj with ⟨hq, ht⟩
    rcases htu.others j hj with ⟨hq', ht'⟩
    exact ⟨hq'.trans hq, ht'.trans ht⟩
  · intro entry hentry
    rcases List.mem_append.1 hentry with h | h
    · exact hfirst' entry h
    · exact hsecond' entry h

/-- The statements of the other threads stay as they are. -/
theorem ByThread.stream {i j : Fin n} {s t : Reporter n} (h : ByThread i s t) (hj : j ≠ i) :
    stream (some j) t.log = stream (some j) s.log := by
  rcases h.log with ⟨stored, hlog, hstored⟩
  have hother : Lib.stream (some j) stored = [] :=
    stream_of_ne hstored (by simpa using hj)
  rw [hlog, stream_append, hother, List.append_nil]

section Progress

variable [NeZero n]

/-! ### One step of a store thread -/

theorem exists_storeQueued {s : Reporter n} {i : Fin n} {stmt : StatusKey × StatusRow}
    {stmts : List (StatusKey × StatusRow)} {msgs : List ReportStatusRequest}
    (hthread : s.threads i = { stmts := stmt :: stmts, reportMsgs := msgs }) :
    ∃ t, s.step (.storeQueued i) = some t ∧ ByThread i s t ∧
      t.threads i = { stmts := stmts, reportMsgs := msgs } ∧ t.queues i = s.queues i := by
  refine ⟨{ s.execute (some i) stmt with
    threads := Function.update s.threads i { stmts := stmts, reportMsgs := msgs } }, ?_, ?_, ?_,
    rfl⟩
  · simp only [step, hthread]
  · refine ⟨rfl, rfl, fun j hj => ⟨rfl, ?_⟩, [(some i, stmt)], rfl, by simp⟩
    exact Function.update_of_ne hj _ _
  · exact Function.update_self _ _ _

theorem exists_pop {s : Reporter n} {i : Fin n} {msg : ReportStatusRequest}
    {msgs : List ReportStatusRequest}
    (hthread : s.threads i = { stmts := [], reportMsgs := msg :: msgs }) :
    ∃ t, s.step (.pop i) = some t ∧ ByThread i s t ∧
      t.threads i = { stmts := store msg, reportMsgs := msgs } ∧ t.queues i = s.queues i := by
  refine ⟨{ s with
    threads := Function.update s.threads i { stmts := store msg, reportMsgs := msgs } }, ?_, ?_, ?_,
    rfl⟩
  · simp only [step, hthread]
  · refine ⟨rfl, rfl, fun j hj => ⟨rfl, ?_⟩, [], by simp, by simp⟩
    exact Function.update_of_ne hj _ _
  · exact Function.update_self _ _ _

theorem exists_recv {s : Reporter n} {i : Fin n} (hidle : s.threads i = .idle) :
    ∃ t, s.step (.recv i) = some t ∧ ByThread i s t ∧
      t.threads i = { stmts := [], reportMsgs := s.queues i } ∧ t.queues i = [] := by
  refine ⟨{ s with
    queues := Function.update s.queues i []
    threads := Function.update s.threads i { stmts := [], reportMsgs := s.queues i } }, ?_, ?_, ?_,
    ?_⟩
  · simp only [step, hidle, if_true]
  · refine ⟨rfl, rfl, fun j hj => ⟨?_, ?_⟩, [], by simp, by simp⟩
    · exact Function.update_of_ne hj _ _
    · exact Function.update_of_ne hj _ _
  · exact Function.update_self _ _ _
  · exact Function.update_self _ _ _

/-! ### The threads one after the other -/

theorem finishStmts {i : Fin n} {msgs : List ReportStatusRequest}
    {stmts : List (StatusKey × StatusRow)} :
    ∀ {s : Reporter n}, s.threads i = { stmts := stmts, reportMsgs := msgs } →
      ∃ t, Reaches step s t ∧ ByThread i s t ∧
        t.threads i = { stmts := [], reportMsgs := msgs } ∧ t.queues i = s.queues i := by
  induction stmts with
  | nil =>
      intro s hthread
      exact ⟨s, .refl s, .refl i s, hthread, rfl⟩
  | cons stmt stmts ih =>
      intro s hthread
      rcases exists_storeQueued hthread with ⟨s₁, hstep, hby, hthread₁, hqueue⟩
      rcases ih hthread₁ with ⟨t, hreach, hby', hdone, hqueue'⟩
      exact ⟨t, (Reaches.of_step hstep).trans hreach, hby.trans hby', hdone,
        hqueue'.trans hqueue⟩

theorem finishMsgs {i : Fin n} {msgs : List ReportStatusRequest} :
    ∀ {stmts : List (StatusKey × StatusRow)} {s : Reporter n},
      s.threads i = { stmts := stmts, reportMsgs := msgs } →
      ∃ t, Reaches step s t ∧ ByThread i s t ∧ t.threads i = .idle ∧
        t.queues i = s.queues i := by
  induction msgs with
  | nil =>
      intro stmts s hthread
      exact finishStmts hthread
  | cons msg msgs ih =>
      intro stmts s hthread
      rcases finishStmts hthread with ⟨s₁, hreach₁, hby₁, hdone₁, hqueue₁⟩
      -- the next report is taken out of `report_msgs`
      rcases exists_pop hdone₁ with ⟨s₂, hstep, hby₂, hthread₂, hqueue₂⟩
      rcases ih hthread₂ with ⟨t, hreach, hby, hdone, hqueue⟩
      exact ⟨t, (hreach₁.trans (.of_step hstep)).trans hreach, (hby₁.trans hby₂).trans hby, hdone,
        (hqueue.trans hqueue₂).trans hqueue₁⟩

/-- A store thread may store everything that is there for it while the others rest. -/
theorem drain (i : Fin n) (s : Reporter n) :
    ∃ t, Reaches step s t ∧ ByThread i s t ∧ t.threads i = .idle ∧ t.queues i = [] := by
  rcases finishMsgs (rfl : s.threads i = { stmts := _, reportMsgs := _ }) with
    ⟨s₁, hreach₁, hby₁, hidle₁, _⟩
  rcases exists_recv hidle₁ with ⟨s₂, hstep, hby₂, hthread₂, hqueue₂⟩
  rcases finishMsgs hthread₂ with ⟨t, hreach, hby, hidle, hqueue⟩
  exact ⟨t, (hreach₁.trans (.of_step hstep)).trans hreach, (hby₁.trans hby₂).trans hby, hidle,
    hqueue.trans hqueue₂⟩

/-- The other store threads may be done before a thread has stored anything. -/
theorem drainOthers (i : Fin n) {js : List (Fin n)} (hjs : i ∉ js) (s : Reporter n) :
    ∃ t, Reaches step s t ∧ t.reactor = s.reactor ∧ t.received = s.received ∧
      stream (some i) t.log = stream (some i) s.log ∧
      ∀ j ∈ js, t.queues j = [] ∧ t.threads j = .idle := by
  induction js with
  | nil => exact ⟨s, .refl s, rfl, rfl, rfl, fun j hj => absurd hj List.not_mem_nil⟩
  | cons j js ih =>
      have hij : i ≠ j := fun heq => hjs (by simp [heq])
      rcases ih (fun hmem => hjs (List.mem_cons_of_mem j hmem)) with
        ⟨s₁, hreach₁, hreactor₁, hreceived₁, hstream₁, hdone₁⟩
      rcases drain j s₁ with ⟨t, hreach, hby, hidle, hqueue⟩
      refine ⟨t, hreach₁.trans hreach, hby.reactor.trans hreactor₁, hby.received.trans hreceived₁,
        (hby.stream hij).trans hstream₁, fun j' hj' => ?_⟩
      by_cases heq : j' = j
      · subst heq
        exact ⟨hqueue, hidle⟩
      · -- what was drained before stays drained
        rcases hdone₁ j' ((List.mem_cons.1 hj').resolve_left heq) with ⟨hqueue', hidle'⟩
        rcases hby.others j' heq with ⟨hq, ht⟩
        exact ⟨hq.trans hqueue', ht.trans hidle'⟩

theorem exists_send {s : Reporter n} {req : ReportStatusRequest}
    (hdone : s.reactor = some ([], req)) :
    ∃ t, s.step .send = some t ∧ t.reactor = none ∧ t.received = s.received ∧ t.log = s.log := by
  refine ⟨{ s with
    reactor := none
    index := Fin.ofNat n (s.index + 1)
    queues := Function.update s.queues s.index (s.queues s.index ++ [req])
    sent := s.sent ++ [req] }, ?_, rfl, rfl, rfl⟩
  simp only [step, hdone]

/-- `get_report_status` may store its report while the store threads rest. -/
theorem storeAll {req : ReportStatusRequest} {stmts : List (StatusKey × StatusRow)} :
    ∀ {s : Reporter n}, s.reactor = some (stmts, req) →
      ∃ t, Reaches step s t ∧ t.reactor = some ([], req) ∧ t.received = s.received ∧
        ∀ i, stream (some i) t.log = stream (some i) s.log := by
  induction stmts with
  | nil =>
      intro s hbusy
      exact ⟨s, .refl s, hbusy, rfl, fun _ => rfl⟩
  | cons stmt stmts ih =>
      intro s hbusy
      have hstep : s.step .storeDirect =
          some { s.execute none stmt with reactor := some (stmts, req) } := by
        simp only [step, hbusy]
      rcases ih (rfl : ({ s.execute none stmt with reactor := some (stmts, req) } :
          Reporter n).reactor = some (stmts, req)) with ⟨t, hreach, hdone, hreceived, hstream⟩
      refine ⟨t, (Reaches.of_step hstep).trans hreach, hdone, hreceived, fun i => ?_⟩
      rw [hstream i, stream_execute, if_neg (by simp), List.append_nil]

/-- All reports may be received before a store thread has stored anything. -/
theorem receiveAll (reports : List ReportStatusRequest) :
    ∀ {s : Reporter n}, s.reactor = none →
      ∃ t, Reaches step s t ∧ t.reactor = none ∧ t.received = s.received ++ reports ∧
        ∀ i, stream (some i) t.log = stream (some i) s.log := by
  induction reports with
  | nil =>
      intro s hnone
      exact ⟨s, .refl s, hnone, by simp, fun _ => rfl⟩
  | cons req reports ih =>
      intro s hnone
      have hstep : s.step (.receive req) =
          some { s with reactor := some (store req, req), received := s.received ++ [req] } := by
        simp only [step, hnone]
      rcases storeAll (rfl : ({ s with
          reactor := some (store req, req), received := s.received ++ [req] } :
            Reporter n).reactor = some (store req, req)) with
        ⟨s₁, hreach₁, hdone₁, hreceived₁, hstream₁⟩
      rcases exists_send hdone₁ with ⟨s₂, hstep₁, hnone₂, hreceived₂, hlog₂⟩
      rcases ih hnone₂ with ⟨t, hreach, hdone, hreceived, hstream⟩
      refine ⟨t, (((Reaches.of_step hstep).trans hreach₁).trans (.of_step hstep₁)).trans hreach,
        hdone, ?_, fun i => ?_⟩
      · rw [hreceived, hreceived₂, hreceived₁, List.append_assoc]
        rfl
      · rw [hstream i, hlog₂]
        exact hstream₁ i

/-- The row may end up with what any of the queues has for it. -/
theorem exists_stale (table₀ : StatusKey → Option StatusRow) {reports : List ReportStatusRequest}
    {i : Fin n} {key : StatusKey} {row : StatusRow}
    (hrow : latestRow (share n i reports) key = some row) :
    ∃ (acts : List (Act n)) (s : Reporter n), run step (init table₀) acts = some s ∧
      s.received = reports ∧ s.Drained ∧ s.table key = some row := by
  rcases receiveAll reports (rfl : (init table₀ : Reporter n).reactor = none) with
    ⟨s₁, hreach₁, hnone₁, hreceived₁, hstream₁⟩
  have hmem : i ∉ (List.finRange n).filter (· ≠ i) := by simp
  rcases drainOthers i hmem s₁ with ⟨s₂, hreach₂, hreactor₂, hreceived₂, hstream₂, hdone₂⟩
  rcases drain i s₂ with ⟨s, hreach, hby, hidle, hqueue⟩
  rcases (hreach₁.trans hreach₂).trans hreach with ⟨acts, hrun⟩
  have hinv := run_inv hrun
  have hreceived : s.received = reports :=
    hby.received.trans (hreceived₂.trans hreceived₁)
  have hdrained : s.Drained := by
    refine ⟨hby.reactor.trans (hreactor₂.trans hnone₁), fun j => ?_⟩
    by_cases hj : j = i
    · subst hj
      exact ⟨hqueue, hidle⟩
    · rcases hby.others j hj with ⟨hq, ht⟩
      rcases hdone₂ j (by simp [hj]) with ⟨hq', ht'⟩
      exact ⟨hq.trans hq', ht.trans ht'⟩
  refine ⟨acts, s, hrun, hreceived, hdrained, ?_⟩
  -- all that the thread has stored, it has stored after the others
  rcases hby.log with ⟨stored, hlog, hstored⟩
  have hbefore : stream (some i) s₂.log = [] := hstream₂.trans (hstream₁ i)
  have hlast : stored.map Prod.snd = (share n i reports).flatMap store := by
    rw [← stream_of_forall hstored, ← hreceived, ← (hinv.drained hdrained).2 i, hlog,
      stream_append, hbefore, List.nil_append]
  rw [hinv.table, applyWrites_eq, hlog, List.map_append, latest_append, hlast]
  rw [show latest key ((share n i reports).flatMap store) = some row from hrow]
  rfl

end Progress

/-! ## The exact condition -/

theorem mem_of_mem_share {i : Fin n} {reports : List ReportStatusRequest}
    {req : ReportStatusRequest} (h : req ∈ share n i reports) : req ∈ reports := by
  rcases List.mem_map.1 h with ⟨entry, hentry, rfl⟩
  exact List.fst_mem_of_mem_zipIdx (List.mem_filter.1 hentry).1

theorem latestRow_ne_none_of_share {i : Fin n} {reports : List ReportStatusRequest}
    {key : StatusKey} (h : latestRow (share n i reports) key ≠ none) :
    latestRow reports key ≠ none := by
  intro hnone
  apply h
  unfold latestRow at hnone ⊢
  rw [latest_eq_none_iff] at hnone ⊢
  intro write hwrite
  rcases List.mem_flatMap.1 hwrite with ⟨req, hreq, hwrite⟩
  exact hnone write (List.mem_flatMap.2 ⟨req, mem_of_mem_share hreq, hwrite⟩)

/-- A single queue has all the reports. -/
theorem queuesAgree_one (reports : List ReportStatusRequest) : QueuesAgree 1 reports := by
  intro i key _
  have hall : share 1 i reports = reports := by
    unfold share
    rw [List.filter_eq_self.2 (by simp [Nat.mod_one]), List.zipIdx_map_fst]
  rw [hall]

/-- In every order of the threads, each row ends up with the last report that contains its key, if
and only if the queues agree. -/
theorem statusTable_latest_iff [NeZero n] (table₀ : StatusKey → Option StatusRow)
    (reports : List ReportStatusRequest) :
    (∀ (acts : List (Act n)) (s : Reporter n), run step (init table₀) acts = some s →
      s.received = reports → s.Drained →
        ∀ key row, latestRow reports key = some row → s.table key = some row) ↔
      QueuesAgree n reports := by
  constructor
  · intro hall i key hshare
    rcases Option.ne_none_iff_exists'.1 hshare with ⟨stale, hstale⟩
    rcases Option.ne_none_iff_exists'.1 (latestRow_ne_none_of_share hshare) with ⟨row, hrow⟩
    rcases exists_stale table₀ hstale with ⟨acts, s, hrun, hreceived, hdrained, htable⟩
    have hlast := hall acts s hrun hreceived hdrained key row hrow
    rw [hstale, hrow, ← htable, hlast]
  · intro hagree acts s hrun hreceived hdrained key row hrow
    subst hreceived
    exact (run_inv hrun).table_latest hdrained hagree hrow

/-- A report on one host. -/
def sampleReport (succ : UInt32) : ReportStatusRequest :=
  { modid := 1
    cmdid := 1
    caller := 123
    results := [{ ip := 1, port := 1, succ := succ, err := 3, overload := true }]
    timestamp := 1700000000 }

def sampleKey : StatusKey :=
  { modid := 1, cmdid := 1, ip := 1, port := 1, caller := 123 }

/-- `get_report_status` for two reports. -/
def sampleReceives (n : Nat) : List (Act n) :=
  [.receive (sampleReport 100), .storeDirect, .send, .receive (sampleReport 200), .storeDirect,
    .send]

/-- With one store thread, the row has the second report. -/
theorem statusTable_latest_iff_oneThread :
    ∃ s : Reporter 1, run step (init fun _ => none)
        (sampleReceives 1 ++ [.recv 0, .pop 0, .storeQueued 0, .pop 0, .storeQueued 0]) = some s ∧
      s.table sampleKey =
        some { succCnt := 200, errCnt := 3, ts := 1700000000, overload := 1 } := by
  have hcheck : (run step (init fun _ => none : Reporter 1)
      (sampleReceives 1 ++ [.recv 0, .pop 0, .storeQueued 0, .pop 0, .storeQueued 0])).map
        (fun s => (s.received, decide s.Drained)) =
      some ([sampleReport 100, sampleReport 200], true) := by
    decide +kernel
  rcases Option.map_eq_some_iff.1 hcheck with ⟨s, hrun, hs⟩
  simp only [Prod.mk.injEq, decide_eq_true_eq] at hs
  have hagree := queuesAgree_one [sampleReport 100, sampleReport 200]
  exact ⟨s, hrun, (statusTable_latest_iff _ _).2 hagree _ s hrun hs.1 hs.2 sampleKey _
    (by decide +kernel)⟩

/-- With three store threads, the row has the first report again in the end: its thread comes after
the other one. -/
theorem statusTable_stale :
    ∃ s : Reporter 3, run step (init fun _ => none)
        (sampleReceives 3 ++ [.recv 1, .pop 1, .storeQueued 1, .recv 0, .pop 0, .storeQueued 0]) =
          some s ∧
      s.received = [sampleReport 100, sampleReport 200] ∧ s.Drained ∧
      latestRow s.received sampleKey =
        some { succCnt := 200, errCnt := 3, ts := 1700000000, overload := 1 } ∧
      s.table sampleKey =
        some { succCnt := 100, errCnt := 3, ts := 1700000000, overload := 1 } := by
  have hcheck : (run step (init fun _ => none : Reporter 3)
      (sampleReceives 3 ++ [.recv 1, .pop 1, .storeQueued 1, .recv 0, .pop 0, .storeQueued 0])).map
        (fun s => (s.received, decide s.Drained, s.table sampleKey)) =
      some ([sampleReport 100, sampleReport 200], true,
        some { succCnt := 100, errCnt := 3, ts := 1700000000, overload := 1 }) := by
    decide +kernel
  rcases Option.map_eq_some_iff.1 hcheck with ⟨s, hrun, hs⟩
  simp only [Prod.mk.injEq, decide_eq_true_eq] at hs
  rcases hs with ⟨hreceived, hdrained, htable⟩
  refine ⟨s, hrun, hreceived, hdrained, ?_, htable⟩
  rw [hreceived]
  decide +kernel

end Reporter
end Report
end Rins
