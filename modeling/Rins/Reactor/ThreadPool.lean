import Mathlib.Data.List.Count
import Mathlib.Logic.Function.Basic
import Rins.Lib.Run

/-!
# ThreadPool — handing connections and tasks over to the worker threads

A `thread_queue` is a list under a mutex with an `eventfd` beside it; its owner takes everything out
at once, by swapping the list with an empty one.  In a worker the tasks go through a second list,
`_read_tasks`, before they run.

A step is one critical section of a queue mutex, or one round of a worker's loops.  The counter of
an `eventfd` cannot overflow: a queue of `2^64` items does not fit into memory.  No task adds a
task, so `_read_tasks` does not change while it is executed.
-/

namespace Rins
namespace Reactor

open Lib

/-! ## The queue -/

/-- `thread_queue<T>`, with what was sent to it and received from it. -/
structure ThreadQueue (τ : Type) where
  queue : List τ
  /-- the counter of `_evfd` -/
  evfd : Nat
  /-- history, in the order in which the mutex was taken -/
  sent : List τ
  received : List τ

namespace ThreadQueue

variable {τ : Type}

def new : ThreadQueue τ :=
  { queue := [], evfd := 0, sent := [], received := [] }

/-- `thread_queue::send`. -/
def send (q : ThreadQueue τ) (task : τ) : ThreadQueue τ :=
  { q with
    queue := q.queue ++ [task]
    evfd := q.evfd + 1
    sent := q.sent ++ [task] }

/-- `thread_queue::recv`: what the caller's `new_queue` holds afterwards, and the queue.  The `read`
resets the counter; it fails if the counter is 0 already. -/
def recv (q : ThreadQueue τ) (newQueue : List τ) : List τ × ThreadQueue τ :=
  (q.queue,
    { q with
      queue := newQueue
      evfd := 0
      received := q.received ++ q.queue })

/-- `epoll_wait` reports `_evfd`, once it is registered. -/
def Readable (q : ThreadQueue τ) : Prop :=
  0 < q.evfd

instance (q : ThreadQueue τ) : Decidable q.Readable :=
  inferInstanceAs (Decidable (0 < q.evfd))

/-- Nothing is lost, doubled or out of order, and the counter counts the items. -/
structure Exact (q : ThreadQueue τ) : Prop where
  items : q.received ++ q.queue = q.sent
  counter : q.evfd = q.queue.length

theorem new_exact : (new : ThreadQueue τ).Exact where
  items := rfl
  counter := rfl

theorem Exact.send {q : ThreadQueue τ} (h : q.Exact) (task : τ) : (q.send task).Exact where
  items := by
    calc
      q.received ++ (q.queue ++ [task])
          = (q.received ++ q.queue) ++ [task] := (List.append_assoc _ _ _).symm
      _ = q.sent ++ [task] := by rw [h.items]
  counter := by
    calc
      q.evfd + 1 = q.queue.length + 1 := by rw [h.counter]
      _ = (q.queue ++ [task]).length := by simp

/-- With a fresh queue to swap with. -/
theorem Exact.recv {q : ThreadQueue τ} (h : q.Exact) : (q.recv []).2.Exact where
  items := by
    calc
      q.received ++ q.queue ++ [] = q.received ++ q.queue := List.append_nil _
      _ = q.sent := h.items
  counter := rfl

/-- The descriptor is readable if and only if an item waits. -/
theorem Exact.readable_iff {q : ThreadQueue τ} (h : q.Exact) : q.Readable ↔ q.queue ≠ [] := by
  unfold Readable
  rw [h.counter, List.length_pos_iff]

/-- One critical section: of any sender, or of the owner with a fresh queue to swap with. -/
inductive Act (τ : Type)
  | send (task : τ)
  | recv

def step (q : ThreadQueue τ) : Act τ → ThreadQueue τ
  | .send task => q.send task
  | .recv => (q.recv []).2

/-- Whatever the order in which the mutex is taken. -/
theorem foldl_exact {q : ThreadQueue τ} (h : q.Exact) (acts : List (Act τ)) :
    (acts.foldl step q).Exact := by
  induction acts generalizing q with
  | nil =>
      exact h
  | cons a acts ih =>
      cases a with
      | send task =>
          exact ih (h.send task)
      | recv =>
          exact ih h.recv

end ThreadQueue

/-! ## The workers -/

/-- `task_msg`.  A task carries the number of the `send_task` call that it comes from. -/
inductive TaskMsg (φ : Type)
  | newConn (connfd : Int)
  | newTask (call : Nat) (func : φ)
  deriving DecidableEq

namespace TaskMsg

variable {φ : Type}

def conn? : TaskMsg φ → Option Int
  | newConn connfd => some connfd
  | newTask _ _ => none

def task? : TaskMsg φ → Option (Nat × φ)
  | newConn _ => none
  | newTask call func => some (call, func)

end TaskMsg

/-- Where a worker thread stands. -/
inductive LoopPc
  /-- in `thread_main`, before `set_callback` has registered `_evfd` -/
  | starting
  /-- in `epoll_wait` -/
  | waiting
  /-- in `deal_task_message` -/
  | dealing
  /-- in `execute_ready_task`, at this place of `_read_tasks` -/
  | executing (i : Nat)
  deriving DecidableEq

/-- A worker thread with its queue; `φ` are the functions of tasks, with their arguments. -/
structure PoolWorker (φ : Type) where
  queue : ThreadQueue (TaskMsg φ)
  pc : LoopPc
  /-- the local `tasks` of `deal_task_message` -/
  tasks : List (TaskMsg φ)
  readTasks : List (Nat × φ)
  /-- history: the descriptors of the `tcp_conn`s that the worker has made -/
  created : List Int
  /-- history: the tasks that the worker has run -/
  ran : List (Nat × φ)

/-- A pool of `n` threads, and those who use it. -/
structure Pool (n : Nat) (φ : Type) where
  workers : Fin n → PoolWorker φ
  /-- `_index` -/
  index : Nat
  /-- history: the descriptors that `do_accept` has handed over -/
  accepted : List Int
  /-- the calls of `send_task` so far, with the worker that each comes to next -/
  calls : List (φ × Nat)

namespace Pool

variable {n : Nat} {φ : Type}

def init (n : Nat) (φ : Type) : Pool n φ :=
  { workers := fun _ =>
      { queue := .new, pc := .starting, tasks := [], readTasks := [], created := [], ran := [] }
    index := 0
    accepted := []
    calls := [] }

/-- What a worker thread does. -/
inductive WorkerAct
  /-- `set_loop` and `set_callback` -/
  | register
  /-- `epoll_wait` reports `_evfd`: `deal_task_message` as far as `recv` -/
  | wake
  /-- the next round of the loop in `deal_task_message`, or its end -/
  | deal
  /-- `epoll_wait` returns without `_evfd` -/
  | timeout
  /-- the next round of the loop in `execute_ready_task`, or its end -/
  | execute

inductive Act (n : Nat) (φ : Type)
  /-- `do_accept` hands a new connection over -/
  | accept (connfd : Int)
  /-- some thread calls `send_task` -/
  | sendTask (func : φ)
  /-- the next round of the loop in one of these calls -/
  | sendNext (call : Nat)
  | worker (w : Fin n) (a : WorkerAct)

def setWorker (s : Pool n φ) (w : Fin n) (worker : PoolWorker φ) : Pool n φ :=
  { s with workers := Function.update s.workers w worker }

/-- `thread_queue::send` on the queue of a worker. -/
def enqueue (s : Pool n φ) (w : Fin n) (task : TaskMsg φ) : Pool n φ :=
  s.setWorker w { s.workers w with queue := (s.workers w).queue.send task }

/-- `thread_pool::get_thread`: the index of the queue, and the new `_index`. -/
def getThread (n index : Nat) : Nat × Nat :=
  let index := if index = n then 0 else index
  (index, index + 1)

end Pool

/-- One step of a worker thread. -/
def PoolWorker.step {φ : Type} (worker : PoolWorker φ) (a : Pool.WorkerAct) :
    Option (PoolWorker φ) :=
  match worker.pc, a with
  | .starting, .register => some { worker with pc := .waiting }
  | .waiting, .wake =>
      if worker.queue.Readable then
        let (tasks, queue) := worker.queue.recv []
        some { worker with queue := queue, pc := .dealing, tasks := tasks }
      else
        none
  | .waiting, .timeout => some { worker with pc := .executing 0 }
  | .dealing, .deal =>
      match worker.tasks with
      | .newConn connfd :: tasks =>
          -- `new tcp_conn(task.connfd, loop)`
          some { worker with tasks := tasks, created := worker.created ++ [connfd] }
      | .newTask call func :: tasks =>
          -- `loop->add_task(task.func, task.args)`
          some { worker with tasks := tasks, readTasks := worker.readTasks ++ [(call, func)] }
      | [] => some { worker with pc := .executing 0 }
  | .executing i, .execute =>
      match worker.readTasks[i]? with
      | some task => some { worker with pc := .executing (i + 1), ran := worker.ran ++ [task] }
      | none => some { worker with pc := .waiting, readTasks := [] }
  | _, _ => none

namespace Pool

variable {n : Nat} {φ : Type}

def step (s : Pool n φ) : Act n φ → Option (Pool n φ)
  | .accept connfd =>
      let (i, index) := getThread n s.index
      if h : i < n then
        some { s.enqueue ⟨i, h⟩ (.newConn connfd) with
          index := index
          accepted := s.accepted ++ [connfd] }
      else
        none
  | .sendTask func => some { s with calls := s.calls ++ [(func, 0)] }
  | .sendNext call =>
      match s.calls[call]? with
      | some (func, i) =>
          if h : i < n then
            some { s.enqueue ⟨i, h⟩ (.newTask call func) with
              calls := s.calls.set call (func, i + 1) }
          else
            none
      | none => none
  | .worker w a => ((s.workers w).step a).map (s.setWorker w)

end Pool

/-! ## One worker -/

namespace PoolWorker

variable {φ : Type}

/-- The tasks in `_read_tasks` that have not run yet. -/
def ready (worker : PoolWorker φ) : List (Nat × φ) :=
  match worker.pc with
  | .executing i => worker.readTasks.drop i
  | _ => worker.readTasks

/-- Everything received is in one place: done, in `_read_tasks`, or still in the local queue. -/
structure Exact (worker : PoolWorker φ) : Prop where
  queue : worker.queue.Exact
  conns : worker.queue.received.filterMap TaskMsg.conn? =
    worker.created ++ worker.tasks.filterMap TaskMsg.conn?
  tasks : worker.queue.received.filterMap TaskMsg.task? =
    worker.ran ++ worker.ready ++ worker.tasks.filterMap TaskMsg.task?
  dealt : worker.pc ≠ .dealing → worker.tasks = []
  executed : worker.pc = .starting ∨ worker.pc = .waiting → worker.readTasks = []

theorem Exact.send {worker : PoolWorker φ} (h : worker.Exact) (task : TaskMsg φ) :
    Exact { worker with queue := worker.queue.send task } where
  queue := h.queue.send task
  conns := h.conns
  tasks := h.tasks
  dealt := h.dealt
  executed := h.executed

theorem Exact.step {worker worker' : PoolWorker φ} (h : worker.Exact) {a : Pool.WorkerAct}
    (hstep : worker.step a = some worker') : worker'.Exact := by
  have htasks := h.tasks
  unfold PoolWorker.step at hstep
  split at hstep
  · -- `register`: what was sent before waits in the queue
    next hpc =>
      cases hstep
      simp only [ready, hpc] at htasks
      exact ⟨h.queue, h.conns, htasks, fun _ => h.dealt (by simp [hpc]),
        fun _ => h.executed (Or.inl hpc)⟩
  · -- what is received is what waits, and nothing was left from the last time
    next hpc =>
      split_ifs at hstep
      cases hstep
      have hnone : worker.tasks = [] := h.dealt (by simp [hpc])
      simp only [ready, hpc, hnone] at htasks
      refine ⟨h.queue.recv, ?_, ?_, by simp, by simp⟩
      · have hconns := h.conns
        simp only [hnone, List.filterMap_nil, List.append_nil] at hconns
        simp [hconns]
      · simp only [List.filterMap_nil, List.append_nil] at htasks
        simp [ready, htasks]
  · -- `timeout`: the tasks are run without new ones
    next hpc =>
      cases hstep
      simp only [ready, hpc] at htasks
      exact ⟨h.queue, h.conns, by simpa [ready] using htasks, fun _ => h.dealt (by simp [hpc]),
        by simp⟩
  · -- a round of `deal_task_message` moves one item from the local queue to where it belongs
    next hpc =>
      have hconns := h.conns
      simp only [ready, hpc] at htasks
      split at hstep
      · next connfd tasks htodo =>
          cases hstep
          rw [htodo] at hconns htasks
          simp only [List.filterMap_cons, TaskMsg.conn?, TaskMsg.task?] at hconns htasks
          exact ⟨h.queue, by simpa using hconns, by simpa [ready, hpc] using htasks, by simp [hpc],
            by simp [hpc]⟩
      · next call func tasks htodo =>
          cases hstep
          rw [htodo] at hconns htasks
          simp only [List.filterMap_cons, TaskMsg.conn?, TaskMsg.task?] at hconns htasks
          exact ⟨h.queue, by simpa using hconns, by simpa [ready, hpc] using htasks, by simp [hpc],
            by simp [hpc]⟩
      · next htodo =>
          cases hstep
          exact ⟨h.queue, hconns, by simpa [ready] using htasks, fun _ => htodo, by simp⟩
  · -- a round of `execute_ready_task` moves the place by one; its end clears what has run
    next i hpc =>
      simp only [ready, hpc] at htasks
      split at hstep
      · next task htask =>
          cases hstep
          refine ⟨h.queue, h.conns, ?_, fun _ => h.dealt (by simp [hpc]), by simp⟩
          rcases List.getElem?_eq_some_iff.1 htask with ⟨hlt, rfl⟩
          rw [List.drop_eq_getElem_cons hlt] at htasks
          simpa [ready] using htasks
      · next hend =>
          cases hstep
          rw [List.drop_eq_nil_of_le (List.getElem?_eq_none_iff.1 hend)] at htasks
          exact ⟨h.queue, h.conns, by simpa [ready] using htasks,
            fun _ => h.dealt (by simp [hpc]), by simp⟩
  · cases hstep

/-! ### Left to itself, a worker finishes -/

/-- The loop in `deal_task_message` comes to its end. -/
theorem run_deal {worker : PoolWorker φ} (hpc : worker.pc = .dealing) :
    ∃ acts worker', run PoolWorker.step worker acts = some worker' ∧
      worker'.pc = .executing 0 ∧ worker'.queue = worker.queue := by
  -- on what is left of the local queue
  generalize htodo : worker.tasks = tasks
  induction tasks generalizing worker with
  | nil =>
      exact ⟨[.deal], { worker with pc := .executing 0 },
        by simp [run, PoolWorker.step, hpc, htodo], rfl, rfl⟩
  | cons task tasks ih =>
      -- one round, whichever kind of task it is
      have hround : ∃ worker₁, worker.step .deal = some worker₁ ∧ worker₁.pc = .dealing ∧
          worker₁.tasks = tasks ∧ worker₁.queue = worker.queue := by
        cases task with
        | newConn connfd =>
            exact ⟨{ worker with tasks := tasks, created := worker.created ++ [connfd] },
              by simp [PoolWorker.step, hpc, htodo], hpc, rfl, rfl⟩
        | newTask call func =>
            exact ⟨{ worker with
                tasks := tasks
                readTasks := worker.readTasks ++ [(call, func)] },
              by simp [PoolWorker.step, hpc, htodo], hpc, rfl, rfl⟩
      rcases hround with ⟨worker₁, hstep, hpc₁, htasks₁, hqueue₁⟩
      rcases ih hpc₁ htasks₁ with ⟨acts, worker', hrun, hpc', hqueue'⟩
      exact ⟨.deal :: acts, worker', run_cons.2 ⟨worker₁, hstep, hrun⟩, hpc',
        hqueue'.trans hqueue₁⟩

/-- The loop in `execute_ready_task` comes to its end. -/
theorem run_execute {worker : PoolWorker φ} {i : Nat} (hpc : worker.pc = .executing i) :
    ∃ acts worker', run PoolWorker.step worker acts = some worker' ∧
      worker'.pc = .waiting ∧ worker'.queue = worker.queue := by
  -- on how many tasks are left
  generalize hleft : worker.readTasks.length - i = left
  induction left generalizing worker i with
  | zero =>
      have hend : worker.readTasks[i]? = none := List.getElem?_eq_none_iff.2 (by omega)
      exact ⟨[.execute], { worker with pc := .waiting, readTasks := [] },
        by simp [run, PoolWorker.step, hpc, hend], rfl, rfl⟩
  | succ left ih =>
      have hlt : i < worker.readTasks.length := by omega
      let worker₁ : PoolWorker φ :=
        { worker with pc := .executing (i + 1), ran := worker.ran ++ [worker.readTasks[i]] }
      have hstep : worker.step .execute = some worker₁ := by
        simp [PoolWorker.step, hpc, hlt, worker₁]
      have hpc₁ : worker₁.pc = .executing (i + 1) := rfl
      have hleft₁ : worker₁.readTasks.length - (i + 1) = left := by
        show worker.readTasks.length - (i + 1) = left
        omega
      rcases ih hpc₁ hleft₁ with ⟨acts, worker', hrun, hpc', hqueue'⟩
      exact ⟨.execute :: acts, worker', run_cons.2 ⟨worker₁, hstep, hrun⟩, hpc', hqueue'⟩

/-- From wherever it stands the worker comes back to `epoll_wait`. -/
theorem run_to_wait (worker : PoolWorker φ) :
    ∃ acts worker', run PoolWorker.step worker acts = some worker' ∧
      worker'.pc = .waiting ∧ worker'.queue = worker.queue := by
  cases hpc : worker.pc with
  | starting =>
      exact ⟨[.register], { worker with pc := .waiting }, by simp [run, PoolWorker.step, hpc], rfl,
        rfl⟩
  | waiting =>
      exact ⟨[], worker, rfl, hpc, rfl⟩
  | dealing =>
      rcases run_deal hpc with ⟨acts, worker₁, hrun, hpc₁, hqueue₁⟩
      rcases run_execute hpc₁ with ⟨acts', worker', hrun', hpc', hqueue'⟩
      exact ⟨acts ++ acts', worker', by rw [run_append, hrun]; exact hrun', hpc',
        hqueue'.trans hqueue₁⟩
  | executing i =>
      exact run_execute hpc

/-- The descriptor is readable for as long as something waits, so the worker takes it out. -/
theorem Exact.run_drain {worker : PoolWorker φ} (h : worker.Exact) :
    ∃ acts worker', run PoolWorker.step worker acts = some worker' ∧ worker'.pc = .waiting ∧
      worker'.queue.queue = [] ∧ worker'.queue.sent = worker.queue.sent := by
  -- one way round the loop to `epoll_wait`, and a second one if something has come meanwhile
  rcases run_to_wait worker with ⟨acts, worker₁, hrun₁, hpc₁, hqueue₁⟩
  by_cases hnone : worker₁.queue.queue = []
  · exact ⟨acts, worker₁, hrun₁, hpc₁, hnone, by rw [hqueue₁]⟩
  · have hread : worker₁.queue.Readable := by
      rw [hqueue₁] at hnone ⊢
      exact h.queue.readable_iff.2 hnone
    have hwake : worker₁.step .wake =
        some { worker₁ with
          queue := (worker₁.queue.recv []).2
          pc := .dealing
          tasks := worker₁.queue.queue } := by
      simp [PoolWorker.step, hpc₁, hread, ThreadQueue.recv]
    rcases run_to_wait { worker₁ with
        queue := (worker₁.queue.recv []).2
        pc := .dealing
        tasks := worker₁.queue.queue } with ⟨acts', worker', hrun', hpc', hqueue'⟩
    refine ⟨acts ++ .wake :: acts', worker', ?_, hpc', by rw [hqueue']; rfl,
      by rw [hqueue', ← hqueue₁]; rfl⟩
    rw [run_append, hrun₁]
    exact run_cons.2 ⟨_, hwake, hrun'⟩

/-- A worker in `epoll_wait` with an empty queue has done everything it was sent. -/
theorem Exact.all_done {worker : PoolWorker φ} (h : worker.Exact) (hpc : worker.pc = .waiting)
    (hnone : worker.queue.queue = []) :
    worker.created = worker.queue.sent.filterMap TaskMsg.conn? ∧
      worker.ran = worker.queue.sent.filterMap TaskMsg.task? := by
  have hsent : worker.queue.received = worker.queue.sent :=
    calc
      worker.queue.received = worker.queue.received ++ worker.queue.queue := by
        rw [hnone, List.append_nil]
      _ = worker.queue.sent := h.queue.items
  have htasks : worker.tasks = [] := h.dealt (by simp [hpc])
  have hready : worker.readTasks = [] := h.executed (Or.inr hpc)
  rw [← hsent, h.conns, h.tasks]
  simp [htasks, ready, hpc, hready]

end PoolWorker

/-! ## The whole pool -/

namespace Pool

variable {n : Nat} {φ : Type}

/-- The descriptors that go to worker `w`: one in `n`, in turn. -/
def share (n : Nat) (w : Fin n) (accepted : List Int) : List Int :=
  (accepted.zipIdx.filter fun p => p.2 % n = w).map Prod.fst

theorem share_snoc (w : Fin n) (accepted : List Int) (connfd : Int) :
    share n w (accepted ++ [connfd]) =
      share n w accepted ++ if accepted.length % n = w then [connfd] else [] := by
  unfold share
  rw [List.zipIdx_append, List.filter_append, List.map_append]
  by_cases hw : accepted.length % n = w
  · simp [hw]
  · simp [hw]

section Calls

variable [DecidableEq φ]

/-- How often the task of a call has to be among those sent to worker `w`: once, if the call has
come past the worker. -/
def callCount (calls : List (φ × Nat)) (w : Nat) (task : Nat × φ) : Nat :=
  match calls[task.1]? with
  | some (func, next) => if func = task.2 ∧ w < next then 1 else 0
  | none => 0

theorem callCount_begin (calls : List (φ × Nat)) (w : Nat) (task : Nat × φ) (func : φ) :
    callCount (calls ++ [(func, 0)]) w task = callCount calls w task := by
  unfold callCount
  rcases Nat.lt_trichotomy task.1 calls.length with hlt | heq | hgt
  · rw [List.getElem?_append_left hlt]
  · simp [heq]
  · rw [List.getElem?_eq_none_iff.2 (by simp; omega), List.getElem?_eq_none_iff.2 (by omega)]

theorem callCount_next {calls : List (φ × Nat)} {call next : Nat} {func : φ}
    (hcall : calls[call]? = some (func, next)) (w : Nat) (task : Nat × φ) :
    callCount (calls.set call (func, next + 1)) w task =
      callCount calls w task + if w = next ∧ task = (call, func) then 1 else 0 := by
  rcases task with ⟨call', func'⟩
  have hlt := (List.getElem?_eq_some_iff.1 hcall).1
  unfold callCount
  by_cases hsame : call' = call
  · subst hsame
    rw [List.getElem?_set_self hlt, hcall]
    by_cases hfunc : func = func'
    · subst hfunc
      -- the call has come past the worker before, does so now, or has not yet
      rcases Nat.lt_trichotomy w next with hbefore | hhere | hafter
      · have hle : w < next + 1 := by omega
        have hne : w ≠ next := by omega
        simp [hbefore, hle, hne]
      · simp [hhere]
      · have hnot : ¬ w < next := by omega
        have hnot' : ¬ w < next + 1 := by omega
        have hne : w ≠ next := by omega
        simp [hnot, hnot', hne]
    · have hne : func' ≠ func := fun h => hfunc h.symm
      simp [hfunc, hne]
  · rw [List.getElem?_set_ne (Ne.symm hsame)]
    simp [hsame]

/-- The invariant of the pool. -/
structure Exact (s : Pool n φ) : Prop where
  worker : ∀ w, (s.workers w).Exact
  turn : (if s.index = n then 0 else s.index) = s.accepted.length % n
  conns : ∀ w, (s.workers w).queue.sent.filterMap TaskMsg.conn? = share n w s.accepted
  tasks : ∀ w task, ((s.workers w).queue.sent.filterMap TaskMsg.task?).count task =
    callCount s.calls w task

theorem init_exact : (init n φ).Exact where
  worker _ :=
    { queue := ThreadQueue.new_exact
      conns := rfl
      tasks := rfl
      dealt := fun _ => rfl
      executed := fun _ => rfl }
  turn := (ite_self _).trans (Nat.zero_mod n).symm
  conns _ := rfl
  tasks w task := by simp [init, ThreadQueue.new, callCount]

omit [DecidableEq φ] in
theorem setWorker_workers (s : Pool n φ) (w w' : Fin n) (worker : PoolWorker φ) :
    (s.setWorker w worker).workers w' = if w' = w then worker else s.workers w' := by
  simp [setWorker, Function.update_apply]

omit [DecidableEq φ] in
theorem enqueue_exact {s : Pool n φ} (h : ∀ w, (s.workers w).Exact) (w w' : Fin n)
    (task : TaskMsg φ) : ((s.enqueue w task).workers w').Exact := by
  rw [enqueue, setWorker_workers]
  split_ifs
  · exact (h w).send task
  · exact h w'

omit [DecidableEq φ] in
theorem enqueue_sent (s : Pool n φ) (w w' : Fin n) (task : TaskMsg φ) :
    ((s.enqueue w task).workers w').queue.sent =
      (s.workers w').queue.sent ++ if w' = w then [task] else [] := by
  rw [enqueue, setWorker_workers]
  split_ifs with hw
  · rw [hw]
    rfl
  · simp

/-- `get_thread` takes the workers in turn. -/
theorem Exact.accept {s : Pool n φ} (h : s.Exact) {connfd : Int} {i index : Nat}
    (hthread : getThread n s.index = (i, index)) (hi : i < n) :
    Exact { s.enqueue ⟨i, hi⟩ (.newConn connfd) with
      index := index
      accepted := s.accepted ++ [connfd] } := by
  simp only [getThread, Prod.mk.injEq] at hthread
  rcases hthread with ⟨hturn, hindex⟩
  rw [hturn] at hindex
  -- `_index` is reset only when it is used, so it stands for a turn in two ways
  have hnow : i = s.accepted.length % n := by rw [← hturn, h.turn]
  refine ⟨fun w => enqueue_exact h.worker _ w _, ?_, ?_, ?_⟩
  · show (if index = n then 0 else index) = (s.accepted ++ [connfd]).length % n
    rw [List.length_append, List.length_singleton, ← Nat.mod_add_mod, ← hnow, ← hindex]
    split_ifs with hlast
    · rw [hlast, Nat.mod_self]
    · rw [Nat.mod_eq_of_lt (by omega)]
  · intro w
    show ((s.enqueue ⟨i, hi⟩ (.newConn connfd)).workers w).queue.sent.filterMap TaskMsg.conn? = _
    rw [enqueue_sent, List.filterMap_append, h.conns, share_snoc]
    by_cases hw : w = ⟨i, hi⟩
    · have hmod : s.accepted.length % n = w := by rw [hw, ← hnow]
      simp [hw, hnow, TaskMsg.conn?]
    · have hmod : ¬ s.accepted.length % n = w := by
        intro heq
        exact hw (Fin.ext (by rw [← heq, ← hnow]))
      simp [hw, hmod]
  · intro w task
    show List.count task
      (((s.enqueue ⟨i, hi⟩ (.newConn connfd)).workers w).queue.sent.filterMap TaskMsg.task?) = _
    rw [enqueue_sent, List.filterMap_append, List.count_append, h.tasks]
    show callCount s.calls w task + _ = callCount s.calls w task
    -- a connection is no task, whichever queue it goes to
    split_ifs <;> simp [List.filterMap_cons, TaskMsg.task?]

theorem Exact.sendNext {s : Pool n φ} (h : s.Exact) {call i : Nat} {func : φ}
    (hcall : s.calls[call]? = some (func, i)) (hi : i < n) :
    Exact { s.enqueue ⟨i, hi⟩ (.newTask call func) with
      calls := s.calls.set call (func, i + 1) } := by
  refine ⟨fun w => enqueue_exact h.worker _ w _, h.turn, ?_, ?_⟩
  · intro w
    show ((s.enqueue ⟨i, hi⟩ (.newTask call func)).workers w).queue.sent.filterMap
      TaskMsg.conn? = share n w s.accepted
    rw [enqueue_sent, List.filterMap_append, h.conns]
    split_ifs <;> simp [List.filterMap_cons, TaskMsg.conn?]
  · intro w task
    show List.count task (((s.enqueue ⟨i, hi⟩ (.newTask call func)).workers w).queue.sent.filterMap
      TaskMsg.task?) = _
    rw [enqueue_sent, List.filterMap_append, List.count_append, h.tasks, callCount_next hcall]
    congr 1
    by_cases hw : w = ⟨i, hi⟩
    · have hval : (w : Nat) = i := by rw [hw]
      by_cases htask : task = (call, func)
      · simp [hw, htask, TaskMsg.task?]
      · have hne : ¬ (call, func) = task := fun heq => htask heq.symm
        simp [hw, htask, hne, TaskMsg.task?]
    · have hval : ¬ (w : Nat) = i := fun heq => hw (Fin.ext heq)
      simp [hw, hval]

omit [DecidableEq φ] in
/-- A worker does not change what was sent to it. -/
theorem worker_step_sent {worker worker' : PoolWorker φ} {a : WorkerAct}
    (hstep : worker.step a = some worker') : worker'.queue.sent = worker.queue.sent := by
  unfold PoolWorker.step at hstep
  split at hstep
  · cases hstep
    rfl
  · split_ifs at hstep
    cases hstep
    rfl
  · cases hstep
    rfl
  · split at hstep <;> cases hstep <;> rfl
  · split at hstep <;> cases hstep <;> rfl
  · cases hstep

theorem step_exact {s t : Pool n φ} {a : Act n φ} (h : s.Exact) (hstep : s.step a = some t) :
    t.Exact := by
  cases a with
  | accept connfd =>
      simp only [step] at hstep
      split_ifs at hstep with hi
      cases hstep
      exact h.accept rfl hi
  | sendTask func =>
      cases hstep
      refine ⟨h.worker, h.turn, h.conns, ?_⟩
      intro w task
      rw [callCount_begin]
      exact h.tasks w task
  | sendNext call =>
      simp only [step] at hstep
      split at hstep
      · next func i hcall =>
          split_ifs at hstep with hi
          cases hstep
          exact h.sendNext hcall hi
      · cases hstep
  | worker w a =>
      rcases Option.map_eq_some_iff.1 hstep with ⟨worker', hworker, rfl⟩
      have hsent : ∀ w', ((s.setWorker w worker').workers w').queue.sent =
          (s.workers w').queue.sent := by
        intro w'
        rw [setWorker_workers]
        split_ifs with hw
        · rw [hw, worker_step_sent hworker]
        · rfl
      refine ⟨?_, h.turn, ?_, ?_⟩
      · intro w'
        rw [setWorker_workers]
        split_ifs
        · exact (h.worker w).step hworker
        · exact h.worker w'
      · intro w'
        rw [hsent]
        exact h.conns w'
      · intro w' task
        rw [hsent]
        exact h.tasks w' task

omit [DecidableEq φ] in
/-- The steps of one worker, taken within the pool. -/
theorem run_worker {s : Pool n φ} {w : Fin n} {acts : List WorkerAct} {worker' : PoolWorker φ}
    (hrun : run PoolWorker.step (s.workers w) acts = some worker') :
    run step s (acts.map (.worker w)) = some (s.setWorker w worker') := by
  induction acts generalizing s with
  | nil =>
      cases hrun
      simp [run, setWorker]
  | cons a acts ih =>
      rcases run_cons.1 hrun with ⟨worker₁, hstep, hrest⟩
      refine run_cons.2 ⟨s.setWorker w worker₁, by simp [step, hstep], ?_⟩
      have hself : (s.setWorker w worker₁).workers w = worker₁ := by simp [setWorker]
      rw [ih (by rw [hself]; exact hrest)]
      simp [setWorker]

/-- Whatever the order of the critical sections of a queue: what was received, followed by what is
in the queue, is what was sent, in the order of the mutex, and the counter of the `eventfd` is the
number of items waiting.  So it is for the queue of every worker in every state of every run of a
pool, registered or not.  The worker's share of the connections is every `n`-th one, and each
`send_task` that has come past it has sent it one task.  What it has received is done, in order and
once, except for what is still in its hands; and left to itself it comes to have made exactly the
connections and run exactly the tasks that were sent to it. -/
theorem pool_delivers {τ : Type} (ops : List (ThreadQueue.Act τ)) (acts : List (Act n φ))
    (s : Pool n φ) (hrun : run step (init n φ) acts = some s) (w : Fin n) :
    ((ops.foldl ThreadQueue.step .new).received ++ (ops.foldl ThreadQueue.step .new).queue =
        (ops.foldl ThreadQueue.step .new).sent ∧
      (ops.foldl ThreadQueue.step .new).evfd = (ops.foldl ThreadQueue.step .new).queue.length ∧
      ((ops.foldl ThreadQueue.step .new).Readable ↔
        (ops.foldl ThreadQueue.step .new).queue ≠ [])) ∧
    ((s.workers w).queue.received ++ (s.workers w).queue.queue = (s.workers w).queue.sent ∧
      (s.workers w).queue.evfd = (s.workers w).queue.queue.length ∧
      ((s.workers w).queue.Readable ↔ (s.workers w).queue.queue ≠ [])) ∧
    ((s.workers w).queue.sent.filterMap TaskMsg.conn? = share n w s.accepted ∧
      ∀ task, ((s.workers w).queue.sent.filterMap TaskMsg.task?).count task =
        callCount s.calls w task) ∧
    ((s.workers w).queue.received.filterMap TaskMsg.conn? =
        (s.workers w).created ++ (s.workers w).tasks.filterMap TaskMsg.conn? ∧
      (s.workers w).queue.received.filterMap TaskMsg.task? =
        (s.workers w).ran ++ (s.workers w).ready ++
          (s.workers w).tasks.filterMap TaskMsg.task?) ∧
    ∃ (own : List WorkerAct) (t : Pool n φ), run step s (own.map (.worker w)) = some t ∧
      (t.workers w).queue.sent = (s.workers w).queue.sent ∧
      (t.workers w).created = (s.workers w).queue.sent.filterMap TaskMsg.conn? ∧
      (t.workers w).ran = (s.workers w).queue.sent.filterMap TaskMsg.task? := by
  have h : s.Exact := run_invariant_always (fun _ _ _ => step_exact) init_exact hrun
  have hw := h.worker w
  have hq := ThreadQueue.foldl_exact (ThreadQueue.new_exact (τ := τ)) ops
  refine ⟨⟨hq.items, hq.counter, hq.readable_iff⟩,
    ⟨hw.queue.items, hw.queue.counter, hw.queue.readable_iff⟩, ⟨h.conns w, h.tasks w⟩,
    ⟨hw.conns, hw.tasks⟩, ?_⟩
  -- the worker alone empties its queue, and with an empty queue it has done everything
  rcases hw.run_drain with ⟨own, worker', hown, hpc, hnone, hsent⟩
  have hdone : worker'.Exact :=
    run_invariant_always (I := PoolWorker.Exact) (fun _ _ _ hold => hold.step) hw hown
  rcases hdone.all_done hpc hnone with ⟨hcreated, hran⟩
  have hself : (s.setWorker w worker').workers w = worker' := by simp [setWorker]
  refine ⟨own, s.setWorker w worker', run_worker hown, ?_, ?_, ?_⟩
  · rw [hself, hsent]
  · rw [hself, hcreated, hsent]
  · rw [hself, hran, hsent]

/-- Two connections and one task for two workers, the second of which starts late. -/
def lateStart : List (Act 2 String) :=
  let first : Fin 2 := ⟨0, Nat.zero_lt_two⟩
  let second : Fin 2 := ⟨1, Nat.one_lt_two⟩
  [.accept 7, .worker first .register, .sendTask "push", .sendNext 0, .worker first .wake,
    .accept 8, .worker first .deal, .sendNext 0, .worker second .register, .worker second .wake]

theorem pool_delivers_lateStart :
    ∃ s t, run step (init 2 String) lateStart = some s ∧
      (s.workers 1).queue.received = [.newConn 8, .newTask 0 "push"] ∧
      ∃ own : List WorkerAct, run step s (own.map (.worker 1)) = some t ∧
        (t.workers 1).created = [8] ∧ (t.workers 1).ran = [(0, "push")] := by
  have hcheck : (run step (init 2 String) lateStart).map (fun s =>
      ((s.workers 1).queue.received, (s.workers 1).queue.sent)) =
      some ([.newConn 8, .newTask 0 "push"], [.newConn 8, .newTask 0 "push"]) := by
    decide
  rcases Option.map_eq_some_iff.1 hcheck with ⟨s, hrun, hs⟩
  rw [Prod.mk.injEq] at hs
  rcases pool_delivers ([] : List (ThreadQueue.Act Nat)) lateStart s hrun 1 with
    ⟨_, _, _, _, own, t, hown, _, hcreated, hran⟩
  rw [hs.2] at hcreated hran
  exact ⟨s, t, hrun, hs.1, own, hown, hcreated, hran⟩

end Calls

end Pool
end Reactor
end Rins
