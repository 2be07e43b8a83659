import Rins.Reactor.ConnTable

/-!
# AcceptLoop — does `do_accept` come back?

`tcp_server::do_accept` calls `accept` until it has a descriptor or there is none to be had.  Any
other error only makes it try again.  An error that lasts until the process closes a descriptor,
such as `EMFILE`, keeps the thread in the loop, and this is the thread that would go on to serve and
close connections.
-/

namespace Rins
namespace Reactor

/-- What `accept` returns, or sets `errno` to.  With a descriptor comes the number that
`get_conn_num` finds afterwards, which the other threads decide about. -/
inductive SysAccept
  | conn (connfd curConns : Int)
  | eintr
  | emfile
  | eagain
  | other
  deriving DecidableEq, Repr

/-- How `do_accept` has ended. -/
inductive AcceptEnd
  /-- `EAGAIN` -/
  | nobody
  /-- there are too many connections: the descriptor is closed again -/
  | refused (connfd : Int)
  /-- a `NEW_CONN` task is sent to the queue of a worker -/
  | queued (connfd : Int) (worker : Nat)
  /-- there is no pool: the connection is made here -/
  | constructed (connfd : Int)
  deriving DecidableEq, Repr

/-- `tcp_server`, as far as `do_accept` reads it: the limit, and the number of workers with `_index`
of the pool, if there is one. -/
structure Acceptor where
  maxConns : Int
  threadPool : Option (Nat × Nat)
  deriving DecidableEq, Repr

namespace Acceptor

/-- `tcp_server::do_accept`. -/
def doAccept (s : Acceptor) : List SysAccept → Except Fault (Acceptor × AcceptEnd)
  | [] => .error .unfinished
  | .eintr :: answers => doAccept s answers
  | .emfile :: answers => doAccept s answers
  | .eagain :: _ => .ok (s, .nobody)
  | .other :: answers => doAccept s answers
  | .conn connfd curConns :: _ =>
      if curConns ≥ s.maxConns then
        .ok (s, .refused connfd)
      else
        match s.threadPool with
        | some (threads, index) =>
            let (worker, index) := Pool.getThread threads index
            .ok ({ s with threadPool := some (threads, index) }, .queued connfd worker)
        | none => .ok (s, .constructed connfd)

/-! ## One call of `accept` -/

/-- The outcomes that leave the loop. -/
def Leaves : SysAccept → Prop
  | .conn _ _ => True
  | .eagain => True
  | _ => False

theorem doAccept_of_leaves (s : Acceptor) {answer : SysAccept} (h : Leaves answer)
    (answers : List SysAccept) : ∃ out, s.doAccept (answer :: answers) = .ok out := by
  cases answer with
  | conn connfd curConns =>
      simp only [doAccept]
      split_ifs
      · exact ⟨_, rfl⟩
      · cases s.threadPool with
        | none => exact ⟨_, rfl⟩
        | some pool => exact ⟨_, rfl⟩
  | eagain => exact ⟨_, rfl⟩
  | eintr => cases h
  | emfile => cases h
  | other => cases h

theorem doAccept_of_not_leaves (s : Acceptor) {answer : SysAccept} (h : ¬ Leaves answer)
    (answers : List SysAccept) : s.doAccept (answer :: answers) = s.doAccept answers := by
  cases answer with
  | conn connfd curConns => exact absurd trivial h
  | eagain => exact absurd trivial h
  | eintr => rfl
  | emfile => rfl
  | other => rfl

/-! ## Runs -/

/-- The loop is left at the first outcome that leaves it, and at no other. -/
theorem doAccept_returns_iff (s : Acceptor) (answers : List SysAccept) :
    (∃ out, s.doAccept answers = .ok out) ↔ ∃ answer ∈ answers, Leaves answer := by
  induction answers with
  | nil => simp [doAccept]
  | cons answer answers ih =>
      by_cases hleaves : Leaves answer
      · exact iff_of_true (s.doAccept_of_leaves hleaves answers) ⟨answer, by simp, hleaves⟩
      · rw [s.doAccept_of_not_leaves hleaves answers, ih]
        simp [hleaves]

/-- `do_accept` returns after finitely many calls of `accept`, whose outcomes are given. -/
def Returns (s : Acceptor) (outcomes : ℕ → SysAccept) : Prop :=
  ∃ k out, s.doAccept ((List.range k).map outcomes) = .ok out

/-- `do_accept` returns when some `accept` yields a descriptor or `EAGAIN`, and then only. -/
theorem returns_iff (s : Acceptor) (outcomes : ℕ → SysAccept) :
    s.Returns outcomes ↔ ∃ i, Leaves (outcomes i) := by
  unfold Returns
  simp only [doAccept_returns_iff, List.mem_map, List.mem_range]
  constructor
  · rintro ⟨k, _, ⟨i, _, rfl⟩, hleaves⟩
    exact ⟨i, hleaves⟩
  · rintro ⟨i, hleaves⟩
    exact ⟨i + 1, outcomes i, ⟨i, Nat.lt_succ_self i, rfl⟩, hleaves⟩

/-- No descriptor is left, and nobody closes one: this thread never returns from `do_accept`, though
it is not interrupted once. -/
theorem not_returns_emfile :
    (∀ k, ∃ i, k ≤ i ∧ (fun _ => SysAccept.emfile : ℕ → SysAccept) i ≠ .eintr) ∧
      ¬ ({ maxConns := 1024, threadPool := some (3, 0) } : Acceptor).Returns fun _ => .emfile := by
  refine ⟨fun k => ⟨k, le_refl k, nofun⟩, ?_⟩
  rintro ⟨k, out, hout⟩
  rcases (doAccept_returns_iff _ _).1 ⟨out, hout⟩ with ⟨answer, hanswer, hleaves⟩
  rcases List.mem_map.1 hanswer with ⟨i, _, rfl⟩
  exact hleaves

end Acceptor

/-! ## The steps of the server -/

namespace TcpServer

variable {n : Nat}

/-- What `do_accept` reads of the server. -/
def acceptor (t : TcpServer n) : Acceptor :=
  { maxConns := t.maxConns
    threadPool := if 0 < n then some (n, t.index) else none }

/-- What the end of `do_accept` is to the server. -/
def EndsWith (t t' : TcpServer n) : AcceptEnd → Prop
  | .nobody => t' = t
  | .refused connfd => t'.openFds = t.openFds.erase connfd ∧ t'.pcs .main = .idle
  | .queued connfd worker => ∃ h : worker < n,
      t'.queues ⟨worker, h⟩ = t.queues ⟨worker, h⟩ ++ [connfd] ∧ t'.pcs .main = .idle
  | .constructed connfd => ∃ c, t'.objs[c]? = some ⟨connfd, .main, false, 0⟩ ∧
      t'.pcs .main = .conn c .register

theorem getThread_lt {index : Nat} (hpool : 0 < n) (hindex : index ≤ n) :
    (Pool.getThread n index).1 < n := by
  simp only [Pool.getThread]
  split_ifs with hend
  · exact hpool
  · omega

/-- The steps of the server behind an `accept` are the rest of `do_accept`. -/
theorem step_handOver_doAccept {t : TcpServer n} {connfd curConns : Int}
    (hpc : t.pcs .main = .counted connfd curConns) (hindex : t.index ≤ n) :
    ∃ t' out, t.step .handOver = some t' ∧
      t.acceptor.doAccept [.conn connfd curConns] = .ok out ∧ t'.acceptor = out.1 ∧
      t.EndsWith t' out.2 := by
  simp only [step, hpc, Acceptor.doAccept, acceptor]
  by_cases hfull : curConns ≥ t.maxConns
  · simp only [hfull, if_true]
    refine ⟨_, (_, .refused connfd), rfl, rfl, rfl, rfl, ?_⟩
    simp [setPc]
  · simp only [hfull, if_false]
    by_cases hpool : 0 < n
    · have hlt := getThread_lt hpool hindex
      simp only [if_pos hpool, dif_pos hlt]
      refine ⟨_, (_, .queued connfd (Pool.getThread n t.index).1), rfl, rfl, rfl, hlt, ?_, ?_⟩
      · simp [setPc]
      · simp [setPc]
    · simp only [if_neg hpool]
      refine ⟨_, (_, .constructed connfd), rfl, rfl, rfl, t.objs.length, ?_, ?_⟩
      · simp [newConn]
      · simp [newConn]

end TcpServer
end Reactor
end Rins
