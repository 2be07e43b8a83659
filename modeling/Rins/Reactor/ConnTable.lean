import Rins.Reactor.EventLoop
import Rins.Reactor.ThreadPool

/-!
# ConnTable — `tcp_server::conns` under the accept thread and the workers

The accept thread takes descriptors from the kernel and hands them over to the workers, each of
which makes the `tcp_conn`s for its descriptors, runs their events and cleans them up.  The table
`conns` and its counter are shared; everything else about a connection belongs to the thread whose
loop it is on.

A step is one effect on what the threads share, or on the loop of a thread.  Of `do_read` and
`do_write` only the effects are kept: `doRead_effects` and `doWrite_effects` say that these are the
ones an event has here.  The sockets and `eventfd`s that are not connections are not in the loops:
`accept` and `take` are their callbacks.
-/

namespace Rins
namespace Reactor

open Lib

/-! ## What an event on a connection does to the server -/

/-- The effects of `clean_conn`, in order. -/
def cleanEffects (fd : Int) : List ConnEffect :=
  [.connCloseCb, .decreaseConn fd, .delIoEvent fd, .close fd]

/-- How `do_read` or `do_write` comes to its end. -/
inductive EventEnd
  | returned
  /-- `do_write` has emptied the output buffer -/
  | drained
  | cleaned
  deriving DecidableEq, Repr

def EventEnd.effects (fd : Int) : EventEnd → List ConnEffect
  | returned => []
  | drained => [.delIoEventMask fd .epollout]
  | cleaned => cleanEffects fd

/-- The effects of an event in which the write event was armed so many times. -/
def eventEffects (fd : Int) (sends : Nat) (fin : EventEnd) : List ConnEffect :=
  List.replicate sends (.addIoEvent fd .epollout) ++ fin.effects fd

namespace TcpConn

/-- The callbacks send on the connection they are called with, and on no other. -/
def SendsOn (fd : Int) (cb : MsgCallback) : Prop :=
  ∀ m p obuf r, cb m p obuf = .ok r →
    ∃ sends, r.2.2 = List.replicate sends (.addIoEvent fd .epollout)

/-- What `send_message` does to the rest of the server: a callback that does nothing but send on
its connection is one that `SendsOn` it. -/
theorem sendMessage_effects {p : BufPool} {conn : TcpConn} {data : List UInt8}
    {msglen msgid : Int32} {ret : Int} {out : Outcome}
    (h : sendMessage p conn data msglen msgid = .ok (ret, out)) :
    ∃ sends, out.effects = List.replicate sends (.addIoEvent conn.connfd .epollout) := by
  unfold sendMessage at h
  rcases bind_eq_ok.1 h with ⟨⟨ret₁, p₁, obuf₁⟩, _, h⟩
  dsimp only at h
  split at h
  · cases h
    exact ⟨0, rfl⟩
  · rcases bind_eq_ok.1 h with ⟨⟨ret₂, p₂, obuf₂⟩, _, h⟩
    dsimp only at h
    split at h
    · rcases bind_eq_ok.1 h with ⟨⟨p₃, obuf₃⟩, _, h⟩
      cases h
      exact ⟨0, rfl⟩
    · cases h
      -- the write event is armed by the first message in an empty buffer
      by_cases hempty : conn.obuf.length = 0
      · exact ⟨1, by simp [hempty]⟩
      · exact ⟨0, by simp [hempty]⟩

theorem cleanConn_effects {p : BufPool} {conn : TcpConn} {out : Outcome}
    (h : cleanConn p conn = .ok out) : out.effects = cleanEffects conn.connfd := by
  unfold cleanConn at h
  rcases bind_eq_ok.1 h with ⟨⟨p₁, ibuf⟩, _, h⟩
  rcases bind_eq_ok.1 h with ⟨⟨p₂, obuf⟩, _, h⟩
  cases h
  rfl

theorem parseLoop_effects {cb : MsgCallback} {fd : Int} (hcb : SendsOn fd cb) {rounds : Nat} :
    ∀ {p : BufPool} {conn : TcpConn} {out : ReadOutcome},
      parseLoop cb rounds p conn = .ok out → conn.connfd = fd →
      ∃ sends fin, out.effects = eventEffects fd sends fin := by
  induction rounds with
  | zero =>
      intro p conn out h
      cases h
  | succ rounds ih =>
      intro p conn out h hfd
      unfold parseLoop at h
      split_ifs at h
      · rcases bind_eq_ok.1 h with ⟨bytes, _, h⟩
        dsimp only at h
        split_ifs at h
        · -- a length that cannot be: the connection is closed and the loop left
          rcases bind_eq_ok.1 h with ⟨cleaned, hclean, h⟩
          cases h
          exact ⟨0, .cleaned, (cleanConn_effects hclean).trans (by rw [hfd]; rfl)⟩
        · -- the body is not there yet
          cases h
          exact ⟨0, .returned, rfl⟩
        · rcases bind_eq_ok.1 h with ⟨⟨p₁, ibuf₁⟩, _, h⟩
          rcases bind_eq_ok.1 h with ⟨body, _, h⟩
          rcases bind_eq_ok.1 h with ⟨⟨p₂, obuf, called⟩, hcall, h⟩
          rcases bind_eq_ok.1 h with ⟨⟨p₃, ibuf₂⟩, _, h⟩
          rcases bind_eq_ok.1 h with ⟨rest, hrest, h⟩
          cases h
          -- what the callback did comes before what the rest of the loop does
          rcases hcb _ _ _ _ hcall with ⟨sends, hcalled⟩
          rcases ih hrest hfd with ⟨sends', fin, hrest⟩
          refine ⟨sends + sends', fin, ?_⟩
          simp only at hcalled
          show called ++ rest.effects = _
          rw [hcalled, hrest, eventEffects, eventEffects, List.replicate_add, List.append_assoc]
      · cases h
        exact ⟨0, .returned, rfl⟩

/-- What `do_read` does to the rest of the server. -/
theorem doRead_effects {cb : MsgCallback} {p : BufPool} {conn : TcpConn} {sock : Socket}
    {out : ReadOutcome} (hcb : SendsOn conn.connfd cb) (h : doRead cb p conn sock = .ok out) :
    ∃ sends fin, out.effects = eventEffects conn.connfd sends fin := by
  unfold doRead at h
  rcases bind_eq_ok.1 h with ⟨⟨ret, p₁, ibuf⟩, _, h⟩
  dsimp only at h
  split_ifs at h
  · rcases bind_eq_ok.1 h with ⟨cleaned, hclean, h⟩
    have heffects := cleanConn_effects hclean
    cases h
    exact ⟨0, .cleaned, heffects⟩
  · rcases bind_eq_ok.1 h with ⟨cleaned, hclean, h⟩
    have heffects := cleanConn_effects hclean
    cases h
    exact ⟨0, .cleaned, heffects⟩
  · rcases bind_eq_ok.1 h with ⟨parsed, hparse, h⟩
    rcases bind_eq_ok.1 h with ⟨adjusted, _, h⟩
    have heffects := parseLoop_effects hcb hparse rfl
    cases h
    exact heffects

theorem writeLoop_effects {p : BufPool} {fd : Int} {results : List SysWrite} :
    ∀ {conn : TcpConn} {out : WriteOutcome},
      writeLoop p conn results = .ok out → conn.connfd = fd →
      (out.cleaned = false ∧ out.conn.connfd = fd ∧ out.effects = []) ∨
        (out.cleaned = true ∧ out.effects = cleanEffects fd) := by
  induction results with
  | nil =>
      intro conn out h hfd
      unfold writeLoop at h
      split_ifs at h
      cases h
      exact Or.inl ⟨rfl, hfd, rfl⟩
  | cons res results ih =>
      intro conn out h hfd
      unfold writeLoop at h
      split_ifs at h
      · rcases bind_eq_ok.1 h with ⟨⟨ret, obuf, taken⟩, _, h⟩
        dsimp only at h
        split_ifs at h
        · -- the write fails: `do_write` returns from inside its loop
          rcases bind_eq_ok.1 h with ⟨cleaned, hclean, h⟩
          have heffects := cleanConn_effects hclean
          unfold cleanConn at hclean
          rcases bind_eq_ok.1 hclean with ⟨⟨p₁, ibuf⟩, _, hclean⟩
          rcases bind_eq_ok.1 hclean with ⟨⟨p₂, obuf'⟩, _, hclean⟩
          cases hclean
          cases h
          exact Or.inr ⟨rfl, by rw [← hfd]; exact heffects⟩
        · cases h
          exact Or.inl ⟨rfl, hfd, rfl⟩
        · rcases bind_eq_ok.1 h with ⟨rest, hrest, h⟩
          have heffects := ih hrest hfd
          cases h
          exact heffects
      · cases h
        exact Or.inl ⟨rfl, hfd, rfl⟩

/-- What `do_write` does to the rest of the server. -/
theorem doWrite_effects {p : BufPool} {conn : TcpConn} {results : List SysWrite}
    {out : WriteOutcome} (h : doWrite p conn results = .ok out) :
    ∃ fin, out.effects = eventEffects conn.connfd 0 fin := by
  unfold doWrite at h
  rcases bind_eq_ok.1 h with ⟨written, hwrite, h⟩
  rcases writeLoop_effects hwrite rfl with ⟨hclean, hfd, heffects⟩ | ⟨hclean, heffects⟩
  · split_ifs at h
    · cases h
      exact ⟨.drained, by simp [eventEffects, EventEnd.effects, heffects, hfd]⟩
    · cases h
      exact ⟨.returned, heffects⟩
  · simp only [hclean, Bool.true_eq_false, false_and, if_false] at h
    cases h
    exact ⟨.cleaned, heffects⟩

end TcpConn

/-! ## The server -/

/-- The thread of `do_accept`, and `n` workers. -/
inductive Thread (n : Nat)
  | main
  | worker (i : Fin n)
  deriving DecidableEq

/-- An entry of `tcp_server::conns`; `new tcp_conn *[]` does not initialise it. -/
inductive ConnSlot
  | uninitialised
  | null
  | conn (c : Nat)
  deriving DecidableEq

/-- A `tcp_conn`, as far as other connections can see it.  No `tcp_conn` is ever deleted, so its
place in the list of all of them serves as its address. -/
structure ConnObj (n : Nat) where
  connfd : Int
  loop : Thread n
  /-- history: `increase_conn` was called for it, and `decrease_conn` was not -/
  listed : Bool
  /-- history: the number of times that `clean_conn` was called -/
  cleans : Nat

/-- Where a thread is in a method of a `tcp_conn`. -/
inductive ConnMethod
  /-- the constructor, before `add_io_event` -/
  | register
  /-- the constructor, in `conn_start_cb` -/
  | connStart
  /-- the constructor, before `increase_conn` -/
  | increase
  /-- `do_read` or `do_write`, with what is left to do -/
  | event (effects : List ConnEffect)
  /-- `clean_conn`, with what is left to do -/
  | clean (effects : List ConnEffect)
  deriving DecidableEq

inductive ThreadPc
  | idle
  /-- `do_accept`, after `accept` -/
  | accepted (connfd : Int)
  /-- `do_accept`, after `get_conn_num` -/
  | counted (connfd : Int) (curConns : Int)
  | conn (c : Nat) (m : ConnMethod)
  deriving DecidableEq

/-- A constructor or `clean_conn` is in progress. -/
def ThreadPc.InProgress : ThreadPc → Prop
  | conn _ (.event _) => False
  | conn _ _ => True
  | _ => False

structure TcpServer (n : Nat) where
  maxConns : Int
  curConns : Int
  conns : Int → ConnSlot
  objs : List (ConnObj n)
  loops : Thread n → EventLoop Nat
  pcs : Thread n → ThreadPc
  /-- the `NEW_CONN` tasks on their way to each worker -/
  queues : Fin n → List Int
  /-- `_index` of the pool -/
  index : Nat
  /-- the kernel's side: the descriptors of the process -/
  openFds : Finset Int

namespace TcpServer

variable {n : Nat}

/-- At the start the process has some descriptors, none of them for a connection. -/
def init (n : Nat) (maxConns : Int) (base : Finset Int) : TcpServer n :=
  { maxConns := maxConns
    curConns := 0
    conns := fun _ => .uninitialised
    objs := []
    loops := fun _ => .new
    pcs := fun _ => .idle
    queues := fun _ => []
    index := 0
    openFds := base }

inductive Act (n : Nat)
  /-- `accept` returns a descriptor -/
  | accept (connfd : Int)
  /-- `do_accept` calls `get_conn_num` -/
  | getConnNum
  /-- the rest of `do_accept` -/
  | handOver
  /-- the next round of the loop in `deal_task_message`, for a `NEW_CONN` -/
  | take (i : Fin n)
  /-- the next effect of the method that the thread is in -/
  | next (w : Thread n) (ctl : Bool)
  /-- `conn_start_cb` or `conn_close_cb` sends on its connection, which arms the write event -/
  | send (w : Thread n) (ctl : Bool)
  /-- `event_process` takes up a fired event; `sends` and `fin` are what the handler comes to do -/
  | fire (w : Thread n) (fd : Int) (fired : FiredEvents) (sends : Nat) (fin : EventEnd)
  /-- a task sends on `conns[fd]`, for a descriptor of its own loop, as `push_change_task` does -/
  | push (w : Thread n) (fd : Int) (ctl : Bool)

def setPc (s : TcpServer n) (w : Thread n) (pc : ThreadPc) : TcpServer n :=
  { s with pcs := Function.update s.pcs w pc }

def setObj (s : TcpServer n) (c : Nat) (obj : ConnObj n) : TcpServer n :=
  { s with objs := s.objs.set c obj }

def onLoop (s : TcpServer n) (w : Thread n) (f : EventLoop Nat → EventLoop Nat) : TcpServer n :=
  { s with loops := Function.update s.loops w (f (s.loops w)) }

/-- `new tcp_conn(connfd, loop)`, as far as the first effect. -/
def newConn (s : TcpServer n) (w : Thread n) (connfd : Int) : TcpServer n :=
  { s with
    objs := s.objs ++ [{ connfd := connfd, loop := w, listed := false, cleans := 0 }]
    pcs := Function.update s.pcs w (.conn s.objs.length .register) }

/-- `tcp_server::increase_conn`. -/
def increaseConn (s : TcpServer n) (connfd : Int) (c : Nat) : TcpServer n :=
  { s with
    conns := Function.update s.conns connfd (.conn c)
    curConns := s.curConns + 1 }

/-- `tcp_server::decrease_conn`. -/
def decreaseConn (s : TcpServer n) (connfd : Int) : TcpServer n :=
  { s with
    conns := Function.update s.conns connfd .null
    curConns := s.curConns - 1 }

/-- The next effect of a method of the connection `c`, on the thread `w`. -/
def methodStep (s : TcpServer n) (w : Thread n) (c : Nat) (obj : ConnObj n) (ctl : Bool) :
    ConnMethod → Option (TcpServer n)
  | .register =>
      some ((s.onLoop obj.loop (·.addIoEvent obj.connfd c .epollin ctl)).setPc w
        (.conn c .connStart))
  | .connStart => some (s.setPc w (.conn c .increase))
  | .increase =>
      some (((s.increaseConn obj.connfd c).setObj c { obj with listed := true }).setPc w .idle)
  | .event [] => some (s.setPc w .idle)
  | .event (.addIoEvent fd mask :: effects) =>
      some ((s.onLoop obj.loop (·.addIoEvent fd c mask ctl)).setPc w (.conn c (.event effects)))
  | .event (.delIoEventMask fd mask :: effects) =>
      some ((s.onLoop obj.loop (·.delIoEventMask fd mask)).setPc w (.conn c (.event effects)))
  | .event (.connCloseCb :: effects) =>
      -- `clean_conn` is called
      some ((s.setObj c { obj with cleans := obj.cleans + 1 }).setPc w
        (.conn c (.clean (.connCloseCb :: effects))))
  | .clean (.connCloseCb :: effects) => some (s.setPc w (.conn c (.clean effects)))
  | .clean (.decreaseConn fd :: effects) =>
      some (((s.decreaseConn fd).setObj c { obj with listed := false }).setPc w
        (.conn c (.clean effects)))
  | .clean (.delIoEvent fd :: effects) =>
      some ((s.onLoop obj.loop (·.delIoEvent fd)).setPc w (.conn c (.clean effects)))
  | .clean (.close fd :: effects) =>
      some ((({ s with openFds := s.openFds.erase fd }).setObj c { obj with connfd := -1 }).setPc w
        (.conn c (.clean effects)))
  | .clean [] => some (s.setPc w .idle)
  | _ => none

/-- The connection in whose `conn_start_cb` or `conn_close_cb` a thread is. -/
def inCallback : ThreadPc → Option Nat
  | .conn c .connStart => some c
  | .conn c (.clean (.connCloseCb :: _)) => some c
  | _ => none

/-- `send_message` arms the write event on the connection `c`. -/
def armWrite (s : TcpServer n) (c : Nat) (ctl : Bool) : Option (TcpServer n) :=
  (s.objs[c]?).map fun obj => s.onLoop obj.loop (·.addIoEvent obj.connfd c .epollout ctl)

def step (s : TcpServer n) : Act n → Option (TcpServer n)
  | .accept connfd =>
      -- the kernel hands out a number that is not in use, and the table has a place for it
      if s.pcs .main = .idle ∧ connfd ∉ s.openFds ∧ 0 ≤ connfd ∧ connfd < s.maxConns + 3 then
        some ({ s with openFds := insert connfd s.openFds }.setPc .main (.accepted connfd))
      else
        none
  | .getConnNum =>
      match s.pcs .main with
      | .accepted connfd => some (s.setPc .main (.counted connfd s.curConns))
      | _ => none
  | .handOver =>
      match s.pcs .main with
      | .counted connfd curConns =>
          -- the number may be out of date: workers close and open connections meanwhile
          if curConns ≥ s.maxConns then
            some ({ s with openFds := s.openFds.erase connfd }.setPc .main .idle)
          else if 0 < n then
            let (i, index) := Pool.getThread n s.index
            if h : i < n then
              some ({ s with
                queues := Function.update s.queues ⟨i, h⟩ (s.queues ⟨i, h⟩ ++ [connfd])
                index := index }.setPc .main .idle)
            else
              none
          else
            -- there is no pool
            some (s.newConn .main connfd)
      | _ => none
  | .take i =>
      match s.pcs (.worker i), s.queues i with
      | .idle, connfd :: queue =>
          some ({ s with queues := Function.update s.queues i queue }.newConn (.worker i) connfd)
      | _, _ => none
  | .next w ctl =>
      match s.pcs w with
      | .conn c m => (s.objs[c]?).bind fun obj => s.methodStep w c obj ctl m
      | _ => none
  | .send w ctl => (inCallback (s.pcs w)).bind fun c => s.armWrite c ctl
  | .fire w fd fired sends fin =>
      if s.pcs w = .idle then
        match (s.loops w).dispatch fd fired with
        | none => none
        | some (.readCallback c) | some (.writeCallback c) =>
            (s.objs[c]?).map fun obj =>
              s.setPc w (.conn c (.event (eventEffects obj.connfd sends fin)))
        | some .delIoEvent => some (s.onLoop w (·.delIoEvent fd))
        | some .nothing => some s
      else
        none
  | .push w fd ctl =>
      if s.pcs w = .idle ∧ fd ∈ (s.loops w).listenFds then
        -- the entry is read without the mutex
        match s.conns fd with
        | .conn c => s.armWrite c ctl
        | .null => some s
        | .uninitialised => none
      else
        none

end TcpServer
end Reactor
end Rins
