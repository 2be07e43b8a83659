import Rins.Lib.Run
import Rins.Reactor.ByteConn
import Rins.Reactor.LoopBooks

/-!
# WriteInterest — the write event of a connection and what it has left to write

A `tcp_conn` arms `EPOLLOUT` when it puts a first message into an empty output buffer, and disarms
it when `do_write` has emptied the buffer.  A message whose body cannot be buffered touches the
buffer and not the event.

The methods may be called in any order, also on a connection that is closed: its descriptor is -1
then, and what is registered for -1 follows the buffer all the same.  `epoll_ctl` succeeds.

The machine has its buffers in lists; at the end it follows every run of the methods of `TcpConn`.
-/

namespace Rins
namespace Reactor

open Lib

/-! ## The machine -/

/-- The callbacks that a `tcp_conn` registers. -/
inductive ConnProc
  | connRdCallback
  | connWtCallback
  deriving DecidableEq, Repr

/-- The callback that comes with an event. -/
def ConnProc.of : EpollMask → ConnProc
  | .epollin => .connRdCallback
  | .epollout => .connWtCallback

def EventLoop.applyConnEffect (loop : EventLoop ConnProc) : ConnEffect → EventLoop ConnProc
  | .addIoEvent fd mask => loop.addIoEvent fd (ConnProc.of mask) mask true
  | .delIoEvent fd => loop.delIoEvent fd
  | .delIoEventMask fd mask => loop.delIoEventMask fd mask
  | .connCloseCb | .decreaseConn _ | .close _ => loop

/-- A connection and its event loop. -/
structure ConnLoop where
  conn : ByteConn
  loop : EventLoop ConnProc

namespace ConnLoop

/-- A method has returned. -/
def after (s : ConnLoop) (out : ByteConn.Outcome) : ConnLoop :=
  { conn := out.conn, loop := out.effects.foldl EventLoop.applyConnEffect s.loop }

/-- `tcp_conn::tcp_conn`; `start` is what `conn_start_cb` sends. -/
def init (fd : Int) (start : List ConnSend) : ConnLoop :=
  let conn : ByteConn := { connfd := fd, ibuf := [], obuf := [] }
  let (called, effects) := conn.sendAll start
  after { conn := conn, loop := .new }
    { conn := called, cleaned := false, effects := .addIoEvent fd .epollin :: effects }

/-- A call of a method, with the answers of the kernel and what the callbacks send. -/
inductive Act
  | sendMessage (send : ConnSend)
  | doRead (read : ReadRet) (calls : List (List ConnSend)) (close : List ConnSend)
  | doWrite (results : List SysWrite) (close : List ConnSend)
  | cleanConn (close : List ConnSend)

def outcome (s : ConnLoop) : Act → Option ByteConn.Outcome
  | .sendMessage send => some (s.conn.sendMessage send).2
  | .doRead read calls close => some (s.conn.doRead read calls close)
  | .doWrite results close => s.conn.doWrite results close
  | .cleanConn close => some (s.conn.cleanConn close)

def step (s : ConnLoop) (a : Act) : Option ConnLoop :=
  (s.outcome a).map s.after

end ConnLoop

/-! ## Effects on one descriptor -/

/-- The descriptor whose registration an effect changes. -/
def ConnEffect.registers : ConnEffect → Option Int
  | .addIoEvent fd _ => some fd
  | .delIoEvent fd => some fd
  | .delIoEventMask fd _ => some fd
  | .connCloseCb | .decreaseConn _ | .close _ => none

/-- No descriptor but `fd` is concerned. -/
def OnlyOn (fd : Int) (effects : List ConnEffect) : Prop :=
  ∀ e ∈ effects, ∀ f, e.registers = some f → f = fd

theorem OnlyOn.append {fd : Int} {effects effects' : List ConnEffect} (h : OnlyOn fd effects)
    (h' : OnlyOn fd effects') : OnlyOn fd (effects ++ effects') := by
  intro e he
  rcases List.mem_append.1 he with hfirst | hsecond
  · exact h e hfirst
  · exact h' e hsecond

namespace EventLoop

variable {loop : EventLoop ConnProc} {fd f : Int}

theorem ioEvs_applyConnEffect {e : ConnEffect} (h : e.registers ≠ some f) :
    (loop.applyConnEffect e).ioEvs f = loop.ioEvs f := by
  cases e with
  | addIoEvent g mask =>
      have hne : f ≠ g := fun heq => h (by rw [heq]; rfl)
      simp [applyConnEffect, addIoEvent, hne]
  | delIoEvent g =>
      have hne : f ≠ g := fun heq => h (by rw [heq]; rfl)
      simp [applyConnEffect, delIoEvent, hne]
  | delIoEventMask g mask =>
      have hne : f ≠ g := fun heq => h (by rw [heq]; rfl)
      show (loop.delIoEventMask g mask).ioEvs f = loop.ioEvs f
      unfold delIoEventMask
      split
      · rfl
      · simp only
        split_ifs <;> simp [delIoEvent, hne]
  | connCloseCb => rfl
  | decreaseConn g => rfl
  | close g => rfl

/-- The other descriptors keep what they have. -/
theorem ioEvs_foldl {effects : List ConnEffect} (hon : OnlyOn fd effects) (hf : f ≠ fd) :
    (effects.foldl applyConnEffect loop).ioEvs f = loop.ioEvs f := by
  induction effects generalizing loop with
  | nil => rfl
  | cons e effects ih =>
      have hrest : OnlyOn fd effects := fun e' he' => hon e' (List.mem_cons_of_mem e he')
      have hfirst : e.registers ≠ some f := fun heq => hf (hon e List.mem_cons_self f heq)
      rw [List.foldl_cons, ih hrest, ioEvs_applyConnEffect hfirst]

end EventLoop

/-! ## What the methods do to the write event -/

namespace ByteConn

/-- The write event is armed for the connection if and only if it has something to write. -/
def Interested (loop : EventLoop ConnProc) (conn : ByteConn) : Prop :=
  .epollout ∈ loop.maskOf conn.connfd ↔ conn.obuf ≠ []

/-- Sends keep the write event in step with the buffer. -/
structure Sends (conn conn' : ByteConn) (effects : List ConnEffect) : Prop where
  connfd : conn'.connfd = conn.connfd
  onlyOn : OnlyOn conn.connfd effects
  interested : ∀ loop : EventLoop ConnProc, Interested loop conn →
    Interested (effects.foldl EventLoop.applyConnEffect loop) conn'

/-- What a method may do: it keeps the write event in step with the buffer, or it closes the
connection, and then nothing is registered for the descriptor and the buffers are empty. -/
structure Keeps (conn : ByteConn) (out : Outcome) : Prop where
  onlyOn : OnlyOn conn.connfd out.effects
  isOpen : out.cleaned = false → Sends conn out.conn out.effects
  closed : out.cleaned = true → out.conn = { connfd := -1, ibuf := [], obuf := [] } ∧
    ∀ loop : EventLoop ConnProc,
      (out.effects.foldl EventLoop.applyConnEffect loop).ioEvs conn.connfd = none

theorem Sends.refl {conn conn' : ByteConn} (hfd : conn'.connfd = conn.connfd)
    (hobuf : conn'.obuf = conn.obuf) : Sends conn conn' [] := by
  refine ⟨hfd, fun e he => (List.not_mem_nil he).elim, fun loop hloop => ?_⟩
  unfold Interested at hloop ⊢
  rw [hfd, hobuf]
  exact hloop

theorem Sends.trans {a b c : ByteConn} {effects effects' : List ConnEffect}
    (hab : Sends a b effects) (hbc : Sends b c effects') : Sends a c (effects ++ effects') := by
  refine ⟨hbc.connfd.trans hab.connfd, hab.onlyOn.append (hab.connfd ▸ hbc.onlyOn), ?_⟩
  intro loop hloop
  rw [List.foldl_append]
  exact hbc.interested _ (hab.interested loop hloop)

theorem sendMessage_sends (conn : ByteConn) (send : ConnSend) :
    Sends conn (conn.sendMessage send).2.conn (conn.sendMessage send).2.effects := by
  have hhead : (MsgHead.encode ⟨send.msgid, send.msglen⟩) ≠ [] := by
    rw [← List.length_pos_iff, MsgHead.length_encode]
    decide
  unfold sendMessage
  simp only
  split_ifs with hheadSent hbodySent hempty
  · -- the first message in an empty buffer arms the event
    refine ⟨rfl, by simp [OnlyOn, ConnEffect.registers], fun loop _ => ?_⟩
    simp [Interested, EventLoop.applyConnEffect, EventLoop.maskOf_addIoEvent, hhead]
  · refine ⟨rfl, by simp [OnlyOn], fun loop hloop => ?_⟩
    have hsome : conn.obuf ≠ [] := by simpa using hempty
    simpa [Interested, hhead, hsome] using hloop.2 hsome
  · -- as many bytes are taken back as the head has
    refine ⟨rfl, by simp [OnlyOn], fun loop hloop => ?_⟩
    have hiff : (conn.obuf ++ MsgHead.encode ⟨send.msgid, send.msglen⟩).drop messageHeadLen ≠ [] ↔
        conn.obuf ≠ [] := by
      rw [← List.length_pos_iff, ← List.length_pos_iff, List.length_drop, List.length_append,
        MsgHead.length_encode]
      omega
    exact hloop.trans hiff.symm
  · exact .refl rfl rfl

theorem sendMessage_cleaned (conn : ByteConn) (send : ConnSend) :
    (conn.sendMessage send).2.cleaned = false := by
  unfold sendMessage
  simp only
  split_ifs <;> rfl

theorem sendAll_sends (sends : List ConnSend) :
    ∀ conn : ByteConn, Sends conn (conn.sendAll sends).1 (conn.sendAll sends).2 := by
  induction sends with
  | nil =>
      intro conn
      exact .refl rfl rfl
  | cons send sends ih =>
      intro conn
      exact (conn.sendMessage_sends send).trans (ih _)

theorem Sends.keeps {conn called : ByteConn} {effects : List ConnEffect} {out : Outcome}
    (h : Sends conn called effects) (hout : Keeps called out) :
    Keeps conn { out with effects := effects ++ out.effects } := by
  refine ⟨h.onlyOn.append (h.connfd ▸ hout.onlyOn), fun hopen => h.trans (hout.isOpen hopen), ?_⟩
  intro hcleaned
  rcases hout.closed hcleaned with ⟨hconn, hnone⟩
  refine ⟨hconn, fun loop => ?_⟩
  rw [List.foldl_append, ← h.connfd]
  exact hnone _

/-- What has been read plays no part. -/
theorem Keeps.of_ibuf {conn conn' : ByteConn} {out : Outcome} (h : Keeps conn' out)
    (hfd : conn'.connfd = conn.connfd) (hobuf : conn'.obuf = conn.obuf) : Keeps conn out := by
  refine ⟨hfd ▸ h.onlyOn, fun hopen => ?_, fun hcleaned => ?_⟩
  · exact (Sends.refl hfd hobuf).trans (h.isOpen hopen)
  · rw [← hfd]
    exact h.closed hcleaned

theorem cleanConn_keeps (conn : ByteConn) (close : List ConnSend) :
    Keeps conn (conn.cleanConn close) := by
  have hsends := sendAll_sends close conn
  refine ⟨?_, fun hopen => (Bool.noConfusion hopen), fun _ => ⟨rfl, fun loop => ?_⟩⟩
  · have hbefore : OnlyOn conn.connfd [.connCloseCb] := by simp [OnlyOn, ConnEffect.registers]
    have hafter : OnlyOn conn.connfd
        [.decreaseConn conn.connfd, .delIoEvent conn.connfd, .close conn.connfd] := by
      simp [OnlyOn, ConnEffect.registers]
    exact (hbefore.append hsends.onlyOn).append hafter
  · simp [cleanConn, List.foldl_append, EventLoop.applyConnEffect, EventLoop.delIoEvent]

theorem keeps_unchanged {conn conn' : ByteConn} (hfd : conn'.connfd = conn.connfd)
    (hobuf : conn'.obuf = conn.obuf) :
    Keeps conn { conn := conn', cleaned := false, effects := [] } :=
  ⟨by simp [OnlyOn], fun _ => .refl hfd hobuf, fun hcleaned => Bool.noConfusion hcleaned⟩

theorem parseLoop_keeps {close : List ConnSend} {rounds : Nat} :
    ∀ {calls : List (List ConnSend)} {conn : ByteConn},
      Keeps conn (conn.parseLoop close rounds calls) := by
  induction rounds with
  | zero =>
      intro calls conn
      exact keeps_unchanged rfl rfl
  | succ rounds ih =>
      intro calls conn
      unfold parseLoop
      simp only
      split_ifs
      · exact conn.cleanConn_keeps close
      · exact keeps_unchanged rfl rfl
      · -- what the callback sends, then the rest of the loop
        apply (sendAll_sends (calls.headD []) conn).keeps
        exact ih.of_ibuf rfl rfl
      · exact keeps_unchanged rfl rfl

theorem doRead_keeps (conn : ByteConn) (read : ReadRet) (calls : List (List ConnSend))
    (close : List ConnSend) : Keeps conn (conn.doRead read calls close) := by
  cases read with
  | failed => exact conn.cleanConn_keeps close
  | eof => exact conn.cleanConn_keeps close
  | bytes bs => exact parseLoop_keeps.of_ibuf rfl rfl

/-- The loop of `do_write` writes from the front of the buffer, and may end by closing. -/
theorem writeLoop_cases {close : List ConnSend} {results : List SysWrite} :
    ∀ {conn : ByteConn} {out : Outcome}, conn.writeLoop close results = some out →
      ∃ n,
        out = { conn := { conn with obuf := conn.obuf.drop n }, cleaned := false, effects := [] } ∨
          out = cleanConn { conn with obuf := conn.obuf.drop n } close := by
  induction results with
  | nil =>
      intro conn out h
      unfold writeLoop at h
      split_ifs at h
      cases h
      exact ⟨0, Or.inl rfl⟩
  | cons res results ih =>
      intro conn out h
      unfold writeLoop at h
      split_ifs at h with hsome
      · split at h
        · cases h
          exact ⟨0, Or.inl rfl⟩
        · cases h
          exact ⟨0, Or.inr rfl⟩
        · next n _ =>
            split_ifs at h
            · cases h
              exact ⟨0, Or.inl rfl⟩
            · rcases ih h with ⟨k, hend⟩
              refine ⟨n + k, ?_⟩
              simpa [List.drop_drop] using hend
      · cases h
        exact ⟨0, Or.inl rfl⟩

theorem doWrite_keeps {conn : ByteConn} {results : List SysWrite} {close : List ConnSend}
    {out : Outcome} (h : conn.doWrite results close = some out) : Keeps conn out := by
  rcases Option.map_eq_some_iff.1 h with ⟨written, hloop, hout⟩
  rcases writeLoop_cases hloop with ⟨n, rfl | rfl⟩
  · simp only [true_and] at hout
    split_ifs at hout with hempty
    · -- the buffer is empty: the event is disarmed
      subst hout
      refine ⟨by simp [OnlyOn, ConnEffect.registers], fun _ => ?_, fun hclean => ?_⟩
      · refine ⟨rfl, by simp [OnlyOn, ConnEffect.registers], fun loop _ => ?_⟩
        simp [Interested, EventLoop.applyConnEffect, EventLoop.maskOf_delIoEventMask, hempty]
      · cases hclean
    · -- some of the bytes are left, so there were some before
      subst hout
      refine ⟨by simp [OnlyOn], fun _ => ?_, fun hclean => Bool.noConfusion hclean⟩
      refine ⟨rfl, by simp [OnlyOn], fun loop hloop => ?_⟩
      have hbefore : conn.obuf ≠ [] := by
        rintro hnil
        exact hempty (by simp [hnil])
      have hiff : conn.obuf.drop n ≠ [] ↔ conn.obuf ≠ [] := iff_of_true hempty hbefore
      exact hloop.trans hiff.symm
  · rw [if_neg (by simp [cleanConn])] at hout
    subst hout
    have hkeeps := cleanConn_keeps { conn with obuf := conn.obuf.drop n } close
    exact ⟨hkeeps.onlyOn, fun hopen => Bool.noConfusion hopen, hkeeps.closed⟩

end ByteConn

/-! ## Every run -/

namespace ConnLoop

/-- The invariant between two calls, for a connection that was made for `fd`. -/
structure Inv (fd : Int) (s : ConnLoop) : Prop where
  interested : ByteConn.Interested s.loop s.conn
  /-- one of `fd` and -1 is the descriptor, and nothing is registered for the other -/
  other : (s.conn.connfd = fd ∧ s.loop.ioEvs (-1) = none) ∨
    (s.conn.connfd = -1 ∧ s.loop.ioEvs fd = none)

theorem init_inv {fd : Int} (hfd : 0 ≤ fd) (start : List ConnSend) : (init fd start).Inv fd := by
  have hsends := ByteConn.sendAll_sends start { connfd := fd, ibuf := [], obuf := [] }
  constructor
  · apply hsends.interested
    have hnone : (EventLoop.new : EventLoop ConnProc).maskOf fd = ∅ := rfl
    simp [ByteConn.Interested, EventLoop.applyConnEffect, EventLoop.maskOf_addIoEvent, hnone]
  · refine Or.inl ⟨hsends.connfd, ?_⟩
    have hne : (-1 : Int) ≠ fd := by omega
    calc
      (init fd start).loop.ioEvs (-1)
      _ = (EventLoop.applyConnEffect .new (.addIoEvent fd .epollin)).ioEvs (-1) :=
          EventLoop.ioEvs_foldl hsends.onlyOn hne
      _ = none := by simp [EventLoop.applyConnEffect, EventLoop.addIoEvent, EventLoop.new, hne]

theorem outcome_keeps {s : ConnLoop} {a : Act} {out : ByteConn.Outcome}
    (h : s.outcome a = some out) : s.conn.Keeps out := by
  cases a with
  | sendMessage send =>
      cases h
      have hsends := s.conn.sendMessage_sends send
      refine ⟨hsends.onlyOn, fun _ => hsends, fun hcleaned => ?_⟩
      rw [s.conn.sendMessage_cleaned send] at hcleaned
      cases hcleaned
  | doRead read calls close =>
      cases h
      exact s.conn.doRead_keeps read calls close
  | doWrite results close => exact ByteConn.doWrite_keeps h
  | cleanConn close =>
      cases h
      exact s.conn.cleanConn_keeps close

/-- Closing leaves nothing behind. -/
theorem after_cleaned {fd : Int} (hfd : 0 ≤ fd) {s : ConnLoop} (hs : s.Inv fd)
    {out : ByteConn.Outcome} (hkeeps : s.conn.Keeps out) (hcleaned : out.cleaned = true) :
    (s.after out).conn = { connfd := -1, ibuf := [], obuf := [] } ∧
      (s.after out).loop.ioEvs fd = none ∧ (s.after out).loop.ioEvs (-1) = none := by
  rcases hkeeps.closed hcleaned with ⟨hconn, hnone⟩
  refine ⟨hconn, ?_⟩
  have hne : (-1 : Int) ≠ fd := by omega
  rcases hs.other with ⟨hopen, hother⟩ | ⟨hclosed, hother⟩
  · have honly := hkeeps.onlyOn
    rw [hopen] at hnone honly
    exact ⟨hnone s.loop, (EventLoop.ioEvs_foldl honly hne).trans hother⟩
  · have honly := hkeeps.onlyOn
    rw [hclosed] at hnone honly
    exact ⟨(EventLoop.ioEvs_foldl honly hne.symm).trans hother, hnone s.loop⟩

theorem step_inv {fd : Int} (hfd : 0 ≤ fd) {s s' : ConnLoop} {a : Act} (hs : s.Inv fd)
    (h : s.step a = some s') : s'.Inv fd := by
  rcases Option.map_eq_some_iff.1 h with ⟨out, hout, rfl⟩
  have hkeeps := outcome_keeps hout
  cases hcleaned : out.cleaned with
  | true =>
      rcases after_cleaned hfd hs hkeeps hcleaned with ⟨hconn, hnone, hminus⟩
      refine ⟨?_, Or.inr ⟨by rw [hconn], hnone⟩⟩
      simp [ByteConn.Interested, hconn, EventLoop.maskOf, hminus]
  | false =>
      have hsends := hkeeps.isOpen hcleaned
      refine ⟨hsends.interested s.loop hs.interested, ?_⟩
      have hne : (-1 : Int) ≠ fd := by omega
      have hsame : (s.after out).conn.connfd = s.conn.connfd := hsends.connfd
      have honly := hsends.onlyOn
      rcases hs.other with ⟨hopen, hother⟩ | ⟨hclosed, hother⟩
      · rw [hopen] at hsame honly
        exact Or.inl ⟨hsame, (EventLoop.ioEvs_foldl honly hne).trans hother⟩
      · rw [hclosed] at hsame honly
        exact Or.inr ⟨hsame, (EventLoop.ioEvs_foldl honly hne.symm).trans hother⟩

/-- As long as the connection is open, `EPOLLOUT` is in the mask of its descriptor if and only if
there is something in `_obuf`; once it is closed, nothing is registered for the descriptor; and
a call that closes it leaves both buffers empty. -/
theorem writeInterest_backlog (fd : Int) (hfd : 0 ≤ fd) (start : List ConnSend) (acts : List Act)
    (s : ConnLoop) (hrun : run step (init fd start) acts = some s) :
    (s.conn.connfd = fd → (.epollout ∈ s.loop.maskOf fd ↔ 0 < s.conn.obuf.length)) ∧
      (s.conn.connfd ≠ fd → s.loop.ioEvs fd = none) ∧
      ∀ a out, s.outcome a = some out → out.cleaned = true →
        (s.after out).loop.ioEvs fd = none ∧ (s.after out).conn.ibuf = [] ∧
          (s.after out).conn.obuf = [] := by
  have h : s.Inv fd :=
    run_invariant_always (fun _ _ _ => step_inv hfd) (init_inv hfd start) hrun
  refine ⟨fun hopen => ?_, fun hclosed => ?_, fun a out hout hcleaned => ?_⟩
  · rw [List.length_pos_iff, ← hopen]
    exact h.interested
  · rcases h.other with ⟨hopen, _⟩ | ⟨_, hnone⟩
    · exact absurd hopen hclosed
    · exact hnone
  · rcases after_cleaned hfd h (outcome_keeps hout) hcleaned with ⟨hconn, hnone, _⟩
    exact ⟨hnone, by rw [hconn], by rw [hconn]⟩

/-- The start callback sends a message, of which three bytes are written; the body of the next one
does not fit; the callback of a message that is read sends a third one. -/
def exchange : List Act :=
  [.doWrite [.wrote 3, .again] [],
    .sendMessage ⟨[8, 9], 2, 2, true, false⟩,
    .doRead (.bytes (MsgHead.encode ⟨3, 1⟩ ++ [7])) [[⟨[7], 1, 4, true, true⟩]] []]

/-- What is left of the first message was taken back, and with it two bytes of the second head. -/
theorem writeInterest_backlog_exchange :
    ∃ s, run step (init 5 [⟨[1], 1, 1, true, true⟩]) exchange = some s ∧
      s.conn.obuf.length = 15 ∧ .epollout ∈ s.loop.maskOf 5 := by
  have hcheck : (run step (init 5 [⟨[1], 1, 1, true, true⟩]) exchange).map
      (fun s => (s.conn.connfd, s.conn.obuf.length)) = some (5, 15) := by
    decide +kernel
  rcases Option.map_eq_some_iff.1 hcheck with ⟨s, hrun, hs⟩
  simp only [Prod.mk.injEq] at hs
  rcases hs with ⟨hfd, hlen⟩
  refine ⟨s, hrun, hlen, ?_⟩
  have h := writeInterest_backlog 5 (by decide) [⟨[1], 1, 1, true, true⟩] exchange s hrun
  exact (h.1 hfd).2 (by rw [hlen]; decide)

end ConnLoop

/-! ## The buffers in the pool -/

/-- The connection of `TcpConn`, with the pool and the event loop. -/
structure PoolLoop where
  pool : BufPool
  conn : TcpConn
  loop : EventLoop ConnProc

namespace PoolLoop

/-- `tcp_conn::tcp_conn`, without a `conn_start_cb`. -/
def init (p : BufPool) (fd : Int) : PoolLoop :=
  { pool := p
    conn := .new fd
    loop := EventLoop.applyConnEffect .new (.addIoEvent fd .epollin) }

inductive Act
  | sendMessage (data : List UInt8) (msglen msgid : Int32)
  | doRead (cb : MsgCallback) (sock : Socket)
  | doWrite (results : List SysWrite)
  | cleanConn

def outcome (s : PoolLoop) : Act → Except Fault TcpConn.Outcome
  | .sendMessage data msglen msgid => do
      let (_, out) ← TcpConn.sendMessage s.pool s.conn data msglen msgid
      return out
  | .doRead cb sock => do
      let out ← TcpConn.doRead cb s.pool s.conn sock
      return out.toOutcome
  | .doWrite results => do
      let out ← TcpConn.doWrite s.pool s.conn results
      return out.toOutcome
  | .cleanConn => TcpConn.cleanConn s.pool s.conn

/-- There is no next state where the method does not return. -/
def step (s : PoolLoop) (a : Act) : Option PoolLoop :=
  match s.outcome a with
  | .error _ => none
  | .ok out => some {
      pool := out.pool
      conn := out.conn
      loop := out.effects.foldl EventLoop.applyConnEffect s.loop }

/-- The callbacks send on the connection, and do nothing else to it. -/
def Allowed (s : PoolLoop) : Act → Prop
  | .doRead cb _ => TcpConn.OnlySends s.conn.connfd cb
  | .sendMessage _ _ _ | .doWrite _ | .cleanConn => True

/-- The pool and the blocks are in order, and the bytes in the blocks are those of `t`. -/
structure Shows (s : PoolLoop) (t : ConnLoop) : Prop where
  clean : s.pool.Clean
  blocks : s.conn.Blocks
  conn : s.conn.bytes = t.conn
  loop : s.loop = t.loop

theorem init_shows {p : BufPool} (hp : p.Clean) (fd : Int) :
    (init p fd).Shows (ConnLoop.init fd []) :=
  ⟨hp, ⟨ReactorBuf.sound_none, ReactorBuf.sound_none⟩, rfl, rfl⟩

/-- The list machine does what the method does to the blocks. -/
theorem outcome_bytes {s : PoolLoop} {t : ConnLoop} (h : s.Shows t) {a : Act}
    (hallowed : s.Allowed a) {out : TcpConn.Outcome} (hout : s.outcome a = .ok out) :
    out.pool.Clean ∧ out.conn.Blocks ∧ ∃ b, t.outcome b = some out.bytes := by
  cases a with
  | sendMessage data msglen msgid =>
      rcases bind_eq_ok.1 hout with ⟨⟨ret, out⟩, hsend, hret⟩
      cases hret
      rcases TcpConn.sendMessage_bytes h.clean h.blocks hsend with
        ⟨hclean, hblocks, headSent, bodySent, hsame⟩
      refine ⟨hclean, hblocks, .sendMessage ⟨data, msglen, msgid, headSent, bodySent⟩, ?_⟩
      simp only [ConnLoop.outcome, ← h.conn, hsame]
  | doRead cb sock =>
      rcases bind_eq_ok.1 hout with ⟨out, hread, hret⟩
      cases hret
      rcases TcpConn.doRead_bytes h.clean h.blocks hallowed hread with
        ⟨hclean, hblocks, read, calls, hsame⟩
      refine ⟨hclean, hblocks, .doRead read calls [], ?_⟩
      simp only [ConnLoop.outcome, ← h.conn, hsame]
  | doWrite results =>
      rcases bind_eq_ok.1 hout with ⟨out, hwrite, hret⟩
      cases hret
      rcases TcpConn.doWrite_bytes h.clean h.blocks hwrite with ⟨hclean, hblocks, hsame⟩
      refine ⟨hclean, hblocks, .doWrite results [], ?_⟩
      simp only [ConnLoop.outcome, ← h.conn, hsame]
  | cleanConn =>
      rcases TcpConn.cleanConn_bytes h.clean h.blocks hout with ⟨hclean, hblocks, _, hsame⟩
      refine ⟨hclean, hblocks, .cleanConn [], ?_⟩
      simp only [ConnLoop.outcome, ← h.conn, hsame]

theorem step_simulates (s : PoolLoop) (a : Act) (s' : PoolLoop) (t : ConnLoop) (h : s.Shows t)
    (hallowed : s.Allowed a) (hstep : s.step a = some s') :
    ∃ b t', t.step b = some t' ∧ s'.Shows t' := by
  unfold step at hstep
  cases hout : s.outcome a with
  | error e => simp [hout] at hstep
  | ok out =>
      simp only [hout, Option.some.injEq] at hstep
      subst hstep
      rcases outcome_bytes h hallowed hout with ⟨hclean, hblocks, b, hsame⟩
      refine ⟨b, t.after out.bytes, by simp [ConnLoop.step, hsame], hclean, hblocks, rfl, ?_⟩
      simp only [ConnLoop.after, TcpConn.Outcome.bytes, h.loop]

/-- So the write event is in step with the backlog in the pool, too. -/
theorem epollout_iff {p : BufPool} (hp : p.Clean) {fd : Int} (hfd : 0 ≤ fd) {acts : List Act}
    {s : PoolLoop} (hmeets : Meets step Allowed (init p fd) acts)
    (hrun : run step (init p fd) acts = some s) :
    (s.conn.connfd = fd → (.epollout ∈ s.loop.maskOf fd ↔ s.conn.obuf.length ≠ 0)) ∧
      (s.conn.connfd ≠ fd → s.loop.ioEvs fd = none) := by
  rcases run_simulates step_simulates (init_shows hp fd) hmeets hrun with ⟨t, ⟨bs, ht⟩, h⟩
  have hinv : t.Inv fd :=
    run_invariant_always (fun _ _ _ => ConnLoop.step_inv hfd) (ConnLoop.init_inv hfd []) ht
  have hsame : t.conn.connfd = s.conn.connfd := by
    rw [← h.conn]
    rfl
  rw [h.loop]
  constructor
  · intro hopen
    have hbacklog : s.conn.obuf.length ≠ 0 ↔ t.conn.obuf ≠ [] := by
      rw [← h.conn]
      exact (TcpConn.length_eq_zero_iff h.blocks.2).not
    rw [hbacklog, ← hopen, ← hsame]
    exact hinv.interested
  · intro hclosed
    rcases hinv.other with ⟨hopen, _⟩ | ⟨_, hnone⟩
    · exact absurd (hsame.symm.trans hopen) hclosed
    · exact hnone

end PoolLoop
end Reactor
end Rins
