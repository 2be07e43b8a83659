import Rins.Reactor.LoopBooks
import Rins.Reactor.Reconnect

/-!
# ClientLoop — a `tcp_client` and its entry in the event loop

`send_message`, `do_connect`, `connection_delay`, `do_write` and `clean_conn` each register events
for the socket or take them back.  This module follows the calls of every method through the event
loop: which callbacks are armed for the socket when the method returns, whatever the kernel answers
and whatever the user's callbacks send meanwhile.

The client is the only one on its loop, and `epoll_ctl` succeeds.
-/

namespace Rins
namespace Reactor

open Session (SendArgs)

/-! ## Callbacks that send -/

namespace TcpClient

/-- Calls of `send_message`, one after the other, with what they do to the event loop. -/
def sendAll : List SendArgs → TcpClient → Except Fault (TcpClient × List ClientEffect)
  | [], cli => .ok (cli, [])
  | args :: script, cli => do
      let (_, cli, sent) ← cli.sendMessage args.data args.msglen args.msgid
      let (cli, effects) ← sendAll script cli
      return (cli, sent ++ effects)

end TcpClient

/-- What the user's callbacks send, in terms of what they find when they are called. -/
structure ClientScripts where
  connStart : TcpClient → List SendArgs
  connClose : TcpClient → List SendArgs
  message : ClientCall → TcpClient → List SendArgs

/-- The callbacks that send these messages; `cli` is the client as `do_read` finds it. -/
def ClientScripts.callbacks (scripts : ClientScripts) (cli : TcpClient) : ClientCallbacks :=
  { connStart := some fun cli => cli.sendAll (scripts.connStart cli)
    connClose := some fun cli => cli.sendAll (scripts.connClose cli)
    message := fun call obuf => do
      let cli := { cli with obuf := obuf }
      let (cli, effects) ← cli.sendAll (scripts.message call cli)
      return (cli.obuf, effects) }

/-! ## The machine -/

def EventLoop.applyEffect (loop : EventLoop ClientProc) : ClientEffect → EventLoop ClientProc
  | .addIoEvent fd proc mask => loop.addIoEvent fd proc mask true
  | .delIoEvent fd => loop.delIoEvent fd
  | .delIoEventMask fd mask => loop.delIoEventMask fd mask
  | .close _ => loop

structure ClientLoop where
  client : TcpClient
  loop : EventLoop ClientProc

/-- What the kernel answers while an event is handled. -/
structure ClientAnswers where
  /-- to `getsockopt(SO_ERROR)`, in `connection_delay` -/
  soError : Int
  /-- to `ioctl` and `read`, in `do_read` -/
  sock : Socket
  /-- not an answer: the rounds of the parse loop -/
  rounds : Nat
  /-- to `socket` and `connect`, if `do_read` finds the connection closed -/
  reconnect : ConnectAnswer
  /-- in the loop of `do_write` -/
  writes : List WriteAnswer

/-- Descriptors are not negative. -/
def ConnectAnswer.fromKernel (ans : ConnectAnswer) : Bool :=
  ans.socket.all fun fd => 0 ≤ fd

def ClientAnswers.fromKernel (ans : ClientAnswers) : Bool :=
  ans.reconnect.fromKernel && ans.writes.all fun w => w.reconnect.fromKernel

namespace ClientLoop

/-- A method has returned the client and its effects. -/
def after (s : ClientLoop) (cli : TcpClient) (effects : List ClientEffect) : ClientLoop :=
  { client := cli, loop := effects.foldl EventLoop.applyEffect s.loop }

/-- The constructor. -/
def init (scripts : ClientScripts) (ans : ConnectAnswer) : Option ClientLoop :=
  if ans.fromKernel then
    match TcpClient.new.doConnect (scripts.callbacks .new) ans with
    | .error _ => none
    | .ok (cli, effects) => some ((ClientLoop.mk .new .new).after cli effects)
  else
    none

/-- The callback that the event loop calls. -/
def handle (s : ClientLoop) (scripts : ClientScripts) (ans : ClientAnswers) :
    ClientProc → Except Fault (TcpClient × List ClientEffect)
  | .readCallback => do
      let out ← s.client.doRead (scripts.callbacks s.client) ans.rounds ans.sock ans.reconnect
      return (out.client, out.effects)
  | .writeCallback => do
      let out ← s.client.doWrite (scripts.callbacks s.client) ans.writes
      return (out.client, out.effects)
  | .connectionDelay =>
      s.client.connectionDelay (scripts.callbacks s.client) s.client.sockfd ans.soError

inductive Act
  /-- `send_message`, between two events -/
  | send (args : SendArgs)
  /-- an event of the socket -/
  | fire (fired : FiredEvents) (scripts : ClientScripts) (ans : ClientAnswers)

/-- The kernel may report the event. -/
def mayFire (s : ClientLoop) (fired : FiredEvents) : Bool :=
  (s.loop.ioEvs s.client.sockfd).any fun ev => fired.Admissible ev.mask

/-- There is no next state if the process has ended or aborted. -/
def step (s : ClientLoop) : Act → Option ClientLoop
  | .send args =>
      match s.client.sendMessage args.data args.msglen args.msgid with
      | .error _ => none
      | .ok (_, cli, effects) => some (s.after cli effects)
  | .fire fired scripts ans =>
      if s.mayFire fired ∧ ans.fromKernel then
        match s.loop.dispatch s.client.sockfd fired with
        | none => none
        | some (.readCallback proc) | some (.writeCallback proc) =>
            match s.handle scripts ans proc with
            | .error _ => none
            | .ok (cli, effects) => some (s.after cli effects)
        | some .delIoEvent => some { s with loop := s.loop.delIoEvent s.client.sockfd }
        | some .nothing => some s
      else
        none

end ClientLoop

/-! ## What sending arms -/

namespace TcpClient

theorem OutReady.length_nonneg {cli : TcpClient} (h : cli.OutReady) : 0 ≤ cli.obuf.length := by
  rw [h.valid.length_eq]
  omega

/-- What `write` has taken is not in the buffer any more. -/
theorem OutReady.length_written {cli : TcpClient} (h : cli.OutReady) {n : Nat}
    (hn : n ≤ cli.obuf.length.toNat) {bytes : List UInt8} {obuf : IoBuf}
    (hload : cli.obuf.load cli.obuf.head n = .ok bytes)
    (hready : OutReady { cli with obuf := obuf })
    (hpend : bytes ++ obuf.pending = cli.obuf.pending) :
    obuf.length = cli.obuf.length - n := by
  rw [← IoBuf.length_pending] at hn
  rw [IoBuf.load_head h.valid hn] at hload
  cases hload
  have hbefore := h.valid.length_eq
  have hafter : obuf.length = obuf.pending.length := hready.valid.length_eq
  rw [← hpend, List.length_append, List.length_take] at hbefore
  omega

/-- What calls of `send_message` do: nothing, or there is output and the write event is armed by
the first of them, if there was none before. -/
structure Sent (cli cli' : TcpClient) (effects : List ClientEffect) : Prop where
  same : cli'.connected = cli.connected ∧ cli'.sockfd = cli.sockfd
  ready : cli'.OutReady
  armed : (cli'.obuf = cli.obuf ∧ effects = []) ∨
    (cli.connected = true ∧ 0 < cli'.obuf.length ∧
      effects =
        if cli.obuf.length = 0 then [.addIoEvent cli.sockfd .writeCallback .epollout] else [])

theorem Sent.refl {cli : TcpClient} (h : cli.OutReady) : Sent cli cli [] :=
  ⟨⟨rfl, rfl⟩, h, Or.inl ⟨rfl, rfl⟩⟩

theorem Sent.trans {a b c : TcpClient} {effects effects' : List ClientEffect}
    (hab : Sent a b effects) (hbc : Sent b c effects') : Sent a c (effects ++ effects') := by
  rcases hab.same with ⟨hconn, hsock⟩
  refine ⟨⟨hbc.same.1.trans hconn, hbc.same.2.trans hsock⟩, hbc.ready, ?_⟩
  rcases hab.armed with ⟨hobuf, rfl⟩ | ⟨hup, hout, rfl⟩
  · rw [← hobuf, ← hsock, ← hconn, List.nil_append]
    exact hbc.armed
  · -- the write event is armed already, so the others do not arm it
    refine Or.inr ⟨hup, ?_⟩
    rcases hbc.armed with ⟨hobuf', rfl⟩ | ⟨_, hout', rfl⟩
    · exact ⟨by rw [hobuf']; exact hout, by rw [List.append_nil]⟩
    · exact ⟨hout', by rw [if_neg (by omega : b.obuf.length ≠ 0), List.append_nil]⟩

theorem sendMessage_sent {cli cli' : TcpClient} (hcli : cli.OutReady) {data : List UInt8}
    {msglen msgid : Int32} {ret : Int} {effects : List ClientEffect}
    (h : cli.sendMessage data msglen msgid = .ok (ret, cli', effects)) : Sent cli cli' effects := by
  have hcases := sendMessage_cases hcli h
  unfold sendMessage at h
  split_ifs at h with hconn hfull
  · cases h
    exact .refl hcli
  · cases h
    exact .refl hcli
  · rcases bind_eq_ok.1 h with ⟨obuf₁, _, h⟩
    rcases bind_eq_ok.1 h with ⟨body, _, h⟩
    rcases bind_eq_ok.1 h with ⟨obuf₂, _, h⟩
    cases h
    rcases hcases with ⟨hret, _⟩ | ⟨_, hup, _, hready, hpend⟩
    · cases hret
    · refine ⟨⟨rfl, rfl⟩, hready, Or.inr ⟨hup, ?_, by simp⟩⟩
      -- there is a head at least
      have hlen : obuf₂.length = obuf₂.pending.length := hready.valid.length_eq
      have hhead := Message.length_encode
        { id := msgid, length := msglen, body := data.take msglen.toInt.toNat }
      simp only [hpend, List.length_append, hhead, messageHeadLen] at hlen
      show 0 < obuf₂.length
      omega

theorem sendAll_sent {script : List SendArgs} :
    ∀ {cli cli' : TcpClient} {effects : List ClientEffect}, cli.OutReady →
      sendAll script cli = .ok (cli', effects) → Sent cli cli' effects := by
  induction script with
  | nil =>
      intro cli cli' effects hcli h
      cases h
      exact .refl hcli
  | cons args script ih =>
      intro cli cli' effects hcli h
      rcases bind_eq_ok.1 h with ⟨⟨ret, cli₁, sent⟩, hsend, h⟩
      rcases bind_eq_ok.1 h with ⟨⟨cli₂, rest⟩, hrest, h⟩
      cases h
      have hfirst := sendMessage_sent hcli hsend
      exact hfirst.trans (ih hfirst.ready hrest)

/-- Nothing is sent on a client that is not connected. -/
theorem Sent.of_disconnected {cli cli' : TcpClient} {effects : List ClientEffect}
    (h : Sent cli cli' effects) (hconn : cli.connected = false) :
    cli'.obuf = cli.obuf ∧ effects = [] := by
  rcases h.armed with hnothing | ⟨hup, _⟩
  · exact hnothing
  · rw [hconn] at hup
    cases hup

end TcpClient

/-! ## What is armed for the socket of a client -/

namespace ClientLoop

/-- Which of its own callbacks the client has armed for `fd`. -/
structure Arms (loop : EventLoop ClientProc) (fd : Int) (reading writing : Prop) : Prop where
  only : loop.Only fd
  reads : .epollin ∈ loop.maskOf fd ↔ reading
  writes : .epollout ∈ loop.maskOf fd ↔ writing
  readCallback : .epollin ∈ loop.maskOf fd → loop.callbackOf fd .epollin = some .readCallback
  writeCallback : .epollout ∈ loop.maskOf fd → loop.callbackOf fd .epollout = some .writeCallback

section Arms

variable {loop : EventLoop ClientProc} {fd : Int} {reading writing : Prop}

theorem Arms.nothing (h : ∀ f, loop.ioEvs f = none) (fd : Int) : Arms loop fd False False := by
  have hmask : loop.maskOf fd = ∅ := by simp [EventLoop.maskOf, h]
  exact ⟨fun f _ => h f, by simp [hmask], by simp [hmask], by simp [hmask], by simp [hmask]⟩

theorem Arms.congr (h : Arms loop fd reading writing) {writing' : Prop}
    (hiff : writing ↔ writing') : Arms loop fd reading writing' :=
  ⟨h.only, h.reads, h.writes.trans hiff, h.readCallback, h.writeCallback⟩

theorem Arms.addRead (h : Arms loop fd reading writing) :
    Arms (loop.addIoEvent fd .readCallback .epollin true) fd True writing := by
  refine ⟨h.only.addIoEvent _ _ _, ?_, ?_, ?_, ?_⟩
  · simp [EventLoop.maskOf_addIoEvent]
  · simp [EventLoop.maskOf_addIoEvent, h.writes]
  · simp [EventLoop.callbackOf_addIoEvent]
  · simpa [EventLoop.maskOf_addIoEvent, EventLoop.callbackOf_addIoEvent] using h.writeCallback

theorem Arms.addWrite (h : Arms loop fd reading writing) :
    Arms (loop.addIoEvent fd .writeCallback .epollout true) fd reading True := by
  refine ⟨h.only.addIoEvent _ _ _, ?_, ?_, ?_, ?_⟩
  · simp [EventLoop.maskOf_addIoEvent, h.reads]
  · simp [EventLoop.maskOf_addIoEvent]
  · simpa [EventLoop.maskOf_addIoEvent, EventLoop.callbackOf_addIoEvent] using h.readCallback
  · simp [EventLoop.callbackOf_addIoEvent]

theorem Arms.delWrite (h : Arms loop fd reading writing) :
    Arms (loop.delIoEventMask fd .epollout) fd reading False := by
  refine ⟨h.only.delIoEventMask _, ?_, ?_, ?_, ?_⟩
  · simp [EventLoop.maskOf_delIoEventMask, h.reads]
  · simp [EventLoop.maskOf_delIoEventMask]
  · rw [EventLoop.maskOf_delIoEventMask]
    intro hin
    have hold := Finset.mem_of_mem_erase hin
    rw [EventLoop.callbackOf_delIoEventMask hold (by simp)]
    exact h.readCallback hold
  · simp [EventLoop.maskOf_delIoEventMask]

end Arms

/-- The client is connected and reads; `writing` says whether it has armed the write event. -/
def Up (s : ClientLoop) (writing : Prop) : Prop :=
  s.client.connected = true ∧ Arms s.loop s.client.sockfd True writing

/-- What `do_connect` registers while the connection is in progress. -/
def delayEntry : IoEvent ClientProc :=
  { mask := {.epollout}, readCallback := none, writeCallback := some .connectionDelay }

theorem delIoEventMask_delayEntry {loop : EventLoop ClientProc} {fd : Int}
    (h : loop.ioEvs fd = some delayEntry) :
    loop.delIoEventMask fd .epollout = loop.delIoEvent fd := by
  unfold EventLoop.delIoEventMask
  rw [h]
  simp [delayEntry]

def Connecting (s : ClientLoop) : Prop :=
  s.client.connected = false ∧ s.loop.Only s.client.sockfd ∧
    s.loop.ioEvs s.client.sockfd = some delayEntry

/-- Nothing will ever happen to the client. -/
def Dead (s : ClientLoop) : Prop :=
  s.client.connected = false ∧ ∀ f, s.loop.ioEvs f = none

/-- The invariant between two events, except for the clients that are dead. -/
structure Live (s : ClientLoop) : Prop where
  ready : s.client.OutReady
  socket : 0 ≤ s.client.sockfd
  status : s.Up (0 < s.client.obuf.length) ∨ s.Connecting

theorem after_append (s : ClientLoop) (cli cli' : TcpClient)
    (effects effects' : List ClientEffect) :
    s.after cli' (effects ++ effects') = (s.after cli effects).after cli' effects' := by
  simp [after]

theorem up_after {s : ClientLoop} {cli : TcpClient} {effects : List ClientEffect} {fd : Int}
    {writing : Prop} (hconn : cli.connected = true) (hsock : cli.sockfd = fd)
    (harms : Arms (s.after cli effects).loop fd True writing) :
    (s.after cli effects).Up writing := by
  subst hsock
  exact ⟨hconn, harms⟩

/-- The callbacks of the user send. -/
theorem callbacks_start {scripts : ClientScripts} {cli₀ cli cli' : TcpClient}
    {effects : List ClientEffect} (hcli : cli.OutReady)
    (h : TcpClient.callback (scripts.callbacks cli₀).connStart cli = .ok (cli', effects)) :
    TcpClient.Sent cli cli' effects :=
  TcpClient.sendAll_sent hcli h

theorem callbacks_close {scripts : ClientScripts} {cli₀ cli cli' : TcpClient}
    {effects : List ClientEffect} (hcli : cli.OutReady)
    (h : TcpClient.callback (scripts.callbacks cli₀).connClose cli = .ok (cli', effects)) :
    TcpClient.Sent cli cli' effects :=
  TcpClient.sendAll_sent hcli h

/-- What the callbacks send before the read event is registered. -/
theorem sent_arms {s : ClientLoop} (hnone : ∀ f, s.loop.ioEvs f = none) {cli cli' : TcpClient}
    {effects : List ClientEffect} (hsent : TcpClient.Sent cli cli' effects) :
    ∃ writing, Arms (s.after cli' effects).loop cli.sockfd False writing ∧
      (writing → 0 < cli'.obuf.length) := by
  have hnothing := Arms.nothing hnone cli.sockfd
  rcases hsent.armed with ⟨_, rfl⟩ | ⟨_, hout, rfl⟩
  · exact ⟨False, hnothing, False.elim⟩
  · split_ifs
    · exact ⟨True, hnothing.addWrite, fun _ => hout⟩
    · exact ⟨False, hnothing, False.elim⟩

/-- A connection is established on a socket for which nothing is registered. -/
theorem connectionUp_up {s : ClientLoop} (hready : s.client.OutReady)
    (hnone : ∀ f, s.loop.ioEvs f = none) {scripts : ClientScripts} {cli₀ cli : TcpClient}
    {fdOf : TcpClient → Int} (hfd : ∀ c, c.sockfd = s.client.sockfd → fdOf c = s.client.sockfd)
    {effects : List ClientEffect}
    (h : TcpClient.connectionUp (scripts.callbacks cli₀) s.client fdOf = .ok (cli, effects)) :
    (s.after cli effects).Up (0 < cli.obuf.length) ∧ cli.OutReady ∧
      cli.sockfd = s.client.sockfd ∧ (s.client.obuf.length ≠ 0 → cli.obuf.length ≠ 0) := by
  unfold TcpClient.connectionUp at h
  rcases bind_eq_ok.1 h with ⟨⟨cli₁, called⟩, hcall, h⟩
  have hready' : TcpClient.OutReady { s.client with connected := true } := hready.of_obuf rfl
  have hsent := callbacks_start hready' hcall
  cases h
  have hsock : cli.sockfd = s.client.sockfd := hsent.same.2
  rcases sent_arms hnone hsent with ⟨writing, harms, hwriting⟩
  have hpos := hsent.ready.length_nonneg
  refine ⟨up_after hsent.same.1 hsock ?_, hsent.ready, hsock, ?_⟩
  · -- the read event, and the write event if there is output
    have hread := harms.addRead
    simp only [hfd cli hsock]
    by_cases hempty : cli.obuf.length = 0
    · simp only [hempty, ne_eq, not_true, if_false, List.append_nil, after_append s cli]
      exact hread.congr ⟨fun hw => by have := hwriting hw; omega, fun h => absurd h (by omega)⟩
    · simp only [hempty, ne_eq, not_false_eq_true, if_true, after_append s cli]
      exact hread.addWrite.congr ⟨fun _ => by omega, fun _ => trivial⟩
  · intro hsome
    rcases hsent.armed with ⟨hobuf, _⟩ | ⟨_, hout, _⟩
    · rw [hobuf]
      exact hsome
    · omega

/-- `do_connect`, where nothing is registered. -/
theorem doConnect_live {s : ClientLoop} (hready : s.client.OutReady)
    (hconn : s.client.connected = false) (hnone : ∀ f, s.loop.ioEvs f = none)
    (hsock : s.client.sockfd ≠ -1) {scripts : ClientScripts} {cli₀ cli : TcpClient}
    {ans : ConnectAnswer} (hans : ans.fromKernel = true) {effects : List ClientEffect}
    (h : s.client.doConnect (scripts.callbacks cli₀) ans = .ok (cli, effects)) :
    (s.after cli effects).Live ∧ (s.client.obuf.length ≠ 0 → cli.obuf.length ≠ 0) := by
  unfold TcpClient.doConnect at h
  rw [if_neg hsock] at h
  split at h
  · cases h
  · next fd hfd =>
      have hpos : 0 ≤ fd := by simpa [ConnectAnswer.fromKernel, hfd] using hans
      simp only at h
      split at h
      · cases h
        refine ⟨⟨hready.of_obuf rfl, hpos, Or.inr ⟨hconn, ?_, ?_⟩⟩, fun hsome => hsome⟩
        · have honly : s.loop.Only fd := fun f _ => hnone f
          exact honly.addIoEvent _ _ _
        · simp [after, EventLoop.applyEffect, EventLoop.addIoEvent, EventLoop.newIoEvent, hnone,
            delayEntry]
      · cases h
      · have hup := connectionUp_up (s := { s with client := { s.client with sockfd := fd } })
          (hready.of_obuf rfl) hnone (fun _ hc => hc) h
        rcases hup with ⟨hup, hready', hsock', hkept⟩
        refine ⟨⟨hready', ?_, Or.inl hup⟩, hkept⟩
        show 0 ≤ cli.sockfd
        rw [hsock']
        exact hpos

/-- `clean_conn`, whatever is registered for the socket. -/
theorem cleanConn_live {s : ClientLoop} (hready : s.client.OutReady)
    (hsock : 0 ≤ s.client.sockfd) (honly : s.loop.Only s.client.sockfd)
    {scripts : ClientScripts} {cli₀ cli : TcpClient} {ans : ConnectAnswer}
    (hans : ans.fromKernel = true) {effects : List ClientEffect}
    (h : s.client.cleanConn (scripts.callbacks cli₀) ans = .ok (cli, effects)) :
    (s.after cli effects).Live ∧ (s.client.obuf.length ≠ 0 → cli.obuf.length ≠ 0) := by
  unfold TcpClient.cleanConn at h
  rcases bind_eq_ok.1 h with ⟨⟨cli₁, called⟩, hcall, h⟩
  rcases bind_eq_ok.1 h with ⟨⟨cli₂, connected⟩, hconnect, h⟩
  cases h
  have hopen : s.client.sockfd ≠ -1 := by omega
  -- the callback finds the client disconnected, so it sends nothing
  have hready' : TcpClient.OutReady { s.client with connected := false } := hready.of_obuf rfl
  have hsent := callbacks_close hready' hcall
  rcases hsent.of_disconnected rfl with ⟨hobuf, rfl⟩
  have hsock₁ : cli₁.sockfd = s.client.sockfd := hsent.same.2
  let t : ClientLoop := s.after cli₁ [.delIoEvent s.client.sockfd, .close s.client.sockfd]
  have hlive := doConnect_live (s := t) hsent.ready hsent.same.1 (fun f => honly.delIoEvent f)
    (by show cli₁.sockfd ≠ -1; rw [hsock₁]; exact hopen) hans hconnect
  simp only [hopen, ne_eq, not_false_eq_true, if_true, List.append_nil, after_append s cli₁]
  refine ⟨hlive.1, fun hsome => hlive.2 ?_⟩
  show cli₁.obuf.length ≠ 0
  rw [hobuf]
  exact hsome

/-- `connection_delay`: a failed connection leaves a dead client behind. -/
theorem connectionDelay_live {s : ClientLoop} (hready : s.client.OutReady)
    (hsock : 0 ≤ s.client.sockfd) (hconnecting : s.Connecting) {scripts : ClientScripts}
    {cli₀ cli : TcpClient} {soError : Int} {effects : List ClientEffect}
    (h : s.client.connectionDelay (scripts.callbacks cli₀) s.client.sockfd soError =
      .ok (cli, effects)) :
    (soError = 0 ∧ (s.after cli effects).Live) ∨
      (soError ≠ 0 ∧ cli = s.client ∧ (s.after cli effects).Dead) := by
  rcases hconnecting with ⟨hconn, honly, _⟩
  unfold TcpClient.connectionDelay at h
  split_ifs at h with hok
  · rcases bind_eq_ok.1 h with ⟨⟨cli₁, connected⟩, hup, h⟩
    cases h
    let t : ClientLoop := s.after s.client [.delIoEvent s.client.sockfd]
    have hnone : ∀ f, t.loop.ioEvs f = none := fun f => honly.delIoEvent f
    rcases connectionUp_up (s := t) hready hnone (fun _ _ => rfl) hup with
      ⟨hup, hready', hsock', _⟩
    refine Or.inl ⟨hok, hready', ?_, Or.inl hup⟩
    show 0 ≤ cli.sockfd
    rw [hsock']
    exact hsock
  · cases h
    exact Or.inr ⟨hok, rfl, hconn, fun f => honly.delIoEvent f⟩

/-! ## Reading -/

/-- Messages are sent on a connected client. -/
theorem Up.sent {s : ClientLoop} (h : s.Up (0 < s.client.obuf.length))
    (hready : s.client.OutReady) {cli : TcpClient} {effects : List ClientEffect}
    (hsent : TcpClient.Sent s.client cli effects) :
    (s.after cli effects).Up (0 < cli.obuf.length) := by
  rcases h with ⟨hconn, harms⟩
  refine up_after (hsent.same.1.trans hconn) hsent.same.2 ?_
  rcases hsent.armed with ⟨hobuf, rfl⟩ | ⟨_, hout, rfl⟩
  · rw [hobuf]
    exact harms
  · split_ifs with hempty
    · exact harms.addWrite.congr ⟨fun _ => hout, fun _ => trivial⟩
    · -- there was output before, so the write event is armed
      have hpos := hready.length_nonneg
      exact harms.congr ⟨fun _ => hout, fun _ => by omega⟩

/-- A message callback sends on the client; `_ibuf` does not matter to it. -/
theorem callbacks_message {scripts : ClientScripts} {cli₀ cli : TcpClient} {call : ClientCall}
    (hcli : cli.OutReady) (hconn : cli.connected = cli₀.connected)
    (hsock : cli.sockfd = cli₀.sockfd) {obuf : IoBuf} {effects : List ClientEffect}
    (h : (scripts.callbacks cli₀).message call cli.obuf = .ok (obuf, effects)) (ibuf : IoBuf) :
    TcpClient.Sent cli { cli with ibuf := ibuf, obuf := obuf } effects := by
  rcases bind_eq_ok.1 h with ⟨⟨cli₁, sent⟩, hsend, h⟩
  cases h
  have hready : TcpClient.OutReady { cli₀ with obuf := cli.obuf } := hcli.of_obuf rfl
  have hsent := TcpClient.sendAll_sent hready hsend
  refine ⟨⟨rfl, rfl⟩, hsent.ready.of_obuf rfl, ?_⟩
  rw [hconn, hsock]
  exact hsent.armed

theorem parseLoop_sent {scripts : ClientScripts} {cli₀ : TcpClient} {rounds : Nat} :
    ∀ {cli cli' : TcpClient} {calls : List ClientCall} {effects : List ClientEffect},
      cli.OutReady → cli.connected = cli₀.connected → cli.sockfd = cli₀.sockfd →
      cli.parseLoop (scripts.callbacks cli₀) rounds = .ok (cli', calls, effects) →
      TcpClient.Sent cli cli' effects := by
  induction rounds with
  | zero =>
      intro cli cli' calls effects _ _ _ h
      cases h
  | succ rounds ih =>
      intro cli cli' calls effects hcli hconn hsock h
      unfold TcpClient.parseLoop at h
      split_ifs at h
      · rcases bind_eq_ok.1 h with ⟨bytes, _, h⟩
        rcases bind_eq_ok.1 h with ⟨⟨obuf, called⟩, hcall, h⟩
        rcases bind_eq_ok.1 h with ⟨⟨cli₁, calls₁, effects₁⟩, hrest, h⟩
        cases h
        have hfirst := callbacks_message hcli hconn hsock hcall
          ((cli.ibuf.pop messageHeadLen).pop (MsgHead.decode bytes).length.toInt)
        exact hfirst.trans (ih hfirst.ready hconn hsock hrest)
      · cases h
        exact .refl hcli

/-- `do_read` on a connected client. -/
theorem doRead_live {s : ClientLoop} (h : s.Live) (hup : s.Up (0 < s.client.obuf.length))
    {scripts : ClientScripts} {rounds : Nat} {sock : Socket} {reconnect : ConnectAnswer}
    (hans : reconnect.fromKernel = true) {out : TcpClient.ReadOutcome}
    (hread : s.client.doRead (scripts.callbacks s.client) rounds sock reconnect = .ok out) :
    (s.after out.client out.effects).Live := by
  unfold TcpClient.doRead at hread
  rcases bind_eq_ok.1 hread with ⟨_, _, hread⟩
  split at hread
  · cases hread
    exact h
  · rcases bind_eq_ok.1 hread with ⟨_, _, hread⟩
    -- the two ways in which the connection turns out to be gone
    have hgone : ∀ {cli effects},
        s.client.cleanConn (scripts.callbacks s.client) reconnect = .ok (cli, effects) →
        (s.after cli effects).Live :=
      fun hclean => (cleanConn_live h.ready h.socket hup.2.only hans hclean).1
    split at hread
    · rcases bind_eq_ok.1 hread with ⟨⟨cli, effects⟩, hclean, hread⟩
      cases hread
      exact hgone hclean
    · rcases bind_eq_ok.1 hread with ⟨⟨cli, effects⟩, hclean, hread⟩
      cases hread
      exact hgone hclean
    · rcases bind_eq_ok.1 hread with ⟨filled, _, hread⟩
      rcases bind_eq_ok.1 hread with ⟨_, _, hread⟩
      rcases bind_eq_ok.1 hread with ⟨⟨cli, calls, effects⟩, hparse, hread⟩
      rcases bind_eq_ok.1 hread with ⟨ibuf, _, hread⟩
      cases hread
      have hready : TcpClient.OutReady { s.client with ibuf := filled } := h.ready.of_obuf rfl
      have hsent := parseLoop_sent hready (by rfl) (by rfl) hparse
      have hsent' : TcpClient.Sent s.client { cli with ibuf := ibuf } effects :=
        ⟨hsent.same, hsent.ready.of_obuf rfl, hsent.armed⟩
      refine ⟨hsent'.ready, ?_, Or.inl (hup.sent h.ready hsent')⟩
      show 0 ≤ cli.sockfd
      rw [hsent.same.2]
      exact h.socket

/-! ## Writing -/

/-- In the loop of `do_write` no write that takes all of `_obuf` goes to a socket whose connection
is still in progress. -/
def writesConnected (cbs : ClientCallbacks) : TcpClient → List WriteAnswer → Bool
  | _, [] => true
  | cli, ans :: answers =>
      if cli.obuf.length ≠ 0 then
        match ans.write.ret with
        | .again => true
        | .error =>
            match cli.cleanConn cbs ans.reconnect with
            | .error _ => true
            | .ok (cli, _) => writesConnected cbs cli answers
        | .wrote n =>
            (cli.connected || n < cli.obuf.length) &&
              match (cli.obuf.pop (min n cli.obuf.length.toNat : Nat)).adjust with
              | .error _ => true
              | .ok obuf => writesConnected cbs { cli with obuf := obuf } answers
      else
        true

/-- Inside the loop of `do_write` the write event stays armed until the loop is left. -/
structure Writing (s : ClientLoop) : Prop where
  ready : s.client.OutReady
  socket : 0 ≤ s.client.sockfd
  status : s.Up True ∨ s.Connecting

theorem Writing.only {s : ClientLoop} (h : s.Writing) : s.loop.Only s.client.sockfd := by
  rcases h.status with hup | hconnecting
  · exact hup.2.only
  · exact hconnecting.2.1

theorem Live.writing {s : ClientLoop} (h : s.Live) (hout : s.client.obuf.length ≠ 0) :
    s.Writing := by
  refine ⟨h.ready, h.socket, ?_⟩
  have hpos := h.ready.length_nonneg
  rcases h.status with ⟨hconn, harms⟩ | hconnecting
  · exact Or.inl ⟨hconn, harms.congr ⟨fun _ => trivial, fun _ => by omega⟩⟩
  · exact Or.inr hconnecting

/-- Some bytes are written. -/
theorem Writing.written {s : ClientLoop} (h : s.Writing) {obuf : IoBuf}
    (hready : TcpClient.OutReady { s.client with obuf := obuf }) :
    (s.after { s.client with obuf := obuf } []).Writing :=
  ⟨hready, h.socket, h.status⟩

theorem writeLoop_writing {scripts : ClientScripts} {cli₀ : TcpClient}
    {answers : List WriteAnswer} :
    ∀ {s : ClientLoop} {out : TcpClient.WriteOutcome}, s.Writing →
      (∀ ans ∈ answers, ans.reconnect.fromKernel = true) →
      s.client.writeLoop (scripts.callbacks cli₀) answers = .ok out →
      (s.after out.client out.effects).Writing ∧
      (writesConnected (scripts.callbacks cli₀) s.client answers = true →
        (s.client.connected = false → s.client.obuf.length ≠ 0) →
        (out.client.connected = false → out.client.obuf.length ≠ 0)) := by
  induction answers with
  | nil =>
      intro s out h _ hloop
      simp only [TcpClient.writeLoop] at hloop
      split_ifs at hloop
      cases hloop
      exact ⟨h, fun _ hsome => hsome⟩
  | cons ans answers ih =>
      intro s out h hans hloop
      have hrest : ∀ a ∈ answers, a.reconnect.fromKernel = true := fun a ha => hans a (by simp [ha])
      simp only [TcpClient.writeLoop] at hloop
      split_ifs at hloop with hempty
      · cases hret : ans.write.ret with
        | again =>
            simp only [hret] at hloop
            cases hloop
            exact ⟨h, fun _ hsome => hsome⟩
        | error =>
            -- the client reconnects, and the loop goes on with the new socket
            simp only [hret] at hloop
            rcases bind_eq_ok.1 hloop with ⟨⟨cli, effects⟩, hclean, hloop⟩
            rcases bind_eq_ok.1 hloop with ⟨out', hloop', hloop⟩
            cases hloop
            rcases cleanConn_live h.ready h.socket h.only (hans ans (by simp)) hclean with
              ⟨hlive, hkept⟩
            have hsome := hkept hempty
            rcases ih (s := s.after cli effects) (hlive.writing hsome) hrest hloop' with
              ⟨hwriting, hconnected⟩
            refine ⟨by rw [after_append s cli]; exact hwriting, fun hwrites _ => ?_⟩
            refine hconnected ?_ fun _ => hsome
            simp only [writesConnected, hempty, ne_eq, not_false_eq_true, if_true, hret,
              hclean] at hwrites
            exact hwrites
        | wrote n =>
            simp only [hret] at hloop
            set k := min n s.client.obuf.length.toNat with hk
            split_ifs at hloop with hsome
            · rcases h.ready.written (n := k) (by omega) with
                ⟨bytes, obuf, hload, hadj, hready, hpend⟩
              simp only [hload, ok_bind, hadj] at hloop
              rcases bind_eq_ok.1 hloop with ⟨out', hloop', hloop⟩
              cases hloop
              rcases ih (h.written hready) hrest hloop' with ⟨hwriting, hconnected⟩
              refine ⟨hwriting, fun hwrites _ => ?_⟩
              simp only [writesConnected, hempty, ne_eq, not_false_eq_true, if_true, hret, ← hk,
                hadj, Bool.and_eq_true] at hwrites
              refine hconnected hwrites.2 fun hdown => ?_
              -- while the connection is in progress, something is left
              have hleft : (n : Int) < s.client.obuf.length := by
                have hdown' : s.client.connected = false := hdown
                simpa [hdown'] using hwrites.1
              have hlen := h.ready.length_written (by omega) hload hready hpend
              show obuf.length ≠ 0
              omega
            · cases hloop
              exact ⟨h, fun _ hsome => hsome⟩
      · cases hloop
        exact ⟨h, fun _ hsome => hsome⟩

/-- `do_write` on a connected client.  If it leaves a dead client behind, a write has taken all of
`_obuf` before the connection was established. -/
theorem doWrite_live {s : ClientLoop} (h : s.Live) (hup : s.Up (0 < s.client.obuf.length))
    {scripts : ClientScripts} {answers : List WriteAnswer}
    (hans : ∀ ans ∈ answers, ans.reconnect.fromKernel = true) {out : TcpClient.WriteOutcome}
    (hwrite : s.client.doWrite (scripts.callbacks s.client) answers = .ok out) :
    (s.after out.client out.effects).Live ∨
      (writesConnected (scripts.callbacks s.client) s.client answers = false ∧
        out.client.OutReady ∧ 0 ≤ out.client.sockfd ∧ (s.after out.client out.effects).Dead) := by
  unfold TcpClient.doWrite at hwrite
  rcases bind_eq_ok.1 hwrite with ⟨_, hguard, hwrite⟩
  rcases bind_eq_ok.1 hwrite with ⟨out', hloop, hwrite⟩
  have hsome : s.client.obuf.length ≠ 0 := by
    have := assert_eq_ok.1 hguard
    simp only [decide_eq_true_eq] at this
    exact this.2
  rcases writeLoop_writing (h.writing hsome) hans hloop with ⟨hwriting, hconnected⟩
  have hpos := hwriting.ready.length_nonneg
  change 0 ≤ out'.client.obuf.length at hpos
  split_ifs at hwrite with hempty
  · cases hwrite
    rw [after_append s out'.client]
    rcases hwriting.status with ⟨hconn, harms⟩ | ⟨hconn, honly, hentry⟩
    · -- the write event is taken back
      have hnone : ¬ 0 < out'.client.obuf.length := by omega
      refine Or.inl ⟨hwriting.ready, hwriting.socket, Or.inl ⟨hconn, ?_⟩⟩
      exact harms.delWrite.congr ⟨False.elim, hnone⟩
    · -- what is taken back is `connection_delay`
      refine Or.inr ⟨?_, hwriting.ready, hwriting.socket, hconn, ?_⟩
      · by_contra hwrites
        refine hconnected (by simpa using hwrites) ?_ hconn hempty
        intro hdown
        rw [hup.1] at hdown
        cases hdown
      · intro f
        have hdel := delIoEventMask_delayEntry hentry
        show ((s.after out'.client out'.effects).loop.delIoEventMask _ .epollout).ioEvs f = none
        exact hdel ▸ honly.delIoEvent f
  · cases hwrite
    have hout : 0 < out.client.obuf.length := by omega
    refine Or.inl ⟨hwriting.ready, hwriting.socket, ?_⟩
    rcases hwriting.status with ⟨hconn, harms⟩ | hconnecting
    · exact Or.inl ⟨hconn, harms.congr ⟨fun _ => hout, fun _ => trivial⟩⟩
    · exact Or.inr hconnecting

end ClientLoop
end Reactor
end Rins
