import Rins.Reactor.ClientLoop

/-!
# ClientEvents — runs of a `tcp_client` on its event loop

From the constructor on, through any number of connections: the write event is armed exactly while
the client is connected and has output, so no output is stranded and the assertions at the beginning
of `do_write` and `do_read` hold.

A client can go dead, though.  `connection_delay` takes back the event of the socket and does
nothing about a connection that has failed, and `do_write` takes back the event of
`connection_delay` if the connection it has made itself is established early enough to take all of
the output.
-/

namespace Rins
namespace Reactor
namespace ClientLoop

open Lib

/-- The callback is armed for the socket. -/
def Armed (s : ClientLoop) (mask : EpollMask) (proc : ClientProc) : Prop :=
  mask ∈ s.loop.maskOf s.client.sockfd ∧ s.loop.callbackOf s.client.sockfd mask = some proc

/-- `event_process` calls the callback for the event. -/
def Calls (s : ClientLoop) (fired : FiredEvents) (proc : ClientProc) : Prop :=
  s.loop.dispatch s.client.sockfd fired = some (.readCallback proc) ∨
    s.loop.dispatch s.client.sockfd fired = some (.writeCallback proc)

/-! ## Which callback is called -/

theorem Up.entry {s : ClientLoop} {writing : Prop} (h : s.Up writing) :
    ∃ ev, s.loop.ioEvs s.client.sockfd = some ev ∧ ev.readCallback = some .readCallback ∧
      (.epollout ∈ ev.mask ↔ writing) ∧
      (.epollout ∈ ev.mask → ev.writeCallback = some .writeCallback) := by
  rcases h with ⟨_, harms⟩
  have hin := harms.reads.2 trivial
  have hread := harms.readCallback hin
  have hwrites := harms.writes
  have hwrite := harms.writeCallback
  unfold EventLoop.maskOf at hin hwrites hwrite
  unfold EventLoop.callbackOf at hread hwrite
  cases hev : s.loop.ioEvs s.client.sockfd with
  | none => simp [hev] at hin
  | some ev =>
      simp only [hev] at hread hwrites hwrite
      exact ⟨ev, rfl, hread, hwrites, hwrite⟩

/-- A connected client: the event is for `do_read`, or for `do_write` if there is output. -/
theorem Up.dispatch {s : ClientLoop} (h : s.Up (0 < s.client.obuf.length)) {fired : FiredEvents}
    (hfire : s.mayFire fired = true) :
    s.loop.dispatch s.client.sockfd fired = some .nothing ∨
      s.loop.dispatch s.client.sockfd fired = some (.readCallback .readCallback) ∨
      (s.loop.dispatch s.client.sockfd fired = some (.writeCallback .writeCallback) ∧
        0 < s.client.obuf.length) := by
  rcases h.entry with ⟨ev, hev, hread, hwrites, hwrite⟩
  have hadmissible : fired.Admissible ev.mask := by simpa [mayFire, hev] using hfire
  unfold EventLoop.dispatch
  simp only [hev, hread]
  split_ifs with hin hout hhup
  · exact Or.inr (Or.inl rfl)
  · have hmask := hadmissible.2 hout
    exact Or.inr (Or.inr ⟨by simp [hwrite hmask], hwrites.1 hmask⟩)
  · exact Or.inr (Or.inl rfl)
  · exact Or.inl rfl

/-- A client whose connection is in progress: the event is for `connection_delay`. -/
theorem Connecting.dispatch {s : ClientLoop} (h : s.Connecting) {fired : FiredEvents}
    (hfire : s.mayFire fired = true) :
    s.loop.dispatch s.client.sockfd fired = some .nothing ∨
      s.loop.dispatch s.client.sockfd fired = some (.writeCallback .connectionDelay) := by
  rcases h with ⟨_, _, hev⟩
  have hadmissible : fired.Admissible delayEntry.mask := by simpa [mayFire, hev] using hfire
  unfold EventLoop.dispatch
  simp only [hev]
  split_ifs with hin hout hhup
  · exact absurd (hadmissible.1 hin) (by simp [delayEntry])
  · exact Or.inr rfl
  · exact Or.inr rfl
  · exact Or.inl rfl

/-! ## One step -/

/-- The condition: a connection that was in progress is established, and `do_write` does not empty
`_obuf` into a socket whose connection is in progress. -/
def Survives (s : ClientLoop) : Act → Bool
  | .send _ => true
  | .fire fired scripts ans =>
      match s.loop.dispatch s.client.sockfd fired with
      | some (.writeCallback .connectionDelay) => ans.soError = 0
      | some (.writeCallback .writeCallback) =>
          writesConnected (scripts.callbacks s.client) s.client ans.writes
      | _ => true

/-- The invariant. -/
def Inv (s : ClientLoop) : Prop :=
  s.Live ∨ (s.client.OutReady ∧ 0 ≤ s.client.sockfd ∧ s.Dead)

theorem send_live {s t : ClientLoop} (h : s.Live) {args : Session.SendArgs}
    (hstep : s.step (.send args) = some t) : t.Live := by
  simp only [step] at hstep
  split at hstep
  · cases hstep
  · next ret cli effects hsend =>
      cases hstep
      have hsent := TcpClient.sendMessage_sent h.ready hsend
      have hsock : 0 ≤ cli.sockfd := by
        rw [hsent.same.2]
        exact h.socket
      refine ⟨hsent.ready, hsock, ?_⟩
      rcases h.status with hup | hconnecting
      · exact Or.inl (hup.sent h.ready hsent)
      · -- nothing is sent while the connection is in progress
        rcases hsent.of_disconnected hconnecting.1 with ⟨_, rfl⟩
        refine Or.inr ⟨hsent.same.1.trans hconnecting.1, ?_, ?_⟩
        · show s.loop.Only cli.sockfd
          rw [hsent.same.2]
          exact hconnecting.2.1
        · show s.loop.ioEvs cli.sockfd = _
          rw [hsent.same.2]
          exact hconnecting.2.2

theorem fire_live {s t : ClientLoop} (h : s.Live) {fired : FiredEvents} {scripts : ClientScripts}
    {ans : ClientAnswers} (hstep : s.step (.fire fired scripts ans) = some t) :
    t.Live ∨ (s.Survives (.fire fired scripts ans) = false ∧ t.client.OutReady ∧
      0 ≤ t.client.sockfd ∧ t.Dead) := by
  simp only [step] at hstep
  split_ifs at hstep with hfire
  have hkernel : ans.reconnect.fromKernel = true ∧
      ∀ w ∈ ans.writes, w.reconnect.fromKernel = true := by
    simpa [ClientAnswers.fromKernel] using hfire.2
  simp only [Survives]
  rcases h.status with hup | hconnecting
  · rcases hup.dispatch hfire.1 with hd | hd | ⟨hd, _⟩
    · simp only [hd] at hstep
      cases hstep
      exact Or.inl h
    · simp only [hd] at hstep
      split at hstep
      · cases hstep
      · next cli effects hhandle =>
          cases hstep
          rcases bind_eq_ok.1 hhandle with ⟨out, hread, hhandle⟩
          cases hhandle
          exact Or.inl (doRead_live h hup hkernel.1 hread)
    · simp only [hd] at hstep ⊢
      split at hstep
      · cases hstep
      · next cli effects hhandle =>
          cases hstep
          rcases bind_eq_ok.1 hhandle with ⟨out, hwrite, hhandle⟩
          cases hhandle
          exact doWrite_live h hup hkernel.2 hwrite
  · rcases hconnecting.dispatch hfire.1 with hd | hd
    · simp only [hd] at hstep
      cases hstep
      exact Or.inl h
    · simp only [hd] at hstep ⊢
      split at hstep
      · cases hstep
      · next cli effects hhandle =>
          cases hstep
          rcases connectionDelay_live h.ready h.socket hconnecting hhandle with
            ⟨_, hlive⟩ | ⟨hfailed, rfl, hdead⟩
          · exact Or.inl hlive
          · exact Or.inr ⟨by simpa using hfailed, h.ready, h.socket, hdead⟩

/-- A dead client stays dead. -/
theorem dead_step {s t : ClientLoop} (hready : s.client.OutReady) (hsock : 0 ≤ s.client.sockfd)
    (hdead : s.Dead) {a : Act} (hstep : s.step a = some t) :
    t.client.OutReady ∧ 0 ≤ t.client.sockfd ∧ t.Dead := by
  cases a with
  | send args =>
      simp only [step] at hstep
      split at hstep
      · cases hstep
      · next ret cli effects hsend =>
          cases hstep
          have hsent := TcpClient.sendMessage_sent hready hsend
          rcases hsent.of_disconnected hdead.1 with ⟨_, rfl⟩
          refine ⟨hsent.ready, ?_, hsent.same.1.trans hdead.1, hdead.2⟩
          show 0 ≤ cli.sockfd
          rw [hsent.same.2]
          exact hsock
  | fire fired scripts ans =>
      simp [step, mayFire, hdead.2] at hstep

theorem step_inv {s t : ClientLoop} {a : Act} (h : s.Inv) (hstep : s.step a = some t) : t.Inv := by
  rcases h with hlive | ⟨hready, hsock, hdead⟩
  · cases a with
    | send args => exact Or.inl (send_live hlive hstep)
    | fire fired scripts ans =>
        rcases fire_live hlive hstep with hlive' | ⟨_, hdead⟩
        · exact Or.inl hlive'
        · exact Or.inr hdead
  · exact Or.inr (dead_step hready hsock hdead hstep)

theorem step_live {s t : ClientLoop} {a : Act} (h : s.Live) (hsurvives : s.Survives a = true)
    (hstep : s.step a = some t) : t.Live := by
  cases a with
  | send args => exact send_live h hstep
  | fire fired scripts ans =>
      rcases fire_live h hstep with hlive | ⟨hfalse, _⟩
      · exact hlive
      · rw [hsurvives] at hfalse
        cases hfalse

theorem init_live {scripts : ClientScripts} {ans : ConnectAnswer} {s : ClientLoop}
    (h : init scripts ans = some s) : s.Live := by
  unfold init at h
  split_ifs at h with hans
  split at h
  · cases h
  · next cli effects hconnect =>
      cases h
      exact (doConnect_live (s := ⟨.new, .new⟩) (TcpClient.new_outReady false 0) rfl
        (fun _ => rfl) (by decide) hans hconnect).1

/-! ## Runs -/

theorem Inv.ready {s : ClientLoop} (h : s.Inv) : s.client.OutReady := by
  rcases h with hlive | ⟨hready, _⟩
  · exact hlive.ready
  · exact hready

theorem Dead.maskOf {s : ClientLoop} (h : s.Dead) : s.loop.maskOf s.client.sockfd = ∅ := by
  simp [EventLoop.maskOf, h.2]

theorem Connecting.armed {s : ClientLoop} (h : s.Connecting) :
    s.loop.maskOf s.client.sockfd = {.epollout} ∧
      s.loop.callbackOf s.client.sockfd .epollout = some .connectionDelay := by
  simp [EventLoop.maskOf, EventLoop.callbackOf, h.2.2, delayEntry, IoEvent.callback]

theorem Inv.writeArmed_iff {s : ClientLoop} (h : s.Inv) :
    s.Armed .epollout .writeCallback ↔ s.client.connected = true ∧ 0 < s.client.obuf.length := by
  unfold Armed
  rcases h with hlive | ⟨_, _, hdead⟩
  · rcases hlive.status with ⟨hconn, harms⟩ | hconnecting
    · rw [harms.writes]
      exact ⟨fun hw => ⟨hconn, hw.1⟩, fun hw => ⟨hw.2, harms.writeCallback (harms.writes.2 hw.2)⟩⟩
    · simp [hconnecting.1, hconnecting.armed.2]
  · simp [hdead.maskOf, hdead.1]

theorem Inv.connected_of_readArmed {s : ClientLoop} (h : s.Inv)
    (harmed : s.Armed .epollin .readCallback) : s.client.connected = true := by
  rcases h with hlive | ⟨_, _, hdead⟩
  · rcases hlive.status with ⟨hconn, _⟩ | hconnecting
    · exact hconn
    · simp [Armed, hconnecting.armed.1] at harmed
  · simp [Armed, hdead.maskOf] at harmed

/-- What is true of the client when one of its callbacks is called. -/
theorem Inv.calls {s : ClientLoop} (h : s.Inv) {fired : FiredEvents} {proc : ClientProc}
    (hfire : s.mayFire fired = true) (hcalls : s.Calls fired proc) :
    (proc = .readCallback ∧ s.client.connected = true) ∨
      (proc = .writeCallback ∧ 0 < s.client.obuf.length) ∨ proc = .connectionDelay := by
  unfold Calls at hcalls
  rcases h with hlive | ⟨_, _, hdead⟩
  · rcases hlive.status with hup | hconnecting
    · rcases hup.dispatch hfire with hd | hd | ⟨hd, hout⟩
      · simp [hd] at hcalls
      · simp only [hd, Option.some.injEq, Dispatch.readCallback.injEq, reduceCtorEq,
          or_false] at hcalls
        exact Or.inl ⟨hcalls.symm, hup.1⟩
      · simp only [hd, Option.some.injEq, Dispatch.writeCallback.injEq, reduceCtorEq,
          false_or] at hcalls
        exact Or.inr (Or.inl ⟨hcalls.symm, hout⟩)
    · rcases hconnecting.dispatch hfire with hd | hd
      · simp [hd] at hcalls
      · simp only [hd, Option.some.injEq, Dispatch.writeCallback.injEq, reduceCtorEq,
          false_or] at hcalls
        exact Or.inr (Or.inr hcalls.symm)
  · simp [mayFire, hdead.2] at hfire

/-- Whatever the kernel answers and the callbacks send: between two events the write event is armed
if and only if the client is connected and has output, `_obuf` begins at its front, and the read
event is armed only while the client is connected.  The assertions with which `do_write` and
`do_read` begin hold whenever the event loop calls them. -/
theorem clientEvents_armed (scripts : ClientScripts) (ans : ConnectAnswer) (acts : List Act)
    (s₀ s : ClientLoop) (hinit : init scripts ans = some s₀) (hrun : run step s₀ acts = some s) :
    (s.Armed .epollout .writeCallback ↔
      s.client.connected = true ∧ 0 < s.client.obuf.length) ∧
    s.client.obuf.head = 0 ∧
    (s.Armed .epollin .readCallback → s.client.connected = true) ∧
    ∀ fired, s.mayFire fired = true →
      (s.Calls fired .writeCallback →
        assert (s.client.obuf.head = 0 ∧ s.client.obuf.length ≠ 0) = .ok ()) ∧
      (s.Calls fired .readCallback → assert s.client.connected = .ok ()) := by
  have h : s.Inv := run_invariant_always (fun _ _ _ => step_inv) (Or.inl (init_live hinit)) hrun
  refine ⟨h.writeArmed_iff, h.ready.front, h.connected_of_readArmed, fun fired hfire => ⟨?_, ?_⟩⟩
  · intro hcalls
    rcases h.calls hfire hcalls with ⟨hproc, _⟩ | ⟨_, hout⟩ | hproc
    · cases hproc
    · have hsome : s.client.obuf.length ≠ 0 := by omega
      exact assert_eq_ok.2 (by simp [h.ready.front, hsome])
    · cases hproc
  · intro hcalls
    rcases h.calls hfire hcalls with ⟨_, hconn⟩ | ⟨hproc, _⟩ | hproc
    · exact assert_eq_ok.2 hconn
    · cases hproc
    · cases hproc

/-- Every callback sends one message. -/
def chatty : ClientScripts :=
  { connStart := fun _ => [⟨[1], 1, 1⟩]
    connClose := fun _ => [⟨[2], 1, 2⟩]
    message := fun _ _ => [⟨[3], 1, 3⟩] }

/-- Answers to an event in which nothing is read. -/
def answers (soError : Int) (writes : List WriteAnswer) : ClientAnswers :=
  { soError := soError
    sock := { fionread := none, read := .error }
    rounds := 0
    reconnect := { socket := none, connect := .failed }
    writes := writes }

/-- A write of the loop in `do_write`, and where `do_connect` gets to if the write fails. -/
def writeAnswer (write : SysWrite) (fd : Int) (connect : ConnectRet) : WriteAnswer :=
  { write := write, reconnect := { socket := some fd, connect := connect } }

/-- The write fails after four bytes, the client reconnects at once, and the new socket takes five
bytes more. -/
def reconnects : List Act :=
  [.send ⟨[7], 1, 7⟩,
    .fire ⟨false, true, false⟩ chatty (answers 0
      [writeAnswer (.wrote 4) 3 .failed, writeAnswer .error 4 .done,
        writeAnswer (.eintr (.wrote 5)) 3 .failed, writeAnswer .again 3 .failed])]

theorem clientEvents_armed_reconnects :
    ∃ s₀ s, init chatty ⟨some 3, .done⟩ = some s₀ ∧ run step s₀ reconnects = some s ∧
      s.client.sockfd = 4 ∧ s.Armed .epollout .writeCallback := by
  have hcheck : ((init chatty ⟨some 3, .done⟩).bind fun s₀ => run step s₀ reconnects).map
      (fun s => (s.client.sockfd, s.client.connected, s.client.obuf.length)) =
      some (4, true, 18) := by
    decide +kernel
  rcases Option.map_eq_some_iff.1 hcheck with ⟨s, hrun, hs⟩
  rcases Option.bind_eq_some_iff.1 hrun with ⟨s₀, hinit, hrun⟩
  simp only [Prod.mk.injEq] at hs
  rcases hs with ⟨hsock, hconn, hlen⟩
  refine ⟨s₀, s, hinit, hrun, hsock, ?_⟩
  exact (clientEvents_armed chatty ⟨some 3, .done⟩ reconnects s₀ s hinit hrun).1.2
    ⟨hconn, by rw [hlen]; decide⟩

/-- In a run in which every connection that was in progress is established, and no `do_write`
empties `_obuf` into a socket whose connection is in progress: the client is connected and reads, or
`connection_delay` waits for the connection. -/
theorem clientEvents_live (scripts : ClientScripts) (ans : ConnectAnswer) (acts : List Act)
    (s₀ s : ClientLoop) (hinit : init scripts ans = some s₀)
    (hsurvives : Meets step (fun s a => s.Survives a = true) s₀ acts)
    (hrun : run step s₀ acts = some s) :
    (s.client.connected = true ∧ s.Armed .epollin .readCallback) ∨
      (s.client.connected = false ∧ s.Armed .epollout .connectionDelay) := by
  have h : s.Live :=
    run_invariant (fun _ _ _ => step_live) (init_live hinit) hsurvives hrun
  rcases h.status with ⟨hconn, harms⟩ | hconnecting
  · have hin := harms.reads.2 trivial
    exact Or.inl ⟨hconn, hin, harms.readCallback hin⟩
  · refine Or.inr ⟨hconnecting.1, ?_⟩
    simp [Armed, hconnecting.armed]

/-- The connection is established, a write fails, and the next connection is in progress. -/
def loses : List Act :=
  [.fire ⟨false, true, false⟩ chatty (answers 0 []),
    .fire ⟨false, true, false⟩ chatty (answers 0
      [writeAnswer .error 4 .inProgress, writeAnswer .again 3 .failed])]

theorem clientEvents_live_loses :
    ∃ s₀ s, init chatty ⟨some 3, .inProgress⟩ = some s₀ ∧ run step s₀ loses = some s ∧
      s.client.connected = false ∧ s.Armed .epollout .connectionDelay := by
  have hcheck : ((init chatty ⟨some 3, .inProgress⟩).bind fun s₀ => run step s₀ loses).map
      (fun s => s.client.connected) = some false := by
    decide +kernel
  have hmeets : (init chatty ⟨some 3, .inProgress⟩).all
      (fun s₀ => Meets step (fun s a => s.Survives a = true) s₀ loses) = true := by
    decide +kernel
  rcases Option.map_eq_some_iff.1 hcheck with ⟨s, hrun, hconn⟩
  rcases Option.bind_eq_some_iff.1 hrun with ⟨s₀, hinit, hrun⟩
  have hsurvives : Meets step (fun s a => s.Survives a = true) s₀ loses := by
    simpa [hinit] using hmeets
  refine ⟨s₀, s, hinit, hrun, hconn, ?_⟩
  rcases clientEvents_live chatty ⟨some 3, .inProgress⟩ loses s₀ s hinit hsurvives hrun with
    ⟨hup, _⟩ | ⟨_, harmed⟩
  · rw [hconn] at hup
    cases hup
  · exact harmed

/-- The connection cannot be established. -/
def refused : List Act :=
  [.fire ⟨false, true, false⟩ chatty (answers 111 [])]

/-- Nothing is registered for the socket of the client, and it is not connected. -/
theorem clientEvents_dead :
    ∃ s₀ s, init chatty ⟨some 3, .inProgress⟩ = some s₀ ∧ run step s₀ refused = some s ∧
      s.client.connected = false ∧ s.loop.ioEvs s.client.sockfd = none := by
  have hcheck : ((init chatty ⟨some 3, .inProgress⟩).bind fun s₀ => run step s₀ refused).map
      (fun s => (s.client.connected, (s.loop.ioEvs s.client.sockfd).isNone)) =
      some (false, true) := by
    decide +kernel
  rcases Option.map_eq_some_iff.1 hcheck with ⟨s, hrun, hs⟩
  rcases Option.bind_eq_some_iff.1 hrun with ⟨s₀, hinit, hrun⟩
  simp only [Prod.mk.injEq, Option.isNone_iff_eq_none] at hs
  exact ⟨s₀, s, hinit, hrun, hs⟩

end ClientLoop
end Reactor
end Rins
