import Rins.Agent.AgentServer
import Rins.Agent.DnsClient
import Rins.Agent.PullProtocol
import Rins.Base.Messages
import Rins.Reactor.UdpClient

/-!
# AgentRuns — the three servers and the DNS client at work

The UDP servers of the agent and its DNS client run in threads of their own and meet in the three
`route_lb`s.  A step is a datagram that a server handles, or a message that the DNS client handles;
the `route_lb` in between is locked by both.

The servers are given their routers at the start: those of `agent_server_main`, where the callback
has a null pointer for its `user_data`, or routers with a pointer to a `route_lb`, which is what the
callback expects.
-/

namespace Rins
namespace Reactor

open Lib

variable {Addr κ σ : Type}

/-- What does not fit is cut off before anything looks at it. -/
theorem UdpServer.receive_cut (s : UdpServer Addr κ) (pkg : List UInt8) (addr : Addr) :
    s.receive pkg addr =
      .ok ({ s with
        readBuf := (s.readBuf.recvfrom (pkg.take messageLengthLimit)).2, clientAddr := addr },
        judge (pkg.take messageLengthLimit)) := by
  have hcut : s.receive pkg addr = s.receive (pkg.take messageLengthLimit) addr := by
    simp [receive, CharArray.recvfrom, List.take_take]
  rw [hcut]
  exact s.receive_eq addr (List.length_take_le _ _)

/-- One datagram is received, and the callback for its id is called. -/
theorem UdpServer.doRead_pkg (callback : UdpServer.Callback Addr κ σ) (s : UdpServer Addr κ)
    (pkg : List UInt8) (addr : Addr) (st : σ) :
    ∃ readBuf, s.doRead callback [.pkg pkg addr, .failed] st =
      match (judge (pkg.take messageLengthLimit)).bind fun m =>
        (s.router.call m.id).map fun cb => (cb, m) with
      | none => .ok ({ s with readBuf := readBuf, clientAddr := addr }, st, [])
      | some (cb, m) => callback cb m { s with readBuf := readBuf, clientAddr := addr } st := by
  refine ⟨(s.readBuf.recvfrom (pkg.take messageLengthLimit)).2, ?_⟩
  simp only [doRead, receive_cut, ok_bind]
  cases (judge (pkg.take messageLengthLimit)).bind fun m =>
    (s.router.call m.id).map fun cb => (cb, m) with
  | none => rfl
  | some found =>
      rcases found with ⟨cb, m⟩
      simp only [List.append_nil]
      exact bind_pure _

/-- A message that fits is packed, whether `sendto` succeeds or not. -/
theorem UdpServer.sendMessage_packs (s : UdpServer Addr κ) {body : List UInt8} (id : Int32)
    (hfit : body.length + messageHeadLen ≤ messageLengthLimit) (sent : Bool) :
    ∃ ret writeBuf, s.sendMessage body (Int32.ofNat body.length) id sent =
      .ok (ret, { s with writeBuf := writeBuf },
        if sent then [⟨s.clientAddr, (Message.of id body).encode⟩] else []) := by
  have hlen : (Int32.ofNat body.length).toInt = body.length := by
    simp only [messageHeadLen, messageLengthLimit] at hfit
    exact Int32.toInt_ofNat_of_lt (by omega)
  rcases @pack_ok s.writeBuf body _ id (by omega : 0 ≤ (Int32.ofNat body.length).toInt)
    (by omega) (by omega) with ⟨headed, filled, hhead, hcaller, hfill, hload⟩
  have hall : body.take (Int32.ofNat body.length).toInt.toNat = body := by
    rw [hlen]
    exact List.take_length
  rw [hall] at hcaller hfill hload
  unfold sendMessage
  rw [if_neg (by omega)]
  simp only [hhead, hcaller, hfill, hload, ok_bind]
  cases sent with
  | true => exact ⟨_, _, rfl⟩
  | false => exact ⟨_, _, rfl⟩

end Reactor

namespace Agent

open Dns (routeKey)
open Lib
open Proto (Codec GetHostRequest GetHostResponse HostCodec MessageId RetCode)
open Reactor

/-! ## One datagram -/

/-- What the agent says of a request when it has no hosts. -/
def noexist (req : GetHostRequest) : GetHostResponse :=
  { seq := req.seq, modid := req.modid, cmdid := req.cmdid, retcode := RetCode.noexist.num,
    host := none }

/-- A datagram that `get_host_cb` is called for. -/
def hostRequest (pkg : List UInt8) : Option Message :=
  (judge (pkg.take messageLengthLimit)).filter fun m => m.id = MessageId.getHostRequest.num

/-- The router finds `get_host_cb` for the requests, and nothing for the others. -/
theorem agentRouter_bind (userdata : Option (Fin 3)) (pkg : List UInt8) :
    ((judge (pkg.take messageLengthLimit)).bind fun m =>
      ((agentRouter userdata).call m.id).map fun cb => (cb, m)) =
      (hostRequest pkg).map fun m => (.getHostCb userdata, m) := by
  unfold hostRequest
  cases judge (pkg.take messageLengthLimit) with
  | none => rfl
  | some m =>
      by_cases hid : m.id = MessageId.getHostRequest.num
      · simp [hid, agentRouter, MsgRouter.call_register_self]
      · simp [hid, agentRouter, MsgRouter.call_register_ne]

theorem getHost_waiting {r : RouteLb} (h : r.Waiting) (modid cmdid : Int32)
    (resp : GetHostResponse) (garbage : Status × Int) :
    ∃ out, r.getHost modid cmdid resp garbage = .ok out ∧
      out.resp = { resp with retcode := RetCode.noexist.num } ∧ out.routeLb.Waiting := by
  rcases PullLog.getHost_of_waiting h modid cmdid resp garbage with ⟨out, hget, _⟩
  refine ⟨out, hget, ?_, h.getHost hget⟩
  unfold RouteLb.getHost at hget
  dsimp only at hget
  split at hget
  · next lb hlb =>
      rw [if_pos (h _ lb hlb).1.empty] at hget
      rcases bind_eq_ok.1 hget with ⟨_, _, hout⟩
      cases hout
      rfl
  · cases hget
    rfl

section Datagram

variable {Addr : Type} (w : Wire)

/-- The datagram with which the agent answers a request when it has no hosts. -/
def noexistReply (m : Message) : List UInt8 :=
  (Message.of m.id ((Proto.hostCodec w).serializeResponse
    (noexist ((Proto.hostCodec w).parseRequest m.body)))).encode

/-- `get_host_cb` with a pointer to a `route_lb`, while no `route_lb` has hosts. -/
theorem getHostCb_waiting {st : AgentState} (h : ∀ j, (st.lbs j).Waiting) (i : Fin 3)
    (garbage : Status × Int) (sent : Bool) (m : Message) (conn : UdpServer Addr AgentCallback) :
    ∃ writeBuf st', getHostCb (Proto.hostCodec w) garbage sent (.getHostCb (some i)) m conn st =
        .ok ({ conn with writeBuf := writeBuf }, st',
          if sent then [⟨conn.clientAddr, noexistReply w m⟩] else []) ∧
      ∀ j, (st'.lbs j).Waiting := by
  let req := (Proto.hostCodec w).parseRequest m.body
  rcases getHost_waiting (h i) req.modid req.cmdid
    { seq := req.seq, modid := req.modid, cmdid := req.cmdid, retcode := 0, host := none } garbage
    with ⟨out, hget, hresp, hwaiting⟩
  -- the response is short, so that it is packed
  have hfit : ((Proto.hostCodec w).serializeResponse out.resp).length + messageHeadLen ≤
      messageLengthLimit := by
    have hsize := Proto.getHostResponse_byteSizeLong_le w out.resp
    rw [MessageType.byteSizeLong_eq] at hsize
    refine Nat.le_trans (Nat.add_le_add_right hsize _) (by decide)
  rcases conn.sendMessage_packs m.id hfit sent with ⟨ret, writeBuf, hsend⟩
  simp only [getHostCb, req] at hget ⊢
  rw [hget, ok_bind, hsend, ok_bind]
  refine ⟨writeBuf, { lbs := Function.update st.lbs i out.routeLb
                      dnsQueue := st.dnsQueue ++ out.sent
                      replies := st.replies ++ [out.resp] }, ?_,
    LbAgent.waiting_update h hwaiting⟩
  have hreply : noexistReply w m =
      (Message.of m.id ((Proto.hostCodec w).serializeResponse out.resp)).encode := by
    rw [hresp]
    rfl
  rw [hreply]
  rfl

/-- A datagram at a server with a pointer, while no `route_lb` has hosts: a request is answered to
its sender, and nothing else is sent. -/
theorem doRead_waiting {st : AgentState} (h : ∀ j, (st.lbs j).Waiting) {i : Fin 3}
    {server : UdpServer Addr AgentCallback} (hrouter : server.router = agentRouter (some i))
    (garbage : Status × Int) (sent : Bool) (pkg : List UInt8) (addr : Addr) :
    ∃ server' st', server.doRead (getHostCb (Proto.hostCodec w) garbage sent)
        [.pkg pkg addr, .failed] st =
          .ok (server', st', if sent then (hostRequest pkg).toList.map fun m =>
            ⟨addr, noexistReply w m⟩ else []) ∧
      server'.router = agentRouter (some i) ∧ ∀ j, (st'.lbs j).Waiting := by
  rcases server.doRead_pkg (getHostCb (Proto.hostCodec w) garbage sent) pkg addr st with
    ⟨readBuf, hread⟩
  rw [hread, hrouter, agentRouter_bind]
  cases hostRequest pkg with
  | none => exact ⟨_, st, by cases sent <;> rfl, rfl, h⟩
  | some m =>
      rcases getHostCb_waiting w h i garbage sent m
        ⟨readBuf, server.writeBuf, addr, agentRouter (some i)⟩ with ⟨writeBuf, st', hcb, hst'⟩
      refine ⟨⟨readBuf, writeBuf, addr, agentRouter (some i)⟩, st', ?_, rfl, hst'⟩
      simp only [Option.map_some]
      rw [hcb]
      cases sent <;> rfl

/-- A datagram at a server with a null pointer: a request is the end of the agent. -/
theorem doRead_null (codec : HostCodec) (st : AgentState)
    {server : UdpServer Addr AgentCallback} (hrouter : server.router = agentRouter none)
    (garbage : Status × Int) (sent : Bool) (pkg : List UInt8) (addr : Addr) :
    ((hostRequest pkg).isSome → server.doRead (getHostCb codec garbage sent)
        [.pkg pkg addr, .failed] st = .error .outOfBounds) ∧
      (hostRequest pkg = none → ∃ server', server'.router = agentRouter none ∧
        server.doRead (getHostCb codec garbage sent) [.pkg pkg addr, .failed] st =
          .ok (server', st, [])) := by
  rcases server.doRead_pkg (getHostCb codec garbage sent) pkg addr st with ⟨readBuf, hread⟩
  rw [hread, hrouter, agentRouter_bind]
  cases hostRequest pkg with
  | none => exact ⟨fun hsome => (by cases hsome), fun _ => ⟨_, rfl, rfl⟩⟩
  | some m => exact ⟨fun _ => rfl, fun hnone => (by cases hnone)⟩

end Datagram

/-! ## Runs -/

/-- The servers and what they share with the DNS client. -/
structure Threads (Addr : Type) where
  servers : Fin 3 → UdpServer Addr AgentCallback
  state : AgentState
  /-- history: what each server has sent -/
  sent : Fin 3 → List (Datagram Addr)

namespace Threads

variable {Addr : Type} (w : Wire)

/-- The servers with their routers, when nothing has arrived. -/
def start (servers : Fin 3 → UdpServer Addr AgentCallback)
    (routers : Fin 3 → MsgRouter AgentCallback) : Threads Addr :=
  { servers := fun i => { servers i with router := routers i }
    state := { lbs := fun _ => RouteLb.new, dnsQueue := [], replies := [] }
    sent := fun _ => [] }

inductive Act (Addr : Type)
  /-- a datagram arrives at a server; `sent` says whether `sendto` succeeds -/
  | datagram (i : Fin 3) (pkg : List UInt8) (addr : Addr) (garbage : Status × Int) (sent : Bool)
  /-- the DNS client has a message for its router -/
  | dns (call : ClientCall)

/-- A step that faults has no next state. -/
def step (s : Threads Addr) : Act Addr → Option (Threads Addr)
  | .datagram i pkg addr garbage sent =>
      match (s.servers i).doRead (getHostCb (Proto.hostCodec w) garbage sent)
        [.pkg pkg addr, .failed] s.state with
      | .error _ => none
      | .ok (server, state, pkgs) => some {
          servers := Function.update s.servers i server
          state := state
          sent := Function.update s.sent i (s.sent i ++ pkgs) }
  | .dns call =>
      match LbAgent.routerCall (Proto.codec w) s.state.lbs call with
      | .error _ => none
      | .ok lbs => some { s with state := { s.state with lbs := lbs } }

/-- The request in a datagram that arrives at server `i`; one whose answer `sendto` refuses does not
count. -/
def Act.request (i : Fin 3) : Act Addr → List (Message × Addr)
  | .datagram j pkg addr _ sent =>
      if j = i ∧ sent then (hostRequest pkg).toList.map fun m => (m, addr) else []
  | .dns _ => []

/-- The requests that have arrived at a server, without those whose answer `sendto` has refused. -/
def requestsAt (i : Fin 3) (acts : List (Act Addr)) : List (Message × Addr) :=
  acts.flatMap (Act.request i)

/-! ### Servers with pointers -/

/-- Every server asks its `route_lb`, which has no hosts. -/
structure Ready (userdata : Fin 3 → Fin 3) (s : Threads Addr) : Prop where
  router : ∀ i, (s.servers i).router = agentRouter (some (userdata i))
  waiting : ∀ j, (s.state.lbs j).Waiting

variable {w} {userdata : Fin 3 → Fin 3}

theorem start_ready (servers : Fin 3 → UdpServer Addr AgentCallback) :
    Ready userdata (start servers fun i => agentRouter (some (userdata i))) where
  router _ := rfl
  waiting _ := RouteLb.new_waiting

/-- A datagram is always handled, and adds the answer to the request in it. -/
theorem Ready.datagram {s : Threads Addr} (h : s.Ready userdata) (i : Fin 3) (pkg : List UInt8)
    (addr : Addr) (garbage : Status × Int) (sent : Bool) :
    ∃ t, step w s (.datagram i pkg addr garbage sent) = some t ∧ t.Ready userdata ∧
      ∀ j, t.sent j = s.sent j ++ ((Act.datagram i pkg addr garbage sent).request j).map
        fun r => ⟨r.2, noexistReply w r.1⟩ := by
  rcases doRead_waiting w h.waiting (h.router i) garbage sent pkg addr with
    ⟨server, state, hread, hrouter, hwaiting⟩
  simp only [step, hread, Option.some.injEq, exists_eq_left']
  refine ⟨⟨fun j => ?_, hwaiting⟩, fun j => ?_⟩
  · by_cases hj : j = i
    · subst hj
      simpa using hrouter
    · simpa [hj] using h.router j
  · by_cases hj : j = i
    · subst hj
      cases sent with
      | true => simp [Act.request, Function.comp_def]
      | false => simp [Act.request]
    · simp [Act.request, hj, Ne.symm hj]

theorem Ready.dns {s t : Threads Addr} (h : s.Ready userdata) {call : ClientCall}
    (hstep : step w s (.dns call) = some t) : t.Ready userdata ∧ t.sent = s.sent := by
  simp only [step] at hstep
  split at hstep
  · cases hstep
  · next lbs hcall =>
      cases hstep
      -- the rest of the agent plays no part in it
      refine ⟨⟨h.router, ?_⟩, rfl⟩
      exact LbAgent.Waiting.afterCall (s := ⟨s.state.lbs, [], TcpClient.new, [], [], []⟩)
        h.waiting hcall

/-- In every run, whatever arrives at the servers and whatever the DNS service sends: a datagram is
handled without a fault, and each server has answered the requests that have arrived at it, one by
one and each to its sender, with `RET_NOEXIST` and no host.  The requests whose answer `sendto` has
refused are left out on both sides. -/
theorem answers_noexist (w : Wire) (servers : Fin 3 → UdpServer Addr AgentCallback)
    (userdata : Fin 3 → Fin 3) (acts : List (Act Addr)) (s : Threads Addr)
    (hrun : run (step w) (start servers fun i => agentRouter (some (userdata i))) acts = some s) :
    (∀ i, s.sent i = (requestsAt i acts).map fun r => ⟨r.2, noexistReply w r.1⟩) ∧
      ∀ i pkg addr garbage sent, step w s (.datagram i pkg addr garbage sent) ≠ none := by
  suffices hall : ∀ s₀ : Threads Addr, s₀.Ready userdata → run (step w) s₀ acts = some s →
      s.Ready userdata ∧ ∀ i, s.sent i = s₀.sent i ++
        (requestsAt i acts).map fun r => ⟨r.2, noexistReply w r.1⟩ by
    rcases hall _ (start_ready servers) hrun with ⟨hready, hsent⟩
    refine ⟨fun i => by simpa [start] using hsent i, fun i pkg addr garbage sent => ?_⟩
    rcases hready.datagram (w := w) i pkg addr garbage sent with ⟨t, hstep, _⟩
    rw [hstep]
    exact Option.some_ne_none t
  clear hrun
  induction acts with
  | nil =>
      intro s₀ hready hrun
      cases hrun
      exact ⟨hready, fun i => by simp [requestsAt]⟩
  | cons a acts ih =>
      intro s₀ hready hrun
      rcases run_cons.1 hrun with ⟨s₁, hstep, hrest⟩
      have hone : s₁.Ready userdata ∧ ∀ i, s₁.sent i = s₀.sent i ++
          (a.request i).map fun r => ⟨r.2, noexistReply w r.1⟩ := by
        cases a with
        | datagram j pkg addr garbage sent =>
            rcases hready.datagram (w := w) j pkg addr garbage sent with ⟨t, ht, hready', hsent⟩
            rw [hstep] at ht
            cases ht
            exact ⟨hready', hsent⟩
        | dns call =>
            rcases hready.dns hstep with ⟨hready', hsent⟩
            exact ⟨hready', fun i => by simp [hsent, Act.request]⟩
      rcases ih s₁ hone.1 hrest with ⟨hready', hsent⟩
      refine ⟨hready', fun i => ?_⟩
      rw [hsent, hone.2, List.append_assoc, ← List.map_append]
      rfl

/-- A request for `(1, 1)` with the number 7, from the address 5. -/
def sampleRequest (i : Fin 3) : Act Nat :=
  .datagram i [4, 0, 0, 0, 6, 0, 0, 0, 8, 7, 16, 1, 24, 1] 5 (.new, 0) true

def sampleServers : Fin 3 → UdpServer Nat AgentCallback := fun _ =>
  { readBuf := { data := fun _ => 0 }
    writeBuf := { data := fun _ => 0 }
    clientAddr := 0
    router := MsgRouter.new }

/-- Two requests, two answers. -/
theorem answers_noexist_twice :
    ∃ s, run (step Wire.base128) (start sampleServers fun i => agentRouter (some i))
        [sampleRequest 2, sampleRequest 2] = some s ∧
      s.sent 2 = List.replicate 2
        ⟨5, [4, 0, 0, 0, 8, 0, 0, 0, 8, 7, 16, 1, 24, 1, 32, 3]⟩ := by
  have hreads : (run (step Wire.base128) (start sampleServers fun i => agentRouter (some i))
      [sampleRequest 2, sampleRequest 2]).isSome = true := by
    decide +kernel
  rcases Option.isSome_iff_exists.1 hreads with ⟨s, hrun⟩
  refine ⟨s, hrun, ?_⟩
  rw [(answers_noexist Wire.base128 sampleServers id _ s hrun).1 2]
  decide +kernel

/-! ### Servers with null pointers -/

/-- No server has a `route_lb` to ask. -/
def Null (s : Threads Addr) : Prop :=
  ∀ i, (s.servers i).router = agentRouter none

theorem Null.datagram {s : Threads Addr} (h : s.Null) (i : Fin 3) (pkg : List UInt8)
    (addr : Addr) (garbage : Status × Int) (sent : Bool) :
    (hostRequest pkg ≠ none → step w s (.datagram i pkg addr garbage sent) = none) ∧
      (hostRequest pkg = none → ∃ t, step w s (.datagram i pkg addr garbage sent) = some t ∧
        t.Null ∧ t.sent = s.sent) := by
  rcases doRead_null (Proto.hostCodec w) s.state (h i) garbage sent pkg addr with ⟨hfault, hpass⟩
  refine ⟨fun hrequest => ?_, fun hnone => ?_⟩
  · simp only [step, hfault (Option.isSome_iff_ne_none.2 hrequest)]
  · rcases hpass hnone with ⟨server, hrouter, hread⟩
    simp only [step, hread, Option.some.injEq, exists_eq_left', List.append_nil,
      Function.update_eq_self, and_true]
    intro j
    by_cases hj : j = i
    · subst hj
      simpa using hrouter
    · simpa [hj] using h j

theorem Null.dns {s t : Threads Addr} (h : s.Null) {call : ClientCall}
    (hstep : step w s (.dns call) = some t) : t.Null ∧ t.sent = s.sent := by
  simp only [step] at hstep
  split at hstep
  · cases hstep
  · cases hstep
    exact ⟨h, rfl⟩

/-- As `agent_server_main` starts the servers: in every run nothing is ever sent, since the agent is
at its end with the first request that any of them receives; other datagrams do no harm. -/
theorem request_ends_agent (w : Wire) (servers : Fin 3 → UdpServer Addr AgentCallback)
    (args : Fin 3 → Int32) (acts : List (Act Addr)) (s : Threads Addr)
    (hrun : run (step w) (start servers fun i => (agentServerMain (args i)).router) acts =
      some s) :
    (∀ i, s.sent i = []) ∧
      (∀ i pkg addr garbage sent, .datagram i pkg addr garbage sent ∈ acts →
        hostRequest pkg = none) ∧
      ∀ i pkg addr garbage sent,
        step w s (.datagram i pkg addr garbage sent) = none ↔ hostRequest pkg ≠ none := by
  suffices hall : ∀ s₀ : Threads Addr, s₀.Null → run (step w) s₀ acts = some s →
      s.Null ∧ s.sent = s₀.sent ∧ ∀ i pkg addr garbage sent,
        .datagram i pkg addr garbage sent ∈ acts → hostRequest pkg = none by
    rcases hall _ (fun _ => rfl) hrun with ⟨hnull, hsent, hothers⟩
    refine ⟨fun i => by rw [hsent]; rfl, hothers, fun i pkg addr garbage sent => ⟨?_, ?_⟩⟩
    · intro hfault hnone
      rcases (hnull.datagram (w := w) i pkg addr garbage sent).2 hnone with ⟨t, hstep, _⟩
      rw [hfault] at hstep
      cases hstep
    · exact (hnull.datagram i pkg addr garbage sent).1
  clear hrun
  induction acts with
  | nil =>
      intro s₀ hnull hrun
      cases hrun
      exact ⟨hnull, rfl, fun i pkg addr garbage sent hmem => absurd hmem List.not_mem_nil⟩
  | cons a acts ih =>
      intro s₀ hnull hrun
      rcases run_cons.1 hrun with ⟨s₁, hstep, hrest⟩
      cases a with
      | datagram j pkg addr garbage sent =>
          have hnone : hostRequest pkg = none := by
            by_contra hrequest
            rw [(hnull.datagram j pkg addr garbage sent).1 hrequest] at hstep
            cases hstep
          rcases (hnull.datagram (w := w) j pkg addr garbage sent).2 hnone with
            ⟨t, ht, hnull', hsent⟩
          rw [hstep] at ht
          cases ht
          rcases ih s₁ hnull' hrest with ⟨hend, hkept, hothers⟩
          refine ⟨hend, hkept.trans hsent, fun i pkg' addr' garbage' sent' hmem => ?_⟩
          rcases List.mem_cons.1 hmem with heq | hmem'
          · cases heq
            exact hnone
          · exact hothers i pkg' addr' garbage' sent' hmem'
      | dns call =>
          rcases hnull.dns hstep with ⟨hnull', hsent⟩
          rcases ih s₁ hnull' hrest with ⟨hend, hkept, hothers⟩
          refine ⟨hend, hkept.trans hsent, fun i pkg addr garbage sent hmem => ?_⟩
          rcases List.mem_cons.1 hmem with heq | hmem'
          · cases heq
          · exact hothers i pkg addr garbage sent hmem'

/-- A datagram that is no message leaves the agent alone, and the request behind it does not. -/
theorem request_ends_agent_second :
    ∃ s, run (step Wire.base128)
        (start sampleServers fun i => (agentServerMain (Int32.ofNat i)).router)
        [.datagram 2 [1, 2, 3] 9 (.new, 0) true] = some s ∧
      step Wire.base128 s (sampleRequest 2) = none := by
  have hreads : (run (step Wire.base128)
      (start sampleServers fun i => (agentServerMain (Int32.ofNat i)).router)
      [.datagram 2 [1, 2, 3] 9 (.new, 0) true]).isSome = true := by
    decide +kernel
  rcases Option.isSome_iff_exists.1 hreads with ⟨s, hrun⟩
  refine ⟨s, hrun, ?_⟩
  exact ((request_ends_agent Wire.base128 sampleServers (fun i => Int32.ofNat i) _ s hrun).2.2
    _ _ _ _ _).2 (by decide +kernel)

end Threads
end Agent
end Rins
