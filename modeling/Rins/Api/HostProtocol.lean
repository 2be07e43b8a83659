import Rins.Agent.AgentServer
import Rins.Agent.DnsProtocol
import Rins.Api.RinsClient

/-!
# HostProtocol — do the API and the agent understand each other?

The API waits for `ID_GetHostResponse`; the agent replies under the id of the request.  So the API
takes every reply for an error, and what the agent has found does not reach the caller.

That is, if there is a reply: the servers of the agent have no `user_data` registered with
`get_host_cb`, which asks the `route_lb` behind that null pointer.
-/

namespace Rins
namespace Api

open Agent
open Proto (GetHostResponse HostCodec hostCodec128 MessageId RetCode)
open Reactor

/-! ## Replies -/

section Exchange

variable {Addr : Type} (codec : HostCodec)

/-- The agent handles the request and replies, the reply is the next datagram that the API reads,
and `get_host` returns what the agent has put into it: the retcode and the host, if there is one. -/
def Agrees (client : RinsClient) (modid cmdid : Int32) (vars : HostVars)
    (readBuf : CharArray readBufLen) (later : List ApiRecv)
    (server : UdpServer Addr AgentCallback) (addr : Addr) (st : AgentState)
    (garbage : Status × Int) : Prop :=
  ∃ resp reply server' st' out,
    server.doRead (getHostCb codec garbage true)
      [.pkg (client.request codec modid cmdid) addr, .failed] st =
        .ok (server', st', [{ addr := addr, bytes := reply }]) ∧
    st'.replies = st.replies ++ [resp] ∧
    client.getHost codec modid cmdid vars readBuf true (.pkg reply :: later) = .ok out ∧
    out.ret = resp.retcode ∧
    (resp.retcode = RetCode.succ.num → ∃ host, resp.host = some host ∧
      out.vars = { ip := inetNtoa host.ip.toUInt32, port := host.port })

/-- What `get_host_cb` sends has the id of the request. -/
theorem getHostCb_reply {codec : HostCodec} {garbage : Status × Int} {sent : Bool}
    {cb : AgentCallback} {m : Message} {conn conn' : UdpServer Addr AgentCallback}
    {st st' : AgentState} {pkgs : List (Datagram Addr)}
    (h : getHostCb codec garbage sent cb m conn st = .ok (conn', st', pkgs)) :
    ∃ resp, st'.replies = st.replies ++ [resp] ∧ resp.retcode ≠ RetCode.systemError.num ∧
      ∀ d ∈ pkgs, messageHeadLen ≤ d.bytes.length ∧ d.bytes.length ≤ messageLengthLimit ∧
        (MsgHead.decode d.bytes).id = m.id := by
  rcases cb with ⟨userdata⟩
  cases userdata with
  | none => cases h
  | some i =>
      rcases bind_eq_ok.1 h with ⟨out, hget, h⟩
      rcases bind_eq_ok.1 h with ⟨⟨ret, conn₁, pkgs₁⟩, hsend, h⟩
      cases h
      refine ⟨out.resp, rfl, RouteLb.getHost_retcode hget, fun d hd => ?_⟩
      rcases UdpServer.sendMessage_bytes hsend hd with ⟨hbytes, hfit⟩
      refine ⟨?_, hfit, ?_⟩
      · rw [hbytes, List.length_append, MsgHead.length_encode]
        omega
      · rw [hbytes, MsgHead.decode_append (le_refl _), MsgHead.decode_encode]

/-- A datagram under another id than `ID_GetHostResponse` makes `get_host` fail. -/
theorem getHost_id {codec : HostCodec} {client : RinsClient} {modid cmdid : Int32} {vars : HostVars}
    {readBuf : CharArray readBufLen} {pkg : List UInt8} {later : List ApiRecv} {out : ApiOutcome}
    (hhead : messageHeadLen ≤ pkg.length) (hfit : pkg.length ≤ messageLengthLimit)
    (hid : (MsgHead.decode pkg).id ≠ MessageId.getHostResponse.num)
    (h : client.getHost codec modid cmdid vars readBuf true (.pkg pkg :: later) = .ok out) :
    out.ret = RetCode.systemError.num ∧ out.vars = vars := by
  have hfit' : pkg.length ≤ readBufLen := by
    simp only [messageLengthLimit, readBufLen] at hfit ⊢
    omega
  unfold RinsClient.getHost at h
  simp only at h
  split_ifs at h
  split at h
  · cases h
  · rw [RinsClient.recvLoop_id hfit' hhead hid] at h
    cases h
    exact ⟨rfl, rfl⟩

/-- Whichever `route_lb` the callback is given, or none: the API and the agent do not agree on any
request, whatever the `route_lb` knows. -/
theorem hostReply_disagrees (client : RinsClient) (modid cmdid : Int32) (vars : HostVars)
    (readBuf : CharArray readBufLen) (later : List ApiRecv)
    (server : UdpServer Addr AgentCallback) (userdata : Option (Fin 3)) (addr : Addr)
    (st : AgentState) (garbage : Status × Int) :
    ¬ Agrees codec client modid cmdid vars readBuf later
      { server with router := agentRouter userdata } addr st garbage := by
  rintro ⟨resp, reply, server', st', out, hread, hreplies, hget, hret, _⟩
  rcases UdpServer.doRead_one hread (List.cons_ne_nil _ _) with ⟨s₁, m, cb, hreceive, hcall, hcb⟩
  rw [UdpServer.receive_router hreceive] at hcall
  rcases agentRouter_call hcall with ⟨hid, _⟩
  rcases getHostCb_reply hcb with ⟨resp', hreplies', hcode, hpkgs⟩
  rcases hpkgs _ List.mem_cons_self with ⟨hhead, hfit, hreplyId⟩
  -- what the agent has put into its reply
  have hresp : resp' = resp := by
    rw [hreplies'] at hreplies
    simpa using hreplies
  subst hresp
  -- what the API makes of it
  have hother : (MsgHead.decode reply).id ≠ MessageId.getHostResponse.num := by
    rw [show (MsgHead.decode reply).id = m.id from hreplyId, hid]
    decide
  rcases getHost_id hhead hfit hother hget with ⟨hsystem, _⟩
  exact hcode (hret.symm.trans hsystem)

end Exchange

/-- The reply that nothing exists: the id is 4, and the body has six bytes. -/
def noexistReply : List UInt8 :=
  [4, 0, 0, 0, 6, 0, 0, 0, 16, 1, 24, 1, 32, 3]

def noexistServer (router : MsgRouter AgentCallback) : UdpServer Unit AgentCallback :=
  { readBuf := { data := fun _ => 0 }
    writeBuf := { data := fun _ => 0 }
    clientAddr := ()
    router := router }

/-- An agent that knows no routes. -/
def noexistState : AgentState :=
  { lbs := fun _ => RouteLb.new, dnsQueue := [], replies := [] }

def noexistClient : RinsClient :=
  { seqid := 0, sockfd := fun i => (i : Int) + 3 }

/-- The response of the agent. -/
def noexistResponse : GetHostResponse :=
  { seq := 0, modid := 1, cmdid := 1, retcode := 3, host := none }

/-- With a pointer to `r_lb[2]` the agent replies that nothing exists, and `get_host` returns a
system error; with the null pointer of `agent_server_main` the agent does not reply. -/
theorem hostReply_misread :
    hostCodec128.parseResponse (hostCodec128.serializeResponse noexistResponse) =
        some noexistResponse ∧
      ((noexistServer (agentRouter (some 2))).doRead (getHostCb hostCodec128 (.new, 0) true)
        [.pkg (noexistClient.request hostCodec128 1 1) (), .failed] noexistState).map
          (fun out => (out.2.1.replies, out.2.2)) =
        .ok ([noexistResponse], [{ addr := (), bytes := noexistReply }]) ∧
      ¬ Agrees hostCodec128 noexistClient 1 1 { ip := "", port := 0 } { data := fun _ => 0 } []
        (noexistServer (agentRouter (some 2))) () noexistState (.new, 0) ∧
      ¬ Agrees hostCodec128 noexistClient 1 1 { ip := "", port := 0 } { data := fun _ => 0 } []
        (noexistServer (agentServerMain 2).router) () noexistState (.new, 0) := by
  have hagent : ((noexistServer (agentRouter (some 2))).doRead
      (getHostCb hostCodec128 (.new, 0) true)
      [.pkg (noexistClient.request hostCodec128 1 1) (), .failed] noexistState).map
        (fun out => (out.2.1.replies, out.2.2)) =
      .ok ([noexistResponse], [{ addr := (), bytes := noexistReply }]) := by
    decide +kernel
  have hnull : ((noexistServer (agentServerMain 2).router).doRead
      (getHostCb hostCodec128 (.new, 0) true)
      [.pkg (noexistClient.request hostCodec128 1 1) (), .failed] noexistState).map
        (fun out => (out.2.1.replies, out.2.2)) = .error .outOfBounds := by
    decide +kernel
  have hapi : (noexistClient.getHost hostCodec128 1 1 { ip := "", port := 0 } { data := fun _ => 0 }
      true [.pkg noexistReply]).map (fun out => out.ret) = .ok 2 := by
    decide +kernel
  refine ⟨by decide +kernel, hagent, ?_, ?_⟩
  · rintro ⟨resp, reply, server', st', out, hread, hreplies, hget, hret, _⟩
    rw [hread] at hagent
    simp only [Except.map, Except.ok.injEq, Prod.mk.injEq, List.cons.injEq, and_true,
      Datagram.mk.injEq, true_and] at hagent
    rcases hagent with ⟨hst, rfl⟩
    rw [hget] at hapi
    simp only [Except.map, Except.ok.injEq] at hapi
    rw [hst] at hreplies
    have hresp : noexistResponse = resp := by
      simpa [noexistState] using hreplies
    rw [hapi, ← hresp] at hret
    exact absurd hret (by decide)
  · rintro ⟨resp, reply, server', st', out, hread, _⟩
    rw [hread] at hnull
    cases hnull

/-! ## Shards -/

/-- The index lies in the arrays, the server on its port asks `r_lb[index]`, and `r_lb[index]` is
what `deal_recv_route` updates. -/
def Shards (modid cmdid : Int32) : Prop :=
  ∃ index : Fin 3, (modid + cmdid) % 3 = Int32.ofNat index ∧
    (∀ args : Int32, (agentServerMain args).port = UInt16.ofNat (8888 + index) →
      (agentServerMain args).consults = some index) ∧
    ∀ (codec : Proto.Codec) (data : List UInt8) (msgid : Int32) (call : UpdateHostCall),
      dealRecvRouteCall codec data msgid = .ok call → call.modid = modid → call.cmdid = cmdid →
        call.index = index

/-- The remainder of a negative sum is negative, unless it is 0. -/
theorem index_lt_iff (sum : Int32) :
    (∃ index : Fin 3, sum % 3 = Int32.ofNat index) ↔ 0 ≤ sum.toInt ∨ 3 ∣ sum.toInt := by
  have hmod : (sum % 3).toInt = sum.toInt.tmod 3 := Int32.toInt_mod sum 3
  have hindex : ∀ index : Fin 3, (Int32.ofNat index).toInt = index := by decide
  constructor
  · rintro ⟨index, heq⟩
    rw [heq, hindex] at hmod
    by_cases hneg : 0 ≤ sum.toInt
    · exact Or.inl hneg
    · -- the remainder is at most 0 here, and at least 0 as an index
      right
      have hle : sum.toInt.tmod 3 ≤ 0 := by
        rw [← neg_neg sum.toInt, Int.neg_tmod]
        have := Int.tmod_nonneg 3 (by omega : 0 ≤ -sum.toInt)
        omega
      exact Int.dvd_of_tmod_eq_zero (by omega)
  · intro h
    have hrange : 0 ≤ sum.toInt.tmod 3 ∧ sum.toInt.tmod 3 < 3 := by
      rcases h with hpos | hdvd
      · exact ⟨Int.tmod_nonneg 3 hpos, Int.tmod_lt_of_pos _ (by decide)⟩
      · rw [Int.tmod_eq_zero_of_dvd hdvd]
        decide
    refine ⟨⟨(sum.toInt.tmod 3).toNat, by omega⟩, ?_⟩
    rw [← Int32.toInt_inj, hmod, hindex]
    show sum.toInt.tmod 3 = ((sum.toInt.tmod 3).toNat : Int)
    omega

theorem agentServerMain_port (index : Fin 3) :
    (agentServerMain (Int32.ofNat index)).port = UInt16.ofNat (8888 + index) := by
  revert index
  decide

/-- The server on the port of the index does not ask `r_lb[index]`. -/
theorem not_consults (index : Fin 3) :
    ¬ ∀ args : Int32, (agentServerMain args).port = UInt16.ofNat (8888 + index) →
      (agentServerMain args).consults = some index := by
  intro hconsults
  have hnone := hconsults _ (agentServerMain_port index)
  rw [agentServerMain_consults] at hnone
  cases hnone

/-- No pair is sharded as it should be: the servers ask no `route_lb` at all.  The index itself is
in range if and only if the sum is not negative or is divisible by 3. -/
theorem shards_never (modid cmdid : Int32) :
    ¬ Shards modid cmdid ∧
      ((∃ index : Fin 3, (modid + cmdid) % 3 = Int32.ofNat index) ↔
        0 ≤ (modid + cmdid).toInt ∨ 3 ∣ (modid + cmdid).toInt) := by
  refine ⟨?_, index_lt_iff (modid + cmdid)⟩
  rintro ⟨index, _, hconsults, _⟩
  exact not_consults index hconsults

/-- The pair `(1, 1)`: the server on port 8890 asks no `route_lb`.  The pair `(-1, 0)`: the index is
-1. -/
theorem shards_null : ¬ Shards 1 1 ∧ ((-1 : Int32) + 0) % 3 = -1 := by
  refine ⟨?_, by decide⟩
  rintro ⟨index, _, hconsults, _⟩
  exact not_consults index hconsults

end Api
end Rins
