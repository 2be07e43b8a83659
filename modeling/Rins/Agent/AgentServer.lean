import Rins.Agent.RouteLb
import Rins.Reactor.Udp

/-!
# AgentServer — the UDP servers of the agent

Each of the three servers has registered `get_host_cb` for `ID_GetHostRequest`.  The callback takes
its `user_data` for a pointer to the `route_lb` that it asks, and sends what it has found out back
under the id of the request.
-/

namespace Rins
namespace Agent

open Proto (GetHostRequest GetHostResponse GetRouteRequest HostCodec MessageId RetCode)
open Reactor

/-- The callback, with its `user_data`: a null pointer, or one to an `r_lb[i]`. -/
inductive AgentCallback
  | getHostCb (userdata : Option (Fin 3))
  deriving DecidableEq, Repr

/-- What `get_host_cb` reads and changes. -/
structure AgentState where
  /-- `r_lb` -/
  lbs : Fin 3 → RouteLb
  dnsQueue : List GetRouteRequest
  /-- history: the responses that were handed to `send_message` -/
  replies : List GetHostResponse

section Callback

variable {Addr : Type} (codec : HostCodec) (garbage : Status × Int) (sent : Bool)

/-- `get_host_cb`.  `garbage` is what a new `load_balance` finds in its memory, `sent` whether
`sendto` succeeds. -/
def getHostCb : UdpServer.Callback Addr AgentCallback AgentState
  | .getHostCb userdata, m, conn, st => do
      let req := codec.parseRequest m.body
      let resp : GetHostResponse :=
        { seq := req.seq, modid := req.modid, cmdid := req.cmdid, retcode := 0, host := none }
      match userdata with
      | none =>
          -- `ptr_route_lb->get_host` locks a mutex at address 0
          .error .outOfBounds
      | some i =>
          let out ← (st.lbs i).getHost req.modid req.cmdid resp garbage
          let respString := codec.serializeResponse out.resp
          let (_, conn, pkgs) ← conn.sendMessage respString (Int32.ofNat respString.length) m.id
            sent
          let st :=
            { lbs := Function.update st.lbs i out.routeLb
              dnsQueue := st.dnsQueue ++ out.sent
              replies := st.replies ++ [out.resp] }
          return (conn, st, pkgs)

end Callback

/-- `server.add_msg_router(ID_GetHostRequest, get_host_cb, user_data)`. -/
def agentRouter (userdata : Option (Fin 3)) : MsgRouter AgentCallback :=
  (MsgRouter.new.registerMsgRouter MessageId.getHostRequest.num (.getHostCb userdata)).2

/-- A UDP server of the agent. -/
structure AgentServer where
  port : UInt16
  router : MsgRouter AgentCallback

/-- `agent_server_main`, for the value that it finds behind `args`.  It passes no `user_data` to
`add_msg_router`, where the default is a null pointer. -/
def agentServerMain (index : Int32) : AgentServer :=
  { port := (index + 8888).toInt16.toUInt16
    router := agentRouter none }

/-- The `route_lb` that `get_host_cb` asks about a request that arrives at the server. -/
def AgentServer.consults (server : AgentServer) : Option (Fin 3) :=
  (server.router.call MessageId.getHostRequest.num).bind fun cb =>
    match cb with
    | .getHostCb userdata => userdata

theorem agentServerMain_consults (index : Int32) : (agentServerMain index).consults = none := by
  simp [AgentServer.consults, agentServerMain, agentRouter, MsgRouter.call_register_self]

theorem agentRouter_call {userdata : Option (Fin 3)} {msgid : Int32} {cb : AgentCallback}
    (h : (agentRouter userdata).call msgid = some cb) :
    msgid = MessageId.getHostRequest.num ∧ cb = .getHostCb userdata := by
  by_cases hid : msgid = MessageId.getHostRequest.num
  · subst hid
    rw [agentRouter, MsgRouter.call_register_self] at h
    exact ⟨rfl, (Option.some.inj h).symm⟩
  · rw [agentRouter, MsgRouter.call_register_ne _ hid] at h
    cases h

/-! ## The retcodes of the agent -/

theorem LoadBalance.choiceOneHost_ret {lb lb' : LoadBalance} {resp resp' : GetHostResponse}
    {ret : RetCode} (h : lb.choiceOneHost resp = .ok (ret, resp', lb')) :
    ret = .succ ∨ ret = .overload := by
  unfold choiceOneHost at h
  split_ifs at h
  · rcases bind_eq_ok.1 h with ⟨chosen, _, h⟩
    cases h
    exact Or.inl rfl
  · cases h
    exact Or.inr rfl
  · rcases bind_eq_ok.1 h with ⟨chosen, _, h⟩
    cases h
    exact Or.inl rfl
  · rcases bind_eq_ok.1 h with ⟨chosen, _, h⟩
    cases h
    exact Or.inl rfl
  · rcases bind_eq_ok.1 h with ⟨chosen, _, h⟩
    cases h
    exact Or.inl rfl

namespace RouteLb

/-- `get_host` never reports a system error. -/
theorem getHost_retcode {r : RouteLb} {modid cmdid : Int32} {resp : GetHostResponse}
    {garbage : Status × Int} {out : HostOutcome}
    (h : r.getHost modid cmdid resp garbage = .ok out) :
    out.resp.retcode ≠ RetCode.systemError.num := by
  unfold getHost at h
  simp only at h
  split at h
  · split_ifs at h
    · rcases bind_eq_ok.1 h with ⟨_, _, h⟩
      cases h
      show RetCode.noexist.num ≠ RetCode.systemError.num
      decide
    · rcases bind_eq_ok.1 h with ⟨⟨ret, resp', lb'⟩, hchoice, h⟩
      cases h
      show ret.num ≠ RetCode.systemError.num
      rcases LoadBalance.choiceOneHost_ret hchoice with rfl | rfl <;> decide
  · cases h
    show RetCode.noexist.num ≠ RetCode.systemError.num
    decide

end RouteLb
end Agent
end Rins
