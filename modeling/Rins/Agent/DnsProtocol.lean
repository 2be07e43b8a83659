import Rins.Agent.DnsClient
import Rins.Dns.Answers

/-!
# DnsProtocol — what becomes of the responses of the DNS service in the agent

`get_route` and `push_change_task` send their responses as `ID_GetRouteResponse`.  The DNS client of
the agent has registered one callback, `deal_recv_route`, and has registered it for
`ID_GetHostResponse`.  So the router of the client drops every response, and no `update_host` is
called; the agent goes on answering that nothing exists.
-/

namespace Rins
namespace Agent

open Dns (Route modidOf cmdidOf hostOf)
open Proto (Codec codec128 GetRouteRequest GetRouteResponse MessageId)
open Reactor

/-- What is used of protobuf on both ends. -/
structure RouteCodec extends Codec where
  serializeResponse : GetRouteResponse → List UInt8

/-! ## The DNS service -/

/-- Why the DNS service sends a response. -/
inductive DnsCause
  | getRoute (req : GetRouteRequest)
  | pushChangeTask (st : UInt64)

namespace DnsCause

def modid : DnsCause → Int32
  | .getRoute req => req.modid
  | .pushChangeTask st => modidOf st

def cmdid : DnsCause → Int32
  | .getRoute req => req.cmdid
  | .pushChangeTask st => cmdidOf st

/-- The response up to the order of its hosts. -/
def response (route : Route) : DnsCause → Dns.RouteResponse
  | .getRoute req => route.requested req.modid req.cmdid
  | .pushChangeTask st => route.pushed st

end DnsCause

/-- A response that the DNS service sends, with the hosts in the order in which the loop over the
`unordered_set` finds them. -/
structure DnsAnswer (route : Route) where
  cause : DnsCause
  hosts : List UInt64
  enumerates : (hosts : Multiset UInt64) = (route.getHosts cause.modid cause.cmdid).val

namespace DnsAnswer

variable {route : Route}

def response (answer : DnsAnswer route) : GetRouteResponse :=
  { modid := answer.cause.modid
    cmdid := answer.cause.cmdid
    host := answer.hosts.map hostOf }

/-- This is the response that `get_route` and `push_change_task` build. -/
theorem response_eq (answer : DnsAnswer route) :
    Dns.RouteResponse.mk answer.response.modid answer.response.cmdid answer.response.host =
      answer.cause.response route := by
  rcases answer with ⟨cause, hosts, henum⟩
  have hhosts : ((hosts.map hostOf : List Proto.HostInfo) : Multiset Proto.HostInfo) =
      (route.getHosts cause.modid cause.cmdid).val.map hostOf := by
    rw [← henum, Multiset.map_coe]
  cases cause with
  | getRoute req => exact congrArg (Dns.RouteResponse.mk req.modid req.cmdid) hhosts
  | pushChangeTask st => exact congrArg (Dns.RouteResponse.mk (modidOf st) (cmdidOf st)) hhosts

/-- The message on the wire. -/
def message (codec : RouteCodec) (answer : DnsAnswer route) : Message :=
  Message.of MessageId.getRouteResponse.num (codec.serializeResponse answer.response)

end DnsAnswer

/-! ## The DNS client of the agent -/

/-- The call of the router in `tcp_client::do_read` for a message that has arrived whole, with what
has arrived `behind` it. -/
def arrival (m : Message) (behind : List UInt8) : ClientCall :=
  { id := m.id, length := m.length, avail := m.body ++ behind }

inductive DnsClientCallback
  | dealRecvRoute
  deriving DecidableEq, Repr

/-- The router of the client, as `dns_client_thread` leaves it. -/
def dnsClientRouter : MsgRouter DnsClientCallback :=
  (MsgRouter.new.registerMsgRouter MessageId.getHostResponse.num .dealRecvRoute).2

/-- A call of `update_host` on `r_lb[index]`. -/
structure UpdateHostCall where
  index : Fin 3
  modid : Int32
  cmdid : Int32
  resp : GetRouteResponse
  deriving DecidableEq, Repr

def UpdateHostCall.run (lbs : Fin 3 → RouteLb) (call : UpdateHostCall) :
    Except Fault (Fin 3 → RouteLb) := do
  let lb ← (lbs call.index).updateHost call.modid call.cmdid call.resp
  return Function.update lbs call.index lb

/-- The call that `deal_recv_route` makes. -/
def dealRecvRouteCall (codec : Codec) (data : List UInt8) (msgid : Int32) :
    Except Fault UpdateHostCall := do
  let bytes ← callerBytes data msgid.toInt
  let resp := codec.parse bytes
  match LbAgent.shard ((resp.modid + resp.cmdid) % 3) with
  | none => .error .outOfBounds
  | some index =>
      return { index := index, modid := resp.modid, cmdid := resp.cmdid, resp := resp }

/-- The calls of `update_host` that a message leads to. -/
def updateHostCalls (codec : Codec) (call : ClientCall) : Except Fault (List UpdateHostCall) :=
  match dnsClientRouter.call call.id with
  | none => .ok []
  | some .dealRecvRoute => do return [← dealRecvRouteCall codec call.avail call.id]

/-- They are all that the agent does about the message. -/
theorem routerCall_eq (codec : Codec) (lbs : Fin 3 → RouteLb) (call : ClientCall) :
    LbAgent.routerCall codec lbs call =
      (updateHostCalls codec call).bind fun calls => calls.foldlM UpdateHostCall.run lbs := by
  unfold LbAgent.routerCall updateHostCalls
  by_cases hid : call.id = MessageId.getHostResponse.num
  · have hcall : dnsClientRouter.call call.id = some .dealRecvRoute := by
      rw [hid]
      exact MsgRouter.call_register_self _ _
    rw [if_pos hid, hcall]
    unfold LbAgent.dealRecvRoute dealRecvRouteCall
    cases hbytes : callerBytes call.avail call.id.toInt with
    | error e => rfl
    | ok bytes =>
        simp only [ok_bind]
        generalize codec.parse bytes = resp
        cases LbAgent.shard ((resp.modid + resp.cmdid) % 3) with
        | none => rfl
        | some index => simp [UpdateHostCall.run, Except.bind]
  · have hcall : dnsClientRouter.call call.id = none := MsgRouter.call_register_ne _ hid
    rw [if_neg hid, hcall]
    rfl

/-! ## Do the two agree? -/

/-- The message reaches `deal_recv_route`, which decodes the whole response and passes it on to the
`route_lb` of its key. -/
def Delivers (codec : Codec) (call : ClientCall) (resp : GetRouteResponse) : Prop :=
  ∃ index, LbAgent.shard ((resp.modid + resp.cmdid) % 3) = some index ∧
    updateHostCalls codec call =
      .ok [{ index := index, modid := resp.modid, cmdid := resp.cmdid, resp := resp }]

theorem updateHostCalls_answer (codec : RouteCodec) {route : Route} (answer : DnsAnswer route)
    (behind : List UInt8) :
    updateHostCalls codec.toCodec (arrival (answer.message codec) behind) = .ok [] := by
  have hid : (answer.message codec).id ≠ MessageId.getHostResponse.num := by
    show MessageId.getRouteResponse.num ≠ MessageId.getHostResponse.num
    decide
  have hcall : dnsClientRouter.call (answer.message codec).id = none :=
    MsgRouter.call_register_ne _ hid
  simp [updateHostCalls, arrival, hcall]

/-- Whatever the DNS service has been asked or has to push, and whatever its table holds: its
response is not delivered. -/
theorem dnsAnswer_not_delivered (codec : RouteCodec) (route : Route) (answer : DnsAnswer route)
    (behind : List UInt8) :
    ¬ Delivers codec.toCodec (arrival (answer.message codec) behind) answer.response := by
  rintro ⟨index, _, hcalls⟩
  rw [updateHostCalls_answer] at hcalls
  simp at hcalls

/-- The table has the host 192.168.1.177:7777 for the pair `(1, 1)`. -/
def oneHost : Route :=
  { version := 0
    dataMap := fun key => if key = Dns.routeKey 1 1 then {13882347711090400865} else ∅
    tempMap := Dns.RouteMap.empty }

def oneHostAnswer : DnsAnswer oneHost where
  cause := .getRoute { modid := 1, cmdid := 1 }
  hosts := [13882347711090400865]
  enumerates := by decide +kernel

/-- The messages between the agent and the DNS service, with numbers of seven bits a byte. -/
def routeCodec128 : RouteCodec where
  toCodec := codec128
  serializeResponse := (Proto.getRouteResponse Lib.Wire.base128).internalSerialize

/-- Protobuf reads the response back, and the agent does not hear of it. -/
theorem dnsAnswer_dropped :
    routeCodec128.parse (routeCodec128.serializeResponse oneHostAnswer.response) =
        oneHostAnswer.response ∧
      ¬ Delivers routeCodec128.toCodec (arrival (oneHostAnswer.message routeCodec128) [])
        oneHostAnswer.response := by
  refine ⟨by decide +kernel, ?_⟩
  rintro ⟨index, _, hcalls⟩
  rw [updateHostCalls_answer] at hcalls
  simp at hcalls

end Agent
end Rins
