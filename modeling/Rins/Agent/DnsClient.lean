import Rins.Agent.RouteLb
import Rins.Base.Messages
import Rins.Lib.Run
import Rins.Reactor.TcpClient

/-!
# DnsClient — how the agent pulls routes from the DNS service

`get_host` puts a request for an unknown key on `dns_queue`; the DNS client's thread moves the queue
into the `_obuf` of its `tcp_client`, from where `do_write` takes it; replies are dispatched by the
router of the client.  The UDP threads and the DNS client's thread meet in `dns_queue` and in the
mutexes of the three `route_lb`s only, so that a call on either side is one step.

A `write` that fails inside `do_write` is a write up to there, followed by a disconnect.  The DNS
client sets no connection callbacks.
-/

namespace Rins
namespace Agent

open Dns (routeKey)
open Lib
open Proto (Codec codec128 GetHostResponse GetRouteRequest GetRouteResponse MessageId)
open Reactor

/-- The agent as far as routes are concerned. -/
structure LbAgent where
  /-- `r_lb` -/
  lbs : Fin 3 → RouteLb
  dnsQueue : List GetRouteRequest
  client : TcpClient
  /-- history: what is left in `_obuf` of a message that has been written in part -/
  partly : List UInt8
  /-- history: the requests whose whole messages are in `_obuf`, behind that -/
  unsent : List GetRouteRequest
  /-- history: the requests that were written to the present connection, at least in part, and whose
  replies have not been processed -/
  inFlight : List GetRouteRequest

namespace LbAgent

/-- The agent after start-up, with the kernel's answers to `do_connect` in the constructor of
`tcp_client`. -/
def init (ans : ConnectAnswer) : Option LbAgent :=
  match TcpClient.doConnect ClientCallbacks.none TcpClient.new ans with
  | .error _ => none
  | .ok (client, _) =>
      some
        { lbs := fun _ => RouteLb.new
          dnsQueue := []
          client := client
          partly := []
          unsent := []
          inFlight := [] }

section Steps

variable (codec : Codec)

/-- A request as it goes into `_obuf`. -/
def frame (req : GetRouteRequest) : List UInt8 :=
  (Message.of MessageId.getRouteRequest.num (codec.serialize req)).encode

/-- The loop of `new_dns_request`: the client, and the requests for which `send_message` returned 0.
The loop itself does not look at what `send_message` returns. -/
def sendAll : List GetRouteRequest → TcpClient → Except Fault (TcpClient × List GetRouteRequest)
  | [], client => .ok (client, [])
  | msg :: queue, client => do
      let requestString := codec.serialize msg
      let (ret, client, _) ← client.sendMessage requestString (Int32.ofNat requestString.length)
        MessageId.getRouteRequest.num
      let (client, accepted) ← sendAll queue client
      return (client, if ret = 0 then msg :: accepted else accepted)

/-- `new_dns_request`. -/
def newDnsRequest (s : LbAgent) : Except Fault LbAgent := do
  let (client, accepted) ← sendAll codec s.dnsQueue s.client
  return { s with dnsQueue := [], client := client, unsent := s.unsent ++ accepted }

/-- `r_lb[index]`. -/
def shard (index : Int32) : Option (Fin 3) :=
  if index = 0 then some 0
  else if index = 1 then some 1
  else if index = 2 then some 2
  else none

/-- `deal_recv_route`, with the memory behind the data pointer.  It is `msgid` that it passes to
`ParseFromArray` as the size. -/
def dealRecvRoute (lbs : Fin 3 → RouteLb) (data : List UInt8) (msgid : Int32) :
    Except Fault (Fin 3 → RouteLb) := do
  let bytes ← callerBytes data msgid.toInt
  let resp := codec.parse bytes
  match shard ((resp.modid + resp.cmdid) % 3) with
  | none => .error .outOfBounds
  | some index =>
      let lb ← (lbs index).updateHost resp.modid resp.cmdid resp
      return Function.update lbs index lb

/-- `msg_router::call`: `deal_recv_route` is all that is registered, and it is registered for
`ID_GetHostResponse`. -/
def routerCall (lbs : Fin 3 → RouteLb) (call : ClientCall) : Except Fault (Fin 3 → RouteLb) :=
  if call.id = MessageId.getHostResponse.num then dealRecvRoute codec lbs call.avail call.id
  else .ok lbs

/-- What the first `k` bytes to be written leave: the rest of a message begun, the requests behind
it, and the requests begun on the way. -/
def advance : Nat → List UInt8 → List GetRouteRequest →
    List UInt8 × List GetRouteRequest × List GetRouteRequest
  | k, partly, [] => (partly.drop k, [], [])
  | k, partly, req :: unsent =>
      if k ≤ partly.length then
        (partly.drop k, req :: unsent, [])
      else
        let (partly', unsent', begun) := advance (k - partly.length) (frame codec req) unsent
        (partly', unsent', req :: begun)

inductive Act
  /-- `get_host` of `r_lb[i]`, in a UDP thread -/
  | getHost (i : Fin 3) (modid cmdid : Int32) (resp : GetHostResponse) (garbage : Status × Int)
  | newDnsRequest
  /-- `do_write`, with the kernel's answers -/
  | write (answers : List WriteAnswer)
  /-- `connection_delay`, with the value of `SO_ERROR` -/
  | connectionDelay (soError : Int)
  /-- `clean_conn`, with the kernel's answers to `do_connect` -/
  | disconnect (ans : ConnectAnswer)
  /-- the reply to a request is dispatched -/
  | reply (req : GetRouteRequest) (call : ClientCall)
  /-- any other message is dispatched, such as a push -/
  | message (call : ClientCall)

/-- The state after a call that returns. -/
def returned : Except Fault LbAgent → Option LbAgent
  | .error _ => none
  | .ok s => some s

def step (s : LbAgent) : Act → Option LbAgent
  | .getHost i modid cmdid resp garbage => returned do
      let out ← (s.lbs i).getHost modid cmdid resp garbage
      return { s with
        lbs := Function.update s.lbs i out.routeLb
        dnsQueue := s.dnsQueue ++ out.sent }
  | .newDnsRequest => returned (newDnsRequest codec s)
  | .write answers =>
      if s.client.obuf.length ≠ 0 ∧ TcpClient.KeepsUp answers then returned do
        let out ← s.client.doWrite ClientCallbacks.none answers
        let taken := (out.taken.map Prod.snd).flatten.length
        let (partly, unsent, begun) := advance codec taken s.partly s.unsent
        return { s with
          client := out.client
          partly := partly
          unsent := unsent
          inFlight := s.inFlight ++ begun }
      else
        none
  | .connectionDelay soError => returned do
      let (client, _) ← s.client.connectionDelay ClientCallbacks.none s.client.sockfd soError
      return { s with client := client }
  | .disconnect ans => returned do
      let (client, _) ← s.client.cleanConn ClientCallbacks.none ans
      return { s with client := client, inFlight := [] }
  | .reply req call =>
      if req ∈ s.inFlight then returned do
        let lbs ← routerCall codec s.lbs call
        return { s with lbs := lbs, inFlight := s.inFlight.erase req }
      else
        none
  | .message call => returned do
      let lbs ← routerCall codec s.lbs call
      return { s with lbs := lbs }

end Steps

/-- A request for the key is in `dns_queue`, or unsent in `_obuf`, or was sent and its reply has not
been processed. -/
def Outstanding (s : LbAgent) (key : UInt64) : Prop :=
  ∃ req, routeKey req.modid req.cmdid = key ∧
    (req ∈ s.dnsQueue ∨ req ∈ s.unsent ∨ req ∈ s.inFlight)

/-- A reply that reaches `deal_recv_route` and has no hosts, so that `update_host` erases the key,
which is in no other `_route_map`. -/
def Erases (s : LbAgent) (req : GetRouteRequest) (msgid : Int32) (resp : GetRouteResponse) : Prop :=
  msgid = MessageId.getHostResponse.num ∧ resp.host = [] ∧
    resp.modid = req.modid ∧ resp.cmdid = req.cmdid ∧
    ∀ i, shard ((resp.modid + resp.cmdid) % 3) ≠ some i →
      (s.lbs i).routeMap (routeKey req.modid req.cmdid) = none

/-- The key of a reply is in no `_route_map`, or the reply erases it. -/
def Settles (codec : Codec) (s : LbAgent) (req : GetRouteRequest) (call : ClientCall) : Prop :=
  (∀ i, (s.lbs i).routeMap (routeKey req.modid req.cmdid) = none) ∨
    Erases s req call.id (codec.parse (call.avail.take 5))

/-- The condition: `new_dns_request` finds the queue empty or the client connected with room for the
whole queue; the connection is lost only while no request is in flight and none is written in part;
and the replies that are processed settle their keys. -/
def Keeps (codec : Codec) (s : LbAgent) : Act → Prop
  | .newDnsRequest =>
      s.dnsQueue = [] ∨ (s.client.connected = true ∧
        ((s.dnsQueue.flatMap (frame codec)).length : Int) ≤
          s.client.obuf.capacity - s.client.obuf.length)
  | .disconnect _ => s.inFlight = [] ∧ s.partly = []
  | .reply req call => Settles codec s req call
  | _ => True

/-! ## The history agrees with `_obuf` -/

section Proofs

variable {codec : Codec}

structure Wired (codec : Codec) (s : LbAgent) : Prop where
  ready : s.client.OutReady
  pending : s.client.obuf.pending = s.partly ++ s.unsent.flatMap (frame codec)

theorem returned_eq_some {x : Except Fault LbAgent} {s : LbAgent} :
    returned x = some s ↔ x = .ok s := by
  cases x with
  | error e =>
      simp [returned]
  | ok t =>
      simp [returned]

theorem serialize_admissible (codec : Codec) (req : GetRouteRequest) :
    (codec.serialize req).length ≤ messageLengthLimit := by
  have hlen := codec.serialize_length req
  simp only [messageLengthLimit]
  omega

theorem length_frame (codec : Codec) (req : GetRouteRequest) :
    (frame codec req).length = messageHeadLen + (codec.serialize req).length :=
  Message.length_encode _

/-- Each request goes into `_obuf` as a whole, or not at all. -/
theorem sendAll_spec {queue : List GetRouteRequest} :
    ∀ {client client' : TcpClient} {accepted : List GetRouteRequest}, client.OutReady →
      sendAll codec queue client = .ok (client', accepted) →
      client'.OutReady ∧
        client'.obuf.pending = client.obuf.pending ++ accepted.flatMap (frame codec) := by
  induction queue with
  | nil =>
      intro client client' accepted hready hsend
      cases hsend
      exact ⟨hready, by simp⟩
  | cons msg queue ih =>
      intro client client' accepted hready hsend
      simp only [sendAll] at hsend
      rcases TcpClient.sendMessage_spec hready MessageId.getRouteRequest.num
          (serialize_admissible codec msg) with
        ⟨effects, hrefused⟩ | ⟨obuf, effects, haccepted, hready₁, hpend₁⟩
      · -- refused, and forgotten
        simp only [hrefused, ok_bind] at hsend
        rcases bind_eq_ok.1 hsend with ⟨⟨client₂, accepted₂⟩, hrest, hout⟩
        cases hout
        exact ih hready hrest
      · simp only [haccepted, ok_bind] at hsend
        rcases bind_eq_ok.1 hsend with ⟨⟨client₂, accepted₂⟩, hrest, hout⟩
        cases hout
        rcases ih hready₁ hrest with ⟨hready₂, hpend₂⟩
        refine ⟨hready₂, ?_⟩
        rw [hpend₂, hpend₁]
        simp [frame]

/-- With a connection and room for the whole queue, the whole queue goes into `_obuf`. -/
theorem sendAll_of_room {queue : List GetRouteRequest} :
    ∀ {client : TcpClient}, client.OutReady → client.connected = true →
      ((queue.flatMap (frame codec)).length : Int) ≤ client.obuf.capacity - client.obuf.length →
      ∃ client', sendAll codec queue client = .ok (client', queue) := by
  induction queue with
  | nil =>
      intro client _ _ _
      exact ⟨client, rfl⟩
  | cons msg queue ih =>
      intro client hready hconn hroom
      rw [List.flatMap_cons, List.length_append, length_frame] at hroom
      rcases TcpClient.sendMessage_of_room hready hconn MessageId.getRouteRequest.num
          (serialize_admissible codec msg) (by omega) with ⟨obuf, effects, hsent, hready₁, hpend₁⟩
      have hlen := hready.valid.length_eq
      have hlen₁ := hready₁.valid.length_eq
      have hcap := hready.capacity
      have hcap₁ := hready₁.capacity
      dsimp only at hlen₁ hcap₁
      rw [hpend₁, List.length_append, Message.length_encode] at hlen₁
      simp only [Message.of] at hlen₁
      -- the message has taken its own length off the room, which leaves enough for the rest
      rcases ih hready₁ hconn (by dsimp only; omega) with ⟨client', hrest⟩
      refine ⟨client', ?_⟩
      simp [sendAll, hsent, hrest]

/-- Writing takes bytes off the front, and no request gets lost on the way. -/
theorem advance_spec (k : Nat) (partly : List UInt8) (unsent : List GetRouteRequest) :
    (advance codec k partly unsent).1 ++ (advance codec k partly unsent).2.1.flatMap (frame codec) =
        (partly ++ unsent.flatMap (frame codec)).drop k ∧
      (advance codec k partly unsent).2.2 ++ (advance codec k partly unsent).2.1 = unsent := by
  induction unsent generalizing k partly with
  | nil =>
      simp [advance]
  | cons req unsent ih =>
      simp only [advance]
      split_ifs with hk
      · -- the bytes end within the message begun before
        refine ⟨?_, rfl⟩
        rw [List.drop_append_of_le_length hk]
      · rcases ih (k - partly.length) (frame codec req) with ⟨hbytes, hreqs⟩
        refine ⟨?_, ?_⟩
        · have hdrop : ∀ rest : List UInt8,
              (partly ++ rest).drop k = rest.drop (k - partly.length) := by
            intro rest
            rw [List.drop_append, List.drop_eq_nil_of_le (by omega), List.nil_append]
          rw [hbytes, List.flatMap_cons, hdrop]
        · simp only [List.cons_append, hreqs]

theorem init_wired {ans : ConnectAnswer} {s : LbAgent} (h : init ans = some s) :
    Wired codec s := by
  unfold init at h
  split at h
  · cases h
  · next client effects hconnect =>
      cases h
      have hobuf := (TcpClient.doConnect_bufs hconnect).1
      have hnew := TcpClient.new_outReady false 0
      refine ⟨⟨?_, ?_, ?_⟩, ?_⟩
      · rw [hobuf]
        exact hnew.valid
      · rw [hobuf]
        rfl
      · rw [hobuf]
        rfl
      · simp [hobuf, TcpClient.new]

/-- A client with the same `_obuf`. -/
theorem Wired.of_obuf {s : LbAgent} (h : Wired codec s) {client : TcpClient}
    (hobuf : client.obuf = s.client.obuf) (lbs : Fin 3 → RouteLb)
    (queue inFlight : List GetRouteRequest) :
    Wired codec
      { s with lbs := lbs, dnsQueue := queue, client := client, inFlight := inFlight } where
  ready := by
    refine ⟨?_, ?_, ?_⟩
    · rw [hobuf]
      exact h.ready.valid
    · rw [hobuf]
      exact h.ready.front
    · rw [hobuf]
      exact h.ready.capacity
  pending := by
    rw [hobuf]
    exact h.pending

/-- What one step does to the history and `_obuf`, whatever the kernel, the callers and the DNS
service do. -/
theorem step_wired {s t : LbAgent} {a : Act} (h : Wired codec s)
    (hstep : step codec s a = some t) : Wired codec t := by
  cases a with
  | getHost i modid cmdid resp garbage =>
      rcases bind_eq_ok.1 (returned_eq_some.1 hstep) with ⟨out, _, hout⟩
      cases hout
      exact h.of_obuf rfl _ _ _
  | newDnsRequest =>
      rcases bind_eq_ok.1 (returned_eq_some.1 hstep) with ⟨⟨client, accepted⟩, hsend, hout⟩
      cases hout
      rcases sendAll_spec h.ready hsend with ⟨hready, hpend⟩
      refine ⟨hready, ?_⟩
      simp [hpend, h.pending]
  | write answers =>
      simp only [step] at hstep
      split_ifs at hstep with hguard
      rcases bind_eq_ok.1 (returned_eq_some.1 hstep) with ⟨out, hwrite, hout⟩
      cases hout
      rcases TcpClient.doWrite_spec hguard.2 h.ready hwrite with ⟨_, hready, hbytes⟩
      refine ⟨hready, ?_⟩
      dsimp only
      rw [(advance_spec _ s.partly s.unsent).1, ← h.pending, ← hbytes, List.drop_left]
  | connectionDelay soError =>
      rcases bind_eq_ok.1 (returned_eq_some.1 hstep) with ⟨⟨client, effects⟩, hdelay, hout⟩
      cases hout
      exact h.of_obuf (TcpClient.connectionDelay_bufs hdelay).1 _ _ _
  | disconnect ans =>
      rcases bind_eq_ok.1 (returned_eq_some.1 hstep) with ⟨⟨client, effects⟩, hclean, hout⟩
      cases hout
      exact h.of_obuf (TcpClient.cleanConn_bufs hclean).1 _ _ _
  | reply req call =>
      simp only [step] at hstep
      split_ifs at hstep with hguard
      rcases bind_eq_ok.1 (returned_eq_some.1 hstep) with ⟨lbs, _, hout⟩
      cases hout
      exact h.of_obuf rfl _ _ _
  | message call =>
      rcases bind_eq_ok.1 (returned_eq_some.1 hstep) with ⟨lbs, _, hout⟩
      cases hout
      exact h.of_obuf rfl _ _ _

/-! ## Every key has its request -/

/-- Every key of every `_route_map` has a request outstanding. -/
def Held (s : LbAgent) : Prop :=
  ∀ i key, (s.lbs i).routeMap key ≠ none → Outstanding s key

/-- What the router can do: nothing, or call `update_host` with what `deal_recv_route` has
parsed. -/
theorem routerCall_cases {lbs lbs' : Fin 3 → RouteLb} {call : ClientCall}
    (h : routerCall codec lbs call = .ok lbs') :
    (call.id ≠ MessageId.getHostResponse.num ∧ lbs' = lbs) ∨
      ∃ resp index lb, resp = codec.parse (call.avail.take 5) ∧
        call.id = MessageId.getHostResponse.num ∧
        shard ((resp.modid + resp.cmdid) % 3) = some index ∧
        (lbs index).updateHost resp.modid resp.cmdid resp = .ok lb ∧
        lbs' = Function.update lbs index lb := by
  unfold routerCall at h
  split_ifs at h with hid
  swap
  · cases h
    exact Or.inl ⟨hid, rfl⟩
  rw [hid] at h
  unfold dealRecvRoute at h
  rcases bind_eq_ok.1 h with ⟨bytes, hbytes, h⟩
  have htake : bytes = call.avail.take 5 := by
    unfold callerBytes at hbytes
    split_ifs at hbytes
    cases hbytes
    rfl
  subst htake
  dsimp only at h
  split at h
  · cases h
  · next index hindex =>
      rcases bind_eq_ok.1 h with ⟨lb, hupdate, hout⟩
      cases hout
      exact Or.inr ⟨_, index, lb, rfl, hid, hindex, hupdate, rfl⟩

/-- No key is entered. -/
theorem routerCall_keys {lbs lbs' : Fin 3 → RouteLb} {call : ClientCall}
    (h : routerCall codec lbs call = .ok lbs') {i : Fin 3} {key : UInt64}
    (hkey : (lbs' i).routeMap key ≠ none) : (lbs i).routeMap key ≠ none := by
  rcases routerCall_cases h with ⟨_, rfl⟩ | ⟨resp, index, lb, _, _, _, hupdate, rfl⟩
  · exact hkey
  · -- `update_host` enters no key, and the other maps are untouched
    by_cases hi : i = index
    · subst hi
      rw [Function.update_self] at hkey
      exact (RouteLb.updateHost_keys hupdate hkey).1
    · rw [Function.update_of_ne hi] at hkey
      exact hkey

/-- After a reply that settles its key, the key is in no `_route_map`. -/
theorem Settles.gone {s : LbAgent} {req : GetRouteRequest} {call : ClientCall}
    (h : Settles codec s req call) {lbs : Fin 3 → RouteLb}
    (hcall : routerCall codec s.lbs call = .ok lbs) (i : Fin 3) :
    (lbs i).routeMap (routeKey req.modid req.cmdid) = none := by
  by_contra hkey
  have hold := routerCall_keys hcall hkey
  rcases h with hunknown | ⟨hid, hnohosts, hmodid, hcmdid, hothers⟩
  · exact hold (hunknown i)
  · rcases routerCall_cases hcall with ⟨hother, _⟩ | ⟨resp, index, lb, rfl, _, hindex, hupdate, rfl⟩
    · exact hother hid
    · by_cases hi : i = index
      · subst hi
        rw [Function.update_self] at hkey
        exact (RouteLb.updateHost_keys hupdate hkey).2 ⟨by rw [hmodid, hcmdid], hnohosts⟩
      · refine hold (hothers i ?_)
        rw [hindex]
        simpa using fun heq => hi heq.symm

theorem step_held {s t : LbAgent} {a : Act} (hwired : Wired codec s) (h : Held s)
    (hkeeps : Keeps codec s a) (hstep : step codec s a = some t) : Held t := by
  cases a with
  | getHost i modid cmdid resp garbage =>
      rcases bind_eq_ok.1 (returned_eq_some.1 hstep) with ⟨out, hget, hout⟩
      cases hout
      intro i' key hkey
      have hcase : (s.lbs i').routeMap key ≠ none ∨ (key = routeKey modid cmdid ∧
          out.sent = [{ modid := modid, cmdid := cmdid }]) := by
        dsimp only at hkey
        by_cases hi : i' = i
        · subst hi
          rw [Function.update_self] at hkey
          exact RouteLb.getHost_keys hget hkey
        · rw [Function.update_of_ne hi] at hkey
          exact Or.inl hkey
      rcases hcase with hold | ⟨rfl, hsent⟩
      · rcases h i' key hold with ⟨req, hreq, hqueue | hrest⟩
        · exact ⟨req, hreq, Or.inl (List.mem_append_left _ hqueue)⟩
        · exact ⟨req, hreq, Or.inr hrest⟩
      · refine ⟨{ modid := modid, cmdid := cmdid }, rfl, Or.inl ?_⟩
        rw [hsent]
        simp
  | newDnsRequest =>
      rcases bind_eq_ok.1 (returned_eq_some.1 hstep) with ⟨⟨client, accepted⟩, hsend, hout⟩
      cases hout
      -- the whole queue goes into `_obuf`
      have hall : accepted = s.dnsQueue := by
        rcases hkeeps with hempty | ⟨hconn, hroom⟩
        · rw [hempty] at hsend ⊢
          cases hsend
          rfl
        · rcases sendAll_of_room hwired.ready hconn hroom with ⟨client', hsent⟩
          rw [hsend] at hsent
          cases hsent
          rfl
      subst hall
      intro i key hkey
      rcases h i key hkey with ⟨req, hreq, hqueue | hunsent | hflight⟩
      · exact ⟨req, hreq, Or.inr (Or.inl (List.mem_append_right _ hqueue))⟩
      · exact ⟨req, hreq, Or.inr (Or.inl (List.mem_append_left _ hunsent))⟩
      · exact ⟨req, hreq, Or.inr (Or.inr hflight)⟩
  | write answers =>
      simp only [step] at hstep
      split_ifs at hstep with hguard
      rcases bind_eq_ok.1 (returned_eq_some.1 hstep) with ⟨out, hwrite, hout⟩
      cases hout
      intro i key hkey
      rcases h i key hkey with ⟨req, hreq, hqueue | hunsent | hflight⟩
      · exact ⟨req, hreq, Or.inl hqueue⟩
      · rw [← (advance_spec (out.taken.map Prod.snd).flatten.length s.partly s.unsent).2] at hunsent
        rcases List.mem_append.1 hunsent with hbegun | hleft
        · exact ⟨req, hreq, Or.inr (Or.inr (List.mem_append_right _ hbegun))⟩
        · exact ⟨req, hreq, Or.inr (Or.inl hleft)⟩
      · exact ⟨req, hreq, Or.inr (Or.inr (List.mem_append_left _ hflight))⟩
  | connectionDelay soError =>
      rcases bind_eq_ok.1 (returned_eq_some.1 hstep) with ⟨⟨client, effects⟩, _, hout⟩
      cases hout
      exact h
  | disconnect ans =>
      rcases bind_eq_ok.1 (returned_eq_some.1 hstep) with ⟨⟨client, effects⟩, _, hout⟩
      cases hout
      intro i key hkey
      rcases h i key hkey with ⟨req, hreq, hqueue | hunsent | hflight⟩
      · exact ⟨req, hreq, Or.inl hqueue⟩
      · exact ⟨req, hreq, Or.inr (Or.inl hunsent)⟩
      · -- no request was in flight
        rw [hkeeps.1] at hflight
        cases hflight
  | reply req call =>
      simp only [step] at hstep
      split_ifs at hstep with hguard
      rcases bind_eq_ok.1 (returned_eq_some.1 hstep) with ⟨lbs, hcall, hout⟩
      cases hout
      intro i key hkey
      -- the reply takes one request away, and nobody waits for its key any more
      have hother : key ≠ routeKey req.modid req.cmdid := by
        rintro rfl
        exact hkey (Settles.gone hkeeps hcall i)
      rcases h i key (routerCall_keys hcall hkey) with ⟨req', rfl, hqueue | hunsent | hflight⟩
      · exact ⟨req', rfl, Or.inl hqueue⟩
      · exact ⟨req', rfl, Or.inr (Or.inl hunsent)⟩
      · refine ⟨req', rfl, Or.inr (Or.inr ((List.mem_erase_of_ne ?_).2 hflight))⟩
        rintro rfl
        exact hother rfl
  | message call =>
      rcases bind_eq_ok.1 (returned_eq_some.1 hstep) with ⟨lbs, hcall, hout⟩
      cases hout
      intro i key hkey
      exact h i key (routerCall_keys hcall hkey)

/-- In every run that meets the condition, every key of every `_route_map` has a request
outstanding, whatever the state of its `load_balance`. -/
theorem pulls_not_lost (codec : Codec) (ans : ConnectAnswer) (s₀ : LbAgent)
    (hinit : init ans = some s₀) (as : List Act) (s : LbAgent)
    (hkeeps : Meets (step codec) (Keeps codec) s₀ as) (hrun : run (step codec) s₀ as = some s)
    (i : Fin 3) (key : UInt64) (lb : LoadBalance) (hlb : (s.lbs i).routeMap key = some lb) :
    Outstanding s key := by
  have hstart : Held s₀ := by
    unfold init at hinit
    split at hinit
    · cases hinit
    · cases hinit
      intro i key hkey
      exact absurd rfl hkey
  have hinv : Wired codec s ∧ Held s :=
    run_invariant (I := fun s => Wired codec s ∧ Held s)
      (fun _ _ _ h hk hstep => ⟨step_wired h.1 hstep, step_held h.1 h.2 hk hstep⟩)
      ⟨init_wired hinit, hstart⟩ hkeeps hrun
  exact hinv.2 i key (by simp [hlb])

/-! ### A request that is kept and one that is lost -/

instance (s : LbAgent) (req : GetRouteRequest) (msgid : Int32) (resp : GetRouteResponse) :
    Decidable (Erases s req msgid resp) :=
  inferInstanceAs (Decidable (msgid = MessageId.getHostResponse.num ∧ resp.host = [] ∧
    resp.modid = req.modid ∧ resp.cmdid = req.cmdid ∧
    ∀ i, shard ((resp.modid + resp.cmdid) % 3) ≠ some i →
      (s.lbs i).routeMap (routeKey req.modid req.cmdid) = none))

instance (codec : Codec) (s : LbAgent) (req : GetRouteRequest) (call : ClientCall) :
    Decidable (Settles codec s req call) :=
  inferInstanceAs (Decidable ((∀ i, (s.lbs i).routeMap (routeKey req.modid req.cmdid) = none) ∨
    Erases s req call.id (codec.parse (call.avail.take 5))))

instance (codec : Codec) (s : LbAgent) : ∀ a, Decidable (Keeps codec s a)
  | .newDnsRequest => inferInstanceAs (Decidable (s.dnsQueue = [] ∨ (s.client.connected = true ∧
      ((s.dnsQueue.flatMap (frame codec)).length : Int) ≤
        s.client.obuf.capacity - s.client.obuf.length)))
  | .disconnect _ => inferInstanceAs (Decidable (s.inFlight = [] ∧ s.partly = []))
  | .reply req call => inferInstanceAs (Decidable (Settles codec s req call))
  | .getHost _ _ _ _ _ | .write _ | .connectionDelay _ | .message _ => isTrue trivial

def sampleGetHost : Act :=
  .getHost 2 1 1 { seq := 0, modid := 1, cmdid := 1, retcode := 0, host := none } (.new, 0)

/-- The kernel takes five bytes of the message, later the rest. -/
def sampleWrites : List Act :=
  let answer (res : SysWrite) : WriteAnswer :=
    { write := res
      reconnect := { socket := none, connect := .failed } }
  [.write [answer (.wrote 5), answer .again], .write [answer (.wrote 7)]]

/-- The client is connected when `new_dns_request` empties the queue. -/
theorem pulls_not_lost_written :
    ∃ s₀ s lb, init { socket := some 7, connect := .done } = some s₀ ∧
      run (step codec128) s₀ ([sampleGetHost, .newDnsRequest] ++ sampleWrites) = some s ∧
      (s.lbs 2).routeMap (routeKey 1 1) = some lb ∧ Outstanding s (routeKey 1 1) := by
  have hcheck : ((init { socket := some 7, connect := .done }).bind fun s₀ =>
      if Meets (step codec128) (Keeps codec128) s₀
          ([sampleGetHost, .newDnsRequest] ++ sampleWrites) then
        (run (step codec128) s₀ ([sampleGetHost, .newDnsRequest] ++ sampleWrites)).map
          fun s => ((s.lbs 2).routeMap (routeKey 1 1)).isSome
      else none) = some true := by
    decide +kernel
  rcases Option.bind_eq_some_iff.1 hcheck with ⟨s₀, hinit, hs₀⟩
  split_ifs at hs₀ with hkeeps
  rcases Option.map_eq_some_iff.1 hs₀ with ⟨s, hrun, hsome⟩
  rcases Option.isSome_iff_exists.1 hsome with ⟨lb, hlb⟩
  exact ⟨s₀, s, lb, hinit, hrun, hlb,
    pulls_not_lost codec128 _ s₀ hinit _ s hkeeps hrun 2 _ lb hlb⟩

/-- The client is still connecting when `new_dns_request` empties the queue. -/
theorem pulls_lost_connecting :
    ∃ s₀ s lb, init { socket := some 7, connect := .inProgress } = some s₀ ∧
      run (step codec128) s₀ [sampleGetHost, .newDnsRequest] = some s ∧
      (s.lbs 2).routeMap (routeKey 1 1) = some lb ∧ lb.empty = true ∧ lb.status = .pulling ∧
      ¬ Outstanding s (routeKey 1 1) := by
  refine ⟨_, _, _, rfl, rfl, rfl, rfl, rfl, ?_⟩
  rintro ⟨req, _, hqueue | hunsent | hflight⟩
  · exact List.not_mem_nil hqueue
  · exact List.not_mem_nil hunsent
  · exact List.not_mem_nil hflight

/-! ## A reply that does not settle its key -/

/-- Nobody in the agent ever gets a host. -/
def Waiting (s : LbAgent) : Prop :=
  ∀ i, (s.lbs i).Waiting

theorem waiting_update {lbs : Fin 3 → RouteLb} (h : ∀ i, (lbs i).Waiting) {index : Fin 3}
    {lb : RouteLb} (hlb : lb.Waiting) (i : Fin 3) : (Function.update lbs index lb i).Waiting := by
  by_cases hi : i = index
  · subst hi
    simpa using hlb
  · simpa [hi] using h i

theorem Waiting.afterCall {s : LbAgent} (h : Waiting s) {call : ClientCall}
    {lbs : Fin 3 → RouteLb} (hcall : routerCall codec s.lbs call = .ok lbs) (i : Fin 3) :
    (lbs i).Waiting := by
  rcases routerCall_cases hcall with ⟨_, rfl⟩ | ⟨resp, index, lb, _, _, _, hupdate, rfl⟩
  · exact h i
  · rw [(h index).updateHost_eq] at hupdate
    cases hupdate
    refine waiting_update h ?_ i
    split_ifs
    · exact (h index).set_none _
    · exact h index

theorem step_waiting {s t : LbAgent} {a : Act} (h : Waiting s) (hstep : step codec s a = some t) :
    Waiting t := by
  cases a with
  | getHost i modid cmdid resp garbage =>
      rcases bind_eq_ok.1 (returned_eq_some.1 hstep) with ⟨out, hget, hout⟩
      cases hout
      exact waiting_update h ((h i).getHost hget)
  | newDnsRequest =>
      rcases bind_eq_ok.1 (returned_eq_some.1 hstep) with ⟨⟨client, accepted⟩, _, hout⟩
      cases hout
      exact h
  | write answers =>
      simp only [step] at hstep
      split_ifs at hstep with hguard
      rcases bind_eq_ok.1 (returned_eq_some.1 hstep) with ⟨out, _, hout⟩
      cases hout
      exact h
  | connectionDelay soError =>
      rcases bind_eq_ok.1 (returned_eq_some.1 hstep) with ⟨⟨client, effects⟩, _, hout⟩
      cases hout
      exact h
  | disconnect ans =>
      rcases bind_eq_ok.1 (returned_eq_some.1 hstep) with ⟨⟨client, effects⟩, _, hout⟩
      cases hout
      exact h
  | reply req call =>
      simp only [step] at hstep
      split_ifs at hstep with hguard
      rcases bind_eq_ok.1 (returned_eq_some.1 hstep) with ⟨lbs, hcall, hout⟩
      cases hout
      exact h.afterCall hcall
  | message call =>
      rcases bind_eq_ok.1 (returned_eq_some.1 hstep) with ⟨lbs, hcall, hout⟩
      cases hout
      exact h.afterCall hcall

theorem init_waiting {ans : ConnectAnswer} {s : LbAgent} (h : init ans = some s) : Waiting s := by
  unfold init at h
  split at h
  · cases h
  · cases h
    exact fun _ => RouteLb.new_waiting

/-- A key that the router takes out of a `_route_map` is erased by the response it was called
with. -/
theorem Waiting.erased {s : LbAgent} (h : Waiting s) {call : ClientCall} {lbs : Fin 3 → RouteLb}
    (hcall : routerCall codec s.lbs call = .ok lbs) {i : Fin 3} {key : UInt64}
    (hbefore : (s.lbs i).routeMap key ≠ none) (hafter : (lbs i).routeMap key = none) :
    ∃ resp, resp = codec.parse (call.avail.take 5) ∧ call.id = MessageId.getHostResponse.num ∧
      resp.host = [] ∧ routeKey resp.modid resp.cmdid = key ∧
      shard ((resp.modid + resp.cmdid) % 3) = some i := by
  rcases routerCall_cases hcall with ⟨_, rfl⟩ | ⟨resp, index, lb, hresp, hid, hindex, hupdate, rfl⟩
  · exact absurd hafter hbefore
  · rw [(h index).updateHost_eq] at hupdate
    cases hupdate
    by_cases hi : i = index
    swap
    · rw [Function.update_of_ne hi] at hafter
      exact absurd hafter hbefore
    subst hi
    rw [Function.update_self] at hafter
    split_ifs at hafter with hempty
    · refine ⟨resp, hresp, hid, hempty, ?_, hindex⟩
      by_contra hkey
      have hsame : (s.lbs i).routeMap key = none := by
        simpa [RouteLb.set, Function.update_of_ne (Ne.symm hkey)] using hafter
      exact hbefore hsame
    · exact absurd hafter hbefore

/-- The condition on replies is exact: after any run, a reply to the only request for a key that
does not settle the key leaves it without hosts, waiting, and with no request outstanding. -/
theorem reply_strands {ans : ConnectAnswer} {s₀ s t : LbAgent} (hinit : init ans = some s₀)
    {as : List Act} (hrun : run (step codec) s₀ as = some s) {req : GetRouteRequest}
    {call : ClientCall} (hstep : step codec s (.reply req call) = some t)
    (hnot : ¬ Settles codec s req call)
    (hlast : req ∉ s.dnsQueue ∧ req ∉ s.unsent ∧ req ∉ s.inFlight.erase req) :
    ∃ i lb, (t.lbs i).routeMap (routeKey req.modid req.cmdid) = some lb ∧ lb.empty = true ∧
      lb.status = .pulling ∧ ¬ Outstanding t (routeKey req.modid req.cmdid) := by
  have h : Waiting s :=
    run_invariant_always (fun _ _ _ => step_waiting) (init_waiting hinit) hrun
  have hwaiting := step_waiting h hstep
  simp only [step] at hstep
  split_ifs at hstep with hguard
  rcases bind_eq_ok.1 (returned_eq_some.1 hstep) with ⟨lbs, hcall, hout⟩
  cases hout
  -- the key is left in one of the maps, or the reply would have erased it
  have hkept : ∃ i, (lbs i).routeMap (routeKey req.modid req.cmdid) ≠ none := by
    by_contra hnone
    have hgone : ∀ i, (lbs i).routeMap (routeKey req.modid req.cmdid) = none :=
      fun i => by_contra fun hi => hnone ⟨i, hi⟩
    refine hnot ?_
    by_cases hknown : ∀ i, (s.lbs i).routeMap (routeKey req.modid req.cmdid) = none
    · exact Or.inl hknown
    · rcases not_forall.1 hknown with ⟨i, hi⟩
      rcases h.erased hcall hi (hgone i) with ⟨resp, rfl, hid, hempty, hkey, _⟩
      rcases Dns.routeKey_inj hkey with ⟨hmodid, hcmdid⟩
      refine Or.inr ⟨hid, hempty, hmodid, hcmdid, ?_⟩
      intro i' hother
      by_contra hi'
      rcases h.erased hcall hi' (hgone i') with ⟨resp, rfl, _, _, _, hshard⟩
      exact hother hshard
  rcases hkept with ⟨i, hi⟩
  rcases Option.ne_none_iff_exists'.1 hi with ⟨lb, hlb⟩
  have hlbw := hwaiting i _ lb hlb
  refine ⟨i, lb, hlb, hlbw.1.empty, hlbw.2, ?_⟩
  rintro ⟨req', hkey, hout⟩
  -- a request for the same key is the same request
  have hsame : req' = req := by
    rcases Dns.routeKey_inj hkey with ⟨hmodid, hcmdid⟩
    cases req'
    cases req
    simp_all
  subst hsame
  rcases hout with hqueue | hunsent | hflight
  · exact hlast.1 hqueue
  · exact hlast.2.1 hunsent
  · exact hlast.2.2 hflight

end Proofs

end LbAgent
end Agent
end Rins
