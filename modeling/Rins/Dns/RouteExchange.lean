import Mathlib.Data.List.Sort
import Rins.Base.Messages
import Rins.Dns.Answers
import Rins.Lib.Run
import Rins.Reactor.ConnRounds

/-!
# RouteExchange — a connection of the DNS service, byte by byte

The bytes of a client arrive in parts that the network chooses; `get_route` is called for each
request as soon as it is complete and sends its answer on the same connection, on which
`push_change_task` sends as well; and the kernel takes the bytes of the answers in parts of its own.
Between any two of these steps the tables may have changed, so a step that looks up hosts is given
the route object as it is then.

In `Service` what happens on a connection is a list of events.  Here are the bytes for them: what
the kernel has taken reads as the responses in the list.

The bytes of a request for `(0, 0)` are none at all, and the server has its troubles with empty
messages: the clients here do not ask for it.  `HasRoom` is about the responses: `send_data` writes
past the end of a block if it does not hold.

A push starts behind `make_publish_map`, whose map is given to it.  It is assumed that the call has
returned: the loop in the source has undefined behaviour as soon as it moves an entry
(`splitsExactly_iff`).
-/

namespace Rins
namespace Dns

open Lib
open Proto (MessageId GetRouteRequest GetRouteResponse)
open Reactor

variable (w : Wire)

/-! ## Requests and responses as messages -/

/-- The message that asks for a route. -/
def requestMessage (req : GetRouteRequest) : Message :=
  Message.of MessageId.getRouteRequest.num ((Proto.getRouteRequest w).internalSerialize req)

/-- The message that carries a response. -/
def responseMessage (rsp : GetRouteResponse) : Message :=
  Message.of MessageId.getRouteResponse.num ((Proto.getRouteResponse w).internalSerialize rsp)

/-- The request in a message. -/
def parseRequest (m : Message) : GetRouteRequest :=
  ((Proto.getRouteRequest w).parseFromArray m.body).2

/-- The order in which an `unordered_set` of hosts is walked. -/
structure HostOrder where
  toList : Finset UInt64 → List UInt64
  coe_toList : ∀ hosts, (toList hosts : Multiset UInt64) = hosts.val

/-- The response as `get_route` and `push_change_task` fill it. -/
def fillResponse (route : Route) (order : HostOrder) (modid cmdid : Int32) : GetRouteResponse :=
  { modid := modid
    cmdid := cmdid
    host := (order.toList (route.getHosts modid cmdid)).map hostOf }

/-- A response as an event shows it, without the order of the hosts. -/
def responseOf (rsp : GetRouteResponse) : RouteResponse :=
  { modid := rsp.modid
    cmdid := rsp.cmdid
    hosts := rsp.host }

theorem responseOf_fillResponse (route : Route) (order : HostOrder) (modid cmdid : Int32) :
    responseOf (fillResponse route order modid cmdid) = route.requested modid cmdid := by
  simp only [responseOf, fillResponse, Route.requested, RouteResponse.of]
  rw [← order.coe_toList, Multiset.map_coe]

@[simp] theorem parseRequest_requestMessage (req : GetRouteRequest) :
    parseRequest w (requestMessage w req) = req :=
  congrArg Prod.snd ((Proto.getRouteRequest w).parseFromArray_serialize req)

theorem responseMessage_body (rsp : GetRouteResponse) :
    (responseMessage w rsp).body = (Proto.getRouteResponse w).internalSerialize rsp := rfl

/-- The bytes of the responses, one after the other. -/
def stream (sent : List GetRouteResponse) : List UInt8 :=
  sent.flatMap fun rsp => (responseMessage w rsp).encode

/-- `get_route`, as far as the connection goes. -/
def getRoute (route : Route) (order : HostOrder) (fd : Int) : MsgCallback :=
  TcpConn.answering fd fun m =>
    let req := parseRequest w m
    let responseString := (Proto.getRouteResponse w).internalSerialize
      (fillResponse route order req.modid req.cmdid)
    (responseString, Int32.ofNat responseString.length, MessageId.getRouteResponse.num)

/-- `tcp_server::router`, with `get_route` registered for its message id. -/
def dnsRouter (route : Route) (order : HostOrder) (fd : Int) : MsgCallback := fun m p obuf =>
  if m.id = MessageId.getRouteRequest.num then getRoute w route order fd m p obuf
  else .ok (p, obuf, [])

/-! ## The connection -/

structure RouteConn where
  conn : TcpConn
  /-- in the loop of `do_read` -/
  reading : Bool
  /-- after `clean_conn` -/
  closed : Bool
  /-- `param`, the keys that have been subscribed -/
  subList : Finset UInt64
  /-- bytes of the client that have not been read -/
  net : List UInt8
  /-- bytes that the kernel has taken -/
  written : List UInt8
  /-- history: what the client has asked for -/
  asked : List GetRouteRequest
  /-- history: the requests, replies and pushes on this connection -/
  log : List Event
  crashed : Option Fault

namespace RouteConn

/-- A new connection; `create_subscribe` has set `param`. -/
def init (fd : Int) : RouteConn :=
  { conn := TcpConn.new fd
    reading := false
    closed := false
    subList := ∅
    net := []
    written := []
    asked := []
    log := []
    crashed := none }

inductive Act
  /-- the client sends a request -/
  | ask (req : GetRouteRequest)
  /-- `do_read` reads the next `n` bytes -/
  | read (n : Nat) (pool : BufPool) (eintrs : Nat)
  /-- a round of its loop -/
  | round (route : Route) (order : HostOrder) (pool : BufPool)
  /-- `push_change_task` comes to one of the keys of this connection; its `make_publish_map` has
  returned, which is an assumption -/
  | push (mod : UInt64) (route : Route) (order : HostOrder) (pool : BufPool)
  /-- `do_write`, with the answers of the kernel -/
  | write (results : List SysWrite) (pool : BufPool)

/-- The thread is in its event loop, and the connection is open. -/
def Idle (s : RouteConn) : Prop :=
  s.crashed = none ∧ s.closed = false ∧ s.reading = false

instance (s : RouteConn) : Decidable s.Idle :=
  inferInstanceAs (Decidable (_ ∧ _ ∧ _))

/-- What `clean_conn` leaves, `clear_subscribe` included. -/
def cleaned (s : RouteConn) (conn : TcpConn) : RouteConn :=
  { s with conn := conn, reading := false, closed := true, subList := ∅ }

def readStep (s : RouteConn) (n : Nat) (pool : BufPool) (eintrs : Nat) : RouteConn :=
  match InputBuf.readData pool s.conn.ibuf (Socket.ofChunk (s.net.take n) eintrs) with
  | .error e => { s with crashed := some e }
  | .ok (ret, pool, ibuf) =>
      let conn := { s.conn with ibuf := ibuf }
      -- an error, or the client has closed its end
      if ret = -1 ∨ ret = 0 then
        match TcpConn.cleanConn pool conn with
        | .error e => { s with crashed := some e }
        | .ok out => s.cleaned out.conn
      else
        { s with conn := conn, reading := true, net := s.net.drop n }

def roundStep (s : RouteConn) (route : Route) (order : HostOrder) (pool : BufPool) : RouteConn :=
  match s.conn.round (dnsRouter w route order s.conn.connfd) pool with
  | .error e => { s with crashed := some e }
  | .ok (.left out) =>
      -- behind the loop: `_ibuf.adjust()`
      match InputBuf.adjust out.conn.ibuf with
      | .error e => { s with crashed := some e }
      | .ok ibuf =>
          let conn := { out.conn with ibuf := ibuf }
          if out.cleaned then s.cleaned conn else { s with conn := conn, reading := false }
  | .ok (.dispatched _ conn _ m) =>
      if m.id = MessageId.getRouteRequest.num then
        let req := parseRequest w m
        -- `sub_list->insert(mod)` comes before the hosts are looked up
        { s with
          conn := conn
          subList := insert (routeKey req.modid req.cmdid) s.subList
          log := s.log ++ [.request req.modid req.cmdid,
            .replied (route.requested req.modid req.cmdid)] }
      else
        -- nothing is registered for this id
        { s with conn := conn }

/-- The loop of `push_change_task` at a key, behind `make_publish_map`. -/
def pushStep (s : RouteConn) (mod : UInt64) (route : Route) (order : HostOrder) (pool : BufPool) :
    RouteConn :=
  let responseString := (Proto.getRouteResponse w).internalSerialize
    (fillResponse route order (modidOf mod) (cmdidOf mod))
  match s.conn.sendMessage pool responseString (Int32.ofNat responseString.length)
      MessageId.getRouteResponse.num with
  | .error e => { s with crashed := some e }
  -- `push_change_task` does not look at the result
  | .ok (_, out) => { s with conn := out.conn, log := s.log ++ [.pushed (route.pushed mod)] }

def writeStep (s : RouteConn) (results : List SysWrite) (pool : BufPool) : Option RouteConn :=
  match s.conn.doWrite pool results with
  -- the kernel has not answered often enough
  | .error .unfinished => none
  | .error e => some { s with crashed := some e }
  | .ok out =>
      let s := { s with written := s.written ++ out.taken }
      some (if out.cleaned then s.cleaned out.conn else { s with conn := out.conn })

def step (s : RouteConn) : Act → Option RouteConn
  | .ask req =>
      if req ≠ (Proto.getRouteRequest w).default then
        some { s with
          asked := s.asked ++ [req]
          net := s.net ++ (requestMessage w req).encode }
      else
        none
  | .read n pool eintrs =>
      if s.Idle ∧ 1 ≤ n ∧ n ≤ s.net.length ∧ n ≤ TcpConn.maxChunk then
        some (s.readStep n pool eintrs)
      else
        none
  | .round route order pool =>
      if s.crashed = none ∧ s.closed = false ∧ s.reading = true then
        some (s.roundStep w route order pool)
      else
        none
  | .push mod route order pool => if s.Idle then some (s.pushStep w mod route order pool) else none
  | .write results pool => if s.Idle then s.writeStep results pool else none

/-- The buffer pool stays below its memory cap. -/
def PoolServes (_ : RouteConn) : Act → Prop
  | .ask _ => True
  | .read _ pool _ => pool.Serviceable
  | .round _ _ pool => pool.Ample
  | .push _ _ _ pool => pool.Ample
  | .write _ pool => pool.Clean

/-- The request that the next round finds. -/
def next (s : RouteConn) : Option GetRouteRequest :=
  match serverNext s.conn.ibuf.content with
  | .emit m _ => some (parseRequest w m)
  | _ => none

/-- The client takes a response of this length, and there is room for it behind what waits to be
written. -/
def Fits (s : RouteConn) (rsp : GetRouteResponse) : Prop :=
  (responseMessage w rsp).body.length ≤ messageLengthLimit ∧
    OutputBuf.MessageFits s.conn.obuf (responseMessage w rsp).body.length

/-- Each response fits. -/
def HasRoom (s : RouteConn) : Act → Prop
  | .round route order _ =>
      ∀ req ∈ s.next w, s.Fits w (fillResponse route order req.modid req.cmdid)
  | .push mod route order _ => s.Fits w (fillResponse route order (modidOf mod) (cmdidOf mod))
  | _ => True

instance (s : RouteConn) (rsp : GetRouteResponse) : Decidable (s.Fits w rsp) :=
  inferInstanceAs (Decidable (_ ∧ _))

instance (s : RouteConn) : ∀ a, Decidable (s.HasRoom w a)
  | .ask _ => isTrue trivial
  | .read _ _ _ => isTrue trivial
  | .round _ _ _ => Option.decidableForallMem (s.next w)
  | .push mod route order _ =>
      inferInstanceAs (Decidable (s.Fits w (fillResponse route order (modidOf mod) (cmdidOf mod))))
  | .write _ _ => isTrue trivial

/-! ## `do_read` in its steps -/

section Rounds

variable {w} {route : Route} {order : HostOrder}

/-- The loop of `do_read` is a run of rounds. -/
theorem parseLoop_run {rounds : Nat} :
    ∀ {s : RouteConn} {pool : BufPool} {out : TcpConn.ReadOutcome} {ibuf : ReactorBuf},
      s.crashed = none → s.closed = false → s.reading = true →
      TcpConn.parseLoop (dnsRouter w route order s.conn.connfd) rounds pool s.conn = .ok out →
      InputBuf.adjust out.conn.ibuf = .ok ibuf →
      ∃ (pools : List BufPool) (t : RouteConn),
        run (step w) s (pools.map (.round route order)) = some t ∧
        t.conn = { out.conn with ibuf := ibuf } ∧ t.closed = out.cleaned ∧ t.reading = false ∧
        t.crashed = none := by
  induction rounds with
  | zero =>
      intro s pool out ibuf _ _ _ hloop _
      cases hloop
  | succ rounds ih =>
      intro s pool out ibuf halive hopen hreading hloop hadj
      rw [TcpConn.parseLoop_succ] at hloop
      rcases bind_eq_ok.1 hloop with ⟨r, hround, hrest⟩
      have hstep : step w s (.round route order pool) = some (s.roundStep w route order pool) :=
        if_pos ⟨halive, hopen, hreading⟩
      cases r with
      | left last =>
          cases hrest
          refine ⟨[pool], s.roundStep w route order pool, run_cons.2 ⟨_, hstep, rfl⟩, ?_⟩
          simp only [roundStep, hround, hadj]
          cases hcleaned : out.cleaned with
          | true => exact ⟨rfl, rfl, rfl, halive⟩
          | false => exact ⟨rfl, hopen, rfl, halive⟩
      | dispatched p conn called m =>
          rcases bind_eq_ok.1 hrest with ⟨later, hlater, hout⟩
          cases hout
          -- the step keeps the flags, so the other rounds are possible from there
          have hfd := TcpConn.round_connfd hround
          have hnext : ∃ t : RouteConn, s.roundStep w route order pool = t ∧ t.conn = conn ∧
              t.crashed = none ∧ t.closed = false ∧ t.reading = true := by
            simp only [roundStep, hround]
            split_ifs
            · exact ⟨_, rfl, rfl, halive, hopen, hreading⟩
            · exact ⟨_, rfl, rfl, halive, hopen, hreading⟩
          rcases hnext with ⟨t, ht, rfl, halive', hopen', hreading'⟩
          rw [← hfd] at hlater
          rcases ih halive' hopen' hreading' hlater hadj with ⟨pools, u, hrun, hu⟩
          rw [ht] at hstep
          exact ⟨pool :: pools, u, run_cons.2 ⟨t, hstep, hrun⟩, hu⟩

/-- A call of `do_read` that returns is a run of these steps, with the tables as they are all the
time. -/
theorem doRead_run {s : RouteConn} (hidle : s.Idle) {n : Nat} {pool : BufPool} {eintrs : Nat}
    (hn : 1 ≤ n ∧ n ≤ s.net.length ∧ n ≤ TcpConn.maxChunk) {out : TcpConn.ReadOutcome}
    (hread : TcpConn.doRead (dnsRouter w route order s.conn.connfd) pool s.conn
      (Socket.ofChunk (s.net.take n) eintrs) = .ok out) :
    ∃ (pools : List BufPool) (t : RouteConn),
      run (step w) s (.read n pool eintrs :: pools.map (.round route order)) = some t ∧
      t.conn = out.conn ∧ t.closed = out.cleaned ∧ t.reading = false ∧ t.crashed = none := by
  have hstep : step w s (.read n pool eintrs) = some (s.readStep n pool eintrs) :=
    if_pos ⟨hidle, hn⟩
  rcases hidle with ⟨halive, hopen, hwaiting⟩
  rcases bind_eq_ok.1 hread with ⟨⟨ret, p, ibuf⟩, hdata, hread⟩
  dsimp only at hread
  by_cases hret : ret = -1 ∨ ret = 0
  · -- the connection is closed
    have hclean : ∃ closed, TcpConn.cleanConn p { s.conn with ibuf := ibuf } = .ok closed ∧
        out = { closed with calls := [] } := by
      split_ifs at hread
      · rcases bind_eq_ok.1 hread with ⟨closed, hclosed, hout⟩
        cases hout
        exact ⟨closed, hclosed, rfl⟩
      · rcases bind_eq_ok.1 hread with ⟨closed, hclosed, hout⟩
        cases hout
        exact ⟨closed, hclosed, rfl⟩
      · omega
    rcases hclean with ⟨closed, hclosed, rfl⟩
    refine ⟨[], _, run_cons.2 ⟨_, hstep, rfl⟩, ?_⟩
    simp only [readStep, hdata, if_pos hret, hclosed]
    exact ⟨rfl, (TcpConn.cleanConn_cleaned hclosed).symm, rfl, halive⟩
  · rw [if_neg fun h => hret (Or.inl h), if_neg fun h => hret (Or.inr h)] at hread
    rcases bind_eq_ok.1 hread with ⟨last, hloop, hread⟩
    rcases bind_eq_ok.1 hread with ⟨rest, hadj, hout⟩
    cases hout
    set t : RouteConn :=
      { s with conn := { s.conn with ibuf := ibuf }, reading := true, net := s.net.drop n } with ht
    have hstep' : step w s (.read n pool eintrs) = some t := by
      rw [hstep]
      simp only [readStep, hdata, if_neg hret, ht]
    have hloop' : TcpConn.parseLoop (dnsRouter w route order t.conn.connfd)
        (t.conn.ibuf.length.toNat + 1) p t.conn = .ok last := hloop
    rcases parseLoop_run (s := t) halive hopen rfl hloop' hadj with ⟨pools, u, hrun, hu⟩
    exact ⟨pools, u, run_cons.2 ⟨t, hstep', hrun⟩, hu⟩

end Rounds

/-! ## The invariant -/

/-- The requests among the events. -/
def requests (log : List Event) : List GetRouteRequest :=
  log.filterMap fun
    | .request modid cmdid => some { modid := modid, cmdid := cmdid }
    | _ => none

/-- What holds while the connection is open: the bytes of the responses are written or wait, and the
bytes that wait to be read are the requests that have no answer yet. -/
structure Open (s : RouteConn) (sent : List GetRouteResponse) : Prop where
  sound : s.conn.Sound
  output : s.conn.obuf.Resting
  bytes : s.written ++ s.conn.obuf.content = stream w sent
  input : ∃ rest, s.asked = requests s.log ++ rest ∧
    serverFraming.parse (s.conn.ibuf.content ++ s.net) =
      (rest.map (requestMessage w), .pending [])
  waiting : s.reading = false →
    s.conn.ibuf.Resting ∧ serverNext s.conn.ibuf.content = .wait
  subscribed : s.subList =
    ((requests s.log).map fun req => routeKey req.modid req.cmdid).toFinset

/-- The responses `sent` have been sent on the connection. -/
structure Inv (s : RouteConn) (sent : List GetRouteResponse) : Prop where
  alive : s.crashed = none
  proper : ∀ req ∈ s.asked, req ≠ (Proto.getRouteRequest w).default
  short : ∀ rsp ∈ sent, (responseMessage w rsp).WellFormed
  responses : sent.map responseOf = s.log.filterMap Event.response
  answered : requests s.log <+: s.asked
  taken : s.written <+: stream w sent
  opened : s.closed = false → Open w s sent

variable {w}

theorem requestMessage_wellFormed (req : GetRouteRequest) :
    (requestMessage w req).WellFormed := by
  apply Message.of_wellFormed
  have hsize := Proto.getRouteRequest_byteSizeLong_le w req
  rw [MessageType.byteSizeLong_eq] at hsize
  simp only [messageLengthLimit]
  omega

/-- The bytes of a request, behind others that are read to the end. -/
theorem parse_append_request {bytes : List UInt8} {ms : List Message}
    (h : serverFraming.parse bytes = (ms, .pending [])) (req : GetRouteRequest) :
    serverFraming.parse (bytes ++ (requestMessage w req).encode) =
      (ms ++ [requestMessage w req], .pending []) := by
  have hone := serverFraming.parse_encode Message.encode serverFraming_nil [requestMessage w req]
    (List.forall_mem_singleton.2 (serverFraming_encode (requestMessage_wellFormed req)))
  rw [List.flatMap_singleton] at hone
  rw [serverFraming.parse_append, h, Framing.feed, List.nil_append, hone]

theorem stream_append (sent : List GetRouteResponse) (rsp : GetRouteResponse) :
    stream w (sent ++ [rsp]) = stream w sent ++ (responseMessage w rsp).encode := by
  simp [stream]

theorem init_inv (fd : Int) : Inv w (init fd) [] where
  alive := rfl
  proper := by simp [init]
  short := by simp
  responses := rfl
  answered := List.nil_prefix
  taken := List.nil_prefix
  opened _ := {
    sound := TcpConn.new_sound fd
    output := ReactorBuf.resting_none
    bytes := rfl
    input := ⟨[], rfl, serverFraming.parse_wait serverFraming_nil⟩
    waiting := fun _ => ⟨ReactorBuf.resting_none, rfl⟩
    subscribed := rfl }

/-! ### The steps -/

/-- The client sends another request. -/
theorem ask_inv {s t : RouteConn} {sent : List GetRouteResponse} (h : Inv w s sent)
    {req : GetRouteRequest} (hstep : step w s (.ask req) = some t) : Inv w t sent := by
  simp only [step] at hstep
  split_ifs at hstep with hreq
  cases hstep
  refine { h with
    proper := ?_
    answered := h.answered.trans (List.prefix_append _ _)
    opened := fun hopen => ?_ }
  · intro req' hreq'
    rcases List.mem_append.1 hreq' with hold | hnew
    · exact h.proper req' hold
    · rw [List.mem_singleton.1 hnew]
      exact hreq
  · have ho := h.opened hopen
    rcases ho.input with ⟨rest, hasked, hparse⟩
    refine { ho with input := ⟨rest ++ [req], ?_, ?_⟩ }
    · show s.asked ++ [req] = requests s.log ++ (rest ++ [req])
      rw [hasked, List.append_assoc]
    · show serverFraming.parse (s.conn.ibuf.content ++ (s.net ++ _)) = _
      rw [← List.append_assoc, parse_append_request hparse, List.map_append, List.map_singleton]

/-- `do_read` gets some bytes. -/
theorem read_inv {s t : RouteConn} {sent : List GetRouteResponse} (h : Inv w s sent) {n : Nat}
    {pool : BufPool} {eintrs : Nat} (hpool : pool.Serviceable)
    (hstep : step w s (.read n pool eintrs) = some t) : Inv w t sent := by
  simp only [step] at hstep
  split_ifs at hstep with hguard
  rcases hguard with ⟨⟨_, hopen, hidle⟩, hpos, hle, hmax⟩
  cases hstep
  have ho := h.opened hopen
  rcases ho.waiting hidle with ⟨hfront, hwait⟩
  have hchunk : s.net.take n ≠ [] := by
    apply List.ne_nil_of_length_pos
    rw [List.length_take]
    omega
  have hfit : s.conn.ibuf.content.length + (s.net.take n).length ≤ 8388608 := by
    have hshort := TcpConn.length_lt_of_wait hwait
    simp only [TcpConn.maxChunk] at hmax
    rw [List.length_take]
    omega
  rcases InputBuf.readData_spec hpool.clean hfront hchunk hfit eintrs with
    ⟨hcap, _⟩ | ⟨p', b, hread, _, hb, _, hpend⟩
  · exact absurd hpool.belowCap hcap
  have hret : ¬ (((s.net.take n).length : Int) = -1 ∨ ((s.net.take n).length : Int) = 0) := by
    have hlen := List.length_pos_iff.2 hchunk
    omega
  simp only [readStep, hread, hret, if_false]
  refine { h with opened := fun _ => { ho with
    sound := ?_
    input := ?_
    waiting := fun hidle' => ?_ } }
  · refine ⟨ReactorBuf.sound_some.2 hb, ho.sound.obuf, fun hnil => ?_⟩
    rw [ReactorBuf.content_some, hpend] at hnil
    exact absurd (List.append_eq_nil_iff.1 hnil).2 hchunk
  · -- the bytes only change their place
    show ∃ rest, _ ∧ serverFraming.parse (b.pending ++ s.net.drop n) = _
    rw [hpend, List.append_assoc, List.take_append_drop]
    exact ho.input
  · cases hidle'

/-- What the bytes that wait to be read are: no complete message, or the first request that has no
answer yet. -/
theorem Open.next_cases {s : RouteConn} {sent : List GetRouteResponse} (h : Open w s sent) :
    serverNext s.conn.ibuf.content = .wait ∨
      ∃ req rest n, serverNext s.conn.ibuf.content = .emit (requestMessage w req) n ∧
        s.asked = requests s.log ++ req :: rest ∧
        serverFraming.parse (s.conn.ibuf.content.drop n ++ s.net) =
          (rest.map (requestMessage w), .pending []) := by
  rcases h.input with ⟨rest, hasked, hparse⟩
  cases hnext : serverFraming.next s.conn.ibuf.content with
  | wait => exact Or.inl hnext
  | reject =>
      rw [serverFraming.parse_reject (serverFraming.reject_append _ hnext)] at hparse
      cases congrArg Prod.snd hparse
  | emit m n =>
      right
      have hle := (serverFraming.emit_pos hnext).2
      rw [serverFraming.parse_emit (serverFraming.emit_append s.net hnext),
        List.drop_append_of_le_length hle] at hparse
      cases rest with
      | nil => cases hparse
      | cons req rest =>
          simp only [List.map_cons, Prod.mk.injEq, List.cons.injEq] at hparse
          rcases hparse with ⟨⟨rfl, hrest⟩, hpending⟩
          exact ⟨req, rest, n, hnext, hasked, Prod.ext hrest hpending⟩

/-- `get_route` on a request, with room for the answer. -/
theorem dnsRouter_requestMessage {s : RouteConn} {sent : List GetRouteResponse} (h : Open w s sent)
    {pool : BufPool} (hpool : pool.Ample) {route : Route} {order : HostOrder}
    {req : GetRouteRequest} (hfit : s.Fits w (fillResponse route order req.modid req.cmdid)) :
    ∃ p obuf called, dnsRouter w route order s.conn.connfd (requestMessage w req) pool s.conn.obuf =
        .ok (p, obuf, called) ∧ p.Clean ∧ obuf.Resting ∧
      obuf.content = s.conn.obuf.content ++
        (responseMessage w (fillResponse route order req.modid req.cmdid)).encode := by
  rcases @TcpConn.sendMessage_fits _ hpool ⟨s.conn.connfd, none, s.conn.obuf⟩ h.output _ _ hfit.1
    hfit.2 with ⟨out, hsend, hclean, _, hrest, hcontent⟩
  rw [responseMessage_body] at hsend
  refine ⟨out.pool, out.conn.obuf, out.effects, ?_, hclean, hrest, hcontent⟩
  have hid : (requestMessage w req).id = MessageId.getRouteRequest.num := rfl
  simp only [dnsRouter, hid, if_true, getRoute, TcpConn.answering, parseRequest_requestMessage]
  rw [hsend]
  rfl

/-- Another response is on its way. -/
theorem Inv.responses_append {s : RouteConn} {sent : List GetRouteResponse} (h : Inv w s sent)
    {rsp : GetRouteResponse} (hfit : s.Fits w rsp) :
    (∀ rsp' ∈ sent ++ [rsp], (responseMessage w rsp').WellFormed) ∧
      s.written <+: stream w (sent ++ [rsp]) := by
  refine ⟨fun rsp' hrsp' => ?_, ?_⟩
  · rcases List.mem_append.1 hrsp' with hold | hnew
    · exact h.short rsp' hold
    · rw [List.mem_singleton.1 hnew]
      exact Message.of_wellFormed hfit.1
  · rw [stream_append]
    exact h.taken.trans (List.prefix_append _ _)

/-- A round that finds no complete request leaves the loop. -/
theorem roundStep_wait {s : RouteConn} {sent : List GetRouteResponse} (h : Inv w s sent)
    (hopen : s.closed = false) (hwait : serverNext s.conn.ibuf.content = .wait) (route : Route)
    (order : HostOrder) (pool : BufPool) : Inv w (s.roundStep w route order pool) sent := by
  have ho := h.opened hopen
  have hround := TcpConn.round_wait (dnsRouter w route order s.conn.connfd) pool ho.sound hwait
  rcases InputBuf.adjust_spec ho.sound.ibuf with ⟨ibuf, hadj, hfront, hcontent, hnone⟩
  simp only [roundStep, hround, hadj, Bool.false_eq_true, if_false]
  refine { h with opened := fun _ => { ho with
    sound := ⟨hfront.sound, ho.sound.obuf, fun hnil => ?_⟩
    input := ?_
    waiting := fun _ => ⟨hfront, ?_⟩ } }
  · exact hnone (ho.sound.drained (hcontent.symm.trans hnil))
  · show ∃ rest, _ ∧ serverFraming.parse (ibuf.content ++ s.net) = _
    rw [hcontent]
    exact ho.input
  · show serverNext ibuf.content = .wait
    rw [hcontent]
    exact hwait

/-- What a round does that finds a request. -/
theorem roundStep_eq {s : RouteConn} {sent : List GetRouteResponse} (h : Open w s sent)
    {route : Route} {order : HostOrder} {pool : BufPool} (hpool : pool.Ample)
    {req : GetRouteRequest} (hproper : req ≠ (Proto.getRouteRequest w).default) {n : Nat}
    (hnext : serverNext s.conn.ibuf.content = .emit (requestMessage w req) n)
    (hfit : s.Fits w (fillResponse route order req.modid req.cmdid)) :
    ∃ ibuf obuf, s.roundStep w route order pool = { s with
        conn := { s.conn with ibuf := ibuf, obuf := obuf }
        subList := insert (routeKey req.modid req.cmdid) s.subList
        log := s.log ++ [.request req.modid req.cmdid,
          .replied (route.requested req.modid req.cmdid)] } ∧
      ibuf.Sound ∧ ibuf.content = s.conn.ibuf.content.drop n ∧ (ibuf.content = [] → ibuf = none) ∧
      obuf.Resting ∧ obuf.content = s.conn.obuf.content ++
        (responseMessage w (fillResponse route order req.modid req.cmdid)).encode := by
  have hbody : (requestMessage w req).body ≠ [] := MessageType.serialize_ne_nil _ hproper
  rcases TcpConn.round_dispatch (dnsRouter w route order s.conn.connfd) pool h.sound hnext hbody
    with ⟨b, hb, hpend, hround⟩
  rcases dnsRouter_requestMessage h hpool hfit with ⟨p, obuf, called, hcall, hclean, hobuf, hsent⟩
  rcases TcpConn.emit_size hnext with ⟨hsize, hle⟩
  have hpart : (requestMessage w req).body.length ≤ b.pending.length := by
    rw [hpend, List.length_drop]
    omega
  rcases ReactorBuf.pop_spec hclean hb hpart with ⟨p', ibuf, hpop, _, hsound, hcontent, hdrained⟩
  rw [hpend, List.drop_drop, ← hsize] at hcontent hdrained
  simp only [hcall, ok_bind, hpop] at hround
  have hid : (requestMessage w req).id = MessageId.getRouteRequest.num := rfl
  refine ⟨ibuf, obuf, ?_, hsound, hcontent, fun hnil => hdrained (hcontent.symm.trans hnil), hobuf,
    hsent⟩
  simp only [roundStep, hround, pure_eq_ok, hid, if_true, parseRequest_requestMessage]

/-- A round finds no complete request, or answers one. -/
theorem round_inv {s t : RouteConn} {sent : List GetRouteResponse} (h : Inv w s sent)
    {route : Route} {order : HostOrder} {pool : BufPool} (hpool : pool.Ample)
    (hroom : s.HasRoom w (.round route order pool))
    (hstep : step w s (.round route order pool) = some t) : ∃ sent', Inv w t sent' := by
  simp only [step] at hstep
  split_ifs at hstep with hguard
  cases hstep
  have ho := h.opened hguard.2.1
  rcases ho.next_cases with hwait | ⟨req, rest, n, hnext, hasked, hparse⟩
  · exact ⟨sent, roundStep_wait h hguard.2.1 hwait route order pool⟩
  · -- the first request without an answer gets one
    have hproper := h.proper req (by rw [hasked]; simp)
    have hfit : s.Fits w (fillResponse route order req.modid req.cmdid) := by
      apply hroom req
      simp [next, hnext]
    rcases roundStep_eq ho hpool hproper hnext hfit with
      ⟨ibuf, obuf, heq, hsound, hcontent, hdrained, hobuf, hsent⟩
    have hrequests : requests (s.log ++ [.request req.modid req.cmdid,
        .replied (route.requested req.modid req.cmdid)]) = requests s.log ++ [req] := by
      simp [requests]
    rcases h.responses_append hfit with ⟨hshort, htaken⟩
    rw [heq]
    refine ⟨sent ++ [fillResponse route order req.modid req.cmdid], {
      alive := h.alive
      proper := h.proper
      short := hshort
      responses := ?_
      answered := ?_
      taken := htaken
      opened := fun _ => {
        sound := ⟨hsound, hobuf.sound, hdrained⟩
        output := hobuf
        bytes := ?_
        input := ⟨rest, ?_, ?_⟩
        waiting := fun hidle => ?_
        subscribed := ?_ } }⟩
    · simp only [List.map_append, h.responses, List.filterMap_append, List.map_singleton,
        responseOf_fillResponse]
      rfl
    · rw [hrequests, hasked]
      exact ⟨rest, by simp⟩
    · rw [hsent, ← List.append_assoc, ho.bytes, stream_append]
    · rw [hrequests, hasked, List.append_assoc]
      rfl
    · rw [hcontent]
      exact hparse
    · rw [hguard.2.2] at hidle
      cases hidle
    · rw [hrequests, List.map_append, List.toFinset_append, ho.subscribed, Finset.union_comm]
      rfl

/-- A push sends the response for its key. -/
theorem push_inv {s t : RouteConn} {sent : List GetRouteResponse} (h : Inv w s sent) {mod : UInt64}
    {route : Route} {order : HostOrder} {pool : BufPool} (hpool : pool.Ample)
    (hroom : s.HasRoom w (.push mod route order pool))
    (hstep : step w s (.push mod route order pool) = some t) : ∃ sent', Inv w t sent' := by
  simp only [step] at hstep
  split_ifs at hstep with hguard
  cases hstep
  have ho := h.opened hguard.2.1
  have hfit : s.Fits w (fillResponse route order (modidOf mod) (cmdidOf mod)) := hroom
  rcases @TcpConn.sendMessage_fits _ hpool _ ho.output MessageId.getRouteResponse.num _ hfit.1
    hfit.2 with ⟨out, hsend, _, hibuf, hobuf, hcontent⟩
  rw [responseMessage_body] at hsend
  have hlog : requests (s.log ++ [.pushed (route.pushed mod)]) = requests s.log := by
    simp [requests]
  rcases h.responses_append hfit with ⟨hshort, htaken⟩
  simp only [pushStep, hsend]
  refine ⟨sent ++ [fillResponse route order (modidOf mod) (cmdidOf mod)], {
    alive := h.alive
    proper := h.proper
    short := hshort
    responses := ?_
    answered := ?_
    taken := htaken
    opened := fun _ => {
      sound := ?_
      output := hobuf
      bytes := ?_
      input := ?_
      waiting := ?_
      subscribed := ?_ } }⟩
  · simp only [List.map_append, h.responses, List.filterMap_append, List.map_singleton,
      responseOf_fillResponse]
    rfl
  · rw [hlog]
    exact h.answered
  · exact ho.sound.of_ibuf hibuf hobuf.sound
  · rw [hcontent, ← List.append_assoc, ho.bytes, stream_append]
    rfl
  · rw [hlog, hibuf]
    exact ho.input
  · rw [hibuf]
    exact ho.waiting
  · rw [hlog]
    exact ho.subscribed

/-- The kernel takes some of the bytes, and possibly the connection is closed. -/
theorem write_inv {s t : RouteConn} {sent : List GetRouteResponse} (h : Inv w s sent)
    {results : List SysWrite} {pool : BufPool} (hpool : pool.Clean)
    (hstep : step w s (.write results pool) = some t) : Inv w t sent := by
  simp only [step] at hstep
  split_ifs at hstep with hguard
  have ho := h.opened hguard.2.1
  rcases TcpConn.doWrite_ends hpool ho.sound.ibuf ho.output results with
    ⟨out, hwrite, hdrained⟩ | ⟨hwrite, _⟩
  · simp only [writeStep, hwrite, Option.some.injEq] at hstep
    rcases TcpConn.doWrite_taken ho.output hwrite with ⟨htaken, hibuf⟩
    have hfront : s.written ++ out.taken <+: stream w sent := by
      rw [← ho.bytes]
      exact (List.prefix_append_right_inj s.written).2 htaken
    rcases hdrained with ⟨hclosed, _⟩ | ⟨hopen, hbytes, hobuf, _⟩
    · -- after `clean_conn` only what has been written is left to speak about
      rw [hclosed, if_pos rfl] at hstep
      subst hstep
      refine { h with
        taken := hfront
        opened := fun hopen => ?_ }
      cases hopen
    · rw [hopen, if_neg Bool.false_ne_true] at hstep
      subst hstep
      have hsame := hibuf hopen
      refine { h with
        taken := hfront
        opened := fun _ => {
          sound := ?_
          output := hobuf
          bytes := ?_
          input := ?_
          waiting := ?_
          subscribed := ho.subscribed } }
      · exact ho.sound.of_ibuf hsame hobuf.sound
      · show s.written ++ out.taken ++ out.conn.obuf.content = _
        rw [List.append_assoc, hbytes, ho.bytes]
      · rw [hsame]
        exact ho.input
      · rw [hsame]
        exact ho.waiting
  · simp [writeStep, hwrite] at hstep

theorem step_inv {s t : RouteConn} {a : Act} {sent : List GetRouteResponse} (h : Inv w s sent)
    (hpool : s.PoolServes a) (hroom : s.HasRoom w a) (hstep : step w s a = some t) :
    ∃ sent', Inv w t sent' := by
  cases a with
  | ask req => exact ⟨sent, ask_inv h hstep⟩
  | read n pool eintrs => exact ⟨sent, read_inv h hpool hstep⟩
  | round route order pool => exact round_inv h hpool hroom hstep
  | push mod route order pool => exact push_inv h hpool hroom hstep
  | write results pool => exact ⟨sent, write_inv h hpool hstep⟩

theorem run_inv {acts : List Act} :
    ∀ {s t : RouteConn} {sent : List GetRouteResponse}, Inv w s sent →
      Meets (step w) PoolServes s acts → Meets (step w) (HasRoom w) s acts →
      run (step w) s acts = some t → ∃ sent', Inv w t sent' := by
  induction acts with
  | nil =>
      intro s t sent h _ _ hrun
      cases hrun
      exact ⟨sent, h⟩
  | cons a acts ih =>
      intro s t sent h hpool hroom hrun
      rcases run_cons.1 hrun with ⟨m, hstep, hrest⟩
      rcases step_inv h hpool.1 hroom.1 hstep with ⟨sent', hm⟩
      exact ih hm (hpool.2 m hstep) (hroom.2 m hstep) hrest

/-! ## What the client gets -/

theorem insertionSort_congr {l l' : List UInt64} (h : l.Perm l') :
    l.insertionSort (· ≤ ·) = l'.insertionSort (· ≤ ·) := by
  have hperm : (l.insertionSort (· ≤ ·)).Perm (l'.insertionSort (· ≤ ·)) :=
    (List.perm_insertionSort _ l).trans (h.trans (List.perm_insertionSort _ l').symm)
  exact hperm.eq_of_pairwise' (List.pairwise_insertionSort _ l) (List.pairwise_insertionSort _ l')

/-- Hosts in ascending order. -/
def ascending : HostOrder where
  toList hosts := Quot.liftOn hosts.val (List.insertionSort (· ≤ ·)) fun _ _ => insertionSort_congr
  coe_toList hosts := Quot.inductionOn hosts.val fun l => Quot.sound (List.perm_insertionSort _ l)

/-- Two requests that are read in two parts; the first is answered before the database has been
loaded, the second after that.  A push follows, and the responses are written in two parts. -/
def sampleRun : List Act :=
  let before := Poll.sampleRoute
  let after : Route := { before with dataMap := RouteMap.ofRows Poll.sampleDb.routeData }
  [.ask { modid := 1, cmdid := 1 }, .ask { modid := 2, cmdid := 0 }, .read 3 BufPool.init 1,
    .round before ascending BufPool.init, .read 19 BufPool.init 0,
    .round before ascending BufPool.init, .round after ascending BufPool.init,
    .round after ascending BufPool.init, .push (routeKey 1 1) after ascending BufPool.init,
    .write [.wrote 5, .again] BufPool.init, .write [.eintr (.wrote 100)] BufPool.init]

end RouteConn
end Dns
end Rins
