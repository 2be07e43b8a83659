import Rins.Reactor.UdpLoop

/-!
# UdpClient — `udp_client`

The client has the server's buffers and its loop, without an address: the socket is connected.  Its
`do_read` differs in one argument, the length that it passes to the router.

`send_message` of both lets bodies pass that do not fit into `_write_buf` behind the head.
`RoundTrips` is what a message should come to, from either sender: one datagram, which any server
takes for the message.
-/

namespace Rins
namespace Reactor

open Lib

structure UdpClient (κ : Type) where
  readBuf : CharArray messageLengthLimit
  writeBuf : CharArray messageLengthLimit
  router : MsgRouter κ

namespace UdpClient

variable {Addr κ σ : Type}

/-- `udp_client::send_message`: the return value, the object and the datagrams for the peer.  `sent`
says whether `sendto` succeeds. -/
def sendMessage (c : UdpClient κ) (data : List UInt8) (msglen msgid : Int32) (sent : Bool) :
    Except Fault (Int × UdpClient κ × List (List UInt8)) :=
  if msglen.toInt > messageLengthLimit then
    .ok (-1, c, [])
  else do
    let head : MsgHead := { id := msgid, length := msglen }
    let writeBuf ← c.writeBuf.store 0 head.encode
    let body ← callerBytes data msglen.toInt
    let writeBuf ← writeBuf.store messageHeadLen body
    let c := { c with writeBuf := writeBuf }
    let bytes ← writeBuf.load 0 (msglen.toInt + messageHeadLen)
    if sent then
      return (bytes.length, c, [bytes])
    else
      return (-1, c, [])

/-- `recvfrom` in `do_read`, and the call of the router, if the head is in order.  The body is what
the datagram has at the pointer that is passed. -/
def receive (c : UdpClient κ) (pkg : List UInt8) : Except Fault (UdpClient κ × Option Message) := do
  let (pktLen, readBuf) := c.readBuf.recvfrom pkg
  let c := { c with readBuf := readBuf }
  let head := MsgHead.decode (← readBuf.load 0 messageHeadLen)
  if head.length.toInt > messageLengthLimit ∨ head.length.toInt < 0 ∨
      head.length.toInt + messageHeadLen ≠ pktLen then
    return (c, none)
  else
    let body ← readBuf.load messageHeadLen head.length.toInt
    -- `_router.call(head.id, head.id, ...)`
    return (c, some { id := head.id, length := head.id, body := body })

abbrev Callback (κ σ : Type) :=
  κ → Message → UdpClient κ → σ → Except Fault (UdpClient κ × σ × List (List UInt8))

/-- `msg_router::call` in the client. -/
def dispatch (callback : Callback κ σ) (m : Message) (c : UdpClient κ) (st : σ) :
    Except Fault (UdpClient κ × σ × List (List UInt8)) :=
  match c.router.call m.id with
  | none => .ok (c, st, [])
  | some cb => callback cb m c st

/-- `udp_client::do_read`. -/
def doRead (callback : Callback κ σ) : List (SysRecv Addr) → UdpClient κ → σ →
    Except Fault (UdpClient κ × σ × List (List UInt8))
  | [], _, _ => .error .unfinished
  | .eintr :: answers, c, st => doRead callback answers c st
  | .failed :: _, c, st => .ok (c, st, [])
  | .pkg pkg _ :: answers, c, st => do
      let (c, message) ← c.receive pkg
      match message with
      | none => doRead callback answers c st
      | some m =>
          let (c, st, sent) ← dispatch callback m c st
          let (c, st, more) ← doRead callback answers c st
          return (c, st, sent ++ more)

/-- The loop is that of the server, around another `receive`. -/
theorem doRead_eq (callback : Callback κ σ) (answers : List (SysRecv Addr)) (c : UdpClient κ)
    (st : σ) : doRead callback answers c st =
      readLoop (fun c pkg _ => c.receive pkg) (dispatch callback) answers c st := by
  induction answers generalizing c st with
  | nil => rfl
  | cons answer answers ih =>
      cases answer with
      | eintr => exact ih c st
      | failed => rfl
      | pkg pkg addr =>
          simp only [doRead, readLoop]
          refine bind_congr fun r => ?_
          rcases r with ⟨c₁, message⟩
          cases message with
          | none => exact ih c₁ st
          | some m => simp only [ih]

/-- The router calls of a `do_read`. -/
def DoReadCalls (c : UdpClient κ) (answers : List (SysRecv Addr)) (calls : List Message) : Prop :=
  MakesCalls (fun c pkg _ => c.receive pkg) answers c calls

/-! ## Receiving -/

/-- The message with the id where the length belongs. -/
def confuse (m : Message) : Message :=
  { m with length := m.id }

/-- The client accepts what the server accepts. -/
theorem receive_eq (c : UdpClient κ) {pkg : List UInt8} (hfit : pkg.length ≤ messageLengthLimit) :
    c.receive pkg =
      .ok ({ c with readBuf := (c.readBuf.recvfrom pkg).2 }, (judge pkg).map confuse) := by
  rcases recvfrom_judge c.readBuf hfit with ⟨front, hfront, hnone, hsome⟩
  simp only [receive, hfront, ok_bind]
  cases hjudge : judge pkg with
  | none =>
      rw [if_pos (hnone hjudge)]
      rfl
  | some m =>
      rcases hsome m hjudge with ⟨hgood, hdecode, hbody⟩
      rw [if_neg hgood, hdecode, hbody]
      rfl

theorem doReadCalls (c : UdpClient κ) (answers : List (SysRecv Addr))
    (hfit : ∀ pkg ∈ received answers, pkg.length ≤ messageLengthLimit) :
    c.DoReadCalls (answers ++ [SysRecv.failed])
      (((received answers).filterMap judge).map confuse) := by
  rw [List.map_filterMap]
  exact makesCalls_of_judged (fun c _ _ hpkg => ⟨_, c.receive_eq hpkg⟩) hfit c

theorem map_confuse_eq_self {calls : List Message} :
    calls.map confuse = calls ↔ ∀ m ∈ calls, m.id = m.length := by
  induction calls with
  | nil => simp
  | cons m calls ih =>
      rw [List.map_cons, List.cons_eq_cons, ih, List.forall_mem_cons]
      refine and_congr_left fun _ => ⟨fun h => congrArg Message.length h, fun h => ?_⟩
      rcases m with ⟨id, length, body⟩
      exact congrArg (Message.mk id · body) h

/-- The client and the server make the same router calls, with the lengths of the bodies and for the
same callbacks. -/
def SameCalls (c : UdpClient κ) (s : UdpServer Addr κ) (answers : List (SysRecv Addr)) : Prop :=
  ∃ calls, c.DoReadCalls (answers ++ [SysRecv.failed]) calls ∧
    s.DoReadCalls (answers ++ [SysRecv.failed]) calls ∧
    ∀ m ∈ calls, m.length.toInt = m.body.length ∧ c.router.call m.id = s.router.call m.id

/-- The two loops agree when each datagram that is in order has its length for its id, and then
only. -/
theorem sameCalls_iff (c : UdpClient κ) (s : UdpServer Addr κ) (hrouter : c.router = s.router)
    (answers : List (SysRecv Addr))
    (hfit : ∀ pkg ∈ received answers, pkg.length ≤ messageLengthLimit) :
    c.SameCalls s answers ↔
      ∀ pkg ∈ received answers, ∀ m, judge pkg = some m → m.id = m.length := by
  have hclient := c.doReadCalls answers hfit
  have hserver := s.doReadCalls answers hfit
  constructor
  · rintro ⟨calls, hc, hs, _⟩ pkg hpkg m hm
    have hsame : ((received answers).filterMap judge).map confuse =
        (received answers).filterMap judge := by
      rw [hclient.unique hc, hserver.unique hs]
    exact map_confuse_eq_self.1 hsame m (List.mem_filterMap.2 ⟨pkg, hpkg, hm⟩)
  · intro hids
    have hsame : ((received answers).filterMap judge).map confuse =
        (received answers).filterMap judge := by
      refine map_confuse_eq_self.2 fun m hm => ?_
      rcases List.mem_filterMap.1 hm with ⟨pkg, hpkg, hjudge⟩
      exact hids pkg hpkg m hjudge
    rw [hsame] at hclient
    refine ⟨_, hclient, hserver, fun m hm => ⟨?_, by rw [hrouter]⟩⟩
    rcases List.mem_filterMap.1 hm with ⟨pkg, _, hjudge⟩
    exact length_of_judge hjudge

/-- A client whose buffers are empty and whose router has nothing. -/
def idle : UdpClient Unit :=
  { readBuf := { data := fun _ => 0 }
    writeBuf := { data := fun _ => 0 }
    router := MsgRouter.new }

theorem sameCalls_idle :
    idle.SameCalls UdpServer.staleServer [.pkg [1, 0, 0, 0, 1, 0, 0, 0, 65] 4] := by
  have hiff := sameCalls_iff idle UdpServer.staleServer rfl [.pkg [1, 0, 0, 0, 1, 0, 0, 0, 65] 4]
    (by simp [received, messageLengthLimit])
  exact hiff.2 (by decide)

/-- A message of one byte with the id 2 is passed on as one of two bytes. -/
theorem not_sameCalls_two :
    ¬ idle.SameCalls UdpServer.staleServer [.pkg [2, 0, 0, 0, 1, 0, 0, 0, 65] 4] := by
  rintro ⟨calls, hclient, hserver, _⟩
  have hfit : ∀ pkg ∈ received ([.pkg [2, 0, 0, 0, 1, 0, 0, 0, 65] 4] : List (SysRecv Nat)),
      pkg.length ≤ messageLengthLimit := by simp [received, messageLengthLimit]
  have hsame := (hclient.unique (idle.doReadCalls _ hfit)).symm.trans
    (hserver.unique (UdpServer.staleServer.doReadCalls _ hfit))
  revert hsame
  decide

end UdpClient

/-! ## Sending -/

section Send

variable {Addr κ : Type}

/-- The stores of `send_message` for a message that fits, and the bytes that `sendto` is given. -/
theorem pack_ok (buf : CharArray messageLengthLimit) {data : List UInt8} {msglen : Int32}
    (msgid : Int32) (h0 : 0 ≤ msglen.toInt) (hdata : msglen.toInt ≤ data.length)
    (hfit : msglen.toInt + messageHeadLen ≤ messageLengthLimit) :
    ∃ headed filled, buf.store 0 (MsgHead.encode ⟨msgid, msglen⟩) = .ok headed ∧
      callerBytes data msglen.toInt = .ok (data.take msglen.toInt.toNat) ∧
      headed.store messageHeadLen (data.take msglen.toInt.toNat) = .ok filled ∧
      filled.load 0 (msglen.toInt + messageHeadLen) =
        .ok (MsgHead.encode ⟨msgid, msglen⟩ ++ data.take msglen.toInt.toNat) := by
  have hbody : (data.take msglen.toInt.toNat).length = msglen.toInt.toNat := by
    rw [List.length_take]
    omega
  have hhead : (MsgHead.encode ⟨msgid, msglen⟩).length = messageHeadLen := MsgHead.length_encode _
  refine ⟨_, _, CharArray.store_eq_ok.2 ⟨?_, rfl⟩, ?_, CharArray.store_eq_ok.2 ⟨?_, rfl⟩,
    CharArray.load_eq_ok.2 ⟨?_, ?_⟩⟩
  · rw [hhead]
    decide
  · simp only [callerBytes]
    rw [if_pos ⟨h0, hdata⟩]
  · rw [hbody]
    omega
  · omega
  · have hlen : (msglen.toInt + messageHeadLen).toNat =
        messageHeadLen + (data.take msglen.toInt.toNat).length := by omega
    rw [hlen]
    exact (read_head_body _ _ _).symm

/-- A body that does not fit behind the head is written over the end of the buffer. -/
theorem not_store_overflow {buf filled : CharArray messageLengthLimit} {data body : List UInt8}
    {msglen : Int32} (hlong : messageLengthLimit < msglen.toInt + messageHeadLen)
    (hbody : callerBytes data msglen.toInt = .ok body)
    (hfill : buf.store messageHeadLen body = .ok filled) : False := by
  unfold callerBytes at hbody
  split_ifs at hbody with hin
  cases hbody
  rcases CharArray.store_eq_ok.1 hfill with ⟨⟨_, hfits⟩, _⟩
  rw [List.length_take] at hfits
  omega

theorem UdpClient.sendMessage_fits (c : UdpClient κ) {data : List UInt8} {msglen : Int32}
    (msgid : Int32) (h0 : 0 ≤ msglen.toInt) (hdata : msglen.toInt ≤ data.length)
    (hfit : msglen.toInt + messageHeadLen ≤ messageLengthLimit) :
    ∃ ret c', c.sendMessage data msglen msgid true =
      .ok (ret, c', [Message.encode ⟨msgid, msglen, data.take msglen.toInt.toNat⟩]) := by
  rcases pack_ok c.writeBuf msgid h0 hdata hfit with
    ⟨headed, filled, hhead, hcaller, hfill, hload⟩
  have hpass : ¬ msglen.toInt > messageLengthLimit := by omega
  unfold sendMessage
  rw [if_neg hpass]
  simp only [hhead, hcaller, hfill, hload, ok_bind, if_true]
  exact ⟨_, _, rfl⟩

theorem UdpServer.sendMessage_fits (s : UdpServer Addr κ) {data : List UInt8} {msglen : Int32}
    (msgid : Int32) (h0 : 0 ≤ msglen.toInt) (hdata : msglen.toInt ≤ data.length)
    (hfit : msglen.toInt + messageHeadLen ≤ messageLengthLimit) :
    ∃ ret s', s.sendMessage data msglen msgid true =
      .ok (ret, s', [⟨s.clientAddr,
        Message.encode ⟨msgid, msglen, data.take msglen.toInt.toNat⟩⟩]) := by
  rcases pack_ok s.writeBuf msgid h0 hdata hfit with
    ⟨headed, filled, hhead, hcaller, hfill, hload⟩
  have hpass : ¬ msglen.toInt > messageLengthLimit := by omega
  unfold sendMessage
  rw [if_neg hpass]
  simp only [hhead, hcaller, hfill, hload, ok_bind, if_true]
  exact ⟨_, _, rfl⟩

/-- Any server takes the datagram for the message, and for nothing else. -/
def Delivers (Addr κ : Type) (pkg : List UInt8) (m : Message) : Prop :=
  ∀ (s : UdpServer Addr κ) (addr : Addr), s.DoReadCalls [.pkg pkg addr, .failed] [m]

theorem delivers_encode (Addr κ : Type) {m : Message} (hlen : m.length.toInt = m.body.length)
    (hfit : m.length.toInt + messageHeadLen ≤ messageLengthLimit) :
    Delivers Addr κ m.encode m := by
  intro s addr
  have hshort : m.encode.length ≤ messageLengthLimit := by
    rw [Message.length_encode]
    omega
  have hcalls := s.doReadCalls [.pkg m.encode addr] (by simpa [received] using hshort)
  simpa [received, judge_encode hlen] using hcalls

/-- `send_message` returns, and any server takes what it sends for the message that was given. -/
def UdpClient.RoundTrips (c : UdpClient κ) (Addr : Type) (data : List UInt8)
    (msglen msgid : Int32) : Prop :=
  ∃ ret c' pkg, c.sendMessage data msglen msgid true = .ok (ret, c', [pkg]) ∧
    Delivers Addr κ pkg ⟨msgid, msglen, data.take msglen.toInt.toNat⟩

def UdpServer.RoundTrips (s : UdpServer Addr κ) (data : List UInt8) (msglen msgid : Int32) : Prop :=
  ∃ ret s' pkg, s.sendMessage data msglen msgid true = .ok (ret, s', [⟨s.clientAddr, pkg⟩]) ∧
    Delivers Addr κ pkg ⟨msgid, msglen, data.take msglen.toInt.toNat⟩

theorem UdpClient.not_roundTrips (c : UdpClient κ) (Addr : Type) {data : List UInt8}
    {msglen : Int32} (msgid : Int32) (hlimit : msglen.toInt ≤ messageLengthLimit)
    (hlong : messageLengthLimit < msglen.toInt + messageHeadLen) :
    ¬ c.RoundTrips Addr data msglen msgid := by
  rintro ⟨ret, c', pkg, hsend, _⟩
  unfold sendMessage at hsend
  rw [if_neg (not_lt.2 hlimit)] at hsend
  rcases bind_eq_ok.1 hsend with ⟨headed, _, hsend⟩
  rcases bind_eq_ok.1 hsend with ⟨body, hbody, hsend⟩
  rcases bind_eq_ok.1 hsend with ⟨filled, hfill, _⟩
  exact not_store_overflow hlong hbody hfill

theorem UdpServer.not_roundTrips (s : UdpServer Addr κ) {data : List UInt8} {msglen : Int32}
    (msgid : Int32) (hlimit : msglen.toInt ≤ messageLengthLimit)
    (hlong : messageLengthLimit < msglen.toInt + messageHeadLen) :
    ¬ s.RoundTrips data msglen msgid := by
  rintro ⟨ret, s', pkg, hsend, _⟩
  unfold sendMessage at hsend
  rw [if_neg (not_lt.2 hlimit)] at hsend
  rcases bind_eq_ok.1 hsend with ⟨headed, _, hsend⟩
  rcases bind_eq_ok.1 hsend with ⟨body, hbody, hsend⟩
  rcases bind_eq_ok.1 hsend with ⟨filled, hfill, _⟩
  exact not_store_overflow hlong hbody hfill

/-- A message comes through from the client and from the server when it fits into `_write_buf` with
its head, and then only. -/
theorem roundTrips_iff (c : UdpClient κ) (s : UdpServer Addr κ) (data : List UInt8)
    (msglen msgid : Int32) (h0 : 0 ≤ msglen.toInt) (hlimit : msglen.toInt ≤ messageLengthLimit)
    (hdata : msglen.toInt ≤ data.length) :
    (c.RoundTrips Addr data msglen msgid ↔
      msglen.toInt + messageHeadLen ≤ messageLengthLimit) ∧
    (s.RoundTrips data msglen msgid ↔ msglen.toInt + messageHeadLen ≤ messageLengthLimit) := by
  have hbody : msglen.toInt = (data.take msglen.toInt.toNat).length := by
    rw [List.length_take]
    omega
  refine ⟨⟨fun h => ?_, fun hfit => ?_⟩, ⟨fun h => ?_, fun hfit => ?_⟩⟩
  · exact not_lt.1 fun hlong => c.not_roundTrips Addr msgid hlimit hlong h
  · rcases c.sendMessage_fits msgid h0 hdata hfit with ⟨ret, c', hsend⟩
    exact ⟨ret, c', _, hsend, delivers_encode Addr κ hbody hfit⟩
  · exact not_lt.1 fun hlong => s.not_roundTrips msgid hlimit hlong h
  · rcases s.sendMessage_fits msgid h0 hdata hfit with ⟨ret, s', hsend⟩
    exact ⟨ret, s', _, hsend, delivers_encode Addr κ hbody hfit⟩

theorem roundTrips_one_byte :
    UdpClient.idle.RoundTrips Nat [65] 1 2 ∧ UdpServer.staleServer.RoundTrips [65] 1 2 := by
  have hiff := roundTrips_iff UdpClient.idle UdpServer.staleServer [65] 1 2 (by decide) (by decide)
    (by decide)
  exact ⟨hiff.1.2 (by decide), hiff.2.2 (by decide)⟩

/-- 65520 bytes are let pass and do not fit behind the head. -/
theorem not_roundTrips_65520 :
    ¬ UdpClient.idle.RoundTrips Nat (List.replicate 65520 0) 65520 1 ∧
      ¬ UdpServer.staleServer.RoundTrips (List.replicate 65520 0) 65520 1 :=
  ⟨UdpClient.idle.not_roundTrips Nat 1 (by decide) (by decide),
    UdpServer.staleServer.not_roundTrips 1 (by decide) (by decide)⟩

end Send

end Reactor
end Rins
