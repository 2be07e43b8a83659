import Rins.Lib.Memory
import Rins.Reactor.Message
import Rins.Reactor.ReactorBuf

/-!
# Udp — `udp_server`

A datagram is a message head and a body.  `udp_server` reads it into the member `_read_buf`, which
still holds what earlier datagrams have left there, and judges it by its head and by the length that
`recvfrom` has returned.  Callbacks answer through `_write_buf`, to the address of the last
datagram.

What callbacks do to the rest of the program is a change of a state `σ`.
-/

namespace Rins
namespace Reactor

open Lib

/-! ## Arrays of `char` -/

/-- `char buf[size]`. -/
structure CharArray (size : Nat) where
  data : Int → UInt8

namespace CharArray

variable {size : Nat}

/-- Read `n` bytes at offset `off`. -/
def load (buf : CharArray size) (off n : Int) : Except Fault (List UInt8) :=
  if 0 ≤ off ∧ 0 ≤ n ∧ off + n ≤ size then
    .ok (Memory.read buf.data off n.toNat)
  else
    .error .outOfBounds

/-- Copy `src` to offset `off`. -/
def store (buf : CharArray size) (off : Int) (src : List UInt8) : Except Fault (CharArray size) :=
  if 0 ≤ off ∧ off + src.length ≤ size then
    .ok { data := Memory.write buf.data off src }
  else
    .error .outOfBounds

/-- `recvfrom(fd, buf, sizeof(buf), ...)`: the length it returns, and the array.  What does not fit
is cut off. -/
def recvfrom (buf : CharArray size) (pkg : List UInt8) : Nat × CharArray size :=
  let got := pkg.take size
  (got.length, { data := Memory.write buf.data 0 got })

theorem load_eq_ok {buf : CharArray size} {off n : Int} {bytes : List UInt8} :
    buf.load off n = .ok bytes ↔
      (0 ≤ off ∧ 0 ≤ n ∧ off + n ≤ size) ∧ bytes = Memory.read buf.data off n.toNat := by
  unfold load
  split_ifs with hin
  · simp [hin, eq_comm]
  · simp [hin]

theorem store_eq_ok {buf buf' : CharArray size} {off : Int} {src : List UInt8} :
    buf.store off src = .ok buf' ↔
      (0 ≤ off ∧ off + src.length ≤ size) ∧ buf' = { data := Memory.write buf.data off src } := by
  unfold store
  split_ifs with hin
  · simp [hin, eq_comm]
  · simp [hin]

/-- The bytes of the datagram are at the front of the array. -/
theorem load_recvfrom (buf : CharArray size) {pkg : List UInt8} (hfit : pkg.length ≤ size)
    (off n : Nat) (h : off + n ≤ pkg.length) :
    (buf.recvfrom pkg).2.load off n = .ok ((pkg.drop off).take n) := by
  have hread : Memory.read (Memory.write buf.data 0 pkg) 0 pkg.length = pkg :=
    Memory.read_write_same buf.data 0 pkg
  have hdrop := Memory.drop_read (Memory.write buf.data 0 pkg) 0 pkg.length off
  have htake := Memory.take_read (Memory.write buf.data 0 pkg) (0 + off)
    (by omega : n ≤ pkg.length - off)
  rw [hread] at hdrop
  rw [← hdrop] at htake
  have hin : 0 ≤ (off : Int) ∧ 0 ≤ (n : Int) ∧ (off : Int) + n ≤ size := by omega
  simp only [recvfrom, load, hin, and_self, if_true, List.take_of_length_le hfit]
  rw [htake]
  simp

end CharArray

/-- A body that was copied behind a head. -/
theorem read_head_body (m : Int → UInt8) (head : MsgHead) (body : List UInt8) :
    Memory.read (Memory.write (Memory.write m 0 head.encode) messageHeadLen body) 0
      (messageHeadLen + body.length) = head.encode ++ body := by
  have happend := Memory.read_write_append (Memory.write m 0 head.encode) 0 messageHeadLen body
  rw [zero_add] at happend
  rw [happend]
  exact congrArg (· ++ body) (Memory.read_write_same _ _ _)

/-! ## The server -/

/-- What the kernel answers to `recvfrom`. -/
inductive SysRecv (Addr : Type)
  | eintr
  /-- `EAGAIN`, or an error -/
  | failed
  | pkg (bytes : List UInt8) (addr : Addr)

structure UdpServer (Addr κ : Type) where
  readBuf : CharArray messageLengthLimit
  writeBuf : CharArray messageLengthLimit
  clientAddr : Addr
  router : MsgRouter κ

/-- A datagram and where it goes. -/
structure Datagram (Addr : Type) where
  addr : Addr
  bytes : List UInt8
  deriving DecidableEq, Repr

namespace UdpServer

variable {Addr κ σ : Type}

/-- `udp_server::send_message`: the return value, the object and what was sent.  `sent` says whether
`sendto` succeeds. -/
def sendMessage (s : UdpServer Addr κ) (data : List UInt8) (msglen msgid : Int32) (sent : Bool) :
    Except Fault (Int × UdpServer Addr κ × List (Datagram Addr)) :=
  if msglen.toInt > messageLengthLimit then
    .ok (-1, s, [])
  else do
    let head : MsgHead := { id := msgid, length := msglen }
    let writeBuf ← s.writeBuf.store 0 head.encode
    let body ← callerBytes data msglen.toInt
    let writeBuf ← writeBuf.store messageHeadLen body
    let s := { s with writeBuf := writeBuf }
    let bytes ← writeBuf.load 0 (msglen.toInt + messageHeadLen)
    if sent then
      return (bytes.length, s, [{ addr := s.clientAddr, bytes := bytes }])
    else
      return (-1, s, [])

/-- `recvfrom` in `do_read`, and the message that is passed on to the router, if the head is in
order. -/
def receive (s : UdpServer Addr κ) (pkg : List UInt8) (addr : Addr) :
    Except Fault (UdpServer Addr κ × Option Message) := do
  let (pkgLen, readBuf) := s.readBuf.recvfrom pkg
  let s := { s with readBuf := readBuf, clientAddr := addr }
  let head := MsgHead.decode (← readBuf.load 0 messageHeadLen)
  if head.length.toInt > messageLengthLimit ∨ head.length.toInt < 0 ∨
      head.length.toInt + messageHeadLen ≠ pkgLen then
    return (s, none)
  else
    let body ← readBuf.load messageHeadLen head.length.toInt
    return (s, some { id := head.id, length := head.length, body := body })

/-- A callback, with its `user_data`: what it does to the state, to the server and what it sends. -/
abbrev Callback (Addr κ σ : Type) :=
  κ → Message → UdpServer Addr κ → σ → Except Fault (UdpServer Addr κ × σ × List (Datagram Addr))

/-- `udp_server::do_read`. -/
def doRead (callback : Callback Addr κ σ) : List (SysRecv Addr) → UdpServer Addr κ → σ →
    Except Fault (UdpServer Addr κ × σ × List (Datagram Addr))
  | [], _, _ => .error .unfinished
  | .eintr :: answers, s, st => doRead callback answers s st
  | .failed :: _, s, st => .ok (s, st, [])
  | .pkg pkg addr :: answers, s, st => do
      let (s, message) ← s.receive pkg addr
      match message.bind fun m => (s.router.call m.id).map fun cb => (cb, m) with
      | none => doRead callback answers s st
      | some (cb, m) =>
          let (s, st, sent) ← callback cb m s st
          let (s, st, more) ← doRead callback answers s st
          return (s, st, sent ++ more)

/-! ## One datagram -/

/-- What `send_message` sends is the head and the body, one after the other. -/
theorem sendMessage_bytes {s s' : UdpServer Addr κ} {data : List UInt8} {msglen msgid : Int32}
    {sent : Bool} {ret : Int} {pkgs : List (Datagram Addr)}
    (h : s.sendMessage data msglen msgid sent = .ok (ret, s', pkgs)) {d : Datagram Addr}
    (hd : d ∈ pkgs) :
    d.bytes = MsgHead.encode ⟨msgid, msglen⟩ ++ data.take msglen.toInt.toNat ∧
      d.bytes.length ≤ messageLengthLimit := by
  unfold sendMessage at h
  by_cases hlong : msglen.toInt > messageLengthLimit
  · rw [if_pos hlong] at h
    cases h
    exact absurd hd List.not_mem_nil
  · rw [if_neg hlong] at h
    rcases bind_eq_ok.1 h with ⟨headed, hhead, h⟩
    rcases bind_eq_ok.1 h with ⟨body, hbody, h⟩
    rcases bind_eq_ok.1 h with ⟨filled, hfill, h⟩
    rcases bind_eq_ok.1 h with ⟨bytes, hload, h⟩
    -- the body is copied behind the head
    have hbytes : bytes = MsgHead.encode ⟨msgid, msglen⟩ ++ data.take msglen.toInt.toNat := by
      rcases CharArray.store_eq_ok.1 hhead with ⟨_, rfl⟩
      rcases CharArray.store_eq_ok.1 hfill with ⟨_, rfl⟩
      rcases CharArray.load_eq_ok.1 hload with ⟨_, rfl⟩
      unfold callerBytes at hbody
      split_ifs at hbody with hin
      cases hbody
      have hlen : (msglen.toInt + messageHeadLen).toNat =
          messageHeadLen + (data.take msglen.toInt.toNat).length := by
        rw [List.length_take]
        omega
      rw [hlen]
      exact read_head_body _ _ _
    cases sent with
    | false =>
        cases h
        exact absurd hd List.not_mem_nil
    | true =>
        cases h
        rw [List.mem_singleton.1 hd]
        refine ⟨hbytes, ?_⟩
        rcases CharArray.load_eq_ok.1 hload with ⟨⟨_, _, hin⟩, rfl⟩
        rw [Memory.length_read]
        omega

/-- A datagram that is answered has been passed on to a callback. -/
theorem doRead_one {callback : Callback Addr κ σ} {s s' : UdpServer Addr κ} {st st' : σ}
    {pkg : List UInt8} {addr : Addr} {sent : List (Datagram Addr)}
    (h : doRead callback [.pkg pkg addr, .failed] s st = .ok (s', st', sent)) (hsent : sent ≠ []) :
    ∃ s₁ m cb, s.receive pkg addr = .ok (s₁, some m) ∧ s₁.router.call m.id = some cb ∧
      callback cb m s₁ st = .ok (s', st', sent) := by
  simp only [doRead] at h
  rcases bind_eq_ok.1 h with ⟨⟨s₁, message⟩, hreceive, h⟩
  simp only at h
  split at h
  · cases h
    exact absurd rfl hsent
  · next cb m hcall =>
      rcases Option.bind_eq_some_iff.1 hcall with ⟨m', rfl, hcb⟩
      rcases Option.map_eq_some_iff.1 hcb with ⟨cb', hcb', heq⟩
      cases heq
      rcases bind_eq_ok.1 h with ⟨⟨s₂, st₂, sent₂⟩, hcallback, h⟩
      cases h
      exact ⟨s₁, m, cb, hreceive, hcb', by simpa using hcallback⟩

theorem receive_router {s s' : UdpServer Addr κ} {pkg : List UInt8} {addr : Addr}
    {message : Option Message} (h : s.receive pkg addr = .ok (s', message)) :
    s'.router = s.router := by
  unfold receive at h
  simp only at h
  rcases bind_eq_ok.1 h with ⟨front, _, h⟩
  split_ifs at h
  · cases h
    rfl
  · rcases bind_eq_ok.1 h with ⟨body, _, h⟩
    cases h
    rfl

end UdpServer
end Reactor
end Rins
