import Mathlib.Logic.Function.Basic
import Rins.Lib.Framing
import Rins.Reactor.IoBuf

/-!
# Message — message heads and their memory image

A message on a TCP stream is a `msg_head` (two C `int`s, 8 bytes as they lie in memory) followed by
`length` bytes of body.  Both ends have the same byte order; it is little-endian here.

`serverFraming` is the reading of a byte stream that the server commits to, stated on the stream
alone and not on its buffers.
-/

namespace Rins
namespace Reactor

open Lib

/-- `MESSAGE_HEAD_LEN`. -/
def messageHeadLen : Nat := 8

/-- `MESSAGE_LENGTH_LIMIT`, 65535 less the head: the longest body. -/
def messageLengthLimit : Nat := 65527

structure MsgHead where
  id : Int32
  length : Int32
  deriving DecidableEq, Repr

/-! ## The bytes of an `int` -/

/-- The four bytes of a C `int`. -/
def intBytes (x : Int32) : List UInt8 :=
  let n := x.toUInt32.toNat
  [UInt8.ofNat n, UInt8.ofNat (n / 256), UInt8.ofNat (n / 65536), UInt8.ofNat (n / 16777216)]

/-- The C `int` whose bytes are given; missing bytes count as 0. -/
def intOfBytes (bs : List UInt8) : Int32 :=
  let byte := fun i => (bs.getD i 0).toNat
  (UInt32.ofNat (byte 0 + 256 * byte 1 + 65536 * byte 2 + 16777216 * byte 3)).toInt32

@[simp] theorem length_intBytes (x : Int32) : (intBytes x).length = 4 := rfl

theorem intOfBytes_intBytes (x : Int32) : intOfBytes (intBytes x) = x := by
  have hlt : x.toUInt32.toNat < 4294967296 := x.toUInt32.toNat_lt
  have hsum : ∀ n : Nat, n < 4294967296 →
      n % 256 + 256 * (n / 256 % 256) + 65536 * (n / 65536 % 256) +
        16777216 * (n / 16777216 % 256) = n := by
    intro n hn
    omega
  simp [intOfBytes, intBytes, hsum _ hlt]

theorem intOfBytes_append {bs : List UInt8} (h : 4 ≤ bs.length) (cs : List UInt8) :
    intOfBytes (bs ++ cs) = intOfBytes bs := by
  have hget : ∀ i < 4, (bs ++ cs).getD i 0 = bs.getD i 0 := by
    intro i hi
    have hib : i < bs.length := by omega
    simp [List.getD, List.getElem?_append_left hib]
  simp only [intOfBytes, hget 0 (by omega), hget 1 (by omega), hget 2 (by omega),
    hget 3 (by omega)]

/-! ## The bytes of a head -/

/-- The 8 bytes of a `msg_head` in memory. -/
def MsgHead.encode (h : MsgHead) : List UInt8 :=
  intBytes h.id ++ intBytes h.length

/-- The `msg_head` that `memcpy(&head, data, MESSAGE_HEAD_LEN)` yields. -/
def MsgHead.decode (bs : List UInt8) : MsgHead :=
  { id := intOfBytes bs
    length := intOfBytes (bs.drop 4) }

@[simp] theorem MsgHead.length_encode (h : MsgHead) : h.encode.length = messageHeadLen := rfl

theorem MsgHead.take_encode (h : MsgHead) :
    h.encode.take (messageHeadLen : Int).toNat = h.encode :=
  List.take_of_length_le (by simp)

theorem MsgHead.decode_append {bs : List UInt8} (h : messageHeadLen ≤ bs.length)
    (cs : List UInt8) : MsgHead.decode (bs ++ cs) = MsgHead.decode bs := by
  simp only [messageHeadLen] at h
  have hdrop : (bs ++ cs).drop 4 = bs.drop 4 ++ cs :=
    List.drop_append_of_le_length (by omega)
  have hlen : 4 ≤ (bs.drop 4).length := by
    simp only [List.length_drop]
    omega
  rw [decode, decode, intOfBytes_append (by omega), hdrop, intOfBytes_append hlen]

/-- Only the first 8 bytes matter. -/
theorem MsgHead.decode_take {bs : List UInt8} (h : messageHeadLen ≤ bs.length) :
    MsgHead.decode (bs.take messageHeadLen) = MsgHead.decode bs := by
  have hlen : messageHeadLen ≤ (bs.take messageHeadLen).length := by
    simp only [List.length_take]
    omega
  have happ := MsgHead.decode_append hlen (bs.drop messageHeadLen)
  rw [List.take_append_drop] at happ
  exact happ.symm

@[simp] theorem MsgHead.decode_encode (h : MsgHead) : MsgHead.decode h.encode = h := by
  have hdrop : h.encode.drop 4 = intBytes h.length := rfl
  rw [decode, hdrop, encode, intOfBytes_append (by simp), intOfBytes_intBytes, intOfBytes_intBytes]

/-! ## Messages -/

/-- The arguments of `msg_router::call`: the message id, the length and the body behind the data
pointer. -/
structure Message where
  id : Int32
  length : Int32
  body : List UInt8
  deriving DecidableEq, Repr

/-- The message a sender passes as `(data, msglen, msgid)`. -/
def Message.of (id : Int32) (body : List UInt8) : Message :=
  { id := id
    length := Int32.ofNat body.length
    body := body }

/-- Head and body, as they follow each other on the stream. -/
def Message.encode (m : Message) : List UInt8 :=
  MsgHead.encode { id := m.id, length := m.length } ++ m.body

theorem Message.length_encode (m : Message) : m.encode.length = messageHeadLen + m.body.length := by
  simp [encode]

/-- The declared length is the length of the body, and the server accepts it. -/
def Message.WellFormed (m : Message) : Prop :=
  m.length.toInt = m.body.length ∧ m.body.length ≤ messageLengthLimit

theorem Message.of_wellFormed {id : Int32} {body : List UInt8}
    (h : body.length ≤ messageLengthLimit) : (Message.of id body).WellFormed := by
  refine ⟨?_, h⟩
  simp only [messageLengthLimit] at h
  exact Int32.toInt_ofNat_of_lt (by omega)

/-! ## The reference reading of a stream -/

/-- What the server makes of the bytes at the front of the stream. -/
def serverNext (bs : List UInt8) : Verdict Message :=
  if bs.length < messageHeadLen then .wait
  else
    let head := MsgHead.decode bs
    if head.length.toInt < 0 ∨ head.length.toInt > messageLengthLimit then .reject
    else
      let n := head.length.toInt.toNat
      if bs.length < messageHeadLen + n then .wait
      else
        .emit
          { id := head.id
            length := head.length
            body := (bs.drop messageHeadLen).take n }
          (messageHeadLen + n)

/-- The frames the server reads off a byte stream. -/
def serverFraming : Framing UInt8 Message where
  next := serverNext
  emit_pos := by
    intro bs m n h
    simp only [serverNext] at h
    split_ifs at h
    cases h
    simp only [messageHeadLen] at *
    omega
  emit_append := by
    intro bs m n ys h
    simp only [serverNext] at h
    split_ifs at h with h₁ h₂ h₃
    cases h
    have hlen : messageHeadLen ≤ bs.length := by omega
    -- head and body lie within `bs`
    have hbody : ((bs ++ ys).drop messageHeadLen).take (MsgHead.decode bs).length.toInt.toNat =
        (bs.drop messageHeadLen).take (MsgHead.decode bs).length.toInt.toNat := by
      rw [List.drop_append_of_le_length hlen, List.take_append_of_le_length]
      simp only [List.length_drop]
      omega
    have h₁' : ¬ (bs ++ ys).length < messageHeadLen := by
      simp only [List.length_append]
      omega
    have h₃' : ¬ (bs ++ ys).length < messageHeadLen + (MsgHead.decode bs).length.toInt.toNat := by
      simp only [List.length_append]
      omega
    simp only [serverNext, MsgHead.decode_append hlen, h₁', h₂, h₃', if_false, hbody]
  reject_append := by
    intro bs ys h
    simp only [serverNext] at h
    split_ifs at h with h₁ h₂
    have hlen : messageHeadLen ≤ bs.length := by omega
    have h₁' : ¬ (bs ++ ys).length < messageHeadLen := by
      simp only [List.length_append]
      omega
    simp only [serverNext, MsgHead.decode_append hlen, h₁', h₂, if_false, if_true]

theorem serverFraming_nil : serverFraming.next [] = .wait := rfl

/-- A well-formed message is taken off the stream as itself. -/
theorem serverFraming_encode {m : Message} (hm : m.WellFormed) :
    serverFraming.next m.encode = .emit m m.encode.length := by
  rcases hm with ⟨hlen, hlimit⟩
  have hhead : MsgHead.decode m.encode = { id := m.id, length := m.length } := by
    rw [Message.encode, MsgHead.decode_append (le_refl _), MsgHead.decode_encode]
  have hdrop : m.encode.drop messageHeadLen = m.body := by
    rw [Message.encode]
    exact List.drop_left' (MsgHead.length_encode _)
  have htoNat : m.length.toInt.toNat = m.body.length := by omega
  have h₁ : ¬ m.encode.length < messageHeadLen := by
    rw [Message.length_encode]
    omega
  have h₂ : ¬ (m.length.toInt < 0 ∨ m.length.toInt > messageLengthLimit) := by omega
  have h₃ : ¬ m.encode.length < messageHeadLen + m.body.length := by
    rw [Message.length_encode]
    omega
  show serverNext m.encode = _
  simp only [serverNext, hhead, h₁, h₂, if_false, htoNat, h₃, hdrop, List.take_length]
  rw [Message.length_encode]

/-! ## `msg_router` -/

/-- `msg_router`, with each callback and its `user_data` in one. -/
structure MsgRouter (κ : Type) where
  router : Int32 → Option κ

namespace MsgRouter

variable {κ : Type}

def new : MsgRouter κ :=
  { router := fun _ => none }

/-- `register_msg_router`: what is registered first for an id stays. -/
def registerMsgRouter (r : MsgRouter κ) (msgid : Int32) (msgCb : κ) : Int × MsgRouter κ :=
  match r.router msgid with
  | some _ => (-1, r)
  | none => (0, { router := Function.update r.router msgid (some msgCb) })

/-- The callback that `msg_router::call` calls, if it calls one. -/
def call (r : MsgRouter κ) (msgid : Int32) : Option κ :=
  r.router msgid

theorem call_register_self (msgid : Int32) (msgCb : κ) :
    ((new : MsgRouter κ).registerMsgRouter msgid msgCb).2.call msgid = some msgCb := by
  simp [registerMsgRouter, new, call]

/-- Where one callback is registered, messages with another id are dropped. -/
theorem call_register_ne {msgid msgid' : Int32} (msgCb : κ) (h : msgid' ≠ msgid) :
    ((new : MsgRouter κ).registerMsgRouter msgid msgCb).2.call msgid' = none := by
  simp [registerMsgRouter, new, call, h]

end MsgRouter
end Reactor
end Rins
