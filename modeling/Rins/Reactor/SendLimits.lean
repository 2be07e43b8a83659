import Rins.Reactor.ServerFraming
import Rins.Reactor.TcpClient

/-!
# SendLimits — which lengths `tcp_client::send_message` lets through

`send_message` compares `msglen + MESSAGE_HEAD_LEN` with the free bytes of `_obuf`.  The sum is a C
`int`: it is small for a negative length and wraps around for one near the largest `int`, and then
`memcpy` is called with that length.

A length that the check is right about may still be one that the peer refuses, whose bound is
`MESSAGE_LENGTH_LIMIT` and not the size of a buffer.
-/

namespace Rins
namespace Reactor

open Lib

namespace TcpClient

/-! ## Within the capacity -/

/-- The call refuses the message and leaves the client as it is, or it appends the whole message. -/
def AllOrNothing (cli : TcpClient) (data : List UInt8) (msglen msgid : Int32) : Prop :=
  (∃ effects, cli.sendMessage data msglen msgid = .ok (-1, cli, effects)) ∨
    (0 ≤ msglen.toInt ∧ ∃ cli' effects,
      cli.sendMessage data msglen msgid = .ok (0, cli', effects) ∧
      cli'.obuf.pending = cli.obuf.pending ++
        (MsgHead.encode { id := msgid, length := msglen } ++ data.take msglen.toInt.toNat) ∧
      cli'.obuf.length ≤ cli'.obuf.capacity ∧ cli'.obuf.capacity = cli.obuf.capacity)

/-- The length is not negative and its sum with the head is an `int`; or it is negative, and the
free bytes are so few that the check refuses it nevertheless. -/
def LengthChecked (cli : TcpClient) (msglen : Int32) : Prop :=
  (0 ≤ msglen.toInt ∧ msglen.toInt ≤ 2147483639) ∨
    (msglen.toInt < 0 ∧ cli.obuf.capacity - cli.obuf.length < msglen.toInt + messageHeadLen)

/-- The sum of a length and the head: itself, or 2^32 less. -/
theorem cInt_add_head (msglen : Int32) :
    (msglen.toInt ≤ 2147483639 ∧
        cInt (msglen.toInt + messageHeadLen) = msglen.toInt + messageHeadLen) ∨
      (2147483640 ≤ msglen.toInt ∧ cInt (msglen.toInt + messageHeadLen) < 0) := by
  have hlow := Int32.le_toInt msglen
  have hhigh := Int32.toInt_lt msglen
  have hhead : (messageHeadLen : Int) = 8 := rfl
  rcases le_or_gt msglen.toInt 2147483639 with hsmall | hlarge
  · exact Or.inl ⟨hsmall, cInt_eq (by omega) (by omega)⟩
  · refine Or.inr ⟨by omega, ?_⟩
    unfold cInt
    rw [Int.bmod_def]
    split <;> omega

theorem sendMessage_refused {cli : TcpClient} {data : List UInt8} {msglen msgid : Int32}
    (hfull : cli.obuf.capacity - cli.obuf.length < cInt (msglen.toInt + messageHeadLen)) :
    cli.sendMessage data msglen msgid = .ok (-1, cli, []) := by
  unfold sendMessage
  split_ifs
  · rfl
  · rfl

/-- Behind the check the call returns only if the length is that of the caller's bytes and both
copies have room. -/
theorem sendMessage_returns {cli cli' : TcpClient} {data : List UInt8} {msglen msgid : Int32}
    {ret : Int} {effects : List ClientEffect} (hconn : cli.connected = true)
    (hpass : ¬ cli.obuf.capacity - cli.obuf.length < cInt (msglen.toInt + messageHeadLen))
    (h : cli.sendMessage data msglen msgid = .ok (ret, cli', effects)) :
    0 ≤ msglen.toInt ∧
      cli.obuf.length + messageHeadLen + msglen.toInt ≤ cli.obuf.capacity := by
  unfold sendMessage at h
  rw [if_neg (by simp [hconn]), if_neg hpass] at h
  rcases bind_eq_ok.1 h with ⟨obuf₁, happ₁, h⟩
  rcases bind_eq_ok.1 h with ⟨body, hbody, h⟩
  rcases bind_eq_ok.1 h with ⟨obuf₂, happ₂, _⟩
  unfold callerBytes at hbody
  split_ifs at hbody with hcaller
  cases hbody
  have hroom := IoBuf.append_room happ₂
  have hcap := IoBuf.append_capacity happ₁
  have hlen : obuf₁.length = cli.obuf.length + messageHeadLen := IoBuf.append_length happ₁
  have htake : ((data.take msglen.toInt.toNat).length : Int) = msglen.toInt := by
    rw [List.length_take]
    omega
  exact ⟨hcaller.1, by omega⟩

/-- The call is all or nothing exactly if the check was right about the length. -/
theorem allOrNothing_iff (cli : TcpClient) (hconn : cli.connected = true)
    (hvalid : cli.obuf.Valid) (hfront : cli.obuf.head = 0)
    (hint : cli.obuf.capacity < 2147483648) (data : List UInt8) (msglen msgid : Int32)
    (hdata : msglen.toInt ≤ data.length) :
    cli.AllOrNothing data msglen msgid ↔ cli.LengthChecked msglen := by
  have hlen := hvalid.length_nonneg
  have hfits := hvalid.fits
  have hhead : (messageHeadLen : Int) = 8 := rfl
  constructor
  · intro hall
    by_cases hfull : cli.obuf.capacity - cli.obuf.length < cInt (msglen.toInt + messageHeadLen)
    · -- a sum that wraps around is negative, and would not have been refused
      rcases cInt_add_head msglen with ⟨hsmall, hsum⟩ | ⟨hlarge, hsum⟩
      · rcases le_or_gt 0 msglen.toInt with h₀ | hneg
        · exact Or.inl ⟨h₀, hsmall⟩
        · exact Or.inr ⟨hneg, by omega⟩
      · omega
    · have hreturns : ∃ ret cli' effects,
          cli.sendMessage data msglen msgid = .ok (ret, cli', effects) := by
        rcases hall with ⟨effects, hsend⟩ | ⟨_, cli', effects, hsend, _⟩
        · exact ⟨_, _, _, hsend⟩
        · exact ⟨_, _, _, hsend⟩
      rcases hreturns with ⟨ret, cli', effects, hsend⟩
      rcases sendMessage_returns hconn hfull hsend with ⟨h₀, hroom⟩
      exact Or.inl ⟨h₀, by omega⟩
  · rintro (⟨h₀, hsmall⟩ | ⟨hneg, hfew⟩)
    · have hsum : cInt (msglen.toInt + messageHeadLen) = msglen.toInt + messageHeadLen :=
        cInt_eq (by omega) (by omega)
      by_cases hfull : cli.obuf.capacity - cli.obuf.length < msglen.toInt + messageHeadLen
      · exact Or.inl ⟨[], sendMessage_refused (by rw [hsum]; exact hfull)⟩
      · rcases sendMessage_fits hvalid hfront hconn h₀ hdata (by omega) (by omega) with
          ⟨obuf, effects, hsend, hvalid', hfront', hcap, hpend⟩
        have hfits' := hvalid'.fits
        exact Or.inr ⟨h₀, _, effects, hsend, hpend, by simp only; omega, hcap⟩
    · have hlow := Int32.le_toInt msglen
      have hsum : cInt (msglen.toInt + messageHeadLen) = msglen.toInt + messageHeadLen :=
        cInt_eq (by omega) (by omega)
      exact Or.inl ⟨[], sendMessage_refused (by rw [hsum]; exact hfew)⟩

/-- A client with nothing to write yet. -/
def idleClient : TcpClient :=
  { new with connected := true, sockfd := 3 }

theorem allOrNothing_iff_three : idleClient.AllOrNothing [1, 2, 3] 3 7 :=
  (allOrNothing_iff idleClient rfl (IoBuf.new_valid (by decide)) rfl (by decide) [1, 2, 3] 3 7
    (by decide)).2 (Or.inl ⟨by decide, by decide⟩)

/-- A negative length passes the check, and the largest one does too. -/
theorem allOrNothing_fails :
    ¬ ∀ (cli : TcpClient) (data : List UInt8) (msglen msgid : Int32), cli.connected = true →
      cli.obuf.Valid → cli.obuf.head = 0 → cli.obuf.capacity < 2147483648 →
      msglen.toInt ≤ data.length → cli.AllOrNothing data msglen msgid := by
  intro hall
  have hpass : ¬ idleClient.obuf.capacity - idleClient.obuf.length <
      cInt ((-1 : Int32).toInt + messageHeadLen) := by decide
  have hneg : ¬ 0 ≤ (-1 : Int32).toInt := by decide
  rcases hall idleClient [] (-1) 7 rfl (IoBuf.new_valid (by decide)) rfl (by decide)
      (by decide) with
    ⟨effects, hsend⟩ | ⟨h₀, _⟩
  · exact hneg (sendMessage_returns rfl hpass hsend).1
  · exact hneg h₀

/-! ## Within the limit of the peer -/

/-- A server that meets these bytes among well-formed messages does not call `clean_conn`, however
the stream is cut, whatever part of it has arrived and whatever the callbacks do. -/
def PeerAccepts (bytes : List UInt8) : Prop :=
  ∀ (cb : MsgCallback) (fd : Int) (before after : List Message) (as : List TcpConn.Arrival)
    (conn : TcpConn) (calls : List Message),
    Orderly True cb (TcpConn.RunCalls cb (TcpConn.new fd) as) →
    (∀ m ∈ before ++ after, m.WellFormed) →
    (∀ a ∈ as, a.pool.Clean ∧ a.chunk ≠ [] ∧ a.chunk.length ≤ TcpConn.maxChunk) →
    TcpConn.Arrival.stream as <+:
      before.flatMap Message.encode ++ bytes ++ after.flatMap Message.encode →
    TcpConn.readRun cb (TcpConn.new fd) as ≠ .ok (conn, calls, true)

/-- What `send_message` returned 0 for is accepted by the peer. -/
def SentAccepted (cli : TcpClient) (data : List UInt8) (msglen msgid : Int32) : Prop :=
  ∀ (cli' : TcpClient) (effects : List ClientEffect) (bytes : List UInt8),
    cli.sendMessage data msglen msgid = .ok (0, cli', effects) →
    cli'.obuf.pending = cli.obuf.pending ++ bytes → PeerAccepts bytes

/-- The call refuses the message, or its length is within the limit of the peer. -/
def WithinPeerLimit (cli : TcpClient) (msglen : Int32) : Prop :=
  cli.connected = false ∨ cli.obuf.capacity - cli.obuf.length < msglen.toInt + messageHeadLen ∨
    msglen.toInt ≤ messageLengthLimit

/-- Where `clean_conn` is called, the reference reading of what has arrived is closed. -/
theorem parse_closed_of_cleaned {cb : MsgCallback} {fd : Int} {as : List TcpConn.Arrival}
    {conn : TcpConn} {calls : List Message}
    (hcb : Orderly True cb (TcpConn.RunCalls cb (TcpConn.new fd) as))
    (harr : ∀ a ∈ as, a.pool.Clean ∧ a.chunk ≠ [] ∧ a.chunk.length ≤ TcpConn.maxChunk)
    (hrun : TcpConn.readRun cb (TcpConn.new fd) as = .ok (conn, calls, true)) :
    (serverFraming.parse (TcpConn.Arrival.stream as)).2 = .closed := by
  have hparse : serverFraming.feedAll (.pending []) (as.map TcpConn.Arrival.chunk) =
      serverFraming.parse (TcpConn.Arrival.stream as) :=
    serverFraming.feedAll_eq_parse serverFraming_nil _
  have hends := TcpConn.readRun_ends as (TcpConn.new_atRest fd) serverFraming_nil
    (fun a ha => ⟨(harr a ha).1, fun _ => trivial, (harr a ha).2⟩) hcb
  simp only [TcpConn.new, ReactorBuf.content_none, hparse] at hends hrun
  rw [hrun] at hends
  rcases hends with ⟨_, hexit⟩ | ⟨_, habort⟩ | ⟨_, out, hout, _, hkept⟩
  · cases hexit
  · cases habort
  · cases hout
    cases hres : (serverFraming.parse (TcpConn.Arrival.stream as)).2 with
    | closed =>
        rfl
    | pending tail =>
        rw [hres] at hkept
        exact absurd hkept.1 (by simp)

theorem peerAccepts_encode {m : Message} (hm : m.WellFormed) : PeerAccepts m.encode := by
  intro cb fd before after as conn calls hcb hothers harr hprefix hrun
  have hclosed := parse_closed_of_cleaned hcb harr hrun
  -- the whole stream parses, so that no part of it can be closed
  have hall : serverFraming.parse ((before ++ m :: after).flatMap Message.encode) =
      (before ++ m :: after, .pending []) := by
    apply serverFraming.parse_encode _ serverFraming_nil
    intro m' hm'
    refine serverFraming_encode ?_
    rcases List.mem_append.1 hm' with hbefore | hrest
    · exact hothers m' (List.mem_append_left _ hbefore)
    · rcases List.mem_cons.1 hrest with rfl | hafter
      · exact hm
      · exact hothers m' (List.mem_append_right _ hafter)
  rcases hprefix with ⟨rest, hsplit⟩
  have hstream : TcpConn.Arrival.stream as ++ rest =
      (before ++ m :: after).flatMap Message.encode := by
    rw [hsplit]
    simp
  rw [← hstream, Framing.parse_append, hclosed] at hall
  exact absurd (congrArg Prod.snd hall) (by simp [Framing.feed])

theorem not_peerAccepts_encode {m : Message} (hm : m.length.toInt > messageLengthLimit) :
    ¬ PeerAccepts m.encode := by
  intro haccepts
  -- the head alone is enough for the server to close
  set head := MsgHead.encode { id := m.id, length := m.length } with hhead
  have hreject : serverFraming.next head = .reject := by
    show serverNext head = .reject
    have hwhole : ¬ head.length < messageHeadLen := by simp [hhead]
    have hdecode : MsgHead.decode head = { id := m.id, length := m.length } :=
      MsgHead.decode_encode _
    simp only [serverNext, hwhole, if_false, hdecode, hm, or_true, if_true]
  have hlen : head.length = 8 := MsgHead.length_encode _
  have hne : head ≠ [] := List.ne_nil_of_length_pos (by omega)
  have hparse : serverFraming.feedAll (.pending []) [head] = ([], .closed) := by
    rw [Framing.feedAll_eq_parse _ serverFraming_nil, List.flatten_singleton,
      Framing.parse_reject _ hreject]
  set arrival : TcpConn.Arrival := { pool := BufPool.init, chunk := head, eintrs := 0 }
    with harrival
  have harr : ∀ a ∈ [arrival], a.pool.Serviceable ∧ a.chunk ≠ [] ∧
      a.chunk.length ≤ TcpConn.maxChunk := by
    simp [harrival, hne, hlen, BufPool.init_serviceable, TcpConn.maxChunk]
  rcases TcpConn.readRun_spec (TcpConn.new_atRest 5) serverFraming_nil
      (orderly_none False (TcpConn.RunCalls MsgCallback.none _ _)) harr
      (by simp [TcpConn.new, harrival, hparse]) with
    ⟨conn, cleaned, hrun, hkept⟩
  simp only [TcpConn.new, ReactorBuf.content_none, List.map_cons, List.map_nil, harrival, hparse]
    at hrun hkept
  rw [hkept.1] at hrun
  refine haccepts MsgCallback.none 5 [] [] [arrival] conn [] (orderly_none True _)
    (by simp) (fun a ha => ⟨(harr a ha).1.clean, (harr a ha).2⟩) ?_ hrun
  simp [TcpConn.Arrival.stream, harrival, Message.encode, ← hhead]

/-- What a connected client with room for it sends is accepted if and only if its length is within
the limit. -/
theorem sentAccepted_of_room_iff {cli : TcpClient} (hconn : cli.connected = true)
    (hvalid : cli.obuf.Valid) (hfront : cli.obuf.head = 0) {data : List UInt8}
    {msglen msgid : Int32} (h₀ : 0 ≤ msglen.toInt) (hdata : msglen.toInt ≤ data.length)
    (hint : msglen.toInt + messageHeadLen < 2147483648)
    (hroom : msglen.toInt + messageHeadLen ≤ cli.obuf.capacity - cli.obuf.length) :
    cli.SentAccepted data msglen msgid ↔ msglen.toInt ≤ messageLengthLimit := by
  rcases sendMessage_fits hvalid hfront hconn h₀ hdata hint hroom with
    ⟨obuf, effects, hsend, _, _, _, hpend⟩
  have hlen : ((data.take msglen.toInt.toNat).length : Int) = msglen.toInt := by
    rw [List.length_take]
    omega
  constructor
  · intro hsent
    by_contra hlong
    exact not_peerAccepts_encode (by simp only; omega) (hsent _ _ _ hsend hpend)
  · intro hshort cli' effects' bytes hsend' hpend'
    rw [hsend] at hsend'
    cases hsend'
    rw [hpend] at hpend'
    rw [← List.append_cancel_left hpend']
    exact peerAccepts_encode ⟨hlen.symm, by simp only; omega⟩

/-- What the client sends is accepted exactly if it refuses everything beyond the limit of the
peer. -/
theorem sentAccepted_iff (cli : TcpClient) (hvalid : cli.obuf.Valid) (hfront : cli.obuf.head = 0)
    (hint : cli.obuf.capacity < 2147483648) (data : List UInt8) (msglen msgid : Int32)
    (h₀ : 0 ≤ msglen.toInt) (hdata : msglen.toInt ≤ data.length) :
    cli.SentAccepted data msglen msgid ↔ cli.WithinPeerLimit msglen := by
  have hlen := hvalid.length_nonneg
  have hhead : (messageHeadLen : Int) = 8 := rfl
  unfold WithinPeerLimit
  cases hconn : cli.connected with
  | false =>
      refine ⟨fun _ => Or.inl rfl, fun _ cli' effects bytes hsend _ => ?_⟩
      simp [sendMessage, hconn] at hsend
  | true =>
      by_cases hroom : msglen.toInt + messageHeadLen ≤ cli.obuf.capacity - cli.obuf.length
      · rw [sentAccepted_of_room_iff hconn hvalid hfront h₀ hdata (by omega) hroom]
        simp only [Bool.true_eq_false, false_or]
        omega
      · refine ⟨fun _ => Or.inr (Or.inl (by omega)), fun _ cli' effects bytes hsend _ => ?_⟩
        -- it is refused, or it is too long for the buffer and the copies do not return
        by_cases hfull : cli.obuf.capacity - cli.obuf.length < cInt (msglen.toInt + messageHeadLen)
        · rw [sendMessage_refused hfull] at hsend
          cases hsend
        · exact absurd (sendMessage_returns hconn hfull hsend).2 (by omega)

theorem sentAccepted_iff_three : idleClient.SentAccepted [1, 2, 3] 3 7 :=
  (sentAccepted_iff idleClient (IoBuf.new_valid (by decide)) rfl (by decide) [1, 2, 3] 3 7
    (by decide) (by decide)).2 (Or.inr (Or.inr (by decide)))

/-- One byte more than the limit of the peer, sent by a client with nothing to write yet. -/
theorem sentAccepted_fails :
    ¬ ∀ (cli : TcpClient) (data : List UInt8) (msglen msgid : Int32), cli.obuf.Valid →
      cli.obuf.head = 0 → cli.obuf.capacity < 2147483648 → 0 ≤ msglen.toInt →
      msglen.toInt ≤ data.length → cli.SentAccepted data msglen msgid := by
  intro hall
  have hvalid : idleClient.obuf.Valid := IoBuf.new_valid (by decide)
  have hdata : (65528 : Int32).toInt ≤ (List.replicate 65528 (0 : UInt8)).length := by
    rw [List.length_replicate]
    decide
  have hsent := hall idleClient (List.replicate 65528 0) 65528 7 hvalid rfl (by decide) (by decide)
    hdata
  have hlimit := (sentAccepted_of_room_iff rfl hvalid rfl (by decide) hdata (by decide)
    (by decide)).1 hsent
  exact absurd hlimit (by decide)

end TcpClient
end Reactor
end Rins
