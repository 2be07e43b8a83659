import Rins.Agent.AgentRuns
import Rins.Api.Replies

/-!
# HostExchange — `get_host` on the wire

With the encoding of the generated classes nothing is assumed about the messages between the API and
the agent any more: a request fits into `write_buf` and is read by a server as what it is, and so is
a response by `get_host`.

The agent replies under another id than the API expects.  What `get_host` does is described for
responses under the right one.
-/

namespace Rins
namespace Api

open Agent (LbAgent)
open Lib
open Proto
open Reactor

variable (w : Wire)

/-! ## The request -/

theorem length_request (client : RinsClient) (modid cmdid : Int32) :
    (client.request (Proto.hostCodec w) modid cmdid).length ≤ 36 := by
  rw [RinsClient.request, Message.length_encode]
  exact Nat.add_le_add_left (length_serializeRequest w _) _

/-- A server takes the datagram for the request that it is. -/
theorem hostRequest_request (client : RinsClient) (modid cmdid : Int32) :
    Agent.hostRequest (client.request (Proto.hostCodec w) modid cmdid) =
      some (Message.of MessageId.getHostRequest.num ((Proto.hostCodec w).serializeRequest
        { seq := client.seqid, modid := modid, cmdid := cmdid })) := by
  have hshort : (client.request (Proto.hostCodec w) modid cmdid).length ≤ messageLengthLimit :=
    Nat.le_trans (length_request w client modid cmdid) (by decide)
  have hwell := (@Message.of_wellFormed MessageId.getHostRequest.num _
    (Nat.le_trans (length_serializeRequest w
      { seq := client.seqid, modid := modid, cmdid := cmdid }) (by decide))).1
  unfold Agent.hostRequest
  rw [List.take_of_length_le hshort, RinsClient.request, judge_encode hwell]
  rfl

/-! ## The responses -/

/-- What `get_host` finds in its socket. -/
def replies (resps : List GetHostResponse) : List ApiRecv :=
  resps.map fun resp => .pkg (RinsClient.reply (Proto.hostCodec w) resp)

/-- The loop ends with the first response whose number is not smaller, and blocks if there is
none. -/
theorem recvLoop_replies_eq (seq : UInt32) (resps : List GetHostResponse)
    (readBuf : CharArray readBufLen) :
    RinsClient.recvLoop (Proto.hostCodec w) seq (replies w resps) readBuf =
      match resps.find? fun resp => ¬ resp.seq < seq with
      | none => .error .unfinished
      | some own => .ok (some own,
          (resps.takeWhile (fun resp => resp.seq < seq) ++ [own]).map
            (RinsClient.reply (Proto.hostCodec w))) := by
  induction resps generalizing readBuf with
  | nil => rfl
  | cons resp resps ih =>
      have hdecodes := (RinsClient.reply_readable w resp).decodes
      rw [replies, List.map_cons, RinsClient.recvLoop_of_decodes hdecodes]
      by_cases hstale : resp.seq < seq
      · rw [if_pos hstale, ← replies, ih, List.find?_cons_of_neg (by simpa using hstale),
          List.takeWhile_cons_of_pos (by simpa using hstale)]
        cases resps.find? fun resp => ¬ resp.seq < seq with
        | none => rfl
        | some own => rfl
      · rw [if_neg hstale, List.find?_cons_of_pos (by simpa using hstale),
          List.takeWhile_cons_of_neg (by simpa using hstale)]
        rfl

/-- A whole call.  The datagram that is sent is read by the servers of the agent as this request,
and whatever responses arrive, `get_host` goes by the first whose number is not smaller than that of
the request; without such a response it does not return. -/
theorem getHost_exchange (client : RinsClient) (modid cmdid : Int32) (vars : HostVars)
    (readBuf : CharArray readBufLen) (index : Fin 3)
    (hindex : LbAgent.shard ((modid + cmdid) % 3) = some index) (resps : List GetHostResponse) :
    (∃ m, Agent.hostRequest (client.request (Proto.hostCodec w) modid cmdid) = some m ∧
      (Proto.hostCodec w).parseRequest m.body =
        { seq := client.seqid, modid := modid, cmdid := cmdid }) ∧
      client.getHost (Proto.hostCodec w) modid cmdid vars readBuf true (replies w resps) =
        match resps.find? fun resp => ¬ resp.seq < client.seqid with
        | none => .error .unfinished
        | some own => .ok {
            ret := (RinsClient.conclude client.seqid modid cmdid vars (some own)).1
            client := { client with seqid := client.seqid + 1 }
            vars := (RinsClient.conclude client.seqid modid cmdid vars (some own)).2
            sent := some (index, client.request (Proto.hostCodec w) modid cmdid)
            received := (resps.takeWhile (fun resp => resp.seq < client.seqid) ++ [own]).map
              (RinsClient.reply (Proto.hostCodec w)) } := by
  refine ⟨⟨_, hostRequest_request w client modid cmdid, parseRequest_serialize w _⟩, ?_⟩
  have hfits : ¬ (client.request (Proto.hostCodec w) modid cmdid).length > writeBufLen :=
    not_lt.2 (Nat.le_trans (length_request w client modid cmdid) (by decide))
  unfold RinsClient.getHost
  simp only [hfits, if_false, hindex, if_true, recvLoop_replies_eq]
  cases resps.find? fun resp => ¬ resp.seq < client.seqid with
  | none => rfl
  | some own => rfl

/-- Call 7 skips the response to call 6 and reports the host of its own. -/
theorem getHost_exchange_sample :
    ((RinsClient.sampleClient 7).getHost (Proto.hostCodec Wire.base128) 1 1 { ip := "", port := 0 }
      { data := fun _ => 0 } true (replies Wire.base128
        [⟨6, 1, 1, 3, none⟩, ⟨7, 1, 1, 0, some ⟨16777343, 80⟩⟩])).map (fun out => out.ret) =
      .ok RetCode.succ.num := by
  rw [(getHost_exchange Wire.base128 (RinsClient.sampleClient 7) 1 1 { ip := "", port := 0 }
    { data := fun _ => 0 } 2 (by decide) _).2]
  rfl

end Api
end Rins
