import Rins.Agent.DnsClient
import Rins.Reactor.Udp

/-!
# RinsClient — `get_host` of the API

`rins_client` has one UDP socket for each server of the agent.  `get_host` sends a request on the
socket that `(modid + cmdid) % 3` selects and waits for the response with the sequence number of the
request; responses to earlier requests are read and forgotten.

`port` is passed by value, so the variable of the caller is as it was.
-/

namespace Rins
namespace Api

open Agent (LbAgent)
open Proto (GetHostRequest GetHostResponse HostCodec MessageId RetCode)
open Reactor

/-- `rins_client`. -/
structure RinsClient where
  seqid : UInt32
  sockfd : Fin 3 → Int

/-- The two variables that the caller of `get_host` passes. -/
structure HostVars where
  ip : String
  port : Int32
  deriving DecidableEq, Repr

/-- What the kernel answers to `recvfrom`, which blocks. -/
inductive ApiRecv
  | failed
  | pkg (bytes : List UInt8)

/-- `sizeof(read_buf)`. -/
def readBufLen : Nat := 81920

/-- `sizeof(write_buf)`. -/
def writeBufLen : Nat := 4096

/-- `inet_ntoa`: the bytes as they lie in memory. -/
def inetNtoa (addr : UInt32) : String :=
  let byte := fun i => toString (addr.toNat / 256 ^ i % 256)
  byte 0 ++ "." ++ byte 1 ++ "." ++ byte 2 ++ "." ++ byte 3

/-- What `get_host` leaves behind. -/
structure ApiOutcome where
  ret : Int32
  client : RinsClient
  vars : HostVars
  /-- what was sent, and on which socket -/
  sent : Option (Fin 3 × List UInt8)
  /-- the datagrams that were read -/
  received : List (List UInt8)

namespace RinsClient

/-- The datagram in `write_buf`. -/
def request (codec : HostCodec) (client : RinsClient) (modid cmdid : Int32) : List UInt8 :=
  (Message.of MessageId.getHostRequest.num
    (codec.serializeRequest { seq := client.seqid, modid := modid, cmdid := cmdid })).encode

/-- The `do` loop: the response with which it is left, none for `return RET_SYSTEM_ERROR`, and the
datagrams that were read. -/
def recvLoop (codec : HostCodec) (seq : UInt32) : List ApiRecv → CharArray readBufLen →
    Except Fault (Option GetHostResponse × List (List UInt8))
  | [], _ => .error .unfinished
  | .failed :: _, _ => .ok (none, [])
  | .pkg pkg :: answers, readBuf => do
      let (messageLen, readBuf) := readBuf.recvfrom pkg
      let head := MsgHead.decode (← readBuf.load 0 messageHeadLen)
      if head.id ≠ MessageId.getHostResponse.num then
        return (none, [pkg])
      else
        let body ← readBuf.load messageHeadLen (messageLen - messageHeadLen)
        match codec.parseResponse body with
        | none => return (none, [pkg])
        | some resp =>
            if resp.seq < seq then
              let (last, received) ← recvLoop codec seq answers readBuf
              return (last, pkg :: received)
            else
              return (some resp, [pkg])

/-- The end of `get_host`: what it returns, and `ip`. -/
def conclude (seq : UInt32) (modid cmdid : Int32) (vars : HostVars) :
    Option GetHostResponse → Int32 × HostVars
  | none => (RetCode.systemError.num, vars)
  | some resp =>
      if resp.seq ≠ seq ∨ resp.modid ≠ modid ∨ resp.cmdid ≠ cmdid then
        (RetCode.systemError.num, vars)
      else if resp.retcode = 0 then
        let host := resp.host.getD { ip := 0, port := 0 }
        -- the assignment to `port` is to the parameter
        (resp.retcode, { vars with ip := inetNtoa host.ip.toUInt32 })
      else
        (resp.retcode, vars)

/-- `rins_client::get_host`.  `readBuf` is what is in the memory of `read_buf`, `sent` whether
`sendto` succeeds. -/
def getHost (codec : HostCodec) (client : RinsClient) (modid cmdid : Int32) (vars : HostVars)
    (readBuf : CharArray readBufLen) (sent : Bool) (answers : List ApiRecv) :
    Except Fault ApiOutcome := do
  let request := client.request codec modid cmdid
  let seq := client.seqid
  let client := { client with seqid := client.seqid + 1 }
  if request.length > writeBufLen then
    .error .outOfBounds
  else
    match LbAgent.shard ((modid + cmdid) % 3) with
    | none =>
        -- `_sockfd[index]` in front of the array
        .error .outOfBounds
    | some index =>
        if sent then
          let (last, received) ← recvLoop codec seq answers readBuf
          let (ret, vars) := conclude seq modid cmdid vars last
          return {
            ret := ret
            client := client
            vars := vars
            sent := some (index, request)
            received := received }
        else
          return {
            ret := RetCode.systemError.num
            client := client
            vars := vars
            sent := none
            received := [] }

/-- The caller never learns the port. -/
theorem conclude_port (seq : UInt32) (modid cmdid : Int32) (vars : HostVars)
    (last : Option GetHostResponse) : (conclude seq modid cmdid vars last).2.port = vars.port := by
  unfold conclude
  cases last with
  | none => rfl
  | some resp =>
      simp only
      split_ifs <;> rfl

/-- A datagram with another id than `ID_GetHostResponse` ends the call. -/
theorem recvLoop_id {codec : HostCodec} {seq : UInt32} {pkg : List UInt8} {answers : List ApiRecv}
    {readBuf : CharArray readBufLen} (hfit : pkg.length ≤ readBufLen)
    (hhead : messageHeadLen ≤ pkg.length)
    (hid : (MsgHead.decode pkg).id ≠ MessageId.getHostResponse.num) :
    recvLoop codec seq (.pkg pkg :: answers) readBuf = .ok (none, [pkg]) := by
  have hload : (readBuf.recvfrom pkg).2.load 0 messageHeadLen =
      .ok (pkg.take messageHeadLen) := by
    have hfront := readBuf.load_recvfrom hfit 0 messageHeadLen (by omega)
    simpa using hfront
  unfold recvLoop
  simp only
  rw [hload, ok_bind, MsgHead.decode_take hhead, if_pos hid]
  rfl

end RinsClient
end Api
end Rins
