import Mathlib.Tactic.Common

/-!
# Proto — the messages of `rins.proto`

The fields as the generated classes have them: an `int32` field holds an `Int32`, a message field
that may be absent is an option.  How a message is laid out in bytes is up to protobuf; `Codec` is
what the agent's DNS client uses of it, `HostCodec` what the API and the agent's UDP servers use.
-/

namespace Rins
namespace Proto

/-- `MessageID`. -/
inductive MessageId
  | unknow
  | getRouteRequest
  | getRouteResponse
  | reportStatusRequest
  | getHostRequest
  | getHostResponse
  deriving DecidableEq, Repr

def MessageId.num : MessageId → Int32
  | .unknow => 0
  | .getRouteRequest => 1
  | .getRouteResponse => 2
  | .reportStatusRequest => 3
  | .getHostRequest => 4
  | .getHostResponse => 5

/-- `RinsRetCode`. -/
inductive RetCode
  | succ
  | overload
  | systemError
  | noexist
  deriving DecidableEq, Repr

def RetCode.num : RetCode → Int32
  | .succ => 0
  | .overload => 1
  | .systemError => 2
  | .noexist => 3

theorem RetCode.num_ne {a b : RetCode} (h : a ≠ b) : a.num ≠ b.num := by
  cases a <;> cases b <;> revert h <;> decide

structure HostInfo where
  ip : Int32
  port : Int32
  deriving DecidableEq, Repr

structure GetRouteRequest where
  modid : Int32
  cmdid : Int32
  deriving DecidableEq, Repr

structure GetRouteResponse where
  modid : Int32
  cmdid : Int32
  host : List HostInfo
  deriving DecidableEq, Repr

structure GetHostRequest where
  seq : UInt32
  modid : Int32
  cmdid : Int32
  deriving DecidableEq, Repr

structure GetHostResponse where
  seq : UInt32
  modid : Int32
  cmdid : Int32
  retcode : Int32
  host : Option HostInfo
  deriving DecidableEq, Repr

structure HostCallResult where
  ip : Int32
  port : Int32
  succ : UInt32
  err : UInt32
  overload : Bool
  deriving DecidableEq, Repr

structure ReportStatusRequest where
  modid : Int32
  cmdid : Int32
  caller : Int32
  results : List HostCallResult
  timestamp : UInt32
  deriving DecidableEq, Repr

/-- What is used of protobuf: `SerializeToString` of a request, which needs at most eleven bytes for
each of its two fields, and what `ParseFromArray` leaves in a response that was empty before. -/
structure Codec where
  serialize : GetRouteRequest → List UInt8
  parse : List UInt8 → GetRouteResponse
  serialize_length : ∀ req, (serialize req).length ≤ 22

/-- What is used of protobuf between the API and the agent.  A response that cannot be parsed makes
`ParseFromArray` return false; what it leaves in a request is used in any case. -/
structure HostCodec where
  serializeRequest : GetHostRequest → List UInt8
  parseRequest : List UInt8 → GetHostRequest
  serializeResponse : GetHostResponse → List UInt8
  parseResponse : List UInt8 → Option GetHostResponse

end Proto
end Rins
