import Mathlib.Data.List.AList
import Mathlib.Data.List.Sort
import Rins.Base.Proto
import Rins.Reactor.IoBuf

/-!
# LoadBalance — the hosts of one route in the agent

A `load_balance` owns its `host_info` objects.  A pointer is an index into `hosts`, the objects made
so far; a deleted object leaves `none` behind, so that a later use of the pointer is a fault.
-/

namespace Rins
namespace Agent

open Proto (GetHostResponse GetRouteRequest GetRouteResponse RetCode)
open Reactor

/-- `host_info`. -/
structure HostInfo where
  ip : UInt32
  port : Int32
  vsucc : UInt32
  verr : UInt32
  rsucc : UInt32
  rerr : UInt32
  continSucc : UInt32
  continErr : UInt32
  overload : Bool
  deriving DecidableEq, Repr

/-- The constructor of `host_info`. -/
def HostInfo.new (ip : UInt32) (port : Int32) (initVsucc : UInt32) : HostInfo :=
  { ip := ip
    port := port
    vsucc := initVsucc
    verr := 0
    rsucc := 0
    rerr := 0
    continSucc := 0
    continErr := 0
    overload := false }

abbrev HostPtr := Nat

/-- `load_balance::STAUTS`. -/
inductive Status
  | pulling
  | new
  deriving DecidableEq, Repr

structure LoadBalance where
  status : Status
  modid : Int32
  cmdid : Int32
  accessCnt : Int
  hostMap : AList fun _ : UInt64 => HostPtr
  idleList : List HostPtr
  overloadList : List HostPtr
  hosts : List (Option HostInfo)

namespace LoadBalance

/-- The constructor, which sets neither `status` nor `_access_cnt`. -/
def new (modid cmdid : Int32) (status : Status) (accessCnt : Int) : LoadBalance :=
  { status := status
    modid := modid
    cmdid := cmdid
    accessCnt := accessCnt
    hostMap := ∅
    idleList := []
    overloadList := []
    hosts := [] }

/-- `load_balance::empty`. -/
def empty (lb : LoadBalance) : Bool :=
  lb.idleList.isEmpty && lb.overloadList.isEmpty

/-- `*ptr`. -/
def deref (lb : LoadBalance) (ptr : HostPtr) : Except Fault HostInfo :=
  match lb.hosts[ptr]? with
  | some (some host) => .ok host
  | _ => .error .deleted

/-- `get_host_from_list`.  The list is passed by value: what `pop_front` and `push_back` do to it is
lost. -/
def getHostFromList (lb : LoadBalance) (resp : GetHostResponse) :
    List HostPtr → Except Fault GetHostResponse
  | [] => .error .outOfBounds
  | ptr :: _ => do
      let host ← lb.deref ptr
      return { resp with host := some { ip := host.ip.toInt32, port := host.port } }

/-- `load_balance::choice_one_host`. -/
def choiceOneHost (lb : LoadBalance) (resp : GetHostResponse) :
    Except Fault (RetCode × GetHostResponse × LoadBalance) :=
  if lb.idleList.isEmpty then
    if lb.accessCnt ≥ 10 then do
      let lb := { lb with accessCnt := 0 }
      return (.succ, ← lb.getHostFromList resp lb.overloadList, lb)
    else
      .ok (.overload, resp, { lb with accessCnt := lb.accessCnt + 1 })
  else if lb.overloadList.isEmpty then do
    return (.succ, ← lb.getHostFromList resp lb.idleList, lb)
  else if lb.accessCnt ≥ 10 then do
    let lb := { lb with accessCnt := 0 }
    return (.succ, ← lb.getHostFromList resp lb.overloadList, lb)
  else do
    let lb := { lb with accessCnt := lb.accessCnt + 1 }
    return (.succ, ← lb.getHostFromList resp lb.idleList, lb)

/-- `load_balance::pull`: the request it puts on `dns_queue`, and the object. -/
def pull (lb : LoadBalance) : GetRouteRequest × LoadBalance :=
  ({ modid := lb.modid, cmdid := lb.cmdid }, { lb with status := .pulling })

/-- `((uint64_t)h.ip() << 32) + h.port()`; both fields are sign-extended. -/
def hostKey (h : Proto.HostInfo) : UInt64 :=
  (h.ip.toInt64.toUInt64 <<< 32) + h.port.toInt64.toUInt64

/-- The first loop of `load_balance::update`, for one host of the response. -/
def addHost (lb : LoadBalance) (h : Proto.HostInfo) : LoadBalance :=
  if (lb.hostMap.lookup (hostKey h)).isSome then
    { lb with
      -- `_host_map.find(key) != _host_map.end()`
      hosts := lb.hosts ++ [some (HostInfo.new h.ip.toUInt32 h.port 0)]
      hostMap := lb.hostMap.insert (hostKey h) lb.hosts.length
      idleList := lb.idleList ++ [lb.hosts.length] }
  else
    lb

/-- The last loop of `load_balance::update`, for one key of `need_delete`.  The entry of `_host_map`
stays. -/
def deleteHost (lb : LoadBalance) (key : UInt64) : Except Fault LoadBalance :=
  match lb.hostMap.lookup key with
  | none => .error .deleted
  | some ptr => do
      let host ← lb.deref ptr
      let lb :=
        if host.overload then
          { lb with overloadList := lb.overloadList.filter fun other => other ≠ ptr }
        else
          { lb with idleList := lb.idleList.filter fun other => other ≠ ptr }
      return { lb with hosts := lb.hosts.set ptr none }

/-- `load_balance::update`. -/
def update (lb : LoadBalance) (resp : GetRouteResponse) : Except Fault LoadBalance := do
  assert (resp.host.length ≠ 0)
  let remoteHosts := resp.host.map hostKey
  let lb := resp.host.foldl addHost lb
  let needDelete := (lb.hostMap.keys.filter fun key => key ∉ remoteHosts).insertionSort (· ≤ ·)
  needDelete.foldlM deleteHost lb

/-! ## An object without hosts stays without -/

/-- The state in which the constructor leaves the containers. -/
structure Hostless (lb : LoadBalance) : Prop where
  hostMap : lb.hostMap = ∅
  idleList : lb.idleList = []
  overloadList : lb.overloadList = []

theorem Hostless.empty {lb : LoadBalance} (h : lb.Hostless) : lb.empty = true := by
  simp [LoadBalance.empty, h.idleList, h.overloadList]

/-- The test in the loop is the wrong way round: only a host that is known already is entered. -/
theorem Hostless.addHost {lb : LoadBalance} (h : lb.Hostless) (host : Proto.HostInfo) :
    lb.addHost host = lb := by
  simp [LoadBalance.addHost, h.hostMap]

/-- Whatever the response lists, `update` enters nothing. -/
theorem Hostless.update {lb : LoadBalance} (h : lb.Hostless) {resp : GetRouteResponse}
    (hresp : resp.host ≠ []) : lb.update resp = .ok lb := by
  have hadd : resp.host.foldl LoadBalance.addHost lb = lb := by
    generalize resp.host = hosts
    induction hosts with
    | nil =>
        rfl
    | cons host hosts ih =>
        rw [List.foldl_cons, h.addHost host]
        exact ih
  have hsome : assert (resp.host.length ≠ 0) = .ok () := by simp [assert, hresp]
  -- so there is nothing to delete either
  have hkeys : lb.hostMap.keys = [] := by simp [h.hostMap]
  simp only [LoadBalance.update, hsome, hadd, hkeys, ok_bind]
  rfl

end LoadBalance
end Agent
end Rins
