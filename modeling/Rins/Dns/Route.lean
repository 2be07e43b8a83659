import Mathlib.Data.Finset.Insert
import Mathlib.Logic.Function.Basic
import Mathlib.Tactic.Common

/-!
# Route — the route table of the DNS service and its database

`route` keeps two tables: `_data_map`, which answers requests, and `_temp_map`, into which the whole
of `RouteData` is loaded before the two are swapped.  A table maps a packed `(modid, cmdid)` to a
set of packed `(ip, port)`.

The functions that query the database take the outcome of the query as an argument: `ok = false`
stands for a failing `mysql_real_query` or `mysql_store_result`, which they treat alike.
-/

namespace Rins
namespace Dns

/-! ## Packed keys -/

/-- `((uint64_t)modid << 32) + cmdid`; both `int`s are sign-extended. -/
def routeKey (modid cmdid : Int32) : UInt64 :=
  (modid.toInt64.toUInt64 <<< 32) + cmdid.toInt64.toUInt64

/-- `int(st >> 32)`. -/
def modidOf (st : UInt64) : Int32 :=
  (st >>> 32).toUInt32.toInt32

/-- `int cmdid = st`. -/
def cmdidOf (st : UInt64) : Int32 :=
  st.toUInt32.toInt32

theorem toNat_routeKey {modid cmdid : Int32} (h : 0 ≤ cmdid.toInt) :
    (routeKey modid cmdid).toNat = modid.toUInt32.toNat * 4294967296 + cmdid.toUInt32.toNat := by
  have hmsb : cmdid.toBitVec.msb = false := by
    rw [BitVec.msb_eq_toInt]
    simpa using h
  have hm : modid.toBitVec.toNat < 4294967296 := modid.toBitVec.isLt
  have hc : cmdid.toBitVec.toNat < 4294967296 := cmdid.toBitVec.isLt
  show (modid.toBitVec.signExtend 64 <<< 32 + cmdid.toBitVec.signExtend 64).toNat =
    modid.toBitVec.toNat * 4294967296 + cmdid.toBitVec.toNat
  rw [BitVec.signExtend_eq_setWidth_of_msb_false hmsb, BitVec.toNat_add, BitVec.toNat_shiftLeft,
    BitVec.toNat_signExtend, BitVec.toNat_setWidth, BitVec.toNat_setWidth, Nat.shiftLeft_eq]
  split <;> omega

/-- Packing a pair with `cmdid >= 0` loses nothing.  With a negative `cmdid` the sign bits reach
into the upper half, and `modid - 1` comes back. -/
theorem unpack_routeKey (modid : Int32) {cmdid : Int32} (h : 0 ≤ cmdid.toInt) :
    modidOf (routeKey modid cmdid) = modid ∧ cmdidOf (routeKey modid cmdid) = cmdid := by
  have hkey : (routeKey modid cmdid).toNat =
      modid.toUInt32.toNat * 4294967296 + cmdid.toUInt32.toNat := toNat_routeKey h
  have hm : modid.toUInt32.toNat < 4294967296 := modid.toUInt32.toNat_lt
  have hc : cmdid.toUInt32.toNat < 4294967296 := cmdid.toUInt32.toNat_lt
  constructor
  · have hmod : (routeKey modid cmdid >>> 32).toUInt32 = modid.toUInt32 := by
      apply UInt32.toNat_inj.1
      have hshift : (32 : UInt64).toNat % 64 = 32 := rfl
      rw [UInt64.toNat_toUInt32, UInt64.toNat_shiftRight, hkey, hshift, Nat.shiftRight_eq_div_pow]
      omega
    rw [modidOf, hmod, Int32.toInt32_toUInt32]
  · have hcmd : (routeKey modid cmdid).toUInt32 = cmdid.toUInt32 := by
      apply UInt32.toNat_inj.1
      rw [UInt64.toNat_toUInt32, hkey]
      omega
    rw [cmdidOf, hcmd, Int32.toInt32_toUInt32]

example : modidOf (routeKey 3 (-4)) = 2 := by decide

/-- The lower half comes back whatever the sign. -/
theorem cmdidOf_routeKey (modid cmdid : Int32) : cmdidOf (routeKey modid cmdid) = cmdid := by
  have hcmd : (routeKey modid cmdid).toUInt32 = cmdid.toUInt32 := by
    apply UInt32.toNat_inj.1
    have hc : cmdid.toBitVec.toNat < 4294967296 := cmdid.toBitVec.isLt
    rw [UInt64.toNat_toUInt32]
    show (modid.toBitVec.signExtend 64 <<< 32 + cmdid.toBitVec.signExtend 64).toNat % 4294967296 =
      cmdid.toBitVec.toNat
    rw [BitVec.toNat_add, BitVec.toNat_shiftLeft, BitVec.toNat_signExtend cmdid.toBitVec,
      BitVec.toNat_setWidth, Nat.shiftLeft_eq]
    split <;> omega
  rw [cmdidOf, hcmd, Int32.toInt32_toUInt32]

/-- A negative `cmdid` borrows from the upper half. -/
theorem modidOf_routeKey_of_neg {modid cmdid : Int32} (h : cmdid.toInt < 0) :
    modidOf (routeKey modid cmdid) = modid - 1 := by
  have hmsb : cmdid.toBitVec.msb = true := by
    rw [BitVec.msb_eq_toInt]
    simpa using h
  have hm : modid.toBitVec.toNat < 4294967296 := modid.toBitVec.isLt
  have hc : cmdid.toBitVec.toNat < 4294967296 := cmdid.toBitVec.isLt
  have hkey : (routeKey modid cmdid).toNat =
      (modid.toBitVec.toNat * 4294967296 + cmdid.toBitVec.toNat + 18446744069414584320) %
        18446744073709551616 := by
    show (modid.toBitVec.signExtend 64 <<< 32 + cmdid.toBitVec.signExtend 64).toNat = _
    rw [BitVec.toNat_add, BitVec.toNat_shiftLeft, BitVec.toNat_signExtend,
      BitVec.toNat_signExtend, BitVec.toNat_setWidth, BitVec.toNat_setWidth, Nat.shiftLeft_eq,
      if_pos hmsb]
    split <;> omega
  have hmod : (routeKey modid cmdid >>> 32).toUInt32 = (modid - 1).toUInt32 := by
    apply UInt32.toNat_inj.1
    have hshift : (32 : UInt64).toNat % 64 = 32 := rfl
    have hsub : (modid - 1).toUInt32.toNat =
        (4294967296 - 1 + modid.toBitVec.toNat) % 4294967296 := by
      show (modid.toBitVec - 1#32).toNat = _
      rw [BitVec.toNat_sub]
      rfl
    rw [UInt64.toNat_toUInt32, UInt64.toNat_shiftRight, hkey, hshift, Nat.shiftRight_eq_div_pow,
      hsub]
    omega
  rw [modidOf, hmod, Int32.toInt32_toUInt32]

/-- No two pairs share a packed value, whatever their signs. -/
theorem routeKey_inj {modid cmdid modid' cmdid' : Int32}
    (h : routeKey modid cmdid = routeKey modid' cmdid') : modid = modid' ∧ cmdid = cmdid' := by
  have hcmdid : cmdid = cmdid' := by
    rw [← cmdidOf_routeKey modid cmdid, h, cmdidOf_routeKey]
  refine ⟨?_, hcmdid⟩
  subst hcmdid
  have hshift : modid.toInt64.toUInt64 <<< 32 = modid'.toInt64.toUInt64 <<< 32 := by
    unfold routeKey at h
    exact (UInt64.add_left_inj _).1 h
  have hbits : modid.toBitVec.signExtend 64 <<< 32 = modid'.toBitVec.signExtend 64 <<< 32 :=
    congrArg UInt64.toBitVec hshift
  apply Int32.toBitVec_inj.1
  apply BitVec.eq_of_toNat_eq
  have hm := modid.toBitVec.isLt
  have hm' := modid'.toBitVec.isLt
  have hnat := congrArg BitVec.toNat hbits
  rw [BitVec.toNat_shiftLeft, BitVec.toNat_shiftLeft, BitVec.toNat_signExtend,
    BitVec.toNat_signExtend, BitVec.toNat_setWidth, BitVec.toNat_setWidth, Nat.shiftLeft_eq,
    Nat.shiftLeft_eq] at hnat
  split at hnat <;> split at hnat <;> omega

/-- Every packed value whose lower half is not negative is the packing of its halves. -/
theorem routeKey_unpack {st : UInt64} (h : 0 ≤ (cmdidOf st).toInt) :
    routeKey (modidOf st) (cmdidOf st) = st := by
  apply UInt64.toNat_inj.1
  have hst : st.toNat < 18446744073709551616 := st.toNat_lt
  have hmod : (modidOf st).toUInt32.toNat = st.toNat / 4294967296 := by
    have hshift : (32 : UInt64).toNat % 64 = 32 := rfl
    rw [modidOf, UInt32.toUInt32_toInt32, UInt64.toNat_toUInt32, UInt64.toNat_shiftRight, hshift,
      Nat.shiftRight_eq_div_pow]
    omega
  have hcmd : (cmdidOf st).toUInt32.toNat = st.toNat % 4294967296 := by
    rw [cmdidOf, UInt32.toUInt32_toInt32, UInt64.toNat_toUInt32]
  rw [toNat_routeKey h, hmod, hcmd]
  omega

/-! ## The tables -/

/-- A row of `RouteData`, after `atoi`. -/
structure RouteRow where
  modid : Int32
  cmdid : Int32
  ip : UInt32
  port : Int32
  deriving DecidableEq, Repr

def RouteRow.key (row : RouteRow) : UInt64 :=
  routeKey row.modid row.cmdid

/-- `((uint64_t)ip << 32) + port`. -/
def RouteRow.value (row : RouteRow) : UInt64 :=
  (row.ip.toUInt64 <<< 32) + row.port.toInt64.toUInt64

/-- `std::unordered_map<uint64_t, std::unordered_set<uint64_t>>`: a key that is absent has no hosts,
and no key is ever entered without one. -/
abbrev RouteMap := UInt64 → Finset UInt64

namespace RouteMap

def empty : RouteMap := fun _ => ∅

/-- `(*map)[key].insert(value)` for each row of the result, in order. -/
def ofRows (rows : List RouteRow) : RouteMap :=
  rows.foldl (fun map row => Function.update map row.key (insert row.value (map row.key))) empty

theorem mem_ofRows {rows : List RouteRow} {key value : UInt64} :
    value ∈ ofRows rows key ↔ ∃ row ∈ rows, row.key = key ∧ row.value = value := by
  -- the rows are entered one after the other, into whatever is there already
  have hfold : ∀ (rows : List RouteRow) (map : RouteMap),
      value ∈ rows.foldl (fun map row =>
        Function.update map row.key (insert row.value (map row.key))) map key ↔
        value ∈ map key ∨ ∃ row ∈ rows, row.key = key ∧ row.value = value := by
    intro rows
    induction rows with
    | nil =>
        simp
    | cons row rows ih =>
        intro map
        rw [List.foldl_cons, ih]
        by_cases hkey : row.key = key
        · subst hkey
          simp [or_assoc, or_comm, eq_comm]
        · simp [hkey, Function.update_of_ne (Ne.symm hkey)]
  simpa [ofRows, empty] using hfold rows empty

end RouteMap

/-- A row of `RouteChange`. -/
structure ChangeRow where
  id : Nat
  modid : Int32
  cmdid : Int32
  version : Nat
  deriving DecidableEq, Repr

def ChangeRow.key (row : ChangeRow) : UInt64 :=
  routeKey row.modid row.cmdid

/-- The three tables; `routeVersion` is the version in the row with `id = 1`, if it exists. -/
structure Database where
  routeData : List RouteRow
  routeVersion : Option Nat
  routeChange : List ChangeRow
  /-- the next auto-increment id of `RouteChange` -/
  nextId : Nat

/-! ## The methods of `route` -/

structure Route where
  /-- `_version`, which no constructor sets -/
  version : Nat
  dataMap : RouteMap
  tempMap : RouteMap

namespace Route

/-- `route::build_maps`, called by the constructor, on both tables as they come from `new`.  A query
that fails ends the process. -/
def buildMaps (ok : Bool) (db : Database) (version : Nat) : Option Route :=
  if ok = false then
    none
  else
    some {
      version := version
      dataMap := RouteMap.ofRows db.routeData
      tempMap := RouteMap.empty }

/-- `route::get_hosts`. -/
def getHosts (r : Route) (modid cmdid : Int32) : Finset UInt64 :=
  r.dataMap (routeKey modid cmdid)

/-- `route::load_version`. -/
def loadVersion (ok : Bool) (db : Database) (r : Route) : Int × Route :=
  if ok = false then
    (-1, r)
  else
    match db.routeVersion with
    | none => (-1, r)
    | some newVersion =>
        if newVersion = r.version then (0, r) else (1, { r with version := newVersion })

/-- `route::load_route_data`: an empty table is an error, too. -/
def loadRouteData (ok : Bool) (db : Database) (r : Route) : Int × Route :=
  let r := { r with tempMap := RouteMap.empty }
  if ok = false then
    (-1, r)
  else if db.routeData = [] then
    (-1, r)
  else
    (0, { r with tempMap := RouteMap.ofRows db.routeData })

/-- `route::swap`. -/
def swap (r : Route) : Route :=
  { r with
    dataMap := r.tempMap
    tempMap := r.dataMap }

/-- `route::load_changes`: the rows of the result set, whose keys are the change list. -/
def loadChanges (ok : Bool) (db : Database) (r : Route) : List ChangeRow :=
  if ok = false then [] else db.routeChange.filter fun row => row.version ≤ r.version

/-- `route::remove_changes`. -/
def removeChanges (ok : Bool) (removeAll : Bool) (db : Database) (r : Route) : Database :=
  if ok = false then
    db
  else if removeAll then
    { db with routeChange := [] }
  else
    { db with routeChange := db.routeChange.filter fun row => ¬ row.version ≤ r.version }

/-! ## What a call can do -/

theorem loadVersion_cases (ok : Bool) (db : Database) (r : Route) :
    (∃ v, ok = true ∧ db.routeVersion = some v ∧ v ≠ r.version ∧
        r.loadVersion ok db = (1, { r with version := v })) ∨
      (ok = true ∧ db.routeVersion = some r.version ∧ r.loadVersion ok db = (0, r)) ∨
      ((ok = false ∨ db.routeVersion = none) ∧ r.loadVersion ok db = (-1, r)) := by
  unfold loadVersion
  cases ok with
  | false =>
      simp
  | true =>
      cases hversion : db.routeVersion with
      | none =>
          simp
      | some v =>
          by_cases hsame : v = r.version
          · simp [hsame]
          · simp [hsame]

theorem loadRouteData_cases (ok : Bool) (db : Database) (r : Route) :
    (ok = true ∧ db.routeData ≠ [] ∧
        r.loadRouteData ok db = (0, { r with tempMap := RouteMap.ofRows db.routeData })) ∨
      ((ok = false ∨ db.routeData = []) ∧
        r.loadRouteData ok db = (-1, { r with tempMap := RouteMap.empty })) := by
  unfold loadRouteData
  cases ok with
  | false =>
      simp
  | true =>
      by_cases hempty : db.routeData = []
      · simp [hempty]
      · simp [hempty]

end Route
end Dns
end Rins
