import Mathlib.Data.Finset.Image
import Rins.Dns.Service

/-!
# Answers — what the DNS service tells about a route

The same answer is built in two places: by `get_route` from the pair in the request, and by
`push_change_task` from the packed key of a changed row.  Both go through `get_hosts`, which packs
the pair again.  The answer to a request is what the table says; the pushed one is the same as long
as the key unpacks to the pair that was packed.
-/

namespace Rins
namespace Dns

/-! ## The two answers -/

/-- The response that `get_route` builds. -/
def Route.requested (r : Route) (modid cmdid : Int32) : RouteResponse :=
  RouteResponse.of modid cmdid (r.getHosts modid cmdid)

/-- The response that `push_change_task` builds for one packed key. -/
def Route.pushed (r : Route) (st : UInt64) : RouteResponse :=
  RouteResponse.of (modidOf st) (cmdidOf st) (r.getHosts (modidOf st) (cmdidOf st))

namespace Service

variable {n : Nat}

/-- `get_route` sends the response for the table that it has read, whatever happens before it
sends. -/
theorem sends_requested {s t u : Service n} {w : Fin n} {fd : Int} {modid cmdid : Int32}
    {conn : Conn n} (hpc : (s.workers w).pc = .routing fd modid cmdid)
    (hread : s.getHostsStep w = some t) (hstay : (u.workers w).pc = (t.workers w).pc)
    (hconn : u.conns fd = some conn) :
    u.sendStep w =
      some ((u.setPc w .loop).logOn fd conn (.replied (s.poll.route.requested modid cmdid))) := by
  simp only [getHostsStep, hpc, Option.some.injEq] at hread
  subst hread
  simp only [setPc, setWorker_self] at hstay
  simp only [sendStep, hstay, hconn]
  rfl

/-- So does `push_change_task`. -/
theorem sends_pushed {s t u : Service n} {w : Fin n} {fd : Int} {st : UInt64}
    {todo : List (Int × UInt64)} {conn : Conn n}
    (hpc : (s.workers w).pc = .pushing ((fd, st) :: todo)) (hread : s.getHostsStep w = some t)
    (hstay : (u.workers w).pc = (t.workers w).pc) (hconn : u.conns fd = some conn) :
    u.sendStep w =
      some ((u.setPc w (.pushing todo)).logOn fd conn (.pushed (s.poll.route.pushed st))) := by
  simp only [getHostsStep, hpc, Option.some.injEq] at hread
  subst hread
  simp only [setPc, setWorker_self] at hstay
  simp only [sendStep, hstay, hconn]
  rfl

end Service

/-! ## Do they agree? -/

/-- Two responses say the same: the pair, and the set of hosts. -/
structure RouteResponse.Agrees (a b : RouteResponse) : Prop where
  modid : a.modid = b.modid
  cmdid : a.cmdid = b.cmdid
  hosts : a.hosts.toFinset = b.hosts.toFinset

theorem Route.pushed_eq_requested (r : Route) {modid cmdid : Int32} (h : 0 ≤ cmdid.toInt) :
    r.pushed (routeKey modid cmdid) = r.requested modid cmdid := by
  rcases unpack_routeKey modid h with ⟨hmodid, hcmdid⟩
  rw [Route.pushed, Route.requested, hmodid, hcmdid]

/-- Whatever the table holds, the push for a changed row and the answer to a request for its pair
agree if and only if `cmdid` is not negative. -/
theorem pushed_agrees_iff (r : Route) (change : ChangeRow) :
    (r.pushed change.key).Agrees (r.requested change.modid change.cmdid) ↔
      0 ≤ change.cmdid.toInt := by
  constructor
  · intro hagrees
    by_contra hneg
    -- a negative `cmdid` borrows one from the upper half of the key
    have hmodid : change.modid - 1 = change.modid := by
      rw [← modidOf_routeKey_of_neg (not_le.1 hneg)]
      exact hagrees.modid
    have hbits : change.modid.toBitVec - 1#32 = change.modid.toBitVec :=
      congrArg Int32.toBitVec hmodid
    bv_omega
  · intro hcmdid
    rw [ChangeRow.key, r.pushed_eq_requested hcmdid]
    exact ⟨rfl, rfl, rfl⟩

/-- The row `(3, -4)`, stored as `(3, 4294967292)`: the push goes out for `modid = 2`. -/
theorem pushed_disagrees :
    ¬ ∀ (r : Route) (change : ChangeRow),
      (r.pushed change.key).Agrees (r.requested change.modid change.cmdid) := by
  intro hall
  have hagrees := hall ⟨0, RouteMap.empty, RouteMap.empty⟩ ⟨1, 3, -4, 0⟩
  have hmodid : (2 : Int32) = 3 := hagrees.modid
  exact absurd hmodid (by decide)

/-! ## What the table says -/

/-- A row of `RouteData` as the database stores it: four unsigned columns. -/
structure RouteData where
  modid : UInt32
  cmdid : UInt32
  serverip : UInt32
  serverport : UInt32
  deriving DecidableEq, Repr

/-- `atoi` on the decimal text of an unsigned column: the value modulo `2^32`. -/
def atoi (column : UInt32) : Int32 := column.toInt32

/-- The row as the loops of `build_maps` and `load_route_data` read it. -/
def RouteData.row (data : RouteData) : RouteRow :=
  { modid := atoi data.modid
    cmdid := atoi data.cmdid
    ip := (atoi data.serverip).toUInt32
    port := atoi data.serverport }

/-- The rows have been loaded and are what requests are answered from. -/
def Loaded (table : List RouteData) (r : Route) : Prop :=
  ∃ db : Database, db.routeData = table.map RouteData.row ∧
    ((∃ version, Route.buildMaps true db version = some r) ∨
      ∃ old new : Route, old.loadRouteData true db = (0, new) ∧ r = new.swap)

/-- A host of a response, read back as two unsigned numbers. -/
def readBack (host : Proto.HostInfo) : UInt32 × UInt32 :=
  (host.ip.toUInt32, host.port.toUInt32)

theorem Loaded.dataMap {table : List RouteData} {r : Route} (h : Loaded table r) :
    r.dataMap = RouteMap.ofRows (table.map RouteData.row) := by
  rcases h with ⟨db, hdb, ⟨version, hbuild⟩ | ⟨old, new, hload, rfl⟩⟩
  · simp only [Route.buildMaps, Bool.true_eq_false, if_false, Option.some.injEq] at hbuild
    rw [← hbuild, hdb]
  · -- what was loaded is in `_temp_map`, and `swap` makes it the table of the readers
    rcases old.loadRouteData_cases true db with ⟨_, _, hcase⟩ | ⟨_, hcase⟩
    · rw [hcase] at hload
      cases hload
      show RouteMap.ofRows db.routeData = _
      rw [hdb]
    · rw [hcase] at hload
      cases hload

theorem atoi_inj {column : UInt32} {x : Int32} : atoi column = x ↔ column = x.toUInt32 := by
  unfold atoi
  constructor
  · rintro rfl
    rw [UInt32.toUInt32_toInt32]
  · rintro rfl
    rw [Int32.toInt32_toUInt32]

/-- A row is under the key of a request if and only if it is a row for that pair. -/
theorem RouteData.key_eq_iff {data : RouteData} {modid cmdid : Int32} :
    data.row.key = routeKey modid cmdid ↔
      data.modid = modid.toUInt32 ∧ data.cmdid = cmdid.toUInt32 := by
  constructor
  · intro hkey
    rcases routeKey_inj hkey with ⟨hmodid, hcmdid⟩
    exact ⟨atoi_inj.1 hmodid, atoi_inj.1 hcmdid⟩
  · rintro ⟨hmodid, hcmdid⟩
    have hm : data.row.modid = modid := atoi_inj.2 hmodid
    have hc : data.row.cmdid = cmdid := atoi_inj.2 hcmdid
    rw [RouteRow.key, hm, hc]

/-- Packing an address is packing a pair. -/
theorem RouteRow.value_eq_routeKey (row : RouteRow) :
    row.value = routeKey row.ip.toInt32 row.port := by
  -- `ip` is zero-extended and `modid` sign-extended, which the shift makes no difference to
  have hip : row.ip.toUInt64 <<< 32 = row.ip.toInt32.toInt64.toUInt64 <<< 32 := by
    apply UInt64.toNat_inj.1
    show (row.ip.toBitVec.setWidth 64 <<< 32).toNat = (row.ip.toBitVec.signExtend 64 <<< 32).toNat
    have hlt := row.ip.toBitVec.isLt
    rw [BitVec.toNat_shiftLeft, BitVec.toNat_shiftLeft, BitVec.toNat_signExtend,
      BitVec.toNat_setWidth, Nat.shiftLeft_eq, Nat.shiftLeft_eq]
    split <;> omega
  rw [RouteRow.value, routeKey, hip]

/-- A port below `2^31` comes back, and so does the address. -/
theorem RouteData.readBack_value {data : RouteData} (hport : data.serverport ≤ 65535) :
    readBack (hostOf data.row.value) = (data.serverip, data.serverport) := by
  -- a port does not reach the sign bit, so nothing is borrowed from the address
  have hnonneg : 0 ≤ (atoi data.serverport).toInt := by
    have hnat : data.serverport.toNat ≤ 65535 := by simpa [UInt32.le_iff_toNat_le] using hport
    have hmod : (atoi data.serverport).toInt = (data.serverport.toNat : Int).bmod 4294967296 := by
      show data.serverport.toBitVec.toInt = _
      rw [BitVec.toInt_eq_toNat_bmod]
      rfl
    rw [hmod, Int.bmod_eq_of_le (by omega) (by omega)]
    omega
  have hvalue : data.row.value = routeKey data.serverip.toInt32 (atoi data.serverport) := by
    rw [RouteRow.value_eq_routeKey]
    show routeKey (atoi data.serverip).toUInt32.toInt32 _ = _
    rw [Int32.toInt32_toUInt32]
    rfl
  rcases unpack_routeKey data.serverip.toInt32 hnonneg with ⟨hip, hport'⟩
  rw [hvalue]
  show ((modidOf _).toUInt32, (cmdidOf _).toUInt32) = _
  rw [hip, hport', UInt32.toUInt32_toInt32, atoi, UInt32.toUInt32_toInt32]

/-- No two packed values are read back as the same host. -/
theorem readBack_hostOf_injective : Function.Injective fun value => readBack (hostOf value) := by
  intro value value' h
  have hip : (value >>> 32).toUInt32 = (value' >>> 32).toUInt32 := by
    simpa [readBack, hostOf] using congrArg Prod.fst h
  have hport : value.toUInt32 = value'.toUInt32 := by
    simpa [readBack, hostOf] using congrArg Prod.snd h
  have hshift : (32 : UInt64).toNat % 64 = 32 := rfl
  have hhigh := congrArg UInt32.toNat hip
  have hlow := congrArg UInt32.toNat hport
  rw [UInt64.toNat_toUInt32, UInt64.toNat_toUInt32, UInt64.toNat_shiftRight,
    UInt64.toNat_shiftRight, hshift, Nat.shiftRight_eq_div_pow, Nat.shiftRight_eq_div_pow] at hhigh
  rw [UInt64.toNat_toUInt32, UInt64.toNat_toUInt32] at hlow
  have hlt := value.toNat_lt
  have hlt' := value'.toNat_lt
  apply UInt64.toNat_inj.1
  omega

/-- The hosts in the answer to a request, read back, are the addresses of the rows for its pair,
each of them once. -/
theorem requested_hosts (table : List RouteData)
    (hports : ∀ data ∈ table, data.serverport ≤ 65535) (r : Route) (hloaded : Loaded table r)
    (modid cmdid : Int32) :
    (r.requested modid cmdid).hosts.map readBack =
      ((table.filter fun data => data.modid = modid.toUInt32 ∧ data.cmdid = cmdid.toUInt32).map
        fun data => (data.serverip, data.serverport)).toFinset.val := by
  -- different values are different hosts, so the set of values has become a set of hosts
  have hmap : (r.requested modid cmdid).hosts.map readBack =
      ((r.getHosts modid cmdid).image fun value => readBack (hostOf value)).val := by
    rw [Finset.image_val_of_injOn readBack_hostOf_injective.injOn]
    show Multiset.map readBack (Multiset.map hostOf _) = _
    rw [Multiset.map_map]
    rfl
  rw [hmap]
  congr 1
  ext ⟨ip, port⟩
  simp only [Route.getHosts, hloaded.dataMap, Finset.mem_image, RouteMap.mem_ofRows, List.mem_map,
    List.mem_toFinset, List.mem_filter, decide_eq_true_eq]
  constructor
  · rintro ⟨_, ⟨_, ⟨data, hdata, rfl⟩, hkey, rfl⟩, hread⟩
    rw [data.readBack_value (hports data hdata)] at hread
    exact ⟨data, ⟨hdata, RouteData.key_eq_iff.1 hkey⟩, hread⟩
  · rintro ⟨data, ⟨hdata, hpair⟩, hread⟩
    refine ⟨data.row.value, ⟨data.row, ⟨data, hdata, rfl⟩, ?_, rfl⟩, ?_⟩
    · exact RouteData.key_eq_iff.2 hpair
    · rw [data.readBack_value (hports data hdata), hread]

/-- Four rows, one of them twice and one for another pair, asked for with a negative `cmdid`. -/
theorem requested_hosts_negative :
    ∃ r, Loaded
        [⟨3, 4294967292, 2130706433, 80⟩, ⟨3, 4294967292, 4278190081, 65535⟩,
          ⟨3, 4294967292, 2130706433, 80⟩, ⟨2, 4294967292, 7, 80⟩] r ∧
      (r.requested 3 (-4)).hosts.map readBack = {(2130706433, 80), (4278190081, 65535)} := by
  let table : List RouteData :=
    [⟨3, 4294967292, 2130706433, 80⟩, ⟨3, 4294967292, 4278190081, 65535⟩,
      ⟨3, 4294967292, 2130706433, 80⟩, ⟨2, 4294967292, 7, 80⟩]
  have hloaded : Loaded table ⟨0, RouteMap.ofRows (table.map RouteData.row), RouteMap.empty⟩ :=
    ⟨⟨table.map RouteData.row, none, [], 1⟩, rfl, Or.inl ⟨0, rfl⟩⟩
  refine ⟨_, hloaded, ?_⟩
  rw [requested_hosts table (by decide) _ hloaded]
  decide

end Dns
end Rins
