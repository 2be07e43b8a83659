import Rins.Agent.LoadBalance
import Rins.Dns.Route

/-!
# RouteLb — the routes an agent knows

A `route_lb` maps a packed `(modid, cmdid)` to its `load_balance`.  Both methods hold its mutex from
beginning to end.  A key enters the map together with a request on `dns_queue`, and leaves it when a
response without hosts arrives.
-/

namespace Rins
namespace Agent

open Dns (routeKey)
open Proto (GetHostResponse GetRouteRequest GetRouteResponse RetCode)
open Reactor

/-- `route_lb`, by its `_route_map`. -/
structure RouteLb where
  routeMap : UInt64 → Option LoadBalance

namespace RouteLb

def new : RouteLb :=
  { routeMap := fun _ => none }

def set (r : RouteLb) (key : UInt64) (lb : Option LoadBalance) : RouteLb :=
  { routeMap := Function.update r.routeMap key lb }

/-- What `get_host` leaves behind: its return value, the response, the object and what it has put on
`dns_queue`. -/
structure HostOutcome where
  ret : RetCode
  resp : GetHostResponse
  routeLb : RouteLb
  sent : List GetRouteRequest

/-- `route_lb::get_host`; `garbage` is what the memory of a new `load_balance` holds in the members
that its constructor does not set. -/
def getHost (r : RouteLb) (modid cmdid : Int32) (resp : GetHostResponse) (garbage : Status × Int) :
    Except Fault HostOutcome :=
  let key := routeKey modid cmdid
  match r.routeMap key with
  | some lb =>
      if lb.empty then do
        assert (lb.status = .pulling)
        return {
          ret := .succ
          resp := { resp with retcode := RetCode.noexist.num }
          routeLb := r
          sent := [] }
      else do
        let (ret, resp, lb) ← lb.choiceOneHost resp
        return {
          ret := ret
          resp := { resp with retcode := ret.num }
          routeLb := r.set key (some lb)
          sent := [] }
  | none =>
      -- the key is entered whether or not its request ever gets through
      let (req, lb) := (LoadBalance.new modid cmdid garbage.1 garbage.2).pull
      .ok {
        ret := .noexist
        resp := { resp with retcode := RetCode.noexist.num }
        routeLb := r.set key (some lb)
        sent := [req] }

/-- `route_lb::update_host`. -/
def updateHost (r : RouteLb) (modid cmdid : Int32) (resp : GetRouteResponse) :
    Except Fault RouteLb :=
  let key := routeKey modid cmdid
  match r.routeMap key with
  | none => .ok r
  | some lb =>
      if resp.host.length = 0 then
        .ok (r.set key none)
      else do
        let lb ← lb.update resp
        return r.set key (some lb)

/-! ## What the methods do to the keys -/

theorem set_routeMap_ne_none {r : RouteLb} {key key' : UInt64} {lb : Option LoadBalance}
    (h : (r.set key lb).routeMap key' ≠ none) :
    (key' = key ∧ lb ≠ none) ∨ (key' ≠ key ∧ r.routeMap key' ≠ none) := by
  by_cases hkey : key' = key
  · subst hkey
    exact Or.inl ⟨rfl, by simpa [set] using h⟩
  · exact Or.inr ⟨hkey, by simpa [set, hkey] using h⟩

/-- A key that `get_host` enters has its request on `dns_queue`. -/
theorem getHost_keys {r : RouteLb} {modid cmdid : Int32} {resp : GetHostResponse}
    {garbage : Status × Int} {out : HostOutcome}
    (h : r.getHost modid cmdid resp garbage = .ok out) {key : UInt64}
    (hkey : out.routeLb.routeMap key ≠ none) :
    r.routeMap key ≠ none ∨
      (key = routeKey modid cmdid ∧ out.sent = [{ modid := modid, cmdid := cmdid }]) := by
  unfold getHost at h
  dsimp only at h
  split at h
  · next lb hlb =>
      split_ifs at h with hempty
      · rcases bind_eq_ok.1 h with ⟨_, _, hout⟩
        cases hout
        exact Or.inl hkey
      · rcases bind_eq_ok.1 h with ⟨⟨ret, resp', lb'⟩, _, hout⟩
        cases hout
        left
        rcases set_routeMap_ne_none hkey with ⟨rfl, _⟩ | ⟨_, hold⟩
        · simp [hlb]
        · exact hold
  · next hnone =>
      cases h
      rcases set_routeMap_ne_none hkey with ⟨rfl, _⟩ | ⟨_, hold⟩
      · exact Or.inr ⟨rfl, rfl⟩
      · exact Or.inl hold

/-- `update_host` enters no key, and erases the one it is called for if there are no hosts. -/
theorem updateHost_keys {r r' : RouteLb} {modid cmdid : Int32} {resp : GetRouteResponse}
    (h : r.updateHost modid cmdid resp = .ok r') {key : UInt64} (hkey : r'.routeMap key ≠ none) :
    r.routeMap key ≠ none ∧ ¬ (key = routeKey modid cmdid ∧ resp.host = []) := by
  unfold updateHost at h
  dsimp only at h
  split at h
  · next hnone =>
      cases h
      refine ⟨hkey, ?_⟩
      rintro ⟨rfl, _⟩
      exact hkey hnone
  · next lb hlb =>
      split_ifs at h with hempty
      · cases h
        rcases set_routeMap_ne_none hkey with ⟨_, hne⟩ | ⟨hother, hold⟩
        · exact absurd rfl hne
        · exact ⟨hold, fun hsame => hother hsame.1⟩
      · rcases bind_eq_ok.1 h with ⟨lb', _, hout⟩
        cases hout
        have hhosts : resp.host ≠ [] := fun hnil => hempty (by simp [hnil])
        refine ⟨?_, fun hsame => hhosts hsame.2⟩
        rcases set_routeMap_ne_none hkey with ⟨rfl, _⟩ | ⟨_, hold⟩
        · simp [hlb]
        · exact hold

/-! ## The hosts never come -/

/-- Every `load_balance` is as `get_host` has made it: without hosts, and waiting for them. -/
def Waiting (r : RouteLb) : Prop :=
  ∀ key lb, r.routeMap key = some lb → lb.Hostless ∧ lb.status = .pulling

theorem new_waiting : new.Waiting := by
  intro key lb h
  cases h

theorem Waiting.set_none {r : RouteLb} (h : r.Waiting) (key : UInt64) :
    (r.set key none).Waiting := by
  intro key' lb hlb
  by_cases hkey : key' = key
  · subst hkey
    simp [set] at hlb
  · exact h key' lb (by simpa [set, hkey] using hlb)

theorem Waiting.getHost {r : RouteLb} (h : r.Waiting) {modid cmdid : Int32}
    {resp : GetHostResponse} {garbage : Status × Int} {out : HostOutcome}
    (hget : r.getHost modid cmdid resp garbage = .ok out) : out.routeLb.Waiting := by
  unfold RouteLb.getHost at hget
  dsimp only at hget
  split at hget
  · next lb hlb =>
      rw [if_pos (h _ lb hlb).1.empty] at hget
      rcases bind_eq_ok.1 hget with ⟨_, _, hout⟩
      cases hout
      exact h
  · next hnone =>
      cases hget
      intro key lb hlb
      by_cases hkey : key = routeKey modid cmdid
      · subst hkey
        simp only [set, Function.update_self, Option.some.injEq] at hlb
        subst hlb
        exact ⟨⟨rfl, rfl, rfl⟩, rfl⟩
      · exact h key lb (by simpa [set, hkey] using hlb)

/-- All that `update_host` ever does is to erase the key when there are no hosts. -/
theorem Waiting.updateHost_eq {r : RouteLb} (h : r.Waiting) (modid cmdid : Int32)
    (resp : GetRouteResponse) :
    r.updateHost modid cmdid resp =
      .ok (if resp.host = [] then r.set (routeKey modid cmdid) none else r) := by
  have hself : ∀ key, r.set key (r.routeMap key) = r := fun key => by
    simp [set, Function.update_eq_self]
  unfold updateHost
  dsimp only
  split
  · next hnone =>
      split_ifs
      · rw [← hnone, hself]
      · rfl
  · next lb hlb =>
      by_cases hempty : resp.host = []
      · simp [hempty]
      · have hlen : resp.host.length ≠ 0 := by simpa using hempty
        rw [if_neg hlen, if_neg hempty, (h _ lb hlb).1.update hempty, ok_bind, ← hlb, hself]
        rfl

end RouteLb
end Agent
end Rins
