import Rins.Agent.RouteLb
import Rins.Lib.Run

/-!
# PullProtocol — one request for every key that is entered

The UDP threads call `get_host` and the DNS client's thread calls `update_host` on the same
`route_lb`, whose mutex makes every call one step.  Beside the object there is the history of its
calls: what went to `dns_queue`, and how often each key came into `_route_map` and was removed from
it, counted on the map itself and not in the branches of the methods.
-/

namespace Rins
namespace Agent

open Dns (routeKey routeKey_inj)
open Lib
open Proto (GetHostResponse GetRouteRequest GetRouteResponse RetCode)
open Reactor

/-- The key is in `_route_map`. -/
def RouteLb.holds (r : RouteLb) (key : UInt64) : Bool :=
  (r.routeMap key).isSome

structure PullLog where
  routeLb : RouteLb
  /-- history: the requests put on `dns_queue` -/
  sent : List GetRouteRequest
  /-- history: how often a call has brought the key into `_route_map` -/
  entered : UInt64 → Nat
  /-- history: how often `update_host` has removed it -/
  removed : UInt64 → Nat

namespace PullLog

def init : PullLog :=
  { routeLb := RouteLb.new
    sent := []
    entered := fun _ => 0
    removed := fun _ => 0 }

inductive Act
  | getHost (modid cmdid : Int32) (resp : GetHostResponse) (garbage : Status × Int)
  | updateHost (modid cmdid : Int32) (resp : GetRouteResponse)

/-- The pair a call is made for. -/
def Act.pair : Act → Int32 × Int32
  | .getHost modid cmdid _ _ => (modid, cmdid)
  | .updateHost modid cmdid _ => (modid, cmdid)

/-- The count of the keys that `r'` has and `r` has not goes up. -/
def tally (r r' : RouteLb) (count : UInt64 → Nat) : UInt64 → Nat :=
  fun key => if r.holds key = false ∧ r'.holds key = true then count key + 1 else count key

/-- A call that does not return has no next state. -/
def step (s : PullLog) : Act → Option PullLog
  | .getHost modid cmdid resp garbage =>
      match s.routeLb.getHost modid cmdid resp garbage with
      | .error _ => none
      | .ok out => some {
          routeLb := out.routeLb
          sent := s.sent ++ out.sent
          entered := tally s.routeLb out.routeLb s.entered
          removed := s.removed }
  | .updateHost modid cmdid resp =>
      match s.routeLb.updateHost modid cmdid resp with
      | .error _ => none
      | .ok r => some {
          routeLb := r
          sent := s.sent
          entered := tally s.routeLb r s.entered
          removed := tally r s.routeLb s.removed }

/-! ## What a call does -/

theorem holds_set (r : RouteLb) (key key' : UInt64) (lb : Option LoadBalance) :
    (r.set key lb).holds key' = if key' = key then lb.isSome else r.holds key' := by
  by_cases hkey : key' = key
  · subst hkey
    simp [RouteLb.holds, RouteLb.set]
  · simp [RouteLb.holds, RouteLb.set, hkey]

theorem tally_self (r : RouteLb) (count : UInt64 → Nat) : tally r r count = count := by
  funext key
  unfold tally
  rw [if_neg]
  rintro ⟨hno, hyes⟩
  rw [hno] at hyes
  cases hyes

/-- The object as `get_host` enters it. -/
def pulling (modid cmdid : Int32) (garbage : Status × Int) : LoadBalance :=
  (LoadBalance.new modid cmdid garbage.1 garbage.2).pull.2

/-- While all the objects wait, `get_host` enters an unknown key, and nothing else ever happens. -/
theorem getHost_of_waiting {r : RouteLb} (h : r.Waiting) (modid cmdid : Int32)
    (resp : GetHostResponse) (garbage : Status × Int) :
    ∃ out, r.getHost modid cmdid resp garbage = .ok out ∧
      ((r.holds (routeKey modid cmdid) = true ∧ out.routeLb = r ∧ out.sent = []) ∨
        (r.holds (routeKey modid cmdid) = false ∧
          out.routeLb = r.set (routeKey modid cmdid) (some (pulling modid cmdid garbage)) ∧
          out.sent = [{ modid := modid, cmdid := cmdid }])) := by
  unfold RouteLb.getHost RouteLb.holds
  dsimp only
  cases hlb : r.routeMap (routeKey modid cmdid) with
  | some lb =>
      rcases h _ lb hlb with ⟨hhostless, hstatus⟩
      simp only [hhostless.empty, hstatus, if_true, decide_true, assert_true, ok_bind]
      exact ⟨_, rfl, Or.inl ⟨rfl, rfl, rfl⟩⟩
  | none =>
      exact ⟨_, rfl, Or.inr ⟨rfl, rfl, rfl⟩⟩

/-! ## The invariant -/

structure Inv (s : PullLog) : Prop where
  waiting : s.routeLb.Waiting
  requested : ∀ modid cmdid,
    s.sent.count { modid := modid, cmdid := cmdid } = s.entered (routeKey modid cmdid)
  balance : ∀ key, s.entered key = s.removed key + (s.routeLb.holds key).toNat

theorem init_inv : init.Inv where
  waiting := RouteLb.new_waiting
  requested _ _ := rfl
  balance _ := rfl

/-- Everything a call does to the log, for the pair it is made for. -/
inductive Move (s : PullLog) (modid cmdid : Int32) : PullLog → Prop
  | nothing : Move s modid cmdid s
  | enter (garbage : Status × Int) (habsent : s.routeLb.holds (routeKey modid cmdid) = false) :
      Move s modid cmdid {
        routeLb := s.routeLb.set (routeKey modid cmdid) (some (pulling modid cmdid garbage))
        sent := s.sent ++ [{ modid := modid, cmdid := cmdid }]
        entered := Function.update s.entered (routeKey modid cmdid)
          (s.entered (routeKey modid cmdid) + 1)
        removed := s.removed }
  | remove (hpresent : s.routeLb.holds (routeKey modid cmdid) = true) :
      Move s modid cmdid {
        routeLb := s.routeLb.set (routeKey modid cmdid) none
        sent := s.sent
        entered := s.entered
        removed := Function.update s.removed (routeKey modid cmdid)
          (s.removed (routeKey modid cmdid) + 1) }

/-- A key that comes is counted, and the others are not. -/
theorem tally_enter {r : RouteLb} {key : UInt64} (habsent : r.holds key = false)
    (lb : LoadBalance) (count : UInt64 → Nat) :
    tally r (r.set key (some lb)) count = Function.update count key (count key + 1) := by
  funext key'
  by_cases hkey : key' = key
  · subst hkey
    simp [tally, holds_set, habsent]
  · simp [tally, holds_set, hkey]

theorem tally_remove {r : RouteLb} {key : UInt64} (hpresent : r.holds key = true)
    (count : UInt64 → Nat) :
    tally (r.set key none) r count = Function.update count key (count key + 1) := by
  funext key'
  by_cases hkey : key' = key
  · subst hkey
    simp [tally, holds_set, hpresent]
  · simp [tally, holds_set, hkey]

/-- A removed key is none that has come. -/
theorem tally_set_none (r : RouteLb) (key : UInt64) (count : UInt64 → Nat) :
    tally r (r.set key none) count = count := by
  funext key'
  by_cases hkey : key' = key
  · subst hkey
    simp [tally, holds_set]
  · simp [tally, holds_set, hkey]

theorem set_none_of_absent {r : RouteLb} {key : UInt64} (habsent : r.holds key = false) :
    r.set key none = r := by
  have hnone : r.routeMap key = none := by simpa [RouteLb.holds] using habsent
  rw [← hnone]
  simp [RouteLb.set]

theorem step_move {s : PullLog} (h : s.Inv) (a : Act) :
    ∃ t, s.step a = some t ∧ Move s a.pair.1 a.pair.2 t := by
  cases a with
  | getHost modid cmdid resp garbage =>
      rcases getHost_of_waiting h.waiting modid cmdid resp garbage with ⟨out, hget, hout⟩
      simp only [step, hget, Option.some.injEq, exists_eq_left']
      rcases hout with ⟨_, hsame, hsent⟩ | ⟨habsent, hentered, hsent⟩
      · rw [hsame, hsent, tally_self, List.append_nil]
        exact .nothing
      · rw [hentered, hsent, tally_enter habsent]
        exact .enter garbage habsent
  | updateHost modid cmdid resp =>
      simp only [step, h.waiting.updateHost_eq modid cmdid resp, Option.some.injEq,
        exists_eq_left']
      by_cases hhosts : resp.host = []
      · simp only [hhosts, if_true, tally_set_none]
        cases hkey : s.routeLb.holds (routeKey modid cmdid) with
        | true =>
            rw [tally_remove hkey]
            exact .remove hkey
        | false =>
            -- nobody waits for this answer
            rw [set_none_of_absent hkey, tally_self]
            exact .nothing
      · simp only [hhosts, if_false, tally_self]
        exact .nothing

/-! ## Every run -/

theorem Move.inv {s t : PullLog} {modid cmdid : Int32} (hmove : Move s modid cmdid t)
    (h : s.Inv) : t.Inv := by
  cases hmove with
  | nothing => exact h
  | enter garbage habsent =>
      refine ⟨?_, ?_, ?_⟩
      · intro key lb hlb
        by_cases hkey : key = routeKey modid cmdid
        · subst hkey
          simp only [RouteLb.set, Function.update_self, Option.some.injEq] at hlb
          subst hlb
          exact ⟨⟨rfl, rfl, rfl⟩, rfl⟩
        · exact h.waiting key lb (by simpa [RouteLb.set, hkey] using hlb)
      · intro modid' cmdid'
        rw [List.count_append, h.requested]
        by_cases hpair : modid' = modid ∧ cmdid' = cmdid
        · rcases hpair with ⟨rfl, rfl⟩
          simp
        · -- two pairs have two keys
          have hkey : routeKey modid' cmdid' ≠ routeKey modid cmdid :=
            fun heq => hpair (routeKey_inj heq)
          have hreq : ({ modid := modid, cmdid := cmdid } : GetRouteRequest) ≠
              { modid := modid', cmdid := cmdid' } := by
            intro heq
            cases heq
            exact hpair ⟨rfl, rfl⟩
          simp [hkey, hreq]
      · intro key
        have hbalance := h.balance key
        by_cases hkey : key = routeKey modid cmdid
        · subst hkey
          rw [habsent] at hbalance
          simpa [holds_set] using hbalance
        · simpa [holds_set, hkey] using hbalance
  | remove hpresent =>
      refine ⟨h.waiting.set_none _, h.requested, ?_⟩
      intro key
      have hbalance := h.balance key
      by_cases hkey : key = routeKey modid cmdid
      · subst hkey
        rw [hpresent] at hbalance
        simpa [holds_set] using hbalance
      · simpa [holds_set, hkey] using hbalance

/-- A call leaves the entries of the other pairs alone. -/
theorem Move.frame {s t : PullLog} {modid cmdid : Int32} (hmove : Move s modid cmdid t)
    {modid' cmdid' : Int32} (hpair : (modid', cmdid') ≠ (modid, cmdid)) :
    t.routeLb.routeMap (routeKey modid' cmdid') = s.routeLb.routeMap (routeKey modid' cmdid') := by
  have hkey : routeKey modid' cmdid' ≠ routeKey modid cmdid := by
    intro heq
    rcases routeKey_inj heq with ⟨rfl, rfl⟩
    exact hpair rfl
  cases hmove with
  | nothing => rfl
  | enter garbage habsent => simp [RouteLb.set, hkey]
  | remove hpresent => simp [RouteLb.set, hkey]

theorem run_inv (acts : List Act) {s : PullLog} (h : s.Inv) :
    ∃ t, run step s acts = some t ∧ t.Inv := by
  induction acts generalizing s with
  | nil => exact ⟨s, rfl, h⟩
  | cons a acts ih =>
      rcases step_move h a with ⟨m, hstep, hmove⟩
      rcases ih (hmove.inv h) with ⟨t, hrun, ht⟩
      exact ⟨t, run_cons.2 ⟨m, hstep, hrun⟩, ht⟩

/-- Every sequence of calls returns, and in the state it leaves: an object without hosts is
`PULLING`, so that the assertion in `get_host` holds; as many requests were sent for a pair as its
key was entered, which is once more than it was removed if it is there, and as often if it is not;
and no call changes the entry of another pair. -/
theorem pulls_balanced (acts : List Act) :
    ∃ s, run step init acts = some s ∧
      (∀ key lb, s.routeLb.routeMap key = some lb → lb.empty = true → lb.status = .pulling) ∧
      (∀ modid cmdid resp garbage,
        s.routeLb.getHost modid cmdid resp garbage ≠ .error .assertFailed) ∧
      (∀ modid cmdid,
        s.sent.count { modid := modid, cmdid := cmdid } = s.entered (routeKey modid cmdid) ∧
        s.entered (routeKey modid cmdid) = s.removed (routeKey modid cmdid) +
          if s.routeLb.routeMap (routeKey modid cmdid) ≠ none then 1 else 0) ∧
      ∀ a t, s.step a = some t → ∀ modid cmdid, (modid, cmdid) ≠ a.pair →
        t.routeLb.routeMap (routeKey modid cmdid) = s.routeLb.routeMap (routeKey modid cmdid) := by
  rcases run_inv acts init_inv with ⟨s, hrun, h⟩
  refine ⟨s, hrun, ?_, ?_, ?_, ?_⟩
  · intro key lb hlb _
    exact (h.waiting key lb hlb).2
  · intro modid cmdid resp garbage hfail
    rcases getHost_of_waiting h.waiting modid cmdid resp garbage with ⟨out, hget, _⟩
    rw [hget] at hfail
    cases hfail
  · intro modid cmdid
    refine ⟨h.requested modid cmdid, ?_⟩
    rw [h.balance, RouteLb.holds]
    cases s.routeLb.routeMap (routeKey modid cmdid) <;> rfl
  · intro a t hstep modid cmdid hpair
    rcases step_move h a with ⟨t', hstep', hmove⟩
    rw [hstep] at hstep'
    cases hstep'
    exact hmove.frame hpair

end PullLog
end Agent
end Rins
