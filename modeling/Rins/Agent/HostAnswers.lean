import Rins.Agent.HostChoice
import Rins.Agent.RouteLb

/-!
# HostAnswers — the two answers of `route_lb::get_host`

`get_host` answers twice: by its return value, and by the retcode in the response.  The two agree
but for a key whose `load_balance` has no hosts yet: there only the retcode is set, and the return
value is still the `RET_SUCC` it was initialised with.
-/

namespace Rins
namespace Agent

open Dns (routeKey)
open Proto (GetHostResponse RetCode)
open Reactor

namespace LoadBalance

/-- The host that `choice_one_host` is going to name, if it names one. -/
def front (lb : LoadBalance) : Option HostPtr :=
  match lb.source with
  | .idle => lb.idleList.head?
  | .overload => lb.overloadList.head?
  | .nobody => none

/-- That host has not been deleted. -/
def FrontLive (lb : LoadBalance) : Prop :=
  ∀ ptr ∈ lb.front, ∃ host, lb.deref ptr = .ok host

theorem empty_eq_true {lb : LoadBalance} :
    lb.empty = true ↔ lb.idleList = [] ∧ lb.overloadList = [] := by
  simp [empty]

/-- What comes of a call on an object with hosts: one that is there is named, or the call is
refused. -/
theorem choiceOneHost_front {lb : LoadBalance} (hne : ¬ lb.empty = true) (resp : GetHostResponse) :
    (lb.front = none ∧ lb.choiceOneHost resp =
      .ok (.overload, resp, { lb with accessCnt := lb.nextCnt })) ∨
    ∃ ptr, lb.front = some ptr ∧ (ptr ∈ lb.idleList ∨ ptr ∈ lb.overloadList) ∧
      lb.choiceOneHost resp = (do
        let host ← lb.deref ptr
        return (.succ, { resp with host := some (address host) },
          { lb with accessCnt := lb.nextCnt })) := by
  rw [empty_eq_true, not_and_or] at hne
  rcases source_nonempty lb hne with ⟨hidle, hover, _⟩
  rw [choiceOneHost_eq]
  unfold front
  cases hsource : lb.source with
  | nobody => exact .inl ⟨rfl, rfl⟩
  | idle =>
      rcases List.exists_cons_of_ne_nil (hidle hsource) with ⟨ptr, rest, hlist⟩
      refine .inr ⟨ptr, by simp [hlist], .inl (by simp [hlist]), ?_⟩
      simp only [hlist, getHostFromList, bind_assoc]
      rfl
  | overload =>
      rcases List.exists_cons_of_ne_nil (hover hsource) with ⟨ptr, rest, hlist⟩
      refine .inr ⟨ptr, by simp [hlist], .inr (by simp [hlist]), ?_⟩
      simp only [hlist, getHostFromList, bind_assoc]
      rfl

end LoadBalance

namespace RouteLb

/-- The return value and the response say the same, and it is so: nothing exists if the key is
unknown or has no hosts, and a host is named on success only, which is one of the key's. -/
structure Consistent (r : RouteLb) (modid cmdid : Int32) (out : HostOutcome) : Prop where
  ret : out.ret.num = out.resp.retcode
  noexist : out.resp.retcode = RetCode.noexist.num ↔
    ∀ lb, r.routeMap (routeKey modid cmdid) = some lb → lb.idleList = [] ∧ lb.overloadList = []
  host : out.resp.host ≠ none ↔ out.resp.retcode = RetCode.succ.num
  member : ∀ addr, out.resp.host = some addr → ∃ lb ptr host,
    r.routeMap (routeKey modid cmdid) = some lb ∧ (ptr ∈ lb.idleList ∨ ptr ∈ lb.overloadList) ∧
      lb.deref ptr = .ok host ∧ LoadBalance.address host = addr

/-- `get_host` returns with consistent answers. -/
def Answers (r : RouteLb) (modid cmdid : Int32) (resp : GetHostResponse) (garbage : Status × Int) :
    Prop :=
  ∃ out, r.getHost modid cmdid resp garbage = .ok out ∧ r.Consistent modid cmdid out

section Branches

variable {r : RouteLb} {modid cmdid : Int32} {resp : GetHostResponse} {garbage : Status × Int}

theorem answers_of_none (hresp : resp.host = none)
    (hkey : r.routeMap (routeKey modid cmdid) = none) : r.Answers modid cmdid resp garbage := by
  unfold Answers getHost
  simp only [hkey]
  refine ⟨_, rfl, rfl, ?_, ?_, ?_⟩
  · simp [hkey]
  · simp only [hresp, ne_eq, not_true_eq_false, false_iff]
    exact RetCode.num_ne (by decide)
  · intro addr haddr
    rw [show resp.host = some addr from haddr] at hresp
    cases hresp

/-- The branch for an object without hosts sets the retcode and not the return value. -/
theorem not_answers_of_empty {lb : LoadBalance}
    (hkey : r.routeMap (routeKey modid cmdid) = some lb) (hempty : lb.empty = true) :
    ¬ r.Answers modid cmdid resp garbage := by
  rintro ⟨out, hget, hconsistent⟩
  simp only [getHost, hkey, hempty, if_true] at hget
  rcases bind_eq_ok.1 hget with ⟨_, _, hout⟩
  cases hout
  exact RetCode.num_ne (a := .succ) (b := .noexist) (by decide) hconsistent.ret

theorem answers_iff_of_hosts (hresp : resp.host = none) {lb : LoadBalance}
    (hkey : r.routeMap (routeKey modid cmdid) = some lb) (hne : ¬ lb.empty = true) :
    r.Answers modid cmdid resp garbage ↔ lb.FrontLive := by
  -- the key is there and has hosts
  have hlists : ¬ ∀ lb', r.routeMap (routeKey modid cmdid) = some lb' →
      lb'.idleList = [] ∧ lb'.overloadList = [] :=
    fun hall => hne (LoadBalance.empty_eq_true.2 (hall lb hkey))
  unfold Answers getHost
  simp only [hkey, if_neg hne]
  rcases LoadBalance.choiceOneHost_front hne resp with
    ⟨hfront, hchoice⟩ | ⟨ptr, hfront, hmem, hchoice⟩
  · refine iff_of_true ⟨_, by rw [hchoice]; rfl, rfl, ?_, ?_, ?_⟩ ?_
    · exact iff_of_false (RetCode.num_ne (a := .overload) (by decide)) hlists
    · simp only [hresp, ne_eq, not_true_eq_false, false_iff]
      exact RetCode.num_ne (by decide)
    · intro addr haddr
      rw [show resp.host = some addr from haddr] at hresp
      cases hresp
    · intro ptr hptr
      rw [hfront] at hptr
      cases hptr
  · constructor
    · rintro ⟨out, hget, _⟩ ptr' hptr'
      rw [hfront] at hptr'
      cases hptr'
      rw [hchoice] at hget
      rcases bind_eq_ok.1 hget with ⟨_, hcall, _⟩
      rcases bind_eq_ok.1 hcall with ⟨host, hhost, _⟩
      exact ⟨host, hhost⟩
    · intro hlive
      rcases hlive ptr hfront with ⟨host, hhost⟩
      refine ⟨_, by rw [hchoice, hhost]; rfl, rfl, ?_, ?_, ?_⟩
      · exact iff_of_false (RetCode.num_ne (a := .succ) (by decide)) hlists
      · exact iff_of_true (Option.some_ne_none _) rfl
      · intro addr haddr
        cases haddr
        exact ⟨lb, ptr, host, hkey, hmem, hhost, rfl⟩

end Branches

/-- The answers are consistent when the key is unknown or has hosts, and then only, as long as the
host that is named is there. -/
theorem answers_iff (r : RouteLb) (modid cmdid : Int32) (resp : GetHostResponse)
    (hresp : resp.host = none) (garbage : Status × Int) :
    r.Answers modid cmdid resp garbage ↔
      ∀ lb, r.routeMap (routeKey modid cmdid) = some lb → lb.empty = false ∧ lb.FrontLive := by
  cases hkey : r.routeMap (routeKey modid cmdid) with
  | none =>
      refine iff_of_true (answers_of_none hresp hkey) ?_
      intro lb hlb
      cases hlb
  | some lb =>
      simp only [Option.some.injEq, forall_eq']
      cases hempty : lb.empty with
      | true => exact iff_of_false (not_answers_of_empty hkey hempty) (by simp)
      | false =>
          rw [answers_iff_of_hosts hresp hkey (by simp [hempty])]
          simp

/-- A key with one idle host. -/
theorem answers_single :
    (new.set (routeKey 1 1) (some (LoadBalance.idleAt [(1, 80)]))).Answers 1 1 ⟨0, 1, 1, 0, none⟩
      (.new, 0) := by
  refine (answers_iff _ 1 1 ⟨0, 1, 1, 0, none⟩ rfl (.new, 0)).2 ?_
  intro lb hlb
  rw [show lb = LoadBalance.idleAt [(1, 80)] by simpa [set, eq_comm] using hlb]
  refine ⟨by decide, fun ptr hptr => ?_⟩
  have hptr₀ : ptr = 0 := by
    have hfront : (LoadBalance.idleAt [(1, 80)]).front = some 0 := by decide
    rw [hfront] at hptr
    exact (Option.some.inj hptr).symm
  rw [hptr₀]
  exact ⟨HostInfo.new 1 80 0, rfl⟩

/-- The object behind a first `get_host`, before any route is known. -/
def pulling : RouteLb :=
  new.set (routeKey 1 1) (some (LoadBalance.new 1 1 .pulling 0))

/-- A second `get_host` for the key returns success, and says in the response that nothing
exists. -/
theorem not_answers_pulling : ¬ pulling.Answers 1 1 ⟨1, 1, 1, 0, none⟩ (.new, 0) := by
  have hkey : pulling.routeMap (routeKey 1 1) = some (LoadBalance.new 1 1 .pulling 0) := by
    simp [pulling, set]
  exact not_answers_of_empty hkey rfl

end RouteLb
end Agent
end Rins
