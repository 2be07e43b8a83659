import Rins.Agent.DnsClient
import Rins.Agent.PullProtocol
import Rins.Lib.LockOrder
import Rins.Reactor.ThreadPool

/-!
# RouteLocks — the mutexes of the agent's routes

The three `route_lb`s have a mutex each, and so has `dns_queue`.  `get_host` of a key that is not
known yet keeps the mutex of its `route_lb` while `pull` takes that of the queue, and it writes to
the new `load_balance` once more after the queue has been given back.

What a method does under one mutex without a look at another is one instruction here; a failed
assertion and the use of a deleted host stop the process.
-/

namespace Rins
namespace Agent
namespace RouteLocks

open Dns (routeKey)
open Lib
open Proto (GetHostResponse GetRouteRequest GetRouteResponse RetCode)
open Reactor

inductive AgentLock
  /-- `_mutex` of `r_lb[i]` -/
  | lb (i : Fin 3)
  /-- `_queue_mutex` of `dns_queue` -/
  | dnsQueue
  deriving DecidableEq

/-- What the mutex guards. -/
def Guarded : AgentLock → Type
  | .lb _ => RouteLb
  | .dnsQueue => ThreadQueue GetRouteRequest

inductive Call
  | getHost (i : Fin 3) (modid cmdid : Int32) (resp : GetHostResponse) (garbage : Status × Int)
  | updateHost (i : Fin 3) (modid cmdid : Int32) (resp : GetRouteResponse)
  /-- `dns_queue->recv`, into an empty queue -/
  | recv

/-- What a call gives its caller. -/
inductive Result
  | host (ret : RetCode) (resp : GetHostResponse)
  | updated
  | requests (queue : List GetRouteRequest)

/-- Where a thread stands in one of the methods, with its local variables. -/
inductive Loc
  | getHost (i : Fin 3) (modid cmdid : Int32) (resp : GetHostResponse) (garbage : Status × Int)
  | getHostFind (i : Fin 3) (modid cmdid : Int32) (resp : GetHostResponse)
      (garbage : Status × Int)
  /-- in `pull`, at `dns_queue->send` -/
  | pull (i : Fin 3) (modid cmdid : Int32) (resp : GetHostResponse)
  | pullSend (i : Fin 3) (modid cmdid : Int32) (resp : GetHostResponse)
  | pullSent (i : Fin 3) (modid cmdid : Int32) (resp : GetHostResponse)
  /-- in `pull`, at `status = PULLING` -/
  | pullStatus (i : Fin 3) (modid cmdid : Int32) (resp : GetHostResponse)
  | updateHost (i : Fin 3) (modid cmdid : Int32) (resp : GetRouteResponse)
  | updateHostFind (i : Fin 3) (modid cmdid : Int32) (resp : GetRouteResponse)
  | unlockLb (i : Fin 3) (result : Result)
  | recv
  | recvSwap
  | unlockQueue (result : Result)
  | done (result : Result)
  | stopped (i : Fin 3)

namespace Loc

def held : Loc → Finset AgentLock
  | getHost _ _ _ _ _ => ∅
  | getHostFind i _ _ _ _ => {.lb i}
  | pull i _ _ _ => {.lb i}
  | pullSend i _ _ _ => {.dnsQueue, .lb i}
  | pullSent i _ _ _ => {.dnsQueue, .lb i}
  | pullStatus i _ _ _ => {.lb i}
  | updateHost _ _ _ _ => ∅
  | updateHostFind i _ _ _ => {.lb i}
  | unlockLb i _ => {.lb i}
  | recv => ∅
  | recvSwap => {.dnsQueue}
  | unlockQueue _ => {.dnsQueue}
  | done _ => ∅
  | stopped i => {.lb i}

def past : Loc → Bool
  | pullSend _ _ _ _ => true
  | pullSent _ _ _ _ => true
  | pullStatus _ _ _ _ => true
  | unlockLb _ _ => true
  | recvSwap => true
  | unlockQueue _ => true
  | done _ => true
  | _ => false

/-- The instructions that are left. -/
def left : Loc → Nat
  | getHost _ _ _ _ _ => 8
  | getHostFind _ _ _ _ _ => 7
  | pull _ _ _ _ => 6
  | pullSend _ _ _ _ => 5
  | pullSent _ _ _ _ => 4
  | pullStatus _ _ _ _ => 3
  | updateHost _ _ _ _ => 4
  | updateHostFind _ _ _ _ => 3
  | unlockLb _ _ => 2
  | recv => 3
  | recvSwap => 2
  | unlockQueue _ => 1
  | done _ => 0
  | stopped _ => 0

end Loc

/-! ## The code -/

/-- `get_host` up to the end of `_route_map`'s lookup: the object, and where the method goes on. -/
def find (r : RouteLb) (i : Fin 3) (modid cmdid : Int32) (resp : GetHostResponse)
    (garbage : Status × Int) : RouteLb × Loc :=
  match r.routeMap (routeKey modid cmdid) with
  | some lb =>
      if lb.empty then
        if lb.status = .pulling then
          (r, .unlockLb i (.host .succ { resp with retcode := RetCode.noexist.num }))
        else (r, .stopped i)
      else
        match lb.choiceOneHost resp with
        | .ok (ret, resp, lb) =>
            (r.set (routeKey modid cmdid) (some lb),
              .unlockLb i (.host ret { resp with retcode := ret.num }))
        | .error _ => (r, .stopped i)
  | none =>
      (r.set (routeKey modid cmdid) (some (LoadBalance.new modid cmdid garbage.1 garbage.2)),
        .pull i modid cmdid resp)

/-- `status = PULLING`, on the object that `get_host` has entered. -/
def setPulling (r : RouteLb) (modid cmdid : Int32) : RouteLb :=
  r.set (routeKey modid cmdid)
    ((r.routeMap (routeKey modid cmdid)).map fun lb => { lb with status := .pulling })

def update (r : RouteLb) (i : Fin 3) (modid cmdid : Int32) (resp : GetRouteResponse) :
    RouteLb × Loc :=
  match r.updateHost modid cmdid resp with
  | .ok r => (r, .unlockLb i .updated)
  | .error _ => (r, .stopped i)

def code : Loc → Instr AgentLock Guarded Loc Result
  | .getHost i modid cmdid resp garbage =>
      .lock (.lb i) (.getHostFind i modid cmdid resp garbage)
  | .getHostFind i modid cmdid resp garbage => .access (.lb i) fun r : RouteLb =>
      find r i modid cmdid resp garbage
  | .pull i modid cmdid resp => .lock .dnsQueue (.pullSend i modid cmdid resp)
  | .pullSend i modid cmdid resp => .access .dnsQueue fun q : ThreadQueue GetRouteRequest =>
      (q.send { modid := modid, cmdid := cmdid }, .pullSent i modid cmdid resp)
  | .pullSent i modid cmdid resp => .unlock .dnsQueue (.pullStatus i modid cmdid resp)
  | .pullStatus i modid cmdid resp => .access (.lb i) fun r : RouteLb =>
      (setPulling r modid cmdid,
        .unlockLb i (.host .noexist { resp with retcode := RetCode.noexist.num }))
  | .updateHost i modid cmdid resp => .lock (.lb i) (.updateHostFind i modid cmdid resp)
  | .updateHostFind i modid cmdid resp => .access (.lb i) fun r : RouteLb =>
      update r i modid cmdid resp
  | .unlockLb i result => .unlock (.lb i) (.done result)
  | .recv => .lock .dnsQueue .recvSwap
  | .recvSwap => .access .dnsQueue fun q : ThreadQueue GetRouteRequest =>
      ((q.recv []).2, .unlockQueue (.requests (q.recv []).1))
  | .unlockQueue result => .unlock .dnsQueue (.done result)
  | .done result => .ret result
  | .stopped _ => .halt

def start : Call → Loc
  | .getHost i modid cmdid resp garbage => .getHost i modid cmdid resp garbage
  | .updateHost i modid cmdid resp => .updateHost i modid cmdid resp
  | .recv => .recv

def program : Program AgentLock Guarded Loc Call Result :=
  { start := start
    code := code
    held := Loc.held
    past := Loc.past }

/-! ## The discipline of the locks -/

theorem find_cases (r : RouteLb) (i : Fin 3) (modid cmdid : Int32) (resp : GetHostResponse)
    (garbage : Status × Int) :
    (∃ result, (find r i modid cmdid resp garbage).2 = .unlockLb i result) ∨
      (find r i modid cmdid resp garbage).2 = .stopped i ∨
      (find r i modid cmdid resp garbage).2 = .pull i modid cmdid resp := by
  unfold find
  split
  · split_ifs
    · exact Or.inl ⟨_, rfl⟩
    · exact Or.inr (Or.inl rfl)
    · split
      · exact Or.inl ⟨_, rfl⟩
      · exact Or.inr (Or.inl rfl)
  · exact Or.inr (Or.inr rfl)

theorem update_cases (r : RouteLb) (i : Fin 3) (modid cmdid : Int32) (resp : GetRouteResponse) :
    (∃ result, (update r i modid cmdid resp).2 = .unlockLb i result) ∨
      (update r i modid cmdid resp).2 = .stopped i := by
  unfold update
  split
  · exact Or.inl ⟨_, rfl⟩
  · exact Or.inr rfl

theorem program_obeys (l : Loc) : program.Obeys l (program.code l) := by
  cases l with
  | getHostFind i modid cmdid resp garbage =>
      refine ⟨by simp [program, Loc.held], fun r => ⟨?_, nofun⟩⟩
      rcases find_cases r i modid cmdid resp garbage with ⟨result, h⟩ | h | h
      · simp only [program, h, Loc.held]
      · simp only [program, h, Loc.held]
      · simp only [program, h, Loc.held]
  | updateHostFind i modid cmdid resp =>
      refine ⟨by simp [program, Loc.held], fun r => ⟨?_, nofun⟩⟩
      rcases update_cases r i modid cmdid resp with ⟨result, h⟩ | h
      · simp only [program, h, Loc.held]
      · simp only [program, h, Loc.held]
  | pullSent i modid cmdid resp =>
      refine ⟨by simp [program, Loc.held], ?_, rfl, rfl⟩
      simp [program, Loc.held]
  | _ => simp [program, code, Program.Obeys, Loc.held, Loc.past]

theorem program_descends : program.Descends (InvImage (· < ·) Loc.left) := by
  intro l l' s s' hstep
  unfold InvImage
  cases l with
  | getHostFind i modid cmdid resp garbage =>
      cases hstep
      rcases find_cases (s (.lb i)) i modid cmdid resp garbage with ⟨result, h⟩ | h | h
      · simp only [h, Loc.left]
        decide
      · simp only [h, Loc.left]
        decide
      · simp only [h, Loc.left]
        decide
  | updateHostFind i modid cmdid resp =>
      cases hstep
      rcases update_cases (s (.lb i)) i modid cmdid resp with ⟨result, h⟩ | h
      · simp only [h, Loc.left]
        decide
      · simp only [h, Loc.left]
        decide
  | done result => cases hstep
  | stopped i => cases hstep
  | _ =>
      cases hstep
      simp [Loc.left]

theorem left_wf : WellFounded (InvImage (· < ·) Loc.left) :=
  InvImage.wf _ Nat.lt_wfRel.wf

theorem program_twoPhase : program.TwoPhase where
  start_held g := by cases g <;> rfl
  start_past g := by cases g <;> rfl
  obeys := program_obeys
  returns := program_descends.returns left_wf program_obeys

/-- The queue is taken last. -/
def rank : AgentLock → Nat
  | .lb _ => 0
  | .dnsQueue => 1

theorem program_ranked : program.Ranked rank := by
  intro l k l' hcode k' hk'
  cases l with
  | pull i modid cmdid resp =>
      cases hcode
      simp only [program, Loc.held, Finset.mem_singleton] at hk'
      subst hk'
      exact Nat.zero_lt_one
  | getHost i modid cmdid resp garbage => simp [program, Loc.held] at hk'
  | updateHost i modid cmdid resp => simp [program, Loc.held] at hk'
  | recv => simp [program, Loc.held] at hk'
  | _ => cases hcode

/-! ## Whole calls -/

/-- The routes and the queue. -/
structure Tables where
  lbs : Fin 3 → RouteLb
  dnsQueue : ThreadQueue GetRouteRequest

namespace Tables

def init : Tables :=
  { lbs := fun _ => RouteLb.new
    dnsQueue := ThreadQueue.new }

/-- Each of them under its mutex. -/
def shared (s : Tables) : ∀ k, Guarded k
  | .lb i => s.lbs i
  | .dnsQueue => s.dnsQueue

def setLb (s : Tables) (i : Fin 3) (r : RouteLb) : Tables :=
  { s with lbs := Function.update s.lbs i r }

theorem exists_shared (s : ∀ k, Guarded k) : ∃ t : Tables, t.shared = s := by
  refine ⟨⟨fun i => s (.lb i), s .dnsQueue⟩, ?_⟩
  funext k
  cases k <;> rfl

theorem shared_inj {s t : Tables} : t.shared = s.shared ↔ t = s := by
  constructor
  · intro h
    rcases s with ⟨lbs, q⟩
    rcases t with ⟨lbs', q'⟩
    have hlbs : lbs' = lbs := funext fun i => congrFun h (.lb i)
    have hq : q' = q := congrFun h .dnsQueue
    rw [hlbs, hq]
  · rintro rfl
    rfl

theorem update_lb (s : Tables) (i : Fin 3) (r : RouteLb) :
    Function.update s.shared (.lb i) r = (s.setLb i r).shared := by
  funext k
  cases k with
  | lb j =>
      by_cases hj : j = i
      · subst hj
        have hleft : Function.update s.shared (.lb j) r (.lb j) = r := Function.update_self _ _ _
        have hright : (s.setLb j r).lbs j = r := by simp [setLb]
        exact hleft.trans hright.symm
      · have hne : AgentLock.lb j ≠ .lb i := fun h => hj (AgentLock.lb.inj h)
        have hleft : Function.update s.shared (.lb i) r (.lb j) = s.lbs j :=
          Function.update_of_ne hne _ _
        have hright : (s.setLb i r).lbs j = s.lbs j := by simp [setLb, hj]
        exact hleft.trans hright.symm
  | dnsQueue =>
      have hne : AgentLock.dnsQueue ≠ .lb i := nofun
      exact Function.update_of_ne hne _ _

theorem update_queue (s : Tables) (q : ThreadQueue GetRouteRequest) :
    Function.update s.shared .dnsQueue q = { s with dnsQueue := q : Tables }.shared := by
  funext k
  cases k with
  | lb j =>
      have hne : AgentLock.lb j ≠ .dnsQueue := nofun
      exact Function.update_of_ne hne _ _
  | dnsQueue => exact Function.update_self _ _ _

/-- A whole call. -/
def apply (s : Tables) : Call → Except Fault (Tables × Result)
  | .getHost i modid cmdid resp garbage => do
      let out ← (s.lbs i).getHost modid cmdid resp garbage
      return ({ lbs := Function.update s.lbs i out.routeLb
                dnsQueue := out.sent.foldl ThreadQueue.send s.dnsQueue },
        .host out.ret out.resp)
  | .updateHost i modid cmdid resp => do
      let r ← (s.lbs i).updateHost modid cmdid resp
      return (s.setLb i r, .updated)
  | .recv =>
      .ok ({ s with dnsQueue := (s.dnsQueue.recv []).2 }, .requests (s.dnsQueue.recv []).1)

/-- The calls of the list, one whole call after the other, give these results. -/
def Replays {τ : Type} : Tables → List (τ × Call × Result) → Tables → Prop
  | s, [], t => t = s
  | s, c :: cs, t => ∃ m, s.apply c.2.1 = .ok (m, c.2.2) ∧ Replays m cs t

end Tables

section Alone

variable {s t : Tables} {i : Fin 3} {modid cmdid : Int32} {result r : Result}

/-- An access to a `route_lb`. -/
theorem alone_lb {l : Loc} {f : RouteLb → RouteLb × Loc}
    (hcode : program.code l = .access (.lb i) f) (s : Tables) :
    program.alone (l, s.shared) = some ((f (s.lbs i)).2, (s.setLb i (f (s.lbs i)).1).shared) := by
  have hlb : s.shared (.lb i) = s.lbs i := rfl
  simp only [Program.alone, hcode, hlb, Tables.update_lb]

/-- An access to `dns_queue`. -/
theorem alone_queue {l : Loc}
    {f : ThreadQueue GetRouteRequest → ThreadQueue GetRouteRequest × Loc}
    (hcode : program.code l = .access .dnsQueue f) (s : Tables) :
    program.alone (l, s.shared) =
      some ((f s.dnsQueue).2, { s with dnsQueue := (f s.dnsQueue).1 : Tables }.shared) := by
  have hqueue : s.shared .dnsQueue = s.dnsQueue := rfl
  simp only [Program.alone, hcode, hqueue, Tables.update_queue]

theorem ends_unlockLb :
    program.Ends (.unlockLb i result) s.shared t.shared r ↔ t = s ∧ r = result := by
  rw [Program.ends_unlock rfl, Program.ends_ret rfl, Tables.shared_inj]

/-- `pull` and the end of `get_host`. -/
theorem ends_pull {resp : GetHostResponse} :
    program.Ends (.pull i modid cmdid resp) s.shared t.shared r ↔
      t = { lbs := Function.update s.lbs i (setPulling (s.lbs i) modid cmdid)
            dnsQueue := s.dnsQueue.send { modid := modid, cmdid := cmdid } } ∧
        r = .host .noexist { resp with retcode := RetCode.noexist.num } := by
  rw [Program.ends_lock rfl, Program.ends_next (alone_queue rfl s), Program.ends_unlock rfl,
    Program.ends_next (alone_lb rfl _), ends_unlockLb]
  rfl

theorem setPulling_set (lb : RouteLb) (garbage : Status × Int) :
    setPulling (lb.set (routeKey modid cmdid)
        (some (LoadBalance.new modid cmdid garbage.1 garbage.2))) modid cmdid =
      lb.set (routeKey modid cmdid)
        (some (LoadBalance.new modid cmdid garbage.1 garbage.2).pull.2) := by
  simp [setPulling, RouteLb.set, LoadBalance.pull]

/-- With a key that is known, the lookup is all of `get_host`. -/
theorem find_of_some {lb : RouteLb} {known : LoadBalance} {resp : GetHostResponse}
    {garbage : Status × Int} (hknown : lb.routeMap (routeKey modid cmdid) = some known) :
    (∃ out, lb.getHost modid cmdid resp garbage = .ok out ∧ out.sent = [] ∧
        find lb i modid cmdid resp garbage =
          (out.routeLb, .unlockLb i (.host out.ret out.resp))) ∨
      ∃ e, lb.getHost modid cmdid resp garbage = .error e ∧
        (find lb i modid cmdid resp garbage).2 = .stopped i := by
  simp only [RouteLb.getHost, find, hknown]
  by_cases hempty : known.empty = true
  · simp only [hempty, if_true]
    by_cases hstatus : known.status = .pulling
    · simp only [hstatus, decide_true, assert_true, ok_bind, if_true]
      exact Or.inl ⟨_, rfl, rfl, rfl⟩
    · simp only [hstatus, decide_false, if_false]
      exact Or.inr ⟨_, rfl, trivial⟩
  · simp only [hempty]
    cases known.choiceOneHost resp with
    | error e => exact Or.inr ⟨e, rfl, rfl⟩
    | ok chosen => exact Or.inl ⟨_, rfl, rfl, rfl⟩

theorem does_getHost {resp : GetHostResponse} {garbage : Status × Int} :
    program.Does (.getHost i modid cmdid resp garbage) s.shared t.shared r ↔
      s.apply (.getHost i modid cmdid resp garbage) = .ok (t, r) := by
  unfold Program.Does
  rw [Program.ends_lock rfl, Program.ends_next (alone_lb rfl s)]
  cases hknown : (s.lbs i).routeMap (routeKey modid cmdid) with
  | none =>
      have hset := @setPulling_set modid cmdid (s.lbs i) garbage
      simp only [find, hknown, ends_pull, Tables.setLb, Function.update_self,
        Function.update_idem, hset, Tables.apply, RouteLb.getHost, ok_bind]
      constructor
      · rintro ⟨rfl, rfl⟩
        rfl
      · rintro ⟨⟩
        exact ⟨rfl, rfl⟩
  | some known =>
      rcases @find_of_some i _ _ _ _ resp garbage hknown with
        ⟨out, hget, hsent, hfind⟩ | ⟨e, hget, hfind⟩
      · simp only [hfind, ends_unlockLb, Tables.apply, hget, ok_bind, hsent]
        constructor
        · rintro ⟨rfl, rfl⟩
          rfl
        · rintro ⟨⟩
          exact ⟨rfl, rfl⟩
      · simp only [hfind, Tables.apply, hget, error_bind]
        refine iff_of_false (Program.not_ends_halt rfl) nofun

theorem does_updateHost {resp : GetRouteResponse} :
    program.Does (.updateHost i modid cmdid resp) s.shared t.shared r ↔
      s.apply (.updateHost i modid cmdid resp) = .ok (t, r) := by
  unfold Program.Does
  rw [Program.ends_lock rfl, Program.ends_next (alone_lb rfl s)]
  simp only [Tables.apply, update]
  cases (s.lbs i).updateHost modid cmdid resp with
  | error e => exact iff_of_false (Program.not_ends_halt rfl) nofun
  | ok lb =>
      simp only [ends_unlockLb, ok_bind]
      constructor
      · rintro ⟨rfl, rfl⟩
        rfl
      · rintro ⟨⟩
        exact ⟨rfl, rfl⟩

theorem does_recv :
    program.Does .recv s.shared t.shared r ↔ s.apply .recv = .ok (t, r) := by
  unfold Program.Does
  rw [Program.ends_lock rfl, Program.ends_next (alone_queue rfl s), Program.ends_unlock rfl,
    Program.ends_ret rfl, Tables.shared_inj]
  constructor
  · rintro ⟨rfl, rfl⟩
    rfl
  · rintro ⟨⟩
    exact ⟨rfl, rfl⟩

/-- The code of a call does what the whole call does. -/
theorem does_iff {g : Call} :
    program.Does g s.shared t.shared r ↔ s.apply g = .ok (t, r) := by
  cases g with
  | getHost i modid cmdid resp garbage => exact does_getHost
  | updateHost i modid cmdid resp => exact does_updateHost
  | recv => exact does_recv

end Alone

theorem serial_replays {τ : Type} {calls : List (τ × Call × Result)} :
    ∀ {s t : Tables}, program.Serial s.shared calls t.shared → s.Replays calls t := by
  induction calls with
  | nil =>
      intro s t h
      exact Tables.shared_inj.1 h
  | cons c calls ih =>
      rintro s t ⟨m, hdoes, hrest⟩
      rcases Tables.exists_shared m with ⟨m, rfl⟩
      exact ⟨m, does_iff.1 hdoes, ih hrest⟩

/-! ## Nothing stops the process -/

theorem apply_of_waiting {s : Tables} (h : ∀ i, (s.lbs i).Waiting) (g : Call) :
    ∃ t r, s.apply g = .ok (t, r) ∧ ∀ i, (t.lbs i).Waiting := by
  cases g with
  | getHost i modid cmdid resp garbage =>
      rcases PullLog.getHost_of_waiting (h i) modid cmdid resp garbage with ⟨out, hget, -⟩
      refine ⟨{ lbs := Function.update s.lbs i out.routeLb
                dnsQueue := out.sent.foldl ThreadQueue.send s.dnsQueue },
        .host out.ret out.resp, ?_, LbAgent.waiting_update h ((h i).getHost hget)⟩
      simp only [Tables.apply, hget, ok_bind]
      rfl
  | updateHost i modid cmdid resp =>
      refine ⟨s.setLb i (if resp.host = [] then (s.lbs i).set (routeKey modid cmdid) none
        else s.lbs i), .updated, ?_, LbAgent.waiting_update h ?_⟩
      · simp only [Tables.apply, (h i).updateHost_eq, ok_bind]
        rfl
      · split_ifs
        · exact (h i).set_none _
        · exact h i
  | recv => exact ⟨_, _, rfl, h⟩

/-- No `route_lb` has hosts. -/
def Waiting (s : ∀ k, Guarded k) : Prop :=
  ∀ i, RouteLb.Waiting (s (.lb i))

theorem does_of_waiting (g : Call) (s : ∀ k, Guarded k) (h : Waiting s) :
    ∃ t r, program.Does g s t r := by
  rcases Tables.exists_shared s with ⟨s, rfl⟩
  rcases apply_of_waiting h g with ⟨t, r, happly, -⟩
  exact ⟨t.shared, r, does_iff.2 happly⟩

theorem waiting_of_does (g : Call) (s t : ∀ k, Guarded k) (r : Result) (h : Waiting s)
    (hdoes : program.Does g s t r) : Waiting t := by
  rcases Tables.exists_shared s with ⟨s, rfl⟩
  rcases Tables.exists_shared t with ⟨t, rfl⟩
  rcases apply_of_waiting h g with ⟨t', r', happly, hwaiting⟩
  rw [does_iff.1 hdoes] at happly
  cases happly
  exact hwaiting

/-! ## The threads -/

open Program

variable {τ : Type} [DecidableEq τ]

/-- No `route_lb` knows a key, and no thread is in a method. -/
def initial : Machine AgentLock Guarded Loc Call Result τ :=
  .init Tables.init.shared

/-- However the threads interleave, the calls might have been made one after the other, each of them
whole: in the order in which they had their locks, which for each thread is the order of its calls.
They have given their callers what they give in this order, and a `route_lb` or the queue that
nobody has locked is what this order leaves behind. -/
theorem routes_serializable (acts : List (Program.Act τ Call))
    (m : Machine AgentLock Guarded Loc Call Result τ)
    (hrun : run (Machine.step program) initial acts = some m) :
    ∃ (calls : List (τ × Call × Result)) (tables : Tables),
      (calls.map fun c => (c.1, c.2.1)) = m.order ∧
      (∀ t, Machine.callsOf t m.returned <+: Machine.callsOf t calls) ∧
      (∀ t, m.threads t = none → Machine.callsOf t m.returned = Machine.callsOf t calls) ∧
      Tables.init.Replays calls tables ∧
      ∀ k, m.owner k = none → m.shared k = tables.shared k := by
  rcases Machine.run_inv program_twoPhase hrun with ⟨calls, a, hinv⟩
  rcases Tables.exists_shared a with ⟨tables, rfl⟩
  exact ⟨calls, tables, hinv.order, hinv.returned_first, fun t ht => (hinv.outside t ht).symm,
    serial_replays hinv.serial, hinv.free⟩

def sampleResp : GetHostResponse :=
  { seq := 7, modid := 1, cmdid := 1, retcode := 0, host := none }

/-- Two threads pull at the same time; the second has the queue. -/
def bothPull (a b : Fin 3) : List (Program.Act (Fin 3) Call) :=
  [.call a (.getHost a 1 1 sampleResp (.new, 3)), .call b (.getHost b 1 3 sampleResp (.new, 4)),
    .go a, .go b, .go a, .go b, .go b]

/-- The third takes the requests out of the queue while the first has not returned. -/
def takenOut (a b c : Fin 3) : List (Program.Act (Fin 3) Call) :=
  [.go b, .go b, .go a, .go a, .go a, .call c .recv, .go c, .go c, .go c, .go c, .go b, .go b,
    .go b]

theorem routes_serializable_bothPull :
    ∃ m, run (Machine.step program) initial (bothPull 0 1 ++ takenOut 0 1 2) = some m ∧
      ∃ (calls : List (Fin 3 × Call × Result)) (tables : Tables),
        (calls.map fun c => (c.1, c.2.1)) =
          [(1, .getHost 1 1 3 sampleResp (.new, 4)), (0, .getHost 0 1 1 sampleResp (.new, 3)),
            (2, .recv)] ∧
        Tables.init.Replays calls tables ∧ (m.threads 0).isSome = true := by
  have hrun : (run (Machine.step program) initial (bothPull 0 1 ++ takenOut 0 1 2)).map
      (fun m => (m.order, (m.threads 0).isSome)) =
      some ([(1, .getHost 1 1 3 sampleResp (.new, 4)), (0, .getHost 0 1 1 sampleResp (.new, 3)),
        (2, .recv)], true) := by rfl
  rcases Option.map_eq_some_iff.1 hrun with ⟨m, hm, heq⟩
  simp only [Prod.mk.injEq] at heq
  rcases routes_serializable _ m hm with ⟨calls, tables, hcalls, -, -, hreplays, -⟩
  exact ⟨m, hm, calls, tables, hcalls.trans heq.1, hreplays, heq.2⟩

/-- No call fails an assertion or is kept waiting forever: while one has not returned, some thread
can go on, and without new calls the threads cannot go on forever. -/
theorem routes_return [Fintype τ] (acts : List (Program.Act τ Call))
    (m : Machine AgentLock Guarded Loc Call Result τ)
    (hrun : run (Machine.step program) initial acts = some m) :
    (∀ t, ¬ m.Halted program t) ∧
      ((∃ t, m.threads t ≠ none) → ∃ t m', m.step program (.go t) = some m') ∧
      ∀ f : Nat → Machine AgentLock Guarded Loc Call Result τ, f 0 = m →
        ∃ n, ∀ t, (f n).step program (.go t) ≠ some (f (n + 1)) := by
  rcases Machine.run_inv program_twoPhase hrun with ⟨calls, a, hinv⟩
  have htop : ∀ k, rank k < 2 := by
    intro k
    cases k <;> simp [rank]
  have hwaiting : Waiting Tables.init.shared := fun _ => RouteLb.new_waiting
  have halted := hinv.not_halted waiting_of_does does_of_waiting hwaiting
  refine ⟨halted, fun ⟨t, ht⟩ => ?_, fun f _ => Machine.not_endless left_wf program_descends f⟩
  exact Machine.goes_of_inside program_twoPhase program_ranked htop hinv.owned halted ht

theorem routes_return_bothPull :
    ∃ m, run (Machine.step program) initial (bothPull 0 1) = some m ∧
      (m.step program (.go 0)).isNone = true ∧ ∃ t m', m.step program (.go t) = some m' := by
  have hrun : (run (Machine.step program) initial (bothPull 0 1)).map
      (fun m => ((m.threads 0).isSome, (m.step program (.go 0)).isNone)) = some (true, true) := by
    rfl
  rcases Option.map_eq_some_iff.1 hrun with ⟨m, hm, heq⟩
  simp only [Prod.mk.injEq] at heq
  refine ⟨m, hm, heq.2, (routes_return _ m hm).2.1 ⟨0, ?_⟩⟩
  exact Option.ne_none_iff_isSome.2 heq.1

end RouteLocks
end Agent
end Rins
