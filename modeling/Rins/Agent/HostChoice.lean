import Mathlib.Data.List.Rotate
import Rins.Agent.LoadBalance

/-!
# HostChoice — which host a `load_balance` names next

`get_host_from_list` is meant to take its turn through a list: it names the front host and moves it
to the back.  It gets a copy of the list, so that the object goes on naming the same host.

The overloaded hosts get one call in eleven.  `_access_cnt` counts the calls made while there are
such hosts, whatever becomes of the lists in the meantime.
-/

namespace Rins
namespace Agent

open Proto (GetHostResponse RetCode)
open Reactor

namespace LoadBalance

/-! ## Taking turns -/

/-- Calls of `choice_one_host`, one after the other, each with the response it is given. -/
def choices (lb : LoadBalance) :
    List GetHostResponse → Except Fault (List (RetCode × GetHostResponse) × LoadBalance)
  | [] => .ok ([], lb)
  | resp :: resps => do
      let (ret, resp, lb) ← lb.choiceOneHost resp
      let (named, lb) ← lb.choices resps
      return ((ret, resp) :: named, lb)

/-- The address that `get_host_from_list` puts into a response. -/
def address (host : HostInfo) : Proto.HostInfo :=
  { ip := host.ip.toInt32, port := host.port }

/-- A call has succeeded and named the host behind the pointer. -/
def Names (lb : LoadBalance) (ptr : HostPtr) (named : RetCode × GetHostResponse) : Prop :=
  ∃ host, lb.deref ptr = .ok host ∧ named.1 = .succ ∧ named.2.host = some (address host)

/-- As many calls as there are idle hosts name each of them in list order, and leave the list in the
same cyclic order. -/
def RoundRobin (lb : LoadBalance) : Prop :=
  ∀ resps : List GetHostResponse, resps.length = lb.idleList.length →
    ∃ named lb', lb.choices resps = .ok (named, lb') ∧
      List.Forall₂ lb.Names lb.idleList named ∧ lb'.idleList ~r lb.idleList

/-- All the idle hosts have one address. -/
def OneAddress (lb : LoadBalance) : Prop :=
  ∃ addr, ∀ ptr ∈ lb.idleList, ∃ host, lb.deref ptr = .ok host ∧ address host = addr

/-- While no host is overloaded, every call names the front host and leaves the object as it is. -/
theorem choiceOneHost_idle {lb : LoadBalance} (hover : lb.overloadList = []) {ptr : HostPtr}
    {rest : List HostPtr} (hidle : lb.idleList = ptr :: rest) {host : HostInfo}
    (hhost : lb.deref ptr = .ok host) (resp : GetHostResponse) :
    lb.choiceOneHost resp = .ok (.succ, { resp with host := some (address host) }, lb) := by
  simp [choiceOneHost, hover, hidle, getHostFromList, hhost, address]

theorem choices_idle {lb : LoadBalance} (hover : lb.overloadList = []) {ptr : HostPtr}
    {rest : List HostPtr} (hidle : lb.idleList = ptr :: rest) {host : HostInfo}
    (hhost : lb.deref ptr = .ok host) (resps : List GetHostResponse) :
    lb.choices resps =
      .ok (resps.map fun resp => (.succ, { resp with host := some (address host) }), lb) := by
  induction resps with
  | nil => rfl
  | cons resp resps ih =>
      simp only [choices, choiceOneHost_idle hover hidle hhost, ih, ok_bind]
      rfl

/-- The first call fails if the front pointer dangles. -/
theorem exists_front_of_choices {lb lb' : LoadBalance} (hover : lb.overloadList = [])
    {ptr : HostPtr} {rest : List HostPtr} (hidle : lb.idleList = ptr :: rest)
    {resps : List GetHostResponse} (hresps : resps ≠ [])
    {named : List (RetCode × GetHostResponse)} (h : lb.choices resps = .ok (named, lb')) :
    ∃ host, lb.deref ptr = .ok host := by
  rcases List.exists_cons_of_ne_nil hresps with ⟨resp, resps, rfl⟩
  rcases bind_eq_ok.1 h with ⟨⟨ret, resp', next⟩, hfirst, _⟩
  simp only [choiceOneHost, hover, hidle, List.isEmpty_cons, List.isEmpty_nil, if_true,
    Bool.false_eq_true, if_false] at hfirst
  rcases bind_eq_ok.1 hfirst with ⟨_, hget, _⟩
  rcases bind_eq_ok.1 hget with ⟨host, hhost, _⟩
  exact ⟨host, hhost⟩

/-- An object without overloaded hosts takes turns if and only if its idle hosts cannot be told
apart. -/
theorem roundRobin_iff (lb : LoadBalance) (hidle : lb.idleList ≠ [])
    (hover : lb.overloadList = []) : lb.RoundRobin ↔ lb.OneAddress := by
  rcases List.exists_cons_of_ne_nil hidle with ⟨ptr, rest, hlist⟩
  constructor
  · intro hturns
    let resp : GetHostResponse := { seq := 0, modid := 0, cmdid := 0, retcode := 0, host := none }
    rcases hturns (lb.idleList.map fun _ => resp) (by simp) with ⟨named, lb', hcalls, hnames, _⟩
    have hsome : lb.idleList.map (fun _ => resp) ≠ [] := by simpa using hidle
    rcases exists_front_of_choices hover hlist hsome hcalls with ⟨host, hhost⟩
    rw [choices_idle hover hlist hhost] at hcalls
    cases hcalls
    -- the front host is named every time, so every host has its address
    refine ⟨address host, fun ptr' hptr' => ?_⟩
    rw [List.forall₂_map_right_iff, List.forall₂_map_right_iff, List.forall₂_same] at hnames
    rcases hnames ptr' hptr' with ⟨host', hhost', _, haddr⟩
    exact ⟨host', hhost', (Option.some.inj haddr).symm⟩
  · rintro ⟨addr, hsame⟩ resps hlen
    rcases hsame ptr (by simp [hlist]) with ⟨host, hhost, haddr⟩
    refine ⟨_, lb, choices_idle hover hlist hhost resps, ?_, List.IsRotated.refl _⟩
    rw [List.forall₂_map_right_iff, List.forall₂_iff_get]
    refine ⟨hlen.symm, fun i hi _ => ?_⟩
    rcases hsame _ (List.get_mem lb.idleList ⟨i, hi⟩) with ⟨host', hhost', haddr'⟩
    exact ⟨host', hhost', rfl, by rw [haddr, haddr']⟩

/-- An object whose idle hosts are at the given addresses. -/
def idleAt (addrs : List (UInt32 × Int32)) : LoadBalance :=
  { new 1 1 .pulling 0 with
    idleList := List.range addrs.length
    hosts := addrs.map fun addr => some (HostInfo.new addr.1 addr.2 0) }

/-- One host has every turn. -/
theorem roundRobin_iff_single : (idleAt [(1, 80)]).RoundRobin :=
  (roundRobin_iff (idleAt [(1, 80)]) (by decide) rfl).2
    ⟨{ ip := 1, port := 80 }, fun ptr hptr => by
      obtain rfl : ptr = 0 := by simpa [idleAt] using hptr
      exact ⟨HostInfo.new 1 80 0, rfl, by decide⟩⟩

/-- The second of two hosts is never named. -/
theorem roundRobin_stuck :
    ¬ ∀ lb : LoadBalance, lb.idleList ≠ [] → lb.overloadList = [] → lb.RoundRobin := by
  intro hall
  let resp : GetHostResponse := { seq := 0, modid := 1, cmdid := 1, retcode := 0, host := none }
  rcases hall (idleAt [(1, 80), (2, 80)]) (by decide) rfl [resp, resp] rfl with
    ⟨named, lb', hcalls, hnames, _⟩
  have hfront : (idleAt [(1, 80), (2, 80)]).choices [resp, resp] =
      .ok ([resp, resp].map fun resp =>
        (.succ, { resp with host := some (address (HostInfo.new 1 80 0)) }),
        idleAt [(1, 80), (2, 80)]) :=
    choices_idle rfl rfl rfl _
  rw [hfront] at hcalls
  cases hcalls
  have hidle : (idleAt [(1, 80), (2, 80)]).idleList = [0, 1] := rfl
  rw [hidle] at hnames
  rcases hnames with _ | ⟨_, _ | ⟨⟨host, hhost, _, haddr⟩, _⟩⟩
  cases hhost
  exact absurd haddr (by decide)

/-! ## The turn of the overloaded hosts -/

/-- The list whose front host a call of `choice_one_host` names, if it names one. -/
inductive Source
  | idle
  | overload
  | nobody
  deriving DecidableEq, Repr

/-- The branches of `choice_one_host`. -/
def source (lb : LoadBalance) : Source :=
  if lb.idleList.isEmpty then
    if lb.accessCnt ≥ 10 then .overload else .nobody
  else if lb.overloadList.isEmpty then .idle
  else if lb.accessCnt ≥ 10 then .overload
  else .idle

/-- `_access_cnt` after the call. -/
def nextCnt (lb : LoadBalance) : Int :=
  match lb.source with
  | .overload => 0
  | .nobody => lb.accessCnt + 1
  | .idle => if lb.overloadList.isEmpty then lb.accessCnt else lb.accessCnt + 1

/-- `choice_one_host`, by the list it turns to. -/
theorem choiceOneHost_eq (lb : LoadBalance) (resp : GetHostResponse) :
    lb.choiceOneHost resp =
      match lb.source with
      | .idle => do
          return (.succ, ← lb.getHostFromList resp lb.idleList,
            { lb with accessCnt := lb.nextCnt })
      | .overload => do
          return (.succ, ← lb.getHostFromList resp lb.overloadList,
            { lb with accessCnt := lb.nextCnt })
      | .nobody => .ok (.overload, resp, { lb with accessCnt := lb.nextCnt }) := by
  unfold choiceOneHost nextCnt source
  split_ifs <;> rfl

/-- What is in the two lists when a call is made: at least one host, and no dangling pointer. -/
structure HostLists where
  hosts : List (Option HostInfo)
  idleList : List HostPtr
  overloadList : List HostPtr
  nonempty : idleList ≠ [] ∨ overloadList ≠ []
  live : ∀ ptr, ptr ∈ idleList ∨ ptr ∈ overloadList → ∃ host, hosts[ptr]? = some (some host)

/-- The lists have changed. -/
def withLists (lb : LoadBalance) (lists : HostLists) : LoadBalance :=
  { lb with
    hosts := lists.hosts
    idleList := lists.idleList
    overloadList := lists.overloadList }

/-- One call and what came of it. -/
structure Choice where
  lists : HostLists
  given : GetHostResponse
  cnt : Int
  source : Source
  ret : RetCode
  resp : GetHostResponse
  cnt' : Int

/-- Calls of `choice_one_host`, with the lists as each of them finds them. -/
def serve (lb : LoadBalance) :
    List (HostLists × GetHostResponse) → Except Fault (List Choice × LoadBalance)
  | [] => .ok ([], lb)
  | (lists, given) :: calls => do
      let lb := lb.withLists lists
      let (ret, resp, lb') ← lb.choiceOneHost given
      let (served, last) ← lb'.serve calls
      return ({
          lists := lists
          given := given
          cnt := lb.accessCnt
          source := lb.source
          ret := ret
          resp := resp
          cnt' := lb'.accessCnt } :: served, last)

/-- The call has named the front host of the list, which has one. -/
def Choice.NamesFront (c : Choice) (list : List HostPtr) : Prop :=
  ∃ ptr rest host, list = ptr :: rest ∧ c.lists.hosts[ptr]? = some (some host) ∧
    c.ret = .succ ∧ c.resp = { c.given with host := some (address host) }

/-- The call was made while there were overloaded hosts. -/
def Choice.counted (c : Choice) : Bool :=
  !c.lists.overloadList.isEmpty

/-- What holds of every single call. -/
structure Choice.Sound (c : Choice) : Prop where
  cnt : 0 ≤ c.cnt ∧ c.cnt ≤ 10
  cnt' : 0 ≤ c.cnt' ∧ c.cnt' ≤ 10
  idle : c.source = .idle → c.NamesFront c.lists.idleList
  overload : c.source = .overload → c.NamesFront c.lists.overloadList
  nobody : c.source = .nobody → c.lists.idleList = [] ∧ c.ret = .overload ∧ c.resp = c.given
  quiet : c.counted = false → c.source = .idle ∧ c.cnt' = c.cnt
  probes : c.counted = true → (c.source = .overload ↔ c.cnt = 10) ∧
    c.cnt' = if c.cnt = 10 then 0 else c.cnt + 1

/-- `get_host_from_list` on a list with a host names the front one. -/
theorem getHostFromList_front (lb : LoadBalance) (lists : HostLists) {list : List HostPtr}
    (hlist : list ≠ []) (hlive : ∀ ptr ∈ list, ∃ host, lists.hosts[ptr]? = some (some host))
    (given : GetHostResponse) :
    ∃ ptr rest host, list = ptr :: rest ∧ lists.hosts[ptr]? = some (some host) ∧
      (lb.withLists lists).getHostFromList given list =
        .ok { given with host := some (address host) } := by
  rcases List.exists_cons_of_ne_nil hlist with ⟨ptr, rest, rfl⟩
  rcases hlive ptr (by simp) with ⟨host, hhost⟩
  refine ⟨ptr, rest, host, rfl, hhost, ?_⟩
  simp [getHostFromList, deref, withLists, hhost, address]

/-- While no host is overloaded, the idle list is used and the count stays. -/
theorem source_quiet (lb : LoadBalance) (hover : lb.overloadList = []) (hidle : lb.idleList ≠ []) :
    lb.source = .idle ∧ lb.nextCnt = lb.accessCnt := by
  have hsource : lb.source = .idle := by simp [source, hidle, hover]
  exact ⟨hsource, by simp [nextCnt, hsource, hover]⟩

/-- While there are overloaded hosts, the count decides, and goes round. -/
theorem source_counted (lb : LoadBalance) (h₁ : lb.accessCnt ≤ 10) (hover : lb.overloadList ≠ []) :
    (lb.source = .overload ↔ lb.accessCnt = 10) ∧
      lb.nextCnt = if lb.accessCnt = 10 then 0 else lb.accessCnt + 1 := by
  by_cases hfull : lb.accessCnt = 10
  · have hsource : lb.source = .overload := by simp [source, hover, hfull]
    simp [nextCnt, hsource, hfull]
  · have hless : ¬ 10 ≤ lb.accessCnt := by omega
    have hsource : lb.source = if lb.idleList = [] then .nobody else .idle := by
      simp [source, hover, hless]
    by_cases hidle : lb.idleList = []
    · simp [nextCnt, hsource, hidle, hfull]
    · simp [nextCnt, hsource, hidle, hfull, hover]

/-- The list it turns to has a host, and it returns without one only if no host is idle. -/
theorem source_nonempty (lb : LoadBalance) (hne : lb.idleList ≠ [] ∨ lb.overloadList ≠ []) :
    (lb.source = .idle → lb.idleList ≠ []) ∧ (lb.source = .overload → lb.overloadList ≠ []) ∧
      (lb.source = .nobody → lb.idleList = []) := by
  by_cases hidle : lb.idleList = []
  · have hover : lb.overloadList ≠ [] := hne.resolve_left (fun hno => hno hidle)
    by_cases hfull : 10 ≤ lb.accessCnt
    · simp [source, hidle, hover, hfull]
    · simp [source, hidle, hfull]
  · by_cases hover : lb.overloadList = []
    · simp [source, hidle, hover]
    · by_cases hfull : 10 ≤ lb.accessCnt
      · simp [source, hidle, hover, hfull]
      · simp [source, hidle, hover, hfull]

/-- The call returns; whom it names depends on the list. -/
theorem choiceOneHost_reply (lb : LoadBalance) (lists : HostLists) (given : GetHostResponse) :
    ∃ c : Choice, c.lists = lists ∧ c.given = given ∧ c.cnt = lb.accessCnt ∧
      c.source = (lb.withLists lists).source ∧ c.cnt' = (lb.withLists lists).nextCnt ∧
      (lb.withLists lists).choiceOneHost given =
        .ok (c.ret, c.resp, { lb.withLists lists with accessCnt := c.cnt' }) ∧
      (c.source = .idle → c.NamesFront lists.idleList) ∧
      (c.source = .overload → c.NamesFront lists.overloadList) ∧
      (c.source = .nobody → c.ret = .overload ∧ c.resp = given) := by
  rcases source_nonempty (lb.withLists lists) lists.nonempty with ⟨hidle, hover, _⟩
  rw [choiceOneHost_eq]
  cases hsource : (lb.withLists lists).source with
  | idle =>
      rcases getHostFromList_front lb lists (hidle hsource)
        (fun ptr hptr => lists.live ptr (.inl hptr)) given with
        ⟨ptr, rest, host, hlist, hhost, hget⟩
      refine ⟨⟨lists, given, lb.accessCnt, .idle, .succ, { given with host := some (address host) },
        (lb.withLists lists).nextCnt⟩, rfl, rfl, rfl, rfl, rfl, ?_,
        fun _ => ⟨ptr, rest, host, hlist, hhost, rfl, rfl⟩, by simp, by simp⟩
      simp only
      rw [hget]
      rfl
  | overload =>
      rcases getHostFromList_front lb lists (hover hsource)
        (fun ptr hptr => lists.live ptr (.inr hptr)) given with
        ⟨ptr, rest, host, hlist, hhost, hget⟩
      refine ⟨⟨lists, given, lb.accessCnt, .overload, .succ,
        { given with host := some (address host) }, (lb.withLists lists).nextCnt⟩, rfl, rfl, rfl,
        rfl, rfl, ?_, by simp, fun _ => ⟨ptr, rest, host, hlist, hhost, rfl, rfl⟩, by simp⟩
      simp only
      rw [hget]
      rfl
  | nobody =>
      exact ⟨⟨lists, given, lb.accessCnt, .nobody, .overload, given,
        (lb.withLists lists).nextCnt⟩, rfl, rfl, rfl, rfl, rfl, rfl, by simp, by simp, by simp⟩

/-- The call returns, and does what it should. -/
theorem choiceOneHost_sound {lb : LoadBalance} (h₀ : 0 ≤ lb.accessCnt) (h₁ : lb.accessCnt ≤ 10)
    (lists : HostLists) (given : GetHostResponse) :
    ∃ c : Choice, c.Sound ∧ c.lists = lists ∧ c.given = given ∧ c.cnt = lb.accessCnt ∧
      c.source = (lb.withLists lists).source ∧
      (lb.withLists lists).choiceOneHost given =
        .ok (c.ret, c.resp, { lb.withLists lists with accessCnt := c.cnt' }) := by
  rcases choiceOneHost_reply lb lists given with
    ⟨c, rfl, rfl, hcnt, hsource, hcnt', hcall, hidle, hover, hnobody⟩
  have hquiet : c.counted = false → c.source = .idle ∧ c.cnt' = c.cnt := by
    intro hno
    have hnone : c.lists.overloadList = [] := by simpa [Choice.counted] using hno
    have hsome : c.lists.idleList ≠ [] := c.lists.nonempty.resolve_right (fun h => h hnone)
    rw [hsource, hcnt', hcnt]
    exact source_quiet (lb.withLists c.lists) hnone hsome
  have hprobes : c.counted = true → (c.source = .overload ↔ c.cnt = 10) ∧
      c.cnt' = if c.cnt = 10 then 0 else c.cnt + 1 := by
    intro hyes
    have hsome : c.lists.overloadList ≠ [] := by simpa [Choice.counted] using hyes
    rw [hsource, hcnt', hcnt]
    exact source_counted (lb.withLists c.lists) h₁ hsome
  refine ⟨c, ?_, rfl, rfl, hcnt, hsource, hcall⟩
  refine
    { cnt := by omega, cnt' := ?_, idle := hidle, overload := hover, nobody := ?_,
      quiet := hquiet, probes := hprobes }
  · cases hcounted : c.counted with
    | false =>
        have := (hquiet hcounted).2
        omega
    | true =>
        have := (hprobes hcounted).2
        split_ifs at this <;> omega
  · intro hno
    refine ⟨?_, hnobody hno⟩
    exact (source_nonempty (lb.withLists c.lists) c.lists.nonempty).2.2 (hsource ▸ hno)

/-- The calls made while there were overloaded hosts. -/
def countedOf (served : List Choice) : List Choice :=
  served.filter Choice.counted

/-- All the calls return, and among those that count, every eleventh is for the overloaded hosts. -/
theorem serve_sound (calls : List (HostLists × GetHostResponse)) :
    ∀ lb : LoadBalance, 0 ≤ lb.accessCnt → lb.accessCnt ≤ 10 →
      ∃ served last, lb.serve calls = .ok (served, last) ∧
        served.map (fun c => (c.lists, c.given)) = calls ∧ (∀ c ∈ served, c.Sound) ∧
        ∀ (i : Nat) (c : Choice), (countedOf served)[i]? = some c →
          (c.source = .overload ↔ (lb.accessCnt + i) % 11 = 10) := by
  induction calls with
  | nil =>
      intro lb _ _
      exact ⟨[], lb, rfl, rfl, by simp, by simp [countedOf]⟩
  | cons call calls ih =>
      rcases call with ⟨lists, given⟩
      intro lb h₀ h₁
      rcases choiceOneHost_sound h₀ h₁ lists given with
        ⟨c, hsound, rfl, rfl, hcnt, hsource, hcall⟩
      rcases ih { lb.withLists c.lists with accessCnt := c.cnt' } hsound.cnt'.1 hsound.cnt'.2 with
        ⟨served, last, hserve, hcalls, hserved, hrate⟩
      refine ⟨c :: served, last, ?_, by rw [List.map_cons, hcalls], ?_, ?_⟩
      · simp only [serve, hcall, hserve, ok_bind]
        have hbefore : (lb.withLists c.lists).accessCnt = c.cnt := hcnt.symm
        rw [hbefore, ← hsource]
        rfl
      · intro c' hc'
        rcases List.mem_cons.1 hc' with rfl | hlater
        · exact hsound
        · exact hserved c' hlater
      · intro i c' hc'
        cases hcounted : c.counted with
        | false =>
            -- a call that does not count leaves the count to the next one
            have hsame := (hsound.quiet hcounted).2
            rw [countedOf, List.filter_cons_of_neg (by simp [hcounted])] at hc'
            rw [hrate i c' hc', hsame, hcnt]
        | true =>
            rcases hsound.probes hcounted with ⟨hprobe, hnext⟩
            rw [countedOf, List.filter_cons_of_pos hcounted] at hc'
            cases i with
            | zero =>
                cases hc'
                rw [hprobe, hcnt]
                omega
            | succ i =>
                rw [hrate i c' hc']
                simp only [hnext]
                split_ifs <;> omega

/-- Where every eleventh element of a list is marked, ten others are between two marked ones. -/
theorem ten_between {α : Type} {marked : α → Prop} {cnt : Int} {l : List α}
    (hrate : ∀ (i : Nat) (a : α), l[i]? = some a → (marked a ↔ (cnt + i) % 11 = 10))
    {before mid after : List α} {x y : α} (hl : l = before ++ x :: (mid ++ y :: after))
    (hx : marked x) (hy : marked y) (hmid : ∀ a ∈ mid, ¬ marked a) : mid.length = 10 := by
  have hfirst := (hrate before.length x (by simp [hl])).1 hx
  have hsecond := (hrate (before.length + 1 + mid.length) y (by
    rw [hl, List.getElem?_append_right (by omega)]
    have hsub : before.length + 1 + mid.length - before.length = mid.length + 1 := by omega
    rw [hsub, List.getElem?_cons_succ, List.getElem?_append_right (by omega)]
    simp)).1 hy
  -- eleven places after `x` the turn has come round
  by_contra hne
  have hlong : 10 < mid.length := by omega
  have hinner : (mid[10]? : Option α) = some mid[10] := List.getElem?_eq_getElem hlong
  have helev := (hrate (before.length + 11) mid[10] (by
    rw [hl, List.getElem?_append_right (by omega)]
    have hsub : before.length + 11 - before.length = 10 + 1 := by omega
    rw [hsub, List.getElem?_cons_succ, List.getElem?_append_left hlong, hinner])).2 (by omega)
  exact hmid _ (List.getElem_mem hlong) helev

/-- Whatever the lists are at each call: every call returns with the count within 0..10 and has
named the front of a list that has one; a call made while no host is overloaded leaves the count
alone and names an idle host; between two calls for overloaded hosts there are ten others that
count, and each of them names an idle host if there is one and otherwise returns `RET_OVERLOAD`
without a host. -/
theorem overload_probed (lb : LoadBalance) (h₀ : 0 ≤ lb.accessCnt) (h₁ : lb.accessCnt ≤ 10)
    (calls : List (HostLists × GetHostResponse)) :
    ∃ served last, lb.serve calls = .ok (served, last) ∧
      served.map (fun c => (c.lists, c.given)) = calls ∧
      (∀ c ∈ served, (0 ≤ c.cnt' ∧ c.cnt' ≤ 10) ∧
        (c.source = .idle → c.NamesFront c.lists.idleList) ∧
        (c.source = .overload → c.NamesFront c.lists.overloadList) ∧
        (c.lists.overloadList = [] → c.cnt' = c.cnt ∧ c.NamesFront c.lists.idleList)) ∧
      ∀ (before : List Choice) (x : Choice) (mid : List Choice) (y : Choice) (after : List Choice),
        countedOf served = before ++ x :: (mid ++ y :: after) →
        x.source = .overload → y.source = .overload → (∀ c ∈ mid, c.source ≠ .overload) →
        mid.length = 10 ∧ ∀ c ∈ mid,
          (c.lists.idleList ≠ [] → c.NamesFront c.lists.idleList) ∧
          (c.lists.idleList = [] → c.ret = .overload ∧ c.resp = c.given) := by
  rcases serve_sound calls lb h₀ h₁ with ⟨served, last, hserve, hcalls, hserved, hrate⟩
  refine ⟨served, last, hserve, hcalls, ?_, ?_⟩
  · intro c hc
    have hsound := hserved c hc
    refine ⟨hsound.cnt', hsound.idle, hsound.overload, fun hover => ?_⟩
    rcases hsound.quiet (by simp [Choice.counted, hover]) with ⟨hidle, hsame⟩
    exact ⟨hsame, hsound.idle hidle⟩
  · intro before x mid y after hsplit hx hy hmid
    refine ⟨ten_between hrate hsplit hx hy hmid, fun c hc => ?_⟩
    have hmem : c ∈ countedOf served := by
      rw [hsplit]
      simp [hc]
    have hsound := hserved c (List.mem_filter.1 hmem).1
    cases hsource : c.source with
    | overload => exact absurd hsource (hmid c hc)
    | idle =>
        refine ⟨fun _ => hsound.idle hsource, fun hnone => ?_⟩
        rcases hsound.idle hsource with ⟨ptr, rest, host, hlist, _⟩
        rw [hnone] at hlist
        cases hlist
    | nobody =>
        rcases hsound.nobody hsource with ⟨hnone, hreply⟩
        exact ⟨fun hsome => absurd hnone hsome, fun _ => hreply⟩

/-- One idle and one overloaded host. -/
def oneEach : HostLists where
  hosts := [some (HostInfo.new 1 80 0), some { HostInfo.new 2 80 0 with overload := true }]
  idleList := [0]
  overloadList := [1]
  nonempty := Or.inl (by decide)
  live := by
    intro ptr hptr
    simp only [List.mem_singleton] at hptr
    rcases hptr with rfl | rfl
    · exact ⟨_, rfl⟩
    · exact ⟨_, rfl⟩

/-- The first and the last of twelve calls on an object whose count is at 10 are for the overloaded
host. -/
theorem overload_probed_twelve :
    ∃ served last,
      (new 1 1 .pulling 10).serve (List.replicate 12 (oneEach, ⟨0, 1, 1, 0, none⟩)) =
        .ok (served, last) ∧
      served.map Choice.source = .overload :: (List.replicate 10 .idle ++ [.overload]) ∧
      ∀ c ∈ served, 0 ≤ c.cnt' ∧ c.cnt' ≤ 10 := by
  rcases overload_probed (new 1 1 .pulling 10) (by decide) (by decide)
    (List.replicate 12 (oneEach, ⟨0, 1, 1, 0, none⟩)) with ⟨served, last, hserve, _, hserved, _⟩
  refine ⟨served, last, hserve, ?_, fun c hc => (hserved c hc).1⟩
  cases hserve
  decide

end LoadBalance
end Agent
end Rins
