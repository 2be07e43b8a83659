import Rins.Dns.Poll

/-!
# Convergence — the table that is served catches up with the database

`check_route_changes` can miss versions and publish what it has not loaded.  But whatever has gone
wrong, it loads the whole of `RouteData` again when the last load is ten seconds old.  So once the
writers are quiet and the queries succeed, seven statements of the poll thread are enough for the
table that answers requests to be that of the database, and it stays so.

Seven is the longest way: the table that an old load has filled is still to be swapped in, the
iteration is to be finished, and the next one loads and swaps.
-/

namespace Rins
namespace Dns
namespace Poll

open Lib

/-- The table that `RouteData` makes. -/
def table (s : Poll) : RouteMap :=
  RouteMap.ofRows s.db.routeData

/-- The table of the database is served, and no swap is about to change that. -/
structure Settled (s : Poll) : Prop where
  served : s.route.dataMap = s.table
  loaded : ∀ now, s.pc = .swap now ∨ s.pc = .reloadSwap now → s.route.tempMap = s.table

/-- How many statements it takes at most until the table of the database is served, if they are
executed ten seconds after `time`. -/
inductive Nears (time : Int) (s : Poll) : Nat → Prop
  | settled (k : Nat) (h : s.Settled) : Nears time s k
  | loaded (k : Nat) (start : Int) (hpc : s.pc = .swap start ∨ s.pc = .reloadSwap start)
      (htemp : s.route.tempMap = s.table) : Nears time s (k + 1)
  | loading (k : Nat) (start : Int) (hpc : s.pc = .loadData start ∨ s.pc = .reloadData start) :
      Nears time s (k + 2)
  | waiting (k : Nat) (hpc : s.pc = .wait) (hlast : s.lastLoadTime ≤ time) : Nears time s (k + 3)
  | removing (k : Nat) (hpc : s.pc = .start ∨ s.pc = .removeChanges)
      (hlast : s.lastLoadTime ≤ time) : Nears time s (k + 4)
  | publishing (k : Nat) (changes : List ChangeRow) (hpc : s.pc = .publish changes)
      (hlast : s.lastLoadTime ≤ time) : Nears time s (k + 5)
  | collecting (k : Nat) (hpc : s.pc = .loadChanges) (hlast : s.lastLoadTime ≤ time) :
      Nears time s (k + 6)
  -- what the swap will serve was loaded too early
  | stale (k : Nat) (start : Int) (hpc : s.pc = .swap start ∨ s.pc = .reloadSwap start)
      (hstart : start ≤ time) : Nears time s (k + 7)

/-! ## One statement -/

theorem routeData_pollStep (s : Poll) (ok : Bool) (now : Int) :
    (pollStep s ok now).db.routeData = s.db.routeData := by
  have hremove : ∀ removeAll, (s.route.removeChanges ok removeAll s.db).routeData =
      s.db.routeData := by
    intro removeAll
    unfold Route.removeChanges
    split_ifs <;> rfl
  have hstatement := pollStep_statement s ok now
  generalize pollStep s ok now = t at hstatement
  cases hstatement with
  | start hpc => exact hremove true
  | removeChanges hpc => exact hremove false
  | _ => rfl

theorem table_pollStep (s : Poll) (ok : Bool) (now : Int) :
    (pollStep s ok now).table = s.table := by
  unfold table
  rw [routeData_pollStep]

/-- A load that succeeds. -/
theorem loadRouteData_table {s : Poll} (hrows : s.db.routeData ≠ []) :
    s.route.loadRouteData true s.db = (0, { s.route with tempMap := s.table }) := by
  rcases Route.loadRouteData_cases true s.db s.route with ⟨_, _, hload⟩ | ⟨hfail, _⟩
  · exact hload
  · rcases hfail with hfalse | hempty
    · cases hfalse
    · exact absurd hempty hrows

/-- What a statement does about the tables when the queries succeed: it swaps them, or loads the
table of the database to be swapped next, or leaves both alone. -/
theorem pollStep_tables {s : Poll} (hrows : s.db.routeData ≠ []) (now : Int) :
    ((∃ start, s.pc = .swap start ∨ s.pc = .reloadSwap start) ∧
        (pollStep s true now).route.dataMap = s.route.tempMap ∧
        ∀ start, (pollStep s true now).pc ≠ .swap start ∧
          (pollStep s true now).pc ≠ .reloadSwap start) ∨
      ((pollStep s true now).route.dataMap = s.route.dataMap ∧
        ∀ start, (pollStep s true now).pc = .swap start ∨
          (pollStep s true now).pc = .reloadSwap start →
            (pollStep s true now).route.tempMap = s.table) := by
  cases hpc : s.pc with
  | start => exact Or.inr (by simp [pollStep, hpc])
  | wait =>
      right
      rcases Route.loadVersion_cases true s.db s.route with
        ⟨v, _, _, _, hload⟩ | ⟨_, _, hload⟩ | ⟨_, hload⟩
      · simp [pollStep, hpc, hload]
      · simp only [pollStep, hpc, hload]
        rw [if_neg (by decide)]
        split_ifs <;> simp
      · simp only [pollStep, hpc, hload]
        rw [if_neg (by decide)]
        split_ifs <;> simp
  | loadData start => exact Or.inr (by simp [pollStep, hpc, loadRouteData_table hrows])
  | swap start => exact Or.inl (by simp [pollStep, hpc, Route.swap])
  | loadChanges => exact Or.inr (by simp [pollStep, hpc])
  | publish changes => exact Or.inr (by simp [pollStep, hpc])
  | removeChanges => exact Or.inr (by simp [pollStep, hpc])
  | reloadData start => exact Or.inr (by simp [pollStep, hpc, loadRouteData_table hrows])
  | reloadSwap start => exact Or.inl (by simp [pollStep, hpc, Route.swap])

/-- What is settled stays so. -/
theorem Settled.pollStep {s : Poll} (h : s.Settled) (hrows : s.db.routeData ≠ []) (now : Int) :
    (pollStep s true now).Settled := by
  rcases pollStep_tables hrows now with ⟨⟨start, hpc⟩, hdata, hnot⟩ | ⟨hdata, hnext⟩
  · refine ⟨?_, fun next hnext => ?_⟩
    · rw [hdata, table_pollStep, h.loaded start hpc]
    · rcases hnext with hswap | hswap
      · exact absurd hswap (hnot next).1
      · exact absurd hswap (hnot next).2
  · refine ⟨?_, fun next hpc => ?_⟩
    · rw [hdata, table_pollStep, h.served]
    · rw [hnext next hpc, table_pollStep]

/-- The statement that swaps in the table of the database. -/
theorem settled_swap {s : Poll} {start : Int}
    (hpc : s.pc = .swap start ∨ s.pc = .reloadSwap start) (htemp : s.route.tempMap = s.table)
    (now : Int) : (pollStep s true now).Settled := by
  have hdata : (pollStep s true now).route.dataMap = s.route.tempMap := by
    rcases hpc with hpc | hpc <;> simp [pollStep, hpc, Route.swap]
  refine ⟨by rw [hdata, table_pollStep, htemp], ?_⟩
  rcases hpc with hpc | hpc <;> simp [pollStep, hpc]

/-- A late iteration loads, with a new version or without. -/
theorem pollStep_wait {s : Poll} (hpc : s.pc = .wait) {now : Int}
    (hdue : now - s.lastLoadTime ≥ waitTime) (ok : Bool) :
    (pollStep s ok now).pc = .loadData now ∨ (pollStep s ok now).pc = .reloadData now := by
  rcases Route.loadVersion_cases ok s.db s.route with
    ⟨v, _, _, _, hload⟩ | ⟨_, _, hload⟩ | ⟨_, hload⟩
  · exact Or.inl (by simp [pollStep, hpc, hload])
  · exact Or.inr (by simp [pollStep, hpc, hload, hdue])
  · exact Or.inr (by simp [pollStep, hpc, hload, hdue])

/-- One statement brings the table of the database closer. -/
theorem Nears.pollStep {time now : Int} {s : Poll} {k : Nat} (h : Nears time s (k + 1))
    (hrows : s.db.routeData ≠ []) (hlate : time + waitTime ≤ now) :
    Nears time (pollStep s true now) k := by
  cases h with
  | settled _ h => exact .settled k (h.pollStep hrows now)
  | loaded k start hpc htemp => exact .settled k (settled_swap hpc htemp now)
  | loading k start hpc =>
      refine .loaded k start ?_ ?_
      · rcases hpc with hpc | hpc
        · exact Or.inl (by simp [Poll.pollStep, hpc, loadRouteData_table hrows])
        · exact Or.inr (by simp [Poll.pollStep, hpc, loadRouteData_table hrows])
      · rw [table_pollStep]
        rcases hpc with hpc | hpc <;> simp [Poll.pollStep, hpc, loadRouteData_table hrows]
  | waiting k hpc hlast => exact .loading k now (pollStep_wait hpc (by omega) true)
  | removing k hpc hlast =>
      refine .waiting k ?_ ?_
      · rcases hpc with hpc | hpc <;> simp [Poll.pollStep, hpc]
      · rcases hpc with hpc | hpc <;> simpa [Poll.pollStep, hpc] using hlast
  | publishing k changes hpc hlast =>
      exact .removing k (Or.inr (by simp [Poll.pollStep, hpc])) (by simpa [Poll.pollStep, hpc])
  | collecting k hpc hlast =>
      exact .publishing k _ (by simp [Poll.pollStep, hpc]; rfl) (by simpa [Poll.pollStep, hpc])
  | stale k start hpc hstart =>
      rcases hpc with hpc | hpc
      · exact .collecting k (by simp [Poll.pollStep, hpc]) (by simpa [Poll.pollStep, hpc])
      · exact .waiting (k + 3) (by simp [Poll.pollStep, hpc]) (by simpa [Poll.pollStep, hpc])

/-! ## Runs -/

/-- The poll thread alone, while its queries succeed. -/
def polls (times : List Int) : List Act :=
  times.map fun now => .poll true now

theorem run_polls (s : Poll) (times : List Int) : ∃ t, run step s (polls times) = some t := by
  induction times generalizing s with
  | nil => exact ⟨s, rfl⟩
  | cons now times ih =>
      rcases ih (pollStep s true now) with ⟨t, hrun⟩
      exact ⟨t, run_cons.2 ⟨_, rfl, hrun⟩⟩

theorem settled_of_polls {time : Int} {times : List Int} :
    ∀ {s t : Poll}, Nears time s times.length → s.db.routeData ≠ [] →
      (∀ now ∈ times, time + waitTime ≤ now) → run step s (polls times) = some t →
      t.Settled ∧ t.db.routeData = s.db.routeData := by
  induction times with
  | nil =>
      intro s t h _ _ hrun
      cases hrun
      cases h with
      | settled _ h => exact ⟨h, rfl⟩
  | cons now times ih =>
      intro s t h hrows hlate hrun
      rcases run_cons.1 hrun with ⟨m, hstep, hrest⟩
      cases hstep
      have hdata := routeData_pollStep s true now
      rcases ih (h.pollStep hrows (hlate now List.mem_cons_self)) (by rwa [hdata])
        (fun now' hnow' => hlate now' (List.mem_cons_of_mem now hnow')) hrest with ⟨ht, hkept⟩
      exact ⟨ht, hkept.trans hdata⟩

/-- The time of the load that is going on. -/
def clock : PollPc → Option Int
  | .loadData start | .swap start | .reloadData start | .reloadSwap start => some start
  | _ => none

/-- No load was begun after the given time. -/
structure LoadedBefore (time : Int) (s : Poll) : Prop where
  last : s.lastLoadTime ≤ time
  current : ∀ start ∈ clock s.pc, start ≤ time

theorem LoadedBefore.nears {time : Int} {s : Poll} (h : LoadedBefore time s) {k : Nat}
    (hk : 7 ≤ k) : Nears time s k := by
  rcases Nat.exists_eq_add_of_le hk with ⟨k, rfl⟩
  rw [Nat.add_comm]
  cases hpc : s.pc with
  | start => exact .removing (k + 3) (Or.inl hpc) h.last
  | wait => exact .waiting (k + 4) hpc h.last
  | loadData start => exact .loading (k + 5) start (Or.inl hpc)
  | swap start => exact .stale k start (Or.inl hpc) (h.current start (by rw [hpc]; rfl))
  | loadChanges => exact .collecting (k + 1) hpc h.last
  | publish changes => exact .publishing (k + 2) changes hpc h.last
  | removeChanges => exact .removing (k + 3) (Or.inr hpc) h.last
  | reloadData start => exact .loading (k + 5) start (Or.inr hpc)
  | reloadSwap start => exact .stale k start (Or.inr hpc) (h.current start (by rw [hpc]; rfl))

/-- The clock of the statements so far. -/
def Until (time : Int) : Act → Prop
  | .poll _ now => now ≤ time
  | _ => True

theorem LoadedBefore.pollStep {time now : Int} {s : Poll} (h : LoadedBefore time s)
    (hnow : now ≤ time) (ok : Bool) : LoadedBefore time (pollStep s ok now) := by
  have hlast := h.last
  have hcurrent := h.current
  cases hpc : s.pc with
  | wait =>
      rcases Route.loadVersion_cases ok s.db s.route with
        ⟨v, _, _, _, hload⟩ | ⟨_, _, hload⟩ | ⟨_, hload⟩
      · exact ⟨by simpa [Poll.pollStep, hpc, hload], by simpa [Poll.pollStep, hpc, hload, clock]⟩
      · simp only [Poll.pollStep, hpc, hload]
        rw [if_neg (by decide)]
        split_ifs
        · exact ⟨hlast, by simpa [clock]⟩
        · exact ⟨hlast, by simp [clock]⟩
      · simp only [Poll.pollStep, hpc, hload]
        rw [if_neg (by decide)]
        split_ifs
        · exact ⟨hlast, by simpa [clock]⟩
        · exact ⟨hlast, by simp [clock]⟩
  | loadData start =>
      rw [hpc] at hcurrent
      rcases Route.loadRouteData_cases ok s.db s.route with ⟨_, _, hload⟩ | ⟨_, hload⟩
      · exact ⟨by simpa [Poll.pollStep, hpc, hload],
          by simpa [Poll.pollStep, hpc, hload, clock] using hcurrent⟩
      · exact ⟨by simpa [Poll.pollStep, hpc, hload], by simp [Poll.pollStep, hpc, hload, clock]⟩
  | reloadData start =>
      rw [hpc] at hcurrent
      rcases Route.loadRouteData_cases ok s.db s.route with ⟨_, _, hload⟩ | ⟨_, hload⟩
      · exact ⟨by simpa [Poll.pollStep, hpc, hload],
          by simpa [Poll.pollStep, hpc, hload, clock] using hcurrent⟩
      · exact ⟨by simpa [Poll.pollStep, hpc, hload], by simp [Poll.pollStep, hpc, hload, clock]⟩
  | swap start =>
      rw [hpc] at hcurrent
      exact ⟨by simpa [Poll.pollStep, hpc, clock] using hcurrent,
        by simp [Poll.pollStep, hpc, clock]⟩
  | reloadSwap start =>
      rw [hpc] at hcurrent
      exact ⟨by simpa [Poll.pollStep, hpc, clock] using hcurrent,
        by simp [Poll.pollStep, hpc, clock]⟩
  | _ => exact ⟨by simpa [Poll.pollStep, hpc], by simp [Poll.pollStep, hpc, clock]⟩

theorem LoadedBefore.step {time : Int} {s t : Poll} {a : Act} (h : LoadedBefore time s)
    (ha : Until time a) (hstep : step s a = some t) : LoadedBefore time t := by
  cases a with
  | poll ok now =>
      cases hstep
      exact h.pollStep ha ok
  | insertData row =>
      cases hstep
      exact ⟨h.last, h.current⟩
  | deleteData =>
      cases hstep
      exact ⟨h.last, h.current⟩
  | setVersion v =>
      cases hstep
      exact ⟨h.last, h.current⟩
  | insertChange modid cmdid v =>
      cases hstep
      exact ⟨h.last, h.current⟩

theorem loadedBefore_run {time : Int} {acts : List Act} (hclock : ∀ a ∈ acts, Until time a) :
    ∀ {s t : Poll}, LoadedBefore time s → run step s acts = some t → LoadedBefore time t := by
  induction acts with
  | nil =>
      intro s t h hrun
      cases hrun
      exact h
  | cons a acts ih =>
      intro s t h hrun
      rcases run_cons.1 hrun with ⟨m, hstep, hrest⟩
      exact ih (fun a' ha' => hclock a' (List.mem_cons_of_mem a ha'))
        (h.step (hclock a List.mem_cons_self) hstep) hrest

/-- Whatever the writers have done and however the queries have failed: if `RouteData` then stays as
it is and is not empty, and the poll thread executes seven statements or more with success, at least
ten seconds after all it did before, then the service answers every request with the hosts that the
database has for it. -/
theorem serves_database (db : Database) (route : Route) (now₀ time : Int) (acts : List Act)
    (s : Poll) (hrun : run step (init db route now₀) acts = some s) (hstart : now₀ ≤ time)
    (hclock : ∀ a ∈ acts, Until time a) (hrows : s.db.routeData ≠ []) (times : List Int)
    (hlate : ∀ now ∈ times, time + waitTime ≤ now) (hlong : 7 ≤ times.length) :
    ∃ t, run step s (polls times) = some t ∧
      ∀ modid cmdid host, host ∈ t.route.getHosts modid cmdid ↔
        ∃ row ∈ s.db.routeData, row.modid = modid ∧ row.cmdid = cmdid ∧ row.value = host := by
  have hinit : LoadedBefore time (init db route now₀) :=
    ⟨hstart, fun start hnone => by cases hnone⟩
  have hbefore : LoadedBefore time s := loadedBefore_run hclock hinit hrun
  rcases run_polls s times with ⟨t, hpolls⟩
  rcases settled_of_polls (hbefore.nears hlong) hrows hlate hpolls with ⟨hsettled, hdata⟩
  refine ⟨t, hpolls, fun modid cmdid host => ?_⟩
  rw [Route.getHosts, hsettled.served, table, hdata, RouteMap.mem_ofRows]
  constructor
  · rintro ⟨row, hrow, hkey, hvalue⟩
    rcases routeKey_inj hkey with ⟨hmodid, hcmdid⟩
    exact ⟨row, hrow, hmodid, hcmdid, hvalue⟩
  · rintro ⟨row, hrow, rfl, rfl, hvalue⟩
    exact ⟨row, hrow, rfl, hvalue⟩

/-- The host 0.0.0.2:80 for the pair `(1, 1)`. -/
def quietRow : RouteRow :=
  { modid := 1, cmdid := 1, ip := 2, port := 80 }

/-- A database without rows. -/
def emptyDatabase : Database :=
  { routeData := [], routeVersion := some 0, routeChange := [], nextId := 0 }

/-- A row that comes without a new version is served, too. -/
theorem serves_database_sample :
    ∃ s t, run step (init emptyDatabase sampleRoute 0) [.poll true 0, .insertData quietRow] =
        some s ∧
      run step s (polls (List.replicate 7 10)) = some t ∧
      quietRow.value ∈ t.route.getHosts 1 1 := by
  rcases serves_database emptyDatabase sampleRoute 0 0 [.poll true 0, .insertData quietRow] _ rfl
    (by decide) (by simp [Until]) (List.cons_ne_nil quietRow []) (List.replicate 7 10) (by decide)
    (by decide) with ⟨t, hrun, hhosts⟩
  exact ⟨_, t, rfl, hrun, (hhosts 1 1 _).2 ⟨quietRow, List.mem_cons_self, rfl, rfl, rfl⟩⟩

end Poll
end Dns
end Rins
