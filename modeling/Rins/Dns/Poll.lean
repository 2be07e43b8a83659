import Rins.Dns.Route
import Rins.Lib.Run

/-!
# Poll — `check_route_changes` against the writers of the database

The poll thread runs its statements one by one; the statements of any number of writers come in
between.  A writer executes three of them (insert a row into `RouteData`, set `RouteVersion`, insert
a row into `RouteChange`), `dns_route_drop.sql` two (delete all of `RouteData`, set `RouteVersion`);
which statement belongs to whom is not tracked, so the runs here include every interleaving of
every set of writers.

Two things are asked of the loop.  No change row may be lost: a row that the poller will not look at
again must have been published.  And what is published must be backed by data loaded for it.
-/

namespace Rins
namespace Dns

open Lib

/-! ## The poll thread as a state machine -/

/-- The statement `check_route_changes` executes next; `now` is `current_time` of the iteration. -/
inductive PollPc
  /-- `remove_changes(true)`, before the loop -/
  | start
  /-- `load_version()`, the first statement of an iteration -/
  | wait
  | loadData (now : Int)
  | swap (now : Int)
  | loadChanges
  /-- `publish(changes)`, with the rows whose keys are `changes` -/
  | publish (changes : List ChangeRow)
  /-- `remove_changes(false)` -/
  | removeChanges
  /-- `load_route_data()` in the branch without a new version -/
  | reloadData (now : Int)
  | reloadSwap (now : Int)
  deriving DecidableEq

/-- `wait_time`, in seconds. -/
def waitTime : Int := 10

/-- The database, the poll thread, and the history that the results are about. -/
structure Poll where
  db : Database
  route : Route
  pc : PollPc
  lastLoadTime : Int
  /-- rows inserted into `RouteChange` since `remove_changes(true)` -/
  inserted : List ChangeRow
  /-- rows whose keys were in a list given to `publish` -/
  published : List ChangeRow
  /-- rows deleted by `remove_changes(false)` -/
  removed : List ChangeRow
  /-- the table that `load_route_data` filled since `load_version` last returned 1 -/
  loaded : Option RouteMap
  /-- if that load failed: the version it was for, and the change rows up to that version -/
  failed : Option (Nat × List ChangeRow)

namespace Poll

/-- The poll thread about to start; `_version` and the two tables hold anything. -/
def init (db : Database) (route : Route) (now : Int) : Poll :=
  { db := db
    route := route
    pc := .start
    lastLoadTime := now
    inserted := []
    published := []
    removed := []
    loaded := none
    failed := none }

inductive Act
  /-- the next statement of the poll thread, whose query succeeds or fails, at the given time -/
  | poll (ok : Bool) (now : Int)
  | insertData (row : RouteRow)
  | deleteData
  | setVersion (t : Nat)
  | insertChange (modid cmdid : Int32) (t : Nat)

/-- One statement of `check_route_changes`. -/
def pollStep (s : Poll) (ok : Bool) (now : Int) : Poll :=
  match s.pc with
  | .start =>
      { s with
        db := s.route.removeChanges ok true s.db
        pc := .wait
        inserted := []
        published := []
        removed := [] }
  | .wait =>
      let (ret, route) := s.route.loadVersion ok s.db
      if ret = 1 then
        { s with route := route, pc := .loadData now, loaded := none, failed := none }
      else if now - s.lastLoadTime ≥ waitTime then
        { s with route := route, pc := .reloadData now }
      else
        { s with route := route }
  | .loadData now =>
      let (ret, route) := s.route.loadRouteData ok s.db
      if ret = 0 then
        { s with route := route, pc := .swap now, loaded := some route.tempMap }
      else
        { s with
          route := route
          pc := .loadChanges
          failed := some (route.version, s.db.routeChange.filter fun row =>
            row.version ≤ route.version) }
  | .swap now =>
      { s with route := s.route.swap, pc := .loadChanges, lastLoadTime := now }
  | .loadChanges =>
      { s with pc := .publish (s.route.loadChanges ok s.db) }
  | .publish changes =>
      { s with pc := .removeChanges, published := s.published ++ changes }
  | .removeChanges =>
      let db := s.route.removeChanges ok false s.db
      { s with
        db := db
        pc := .wait
        removed := s.removed ++ s.db.routeChange.filter fun row => row ∉ db.routeChange }
  | .reloadData now =>
      let (ret, route) := s.route.loadRouteData ok s.db
      if ret = 0 then { s with route := route, pc := .reloadSwap now }
      else { s with route := route, pc := .wait }
  | .reloadSwap now =>
      { s with route := s.route.swap, pc := .wait, lastLoadTime := now }

/-- One statement of anybody. -/
def step (s : Poll) : Act → Option Poll
  | .poll ok now => some (pollStep s ok now)
  | .insertData row => some { s with db := { s.db with routeData := s.db.routeData ++ [row] } }
  | .deleteData => some { s with db := { s.db with routeData := [] } }
  | .setVersion t =>
      -- `UPDATE .. WHERE id = 1` changes nothing if there is no such row
      some { s with db := { s.db with routeVersion := s.db.routeVersion.map fun _ => t } }
  | .insertChange modid cmdid t =>
      let row : ChangeRow := { id := s.db.nextId, modid := modid, cmdid := cmdid, version := t }
      some { s with
        db := { s.db with
          routeChange := s.db.routeChange ++ [row]
          nextId := s.db.nextId + 1 }
        inserted := s.inserted ++ [row] }

/-! ## What a statement can do -/

/-- Before the next `load_version`, with nothing selected. -/
def idle : PollPc → Bool
  | .wait | .reloadData _ | .reloadSwap _ => true
  | _ => false

/-- The outcomes of one statement of `check_route_changes`, with what the query must have found. -/
inductive Statement (s : Poll) (ok : Bool) : Poll → Prop
  | start (hpc : s.pc = .start) :
      Statement s ok
        { s with
          db := s.route.removeChanges ok true s.db
          pc := .wait
          inserted := []
          published := []
          removed := [] }
  | newVersion (v : Nat) (now : Int) (hpc : s.pc = .wait) (hok : ok = true)
      (hversion : s.db.routeVersion = some v) (hnew : v ≠ s.route.version) :
      Statement s ok
        { s with
          route := { s.route with version := v }
          pc := .loadData now
          loaded := none
          failed := none }
  -- the version is the same, or there is none
  | noVersion (pc : PollPc) (hpc : s.pc = .wait) (hidle : idle pc = true)
      (hold : s.db.routeVersion = some s.route.version ∨ ok = false ∨ s.db.routeVersion = none) :
      Statement s ok { s with pc := pc }
  | loaded (start : Int) (hpc : s.pc = .loadData start) (hok : ok = true)
      (hrows : s.db.routeData ≠ []) :
      Statement s ok
        { s with
          route := { s.route with tempMap := RouteMap.ofRows s.db.routeData }
          pc := .swap start
          loaded := some (RouteMap.ofRows s.db.routeData) }
  -- the iteration goes on as if the table were new
  | notLoaded (start : Int) (hpc : s.pc = .loadData start)
      (hfail : ok = false ∨ s.db.routeData = []) :
      Statement s ok
        { s with
          route := { s.route with tempMap := RouteMap.empty }
          pc := .loadChanges
          failed := some (s.route.version, s.db.routeChange.filter fun row =>
            row.version ≤ s.route.version) }
  | swap (start : Int) (hpc : s.pc = .swap start) :
      Statement s ok { s with route := s.route.swap, pc := .loadChanges, lastLoadTime := start }
  | loadChanges (hpc : s.pc = .loadChanges) :
      Statement s ok { s with pc := .publish (s.route.loadChanges ok s.db) }
  | publish (changes : List ChangeRow) (hpc : s.pc = .publish changes) :
      Statement s ok { s with pc := .removeChanges, published := s.published ++ changes }
  | removeChanges (hpc : s.pc = .removeChanges) :
      Statement s ok
        { s with
          db := s.route.removeChanges ok false s.db
          pc := .wait
          removed := s.removed ++ s.db.routeChange.filter fun row =>
            row ∉ (s.route.removeChanges ok false s.db).routeChange }
  | reload (start : Int) (tempMap : RouteMap) (pc : PollPc) (hpc : s.pc = .reloadData start)
      (hidle : idle pc = true) :
      Statement s ok { s with route := { s.route with tempMap := tempMap }, pc := pc }
  | reloadSwap (start : Int) (hpc : s.pc = .reloadSwap start) :
      Statement s ok { s with route := s.route.swap, pc := .wait, lastLoadTime := start }

theorem pollStep_statement (s : Poll) (ok : Bool) (now : Int) :
    Statement s ok (pollStep s ok now) := by
  cases hpc : s.pc with
  | start =>
      simp only [pollStep, hpc]
      exact .start hpc
  | wait =>
      rcases Route.loadVersion_cases ok s.db s.route with
        ⟨v, hok, hversion, hnew, hload⟩ | ⟨_, hversion, hload⟩ | ⟨hnone, hload⟩
      · simp only [pollStep, hpc, hload, if_true]
        exact .newVersion v now hpc hok hversion hnew
      · simp only [pollStep, hpc, hload]
        rw [if_neg (by decide)]
        split_ifs <;> exact .noVersion _ hpc rfl (Or.inl hversion)
      · simp only [pollStep, hpc, hload]
        rw [if_neg (by decide)]
        split_ifs <;> exact .noVersion _ hpc rfl (Or.inr hnone)
  | loadData start =>
      rcases Route.loadRouteData_cases ok s.db s.route with ⟨hok, hrows, hload⟩ | ⟨hfail, hload⟩
      · simp only [pollStep, hpc, hload, if_true]
        exact .loaded start hpc hok hrows
      · simp only [pollStep, hpc, hload]
        rw [if_neg (by decide)]
        exact .notLoaded start hpc hfail
  | swap start =>
      simp only [pollStep, hpc]
      exact .swap start hpc
  | loadChanges =>
      simp only [pollStep, hpc]
      exact .loadChanges hpc
  | publish changes =>
      simp only [pollStep, hpc]
      exact .publish changes hpc
  | removeChanges =>
      simp only [pollStep, hpc]
      exact .removeChanges hpc
  | reloadData start =>
      rcases Route.loadRouteData_cases ok s.db s.route with ⟨_, _, hload⟩ | ⟨_, hload⟩
      · simp only [pollStep, hpc, hload, if_true]
        exact .reload start _ _ hpc rfl
      · simp only [pollStep, hpc, hload]
        rw [if_neg (by decide)]
        exact .reload start _ _ hpc rfl
  | reloadSwap start =>
      simp only [pollStep, hpc]
      exact .reloadSwap start hpc

/-- Only the two swaps change the table that answers requests. -/
theorem Statement.dataMap {s t : Poll} {ok : Bool} (h : Statement s ok t)
    (hswap : ∀ now, s.pc ≠ .swap now) (hreload : ∀ now, s.pc ≠ .reloadSwap now) :
    t.route.dataMap = s.route.dataMap := by
  cases h with
  | swap start hpc =>
      exact absurd hpc (hswap start)
  | reloadSwap start hpc =>
      exact absurd hpc (hreload start)
  | _ =>
      rfl

/-- A writer touches only the database. -/
theorem step_writer {s t : Poll} {a : Act} (ha : ∀ ok now, a ≠ .poll ok now)
    (hstep : step s a = some t) : t.route = s.route ∧ t.pc = s.pc := by
  cases a with
  | poll ok now =>
      exact absurd rfl (ha ok now)
  | insertData row =>
      cases hstep
      exact ⟨rfl, rfl⟩
  | deleteData =>
      cases hstep
      exact ⟨rfl, rfl⟩
  | setVersion v =>
      cases hstep
      exact ⟨rfl, rfl⟩
  | insertChange modid cmdid v =>
      cases hstep
      exact ⟨rfl, rfl⟩

/-! ## No change row is lost -/

/-- Between `load_version` returning 1 and `load_changes`. -/
def collecting : PollPc → Bool
  | .loadData _ | .swap _ | .loadChanges => true
  | _ => false

/-- The condition under which change rows are safe.  A row is inserted before the poller has seen
its version, or while an iteration that has seen it is still collecting, or when the poller is due
to see a new version.  `RouteVersion` is not set back to what the poller holds.  All queries
succeed. -/
def Timely (s : Poll) : Act → Prop
  | .poll ok _ => ok = true
  | .setVersion t =>
      idle s.pc = true → t = s.route.version → s.db.routeVersion = some s.route.version
  | .insertChange _ _ t =>
      s.pc = .start ∨ s.route.version < t ∨ collecting s.pc = true ∨
        (idle s.pc = true ∧ s.db.routeVersion ≠ some s.route.version)
  | _ => True

/-- Why a row that is still in the table will not be overlooked. -/
def Due (s : Poll) (row : ChangeRow) : Prop :=
  s.route.version < row.version ∨ collecting s.pc = true ∨
    (∃ changes, s.pc = .publish changes ∧ row ∈ changes) ∨
    (idle s.pc = true ∧ s.db.routeVersion ≠ some s.route.version)

/-- After the loop was entered: a row that was inserted is published or still in the table, and a
row in the table is published or due. -/
structure Inv (s : Poll) : Prop where
  kept : ∀ row ∈ s.inserted, row ∈ s.published ∨ row ∈ s.db.routeChange
  due : ∀ row ∈ s.db.routeChange, row ∈ s.published ∨ Due s row
  removed : ∀ row ∈ s.removed, row ∈ s.published

/-- The invariant holds from the first statement of the loop on. -/
def Running (s : Poll) : Prop :=
  s.pc ≠ .start → Inv s

/-- A statement that changes neither the rows nor what was published keeps the invariant if it keeps
the rows due. -/
theorem Inv.of_due {s t : Poll} (h : Inv s) (hinserted : t.inserted = s.inserted)
    (hpublished : t.published = s.published) (hremoved : t.removed = s.removed)
    (hrows : t.db.routeChange = s.db.routeChange)
    (hdue : ∀ row ∈ s.db.routeChange, Due s row → Due t row) : Inv t where
  kept := by
    rw [hinserted, hpublished, hrows]
    exact h.kept
  due := by
    intro row hrow
    rw [hrows] at hrow
    rw [hpublished]
    exact (h.due row hrow).imp_right (hdue row hrow)
  removed := by
    rw [hremoved, hpublished]
    exact h.removed

/-- While the poller has selected nothing and collects nothing, a row that is due is either too new
or waiting for a version that differs. -/
theorem Due.of_idle {s : Poll} (hidle : idle s.pc = true) {row : ChangeRow} (h : Due s row) :
    s.route.version < row.version ∨ s.db.routeVersion ≠ some s.route.version := by
  rcases h with hnew | hcollect | ⟨changes, hpc, _⟩ | ⟨_, hversion⟩
  · exact Or.inl hnew
  · -- the poller is not collecting
    cases hpc : s.pc <;> simp [hpc, idle, collecting] at hidle hcollect
  · simp [hpc, idle] at hidle
  · exact Or.inr hversion

/-- Going from one idle statement to the next changes nothing for any row. -/
theorem Inv.of_idle {s t : Poll} (h : Inv s) (hs : idle s.pc = true) (ht : idle t.pc = true)
    (hversion : t.route.version = s.route.version) (hdb : t.db = s.db)
    (hinserted : t.inserted = s.inserted) (hpublished : t.published = s.published)
    (hremoved : t.removed = s.removed) : Inv t := by
  refine h.of_due hinserted hpublished hremoved (by rw [hdb]) fun row _ hdue => ?_
  rcases hdue.of_idle hs with hnew | hdiff
  · exact Or.inl (hversion ▸ hnew)
  · exact Or.inr (Or.inr (Or.inr ⟨ht, by rw [hdb, hversion]; exact hdiff⟩))

theorem Due.of_removeChanges {s : Poll} (hpc : s.pc = .removeChanges) {row : ChangeRow}
    (h : Due s row) : s.route.version < row.version := by
  rcases h with hnew | hcollect | ⟨changes, hpub, _⟩ | ⟨hidle, _⟩
  · exact hnew
  · simp [hpc, collecting] at hcollect
  · simp [hpc] at hpub
  · simp [hpc, idle] at hidle

theorem Due.of_publish {s : Poll} {changes : List ChangeRow} (hpc : s.pc = .publish changes)
    {row : ChangeRow} (h : Due s row) : s.route.version < row.version ∨ row ∈ changes := by
  rcases h with hnew | hcollect | ⟨changes', hpub, hmem⟩ | ⟨hidle, _⟩
  · exact Or.inl hnew
  · simp [hpc, collecting] at hcollect
  · rw [hpc] at hpub
    cases hpub
    exact Or.inr hmem
  · simp [hpc, idle] at hidle

/-- `remove_changes(false)` deletes what is not newer than `_version`. -/
theorem Inv.removeChanges {s : Poll} (h : Inv s) (hpc : s.pc = .removeChanges) :
    Inv { s with
      db := s.route.removeChanges true false s.db
      pc := .wait
      removed := s.removed ++ s.db.routeChange.filter fun row =>
        row ∉ (s.route.removeChanges true false s.db).routeChange } := by
  have hrows : ∀ row, row ∈ (s.route.removeChanges true false s.db).routeChange ↔
      row ∈ s.db.routeChange ∧ s.route.version < row.version := by
    simp [Route.removeChanges]
  -- a row that goes away is due no more, so it was published
  have hgone : ∀ row ∈ s.db.routeChange, row.version ≤ s.route.version → row ∈ s.published := by
    intro row hrow hold
    rcases h.due row hrow with hdone | hdue
    · exact hdone
    · exact absurd (hdue.of_removeChanges hpc) (Nat.not_lt.2 hold)
  refine ⟨?_, ?_, ?_⟩
  · intro row hrow
    rcases h.kept row hrow with hdone | hstill
    · exact Or.inl hdone
    · by_cases hold : row.version ≤ s.route.version
      · exact Or.inl (hgone row hstill hold)
      · exact Or.inr ((hrows row).2 ⟨hstill, Nat.lt_of_not_le hold⟩)
  · intro row hrow
    exact Or.inr (Or.inl ((hrows row).1 hrow).2)
  · intro row hrow
    rcases List.mem_append.1 hrow with hbefore | hdeleted
    · exact h.removed row hbefore
    · rcases List.mem_filter.1 hdeleted with ⟨hrow, hnot⟩
      refine hgone row hrow (Nat.le_of_not_lt fun hnew => ?_)
      exact of_decide_eq_true hnot ((hrows row).2 ⟨hrow, hnew⟩)

theorem Statement.inv {s t : Poll} (h : Statement s true t) (hrunning : Running s) : Inv t := by
  cases h with
  | start hpc =>
      -- `remove_changes(true)` has emptied the table
      exact ⟨by simp, by simp [Route.removeChanges], by simp⟩
  | newVersion v now hpc =>
      -- everything in the table will be looked at
      exact (hrunning (by simp [hpc])).of_due rfl rfl rfl rfl fun _ _ _ => Or.inr (Or.inl rfl)
  | noVersion pc hpc hidle =>
      exact (hrunning (by simp [hpc])).of_idle (by simp [hpc, idle]) hidle rfl rfl rfl rfl rfl
  | loaded start hpc =>
      exact (hrunning (by simp [hpc])).of_due rfl rfl rfl rfl fun _ _ _ => Or.inr (Or.inl rfl)
  | notLoaded start hpc =>
      exact (hrunning (by simp [hpc])).of_due rfl rfl rfl rfl fun _ _ _ => Or.inr (Or.inl rfl)
  | swap start hpc =>
      exact (hrunning (by simp [hpc])).of_due rfl rfl rfl rfl fun _ _ _ => Or.inr (Or.inl rfl)
  | loadChanges hpc =>
      refine (hrunning (by simp [hpc])).of_due rfl rfl rfl rfl fun row hrow _ => ?_
      -- the query selects what is not newer than `_version`
      by_cases hold : row.version ≤ s.route.version
      · exact Or.inr (Or.inr (Or.inl ⟨_, rfl, by simp [Route.loadChanges, hrow, hold]⟩))
      · exact Or.inl (Nat.lt_of_not_le hold)
  | publish changes hpc =>
      have h := hrunning (by simp [hpc])
      refine ⟨?_, ?_, ?_⟩
      · intro row hrow
        exact (h.kept row hrow).imp_left (List.mem_append_left _)
      · intro row hrow
        rcases h.due row hrow with hdone | hdue
        · exact Or.inl (List.mem_append_left _ hdone)
        · rcases hdue.of_publish hpc with hnew | hmem
          · exact Or.inr (Or.inl hnew)
          · exact Or.inl (List.mem_append_right _ hmem)
      · intro row hrow
        exact List.mem_append_left _ (h.removed row hrow)
  | removeChanges hpc =>
      exact (hrunning (by simp [hpc])).removeChanges hpc
  | reload start tempMap pc hpc hidle =>
      exact (hrunning (by simp [hpc])).of_idle (by simp [hpc, idle]) hidle rfl rfl rfl rfl rfl
  | reloadSwap start hpc =>
      exact (hrunning (by simp [hpc])).of_idle (by simp [hpc, idle]) rfl rfl rfl rfl rfl rfl

instance (s : Poll) : ∀ a, Decidable (Timely s a)
  | .poll ok _ => inferInstanceAs (Decidable (ok = true))
  | .insertData _ => isTrue trivial
  | .deleteData => isTrue trivial
  | .setVersion t =>
      inferInstanceAs (Decidable
        (idle s.pc = true → t = s.route.version → s.db.routeVersion = some s.route.version))
  | .insertChange _ _ t =>
      inferInstanceAs (Decidable
        (s.pc = .start ∨ s.route.version < t ∨ collecting s.pc = true ∨
          (idle s.pc = true ∧ s.db.routeVersion ≠ some s.route.version)))

theorem step_running {s t : Poll} {a : Act} (h : Running s) (htimely : Timely s a)
    (hstep : step s a = some t) : Running t := by
  cases a with
  | poll ok now =>
      cases htimely
      cases hstep
      exact fun _ => (pollStep_statement s true now).inv h
  | insertData row =>
      cases hstep
      intro hpc
      exact (h hpc).of_due rfl rfl rfl rfl fun _ _ hdue => hdue
  | deleteData =>
      cases hstep
      intro hpc
      exact (h hpc).of_due rfl rfl rfl rfl fun _ _ hdue => hdue
  | setVersion v =>
      cases hstep
      intro hpc
      refine (h hpc).of_due rfl rfl rfl rfl fun row _ hdue => ?_
      rcases hdue with hnew | hcollect | hpublish | ⟨hidle, hdiff⟩
      · exact Or.inl hnew
      · exact Or.inr (Or.inl hcollect)
      · exact Or.inr (Or.inr (Or.inl hpublish))
      · -- the version stays different, or the row would be overlooked
        refine Or.inr (Or.inr (Or.inr ⟨hidle, ?_⟩))
        intro hsame
        rcases Option.map_eq_some_iff.1 hsame with ⟨old, _, hv⟩
        exact hdiff (htimely hidle hv)
  | insertChange modid cmdid v =>
      cases hstep
      intro hpc
      have hinv := h hpc
      refine ⟨?_, ?_, hinv.removed⟩
      · intro row hrow
        rcases List.mem_append.1 hrow with hold | hnew
        · exact (hinv.kept row hold).imp_right (List.mem_append_left _)
        · exact Or.inr (List.mem_append_right _ hnew)
      · intro row hrow
        rcases List.mem_append.1 hrow with hold | hnew
        · exact hinv.due row hold
        · rw [List.mem_singleton] at hnew
          subst hnew
          right
          rcases htimely with hstart | hlater | hcollect | hversion
          · exact absurd hstart hpc
          · exact Or.inl hlater
          · exact Or.inr (Or.inl hcollect)
          · exact Or.inr (Or.inr (Or.inr hversion))

theorem run_running {db : Database} {route : Route} {now : Int} {as : List Act} {s : Poll}
    (htimely : Meets step Timely (init db route now) as)
    (hrun : run step (init db route now) as = some s) : Running s :=
  run_invariant (fun _ _ _ => step_running) (fun hpc => absurd rfl hpc) htimely hrun

/-- In every run in which change rows are inserted in time: when an iteration finds the version
unchanged, every row inserted so far that is not newer than `_version` was published; and no row is
deleted that was not published. -/
theorem unchanged_version_published (db : Database) (route : Route) (now : Int) (as : List Act)
    (s : Poll) (htimely : Meets step Timely (init db route now) as)
    (hrun : run step (init db route now) as = some s) :
    (s.pc = .wait → (s.route.loadVersion true s.db).1 = 0 →
        ∀ row ∈ s.inserted, row.version ≤ s.route.version → row ∈ s.published) ∧
      (s.pc ≠ .start → ∀ row ∈ s.removed, row ∈ s.published) := by
  have hrunning := run_running htimely hrun
  refine ⟨?_, fun hpc => (hrunning hpc).removed⟩
  intro hpc hzero row hrow hold
  have hinv := hrunning (by simp [hpc])
  have hsame : s.db.routeVersion = some s.route.version := by
    rcases Route.loadVersion_cases true s.db s.route with
      ⟨v, _, _, _, hload⟩ | ⟨_, hversion, _⟩ | ⟨_, hload⟩
    · simp [hload] at hzero
    · exact hversion
    · simp [hload] at hzero
  rcases hinv.kept row hrow with hdone | hstill
  · exact hdone
  · rcases hinv.due row hstill with hdone | hdue
    · exact hdone
    · rcases hdue.of_idle (by simp [hpc, idle]) with hnew | hdiff
      · exact absurd hold (Nat.not_le.2 hnew)
      · exact absurd hsame hdiff

/-! ### Two orders of the same statements -/

/-- A database with one route and version 0. -/
def sampleDb : Database :=
  { routeData := [{ modid := 1, cmdid := 1, ip := 3232235953, port := 7777 }]
    routeVersion := some 0
    routeChange := []
    nextId := 0 }

def sampleRoute : Route :=
  { version := 0
    dataMap := RouteMap.empty
    tempMap := RouteMap.empty }

/-- The six statements of an iteration that sees a new version. -/
def fullIteration : List Act :=
  List.replicate 6 (.poll true 1)

/-- A writer's first two statements. -/
def announce : List Act :=
  [.insertData { modid := 1, cmdid := 1, ip := 3232235977, port := 9999 }, .setVersion 5]

/-- The writer is done before the iteration begins. -/
theorem unchanged_version_published_early :
    ∃ s, run step (init sampleDb sampleRoute 0)
        ([.poll true 0] ++ announce ++ [.insertChange 1 1 5] ++ fullIteration) = some s ∧
      s.inserted ≠ [] ∧ ∀ row ∈ s.inserted, row ∈ s.published := by
  have hmeets : Meets step Timely (init sampleDb sampleRoute 0)
      ([.poll true 0] ++ announce ++ [.insertChange 1 1 5] ++ fullIteration) := by
    decide
  refine ⟨_, rfl, by decide, ?_⟩
  have hdone := (unchanged_version_published sampleDb sampleRoute 0 _ _ hmeets rfl).1 rfl rfl
  intro row hrow
  refine hdone row hrow ?_
  revert row
  decide

/-- The iteration runs between the writer's second and third statement: the row comes too late, and
the next iteration finds the version unchanged. -/
theorem unchanged_version_unpublished_late :
    ∃ s, run step (init sampleDb sampleRoute 0)
        ([.poll true 0] ++ announce ++ fullIteration ++ [.insertChange 1 1 5]) = some s ∧
      s.pc = .wait ∧ (s.route.loadVersion true s.db).1 = 0 ∧
      ∃ row ∈ s.inserted, row.version ≤ s.route.version ∧ row ∉ s.published := by
  refine ⟨_, rfl, rfl, rfl, { id := 0, modid := 1, cmdid := 1, version := 5 }, ?_⟩
  decide

/-! ## What is published is backed -/

/-- Publishing and deleting happen only on a table loaded in the same iteration; and an iteration
that could not load leaves the change rows in place and `_version` such that the version is new
again. -/
structure Backed (s : Poll) : Prop where
  publish : ∀ changes, s.pc = .publish changes → s.loaded = some s.route.dataMap
  remove : s.pc = .removeChanges → s.loaded = some s.route.dataMap
  retry : ∀ v rows, s.failed = some (v, rows) → s.pc = .wait →
    s.route.version ≠ v ∧ ∀ row ∈ rows, row ∈ s.db.routeChange

/-- At the `load_route_data` of an iteration that has seen a new version. -/
def loading : PollPc → Bool
  | .loadData _ => true
  | _ => false

/-- Whenever an iteration has seen a new version, its query of `RouteData` succeeds and returns at
least one row. -/
def DataLoads (s : Poll) : Act → Prop
  | .poll ok _ => loading s.pc = true → ok = true ∧ s.db.routeData ≠ []
  | _ => True

instance (s : Poll) : ∀ a, Decidable (DataLoads s a)
  | .poll ok _ =>
      inferInstanceAs (Decidable (loading s.pc = true → ok = true ∧ s.db.routeData ≠ []))
  | .insertData _ => isTrue trivial
  | .deleteData => isTrue trivial
  | .setVersion _ => isTrue trivial
  | .insertChange _ _ _ => isTrue trivial

/-- No load has failed, and the table loaded in this iteration is where it should be. -/
structure Fresh (s : Poll) : Prop where
  failed : s.failed = none
  temp : ∀ now, s.pc = .swap now → s.loaded = some s.route.tempMap
  changes : s.pc = .loadChanges → s.loaded = some s.route.dataMap
  publish : ∀ changes, s.pc = .publish changes → s.loaded = some s.route.dataMap
  remove : s.pc = .removeChanges → s.loaded = some s.route.dataMap

theorem Fresh.backed {s : Poll} (h : Fresh s) : Backed s where
  publish := h.publish
  remove := h.remove
  retry := by
    intro v rows hfailed _
    rw [h.failed] at hfailed
    cases hfailed

/-- A statement with no table in flight keeps freshness trivially. -/
theorem Fresh.of_idle {s t : Poll} (h : Fresh s) (hfailed : t.failed = s.failed)
    (ht : idle t.pc = true) : Fresh t where
  failed := by rw [hfailed, h.failed]
  temp := by
    intro now hpc
    simp [hpc, idle] at ht
  changes := by
    intro hpc
    simp [hpc, idle] at ht
  publish := by
    intro changes hpc
    simp [hpc, idle] at ht
  remove := by
    intro hpc
    simp [hpc, idle] at ht

theorem Statement.fresh {s t : Poll} {ok : Bool} {now : Int} (hmove : Statement s ok t)
    (h : Fresh s) (hloads : DataLoads s (.poll ok now)) : Fresh t := by
  cases hmove with
  | start hpc =>
      exact h.of_idle rfl rfl
  | newVersion v now hpc =>
      exact ⟨rfl, by simp, by simp, by simp, by simp⟩
  | noVersion pc hpc hidle =>
      exact h.of_idle rfl hidle
  | loaded start hpc =>
      exact ⟨h.failed, by simp, by simp, by simp, by simp⟩
  | notLoaded start hpc hfail =>
      rcases hloads (by simp [hpc, loading]) with ⟨hok, hrows⟩
      rcases hfail with hno | hempty
      · simp [hok] at hno
      · exact absurd hempty hrows
  | swap start hpc =>
      -- the table just loaded becomes the one in use
      exact ⟨h.failed, by simp, fun _ => h.temp start hpc, by simp, by simp⟩
  | loadChanges hpc =>
      exact ⟨h.failed, by simp, by simp, fun _ _ => h.changes hpc, by simp⟩
  | publish changes hpc =>
      exact ⟨h.failed, by simp, by simp, by simp, fun _ => h.publish changes hpc⟩
  | removeChanges hpc =>
      exact h.of_idle rfl rfl
  | reload start tempMap pc hpc hidle =>
      exact h.of_idle rfl hidle
  | reloadSwap start hpc =>
      exact h.of_idle rfl rfl

theorem step_fresh {s t : Poll} {a : Act} (h : Fresh s) (hloads : DataLoads s a)
    (hstep : step s a = some t) : Fresh t := by
  cases a with
  | poll ok now =>
      cases hstep
      exact (pollStep_statement s ok now).fresh h hloads
  | insertData row =>
      cases hstep
      exact ⟨h.failed, h.temp, h.changes, h.publish, h.remove⟩
  | deleteData =>
      cases hstep
      exact ⟨h.failed, h.temp, h.changes, h.publish, h.remove⟩
  | setVersion v =>
      cases hstep
      exact ⟨h.failed, h.temp, h.changes, h.publish, h.remove⟩
  | insertChange modid cmdid v =>
      cases hstep
      exact ⟨h.failed, h.temp, h.changes, h.publish, h.remove⟩

theorem init_fresh (db : Database) (route : Route) (now : Int) : Fresh (init db route now) :=
  ⟨rfl, by simp [init], by simp [init], by simp [init], by simp [init]⟩

/-- In every run, with any writers and any failing queries, in which `RouteData` can be loaded
whenever a new version was seen, every publication and deletion is backed. -/
theorem publications_backed (db : Database) (route : Route) (now : Int) (as : List Act) (s : Poll)
    (hloads : Meets step DataLoads (init db route now) as)
    (hrun : run step (init db route now) as = some s) : Backed s :=
  (run_invariant (fun _ _ _ => step_fresh) (init_fresh db route now) hloads hrun).backed

/-- The condition cannot be dropped for any iteration: if the load fails, the next statement but one
publishes without a table. -/
theorem unbacked_of_failed_load {s : Poll} {start now₁ now₂ : Int} {ok ok' : Bool}
    (hpc : s.pc = .loadData start) (hloaded : s.loaded = none)
    (hfail : ok = false ∨ s.db.routeData = []) :
    ¬ Backed (pollStep (pollStep s ok now₁) ok' now₂) := by
  intro hbacked
  have hload : s.route.loadRouteData ok s.db =
      (-1, { s.route with tempMap := RouteMap.empty }) := by
    rcases Route.loadRouteData_cases ok s.db s.route with ⟨hok, hrows, _⟩ | ⟨_, hload⟩
    · rcases hfail with hno | hempty
      · simp [hok] at hno
      · exact absurd hempty hrows
    · exact hload
  simp only [pollStep, hpc, hload, show ¬ (-1 : Int) = 0 from by decide, if_false] at hbacked
  have hsome := hbacked.publish _ rfl
  rw [hloaded] at hsome
  cases hsome

/-- The writer of `sampleDb` again, and a full iteration that loads its data. -/
theorem publications_backed_early :
    ∃ s, run step (init sampleDb sampleRoute 0)
        ([.poll true 0] ++ announce ++ [.insertChange 1 1 5] ++
          List.replicate 4 (.poll true 1)) = some s ∧
      (∃ changes, s.pc = .publish changes ∧ changes ≠ []) ∧ Backed s := by
  have hloads : Meets step DataLoads (init sampleDb sampleRoute 0)
      ([.poll true 0] ++ announce ++ [.insertChange 1 1 5] ++
          List.replicate 4 (.poll true 1)) := by
    decide
  exact ⟨_, rfl, ⟨_, rfl, by decide⟩,
    publications_backed sampleDb sampleRoute 0 _ _ hloads rfl⟩

/-- `dns_route_drop.sql` has emptied `RouteData` when the iteration comes: the change row is
published without a table behind it. -/
theorem publications_unbacked_drop :
    ∃ s, run step (init sampleDb sampleRoute 0)
        ([.poll true 0] ++ announce ++ [.insertChange 1 1 5, .deleteData, .setVersion 6] ++
          List.replicate 3 (.poll true 1)) = some s ∧ ¬ Backed s := by
  refine ⟨_, rfl, ?_⟩
  intro hbacked
  have hsome := hbacked.publish _ rfl
  cases hsome

end Poll
end Dns
end Rins
