import Mathlib.Data.Finset.Basic
import Rins.Dns.Route
import Rins.Lib.Run

/-!
# Snapshot — readers of the route table against the poll thread

`_data_map` and `_temp_map` point to two map objects, which trade roles at each swap.  A reader
looks into `*_data_map` under the read lock; the poll thread clears and refills `*_temp_map` under
no lock at all, and exchanges the pointers under the write lock.

Here every statement that touches a pointer, a map object or the lock is a step of its own.  What
the readers and the poll thread do is kept in a log, and the log of every run is one of an abstract
table that is always complete: a swap installs, all at once, the rows of the load before it, and a
read looks up what is installed.
-/

namespace Rins
namespace Dns

open Lib

/-! ## The abstract table -/

/-- What can be observed of the table. -/
inductive TableEvent
  /-- `load_route_data` returns 0, having read these rows -/
  | loaded (rows : List RouteRow)
  /-- `load_route_data` returns -1 -/
  | failed
  | swapped
  /-- `get_hosts` returns these hosts -/
  | read (modid cmdid : Int32) (hosts : Finset UInt64)
  deriving DecidableEq

/-- A table without intermediate states: the rows that are installed, and those of a load that
waits to be. -/
structure View where
  installed : List RouteRow
  pending : Option (List RouteRow)
  deriving DecidableEq

namespace View

/-- What the abstract table allows to be observed. -/
def step (v : View) : TableEvent → Option View
  | .loaded rows => some { v with pending := some rows }
  | .failed => some v
  | .swapped => v.pending.map fun rows => { installed := rows, pending := none }
  | .read modid cmdid hosts =>
      if hosts = RouteMap.ofRows v.installed (routeKey modid cmdid) then some v else none

end View

/-! ## The threads -/

/-- One of the two map objects that the constructor of `route` makes. -/
inductive MapObj
  | first
  | second
  deriving DecidableEq

/-- `pthread_rwlock_t`: who holds it for reading, and whether it is held for writing. -/
structure RwLock (ρ : Type) where
  readers : Finset ρ
  writer : Bool

/-- Where the poll thread stands in `load_route_data` and `swap`. -/
inductive LoaderPc
  /-- in neither -/
  | idle
  /-- `_temp_map` is cleared, the query is next -/
  | cleared
  /-- in the loop over the rows of the result, with those that are not yet entered -/
  | inserting (rows rest : List RouteRow)
  /-- `load_route_data` has returned 0, `swap` is next -/
  | ready (rows : List RouteRow)
  /-- in `swap`, inside the lock -/
  | locked (rows : List RouteRow)
  /-- `_data_map` is overwritten, its old value is in `temp` -/
  | assigned (temp : MapObj)
  /-- `_temp_map` is overwritten, too -/
  | exchanged

/-- Where a thread stands in `get_hosts`. -/
inductive ReaderPc
  | idle
  | entered (modid cmdid : Int32)
  | locked (modid cmdid : Int32)
  /-- `it` points to the entry for the key in this object -/
  | found (modid cmdid : Int32) (obj : MapObj)
  | copied (hosts : Finset UInt64)

/-- The members of `route` that are shared, and where the threads stand; `ρ` are the readers. -/
structure Tables (ρ : Type) where
  objs : MapObj → RouteMap
  dataMap : MapObj
  tempMap : MapObj
  lock : RwLock ρ
  loader : LoaderPc
  readers : ρ → ReaderPc
  /-- history -/
  log : List TableEvent

namespace Tables

variable {ρ : Type}

/-- After `build_maps` has read the rows: the constructor runs before anybody has the object. -/
def init (rows : List RouteRow) : Tables ρ :=
  { objs := fun obj =>
      match obj with
      | .first => RouteMap.ofRows rows
      | .second => RouteMap.empty
    dataMap := .first
    tempMap := .second
    lock := { readers := ∅, writer := false }
    loader := .idle
    readers := fun _ => .idle
    log := [] }

/-- The two tables as `route` sees them. -/
def toRoute (s : Tables ρ) (version : Nat) : Route :=
  { version := version
    dataMap := s.objs s.dataMap
    tempMap := s.objs s.tempMap }

/-- The start is what `build_maps` leaves behind. -/
theorem buildMaps_eq_init (db : Database) (version : Nat) :
    Route.buildMaps true db version =
      some ((init db.routeData : Tables ρ).toRoute version) :=
  rfl

/-- The statements of `load_route_data` and `swap`. -/
inductive LoaderAct
  /-- `_temp_map->clear()` -/
  | clear
  /-- the result of the query; `none` if it or `mysql_store_result` fails -/
  | query (result : Option (List RouteRow))
  /-- one round of the loop over the result -/
  | insertRow
  /-- `return 0` -/
  | loadDone
  | wrlock
  /-- `temp = _data_map; _data_map = _temp_map` -/
  | assignData
  /-- `_temp_map = temp` -/
  | assignTemp
  | wrunlock

/-- The statements of `get_hosts`. -/
inductive ReaderAct
  | call (modid cmdid : Int32)
  | rdlock
  | find
  | copy
  | rdunlock

inductive Act (ρ : Type)
  | loader (a : LoaderAct)
  | reader (r : ρ) (a : ReaderAct)

/-- `(*_temp_map)[key].insert(value)`, or `_temp_map->clear()`. -/
def setTemp (s : Tables ρ) (map : RouteMap) : Tables ρ :=
  { s with objs := Function.update s.objs s.tempMap map }

section Steps

variable [DecidableEq ρ]

/-- The poll thread.  After a load that failed it goes on to other things. -/
def loaderStep (s : Tables ρ) (a : LoaderAct) : Option (Tables ρ) :=
  match s.loader, a with
  | .idle, .clear => some { s.setTemp RouteMap.empty with loader := .cleared }
  | .cleared, .query none => some { s with loader := .idle, log := s.log ++ [.failed] }
  | .cleared, .query (some []) => some { s with loader := .idle, log := s.log ++ [.failed] }
  | .cleared, .query (some (row :: rows)) =>
      some { s with loader := .inserting (row :: rows) (row :: rows) }
  | .inserting rows (row :: rest), .insertRow =>
      let map := s.objs s.tempMap
      some { s.setTemp (Function.update map row.key (insert row.value (map row.key))) with
        loader := .inserting rows rest }
  | .inserting rows [], .loadDone =>
      some { s with loader := .ready rows, log := s.log ++ [.loaded rows] }
  | .ready rows, .wrlock =>
      if s.lock.readers = ∅ ∧ s.lock.writer = false then
        some { s with lock := { s.lock with writer := true }, loader := .locked rows }
      else
        none
  | .locked _, .assignData =>
      some { s with
        dataMap := s.tempMap
        loader := .assigned s.dataMap
        log := s.log ++ [.swapped] }
  | .assigned temp, .assignTemp => some { s with tempMap := temp, loader := .exchanged }
  | .exchanged, .wrunlock =>
      some { s with lock := { s.lock with writer := false }, loader := .idle }
  | _, _ => none

def setReader (s : Tables ρ) (r : ρ) (pc : ReaderPc) : Tables ρ :=
  { s with readers := Function.update s.readers r pc }

/-- A thread in `get_hosts`. -/
def readerStep (s : Tables ρ) (r : ρ) (a : ReaderAct) : Option (Tables ρ) :=
  match s.readers r, a with
  | .idle, .call modid cmdid => some (s.setReader r (.entered modid cmdid))
  | .entered modid cmdid, .rdlock =>
      if s.lock.writer = false then
        some { s.setReader r (.locked modid cmdid) with
          lock := { s.lock with readers := insert r s.lock.readers } }
      else
        none
  | .locked modid cmdid, .find =>
      -- a key without hosts is not in the map
      if s.objs s.dataMap (routeKey modid cmdid) = ∅ then
        some { s.setReader r (.copied ∅) with log := s.log ++ [.read modid cmdid ∅] }
      else
        some (s.setReader r (.found modid cmdid s.dataMap))
  | .found modid cmdid obj, .copy =>
      let hosts := s.objs obj (routeKey modid cmdid)
      some { s.setReader r (.copied hosts) with log := s.log ++ [.read modid cmdid hosts] }
  | .copied _, .rdunlock =>
      some { s.setReader r .idle with
        lock := { s.lock with readers := s.lock.readers.erase r } }
  | _, _ => none

def step (s : Tables ρ) : Act ρ → Option (Tables ρ)
  | .loader a => s.loaderStep a
  | .reader r a => s.readerStep r a

end Steps

/-! ## What holds in every state -/

/-- The table that readers look into holds exactly these rows, and is not the one that the poll
thread fills. -/
structure Steady (objs : MapObj → RouteMap) (dataMap tempMap : MapObj) (rows : List RouteRow) :
    Prop where
  apart : dataMap ≠ tempMap
  complete : objs dataMap = RouteMap.ofRows rows

/-- What the poll thread relies on where it stands. -/
def LoaderInv (s : Tables ρ) (v : View) : Prop :=
  match s.loader with
  | .idle => Steady s.objs s.dataMap s.tempMap v.installed ∧ s.lock.writer = false
  | .cleared =>
      Steady s.objs s.dataMap s.tempMap v.installed ∧ s.lock.writer = false ∧
        s.objs s.tempMap = RouteMap.empty
  | .inserting rows rest =>
      Steady s.objs s.dataMap s.tempMap v.installed ∧ s.lock.writer = false ∧
        ∃ done, rows = done ++ rest ∧ s.objs s.tempMap = RouteMap.ofRows done
  | .ready rows =>
      Steady s.objs s.dataMap s.tempMap v.installed ∧ s.lock.writer = false ∧
        s.objs s.tempMap = RouteMap.ofRows rows ∧ v.pending = some rows
  | .locked rows =>
      Steady s.objs s.dataMap s.tempMap v.installed ∧ s.lock.writer = true ∧
        s.objs s.tempMap = RouteMap.ofRows rows ∧ v.pending = some rows
  | .assigned temp => Steady s.objs s.dataMap temp v.installed ∧ s.lock.writer = true
  | .exchanged => Steady s.objs s.dataMap s.tempMap v.installed ∧ s.lock.writer = true

/-- What a reader relies on where it stands. -/
def ReaderOk (s : Tables ρ) (r : ρ) : ReaderPc → Prop
  | .idle | .entered _ _ => True
  | .locked _ _ | .copied _ => r ∈ s.lock.readers
  | .found _ _ obj => r ∈ s.lock.readers ∧ obj = s.dataMap

/-- The invariant, with the state of the abstract table. -/
structure Inv (s : Tables ρ) (v : View) : Prop where
  loader : s.LoaderInv v
  exclusion : s.lock.writer = true → s.lock.readers = ∅
  reader : ∀ r, s.ReaderOk r (s.readers r)

theorem init_inv (rows : List RouteRow) :
    (init rows : Tables ρ).Inv { installed := rows, pending := none } where
  loader := ⟨⟨by simp [init], rfl⟩, rfl⟩
  exclusion := by simp [init]
  reader _ := trivial

/-- Wherever the poll thread stands, the table that readers look into is complete. -/
theorem LoaderInv.complete {s : Tables ρ} {v : View} (h : s.LoaderInv v) :
    s.objs s.dataMap = RouteMap.ofRows v.installed := by
  unfold LoaderInv at h
  split at h <;> exact h.1.complete

/-- While the lock is held for writing, nobody stands inside `get_hosts`. -/
theorem Inv.no_reader {s : Tables ρ} {v : View} (h : s.Inv v) (hwriter : s.lock.writer = true)
    {r : ρ} {modid cmdid : Int32} {obj : MapObj} : s.readers r ≠ .found modid cmdid obj := by
  intro hfound
  have hok := h.reader r
  rw [hfound] at hok
  have hmem := hok.1
  rw [h.exclusion hwriter] at hmem
  simp at hmem

/-- Changing the unlocked table changes nothing for the readers. -/
theorem Steady.update {objs : MapObj → RouteMap} {dataMap tempMap : MapObj} {rows : List RouteRow}
    (h : Steady objs dataMap tempMap rows) (map : RouteMap) :
    Steady (Function.update objs tempMap map) dataMap tempMap rows where
  apart := h.apart
  complete := by
    rw [Function.update_of_ne h.apart]
    exact h.complete

/-- What a reader relies on survives if it keeps its lock and `_data_map` stays. -/
theorem ReaderOk.mono {s t : Tables ρ} {r : ρ} {pc : ReaderPc} (h : s.ReaderOk r pc)
    (hlock : r ∈ s.lock.readers → r ∈ t.lock.readers) (hdata : t.dataMap = s.dataMap) :
    t.ReaderOk r pc := by
  cases pc with
  | idle | entered modid cmdid =>
      trivial
  | locked modid cmdid | copied hosts =>
      exact hlock h
  | found modid cmdid obj =>
      exact ⟨hlock h.1, h.2.trans hdata.symm⟩

/-! ## One step -/

theorem ofRows_snoc (rows : List RouteRow) (row : RouteRow) :
    RouteMap.ofRows (rows ++ [row]) =
      Function.update (RouteMap.ofRows rows) row.key
        (insert row.value (RouteMap.ofRows rows row.key)) := by
  simp [RouteMap.ofRows]

variable [DecidableEq ρ]

/-- A step of the poll thread is one of the abstract table, or none. -/
theorem loaderStep_inv {s t : Tables ρ} {v : View} {a : LoaderAct} (h : s.Inv v)
    (hstep : s.loaderStep a = some t) :
    ∃ events v', t.log = s.log ++ events ∧ run View.step v events = some v' ∧ t.Inv v' := by
  have hloader := h.loader
  unfold loaderStep at hstep
  unfold LoaderInv at hloader
  split at hstep
  · -- `clear`
    next hpc =>
      cases hstep
      simp only [hpc] at hloader
      refine ⟨[], v, by simp [setTemp], rfl, ⟨?_, h.exclusion, h.reader⟩⟩
      exact ⟨hloader.1.update _, hloader.2, by simp [setTemp]⟩
  · -- the query fails
    next hpc =>
      cases hstep
      simp only [hpc] at hloader
      exact ⟨[.failed], v, rfl, rfl, ⟨hloader.1, hloader.2.1⟩, h.exclusion, h.reader⟩
  · -- the table is empty
    next hpc =>
      cases hstep
      simp only [hpc] at hloader
      exact ⟨[.failed], v, rfl, rfl, ⟨hloader.1, hloader.2.1⟩, h.exclusion, h.reader⟩
  · -- the loop begins; nothing is entered yet
    next row rows hpc =>
      cases hstep
      simp only [hpc] at hloader
      exact ⟨[], v, by simp, rfl, ⟨hloader.1, hloader.2.1, [], rfl, hloader.2.2⟩, h.exclusion,
        h.reader⟩
  · -- one row is entered
    next rows row rest hpc =>
      cases hstep
      simp only [hpc] at hloader
      rcases hloader with ⟨hsteady, hwriter, done, hrows, htemp⟩
      refine ⟨[], v, by simp [setTemp], rfl, ⟨?_, h.exclusion, h.reader⟩⟩
      refine ⟨hsteady.update _, hwriter, done ++ [row], by simp [hrows], ?_⟩
      rw [ofRows_snoc, ← htemp]
      simp [setTemp]
  · -- the loop is over: `_temp_map` holds the whole result, and readers do not see it
    next rows hpc =>
      cases hstep
      simp only [hpc] at hloader
      rcases hloader with ⟨hsteady, hwriter, done, hrows, htemp⟩
      rw [List.append_nil] at hrows
      subst hrows
      exact ⟨[.loaded rows], { v with pending := some rows }, rfl, rfl,
        ⟨hsteady, hwriter, htemp, rfl⟩, h.exclusion, h.reader⟩
  · -- the write lock is taken, so nobody reads
    next rows hpc =>
      split_ifs at hstep with hfree
      cases hstep
      simp only [hpc] at hloader
      exact ⟨[], v, by simp, rfl, ⟨hloader.1, rfl, hloader.2.2⟩, fun _ => hfree.1, h.reader⟩
  · -- the pointer that readers use is overwritten
    next rows hpc =>
      cases hstep
      simp only [hpc] at hloader
      rcases hloader with ⟨hsteady, hwriter, htemp, hpending⟩
      refine ⟨[.swapped], { installed := rows, pending := none }, rfl, ?_,
        ⟨⟨⟨hsteady.apart.symm, htemp⟩, hwriter⟩, h.exclusion, ?_⟩⟩
      · simp [run, View.step, hpending]
      · intro r
        have hok := h.reader r
        cases hreader : s.readers r with
        | found modid cmdid obj =>
            -- only a reader between `find` and the copy depends on `_data_map`
            exact absurd hreader (h.no_reader hwriter)
        | _ =>
            simp only [hreader] at hok ⊢
            exact hok
  · -- the old table becomes the one to fill
    next temp hpc =>
      cases hstep
      simp only [hpc] at hloader
      exact ⟨[], v, by simp, rfl, hloader, h.exclusion, h.reader⟩
  · -- the write lock is released
    next hpc =>
      cases hstep
      simp only [hpc] at hloader
      exact ⟨[], v, by simp, rfl, ⟨hloader.1, rfl⟩, by simp, h.reader⟩
  · cases hstep

/-- The other readers do not notice what one of them does. -/
theorem reader_setReader {s t : Tables ρ} {v : View} {r : ρ} {pc : ReaderPc} (h : s.Inv v)
    (hreaders : t.readers = Function.update s.readers r pc) (hdata : t.dataMap = s.dataMap)
    (hlock : ∀ r', r' ≠ r → r' ∈ s.lock.readers → r' ∈ t.lock.readers) (hpc : t.ReaderOk r pc) :
    ∀ r', t.ReaderOk r' (t.readers r') := by
  intro r'
  rw [hreaders]
  by_cases hr : r' = r
  · subst hr
    rw [Function.update_self]
    exact hpc
  · rw [Function.update_of_ne hr]
    exact (h.reader r').mono (hlock r' hr) hdata

/-- A read sees what is installed; the other steps of a reader are none of the abstract table. -/
theorem readerStep_inv {s t : Tables ρ} {v : View} {r : ρ} {a : ReaderAct} (h : s.Inv v)
    (hstep : s.readerStep r a = some t) :
    ∃ events v', t.log = s.log ++ events ∧ run View.step v events = some v' ∧ t.Inv v' := by
  have hok := h.reader r
  unfold readerStep at hstep
  split at hstep
  · next modid cmdid hpc =>
      cases hstep
      refine ⟨[], v, by simp [setReader], rfl, h.loader, h.exclusion, ?_⟩
      exact reader_setReader h rfl rfl (fun _ _ hmem => hmem) trivial
  · -- the read lock is free to be taken only while nobody writes
    next modid cmdid hpc =>
      split_ifs at hstep with hfree
      cases hstep
      refine ⟨[], v, by simp [setReader], rfl, h.loader, ?_, ?_⟩
      · intro hwriter
        exact absurd (hwriter.symm.trans hfree) (by decide)
      · exact reader_setReader h rfl rfl (fun _ _ hmem => Finset.mem_insert_of_mem hmem)
          (Finset.mem_insert_self r _)
  · -- `find`: with no entry the call returns the empty set
    next modid cmdid hpc =>
      rw [hpc] at hok
      split_ifs at hstep with hnone
      · cases hstep
        refine ⟨[.read modid cmdid ∅], v, rfl, ?_, h.loader, h.exclusion, ?_⟩
        · simp [run, View.step, ← h.loader.complete, hnone]
        · exact reader_setReader h rfl rfl (fun _ _ hmem => hmem) hok
      · cases hstep
        refine ⟨[], v, by simp [setReader], rfl, h.loader, h.exclusion, ?_⟩
        exact reader_setReader h rfl rfl (fun _ _ hmem => hmem) ⟨hok, rfl⟩
  · -- the entry is in the table that is installed
    next modid cmdid obj hpc =>
      rw [hpc] at hok
      cases hstep
      refine ⟨[.read modid cmdid (s.objs obj (routeKey modid cmdid))], v, rfl, ?_, h.loader,
        h.exclusion, ?_⟩
      · simp [run, View.step, ← h.loader.complete, hok.2]
      · exact reader_setReader h rfl rfl (fun _ _ hmem => hmem) hok.1
  · -- the read lock is given back
    next hosts hpc =>
      cases hstep
      refine ⟨[], v, by simp [setReader], rfl, h.loader, ?_, ?_⟩
      · intro hwriter
        show s.lock.readers.erase r = ∅
        rw [h.exclusion hwriter]
        rfl
      · exact reader_setReader h rfl rfl (fun r' hr hmem => Finset.mem_erase.2 ⟨hr, hmem⟩) trivial
  · cases hstep

theorem step_inv {s t : Tables ρ} {v : View} {a : Act ρ} (h : s.Inv v)
    (hstep : s.step a = some t) :
    ∃ events v', t.log = s.log ++ events ∧ run View.step v events = some v' ∧ t.Inv v' := by
  cases a with
  | loader a =>
      exact loaderStep_inv h hstep
  | reader r a =>
      exact readerStep_inv h hstep

/-! ## Every run -/

/-- The abstract table explains the log. -/
def Explained (rows : List RouteRow) (s : Tables ρ) : Prop :=
  ∃ v, run View.step { installed := rows, pending := none } s.log = some v ∧ s.Inv v

theorem run_explained {rows : List RouteRow} {acts : List (Act ρ)} {s : Tables ρ}
    (hrun : run step (init rows) acts = some s) : Explained rows s := by
  refine run_invariant_always (I := Explained rows) ?_ ⟨_, rfl, init_inv rows⟩ hrun
  rintro s a t ⟨v, hlog, hinv⟩ hstep
  rcases step_inv hinv hstep with ⟨events, v', hevents, hv', hinv'⟩
  refine ⟨v', ?_, hinv'⟩
  rw [hevents, run_append, hlog]
  exact hv'

/-- In every run, whatever the readers and the poll thread do: each swap installs the rows of a load
that has succeeded since the last swap, and each `get_hosts` returns the hosts of its pair in the
rows that are installed, those of `build_maps` before the first swap. -/
theorem reads_see_snapshots (rows : List RouteRow) (acts : List (Act ρ)) (s : Tables ρ)
    (hrun : run step (init rows) acts = some s) :
    (run View.step { installed := rows, pending := none } s.log).isSome = true := by
  rcases run_explained hrun with ⟨v, hlog, _⟩
  rw [hlog]
  rfl

/-- A read during a load, then the swap, a load that fails, and a second read. -/
def twoReads : List (Act (Fin 2)) :=
  let first : Fin 2 := ⟨0, Nat.zero_lt_two⟩
  let second : Fin 2 := ⟨1, Nat.one_lt_two⟩
  [.loader .clear, .reader first (.call 1 1), .loader (.query (some [⟨1, 1, 6, 80⟩])),
    .reader first .rdlock, .reader first .find, .loader .insertRow, .loader .loadDone,
    .reader first .copy, .reader first .rdunlock, .loader .wrlock, .loader .assignData,
    .loader .assignTemp, .loader .wrunlock, .loader .clear, .loader (.query none),
    .reader second (.call 1 1), .reader second .rdlock, .reader second .find, .reader second .copy]

theorem reads_see_snapshots_twoReads :
    ∃ s, run step (init [⟨1, 1, 5, 80⟩]) twoReads = some s ∧
      s.log = [.loaded [⟨1, 1, 6, 80⟩], .read 1 1 {21474836560}, .swapped, .failed,
        .read 1 1 {25769803856}] ∧
      (run View.step { installed := [⟨1, 1, 5, 80⟩], pending := none } s.log).isSome = true := by
  have hlog : (run step (init [⟨1, 1, 5, 80⟩]) twoReads).map log =
      some [.loaded [⟨1, 1, 6, 80⟩], .read 1 1 {21474836560}, .swapped, .failed,
        .read 1 1 {25769803856}] := by decide
  rcases Option.map_eq_some_iff.1 hlog with ⟨s, hrun, hs⟩
  exact ⟨s, hrun, hs, reads_see_snapshots _ _ s hrun⟩

/-! ## The coarser steps of `Route` -/

/-- The rounds of the loop enter all that is left of the result. -/
theorem run_insertRows {s : Tables ρ} {rows rest : List RouteRow}
    (hpc : s.loader = .inserting rows rest) :
    run step s (List.replicate rest.length (.loader .insertRow)) =
      some { s.setTemp (rest.foldl (fun map row =>
          Function.update map row.key (insert row.value (map row.key))) (s.objs s.tempMap)) with
        loader := .inserting rows [] } := by
  induction rest generalizing s with
  | nil =>
      simp [run, setTemp, ← hpc]
  | cons row rest ih =>
      have hstep : step s (.loader .insertRow) =
          some { s.setTemp (Function.update (s.objs s.tempMap) row.key
              (insert row.value (s.objs s.tempMap row.key))) with
            loader := .inserting rows rest } := by
        simp [step, loaderStep, hpc]
      rw [List.length_cons, List.replicate_succ, run, hstep, Option.bind_some, ih rfl]
      simp [setTemp]

/-- The steps of a load that succeeds, taken together, are `load_route_data`. -/
theorem run_load {s : Tables ρ} (hpc : s.loader = .idle) (hapart : s.dataMap ≠ s.tempMap)
    {db : Database} (hrows : db.routeData ≠ []) (version : Nat) :
    ∃ t : Tables ρ,
      run step s ([.loader .clear, .loader (.query (some db.routeData))] ++
        List.replicate db.routeData.length (.loader .insertRow) ++ [.loader .loadDone]) = some t ∧
      (s.toRoute version).loadRouteData true db = (0, t.toRoute version) ∧
      t.loader = .ready db.routeData := by
  rcases List.exists_cons_of_ne_nil hrows with ⟨row, rows, hdb⟩
  let filling : Tables ρ :=
    { s.setTemp RouteMap.empty with loader := .inserting db.routeData db.routeData }
  have hbegin : run step s [.loader .clear, .loader (.query (some db.routeData))] =
      some filling := by
    simp [run, step, loaderStep, hpc, hdb, filling]
  have hfill := run_insertRows (s := filling) rfl
  rw [run_append, run_append, hbegin, Option.bind_some, hfill, Option.bind_some]
  refine ⟨_, rfl, ?_, rfl⟩
  -- `load_route_data` on a table that is not empty takes the branch that returns 0
  rcases (s.toRoute version).loadRouteData_cases true db with ⟨_, _, hload⟩ | ⟨hfail, _⟩
  · rw [hload]
    simp [toRoute, filling, setTemp, RouteMap.ofRows, Function.update_of_ne hapart]
  · simp [hrows] at hfail

/-- The steps of `swap`, while nobody reads. -/
theorem run_swap {s : Tables ρ} {rows : List RouteRow} (hpc : s.loader = .ready rows)
    (hfree : s.lock.readers = ∅ ∧ s.lock.writer = false) (version : Nat) :
    ∃ t : Tables ρ,
      run step s [.loader .wrlock, .loader .assignData, .loader .assignTemp, .loader .wrunlock] =
        some t ∧
      t.toRoute version = (s.toRoute version).swap := by
  refine ⟨_, by simp [run, step, loaderStep, hpc, hfree]; rfl, rfl⟩

end Tables
end Dns
end Rins
