import Rins.Dns.Service

/-!
# Ownership — every connection is in the hands of one worker

`_listen_fds` of a worker's loop lists exactly the open connections of this worker, and every
descriptor the worker is busy with is one of them.  The invariants of the service are stated on top
of this: what a worker does to its connections, no other worker can see.
-/

namespace Rins
namespace Dns

/-- The descriptors a worker is busy with. -/
def WorkerPc.fds : WorkerPc → List Int
  | .loop => []
  | .dealing _ => []
  | .routing fd _ _ => [fd]
  | .replying fd _ _ _ => [fd]
  | .closing fd _ => [fd]
  | .pushing todo => todo.map Prod.fst
  | .pushSend fd _ _ todo => fd :: todo.map Prod.fst

namespace Service

open Lib

variable {n : Nat}

/-- There is an open connection on the descriptor, and it is in the loop of worker `w`. -/
def Owns (s : Service n) (w : Fin n) (fd : Int) : Prop :=
  ∃ c, s.conns fd = some c ∧ c.worker = w

/-- Two workers never have the same descriptor. -/
theorem Owns.unique {s : Service n} {w w' : Fin n} {fd : Int} (h : Owns s w fd)
    (h' : Owns s w' fd) : w = w' := by
  rcases h with ⟨c, hc, rfl⟩
  rcases h' with ⟨c', hc', rfl⟩
  rw [hc] at hc'
  cases hc'
  rfl

/-- What is found on a worker's descriptor is its connection. -/
theorem Owns.worker_eq {s : Service n} {w : Fin n} {fd : Int} {c : Conn n} (h : Owns s w fd)
    (hc : s.conns fd = some c) : c.worker = w :=
  Owns.unique ⟨c, hc, rfl⟩ h

/-- A connection is replaced by one of the same worker. -/
theorem owns_setConn {s : Service n} {w w' : Fin n} {fd fd' : Int} {conn : Conn n}
    (hown : Owns s w fd) (hworker : conn.worker = w) :
    Owns (s.setConn fd (some conn)) w' fd' ↔ Owns s w' fd' := by
  by_cases hfd : fd' = fd
  · subst hfd
    constructor
    · intro h
      have hw : w' = w := by
        rw [← hworker]
        exact (h.worker_eq (setConn_eq_some.2 (Or.inl ⟨rfl, rfl⟩))).symm
      rw [hw]
      exact hown
    · intro h
      exact ⟨conn, setConn_eq_some.2 (Or.inl ⟨rfl, rfl⟩), hworker.trans (hown.unique h)⟩
  · constructor
    · rintro ⟨c, hc, hw⟩
      rcases setConn_eq_some.1 hc with ⟨heq, _⟩ | ⟨_, hold⟩
      · exact absurd heq hfd
      · exact ⟨c, hold, hw⟩
    · rintro ⟨c, hc, hw⟩
      exact ⟨c, setConn_eq_some.2 (Or.inr ⟨hfd, hc⟩), hw⟩

/-! ## The invariant -/

structure Owned (s : Service n) : Prop where
  listen : ∀ w fd, fd ∈ (s.workers w).listenFds ↔ Owns s w fd
  held : ∀ w, ∀ fd ∈ (s.workers w).pc.fds, Owns s w fd

theorem init_owned (db : Database) (route : Route) (now : Int) : Owned (init n db route now) where
  listen := by simp [init, Owns]
  held := by simp [init, WorkerPc.fds]

/-- A worker that keeps its connections, and whose new position is in order. -/
theorem Owned.setWorker {s : Service n} (h : Owned s) {w : Fin n} {worker : Worker}
    (hlisten : worker.listenFds = (s.workers w).listenFds)
    (hheld : ∀ fd ∈ worker.pc.fds, Owns s w fd) : Owned (s.setWorker w worker) where
  listen := by
    intro w' fd
    by_cases hw : w' = w
    · subst hw
      rw [setWorker_self, hlisten]
      exact h.listen w' fd
    · rw [setWorker_other s worker hw]
      exact h.listen w' fd
  held := by
    intro w' fd hfd
    by_cases hw : w' = w
    · subst hw
      rw [setWorker_self] at hfd
      exact hheld fd hfd
    · rw [setWorker_other s worker hw] at hfd
      exact h.held w' fd hfd

/-- A worker that goes on with descriptors it was busy with before. -/
theorem Owned.goOn {s : Service n} (h : Owned s) {w : Fin n} {worker : Worker}
    (hlisten : worker.listenFds = (s.workers w).listenFds)
    (hheld : ∀ fd ∈ worker.pc.fds, fd ∈ (s.workers w).pc.fds) : Owned (s.setWorker w worker) :=
  h.setWorker hlisten fun fd hfd => h.held w fd (hheld fd hfd)

theorem Owned.setConn {s : Service n} (h : Owned s) {fd : Int} {conn conn' : Conn n}
    (hconn : s.conns fd = some conn) (hworker : conn'.worker = conn.worker) :
    Owned (s.setConn fd (some conn')) where
  listen := by
    intro w' fd'
    rw [owns_setConn ⟨conn, hconn, rfl⟩ hworker]
    exact h.listen w' fd'
  held := by
    intro w' fd' hfd'
    rw [owns_setConn ⟨conn, hconn, rfl⟩ hworker]
    exact h.held w' fd' hfd'

theorem Owned.openConn {s : Service n} (h : Owned s) {w : Fin n} {connfd : Int}
    (hfree : s.conns connfd = none) {worker : Worker}
    (hlisten : worker.listenFds = insert connfd (s.workers w).listenFds)
    (hheld : worker.pc.fds = []) :
    Owned ((s.setWorker w worker).setConn connfd
      (some { worker := w, subList := ∅, log := [] })) := by
  -- one descriptor more, and it is this worker's
  have howns : ∀ {w' : Fin n} {fd : Int},
      Owns ((s.setWorker w worker).setConn connfd
        (some { worker := w, subList := ∅, log := [] })) w' fd ↔
      (w' = w ∧ fd = connfd) ∨ Owns s w' fd := by
    intro w' fd
    constructor
    · rintro ⟨c, hc, hw⟩
      rcases setConn_eq_some.1 hc with ⟨hfd, hnew⟩ | ⟨_, hold⟩
      · cases hnew
        exact Or.inl ⟨hw.symm, hfd⟩
      · exact Or.inr ⟨c, hold, hw⟩
    · rintro (⟨rfl, rfl⟩ | ⟨c, hc, hw⟩)
      · exact ⟨_, setConn_eq_some.2 (Or.inl ⟨rfl, rfl⟩), rfl⟩
      · refine ⟨c, setConn_eq_some.2 (Or.inr ⟨?_, hc⟩), hw⟩
        rintro rfl
        rw [hfree] at hc
        cases hc
  refine ⟨?_, ?_⟩
  · intro w' fd
    rw [howns, ← h.listen]
    by_cases hw : w' = w
    · subst hw
      simp [Service.setConn, hlisten]
    · simp [Service.setConn, setWorker_other s worker hw, hw]
  · intro w' fd hfd
    rw [howns]
    by_cases hw : w' = w
    · subst hw
      simp [Service.setConn, hheld] at hfd
    · right
      exact h.held w' fd (by simpa [Service.setConn, setWorker_other s worker hw] using hfd)

theorem Owned.endClose {s : Service n} (h : Owned s) {w : Fin n} {fd : Int}
    (hown : Owns s w fd) :
    Owned ((s.setWorker w { s.workers w with
        listenFds := (s.workers w).listenFds.erase fd
        pc := .loop }).setConn fd none) := by
  -- one descriptor less
  have howns : ∀ {w' : Fin n} {fd' : Int},
      Owns ((s.setWorker w { s.workers w with
        listenFds := (s.workers w).listenFds.erase fd
        pc := .loop }).setConn fd none) w' fd' ↔ fd' ≠ fd ∧ Owns s w' fd' := by
    intro w' fd'
    constructor
    · rintro ⟨c, hc, hw⟩
      rcases setConn_eq_some.1 hc with ⟨_, hnone⟩ | ⟨hfd, hold⟩
      · cases hnone
      · exact ⟨hfd, c, hold, hw⟩
    · rintro ⟨hfd, c, hc, hw⟩
      exact ⟨c, setConn_eq_some.2 (Or.inr ⟨hfd, hc⟩), hw⟩
  refine ⟨?_, ?_⟩
  · intro w' fd'
    rw [howns, ← h.listen]
    by_cases hw : w' = w
    · subst hw
      simp [Service.setConn]
    · -- a descriptor of another worker is another one
      have hne : fd' ∈ (s.workers w').listenFds → fd' ≠ fd := by
        rintro hfd' rfl
        exact hw (((h.listen w' fd').1 hfd').unique hown)
      simp only [Service.setConn, setWorker_other s _ hw]
      exact ⟨fun hfd' => ⟨hne hfd', hfd'⟩, fun hfd' => hfd'.2⟩
  · intro w' fd' hfd'
    by_cases hw : w' = w
    · subst hw
      simp [Service.setConn, WorkerPc.fds] at hfd'
    · have hold : Owns s w' fd' :=
        h.held w' fd' (by simpa [Service.setConn, setWorker_other s _ hw] using hfd')
      refine howns.2 ⟨?_, hold⟩
      rintro rfl
      exact hw (hold.unique hown)

/-- Every step keeps the descriptors apart. -/
theorem Step.owned {s t : Service n} {a : Act n} (hstep : Step s a t) (h : Owned s) : Owned t := by
  cases hstep with
  | quiet _ poll hmap hpc =>
      exact ⟨h.listen, h.held⟩
  | install _ poll hpc =>
      exact ⟨h.listen, h.held⟩
  | publishLists _ changes hpc hfirst =>
      exact ⟨h.listen, h.held⟩
  | sendTask _ i changes hpc hnext =>
      have hq : Owned (s.enqueue i .newTask) := h.goOn rfl fun _ hfd => hfd
      exact ⟨hq.listen, hq.held⟩
  | publishDone _ i poll hnext hlast hmap =>
      exact ⟨h.listen, h.held⟩
  | accept w connfd =>
      exact h.goOn rfl fun _ hfd => hfd
  | recv w hpc =>
      exact h.goOn rfl (by simp [WorkerPc.fds])
  | openConn w connfd tasks hpc hfree =>
      exact h.openConn hfree rfl rfl
  | addTask w tasks hpc =>
      exact h.goOn rfl (by simp [WorkerPc.fds])
  | dealt w hpc =>
      exact h.goOn rfl (by simp [WorkerPc.fds])
  | request w fd modid cmdid conn book hpc hconn hown hbook =>
      have hrouting : Owned (s.setPc w (.routing fd modid cmdid)) := by
        refine h.setWorker rfl ?_
        intro fd' hfd'
        rw [List.mem_singleton.1 hfd']
        exact ⟨conn, hconn, hown⟩
      have hset : Owned ((s.setPc w (.routing fd modid cmdid)).setConn fd (some
          { conn with
            subList := insert (routeKey modid cmdid) conn.subList
            log := conn.log ++ [.request modid cmdid] })) := hrouting.setConn hconn rfl
      exact ⟨hset.listen, hset.held⟩
  | readReply w fd modid cmdid hpc =>
      exact h.goOn rfl (by simp [WorkerPc.fds, hpc])
  | readPush w fd st todo hpc =>
      exact h.goOn rfl (by simp [WorkerPc.fds, hpc])
  | reply w fd modid cmdid hosts conn hpc hconn =>
      have hloop : Owned (s.setPc w .loop) := h.goOn rfl (by simp [WorkerPc.fds])
      exact hloop.setConn hconn rfl
  | push w fd st hosts todo conn hpc hconn =>
      have hrest : Owned (s.setPc w (.pushing todo)) :=
        h.goOn rfl fun fd' hfd' => by
          rw [hpc]
          exact List.mem_cons_of_mem _ hfd'
      exact hrest.setConn hconn rfl
  | skipPush w fd st hosts todo hpc hconn =>
      refine h.goOn rfl fun fd' hfd' => ?_
      rw [hpc]
      exact List.mem_cons_of_mem _ hfd'
  | beginClose w fd mods conn hpc hconn hown hmods =>
      refine h.setWorker rfl ?_
      intro fd' hfd'
      rw [List.mem_singleton.1 hfd']
      exact ⟨conn, hconn, hown⟩
  | unsubscribe w fd mod mods hpc =>
      have hleft : Owned (s.setPc w (.closing fd mods)) :=
        h.goOn rfl (by simp [WorkerPc.fds, hpc])
      exact ⟨hleft.listen, hleft.held⟩
  | endClose w fd hpc =>
      exact h.endClose (h.held w fd (by simp [WorkerPc.fds, hpc]))
  | runTask w todo ready hpc hready htodo =>
      have hpushing : Owned (s.setWorker w
          { s.workers w with readTasks := ready, pc := .pushing todo }) := by
        refine h.setWorker rfl ?_
        intro fd hfd
        rcases List.mem_map.1 hfd with ⟨⟨fd', mod⟩, hmem, rfl⟩
        exact (h.listen w fd').1 ((htodo fd' mod).1 hmem).1
      exact ⟨hpushing.listen, hpushing.held⟩
  | endTask w hpc =>
      exact h.goOn rfl (by simp [WorkerPc.fds])

end Service
end Dns
end Rins
