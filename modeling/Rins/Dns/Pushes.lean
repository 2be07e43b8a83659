import Rins.Dns.Ownership

/-!
# Pushes — pushed responses go to those who asked

Pending pushes are kept in `_push_list` under the number of a descriptor.  When a connection closes,
its subscriptions are taken out of `_book_list` but its entry in `_push_list` stays, and goes to the
next connection that gets the same number.  Where no connection is opened on a descriptor with such
an entry, every push is for a key that the connection has requested.
-/

namespace Rins
namespace Dns

/-- The pushes a worker has yet to make in the task it is running. -/
def WorkerPc.items : WorkerPc → List (Int × UInt64)
  | .pushing todo => todo
  | .pushSend fd mod _ todo => (fd, mod) :: todo
  | _ => []

theorem WorkerPc.fd_mem_of_mem_items {pc : WorkerPc} {fd : Int} {mod : UInt64}
    (h : (fd, mod) ∈ pc.items) : fd ∈ pc.fds := by
  cases pc with
  | pushing todo =>
      exact List.mem_map_of_mem h
  | pushSend fd' mod' hosts todo =>
      rcases List.mem_cons.1 h with heq | hmem
      · cases heq
        exact List.mem_cons_self
      · exact List.mem_cons_of_mem _ (List.mem_map_of_mem hmem)
  | _ =>
      simp [items] at h

namespace Service

open Lib

variable {n : Nat}

/-- Every push in the log, of a pair with `cmdid >= 0`, comes after a request for that pair. -/
def PushesRequested (log : List Event) : Prop :=
  ∀ before resp after, log = before ++ .pushed resp :: after → 0 ≤ resp.cmdid.toInt →
    .request resp.modid resp.cmdid ∈ before

theorem pushesRequested_nil : PushesRequested [] := by
  intro before resp after hlog
  simp at hlog

/-- An event may be appended if it is no push, or a push that was asked for. -/
theorem PushesRequested.append {log : List Event} (h : PushesRequested log) {event : Event}
    (hevent : ∀ resp, event = .pushed resp → 0 ≤ resp.cmdid.toInt →
      .request resp.modid resp.cmdid ∈ log) : PushesRequested (log ++ [event]) := by
  intro before resp after hlog hcmdid
  rcases List.eq_nil_or_concat after with rfl | ⟨after', last, rfl⟩
  · rcases List.append_inj' hlog rfl with ⟨rfl, hlast⟩
    cases hlast
    exact hevent resp rfl hcmdid
  · have hsplit : log = before ++ .pushed resp :: after' := by
      have hlog' : log ++ [event] = (before ++ .pushed resp :: after') ++ [last] := by
        rw [hlog]
        simp
      exact (List.append_inj' hlog' rfl).1
    exact h before resp after' hsplit hcmdid

/-- The descriptor of the connection a worker is about to open. -/
def opening : WorkerPc → Option Int
  | .dealing (.newConn connfd :: _) => some connfd
  | _ => none

/-- The condition: no connection is opened on a descriptor that still has an entry in
`_push_list`. -/
def OpensClean (s : Service n) : Act n → Prop
  | .deal w => ∀ connfd ∈ opening (s.workers w).pc, s.pushList connfd = ∅
  | _ => True

instance (s : Service n) : ∀ a, Decidable (OpensClean s a)
  | .deal w => inferInstanceAs
      (Decidable (∀ connfd ∈ opening (s.workers w).pc, s.pushList connfd = ∅))
  | .poll _ _ | .insertData _ | .deleteData | .setVersion _ | .insertChange _ _ _ | .accept _ _
  | .recv _ | .request _ _ _ _ | .getHosts _ | .send _ | .beginClose _ _ _ | .unsubscribe _
  | .endClose _ | .runTask _ _ | .endTask _ => isTrue trivial

/-! ## The invariant -/

/-- Every trace of a descriptor, in the lists or in a running task, is for a key that the connection
on it has requested. -/
structure PushInv (s : Service n) : Prop where
  book : ∀ mod fd, fd ∈ s.bookList mod → ∃ c, s.conns fd = some c ∧ mod ∈ c.subList ∧
    ∀ mods, (s.workers c.worker).pc = .closing fd mods → mod ∈ mods
  push : ∀ fd mod c, mod ∈ s.pushList fd → s.conns fd = some c → mod ∈ c.subList
  items : ∀ w fd mod c, (fd, mod) ∈ (s.workers w).pc.items → s.conns fd = some c → mod ∈ c.subList
  sub : ∀ fd c, s.conns fd = some c → ∀ mod ∈ c.subList,
    ∃ modid cmdid, mod = routeKey modid cmdid ∧ .request modid cmdid ∈ c.log
  log : ∀ fd c, s.conns fd = some c → PushesRequested c.log

theorem init_pushInv (db : Database) (route : Route) (now : Int) :
    PushInv (init n db route now) where
  book := by simp [init]
  push := by simp [init]
  items := by simp [init]
  sub := by simp [init]
  log := by simp [init]

/-- While a connection is being closed, it is still subscribed to the keys that are left at most. -/
theorem PushInv.mem_of_closing {s : Service n} (h : PushInv s) (hown : Owned s) {w : Fin n}
    {fd : Int} {mods : List UInt64} (hpc : (s.workers w).pc = .closing fd mods) {mod : UInt64}
    (hfd : fd ∈ s.bookList mod) : mod ∈ mods := by
  rcases h.book mod fd hfd with ⟨c, hc, _, hmods⟩
  have hw : c.worker = w := (hown.held w fd (by simp [WorkerPc.fds, hpc])).worker_eq hc
  exact hmods mods (by rw [hw]; exact hpc)

/-- A worker whose new position is in order. -/
theorem PushInv.setWorker {s : Service n} (h : PushInv s) {w : Fin n} {worker : Worker}
    (hclosing : ∀ fd mods, worker.pc = .closing fd mods → ∀ mod, fd ∈ s.bookList mod → mod ∈ mods)
    (hitems : ∀ fd mod c, (fd, mod) ∈ worker.pc.items → s.conns fd = some c → mod ∈ c.subList) :
    PushInv (s.setWorker w worker) where
  book := by
    intro mod fd hfd
    rcases h.book mod fd hfd with ⟨c, hconn, hmod, hmods⟩
    refine ⟨c, hconn, hmod, ?_⟩
    intro mods hpc
    by_cases hw : c.worker = w
    · rw [hw, setWorker_self] at hpc
      exact hclosing fd mods hpc mod hfd
    · rw [setWorker_other s worker hw] at hpc
      exact hmods mods hpc
  push := h.push
  items := by
    intro w' fd mod c hitem hc
    by_cases hw : w' = w
    · subst hw
      rw [setWorker_self] at hitem
      exact hitems fd mod c hitem hc
    · rw [setWorker_other s worker hw] at hitem
      exact h.items w' fd mod c hitem hc
  sub := h.sub
  log := h.log

/-- A worker that goes on without closing anything or taking on new pushes. -/
theorem PushInv.goOn {s : Service n} (h : PushInv s) {w : Fin n} {worker : Worker}
    (hclosing : ∀ fd mods, worker.pc ≠ .closing fd mods)
    (hitems : ∀ item ∈ worker.pc.items, item ∈ (s.workers w).pc.items) :
    PushInv (s.setWorker w worker) :=
  h.setWorker (fun fd mods hpc => absurd hpc (hclosing fd mods))
    fun fd mod c hitem hc => h.items w fd mod c (hitems _ hitem) hc

/-- A longer queue is all that `thread_queue::send` leaves behind. -/
theorem PushInv.enqueue {s : Service n} (h : PushInv s) (hown : Owned s) (w : Fin n) (task : Task) :
    PushInv (s.enqueue w task) := by
  refine h.setWorker ?_ fun fd mod c hitem hc => h.items w fd mod c hitem hc
  intro fd mods hpc mod hfd
  exact h.mem_of_closing hown hpc hfd

/-- A connection on which something was logged, and whose subscriptions may have grown. -/
theorem PushInv.growConn {s : Service n} (h : PushInv s) {fd : Int} {conn conn' : Conn n}
    (hconn : s.conns fd = some conn) (hworker : conn'.worker = conn.worker)
    (hsub : conn.subList ⊆ conn'.subList)
    (hwhy : ∀ mod ∈ conn'.subList,
      ∃ modid cmdid, mod = routeKey modid cmdid ∧ .request modid cmdid ∈ conn'.log)
    (hlog : PushesRequested conn'.log) : PushInv (s.setConn fd (some conn')) := by
  refine ⟨?_, ?_, ?_, ?_, ?_⟩
  · intro mod fd' hfd'
    rcases h.book mod fd' hfd' with ⟨c, hc, hmod, hmods⟩
    by_cases hfd : fd' = fd
    · subst hfd
      rw [hconn] at hc
      cases hc
      refine ⟨conn', setConn_eq_some.2 (Or.inl ⟨rfl, rfl⟩), hsub hmod, ?_⟩
      rw [hworker]
      exact hmods
    · exact ⟨c, setConn_eq_some.2 (Or.inr ⟨hfd, hc⟩), hmod, hmods⟩
  · intro fd' mod c hmod hc
    rcases setConn_eq_some.1 hc with ⟨rfl, hnew⟩ | ⟨_, hc⟩
    · cases hnew
      exact hsub (h.push fd' mod conn hmod hconn)
    · exact h.push fd' mod c hmod hc
  · intro w' fd' mod c hitem hc
    rcases setConn_eq_some.1 hc with ⟨rfl, hnew⟩ | ⟨_, hc⟩
    · cases hnew
      exact hsub (h.items w' fd' mod conn hitem hconn)
    · exact h.items w' fd' mod c hitem hc
  · intro fd' c hc
    rcases setConn_eq_some.1 hc with ⟨rfl, hnew⟩ | ⟨_, hc⟩
    · cases hnew
      exact hwhy
    · exact h.sub fd' c hc
  · intro fd' c hc
    rcases setConn_eq_some.1 hc with ⟨rfl, hnew⟩ | ⟨_, hc⟩
    · cases hnew
      exact hlog
    · exact h.log fd' c hc

/-- Something other than a request is logged. -/
theorem PushInv.logOn {s : Service n} (h : PushInv s) {fd : Int} {conn : Conn n} {event : Event}
    (hconn : s.conns fd = some conn)
    (hevent : ∀ resp, event = .pushed resp → 0 ≤ resp.cmdid.toInt →
      .request resp.modid resp.cmdid ∈ conn.log) : PushInv (s.logOn fd conn event) := by
  refine h.growConn hconn rfl (fun _ hmod => hmod) ?_ ((h.log fd conn hconn).append hevent)
  intro mod hmod
  rcases h.sub fd conn hconn mod hmod with ⟨modid, cmdid, hkey, hreq⟩
  exact ⟨modid, cmdid, hkey, List.mem_append_left _ hreq⟩

/-- A connection is opened on a descriptor without pending pushes. -/
theorem PushInv.openConn {s : Service n} (h : PushInv s) (hown : Owned s) {w : Fin n} {connfd : Int}
    (hfree : s.conns connfd = none) (hempty : s.pushList connfd = ∅) :
    PushInv (s.setConn connfd (some { worker := w, subList := ∅, log := [] })) := by
  refine ⟨?_, ?_, ?_, ?_, ?_⟩
  · intro mod fd hfd
    rcases h.book mod fd hfd with ⟨c, hc, hmod, hmods⟩
    refine ⟨c, setConn_eq_some.2 (Or.inr ⟨?_, hc⟩), hmod, hmods⟩
    rintro rfl
    rw [hfree] at hc
    cases hc
  · intro fd mod c hmod hc
    rcases setConn_eq_some.1 hc with ⟨rfl, _⟩ | ⟨_, hold⟩
    · -- this is what the condition is for: nothing is left over from an earlier connection
      simp [Service.setConn, hempty] at hmod
    · exact h.push fd mod c hmod hold
  · intro w' fd mod c hitem hc
    rcases setConn_eq_some.1 hc with ⟨rfl, _⟩ | ⟨_, hold⟩
    · -- nobody is busy with a descriptor that is free
      rcases hown.held w' fd (WorkerPc.fd_mem_of_mem_items hitem) with ⟨c', hc', _⟩
      rw [hfree] at hc'
      cases hc'
    · exact h.items w' fd mod c hitem hold
  · intro fd c hc
    rcases setConn_eq_some.1 hc with ⟨rfl, hnew⟩ | ⟨_, hold⟩
    · cases hnew
      simp
    · exact h.sub fd c hold
  · intro fd c hc
    rcases setConn_eq_some.1 hc with ⟨rfl, hnew⟩ | ⟨_, hold⟩
    · cases hnew
      exact pushesRequested_nil
    · exact h.log fd c hold

/-- A connection is closed once all its subscriptions are gone. -/
theorem PushInv.endClose {s : Service n} (h : PushInv s) {fd : Int}
    (hgone : ∀ mod, fd ∉ s.bookList mod) : PushInv (s.setConn fd none) := by
  have hold : ∀ {fd' : Int} {c : Conn n}, (s.setConn fd none).conns fd' = some c →
      s.conns fd' = some c := by
    intro fd' c hc
    rcases setConn_eq_some.1 hc with ⟨_, hnone⟩ | ⟨_, hc⟩
    · cases hnone
    · exact hc
  refine ⟨?_, ?_, ?_, ?_, ?_⟩
  · intro mod fd' hfd'
    rcases h.book mod fd' hfd' with ⟨c, hc, hmod, hmods⟩
    refine ⟨c, setConn_eq_some.2 (Or.inr ⟨?_, hc⟩), hmod, hmods⟩
    rintro rfl
    exact hgone mod hfd'
  · intro fd' mod c hmod hc
    exact h.push fd' mod c hmod (hold hc)
  · intro w' fd' mod c hitem hc
    exact h.items w' fd' mod c hitem (hold hc)
  · intro fd' c hc
    exact h.sub fd' c (hold hc)
  · intro fd' c hc
    exact h.log fd' c (hold hc)

/-- A request: the key, if it is new, is subscribed for the connection's own descriptor. -/
theorem PushInv.request {s : Service n} (h : PushInv s) {w : Fin n} {fd : Int}
    {modid cmdid : Int32} {conn : Conn n} {book : BookList}
    (hconn : s.conns fd = some conn) (hown : conn.worker = w)
    (hbook : ∀ mod fd', fd' ∈ book mod ↔ fd' ∈ s.bookList mod ∨
      (mod = routeKey modid cmdid ∧ fd' = fd ∧ mod ∉ conn.subList)) :
    PushInv
      { (s.setPc w (.routing fd modid cmdid)).setConn fd (some
          { conn with
            subList := insert (routeKey modid cmdid) conn.subList
            log := conn.log ++ [.request modid cmdid] }) with
        bookList := book } := by
  have hrouting : PushInv (s.setPc w (.routing fd modid cmdid)) :=
    h.goOn (by simp) (by simp [WorkerPc.items])
  have hwhy : ∀ mod ∈ insert (routeKey modid cmdid) conn.subList, ∃ m c, mod = routeKey m c ∧
      .request m c ∈ conn.log ++ [.request modid cmdid] := by
    intro mod hmod
    rcases Finset.mem_insert.1 hmod with rfl | hold
    · exact ⟨modid, cmdid, rfl, by simp⟩
    · rcases h.sub fd conn hconn mod hold with ⟨m, c, hkey, hreq⟩
      exact ⟨m, c, hkey, List.mem_append_left _ hreq⟩
  have hgrown : PushInv ((s.setPc w (.routing fd modid cmdid)).setConn fd (some
      { conn with
        subList := insert (routeKey modid cmdid) conn.subList
        log := conn.log ++ [.request modid cmdid] })) :=
    hrouting.growConn hconn rfl (Finset.subset_insert _ _) hwhy
      ((h.log fd conn hconn).append (by simp))
  refine ⟨?_, hgrown.push, hgrown.items, hgrown.sub, hgrown.log⟩
  intro mod fd' hfd'
  rcases (hbook mod fd').1 hfd' with hold | ⟨rfl, rfl, _⟩
  · exact hgrown.book mod fd' hold
  · refine ⟨_, setConn_eq_some.2 (Or.inl ⟨rfl, rfl⟩), Finset.mem_insert_self _ _, ?_⟩
    intro mods hclosing
    simp [Service.setConn, setPc, hown] at hclosing

theorem PushInv.beginClose {s : Service n} (h : PushInv s) {w : Fin n} {fd : Int}
    {mods : List UInt64} {conn : Conn n} (hconn : s.conns fd = some conn)
    (hmods : mods.toFinset = conn.subList) : PushInv (s.setPc w (.closing fd mods)) := by
  refine h.setWorker ?_ (by simp [WorkerPc.items])
  intro fd' mods' hpc mod hfd
  cases hpc
  rcases h.book mod fd hfd with ⟨c, hc, hmod, _⟩
  rw [hconn] at hc
  cases hc
  rw [← List.mem_toFinset, hmods]
  exact hmod

theorem PushInv.unsubscribe {s : Service n} (h : PushInv s) (hown : Owned s) {w : Fin n} {fd : Int}
    {mod : UInt64} {mods : List UInt64} (hpc : (s.workers w).pc = .closing fd (mod :: mods)) :
    PushInv { s.setPc w (.closing fd mods) with
      bookList := Dns.unsubscribe s.bookList mod fd } := by
  have hless : PushInv { s with bookList := Dns.unsubscribe s.bookList mod fd } :=
    ⟨fun mod' fd' hfd' => h.book mod' fd' (mem_unsubscribe.1 hfd').1, h.push, h.items, h.sub, h.log⟩
  refine hless.setWorker ?_ (by simp [WorkerPc.items])
  intro fd' mods' hpc' mod' hfd'
  cases hpc'
  rcases mem_unsubscribe.1 hfd' with ⟨hold, hnot⟩
  -- the key that was unsubscribed is off the list, the others are still to come
  rcases List.mem_cons.1 (h.mem_of_closing hown hpc hold) with heq | hmem
  · exact absurd ⟨heq, rfl⟩ hnot
  · exact hmem

/-- `make_publish_map` takes entries of the worker's own connections only. -/
theorem PushInv.runTask {s : Service n} (h : PushInv s) {w : Fin n} {todo : List (Int × UInt64)}
    {ready : Nat}
    (htodo : ∀ fd mod, (fd, mod) ∈ todo ↔ fd ∈ (s.workers w).listenFds ∧ mod ∈ s.pushList fd) :
    PushInv { s.setWorker w { s.workers w with readTasks := ready, pc := .pushing todo } with
      pushList := makePublishMap s.pushList (s.workers w).listenFds } := by
  have hless : PushInv
      { s with pushList := makePublishMap s.pushList (s.workers w).listenFds } :=
    ⟨h.book, fun fd mod c hmod hc => h.push fd mod c (mem_makePublishMap.1 hmod).2 hc, h.items,
      h.sub, h.log⟩
  refine hless.setWorker (by simp) ?_
  intro fd mod c hitem hc
  exact h.push fd mod c ((htodo fd mod).1 hitem).2 hc

/-- Every step keeps the invariant, if no connection is opened on a descriptor with pending
pushes. -/
theorem Step.pushInv {s t : Service n} {a : Act n} (hstep : Step s a t) (hown : Owned s)
    (h : PushInv s) (hclean : OpensClean s a) : PushInv t := by
  cases hstep with
  | quiet _ poll hmap hpc =>
      exact ⟨h.book, h.push, h.items, h.sub, h.log⟩
  | install _ poll hpc =>
      exact ⟨h.book, h.push, h.items, h.sub, h.log⟩
  | publishLists _ changes hpc hfirst =>
      refine ⟨h.book, ?_, h.items, h.sub, h.log⟩
      intro fd mod c hmod hconn
      rcases mem_publish.1 hmod with hold | ⟨_, hbook⟩
      · exact h.push fd mod c hold hconn
      · -- whoever is in `_book_list` has requested the key
        rcases h.book mod fd hbook with ⟨c', hconn', hmod', _⟩
        rw [hconn] at hconn'
        cases hconn'
        exact hmod'
  | sendTask _ i changes hpc hnext =>
      have hq := h.enqueue hown i .newTask
      exact ⟨hq.book, hq.push, hq.items, hq.sub, hq.log⟩
  | publishDone _ i poll hnext hlast hmap =>
      exact ⟨h.book, h.push, h.items, h.sub, h.log⟩
  | accept w connfd =>
      exact h.enqueue hown w _
  | recv w hpc =>
      exact h.goOn (by simp) (by simp [WorkerPc.items])
  | openConn w connfd tasks hpc hfree =>
      have hempty : s.pushList connfd = ∅ := hclean connfd (by simp [opening, hpc])
      exact (h.openConn hown hfree hempty).goOn (by simp) (by simp [WorkerPc.items])
  | addTask w tasks hpc =>
      exact h.goOn (by simp) (by simp [WorkerPc.items])
  | dealt w hpc =>
      exact h.goOn (by simp) (by simp [WorkerPc.items])
  | request w fd modid cmdid conn book hpc hconn howner hbook =>
      exact h.request hconn howner hbook
  | readReply w fd modid cmdid hpc =>
      exact h.goOn (by simp) (by simp [WorkerPc.items])
  | readPush w fd st todo hpc =>
      exact h.goOn (by simp) (by simp [WorkerPc.items, hpc])
  | reply w fd modid cmdid hosts conn hpc hconn =>
      have hloop : PushInv (s.setPc w .loop) := h.goOn (by simp) (by simp [WorkerPc.items])
      exact hloop.logOn hconn (by simp)
  | push w fd st hosts todo conn hpc hconn =>
      have hrest : PushInv (s.setPc w (.pushing todo)) :=
        h.goOn (by simp) fun item hitem => by simpa [WorkerPc.items, hpc] using Or.inr hitem
      refine hrest.logOn hconn ?_
      -- the key was requested, and packing it lost nothing
      intro resp hresp hcmdid
      cases hresp
      have hst : st ∈ conn.subList := h.items w fd st conn (by simp [WorkerPc.items, hpc]) hconn
      rcases h.sub fd conn hconn st hst with ⟨modid, cmdid, rfl, hreq⟩
      simp only [RouteResponse.of, cmdidOf_routeKey] at hcmdid ⊢
      rw [(unpack_routeKey _ hcmdid).1]
      exact hreq
  | skipPush w fd st hosts todo hpc hconn =>
      exact h.goOn (by simp) fun item hitem => by
        simpa [WorkerPc.items, hpc] using Or.inr hitem
  | beginClose w fd mods conn hpc hconn howner hmods =>
      exact h.beginClose hconn hmods
  | unsubscribe w fd mod mods hpc =>
      exact h.unsubscribe hown hpc
  | endClose w fd hpc =>
      have hloop : PushInv (s.setWorker w { s.workers w with
          listenFds := (s.workers w).listenFds.erase fd
          pc := .loop }) := h.goOn (by simp) (by simp [WorkerPc.items])
      refine hloop.endClose ?_
      intro mod hfd
      -- no keys are left, so no subscriptions are
      have hnone := h.mem_of_closing hown hpc hfd
      simp at hnone
  | runTask w todo ready hpc hready htodo =>
      exact h.runTask htodo
  | endTask w hpc =>
      exact h.goOn (by simp) (by simp [WorkerPc.items])

/-- In every run in which no connection is opened on a descriptor that still has an entry in
`_push_list`, every push on a connection is for a pair that this connection has requested before. -/
theorem pushes_requested (db : Database) (route : Route) (now : Int) (as : List (Act n))
    (s : Service n) (hclean : Meets step OpensClean (init n db route now) as)
    (hrun : run step (init n db route now) as = some s) (fd : Int) (conn : Conn n)
    (hconn : s.conns fd = some conn) : PushesRequested conn.log :=
  (run_invariant (I := fun s => Owned s ∧ PushInv s)
    (fun _ _ _ h hc hstep => ⟨(step_sound hstep).owned h.1, (step_sound hstep).pushInv h.1 h.2 hc⟩)
    ⟨init_owned db route now, init_pushInv db route now⟩ hclean hrun).2.log fd conn hconn

/-! ### A push to somebody else -/

/-- A new version with a change of (1, 1) is in the database, and the poll thread has come to
`publish`. -/
def upToPublish : List (Act n) :=
  [.poll true 0, .setVersion 5, .insertChange 1 1 5, .poll true 1, .poll true 1, .poll true 1,
    .poll true 1]

/-- A connection on descriptor 5 is opened, and one that has it requests (1, 1). -/
def openFive : List (Act 1) :=
  [.accept 0 5, .recv 0, .deal 0, .deal 0]

def requestOneOne : List (Act 1) :=
  [.request 0 5 1 1, .getHosts 0, .send 0]

/-- `publish` runs to its end, and the worker runs the push task. -/
def publishAndPush : List (Act 1) :=
  [.poll true 1, .poll true 1, .poll true 1, .recv 0, .deal 0, .deal 0,
    .runTask 0 [(5, routeKey 1 1)], .getHosts 0, .send 0, .endTask 0]

/-- The one who asked stays connected. -/
theorem pushes_requested_same :
    ∃ s conn, run step (init 1 Poll.sampleDb Poll.sampleRoute 0)
        (upToPublish ++ openFive ++ requestOneOne ++ publishAndPush) = some s ∧
      s.conns 5 = some conn ∧ conn.log.length = 3 ∧ PushesRequested conn.log := by
  have hclean : Meets step OpensClean (init 1 Poll.sampleDb Poll.sampleRoute 0)
      (upToPublish ++ openFive ++ requestOneOne ++ publishAndPush) := by
    decide +kernel
  have hlog : ((run step (init 1 Poll.sampleDb Poll.sampleRoute 0)
      (upToPublish ++ openFive ++ requestOneOne ++ publishAndPush)).bind fun s =>
        (s.conns 5).map fun conn => conn.log.length) = some 3 := by
    decide +kernel
  rcases Option.bind_eq_some_iff.1 hlog with ⟨s, hrun, hs⟩
  rcases Option.map_eq_some_iff.1 hs with ⟨conn, hconn, hlen⟩
  exact ⟨s, conn, hrun, hconn, hlen,
    pushes_requested Poll.sampleDb Poll.sampleRoute 0 _ s hclean hrun 5 conn hconn⟩

/-- `publish` fills the lists, and the connection on descriptor 5 is closed. -/
def closeFive : List (Act 1) :=
  [.poll true 1, .beginClose 0 5 [routeKey 1 1], .unsubscribe 0, .endClose 0]

/-- The rest of `publish`, and the push task as far as its first message. -/
def pushFive : List (Act 1) :=
  [.poll true 1, .poll true 1, .recv 0, .deal 0, .deal 0, .runTask 0 [(5, routeKey 1 1)],
    .getHosts 0, .send 0]

/-- The one who asked is gone when the push task runs, and another connection has the descriptor. -/
theorem pushes_requested_fails_reuse :
    ∃ s conn, run step (init 1 Poll.sampleDb Poll.sampleRoute 0)
        (upToPublish ++ openFive ++ requestOneOne ++ closeFive ++ openFive ++ pushFive) = some s ∧
      s.conns 5 = some conn ∧ ¬ PushesRequested conn.log := by
  have hlog : ((run step (init 1 Poll.sampleDb Poll.sampleRoute 0)
      (upToPublish ++ openFive ++ requestOneOne ++ closeFive ++ openFive ++ pushFive)).bind
        fun s => (s.conns 5).map Conn.log) =
      some [.pushed (RouteResponse.of 1 1 {13882347711090400865})] := by
    decide +kernel
  rcases Option.bind_eq_some_iff.1 hlog with ⟨s, hrun, hs⟩
  rcases Option.map_eq_some_iff.1 hs with ⟨conn, hconn, hstray⟩
  refine ⟨s, conn, hrun, hconn, ?_⟩
  intro hreq
  rw [hstray] at hreq
  have hmem := hreq [] _ [] rfl (by decide)
  simp at hmem

end Service
end Dns
end Rins
