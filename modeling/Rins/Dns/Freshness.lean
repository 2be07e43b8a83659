import Rins.Dns.Pushes

/-!
# Freshness — a subscriber never misses a published change

A worker subscribes a key before it reads the hosts, and the poll thread swaps the tables before it
publishes.  So whenever the last response for a requested key is older than the last publication of
the key, a push is on its way: the key is in `_push_list` with a push task still to come, or in the
task the worker is running.  When nothing is on its way any more, the last response is up to date.
-/

namespace Rins
namespace Dns

namespace WorkerPc

/-- The tasks that `deal_task_message` has not come to yet. -/
def tasks : WorkerPc → List Task
  | .dealing tasks => tasks
  | _ => []

/-- The pushes of the running task for which the hosts have not been read yet. -/
def todo : WorkerPc → List (Int × UInt64)
  | .pushing todo => todo
  | .pushSend _ _ _ todo => todo
  | _ => []

/-- The pair that `get_route` is about. -/
def serves : WorkerPc → Option (Int × Int32 × Int32)
  | .routing fd modid cmdid => some (fd, modid, cmdid)
  | .replying fd modid cmdid _ => some (fd, modid, cmdid)
  | _ => none

/-- The hosts that have been read and not been sent. -/
def inHand : WorkerPc → Option (Int × UInt64 × Finset UInt64)
  | .replying fd modid cmdid hosts => some (fd, routeKey modid cmdid, hosts)
  | .pushSend fd mod hosts _ => some (fd, mod, hosts)
  | _ => none

theorem fd_mem_of_serves {pc : WorkerPc} {fd : Int} {modid cmdid : Int32}
    (h : pc.serves = some (fd, modid, cmdid)) : fd ∈ pc.fds := by
  cases pc <;> simp_all [serves, fds]

theorem fd_mem_of_inHand {pc : WorkerPc} {fd : Int} {mod : UInt64} {hosts : Finset UInt64}
    (h : pc.inHand = some (fd, mod, hosts)) : fd ∈ pc.fds := by
  cases pc <;> simp_all [inHand, fds]

end WorkerPc

/-- A push task has been sent to the worker and has not begun. -/
def Worker.HasTask (worker : Worker) : Prop :=
  .newTask ∈ worker.queue ∨ .newTask ∈ worker.pc.tasks ∨ 0 < worker.readTasks

instance : DecidablePred Worker.HasTask := fun worker =>
  inferInstanceAs (Decidable
    (.newTask ∈ worker.queue ∨ .newTask ∈ worker.pc.tasks ∨ 0 < worker.readTasks))

/-! ## The last response -/

/-- The event is a response for the pair. -/
def Event.isFor (event : Event) (modid cmdid : Int32) : Prop :=
  ∃ resp, event.response = some resp ∧ resp.modid = modid ∧ resp.cmdid = cmdid

theorem lastResponse_append_of_not {log : List Event} {event : Event} {modid cmdid : Int32}
    (h : ¬ event.isFor modid cmdid) :
    lastResponse (log ++ [event]) modid cmdid = lastResponse log modid cmdid := by
  unfold lastResponse
  cases hresp : event.response with
  | none =>
      simp [List.filterMap_append, hresp]
  | some resp =>
      have hother : ¬ (resp.modid = modid ∧ resp.cmdid = cmdid) := fun hfor => h ⟨resp, hresp, hfor⟩
      simp [List.filterMap_append, hresp, List.filter_append, hother]

theorem lastResponse_append_of {log : List Event} {event : Event} {resp : RouteResponse}
    (h : event.response = some resp) :
    lastResponse (log ++ [event]) resp.modid resp.cmdid = some resp := by
  simp [lastResponse, List.filterMap_append, h, List.filter_append]

namespace Service

open Lib

variable {n : Nat}

/-! ## What is on its way -/

/-- The worker has a push task to run, or `publish` is still going to send it one. -/
def Coming (s : Service n) (w : Fin n) : Prop :=
  (s.workers w).HasTask ∨ ∃ i, s.publishing = some i ∧ i ≤ w

/-- The worker is still going to read the hosts for a push of the key. -/
def Later (s : Service n) (w : Fin n) (fd : Int) (mod : UInt64) : Prop :=
  (mod ∈ s.pushList fd ∧ Coming s w) ∨ (fd, mod) ∈ (s.workers w).pc.todo

/-- The hosts are those of a table installed at or after the swap before the last publication. -/
def UpToDate (s : Service n) (mod : UInt64) (hosts : Finset UInt64) : Prop :=
  ∀ j, s.pubAt mod = some j → ∃ j' map, j ≤ j' ∧ s.installs[j']? = some map ∧ map mod = hosts

/-- How it stands with a pair that has been requested. -/
inductive Answered (s : Service n) (w : Fin n) (fd : Int) (log : List Event)
    (modid cmdid : Int32) : Prop
  | sent (hosts : Finset UInt64)
      (hlast : lastResponse log modid cmdid = some (RouteResponse.of modid cmdid hosts))
      (hfresh : UpToDate s (routeKey modid cmdid) hosts)
  | later (hlater : Later s w fd (routeKey modid cmdid))
  | sending (hosts : Finset UInt64) (todo : List (Int × UInt64))
      (hpc : (s.workers w).pc = .pushSend fd (routeKey modid cmdid) hosts todo)
  /-- the first `get_route` for the pair is still running -/
  | serving (hpc : (s.workers w).pc.serves = some (fd, modid, cmdid))
      (hfirst : ∀ resp, .replied resp ∈ log → ¬ (resp.modid = modid ∧ resp.cmdid = cmdid))

/-! ## The invariant -/

/-- The history agrees with the poll thread. -/
structure PublishInv (s : Service n) : Prop where
  current : s.installs.getLast? = some s.poll.route.dataMap
  bound : ∀ mod j, s.pubAt mod = some j → j < s.installs.length
  busy : ∀ i, s.publishing = some i → ∃ changes, s.poll.pc = .publish changes

/-- A connection that is not being closed. -/
structure ConnInv (s : Service n) (w : Fin n) (fd : Int) (c : Conn n) : Prop where
  sub : ∀ modid cmdid, .request modid cmdid ∈ c.log → routeKey modid cmdid ∈ c.subList
  asked : ∀ resp, .replied resp ∈ c.log → .request resp.modid resp.cmdid ∈ c.log
  booked : ∀ mod ∈ c.subList, fd ∈ s.bookList mod
  answered : ∀ modid cmdid, .request modid cmdid ∈ c.log → 0 ≤ cmdid.toInt →
    Answered s w fd c.log modid cmdid

/-- A worker with its connections. -/
structure WorkerInv (s : Service n) (w : Fin n) : Prop where
  conn : ∀ fd c, s.conns fd = some c → c.worker = w →
    (∀ mods, (s.workers w).pc ≠ .closing fd mods) → ConnInv s w fd c
  serving : ∀ fd modid cmdid c, (s.workers w).pc.serves = some (fd, modid, cmdid) →
    s.conns fd = some c → .request modid cmdid ∈ c.log
  fresh : ∀ fd mod hosts c, (s.workers w).pc.inHand = some (fd, mod, hosts) →
    s.conns fd = some c → mod ∈ c.subList → 0 ≤ (cmdidOf mod).toInt →
    UpToDate s mod hosts ∨ Later s w fd mod

theorem init_publishInv (db : Database) (route : Route) (now : Int) :
    PublishInv (init n db route now) where
  current := by simp [init, Poll.init]
  bound := by simp [init]
  busy := by simp [init]

theorem init_workerInv (db : Database) (route : Route) (now : Int) (w : Fin n) :
    WorkerInv (init n db route now) w where
  conn := by simp [init]
  serving := by simp [init]
  fresh := by simp [init]

/-- What is in `_data_map` now is up to date. -/
theorem PublishInv.upToDate {s : Service n} (h : PublishInv s) (mod : UInt64) :
    UpToDate s mod (s.poll.route.dataMap mod) := by
  intro j hj
  have hlen : j < s.installs.length := h.bound mod j hj
  refine ⟨s.installs.length - 1, s.poll.route.dataMap, by omega, ?_, rfl⟩
  rw [← List.getLast?_eq_getElem?]
  exact h.current

theorem Step.publishInv {s t : Service n} {a : Act n} (hstep : Step s a t) (h : PublishInv s) :
    PublishInv t := by
  cases hstep with
  | quiet _ poll hmap hpc =>
      refine ⟨?_, h.bound, ?_⟩
      · rw [hmap]
        exact h.current
      · intro i hi
        rcases h.busy i hi with ⟨changes, hchanges⟩
        exact ⟨changes, (hpc changes hchanges).trans hchanges⟩
  | install _ poll hpc =>
      refine ⟨by simp, ?_, ?_⟩
      · intro mod j hj
        have hlen := h.bound mod j hj
        simp only [List.length_append, List.length_singleton]
        omega
      · intro i hi
        rcases h.busy i hi with ⟨changes, hchanges⟩
        exact absurd hchanges (hpc changes)
  | publishLists _ changes hpc hfirst =>
      refine ⟨h.current, ?_, fun _ _ => ⟨changes, hpc⟩⟩
      intro mod j hj
      have hne : s.installs ≠ [] := by
        intro hnil
        have hcur := h.current
        simp [hnil] at hcur
      dsimp only at hj
      split_ifs at hj with hmem
      · -- the swap before this publication is the last one installed
        cases hj
        exact Nat.sub_lt (List.length_pos_iff.2 hne) one_pos
      · exact h.bound mod j hj
  | sendTask _ i changes hpc hnext =>
      exact ⟨h.current, h.bound, fun _ _ => ⟨changes, hpc⟩⟩
  | publishDone _ i poll hnext hlast hmap =>
      refine ⟨?_, h.bound, by simp⟩
      rw [hmap]
      exact h.current
  | _ =>
      exact ⟨h.current, h.bound, h.busy⟩

/-! ## What the others see of a step -/

/-- A worker that stays where it is, whatever happens around it to what is not its own. -/
theorem WorkerInv.frame {s t : Service n} {w : Fin n} (h : WorkerInv s w) (hown : Owned s)
    (hpc : (t.workers w).pc = (s.workers w).pc)
    (hconns : ∀ fd c, c.worker = w → (t.conns fd = some c ↔ s.conns fd = some c))
    (hbook : ∀ fd mod, Owns s w fd → fd ∈ s.bookList mod → fd ∈ t.bookList mod)
    (hlater : ∀ fd mod, Owns s w fd → Later s w fd mod → Later t w fd mod)
    (hfresh : ∀ fd mod hosts, Owns s w fd → fd ∈ s.bookList mod → UpToDate s mod hosts →
      UpToDate t mod hosts ∨ Later t w fd mod) : WorkerInv t w := by
  have hheld : ∀ {fd : Int} {c : Conn n}, fd ∈ (s.workers w).pc.fds → t.conns fd = some c →
      s.conns fd = some c ∧ c.worker = w := by
    intro fd c hfd hc
    rcases hown.held w fd hfd with ⟨c', hc', hw⟩
    rw [(hconns fd c' hw).2 hc'] at hc
    cases hc
    exact ⟨hc', hw⟩
  refine ⟨?_, ?_, ?_⟩
  · intro fd c hc hw hclosing
    have hc' : s.conns fd = some c := (hconns fd c hw).1 hc
    have hfd : Owns s w fd := ⟨c, hc', hw⟩
    have hinv := h.conn fd c hc' hw (by rw [← hpc]; exact hclosing)
    refine ⟨hinv.sub, hinv.asked, fun mod hmod => hbook fd mod hfd (hinv.booked mod hmod), ?_⟩
    intro modid cmdid hreq hcmdid
    cases hinv.answered modid cmdid hreq hcmdid with
    | sent hosts hlast hold =>
        rcases hfresh fd _ hosts hfd (hinv.booked _ (hinv.sub _ _ hreq)) hold with hup | hlate
        · exact .sent hosts hlast hup
        · exact .later hlate
    | later hlate =>
        exact .later (hlater fd _ hfd hlate)
    | sending hosts todo hsend =>
        exact .sending hosts todo (hpc.trans hsend)
    | serving hserves hfirst =>
        exact .serving (by rw [hpc]; exact hserves) hfirst
  · intro fd modid cmdid c hserves hc
    rw [hpc] at hserves
    exact h.serving fd modid cmdid c hserves (hheld (WorkerPc.fd_mem_of_serves hserves) hc).1
  · intro fd mod hosts c hhand hc hmod hcmdid
    rw [hpc] at hhand
    rcases hheld (WorkerPc.fd_mem_of_inHand hhand) hc with ⟨hc', hw⟩
    have hfd : Owns s w fd := ⟨c, hc', hw⟩
    have hopen : ∀ mods, (s.workers w).pc ≠ .closing fd mods := by
      intro mods hclosing
      simp [hclosing, WorkerPc.inHand] at hhand
    rcases h.fresh fd mod hosts c hhand hc' hmod hcmdid with hold | hlate
    · exact hfresh fd mod hosts hfd ((h.conn fd c hc' hw hopen).booked mod hmod) hold
    · exact Or.inr (hlater fd mod hfd hlate)

/-- A worker while another one takes a step. -/
theorem WorkerInv.other {s t : Service n} {w : Fin n} (h : WorkerInv s w) (hown : Owned s)
    (hworker : t.workers w = s.workers w) (hpublishing : t.publishing = s.publishing)
    (hpubAt : t.pubAt = s.pubAt) (hinstalls : t.installs = s.installs)
    (hconns : ∀ fd c, c.worker = w → (t.conns fd = some c ↔ s.conns fd = some c))
    (hbook : ∀ fd mod, Owns s w fd → fd ∈ s.bookList mod → fd ∈ t.bookList mod)
    (hpush : ∀ fd mod, Owns s w fd → mod ∈ s.pushList fd → mod ∈ t.pushList fd) :
    WorkerInv t w := by
  refine h.frame hown (by rw [hworker]) hconns hbook ?_ ?_
  · intro fd mod hfd hlate
    unfold Later Coming at hlate ⊢
    rw [hworker, hpublishing]
    rcases hlate with ⟨hmod, hcoming⟩ | htodo
    · exact Or.inl ⟨hpush fd mod hfd hmod, hcoming⟩
    · exact Or.inr htodo
  · intro fd mod hosts _ _ hold
    left
    unfold UpToDate
    rw [hpubAt, hinstalls]
    exact hold

theorem WorkerInv.aside {s : Service n} {w w' : Fin n} {worker : Worker} (h : WorkerInv s w')
    (hown : Owned s) (hw : w' ≠ w) : WorkerInv (s.setWorker w worker) w' :=
  h.other hown (setWorker_other s worker hw) rfl rfl rfl (fun _ _ _ => Iff.rfl)
    (fun _ _ _ hfd => hfd) fun _ _ _ hmod => hmod

/-- A connection that is another worker's before and after. -/
theorem setConn_conns_iff {s : Service n} {w : Fin n} {fd : Int} {conn : Option (Conn n)}
    (hbefore : ∀ c, s.conns fd = some c → c.worker ≠ w) (hafter : ∀ c, conn = some c → c.worker ≠ w)
    (fd' : Int) (c : Conn n) (hc : c.worker = w) :
    (s.setConn fd conn).conns fd' = some c ↔ s.conns fd' = some c := by
  by_cases hfd : fd' = fd
  · subst hfd
    simp only [setConn, Function.update_self]
    exact ⟨fun hnew => absurd hc (hafter c hnew), fun hold => absurd hc (hbefore c hold)⟩
  · simp [setConn, hfd]

/-- A connection that another worker owns and replaces. -/
theorem setConn_conns_aside {s : Service n} {w w' : Fin n} (hw : w' ≠ w) {fd : Int}
    {conn conn' : Conn n} (hconn : s.conns fd = some conn) (hworker : conn.worker = w)
    (hworker' : conn'.worker = w) (fd' : Int) (c : Conn n) (hc : c.worker = w') :
    (s.setConn fd (some conn')).conns fd' = some c ↔ s.conns fd' = some c := by
  refine setConn_conns_iff ?_ ?_ fd' c hc
  · intro c hc heq
    rw [hconn] at hc
    cases hc
    exact hw (heq.symm.trans hworker)
  · intro c hc heq
    cases hc
    exact hw (heq.symm.trans hworker')

theorem WorkerInv.logOn_aside {s : Service n} {w w' : Fin n} (h : WorkerInv s w') (hown : Owned s)
    (hw : w' ≠ w) {fd : Int} {conn : Conn n} (hconn : s.conns fd = some conn)
    (hworker : conn.worker = w) (pc : WorkerPc) (event : Event) :
    WorkerInv ((s.setPc w pc).logOn fd conn event) w' :=
  h.other hown (setWorker_other s _ hw) rfl rfl rfl
    (setConn_conns_aside (s := s.setPc w pc) hw hconn hworker hworker) (fun _ _ _ hfd => hfd)
    fun _ _ _ hmod => hmod

/-! ## The poll thread -/

theorem enqueue_pc (s : Service n) (w w' : Fin n) (task : Task) :
    ((s.enqueue w' task).workers w).pc = (s.workers w).pc := by
  by_cases hw : w = w'
  · subst hw
    simp [Service.enqueue]
  · simp [Service.enqueue, setWorker_other s _ hw]

theorem Coming.enqueue {s : Service n} {w : Fin n} (h : Coming s w) (w' : Fin n) (task : Task) :
    Coming (s.enqueue w' task) w := by
  rcases h with htask | hpublish
  · left
    by_cases hw : w = w'
    · subst hw
      rw [Service.enqueue, setWorker_self]
      rcases htask with hqueue | hrest
      · exact Or.inl (List.mem_append_left _ hqueue)
      · exact Or.inr hrest
    · rw [Service.enqueue, setWorker_other s _ hw]
      exact htask
  · exact Or.inr hpublish

theorem Later.enqueue {s : Service n} {w : Fin n} {fd : Int} {mod : UInt64} (h : Later s w fd mod)
    (w' : Fin n) (task : Task) : Later (s.enqueue w' task) w fd mod := by
  rcases h with ⟨hmod, hcoming⟩ | htodo
  · exact Or.inl ⟨hmod, hcoming.enqueue w' task⟩
  · right
    rw [enqueue_pc]
    exact htodo

theorem WorkerInv.install {s : Service n} {w : Fin n} (h : WorkerInv s w) (hown : Owned s)
    (poll : Poll) (map : RouteMap) :
    WorkerInv { s with poll := poll, installs := s.installs ++ [map] } w := by
  refine h.frame hown rfl (fun _ _ _ => Iff.rfl) (fun _ _ _ hfd => hfd)
    (fun _ _ _ hlate => hlate) ?_
  intro fd mod hosts _ _ hold
  left
  intro j hj
  rcases hold j hj with ⟨j', map', hle, hmap, hhosts⟩
  refine ⟨j', map', hle, ?_, hhosts⟩
  rw [List.getElem?_append_left (List.getElem?_eq_some_iff.1 hmap).1]
  exact hmap

/-- `publish` outdates the responses of the changed keys, and at the same time puts the keys on the
push lists of those who are subscribed to them. -/
theorem WorkerInv.publishLists {s : Service n} {w : Fin n} (h : WorkerInv s w) (hown : Owned s)
    (keys : List UInt64) :
    WorkerInv { s with
      publishing := some 0
      pushList := publish s.bookList keys s.pushList
      pubAt := fun mod => if mod ∈ keys then some (s.installs.length - 1) else s.pubAt mod } w := by
  refine h.frame hown rfl (fun _ _ _ => Iff.rfl) (fun _ _ _ hfd => hfd) ?_ ?_
  · rintro fd mod _ (⟨hmod, _⟩ | htodo)
    · -- every worker is still to get its task
      exact Or.inl ⟨mem_publish.2 (Or.inl hmod), Or.inr ⟨0, rfl, Nat.zero_le _⟩⟩
    · exact Or.inr htodo
  · intro fd mod hosts _ hfd hold
    -- an outdated response has a push on its way, since the descriptor is subscribed
    by_cases hmem : mod ∈ keys
    · right
      exact Or.inl ⟨mem_publish.2 (Or.inr ⟨hmem, hfd⟩), Or.inr ⟨0, rfl, Nat.zero_le _⟩⟩
    · left
      intro j hj
      dsimp only at hj
      rw [if_neg hmem] at hj
      exact hold j hj

theorem WorkerInv.enqueue {s : Service n} {w : Fin n} (h : WorkerInv s w) (hown : Owned s)
    (w' : Fin n) (task : Task) : WorkerInv (s.enqueue w' task) w :=
  h.frame hown (enqueue_pc s w w' task) (fun _ _ _ => Iff.rfl) (fun _ _ _ hfd => hfd)
    (fun _ _ _ hlate => hlate.enqueue w' task) fun _ _ _ _ _ hold => Or.inl hold

/-- The worker that `publish` has come to gets its task before `publish` goes on. -/
theorem WorkerInv.sendTask {s : Service n} {w : Fin n} (h : WorkerInv s w) (hown : Owned s)
    {i : Fin n} (hnext : s.publishing = some i) :
    WorkerInv { s.enqueue i .newTask with publishing := some (i + 1) } w := by
  refine h.frame hown (enqueue_pc s w i .newTask) (fun _ _ _ => Iff.rfl) (fun _ _ _ hfd => hfd) ?_
    fun _ _ _ _ _ hold => Or.inl hold
  intro fd mod _ hlate
  rcases hlate.enqueue i .newTask with ⟨hmod, hcoming⟩ | htodo
  · refine Or.inl ⟨hmod, ?_⟩
    rcases hcoming with htask | ⟨j, hj, hle⟩
    · exact Or.inl htask
    · have hij : j = i := by
        have hsame : s.publishing = some j := hj
        rw [hnext] at hsame
        exact (Option.some.inj hsame).symm
      subst hij
      by_cases hw : w = i
      · subst hw
        left
        left
        simp [Service.enqueue]
      · refine Or.inr ⟨i + 1, rfl, ?_⟩
        have hne : (w : Nat) ≠ i := fun heq => hw (Fin.ext heq)
        omega
  · exact Or.inr htodo

theorem WorkerInv.publishDone {s : Service n} {w : Fin n} (h : WorkerInv s w) (hown : Owned s)
    (poll : Poll) {i : Nat} (hnext : s.publishing = some i) (hlast : ¬ i < n) :
    WorkerInv { s with poll := poll, publishing := none } w := by
  refine h.frame hown rfl (fun _ _ _ => Iff.rfl) (fun _ _ _ hfd => hfd) ?_
    fun _ _ _ _ _ hold => Or.inl hold
  rintro fd mod _ (⟨hmod, htask | ⟨j, hj, hle⟩⟩ | htodo)
  · exact Or.inl ⟨hmod, Or.inl htask⟩
  · -- `publish` has been to every worker
    rw [hnext] at hj
    cases hj
    have hw := w.isLt
    omega
  · exact Or.inr htodo

/-! ## The worker itself -/

/-- A push that is on its way stays so while its task goes from one queue to the next. -/
theorem Later.setWorker {s : Service n} {w : Fin n} {fd : Int} {mod : UInt64} {worker : Worker}
    (h : Later s w fd mod)
    (htodo : (fd, mod) ∈ (s.workers w).pc.todo → (fd, mod) ∈ worker.pc.todo)
    (htasks : (s.workers w).HasTask → worker.HasTask) : Later (s.setWorker w worker) w fd mod := by
  rcases h with ⟨hmod, htask | hpublish⟩ | hold
  · exact Or.inl ⟨hmod, Or.inl (by rw [setWorker_self]; exact htasks htask)⟩
  · exact Or.inl ⟨hmod, Or.inr hpublish⟩
  · exact Or.inr (by rw [setWorker_self]; exact htodo hold)

/-- Nothing is logged for the pair. -/
theorem Answered.log {s : Service n} {w : Fin n} {fd : Int} {log : List Event}
    {modid cmdid : Int32} (h : Answered s w fd log modid cmdid) {event : Event}
    (hevent : ¬ event.isFor modid cmdid) : Answered s w fd (log ++ [event]) modid cmdid := by
  cases h with
  | sent hosts hlast hfresh =>
      exact .sent hosts (by rw [lastResponse_append_of_not hevent]; exact hlast) hfresh
  | later hlate =>
      exact .later hlate
  | sending hosts todo hsend =>
      exact .sending hosts todo hsend
  | serving hserves hfirst =>
      refine .serving hserves ?_
      intro resp hresp hfor
      rcases List.mem_append.1 hresp with hold | hnew
      · exact hfirst resp hold hfor
      · rw [List.mem_singleton] at hnew
        subst hnew
        exact hevent ⟨resp, rfl, hfor⟩

/-- A step from a position with no response in hand and no request being served. -/
theorem Answered.move {s t : Service n} {w : Fin n} {fd : Int} {log : List Event}
    {modid cmdid : Int32} (h : Answered s w fd log modid cmdid)
    (hserves : (s.workers w).pc.serves = none) (hinHand : (s.workers w).pc.inHand = none)
    (hpubAt : t.pubAt = s.pubAt) (hinstalls : t.installs = s.installs)
    (hlater : ∀ mod, Later s w fd mod → Later t w fd mod) :
    Answered t w fd log modid cmdid := by
  cases h with
  | sent hosts hlast hfresh =>
      refine .sent hosts hlast ?_
      unfold UpToDate
      rw [hpubAt, hinstalls]
      exact hfresh
  | later hlate =>
      exact .later (hlater _ hlate)
  | sending hosts todo hsend =>
      simp [hsend, WorkerPc.inHand] at hinHand
  | serving hserves' _ =>
      rw [hserves] at hserves'
      cases hserves'

/-- A step between two such positions, on which connections are opened or closed at most. -/
theorem WorkerInv.goOn {s t : Service n} {w : Fin n} (h : WorkerInv s w)
    (hserves : (s.workers w).pc.serves = none) (hinHand : (s.workers w).pc.inHand = none)
    (hserves' : (t.workers w).pc.serves = none) (hinHand' : (t.workers w).pc.inHand = none)
    (hpubAt : t.pubAt = s.pubAt) (hinstalls : t.installs = s.installs)
    (hconns : ∀ fd c, t.conns fd = some c → c.worker = w →
      (∀ mods, (t.workers w).pc ≠ .closing fd mods) →
      (c.subList = ∅ ∧ c.log = []) ∨
      (s.conns fd = some c ∧ (∀ mods, (s.workers w).pc ≠ .closing fd mods) ∧
        ∀ mod, fd ∈ s.bookList mod → fd ∈ t.bookList mod))
    (hlater : ∀ fd mod, Owns s w fd → Later s w fd mod → Later t w fd mod) : WorkerInv t w := by
  refine ⟨?_, ?_, ?_⟩
  · intro fd c hc hw hclosing
    rcases hconns fd c hc hw hclosing with ⟨hsub, hlog⟩ | ⟨hc', hopen, hbook⟩
    · refine ⟨?_, ?_, ?_, ?_⟩ <;> simp [hsub, hlog]
    · have hinv := h.conn fd c hc' hw hopen
      refine ⟨hinv.sub, hinv.asked, fun mod hmod => hbook mod (hinv.booked mod hmod), ?_⟩
      intro modid cmdid hreq hcmdid
      exact (hinv.answered modid cmdid hreq hcmdid).move hserves hinHand hpubAt hinstalls
        fun mod => hlater fd mod ⟨c, hc', hw⟩
  · simp [hserves']
  · simp [hinHand']

/-- Such a step without any effect on the connections, for the worker and for the others. -/
theorem workerInv_setWorker {s : Service n} {w : Fin n} {pc : WorkerPc} {worker : Worker}
    (h : ∀ w, WorkerInv s w) (hown : Owned s) (hpc : (s.workers w).pc = pc)
    (hserves : pc.serves = none) (hinHand : pc.inHand = none)
    (hserves' : worker.pc.serves = none) (hinHand' : worker.pc.inHand = none)
    (hopen : ∀ fd mods, pc ≠ .closing fd mods) (htodo : pc.todo = [])
    (htasks : (s.workers w).HasTask → worker.HasTask) (w' : Fin n) :
    WorkerInv (s.setWorker w worker) w' := by
  by_cases hw : w' = w
  swap
  · exact (h w').aside hown hw
  subst hw
  refine (h w').goOn (by rw [hpc]; exact hserves) (by rw [hpc]; exact hinHand)
    (by simpa using hserves') (by simpa using hinHand') rfl rfl ?_ ?_
  · intro fd c hc _ _
    exact Or.inr ⟨hc, by rw [hpc]; exact hopen fd, fun _ hfd => hfd⟩
  · exact fun fd mod _ hlate => hlate.setWorker (by simp [hpc, htodo]) htasks

/-- A new connection has asked for nothing. -/
theorem WorkerInv.openConn {s : Service n} {w w' : Fin n} (h : WorkerInv s w') (hown : Owned s)
    {connfd : Int} {tasks : List Task}
    (hpc : (s.workers w).pc = .dealing (.newConn connfd :: tasks))
    (hfree : s.conns connfd = none) :
    WorkerInv ((s.setWorker w { s.workers w with
        listenFds := insert connfd (s.workers w).listenFds
        pc := .dealing tasks }).setConn connfd
      (some { worker := w, subList := ∅, log := [] })) w' := by
  by_cases hw : w' = w
  · subst hw
    refine h.goOn (by simp [hpc, WorkerPc.serves]) (by simp [hpc, WorkerPc.inHand])
      (by simp [setConn, WorkerPc.serves]) (by simp [setConn, WorkerPc.inHand]) rfl rfl ?_ ?_
    · intro fd c hc _ _
      rcases setConn_eq_some.1 hc with ⟨_, hnew⟩ | ⟨_, hold⟩
      · cases hnew
        exact Or.inl ⟨rfl, rfl⟩
      · exact Or.inr ⟨hold, by simp [hpc], fun _ hfd => hfd⟩
    · intro fd mod _ hlate
      exact hlate.setWorker (by simp [hpc, WorkerPc.todo])
        (by simp [Worker.HasTask, hpc, WorkerPc.tasks])
  · refine h.other hown (setWorker_other s _ hw) rfl rfl rfl (setConn_conns_iff ?_ ?_)
      (fun _ _ _ hfd => hfd) fun _ _ _ hmod => hmod
    · intro c hc
      rw [show s.conns connfd = some c from hc] at hfree
      cases hfree
    · intro c hc
      cases hc
      exact fun heq => hw heq.symm

/-- One `unsubscribe` of `clean_conn`: the connection it is about is not open any more. -/
theorem WorkerInv.unsubscribe {s : Service n} {w w' : Fin n} (h : WorkerInv s w') (hown : Owned s)
    {fd : Int} {mod : UInt64} {mods : List UInt64}
    (hpc : (s.workers w).pc = .closing fd (mod :: mods)) :
    WorkerInv { s.setPc w (.closing fd mods) with
      bookList := Dns.unsubscribe s.bookList mod fd } w' := by
  have hfd : Owns s w fd := hown.held w fd (by simp [hpc, WorkerPc.fds])
  by_cases hw : w' = w
  · subst hw
    refine h.goOn (by simp [hpc, WorkerPc.serves]) (by simp [hpc, WorkerPc.inHand])
      (by simp [setPc, WorkerPc.serves]) (by simp [setPc, WorkerPc.inHand]) rfl rfl ?_ ?_
    · intro fd' c hc _ hopen
      have hne : fd' ≠ fd := by
        rintro rfl
        exact hopen mods (by simp [setPc])
      refine Or.inr ⟨hc, by simp [hpc, hne.symm], ?_⟩
      intro mod' hfd'
      exact mem_unsubscribe.2 ⟨hfd', fun hsame => hne hsame.2⟩
    · intro fd' mod' _ hlate
      exact hlate.setWorker (by simp [hpc, WorkerPc.todo])
        (by simp [Worker.HasTask, hpc, WorkerPc.tasks])
  · refine h.other hown (setWorker_other s _ hw) rfl rfl rfl (fun _ _ _ => Iff.rfl) ?_
      fun _ _ _ hmod => hmod
    -- the descriptor is not one of this worker's
    intro fd' mod' hfd' hbook
    refine mem_unsubscribe.2 ⟨hbook, ?_⟩
    rintro ⟨_, rfl⟩
    exact hw (hfd'.unique hfd)

theorem WorkerInv.endClose {s : Service n} {w w' : Fin n} (h : WorkerInv s w') (hown : Owned s)
    {fd : Int} (hpc : (s.workers w).pc = .closing fd []) :
    WorkerInv ((s.setWorker w { s.workers w with
      listenFds := (s.workers w).listenFds.erase fd
      pc := .loop }).setConn fd none) w' := by
  have hfd : Owns s w fd := hown.held w fd (by simp [hpc, WorkerPc.fds])
  by_cases hw : w' = w
  · subst hw
    refine h.goOn (by simp [hpc, WorkerPc.serves]) (by simp [hpc, WorkerPc.inHand])
      (by simp [setConn, WorkerPc.serves]) (by simp [setConn, WorkerPc.inHand]) rfl rfl ?_ ?_
    · intro fd' c hc _ _
      rcases setConn_eq_some.1 hc with ⟨_, hnone⟩ | ⟨hne, hold⟩
      · cases hnone
      · exact Or.inr ⟨hold, by simp [hpc, hne.symm], fun _ hfd' => hfd'⟩
    · intro fd' mod' _ hlate
      exact hlate.setWorker (by simp [hpc, WorkerPc.todo])
        (by simp [Worker.HasTask, hpc, WorkerPc.tasks])
  · refine h.other hown (setWorker_other s _ hw) rfl rfl rfl (setConn_conns_iff ?_ ?_)
      (fun _ _ _ hfd' => hfd') fun _ _ _ hmod => hmod
    · intro c hc heq
      exact hw (heq.symm.trans (hfd.worker_eq hc))
    · intro c hc
      cases hc

/-- A request: the key is subscribed before its hosts are read. -/
theorem WorkerInv.request {s : Service n} {w : Fin n} (h : WorkerInv s w) {fd : Int}
    {modid cmdid : Int32} {conn : Conn n} {book : BookList} (hpc : (s.workers w).pc = .loop)
    (hconn : s.conns fd = some conn) (hown : conn.worker = w)
    (hbook : ∀ mod fd', fd' ∈ book mod ↔ fd' ∈ s.bookList mod ∨
      (mod = routeKey modid cmdid ∧ fd' = fd ∧ mod ∉ conn.subList)) :
    WorkerInv
      { (s.setPc w (.routing fd modid cmdid)).setConn fd (some
          { conn with
            subList := insert (routeKey modid cmdid) conn.subList
            log := conn.log ++ [.request modid cmdid] }) with
        bookList := book } w := by
  have hopen : ∀ fd' mods, (s.workers w).pc ≠ .closing fd' mods := by simp [hpc]
  -- a pair asked for before stands as it stood
  have hmove : ∀ {fd' : Int} {log : List Event} {m k : Int32}, Answered s w fd' log m k →
      Answered { (s.setPc w (.routing fd modid cmdid)).setConn fd (some
          { conn with
            subList := insert (routeKey modid cmdid) conn.subList
            log := conn.log ++ [.request modid cmdid] }) with
        bookList := book } w fd' log m k := by
    intro fd' log m k hans
    refine hans.move (by simp [hpc, WorkerPc.serves]) (by simp [hpc, WorkerPc.inHand]) rfl rfl ?_
    exact fun mod hlate => hlate.setWorker (by simp [hpc, WorkerPc.todo])
      (by simp [Worker.HasTask, hpc, WorkerPc.tasks])
  refine ⟨?_, ?_, ?_⟩
  · intro fd' c hc hw _
    rcases setConn_eq_some.1 hc with ⟨rfl, hnew⟩ | ⟨hfd, hold⟩
    · cases hnew
      have hinv := h.conn fd' conn hconn hown (hopen fd')
      refine ⟨?_, ?_, ?_, ?_⟩
      · intro m k hreq
        rcases List.mem_append.1 hreq with hreq | hreq
        · exact Finset.mem_insert_of_mem (hinv.sub m k hreq)
        · cases List.mem_singleton.1 hreq
          exact Finset.mem_insert_self _ _
      · intro resp hresp
        have hresp' : .replied resp ∈ conn.log := by simpa using hresp
        exact List.mem_append_left _ (hinv.asked resp hresp')
      · intro mod hmod
        refine (hbook mod fd').2 ?_
        by_cases hsub : mod ∈ conn.subList
        · exact Or.inl (hinv.booked mod hsub)
        · exact Or.inr ⟨(Finset.mem_insert.1 hmod).resolve_right hsub, rfl, hsub⟩
      · intro m k hreq hcmdid
        by_cases hold : .request m k ∈ conn.log
        · refine (hmove (hinv.answered m k hold hcmdid)).log ?_
          rintro ⟨resp, hresp, _⟩
          cases hresp
        · have hsame : Event.request m k = .request modid cmdid := by simpa [hold] using hreq
          cases hsame
          refine .serving (by simp [setConn, setPc, WorkerPc.serves]) ?_
          -- a reply would have been asked for
          rintro resp hresp ⟨rfl, rfl⟩
          exact hold (hinv.asked resp (by simpa using hresp))
    · have hinv := h.conn fd' c hold hw (hopen fd')
      refine ⟨hinv.sub, hinv.asked, ?_, ?_⟩
      · intro mod hmod
        exact (hbook mod fd').2 (Or.inl (hinv.booked mod hmod))
      · intro m k hreq hcmdid
        exact hmove (hinv.answered m k hreq hcmdid)
  · intro fd' m k c hserves hc
    have hsame : (fd, modid, cmdid) = (fd', m, k) := by
      simpa [setConn, setPc, WorkerPc.serves] using hserves
    cases hsame
    rcases setConn_eq_some.1 hc with ⟨_, hnew⟩ | ⟨hne, _⟩
    · cases hnew
      simp
    · exact absurd rfl hne
  · intro fd' mod hosts c hhand
    simp [setConn, setPc, WorkerPc.inHand] at hhand

/-- `get_hosts` in `get_route`. -/
theorem WorkerInv.readReply {s : Service n} {w : Fin n} (h : WorkerInv s w) (hpub : PublishInv s)
    {fd : Int} {modid cmdid : Int32} (hpc : (s.workers w).pc = .routing fd modid cmdid) :
    WorkerInv (s.setPc w (.replying fd modid cmdid (s.poll.route.getHosts modid cmdid))) w := by
  have hlater : ∀ {fd' : Int} {mod : UInt64}, Later s w fd' mod → Later (s.setPc w
      (.replying fd modid cmdid (s.poll.route.getHosts modid cmdid))) w fd' mod := by
    exact fun hlate => hlate.setWorker (by simp [hpc, WorkerPc.todo])
      (by simp [Worker.HasTask, hpc, WorkerPc.tasks])
  refine ⟨?_, ?_, ?_⟩
  · intro fd' c hc hw _
    have hinv := h.conn fd' c hc hw (by simp [hpc])
    refine ⟨hinv.sub, hinv.asked, hinv.booked, ?_⟩
    intro m k hreq hcmdid
    cases hinv.answered m k hreq hcmdid with
    | sent hosts hlast hfresh =>
        exact .sent hosts hlast hfresh
    | later hlate =>
        exact .later (hlater hlate)
    | sending hosts todo hsend =>
        rw [hpc] at hsend
        cases hsend
    | serving hserves hfirst =>
        exact .serving (by simpa [setPc, hpc, WorkerPc.serves] using hserves) hfirst
  · intro fd' m k c hserves hc
    exact h.serving fd' m k c (by simpa [setPc, hpc, WorkerPc.serves] using hserves) hc
  · intro fd' mod hosts c hhand _ _ _
    have hsame : (fd, routeKey modid cmdid, s.poll.route.getHosts modid cmdid) =
        (fd', mod, hosts) := by
      simpa [setPc, WorkerPc.inHand] using hhand
    cases hsame
    exact Or.inl (hpub.upToDate _)

/-- `get_hosts` in `push_change_task`. -/
theorem WorkerInv.readPush {s : Service n} {w : Fin n} (h : WorkerInv s w) (hpub : PublishInv s)
    {fd : Int} {st : UInt64} {todo : List (Int × UInt64)}
    (hpc : (s.workers w).pc = .pushing ((fd, st) :: todo)) :
    WorkerInv (s.setPc w
      (.pushSend fd st (s.poll.route.getHosts (modidOf st) (cmdidOf st)) todo)) w := by
  refine ⟨?_, ?_, ?_⟩
  · intro fd' c hc hw _
    have hinv := h.conn fd' c hc hw (by simp [hpc])
    refine ⟨hinv.sub, hinv.asked, hinv.booked, ?_⟩
    intro m k hreq hcmdid
    cases hinv.answered m k hreq hcmdid with
    | sent hosts hlast hfresh =>
        exact .sent hosts hlast hfresh
    | later hlate =>
        -- the head of the task is now in hand, the others are still to do
        by_cases hhead : (fd', routeKey m k) = (fd, st)
        swap
        · exact .later (hlate.setWorker (by simp [hpc, WorkerPc.todo, hhead])
            (by simp [Worker.HasTask, hpc, WorkerPc.tasks]))
        · cases hhead
          refine .sending (s.poll.route.getHosts (modidOf (routeKey m k))
            (cmdidOf (routeKey m k))) todo ?_
          rw [setPc, setWorker_self]
    | sending hosts todo' hsend =>
        rw [hpc] at hsend
        cases hsend
    | serving hserves hfirst =>
        simp [hpc, WorkerPc.serves] at hserves
  · intro fd' m k c hserves
    simp [setPc, WorkerPc.serves] at hserves
  · intro fd' mod hosts c hhand _ _ hcmdid
    have hsame : (fd, st, s.poll.route.getHosts (modidOf st) (cmdidOf st)) = (fd', mod, hosts) := by
      simpa [setPc, WorkerPc.inHand] using hhand
    cases hsame
    left
    -- unpacking the key and packing it again gives the key back
    rw [Route.getHosts, routeKey_unpack hcmdid]
    exact hpub.upToDate st

/-- `send_message`, in `get_route` or in `push_change_task`: the response in hand is sent. -/
theorem WorkerInv.respond {s : Service n} {w : Fin n} (h : WorkerInv s w) {fd : Int}
    {modid cmdid : Int32} {hosts : Finset UInt64} {conn : Conn n} {event : Event} {pc : WorkerPc}
    (hconn : s.conns fd = some conn) (hown : conn.worker = w)
    (hopen : ∀ fd' mods, (s.workers w).pc ≠ .closing fd' mods)
    (hresp : event.response = some (RouteResponse.of modid cmdid hosts))
    (hasked : ∀ resp, event = .replied resp → .request resp.modid resp.cmdid ∈ conn.log)
    (hhand : 0 ≤ cmdid.toInt → (s.workers w).pc.inHand = some (fd, routeKey modid cmdid, hosts))
    (hserves : ∀ fd' m k, (s.workers w).pc.serves = some (fd', m, k) →
      (fd', m, k) = (fd, modid, cmdid))
    (hsends : ∀ fd' m k hosts' todo, 0 ≤ k.toInt →
      (s.workers w).pc = .pushSend fd' (routeKey m k) hosts' todo →
      (fd', m, k) = (fd, modid, cmdid))
    (htasks : pc.tasks = (s.workers w).pc.tasks) (htodo : pc.todo = (s.workers w).pc.todo)
    (hserves' : pc.serves = none) (hinHand' : pc.inHand = none) :
    WorkerInv ((s.setPc w pc).logOn fd conn event) w := by
  have hlater : ∀ {fd' : Int} {mod : UInt64}, Later s w fd' mod →
      Later ((s.setPc w pc).logOn fd conn event) w fd' mod := by
    exact fun hlate => hlate.setWorker (by simp [htodo]) (by simp [Worker.HasTask, htasks])
  -- a pair that the response is not for stands as it stood
  have hmove : ∀ {fd' : Int} {log : List Event} {m k : Int32}, 0 ≤ k.toInt →
      (fd', m, k) ≠ (fd, modid, cmdid) → Answered s w fd' log m k →
      Answered ((s.setPc w pc).logOn fd conn event) w fd' log m k := by
    intro fd' log m k hk hne hans
    cases hans with
    | sent hosts' hlast hfresh =>
        exact .sent hosts' hlast hfresh
    | later hlate =>
        exact .later (hlater hlate)
    | sending hosts' todo hsend =>
        exact absurd (hsends fd' m k hosts' todo hk hsend) hne
    | serving hserving _ =>
        exact absurd (hserves fd' m k hserving) hne
  refine ⟨?_, ?_, ?_⟩
  · intro fd' c hc hw _
    rcases setConn_eq_some.1 hc with ⟨rfl, hnew⟩ | ⟨hfd, hold⟩
    · cases hnew
      have hinv := h.conn fd' conn hconn hown (hopen fd')
      refine ⟨?_, ?_, hinv.booked, ?_⟩
      · intro m k hreq
        rcases List.mem_append.1 hreq with hreq | hreq
        · exact hinv.sub m k hreq
        · rw [← List.mem_singleton.1 hreq] at hresp
          cases hresp
      · intro resp hmem
        rcases List.mem_append.1 hmem with hmem | hmem
        · exact List.mem_append_left _ (hinv.asked resp hmem)
        · exact List.mem_append_left _ (hasked resp (List.mem_singleton.1 hmem).symm)
      · intro m k hreq hk
        have hreq' : .request m k ∈ conn.log := by
          rcases List.mem_append.1 hreq with hreq | hreq
          · exact hreq
          · rw [← List.mem_singleton.1 hreq] at hresp
            cases hresp
        -- the response is the last one for its own pair and changes nothing for the others
        by_cases hfor : (fd', m, k) = (fd', modid, cmdid)
        · cases hfor
          have hkey : 0 ≤ (cmdidOf (routeKey modid cmdid)).toInt := by
            rw [cmdidOf_routeKey]
            exact hk
          have hsub : routeKey modid cmdid ∈ conn.subList := hinv.sub modid cmdid hreq'
          rcases h.fresh fd' _ hosts conn (hhand hk) hconn hsub hkey with hfresh | hlate
          · exact .sent hosts (lastResponse_append_of hresp) hfresh
          · exact .later (hlater hlate)
        · refine (hmove hk hfor (hinv.answered m k hreq' hk)).log ?_
          rintro ⟨resp, hresp', hm, hk'⟩
          rw [hresp] at hresp'
          cases hresp'
          cases hm
          cases hk'
          exact hfor rfl
    · have hinv := h.conn fd' c hold hw (hopen fd')
      refine ⟨hinv.sub, hinv.asked, hinv.booked, ?_⟩
      intro m k hreq hk
      refine hmove hk ?_ (hinv.answered m k hreq hk)
      intro heq
      exact hfd (congrArg Prod.fst heq)
  · intro fd' m k c hserving
    simp [logOn, setConn, setPc, hserves'] at hserving
  · intro fd' mod hosts' c hhand'
    simp [logOn, setConn, setPc, hinHand'] at hhand'

/-- `make_publish_map` moves what was to come into the running task, and leaves the entries of the
other workers where they are. -/
theorem WorkerInv.runTask {s : Service n} {w w' : Fin n} (h : WorkerInv s w') (hown : Owned s)
    {todo : List (Int × UInt64)} {ready : Nat} (hpc : (s.workers w).pc = .loop)
    (htodo : ∀ fd mod, (fd, mod) ∈ todo ↔ fd ∈ (s.workers w).listenFds ∧ mod ∈ s.pushList fd) :
    WorkerInv { s.setWorker w { s.workers w with readTasks := ready, pc := .pushing todo } with
      pushList := makePublishMap s.pushList (s.workers w).listenFds } w' := by
  by_cases hw : w' = w
  · subst hw
    refine h.goOn (by simp [hpc, WorkerPc.serves]) (by simp [hpc, WorkerPc.inHand])
      (by simp [WorkerPc.serves]) (by simp [WorkerPc.inHand]) rfl rfl
      (fun fd _ hc _ _ => Or.inr ⟨hc, by simp [hpc], fun _ hfd => hfd⟩) ?_
    rintro fd mod hfd (⟨hmod, _⟩ | hold)
    · right
      simpa [WorkerPc.todo] using (htodo fd mod).2 ⟨(hown.listen w' fd).2 hfd, hmod⟩
    · simp [hpc, WorkerPc.todo] at hold
  · refine h.other hown (setWorker_other s _ hw) rfl rfl rfl (fun _ _ _ => Iff.rfl)
      (fun _ _ _ hfd => hfd) ?_
    intro fd mod hfd hmod
    refine mem_makePublishMap.2 ⟨?_, hmod⟩
    intro hlisten
    exact hw (hfd.unique ((hown.listen w fd).1 hlisten))

/-! ## Every step -/

theorem Step.workerInv {s t : Service n} {a : Act n} (hstep : Step s a t) (hown : Owned s)
    (hpub : PublishInv s) (h : ∀ w, WorkerInv s w) (w' : Fin n) : WorkerInv t w' := by
  cases hstep with
  | quiet _ poll hmap hpc =>
      exact (h w').other hown rfl rfl rfl rfl (fun _ _ _ => Iff.rfl) (fun _ _ _ hfd => hfd)
        fun _ _ _ hmod => hmod
  | install _ poll hpc =>
      exact (h w').install hown poll _
  | publishLists _ changes hpc hfirst =>
      exact (h w').publishLists hown _
  | sendTask _ i changes hpc hnext =>
      exact (h w').sendTask hown hnext
  | publishDone _ i poll hnext hlast hmap =>
      exact (h w').publishDone hown poll hnext hlast
  | accept w connfd =>
      exact (h w').enqueue hown w _
  | recv w hpc =>
      exact workerInv_setWorker h hown hpc rfl rfl rfl rfl (by simp) rfl
        (by simp [Worker.HasTask, hpc, WorkerPc.tasks]) w'
  | openConn w connfd tasks hpc hfree =>
      exact (h w').openConn hown hpc hfree
  | addTask w tasks hpc =>
      exact workerInv_setWorker h hown hpc rfl rfl rfl rfl (by simp) rfl
        (by simp [Worker.HasTask, hpc, WorkerPc.tasks]) w'
  | dealt w hpc =>
      exact workerInv_setWorker h hown hpc rfl rfl rfl rfl (by simp) rfl
        (by simp [Worker.HasTask, hpc, WorkerPc.tasks]) w'
  | request w fd modid cmdid conn book hpc hconn hworker hbook =>
      by_cases hw : w' = w
      · subst hw
        exact (h w').request hpc hconn hworker hbook
      · refine (h w').other hown (setWorker_other s _ hw) rfl rfl rfl ?_ ?_
          fun _ _ _ hmod => hmod
        · exact setConn_conns_aside (s := s.setPc w (.routing fd modid cmdid)) hw hconn hworker
            hworker
        · intro fd' mod _ hfd'
          exact (hbook mod fd').2 (Or.inl hfd')
  | readReply w fd modid cmdid hpc =>
      by_cases hw : w' = w
      · subst hw
        exact (h w').readReply hpub hpc
      · exact (h w').aside hown hw
  | readPush w fd st todo hpc =>
      by_cases hw : w' = w
      · subst hw
        exact (h w').readPush hpub hpc
      · exact (h w').aside hown hw
  | reply w fd modid cmdid hosts conn hpc hconn =>
      have hworker : conn.worker = w :=
        (hown.held w fd (by simp [hpc, WorkerPc.fds])).worker_eq hconn
      by_cases hw : w' = w
      swap
      · exact (h w').logOn_aside hown hw hconn hworker _ _
      subst hw
      refine (h w').respond hconn hworker (by simp [hpc]) rfl ?_ (by simp [hpc, WorkerPc.inHand])
        (by simp [hpc, WorkerPc.serves]) (by simp [hpc]) (by simp [hpc, WorkerPc.tasks])
        (by simp [hpc, WorkerPc.todo]) rfl rfl
      intro resp hresp
      cases hresp
      exact (h w').serving fd modid cmdid conn (by simp [hpc, WorkerPc.serves]) hconn
  | push w fd st hosts todo conn hpc hconn =>
      have hworker : conn.worker = w :=
        (hown.held w fd (by simp [hpc, WorkerPc.fds])).worker_eq hconn
      by_cases hw : w' = w
      swap
      · exact (h w').logOn_aside hown hw hconn hworker _ _
      subst hw
      refine (h w').respond hconn hworker (by simp [hpc]) rfl (by simp) ?_
        (by simp [hpc, WorkerPc.serves]) ?_ (by simp [hpc, WorkerPc.tasks])
        (by simp [hpc, WorkerPc.todo]) rfl rfl
      · intro hcmdid
        simp [hpc, WorkerPc.inHand, routeKey_unpack hcmdid]
      · intro fd' m k hosts' todo' hk hsend
        rw [hpc] at hsend
        cases hsend
        rw [(unpack_routeKey _ hk).1, cmdidOf_routeKey]
  | skipPush w fd st hosts todo hpc hconn =>
      -- the connection of a push in hand is open
      rcases hown.held w fd (by simp [hpc, WorkerPc.fds]) with ⟨c, hc, _⟩
      rw [hconn] at hc
      cases hc
  | beginClose w fd mods conn hpc hconn hworker hmods =>
      exact workerInv_setWorker h hown hpc rfl rfl rfl rfl (by simp) rfl
        (by simp [Worker.HasTask, hpc, WorkerPc.tasks]) w'
  | unsubscribe w fd mod mods hpc =>
      exact (h w').unsubscribe hown hpc
  | endClose w fd hpc =>
      exact (h w').endClose hown hpc
  | runTask w todo ready hpc hready htodo =>
      exact (h w').runTask hown hpc htodo
  | endTask w hpc =>
      exact workerInv_setWorker h hown hpc rfl rfl rfl rfl (by simp) rfl
        (by simp [Worker.HasTask, hpc, WorkerPc.tasks]) w'

/-- The poll thread is between two iterations, and every push task that was queued has run. -/
structure Settled (s : Service n) : Prop where
  between : s.poll.pc = .wait
  tasks : ∀ w, ¬ (s.workers w).HasTask
  pushes : ∀ w, (s.workers w).pc.items = []

theorem Settled.not_later {s : Service n} (h : Settled s) (hpub : PublishInv s) (w : Fin n)
    (fd : Int) (mod : UInt64) : ¬ Later s w fd mod := by
  rintro (⟨_, htask | ⟨i, hi, _⟩⟩ | htodo)
  · exact h.tasks w htask
  · rcases hpub.busy i hi with ⟨changes, hpc⟩
    rw [h.between] at hpc
    cases hpc
  · have hnone := h.pushes w
    cases hpc : (s.workers w).pc <;> simp_all [WorkerPc.items, WorkerPc.todo]

theorem run_invariants {db : Database} {route : Route} {now : Int} {as : List (Act n)}
    {s : Service n} (hrun : run step (init n db route now) as = some s) :
    PublishInv s ∧ ∀ w, WorkerInv s w :=
  (run_invariant_always (I := fun s => Owned s ∧ PublishInv s ∧ ∀ w, WorkerInv s w)
    (fun _ _ _ h hstep =>
      ⟨(step_sound hstep).owned h.1, (step_sound hstep).publishInv h.2.1,
        (step_sound hstep).workerInv h.1 h.2.1 h.2.2⟩)
    ⟨init_owned db route now, init_publishInv db route now, init_workerInv db route now⟩ hrun).2

/-- Whenever things have settled, in any run: on every open connection, the last response for a
requested pair that was ever published carries the hosts that a table installed at or after the swap
before its last publication gives.  A pair whose very first `get_route` is still running has no
reply yet. -/
theorem last_response_fresh (db : Database) (route : Route) (now : Int) (as : List (Act n))
    (s : Service n) (hrun : run step (init n db route now) as = some s) (hsettled : Settled s)
    (fd : Int) (conn : Conn n) (hconn : s.conns fd = some conn)
    (hopen : ∀ mods, (s.workers conn.worker).pc ≠ .closing fd mods) (modid cmdid : Int32)
    (hreq : .request modid cmdid ∈ conn.log) (hcmdid : 0 ≤ cmdid.toInt) (j : Nat)
    (hpublished : s.pubAt (routeKey modid cmdid) = some j) :
    (∃ j' map, j ≤ j' ∧ s.installs[j']? = some map ∧ lastResponse conn.log modid cmdid =
      some (RouteResponse.of modid cmdid (map (routeKey modid cmdid)))) ∨
    ((s.workers conn.worker).pc.serves = some (fd, modid, cmdid) ∧
      ∀ resp, .replied resp ∈ conn.log → ¬ (resp.modid = modid ∧ resp.cmdid = cmdid)) := by
  rcases run_invariants hrun with ⟨hpub, hworkers⟩
  have hinv := (hworkers conn.worker).conn fd conn hconn rfl hopen
  cases hinv.answered modid cmdid hreq hcmdid with
  | sent hosts hlast hfresh =>
      rcases hfresh j hpublished with ⟨j', map, hle, hmap, rfl⟩
      exact Or.inl ⟨j', map, hle, hmap, hlast⟩
  | later hlate =>
      exact absurd hlate (hsettled.not_later hpub _ _ _)
  | sending hosts todo hsend =>
      have hnone := hsettled.pushes conn.worker
      simp [hsend, WorkerPc.items] at hnone
  | serving hserves hfirst =>
      exact Or.inr ⟨hserves, hfirst⟩

/-- The worker replies from the new table just before `publish`, and pushes after it. -/
theorem last_response_fresh_pushed :
    ∃ s conn, run step (init 1 Poll.sampleDb Poll.sampleRoute 0)
        (upToPublish ++ openFive ++ requestOneOne ++ publishAndPush ++ [.poll true 1]) = some s ∧
      s.conns 5 = some conn ∧ s.pubAt (routeKey 1 1) = some 1 ∧
      ∃ j' map, 1 ≤ j' ∧ s.installs[j']? = some map ∧
        lastResponse conn.log 1 1 = some (RouteResponse.of 1 1 (map (routeKey 1 1))) := by
  have hcheck : ((run step (init 1 Poll.sampleDb Poll.sampleRoute 0)
      (upToPublish ++ openFive ++ requestOneOne ++ publishAndPush ++ [.poll true 1])).bind
        fun s => (s.conns 5).map fun conn =>
          decide (s.poll.pc = .wait ∧ (∀ w, ¬ (s.workers w).HasTask) ∧
            (∀ w, (s.workers w).pc.items = []) ∧ (∀ w, (s.workers w).pc.fds = []) ∧
            (∀ w, (s.workers w).pc.serves = none) ∧
            .request 1 1 ∈ conn.log ∧ s.pubAt (routeKey 1 1) = some 1)) = some true := by
    decide +kernel
  rcases Option.bind_eq_some_iff.1 hcheck with ⟨s, hrun, hs⟩
  rcases Option.map_eq_some_iff.1 hs with ⟨conn, hconn, hall⟩
  rcases of_decide_eq_true hall with ⟨hpc, htasks, hitems, hfds, hserves, hreq, hpub⟩
  refine ⟨s, conn, hrun, hconn, hpub, ?_⟩
  have hopen : ∀ mods, (s.workers conn.worker).pc ≠ .closing 5 mods := by
    intro mods hclosing
    have hnone := hfds conn.worker
    simp [hclosing, WorkerPc.fds] at hnone
  rcases last_response_fresh Poll.sampleDb Poll.sampleRoute 0 _ s hrun ⟨hpc, htasks, hitems⟩ 5 conn
    hconn hopen 1 1 hreq (by decide) 1 hpub with hfresh | ⟨hserving, _⟩
  · exact hfresh
  · rw [hserves] at hserving
    cases hserving

end Service
end Dns
end Rins
