import Rins.Dns.Ownership

/-!
# BookTable — `_book_list` entry by entry, and the connections it stands for

Who is subscribed to what is kept twice: in the `sub_list` of each connection and in `_book_list`.
Both are changed by the worker that owns the connection, but in many small steps, and the descriptor
under which a connection is booked is given to another one after `close`.

`Service` has `_book_list` as a function into sets.  Here are its entries as the map holds them, so
that an empty set is not the same as no entry; the two are kept in step along every run.
-/

namespace Rins
namespace Dns

open Lib

/-! ## The entries -/

/-- `std::unordered_map<uint64_t, std::unordered_set<int>>`. -/
abbrev BookTable := UInt64 → Option (Finset Int)

namespace BookTable

def empty : BookTable := fun _ => none

/-- `_book_list[mod].insert(fd)`. -/
def subscribe (table : BookTable) (mod : UInt64) (fd : Int) : BookTable :=
  Function.update table mod (some (insert fd ((table mod).getD ∅)))

/-- `subscribe_list::unsubscribe`. -/
def unsubscribe (table : BookTable) (mod : UInt64) (fd : Int) : BookTable :=
  match table mod with
  | none => table
  | some fds =>
      if fds.erase fd = ∅ then Function.update table mod none
      else Function.update table mod (some (fds.erase fd))

/-- The loops of `subscribe_list::publish`. -/
def publish (table : BookTable) : List UInt64 → PushList → PushList
  | [], push => push
  | mod :: changes, push =>
      match table mod with
      | none => publish table changes push
      | some fds =>
          publish table changes fun fd => if fd ∈ fds then insert mod (push fd) else push fd

/-- The sets without the distinction. -/
def toBookList (table : BookTable) : BookList :=
  fun mod => (table mod).getD ∅

/-- No entry is an empty set. -/
def NoEmpty (table : BookTable) : Prop :=
  ∀ mod, table mod ≠ some ∅

theorem subscribe_toBookList (table : BookTable) (mod : UInt64) (fd : Int) :
    (table.subscribe mod fd).toBookList = Dns.subscribe table.toBookList mod fd := by
  funext mod'
  unfold subscribe toBookList Dns.subscribe
  by_cases hmod : mod' = mod
  · subst hmod
    simp
  · simp [hmod]

theorem unsubscribe_toBookList (table : BookTable) (mod : UInt64) (fd : Int) :
    (table.unsubscribe mod fd).toBookList = Dns.unsubscribe table.toBookList mod fd := by
  funext mod'
  unfold unsubscribe toBookList Dns.unsubscribe
  by_cases hmod : mod' = mod
  · subst hmod
    cases hentry : table mod' with
    | none =>
        simp [hentry]
    | some fds =>
        -- the entry of the last subscriber goes, and an absent entry counts as empty
        by_cases hlast : fds.erase fd = ∅
        · simp [hlast, hentry]
        · simp [hlast, hentry]
  · cases hentry : table mod with
    | none =>
        simp [hmod]
    | some fds =>
        by_cases hlast : fds.erase fd = ∅
        · simp [hlast, hmod]
        · simp [hlast, hmod]

/-- `publish` cannot tell an empty entry from none. -/
theorem publish_toBookList (table : BookTable) (changes : List UInt64) (push : PushList) :
    table.publish changes push = Dns.publish table.toBookList changes push := by
  induction changes generalizing push with
  | nil =>
      rfl
  | cons mod changes ih =>
      unfold publish Dns.publish
      cases hentry : table mod with
      | none =>
          simp [ih, toBookList, hentry]
      | some fds =>
          simp [ih, toBookList, hentry]

theorem NoEmpty.subscribe {table : BookTable} (h : table.NoEmpty) (mod : UInt64) (fd : Int) :
    (table.subscribe mod fd).NoEmpty := by
  intro mod'
  unfold BookTable.subscribe
  by_cases hmod : mod' = mod
  · subst hmod
    simp
  · rw [Function.update_of_ne hmod]
    exact h mod'

theorem NoEmpty.unsubscribe {table : BookTable} (h : table.NoEmpty) (mod : UInt64) (fd : Int) :
    (table.unsubscribe mod fd).NoEmpty := by
  intro mod'
  unfold BookTable.unsubscribe
  cases hentry : table mod with
  | none =>
      exact h mod'
  | some fds =>
      by_cases hmod : mod' = mod
      · subst hmod
        by_cases hlast : fds.erase fd = ∅
        · simp [hlast]
        · simp [hlast]
      · by_cases hlast : fds.erase fd = ∅
        · simpa [hlast, hmod] using h mod'
        · simpa [hlast, hmod] using h mod'

end BookTable

/-- The connection that a worker is closing, with the keys not yet unsubscribed. -/
def WorkerPc.closes : WorkerPc → Option (Int × List UInt64)
  | .closing fd mods => some (fd, mods)
  | _ => none

theorem WorkerPc.closes_eq_some {pc : WorkerPc} {fd : Int} {mods : List UInt64} :
    pc.closes = some (fd, mods) ↔ pc = .closing fd mods := by
  cases pc <;> simp [WorkerPc.closes]

/-! ## The service with the entries -/

namespace Service

variable {n : Nat}

/-- What a step does to the entries: `get_route` subscribes a key that the connection has not got
yet, `clear_subscribe` unsubscribes key by key. -/
def tableStep (s : Service n) (table : BookTable) : Act n → BookTable
  | .request _ fd modid cmdid =>
      match s.conns fd with
      | some conn =>
          if routeKey modid cmdid ∉ conn.subList then table.subscribe (routeKey modid cmdid) fd
          else table
      | none => table
  | .unsubscribe w =>
      match (s.workers w).pc with
      | .closing fd (mod :: _) => table.unsubscribe mod fd
      | _ => table
  | _ => table

/-- One step of the service and of the entries. -/
def stepTable (p : Service n × BookTable) (a : Act n) : Option (Service n × BookTable) :=
  (p.1.step a).map fun t => (t, p.1.tableStep p.2 a)

theorem stepTable_eq_some {p q : Service n × BookTable} {a : Act n} :
    stepTable p a = some q ↔ p.1.step a = some q.1 ∧ q.2 = p.1.tableStep p.2 a := by
  rcases q with ⟨t, table⟩
  simp only [stepTable, Option.map_eq_some_iff, Prod.mk.injEq]
  constructor
  · rintro ⟨u, hu, rfl, rfl⟩
    exact ⟨hu, rfl⟩
  · rintro ⟨hstep, htable⟩
    exact ⟨t, hstep, rfl, htable.symm⟩

/-- The steps that leave `_book_list` alone. -/
theorem bookList_of_step {s t : Service n} {a : Act n} (hstep : s.step a = some t)
    (hreq : ∀ w fd modid cmdid, a ≠ .request w fd modid cmdid) (hun : ∀ w, a ≠ .unsubscribe w) :
    t.bookList = s.bookList := by
  cases step_sound hstep with
  | request w fd modid cmdid conn book hpc hconn hown hbook =>
      exact absurd rfl (hreq w fd modid cmdid)
  | unsubscribe w fd mod mods hpc =>
      exact absurd rfl (hun w)
  | _ =>
      rfl

/-- The entries stay in step with `_book_list`. -/
theorem tableStep_toBookList {s t : Service n} {table : BookTable} {a : Act n}
    (h : table.toBookList = s.bookList) (hstep : s.step a = some t) :
    (s.tableStep table a).toBookList = t.bookList := by
  cases a with
  | request w fd modid cmdid =>
      simp only [step, requestStep] at hstep
      split at hstep
      · next conn hpc hconn =>
          simp only [tableStep, hconn]
          split_ifs at hstep with hown hmem
          · -- a key that the connection has already got is not entered again
            cases hstep
            rw [if_neg (not_not.2 hmem), h]
            rfl
          · cases hstep
            rw [if_pos hmem, BookTable.subscribe_toBookList, h]
            rfl
      · cases hstep
  | unsubscribe w =>
      simp only [step, unsubscribeStep] at hstep
      split at hstep
      · next fd mod mods hpc =>
          cases hstep
          simp only [tableStep, hpc]
          rw [BookTable.unsubscribe_toBookList, h]
      · cases hstep
  | _ =>
      rw [bookList_of_step hstep (by simp) (by simp)]
      exact h

theorem tableStep_noEmpty {s : Service n} {table : BookTable} (h : table.NoEmpty) (a : Act n) :
    (s.tableStep table a).NoEmpty := by
  cases a with
  | request w fd modid cmdid =>
      simp only [tableStep]
      split
      · split_ifs
        · exact h
        · exact h.subscribe _ _
      · exact h
  | unsubscribe w =>
      simp only [tableStep]
      split
      · exact h.unsubscribe _ _
      · exact h
  | _ =>
      exact h

/-! ## The subscriptions of the open connections -/

/-- The `sub_list` of the connection on a descriptor. -/
def subListOf (s : Service n) (fd : Int) : Option (Finset UInt64) :=
  (s.conns fd).map Conn.subList

/-- `_book_list` and the lists of the connections say the same, as far as no connection is being
closed. -/
structure Mirrors (s : Service n) : Prop where
  booked : ∀ mod fd, fd ∈ s.bookList mod → ∃ subs, s.subListOf fd = some subs ∧ mod ∈ subs
  left : ∀ w fd mods, (s.workers w).pc.closes = some (fd, mods) →
    ∀ mod, fd ∈ s.bookList mod → mod ∈ mods
  kept : ∀ fd subs mod, s.subListOf fd = some subs → mod ∈ subs →
    (∀ w mods, (s.workers w).pc.closes ≠ some (fd, mods)) → fd ∈ s.bookList mod

theorem init_mirrors (db : Database) (route : Route) (now : Int) :
    Mirrors (init n db route now) where
  booked := by simp [init]
  left := by simp [init]
  kept := by simp [init, subListOf]

/-- What changes neither the lists nor who is being closed. -/
theorem Mirrors.frame {s t : Service n} (h : Mirrors s) (hbook : t.bookList = s.bookList)
    (hsubs : ∀ fd, t.subListOf fd = s.subListOf fd)
    (hclosing : ∀ w, (t.workers w).pc.closes = (s.workers w).pc.closes) : Mirrors t where
  booked := by
    intro mod fd hfd
    rw [hsubs]
    rw [hbook] at hfd
    exact h.booked mod fd hfd
  left := by
    intro w fd mods hpc mod hfd
    rw [hclosing] at hpc
    rw [hbook] at hfd
    exact h.left w fd mods hpc mod hfd
  kept := by
    intro fd subs mod hsub hmod hopen
    rw [hsubs] at hsub
    rw [hbook]
    refine h.kept fd subs mod hsub hmod ?_
    intro w mods
    rw [← hclosing]
    exact hopen w mods

/-- A worker that goes on, closing the same connection as before or none. -/
theorem Mirrors.goOn {s : Service n} (h : Mirrors s) {w : Fin n} {worker : Worker}
    (hpc : worker.pc.closes = (s.workers w).pc.closes) : Mirrors (s.setWorker w worker) := by
  refine h.frame rfl (fun _ => rfl) ?_
  intro w'
  by_cases hw : w' = w
  · subst hw
    rw [setWorker_self]
    exact hpc
  · rw [setWorker_other s worker hw]

theorem subListOf_logOn (s : Service n) (fd fd' : Int) {conn : Conn n} (event : Event)
    (hconn : s.conns fd = some conn) : (s.logOn fd conn event).subListOf fd' = s.subListOf fd' := by
  by_cases hfd : fd' = fd
  · subst hfd
    simp [subListOf, logOn, Service.setConn, hconn]
  · simp [subListOf, logOn, Service.setConn, hfd]

theorem Mirrors.logOn {s : Service n} (h : Mirrors s) {fd : Int} {conn : Conn n} {event : Event}
    (hconn : s.conns fd = some conn) : Mirrors (s.logOn fd conn event) :=
  h.frame rfl (fun fd' => subListOf_logOn s fd fd' event hconn) fun _ => rfl

/-- Nobody closes a connection but its owner. -/
theorem Owned.owns_of_closes {s : Service n} (h : Owned s) {w : Fin n} {fd : Int}
    {mods : List UInt64} (hpc : (s.workers w).pc.closes = some (fd, mods)) : Owns s w fd :=
  h.held w fd (by simp [WorkerPc.closes_eq_some.1 hpc, WorkerPc.fds])

theorem setConn_subListOf (s : Service n) (fd fd' : Int) (conn : Option (Conn n)) :
    (s.setConn fd conn).subListOf fd' =
      if fd' = fd then conn.map Conn.subList else s.subListOf fd' := by
  by_cases hfd : fd' = fd
  · subst hfd
    simp [subListOf, Service.setConn]
  · simp [subListOf, Service.setConn, hfd]

/-! ### The steps that change the lists -/

theorem Mirrors.openConn {s : Service n} (h : Mirrors s) {fd : Int} (hfree : s.conns fd = none)
    {conn : Conn n} (hsubs : conn.subList = ∅) : Mirrors (s.setConn fd (some conn)) where
  booked := by
    intro mod fd' hfd'
    rcases h.booked mod fd' hfd' with ⟨subs, hsub, hmod⟩
    -- nothing is left under a descriptor that the kernel hands out again
    have hne : fd' ≠ fd := by
      rintro rfl
      simp [subListOf, hfree] at hsub
    exact ⟨subs, by rw [setConn_subListOf, if_neg hne, hsub], hmod⟩
  left := h.left
  kept := by
    intro fd' subs mod hsub hmod hopen
    rw [setConn_subListOf] at hsub
    split_ifs at hsub
    · rw [Option.map_some, hsubs] at hsub
      cases hsub
      simp at hmod
    · exact h.kept fd' subs mod hsub hmod hopen

/-- `get_route` enters the key in both lists. -/
theorem Mirrors.request {s : Service n} (h : Mirrors s) (hown : Owned s) {w : Fin n} {fd : Int}
    {conn conn' : Conn n} {key : UInt64} {pc : WorkerPc} {book : BookList}
    (hpc : (s.workers w).pc.closes = none) (hpc' : pc.closes = none)
    (hconn : s.conns fd = some conn) (hworker : conn.worker = w)
    (hsubs : conn'.subList = insert key conn.subList)
    (hbook : ∀ mod fd', fd' ∈ book mod ↔ fd' ∈ s.bookList mod ∨
      (mod = key ∧ fd' = fd ∧ mod ∉ conn.subList)) :
    Mirrors { (s.setPc w pc).setConn fd (some conn') with bookList := book } := by
  have hbase : Mirrors (s.setPc w pc) := h.goOn (hpc'.trans hpc.symm)
  -- the connection is not being closed: its owner is here
  have hopen : ∀ w' mods, ((s.setPc w pc).workers w').pc.closes ≠ some (fd, mods) := by
    intro w' mods hcloses
    by_cases hw : w' = w
    · subst hw
      rw [setPc, setWorker_self, hpc'] at hcloses
      cases hcloses
    · rw [setPc, setWorker_other s _ hw] at hcloses
      exact hw ((hown.owns_of_closes hcloses).unique ⟨conn, hconn, hworker⟩)
  refine ⟨?_, ?_, ?_⟩
  · intro mod fd' hfd'
    show ∃ subs, ((s.setPc w pc).setConn fd (some conn')).subListOf fd' = some subs ∧ mod ∈ subs
    rw [setConn_subListOf]
    rcases (hbook mod fd').1 hfd' with hold | ⟨rfl, rfl, _⟩
    · -- booked before: the list of that connection has only grown
      rcases h.booked mod fd' hold with ⟨subs, hsub, hmod⟩
      split_ifs with hfd
      · subst hfd
        refine ⟨conn'.subList, rfl, ?_⟩
        rw [subListOf, hconn] at hsub
        cases hsub
        rw [hsubs]
        exact Finset.mem_insert_of_mem hmod
      · exact ⟨subs, hsub, hmod⟩
    · rw [if_pos rfl]
      exact ⟨conn'.subList, rfl, by rw [hsubs]; exact Finset.mem_insert_self _ _⟩
  · intro w' fd' mods hcloses mod hfd'
    rcases (hbook mod fd').1 hfd' with hold | ⟨_, rfl, _⟩
    · exact hbase.left w' fd' mods hcloses mod hold
    · exact absurd hcloses (hopen w' mods)
  · intro fd' subs mod hsub hmod hopen'
    apply (hbook mod fd').2
    change ((s.setPc w pc).setConn fd (some conn')).subListOf fd' = some subs at hsub
    rw [setConn_subListOf] at hsub
    split_ifs at hsub with hfd
    · subst hfd
      cases hsub
      -- whether the call entered the key in `_book_list` or an earlier one did
      by_cases hold : mod ∈ conn.subList
      · left
        refine hbase.kept fd' conn.subList mod ?_ hold hopen'
        show s.subListOf fd' = _
        rw [subListOf, hconn]
        rfl
      · right
        rw [hsubs, Finset.mem_insert] at hmod
        exact ⟨hmod.resolve_right hold, rfl, hold⟩
    · exact Or.inl (hbase.kept fd' subs mod hsub hmod hopen')

theorem Mirrors.beginClose {s : Service n} (h : Mirrors s) {w : Fin n} {fd : Int} {conn : Conn n}
    {mods : List UInt64} (hpc : (s.workers w).pc.closes = none) (hconn : s.conns fd = some conn)
    (hmods : mods.toFinset = conn.subList) : Mirrors (s.setPc w (.closing fd mods)) where
  booked := h.booked
  left := by
    intro w' fd' mods' hcloses mod hfd'
    by_cases hw : w' = w
    · subst hw
      rw [setPc, setWorker_self] at hcloses
      cases hcloses
      -- whatever is booked for the connection is in its list, which is the list to go through
      rcases h.booked mod fd hfd' with ⟨subs, hsub, hmod⟩
      rw [subListOf, hconn] at hsub
      cases hsub
      rw [← hmods, List.mem_toFinset] at hmod
      exact hmod
    · rw [setPc, setWorker_other s _ hw] at hcloses
      exact h.left w' fd' mods' hcloses mod hfd'
  kept := by
    intro fd' subs mod hsub hmod hopen
    refine h.kept fd' subs mod hsub hmod ?_
    intro w' mods' hcloses
    by_cases hw : w' = w
    · subst hw
      rw [hpc] at hcloses
      cases hcloses
    · apply hopen w' mods'
      rw [setPc, setWorker_other s _ hw]
      exact hcloses

theorem Mirrors.unsubscribe {s : Service n} (h : Mirrors s) {w : Fin n} {fd : Int}
    {mod : UInt64} {mods : List UInt64} (hpc : (s.workers w).pc = .closing fd (mod :: mods)) :
    Mirrors { s.setPc w (.closing fd mods) with
      bookList := Dns.unsubscribe s.bookList mod fd } where
  booked := by
    intro mod' fd' hfd'
    exact h.booked mod' fd' (mem_unsubscribe.1 hfd').1
  left := by
    intro w' fd' mods' hcloses mod' hfd'
    rcases mem_unsubscribe.1 hfd' with ⟨hold, hnot⟩
    have hbefore : (s.workers w).pc.closes = some (fd, mod :: mods) :=
      WorkerPc.closes_eq_some.2 hpc
    by_cases hw : w' = w
    · subst hw
      simp only [setPc, setWorker_self] at hcloses
      cases hcloses
      -- the key at hand is unsubscribed now, the others are still in front of the loop
      rcases List.mem_cons.1 (h.left w' fd _ hbefore mod' hold) with rfl | hrest
      · exact absurd ⟨rfl, rfl⟩ hnot
      · exact hrest
    · simp only [setPc, setWorker_other s _ hw] at hcloses
      exact h.left w' fd' mods' hcloses mod' hold
  kept := by
    intro fd' subs mod' hsub hmod' hopen
    have hne : fd' ≠ fd := by
      rintro rfl
      exact hopen w mods (by simp [setPc, WorkerPc.closes])
    refine mem_unsubscribe.2 ⟨h.kept fd' subs mod' hsub hmod' ?_, fun heq => hne heq.2⟩
    intro w' mods' hcloses
    by_cases hw : w' = w
    · subst hw
      rw [WorkerPc.closes_eq_some.2 hpc] at hcloses
      cases hcloses
      exact hne rfl
    · apply hopen w' mods'
      simp only [setPc, setWorker_other s _ hw]
      exact hcloses

theorem Mirrors.endClose {s : Service n} (h : Mirrors s) {w : Fin n} {fd : Int} {worker : Worker}
    (hpc : (s.workers w).pc = .closing fd []) (hpc' : worker.pc.closes = none) :
    Mirrors ((s.setWorker w worker).setConn fd none) where
  booked := by
    intro mod fd' hfd'
    -- no keys are left, so the descriptor is not booked any more
    have hne : fd' ≠ fd := by
      rintro rfl
      have hnone := h.left w fd' [] (WorkerPc.closes_eq_some.2 hpc) mod hfd'
      simp at hnone
    rcases h.booked mod fd' hfd' with ⟨subs, hsub, hmod⟩
    exact ⟨subs, by rw [setConn_subListOf, if_neg hne]; exact hsub, hmod⟩
  left := by
    intro w' fd' mods hcloses mod hfd'
    by_cases hw : w' = w
    · subst hw
      simp only [Service.setConn, setWorker_self, hpc'] at hcloses
      cases hcloses
    · simp only [Service.setConn, setWorker_other s _ hw] at hcloses
      exact h.left w' fd' mods hcloses mod hfd'
  kept := by
    intro fd' subs mod hsub hmod hopen
    rw [setConn_subListOf] at hsub
    split_ifs at hsub with hfd
    · cases hsub
    · refine h.kept fd' subs mod hsub hmod ?_
      intro w' mods hcloses
      by_cases hw : w' = w
      · subst hw
        rw [WorkerPc.closes_eq_some.2 hpc] at hcloses
        cases hcloses
        exact hfd rfl
      · apply hopen w' mods
        simp only [Service.setConn, setWorker_other s _ hw]
        exact hcloses

/-- Every step keeps the two in step. -/
theorem Step.mirrors {s t : Service n} {a : Act n} (hstep : Step s a t) (hown : Owned s)
    (h : Mirrors s) : Mirrors t := by
  cases hstep with
  | quiet _ poll hmap hpc =>
      exact h.frame rfl (fun _ => rfl) fun _ => rfl
  | install _ poll hpc =>
      exact h.frame rfl (fun _ => rfl) fun _ => rfl
  | publishLists _ changes hpc hfirst =>
      exact h.frame rfl (fun _ => rfl) fun _ => rfl
  | sendTask _ i changes hpc hnext =>
      have hq : Mirrors (s.enqueue i .newTask) := h.goOn rfl
      exact hq.frame rfl (fun _ => rfl) fun _ => rfl
  | publishDone _ i poll hnext hlast hmap =>
      exact h.frame rfl (fun _ => rfl) fun _ => rfl
  | accept w connfd =>
      exact h.goOn rfl
  | recv w hpc =>
      exact h.goOn (by rw [hpc]; rfl)
  | openConn w connfd tasks hpc hfree =>
      have hdeal : Mirrors (s.setWorker w { s.workers w with
          listenFds := insert connfd (s.workers w).listenFds
          pc := .dealing tasks }) := h.goOn (by rw [hpc]; rfl)
      exact hdeal.openConn hfree rfl
  | addTask w tasks hpc =>
      exact h.goOn (by rw [hpc]; rfl)
  | dealt w hpc =>
      exact h.goOn (by rw [hpc]; rfl)
  | request w fd modid cmdid conn book hpc hconn hworker hbook =>
      exact h.request hown (by rw [hpc]; rfl) rfl hconn hworker rfl hbook
  | readReply w fd modid cmdid hpc =>
      exact h.goOn (by rw [hpc]; rfl)
  | readPush w fd st todo hpc =>
      exact h.goOn (by rw [hpc]; rfl)
  | reply w fd modid cmdid hosts conn hpc hconn =>
      have hloop : Mirrors (s.setPc w .loop) := h.goOn (by rw [hpc]; rfl)
      exact hloop.logOn hconn
  | push w fd st hosts todo conn hpc hconn =>
      have hrest : Mirrors (s.setPc w (.pushing todo)) := h.goOn (by rw [hpc]; rfl)
      exact hrest.logOn hconn
  | skipPush w fd st hosts todo hpc hconn =>
      exact h.goOn (by rw [hpc]; rfl)
  | beginClose w fd mods conn hpc hconn hworker hmods =>
      exact h.beginClose (by rw [hpc]; rfl) hconn hmods
  | unsubscribe w fd mod mods hpc =>
      exact h.unsubscribe hpc
  | endClose w fd hpc =>
      exact h.endClose hpc rfl
  | runTask w todo ready hpc hready htodo =>
      have hpushing : Mirrors (s.setWorker w
          { s.workers w with readTasks := ready, pc := .pushing todo }) :=
        h.goOn (by rw [hpc]; rfl)
      exact hpushing.frame rfl (fun _ => rfl) fun _ => rfl
  | endTask w hpc =>
      exact h.goOn (by rw [hpc]; rfl)

/-! ## Every run -/

/-- The service at its start, with no entry. -/
def initTable (n : Nat) (db : Database) (route : Route) (now : Int) : Service n × BookTable :=
  (init n db route now, BookTable.empty)

/-- What holds along every run. -/
structure TableInv (p : Service n × BookTable) : Prop where
  owned : Owned p.1
  mirrors : Mirrors p.1
  inStep : p.2.toBookList = p.1.bookList
  noEmpty : p.2.NoEmpty

theorem run_tableInv {db : Database} {route : Route} {now : Int} {as : List (Act n)}
    {p : Service n × BookTable} (hrun : run stepTable (initTable n db route now) as = some p) :
    TableInv p := by
  refine run_invariant_always (I := TableInv) ?_ ?_ hrun
  · intro p a q h hstep
    rcases stepTable_eq_some.1 hstep with ⟨hs, htable⟩
    have hsound := step_sound hs
    exact
      { owned := hsound.owned h.owned
        mirrors := hsound.mirrors h.owned h.mirrors
        inStep := by rw [htable]; exact tableStep_toBookList h.inStep hs
        noEmpty := by rw [htable]; exact tableStep_noEmpty h.noEmpty a }
  · exact
      { owned := init_owned db route now
        mirrors := init_mirrors db route now
        inStep := rfl
        noEmpty := by simp [BookTable.NoEmpty, initTable, BookTable.empty] }

/-- No worker is in `get_route` or in `clean_conn`. -/
def AtRest (s : Service n) : Prop :=
  ∀ w, match (s.workers w).pc with
    | .routing _ _ _ | .replying _ _ _ _ | .closing _ _ => False
    | _ => True

theorem AtRest.closes {s : Service n} (h : AtRest s) (w : Fin n) :
    (s.workers w).pc.closes = none := by
  have hw := h w
  cases hpc : (s.workers w).pc <;> simp_all [WorkerPc.closes]

/-- In every state of every run `_book_list` has no empty entry, and `publish` notifies only
descriptors of open connections.  Whenever no `get_route` and no `clean_conn` is going on, the
entry of a key lists exactly the open connections that have the key in their own list. -/
theorem bookTable_mirrors (db : Database) (route : Route) (now : Int) (as : List (Act n))
    (s : Service n) (table : BookTable)
    (hrun : run stepTable (initTable n db route now) as = some (s, table)) :
    (AtRest s → ∀ fd mod, (∃ fds, table mod = some fds ∧ fd ∈ fds) ↔
      ∃ conn, s.conns fd = some conn ∧ mod ∈ conn.subList) ∧
    (∀ mod, table mod ≠ some ∅) ∧
    (∀ changes push fd mod, mod ∈ table.publish changes push fd → mod ∉ push fd →
      ∃ conn, s.conns fd = some conn ∧ mod ∈ conn.subList) := by
  have h := run_tableInv hrun
  have hentry : ∀ fd mod, (∃ fds, table mod = some fds ∧ fd ∈ fds) ↔ fd ∈ s.bookList mod := by
    intro fd mod
    rw [← h.inStep]
    show _ ↔ fd ∈ (table mod).getD ∅
    cases table mod with
    | none =>
        simp
    | some fds =>
        simp
  have hopen : ∀ fd mod, fd ∈ s.bookList mod →
      ∃ conn, s.conns fd = some conn ∧ mod ∈ conn.subList := by
    intro fd mod hfd
    rcases h.mirrors.booked mod fd hfd with ⟨subs, hsub, hmod⟩
    rcases Option.map_eq_some_iff.1 hsub with ⟨conn, hconn, rfl⟩
    exact ⟨conn, hconn, hmod⟩
  refine ⟨?_, h.noEmpty, ?_⟩
  · intro hrest fd mod
    rw [hentry]
    constructor
    · exact hopen fd mod
    · rintro ⟨conn, hconn, hmod⟩
      refine h.mirrors.kept fd conn.subList mod (by rw [subListOf, hconn]; rfl) hmod ?_
      intro w mods hcloses
      rw [hrest.closes w] at hcloses
      cases hcloses
  · intro changes push fd mod hpublished hnew
    rw [BookTable.publish_toBookList, h.inStep] at hpublished
    rcases mem_publish.1 hpublished with hold | ⟨_, hfd⟩
    · exact absurd hold hnew
    · exact hopen fd mod hfd

/-- A connection on descriptor 5 subscribes and is closed; the next one on that descriptor is with
another worker, and subscribes to something else. -/
def reuseFive : List (Act 2) :=
  [.accept 0 5, .recv 0, .deal 0, .deal 0, .request 0 5 1 1, .getHosts 0, .send 0,
    .beginClose 0 5 [routeKey 1 1], .unsubscribe 0, .endClose 0, .accept 1 5, .recv 1, .deal 1,
    .deal 1, .request 1 5 2 2, .getHosts 1, .send 1]

theorem bookTable_mirrors_reuse :
    ∃ s table, run stepTable (initTable 2 Poll.sampleDb Poll.sampleRoute 0) reuseFive =
        some (s, table) ∧
      table (routeKey 1 1) = none ∧ table (routeKey 2 2) = some {5} ∧
      ∃ conn, s.conns 5 = some conn ∧ routeKey 2 2 ∈ conn.subList := by
  have hcheck : (run stepTable (initTable 2 Poll.sampleDb Poll.sampleRoute 0) reuseFive).map
      (fun p => (p.2 (routeKey 1 1), p.2 (routeKey 2 2), (p.1.workers 0).pc.fds,
        (p.1.workers 1).pc.fds)) = some (none, some {5}, [], []) := by
    decide +kernel
  rcases Option.map_eq_some_iff.1 hcheck with ⟨⟨s, table⟩, hrun, hs⟩
  simp only [Prod.mk.injEq] at hs
  rcases hs with ⟨hone, htwo, hfirst, hsecond⟩
  have hrest : AtRest s := by
    intro w
    have hnone : (s.workers w).pc.fds = [] :=
      match w with
      | 0 => hfirst
      | 1 => hsecond
    cases hpc : (s.workers w).pc <;> simp_all [WorkerPc.fds]
  have hmirror := (bookTable_mirrors Poll.sampleDb Poll.sampleRoute 0 reuseFive s table hrun).1
  exact ⟨s, table, hrun, hone, htwo, (hmirror hrest 5 (routeKey 2 2)).1 ⟨{5}, htwo, by simp⟩⟩

end Service
end Dns
end Rins
