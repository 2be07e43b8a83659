import Rins.Base.Proto
import Rins.Dns.Poll
import Rins.Dns.Subscribe

/-!
# Service — the DNS service as a whole

The poll thread, any number of worker threads and the database writers, interleaved at the
granularity of their critical sections: a step is one critical section of `_map_lock`,
`_book_list_lock`, `_push_list_lock` or a queue mutex, with the thread-local code around it.

A worker owns its connections: only it reads from, writes to and closes them, and only it runs the
push tasks of its loop.  So the code between two critical sections of a worker cannot be observed
by anybody else.  The kernel may hand out the descriptor of a closed connection again at once.

Sends succeed; what is sent on a connection is kept in its `log`, together with the requests that
arrived on it.
-/

namespace Rins
namespace Dns

open Lib

/-! ## Responses -/

/-- The host in one packed value. -/
def hostOf (ipPort : UInt64) : Proto.HostInfo :=
  { ip := (ipPort >>> 32).toUInt32.toInt32
    port := ipPort.toUInt32.toInt32 }

/-- `GetRouteResponse`.  The hosts are listed in the unspecified order of an `unordered_set`. -/
structure RouteResponse where
  modid : Int32
  cmdid : Int32
  hosts : Multiset Proto.HostInfo
  deriving DecidableEq

def RouteResponse.of (modid cmdid : Int32) (hosts : Finset UInt64) : RouteResponse :=
  { modid := modid
    cmdid := cmdid
    hosts := hosts.val.map hostOf }

/-- What happens on a connection. -/
inductive Event
  | request (modid cmdid : Int32)
  /-- sent by `get_route` -/
  | replied (resp : RouteResponse)
  /-- sent by `push_change_task` -/
  | pushed (resp : RouteResponse)
  deriving DecidableEq

def Event.response : Event → Option RouteResponse
  | .request _ _ => none
  | .replied resp => some resp
  | .pushed resp => some resp

/-- The last response for a pair. -/
def lastResponse (log : List Event) (modid cmdid : Int32) : Option RouteResponse :=
  ((log.filterMap Event.response).filter fun resp =>
    resp.modid = modid ∧ resp.cmdid = cmdid).getLast?

/-! ## The state -/

/-- An open connection: the worker whose loop it is in, and `param`, the keys it has subscribed. -/
structure Conn (n : Nat) where
  worker : Fin n
  subList : Finset UInt64
  log : List Event

/-- `task_msg`; the only function ever sent is `push_change_task`. -/
inductive Task
  | newConn (connfd : Int)
  | newTask
  deriving DecidableEq

/-- Where a worker thread stands. -/
inductive WorkerPc
  /-- in `event_process`, about to handle an event or a ready task -/
  | loop
  /-- in `deal_task_message`, with the tasks not yet dealt with -/
  | dealing (tasks : List Task)
  /-- in `get_route`, subscribed -/
  | routing (fd : Int) (modid cmdid : Int32)
  /-- in `get_route`, with the hosts -/
  | replying (fd : Int) (modid cmdid : Int32) (hosts : Finset UInt64)
  /-- in `clear_subscribe`, called by `clean_conn`, with the keys not yet unsubscribed -/
  | closing (fd : Int) (mods : List UInt64)
  /-- in `push_change_task`, with the entries of `need_publish` not yet pushed -/
  | pushing (todo : List (Int × UInt64))
  /-- in `push_change_task`, with the hosts for one of them -/
  | pushSend (fd : Int) (mod : UInt64) (hosts : Finset UInt64) (todo : List (Int × UInt64))

structure Worker where
  queue : List Task
  /-- how many push tasks are in `_read_tasks` -/
  readTasks : Nat
  /-- the connections among `_listen_fds` -/
  listenFds : Finset Int
  pc : WorkerPc

/-- The service with `n` worker threads. -/
structure Service (n : Nat) where
  poll : Poll
  /-- inside `publish`: the worker whose queue `send_task` comes to next -/
  publishing : Option Nat
  workers : Fin n → Worker
  conns : Int → Option (Conn n)
  bookList : BookList
  pushList : PushList
  /-- history: every `_data_map` so far, the current one last -/
  installs : List RouteMap
  /-- history: for each key, the place in `installs` of the map that was current when the key was
  last published -/
  pubAt : UInt64 → Option Nat

namespace Service

variable {n : Nat}

/-- The service after start-up: `build_maps` has filled `_data_map`, nobody is connected. -/
def init (n : Nat) (db : Database) (route : Route) (now : Int) : Service n :=
  { poll := Poll.init db route now
    publishing := none
    workers := fun _ => { queue := [], readTasks := 0, listenFds := ∅, pc := .loop }
    conns := fun _ => none
    bookList := fun _ => ∅
    pushList := fun _ => ∅
    installs := [route.dataMap]
    pubAt := fun _ => none }

def setWorker (s : Service n) (w : Fin n) (worker : Worker) : Service n :=
  { s with workers := Function.update s.workers w worker }

def setPc (s : Service n) (w : Fin n) (pc : WorkerPc) : Service n :=
  s.setWorker w { s.workers w with pc := pc }

def setConn (s : Service n) (fd : Int) (conn : Option (Conn n)) : Service n :=
  { s with conns := Function.update s.conns fd conn }

/-- `thread_queue::send`. -/
def enqueue (s : Service n) (w : Fin n) (task : Task) : Service n :=
  s.setWorker w { s.workers w with queue := (s.workers w).queue ++ [task] }

/-- Something happens on an open connection. -/
def logOn (s : Service n) (fd : Int) (conn : Conn n) (event : Event) : Service n :=
  s.setConn fd (some { conn with log := conn.log ++ [event] })

/-! ### Reading back an update -/

@[simp] theorem setWorker_self (s : Service n) (w : Fin n) (worker : Worker) :
    (s.setWorker w worker).workers w = worker := by
  simp [setWorker]

theorem setWorker_other (s : Service n) {w w' : Fin n} (worker : Worker) (h : w' ≠ w) :
    (s.setWorker w worker).workers w' = s.workers w' := by
  simp [setWorker, h]

theorem setConn_eq_some {s : Service n} {fd fd' : Int} {conn : Option (Conn n)} {c : Conn n} :
    (s.setConn fd conn).conns fd' = some c ↔
      (fd' = fd ∧ conn = some c) ∨ (fd' ≠ fd ∧ s.conns fd' = some c) := by
  by_cases hfd : fd' = fd
  · subst hfd
    simp [setConn]
  · simp [setConn, hfd]

/-! ## The steps -/

inductive Act (n : Nat)
  /-- the next step of the poll thread -/
  | poll (ok : Bool) (now : Int)
  /-- a statement of a database writer -/
  | insertData (row : RouteRow)
  | deleteData
  | setVersion (t : Nat)
  | insertChange (modid cmdid : Int32) (t : Nat)
  /-- `do_accept` hands a new connection to worker `w` -/
  | accept (w : Fin n) (connfd : Int)
  /-- worker `w` swaps its queue with a local one, then deals with the tasks one by one -/
  | recv (w : Fin n)
  | deal (w : Fin n)
  /-- a `GetRouteRequest` arrives: `get_route` up to and with `subscribe` -/
  | request (w : Fin n) (fd : Int) (modid cmdid : Int32)
  /-- `get_hosts`, in `get_route` or in `push_change_task` -/
  | getHosts (w : Fin n)
  /-- `send_message`, in `get_route` or in `push_change_task` -/
  | send (w : Fin n)
  /-- `clean_conn`, with the order in which `sub_list` is walked; then one `unsubscribe` each -/
  | beginClose (w : Fin n) (fd : Int) (mods : List UInt64)
  | unsubscribe (w : Fin n)
  | endClose (w : Fin n)
  /-- the next ready task begins: `make_publish_map`, with the order in which its result is
  walked -/
  | runTask (w : Fin n) (todo : List (Int × UInt64))
  | endTask (w : Fin n)

/-- The poll thread.  `publish` is its critical section, then one `send` for each worker. -/
def pollStep (s : Service n) (ok : Bool) (now : Int) : Service n :=
  match s.poll.pc, s.publishing with
  | .publish changes, none =>
      let keys := changes.map ChangeRow.key
      { s with
        publishing := some 0
        pushList := publish s.bookList keys s.pushList
        pubAt := fun mod => if mod ∈ keys then some (s.installs.length - 1) else s.pubAt mod }
  | .publish _, some i =>
      -- `send_task` goes through the workers in order
      if h : i < n then { s.enqueue ⟨i, h⟩ .newTask with publishing := some (i + 1) }
      else { s with poll := s.poll.pollStep ok now, publishing := none }
  | .swap _, _ | .reloadSwap _, _ =>
      let poll := s.poll.pollStep ok now
      { s with poll := poll, installs := s.installs ++ [poll.route.dataMap] }
  | _, _ => { s with poll := s.poll.pollStep ok now }

/-- A statement of a writer. -/
def writerStep (s : Service n) (a : Poll.Act) : Option (Service n) :=
  (s.poll.step a).map fun poll => { s with poll := poll }

/-- The next task that `deal_task_message` has received. -/
def dealStep (s : Service n) (w : Fin n) : Option (Service n) :=
  match (s.workers w).pc with
  | .dealing (.newConn connfd :: tasks) =>
      -- the kernel gives no descriptor out that is still open
      if s.conns connfd = none then
        some ((s.setWorker w { s.workers w with
            listenFds := insert connfd (s.workers w).listenFds
            pc := .dealing tasks }).setConn connfd
          (some { worker := w, subList := ∅, log := [] }))
      else
        none
  | .dealing (.newTask :: tasks) =>
      some (s.setWorker w { s.workers w with
        readTasks := (s.workers w).readTasks + 1
        pc := .dealing tasks })
  | .dealing [] => some (s.setPc w .loop)
  | _ => none

/-- `get_route` up to and with `subscribe`. -/
def requestStep (s : Service n) (w : Fin n) (fd : Int) (modid cmdid : Int32) : Option (Service n) :=
  match (s.workers w).pc, s.conns fd with
  | .loop, some conn =>
      if conn.worker = w then
        let mod := routeKey modid cmdid
        let s := s.setPc w (.routing fd modid cmdid)
        let conn := { conn with log := conn.log ++ [.request modid cmdid] }
        -- a key is subscribed once for each connection
        if mod ∉ conn.subList then
          some { s.setConn fd (some { conn with subList := insert mod conn.subList }) with
            bookList := subscribe s.bookList mod fd }
        else
          some (s.setConn fd (some conn))
      else
        none
  | _, _ => none

def getHostsStep (s : Service n) (w : Fin n) : Option (Service n) :=
  match (s.workers w).pc with
  | .routing fd modid cmdid =>
      some (s.setPc w (.replying fd modid cmdid (s.poll.route.getHosts modid cmdid)))
  | .pushing ((fd, st) :: todo) =>
      some (s.setPc w
        (.pushSend fd st (s.poll.route.getHosts (modidOf st) (cmdidOf st)) todo))
  | _ => none

def sendStep (s : Service n) (w : Fin n) : Option (Service n) :=
  match (s.workers w).pc with
  | .replying fd modid cmdid hosts =>
      match s.conns fd with
      | none => none
      | some conn =>
          some ((s.setPc w .loop).logOn fd conn (.replied (RouteResponse.of modid cmdid hosts)))
  | .pushSend fd st hosts todo =>
      match s.conns fd with
      -- `conns[fd]` is null: the push is dropped
      | none => some (s.setPc w (.pushing todo))
      | some conn =>
          some ((s.setPc w (.pushing todo)).logOn fd conn
            (.pushed (RouteResponse.of (modidOf st) (cmdidOf st) hosts)))
  | _ => none

/-- `clean_conn` as far as `clear_subscribe`. -/
def beginCloseStep (s : Service n) (w : Fin n) (fd : Int) (mods : List UInt64) :
    Option (Service n) :=
  match (s.workers w).pc, s.conns fd with
  | .loop, some conn =>
      if conn.worker = w ∧ mods.toFinset = conn.subList then some (s.setPc w (.closing fd mods))
      else none
  | _, _ => none

def unsubscribeStep (s : Service n) (w : Fin n) : Option (Service n) :=
  match (s.workers w).pc with
  | .closing fd (mod :: mods) =>
      some { s.setPc w (.closing fd mods) with bookList := unsubscribe s.bookList mod fd }
  | _ => none

/-- The rest of `clean_conn`: `decrease_conn`, `del_io_event`, `close`. -/
def endCloseStep (s : Service n) (w : Fin n) : Option (Service n) :=
  match (s.workers w).pc with
  | .closing fd [] =>
      some ((s.setWorker w { s.workers w with
        listenFds := (s.workers w).listenFds.erase fd
        pc := .loop }).setConn fd none)
  | _ => none

/-- `push_change_task` up to and with `make_publish_map`. -/
def runTaskStep (s : Service n) (w : Fin n) (todo : List (Int × UInt64)) : Option (Service n) :=
  match (s.workers w).pc, (s.workers w).readTasks with
  | .loop, ready + 1 =>
      if todo.Nodup ∧ todo.toFinset = needPublish s.pushList (s.workers w).listenFds then
        some { s.setWorker w { s.workers w with readTasks := ready, pc := .pushing todo } with
          pushList := makePublishMap s.pushList (s.workers w).listenFds }
      else
        none
  | _, _ => none

def endTaskStep (s : Service n) (w : Fin n) : Option (Service n) :=
  match (s.workers w).pc with
  | .pushing [] => some (s.setPc w .loop)
  | _ => none

/-- One step of anybody. -/
def step (s : Service n) : Act n → Option (Service n)
  | .poll ok now => some (s.pollStep ok now)
  | .insertData row => s.writerStep (.insertData row)
  | .deleteData => s.writerStep .deleteData
  | .setVersion t => s.writerStep (.setVersion t)
  | .insertChange modid cmdid t => s.writerStep (.insertChange modid cmdid t)
  | .accept w connfd => some (s.enqueue w (.newConn connfd))
  | .recv w =>
      match (s.workers w).pc with
      | .loop =>
          some (s.setWorker w { s.workers w with
            queue := []
            pc := .dealing (s.workers w).queue })
      | _ => none
  | .deal w => s.dealStep w
  | .request w fd modid cmdid => s.requestStep w fd modid cmdid
  | .getHosts w => s.getHostsStep w
  | .send w => s.sendStep w
  | .beginClose w fd mods => s.beginCloseStep w fd mods
  | .unsubscribe w => s.unsubscribeStep w
  | .endClose w => s.endCloseStep w
  | .runTask w todo => s.runTaskStep w todo
  | .endTask w => s.endTaskStep w

/-! ## What a step can do -/

/-- The steps by what they change, one constructor for each way through the code. -/
inductive Step (s : Service n) : Act n → Service n → Prop
  /-- a statement of a writer or of the poll thread that leaves `_data_map` and the lists alone -/
  | quiet (a : Act n) (poll : Poll) (hmap : poll.route.dataMap = s.poll.route.dataMap)
      (hpc : ∀ changes, s.poll.pc = .publish changes → poll.pc = s.poll.pc) :
      Step s a { s with poll := poll }
  | install (a : Act n) (poll : Poll) (hpc : ∀ changes, s.poll.pc ≠ .publish changes) :
      Step s a { s with poll := poll, installs := s.installs ++ [poll.route.dataMap] }
  | publishLists (a : Act n) (changes : List ChangeRow) (hpc : s.poll.pc = .publish changes)
      (hfirst : s.publishing = none) :
      Step s a { s with
        publishing := some 0
        pushList := publish s.bookList (changes.map ChangeRow.key) s.pushList
        pubAt := fun mod =>
          if mod ∈ changes.map ChangeRow.key then some (s.installs.length - 1) else s.pubAt mod }
  | sendTask (a : Act n) (i : Fin n) (changes : List ChangeRow)
      (hpc : s.poll.pc = .publish changes) (hnext : s.publishing = some i) :
      Step s a { s.enqueue i .newTask with publishing := some (i + 1) }
  | publishDone (a : Act n) (i : Nat) (poll : Poll) (hnext : s.publishing = some i)
      (hlast : ¬ i < n) (hmap : poll.route.dataMap = s.poll.route.dataMap) :
      Step s a { s with poll := poll, publishing := none }
  | accept (w : Fin n) (connfd : Int) : Step s (.accept w connfd) (s.enqueue w (.newConn connfd))
  | recv (w : Fin n) (hpc : (s.workers w).pc = .loop) :
      Step s (.recv w) (s.setWorker w { s.workers w with
        queue := []
        pc := .dealing (s.workers w).queue })
  | openConn (w : Fin n) (connfd : Int) (tasks : List Task)
      (hpc : (s.workers w).pc = .dealing (.newConn connfd :: tasks))
      (hfree : s.conns connfd = none) :
      Step s (.deal w) ((s.setWorker w { s.workers w with
          listenFds := insert connfd (s.workers w).listenFds
          pc := .dealing tasks }).setConn connfd
        (some { worker := w, subList := ∅, log := [] }))
  | addTask (w : Fin n) (tasks : List Task)
      (hpc : (s.workers w).pc = .dealing (.newTask :: tasks)) :
      Step s (.deal w) (s.setWorker w { s.workers w with
        readTasks := (s.workers w).readTasks + 1
        pc := .dealing tasks })
  | dealt (w : Fin n) (hpc : (s.workers w).pc = .dealing []) : Step s (.deal w) (s.setPc w .loop)
  | request (w : Fin n) (fd : Int) (modid cmdid : Int32) (conn : Conn n) (book : BookList)
      (hpc : (s.workers w).pc = .loop) (hconn : s.conns fd = some conn) (hown : conn.worker = w)
      (hbook : ∀ mod fd', fd' ∈ book mod ↔ fd' ∈ s.bookList mod ∨
        (mod = routeKey modid cmdid ∧ fd' = fd ∧ mod ∉ conn.subList)) :
      Step s (.request w fd modid cmdid)
        { (s.setPc w (.routing fd modid cmdid)).setConn fd (some
            { conn with
              subList := insert (routeKey modid cmdid) conn.subList
              log := conn.log ++ [.request modid cmdid] }) with
          bookList := book }
  | readReply (w : Fin n) (fd : Int) (modid cmdid : Int32)
      (hpc : (s.workers w).pc = .routing fd modid cmdid) :
      Step s (.getHosts w)
        (s.setPc w (.replying fd modid cmdid (s.poll.route.getHosts modid cmdid)))
  | readPush (w : Fin n) (fd : Int) (st : UInt64) (todo : List (Int × UInt64))
      (hpc : (s.workers w).pc = .pushing ((fd, st) :: todo)) :
      Step s (.getHosts w) (s.setPc w
        (.pushSend fd st (s.poll.route.getHosts (modidOf st) (cmdidOf st)) todo))
  | reply (w : Fin n) (fd : Int) (modid cmdid : Int32) (hosts : Finset UInt64) (conn : Conn n)
      (hpc : (s.workers w).pc = .replying fd modid cmdid hosts) (hconn : s.conns fd = some conn) :
      Step s (.send w)
        ((s.setPc w .loop).logOn fd conn (.replied (RouteResponse.of modid cmdid hosts)))
  | push (w : Fin n) (fd : Int) (st : UInt64) (hosts : Finset UInt64) (todo : List (Int × UInt64))
      (conn : Conn n) (hpc : (s.workers w).pc = .pushSend fd st hosts todo)
      (hconn : s.conns fd = some conn) :
      Step s (.send w) ((s.setPc w (.pushing todo)).logOn fd conn
        (.pushed (RouteResponse.of (modidOf st) (cmdidOf st) hosts)))
  | skipPush (w : Fin n) (fd : Int) (st : UInt64) (hosts : Finset UInt64)
      (todo : List (Int × UInt64)) (hpc : (s.workers w).pc = .pushSend fd st hosts todo)
      (hconn : s.conns fd = none) : Step s (.send w) (s.setPc w (.pushing todo))
  | beginClose (w : Fin n) (fd : Int) (mods : List UInt64) (conn : Conn n)
      (hpc : (s.workers w).pc = .loop) (hconn : s.conns fd = some conn) (hown : conn.worker = w)
      (hmods : mods.toFinset = conn.subList) :
      Step s (.beginClose w fd mods) (s.setPc w (.closing fd mods))
  | unsubscribe (w : Fin n) (fd : Int) (mod : UInt64) (mods : List UInt64)
      (hpc : (s.workers w).pc = .closing fd (mod :: mods)) :
      Step s (.unsubscribe w)
        { s.setPc w (.closing fd mods) with bookList := Dns.unsubscribe s.bookList mod fd }
  | endClose (w : Fin n) (fd : Int) (hpc : (s.workers w).pc = .closing fd []) :
      Step s (.endClose w) ((s.setWorker w { s.workers w with
        listenFds := (s.workers w).listenFds.erase fd
        pc := .loop }).setConn fd none)
  | runTask (w : Fin n) (todo : List (Int × UInt64)) (ready : Nat)
      (hpc : (s.workers w).pc = .loop) (hready : (s.workers w).readTasks = ready + 1)
      (htodo : ∀ fd mod, (fd, mod) ∈ todo ↔ fd ∈ (s.workers w).listenFds ∧ mod ∈ s.pushList fd) :
      Step s (.runTask w todo)
        { s.setWorker w { s.workers w with readTasks := ready, pc := .pushing todo } with
          pushList := makePublishMap s.pushList (s.workers w).listenFds }
  | endTask (w : Fin n) (hpc : (s.workers w).pc = .pushing []) :
      Step s (.endTask w) (s.setPc w .loop)

theorem pollStep_sound (s : Service n) (ok : Bool) (now : Int) :
    Step s (.poll ok now) (s.pollStep ok now) := by
  unfold pollStep
  split
  · next changes hpc hnone =>
      exact .publishLists _ changes hpc hnone
  · next changes i hpc hsome =>
      split_ifs with hi
      · exact .sendTask _ ⟨i, hi⟩ changes hpc hsome
      · refine .publishDone _ i _ hsome hi ((s.poll.pollStep_statement ok now).dataMap ?_ ?_) <;>
          simp [hpc]
  · next hpc =>
      exact .install _ _ (by simp [hpc])
  · next hpc =>
      exact .install _ _ (by simp [hpc])
  · next hswap hreload hnone hsome =>
      refine .quiet _ _ ((s.poll.pollStep_statement ok now).dataMap hswap hreload) ?_
      intro changes hpc
      cases hpub : s.publishing with
      | none =>
          exact (hnone changes hpc hpub).elim
      | some i =>
          exact (hsome changes i hpc hpub).elim

theorem writerStep_sound {s t : Service n} {a : Poll.Act} (b : Act n)
    (ha : ∀ ok now, a ≠ .poll ok now) (hstep : s.writerStep a = some t) : Step s b t := by
  rcases Option.map_eq_some_iff.1 hstep with ⟨poll, hpoll, rfl⟩
  rcases Poll.step_writer ha hpoll with ⟨hroute, hpc⟩
  exact .quiet _ poll (by rw [hroute]) fun _ _ => hpc

theorem requestStep_sound {s t : Service n} {w : Fin n} {fd : Int} {modid cmdid : Int32}
    (hstep : s.requestStep w fd modid cmdid = some t) : Step s (.request w fd modid cmdid) t := by
  unfold requestStep at hstep
  split at hstep
  · next conn hpc hconn =>
      by_cases hown : conn.worker = w
      swap
      · simp [hown] at hstep
      dsimp only at hstep
      rw [if_pos hown] at hstep
      by_cases hnew : routeKey modid cmdid ∉ conn.subList
      · rw [if_pos hnew] at hstep
        cases hstep
        refine .request w fd modid cmdid conn _ hpc hconn hown ?_
        intro mod fd'
        rw [mem_subscribe]
        constructor
        · rintro (⟨rfl, rfl⟩ | hold)
          · exact Or.inr ⟨rfl, rfl, hnew⟩
          · exact Or.inl hold
        · rintro (hold | ⟨rfl, rfl, _⟩)
          · exact Or.inr hold
          · exact Or.inl ⟨rfl, rfl⟩
      · -- subscribed before: neither list changes
        rw [if_neg hnew] at hstep
        cases hstep
        have hmem : routeKey modid cmdid ∈ conn.subList := not_not.1 hnew
        have hreq := Step.request (s := s) w fd modid cmdid conn s.bookList hpc hconn hown
          (by
            intro mod fd'
            constructor
            · exact Or.inl
            · rintro (hold | ⟨rfl, _, hnot⟩)
              · exact hold
              · exact absurd hmem hnot)
        rw [Finset.insert_eq_of_mem hmem] at hreq
        exact hreq
  · cases hstep

theorem sendStep_sound {s t : Service n} {w : Fin n} (hstep : s.sendStep w = some t) :
    Step s (.send w) t := by
  unfold sendStep at hstep
  split at hstep
  · next fd modid cmdid hosts hpc =>
      split at hstep
      · cases hstep
      · next conn hconn =>
          cases hstep
          exact .reply w fd modid cmdid hosts conn hpc hconn
  · next fd st hosts todo hpc =>
      split at hstep
      · next hconn =>
          cases hstep
          exact .skipPush w fd st hosts todo hpc hconn
      · next conn hconn =>
          cases hstep
          exact .push w fd st hosts todo conn hpc hconn
  · cases hstep

theorem dealStep_sound {s t : Service n} {w : Fin n} (hstep : s.dealStep w = some t) :
    Step s (.deal w) t := by
  unfold dealStep at hstep
  split at hstep
  · next connfd tasks hpc =>
      split_ifs at hstep with hfree
      cases hstep
      exact .openConn w connfd tasks hpc hfree
  · next tasks hpc =>
      cases hstep
      exact .addTask w tasks hpc
  · next hpc =>
      cases hstep
      exact .dealt w hpc
  · cases hstep

theorem runTaskStep_sound {s t : Service n} {w : Fin n} {todo : List (Int × UInt64)}
    (hstep : s.runTaskStep w todo = some t) : Step s (.runTask w todo) t := by
  unfold runTaskStep at hstep
  split at hstep
  · next ready hpc hready =>
      split_ifs at hstep with htodo
      cases hstep
      refine .runTask w todo ready hpc hready ?_
      intro fd mod
      rw [← mem_needPublish, ← htodo.2, List.mem_toFinset]
  · cases hstep

/-- Every step is one of those listed. -/
theorem step_sound {s t : Service n} {a : Act n} (hstep : step s a = some t) : Step s a t := by
  cases a with
  | poll ok now =>
      cases hstep
      exact pollStep_sound s ok now
  | insertData row =>
      exact writerStep_sound _ (by simp) hstep
  | deleteData =>
      exact writerStep_sound _ (by simp) hstep
  | setVersion v =>
      exact writerStep_sound _ (by simp) hstep
  | insertChange modid cmdid v =>
      exact writerStep_sound _ (by simp) hstep
  | accept w connfd =>
      cases hstep
      exact .accept w connfd
  | recv w =>
      simp only [step] at hstep
      split at hstep
      · next hpc =>
          cases hstep
          exact .recv w hpc
      · cases hstep
  | deal w =>
      exact dealStep_sound hstep
  | request w fd modid cmdid =>
      exact requestStep_sound hstep
  | getHosts w =>
      simp only [step, getHostsStep] at hstep
      split at hstep
      · next fd modid cmdid hpc =>
          cases hstep
          exact .readReply w fd modid cmdid hpc
      · next fd st todo hpc =>
          cases hstep
          exact .readPush w fd st todo hpc
      · cases hstep
  | send w =>
      exact sendStep_sound hstep
  | beginClose w fd mods =>
      simp only [step, beginCloseStep] at hstep
      split at hstep
      · next conn hpc hconn =>
          split_ifs at hstep with hown
          cases hstep
          exact .beginClose w fd mods conn hpc hconn hown.1 hown.2
      · cases hstep
  | unsubscribe w =>
      simp only [step, unsubscribeStep] at hstep
      split at hstep
      · next fd mod mods hpc =>
          cases hstep
          exact .unsubscribe w fd mod mods hpc
      · cases hstep
  | endClose w =>
      simp only [step, endCloseStep] at hstep
      split at hstep
      · next fd hpc =>
          cases hstep
          exact .endClose w fd hpc
      · cases hstep
  | runTask w todo =>
      exact runTaskStep_sound hstep
  | endTask w =>
      simp only [step, endTaskStep] at hstep
      split at hstep
      · next hpc =>
          cases hstep
          exact .endTask w hpc
      · cases hstep

end Service
end Dns
end Rins
