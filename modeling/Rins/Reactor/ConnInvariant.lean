import Rins.Reactor.ConnTable

/-!
# ConnInvariant — who holds a descriptor and where a connection stands

The invariant of `TcpServer` in three parts: every open descriptor has one holder, every connection
is in the hands of the thread whose loop it is on, and the table lists the connections between
`increase_conn` and `decrease_conn`.  The second half of the module is about the steps that a thread
takes inside the methods of a connection.
-/

namespace Rins
namespace Reactor
namespace TcpServer

variable {n : Nat}

/-! ## The invariant -/

/-- Who will close a descriptor. -/
inductive Holder (n : Nat)
  /-- it is not open -/
  | none
  /-- it is not for a connection -/
  | other
  | acceptor
  | queue (i : Fin n)
  | conn (c : Nat)

/-- A connection and the method that its thread `w` is in; `loop` is the loop of the thread. -/
inductive Busy (loop : EventLoop Nat) (w : Thread n) : ConnObj n → ConnMethod → Prop
  | register (fd : Int) (hfd : 0 ≤ fd) : Busy loop w ⟨fd, w, false, 0⟩ .register
  | connStart (fd : Int) (hfd : 0 ≤ fd) : Busy loop w ⟨fd, w, false, 0⟩ .connStart
  | increase (fd : Int) (hfd : 0 ≤ fd) : Busy loop w ⟨fd, w, false, 0⟩ .increase
  | event (fd : Int) (hfd : 0 ≤ fd) (sends : Nat) (fin : EventEnd) :
      Busy loop w ⟨fd, w, true, 0⟩ (.event (eventEffects fd sends fin))
  | connClose (fd : Int) (hfd : 0 ≤ fd) :
      Busy loop w ⟨fd, w, true, 1⟩ (.clean (cleanEffects fd))
  | decrease (fd : Int) (hfd : 0 ≤ fd) :
      Busy loop w ⟨fd, w, true, 1⟩ (.clean [.decreaseConn fd, .delIoEvent fd, .close fd])
  | delete (fd : Int) (hfd : 0 ≤ fd) :
      Busy loop w ⟨fd, w, false, 1⟩ (.clean [.delIoEvent fd, .close fd])
  | close (fd : Int) (hfd : 0 ≤ fd) (hcalls : ∀ c, ¬ loop.Calls fd c) (hfds : fd ∉ loop.listenFds) :
      Busy loop w ⟨fd, w, false, 1⟩ (.clean [.close fd])
  | closed : Busy loop w ⟨-1, w, false, 1⟩ (.clean [])

/-- A connection between two methods. -/
inductive Resting : ConnObj n → Prop
  | opened (fd : Int) (hfd : 0 ≤ fd) (w : Thread n) : Resting ⟨fd, w, true, 0⟩
  | closed (w : Thread n) : Resting ⟨-1, w, false, 1⟩

/-- The connection `c` is on the loop of `w` and has the open descriptor `fd`. -/
def OnLoop (objs : List (ConnObj n)) (w : Thread n) (fd : Int) (c : Nat) : Prop :=
  ∃ obj, objs[c]? = some obj ∧ obj.loop = w ∧ obj.connfd = fd ∧ 0 ≤ fd

/-- The connection `c` is in the table at `fd`. -/
def ListedAt (objs : List (ConnObj n)) (fd : Int) (c : Nat) : Prop :=
  ∃ obj, objs[c]? = some obj ∧ obj.listed = true ∧ obj.connfd = fd

/-- The main thread holds `fd` in `do_accept`. -/
def Accepting (s : TcpServer n) (fd : Int) : Prop :=
  s.pcs .main = .accepted fd ∨ ∃ cur, s.pcs .main = .counted fd cur

/-- Every open descriptor has one holder. -/
structure Held (s : TcpServer n) (holder : Int → Holder n) : Prop where
  opened : ∀ fd, fd ∈ s.openFds ↔ holder fd ≠ .none
  acceptor : ∀ fd, s.Accepting fd → holder fd = .acceptor ∧ 0 ≤ fd
  queued : ∀ i fd, fd ∈ s.queues i → holder fd = .queue i ∧ 0 ≤ fd
  nodup : ∀ i, (s.queues i).Nodup
  conn : ∀ c obj, s.objs[c]? = some obj → obj.connfd ≠ -1 → holder obj.connfd = .conn c

/-- A connection is in the hands of the thread whose loop it is on. -/
structure Threads (s : TcpServer n) : Prop where
  busy : ∀ w c m, s.pcs w = .conn c m → ∃ obj, s.objs[c]? = some obj ∧ Busy (s.loops w) w obj m
  resting : ∀ c obj, s.objs[c]? = some obj → (∀ m, s.pcs obj.loop ≠ .conn c m) → Resting obj
  calls : ∀ w fd c, (s.loops w).Calls fd c → OnLoop s.objs w fd c
  listens : ∀ w fd, fd ∈ (s.loops w).listenFds → ∃ c, OnLoop s.objs w fd c

/-- The table is the one of the connections that are listed. -/
structure Listing (s : TcpServer n) : Prop where
  table : ∀ fd c, s.conns fd = .conn c ↔ ListedAt s.objs fd c
  counter : s.curConns = s.objs.countP (·.listed)

structure Exact (s : TcpServer n) : Prop where
  held : ∃ holder, s.Held holder
  threads : s.Threads
  listing : s.Listing

theorem init_exact (maxConns : Int) (base : Finset Int) : (init n maxConns base).Exact where
  held := by
    refine ⟨fun fd => if fd ∈ base then .other else .none, ?_, ?_, ?_, ?_, ?_⟩
    · intro fd
      by_cases hfd : fd ∈ base <;> simp [init, hfd]
    · simp [init, Accepting]
    · simp [init]
    · simp [init]
    · simp [init]
  threads := by
    refine ⟨by simp [init], by simp [init], ?_, ?_⟩
    · intro w fd c hcalls
      exact absurd hcalls EventLoop.new_calls
    · simp [init, EventLoop.new]
  listing := ⟨by simp [init, ListedAt], by simp [init]⟩

/-! ### Changing one connection -/

section SetObj

variable {objs : List (ConnObj n)} {c : Nat} {obj obj' : ConnObj n}

theorem getElem?_setObj (hobj : objs[c]? = some obj) (a : Nat) :
    (objs.set c obj')[a]? = if a = c then some obj' else objs[a]? := by
  have hlt := (List.getElem?_eq_some_iff.1 hobj).1
  rw [List.getElem?_set]
  by_cases hac : a = c
  · simp [hac, hlt]
  · simp [hac, Ne.symm hac]

theorem set_getElem?_self (hobj : objs[c]? = some obj) : objs.set c obj = objs := by
  rcases List.getElem?_eq_some_iff.1 hobj with ⟨hlt, rfl⟩
  exact List.set_getElem_self hlt

theorem onLoop_setObj (hobj : objs[c]? = some obj) (hloop : obj'.loop = obj.loop)
    (hfd : obj'.connfd = obj.connfd) {w : Thread n} {fd : Int} {a : Nat}
    (h : OnLoop objs w fd a) : OnLoop (objs.set c obj') w fd a := by
  rcases h with ⟨o, ho, hw, hfd', hpos⟩
  by_cases hac : a = c
  · rw [hac, hobj] at ho
    cases ho
    exact ⟨obj', by rw [getElem?_setObj hobj, if_pos hac], hloop.trans hw, hfd.trans hfd', hpos⟩
  · exact ⟨o, by rw [getElem?_setObj hobj, if_neg hac, ho], hw, hfd', hpos⟩

theorem listedAt_setObj (hobj : objs[c]? = some obj) {fd : Int} {a : Nat} :
    ListedAt (objs.set c obj') fd a ↔
      if a = c then obj'.listed = true ∧ obj'.connfd = fd else ListedAt objs fd a := by
  unfold ListedAt
  rw [getElem?_setObj hobj]
  split_ifs with hac
  · simp
  · rfl

theorem countP_setObj (p : ConnObj n → Bool) (hobj : objs[c]? = some obj) :
    ((objs.set c obj').countP p : Int) =
      objs.countP p - (if p obj then 1 else 0) + if p obj' then 1 else 0 := by
  rcases List.getElem?_eq_some_iff.1 hobj with ⟨hlt, hget⟩
  -- the subtraction in `countP_set` is one of natural numbers
  have hpos : p obj = true → 0 < objs.countP p := by
    intro hp
    exact List.countP_pos_iff.2 ⟨obj, hget ▸ List.getElem_mem hlt, hp⟩
  rw [List.countP_set hlt, hget]
  cases hp : p obj with
  | false =>
      cases p obj' <;> simp
  | true =>
      have := hpos hp
      cases p obj' <;> simp <;> omega

end SetObj

/-! ### The methods of a connection -/

theorem Busy.loop_eq {loop : EventLoop Nat} {w : Thread n} {obj : ConnObj n} {m : ConnMethod}
    (h : Busy loop w obj m) : obj.loop = w := by
  cases h <;> rfl

/-- A step of `w` in a method of the connection `c` that changes no descriptor. -/
theorem Held.method {s t : TcpServer n} {holder : Int → Holder n} (h : s.Held holder)
    {w : Thread n} {c : Nat} {obj obj' : ConnObj n} {pc : ThreadPc}
    (hobj : s.objs[c]? = some obj) (hfd : obj'.connfd = obj.connfd)
    (hpc : ∀ fd, pc ≠ .accepted fd ∧ ∀ cur, pc ≠ .counted fd cur)
    (hobjs : t.objs = s.objs.set c obj') (hpcs : t.pcs = Function.update s.pcs w pc)
    (hqueues : t.queues = s.queues) (hfds : t.openFds = s.openFds) : t.Held holder := by
  refine ⟨by rw [hfds]; exact h.opened, ?_, by rw [hqueues]; exact h.queued,
    by rw [hqueues]; exact h.nodup, ?_⟩
  · intro fd hmain
    refine h.acceptor fd ?_
    unfold Accepting at hmain ⊢
    rw [hpcs] at hmain
    by_cases hw : w = .main
    · subst hw
      simp only [Function.update_self] at hmain
      rcases hmain with hmain | ⟨cur, hmain⟩
      · exact absurd hmain (hpc fd).1
      · exact absurd hmain ((hpc fd).2 cur)
    · simpa [Function.update_of_ne (Ne.symm hw)] using hmain
  · intro a o ho hopen
    rw [hobjs, getElem?_setObj hobj] at ho
    split_ifs at ho with hac
    · cases ho
      rw [hac, hfd]
      exact h.conn c obj hobj (by rw [← hfd]; exact hopen)
    · exact h.conn a o ho hopen

/-- A step of `w` in a method of the connection `c`, which leaves the callbacks of `w` as the last
two hypotheses say. -/
theorem Threads.method {s t : TcpServer n} (h : s.Threads) (obj' : ConnObj n) {w : Thread n}
    {c : Nat} {m : ConnMethod} {obj : ConnObj n} {pc : ThreadPc} {loop : EventLoop Nat}
    (hpc : s.pcs w = .conn c m) (hobj : s.objs[c]? = some obj) (hloop : obj'.loop = obj.loop)
    (hobjs : t.objs = s.objs.set c obj') (hpcs : t.pcs = Function.update s.pcs w pc)
    (hloops : t.loops = Function.update s.loops w loop)
    (hnext : (∃ m', pc = .conn c m' ∧ Busy loop w obj' m') ∨ (pc = .idle ∧ Resting obj'))
    (hcalls : ∀ fd a, loop.Calls fd a → OnLoop (s.objs.set c obj') w fd a)
    (hlistens : ∀ fd ∈ loop.listenFds, ∃ a, OnLoop (s.objs.set c obj') w fd a) : t.Threads := by
  have hw : obj.loop = w := by
    rcases h.busy w c m hpc with ⟨o, ho, hbusy⟩
    rw [hobj] at ho
    cases ho
    exact hbusy.loop_eq
  -- another thread has to do with other connections
  have hother : ∀ {w' f a}, w' ≠ w → OnLoop s.objs w' f a → OnLoop (s.objs.set c obj') w' f a := by
    rintro w' f a hww ⟨o, ho, hw', hf, hpos⟩
    have hac : a ≠ c := by
      rintro rfl
      rw [hobj] at ho
      cases ho
      exact hww (hw'.symm.trans hw)
    exact ⟨o, by rw [getElem?_setObj hobj, if_neg hac, ho], hw', hf, hpos⟩
  refine ⟨?_, ?_, ?_, ?_⟩
  · intro w' a m' hpc'
    rw [hobjs, hloops, getElem?_setObj hobj]
    rw [hpcs] at hpc'
    by_cases hww : w' = w
    · subst hww
      simp only [Function.update_self] at hpc' ⊢
      -- the thread stays with the connection or lets go of it
      rcases hnext with ⟨m'', hconn, hbusy⟩ | ⟨hidle, _⟩
      · rw [hconn] at hpc'
        cases hpc'
        exact ⟨obj', if_pos rfl, hbusy⟩
      · rw [hidle] at hpc'
        cases hpc'
    · rw [Function.update_of_ne hww] at hpc' ⊢
      rcases h.busy w' a m' hpc' with ⟨o, ho, hbusy⟩
      have hac : a ≠ c := by
        rintro rfl
        rw [hobj] at ho
        cases ho
        exact hww (hbusy.loop_eq.symm.trans hw)
      exact ⟨o, by rw [if_neg hac, ho], hbusy⟩
  · intro a o ho hidle
    rw [hobjs, getElem?_setObj hobj] at ho
    rw [hpcs] at hidle
    split_ifs at ho with hac
    · cases ho
      rw [hloop, hw, Function.update_self, hac] at hidle
      rcases hnext with ⟨m', hconn, _⟩ | ⟨_, hrest⟩
      · exact absurd hconn (hidle m')
      · exact hrest
    · refine h.resting a o ho fun m' hpc' => ?_
      by_cases how : o.loop = w
      · rw [how, hpc] at hpc'
        exact hac (by cases hpc'; rfl)
      · exact hidle m' (by rw [Function.update_of_ne how, hpc'])
  · intro w' fd a hcall
    rw [hobjs]
    rw [hloops] at hcall
    by_cases hww : w' = w
    · rw [hww, Function.update_self] at hcall
      rw [hww]
      exact hcalls fd a hcall
    · rw [Function.update_of_ne hww] at hcall
      exact hother hww (h.calls w' fd a hcall)
  · intro w' fd hlisten
    rw [hobjs]
    rw [hloops] at hlisten
    by_cases hww : w' = w
    · rw [hww, Function.update_self] at hlisten
      rw [hww]
      exact hlistens fd hlisten
    · rw [Function.update_of_ne hww] at hlisten
      rcases h.listens w' fd hlisten with ⟨a, ha⟩
      exact ⟨a, hother hww ha⟩

/-- A descriptor belongs to one connection. -/
theorem Held.unique {s : TcpServer n} {holder : Int → Holder n} (h : s.Held holder) {a c : Nat}
    {o obj : ConnObj n} (ho : s.objs[a]? = some o) (hobj : s.objs[c]? = some obj)
    (hsame : o.connfd = obj.connfd) (hopen : obj.connfd ≠ -1) : a = c := by
  have ha := h.conn a o ho (by rw [hsame]; exact hopen)
  rw [hsame, h.conn c obj hobj hopen] at ha
  cases ha
  rfl

theorem Held.queued_ne {s : TcpServer n} {holder : Int → Holder n} (h : s.Held holder) {fd f : Int}
    (hfd : ∀ i, holder fd ≠ .queue i) {i : Fin n} (hf : f ∈ s.queues i) : f ≠ fd := by
  rintro rfl
  exact hfd i (h.queued i f hf).1

theorem Held.conn_ne {s : TcpServer n} {holder : Int → Holder n} (h : s.Held holder) {fd : Int}
    (hfd : ∀ c, holder fd ≠ .conn c) {c : Nat} {obj : ConnObj n} (hobj : s.objs[c]? = some obj)
    (hopen : obj.connfd ≠ -1) : obj.connfd ≠ fd := by
  rintro rfl
  exact hfd c (h.conn c obj hobj hopen)

/-- The descriptor `fd` passes to `x`, the others stay with their holders. -/
theorem Held.pass {s t : TcpServer n} {holder : Int → Holder n} (h : s.Held holder) (fd : Int)
    (x : Holder n) (hfd : x ≠ .none ↔ fd ∈ t.openFds)
    (hopened : ∀ f, f ≠ fd → (f ∈ t.openFds ↔ f ∈ s.openFds))
    (hacceptor : ∀ f, t.Accepting f →
      (f = fd ∧ x = .acceptor ∧ 0 ≤ fd) ∨ (f ≠ fd ∧ s.Accepting f))
    (hqueued : ∀ i f, f ∈ t.queues i →
      (f = fd ∧ x = .queue i ∧ 0 ≤ fd) ∨ (f ≠ fd ∧ f ∈ s.queues i))
    (hnodup : ∀ i, (t.queues i).Nodup)
    (hconn : ∀ c obj, t.objs[c]? = some obj → obj.connfd ≠ -1 →
      (obj.connfd = fd ∧ x = .conn c) ∨ (obj.connfd ≠ fd ∧ s.objs[c]? = some obj)) :
    t.Held (Function.update holder fd x) := by
  refine ⟨?_, ?_, ?_, hnodup, ?_⟩
  · intro f
    by_cases hf : f = fd
    · rw [hf, Function.update_self]
      exact hfd.symm
    · rw [Function.update_of_ne hf, hopened f hf]
      exact h.opened f
  · intro f hf
    rcases hacceptor f hf with ⟨rfl, hx, hpos⟩ | ⟨hne, hold⟩
    · exact ⟨by rw [Function.update_self, hx], hpos⟩
    · rw [Function.update_of_ne hne]
      exact h.acceptor f hold
  · intro i f hf
    rcases hqueued i f hf with ⟨rfl, hx, hpos⟩ | ⟨hne, hold⟩
    · exact ⟨by rw [Function.update_self, hx], hpos⟩
    · rw [Function.update_of_ne hne]
      exact h.queued i f hold
  · intro c obj hobj hopen
    rcases hconn c obj hobj hopen with ⟨rfl, hx⟩ | ⟨hne, hold⟩
    · rw [Function.update_self, hx]
    · rw [Function.update_of_ne hne]
      exact h.conn c obj hold hopen

theorem Listing.increase {s : TcpServer n} {holder : Int → Holder n} (h : s.Listing)
    (hheld : s.Held holder) {c : Nat} {obj : ConnObj n} (hobj : s.objs[c]? = some obj)
    (hopen : obj.connfd ≠ -1) (hlisted : obj.listed = false) :
    Listing ((s.increaseConn obj.connfd c).setObj c { obj with listed := true }) := by
  refine ⟨?_, ?_⟩
  · intro fd a
    show Function.update s.conns obj.connfd (.conn c) fd = .conn a ↔
      ListedAt (s.objs.set c { obj with listed := true }) fd a
    rw [listedAt_setObj hobj]
    by_cases hfd : fd = obj.connfd
    · subst hfd
      rw [Function.update_self]
      split_ifs with hac
      · simp [hac]
      · -- the descriptor is not the one of another connection
        refine iff_of_false (fun hc => hac (by cases hc; rfl)) ?_
        rintro ⟨o, ho, _, hsame⟩
        exact hac (hheld.unique ho hobj hsame hopen)
    · rw [Function.update_of_ne hfd, h.table]
      split_ifs with hac
      · refine iff_of_false ?_ (fun hc => hfd hc.2.symm)
        rintro ⟨o, ho, hlist, _⟩
        rw [hac, hobj] at ho
        cases ho
        simp [hlisted] at hlist
      · rfl
  · show s.curConns + 1 = ((s.objs.set c { obj with listed := true }).countP (·.listed) : Int)
    rw [countP_setObj _ hobj, h.counter]
    simp [hlisted]

theorem Listing.decrease {s : TcpServer n} {holder : Int → Holder n} (h : s.Listing)
    (hheld : s.Held holder) {c : Nat} {obj : ConnObj n} (hobj : s.objs[c]? = some obj)
    (hopen : obj.connfd ≠ -1) (hlisted : obj.listed = true) :
    Listing ((s.decreaseConn obj.connfd).setObj c { obj with listed := false }) := by
  refine ⟨?_, ?_⟩
  · intro fd a
    show Function.update s.conns obj.connfd .null fd = .conn a ↔
      ListedAt (s.objs.set c { obj with listed := false }) fd a
    rw [listedAt_setObj hobj]
    by_cases hfd : fd = obj.connfd
    · subst hfd
      rw [Function.update_self]
      split_ifs with hac
      · simp
      · -- the entry that is erased is nobody else's
        refine iff_of_false (by simp) ?_
        rintro ⟨o, ho, _, hsame⟩
        exact hac (hheld.unique ho hobj hsame hopen)
    · rw [Function.update_of_ne hfd, h.table]
      split_ifs with hac
      · refine iff_of_false ?_ (by simp)
        rintro ⟨o, ho, _, hsame⟩
        rw [hac, hobj] at ho
        cases ho
        exact hfd hsame.symm
      · rfl
  · show s.curConns - 1 = ((s.objs.set c { obj with listed := false }).countP (·.listed) : Int)
    rw [countP_setObj _ hobj, h.counter]
    simp [hlisted]

/-- Nothing about a connection changes that the table depends on. -/
theorem Listing.method {s t : TcpServer n} (h : s.Listing) (obj' : ConnObj n) {c : Nat}
    {obj : ConnObj n} (hobj : s.objs[c]? = some obj) (hlisted : obj'.listed = obj.listed)
    (hfd : obj.listed = true → obj'.connfd = obj.connfd) (hobjs : t.objs = s.objs.set c obj')
    (hconns : t.conns = s.conns) (hcur : t.curConns = s.curConns) : t.Listing := by
  refine ⟨?_, ?_⟩
  · intro fd a
    rw [hconns, hobjs, h.table, listedAt_setObj hobj]
    split_ifs with hac
    · subst hac
      constructor
      · rintro ⟨o, ho, hlist, hsame⟩
        rw [hobj] at ho
        cases ho
        exact ⟨hlisted.trans hlist, (hfd hlist).trans hsame⟩
      · rintro ⟨hlist, hsame⟩
        have hlist' : obj.listed = true := hlisted ▸ hlist
        exact ⟨obj, hobj, hlist', (hfd hlist').symm.trans hsame⟩
    · rfl
  · rw [hcur, hobjs, countP_setObj _ hobj, h.counter, hlisted]
    omega

/-- A step in a method that keeps the descriptor; `hlisting` is about what it does to the table. -/
theorem Exact.method {s t : TcpServer n} (h : s.Exact) (obj' : ConnObj n) {w : Thread n}
    {c : Nat} {m : ConnMethod} {obj : ConnObj n} {pc : ThreadPc} {loop : EventLoop Nat}
    (hpc : s.pcs w = .conn c m) (hobj : s.objs[c]? = some obj) (hloop : obj'.loop = obj.loop)
    (hfd : obj'.connfd = obj.connfd)
    (hnext : (∃ m', pc = .conn c m' ∧ Busy loop w obj' m') ∨ (pc = .idle ∧ Resting obj'))
    (hcalls : ∀ fd a, loop.Calls fd a → OnLoop s.objs w fd a)
    (hlistens : ∀ fd ∈ loop.listenFds, ∃ a, OnLoop s.objs w fd a)
    (hobjs : t.objs = s.objs.set c obj') (hpcs : t.pcs = Function.update s.pcs w pc)
    (hloops : t.loops = Function.update s.loops w loop) (hqueues : t.queues = s.queues)
    (hfds : t.openFds = s.openFds) (hlisting : t.Listing) : t.Exact := by
  have hnot : ∀ fd, pc ≠ .accepted fd ∧ ∀ cur, pc ≠ .counted fd cur := by
    intro fd
    rcases hnext with ⟨m', rfl, _⟩ | ⟨rfl, _⟩ <;> simp
  refine ⟨?_, ?_, hlisting⟩
  · rcases h.held with ⟨holder, hheld⟩
    exact ⟨holder, hheld.method hobj hfd hnot hobjs hpcs hqueues hfds⟩
  · refine h.threads.method obj' hpc hobj hloop hobjs hpcs hloops hnext ?_ ?_
    · intro fd a hcall
      exact onLoop_setObj hobj hloop hfd (hcalls fd a hcall)
    · intro fd hlisten
      rcases hlistens fd hlisten with ⟨a, ha⟩
      exact ⟨a, onLoop_setObj hobj hloop hfd ha⟩

/-- The last step of `clean_conn`: the kernel may hand out the number again. -/
theorem Exact.close {s : TcpServer n} (h : s.Exact) {w : Thread n} {c : Nat} {fd : Int}
    (hpc : s.pcs w = .conn c (.clean [.close fd])) (hfd : 0 ≤ fd)
    (hobj : s.objs[c]? = some ⟨fd, w, false, 1⟩) (hcalls : ∀ c, ¬ (s.loops w).Calls fd c)
    (hfds : fd ∉ (s.loops w).listenFds) :
    Exact ((({ s with openFds := s.openFds.erase fd }).setObj c ⟨-1, w, false, 1⟩).setPc w
      (.conn c (.clean []))) := by
  have hopen : fd ≠ -1 := by omega
  refine ⟨?_, ?_, ?_⟩
  · rcases h.held with ⟨holder, hheld⟩
    have hmine : holder fd = .conn c := hheld.conn c _ hobj hopen
    -- the descriptor has no holder any more
    refine ⟨_, hheld.pass fd .none (by simp [setPc, setObj]) ?_ ?_ ?_
      hheld.nodup ?_⟩
    · intro f hf
      simp [setPc, setObj, hf]
    · intro f hmain
      have hold : s.Accepting f := by
        by_cases hw : w = .main
        · subst hw
          simp [Accepting, setPc] at hmain
        · simpa [Accepting, setPc, setObj, Function.update_of_ne (Ne.symm hw)] using hmain
      refine Or.inr ⟨?_, hold⟩
      rintro rfl
      rw [(hheld.acceptor f hold).1] at hmine
      cases hmine
    · intro i f hqueue
      exact Or.inr ⟨hheld.queued_ne (by simp [hmine]) hqueue, hqueue⟩
    · intro a o ho hopen'
      change (s.objs.set c _)[a]? = some o at ho
      rw [getElem?_setObj hobj] at ho
      split_ifs at ho with hac
      · cases ho
        exact absurd rfl hopen'
      · exact Or.inr ⟨fun hsame => hac (hheld.unique ho hobj hsame hopen), ho⟩
  · -- no callback is left for the connection
    have hother : ∀ {f a}, OnLoop s.objs w f a → f ≠ fd →
        OnLoop (s.objs.set c ⟨-1, w, false, 1⟩) w f a := by
      rintro f a ⟨o, ho, hw, hf, hpos⟩ hne
      have hac : a ≠ c := by
        rintro rfl
        rw [hobj] at ho
        cases ho
        exact hne hf.symm
      exact ⟨o, by rw [getElem?_setObj hobj, if_neg hac, ho], hw, hf, hpos⟩
    refine h.threads.method ⟨-1, w, false, 1⟩ hpc hobj rfl rfl rfl
      (Function.update_eq_self w s.loops).symm (Or.inl ⟨_, rfl, .closed⟩) ?_ ?_
    · intro f a hcall
      refine hother (h.threads.calls w f a hcall) ?_
      rintro rfl
      exact hcalls a hcall
    · intro f hlisten
      rcases h.threads.listens w f hlisten with ⟨a, ha⟩
      refine ⟨a, hother ha ?_⟩
      rintro rfl
      exact hfds hlisten
  · exact h.listing.method ⟨-1, w, false, 1⟩ hobj rfl (by simp) rfl rfl rfl

/-- The steps of a method that change the loop of its thread. -/
theorem Exact.onLoop {s : TcpServer n} (h : s.Exact) {w : Thread n} {c : Nat} {m : ConnMethod}
    {obj : ConnObj n} {pc : ThreadPc} {f : EventLoop Nat → EventLoop Nat}
    (hpc : s.pcs w = .conn c m) (hobj : s.objs[c]? = some obj)
    (hnext : (∃ m', pc = .conn c m' ∧ Busy (f (s.loops w)) w obj m') ∨ (pc = .idle ∧ Resting obj))
    (hcalls : ∀ fd a, (f (s.loops w)).Calls fd a → OnLoop s.objs w fd a)
    (hlistens : ∀ fd ∈ (f (s.loops w)).listenFds, ∃ a, OnLoop s.objs w fd a) :
    ((s.onLoop w f).setPc w pc).Exact :=
  h.method obj hpc hobj rfl rfl hnext hcalls hlistens (set_getElem?_self hobj).symm rfl rfl rfl rfl
    ⟨h.listing.table, h.listing.counter⟩

/-- The steps of a method that only move on. -/
theorem Exact.setPc {s : TcpServer n} (h : s.Exact) {w : Thread n} {c : Nat} {m : ConnMethod}
    {obj : ConnObj n} {pc : ThreadPc} (hpc : s.pcs w = .conn c m) (hobj : s.objs[c]? = some obj)
    (hnext : (∃ m', pc = .conn c m' ∧ Busy (s.loops w) w obj m') ∨ (pc = .idle ∧ Resting obj)) :
    (s.setPc w pc).Exact :=
  h.method obj hpc hobj rfl rfl hnext (h.threads.calls w) (h.threads.listens w)
    (set_getElem?_self hobj).symm rfl (Function.update_eq_self w s.loops).symm rfl rfl
    ⟨h.listing.table, h.listing.counter⟩

/-- `add_io_event` for a connection on the loop. -/
theorem Threads.addIoEvent {s : TcpServer n} (h : s.Threads) {w : Thread n} {fd : Int} {c : Nat}
    (hc : OnLoop s.objs w fd c) (mask : EpollMask) (ctl : Bool) :
    (∀ f a, ((s.loops w).addIoEvent fd c mask ctl).Calls f a → OnLoop s.objs w f a) ∧
      ∀ f ∈ ((s.loops w).addIoEvent fd c mask ctl).listenFds, ∃ a, OnLoop s.objs w f a := by
  refine ⟨?_, ?_⟩
  · intro f a hcall
    rcases EventLoop.calls_addIoEvent hcall with hold | ⟨rfl, rfl⟩
    · exact h.calls w f a hold
    · exact hc
  · intro f hlisten
    rcases EventLoop.mem_listenFds_addIoEvent hlisten with rfl | hold
    · exact ⟨c, hc⟩
    · exact h.listens w f hold

theorem Exact.addIoEvent {s : TcpServer n} (h : s.Exact) {w : Thread n} {c : Nat} {m : ConnMethod}
    {obj : ConnObj n} {pc : ThreadPc} {mask : EpollMask} {ctl : Bool}
    (hpc : s.pcs w = .conn c m) (hobj : s.objs[c]? = some obj) (hw : obj.loop = w)
    (hfd : 0 ≤ obj.connfd) (hnext : ∀ loop, ∃ m', pc = .conn c m' ∧ Busy loop w obj m') :
    ((s.onLoop w (·.addIoEvent obj.connfd c mask ctl)).setPc w pc).Exact := by
  rcases h.threads.addIoEvent ⟨obj, hobj, hw, rfl, hfd⟩ mask ctl with ⟨hcalls, hlistens⟩
  exact h.onLoop hpc hobj (Or.inl (hnext _)) hcalls hlistens

/-- One step of `do_read` or `do_write`. -/
theorem Exact.eventStep {s t : TcpServer n} (h : s.Exact) {w : Thread n} {c : Nat} {fd : Int}
    (hfd : 0 ≤ fd) {sends : Nat} {fin : EventEnd} {ctl : Bool}
    (hpc : s.pcs w = .conn c (.event (eventEffects fd sends fin)))
    (hobj : s.objs[c]? = some ⟨fd, w, true, 0⟩)
    (hstep : s.methodStep w c ⟨fd, w, true, 0⟩ ctl (.event (eventEffects fd sends fin)) = some t) :
    t.Exact := by
  -- the effects are those of the callbacks first, then those of the end
  cases sends with
  | succ sends =>
      cases hstep
      exact h.addIoEvent hpc hobj rfl hfd fun _ => ⟨_, rfl, .event fd hfd sends fin⟩
  | zero =>
      cases fin with
      | returned =>
          cases hstep
          exact h.setPc hpc hobj (Or.inr ⟨rfl, .opened fd hfd w⟩)
      | drained =>
          cases hstep
          exact h.onLoop hpc hobj (Or.inl ⟨_, rfl, .event fd hfd 0 .returned⟩)
            (fun f a hcall => h.threads.calls w f a (EventLoop.calls_delIoEventMask hcall))
            (fun f hlisten =>
              h.threads.listens w f (EventLoop.mem_listenFds_delIoEventMask hlisten))
      | cleaned =>
          cases hstep
          exact h.method ⟨fd, w, true, 1⟩ hpc hobj rfl rfl
            (Or.inl ⟨_, rfl, .connClose fd hfd⟩) (h.threads.calls w) (h.threads.listens w) rfl rfl
            (Function.update_eq_self w s.loops).symm rfl rfl
            (h.listing.method ⟨fd, w, true, 1⟩ hobj rfl (fun _ => rfl) rfl rfl rfl)

/-- One step of a thread in a method of a connection. -/
theorem Exact.methodStep {s t : TcpServer n} (h : s.Exact) {w : Thread n} {c : Nat}
    {m : ConnMethod} {obj : ConnObj n} {ctl : Bool} (hpc : s.pcs w = .conn c m)
    (hobj : s.objs[c]? = some obj) (hstep : s.methodStep w c obj ctl m = some t) : t.Exact := by
  rcases h.threads.busy w c m hpc with ⟨o, ho, hbusy⟩
  rw [hobj] at ho
  cases ho
  rcases h.held with ⟨holder, hheld⟩
  cases hbusy with
  | register fd hfd =>
      cases hstep
      exact h.addIoEvent hpc hobj rfl hfd fun _ => ⟨_, rfl, .connStart fd hfd⟩
  | connStart fd hfd =>
      cases hstep
      exact h.setPc hpc hobj (Or.inl ⟨_, rfl, .increase fd hfd⟩)
  | increase fd hfd =>
      cases hstep
      have hopen : fd ≠ -1 := by omega
      have hlisting := h.listing.increase hheld hobj hopen rfl
      exact h.method ⟨fd, w, true, 0⟩ hpc hobj rfl rfl (Or.inr ⟨rfl, .opened fd hfd w⟩)
        (h.threads.calls w) (h.threads.listens w) rfl rfl
        (Function.update_eq_self w s.loops).symm rfl rfl ⟨hlisting.table, hlisting.counter⟩
  | event fd hfd sends fin =>
      exact h.eventStep hfd hpc hobj hstep
  | connClose fd hfd =>
      cases hstep
      exact h.setPc hpc hobj (Or.inl ⟨_, rfl, .decrease fd hfd⟩)
  | decrease fd hfd =>
      cases hstep
      have hopen : fd ≠ -1 := by omega
      have hlisting := h.listing.decrease hheld hobj hopen rfl
      exact h.method ⟨fd, w, false, 1⟩ hpc hobj rfl rfl (Or.inl ⟨_, rfl, .delete fd hfd⟩)
        (h.threads.calls w) (h.threads.listens w) rfl rfl
        (Function.update_eq_self w s.loops).symm rfl rfl ⟨hlisting.table, hlisting.counter⟩
  | delete fd hfd =>
      cases hstep
      -- from here on no event comes to the connection, and no task finds it on the loop
      refine h.onLoop hpc hobj (Or.inl ⟨_, rfl, .close fd hfd ?_ ?_⟩) ?_ ?_
      · intro a hcall
        exact (EventLoop.calls_delIoEvent hcall).1 rfl
      · exact Finset.notMem_erase fd _
      · intro f a hcall
        exact h.threads.calls w f a (EventLoop.calls_delIoEvent hcall).2
      · intro f hlisten
        exact h.threads.listens w f (Finset.mem_of_mem_erase hlisten)
  | close fd hfd hcalls hfds =>
      cases hstep
      exact h.close hpc hfd hobj hcalls hfds
  | closed =>
      cases hstep
      exact h.setPc hpc hobj (Or.inr ⟨rfl, .closed w⟩)

end TcpServer
end Reactor
end Rins
