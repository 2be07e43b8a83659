import Mathlib.Data.List.Nodup
import Rins.Reactor.ConnInvariant

/-!
# ConnExact — the connection table and its counter are exact

The steps of `do_accept`, of `deal_task_message` and of the event loops keep the invariant, and so
does every run.
-/

namespace Rins
namespace Reactor
namespace TcpServer

open Lib

variable {n : Nat}

/-! ## The steps of `do_accept` and of the loops -/

/-- A step of `do_accept` that touches no connection. -/
theorem Threads.frame {s t : TcpServer n} (h : s.Threads) (hobjs : t.objs = s.objs)
    (hloops : t.loops = s.loops)
    (hpcs : ∀ w c m, t.pcs w = .conn c m ↔ s.pcs w = .conn c m) : t.Threads := by
  refine ⟨?_, ?_, ?_, ?_⟩
  · intro w c m hpc
    rw [hobjs, hloops]
    exact h.busy w c m ((hpcs w c m).1 hpc)
  · intro c obj hobj hidle
    rw [hobjs] at hobj
    exact h.resting c obj hobj fun m hpc => hidle m ((hpcs obj.loop c m).2 hpc)
  · rw [hobjs, hloops]
    exact h.calls
  · rw [hobjs, hloops]
    exact h.listens

theorem setMain_conn {s : TcpServer n} {pc : ThreadPc} (hbefore : ∀ c m, s.pcs .main ≠ .conn c m)
    (hafter : ∀ c m, pc ≠ .conn c m) (w : Thread n) (c : Nat) (m : ConnMethod) :
    Function.update s.pcs .main pc w = .conn c m ↔ s.pcs w = .conn c m := by
  by_cases hw : w = .main
  · subst hw
    rw [Function.update_self]
    exact iff_of_false (hafter c m) (hbefore c m)
  · rw [Function.update_of_ne hw]

theorem Exact.accept {s : TcpServer n} (h : s.Exact) {connfd : Int} (hpc : s.pcs .main = .idle)
    (hnew : connfd ∉ s.openFds) (hfd : 0 ≤ connfd) :
    Exact ({ s with openFds := insert connfd s.openFds }.setPc .main (.accepted connfd)) := by
  rcases h.held with ⟨holder, hheld⟩
  -- a number that is not in use is nobody's, so it cannot be in a queue or on a connection
  have hnone : holder connfd = .none := by
    by_contra hsome
    exact hnew ((hheld.opened connfd).2 hsome)
  refine ⟨⟨_, hheld.pass connfd .acceptor (by simp [TcpServer.setPc]) ?_ ?_ ?_
    hheld.nodup ?_⟩, ?_, ⟨h.listing.table, h.listing.counter⟩⟩
  · intro f hf
    simp [TcpServer.setPc, hf]
  · intro f hmain
    have hsame : connfd = f := by simpa [Accepting, TcpServer.setPc] using hmain
    exact Or.inl ⟨hsame.symm, rfl, hfd⟩
  · intro i f hqueue
    exact Or.inr ⟨hheld.queued_ne (by simp [hnone]) hqueue, hqueue⟩
  · intro c obj hobj hopen
    exact Or.inr ⟨hheld.conn_ne (by simp [hnone]) hobj hopen, hobj⟩
  · exact h.threads.frame rfl rfl (setMain_conn (by simp [hpc]) (by simp))

theorem Exact.getConnNum {s : TcpServer n} (h : s.Exact) {connfd : Int}
    (hpc : s.pcs .main = .accepted connfd) :
    (s.setPc .main (.counted connfd s.curConns)).Exact := by
  rcases h.held with ⟨holder, hheld⟩
  refine ⟨⟨holder, hheld.opened, ?_, hheld.queued, hheld.nodup, hheld.conn⟩, ?_,
    ⟨h.listing.table, h.listing.counter⟩⟩
  · intro fd hmain
    have hsame : connfd = fd := by simpa [Accepting, TcpServer.setPc] using hmain
    rw [← hsame]
    exact hheld.acceptor connfd (Or.inl hpc)
  · exact h.threads.frame rfl rfl (setMain_conn (by simp [hpc]) (by simp))

/-- The limit is reached. -/
theorem Exact.refuse {s : TcpServer n} (h : s.Exact) {connfd cur : Int}
    (hpc : s.pcs .main = .counted connfd cur) :
    Exact ({ s with openFds := s.openFds.erase connfd }.setPc .main .idle) := by
  rcases h.held with ⟨holder, hheld⟩
  have hmine := (hheld.acceptor connfd (Or.inr ⟨cur, hpc⟩)).1
  refine ⟨⟨_, hheld.pass connfd .none (by simp [TcpServer.setPc]) ?_ ?_ ?_
    hheld.nodup ?_⟩, ?_, ⟨h.listing.table, h.listing.counter⟩⟩
  · intro f hf
    simp [TcpServer.setPc, hf]
  · intro f hmain
    simp [Accepting, TcpServer.setPc] at hmain
  · intro i f hqueue
    exact Or.inr ⟨hheld.queued_ne (by simp [hmine]) hqueue, hqueue⟩
  · intro c obj hobj hopen
    exact Or.inr ⟨hheld.conn_ne (by simp [hmine]) hobj hopen, hobj⟩
  · exact h.threads.frame rfl rfl (setMain_conn (by simp [hpc]) (by simp))

/-- The descriptor goes into the queue of a worker. -/
theorem Exact.enqueue {s : TcpServer n} (h : s.Exact) {connfd cur : Int}
    (hpc : s.pcs .main = .counted connfd cur) (i : Fin n) (index : Nat) :
    Exact ({ s with
      queues := Function.update s.queues i (s.queues i ++ [connfd])
      index := index }.setPc .main .idle) := by
  rcases h.held with ⟨holder, hheld⟩
  rcases hheld.acceptor connfd (Or.inr ⟨cur, hpc⟩) with ⟨hmine, hfd⟩
  have hne : ∀ {j f}, f ∈ s.queues j → f ≠ connfd := hheld.queued_ne (by simp [hmine])
  refine ⟨⟨_, hheld.pass connfd (.queue i) ?_ (fun _ _ => Iff.rfl) ?_ ?_ ?_ ?_⟩, ?_,
    ⟨h.listing.table, h.listing.counter⟩⟩
  · simp [TcpServer.setPc, hheld.opened, hmine]
  · intro f hmain
    simp [Accepting, TcpServer.setPc] at hmain
  · intro j f hqueue
    change f ∈ Function.update s.queues i _ j at hqueue
    by_cases hj : j = i
    · subst hj
      rw [Function.update_self, List.mem_append, List.mem_singleton] at hqueue
      rcases hqueue with hold | rfl
      · exact Or.inr ⟨hne hold, hold⟩
      · exact Or.inl ⟨rfl, rfl, hfd⟩
    · rw [Function.update_of_ne hj] at hqueue
      exact Or.inr ⟨hne hqueue, hqueue⟩
  · intro j
    show (Function.update s.queues i _ j).Nodup
    by_cases hj : j = i
    · rw [hj, Function.update_self]
      refine List.nodup_append.2 ⟨hheld.nodup i, List.nodup_singleton connfd, ?_⟩
      intro a ha b hb
      rw [List.mem_singleton.1 hb]
      exact hne ha
    · rw [Function.update_of_ne hj]
      exact hheld.nodup j
  · intro c obj hobj hopen
    exact Or.inr ⟨hheld.conn_ne (by simp [hmine]) hobj hopen, hobj⟩
  · exact h.threads.frame rfl rfl (setMain_conn (by simp [hpc]) (by simp))

theorem getElem?_newObj {objs : List (ConnObj n)} {obj o : ConnObj n} {a : Nat}
    (h : (objs ++ [obj])[a]? = some o) :
    objs[a]? = some o ∨ (a = objs.length ∧ o = obj) := by
  rcases Nat.lt_trichotomy a objs.length with hlt | heq | hgt
  · rw [List.getElem?_append_left hlt] at h
    exact Or.inl h
  · rw [heq, List.getElem?_concat_length] at h
    exact Or.inr ⟨heq, (Option.some.inj h).symm⟩
  · rw [List.getElem?_eq_none_iff.2 (by simp; omega)] at h
    cases h

/-- The constructor of a connection begins. -/
theorem Threads.newConn {s : TcpServer n} (h : s.Threads) {w : Thread n} {connfd : Int}
    (hpc : ∀ c m, s.pcs w ≠ .conn c m) (hfd : 0 ≤ connfd) : (s.newConn w connfd).Threads := by
  have hold : ∀ {a : Nat} {o}, s.objs[a]? = some o →
      (s.newConn w connfd).objs[a]? = some o := by
    intro a o ho
    rw [← ho]
    exact List.getElem?_append_left (List.getElem?_eq_some_iff.1 ho).1
  refine ⟨?_, ?_, ?_, ?_⟩
  · intro w' c m hpc'
    change Function.update s.pcs w _ w' = _ at hpc'
    by_cases hww : w' = w
    · subst hww
      rw [Function.update_self] at hpc'
      cases hpc'
      exact ⟨_, List.getElem?_concat_length, .register connfd hfd⟩
    · rw [Function.update_of_ne hww] at hpc'
      rcases h.busy w' c m hpc' with ⟨obj, hobj, hbusy⟩
      exact ⟨obj, hold hobj, hbusy⟩
  · intro c obj hobj hidle
    change ∀ m, Function.update s.pcs w _ obj.loop ≠ _ at hidle
    rcases getElem?_newObj hobj with hobj | ⟨rfl, rfl⟩
    · -- an older connection of the thread: it was in none of its methods before
      refine h.resting c obj hobj fun m hpc' => ?_
      by_cases hww : obj.loop = w
      · exact hpc c m (hww ▸ hpc')
      · exact hidle m (by rw [Function.update_of_ne hww, hpc'])
    · exact absurd (Function.update_self ..) (hidle .register)
  · intro w' fd c hcall
    rcases h.calls w' fd c hcall with ⟨obj, hobj, hrest⟩
    exact ⟨obj, hold hobj, hrest⟩
  · intro w' fd hlisten
    rcases h.listens w' fd hlisten with ⟨c, obj, hobj, hrest⟩
    exact ⟨c, obj, hold hobj, hrest⟩

theorem Listing.newConn {s : TcpServer n} (h : s.Listing) (w : Thread n) (connfd : Int) :
    (s.newConn w connfd).Listing := by
  refine ⟨?_, ?_⟩
  · intro fd c
    show s.conns fd = .conn c ↔ _
    rw [h.table]
    constructor
    · rintro ⟨obj, hobj, hrest⟩
      refine ⟨obj, ?_, hrest⟩
      rw [← hobj]
      exact List.getElem?_append_left (List.getElem?_eq_some_iff.1 hobj).1
    · rintro ⟨obj, hobj, hlisted, hfd⟩
      rcases getElem?_newObj hobj with hobj | ⟨_, rfl⟩
      · exact ⟨obj, hobj, hlisted, hfd⟩
      · cases hlisted
  · show s.curConns = _
    simp [TcpServer.newConn, h.counter]

theorem Exact.newConn {s : TcpServer n} (h : s.Exact) {holder : Int → Holder n}
    (hheld : s.Held holder) {w : Thread n} {connfd : Int} (hpc : ∀ c m, s.pcs w ≠ .conn c m)
    (hfd : 0 ≤ connfd) (hopen : connfd ∈ s.openFds) (hfree : ∀ c, holder connfd ≠ .conn c)
    (hmain : w ≠ .main → ¬ s.Accepting connfd) (hqueues : ∀ i, connfd ∉ s.queues i) :
    (s.newConn w connfd).Exact := by
  refine ⟨⟨_, hheld.pass connfd (.conn s.objs.length) ?_ (fun _ _ => Iff.rfl) ?_ ?_
    hheld.nodup ?_⟩, h.threads.newConn hpc hfd, h.listing.newConn w connfd⟩
  · exact iff_of_true (by simp) hopen
  · intro f hf
    by_cases hw : w = .main
    · subst hw
      simp [Accepting, TcpServer.newConn] at hf
    · have hold : s.Accepting f := by
        simpa [Accepting, TcpServer.newConn, Function.update_of_ne (Ne.symm hw)] using hf
      refine Or.inr ⟨?_, hold⟩
      rintro rfl
      exact hmain hw hold
  · intro i f hqueue
    refine Or.inr ⟨?_, hqueue⟩
    rintro rfl
    exact hqueues i hqueue
  · intro c obj hobj hopen'
    rcases getElem?_newObj hobj with hobj | ⟨rfl, rfl⟩
    · exact Or.inr ⟨hheld.conn_ne hfree hobj hopen', hobj⟩
    · exact Or.inl ⟨rfl, rfl⟩

/-- A worker takes a descriptor from its queue. -/
theorem Exact.take {s : TcpServer n} (h : s.Exact) {i : Fin n} {connfd : Int} {queue : List Int}
    (hpc : s.pcs (.worker i) = .idle) (hqueue : s.queues i = connfd :: queue) :
    Exact ({ s with queues := Function.update s.queues i queue }.newConn (.worker i) connfd) := by
  rcases h.held with ⟨holder, hheld⟩
  have hnodup : connfd ∉ queue ∧ queue.Nodup := List.nodup_cons.1 (hqueue ▸ hheld.nodup i)
  rcases hheld.queued i connfd (by simp [hqueue]) with ⟨hmine, hfd⟩
  -- first the descriptor leaves the queue
  have hsub : ∀ {j f}, f ∈ Function.update s.queues i queue j → f ∈ s.queues j := by
    intro j f hf
    by_cases hj : j = i
    · subst hj
      rw [Function.update_self] at hf
      simp [hqueue, hf]
    · rwa [Function.update_of_ne hj] at hf
  have hheld' : Held { s with queues := Function.update s.queues i queue } holder := by
    refine ⟨hheld.opened, hheld.acceptor, fun j f hf => hheld.queued j f (hsub hf), ?_, hheld.conn⟩
    intro j
    by_cases hj : j = i
    · subst hj
      simp [hnodup.2]
    · simp [Function.update_of_ne hj, hheld.nodup j]
  have h' : Exact { s with queues := Function.update s.queues i queue } :=
    ⟨⟨holder, hheld'⟩, h.threads.frame rfl rfl (fun _ _ _ => Iff.rfl),
      ⟨h.listing.table, h.listing.counter⟩⟩
  refine h'.newConn hheld' (by simp [hpc]) hfd ?_ (by simp [hmine]) ?_ ?_
  · exact (hheld.opened connfd).2 (by simp [hmine])
  · intro _ hmain
    have hold := (hheld.acceptor connfd hmain).1
    rw [hmine] at hold
    cases hold
  · intro j hf
    by_cases hj : j = i
    · subst hj
      simp [hnodup.1] at hf
    · have hold := (hheld.queued j connfd (hsub hf)).1
      rw [hmine] at hold
      cases hold
      exact hj rfl

/-- The loop of a thread changes, between two methods or in a callback. -/
theorem Exact.changeLoop {s : TcpServer n} (h : s.Exact) {w : Thread n}
    {f : EventLoop Nat → EventLoop Nat}
    (hbusy : ∀ c m obj, s.pcs w = .conn c m → Busy (s.loops w) w obj m →
      Busy (f (s.loops w)) w obj m)
    (hcalls : ∀ fd a, (f (s.loops w)).Calls fd a → OnLoop s.objs w fd a)
    (hlistens : ∀ fd ∈ (f (s.loops w)).listenFds, ∃ a, OnLoop s.objs w fd a) :
    (s.onLoop w f).Exact := by
  refine ⟨?_, ⟨?_, h.threads.resting, ?_, ?_⟩, ⟨h.listing.table, h.listing.counter⟩⟩
  · rcases h.held with ⟨holder, hheld⟩
    exact ⟨holder, hheld.opened, hheld.acceptor, hheld.queued, hheld.nodup, hheld.conn⟩
  · intro w' c m hpc
    show ∃ obj, s.objs[c]? = some obj ∧ Busy (Function.update s.loops w _ w') w' obj m
    rcases h.threads.busy w' c m hpc with ⟨obj, hobj, hold⟩
    refine ⟨obj, hobj, ?_⟩
    by_cases hww : w' = w
    · subst hww
      rw [Function.update_self]
      exact hbusy c m obj hpc hold
    · rw [Function.update_of_ne hww]
      exact hold
  · intro w' fd c hcall
    change (Function.update s.loops w _ w').Calls fd c at hcall
    by_cases hww : w' = w
    · subst hww
      rw [Function.update_self] at hcall
      exact hcalls fd c hcall
    · rw [Function.update_of_ne hww] at hcall
      exact h.threads.calls w' fd c hcall
  · intro w' fd hlisten
    change fd ∈ (Function.update s.loops w _ w').listenFds at hlisten
    by_cases hww : w' = w
    · subst hww
      rw [Function.update_self] at hlisten
      exact hlistens fd hlisten
    · rw [Function.update_of_ne hww] at hlisten
      exact h.threads.listens w' fd hlisten

/-- `send_message` on a connection of the thread's own loop. -/
theorem Exact.armWrite {s t : TcpServer n} (h : s.Exact) {w : Thread n} {fd : Int} {c : Nat}
    {ctl : Bool} (hc : OnLoop s.objs w fd c)
    (hbusy : ∀ c m obj loop, s.pcs w = .conn c m → Busy (s.loops w) w obj m → Busy loop w obj m)
    (hstep : s.armWrite c ctl = some t) : t.Exact := by
  have hon := hc
  rcases hc with ⟨obj, hobj, rfl, rfl, _⟩
  simp only [TcpServer.armWrite, hobj, Option.map_some, Option.some.injEq] at hstep
  subst hstep
  rcases h.threads.addIoEvent hon .epollout ctl with ⟨hcalls, hlistens⟩
  exact h.changeLoop (fun c m obj hpc hold => hbusy c m obj _ hpc hold) hcalls hlistens

theorem inCallback_busy {loop : EventLoop Nat} (loop' : EventLoop Nat) {w : Thread n}
    {pc : ThreadPc} {a c : Nat} {m : ConnMethod} {obj : ConnObj n}
    (hcb : inCallback pc = some a) (hpc : pc = .conn c m)
    (hbusy : Busy loop w obj m) : a = c ∧ 0 ≤ obj.connfd ∧ Busy loop' w obj m := by
  subst hpc
  cases hbusy with
  | connStart fd hfd =>
      exact ⟨(Option.some.inj hcb).symm, hfd, .connStart fd hfd⟩
  | connClose fd hfd =>
      exact ⟨(Option.some.inj hcb).symm, hfd, .connClose fd hfd⟩
  | _ =>
      -- there is no callback at the other places
      cases hcb

theorem Exact.send {s t : TcpServer n} (h : s.Exact) {w : Thread n} {ctl : Bool}
    (hstep : s.step (.send w ctl) = some t) : t.Exact := by
  rcases Option.bind_eq_some_iff.1 hstep with ⟨c, hcb, harm⟩
  -- the thread is in a method of the connection it sends on
  cases hpc : s.pcs w with
  | idle | accepted connfd | counted connfd cur =>
      rw [hpc] at hcb
      cases hcb
  | conn a m =>
      rcases h.threads.busy w a m hpc with ⟨obj, hobj, hbusy⟩
      rcases inCallback_busy (s.loops w) hcb hpc hbusy with ⟨rfl, hfd, _⟩
      refine h.armWrite ⟨obj, hobj, hbusy.loop_eq, rfl, hfd⟩ ?_ harm
      intro c' m' obj' loop hpc' hbusy'
      exact (inCallback_busy loop hcb hpc' hbusy').2.2

/-- A fired event comes to an open connection of the thread that is between two methods. -/
theorem Threads.fire {s : TcpServer n} (h : s.Threads) {w : Thread n} {fd : Int} {c : Nat}
    (hpc : s.pcs w = .idle) (hon : OnLoop s.objs w fd c) :
    0 ≤ fd ∧ s.objs[c]? = some ⟨fd, w, true, 0⟩ := by
  rcases hon with ⟨obj, hobj, hloop, hsame, hfd⟩
  have hrest := h.resting c obj hobj (by simp [hloop, hpc])
  cases hrest with
  | opened fd' hfd' w' =>
      cases hloop
      cases hsame
      exact ⟨hfd, hobj⟩
  | closed w' =>
      -- a closed connection has no descriptor that an event could be for
      simp only at hsame
      omega

theorem Exact.beginEvent {s : TcpServer n} (h : s.Exact) {w : Thread n} {fd : Int} {c : Nat}
    (hpc : s.pcs w = .idle) (hfd : 0 ≤ fd) (hobj : s.objs[c]? = some ⟨fd, w, true, 0⟩)
    (sends : Nat) (fin : EventEnd) :
    (s.setPc w (.conn c (.event (eventEffects fd sends fin)))).Exact := by
  refine ⟨?_, ⟨?_, ?_, h.threads.calls, h.threads.listens⟩,
    ⟨h.listing.table, h.listing.counter⟩⟩
  · rcases h.held with ⟨holder, hheld⟩
    refine ⟨holder, hheld.opened, ?_, hheld.queued, hheld.nodup, hheld.conn⟩
    intro f hf
    by_cases hw : w = .main
    · subst hw
      simp [Accepting, TcpServer.setPc] at hf
    · refine hheld.acceptor f ?_
      simpa [Accepting, TcpServer.setPc, Function.update_of_ne (Ne.symm hw)] using hf
  · intro w' a m hpc'
    change Function.update s.pcs w _ w' = _ at hpc'
    by_cases hww : w' = w
    · subst hww
      rw [Function.update_self] at hpc'
      cases hpc'
      exact ⟨_, hobj, .event fd hfd sends fin⟩
    · rw [Function.update_of_ne hww] at hpc'
      exact h.threads.busy w' a m hpc'
  · intro a obj ho hidle
    change ∀ m, Function.update s.pcs w _ obj.loop ≠ _ at hidle
    refine h.threads.resting a obj ho fun m hpc' => ?_
    by_cases hww : obj.loop = w
    · rw [hww, hpc] at hpc'
      cases hpc'
    · exact hidle m (by rw [Function.update_of_ne hww, hpc'])

theorem Exact.fire {s t : TcpServer n} (h : s.Exact) {w : Thread n} {fd : Int}
    {fired : FiredEvents} {sends : Nat} {fin : EventEnd}
    (hstep : s.step (.fire w fd fired sends fin) = some t) : t.Exact := by
  simp only [step] at hstep
  split_ifs at hstep with hpc
  -- the two kinds of callbacks come to the same
  have hevent : ∀ {c}, (s.loops w).Calls fd c →
      ((s.objs[c]?).map fun obj =>
        s.setPc w (.conn c (.event (eventEffects obj.connfd sends fin)))) = some t → t.Exact := by
    intro c hcalls ht
    rcases h.threads.fire hpc (h.threads.calls w fd c hcalls) with ⟨hfd, hobj⟩
    rw [hobj, Option.map_some] at ht
    cases ht
    exact h.beginEvent hpc hfd hobj sends fin
  split at hstep
  · cases hstep
  · next c hdispatch =>
      exact hevent (EventLoop.dispatch_calls (Or.inl hdispatch)) hstep
  · next c hdispatch =>
      exact hevent (EventLoop.dispatch_calls (Or.inr hdispatch)) hstep
  · -- an error that nobody wants to hear of
    cases hstep
    refine h.changeLoop ?_ ?_ ?_
    · intro c m obj hconn
      rw [hpc] at hconn
      cases hconn
    · intro f a hcall
      exact h.threads.calls w f a (EventLoop.calls_delIoEvent hcall).2
    · intro f hlisten
      exact h.threads.listens w f (Finset.mem_of_mem_erase hlisten)
  · cases hstep
    exact h

theorem Exact.push {s t : TcpServer n} (h : s.Exact) {w : Thread n} {fd : Int} {ctl : Bool}
    (hstep : s.step (.push w fd ctl) = some t) : t.Exact := by
  simp only [step] at hstep
  split_ifs at hstep with hpush
  rcases hpush with ⟨hpc, hlisten⟩
  split at hstep
  · next c hslot =>
      -- the connection in the table is the one on the loop
      rcases h.held with ⟨holder, hheld⟩
      rcases h.threads.listens w fd hlisten with ⟨a, o, ho, hloop, hsame, hfd⟩
      rcases (h.listing.table fd c).1 hslot with ⟨obj, hobj, _, hfd'⟩
      have hac : a = c := hheld.unique ho hobj (hsame.trans hfd'.symm) (by omega)
      subst hac
      refine h.armWrite ⟨o, ho, hloop, hsame, hfd⟩ ?_ hstep
      intro c' m obj' loop hconn
      rw [hpc] at hconn
      cases hconn
  · cases hstep
    exact h
  · cases hstep

theorem Exact.handOver {s t : TcpServer n} (h : s.Exact)
    (hstep : s.step .handOver = some t) : t.Exact := by
  simp only [step] at hstep
  split at hstep
  · next connfd cur hpc =>
      split_ifs at hstep with hlimit hpool hi
      · cases hstep
        exact h.refuse hpc
      · cases hstep
        exact h.enqueue hpc _ _
      · cases hstep
        rcases h.held with ⟨holder, hheld⟩
        rcases hheld.acceptor connfd (Or.inr ⟨cur, hpc⟩) with ⟨hmine, hfd⟩
        -- without a pool the main thread makes the connection itself
        refine h.newConn hheld (by simp [hpc]) hfd ?_ (by simp [hmine])
          (fun hne => absurd rfl hne) ?_
        · exact (hheld.opened connfd).2 (by simp [hmine])
        · intro i hqueue
          exact hheld.queued_ne (by simp [hmine]) hqueue rfl
  · cases hstep

theorem step_exact {s t : TcpServer n} {a : Act n} (h : s.Exact) (hstep : s.step a = some t) :
    t.Exact := by
  cases a with
  | accept connfd =>
      simp only [step] at hstep
      split_ifs at hstep with hnew
      cases hstep
      exact h.accept hnew.1 hnew.2.1 hnew.2.2.1
  | getConnNum =>
      simp only [step] at hstep
      split at hstep
      · next connfd hpc =>
          cases hstep
          exact h.getConnNum hpc
      · cases hstep
  | handOver =>
      exact h.handOver hstep
  | take i =>
      simp only [step] at hstep
      split at hstep
      · next connfd queue hpc hqueue =>
          cases hstep
          exact h.take hpc hqueue
      · cases hstep
  | next w ctl =>
      simp only [step] at hstep
      split at hstep
      · next c m hpc =>
          rcases Option.bind_eq_some_iff.1 hstep with ⟨obj, hobj, hmethod⟩
          exact h.methodStep hpc hobj hmethod
      · cases hstep
  | send w ctl =>
      exact h.send hstep
  | fire w fd fired sends fin =>
      exact h.fire hstep
  | push w fd ctl =>
      exact h.push hstep

/-! ## The table is exact -/

/-- Between constructors and `clean_conn`s, a connection is listed if and only if it is open. -/
theorem Threads.listed_iff {s : TcpServer n} (h : s.Threads)
    (hquiet : ∀ w, ¬ (s.pcs w).InProgress) {c : Nat} {obj : ConnObj n}
    (hobj : s.objs[c]? = some obj) : obj.listed = true ↔ obj.connfd ≠ -1 := by
  by_cases hidle : ∀ m, s.pcs obj.loop ≠ .conn c m
  · cases h.resting c obj hobj hidle with
    | opened fd hfd w =>
        simp only [true_iff]
        omega
    | closed w =>
        simp
  · -- the only method that may be going on is `do_read` or `do_write`
    rcases not_forall.1 hidle with ⟨m, hm⟩
    have hpc : s.pcs obj.loop = .conn c m := not_not.1 hm
    have hevent := hquiet obj.loop
    rcases h.busy _ c m hpc with ⟨o, ho, hbusy⟩
    rw [hobj] at ho
    cases ho
    rw [hpc] at hevent
    generalize hw : obj.loop = w at hbusy
    cases m with
    | event effects =>
        cases hbusy with
        | event fd hfd sends fin =>
            simp only [true_iff]
            omega
    | register => exact absurd trivial hevent
    | connStart => exact absurd trivial hevent
    | increase => exact absurd trivial hevent
    | clean effects => exact absurd trivial hevent

/-- `clean_conn` is called at most once. -/
theorem Threads.cleans_le {s : TcpServer n} (h : s.Threads) {c : Nat} {obj : ConnObj n}
    (hobj : s.objs[c]? = some obj) : obj.cleans ≤ 1 := by
  by_cases hidle : ∀ m, s.pcs obj.loop ≠ .conn c m
  · cases h.resting c obj hobj hidle <;> simp
  · rcases not_forall.1 hidle with ⟨m, hm⟩
    rcases h.busy _ c m (not_not.1 hm) with ⟨o, ho, hbusy⟩
    rw [hobj] at ho
    cases ho
    generalize hw : obj.loop = w at hbusy
    cases hbusy <;> simp

/-- Whatever the accept thread and the workers do, and in whatever order: while no constructor and
no `clean_conn` is in progress, the entry of every open connection is the connection, no closed one
is in the table, and the counter is the number of open connections.  No connection is cleaned
twice. -/
theorem connTable_exact (maxConns : Int) (base : Finset Int) (acts : List (Act n))
    (s : TcpServer n) (hrun : run step (init n maxConns base) acts = some s) :
    ((∀ w, ¬ (s.pcs w).InProgress) →
      (∀ (c : Nat) (obj : ConnObj n), s.objs[c]? = some obj → obj.connfd ≠ -1 →
        s.conns obj.connfd = .conn c) ∧
      (∀ (fd : Int) (c : Nat), s.conns fd = .conn c →
        ∃ obj, s.objs[c]? = some obj ∧ obj.connfd = fd ∧ obj.connfd ≠ -1) ∧
      s.curConns = s.objs.countP (·.connfd ≠ -1)) ∧
    ∀ (c : Nat) (obj : ConnObj n), s.objs[c]? = some obj → obj.cleans ≤ 1 := by
  have h : s.Exact := run_invariant_always (fun _ _ _ => step_exact) (init_exact _ _) hrun
  refine ⟨fun hquiet => ⟨?_, ?_, ?_⟩, fun c obj hobj => h.threads.cleans_le hobj⟩
  · intro c obj hobj hopen
    have hlisted := (h.threads.listed_iff hquiet hobj).2 hopen
    exact (h.listing.table _ c).2 ⟨obj, hobj, hlisted, rfl⟩
  · intro fd c hslot
    rcases (h.listing.table fd c).1 hslot with ⟨obj, hobj, hlisted, hfd⟩
    exact ⟨obj, hobj, hfd, (h.threads.listed_iff hquiet hobj).1 hlisted⟩
  · rw [h.listing.counter]
    congr 1
    refine List.countP_congr fun obj hmem => ?_
    rcases List.getElem?_of_mem hmem with ⟨c, hobj⟩
    simpa using h.threads.listed_iff hquiet hobj

/-- A descriptor that is closed by one worker and handed over to the other. -/
def recycled : List (Act 2) :=
  let first : Fin 2 := ⟨0, Nat.zero_lt_two⟩
  let second : Fin 2 := ⟨1, Nat.one_lt_two⟩
  List.flatten
    [[.accept 4, .getConnNum, .handOver, .take first],
      List.replicate 3 (.next (.worker first) true),
      [.fire (.worker first) 4 ⟨true, false, false⟩ 1 .cleaned],
      List.replicate 6 (.next (.worker first) true),
      -- the last effect of `clean_conn` is done, and `clean_conn` has not returned
      [.accept 4, .getConnNum, .handOver, .take second],
      List.replicate 3 (.next (.worker second) true),
      [.next (.worker first) true]]

theorem connTable_exact_recycled :
    ∃ s, run step (init 2 3 {0, 1, 2, 3}) recycled = some s ∧ s.conns 4 = .conn 1 ∧
      s.curConns = 1 := by
  have hcheck : (run step (init 2 3 {0, 1, 2, 3}) recycled).map (fun s =>
      ((s.pcs .main, s.pcs (.worker 0), s.pcs (.worker 1)), s.objs.map (·.connfd))) =
      some ((.idle, .idle, .idle), [-1, 4]) := by
    decide +kernel
  rcases Option.map_eq_some_iff.1 hcheck with ⟨s, hrun, hs⟩
  simp only [Prod.mk.injEq] at hs
  rcases hs with ⟨⟨hmain, hfirst, hsecond⟩, hfds⟩
  have hquiet : ∀ w, ¬ (s.pcs w).InProgress := by
    intro w
    match w with
    | .main => simp [hmain, ThreadPc.InProgress]
    | .worker 0 => simp [hfirst, ThreadPc.InProgress]
    | .worker 1 => simp [hsecond, ThreadPc.InProgress]
  rcases (connTable_exact 3 {0, 1, 2, 3} recycled s hrun).1 hquiet with ⟨htable, _, hcounter⟩
  rcases List.map_eq_cons_iff.1 hfds with ⟨closed, rest, hobjs, hclosed, hrest⟩
  rcases List.map_eq_singleton_iff.1 hrest with ⟨opened, hrest', hopened⟩
  rw [hobjs, hrest'] at htable hcounter
  refine ⟨s, hrun, ?_, ?_⟩
  · have hslot := htable 1 opened rfl (by rw [hopened]; decide)
    rwa [hopened] at hslot
  · simpa [hclosed, hopened] using hcounter

end TcpServer
end Reactor
end Rins
