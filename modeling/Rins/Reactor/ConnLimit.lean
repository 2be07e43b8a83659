import Mathlib.Algebra.BigOperators.Fin
import Rins.Reactor.ConnExact

/-!
# ConnLimit — the limit on connections and the size of their table

`do_accept` compares `_cur_conns` with `_max_conns` on its own thread, and the counter is raised by
a worker, later.  The table has `_max_conns + 3` entries, and its index is the number of a
descriptor.  Neither the limit nor the size of the table holds for every run.

This module says what each step does to the descriptors that are on their way to a connection, and
for which runs the counter stays below the limit and the index inside the table.
-/

namespace Rins
namespace Reactor
namespace TcpServer

open Lib

variable {n : Nat}

/-! ## The kernel chooses the descriptor -/

/-- A step under a rule for the number that the kernel hands out.  In contrast to `step`, the table
need not have a place for the number. -/
def kernelStep (rule : Finset Int → Int → Prop) [DecidableRel rule] (s : TcpServer n) :
    Act n → Option (TcpServer n)
  | .accept connfd =>
      if s.pcs .main = .idle ∧ connfd ∉ s.openFds ∧ 0 ≤ connfd ∧ rule s.openFds connfd then
        some ({ s with openFds := insert connfd s.openFds }.setPc .main (.accepted connfd))
      else
        none
  | a => s.step a

/-- Any number that is not in use. -/
def AnyFree (_ : Finset Int) (_ : Int) : Prop :=
  True

instance : DecidableRel AnyFree :=
  fun _ _ => inferInstanceAs (Decidable True)

/-- The first so many descriptors. -/
def firstFds (count : Nat) : Finset Int :=
  (Finset.range count).image fun k : Nat => (k : Int)

/-- The lowest number that is not in use. -/
def LowestFree (openFds : Finset Int) (fd : Int) : Prop :=
  firstFds fd.toNat ⊆ openFds

instance : DecidableRel LowestFree :=
  fun openFds fd => inferInstanceAs (Decidable (firstFds fd.toNat ⊆ openFds))

section KernelStep

variable {rule : Finset Int → Int → Prop} [DecidableRel rule]

theorem kernelStep_cases {s t : TcpServer n} {a : Act n} (h : s.kernelStep rule a = some t) :
    (∃ connfd, a = .accept connfd ∧
      (s.pcs .main = .idle ∧ connfd ∉ s.openFds ∧ 0 ≤ connfd ∧ rule s.openFds connfd) ∧
      t = { s with openFds := insert connfd s.openFds }.setPc .main (.accepted connfd)) ∨
    ((∀ connfd, a ≠ .accept connfd) ∧ s.step a = some t) := by
  cases a with
  | accept connfd =>
      simp only [kernelStep] at h
      split_ifs at h with hnew
      cases h
      exact Or.inl ⟨connfd, rfl, hnew, rfl⟩
  | _ => exact Or.inr ⟨by simp, h⟩

theorem kernelStep_exact {s t : TcpServer n} {a : Act n} (h : s.Exact)
    (hstep : s.kernelStep rule a = some t) : t.Exact := by
  rcases kernelStep_cases hstep with ⟨connfd, _, ⟨hpc, hnew, hfd, _⟩, rfl⟩ | ⟨_, hstep⟩
  · exact h.accept hpc hnew hfd
  · exact step_exact h hstep

end KernelStep

/-! ## What a step does to the descriptors -/

/-- `do_accept` has read a count below the limit. -/
def letsThrough (s : TcpServer n) : Bool :=
  match s.pcs .main with
  | .counted _ curConns => curConns < s.maxConns
  | _ => false

/-- The connections whose constructor has not come to `increase_conn`. -/
def constructing (objs : List (ConnObj n)) : Nat :=
  objs.countP fun obj => !obj.listed && obj.cleans == 0

/-- The descriptors that were let through and that are not in the counter yet. -/
def coming (s : TcpServer n) : Nat :=
  (∑ i, (s.queues i).length) + constructing s.objs

/-- A method of a connection changes its entry and the counter. -/
structure MethodMove (s t : TcpServer n) (c : Nat) (obj obj' : ConnObj n) : Prop where
  found : s.objs[c]? = some obj
  changed : t.objs = s.objs.set c obj'
  connfd : obj'.connfd = obj.connfd ∨ obj'.connfd = -1
  queued : t.queues = s.queues
  /-- the counter goes up only with a connection that stops being one that is on its way -/
  count : t.curConns + constructing [obj'] ≤ s.curConns + constructing [obj]
  main : ∀ fd, t.Accepting fd → s.Accepting fd

/-- The ways in which a step can move a descriptor on, from `accept` to the `close` in
`clean_conn`. -/
inductive Moved (s : TcpServer n) (a : Act n) (t : TcpServer n) : Prop
  | stays (hobjs : t.objs = s.objs) (hqueues : t.queues = s.queues)
      (hcur : t.curConns = s.curConns) (hmain : ∀ fd, t.Accepting fd → s.Accepting fd)
  /-- `do_accept` lets a descriptor through, to a worker -/
  | queued (i : Fin n) (fd : Int) (ha : a = .handOver) (hlets : s.letsThrough = true)
      (haccepting : s.Accepting fd) (hobjs : t.objs = s.objs)
      (hqueues : t.queues = Function.update s.queues i (s.queues i ++ [fd]))
      (hcur : t.curConns = s.curConns) (hmain : ∀ f, ¬ t.Accepting f)
  /-- `do_accept` lets a descriptor through, without a pool -/
  | made (fd : Int) (ha : a = .handOver) (hlets : s.letsThrough = true)
      (haccepting : s.Accepting fd) (hobjs : t.objs = s.objs ++ [⟨fd, .main, false, 0⟩])
      (hqueues : t.queues = s.queues) (hcur : t.curConns = s.curConns)
      (hmain : ∀ f, ¬ t.Accepting f)
  | taken (i : Fin n) (fd : Int) (queue : List Int) (hqueue : s.queues i = fd :: queue)
      (hobjs : t.objs = s.objs ++ [⟨fd, .worker i, false, 0⟩])
      (hqueues : t.queues = Function.update s.queues i queue) (hcur : t.curConns = s.curConns)
      (hmain : ∀ f, t.Accepting f → s.Accepting f)
  | method (c : Nat) (obj obj' : ConnObj n) (hmove : MethodMove s t c obj obj')

/-- A step that changes no more than the loops and where a thread other than the accepting one
is. -/
theorem accepting_update {s t : TcpServer n} {w : Thread n} {pc : ThreadPc}
    (hpcs : t.pcs = Function.update s.pcs w pc)
    (hpc : ∀ fd, pc ≠ .accepted fd ∧ ∀ cur, pc ≠ .counted fd cur) (fd : Int)
    (h : t.Accepting fd) : s.Accepting fd := by
  unfold Accepting at h ⊢
  rw [hpcs] at h
  by_cases hw : w = .main
  · subst hw
    simp only [Function.update_self] at h
    rcases h with h | ⟨cur, h⟩
    · exact absurd h (hpc fd).1
    · exact absurd h ((hpc fd).2 cur)
  · simpa [Function.update_of_ne (Ne.symm hw)] using h

theorem methodStep_moved {s t : TcpServer n} (h : s.Exact) {w : Thread n} {c : Nat}
    {m : ConnMethod} {obj : ConnObj n} {ctl : Bool} (hpc : s.pcs w = .conn c m)
    (hobj : s.objs[c]? = some obj) (hstep : s.methodStep w c obj ctl m = some t) (a : Act n) :
    t.maxConns = s.maxConns ∧ Moved s a t := by
  rcases h.threads.busy w c m hpc with ⟨o, ho, hbusy⟩
  rw [hobj] at ho
  cases ho
  cases hbusy with
  | register fd hfd =>
      cases hstep
      exact ⟨rfl, .stays rfl rfl rfl (accepting_update rfl (by simp))⟩
  | connStart fd hfd =>
      cases hstep
      exact ⟨rfl, .stays rfl rfl rfl (accepting_update rfl (by simp))⟩
  | increase fd hfd =>
      cases hstep
      refine ⟨rfl, .method c _ _ ⟨hobj, rfl, Or.inl rfl, rfl, ?_, accepting_update rfl (by simp)⟩⟩
      simp [setPc, setObj, increaseConn, constructing]
  | event fd hfd sends fin =>
      cases sends with
      | succ sends =>
          cases hstep
          exact ⟨rfl, .stays rfl rfl rfl (accepting_update rfl (by simp))⟩
      | zero =>
          cases fin with
          | returned =>
              cases hstep
              exact ⟨rfl, .stays rfl rfl rfl (accepting_update rfl (by simp))⟩
          | drained =>
              cases hstep
              exact ⟨rfl, .stays rfl rfl rfl (accepting_update rfl (by simp))⟩
          | cleaned =>
              cases hstep
              refine ⟨rfl, .method c _ _
                ⟨hobj, rfl, Or.inl rfl, rfl, ?_, accepting_update rfl (by simp)⟩⟩
              simp [setPc, setObj, constructing]
  | connClose fd hfd =>
      cases hstep
      exact ⟨rfl, .stays rfl rfl rfl (accepting_update rfl (by simp))⟩
  | decrease fd hfd =>
      cases hstep
      refine ⟨rfl, .method c _ _ ⟨hobj, rfl, Or.inl rfl, rfl, ?_, accepting_update rfl (by simp)⟩⟩
      simp [setPc, setObj, decreaseConn, constructing]
  | delete fd hfd =>
      cases hstep
      exact ⟨rfl, .stays rfl rfl rfl (accepting_update rfl (by simp))⟩
  | close fd hfd hcalls hfds =>
      cases hstep
      refine ⟨rfl, .method c _ _ ⟨hobj, rfl, Or.inr rfl, rfl, ?_, accepting_update rfl (by simp)⟩⟩
      simp [setPc, setObj, constructing]
  | closed =>
      cases hstep
      exact ⟨rfl, .stays rfl rfl rfl (accepting_update rfl (by simp))⟩

theorem armWrite_moved {s t : TcpServer n} {c : Nat} {ctl : Bool}
    (h : s.armWrite c ctl = some t) (a : Act n) :
    t.maxConns = s.maxConns ∧ Moved s a t := by
  rcases Option.map_eq_some_iff.1 h with ⟨obj, _, rfl⟩
  exact ⟨rfl, .stays rfl rfl rfl fun _ h => h⟩

theorem handOver_moved {s t : TcpServer n} (hstep : s.step .handOver = some t) :
    t.maxConns = s.maxConns ∧ Moved s .handOver t := by
  simp only [step] at hstep
  split at hstep
  · next connfd cur hpc =>
      have haccepting : s.Accepting connfd := Or.inr ⟨cur, hpc⟩
      split_ifs at hstep with hlimit hpool hi
      · cases hstep
        exact ⟨rfl, .stays rfl rfl rfl (accepting_update rfl (by simp))⟩
      · cases hstep
        refine ⟨rfl, .queued _ connfd rfl ?_ haccepting rfl rfl rfl ?_⟩
        · simpa [letsThrough, hpc] using hlimit
        · simp [Accepting, setPc]
      · cases hstep
        refine ⟨rfl, .made connfd rfl ?_ haccepting rfl rfl rfl ?_⟩
        · simpa [letsThrough, hpc] using hlimit
        · simp [Accepting, newConn]
  · cases hstep

/-- Every step but `accept` is one of these. -/
theorem step_moved {s t : TcpServer n} {a : Act n} (h : s.Exact) (hstep : s.step a = some t)
    (ha : ∀ connfd, a ≠ .accept connfd) : t.maxConns = s.maxConns ∧ Moved s a t := by
  cases a with
  | accept connfd => exact absurd rfl (ha connfd)
  | getConnNum =>
      simp only [step] at hstep
      split at hstep
      · next connfd hpc =>
          cases hstep
          refine ⟨rfl, .stays rfl rfl rfl ?_⟩
          intro fd hmain
          have hsame : connfd = fd := by simpa [Accepting, setPc] using hmain
          exact Or.inl (hsame ▸ hpc)
      · cases hstep
  | handOver => exact handOver_moved hstep
  | take i =>
      simp only [step] at hstep
      split at hstep
      · next connfd queue hpc hqueue =>
          cases hstep
          exact ⟨rfl, .taken i connfd queue hqueue rfl rfl rfl (accepting_update rfl (by simp))⟩
      · cases hstep
  | next w ctl =>
      simp only [step] at hstep
      split at hstep
      · next c m hpc =>
          rcases Option.bind_eq_some_iff.1 hstep with ⟨obj, hobj, hmethod⟩
          exact methodStep_moved h hpc hobj hmethod _
      · cases hstep
  | send w ctl =>
      rcases Option.bind_eq_some_iff.1 hstep with ⟨c, _, harm⟩
      exact armWrite_moved harm _
  | fire w fd fired sends fin =>
      simp only [step] at hstep
      split_ifs at hstep
      split at hstep
      · cases hstep
      · rcases Option.map_eq_some_iff.1 hstep with ⟨obj, _, rfl⟩
        exact ⟨rfl, .stays rfl rfl rfl (accepting_update rfl (by simp))⟩
      · rcases Option.map_eq_some_iff.1 hstep with ⟨obj, _, rfl⟩
        exact ⟨rfl, .stays rfl rfl rfl (accepting_update rfl (by simp))⟩
      · cases hstep
        exact ⟨rfl, .stays rfl rfl rfl fun _ h => h⟩
      · cases hstep
        exact ⟨rfl, .stays rfl rfl rfl fun _ h => h⟩
  | push w fd ctl =>
      simp only [step] at hstep
      split_ifs at hstep
      split at hstep
      · exact armWrite_moved hstep _
      · cases hstep
        exact ⟨rfl, .stays rfl rfl rfl fun _ h => h⟩
      · cases hstep

/-! ## The limit -/

theorem constructing_append (objs : List (ConnObj n)) (obj : ConnObj n) :
    constructing (objs ++ [obj]) = constructing objs + constructing [obj] :=
  List.countP_append

theorem constructing_set {objs : List (ConnObj n)} {c : Nat} {obj : ConnObj n}
    (hobj : objs[c]? = some obj) (obj' : ConnObj n) :
    (constructing (objs.set c obj') : Int) + constructing [obj] =
      constructing objs + constructing [obj'] := by
  unfold constructing
  rw [countP_setObj _ hobj]
  simp only [List.countP_singleton, Nat.cast_ite, Nat.cast_one, Nat.cast_zero]
  omega

theorem sum_length_update (queues : Fin n → List Int) (i : Fin n) (queue : List Int) :
    (∑ j, (Function.update queues i queue j).length) + (queues i).length =
      (∑ j, (queues j).length) + queue.length := by
  have hsplit : ∀ f : Fin n → List Int,
      ∑ j, (f j).length = (f i).length + ∑ j ∈ Finset.univ.erase i, (f j).length := by
    intro f
    exact (Finset.add_sum_erase _ (fun j => (f j).length) (Finset.mem_univ i)).symm
  have hrest : ∑ j ∈ Finset.univ.erase i, (Function.update queues i queue j).length =
      ∑ j ∈ Finset.univ.erase i, (queues j).length := by
    refine Finset.sum_congr rfl fun j hj => ?_
    rw [Function.update_of_ne (Finset.ne_of_mem_erase hj)]
  rw [hsplit, hsplit queues, hrest, Function.update_self]
  omega

/-- The connections that are counted or on their way become more only when `do_accept` lets one
through. -/
theorem Moved.count_le {s t : TcpServer n} {a : Act n} (h : Moved s a t) :
    t.curConns + t.coming ≤ s.curConns + s.coming ∨
      (a = .handOver ∧ s.letsThrough = true ∧
        t.curConns + t.coming = s.curConns + s.coming + 1) := by
  unfold coming
  cases h with
  | stays hobjs hqueues hcur hmain =>
      rw [hobjs, hqueues, hcur]
      exact Or.inl le_rfl
  | queued i fd ha hlets haccepting hobjs hqueues hcur hmain =>
      refine Or.inr ⟨ha, hlets, ?_⟩
      have hsum := sum_length_update s.queues i (s.queues i ++ [fd])
      rw [List.length_append, List.length_singleton] at hsum
      rw [hobjs, hqueues, hcur]
      omega
  | made fd ha hlets haccepting hobjs hqueues hcur hmain =>
      refine Or.inr ⟨ha, hlets, ?_⟩
      rw [hobjs, hqueues, hcur, constructing_append]
      simp only [constructing, List.countP_singleton, Bool.not_false, beq_self_eq_true,
        Bool.and_self, if_true]
      omega
  | taken i fd queue hqueue hobjs hqueues hcur hmain =>
      refine Or.inl (le_of_eq ?_)
      have hsum := sum_length_update s.queues i queue
      rw [hqueue, List.length_cons] at hsum
      rw [hobjs, hqueues, hcur, constructing_append]
      simp only [constructing, List.countP_singleton, Bool.not_false, beq_self_eq_true,
        Bool.and_self, if_true]
      omega
  | method c obj obj' hmove =>
      refine Or.inl ?_
      have hset := constructing_set hmove.found obj'
      have hcount := hmove.count
      rw [hmove.changed, hmove.queued]
      omega

/-- When `do_accept` lets a connection through, there is room for it beside those that are counted
and those that are on their way. -/
def RoomLeft (s : TcpServer n) : Act n → Prop
  | .handOver => s.letsThrough = true → s.curConns + s.coming < s.maxConns
  | _ => True

instance (s : TcpServer n) : ∀ a, Decidable (s.RoomLeft a)
  | .handOver =>
      inferInstanceAs (Decidable (s.letsThrough = true → s.curConns + s.coming < s.maxConns))
  | .accept _ | .getConnNum | .take _ | .next _ _ | .send _ _ | .fire _ _ _ _ _ | .push _ _ _ =>
      inferInstanceAs (Decidable True)

/-- The invariant of the runs in which there always is room. -/
structure WithinLimit (maxConns : Int) (s : TcpServer n) : Prop where
  exact : s.Exact
  limit : s.maxConns = maxConns
  room : s.curConns + s.coming ≤ maxConns

theorem WithinLimit.step {rule : Finset Int → Int → Prop} [DecidableRel rule] {maxConns : Int}
    {s t : TcpServer n} {a : Act n} (h : s.WithinLimit maxConns) (hroom : s.RoomLeft a)
    (hstep : s.kernelStep rule a = some t) : t.WithinLimit maxConns := by
  have hexact := kernelStep_exact h.exact hstep
  rcases kernelStep_cases hstep with ⟨connfd, _, _, rfl⟩ | ⟨hother, hstep⟩
  · exact ⟨hexact, h.limit, h.room⟩
  · rcases step_moved h.exact hstep hother with ⟨hmax, hmoved⟩
    refine ⟨hexact, hmax.trans h.limit, ?_⟩
    rcases hmoved.count_le with hle | ⟨rfl, hlets, hone⟩
    · exact hle.trans h.room
    · have hlt := hroom hlets
      rw [h.limit] at hlt
      omega

/-- The descriptors of a server with `n` workers before the first connection: the standard ones,
those of the main loop and of the listening socket, and two for each worker. -/
def serverFds (n : Nat) : Finset Int :=
  firstFds (5 + 2 * n)

/-- In a run in which every connection that `do_accept` lets through has room, beside those that
are counted and those on their way to a worker, the counter never exceeds the limit. -/
theorem curConns_le_maxConns (maxConns : Int) (hmax : 0 ≤ maxConns) (base : Finset Int)
    (acts : List (Act n))
    (hroom : Meets (kernelStep AnyFree) RoomLeft (init n maxConns base) acts) (s : TcpServer n)
    (hrun : run (kernelStep AnyFree) (init n maxConns base) acts = some s) :
    s.curConns ≤ s.maxConns := by
  have hinit : (init n maxConns base).WithinLimit maxConns :=
    ⟨init_exact _ _, rfl, by simpa [init, coming, constructing] using hmax⟩
  have h : s.WithinLimit maxConns :=
    run_invariant (fun _ _ _ h hroom hstep => h.step hroom hstep) hinit hroom hrun
  rw [h.limit]
  have := h.room
  omega

/-- One connection after the other, through a worker. -/
def oneByOne : List (Act 1) :=
  let worker : Fin 1 := ⟨0, Nat.one_pos⟩
  List.flatten
    [[.accept 7, .getConnNum, .handOver, .take worker],
      List.replicate 3 (.next (.worker worker) true),
      -- the limit is reached
      [.accept 8, .getConnNum, .handOver]]

theorem curConns_le_maxConns_oneByOne :
    ∃ s, run (kernelStep AnyFree) (init 1 1 (serverFds 1)) oneByOne = some s ∧
      s.objs.length = 1 ∧ s.curConns ≤ s.maxConns := by
  have hcheck : (run (kernelStep AnyFree) (init 1 1 (serverFds 1)) oneByOne).map
      (fun s => s.objs.length) = some 1 := by
    decide +kernel
  rcases Option.map_eq_some_iff.1 hcheck with ⟨s, hrun, hobjs⟩
  exact ⟨s, hrun, hobjs,
    curConns_le_maxConns 1 (by decide) (serverFds 1) oneByOne (by decide +kernel) s hrun⟩

/-- Two connections are let through before the worker counts the first. -/
def bothLetThrough : List (Act 1) :=
  let worker : Fin 1 := ⟨0, Nat.one_pos⟩
  List.flatten
    [[.accept 7, .getConnNum, .handOver, .accept 8, .getConnNum, .handOver],
      [.take worker], List.replicate 3 (.next (.worker worker) true),
      [.take worker], List.replicate 3 (.next (.worker worker) true)]

/-- With a limit of one connection and a single worker, there are two connections. -/
theorem curConns_exceeds_maxConns :
    ∃ s, run (kernelStep AnyFree) (init 1 1 (serverFds 1)) bothLetThrough = some s ∧
      s.maxConns = 1 ∧ s.curConns = 2 := by
  have hcheck : (run (kernelStep AnyFree) (init 1 1 (serverFds 1)) bothLetThrough).map
      (fun s => (s.maxConns, s.curConns)) = some (1, 2) := by
    decide +kernel
  rcases Option.map_eq_some_iff.1 hcheck with ⟨s, hrun, hs⟩
  simp only [Prod.mk.injEq] at hs
  exact ⟨s, hrun, hs⟩

/-! ## The size of the table -/

/-- A descriptor that will come to be the index of the table, or has been one. -/
def Carried (s : TcpServer n) (fd : Int) : Prop :=
  s.Accepting fd ∨ (∃ i, fd ∈ s.queues i) ∨
    ∃ (c : Nat) (obj : ConnObj n), s.objs[c]? = some obj ∧ obj.connfd = fd

/-- No step but `accept` brings in a descriptor. -/
theorem Moved.carried {s t : TcpServer n} {a : Act n} (h : Moved s a t) {fd : Int}
    (hfd : t.Carried fd) : s.Carried fd ∨ fd = -1 := by
  cases h with
  | stays hobjs hqueues hcur hmain =>
      unfold Carried at hfd ⊢
      rw [hobjs, hqueues] at hfd
      rcases hfd with hfd | hfd
      · exact Or.inl (Or.inl (hmain fd hfd))
      · exact Or.inl (Or.inr hfd)
  | queued i f ha hlets haccepting hobjs hqueues hcur hmain =>
      left
      rcases hfd with hfd | ⟨j, hfd⟩ | hfd
      · exact absurd hfd (hmain fd)
      · rw [hqueues] at hfd
        by_cases hj : j = i
        · rw [hj, Function.update_self, List.mem_append, List.mem_singleton] at hfd
          rcases hfd with hfd | rfl
          · exact Or.inr (Or.inl ⟨i, hfd⟩)
          · exact Or.inl haccepting
        · rw [Function.update_of_ne hj] at hfd
          exact Or.inr (Or.inl ⟨j, hfd⟩)
      · rw [hobjs] at hfd
        exact Or.inr (Or.inr hfd)
  | made f ha hlets haccepting hobjs hqueues hcur hmain =>
      left
      rcases hfd with hfd | hfd | ⟨c, obj, hobj, hfd⟩
      · exact absurd hfd (hmain fd)
      · rw [hqueues] at hfd
        exact Or.inr (Or.inl hfd)
      · rw [hobjs] at hobj
        rcases getElem?_newObj hobj with hobj | ⟨_, rfl⟩
        · exact Or.inr (Or.inr ⟨c, obj, hobj, hfd⟩)
        · exact Or.inl (hfd ▸ haccepting)
  | taken i f queue hqueue hobjs hqueues hcur hmain =>
      left
      rcases hfd with hfd | ⟨j, hfd⟩ | ⟨c, obj, hobj, hfd⟩
      · exact Or.inl (hmain fd hfd)
      · rw [hqueues] at hfd
        by_cases hj : j = i
        · rw [hj, Function.update_self] at hfd
          exact Or.inr (Or.inl ⟨i, by simp [hqueue, hfd]⟩)
        · rw [Function.update_of_ne hj] at hfd
          exact Or.inr (Or.inl ⟨j, hfd⟩)
      · rw [hobjs] at hobj
        rcases getElem?_newObj hobj with hobj | ⟨_, rfl⟩
        · exact Or.inr (Or.inr ⟨c, obj, hobj, hfd⟩)
        · exact Or.inr (Or.inl ⟨i, by simp [hqueue, ← hfd]⟩)
  | method c obj obj' hmove =>
      rcases hfd with hfd | hfd | ⟨a, o, ho, hfd⟩
      · exact Or.inl (Or.inl (hmove.main fd hfd))
      · rw [hmove.queued] at hfd
        exact Or.inl (Or.inr (Or.inl hfd))
      · rw [hmove.changed, getElem?_setObj hmove.found] at ho
        split_ifs at ho with hac
        · cases ho
          rcases hmove.connfd with hsame | hclosed
          · exact Or.inl (Or.inr (Or.inr ⟨c, obj, hmove.found, hsame.symm.trans hfd⟩))
          · exact Or.inr (hfd.symm.trans hclosed)
        · exact Or.inl (Or.inr (Or.inr ⟨a, o, ho, hfd⟩))

/-- The index at which a step writes to the table: `increase_conn` and `decrease_conn` do. -/
def tableIndex (s : TcpServer n) : Act n → Option Int
  | .next w _ =>
      match s.pcs w with
      | .conn c .increase => (s.objs[c]?).map (·.connfd)
      | .conn _ (.clean (.decreaseConn fd :: _)) => some fd
      | _ => none
  | _ => none

/-- The step does not write outside of the table. -/
def InTable (s : TcpServer n) (a : Act n) : Prop :=
  ∀ fd, s.tableIndex a = some fd → 0 ≤ fd ∧ fd < s.maxConns + 3

/-- When the kernel hands out a descriptor, fewer are open than the table has entries. -/
def DescriptorsLeft (s : TcpServer n) : Act n → Prop
  | .accept _ => s.openFds.card < s.maxConns + 3
  | _ => True

instance (s : TcpServer n) : ∀ a, Decidable (s.DescriptorsLeft a)
  | .accept _ => inferInstanceAs (Decidable (s.openFds.card < s.maxConns + 3))
  | .getConnNum | .handOver | .take _ | .next _ _ | .send _ _ | .fire _ _ _ _ _ | .push _ _ _ =>
      inferInstanceAs (Decidable True)

/-- The index is the descriptor of the connection that the thread is in a method of. -/
theorem Exact.tableIndex_carried {s : TcpServer n} (h : s.Exact) {a : Act n} {fd : Int}
    (hindex : s.tableIndex a = some fd) : 0 ≤ fd ∧ s.Carried fd := by
  cases a with
  | next w ctl =>
      simp only [tableIndex] at hindex
      split at hindex
      · next c hpc =>
          rcases Option.map_eq_some_iff.1 hindex with ⟨obj, hobj, rfl⟩
          rcases h.threads.busy w c _ hpc with ⟨o, ho, hbusy⟩
          rw [hobj] at ho
          cases ho
          refine ⟨?_, Or.inr (Or.inr ⟨c, obj, hobj, rfl⟩)⟩
          cases hbusy with
          | increase f hf => exact hf
      · next c f effects hpc =>
          cases hindex
          rcases h.threads.busy w c _ hpc with ⟨obj, hobj, hbusy⟩
          cases hbusy with
          | decrease _ hf => exact ⟨hf, Or.inr (Or.inr ⟨c, _, hobj, rfl⟩)⟩
      · cases hindex
  | _ => cases hindex

/-- A lowest free number is at most the number of those in use. -/
theorem LowestFree.le_card {openFds : Finset Int} {fd : Int} (h : LowestFree openFds fd)
    (hfd : 0 ≤ fd) : fd ≤ openFds.card := by
  calc
    fd
        = ((firstFds fd.toNat).card : Int) := by
          rw [firstFds, Finset.card_image_of_injective _ Nat.cast_injective, Finset.card_range]
          omega
    _ ≤ openFds.card := by
          exact_mod_cast Finset.card_le_card h

/-- The invariant of the runs in which descriptors are left. -/
structure WithinTable (maxConns : Int) (s : TcpServer n) : Prop where
  exact : s.Exact
  limit : s.maxConns = maxConns
  carried : ∀ fd, s.Carried fd → fd < maxConns + 3

theorem WithinTable.step {maxConns : Int} (hmax : 1 ≤ maxConns) {s t : TcpServer n} {a : Act n}
    (h : s.WithinTable maxConns) (hleft : s.DescriptorsLeft a)
    (hstep : s.kernelStep LowestFree a = some t) : t.WithinTable maxConns := by
  have hexact := kernelStep_exact h.exact hstep
  rcases kernelStep_cases hstep with ⟨connfd, rfl, ⟨_, _, hfd, hlowest⟩, rfl⟩ | ⟨hother, hstep⟩
  · refine ⟨hexact, h.limit, ?_⟩
    rintro fd (hmain | hfd')
    · have hsame : connfd = fd := by simpa [Accepting, setPc] using hmain
      have hleft' : (s.openFds.card : Int) < s.maxConns + 3 := hleft
      have hle := hlowest.le_card hfd
      rw [h.limit] at hleft'
      omega
    · exact h.carried fd (Or.inr hfd')
  · rcases step_moved h.exact hstep hother with ⟨hlimit, hmoved⟩
    refine ⟨hexact, hlimit.trans h.limit, ?_⟩
    intro fd hfd
    rcases hmoved.carried hfd with hold | rfl
    · exact h.carried fd hold
    · omega

/-- The kernel hands out the lowest descriptor that is free.  In a run in which, at every `accept`,
fewer descriptors are open than the table has entries, `increase_conn` and `decrease_conn` stay
inside the table. -/
theorem connTable_index_lt (maxConns : Int) (hmax : 1 ≤ maxConns) (acts : List (Act n))
    (hleft : Meets (kernelStep LowestFree) DescriptorsLeft (init n maxConns (serverFds n)) acts) :
    Meets (kernelStep LowestFree) InTable (init n maxConns (serverFds n)) acts := by
  have hinit : (init n maxConns (serverFds n)).WithinTable maxConns :=
    ⟨init_exact _ _, rfl, by simp [init, Carried, Accepting]⟩
  refine Meets.of_invariant ?_ (fun _ _ _ h hleft hstep => h.step hmax hleft hstep) hinit hleft
  intro s a h _ fd hindex
  rcases h.exact.tableIndex_carried hindex with ⟨hfd, hcarried⟩
  exact ⟨hfd, h.limit ▸ h.carried fd hcarried⟩

/-- A server without a pool; a connection is made and closed, and its descriptor used again. -/
def reused : List (Act 0) :=
  List.flatten
    [[.accept 5, .getConnNum, .handOver], List.replicate 3 (.next .main true),
      [.fire .main 5 ⟨true, false, false⟩ 1 .cleaned], List.replicate 7 (.next .main true),
      [.accept 5, .getConnNum, .handOver], List.replicate 3 (.next .main true)]

theorem connTable_index_lt_reused :
    (run (kernelStep LowestFree) (init 0 3 (serverFds 0)) reused).isSome ∧
      Meets (kernelStep LowestFree) InTable (init 0 3 (serverFds 0)) reused :=
  ⟨by decide +kernel, connTable_index_lt 3 (by decide) reused (by decide +kernel)⟩

/-- The first connection of a server with three workers, up to `increase_conn`. -/
def firstConn : List (Act 3) :=
  let worker : Fin 3 := ⟨0, Nat.zero_lt_succ 2⟩
  [.accept 11, .getConnNum, .handOver, .take worker, .next (.worker worker) true,
    .next (.worker worker) true]

/-- With eight connections allowed, the table has no entry for the first. -/
theorem connTable_index_outside :
    ∃ s, run (kernelStep LowestFree) (init 3 8 (serverFds 3)) firstConn = some s ∧
      s.maxConns = 8 ∧ s.curConns = 0 ∧
      s.tableIndex (.next (.worker ⟨0, Nat.zero_lt_succ 2⟩) true) = some 11 := by
  have hcheck : (run (kernelStep LowestFree) (init 3 8 (serverFds 3)) firstConn).map
      (fun s => (s.maxConns, s.curConns,
        s.tableIndex (.next (.worker ⟨0, Nat.zero_lt_succ 2⟩) true))) = some (8, 0, some 11) := by
    decide +kernel
  rcases Option.map_eq_some_iff.1 hcheck with ⟨s, hrun, hs⟩
  simp only [Prod.mk.injEq] at hs
  exact ⟨s, hrun, hs⟩

end TcpServer
end Reactor
end Rins
