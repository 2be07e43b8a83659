import Mathlib.Data.Finset.Lattice.Lemmas
import Rins.Reactor.LoopBooks

/-!
# CtlFailures — the books of `event_loop` when `epoll_ctl` fails

`add_io_event` enters a registration into `_io_evs` before it asks the kernel, and into
`_listen_fds` afterwards.  Where the kernel refuses, the first entry stays.  The next
`add_io_event` for the descriptor finds it and asks for a change of what the kernel does not have.

`epoll_ctl` fails where it must, and each call says whether the kernel refuses beyond that.
-/

namespace Rins
namespace Reactor

open Lib

namespace EventLoop

variable {κ : Type}

/-- The entry that `add_io_event` leaves, for a mask that may have both bits: there is one callback
to be set, and reading comes first. -/
def newIoEventMasks (loop : EventLoop κ) (fd : Int) (proc : κ) (masks : Finset EpollMask) :
    IoEvent κ :=
  let old := (loop.ioEvs fd).getD { mask := ∅, readCallback := none, writeCallback := none }
  let ev :=
    if .epollin ∈ masks then { old with readCallback := some proc }
    else if .epollout ∈ masks then { old with writeCallback := some proc }
    else old
  { ev with mask := old.mask ∪ masks }

/-- `event_loop::add_io_event`, for a mask that may have both bits. -/
def addIoEventMasks (loop : EventLoop κ) (fd : Int) (proc : κ) (masks : Finset EpollMask)
    (ctl : Bool) : EventLoop κ :=
  { ioEvs := Function.update loop.ioEvs fd (some (loop.newIoEventMasks fd proc masks))
    listenFds := if ctl then insert fd loop.listenFds else loop.listenFds }

theorem newIoEvent_eq (loop : EventLoop κ) (fd : Int) (proc : κ) (mask : EpollMask) :
    loop.newIoEvent fd proc mask = loop.newIoEventMasks fd proc {mask} := by
  unfold newIoEvent newIoEventMasks
  cases loop.ioEvs fd with
  | none =>
      cases mask with
      | epollin => rfl
      | epollout => rfl
  | some ev =>
      cases mask with
      | epollin => simp [Finset.union_singleton]
      | epollout => simp [Finset.union_singleton]

theorem addIoEvent_eq (loop : EventLoop κ) (fd : Int) (proc : κ) (mask : EpollMask) (ctl : Bool) :
    loop.addIoEvent fd proc mask ctl = loop.addIoEventMasks fd proc {mask} ctl := by
  unfold addIoEvent addIoEventMasks
  rw [newIoEvent_eq]

end EventLoop

/-! ## The loop and the kernel -/

/-- An `event_loop` and the interest list of its `epoll` descriptor. -/
structure LoopCtl (κ : Type) where
  loop : EventLoop κ
  interest : Interest

namespace LoopCtl

variable {κ : Type}

def init : LoopCtl κ :=
  { loop := .new
    interest := fun _ => none }

/-- `epoll_ctl`, which the kernel may refuse. -/
def ctl (s : LoopCtl κ) (fd : Int) (op : CtlOp) (refused : Bool) : Option Interest :=
  if refused then none else epollCtl s.interest fd op

/-- What `add_io_event` asks the kernel for. -/
def addOp (s : LoopCtl κ) (fd : Int) (finalMask : Finset EpollMask) : CtlOp :=
  match s.loop.ioEvs fd with
  | none => .add finalMask
  | some _ => .mod finalMask

/-- The `epoll_ctl` of an `add_io_event`. -/
def addCtl (s : LoopCtl κ) (fd : Int) (proc : κ) (masks : Finset EpollMask) (refused : Bool) :
    Option Interest :=
  s.ctl fd (s.addOp fd (s.loop.newIoEventMasks fd proc masks).mask) refused

/-- `add_io_event`. -/
def addIoEvent (s : LoopCtl κ) (fd : Int) (proc : κ) (masks : Finset EpollMask) (refused : Bool) :
    LoopCtl κ :=
  match s.addCtl fd proc masks refused with
  | none => { s with loop := s.loop.addIoEventMasks fd proc masks false }
  | some interest => { loop := s.loop.addIoEventMasks fd proc masks true, interest := interest }

/-- `del_io_event(fd)`; the answer of the kernel is not looked at. -/
def delIoEvent (s : LoopCtl κ) (fd : Int) (refused : Bool) : LoopCtl κ :=
  { loop := s.loop.delIoEvent fd
    interest := (s.ctl fd .del refused).getD s.interest }

/-- `del_io_event(fd, mask)`. -/
def delIoEventMasks (s : LoopCtl κ) (fd : Int) (masks : Finset EpollMask) (refused : Bool) :
    LoopCtl κ :=
  match s.loop.ioEvs fd with
  | none => s
  | some ev =>
      if ev.mask \ masks = ∅ then
        s.delIoEvent fd refused
      else
        { loop := s.loop.delIoEventMasks fd masks
          interest := (s.ctl fd (.mod (ev.mask \ masks)) refused).getD s.interest }

inductive Act (κ : Type)
  | addIoEvent (fd : Int) (proc : κ) (masks : Finset EpollMask) (refused : Bool)
  | delIoEvent (fd : Int) (refused : Bool)
  | delIoEventMasks (fd : Int) (masks : Finset EpollMask) (refused : Bool)

def apply (s : LoopCtl κ) : Act κ → LoopCtl κ
  | .addIoEvent fd proc masks refused => s.addIoEvent fd proc masks refused
  | .delIoEvent fd refused => s.delIoEvent fd refused
  | .delIoEventMasks fd masks refused => s.delIoEventMasks fd masks refused

def step (s : LoopCtl κ) (a : Act κ) : Option (LoopCtl κ) :=
  some (s.apply a)

/-! ## The loop without refusals -/

/-- The loop and the kernel of the books. -/
def ofBooks (s : LoopBooks κ) : LoopCtl κ :=
  { loop := s.loop
    interest := s.interest }

theorem ofBooks_addIoEvent (s : LoopBooks κ) (fd : Int) (proc : κ) (mask : EpollMask) :
    ofBooks (s.addIoEvent fd proc mask) = (ofBooks s).addIoEvent fd proc {mask} false := by
  simp only [LoopBooks.addIoEvent, addIoEvent, addCtl, addOp, ctl, ofBooks, Bool.false_eq_true,
    if_false, EventLoop.newIoEvent_eq, EventLoop.addIoEvent_eq]
  cases s.loop.ioEvs fd with
  | none => cases epollCtl s.interest fd _ <;> rfl
  | some ev => cases epollCtl s.interest fd _ <;> rfl

theorem ofBooks_delIoEventMasks (s : LoopBooks κ) (fd : Int) (masks : Finset EpollMask) :
    ofBooks (s.delIoEventMasks fd masks) = (ofBooks s).delIoEventMasks fd masks false := by
  simp only [LoopBooks.delIoEventMasks, delIoEventMasks, ofBooks]
  cases s.loop.ioEvs fd with
  | none => rfl
  | some ev =>
      simp only
      split_ifs <;> rfl

/-- The call, which the kernel does not refuse. -/
def Act.ofOp : LoopBooks.Op κ → Act κ
  | .addIoEvent fd proc mask => .addIoEvent fd proc {mask} false
  | .delIoEvent fd => .delIoEvent fd false
  | .delIoEventMasks fd masks => .delIoEventMasks fd masks false

/-- Without refusals the calls are those of the books. -/
theorem ofBooks_apply (s : LoopBooks κ) (op : LoopBooks.Op κ) :
    ofBooks (s.apply op) = (ofBooks s).apply (.ofOp op) := by
  cases op with
  | addIoEvent fd proc mask => exact ofBooks_addIoEvent s fd proc mask
  | delIoEvent fd => rfl
  | delIoEventMasks fd masks => exact ofBooks_delIoEventMasks s fd masks

/-! ## What should hold -/

/-- The keys of `_io_evs` are `_listen_fds`, and an `add_io_event` asks for `EPOLL_CTL_ADD` where
the kernel does not have the descriptor, and for `EPOLL_CTL_MOD` where it does. -/
structure Consistent (s : LoopCtl κ) : Prop where
  keys : ∀ fd, (s.loop.ioEvs fd).isSome ↔ fd ∈ s.loop.listenFds
  add : ∀ fd mask, s.addOp fd mask = .add mask ↔ s.interest fd = none
  mod : ∀ fd mask, s.addOp fd mask = .mod mask ↔ (s.interest fd).isSome

/-- The kernel refuses a registration only if it is there already as it would be entered, and a
deletion only if it does not have the descriptor. -/
def Harmless (s : LoopCtl κ) : Act κ → Prop
  | .addIoEvent fd proc masks refused =>
      refused = true → s.loop.ioEvs fd = some (s.loop.newIoEventMasks fd proc masks)
  | .delIoEvent fd refused => refused = true → s.interest fd = none
  | .delIoEventMasks fd masks refused =>
      refused = true → ∀ ev, s.loop.ioEvs fd = some ev → ev.mask \ masks = ∅ → s.interest fd = none

/-! ## One call -/

section Calls

variable {s : LoopCtl κ}

theorem addOp_eq_add {fd : Int} {mask : Finset EpollMask} :
    s.addOp fd mask = .add mask ↔ s.loop.ioEvs fd = none := by
  unfold addOp
  cases s.loop.ioEvs fd with
  | none => simp
  | some ev => simp

theorem addOp_eq_mod {fd : Int} {mask : Finset EpollMask} :
    s.addOp fd mask = .mod mask ↔ (s.loop.ioEvs fd).isSome := by
  unfold addOp
  cases s.loop.ioEvs fd with
  | none => simp
  | some ev => simp

/-- The three books have the same descriptors. -/
theorem consistent_iff :
    s.Consistent ↔ ∀ fd, ((s.loop.ioEvs fd).isSome ↔ fd ∈ s.loop.listenFds) ∧
      ((s.loop.ioEvs fd).isSome ↔ (s.interest fd).isSome) := by
  constructor
  · intro h fd
    exact ⟨h.keys fd, addOp_eq_mod.symm.trans (h.mod fd ∅)⟩
  · intro h
    refine ⟨fun fd => (h fd).1, fun fd mask => ?_, fun fd mask => ?_⟩
    · rw [addOp_eq_add, ← Option.not_isSome_iff_eq_none, (h fd).2, Option.not_isSome_iff_eq_none]
    · rw [addOp_eq_mod, (h fd).2]

/-- The books for one descriptor have changed, and agree again. -/
theorem Consistent.update (h : s.Consistent) {t : LoopCtl κ} (fd : Int)
    (hkeys : (t.loop.ioEvs fd).isSome ↔ fd ∈ t.loop.listenFds)
    (hkernel : (t.loop.ioEvs fd).isSome ↔ (t.interest fd).isSome)
    (hrest : ∀ f, f ≠ fd → t.loop.ioEvs f = s.loop.ioEvs f ∧
      (f ∈ t.loop.listenFds ↔ f ∈ s.loop.listenFds) ∧ t.interest f = s.interest f) :
    t.Consistent := by
  rw [consistent_iff] at h ⊢
  intro f
  by_cases hf : f = fd
  · rw [hf]
    exact ⟨hkeys, hkernel⟩
  · rcases hrest f hf with ⟨hev, hlisten, hinterest⟩
    rw [hev, hlisten, hinterest]
    exact h f

end Calls

/-! ## Runs -/

end LoopCtl
end Reactor
end Rins
