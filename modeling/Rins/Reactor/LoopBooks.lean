import Mathlib.Data.List.Nodup
import Rins.Lib.Run
import Rins.Reactor.EventLoop

/-!
# LoopBooks — the books of `event_loop` and those of the kernel

`event_loop` keeps what it has asked `epoll` for in `_io_evs` and in `_listen_fds`, and the kernel
keeps it in the interest list of the `epoll` descriptor.  The three are changed by the same calls,
in three places each; `event_process` relies on their being the same.

A state has both sides, what is left of the events that `epoll_wait` returned, and whose callback is
running.  Callbacks may register what they like but take back only what is registered for their own
descriptor: this is what the callbacks of the reactor do.
-/

namespace Rins
namespace Reactor

open Lib

/-! ## The kernel's side -/

/-- The interest list of an `epoll` descriptor. -/
abbrev Interest : Type :=
  Int → Option (Finset EpollMask)

inductive CtlOp
  | add (mask : Finset EpollMask)
  | mod (mask : Finset EpollMask)
  | del

/-- `epoll_ctl`: a descriptor is added once, and changed and deleted only if it is there. -/
def epollCtl (interest : Interest) (fd : Int) : CtlOp → Option Interest
  | .add mask =>
      match interest fd with
      | none => some (Function.update interest fd (some mask))
      | some _ => none
  | .mod mask =>
      match interest fd with
      | none => none
      | some _ => some (Function.update interest fd (some mask))
  | .del =>
      match interest fd with
      | none => none
      | some _ => some (Function.update interest fd none)

/-- What `epoll_wait` may report for a descriptor: the events that were asked for, and errors. -/
def FiredEvents.Admissible (fired : FiredEvents) (mask : Finset EpollMask) : Prop :=
  (fired.epollin = true → .epollin ∈ mask) ∧ (fired.epollout = true → .epollout ∈ mask)

instance (fired : FiredEvents) (mask : Finset EpollMask) : Decidable (fired.Admissible mask) :=
  inferInstanceAs (Decidable (_ ∧ _))

/-! ## Entries of `_io_evs` -/

namespace IoEvent

variable {κ : Type}

def callback (ev : IoEvent κ) : EpollMask → Option κ
  | .epollin => ev.readCallback
  | .epollout => ev.writeCallback

end IoEvent

namespace EventLoop

variable {κ : Type}

/-- `event_loop::del_io_event(fd, mask)`, for a mask that may have both bits. -/
def delIoEventMasks (loop : EventLoop κ) (fd : Int) (masks : Finset EpollMask) : EventLoop κ :=
  match loop.ioEvs fd with
  | none => loop
  | some ev =>
      let omask := ev.mask \ masks
      if omask = ∅ then
        loop.delIoEvent fd
      else
        { loop with ioEvs := Function.update loop.ioEvs fd (some { ev with mask := omask }) }

theorem delIoEventMask_eq (loop : EventLoop κ) (fd : Int) (mask : EpollMask) :
    loop.delIoEventMask fd mask = loop.delIoEventMasks fd {mask} := by
  unfold delIoEventMask delIoEventMasks
  cases loop.ioEvs fd with
  | none => rfl
  | some ev => simp only [Finset.sdiff_singleton_eq_erase]

/-- The mask of the entry for `fd`, without an entry the empty one. -/
def maskOf (loop : EventLoop κ) (fd : Int) : Finset EpollMask :=
  match loop.ioEvs fd with
  | none => ∅
  | some ev => ev.mask

def callbackOf (loop : EventLoop κ) (fd : Int) (mask : EpollMask) : Option κ :=
  (loop.ioEvs fd).bind fun ev => ev.callback mask

theorem newIoEvent_mask (loop : EventLoop κ) (fd : Int) (proc : κ) (mask : EpollMask) :
    (loop.newIoEvent fd proc mask).mask = insert mask (loop.maskOf fd) := by
  unfold newIoEvent maskOf
  cases loop.ioEvs fd <;> cases mask <;> rfl

/-- One of the callbacks is the new one, the other stays. -/
theorem newIoEvent_callback (loop : EventLoop κ) (fd : Int) (proc : κ) (mask m : EpollMask) :
    (loop.newIoEvent fd proc mask).callback m =
      if m = mask then some proc else loop.callbackOf fd m := by
  unfold newIoEvent callbackOf
  cases loop.ioEvs fd <;> cases mask <;> cases m <;> rfl

section Entry

variable {loop : EventLoop κ} {fd : Int}

theorem maskOf_addIoEvent (proc : κ) (mask : EpollMask) (ctl : Bool) :
    (loop.addIoEvent fd proc mask ctl).maskOf fd = insert mask (loop.maskOf fd) := by
  rw [← newIoEvent_mask loop fd proc mask]
  simp [addIoEvent, maskOf]

theorem callbackOf_addIoEvent (proc : κ) (mask m : EpollMask) (ctl : Bool) :
    (loop.addIoEvent fd proc mask ctl).callbackOf fd m =
      if m = mask then some proc else loop.callbackOf fd m := by
  rw [← newIoEvent_callback]
  simp [addIoEvent, callbackOf]

theorem maskOf_delIoEventMask (mask : EpollMask) :
    (loop.delIoEventMask fd mask).maskOf fd = (loop.maskOf fd).erase mask := by
  unfold delIoEventMask maskOf
  cases hev : loop.ioEvs fd with
  | none => simp [hev]
  | some ev =>
      simp only
      split_ifs with hleft
      · simp [delIoEvent, hleft]
      · simp

/-- The callbacks stay as long as the entry does. -/
theorem callbackOf_delIoEventMask {mask m : EpollMask} (hm : m ∈ loop.maskOf fd)
    (hne : m ≠ mask) : (loop.delIoEventMask fd mask).callbackOf fd m = loop.callbackOf fd m := by
  unfold delIoEventMask callbackOf
  unfold maskOf at hm
  cases hev : loop.ioEvs fd with
  | none => simp [hev]
  | some ev =>
      rw [hev] at hm
      have hleft : ev.mask.erase mask ≠ ∅ := Finset.ne_empty_of_mem (Finset.mem_erase.2 ⟨hne, hm⟩)
      simp only [hleft, if_false, Function.update_self]
      rfl

/-- There is an entry for `fd` at most. -/
def Only (loop : EventLoop κ) (fd : Int) : Prop :=
  ∀ f, f ≠ fd → loop.ioEvs f = none

theorem Only.addIoEvent (h : loop.Only fd) (proc : κ) (mask : EpollMask) (ctl : Bool) :
    (loop.addIoEvent fd proc mask ctl).Only fd := by
  intro f hf
  simpa [EventLoop.addIoEvent, hf] using h f hf

theorem Only.delIoEvent (h : loop.Only fd) (f : Int) : (loop.delIoEvent fd).ioEvs f = none := by
  by_cases hf : f = fd
  · simp [EventLoop.delIoEvent, hf]
  · simpa [EventLoop.delIoEvent, hf] using h f hf

theorem Only.delIoEventMask (h : loop.Only fd) (mask : EpollMask) :
    (loop.delIoEventMask fd mask).Only fd := by
  intro f hf
  unfold EventLoop.delIoEventMask
  split
  · exact h f hf
  · simp only
    split_ifs
    · exact h.delIoEvent f
    · simpa [hf] using h f hf

end Entry

end EventLoop

/-! ## The machine -/

structure LoopBooks (κ : Type) where
  loop : EventLoop κ
  interest : Interest
  /-- history: the callback that was registered last -/
  recent : Int → EpollMask → Option κ
  /-- what is left of `_fired_evs` -/
  batch : List (Int × FiredEvents)
  /-- the descriptor whose callback is running -/
  calling : Option Int

namespace LoopBooks

variable {κ : Type}

def init : LoopBooks κ :=
  { loop := .new
    interest := fun _ => none
    recent := fun _ _ => none
    batch := []
    calling := none }

/-- `add_io_event`, with the answer of the kernel. -/
def addIoEvent (s : LoopBooks κ) (fd : Int) (proc : κ) (mask : EpollMask) : LoopBooks κ :=
  let finalMask := (s.loop.newIoEvent fd proc mask).mask
  let op :=
    match s.loop.ioEvs fd with
    | none => CtlOp.add finalMask
    | some _ => CtlOp.mod finalMask
  let recent := Function.update s.recent fd (Function.update (s.recent fd) mask (some proc))
  match epollCtl s.interest fd op with
  | none => { s with loop := s.loop.addIoEvent fd proc mask false, recent := recent }
  | some interest =>
      { s with
        loop := s.loop.addIoEvent fd proc mask true
        interest := interest
        recent := recent }

/-- `del_io_event(fd)`; the answer of the kernel is not looked at. -/
def delIoEvent (s : LoopBooks κ) (fd : Int) : LoopBooks κ :=
  { s with
    loop := s.loop.delIoEvent fd
    interest := (epollCtl s.interest fd .del).getD s.interest }

/-- `del_io_event(fd, mask)`. -/
def delIoEventMasks (s : LoopBooks κ) (fd : Int) (masks : Finset EpollMask) : LoopBooks κ :=
  match s.loop.ioEvs fd with
  | none => s
  | some ev =>
      if ev.mask \ masks = ∅ then
        s.delIoEvent fd
      else
        { s with
          loop := s.loop.delIoEventMasks fd masks
          interest := (epollCtl s.interest fd (.mod (ev.mask \ masks))).getD s.interest }

inductive Op (κ : Type)
  | addIoEvent (fd : Int) (proc : κ) (mask : EpollMask)
  | delIoEvent (fd : Int)
  | delIoEventMasks (fd : Int) (masks : Finset EpollMask)

def apply (s : LoopBooks κ) : Op κ → LoopBooks κ
  | .addIoEvent fd proc mask => s.addIoEvent fd proc mask
  | .delIoEvent fd => s.delIoEvent fd
  | .delIoEventMasks fd masks => s.delIoEventMasks fd masks

/-- The operation takes nothing back that is registered for a descriptor other than `fd`. -/
def Op.TakesOnly (fd : Int) : Op κ → Bool
  | .addIoEvent _ _ _ => true
  | .delIoEvent f => f = fd
  | .delIoEventMasks f _ => f = fd

/-- Operations come from callbacks, and from the tasks between two batches. -/
def allows (s : LoopBooks κ) (op : Op κ) : Bool :=
  match s.calling with
  | some fd => op.TakesOnly fd
  | none => s.batch.isEmpty

inductive Act (κ : Type)
  | op (op : Op κ)
  /-- a descriptor that is not in the loop is closed -/
  | close (fd : Int)
  /-- `epoll_wait` returns -/
  | wait (fired : List (Int × FiredEvents))
  /-- the next round of the loop over `_fired_evs` -/
  | next
  /-- the callback returns -/
  | ret

/-- The kernel may report these events. -/
def Reports (s : LoopBooks κ) (fired : List (Int × FiredEvents)) : Prop :=
  (fired.map Prod.fst).Nodup ∧
    ∀ e ∈ fired, (s.interest e.1).any fun mask => e.2.Admissible mask

instance (s : LoopBooks κ) (fired : List (Int × FiredEvents)) : Decidable (s.Reports fired) :=
  inferInstanceAs (Decidable (_ ∧ _))

def step (s : LoopBooks κ) : Act κ → Option (LoopBooks κ)
  | .op op => if s.allows op then some (s.apply op) else none
  | .close fd =>
      if (s.loop.ioEvs fd).isNone then
        -- the kernel drops the descriptor from the interest list
        some { s with interest := Function.update s.interest fd none }
      else
        none
  | .wait fired =>
      if s.calling = none ∧ s.batch = [] ∧ s.Reports fired then
        some { s with batch := fired }
      else
        none
  | .next =>
      match s.calling, s.batch with
      | none, (fd, fired) :: batch =>
          match s.loop.dispatch fd fired with
          | none => none
          | some (.readCallback _) | some (.writeCallback _) =>
              some { s with batch := batch, calling := some fd }
          | some .delIoEvent => some ({ s with batch := batch }.delIoEvent fd)
          | some .nothing => some { s with batch := batch }
      | _, _ => none
  | .ret =>
      match s.calling with
      | some _ => some { s with calling := none }
      | none => none

/-! ## The books agree -/

/-- An entry of `_io_evs` is in order: it asks for something, and for whatever it asks there is the
callback that was registered last. -/
structure EntryOk (recent : EpollMask → Option κ) (ev : IoEvent κ) : Prop where
  asks : ev.mask ≠ ∅
  callback : ∀ m ∈ ev.mask, ev.callback m = recent m ∧ (ev.callback m).isSome

/-- The three books have the same keys and masks. -/
structure Agree (s : LoopBooks κ) : Prop where
  listens : ∀ fd, fd ∈ s.loop.listenFds ↔ (s.loop.ioEvs fd).isSome
  interest : ∀ fd, s.interest fd = (s.loop.ioEvs fd).map (·.mask)
  entry : ∀ fd ev, s.loop.ioEvs fd = some ev → EntryOk (s.recent fd) ev

/-- The events that are still to be handled are of descriptors that are registered, each of them
once, and none of them that of the running callback. -/
structure Pending (s : LoopBooks κ) : Prop where
  admissible : ∀ e ∈ s.batch, ∃ ev, s.loop.ioEvs e.1 = some ev ∧ e.2.Admissible ev.mask
  nodup : (s.batch.map Prod.fst).Nodup
  calling : ∀ fd, s.calling = some fd → fd ∉ s.batch.map Prod.fst

theorem init_agree : (init : LoopBooks κ).Agree where
  listens := by simp [init, EventLoop.new]
  interest := by simp [init, EventLoop.new]
  entry := by simp [init, EventLoop.new]

/-- One entry changes, in the three books alike. -/
theorem Agree.update {s t : LoopBooks κ} (h : s.Agree) (fd : Int) (entry : Option (IoEvent κ))
    (hevs : t.loop.ioEvs = Function.update s.loop.ioEvs fd entry)
    (hlisten : fd ∈ t.loop.listenFds ↔ entry.isSome)
    (hlistens : ∀ f, f ≠ fd → (f ∈ t.loop.listenFds ↔ f ∈ s.loop.listenFds))
    (hinterest : t.interest = Function.update s.interest fd (entry.map (·.mask)))
    (hrecent : ∀ f, f ≠ fd → t.recent f = s.recent f)
    (hentry : ∀ ev, entry = some ev → EntryOk (t.recent fd) ev) : t.Agree := by
  refine ⟨?_, ?_, ?_⟩
  · intro f
    rw [hevs]
    by_cases hf : f = fd
    · simpa [hf] using hlisten
    · rw [hlistens f hf, h.listens, Function.update_of_ne hf]
  · intro f
    rw [hinterest, hevs]
    by_cases hf : f = fd
    · simp [hf]
    · simpa [hf] using h.interest f
  · intro f ev hev
    rw [hevs] at hev
    by_cases hf : f = fd
    · rw [hf, Function.update_self] at hev
      rw [hf]
      exact hentry ev hev
    · rw [Function.update_of_ne hf] at hev
      rw [hrecent f hf]
      exact h.entry f ev hev

/-- The kernel takes what `add_io_event` asks for. -/
theorem Agree.addIoEvent_eq {s : LoopBooks κ} (h : s.Agree) (fd : Int) (proc : κ)
    (mask : EpollMask) :
    s.addIoEvent fd proc mask =
      { s with
        loop := s.loop.addIoEvent fd proc mask true
        interest := Function.update s.interest fd (some (s.loop.newIoEvent fd proc mask).mask)
        recent :=
          Function.update s.recent fd (Function.update (s.recent fd) mask (some proc)) } := by
  have hinterest := h.interest fd
  unfold addIoEvent
  cases hev : s.loop.ioEvs fd with
  | none =>
      rw [hev] at hinterest
      simp [epollCtl, hinterest]
  | some ev =>
      rw [hev] at hinterest
      simp [epollCtl, hinterest]

theorem Agree.addIoEvent {s : LoopBooks κ} (h : s.Agree) (fd : Int) (proc : κ)
    (mask : EpollMask) : (s.addIoEvent fd proc mask).Agree := by
  rw [h.addIoEvent_eq]
  refine h.update fd (some (s.loop.newIoEvent fd proc mask)) rfl ?_ ?_ rfl ?_ ?_
  · simp [EventLoop.addIoEvent]
  · intro f hf
    simp [EventLoop.addIoEvent, hf]
  · intro f hf
    simp [hf]
  · rintro ev hev
    cases hev
    refine ⟨by simp [EventLoop.newIoEvent_mask], ?_⟩
    intro m hm
    simp only [Function.update_self]
    rw [EventLoop.newIoEvent_callback]
    by_cases hmask : m = mask
    · simp [hmask]
    · -- what else is in the mask was there before, with its callback
      rw [EventLoop.newIoEvent_mask, Finset.mem_insert] at hm
      have hold : m ∈ s.loop.maskOf fd := hm.resolve_left hmask
      rw [if_neg hmask, Function.update_of_ne hmask]
      unfold EventLoop.maskOf at hold
      unfold EventLoop.callbackOf
      cases hev : s.loop.ioEvs fd with
      | none => simp [hev] at hold
      | some ev =>
          rw [hev] at hold
          exact (h.entry fd ev hev).callback m hold

theorem Agree.delIoEvent_eq {s : LoopBooks κ} (h : s.Agree) (fd : Int) :
    s.delIoEvent fd =
      { s with
        loop := s.loop.delIoEvent fd
        interest := Function.update s.interest fd none } := by
  have hinterest := h.interest fd
  unfold delIoEvent
  cases hev : s.loop.ioEvs fd with
  | none =>
      have hnone : s.interest fd = none := by simp [hinterest, hev]
      have hsame : Function.update s.interest fd none = s.interest := by
        rw [← hnone, Function.update_eq_self]
      simp [epollCtl, hnone, hsame]
  | some ev =>
      rw [hev] at hinterest
      simp [epollCtl, hinterest]

theorem Agree.delIoEvent {s : LoopBooks κ} (h : s.Agree) (fd : Int) : (s.delIoEvent fd).Agree := by
  rw [h.delIoEvent_eq]
  refine h.update fd none rfl (by simp [EventLoop.delIoEvent]) ?_ rfl (fun _ _ => rfl) (by simp)
  intro f hf
  simp [EventLoop.delIoEvent, hf]

theorem Agree.delIoEventMasks {s : LoopBooks κ} (h : s.Agree) (fd : Int)
    (masks : Finset EpollMask) : (s.delIoEventMasks fd masks).Agree := by
  unfold LoopBooks.delIoEventMasks
  split
  · exact h
  · next ev hev =>
      split_ifs with hleft
      · exact h.delIoEvent fd
      · have hinterest : s.interest fd = some ev.mask := by simp [h.interest, hev]
        have hlisten : fd ∈ s.loop.listenFds := by simp [h.listens, hev]
        have hloop : s.loop.delIoEventMasks fd masks =
            { s.loop with
              ioEvs := Function.update s.loop.ioEvs fd
                (some { ev with mask := ev.mask \ masks }) } := by
          simp [EventLoop.delIoEventMasks, hev, hleft]
        rw [hloop]
        refine h.update fd (some { ev with mask := ev.mask \ masks }) rfl (by simp [hlisten])
          (fun _ _ => Iff.rfl) ?_ (fun _ _ => rfl) ?_
        · simp [epollCtl, hinterest]
        · rintro _ hev'
          cases hev'
          refine ⟨hleft, fun m hm => ?_⟩
          exact (h.entry fd ev hev).callback m (Finset.mem_sdiff.1 hm).1

theorem Agree.apply {s : LoopBooks κ} (h : s.Agree) (op : Op κ) : (s.apply op).Agree := by
  cases op with
  | addIoEvent fd proc mask => exact h.addIoEvent fd proc mask
  | delIoEvent fd => exact h.delIoEvent fd
  | delIoEventMasks fd masks => exact h.delIoEventMasks fd masks

/-! ## A batch of events -/

/-- What an operation may do to the entry of a descriptor that it takes nothing back from. -/
theorem apply_keeps {s : LoopBooks κ} (op : Op κ) {fd f : Int} (htakes : op.TakesOnly fd = true)
    (hne : f ≠ fd) {ev : IoEvent κ} (hev : s.loop.ioEvs f = some ev) :
    ∃ ev', (s.apply op).loop.ioEvs f = some ev' ∧ ev.mask ⊆ ev'.mask := by
  cases op with
  | addIoEvent g proc mask =>
      have hevs : (s.addIoEvent g proc mask).loop.ioEvs =
          Function.update s.loop.ioEvs g (some (s.loop.newIoEvent g proc mask)) := by
        simp only [LoopBooks.addIoEvent]
        split <;> rfl
      by_cases hfg : f = g
      · refine ⟨s.loop.newIoEvent g proc mask, by simp [apply, hevs, hfg], ?_⟩
        rw [EventLoop.newIoEvent_mask, ← hfg]
        simp [EventLoop.maskOf, hev]
      · exact ⟨ev, by simp [apply, hevs, hfg, hev], Finset.Subset.refl _⟩
  | delIoEvent g =>
      have hg : g = fd := by simpa [Op.TakesOnly] using htakes
      subst hg
      exact ⟨ev, by simp [apply, LoopBooks.delIoEvent, EventLoop.delIoEvent, hne, hev],
        Finset.Subset.refl _⟩
  | delIoEventMasks g masks =>
      have hg : g = fd := by simpa [Op.TakesOnly] using htakes
      subst hg
      refine ⟨ev, ?_, Finset.Subset.refl _⟩
      simp only [apply, LoopBooks.delIoEventMasks]
      split
      · exact hev
      · next ev' hev' =>
          split_ifs with hleft
          · simp [LoopBooks.delIoEvent, EventLoop.delIoEvent, hne, hev]
          · simp [EventLoop.delIoEventMasks, hev', hleft, hne, hev]

theorem apply_batch (s : LoopBooks κ) (op : Op κ) :
    (s.apply op).batch = s.batch ∧ (s.apply op).calling = s.calling := by
  cases op with
  | addIoEvent fd proc mask =>
      simp only [apply, addIoEvent]
      split <;> exact ⟨rfl, rfl⟩
  | delIoEvent fd => exact ⟨rfl, rfl⟩
  | delIoEventMasks fd masks =>
      simp only [apply, delIoEventMasks]
      split
      · exact ⟨rfl, rfl⟩
      · split_ifs <;> exact ⟨rfl, rfl⟩

/-- An operation of the running callback, or of a task after the batch. -/
theorem Pending.apply {s : LoopBooks κ} (h : s.Pending) {op : Op κ}
    (hallows : s.allows op = true) : (s.apply op).Pending := by
  rcases s.apply_batch op with ⟨hbatch, hcalling⟩
  refine ⟨?_, by rw [hbatch]; exact h.nodup, by rw [hbatch, hcalling]; exact h.calling⟩
  rw [hbatch]
  intro e he
  unfold allows at hallows
  split at hallows
  · next fd hfd =>
      -- the callback is not that of a descriptor that is still to come
      rcases h.admissible e he with ⟨ev, hev, hfired⟩
      have hne : e.1 ≠ fd := by
        rintro rfl
        exact h.calling _ hfd (List.mem_map_of_mem he)
      rcases apply_keeps op hallows hne hev with ⟨ev', hev', hsub⟩
      exact ⟨ev', hev', fun hin => hsub (hfired.1 hin), fun hout => hsub (hfired.2 hout)⟩
  · have hnil : s.batch = [] := List.isEmpty_iff.1 hallows
    rw [hnil] at he
    cases he

/-- `event_process` gets on with every event that is still to be handled, and has a callback to
call unless the event is of no kind that it knows. -/
theorem dispatch_isSome {s : LoopBooks κ} (h : s.Agree) {fd : Int} {fired : FiredEvents}
    {ev : IoEvent κ} (hev : s.loop.ioEvs fd = some ev) (hfired : fired.Admissible ev.mask) :
    ∃ d, s.loop.dispatch fd fired = some d ∧ d ≠ .delIoEvent := by
  have hentry := h.entry fd ev hev
  unfold EventLoop.dispatch
  rw [hev]
  simp only
  split_ifs with hin hout hhup
  · rcases Option.isSome_iff_exists.1 (hentry.callback _ (hfired.1 hin)).2 with ⟨proc, hproc⟩
    have hread : ev.readCallback = some proc := hproc
    exact ⟨.readCallback proc, by simp [hread], by simp⟩
  · rcases Option.isSome_iff_exists.1 (hentry.callback _ (hfired.2 hout)).2 with ⟨proc, hproc⟩
    have hwrite : ev.writeCallback = some proc := hproc
    exact ⟨.writeCallback proc, by simp [hwrite], by simp⟩
  · -- the mask is not empty, so one of the callbacks is there
    rcases Finset.nonempty_iff_ne_empty.2 hentry.asks with ⟨m, hm⟩
    have hsome := (hentry.callback m hm).2
    cases hread : ev.readCallback with
    | some proc => exact ⟨.readCallback proc, rfl, by simp⟩
    | none =>
        cases hwrite : ev.writeCallback with
        | some proc => exact ⟨.writeCallback proc, rfl, by simp⟩
        | none =>
            cases m <;> simp [IoEvent.callback, hread, hwrite] at hsome
  · exact ⟨.nothing, rfl, by simp⟩

/-- The next event of the batch is taken up. -/
theorem Pending.next {s : LoopBooks κ} (h : s.Pending) {fd : Int} {fired : FiredEvents}
    {batch : List (Int × FiredEvents)} (hbatch : s.batch = (fd, fired) :: batch)
    (calling : Option Int) (hcalling : ∀ f, calling = some f → f = fd) :
    Pending { s with batch := batch, calling := calling } := by
  have hnodup := h.nodup
  rw [hbatch, List.map_cons, List.nodup_cons] at hnodup
  refine ⟨fun e he => h.admissible e (by simp [hbatch, he]), hnodup.2, ?_⟩
  intro f hf
  rw [hcalling f hf]
  exact hnodup.1

/-- What the kernel reports is registered. -/
theorem Agree.reports {s : LoopBooks κ} (h : s.Agree) {fired : List (Int × FiredEvents)}
    (hreports : s.Reports fired) (hcalling : s.calling = none) :
    Pending { s with batch := fired } := by
  refine ⟨?_, hreports.1, by simp [hcalling]⟩
  intro e he
  have hany := hreports.2 e he
  rw [h.interest] at hany
  cases hev : s.loop.ioEvs e.1 with
  | none => simp [hev] at hany
  | some ev => exact ⟨ev, rfl, by simpa [hev] using hany⟩

theorem step_agree {s t : LoopBooks κ} {a : Act κ} (h : s.Agree ∧ s.Pending)
    (hstep : s.step a = some t) : t.Agree ∧ t.Pending := by
  rcases h with ⟨hagree, hpending⟩
  cases a with
  | op op =>
      simp only [step] at hstep
      split_ifs at hstep with hallows
      cases hstep
      exact ⟨hagree.apply op, hpending.apply hallows⟩
  | close fd =>
      simp only [step] at hstep
      split_ifs at hstep with hnone
      cases hstep
      -- the descriptor is not in the interest list any more
      have hsame : Function.update s.interest fd none = s.interest := by
        have hfd : s.interest fd = none := by
          rw [hagree.interest, Option.isNone_iff_eq_none.1 hnone]
          rfl
        rw [← hfd, Function.update_eq_self]
      rw [hsame]
      exact ⟨hagree, hpending⟩
  | wait fired =>
      simp only [step] at hstep
      split_ifs at hstep with hwait
      cases hstep
      exact ⟨⟨hagree.listens, hagree.interest, hagree.entry⟩,
        hagree.reports hwait.2.2 hwait.1⟩
  | next =>
      simp only [step] at hstep
      split at hstep
      · next fd fired batch hcalling hbatch =>
          have hkept : ∀ calling, Agree { s with batch := batch, calling := calling } :=
            fun _ => ⟨hagree.listens, hagree.interest, hagree.entry⟩
          rcases hpending.admissible (fd, fired) (by simp [hbatch]) with ⟨ev, hev, hfired⟩
          rcases dispatch_isSome hagree hev hfired with ⟨d, hd, hdel⟩
          rw [hd] at hstep
          cases d with
          | readCallback proc =>
              cases hstep
              exact ⟨hkept (some fd), hpending.next hbatch (some fd) (by simp)⟩
          | writeCallback proc =>
              cases hstep
              exact ⟨hkept (some fd), hpending.next hbatch (some fd) (by simp)⟩
          | delIoEvent => exact absurd rfl hdel
          | nothing =>
              cases hstep
              exact ⟨hkept s.calling, hpending.next hbatch s.calling (by simp [hcalling])⟩
      · cases hstep
  | ret =>
      simp only [step] at hstep
      split at hstep
      · cases hstep
        exact ⟨⟨hagree.listens, hagree.interest, hagree.entry⟩,
          ⟨hpending.admissible, hpending.nodup, by simp⟩⟩
      · cases hstep

/-- Whatever is registered and taken back: `_io_evs`, `_listen_fds` and the interest list of the
kernel have the same descriptors and masks, no mask is empty, and for what a mask asks there is the
callback that was registered last.  So `event_process` finds an entry and a callback for every
event of a batch, whatever the callbacks before it did. -/
theorem loopBooks_agree (acts : List (Act κ)) (s : LoopBooks κ)
    (hrun : run step init acts = some s) :
    (∀ fd, fd ∈ s.loop.listenFds ↔ (s.loop.ioEvs fd).isSome) ∧
    (∀ fd, (s.interest fd).isSome ↔ (s.loop.ioEvs fd).isSome) ∧
    (∀ fd ev, s.loop.ioEvs fd = some ev →
      s.interest fd = some ev.mask ∧ ev.mask ≠ ∅ ∧
      (.epollin ∈ ev.mask →
        ∃ proc, ev.readCallback = some proc ∧ s.recent fd .epollin = some proc) ∧
      (.epollout ∈ ev.mask →
        ∃ proc, ev.writeCallback = some proc ∧ s.recent fd .epollout = some proc)) ∧
    ∀ fd fired batch, s.calling = none → s.batch = (fd, fired) :: batch →
      (s.loop.dispatch fd fired).isSome := by
  have hinit : (init : LoopBooks κ).Agree ∧ (init : LoopBooks κ).Pending :=
    ⟨init_agree, ⟨by simp [init], by simp [init], by simp [init]⟩⟩
  have h : s.Agree ∧ s.Pending :=
    run_invariant_always (fun _ _ _ => step_agree) hinit hrun
  rcases h with ⟨hagree, hpending⟩
  refine ⟨hagree.listens, ?_, ?_, ?_⟩
  · intro fd
    rw [hagree.interest, Option.isSome_map]
  · intro fd ev hev
    have hentry := hagree.entry fd ev hev
    refine ⟨by simp [hagree.interest, hev], hentry.asks, ?_, ?_⟩
    · intro hin
      rcases hentry.callback _ hin with ⟨hrecent, hsome⟩
      rcases Option.isSome_iff_exists.1 hsome with ⟨proc, hproc⟩
      exact ⟨proc, hproc, hrecent.symm.trans hproc⟩
    · intro hout
      rcases hentry.callback _ hout with ⟨hrecent, hsome⟩
      rcases Option.isSome_iff_exists.1 hsome with ⟨proc, hproc⟩
      exact ⟨proc, hproc, hrecent.symm.trans hproc⟩
  · intro fd fired batch _ hbatch
    rcases hpending.admissible (fd, fired) (by simp [hbatch]) with ⟨ev, hev, hfired⟩
    rcases dispatch_isSome hagree hev hfired with ⟨d, hd, _⟩
    rw [hd]
    rfl

/-- The callback of the first of two events closes its descriptor and registers something for the
other. -/
def closedInBatch : List (Act Nat) :=
  [.op (.addIoEvent 3 0 .epollin), .op (.addIoEvent 4 1 .epollin), .op (.addIoEvent 4 2 .epollout),
    .op (.delIoEventMasks 4 {.epollout}),
    .wait [(3, ⟨true, false, false⟩), (4, ⟨false, false, true⟩)], .next, .op (.delIoEvent 3),
    .close 3, .op (.addIoEvent 4 5 .epollin), .ret]

theorem loopBooks_agree_closedInBatch :
    ∃ s, run step init closedInBatch = some s ∧ s.batch = [(4, ⟨false, false, true⟩)] ∧
      (s.loop.dispatch 4 ⟨false, false, true⟩).isSome := by
  have hcheck : (run step init closedInBatch).map (fun s => (s.calling, s.batch)) =
      some (none, [(4, ⟨false, false, true⟩)]) := by
    rfl
  rcases Option.map_eq_some_iff.1 hcheck with ⟨s, hrun, hs⟩
  simp only [Prod.mk.injEq] at hs
  exact ⟨s, hrun, hs.2, (loopBooks_agree closedInBatch s hrun).2.2.2 4 _ _ hs.1 hs.2⟩

end LoopBooks
end Reactor
end Rins
