import Mathlib.Data.Finset.Basic
import Mathlib.Logic.Function.Basic
import Rins.Reactor.TcpConn

/-!
# EventLoop — the table of callbacks behind `epoll`

`event_loop` keeps for each descriptor the mask it has asked `epoll` for and the callbacks to call,
each with its `args`.  Which callback is registered is told by its `args` here, so a callback is a
value of the type `κ`.

The kernel's answer to `epoll_ctl` is an argument of the operations that read it.
-/

namespace Rins
namespace Reactor

/-- `io_event`, with each callback and its arguments in one. -/
structure IoEvent (κ : Type) where
  mask : Finset EpollMask
  readCallback : Option κ
  writeCallback : Option κ

/-- The `events` of a fired event, as far as `event_process` looks at them. -/
structure FiredEvents where
  epollin : Bool
  epollout : Bool
  /-- `EPOLLHUP | EPOLLERR` -/
  hup : Bool

/-- What `event_process` does about a fired event. -/
inductive Dispatch (κ : Type)
  | readCallback (args : κ)
  | writeCallback (args : κ)
  /-- nobody wants to hear of the error -/
  | delIoEvent
  | nothing

structure EventLoop (κ : Type) where
  ioEvs : Int → Option (IoEvent κ)
  listenFds : Finset Int

namespace EventLoop

variable {κ : Type}

def new : EventLoop κ :=
  { ioEvs := fun _ => none, listenFds := ∅ }

/-- The entry that `add_io_event` leaves in `_io_evs`. -/
def newIoEvent (loop : EventLoop κ) (fd : Int) (proc : κ) (mask : EpollMask) : IoEvent κ :=
  match loop.ioEvs fd, mask with
  | none, .epollin => { mask := {mask}, readCallback := some proc, writeCallback := none }
  | none, .epollout => { mask := {mask}, readCallback := none, writeCallback := some proc }
  | some ev, .epollin => { ev with mask := insert mask ev.mask, readCallback := some proc }
  | some ev, .epollout => { ev with mask := insert mask ev.mask, writeCallback := some proc }

/-- `event_loop::add_io_event`.  If `epoll_ctl` fails, `_io_evs` has the entry nevertheless. -/
def addIoEvent (loop : EventLoop κ) (fd : Int) (proc : κ) (mask : EpollMask) (ctl : Bool) :
    EventLoop κ :=
  { ioEvs := Function.update loop.ioEvs fd (some (loop.newIoEvent fd proc mask))
    listenFds := if ctl then insert fd loop.listenFds else loop.listenFds }

/-- `event_loop::del_io_event(fd)`. -/
def delIoEvent (loop : EventLoop κ) (fd : Int) : EventLoop κ :=
  { ioEvs := Function.update loop.ioEvs fd none
    listenFds := loop.listenFds.erase fd }

/-- `event_loop::del_io_event(fd, mask)`. -/
def delIoEventMask (loop : EventLoop κ) (fd : Int) (mask : EpollMask) : EventLoop κ :=
  match loop.ioEvs fd with
  | none => loop
  | some ev =>
      -- the callback stays in the entry, whatever becomes of the mask
      let omask := ev.mask.erase mask
      if omask = ∅ then
        loop.delIoEvent fd
      else
        { loop with ioEvs := Function.update loop.ioEvs fd (some { ev with mask := omask }) }

/-- The body of the loop over `_fired_evs` in `event_process`.  There is no answer where its
assertion fails and where it would call a null pointer. -/
def dispatch (loop : EventLoop κ) (fd : Int) (fired : FiredEvents) : Option (Dispatch κ) :=
  match loop.ioEvs fd with
  | none => none
  | some ev =>
      if fired.epollin then
        ev.readCallback.map .readCallback
      else if fired.epollout then
        ev.writeCallback.map .writeCallback
      else if fired.hup then
        -- the handler finds out about the error when it reads or writes
        match ev.readCallback, ev.writeCallback with
        | some args, _ => some (.readCallback args)
        | none, some args => some (.writeCallback args)
        | none, none => some .delIoEvent
      else
        some .nothing

/-! ## Which callbacks are registered -/

/-- One of the callbacks for `fd`. -/
def Calls (loop : EventLoop κ) (fd : Int) (args : κ) : Prop :=
  ∃ ev, loop.ioEvs fd = some ev ∧ (ev.readCallback = some args ∨ ev.writeCallback = some args)

theorem new_calls {fd : Int} {args : κ} : ¬ (new : EventLoop κ).Calls fd args := by
  rintro ⟨ev, hev, _⟩
  cases hev

theorem calls_addIoEvent {loop : EventLoop κ} {fd fd' : Int} {proc args : κ} {mask : EpollMask}
    {ctl : Bool} (h : (loop.addIoEvent fd proc mask ctl).Calls fd' args) :
    loop.Calls fd' args ∨ (fd' = fd ∧ args = proc) := by
  rcases h with ⟨ev, hev, hargs⟩
  by_cases hfd : fd' = fd
  · subst hfd
    have hnew : loop.newIoEvent fd' proc mask = ev := by simpa [addIoEvent] using hev
    subst hnew
    -- of the two callbacks one is the new one, and the other is as it was
    cases hold : loop.ioEvs fd' with
    | none =>
        cases mask <;> simp only [newIoEvent, hold] at hargs <;> simp_all
    | some old =>
        cases mask <;> simp only [newIoEvent, hold] at hargs
        · rcases hargs with hread | hwrite
          · exact Or.inr ⟨rfl, (Option.some.inj hread).symm⟩
          · exact Or.inl ⟨old, hold, Or.inr hwrite⟩
        · rcases hargs with hread | hwrite
          · exact Or.inl ⟨old, hold, Or.inl hread⟩
          · exact Or.inr ⟨rfl, (Option.some.inj hwrite).symm⟩
  · refine Or.inl ⟨ev, ?_, hargs⟩
    simpa [addIoEvent, hfd] using hev

theorem calls_delIoEvent {loop : EventLoop κ} {fd fd' : Int} {args : κ}
    (h : (loop.delIoEvent fd).Calls fd' args) : fd' ≠ fd ∧ loop.Calls fd' args := by
  rcases h with ⟨ev, hev, hargs⟩
  by_cases hfd : fd' = fd
  · simp [delIoEvent, hfd] at hev
  · exact ⟨hfd, ev, by simpa [delIoEvent, hfd] using hev, hargs⟩

theorem calls_delIoEventMask {loop : EventLoop κ} {fd fd' : Int} {args : κ} {mask : EpollMask}
    (h : (loop.delIoEventMask fd mask).Calls fd' args) : loop.Calls fd' args := by
  unfold delIoEventMask at h
  split at h
  · exact h
  · next ev hold =>
      simp only at h
      split_ifs at h
      · exact (calls_delIoEvent h).2
      · -- only the mask of the entry is another one
        rcases h with ⟨ev', hev', hargs⟩
        by_cases hfd : fd' = fd
        · subst hfd
          simp only [Function.update_self, Option.some.injEq] at hev'
          subst hev'
          exact ⟨ev, hold, hargs⟩
        · exact ⟨ev', by simpa [hfd] using hev', hargs⟩

/-- A fired event comes to a registered callback. -/
theorem dispatch_calls {loop : EventLoop κ} {fd : Int} {fired : FiredEvents} {args : κ}
    (h : loop.dispatch fd fired = some (.readCallback args) ∨
      loop.dispatch fd fired = some (.writeCallback args)) : loop.Calls fd args := by
  unfold dispatch at h
  cases hev : loop.ioEvs fd with
  | none =>
      simp [hev] at h
  | some ev =>
      refine ⟨ev, hev, ?_⟩
      simp only [hev] at h
      split_ifs at h
      · exact Or.inl (by simpa using h)
      · exact Or.inr (by simpa using h)
      · cases hread : ev.readCallback <;> cases hwrite : ev.writeCallback <;>
          simp_all
      · simp at h

theorem mem_listenFds_addIoEvent {loop : EventLoop κ} {fd fd' : Int} {proc : κ} {mask : EpollMask}
    {ctl : Bool} (h : fd' ∈ (loop.addIoEvent fd proc mask ctl).listenFds) :
    fd' = fd ∨ fd' ∈ loop.listenFds := by
  unfold addIoEvent at h
  cases ctl with
  | false =>
      exact Or.inr h
  | true =>
      exact Finset.mem_insert.1 h

theorem mem_listenFds_delIoEventMask {loop : EventLoop κ} {fd fd' : Int} {mask : EpollMask}
    (h : fd' ∈ (loop.delIoEventMask fd mask).listenFds) : fd' ∈ loop.listenFds := by
  unfold delIoEventMask at h
  split at h
  · exact h
  · simp only at h
    split_ifs at h
    · exact Finset.mem_of_mem_erase h
    · exact h

end EventLoop
end Reactor
end Rins
