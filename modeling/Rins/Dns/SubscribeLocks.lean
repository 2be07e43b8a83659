import Mathlib.Data.Finset.Sort
import Mathlib.Data.List.AList
import Rins.Dns.BookTable
import Rins.Lib.LockOrder

/-!
# SubscribeLocks — the two mutexes of the subscription lists

`subscribe_list` guards `_book_list` and `_push_list` by a mutex each, and `publish` needs both.
Here its methods run an instruction at a time, in any number of threads: a lock, a look at one of
the maps or a change of it, an unlock.

Two things are assumed here that the source does not see to.  The mutexes are taken for initialised,
although the constructor leaves them as they are.  And `make_publish_map` is assumed to visit every
entry once, also behind one that it has moved.  In the source the iterator of a moved entry is
incremented after the entry was erased.  That is undefined, and `splitsExactly_iff` says that the
loop as it is written gets to its end only where it moves nothing.
-/

namespace Rins
namespace Dns

open Lib

/-- `_push_list`, a `std::unordered_map<int, std::unordered_set<uint64_t>>`. -/
abbrev PushTable := AList fun _ : Int => Finset UInt64

namespace SubscribeLocks

/-- `_book_list_lock` and `_push_list_lock`. -/
inductive ListLock
  | book
  | push
  deriving DecidableEq

/-- What the mutex guards. -/
def Guarded : ListLock → Type
  | .book => BookTable
  | .push => PushTable

inductive Call
  | subscribe (mod : UInt64) (fd : Int)
  | unsubscribe (mod : UInt64) (fd : Int)
  | publish (changeMods : List UInt64)
  | makePublishMap (onlineFds : Finset Int)
  deriving DecidableEq

/-- The order in which the iterators run over a hash set. -/
structure HashOrder where
  toList : Finset Int → List Int
  mem_toList : ∀ fds fd, fd ∈ toList fds ↔ fd ∈ fds

/-- Where a thread stands in one of the methods, with its local variables. -/
inductive Loc
  | subscribe (mod : UInt64) (fd : Int)
  | subscribeInsert (mod : UInt64) (fd : Int)
  | unsubscribe (mod : UInt64) (fd : Int)
  | unsubscribeFind (mod : UInt64) (fd : Int)
  | unsubscribeErase (mod : UInt64) (fd : Int)
  /-- `if (_book_list[mod].empty() == true)` -/
  | unsubscribeEmpty (mod : UInt64)
  | unlockBook
  | publish (changeMods : List UInt64)
  | publishLocked (changeMods : List UInt64)
  /-- at the head of the outer loop -/
  | publishLoop (changeMods : List UInt64)
  /-- in the inner loop, with the descriptors that are left -/
  | publishInsert (mod : UInt64) (fd : Int) (fds : List Int) (changeMods : List UInt64)
  | unlockPush
  | makePublishMap (onlineFds : Finset Int)
  | mapBegin (onlineFds : Finset Int)
  /-- at an entry, with the descriptors of those that are left -/
  | mapVisit (onlineFds : Finset Int) (fd : Int) (fds : List Int) (needPublish : PushTable)
  | mapEnd (needPublish : PushTable)
  | done (needPublish : PushTable)

namespace Loc

/-- The inner loop of `publish`, and behind it the rest of the outer one. -/
def inner (mod : UInt64) (changeMods : List UInt64) : List Int → Loc
  | [] => publishLoop changeMods
  | fd :: fds => publishInsert mod fd fds changeMods

/-- The loop of `make_publish_map`. -/
def visits (onlineFds : Finset Int) (needPublish : PushTable) : List Int → Loc
  | [] => mapEnd needPublish
  | fd :: fds => mapVisit onlineFds fd fds needPublish

def held : Loc → Finset ListLock
  | subscribe _ _ => ∅
  | subscribeInsert _ _ => {.book}
  | unsubscribe _ _ => ∅
  | unsubscribeFind _ _ => {.book}
  | unsubscribeErase _ _ => {.book}
  | unsubscribeEmpty _ => {.book}
  | unlockBook => {.book}
  | publish _ => ∅
  | publishLocked _ => {.book}
  | publishLoop _ => {.push, .book}
  | publishInsert _ _ _ _ => {.push, .book}
  | unlockPush => {.push}
  | makePublishMap _ => ∅
  | mapBegin _ => {.push}
  | mapVisit _ _ _ _ => {.push}
  | mapEnd _ => {.push}
  | done _ => ∅

def past : Loc → Bool
  | subscribe _ _ => false
  | unsubscribe _ _ => false
  | publish _ => false
  | publishLocked _ => false
  | makePublishMap _ => false
  | _ => true

/-- The loops that are left, and the rounds of the innermost one. -/
def rounds : Loc → Nat × Nat
  | subscribe _ _ => (3, 0)
  | subscribeInsert _ _ => (2, 0)
  | unsubscribe _ _ => (5, 0)
  | unsubscribeFind _ _ => (4, 0)
  | unsubscribeErase _ _ => (3, 0)
  | unsubscribeEmpty _ => (2, 0)
  | unlockBook => (1, 0)
  | publish changeMods => (changeMods.length + 4, 0)
  | publishLocked changeMods => (changeMods.length + 3, 0)
  | publishLoop changeMods => (changeMods.length + 2, 0)
  | publishInsert _ _ fds changeMods => (changeMods.length + 2, fds.length + 1)
  | unlockPush => (1, 0)
  | makePublishMap _ => (4, 0)
  | mapBegin _ => (3, 0)
  | mapVisit _ _ fds _ => (2, fds.length + 1)
  | mapEnd _ => (2, 0)
  | done _ => (0, 0)

/-- Fewer loops, or fewer rounds of the same one. -/
def lt : Loc → Loc → Prop :=
  InvImage (Prod.Lex (· < ·) (· < ·)) rounds

theorem lt_iff {l l' : Loc} :
    lt l' l ↔
      l'.rounds.1 < l.rounds.1 ∨ l'.rounds.1 = l.rounds.1 ∧ l'.rounds.2 < l.rounds.2 :=
  Prod.lex_def

theorem lt_wf : WellFounded lt :=
  InvImage.wf _ (WellFounded.prod_lex Nat.lt_wfRel.wf Nat.lt_wfRel.wf)

end Loc

/-! ## The code -/

/-- The methods of `subscribe_list`; what a call hands to its caller is `need_publish`.

The loop of `make_publish_map` is not as it stands in the source, where the iterator of an erased
entry is incremented (`makePublishMapLoop`).  It is assumed to go on with the next entry, as
`makePublishMap` has it. -/
def code (hash : HashOrder) : Loc → Instr ListLock Guarded Loc PushTable
  | .subscribe mod fd => .lock .book (.subscribeInsert mod fd)
  | .subscribeInsert mod fd => .access .book fun table : BookTable =>
      (table.subscribe mod fd, .unlockBook)
  | .unsubscribe mod fd => .lock .book (.unsubscribeFind mod fd)
  | .unsubscribeFind mod fd => .access .book fun table : BookTable =>
      (table, if (table mod).isSome then .unsubscribeErase mod fd else .unlockBook)
  | .unsubscribeErase mod fd => .access .book fun table : BookTable =>
      (Function.update table mod (some (((table mod).getD ∅).erase fd)), .unsubscribeEmpty mod)
  | .unsubscribeEmpty mod => .access .book fun table : BookTable =>
      (if (table mod).getD ∅ = ∅ then Function.update table mod none else table, .unlockBook)
  | .unlockBook => .unlock .book (.done ∅)
  | .publish changeMods => .lock .book (.publishLocked changeMods)
  | .publishLocked changeMods => .lock .push (.publishLoop changeMods)
  | .publishLoop [] => .unlock .book .unlockPush
  | .publishLoop (mod :: changeMods) => .access .book fun table : BookTable =>
      (table, match table mod with
        | none => .publishLoop changeMods
        | some fds => .inner mod changeMods (hash.toList fds))
  | .publishInsert mod fd fds changeMods => .access .push fun push : PushTable =>
      (push.insert fd (insert mod ((push.lookup fd).getD ∅)), .inner mod changeMods fds)
  | .unlockPush => .unlock .push (.done ∅)
  | .makePublishMap onlineFds => .lock .push (.mapBegin onlineFds)
  | .mapBegin onlineFds => .access .push fun push : PushTable =>
      (push, .visits onlineFds ∅ push.keys)
  | .mapVisit onlineFds fd fds needPublish => .access .push fun push : PushTable =>
      if fd ∈ onlineFds then
        (push.erase fd, .visits onlineFds (needPublish.insert fd ((push.lookup fd).getD ∅)) fds)
      else (push, .visits onlineFds needPublish fds)
  | .mapEnd needPublish => .unlock .push (.done needPublish)
  | .done needPublish => .ret needPublish

def start : Call → Loc
  | .subscribe mod fd => .subscribe mod fd
  | .unsubscribe mod fd => .unsubscribe mod fd
  | .publish changeMods => .publish changeMods
  | .makePublishMap onlineFds => .makePublishMap onlineFds

def program (hash : HashOrder) : Program ListLock Guarded Loc Call PushTable :=
  { start := start
    code := code hash
    held := Loc.held
    past := Loc.past }

/-! ## The discipline of the locks -/

variable {hash : HashOrder}

theorem held_inner (mod : UInt64) (changeMods : List UInt64) (fds : List Int) :
    (Loc.inner mod changeMods fds).held = {.push, .book} := by
  cases fds <;> rfl

theorem past_inner (mod : UInt64) (changeMods : List UInt64) (fds : List Int) :
    (Loc.inner mod changeMods fds).past = true := by
  cases fds <;> rfl

theorem rounds_inner (mod : UInt64) (changeMods : List UInt64) (fds : List Int) :
    (Loc.inner mod changeMods fds).rounds = (changeMods.length + 2, fds.length) := by
  cases fds <;> rfl

theorem held_visits (onlineFds : Finset Int) (needPublish : PushTable) (fds : List Int) :
    (Loc.visits onlineFds needPublish fds).held = {.push} := by
  cases fds <;> rfl

theorem past_visits (onlineFds : Finset Int) (needPublish : PushTable) (fds : List Int) :
    (Loc.visits onlineFds needPublish fds).past = true := by
  cases fds <;> rfl

theorem rounds_visits (onlineFds : Finset Int) (needPublish : PushTable) (fds : List Int) :
    (Loc.visits onlineFds needPublish fds).rounds = (2, fds.length) := by
  cases fds <;> rfl

theorem program_descends : (program hash).Descends Loc.lt := by
  intro l l' s s' hstep
  rw [Loc.lt_iff]
  cases l with
  | unsubscribeFind mod fd =>
      simp only [Program.alone, program, code, Option.some.injEq, Prod.mk.injEq] at hstep
      rcases hstep with ⟨rfl, -⟩
      split_ifs
      · exact Or.inl (by simp [Loc.rounds])
      · exact Or.inl (by simp [Loc.rounds])
  | publishLoop changeMods =>
      cases changeMods with
      | nil =>
          cases hstep
          exact Or.inl (by decide)
      | cons mod changeMods =>
          simp only [Program.alone, program, code, Option.some.injEq, Prod.mk.injEq] at hstep
          rcases hstep with ⟨rfl, -⟩
          split
          · exact Or.inl (by simp [Loc.rounds])
          · rw [rounds_inner]
            exact Or.inl (by simp [Loc.rounds])
  | publishInsert mod fd fds changeMods =>
      cases hstep
      rw [rounds_inner]
      exact Or.inr ⟨rfl, Nat.lt_succ_self _⟩
  | mapBegin onlineFds =>
      cases hstep
      rw [rounds_visits]
      exact Or.inl (by simp [Loc.rounds])
  | mapVisit onlineFds fd fds needPublish =>
      have hl' : ∃ need, l' = .visits onlineFds need fds := by
        simp only [Program.alone, program, code, Option.some.injEq, Prod.mk.injEq] at hstep
        rw [← hstep.1]
        split_ifs
        · exact ⟨_, rfl⟩
        · exact ⟨_, rfl⟩
      rcases hl' with ⟨need, rfl⟩
      rw [rounds_visits]
      exact Or.inr ⟨rfl, Nat.lt_succ_self _⟩
  | done needPublish => cases hstep
  | _ =>
      cases hstep
      exact Or.inl (by simp [Loc.rounds])

theorem program_obeys (l : Loc) : (program hash).Obeys l ((program hash).code l) := by
  cases l with
  | publishLoop changeMods =>
      cases changeMods with
      | nil =>
          have herase : ({.push, .book} : Finset ListLock).erase .book = {.push} := by decide
          exact ⟨by simp [program, Loc.held], herase.symm, rfl, rfl⟩
      | cons mod changeMods =>
          refine ⟨by simp [program, Loc.held], fun table => ?_⟩
          dsimp only [program]
          split
          · exact ⟨rfl, fun _ => rfl⟩
          · exact ⟨held_inner _ _ _, fun _ => past_inner _ _ _⟩
  | publishInsert mod fd fds changeMods =>
      exact ⟨by simp [program, Loc.held], fun push =>
        ⟨held_inner _ _ _, fun _ => past_inner _ _ _⟩⟩
  | unsubscribeFind mod fd =>
      refine ⟨by simp [program, Loc.held], fun table => ?_⟩
      dsimp only [program]
      split_ifs
      · exact ⟨rfl, fun _ => rfl⟩
      · exact ⟨rfl, fun _ => rfl⟩
  | mapBegin onlineFds =>
      exact ⟨by simp [program, Loc.held], fun push =>
        ⟨held_visits _ _ _, fun _ => past_visits _ _ _⟩⟩
  | mapVisit onlineFds fd fds needPublish =>
      refine ⟨by simp [program, Loc.held], fun push => ?_⟩
      dsimp only [program]
      split_ifs
      · exact ⟨held_visits _ _ _, fun _ => past_visits _ _ _⟩
      · exact ⟨held_visits _ _ _, fun _ => past_visits _ _ _⟩
  | _ => simp [program, code, Program.Obeys, Loc.held, Loc.past]

theorem program_twoPhase : (program hash).TwoPhase where
  start_held g := by cases g <;> rfl
  start_past g := by cases g <;> rfl
  obeys := program_obeys
  returns := program_descends.returns Loc.lt_wf program_obeys

/-- `_book_list_lock` is taken before `_push_list_lock`. -/
def rank : ListLock → Nat
  | .book => 0
  | .push => 1

theorem program_ranked : (program hash).Ranked rank := by
  intro l k l' hcode k' hk'
  cases l with
  | publishLocked changeMods =>
      cases hcode
      simp only [program, Loc.held, Finset.mem_singleton] at hk'
      subst hk'
      exact Nat.zero_lt_one
  | subscribe mod fd => simp [program, Loc.held] at hk'
  | unsubscribe mod fd => simp [program, Loc.held] at hk'
  | publish changeMods => simp [program, Loc.held] at hk'
  | makePublishMap onlineFds => simp [program, Loc.held] at hk'
  | publishLoop changeMods => cases changeMods <;> cases hcode
  | _ => cases hcode

/-! ## What a call does on its own -/

/-- The two maps. -/
def maps (book : BookTable) (push : PushTable) : ∀ k, Guarded k
  | .book => book
  | .push => push

/-- The two lists, as `Subscribe` has them. -/
structure Lists where
  book : BookList
  push : PushList

namespace Lists

def empty : Lists :=
  { book := fun _ => ∅
    push := fun _ => ∅ }

/-- A whole call. -/
def apply (s : Lists) : Call → Lists
  | .subscribe mod fd => { s with book := subscribe s.book mod fd }
  | .unsubscribe mod fd => { s with book := unsubscribe s.book mod fd }
  | .publish changeMods => { s with push := publish s.book changeMods s.push }
  | .makePublishMap onlineFds => { s with push := makePublishMap s.push onlineFds }

/-- What a whole call hands to its caller. -/
def answer (s : Lists) : Call → Finset (Int × UInt64)
  | .makePublishMap onlineFds => needPublish s.push onlineFds
  | _ => ∅

/-- What the calls hand to their callers, one after the other. -/
def answers : Lists → List Call → List (Finset (Int × UInt64))
  | _, [] => []
  | s, g :: gs => s.answer g :: answers (s.apply g) gs

end Lists

open Program

variable {τ : Type} [DecidableEq τ]

/-- No maps have entries, and no thread is in a method. -/
def initial : Machine ListLock Guarded Loc Call PushTable τ :=
  .init (maps .empty ∅)

/-- The iterators run from the lowest descriptor to the highest. -/
def ascending : HashOrder where
  toList fds := fds.sort (· ≤ ·)
  mem_toList _ _ := Finset.mem_sort _

end SubscribeLocks
end Dns
end Rins
