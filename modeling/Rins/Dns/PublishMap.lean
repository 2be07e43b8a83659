import Rins.Dns.Subscribe
import Rins.Lib.NodeList
import Rins.Reactor.IoBuf

/-!
# PublishMap — the loop of `make_publish_map`

`_push_list` is a hash map, and `make_publish_map` erases the entries of its own descriptors while
an iterator runs over it.  The iterator is advanced after the entry behind it was erased.

The loop runs over the entries in whatever order the map has them: the order of the list.
-/

namespace Rins
namespace Dns

open Lib
open Reactor (Fault ok_bind)

/-- An entry of `_push_list`. -/
abbrev PushEntry := Int × Finset UInt64

/-- What `push_change_task` gets. -/
abbrev NeedPublish := Int → Option (Finset UInt64)

/-- Use of an iterator; an invalid one is a fault. -/
def through {α : Type} : Option α → Except Fault α
  | none => .error .deleted
  | some a => .ok a

/-- `find`, on the entries of a hash map. -/
def findEntry (entries : List PushEntry) (fd : Int) : Option (Finset UInt64) :=
  (entries.find? fun entry => entry.1 = fd).map Prod.snd

/-- The loop of `subscribe_list::make_publish_map`, for at most the given number of rounds. -/
def publishLoop (onlineFds : Finset Int) : Nat → NodeList PushEntry → Nat → NeedPublish →
    Except Fault (NodeList PushEntry × NeedPublish)
  | 0, _, _, _ => .error .unfinished
  | rounds + 1, pushList, it, needPublish =>
      if it = pushList.length then
        .ok (pushList, needPublish)
      else do
        let entry ← through (pushList.get it)
        if entry.1 ∈ onlineFds then
          -- `need_publish[it->first] = _push_list[it->first]`
          let mods := (findEntry pushList.toList entry.1).getD ∅
          let needPublish := Function.update needPublish entry.1 (some mods)
          let pushList ← through (pushList.erase it)
          let it ← through (pushList.incr it)
          publishLoop onlineFds rounds pushList it needPublish
        else
          let it ← through (pushList.incr it)
          publishLoop onlineFds rounds pushList it needPublish

/-- `subscribe_list::make_publish_map` with an empty `need_publish`: what it leaves in `_push_list`,
and `need_publish`. -/
def makePublishMapLoop (pushList : List PushEntry) (onlineFds : Finset Int) :
    Except Fault (List PushEntry × NeedPublish) := do
  let nodes := NodeList.ofList pushList
  let (left, needPublish) ←
    publishLoop onlineFds (pushList.length + 1) nodes (nodes.seek 0) fun _ => none
  return (left.toList, needPublish)

/-- The entries of the given descriptors go to `need_publish`, and the others stay. -/
def SplitsExactly (pushList : List PushEntry) (onlineFds : Finset Int) : Prop :=
  ∃ left needPublish, makePublishMapLoop pushList onlineFds = .ok (left, needPublish) ∧
    (∀ fd, needPublish fd = if fd ∈ onlineFds then findEntry pushList fd else none) ∧
    ∀ fd, findEntry left fd = if fd ∈ onlineFds then none else findEntry pushList fd

/-! ## Where the loop gets to -/

variable {onlineFds : Finset Int}

/-- The loop goes past an entry that it leaves where it is. -/
theorem publishLoop_skip {passed rest : List PushEntry} {entry : PushEntry}
    (hoff : entry.1 ∉ onlineFds) (rounds : Nat) (needPublish : NeedPublish) :
    publishLoop onlineFds (rounds + 1) (.ofList (passed ++ entry :: rest)) passed.length
        needPublish =
      publishLoop onlineFds rounds (.ofList ((passed ++ [entry]) ++ rest))
        (passed ++ [entry]).length needPublish := by
  have hlt : passed.length < (passed ++ entry :: rest).length := by simp
  have hne : passed.length ≠ (NodeList.ofList (passed ++ entry :: rest)).length := by
    rw [NodeList.length_ofList]
    omega
  have hget : (NodeList.ofList (passed ++ entry :: rest)).get passed.length = some entry := by
    simp [NodeList.get_ofList]
  simp only [publishLoop, hne, if_false, hget, through, ok_bind, hoff, NodeList.incr_ofList hlt]
  simp

/-- It stops at the first entry that it erases. -/
theorem publishLoop_erase {passed rest : List PushEntry} {entry : PushEntry}
    (hon : entry.1 ∈ onlineFds) (rounds : Nat) (needPublish : NeedPublish) :
    publishLoop onlineFds (rounds + 1) (.ofList (passed ++ entry :: rest)) passed.length
      needPublish = .error .deleted := by
  have hne : passed.length ≠ (NodeList.ofList (passed ++ entry :: rest)).length := by
    simp
  have hget : (NodeList.ofList (passed ++ entry :: rest)).get passed.length = some entry := by
    simp [NodeList.get_ofList]
  cases herase : (NodeList.ofList (passed ++ entry :: rest)).erase passed.length with
  | none => simp [NodeList.erase, hget] at herase
  | some left =>
      -- the iterator that is advanced is the one through which the entry was erased
      have hinvalid := NodeList.incr_erase herase
      simp only [publishLoop, hne, if_false, hget, through, ok_bind, hon, if_true, herase,
        hinvalid]
      rfl

/-- The loop ends if it has nothing to erase, and otherwise it fails. -/
theorem publishLoop_ends (onlineFds : Finset Int) (rest : List PushEntry) :
    ∀ (passed : List PushEntry) (rounds : Nat) (needPublish : NeedPublish), rest.length < rounds →
      publishLoop onlineFds rounds (.ofList (passed ++ rest)) passed.length needPublish =
        if ∃ entry ∈ rest, entry.1 ∈ onlineFds then .error .deleted
        else .ok (.ofList (passed ++ rest), needPublish) := by
  induction rest with
  | nil =>
      intro passed rounds needPublish hrounds
      rcases rounds with _ | rounds
      · omega
      · simp [publishLoop]
  | cons entry rest ih =>
      intro passed rounds needPublish hrounds
      rcases rounds with _ | rounds
      · omega
      by_cases hon : entry.1 ∈ onlineFds
      · rw [publishLoop_erase hon, if_pos ⟨entry, by simp, hon⟩]
      · have hiff : (∃ later ∈ entry :: rest, later.1 ∈ onlineFds) ↔
            ∃ later ∈ rest, later.1 ∈ onlineFds := by simp [hon]
        rw [publishLoop_skip hon, ih _ _ _ (by simpa using hrounds)]
        simp only [hiff, List.append_assoc, List.singleton_append]

theorem makePublishMapLoop_eq (pushList : List PushEntry) (onlineFds : Finset Int) :
    makePublishMapLoop pushList onlineFds =
      if ∃ entry ∈ pushList, entry.1 ∈ onlineFds then .error .deleted
      else .ok (pushList, fun _ => none) := by
  have hends := publishLoop_ends onlineFds pushList [] (pushList.length + 1)
    (fun _ => none) (by omega)
  simp only [List.nil_append, List.length_nil] at hends
  simp only [makePublishMapLoop, NodeList.seek_ofList, hends]
  split_ifs
  · rfl
  · simp

/-- `make_publish_map` splits `_push_list` if and only if there is nothing to split off. -/
theorem splitsExactly_iff (pushList : List PushEntry) (onlineFds : Finset Int) :
    SplitsExactly pushList onlineFds ↔ ∀ entry ∈ pushList, entry.1 ∉ onlineFds := by
  unfold SplitsExactly
  rw [makePublishMapLoop_eq]
  constructor
  · rintro ⟨left, needPublish, hloop, _⟩ entry hentry hon
    rw [if_pos ⟨entry, hentry, hon⟩] at hloop
    cases hloop
  · intro hoff
    have hnone : ∀ fd ∈ onlineFds, findEntry pushList fd = none := by
      intro fd hfd
      simp only [findEntry, Option.map_eq_none_iff, List.find?_eq_none, decide_eq_true_eq]
      rintro entry hentry rfl
      exact hoff entry hentry hfd
    refine ⟨pushList, fun _ => none, ?_, fun fd => ?_, fun fd => ?_⟩
    · rw [if_neg]
      rintro ⟨entry, hentry, hon⟩
      exact hoff entry hentry hon
    · by_cases hfd : fd ∈ onlineFds
      · simp [hfd, hnone fd hfd]
      · simp [hfd]
    · by_cases hfd : fd ∈ onlineFds
      · simp [hfd, hnone fd hfd]
      · simp [hfd]

/-- One descriptor with one changed key, and it is online. -/
theorem splitsExactly_fails :
    ¬ ∀ (pushList : List PushEntry) (onlineFds : Finset Int),
      (pushList.map Prod.fst).Nodup → SplitsExactly pushList onlineFds := by
  intro hall
  rcases hall [(7, {1})] {7} (by simp) with ⟨left, needPublish, hloop, _⟩
  rw [makePublishMapLoop_eq, if_pos ⟨(7, {1}), by simp⟩] at hloop
  cases hloop

/-! ## The split that is meant -/

/-- The keys of each descriptor. -/
def PushList.ofEntries (pushList : List PushEntry) : PushList :=
  fun fd => (findEntry pushList fd).getD ∅

/-- A map that is split exactly is split as `Subscribe` has it. -/
theorem SplitsExactly.makePublishMap_eq {pushList : List PushEntry}
    (h : SplitsExactly pushList onlineFds) :
    ∃ left need, makePublishMapLoop pushList onlineFds = .ok (left, need) ∧
      PushList.ofEntries left = makePublishMap (.ofEntries pushList) onlineFds ∧
      ∀ fd mod, (fd, mod) ∈ needPublish (.ofEntries pushList) onlineFds ↔
        ∃ mods, need fd = some mods ∧ mod ∈ mods := by
  rcases h with ⟨left, need, hloop, hneed, hleft⟩
  refine ⟨left, need, hloop, ?_, ?_⟩
  · funext fd
    simp only [PushList.ofEntries, makePublishMap, hleft]
    split_ifs <;> rfl
  · intro fd mod
    rw [mem_needPublish, hneed, PushList.ofEntries]
    by_cases hfd : fd ∈ onlineFds
    · cases findEntry pushList fd <;> simp [hfd]
    · simp [hfd]

end Dns
end Rins
