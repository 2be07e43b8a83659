import Mathlib.Data.Finset.Image
import Mathlib.Data.Finset.Union
import Rins.Dns.Route

/-!
# Subscribe — who wants to hear about which route

`_book_list` maps a packed key to the descriptors subscribed to it; `_push_list` maps a descriptor
to the keys that have changed for it since its worker last looked.  Each method below is one
critical section.  A key of either map whose set is empty is the same as an absent key.
-/

namespace Rins
namespace Dns

/-- `_book_list`. -/
abbrev BookList := UInt64 → Finset Int

/-- `_push_list`. -/
abbrev PushList := Int → Finset UInt64

/-- `subscribe_list::subscribe`. -/
def subscribe (book : BookList) (mod : UInt64) (fd : Int) : BookList :=
  Function.update book mod (insert fd (book mod))

/-- `subscribe_list::unsubscribe`. -/
def unsubscribe (book : BookList) (mod : UInt64) (fd : Int) : BookList :=
  Function.update book mod ((book mod).erase fd)

/-- The critical section of `subscribe_list::publish`. -/
def publish (book : BookList) : List UInt64 → PushList → PushList
  | [], push => push
  | mod :: changes, push =>
      publish book changes fun fd => if fd ∈ book mod then insert mod (push fd) else push fd

/-- What `subscribe_list::make_publish_map` moves to `need_publish`: the entries of the given
descriptors. -/
def needPublish (push : PushList) (onlineFds : Finset Int) : Finset (Int × UInt64) :=
  onlineFds.biUnion fun fd => (push fd).image fun mod => (fd, mod)

/-- What `subscribe_list::make_publish_map` leaves behind. -/
def makePublishMap (push : PushList) (onlineFds : Finset Int) : PushList :=
  fun fd => if fd ∈ onlineFds then ∅ else push fd

theorem mem_subscribe {book : BookList} {mod mod' : UInt64} {fd fd' : Int} :
    fd' ∈ subscribe book mod fd mod' ↔ (mod' = mod ∧ fd' = fd) ∨ fd' ∈ book mod' := by
  unfold subscribe
  by_cases hmod : mod' = mod
  · subst hmod
    simp
  · simp [hmod]

theorem mem_unsubscribe {book : BookList} {mod mod' : UInt64} {fd fd' : Int} :
    fd' ∈ unsubscribe book mod fd mod' ↔ fd' ∈ book mod' ∧ ¬ (mod' = mod ∧ fd' = fd) := by
  unfold unsubscribe
  by_cases hmod : mod' = mod
  · subst hmod
    simp [and_comm]
  · simp [hmod]

/-- `publish` adds the changed keys to the descriptors subscribed to them. -/
theorem mem_publish {book : BookList} {changes : List UInt64} {push : PushList} {fd : Int}
    {mod : UInt64} :
    mod ∈ publish book changes push fd ↔ mod ∈ push fd ∨ (mod ∈ changes ∧ fd ∈ book mod) := by
  induction changes generalizing push with
  | nil =>
      simp [publish]
  | cons change changes ih =>
      rw [publish, ih]
      by_cases hfd : fd ∈ book change
      · simp only [hfd, if_true, Finset.mem_insert, List.mem_cons]
        constructor
        · rintro ((rfl | hold) | hlater)
          · exact Or.inr ⟨Or.inl rfl, hfd⟩
          · exact Or.inl hold
          · exact Or.inr ⟨Or.inr hlater.1, hlater.2⟩
        · rintro (hold | ⟨rfl | hlater, hbook⟩)
          · exact Or.inl (Or.inr hold)
          · exact Or.inl (Or.inl rfl)
          · exact Or.inr ⟨hlater, hbook⟩
      · simp only [hfd, if_false, List.mem_cons]
        constructor
        · rintro (hold | hlater)
          · exact Or.inl hold
          · exact Or.inr ⟨Or.inr hlater.1, hlater.2⟩
        · rintro (hold | ⟨rfl | hlater, hbook⟩)
          · exact Or.inl hold
          · exact absurd hbook hfd
          · exact Or.inr ⟨hlater, hbook⟩

theorem mem_needPublish {push : PushList} {onlineFds : Finset Int} {fd : Int} {mod : UInt64} :
    (fd, mod) ∈ needPublish push onlineFds ↔ fd ∈ onlineFds ∧ mod ∈ push fd := by
  simp only [needPublish, Finset.mem_biUnion, Finset.mem_image, Prod.mk.injEq]
  constructor
  · rintro ⟨fd', hfd', mod', hmod', rfl, rfl⟩
    exact ⟨hfd', hmod'⟩
  · rintro ⟨hfd, hmod⟩
    exact ⟨fd, hfd, mod, hmod, rfl, rfl⟩

theorem mem_makePublishMap {push : PushList} {onlineFds : Finset Int} {fd : Int} {mod : UInt64} :
    mod ∈ makePublishMap push onlineFds fd ↔ fd ∉ onlineFds ∧ mod ∈ push fd := by
  unfold makePublishMap
  by_cases hfd : fd ∈ onlineFds
  · simp [hfd]
  · simp [hfd]

end Dns
end Rins
