import Mathlib.Data.List.Basic
import Mathlib.Tactic.Common

/-!
# Run — runs of a labelled transition function

A concurrent system is a function `step : σ → ι → Option σ`: the label says which party moves and
how the environment answers, `none` means that the move is not possible in this state.  A run is a
list of labels, so a statement about all interleavings is a statement about all lists.

Some results only hold for runs whose steps all meet a condition on the state they are taken from;
`Meets` is that side condition, and `run_invariant` is the induction rule for both kinds.
-/

namespace Rins
namespace Lib

universe u v w x

variable {σ : Type u} {ι : Type v}

/-- Take the steps labelled by the list, in order. -/
def run (step : σ → ι → Option σ) : σ → List ι → Option σ
  | s, [] => some s
  | s, a :: as => (step s a).bind fun t => run step t as

/-- Every step of the run is taken in a state where `P` allows it. -/
def Meets (step : σ → ι → Option σ) (P : σ → ι → Prop) : σ → List ι → Prop
  | _, [] => True
  | s, a :: as => P s a ∧ ∀ t, step s a = some t → Meets step P t as

/-- Whether a run meets a decidable condition can be computed along the run. -/
instance decidableMeets (step : σ → ι → Option σ) (P : σ → ι → Prop)
    [∀ s a, Decidable (P s a)] : ∀ s as, Decidable (Meets step P s as)
  | _, [] => isTrue trivial
  | s, a :: as =>
      match h : step s a with
      | none => decidable_of_iff (P s a) (by simp [Meets, h])
      | some t =>
          have := decidableMeets step P t as
          decidable_of_iff (P s a ∧ Meets step P t as) (by simp [Meets, h])

section Rules

variable {step : σ → ι → Option σ} {P : σ → ι → Prop}

theorem run_cons {s u : σ} {a : ι} {as : List ι} :
    run step s (a :: as) = some u ↔ ∃ t, step s a = some t ∧ run step t as = some u := by
  simp [run, Option.bind_eq_some_iff]

theorem run_append (s : σ) (as bs : List ι) :
    run step s (as ++ bs) = (run step s as).bind fun t => run step t bs := by
  induction as generalizing s with
  | nil =>
      rfl
  | cons a as ih =>
      simp only [List.cons_append, run, Option.bind_assoc]
      congr 1
      funext t
      exact ih t

/-- What one allowed step keeps, every allowed run keeps. -/
theorem run_invariant {I : σ → Prop}
    (hstep : ∀ s a t, I s → P s a → step s a = some t → I t) :
    ∀ {as : List ι} {s t : σ}, I s → Meets step P s as → run step s as = some t → I t := by
  intro as
  induction as with
  | nil =>
      intro s t hs _ hrun
      cases hrun
      exact hs
  | cons a as ih =>
      intro s t hs hmeets hrun
      rcases run_cons.1 hrun with ⟨m, hm, hrest⟩
      exact ih (hstep s a m hs hmeets.1 hm) (hmeets.2 m hm) hrest

/-- Where an invariant makes one condition imply another, the runs that meet the first meet the
second. -/
theorem Meets.of_invariant {Q : σ → ι → Prop} {I : σ → Prop}
    (himp : ∀ s a, I s → P s a → Q s a)
    (hstep : ∀ s a t, I s → P s a → step s a = some t → I t) :
    ∀ {as : List ι} {s : σ}, I s → Meets step P s as → Meets step Q s as := by
  intro as
  induction as with
  | nil =>
      intro s _ _
      trivial
  | cons a as ih =>
      intro s hs hmeets
      exact ⟨himp s a hs hmeets.1, fun t ht => ih (hstep s a t hs hmeets.1 ht) (hmeets.2 t ht)⟩

theorem Meets.mono {Q : σ → ι → Prop} (himp : ∀ s a, P s a → Q s a) {as : List ι} {s : σ}
    (h : Meets step P s as) : Meets step Q s as :=
  Meets.of_invariant (I := fun _ => True) (fun s a _ => himp s a) (fun _ _ _ _ _ _ => trivial)
    trivial h

theorem Meets.and {Q : σ → ι → Prop} {as : List ι} :
    ∀ {s : σ}, Meets step P s as → Meets step Q s as →
      Meets step (fun s a => P s a ∧ Q s a) s as := by
  induction as with
  | nil =>
      intro s _ _
      trivial
  | cons a as ih =>
      intro s hP hQ
      exact ⟨⟨hP.1, hQ.1⟩, fun t ht => ih (hP.2 t ht) (hQ.2 t ht)⟩

/-- Two conditions that agree wherever the invariant holds are met by the same runs. -/
theorem meets_iff {Q : σ → ι → Prop} {A : ι → Prop} {I : σ → Prop}
    (hagree : ∀ s a, I s → A a → (P s a ↔ Q s a))
    (hstep : ∀ s a t, I s → A a → P s a → step s a = some t → I t) :
    ∀ {as : List ι} {s : σ}, I s → (∀ a ∈ as, A a) → (Meets step P s as ↔ Meets step Q s as) := by
  intro as
  induction as with
  | nil =>
      intro s _ _
      exact Iff.rfl
  | cons a as ih =>
      intro s hs has
      -- the step that either side allows is allowed by both, so the invariant goes on to the rest
      have ha : A a := has a (by simp)
      have hrest : ∀ a' ∈ as, A a' := fun a' ha' => has a' (by simp [ha'])
      constructor
      · rintro ⟨hP, hmeets⟩
        refine ⟨(hagree s a hs ha).1 hP, fun t ht => ?_⟩
        exact (ih (hstep s a t hs ha hP ht) hrest).1 (hmeets t ht)
      · rintro ⟨hQ, hmeets⟩
        have hP : P s a := (hagree s a hs ha).2 hQ
        refine ⟨hP, fun t ht => ?_⟩
        exact (ih (hstep s a t hs ha hP ht) hrest).2 (hmeets t ht)

theorem meets_true (s : σ) (as : List ι) : Meets step (fun _ _ => True) s as := by
  induction as generalizing s with
  | nil =>
      trivial
  | cons a as ih =>
      exact ⟨trivial, fun t _ => ih t⟩

/-- What every step keeps, every run keeps. -/
theorem run_invariant_always {I : σ → Prop} (hstep : ∀ s a t, I s → step s a = some t → I t)
    {as : List ι} {s t : σ} (hs : I s) (hrun : run step s as = some t) : I t :=
  run_invariant (P := fun _ _ => True) (fun s a t h _ => hstep s a t h) hs (meets_true s as) hrun

/-! ## States that can be reached -/

/-- Some run leads from one state to the other. -/
def Reaches (step : σ → ι → Option σ) (s t : σ) : Prop :=
  ∃ as, run step s as = some t

theorem Reaches.refl (s : σ) : Reaches step s s :=
  ⟨[], rfl⟩

theorem Reaches.of_step {s t : σ} {a : ι} (h : step s a = some t) : Reaches step s t :=
  ⟨[a], run_cons.2 ⟨t, h, rfl⟩⟩

theorem Reaches.trans {s t u : σ} (hst : Reaches step s t) (htu : Reaches step t u) :
    Reaches step s u := by
  rcases hst with ⟨as, has⟩
  rcases htu with ⟨bs, hbs⟩
  refine ⟨as ++ bs, ?_⟩
  rw [run_append, has]
  exact hbs

/-- If one system answers every allowed step of another by a step of its own, it can follow every
allowed run. -/
theorem run_simulates {τ : Type w} {κ : Type x} {answer : τ → κ → Option τ} {R : σ → τ → Prop}
    (hstep : ∀ s a s' t, R s t → P s a → step s a = some s' →
      ∃ b t', answer t b = some t' ∧ R s' t') :
    ∀ {as : List ι} {s s' : σ} {t : τ}, R s t → Meets step P s as → run step s as = some s' →
      ∃ t', Reaches answer t t' ∧ R s' t' := by
  intro as
  induction as with
  | nil =>
      intro s s' t hR _ hrun
      cases hrun
      exact ⟨t, .refl t, hR⟩
  | cons a as ih =>
      intro s s' t hR hmeets hrun
      rcases run_cons.1 hrun with ⟨m, hm, hrest⟩
      rcases hstep s a m t hR hmeets.1 hm with ⟨b, n, hn, hRn⟩
      rcases ih hRn (hmeets.2 m hm) hrest with ⟨t', hreach, hR'⟩
      exact ⟨t', (Reaches.of_step hn).trans hreach, hR'⟩

end Rules

end Lib
end Rins
