import Mathlib.Tactic.Common

/-! # Runs that must end

A transition system whose steps keep an invariant and decrease a measure, and in which
every state that satisfies the invariant is final or has a successor, reaches a final
state on every run, in at most as many steps as the measure says.
-/
namespace TandemVerifier.Library.Termination
variable {α : Type} {step : α → α → Prop} {final : α → Prop} {bound : ℕ} {a b : α}

/-- Runs with the number of their steps. -/
inductive RunIn (step : α → α → Prop) : ℕ → α → α → Prop
  | refl (a : α) : RunIn step 0 a a
  | tail {n : ℕ} {a b c : α} (h : RunIn step n a b) (hstep : step b c) : RunIn step (n + 1) a c

/-- No run has more steps than the bound, and none stops before a final state. -/
def Inevitable (step : α → α → Prop) (final : α → Prop) (bound : ℕ) (a : α) : Prop :=
  ∀ n b, RunIn step n a b → n ≤ bound ∧ (final b ∨ ∃ c, step b c)

theorem RunIn.decreases {invariant : α → Prop} {measure : α → ℕ}
    (hstep : ∀ a b, invariant a → step a b → invariant b ∧ measure b < measure a) (ha : invariant a)
    {n : ℕ} (h : RunIn step n a b) : invariant b ∧ n + measure b ≤ measure a := by
  induction h with
  | refl => exact ⟨ha,by omega⟩
  | tail _ hnext ih =>
    obtain ⟨hinvariant,hle⟩ := ih ha
    obtain ⟨hkept,hlt⟩ := hstep _ _ hinvariant hnext
    exact ⟨hkept,by omega⟩

theorem inevitable_of_measure (invariant : α → Prop) (measure : α → ℕ)
    (hstep : ∀ a b, invariant a → step a b → invariant b ∧ measure b < measure a)
    (hprogress : ∀ a, invariant a → final a ∨ ∃ b, step a b) (ha : invariant a)
    (hbound : measure a ≤ bound) : Inevitable step final bound a := by
  intro n b hrun
  obtain ⟨hinvariant,hle⟩ := hrun.decreases hstep ha
  exact ⟨by omega,hprogress b hinvariant⟩

/-- Under such a measure a final state is indeed reached. -/
theorem Inevitable.reached (h : Inevitable step final bound a) : ∃ n b, n ≤ bound ∧ RunIn step n a b ∧ final b := by
  by_contra hnever
  push Not at hnever
  have hlong : ∀ n, ∃ b, RunIn step n a b := by
    intro n
    induction n with
    | zero => exact ⟨a,.refl a⟩
    | succ n ih =>
      obtain ⟨b,hrun⟩ := ih
      obtain ⟨hle,hfinal | ⟨c,hstep⟩⟩ := h n b hrun
      · exact absurd hfinal (hnever n b hle hrun)
      · exact ⟨c,.tail hrun hstep⟩
  obtain ⟨b,hrun⟩ := hlong (bound + 1)
  have hle := (h _ _ hrun).1
  omega

theorem RunIn.head {n : ℕ} (h : RunIn step n a b) : (n = 0 ∧ b = a) ∨ ∃ m c, n = m + 1 ∧ step a c ∧ RunIn step m c b := by
  induction h with
  | refl => exact Or.inl ⟨rfl,rfl⟩
  | tail h hstep ih =>
    rcases ih with ⟨rfl,rfl⟩ | ⟨m,c,rfl,hfirst,hrest⟩
    · exact Or.inr ⟨0,_,rfl,hstep,.refl _⟩
    · exact Or.inr ⟨m + 1,c,rfl,hfirst,.tail hrest hstep⟩

/-- A final state without a step. -/
theorem Inevitable.stop (hfinal : final a) (hstop : ∀ b, ¬ step a b) : Inevitable step final bound a := by
  intro n b hrun
  rcases hrun.head with ⟨rfl,rfl⟩ | ⟨_,c,_,hstep,_⟩
  · exact ⟨Nat.zero_le _,Or.inl hfinal⟩
  · exact absurd hstep (hstop c)

/-- A state whose only step leads to one from which the runs end. -/
theorem Inevitable.next (hstep : ∀ c, step a c ↔ c = b) (h : Inevitable step final bound b) :
    Inevitable step final (bound + 1) a := by
  intro n c hrun
  rcases hrun.head with ⟨rfl,rfl⟩ | ⟨m,d,rfl,hfirst,hrest⟩
  · exact ⟨Nat.zero_le _,Or.inr ⟨b,(hstep b).mpr rfl⟩⟩
  · obtain rfl := (hstep d).mp hfirst
    obtain ⟨hle,hends⟩ := h m c hrest
    exact ⟨by omega,hends⟩

end TandemVerifier.Library.Termination
