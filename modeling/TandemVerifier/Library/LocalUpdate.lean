import Mathlib.Data.List.Basic

/-! # Updates that are local to a few keys

A state is seen as a table. An update is local when it changes the table at listed keys
only, and there by the old entry alone. Local updates of disjoint keys commute.
-/
namespace TandemVerifier.Library.LocalUpdate
variable {σ κ β : Type} {view : σ → κ → β} {keys keys' : List κ} {f g : σ → σ}

/-- The update changes the table at the keys only and reads nothing else of it. -/
structure LocalOn (view : σ → κ → β) (keys : List κ) (f : σ → σ) : Prop where
  outside : ∀ (s : σ) (k : κ), k ∉ keys → view (f s) k = view s k
  congr : ∀ (s s' : σ) (k : κ), view s k = view s' k → view (f s) k = view (f s') k

theorem LocalOn.refl : LocalOn view [] (fun s => s) := ⟨fun _ _ _ => rfl,fun _ _ _ h => h⟩

theorem LocalOn.comm (hf : LocalOn view keys f) (hg : LocalOn view keys' g) (hdisjoint : keys.Disjoint keys')
    (s : σ) (k : κ) : view (f (g s)) k = view (g (f s)) k := by
  by_cases hk : k ∈ keys
  · have hother : k ∉ keys' := fun hk' => hdisjoint hk hk'
    rw [hg.outside (f s) k hother]
    exact hf.congr (g s) s k (hg.outside s k hother)
  · rw [hf.outside (g s) k hk]
    exact hg.congr s (f s) k (hf.outside s k hk).symm

end TandemVerifier.Library.LocalUpdate
