import Mathlib.Logic.Function.Basic
import Mathlib.Tactic.Common

/-! # Inverse indexes of a table

A table maps keys to values, some of which occupy a location. An index maps each
occupied location back to the key of its value. Writing one value moves at most one
entry of the index.
-/
namespace TandemVerifier.Library
variable {K V L : Type*} {location : V → Option L} {table : K → Option V} {index : L → Option K}

/-- The index holds exactly the locations occupied by the values of the table. -/
def IsInverseIndex (location : V → Option L) (table : K → Option V) (index : L → Option K) : Prop :=
  ∀ l k, index l = some k ↔ ∃ v, table k = some v ∧ location v = some l

namespace IsInverseIndex

theorem location_unique {k : K} {l l' : L} (h : IsInverseIndex location table index)
    (hl : index l = some k) (hl' : index l' = some k) : l = l' := by
  obtain ⟨v,hv,hloc⟩ := (h l k).mp hl
  obtain ⟨v',hv',hloc'⟩ := (h l' k).mp hl'
  rw [hv] at hv'
  cases hv'
  exact Option.some.inj (hloc.symm.trans hloc')

theorem occupied_iff {k : K} {v : V} (h : IsInverseIndex location table index)
    (hv : table k = some v) : (location v).isSome ↔ ∃ l, index l = some k := by
  constructor
  · intro hsome
    obtain ⟨l,hl⟩ := Option.isSome_iff_exists.mp hsome
    exact ⟨l,(h l k).mpr ⟨v,hv,hl⟩⟩
  · rintro ⟨l,hl⟩
    obtain ⟨v',hv',hloc⟩ := (h l k).mp hl
    rw [hv] at hv'
    cases hv'
    simp [hloc]

/-- Writing one value drops the entries of its key and enters its new location. -/
theorem write [DecidableEq K] [DecidableEq L] {table' : K → Option V} {index' : L → Option K} {k : K}
    {v : V} (h : IsInverseIndex location table index)
    (htable : ∀ k', table' k' = if k = k' then some v else table k')
    (hindex : ∀ l, index' l =
      if location v = some l then some k else if index l = some k then none else index l)
    (hfree : ∀ l, location v = some l → ∀ k', index l = some k' → k' = k) :
    IsInverseIndex location table' index' := by
  intro l k'
  rw [htable,hindex]
  by_cases hk : k = k'
  · subst hk
    simp only [if_true,Option.some.injEq,exists_eq_left']
    by_cases hl : location v = some l
    · simp [hl]
    · by_cases hi : index l = some k <;> simp [hl,hi]
  · simp only [if_neg hk]
    by_cases hl : location v = some l
    · simp only [if_pos hl,Option.some.injEq,hk,false_iff]
      intro hex
      exact hk (hfree l hl k' ((h l k').mpr hex)).symm
    · rw [if_neg hl]
      by_cases hi : index l = some k
      · simp only [if_pos hi,reduceCtorEq,false_iff]
        intro hex
        rw [(h l k').mpr hex] at hi
        exact hk (Option.some.inj hi).symm
      · rw [if_neg hi]
        exact h l k'

end IsInverseIndex
end TandemVerifier.Library
