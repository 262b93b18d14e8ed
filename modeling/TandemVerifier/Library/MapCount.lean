import Std.Data.ExtTreeMap
import Mathlib.Data.List.Perm.Basic
import Mathlib.Data.List.Nodup
import TandemVerifier.Library.InverseIndex

/-! # Counting the entries of a finite map

The number of values with a property changes by at most one when a fresh key is
inserted, and is fixed when a map is changed at keys it already has without changing the
property. An index that inverts a location on the values has one entry for each value
with a location.
-/
namespace TandemVerifier.Library
open Std
variable {α β γ : Type} {cmp : α → α → Ordering} [TransCmp cmp] [LawfulEqCmp cmp]
variable {map map' : ExtTreeMap α β cmp} {key : α} {value : β}

/-- The number of values of a map that satisfy a predicate. -/
def countValues (p : β → Bool) (map : ExtTreeMap α β cmp) : ℕ := (map.toList.map Prod.snd).countP p

theorem toList_nodup (map : ExtTreeMap α β cmp) : map.toList.Nodup := by
  apply ExtTreeMap.distinct_keys_toList.imp
  intro a b hne hsame
  rw [hsame] at hne
  exact hne ReflCmp.compare_self

/-- Inserting a fresh key adds one entry. -/
theorem toList_insert_perm (hfresh : map[key]? = none) :
    (map.insert key value).toList.Perm ((key,value) :: map.toList) := by
  have hnodup : ((key,value) :: map.toList).Nodup := by
    refine List.nodup_cons.mpr ⟨?_,toList_nodup map⟩
    rw [ExtTreeMap.mem_toList_iff_getElem?_eq_some,hfresh]
    simp
  apply (List.perm_ext_iff_of_nodup (toList_nodup _) hnodup).mpr
  rintro ⟨k,v⟩
  rw [ExtTreeMap.mem_toList_iff_getElem?_eq_some,ExtTreeMap.getElem?_insert,List.mem_cons,
    ExtTreeMap.mem_toList_iff_getElem?_eq_some,Prod.mk.injEq]
  by_cases hkey : cmp key k = .eq
  · obtain rfl := LawfulEqCmp.eq_of_compare hkey
    simp [hfresh,hkey,eq_comm]
  · have hne : k ≠ key := by
      rintro rfl
      exact hkey ReflCmp.compare_self
    simp [hkey,hne]

theorem countValues_insert (p : β → Bool) (hfresh : map[key]? = none) :
    countValues p (map.insert key value) = countValues p map + if p value then 1 else 0 := by
  rw [countValues,((toList_insert_perm hfresh).map Prod.snd).countP_eq,List.map_cons,List.countP_cons]
  rfl

omit [LawfulEqCmp cmp] in
theorem countValues_true (map : ExtTreeMap α β cmp) : countValues (fun _ => true) map = map.size := by
  rw [countValues,List.countP_true,List.length_map,ExtTreeMap.length_toList]

omit [LawfulEqCmp cmp] in
theorem size_erase_add_one (h : key ∈ map) : (map.erase key).size + 1 = map.size := by
  have hpos : map.size ≠ 0 := by
    intro hzero
    rw [ExtTreeMap.eq_empty_iff_size_eq_zero.mpr hzero] at h
    exact ExtTreeMap.not_mem_empty h
  rw [ExtTreeMap.size_erase,if_pos (ExtTreeMap.mem_iff_contains.mp h)]
  omega

omit [LawfulEqCmp cmp] in
theorem size_insert_of_none (h : map[key]? = none) : (map.insert key value).size = map.size + 1 := by
  have hmem : ¬key ∈ map := by
    intro hmem
    rw [ExtTreeMap.mem_iff_isSome_getElem?,h] at hmem
    simp at hmem
  rw [ExtTreeMap.size_insert,if_neg (ExtTreeMap.mem_iff_contains.not.mp hmem)]

/-- Maps that agree on a projection of their entries count it alike. -/
theorem countValues_congr (p : γ → Bool) (f : β → γ) (h : ∀ k : α, map'[k]?.map f = map[k]?.map f) :
    countValues (fun value => p (f value)) map' = countValues (fun value => p (f value)) map := by
  have hmap : map'.map (fun _ value => f value) = map.map fun _ value => f value := by
    apply ExtTreeMap.ext_getElem?
    intro k
    rw [ExtTreeMap.getElem?_map,ExtTreeMap.getElem?_map,h]
  have hcount : ∀ m : ExtTreeMap α β cmp, countValues (fun value => p (f value)) m =
      countValues p (m.map fun _ value => f value) := by
    intro m
    rw [countValues,countValues,ExtTreeMap.toList_map,List.map_map,List.countP_map,List.countP_map]
    rfl
  rw [hcount,hcount,hmap]

/-- An inverse index has one entry for each value that occupies a location. -/
theorem IsInverseIndex.size_eq {L : Type} {cmpL : L → L → Ordering} [TransCmp cmpL] [LawfulEqCmp cmpL]
    {location : β → Option L} {index : ExtTreeMap L α cmpL}
    (h : IsInverseIndex location (fun k => map[k]?) (fun l => index[l]?)) :
    index.size = countValues (fun value => (location value).isSome) map := by
  have hkeys : (index.toList.map Prod.snd).Nodup := by
    rw [List.Nodup,List.pairwise_map]
    apply (toList_nodup index).imp_of_mem
    intro a b ha hb hne hsame
    rw [ExtTreeMap.mem_toList_iff_getElem?_eq_some] at ha hb
    exact hne (Prod.ext (h.location_unique (hsame ▸ ha) hb) hsame)
  have hentries : ((map.toList.filter fun entry => (location entry.2).isSome).map Prod.fst).Nodup := by
    rw [List.Nodup,List.pairwise_map]
    apply (ExtTreeMap.distinct_keys_toList.filter _).imp
    intro a b hne hsame
    rw [hsame] at hne
    exact hne ReflCmp.compare_self
  have hperm := (List.perm_ext_iff_of_nodup hkeys hentries).mpr (by
    intro k
    simp only [List.mem_map,List.mem_filter,Prod.exists,exists_eq_right,exists_and_right,
      ExtTreeMap.mem_toList_iff_getElem?_eq_some]
    constructor
    · rintro ⟨l,hl⟩
      obtain ⟨value,hvalue,hlocation⟩ := (h l k).mp hl
      exact ⟨value,hvalue,by simp [hlocation]⟩
    · rintro ⟨value,hvalue,hsome⟩
      exact (h.occupied_iff hvalue).mp hsome)
  have hlength := hperm.length_eq
  rw [List.length_map,ExtTreeMap.length_toList,List.length_map] at hlength
  rw [hlength,countValues,List.countP_map,List.countP_eq_length_filter]
  rfl

end TandemVerifier.Library
