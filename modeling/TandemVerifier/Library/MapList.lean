import TandemVerifier.Library.MapCount
import Mathlib.Data.List.Perm.Subperm

/-! # Finite maps built from lists of entries

A later entry replaces an earlier one with the same key, so the map of a list has as many
entries as the list exactly when no key is repeated, and is then the list up to order.
-/
namespace TandemVerifier.Library
open Std
variable {α β : Type} {cmp : α → α → Ordering} [TransCmp cmp] [LawfulEqCmp cmp] [DecidableEq α]
variable {map : ExtTreeMap α β cmp} {pairs : List (α × β)}

omit [DecidableEq α] [TransCmp cmp] in
theorem distinct_of_nodup (h : (pairs.map Prod.fst).Nodup) :
    pairs.Pairwise fun a b => ¬cmp a.1 b.1 = .eq := by
  apply (List.pairwise_map.mp h).imp
  intro a b hne heq
  exact hne (LawfulEqCmp.eq_of_compare heq)

theorem toList_ofList_perm (h : (pairs.map Prod.fst).Nodup) :
    (ExtTreeMap.ofList pairs cmp).toList.Perm pairs := by
  apply (List.perm_ext_iff_of_nodup (toList_nodup _) (List.Nodup.of_map _ h)).mpr
  rintro ⟨key,value⟩
  rw [ExtTreeMap.mem_toList_iff_getElem?_eq_some]
  have hget : ∀ v, (key,v) ∈ pairs → (ExtTreeMap.ofList pairs cmp)[key]? = some v := fun v hv =>
    ExtTreeMap.getElem?_ofList_of_mem ReflCmp.compare_self (distinct_of_nodup h) hv
  refine ⟨fun hvalue => ?_,hget value⟩
  by_cases hkey : key ∈ pairs.map Prod.fst
  · obtain ⟨⟨_,v⟩,hv,rfl⟩ := List.mem_map.mp hkey
    have hsame := (hget v hv).symm.trans hvalue
    rw [← Option.some.inj hsame]
    exact hv
  · have hnone : (ExtTreeMap.ofList pairs cmp)[key]? = none :=
      ExtTreeMap.getElem?_ofList_of_contains_eq_false (by simpa using hkey)
    simp [hnone] at hvalue

/-- A map is rebuilt from its entries in any order. -/
theorem ofList_eq_of_perm (h : pairs.Perm map.toList) : ExtTreeMap.ofList pairs cmp = map := by
  have hkeys : (pairs.map Prod.fst).Nodup := by
    apply (h.map Prod.fst).nodup_iff.mpr
    rw [ExtTreeMap.map_fst_toList_eq_keys]
    exact ExtTreeMap.nodup_keys
  exact ExtTreeMap.ext_toList ((toList_ofList_perm hkeys).trans h)

/-- A map that has as many entries as the list it is built from has seen no key twice. -/
theorem nodup_of_size_ofList (h : (ExtTreeMap.ofList pairs cmp).size = pairs.length) :
    (pairs.map Prod.fst).Nodup := by
  have hnodup : (ExtTreeMap.ofList pairs cmp).keys.Nodup := ExtTreeMap.nodup_keys
  have hsubset : (ExtTreeMap.ofList pairs cmp).keys ⊆ pairs.map Prod.fst := by
    intro key hkey
    rw [ExtTreeMap.mem_keys,ExtTreeMap.mem_ofList] at hkey
    simpa using hkey
  have hlength : (pairs.map Prod.fst).length = (ExtTreeMap.ofList pairs cmp).keys.length := by
    rw [ExtTreeMap.length_keys,h,List.length_map]
  have hperm := (List.subperm_of_subset hnodup hsubset).perm_of_length_le (Nat.le_of_eq hlength)
  exact hperm.nodup_iff.mp hnodup

omit [DecidableEq α] in
/-- A query that keeps the entries of at most one key finds the value of that key or nothing. -/
theorem filter_toList_eq {keep : α × β → Bool} {wanted : Option α}
    (h : ∀ key value, map[key]? = some value → (keep (key,value) = true ↔ wanted = some key)) :
    map.toList.filter keep =
      (wanted.bind fun key => map[key]?.map fun value => (key,value)).toList := by
  have hnodup : (map.toList.filter keep).Nodup := (toList_nodup map).filter _
  have hmem : ∀ entry, entry ∈ map.toList.filter keep ↔
      wanted = some entry.1 ∧ map[entry.1]? = some entry.2 := by
    rintro ⟨key,value⟩
    rw [List.mem_filter,ExtTreeMap.mem_toList_iff_getElem?_eq_some,and_comm]
    exact and_congr_left (h key value)
  have hsame : ∀ entry, entry ∈ map.toList.filter keep ↔
      entry ∈ (wanted.bind fun key => map[key]?.map fun value => (key,value)).toList := by
    rintro ⟨key,value⟩
    rw [hmem]
    simp [Option.bind_eq_some_iff,and_comm]
  generalize (wanted.bind fun key => map[key]?.map fun value => (key,value)) = found at hsame ⊢
  cases found with
  | none =>
    apply List.eq_nil_iff_forall_not_mem.mpr
    intro entry hentry
    simpa using (hsame entry).mp hentry
  | some entry =>
    have hperm := (List.perm_ext_iff_of_nodup hnodup (List.nodup_singleton entry)).mpr hsame
    exact List.perm_singleton.mp hperm

end TandemVerifier.Library
