import Mathlib.Data.List.Sort
import TandemVerifier.Library.Outcome

/-! # Tables under constraints

A table is the list of its rows in insertion order. Rows are inserted one at a time,
each computed from an item by a conversion that may fail and admitted by a constraint
on the rows already present. A statement that inserts all its rows extends the table
by exactly the converted items. A query selects rows, orders them by a key and keeps a
bounded number; where the keys are distinct its answer does not depend on the order of
the table.
-/
namespace TandemVerifier.Library.Table
open Outcome
variable {ε α ρ κ : Type} {admits : List ρ → ρ → Bool} {violation : ε} {convert : α → Outcome ε ρ}
variable {table result : List ρ} {items : List α}

/-- Insert a row that the constraint admits. -/
def insertRow (admits : List ρ → ρ → Bool) (violation : ε) (table : List ρ) (row : ρ) :
    Outcome ε (List ρ) := do
  failIf (!admits table row) violation
  pure (table ++ [row])

/-- Convert and insert every item in order. -/
def insertEach (admits : List ρ → ρ → Bool) (violation : ε) (convert : α → Outcome ε ρ) :
    List ρ → List α → Outcome ε (List ρ)
  | table,[] => pure table
  | table,item :: rest => do
    let row ← convert item
    let table ← insertRow admits violation table row
    insertEach admits violation convert table rest

/-- The constraint of a unique column. -/
def unique [DecidableEq κ] (column : ρ → κ) (table : List ρ) (row : ρ) : Bool :=
  table.all fun other => column other ≠ column row

theorem insertRow_eq_ok {row : ρ} :
    insertRow admits violation table row = ok result ↔
      admits table row = true ∧ result = table ++ [row] := by
  simp only [insertRow,bind_eq_ok,failIf_eq_ok,Bool.not_eq_false',pure_eq_ok,Outcome.ok.injEq]
  constructor
  · rintro ⟨_,hadmits,rfl⟩
    exact ⟨hadmits,rfl⟩
  · rintro ⟨hadmits,rfl⟩
    exact ⟨(),hadmits,rfl⟩

/-- A conversion that can only return `row` extends the table by the mapped items. -/
theorem insertEach_map (row : α → ρ) (hconvert : ∀ item found, convert item = ok found → found = row item)
    (h : insertEach admits violation convert table items = ok result) :
    result = table ++ items.map row ∧ ∀ item ∈ items, convert item = ok (row item) := by
  induction items generalizing table with
  | nil =>
    simp only [insertEach,pure_eq_ok,Outcome.ok.injEq] at h
    simp [h]
  | cons item rest ih =>
    simp only [insertEach,bind_eq_ok,insertRow_eq_ok] at h
    obtain ⟨found,hfound,_,⟨_,rfl⟩,hrest⟩ := h
    obtain ⟨hresult,hitems⟩ := ih hrest
    obtain rfl := hconvert item found hfound
    refine ⟨by simp [hresult],?_⟩
    intro other hother
    rcases List.mem_cons.mp hother with rfl | htail
    · exact hfound
    · exact hitems other htail

/-- Items that convert and are admitted one after another are all inserted. -/
theorem insertEach_admitted {row : α → ρ} (hconvert : ∀ item ∈ items, convert item = ok (row item))
    (hadmits : ∀ earlier item later, items = earlier ++ item :: later →
      admits (table ++ earlier.map row) (row item) = true) :
    insertEach admits violation convert table items = ok (table ++ items.map row) := by
  induction items generalizing table with
  | nil =>
    rw [List.map_nil,List.append_nil]
    rfl
  | cons item rest ih =>
    have hfirst : insertRow admits violation table (row item) = ok (table ++ [row item]) := by
      refine insertRow_eq_ok.mpr ⟨?_,rfl⟩
      simpa using hadmits [] item rest rfl
    rw [insertEach,hconvert item List.mem_cons_self,ok_bind,hfirst,ok_bind,ih]
    · simp
    · intro other hother
      exact hconvert other (List.mem_cons_of_mem item hother)
    · intro earlier other later hsplit
      have hadmitted := hadmits (item :: earlier) other later (by rw [hsplit,List.cons_append])
      simpa using hadmitted

/-- Rows with distinct keys can be inserted into an empty table. -/
theorem insertEach_distinct [DecidableEq κ] {column : ρ → κ} (row : α → ρ)
    (hconvert : ∀ item ∈ items, convert item = ok (row item))
    (hnodup : (items.map fun item => column (row item)).Nodup) :
    insertEach (unique column) violation convert [] items = ok (items.map row) := by
  apply insertEach_admitted hconvert
  intro earlier item later hsplit
  rw [hsplit,List.map_append,List.map_cons] at hnodup
  simp only [unique,List.nil_append,List.all_eq_true,List.mem_map,forall_exists_index,and_imp,
    forall_apply_eq_imp_iff₂,decide_eq_true_eq]
  intro other hother hsame
  refine List.disjoint_of_nodup_append hnodup (List.mem_map_of_mem hother) ?_
  rw [hsame]
  exact List.mem_cons_self

section Select
variable [LinearOrder κ] {keep : ρ → Bool} {key : ρ → κ} {limit : ℕ}

/-- `SELECT .. WHERE keep ORDER BY key LIMIT limit`. -/
def select (keep : ρ → Bool) (key : ρ → κ) (limit : ℕ) (table : List ρ) : List ρ :=
  ((table.filter keep).insertionSort fun a b => key a ≤ key b).take limit

/-- Rows with increasing keys are equal when their keys are. -/
theorem eq_of_key_eq (h : table.Pairwise fun a b => key a < key b) {a b : ρ} (ha : a ∈ table)
    (hb : b ∈ table) (hkey : key a = key b) : a = b := by
  have hnodup : (table.map key).Nodup := by
    rw [List.Nodup,List.pairwise_map]
    exact h.imp fun hlt => ne_of_lt hlt
  exact List.inj_on_of_nodup_map hnodup ha hb hkey

/-- A query on distinct keys answers from the ordered table, in whichever order the rows lie. -/
theorem select_eq (hperm : result.Perm table) (hsorted : result.Pairwise fun a b => key a < key b) :
    select keep key limit table = (result.filter keep).take limit := by
  have hrows : (table.filter keep).Perm (result.filter keep) := hperm.symm.filter keep
  have horder := (List.perm_insertionSort (fun a b => key a ≤ key b) (table.filter keep)).trans hrows
  rw [select]
  congr 1
  refine horder.eq_of_pairwise ?_ (List.pairwise_insertionSort _ _) ?_
  · intro a b ha hb hab hba
    have ha' := List.mem_of_mem_filter (horder.subset ha)
    exact eq_of_key_eq hsorted ha' (List.mem_of_mem_filter hb) (le_antisymm hab hba)
  · exact (hsorted.filter _).imp le_of_lt

end Select

end TandemVerifier.Library.Table
