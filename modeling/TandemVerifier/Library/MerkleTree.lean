import Mathlib.Data.List.Nodup
import Mathlib.Logic.Function.Iterate
import Mathlib.Tactic.Common

/-! # Merkle roots that duplicate an odd last digest

A level pads an odd list with its own last digest and hashes adjacent pairs. Such
roots do not determine arbitrary leaf lists: a list and the same list with its odd
last leaf repeated have one root. They do determine lists without repeated leaves
whose leaves are no node digests, up to a collision among the hashed pairs. The
two trees may have different depths, so levels are compared downwards from the
root and not upwards from the leaves.
-/
namespace TandemVerifier.Library

/-- Two distinct members of a list with the same image. -/
def Collision {α β : Type*} (f : α → β) (xs : List α) : Prop :=
  ∃ x ∈ xs, ∃ y ∈ xs, x ≠ y ∧ f x = f y

theorem Collision.mono {α β : Type*} {f : α → β} {xs ys : List α} (h : Collision f xs)
    (hs : xs ⊆ ys) : Collision f ys := by
  obtain ⟨x,hx,y,hy,hne,he⟩ := h
  exact ⟨x,hs hx,y,hs hy,hne,he⟩

theorem Collision.of_map {α β γ : Type*} {f : α → β} {g : γ → α} (hg : Function.Injective g)
    {xs : List γ} (h : Collision (f ∘ g) xs) : Collision f (xs.map g) := by
  obtain ⟨x,hx,y,hy,hne,he⟩ := h
  exact ⟨g x,List.mem_map_of_mem hx,g y,List.mem_map_of_mem hy,fun hh => hne (hg hh),he⟩

/-- Equal images are equal members unless the list holds a collision. -/
theorem eq_or_collision {α β : Type*} {f : α → β} {xs : List α} {x y : α} (hx : x ∈ xs)
    (hy : y ∈ xs) (h : f x = f y) : x = y ∨ Collision f xs := by
  by_cases he : x = y
  · exact Or.inl he
  · exact Or.inr ⟨x,hx,y,hy,he,h⟩

theorem map_inj_on {α β : Type*} {f : α → β} {xs ys : List α}
    (hf : ∀ a ∈ xs, ∀ b ∈ ys, f a = f b → a = b) (h : xs.map f = ys.map f) : xs = ys := by
  induction xs generalizing ys with
  | nil => exact (List.map_eq_nil_iff.mp h.symm).symm
  | cons a rest ih =>
    cases ys with
    | nil => simp at h
    | cons b others =>
      simp only [List.map_cons,List.cons.injEq] at h
      rw [hf a List.mem_cons_self b List.mem_cons_self h.1,
        ih (fun c hc d hd => hf c (List.mem_cons_of_mem _ hc) d (List.mem_cons_of_mem _ hd)) h.2]

namespace Merkle
variable {D : Type}

/-- Repeat the last digest of an odd level. -/
def padOdd (xs : List D) : List D :=
  if xs.length % 2 = 1 then xs ++ xs.getLast?.toList else xs

/-- The complete adjacent pairs of a list, as `chunks_exact(2)` yields them. -/
def chunkPairs : List D → List (D × D)
  | a :: b :: rest => (a,b) :: chunkPairs rest
  | _ => []

/-- The pairs hashed to form the next level. -/
def levelPairs (xs : List D) : List (D × D) := chunkPairs (padOdd xs)

variable (node : D × D → D)

def level (xs : List D) : List D := (levelPairs xs).map node

/-- The loop over levels; the length of the first level is always enough fuel. -/
def loop : ℕ → List D → List D
  | 0, xs => xs
  | fuel + 1, xs => if 1 < xs.length then loop fuel (level node xs) else xs

/-- Every pair hashed by the loop. -/
def loopPairs : ℕ → List D → List (D × D)
  | 0, _ => []
  | fuel + 1, xs => if 1 < xs.length then levelPairs xs ++ loopPairs fuel (level node xs) else []

def treePairs (xs : List D) : List (D × D) := loopPairs node xs.length xs

section Levels

@[simp] theorem levelPairs_nil : levelPairs ([] : List D) = [] := rfl
@[simp] theorem levelPairs_single (a : D) : levelPairs [a] = [(a,a)] := rfl

@[simp] theorem levelPairs_cons_cons (a b : D) (rest : List D) :
    levelPairs (a :: b :: rest) = (a,b) :: levelPairs rest := by
  unfold levelPairs padOdd
  have hmod : (a :: b :: rest).length % 2 = rest.length % 2 := by simp [Nat.add_assoc]
  rw [hmod]
  split
  · cases rest with
    | nil => contradiction
    | cons c rest => simp [chunkPairs]
  · rfl

theorem padOdd_length (xs : List D) : (padOdd xs).length = 2 * ((xs.length + 1) / 2) := by
  unfold padOdd
  split
  · next hodd =>
    have hne : xs ≠ [] := by
      rintro rfl
      simp at hodd
    simp only [List.getLast?_eq_some_getLast hne,Option.toList_some,List.length_append,List.length_singleton]
    omega
  · omega

/-- Induction over a list two entries at a time. -/
theorem pair_induction {motive : List D → Prop} (nil : motive []) (single : ∀ a, motive [a])
    (pair : ∀ a b rest, motive rest → motive (a :: b :: rest)) : ∀ xs, motive xs
  | [] => nil
  | [a] => single a
  | a :: b :: rest => pair a b rest (pair_induction nil single pair rest)

theorem levelPairs_length (xs : List D) : (levelPairs xs).length = (xs.length + 1) / 2 := by
  induction xs using pair_induction with
  | nil => simp
  | single a => simp
  | pair a b rest ih =>
    rw [levelPairs_cons_cons,List.length_cons,ih,List.length_cons,List.length_cons]
    omega

theorem fst_mem_of_mem_levelPairs {xs : List D} {p : D × D} (h : p ∈ levelPairs xs) :
    p.1 ∈ xs := by
  induction xs using pair_induction with
  | nil => simp at h
  | single a => simp_all
  | pair a b rest ih =>
    rw [levelPairs_cons_cons] at h
    rcases List.mem_cons.mp h with rfl | h
    · exact List.mem_cons_self
    · exact List.mem_cons_of_mem _ (List.mem_cons_of_mem _ (ih h))

/-- First components of the hashed pairs are distinct entries of the level. -/
theorem levelPairs_nodup {xs : List D} (h : xs.Nodup) : (levelPairs xs).Nodup := by
  induction xs using pair_induction with
  | nil => simp
  | single a => simp
  | pair a b rest ih =>
    obtain ⟨ha,hr⟩ := List.nodup_cons.mp h
    obtain ⟨_,hr⟩ := List.nodup_cons.mp hr
    rw [levelPairs_cons_cons]
    refine List.nodup_cons.mpr ⟨fun hp => ha ?_,ih hr⟩
    exact List.mem_cons_of_mem _ (fst_mem_of_mem_levelPairs hp)

/-- Without repetitions the pairs show whether the last entry was duplicated. -/
theorem levelPairs_inj {xs ys : List D} (hx : xs.Nodup) (hy : ys.Nodup)
    (h : levelPairs xs = levelPairs ys) : xs = ys := by
  have hne : ∀ {a c d : D} {rest : List D}, (c :: d :: rest).Nodup →
      levelPairs [a] ≠ levelPairs (c :: d :: rest) := by
    intro a c d rest hn he
    simp only [levelPairs_single,levelPairs_cons_cons,List.cons.injEq,Prod.mk.injEq] at he
    obtain ⟨⟨rfl,rfl⟩,_⟩ := he
    simp at hn
  induction xs using pair_induction generalizing ys with
  | nil =>
    cases ys using pair_induction with
    | nil => rfl
    | single c => simp at h
    | pair c d rest => simp at h
  | single a =>
    cases ys using pair_induction with
    | nil => simp at h
    | single c => simp_all
    | pair c d rest => exact absurd h (hne hy)
  | pair a b rest ih =>
    cases ys using pair_induction with
    | nil => simp at h
    | single c => exact absurd h.symm (hne hx)
    | pair c d rest' =>
      simp only [levelPairs_cons_cons,List.cons.injEq,Prod.mk.injEq] at h
      obtain ⟨⟨rfl,rfl⟩,hr⟩ := h
      rw [ih (List.nodup_cons.mp (List.nodup_cons.mp hx).2).2
        (List.nodup_cons.mp (List.nodup_cons.mp hy).2).2 hr]

@[simp] theorem level_length (xs : List D) : (level node xs).length = (xs.length + 1) / 2 := by
  rw [level,List.length_map,levelPairs_length]

end Levels

/-- The loop stops at some level of at most one entry, and hashes every level below. -/
theorem loop_spec (fuel : ℕ) (xs : List D) (hf : xs.length ≤ fuel) :
    ∃ depth, loop node fuel xs = (level node)^[depth] xs ∧
      ((level node)^[depth] xs).length ≤ 1 ∧
      ∀ k < depth, levelPairs ((level node)^[k] xs) ⊆ loopPairs node fuel xs := by
  induction fuel generalizing xs with
  | zero => exact ⟨0,rfl,by simp; omega,by simp⟩
  | succ fuel ih =>
    by_cases hl : 1 < xs.length
    · obtain ⟨depth,he,hone,hsub⟩ := ih (level node xs) (by rw [level_length]; omega)
      refine ⟨depth + 1,?_,hone,?_⟩
      · rw [loop,if_pos hl,he,Function.iterate_succ_apply]
      · intro k hk
        rw [loopPairs,if_pos hl]
        cases k with
        | zero => exact List.subset_append_left _ _
        | succ k => exact List.subset_append_of_subset_right _ (hsub k (by omega))
    · refine ⟨0,?_,by simpa using hl,by simp⟩
      rw [loop,if_neg hl]
      rfl

theorem level_ne_nil {xs : List D} (h : xs ≠ []) : level node xs ≠ [] := by
  have hl := level_length node xs
  have hp := List.length_pos_iff.mpr h
  exact List.length_pos_iff.mp (by omega)

theorem loop_ne_nil (fuel : ℕ) {xs : List D} (h : xs ≠ []) : loop node fuel xs ≠ [] := by
  induction fuel generalizing xs with
  | zero => exact h
  | succ fuel ih =>
    unfold loop
    split
    · exact ih (level_ne_nil node h)
    · exact h

/-- The root of a nonempty list of leaves. -/
def root (xs : List D) (h : xs ≠ []) : D := (loop node xs.length xs).head (loop_ne_nil node _ h)

/-- The loop leaves exactly the root. -/
theorem loop_eq_root (xs : List D) (h : xs ≠ []) : loop node xs.length xs = [root node xs h] := by
  obtain ⟨depth,he,hone,_⟩ := loop_spec node xs.length xs (Nat.le_refl _)
  have hne := loop_ne_nil node xs.length h
  have hlen : (loop node xs.length xs).length ≤ 1 := he ▸ hone
  obtain ⟨a,ha⟩ := List.length_eq_one_iff.mp (Nat.le_antisymm hlen (List.length_pos_iff.mpr hne))
  simp [root,ha]

section Rounds

/-- Evaluation of the loop without fuel: as long as a level has more than one entry it is
replaced by the level above. -/
inductive LoopReaches : List D → List D → Prop
  | stop {xs : List D} (h : xs.length ≤ 1) : LoopReaches xs xs
  | round {xs ys : List D} (h : 1 < xs.length) (rest : LoopReaches (level node xs) ys) : LoopReaches xs ys

theorem loopReaches_loop (fuel : ℕ) (xs : List D) (hf : xs.length ≤ fuel) :
    LoopReaches node xs (loop node fuel xs) := by
  induction fuel generalizing xs with
  | zero => exact .stop (by omega)
  | succ fuel ih =>
    unfold loop
    split
    · next hl => exact .round hl (ih (level node xs) (by rw [level_length]; omega))
    · next hl => exact .stop (by omega)

/-- The loop ends after finitely many rounds, in the root. -/
theorem loopReaches_root (xs : List D) (h : xs ≠ []) : LoopReaches node xs [root node xs h] := by
  rw [← loop_eq_root node xs h]
  exact loopReaches_loop node xs.length xs (Nat.le_refl _)

/-- The levels that the loop goes through, the leaves first. -/
def loopLevels : ℕ → List D → List (List D)
  | 0, xs => [xs]
  | fuel + 1, xs => if 1 < xs.length then xs :: loopLevels fuel (level node xs) else [xs]

def levels (xs : List D) : List (List D) := loopLevels node xs.length xs

theorem getLast?_loopLevels (fuel : ℕ) (xs : List D) :
    (loopLevels node fuel xs).getLast? = some (loop node fuel xs) := by
  induction fuel generalizing xs with
  | zero => rfl
  | succ fuel ih =>
    unfold loop loopLevels
    split
    · rw [List.getLast?_cons,ih]
      rfl
    · rfl

theorem loopLevels_eq_cons (fuel : ℕ) (xs : List D) : ∃ rest, loopLevels node fuel xs = xs :: rest := by
  cases fuel with
  | zero => exact ⟨[],rfl⟩
  | succ fuel =>
    unfold loopLevels
    split
    · exact ⟨_,rfl⟩
    · exact ⟨[],rfl⟩

theorem loopLevels_isChain (fuel : ℕ) (xs : List D) :
    (loopLevels node fuel xs).IsChain fun below above => above = level node below := by
  induction fuel generalizing xs with
  | zero => exact .singleton xs
  | succ fuel ih =>
    unfold loopLevels
    split
    · obtain ⟨rest,hrest⟩ := loopLevels_eq_cons node fuel (level node xs)
      have hupper := ih (level node xs)
      rw [hrest] at hupper ⊢
      exact List.isChain_cons_cons.mpr ⟨rfl,hupper⟩
    · exact .singleton xs

/-- A list of levels, each computed from the one below, is the loop's own exactly when only its
last level has at most one entry. -/
theorem eq_loopLevels_iff (fuel : ℕ) (xs : List D) (rest : List (List D)) (hf : xs.length ≤ fuel)
    (hchain : (xs :: rest).IsChain fun below above => above = level node below) :
    xs :: rest = loopLevels node fuel xs ↔
      (∀ below ∈ (xs :: rest).dropLast, 1 < below.length) ∧
        ∀ last ∈ (xs :: rest).getLast?, last.length ≤ 1 := by
  induction fuel generalizing xs rest with
  | zero =>
    have hempty : xs = [] := List.eq_nil_of_length_eq_zero (by omega)
    cases rest with
    | nil => simp [loopLevels,hempty]
    | cons above rest => simp [loopLevels,hempty]
  | succ fuel ih =>
    cases rest with
    | nil =>
      by_cases hl : 1 < xs.length
      · obtain ⟨upper,hupper⟩ := loopLevels_eq_cons node fuel (level node xs)
        simp [loopLevels,hl,hupper]
      · simp [loopLevels,hl]
        omega
    | cons above rest =>
      rw [List.isChain_cons_cons] at hchain
      obtain ⟨rfl,hchain⟩ := hchain
      by_cases hl : 1 < xs.length
      · have hrest := ih (level node xs) rest (by rw [level_length]; omega) hchain
        rw [loopLevels,if_pos hl,List.cons.injEq,hrest]
        simp [hl]
      · simp [loopLevels,hl]

end Rounds

section Binding
variable {node} {S : List (D × D)}

/-- On pairs without a collision a level of distinct entries stays distinct. -/
theorem iterate_level_nodup (hS : ¬Collision node S) {xs : List D} (hx : xs.Nodup) {depth : ℕ}
    (hsub : ∀ k < depth, levelPairs ((level node)^[k] xs) ⊆ S) :
    ∀ k ≤ depth, ((level node)^[k] xs).Nodup := by
  intro k hk
  induction k with
  | zero => exact hx
  | succ k ih =>
    rw [Function.iterate_succ_apply']
    refine List.Nodup.map_on ?_ (levelPairs_nodup (ih (by omega)))
    intro p hp q hq he
    exact (eq_or_collision (hsub k (by omega) hp) (hsub k (by omega) hq) he).resolve_right hS

/-- Equal levels above distinct entries come from equal levels. -/
theorem level_inj (hS : ¬Collision node S) {xs ys : List D} (hx : xs.Nodup) (hy : ys.Nodup)
    (hxs : levelPairs xs ⊆ S) (hys : levelPairs ys ⊆ S) (h : level node xs = level node ys) :
    xs = ys := by
  refine levelPairs_inj hx hy (map_inj_on ?_ h)
  intro p hp q hq he
  exact (eq_or_collision (hxs hp) (hys hq) he).resolve_right hS

/-- Equal levels at depths `m ≤ n` give the shallower leaves back as a level of the
deeper tree. -/
theorem iterate_level_inj (hS : ¬Collision node S) {xs ys : List D} (hx : xs.Nodup) (hy : ys.Nodup)
    (m k : ℕ) (hxs : ∀ i < m, levelPairs ((level node)^[i] xs) ⊆ S)
    (hys : ∀ i < m + k, levelPairs ((level node)^[i] ys) ⊆ S)
    (h : (level node)^[m] xs = (level node)^[m + k] ys) : xs = (level node)^[k] ys := by
  induction m with
  | zero => simpa using h
  | succ m ih =>
    apply ih (fun i hi => hxs i (by omega)) (fun i hi => hys i (by omega))
    rw [Nat.succ_add,Function.iterate_succ_apply',Function.iterate_succ_apply'] at h
    exact level_inj hS (iterate_level_nodup hS hx hxs m (by omega))
      (iterate_level_nodup hS hy hys (m + k) (by omega)) (hxs m (by omega))
      (hys (m + k) (by omega)) h

/-- A level above the leaves holds only digests of hashed pairs. -/
theorem mem_iterate_level {xs : List D} {depth k : ℕ}
    (hsub : ∀ i < depth, levelPairs ((level node)^[i] xs) ⊆ S) (hk : k < depth) {x : D}
    (h : x ∈ (level node)^[k + 1] xs) : ∃ p ∈ S, node p = x := by
  rw [Function.iterate_succ_apply'] at h
  obtain ⟨p,hp,he⟩ := List.mem_map.mp h
  exact ⟨p,hsub k hk hp,he⟩

/-- A root is a leaf or the digest of a hashed pair. -/
theorem root_cases {xs : List D} (h : xs ≠ []) :
    root node xs h ∈ xs ∨ ∃ p ∈ treePairs node xs, node p = root node xs h := by
  obtain ⟨depth,hloop,_,hsub⟩ := loop_spec node xs.length xs (Nat.le_refl _)
  have hroot : root node xs h ∈ (level node)^[depth] xs := by
    rw [← hloop,loop_eq_root node xs h]
    exact List.mem_singleton_self _
  cases depth with
  | zero => exact Or.inl hroot
  | succ k => exact Or.inr (mem_iterate_level hsub (Nat.lt_succ_self k) hroot)

/-- One root binds the leaves: distinct leaves that are no digests of hashed pairs
are determined by it, or two hashed pairs collide. -/
theorem root_binding {xs ys : List D} (hxne : xs ≠ []) (hyne : ys ≠ []) (hx : xs.Nodup)
    (hy : ys.Nodup)
    (hleaf : ∀ x ∈ xs ++ ys, ∀ p ∈ treePairs node xs ++ treePairs node ys, node p ≠ x)
    (h : root node xs hxne = root node ys hyne) :
    xs = ys ∨ Collision node (treePairs node xs ++ treePairs node ys) := by
  by_cases hS : Collision node (treePairs node xs ++ treePairs node ys)
  · exact Or.inr hS
  refine Or.inl ?_
  obtain ⟨m,hm,_,hxs⟩ := loop_spec node xs.length xs (Nat.le_refl _)
  obtain ⟨n,hn,_,hys⟩ := loop_spec node ys.length ys (Nat.le_refl _)
  have hxs : ∀ k < m, levelPairs ((level node)^[k] xs) ⊆ treePairs node xs ++ treePairs node ys :=
    fun k hk => List.Subset.trans (hxs k hk) (List.subset_append_left _ _)
  have hys : ∀ k < n, levelPairs ((level node)^[k] ys) ⊆ treePairs node xs ++ treePairs node ys :=
    fun k hk => List.Subset.trans (hys k hk) (List.subset_append_right _ _)
  have htop : (level node)^[m] xs = (level node)^[n] ys := by
    rw [← hm,← hn,loop_eq_root node xs hxne,loop_eq_root node ys hyne,h]
  -- the deeper tree cannot reach a level equal to the leaves of the other one
  rcases Nat.le_total m n with hmn | hmn
  · obtain ⟨k,rfl⟩ := Nat.exists_eq_add_of_le hmn
    have he := iterate_level_inj hS hx hy m k hxs hys htop
    cases k with
    | zero => exact he
    | succ k =>
      obtain ⟨x,hxm⟩ := List.exists_mem_of_ne_nil xs hxne
      obtain ⟨p,hp,hpx⟩ := mem_iterate_level hys (k := k) (by omega) (he ▸ hxm)
      exact absurd hpx (hleaf x (List.mem_append_left _ hxm) p hp)
  · obtain ⟨k,rfl⟩ := Nat.exists_eq_add_of_le hmn
    have he := iterate_level_inj hS hy hx n k hys hxs htop.symm
    cases k with
    | zero => exact he.symm
    | succ k =>
      obtain ⟨y,hym⟩ := List.exists_mem_of_ne_nil ys hyne
      obtain ⟨p,hp,hpy⟩ := mem_iterate_level hxs (k := k) (by omega) (he ▸ hym)
      exact absurd hpy (hleaf y (List.mem_append_right _ hym) p hp)

end Binding

section Encoded
variable {E : Type} (hash : E → D) (pair : D × D → E) (empty : E)

/-- The root of a tree over the digests of encoded leaves, whose nodes are digests of encoded
pairs; a tree without leaves has the digest of an encoding of its own. -/
def digest (xs : List E) : D :=
  if h : xs = [] then hash empty
  else root (fun p => hash (pair p)) (xs.map hash) (by simpa using h)

/-- The encodings hashed to form the digest. -/
def hashed (xs : List E) : List E :=
  if xs = [] then [empty] else xs ++ (treePairs (fun p => hash (pair p)) (xs.map hash)).map pair

variable {hash pair empty} {S xs ys : List E}

theorem mem_hashed_leaf {x : E} (h : x ∈ xs) : x ∈ hashed hash pair empty xs := by
  rw [hashed,if_neg (List.ne_nil_of_mem h)]
  exact List.mem_append_left _ h

theorem mem_hashed_pair {p : D × D} (hne : xs ≠ [])
    (h : p ∈ treePairs (fun p => hash (pair p)) (xs.map hash)) : pair p ∈ hashed hash pair empty xs := by
  rw [hashed,if_neg hne]
  exact List.mem_append_right _ (List.mem_map_of_mem h)

/-- The digest of a tree with leaves is not that of an empty one. -/
theorem digest_ne_empty (hS : ¬Collision hash S) (hne : xs ≠ []) (hsub : hashed hash pair empty xs ⊆ S)
    (hempty : empty ∈ S) (hleaf : empty ∉ xs) (hpair : ∀ p, pair p ≠ empty) :
    digest hash pair empty xs ≠ hash empty := by
  intro hroot
  rw [digest,dif_neg hne] at hroot
  have hne' : xs.map hash ≠ [] := by simpa using hne
  rcases @root_cases _ (fun p => hash (pair p)) _ hne' with hmem | ⟨p,hp,hnode⟩
  · obtain ⟨x,hx,hdigest⟩ := List.mem_map.mp hmem
    have hsame := (eq_or_collision (hsub (mem_hashed_leaf hx)) hempty (hdigest.trans hroot)).resolve_right hS
    exact hleaf (hsame ▸ hx)
  · exact hpair p ((eq_or_collision (hsub (mem_hashed_pair hne hp)) hempty
      (hnode.trans hroot)).resolve_right hS)

/-- Without a collision among the hashed encodings the digest determines distinct leaves. -/
theorem digest_inj (hS : ¬Collision hash S) (hinj : Function.Injective pair) (hx : xs.Nodup) (hy : ys.Nodup)
    (hxs : hashed hash pair empty xs ⊆ S) (hys : hashed hash pair empty ys ⊆ S)
    (hleaf : ∀ x ∈ xs ++ ys, x ≠ empty ∧ ∀ p, pair p ≠ x) (hpair : ∀ p, pair p ≠ empty)
    (h : digest hash pair empty xs = digest hash pair empty ys) : xs = ys := by
  have hinjective : ∀ a ∈ S, ∀ b ∈ S, hash a = hash b → a = b := by
    intro a ha b hb hab
    exact (eq_or_collision ha hb hab).resolve_right hS
  have hfresh : ∀ zs : List E, (∀ x ∈ zs, x ∈ xs ++ ys) → empty ∉ zs := by
    intro zs hzs hmem
    exact (hleaf empty (hzs empty hmem)).1 rfl
  by_cases hxne : xs = []
  · by_cases hyne : ys = []
    · rw [hxne,hyne]
    · have hempty : empty ∈ S := hxs (by simp [hashed,hxne])
      refine absurd ?_ (digest_ne_empty hS hyne hys hempty (hfresh ys (by simp +contextual)) hpair)
      rw [← h,digest,dif_pos hxne]
  · by_cases hyne : ys = []
    · have hempty : empty ∈ S := hys (by simp [hashed,hyne])
      refine absurd ?_ (digest_ne_empty hS hxne hxs hempty (hfresh xs (by simp +contextual)) hpair)
      rw [h,digest,dif_pos hyne]
    · rw [digest,digest,dif_neg hxne,dif_neg hyne] at h
      have hpairs : ∀ p ∈ treePairs (fun p => hash (pair p)) (xs.map hash) ++
          treePairs (fun p => hash (pair p)) (ys.map hash), pair p ∈ S := by
        intro p hp
        rcases List.mem_append.mp hp with hp | hp
        · exact hxs (mem_hashed_pair hxne hp)
        · exact hys (mem_hashed_pair hyne hp)
      have hdigests : ∀ zs : List E, zs.Nodup → (∀ z ∈ zs, z ∈ S) → (zs.map hash).Nodup := by
        intro zs hzs hmem
        exact hzs.map_on fun a ha b hb hab => hinjective a (hmem a ha) b (hmem b hb) hab
      have hxS : ∀ x ∈ xs, x ∈ S := fun x hx => hxs (mem_hashed_leaf hx)
      have hyS : ∀ y ∈ ys, y ∈ S := fun y hy => hys (mem_hashed_leaf hy)
      have hdisjoint : ∀ d ∈ xs.map hash ++ ys.map hash,
          ∀ p ∈ treePairs (fun p => hash (pair p)) (xs.map hash) ++
            treePairs (fun p => hash (pair p)) (ys.map hash), hash (pair p) ≠ d := by
        intro d hd p hp hdigest
        rw [← List.map_append] at hd
        obtain ⟨x,hx,rfl⟩ := List.mem_map.mp hd
        have hmem : x ∈ S := (List.mem_append.mp hx).elim (hxS x) (hyS x)
        exact (hleaf x hx).2 p (hinjective _ (hpairs p hp) x hmem hdigest)
      rcases root_binding _ _ (hdigests xs hx hxS) (hdigests ys hy hyS) hdisjoint h with hsame | hcollision
      · exact map_inj_on (fun a ha b hb hab => hinjective a (hxS a ha) b (hyS b hb) hab) hsame
      · refine absurd ((Collision.of_map hinj hcollision).mono ?_) hS
        intro e he
        obtain ⟨p,hp,rfl⟩ := List.mem_map.mp he
        exact hpairs p hp

end Encoded
end Merkle
end TandemVerifier.Library
