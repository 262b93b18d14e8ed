import Mathlib.Data.List.Basic
import Mathlib.Data.List.Perm.Basic
import Mathlib.Logic.Relation

/-! # Reordering a list by exchanging neighbours

The relation says of two elements that the first may stand before the second. Two
arrangements of the same elements that both respect it are connected by exchanges of
neighbours that may stand in either order.
-/
namespace TandemVerifier.Library.Reordering
open Relation
variable {α : Type} {R : α → α → Prop} {l l' : List α}

/-- Two neighbours that may stand in either order trade places. -/
inductive Exchange (R : α → α → Prop) : List α → List α → Prop
  | swap (before after : List α) (a b : α) (hab : R a b) (hba : R b a) :
      Exchange R (before ++ a :: b :: after) (before ++ b :: a :: after)

theorem Exchange.cons (x : α) (h : Exchange R l l') : Exchange R (x :: l) (x :: l') := by
  obtain ⟨before,after,a,b,hab,hba⟩ := h
  exact .swap (x :: before) after a b hab hba

theorem Exchange.perm (h : Exchange R l l') : l.Perm l' := by
  obtain ⟨before,after,a,b,_,_⟩ := h
  exact List.Perm.append_left before (List.Perm.swap b a after)

theorem exchanges_cons (x : α) (h : ReflTransGen (Exchange R) l l') :
    ReflTransGen (Exchange R) (x :: l) (x :: l') :=
  h.lift (List.cons x) fun _ _ hstep => hstep.cons x

/-- An element moves past the elements that may stand on either side of it. -/
theorem exchanges_past {x : α} {passed rest : List α} (h : ∀ y ∈ passed, R x y ∧ R y x) :
    ReflTransGen (Exchange R) (x :: (passed ++ rest)) (passed ++ x :: rest) := by
  induction passed with
  | nil => exact .refl
  | cons y passed ih =>
    obtain ⟨hxy,hyx⟩ := h y List.mem_cons_self
    have hfirst : Exchange R (x :: y :: (passed ++ rest)) (y :: x :: (passed ++ rest)) :=
      .swap [] (passed ++ rest) x y hxy hyx
    exact .head hfirst (exchanges_cons y (ih fun z hz => h z (List.mem_cons_of_mem y hz)))

theorem exchanges_of_perm (hperm : l.Perm l') (h : l.Pairwise R) (h' : l'.Pairwise R) :
    ReflTransGen (Exchange R) l l' := by
  induction l generalizing l' with
  | nil => exact List.nil_perm.mp hperm ▸ .refl
  | cons x l ih =>
    -- the elements in front of `x` in the other arrangement stand behind it in this one
    obtain ⟨passed,rest,rfl⟩ := List.append_of_mem (hperm.subset List.mem_cons_self)
    have hrest : l.Perm (passed ++ rest) := (hperm.trans List.perm_middle).cons_inv
    obtain ⟨hfirst,hlater⟩ := List.pairwise_cons.mp h
    have hsub : (passed ++ rest).Sublist (passed ++ x :: rest) :=
      List.Sublist.append_left (List.sublist_cons_self x rest) passed
    have hpassed : ∀ y ∈ passed, R x y ∧ R y x := by
      intro y hy
      have hbehind : y ∈ l := hrest.symm.subset (List.mem_append_left rest hy)
      exact ⟨hfirst y hbehind,(List.pairwise_append.mp h').2.2 y hy x List.mem_cons_self⟩
    have hmoved : ReflTransGen (Exchange R) l (passed ++ rest) := ih hrest hlater (h'.sublist hsub)
    exact (exchanges_cons x hmoved).trans (exchanges_past hpassed)

end TandemVerifier.Library.Reordering
