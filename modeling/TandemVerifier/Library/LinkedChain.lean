import Mathlib.Data.List.Chain
import Mathlib.Data.List.Induction
import Mathlib.Tactic.Common

/-! # Chains linked by names

Every element has a name, the name of its parent and a rank. A linked chain descends
by one rank and one parent at a time, a rooted chain is linked and starts at rank zero.
Where a name determines its element, one shared name decides the whole common past: a
linked chain whose last element lies on a rooted chain is a segment of it.
-/
namespace TandemVerifier.Library.LinkedChain
variable {α κ : Type}

/-- The functions that link the elements of a chain. -/
structure Links (α κ : Type) where
  name : α → κ
  parent : α → κ
  rank : α → ℕ

/-- The second element stands directly above the first. -/
def Links.Follows (links : Links α κ) (a b : α) : Prop :=
  links.parent b = links.name a ∧ links.rank b = links.rank a + 1

instance (links : Links α κ) [DecidableEq κ] : DecidableRel links.Follows :=
  fun a b => inferInstanceAs (Decidable (links.parent b = links.name a ∧ links.rank b = links.rank a + 1))

/-- A chain that starts at rank zero. -/
structure Links.Rooted (links : Links α κ) (chain : List α) : Prop where
  linked : chain.IsChain links.Follows
  origin : ∀ a ∈ chain.head?, links.rank a = 0

/-- The element's name stands at its rank. -/
def Links.OnChain (links : Links α κ) (chain : List α) (a : α) : Prop :=
  ∃ b, chain[links.rank a]? = some b ∧ links.name b = links.name a

variable {links : Links α κ} {chain earlier : List α} {a b : α}

theorem ranked (h : links.Rooted chain) {i : ℕ} (hget : chain[i]? = some a) : links.rank a = i := by
  induction i generalizing a with
  | zero => exact h.origin a (by rw [List.head?_eq_getElem?,hget]; rfl)
  | succ i ih =>
    obtain ⟨hi,ha⟩ := List.getElem?_eq_some_iff.mp hget
    have hfollows := List.isChain_iff_getElem.mp h.linked i hi
    have hrank := ih (List.getElem?_eq_getElem (by omega : i < chain.length))
    rw [← ha,hfollows.2,hrank]

theorem map_rank (h : links.Rooted chain) : chain.map links.rank = List.range chain.length := by
  apply List.ext_getElem (by simp)
  intro i hi _
  have hlt : i < chain.length := by simpa using hi
  simpa using ranked h (List.getElem?_eq_getElem hlt)

theorem below (h : links.Rooted chain) {i : ℕ} (hget : chain[i + 1]? = some b) :
    ∃ a, chain[i]? = some a ∧ links.Follows a b := by
  obtain ⟨hi,rfl⟩ := List.getElem?_eq_some_iff.mp hget
  exact ⟨_,List.getElem?_eq_getElem (by omega),List.isChain_iff_getElem.mp h.linked i hi⟩

theorem getElem?_rank (h : links.Rooted chain) (ha : a ∈ chain) :
    chain[links.rank a]? = some a := by
  obtain ⟨i,hi⟩ := List.mem_iff_getElem?.mp ha
  rw [ranked h hi,hi]

/-- A name on a rooted chain puts the parent on it. -/
theorem onChain_parent (h : links.Rooted chain) (hfollows : links.Follows a b)
    (hb : b ∈ chain) : links.OnChain chain a := by
  have hget := getElem?_rank h hb
  rw [hfollows.2] at hget
  obtain ⟨found,hfound,hparent⟩ := below h hget
  exact ⟨found,hfound,hparent.1.symm.trans hfollows.1⟩

/-- A linked chain that ends on a rooted chain is a segment of it. -/
theorem suffix_take (h : links.Rooted chain) (hlinked : (earlier ++ [a]).IsChain links.Follows)
    (hnamed : ∀ x ∈ earlier ++ [a], ∀ y ∈ chain, links.name x = links.name y → x = y)
    (hon : links.OnChain chain a) : earlier ++ [a] <:+ chain.take (links.rank a + 1) := by
  induction earlier using List.reverseRecOn generalizing a with
  | nil =>
    obtain ⟨b,hget,hname⟩ := hon
    obtain rfl := hnamed a (by simp) b (List.mem_of_getElem? hget) hname.symm
    rw [List.take_add_one,hget]
    exact List.suffix_append _ _
  | append_singleton earlier parent ih =>
    obtain ⟨b,hget,hname⟩ := hon
    obtain rfl := hnamed a (by simp) b (List.mem_of_getElem? hget) hname.symm
    obtain ⟨hearlier,_,hjoin⟩ := List.isChain_append.mp hlinked
    have hfollows : links.Follows parent a := hjoin parent (by simp) a (by simp)
    have hparent := onChain_parent h hfollows (List.mem_of_getElem? hget)
    have hsuffix := ih hearlier (fun x hx => hnamed x (List.mem_append_left _ hx)) hparent
    rw [List.take_add_one,hget,hfollows.2]
    exact List.suffix_append_self_iff.mpr hsuffix

theorem rooted_take (h : links.Rooted chain) (n : ℕ) : links.Rooted (chain.take n) := by
  refine ⟨h.linked.take n,?_⟩
  intro b hb
  apply h.origin b
  cases n with
  | zero => simp at hb
  | succ n => simpa [List.head?_take] using hb

theorem rooted_length (h : links.Rooted chain) (hlast : chain.getLast? = some a) :
    chain.length = links.rank a + 1 := by
  have hne : chain ≠ [] := by
    rintro rfl
    simp at hlast
  have hpositive := List.length_pos_iff.mpr hne
  rw [List.getLast?_eq_getElem?] at hlast
  rw [ranked h hlast]
  omega

/-- Rooted chains with the same last element are the same. -/
theorem rooted_unique {other : List α} (h : links.Rooted chain) (hother : links.Rooted other)
    (hlast : chain.getLast? = some a) (hend : other.getLast? = some a)
    (hnamed : ∀ x ∈ other, ∀ y ∈ chain, links.name x = links.name y → x = y) : other = chain := by
  have hlength := rooted_length h hlast
  have hsame := rooted_length hother hend
  obtain ⟨earlier,rfl⟩ := List.getLast?_eq_some_iff.mp hend
  have hon : links.OnChain chain a :=
    ⟨a,getElem?_rank h (List.mem_of_getLast? hlast),rfl⟩
  have hsuffix := suffix_take h hother.linked hnamed hon
  rw [List.take_of_length_le (Nat.le_of_eq hlength)] at hsuffix
  exact hsuffix.eq_of_length (hsame.trans hlength.symm)

/-- Of two linked chains with the same last element one continues the other downwards. -/
theorem suffix_or_suffix {other : List α} (h : (earlier ++ [a]).IsChain links.Follows)
    (hother : (other ++ [a]).IsChain links.Follows)
    (hnamed : ∀ x ∈ earlier, ∀ y ∈ other, links.name x = links.name y → x = y) :
    earlier ++ [a] <:+ other ++ [a] ∨ other ++ [a] <:+ earlier ++ [a] := by
  induction earlier using List.reverseRecOn generalizing other a with
  | nil => exact Or.inl (List.suffix_append _ _)
  | append_singleton earlier x ih =>
    cases other using List.reverseRecOn with
    | nil => exact Or.inr (List.suffix_append _ _)
    | append_singleton other y =>
      obtain ⟨hx,_,hjoinx⟩ := List.isChain_append.mp h
      obtain ⟨hy,_,hjoiny⟩ := List.isChain_append.mp hother
      have hfollowx : links.Follows x a := hjoinx x (by simp) a (by simp)
      have hfollowy : links.Follows y a := hjoiny y (by simp) a (by simp)
      obtain rfl : x = y := hnamed x (by simp) y (by simp) (hfollowx.1.symm.trans hfollowy.1)
      have hrest := ih hx hy fun x' hx' y' hy' =>
        hnamed x' (List.mem_append_left _ hx') y' (List.mem_append_left _ hy')
      rcases hrest with hshort | hshort
      · exact Or.inl (List.suffix_append_self_iff.mpr hshort)
      · exact Or.inr (List.suffix_append_self_iff.mpr hshort)

/-- The ranks of a linked chain increase. -/
theorem pairwise_rank (h : chain.IsChain links.Follows) :
    chain.Pairwise fun a b => links.rank a < links.rank b := by
  have hmono : chain.IsChain fun a b => links.rank a < links.rank b :=
    h.imp fun a b hfollows => by rw [hfollows.2]; exact Nat.lt_succ_self _
  have htrans : IsTrans α fun a b => links.rank a < links.rank b := ⟨fun _ _ _ => Nat.lt_trans⟩
  exact List.isChain_iff_pairwise.mp hmono

/-- Linked chains with the same last element are the same when both start at an element of a
kind that no linked chain has twice. -/
theorem eq_of_marked_starts {other : List α} {marked : α → Prop}
    (h : (earlier ++ [a]).IsChain links.Follows) (hother : (other ++ [a]).IsChain links.Follows)
    (hnamed : ∀ x ∈ earlier, ∀ y ∈ other, links.name x = links.name y → x = y)
    (hstart : ∀ x ∈ (earlier ++ [a]).head?, marked x) (hstart' : ∀ x ∈ (other ++ [a]).head?, marked x)
    (honce : ∀ x ∈ earlier ++ [a], ∀ y ∈ earlier ++ [a], marked x → marked y → x = y)
    (honce' : ∀ x ∈ other ++ [a], ∀ y ∈ other ++ [a], marked x → marked y → x = y) :
    earlier = other := by
  -- a longer chain would hold the start of the shorter one above its own
  have hsame : ∀ {short long : List α}, long.IsChain links.Follows → short ≠ [] → short <:+ long →
      (∀ x ∈ short.head?, marked x) → (∀ x ∈ long.head?, marked x) →
      (∀ x ∈ long, ∀ y ∈ long, marked x → marked y → x = y) → short = long := by
    rintro short long hlong hne ⟨extra,rfl⟩ hshort hhead hunique
    cases extra with
    | nil => rfl
    | cons first rest =>
      cases short with
      | nil => exact absurd rfl hne
      | cons second tail =>
        have heq : first = second := hunique first (by simp) second (by simp) (hhead first (by simp))
          (hshort second (by simp))
        have hrank := (List.pairwise_cons.mp (pairwise_rank hlong)).1 second (by simp)
        rw [heq] at hrank
        exact absurd hrank (Nat.lt_irrefl _)
  have hnonempty : ∀ chain : List α, chain ++ [a] ≠ [] := fun chain => by simp
  rcases suffix_or_suffix h hother hnamed with hshort | hshort
  · exact List.append_cancel_right (hsame hother (hnonempty _) hshort hstart hstart' honce')
  · exact (List.append_cancel_right (hsame h (hnonempty _) hshort hstart' hstart honce)).symm

end TandemVerifier.Library.LinkedChain
