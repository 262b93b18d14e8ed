import Mathlib.Order.Basic
import TandemVerifier.Library.Outcome

/-! # Ordered checks and the rule that a failure names

A rule is a condition with the error reported when it is violated. A computation checks a
list of rules when it fails with the error of the first violated one and returns a value
when there is none. One rule may be spread over several early returns with one error: a
part may fire only when the whole rule is violated, and after the last part the rule holds.
When the errors stand in increasing order of a code, the first violated rule is the one of
least code.
-/
namespace TandemVerifier.Library
open Outcome
variable {ρ α β κ : Type}

structure Rule (ρ : Type) where
  reason : ρ
  holds : Prop

/-- The computation is decided by the rules in their order. -/
def Checks : List (Rule ρ) → Outcome ρ α → Prop
  | [],x => ∃ value, x = ok value
  | rule :: rest,x => (rule.holds ∧ Checks rest x) ∨ (¬rule.holds ∧ x = err rule.reason)

/-- A value is returned when every rule holds, and otherwise the error of the violated rule of
least code; there is no other outcome. -/
structure LeastViolated [LT κ] (code : ρ → κ) (rules : List (Rule ρ)) (x : Outcome ρ α) : Prop where
  returns : x ≠ panic
  ok_iff : (∃ value, x = ok value) ↔ ∀ rule ∈ rules, rule.holds
  err_iff : ∀ reason, x = err reason ↔ ∃ rule ∈ rules, rule.reason = reason ∧ ¬rule.holds ∧
    ∀ other ∈ rules, code other.reason < code reason → other.holds

namespace Checks
variable {reason : ρ} {holds : Prop} {rest first second : List (Rule ρ)} {x : Outcome ρ α}

theorem pass (h : holds) (hrest : Checks rest x) : Checks (⟨reason,holds⟩ :: rest) x := Or.inl ⟨h,hrest⟩

/-- An early return that is one whole rule. -/
theorem of_failIf {guard : Bool} {f : Unit → Outcome ρ α} (hguard : guard = false ↔ holds)
    (hrest : holds → Checks rest (f ())) :
    Checks (⟨reason,holds⟩ :: rest) (Outcome.failIf guard reason >>= f) := by
  cases guard with
  | true => exact Or.inr ⟨fun h => by simpa using hguard.mpr h,rfl⟩
  | false => exact pass (hguard.mp rfl) (hrest (hguard.mp rfl))

/-- An early return that is a part of a rule. -/
theorem of_failIf_part {guard : Bool} {f : Unit → Outcome ρ α} (hguard : guard = true → ¬holds)
    (hrest : guard = false → Checks (⟨reason,holds⟩ :: rest) (f ())) :
    Checks (⟨reason,holds⟩ :: rest) (Outcome.failIf guard reason >>= f) := by
  cases guard with
  | true => exact Or.inr ⟨hguard rfl,rfl⟩
  | false => exact hrest rfl

/-- A missing value that is a part of a rule. -/
theorem of_okOr_part {value : Option β} {f : β → Outcome ρ α} (hnone : value = none → ¬holds)
    (hrest : ∀ a, value = some a → Checks (⟨reason,holds⟩ :: rest) (f a)) :
    Checks (⟨reason,holds⟩ :: rest) (Outcome.okOr value reason >>= f) := by
  cases value with
  | none => exact Or.inr ⟨hnone rfl,rfl⟩
  | some a => exact hrest a rfl

theorem index_bind {xs : List β} {i : ℕ} {a : β} {f : β → Outcome ρ α} (h : xs[i]? = some a) :
    (index xs i >>= f) = f a := by
  rw [index,h]
  rfl

/-- Rules of a computation followed by those of its continuation. -/
theorem bind {y : Outcome ρ β} {f : β → Outcome ρ α} (h : Checks first y)
    (hrest : ∀ value, y = ok value → Checks second (f value)) : Checks (first ++ second) (y >>= f) := by
  induction first with
  | nil =>
    obtain ⟨value,rfl⟩ := h
    exact hrest value rfl
  | cons rule rest ih =>
    rcases h with ⟨hholds,hchecks⟩ | ⟨hviolated,rfl⟩
    · exact Or.inl ⟨hholds,ih hchecks⟩
    · exact Or.inr ⟨hviolated,rfl⟩

variable {rules : List (Rule ρ)}

theorem ne_panic (h : Checks rules x) : x ≠ panic := by
  induction rules with
  | nil =>
    obtain ⟨value,rfl⟩ := h
    simp
  | cons rule rest ih =>
    rcases h with ⟨_,hrest⟩ | ⟨_,rfl⟩
    · exact ih hrest
    · simp

theorem ok_iff (h : Checks rules x) : (∃ value, x = ok value) ↔ ∀ rule ∈ rules, rule.holds := by
  induction rules with
  | nil => exact iff_of_true h (by simp)
  | cons rule rest ih =>
    rw [List.forall_mem_cons]
    rcases h with ⟨hholds,hrest⟩ | ⟨hviolated,rfl⟩
    · rw [ih hrest]
      simp [hholds]
    · simp [hviolated]

/-- The error is that of a rule all of whose predecessors hold. -/
theorem err_iff_first (h : Checks rules x) : x = err reason ↔ ∃ before rule after,
    rules = before ++ rule :: after ∧ rule.reason = reason ∧ ¬rule.holds ∧ ∀ other ∈ before, other.holds := by
  induction rules with
  | nil =>
    obtain ⟨value,rfl⟩ := h
    simp
  | cons head rest ih =>
    rcases h with ⟨hholds,hrest⟩ | ⟨hviolated,rfl⟩
    · rw [ih hrest]
      constructor
      · rintro ⟨before,rule,after,rfl,hreason,hrule,hbefore⟩
        exact ⟨head :: before,rule,after,rfl,hreason,hrule,by simpa [hholds] using hbefore⟩
      · rintro ⟨before,rule,after,hsplit,hreason,hrule,hbefore⟩
        cases before with
        | nil =>
          obtain ⟨rfl,_⟩ := List.cons.inj hsplit
          exact absurd hholds hrule
        | cons other before =>
          obtain ⟨_,rfl⟩ := List.cons.inj hsplit
          exact ⟨before,rule,after,rfl,hreason,hrule,fun other hother => hbefore other (by simp [hother])⟩
    · constructor
      · intro herr
        exact ⟨[],head,rest,rfl,by simpa using herr,hviolated,by simp⟩
      · rintro ⟨before,rule,after,hsplit,hreason,hrule,hbefore⟩
        cases before with
        | nil =>
          obtain ⟨rfl,_⟩ := List.cons.inj hsplit
          rw [hreason]
        | cons other before =>
          obtain ⟨rfl,_⟩ := List.cons.inj hsplit
          exact absurd (hbefore head List.mem_cons_self) hviolated

/-- An error is not reported when every rule that reports it holds. -/
theorem ne_err (h : Checks rules x) (hholds : ∀ rule ∈ rules, rule.reason = reason → rule.holds) :
    x ≠ err reason := by
  intro herr
  obtain ⟨before,rule,after,rfl,hreason,hviolated,_⟩ := h.err_iff_first.mp herr
  exact hviolated (hholds rule (by simp) hreason)

/-- Rules in increasing order of their codes: the first violated one has the least code. -/
theorem leastViolated [Preorder κ] {code : ρ → κ} (h : Checks rules x)
    (hsorted : (rules.map Rule.reason).Pairwise fun a b => code a < code b) :
    LeastViolated code rules x := by
  refine ⟨h.ne_panic,h.ok_iff,fun reason => ?_⟩
  rw [h.err_iff_first]
  rw [List.pairwise_map] at hsorted
  constructor
  · rintro ⟨before,rule,after,rfl,rfl,hrule,hbefore⟩
    refine ⟨rule,by simp,rfl,hrule,?_⟩
    intro other hother hlt
    rcases List.mem_append.mp hother with hearlier | hlater
    · exact hbefore other hearlier
    · have hafter := (List.pairwise_cons.mp (List.pairwise_append.mp hsorted).2.1).1
      rcases List.mem_cons.mp hlater with rfl | hlater
      · exact absurd hlt (lt_irrefl _)
      · exact absurd (hlt.trans (hafter other hlater)) (lt_irrefl _)
  · rintro ⟨rule,hmem,rfl,hrule,hleast⟩
    obtain ⟨before,after,rfl⟩ := List.append_of_mem hmem
    refine ⟨before,rule,after,rfl,rfl,hrule,?_⟩
    intro other hother
    exact hleast other (List.mem_append_left _ hother)
      ((List.pairwise_append.mp hsorted).2.2 other hother rule List.mem_cons_self)

end Checks
end TandemVerifier.Library
