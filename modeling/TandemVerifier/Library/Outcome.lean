import Mathlib.Data.Option.Basic
import Mathlib.Tactic.Common

/-! # Computations that return, fail or panic

An outcome is a returned value, a returned error or a panic. Errors are ordinary
data of the caller; a panic has no data and no continuation. The inversion rules
for bind peel a successful computation into its successful parts.
-/
namespace TandemVerifier.Library

/-- The result of a computation with typed errors that may also panic. -/
inductive Outcome (ε α : Type) where
  | ok (value : α)
  | err (error : ε)
  | panic
deriving DecidableEq

/-- The error type of a computation that never fails but may panic. -/
abbrev Infallible := Empty

namespace Outcome
variable {ε α β : Type}

protected def bind (x : Outcome ε α) (f : α → Outcome ε β) : Outcome ε β :=
  match x with
  | ok a => f a
  | err e => err e
  | panic => panic

instance : Monad (Outcome ε) where
  pure := ok
  bind := Outcome.bind

@[simp] theorem ok_bind (a : α) (f : α → Outcome ε β) : (ok a >>= f) = f a := rfl
@[simp] theorem err_bind (e : ε) (f : α → Outcome ε β) : (err e >>= f) = err e := rfl
@[simp] theorem panic_bind (f : α → Outcome ε β) : ((panic : Outcome ε α) >>= f) = panic := rfl
@[simp] theorem pure_eq_ok (a : α) : (pure a : Outcome ε α) = ok a := rfl

/-- A bind succeeds exactly when both of its parts do. -/
theorem bind_assoc {γ : Type} (x : Outcome ε α) (f : α → Outcome ε β) (g : β → Outcome ε γ) :
    (x >>= f >>= g) = x >>= fun a => f a >>= g := by
  cases x <;> rfl

theorem bind_eq_ok {x : Outcome ε α} {f : α → Outcome ε β} {b : β} :
    (x >>= f) = ok b ↔ ∃ a, x = ok a ∧ f a = ok b := by
  cases x <;> simp

/-- Return the error when the guard fires: an early `return Err`. -/
def failIf (guard : Bool) (e : ε) : Outcome ε Unit := if guard then err e else ok ()

@[simp] theorem failIf_eq_ok {guard : Bool} {e : ε} {u : Unit} :
    failIf guard e = ok u ↔ guard = false := by
  cases guard <;> simp [failIf]

/-- Turn an absent value into an error. -/
def okOr (x : Option α) (e : ε) : Outcome ε α :=
  match x with
  | some a => ok a
  | none => err e

@[simp] theorem okOr_eq_ok {x : Option α} {e : ε} {a : α} : okOr x e = ok a ↔ x = some a := by
  cases x <;> simp [okOr]

/-- Turn an absent value into a panic. -/
def expect (x : Option α) : Outcome ε α :=
  match x with
  | some a => ok a
  | none => panic

@[simp] theorem expect_eq_ok {x : Option α} {a : α} :
    (expect x : Outcome ε α) = ok a ↔ x = some a := by
  cases x <;> simp [expect]

/-- Indexing, which panics outside the list. -/
def index (xs : List α) (i : ℕ) : Outcome ε α := expect xs[i]?

@[simp] theorem index_eq_ok {xs : List α} {i : ℕ} {a : α} :
    (index xs i : Outcome ε α) = ok a ↔ xs[i]? = some a := expect_eq_ok

/-- A slice of fixed width, which panics unless it lies inside the list. -/
def slice (xs : List α) (start width : ℕ) : Outcome ε (List α) :=
  if start + width ≤ xs.length then ok ((xs.drop start).take width) else panic

@[simp] theorem slice_eq_ok {xs ys : List α} {start width : ℕ} :
    (slice xs start width : Outcome ε (List α)) = ok ys ↔
      start + width ≤ xs.length ∧ (xs.drop start).take width = ys := by
  unfold slice
  split <;> simp_all

/-- Report an error of another kind as one of the caller's. -/
def ofExcept {δ : Type} (wrap : δ → ε) : Except δ α → Outcome ε α
  | .ok a => ok a
  | .error e => err (wrap e)

@[simp] theorem ofExcept_eq_ok {δ : Type} {wrap : δ → ε} {x : Except δ α} {a : α} :
    ofExcept wrap x = ok a ↔ x = .ok a := by
  cases x <;> simp [ofExcept]

/-- Report the errors of a computation as errors of the caller. -/
def mapErr {δ : Type} (wrap : δ → ε) : Outcome δ α → Outcome ε α
  | ok a => ok a
  | err e => err (wrap e)
  | panic => panic

@[simp] theorem mapErr_eq_ok {δ : Type} {wrap : δ → ε} {x : Outcome δ α} {a : α} :
    mapErr wrap x = ok a ↔ x = ok a := by
  cases x <;> simp [mapErr]

/-- Run a computation on each entry and collect the values, up to the first failure. -/
def collect (f : α → Outcome ε β) : List α → Outcome ε (List β)
  | [] => ok []
  | x :: rest => do
    let y ← f x
    let ys ← collect f rest
    pure (y :: ys)

theorem collect_cons_eq_ok {f : α → Outcome ε β} {x : α} {rest : List α} {values : List β} :
    collect f (x :: rest) = ok values ↔ ∃ y ys, f x = ok y ∧ collect f rest = ok ys ∧ values = y :: ys := by
  rw [collect,bind_eq_ok]
  constructor
  · rintro ⟨y,hy,hrest⟩
    obtain ⟨ys,hys,hvalues⟩ := bind_eq_ok.mp hrest
    simp only [pure_eq_ok,ok.injEq] at hvalues
    exact ⟨y,ys,hy,hys,hvalues.symm⟩
  · rintro ⟨y,ys,hy,hys,rfl⟩
    exact ⟨y,hy,bind_eq_ok.mpr ⟨ys,hys,rfl⟩⟩

theorem collect_length {f : α → Outcome ε β} {xs : List α} {ys : List β} (h : collect f xs = ok ys) :
    ys.length = xs.length := by
  induction xs generalizing ys with
  | nil =>
    obtain rfl := ok.inj h
    rfl
  | cons x rest ih =>
    obtain ⟨y,others,_,hrest,rfl⟩ := collect_cons_eq_ok.mp h
    rw [List.length_cons,List.length_cons,ih hrest]

/-- A computation that succeeds wherever another one does is collected wherever it is. -/
theorem collect_imp {γ : Type} {f : α → Outcome ε β} {g : α → Outcome ε γ} {xs : List α} {ys : List β}
    (hstep : ∀ x y, f x = ok y → ∃ z, g x = ok z) (h : collect f xs = ok ys) :
    ∃ zs, collect g xs = ok zs := by
  induction xs generalizing ys with
  | nil => exact ⟨[],rfl⟩
  | cons x rest ih =>
    obtain ⟨y,others,hy,hrest,_⟩ := collect_cons_eq_ok.mp h
    obtain ⟨z,hz⟩ := hstep x y hy
    obtain ⟨zs,hzs⟩ := ih hrest
    exact ⟨z :: zs,collect_cons_eq_ok.mpr ⟨z,zs,hz,hzs,rfl⟩⟩

/-- The last value is that of the last entry. -/
theorem collect_getLast? {f : α → Outcome ε β} {xs : List α} {ys : List β} {x : α}
    (h : collect f xs = ok ys) (hx : xs.getLast? = some x) : ∃ y, f x = ok y ∧ ys.getLast? = some y := by
  induction xs generalizing ys with
  | nil => simp at hx
  | cons first rest ih =>
    obtain ⟨y,others,hy,hrest,rfl⟩ := collect_cons_eq_ok.mp h
    cases rest with
    | nil =>
      obtain rfl : first = x := by simpa using hx
      obtain rfl := ok.inj hrest
      exact ⟨y,hy,rfl⟩
    | cons second rest =>
      obtain ⟨last,hlast,hothers⟩ := ih hrest (by rwa [List.getLast?_cons_cons] at hx)
      exact ⟨last,hlast,by rw [List.getLast?_cons,hothers]; rfl⟩

theorem collect_map {f : α → Outcome ε β} {g : β → α} (h : ∀ y, f (g y) = ok y) (ys : List β) :
    collect f (ys.map g) = ok ys := by
  induction ys with
  | nil => rfl
  | cons y rest ih => simp [collect,h,ih]

/-- The computation returns a value or an error; it does not panic. -/
def Returns (x : Outcome ε α) : Prop := x ≠ panic

section Returns
variable {x : Outcome ε α}

@[simp] theorem returns_ok (a : α) : (ok a : Outcome ε α).Returns := by simp [Returns]
@[simp] theorem returns_err (e : ε) : (err e : Outcome ε α).Returns := by simp [Returns]

/-- A bind returns when its first part does and its second part does on every value of it. -/
theorem returns_bind {f : α → Outcome ε β} :
    (x >>= f).Returns ↔ x.Returns ∧ ∀ a, x = ok a → (f a).Returns := by
  cases x <;> simp [Returns]

@[simp] theorem returns_failIf (guard : Bool) (e : ε) : (failIf guard e).Returns := by
  cases guard <;> simp [failIf]

@[simp] theorem returns_okOr (x : Option α) (e : ε) : (okOr x e).Returns := by
  cases x <;> simp [okOr]

@[simp] theorem returns_expect {x : Option α} : (expect x : Outcome ε α).Returns ↔ x.isSome = true := by
  cases x <;> simp [expect,Returns]

@[simp] theorem returns_index {xs : List α} {i : ℕ} :
    (index xs i : Outcome ε α).Returns ↔ i < xs.length := by
  rw [index,returns_expect]
  simp

@[simp] theorem returns_slice {xs : List α} {start width : ℕ} :
    (slice xs start width : Outcome ε (List α)).Returns ↔ start + width ≤ xs.length := by
  unfold slice
  split <;> simp_all [Returns]

/-- An infallible computation that does not panic returns a value. -/
theorem Returns.exists_ok {x : Outcome Infallible α} (h : x.Returns) : ∃ a, x = ok a := by
  cases x with
  | ok a => exact ⟨a,rfl⟩
  | err e => exact e.elim
  | panic => exact absurd rfl h

end Returns

/-- A computation that returns exactly the values of an option is that option. -/
theorem eq_okOr {x : Outcome Unit α} {y : Option α} (hreturns : x.Returns)
    (h : ∀ a, x = ok a ↔ y = some a) : x = okOr y () := by
  cases x with
  | ok a => rw [(h a).mp rfl,okOr]
  | err e =>
    cases y with
    | none => rfl
    | some a => simpa using (h a).mpr rfl
  | panic => exact absurd rfl hreturns

end Outcome
end TandemVerifier.Library
