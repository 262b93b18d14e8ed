import Mathlib.Data.List.Basic
import Mathlib.Data.List.Flatten
import Mathlib.Tactic.Common
import Mathlib.Tactic.Ring

/-! # Fixed-width bytes, integers and concatenated encodings

Byte strings of a fixed length are vectors over a list, compared byte by byte from
the left. Integers are written in little-endian order at a fixed width. A
concatenation of fields of known widths determines every field, so an encoding
that only concatenates such fields is injective.
-/
namespace TandemVerifier.Library

abbrev Bytes := List UInt8

/-- An array of exactly `n` bytes. -/
@[ext] structure ByteVector (n : ℕ) where
  toList : Bytes
  toList_length : toList.length = n
deriving DecidableEq

namespace ByteVector
variable {n : ℕ}

attribute [simp] toList_length

theorem toList_injective : Function.Injective (toList (n := n)) := fun _ _ h => ByteVector.ext h

@[simp] theorem toList_inj {a b : ByteVector n} : a.toList = b.toList ↔ a = b :=
  toList_injective.eq_iff

/-- The array of one repeated byte. -/
def replicate (n : ℕ) (byte : UInt8) : ByteVector n := ⟨List.replicate n byte,List.length_replicate⟩

/-- Conversion of a slice into an array of exactly `n` bytes. -/
def tryFrom (n : ℕ) (bytes : Bytes) : Option (ByteVector n) :=
  if h : bytes.length = n then some ⟨bytes,h⟩ else none

@[simp] theorem tryFrom_eq_some {bytes : Bytes} {v : ByteVector n} :
    tryFrom n bytes = some v ↔ bytes = v.toList := by
  unfold tryFrom
  split
  · rw [Option.some.injEq,ByteVector.ext_iff]
  · rename_i h
    simp only [reduceCtorEq,false_iff]
    rintro rfl
    exact h v.toList_length

/-- Lexicographic order of byte arrays. -/
instance : Ord (ByteVector n) := ⟨compareOn toList⟩

instance : Std.TransOrd (ByteVector n) := inferInstanceAs (Std.TransCmp (compareOn toList))

instance : Std.LawfulEqOrd (ByteVector n) where
  compare_self {a} := (Std.ReflCmp.compare_self : compare a.toList a.toList = .eq)
  eq_of_compare {a b} h := by
    have hl : compare a.toList b.toList = .eq := h
    exact toList_injective (Std.LawfulEqCmp.eq_of_compare hl)

end ByteVector

/-- Little-endian bytes of a natural number, truncated to the width. -/
def leBytes : ℕ → ℕ → Bytes
  | 0, _ => []
  | width + 1, n => UInt8.ofNat (n % 256) :: leBytes width (n / 256)

/-- The natural number written by little-endian bytes. -/
def ofLeBytes : Bytes → ℕ
  | [] => 0
  | b :: rest => b.toNat + 256 * ofLeBytes rest

@[simp] theorem leBytes_length (width n : ℕ) : (leBytes width n).length = width := by
  induction width generalizing n with
  | zero => rfl
  | succ width ih => simp [leBytes,ih]

theorem ofLeBytes_lt (bytes : Bytes) : ofLeBytes bytes < 256 ^ bytes.length := by
  induction bytes with
  | nil => simp [ofLeBytes]
  | cons byte rest ih =>
    have hbyte := byte.toNat_lt
    rw [ofLeBytes,List.length_cons,Nat.pow_succ]
    omega

theorem ofLeBytes_leBytes (width n : ℕ) : ofLeBytes (leBytes width n) = n % 256 ^ width := by
  induction width generalizing n with
  | zero => simp [leBytes,ofLeBytes,Nat.mod_one]
  | succ width ih =>
    simp only [leBytes,ofLeBytes,ih]
    have hb : (UInt8.ofNat (n % 256)).toNat = n % 256 := by simp
    rw [hb,pow_succ,mul_comm (256 ^ width),Nat.mod_mul]

theorem leBytes_inj {width a b : ℕ} (ha : a < 256 ^ width) (hb : b < 256 ^ width)
    (h : leBytes width a = leBytes width b) : a = b := by
  have hh := congrArg ofLeBytes h
  rwa [ofLeBytes_leBytes,ofLeBytes_leBytes,Nat.mod_eq_of_lt ha,Nat.mod_eq_of_lt hb] at hh

def u16LeBytes (x : UInt16) : Bytes := leBytes 2 x.toNat
def u32LeBytes (x : UInt32) : Bytes := leBytes 4 x.toNat
def u64LeBytes (x : UInt64) : Bytes := leBytes 8 x.toNat

@[simp] theorem u16LeBytes_length (x : UInt16) : (u16LeBytes x).length = 2 := leBytes_length _ _
@[simp] theorem u32LeBytes_length (x : UInt32) : (u32LeBytes x).length = 4 := leBytes_length _ _
@[simp] theorem u64LeBytes_length (x : UInt64) : (u64LeBytes x).length = 8 := leBytes_length _ _

theorem u16LeBytes_injective : Function.Injective u16LeBytes := fun x y h =>
  UInt16.toNat_inj.mp (leBytes_inj (by simpa using x.toNat_lt) (by simpa using y.toNat_lt) h)
theorem u32LeBytes_injective : Function.Injective u32LeBytes := fun x y h =>
  UInt32.toNat_inj.mp (leBytes_inj (by simpa using x.toNat_lt) (by simpa using y.toNat_lt) h)
theorem u64LeBytes_injective : Function.Injective u64LeBytes := fun x y h =>
  UInt64.toNat_inj.mp (leBytes_inj (by simpa using x.toNat_lt) (by simpa using y.toNat_lt) h)

@[simp] theorem u16LeBytes_inj {x y : UInt16} : u16LeBytes x = u16LeBytes y ↔ x = y :=
  u16LeBytes_injective.eq_iff
@[simp] theorem u32LeBytes_inj {x y : UInt32} : u32LeBytes x = u32LeBytes y ↔ x = y :=
  u32LeBytes_injective.eq_iff
@[simp] theorem u64LeBytes_inj {x y : UInt64} : u64LeBytes x = u64LeBytes y ↔ x = y :=
  u64LeBytes_injective.eq_iff

/-- Two concatenations of fields of the same widths agree only field by field. -/
theorem flatten_inj_of_lengths {α : Type*} {xs ys : List (List α)}
    (hl : xs.map List.length = ys.map List.length) (h : xs.flatten = ys.flatten) : xs = ys :=
  List.eq_iff_flatten_eq.mpr ⟨h,hl⟩

/-- `u64::checked_add`. -/
def checkedAdd64 (a b : UInt64) : Option UInt64 :=
  if a.toNat + b.toNat < 2 ^ 64 then some (a + b) else none

/-- `u64::checked_sub`. -/
def checkedSub64 (a b : UInt64) : Option UInt64 := if b ≤ a then some (a - b) else none

/-- `u32::checked_add`. -/
def checkedAdd32 (a b : UInt32) : Option UInt32 :=
  if a.toNat + b.toNat < 2 ^ 32 then some (a + b) else none

theorem checkedAdd64_eq_some {a b c : UInt64} :
    checkedAdd64 a b = some c ↔ a.toNat + b.toNat = c.toNat := by
  unfold checkedAdd64
  have hc := c.toNat_lt
  split
  · rename_i h
    rw [Option.some.injEq,← UInt64.toNat_inj,UInt64.toNat_add,Nat.mod_eq_of_lt h]
  · simp only [reduceCtorEq,false_iff]
    omega

theorem checkedAdd64_eq_none {a b : UInt64} : checkedAdd64 a b = none ↔ 2 ^ 64 ≤ a.toNat + b.toNat := by
  unfold checkedAdd64
  split
  · rename_i h
    simp only [reduceCtorEq,false_iff]
    omega
  · rename_i h
    simp only [true_iff]
    omega

theorem checkedSub64_eq_some {a b c : UInt64} :
    checkedSub64 a b = some c ↔ a.toNat = b.toNat + c.toNat := by
  unfold checkedSub64
  split
  · rename_i h
    have hn : b.toNat ≤ a.toNat := UInt64.le_iff_toNat_le.mp h
    rw [Option.some.injEq,← UInt64.toNat_inj,UInt64.toNat_sub_of_le _ _ h]
    omega
  · rename_i h
    have hn : ¬b.toNat ≤ a.toNat := fun hh => h (UInt64.le_iff_toNat_le.mpr hh)
    simp only [reduceCtorEq,false_iff]
    omega

theorem checkedSub64_eq_none {a b : UInt64} : checkedSub64 a b = none ↔ a.toNat < b.toNat := by
  unfold checkedSub64
  simp only [ite_eq_right_iff,reduceCtorEq,imp_false,UInt64.not_le,UInt64.lt_iff_toNat_lt]

theorem checkedAdd32_eq_some {a b c : UInt32} :
    checkedAdd32 a b = some c ↔ a.toNat + b.toNat = c.toNat := by
  unfold checkedAdd32
  have hc := c.toNat_lt
  split
  · rename_i h
    rw [Option.some.injEq,← UInt32.toNat_inj,UInt32.toNat_add,Nat.mod_eq_of_lt h]
  · simp only [reduceCtorEq,false_iff]
    omega

theorem checkedAdd32_eq_none {a b : UInt32} : checkedAdd32 a b = none ↔ 2 ^ 32 ≤ a.toNat + b.toNat := by
  unfold checkedAdd32
  split
  · rename_i h
    simp only [reduceCtorEq,false_iff]
    omega
  · rename_i h
    simp only [true_iff]
    omega

/-- `u32::try_from` on a nonnegative machine integer. -/
def u32TryFrom (n : ℕ) : Option UInt32 := if n < 2 ^ 32 then some (UInt32.ofNat n) else none

theorem u32TryFrom_eq_some {n : ℕ} {x : UInt32} : u32TryFrom n = some x ↔ x.toNat = n := by
  unfold u32TryFrom
  have hx := x.toNat_lt
  split
  · rename_i h
    rw [Option.some.injEq,← UInt32.toNat_inj,UInt32.toNat_ofNat',Nat.mod_eq_of_lt h]
    exact eq_comm
  · simp only [reduceCtorEq,false_iff]
    omega

theorem u32TryFrom_eq_none {n : ℕ} : u32TryFrom n = none ↔ 2 ^ 32 ≤ n := by
  unfold u32TryFrom
  simp only [ite_eq_right_iff,reduceCtorEq,imp_false,Nat.not_lt]

theorem u32TryFrom_isSome {n : ℕ} (h : n < 2 ^ 32) : ∃ x, u32TryFrom n = some x :=
  ⟨UInt32.ofNat n,if_pos h⟩

end TandemVerifier.Library
