import TandemVerifier.Library.FixedWidth

/-! # Hexadecimal text of byte arrays

Text is written in lower case and read in either case. The reader works on the UTF-8
bytes of the text: it rejects an odd number of them, then a wrong number, then the first
byte that is not a digit.
-/
namespace TandemVerifier.Library.Hex

inductive Error where
  | invalidHexCharacter (c : UInt8) (index : ℕ)
  | oddLength
  | invalidStringLength
deriving DecidableEq

/-- The lower-case digit of a value below sixteen. -/
def digit (value : ℕ) : Char := if value < 10 then Char.ofNat (48 + value) else Char.ofNat (87 + value)

def encodeByte (byte : UInt8) : List Char := [digit (byte.toNat / 16),digit (byte.toNat % 16)]

def encode (bytes : Bytes) : String := String.ofList (bytes.flatMap encodeByte)

def val (c : UInt8) (index : ℕ) : Except Error ℕ :=
  if 65 ≤ c ∧ c ≤ 70 then .ok (c.toNat - 65 + 10)
  else if 97 ≤ c ∧ c ≤ 102 then .ok (c.toNat - 97 + 10)
  else if 48 ≤ c ∧ c ≤ 57 then .ok (c.toNat - 48)
  else .error (.invalidHexCharacter c index)

def decodePairs : ℕ → Bytes → Except Error Bytes
  | index,high :: low :: rest => do
    let upper ← val high index
    let lower ← val low (index + 1)
    let bytes ← decodePairs (index + 2) rest
    pure (UInt8.ofNat (16 * upper + lower) :: bytes)
  | _,_ => pure []

/-- Read text of any even number of digits. -/
def decode (text : String) : Except Error Bytes :=
  let data := text.toUTF8.data.toList
  if data.length % 2 ≠ 0 then .error .oddLength else decodePairs 0 data

/-- Read text into an array of exactly `n` bytes. -/
def decodeToSlice (n : ℕ) (text : String) : Except Error (ByteVector n) :=
  let data := text.toUTF8.data.toList
  if data.length % 2 ≠ 0 then .error .oddLength
  else if data.length / 2 ≠ n then .error .invalidStringLength
  else do
    let bytes ← decodePairs 0 data
    (ByteVector.tryFrom n bytes).elim (.error .invalidStringLength) .ok

/-- The UTF-8 byte of a digit. -/
def digitByte (value : ℕ) : UInt8 := UInt8.ofNat (digit value).toNat

theorem utf8_digit : ∀ value < 16, String.utf8EncodeChar (digit value) = [digitByte value] := by decide

theorem val_digitByte : ∀ value < 16, ∀ index, val (digitByte value) index = .ok value := by
  have hval : ∀ value < 16, val (digitByte value) = fun _ => .ok value := by
    intro value hvalue
    rcases value with _ | _ | _ | _ | _ | _ | _ | _ | _ | _ | _ | _ | _ | _ | _ | _ | value
    all_goals first | rfl | omega
  intro value hvalue index
  rw [hval value hvalue]

def pairBytes (byte : UInt8) : Bytes := [digitByte (byte.toNat / 16),digitByte (byte.toNat % 16)]

theorem encode_utf8 (bytes : Bytes) : (encode bytes).toUTF8.data.toList = bytes.flatMap pairBytes := by
  have hbyte : ∀ byte : UInt8, (encodeByte byte).flatMap String.utf8EncodeChar = pairBytes byte := by
    intro byte
    have hlt := byte.toNat_lt
    simp only [encodeByte,List.flatMap_cons,List.flatMap_nil,utf8_digit (byte.toNat / 16) (by omega),
      utf8_digit (byte.toNat % 16) (by omega)]
    rfl
  rw [encode,String.toUTF8_eq_toByteArray,String.toByteArray_ofList,List.utf8Encode]
  simp [hbyte,List.flatMap_assoc]

theorem pairBytes_length (bytes : Bytes) : (bytes.flatMap pairBytes).length = 2 * bytes.length := by
  induction bytes with
  | nil => rfl
  | cons byte rest ih =>
    rw [List.flatMap_cons,List.length_append,ih,List.length_cons]
    change 2 + 2 * rest.length = 2 * (rest.length + 1)
    omega

theorem decodePairs_pairBytes (index : ℕ) (bytes : Bytes) :
    decodePairs index (bytes.flatMap pairBytes) = .ok bytes := by
  induction bytes generalizing index with
  | nil => rfl
  | cons byte rest ih =>
    have hlt := byte.toNat_lt
    have hbyte : 16 * (byte.toNat / 16) + byte.toNat % 16 = byte.toNat := by omega
    rw [List.flatMap_cons,pairBytes,List.cons_append,List.cons_append,List.nil_append,decodePairs,
      val_digitByte (byte.toNat / 16) (by omega),val_digitByte (byte.toNat % 16) (by omega),ih]
    change Except.ok (UInt8.ofNat (16 * (byte.toNat / 16) + byte.toNat % 16) :: rest) = _
    rw [hbyte,UInt8.ofNat_toNat]

/-- Text written from bytes reads back as the bytes. -/
theorem decode_encode (bytes : Bytes) : decode (encode bytes) = .ok bytes := by
  have hlength := pairBytes_length bytes
  unfold decode
  rw [encode_utf8]
  dsimp only
  rw [if_neg (by omega),decodePairs_pairBytes]

/-- Text written from an array reads back as the array. -/
theorem decodeToSlice_encode {n : ℕ} (v : ByteVector n) : decodeToSlice n (encode v.toList) = .ok v := by
  have hlength := pairBytes_length v.toList
  rw [v.toList_length] at hlength
  have hslice : ByteVector.tryFrom n v.toList = some v := ByteVector.tryFrom_eq_some.mpr rfl
  unfold decodeToSlice
  rw [encode_utf8]
  dsimp only
  rw [if_neg (by omega),if_neg (by omega),decodePairs_pairBytes]
  change (ByteVector.tryFrom n v.toList).elim (.error Error.invalidStringLength) .ok = Except.ok v
  rw [hslice]
  rfl

end TandemVerifier.Library.Hex
