import TandemVerifier.Core.Persistence

/-! # JSON encodings of resolved blocks

The encodings that `serde` derives for the views of inputs, outputs, transactions and blocks.
Scripts and witness items are hexadecimal text, by the helpers `hex_bytes` and `hex_vec`
of `types.rs`.
-/
namespace TandemVerifier
open Library

section Bytes

namespace HexBytes

def serialize (value : Bytes) : Json := .string (Hex.encode value)

def deserialize : Json → Option Bytes
  | .string value => (Hex.decode value).toOption
  | _ => none

theorem deserialize_serialize (value : Bytes) : deserialize (serialize value) = some value := by
  simp only [serialize,deserialize,Hex.decode_encode]
  rfl

end HexBytes

namespace HexVec

def serialize (value : List Bytes) : Json := .array (value.map HexBytes.serialize)

def deserialize : Json → Option (List Bytes)
  | .array items => items.mapM HexBytes.deserialize
  | _ => none

theorem deserialize_serialize (value : List Bytes) : deserialize (serialize value) = some value := by
  simp only [serialize,deserialize]
  induction value with
  | nil => rfl
  | cons item rest ih => simp [HexBytes.deserialize_serialize,ih]

end HexVec

instance : Serialize Int32 := ⟨fun value => .number value.toInt⟩

instance : Deserialize Int32 where
  fromValue
    | .number value => if -2 ^ 31 ≤ value ∧ value < 2 ^ 31 then some (Int32.ofInt value) else none
    | _ => none

instance : Lossless Int32 where
  fromValue_toValue value := by
    change (if -2 ^ 31 ≤ value.toInt ∧ value.toInt < 2 ^ 31 then some (Int32.ofInt value.toInt) else none) =
      some value
    rw [if_pos ⟨value.le_toInt,value.toInt_lt⟩,Int32.ofInt_toInt]

end Bytes

section Records

namespace InputView

def names : List String :=
  ["prevout","sequence","script_sig","witness","prevout_value","prevout_script","prevout_height",
    "signatures_valid"]

def values (input : InputView) : List Json :=
  [toValue input.prevout,toValue input.sequence,HexBytes.serialize input.scriptSig,
    HexVec.serialize input.witness,toValue input.prevoutValue,HexBytes.serialize input.prevoutScript,
    toValue input.prevoutHeight,toValue input.signaturesValid]

def encode (input : InputView) : Json := record names input.values

def decode (value : Json) : Option InputView := do
  let fields ← recordFields names value
  mk <$> required (fields "prevout") <*> required (fields "sequence") <*>
    (fields "script_sig").bind HexBytes.deserialize <*> (fields "witness").bind HexVec.deserialize <*>
    required (fields "prevout_value") <*> (fields "prevout_script").bind HexBytes.deserialize <*>
    optional (fields "prevout_height") <*> required (fields "signatures_valid")

instance : Serialize InputView := ⟨encode⟩
instance : Deserialize InputView := ⟨decode⟩

theorem decode_encode (input : InputView) : decode input.encode = some input := by
  refine decode_record (by simp [names]) rfl fun fields hvalues => ?_
  simp only [names,values,List.map_cons,List.map_nil,List.cons.injEq,and_true] at hvalues
  simp only [hvalues,required_toValue,optional_toValue UInt64.toValue_ne_null,Option.bind_some,
    HexBytes.deserialize_serialize,HexVec.deserialize_serialize,Option.map_eq_map,Option.map_some,
    Option.seq_some]

instance : Lossless InputView := ⟨decode_encode⟩

end InputView

namespace OutputView

def names : List String := ["value","script_pubkey"]

def values (output : OutputView) : List Json :=
  [toValue output.value,HexBytes.serialize output.scriptPubkey]

def encode (output : OutputView) : Json := record names output.values

def decode (value : Json) : Option OutputView := do
  let fields ← recordFields names value
  mk <$> required (fields "value") <*> (fields "script_pubkey").bind HexBytes.deserialize

instance : Serialize OutputView := ⟨encode⟩
instance : Deserialize OutputView := ⟨decode⟩

theorem decode_encode (output : OutputView) : decode output.encode = some output := by
  refine decode_record (by simp [names]) rfl fun fields hvalues => ?_
  simp only [names,values,List.map_cons,List.map_nil,List.cons.injEq,and_true] at hvalues
  simp only [hvalues,required_toValue,Option.bind_some,HexBytes.deserialize_serialize,Option.map_eq_map,
    Option.map_some,Option.seq_some]

instance : Lossless OutputView := ⟨decode_encode⟩

end OutputView

namespace TxView

def names : List String := ["txid","wtxid","version","lock_time","inputs","outputs"]

def values (tx : TxView) : List Json :=
  [toValue tx.txid,toValue tx.wtxid,toValue tx.version,toValue tx.lockTime,toValue tx.inputs,
    toValue tx.outputs]

def encode (tx : TxView) : Json := record names tx.values

def decode (value : Json) : Option TxView := do
  let fields ← recordFields names value
  mk <$> required (fields "txid") <*> required (fields "wtxid") <*> required (fields "version") <*>
    required (fields "lock_time") <*> required (fields "inputs") <*> required (fields "outputs")

instance : Serialize TxView := ⟨encode⟩
instance : Deserialize TxView := ⟨decode⟩

theorem decode_encode (tx : TxView) : decode tx.encode = some tx := by
  refine decode_record (by simp [names]) rfl fun fields hvalues => ?_
  simp only [names,values,List.map_cons,List.map_nil,List.cons.injEq,and_true] at hvalues
  simp only [hvalues,required_toValue,Option.map_eq_map,Option.map_some,Option.seq_some]

instance : Lossless TxView := ⟨decode_encode⟩

end TxView

namespace BlockView

def names : List String := ["hash","previous_hash","height","transactions"]

def values (block : BlockView) : List Json :=
  [toValue block.hash,toValue block.previousHash,toValue block.height,toValue block.transactions]

def encode (block : BlockView) : Json := record names block.values

def decode (value : Json) : Option BlockView := do
  let fields ← recordFields names value
  mk <$> required (fields "hash") <*> required (fields "previous_hash") <*> required (fields "height") <*>
    required (fields "transactions")

instance : Serialize BlockView := ⟨encode⟩
instance : Deserialize BlockView := ⟨decode⟩

theorem decode_encode (block : BlockView) : decode block.encode = some block := by
  refine decode_record (by simp [names]) rfl fun fields hvalues => ?_
  simp only [names,values,List.map_cons,List.map_nil,List.cons.injEq,and_true] at hvalues
  simp only [hvalues,required_toValue,Option.map_eq_map,Option.map_some,Option.seq_some]

instance : Lossless BlockView := ⟨decode_encode⟩

end BlockView
end Records
end TandemVerifier
