import TandemVerifier.Core.Reducer
import TandemVerifier.Library.Hex
import TandemVerifier.Library.Json

/-! # JSON encodings of the state and of block journals

The encodings that `serde` derives from the attributes of `tandem-core/src/types.rs` and
`reducer.rs`. Hashes and keys are hexadecimal text, the objects an object keyed by that
text, the active index an array of pairs, since an outpoint is not a string. Network names
are in lower case, all other variants in upper case with underscores, and the protocol
status carries its variant in the entry `state`.
-/
namespace TandemVerifier
open Library

section Bytes

def Hash32.toHex (hash : Hash32) : String := Hex.encode hash.toList
def Hash32.fromHex (value : String) : Except Hex.Error Hash32 := Hex.decodeToSlice 32 value
def Key33.toHex (key : Key33) : String := Hex.encode key.toList
def Key33.fromHex (value : String) : Except Hex.Error Key33 := Hex.decodeToSlice 33 value

instance : Serialize Hash32 := ⟨fun hash => .string (Hash32.toHex hash)⟩

instance : Deserialize Hash32 where
  fromValue
    | .string value => (Hash32.fromHex value).toOption
    | _ => none

instance : Serialize Key33 := ⟨fun key => .string (Key33.toHex key)⟩

instance : Deserialize Key33 where
  fromValue
    | .string value => (Key33.fromHex value).toOption
    | _ => none

theorem Hash32.fromHex_toHex (hash : Hash32) : (fromHex (toHex hash)).toOption = some hash := by
  rw [fromHex,toHex,Hex.decodeToSlice_encode]
  rfl

theorem Key33.fromHex_toHex (key : Key33) : (fromHex (toHex key)).toOption = some key := by
  rw [fromHex,toHex,Hex.decodeToSlice_encode]
  rfl

instance : Lossless Hash32 := ⟨Hash32.fromHex_toHex⟩
instance : Lossless Key33 := ⟨Key33.fromHex_toHex⟩

end Bytes

section Enumerations

namespace Network

def name : Network → String
  | mainnet => "mainnet"
  | signet => "signet"
  | testnet4 => "testnet4"
  | regtest => "regtest"

def variants : List Network := [mainnet,signet,testnet4,regtest]

instance : Serialize Network := ⟨fun network => .string network.name⟩
instance : Deserialize Network := ⟨variantFromValue name variants⟩

instance : Lossless Network where
  fromValue_toValue network :=
    variantFromValue_name (by simp [variants,name]) (by cases network <;> simp [variants])

end Network

namespace Reason

def name : Reason → String
  | valid => "VALID"
  | multipleMarkers => "MULTIPLE_MARKERS"
  | badMarkerEncodingOrLength => "BAD_MARKER_ENCODING_OR_LENGTH"
  | unknownVersion => "UNKNOWN_VERSION"
  | wrongNetwork => "WRONG_NETWORK"
  | unknownOpcode => "UNKNOWN_OPCODE"
  | wrongNamespace => "WRONG_NAMESPACE"
  | unsupportedOrReservedField => "UNSUPPORTED_OR_RESERVED_FIELD"
  | badTxVersionOrLocktime => "BAD_TX_VERSION_OR_LOCKTIME"
  | badInputCountOrOrder => "BAD_INPUT_COUNT_OR_ORDER"
  | badOutputCountOrOrder => "BAD_OUTPUT_COUNT_OR_ORDER"
  | unconfirmedOrSameBlockPrevout => "UNCONFIRMED_OR_SAME_BLOCK_PREVOUT"
  | badInputScript => "BAD_INPUT_SCRIPT"
  | badKeyOrderOrBinding => "BAD_KEY_ORDER_OR_BINDING"
  | badSignatureOrSighash => "BAD_SIGNATURE_OR_SIGHASH"
  | badOutputScriptOrValue => "BAD_OUTPUT_SCRIPT_OR_VALUE"
  | nonpositiveOrInvalidFee => "NONPOSITIVE_OR_INVALID_FEE"
  | badFeeSplitOrChange => "BAD_FEE_SPLIT_OR_CHANGE"
  | predecessorNotActive => "PREDECESSOR_NOT_ACTIVE"
  | badStateSequence => "BAD_STATE_SEQUENCE"
  | badSuccessor => "BAD_SUCCESSOR"
  | badCommitment => "BAD_COMMITMENT"
  | badHeightOrPhase => "BAD_HEIGHT_OR_PHASE"
  | badRefundShapeOrMaturity => "BAD_REFUND_SHAPE_OR_MATURITY"
  | multipleCarriers => "MULTIPLE_CARRIERS"
  | unmarkedCarrierSpend => "UNMARKED_CARRIER_SPEND"

def variants : List Reason :=
  [valid,multipleMarkers,badMarkerEncodingOrLength,unknownVersion,wrongNetwork,unknownOpcode,
    wrongNamespace,unsupportedOrReservedField,badTxVersionOrLocktime,badInputCountOrOrder,
    badOutputCountOrOrder,unconfirmedOrSameBlockPrevout,badInputScript,badKeyOrderOrBinding,
    badSignatureOrSighash,badOutputScriptOrValue,nonpositiveOrInvalidFee,badFeeSplitOrChange,
    predecessorNotActive,badStateSequence,badSuccessor,badCommitment,badHeightOrPhase,
    badRefundShapeOrMaturity,multipleCarriers,unmarkedCarrierSpend]

instance : Serialize Reason := ⟨fun reason => .string reason.name⟩
instance : Deserialize Reason := ⟨variantFromValue name variants⟩

instance : Lossless Reason where
  fromValue_toValue reason :=
    variantFromValue_name (by simp [variants,name]) (by cases reason <;> simp [variants])

end Reason

namespace EventType

def name : EventType → String
  | init => "INIT"
  | create => "CREATE"
  | mark => "MARK"
  | rotate => "ROTATE"
  | close => "CLOSE"
  | refund => "REFUND"
  | exitedNoncanonical => "EXITED_NONCANONICAL"
  | invalid => "INVALID"

def variants : List EventType := [init,create,mark,rotate,close,refund,exitedNoncanonical,invalid]

instance : Serialize EventType := ⟨fun eventType => .string eventType.name⟩
instance : Deserialize EventType := ⟨variantFromValue name variants⟩

instance : Lossless EventType where
  fromValue_toValue eventType :=
    variantFromValue_name (by simp [variants,name]) (by cases eventType <;> simp [variants])

end EventType

namespace ValidityClass

def name : ValidityClass → String
  | invalidNoState => "INVALID_NO_STATE"
  | validOperation => "VALID_OPERATION"
  | terminalNoncanonical => "TERMINAL_NONCANONICAL"

def variants : List ValidityClass := [invalidNoState,validOperation,terminalNoncanonical]

instance : Serialize ValidityClass := ⟨fun validityClass => .string validityClass.name⟩
instance : Deserialize ValidityClass := ⟨variantFromValue name variants⟩

instance : Lossless ValidityClass where
  fromValue_toValue validityClass :=
    variantFromValue_name (by simp [variants,name]) (by cases validityClass <;> simp [variants])

end ValidityClass

namespace ObjectStatus

def name : ObjectStatus → String
  | active => "ACTIVE"
  | closed => "CLOSED"
  | refunded => "REFUNDED"
  | exitedNoncanonical => "EXITED_NONCANONICAL"

def variants : List ObjectStatus := [active,closed,refunded,exitedNoncanonical]

instance : Serialize ObjectStatus := ⟨fun status => .string status.name⟩
instance : Deserialize ObjectStatus := ⟨variantFromValue name variants⟩

instance : Lossless ObjectStatus where
  fromValue_toValue status :=
    variantFromValue_name (by simp [variants,name]) (by cases status <;> simp [variants])

end ObjectStatus
end Enumerations

section Records

namespace OutPointRef

def names : List String := ["txid","vout"]

def values (outpoint : OutPointRef) : List Json := [toValue outpoint.txid,toValue outpoint.vout]

def encode (outpoint : OutPointRef) : Json := record names outpoint.values

def decode (value : Json) : Option OutPointRef := do
  let fields ← recordFields names value
  mk <$> required (fields "txid") <*> required (fields "vout")

instance : Serialize OutPointRef := ⟨encode⟩
instance : Deserialize OutPointRef := ⟨decode⟩

theorem decode_encode (outpoint : OutPointRef) : decode outpoint.encode = some outpoint := by
  refine decode_record (by simp [names]) rfl fun fields hvalues => ?_
  simp only [names,values,List.map_cons,List.map_nil,List.cons.injEq,and_true] at hvalues
  simp only [hvalues,required_toValue,Option.map_eq_map,Option.map_some,Option.seq_some]

instance : Lossless OutPointRef := ⟨decode_encode⟩

end OutPointRef

namespace KeyPair

def names : List String := ["key0","key1"]

def values (keys : KeyPair) : List Json := [toValue keys.key0,toValue keys.key1]

def encode (keys : KeyPair) : Json := record names keys.values

def decode (value : Json) : Option KeyPair := do
  let fields ← recordFields names value
  mk <$> required (fields "key0") <*> required (fields "key1")

instance : Serialize KeyPair := ⟨encode⟩
instance : Deserialize KeyPair := ⟨decode⟩

theorem decode_encode (keys : KeyPair) : decode keys.encode = some keys := by
  refine decode_record (by simp [names]) rfl fun fields hvalues => ?_
  simp only [names,values,List.map_cons,List.map_nil,List.cons.injEq,and_true] at hvalues
  simp only [hvalues,required_toValue,Option.map_eq_map,Option.map_some,Option.seq_some]

instance : Lossless KeyPair := ⟨decode_encode⟩

end KeyPair

namespace Binding

def names : List String := ["network","init_txid","spec_hash"]

def values (binding : Binding) : List Json :=
  [toValue binding.network,toValue binding.initTxid,toValue binding.specHash]

def encode (binding : Binding) : Json := record names binding.values

def decode (value : Json) : Option Binding := do
  let fields ← recordFields names value
  mk <$> required (fields "network") <*> required (fields "init_txid") <*>
    required (fields "spec_hash")

instance : Serialize Binding := ⟨encode⟩
instance : Deserialize Binding := ⟨decode⟩

theorem decode_encode (binding : Binding) : decode binding.encode = some binding := by
  refine decode_record (by simp [names]) rfl fun fields hvalues => ?_
  simp only [names,values,List.map_cons,List.map_nil,List.cons.injEq,and_true] at hvalues
  simp only [hvalues,required_toValue,Option.map_eq_map,Option.map_some,Option.seq_some]

instance : Lossless Binding := ⟨decode_encode⟩

end Binding

namespace ObjectState

def names : List String :=
  ["object_key","genesis","founding","status","create_height","state_seq","current_outpoint","keys",
    "terminal_txid","chapter_count"]

def values (object : ObjectState) : List Json :=
  [toValue object.objectKey,toValue object.genesis,toValue object.founding,toValue object.status,
    toValue object.createHeight,toValue object.stateSeq,toValue object.currentOutpoint,
    toValue object.keys,toValue object.terminalTxid,toValue object.chapterCount]

def encode (object : ObjectState) : Json := record names object.values

def decode (value : Json) : Option ObjectState := do
  let fields ← recordFields names value
  mk <$> required (fields "object_key") <*> required (fields "genesis") <*>
    required (fields "founding") <*> required (fields "status") <*>
    required (fields "create_height") <*> required (fields "state_seq") <*>
    required (fields "current_outpoint") <*> required (fields "keys") <*>
    required (fields "terminal_txid") <*> required (fields "chapter_count")

instance : Serialize ObjectState := ⟨encode⟩
instance : Deserialize ObjectState := ⟨decode⟩

theorem decode_encode (object : ObjectState) : decode object.encode = some object := by
  refine decode_record (by simp [names]) rfl fun fields hvalues => ?_
  simp only [names,values,List.map_cons,List.map_nil,List.cons.injEq,and_true] at hvalues
  simp only [hvalues,required_toValue,Option.map_eq_map,Option.map_some,Option.seq_some]

instance : Lossless ObjectState := ⟨decode_encode⟩

end ObjectState

namespace ProtocolStatus

def activeNames : List String := ["init_height","h_open","h_close"]
def failedNames : List String := ["reason","init_height"]

/-- The variant is an entry of its own beside the fields. -/
def encode : ProtocolStatus → Json
  | awaitingInit => record ["state"] [.string "AWAITING_INIT"]
  | active initHeight hOpen hClose =>
    record ("state" :: activeNames) [.string "ACTIVE",toValue initHeight,toValue hOpen,toValue hClose]
  | failedInit reason initHeight =>
    record ("state" :: failedNames) [.string "FAILED_INIT",toValue reason,toValue initHeight]

def decodeVariant (variant : String) (value : Json) : Option ProtocolStatus :=
  if variant = "AWAITING_INIT" then (recordFields [] value).map fun _ => awaitingInit
  else if variant = "ACTIVE" then do
    let fields ← recordFields activeNames value
    active <$> required (fields "init_height") <*> required (fields "h_open") <*>
      required (fields "h_close")
  else if variant = "FAILED_INIT" then do
    let fields ← recordFields failedNames value
    failedInit <$> required (fields "reason") <*> required (fields "init_height")
  else none

def decode (value : Json) : Option ProtocolStatus :=
  (taggedValue "state" value).bind fun tagged => decodeVariant tagged.1 tagged.2

instance : Serialize ProtocolStatus := ⟨encode⟩
instance : Deserialize ProtocolStatus := ⟨decode⟩

theorem decode_encode (status : ProtocolStatus) : decode status.encode = some status := by
  cases status with
  | awaitingInit =>
    refine decode_tagged (by simp) rfl fun rest fields hfields _ => ?_
    rw [decodeVariant,if_pos rfl,hfields,Option.map_some]
  | active initHeight hOpen hClose =>
    refine decode_tagged (by simp [activeNames]) rfl fun rest fields hfields hvalues => ?_
    simp only [activeNames,List.map_cons,List.map_nil,List.cons.injEq,and_true] at hvalues
    rw [decodeVariant,if_neg (by simp),if_pos rfl,hfields]
    simp only [Option.bind_eq_bind,Option.bind_some,hvalues,required_toValue,Option.map_eq_map,
      Option.map_some,Option.seq_some]
  | failedInit reason initHeight =>
    refine decode_tagged (by simp [failedNames]) rfl fun rest fields hfields hvalues => ?_
    simp only [failedNames,List.map_cons,List.map_nil,List.cons.injEq,and_true] at hvalues
    rw [decodeVariant,if_neg (by simp),if_neg (by simp),if_pos rfl,hfields]
    simp only [Option.bind_eq_bind,Option.bind_some,hvalues,required_toValue,Option.map_eq_map,
      Option.map_some,Option.seq_some]

instance : Lossless ProtocolStatus := ⟨decode_encode⟩

end ProtocolStatus

namespace Event

def names : List String :=
  ["namespace","block_hash","height","tx_index","event_index","sub_index","event_type","validity_class",
    "reason","txid","wtxid","object_key","state_seq","predecessor","successor","key0","key1",
    "commitment"]

def values (event : Event) : List Json :=
  [toValue event.ns,toValue event.blockHash,toValue event.height,toValue event.txIndex,
    toValue event.eventIndex,toValue event.subIndex,toValue event.eventType,toValue event.validityClass,
    toValue event.reason,toValue event.txid,toValue event.wtxid,toValue event.objectKey,
    toValue event.stateSeq,toValue event.predecessor,toValue event.successor,toValue event.key0,
    toValue event.key1,toValue event.commitment]

def encode (event : Event) : Json := record names event.values

def decode (value : Json) : Option Event := do
  let fields ← recordFields names value
  mk <$> required (fields "namespace") <*> required (fields "block_hash") <*>
    required (fields "height") <*> required (fields "tx_index") <*> required (fields "event_index") <*>
    required (fields "sub_index") <*> required (fields "event_type") <*>
    required (fields "validity_class") <*> required (fields "reason") <*> required (fields "txid") <*>
    required (fields "wtxid") <*> required (fields "object_key") <*> required (fields "state_seq") <*>
    required (fields "predecessor") <*> required (fields "successor") <*> required (fields "key0") <*>
    required (fields "key1") <*> required (fields "commitment")

instance : Serialize Event := ⟨encode⟩
instance : Deserialize Event := ⟨decode⟩

theorem decode_encode (event : Event) : decode event.encode = some event := by
  refine decode_record (by simp [names]) rfl fun fields hvalues => ?_
  simp only [names,values,List.map_cons,List.map_nil,List.cons.injEq,and_true] at hvalues
  simp only [hvalues,required_toValue,Option.map_eq_map,Option.map_some,Option.seq_some]

instance : Lossless Event := ⟨decode_encode⟩

end Event

namespace Counters

def names : List String := ["founding_created","all_objects","active_objects"]

def values (counters : Counters) : List Json :=
  [toValue counters.foundingCreated,toValue counters.allObjects,toValue counters.activeObjects]

def encode (counters : Counters) : Json := record names counters.values

def decode (value : Json) : Option Counters := do
  let fields ← recordFields names value
  mk <$> required (fields "founding_created") <*> required (fields "all_objects") <*>
    required (fields "active_objects")

instance : Serialize Counters := ⟨encode⟩
instance : Deserialize Counters := ⟨decode⟩

theorem decode_encode (counters : Counters) : decode counters.encode = some counters := by
  refine decode_record (by simp [names]) rfl fun fields hvalues => ?_
  simp only [names,values,List.map_cons,List.map_nil,List.cons.injEq,and_true] at hvalues
  simp only [hvalues,required_toValue,Option.map_eq_map,Option.map_some,Option.seq_some]

instance : Lossless Counters := ⟨decode_encode⟩

end Counters

namespace HeightRoots

def names : List String :=
  ["height","block_hash","event_root","object_state_root","chained_root","counters"]

def values (roots : HeightRoots) : List Json :=
  [toValue roots.height,toValue roots.blockHash,toValue roots.eventRoot,toValue roots.objectStateRoot,
    toValue roots.chainedRoot,toValue roots.counters]

def encode (roots : HeightRoots) : Json := record names roots.values

def decode (value : Json) : Option HeightRoots := do
  let fields ← recordFields names value
  mk <$> required (fields "height") <*> required (fields "block_hash") <*>
    required (fields "event_root") <*> required (fields "object_state_root") <*>
    required (fields "chained_root") <*> required (fields "counters")

instance : Serialize HeightRoots := ⟨encode⟩
instance : Deserialize HeightRoots := ⟨decode⟩

theorem decode_encode (roots : HeightRoots) : decode roots.encode = some roots := by
  refine decode_record (by simp [names]) rfl fun fields hvalues => ?_
  simp only [names,values,List.map_cons,List.map_nil,List.cons.injEq,and_true] at hvalues
  simp only [hvalues,required_toValue,Option.map_eq_map,Option.map_some,Option.seq_some]

instance : Lossless HeightRoots := ⟨decode_encode⟩

end HeightRoots

end Records

section Maps

instance : Serialize ObjectMap := ⟨mapToValue Hash32.toHex⟩
instance : Deserialize ObjectMap := ⟨mapFromValue fun text => (Hash32.fromHex text).toOption⟩
instance : Lossless ObjectMap := ⟨mapFromValue_mapToValue Hash32.fromHex_toHex⟩

namespace OutpointMap

def serialize (value : ActiveMap) : Json := toValue value.toList

def deserialize (value : Json) : Option ActiveMap := do
  let pairs : List (OutPointRef × Hash32) ← fromValue value
  let expected := pairs.length
  let map : ActiveMap := .ofList pairs compare
  -- "duplicate active outpoint"
  if map.size ≠ expected then none else some map

instance : Serialize ActiveMap := ⟨serialize⟩
instance : Deserialize ActiveMap := ⟨deserialize⟩

/-- The index is read from the entries of a list of pairs without a repeated outpoint. -/
theorem deserialize_eq_some {value : Json} {active : ActiveMap} :
    deserialize value = some active ↔ ∃ pairs : List (OutPointRef × Hash32),
      fromValue value = some pairs ∧ (pairs.map Prod.fst).Nodup ∧ .ofList pairs compare = active := by
  simp only [deserialize,Option.bind_eq_bind,Option.bind_eq_some_iff]
  constructor
  · rintro ⟨pairs,hpairs,hactive⟩
    split at hactive
    · simp at hactive
    · next hsize =>
      exact ⟨pairs,hpairs,nodup_of_size_ofList (Decidable.not_not.mp hsize),Option.some.inj hactive⟩
  · rintro ⟨pairs,hpairs,hnodup,rfl⟩
    refine ⟨pairs,hpairs,?_⟩
    rw [if_neg (Decidable.not_not.mpr (Std.ExtTreeMap.size_ofList (distinct_of_nodup hnodup)))]

theorem deserialize_serialize (active : ActiveMap) : deserialize (serialize active) = some active := by
  refine deserialize_eq_some.mpr ⟨active.toList,fromValue_toValue _,?_,ofList_eq_of_perm (List.Perm.refl _)⟩
  rw [Std.ExtTreeMap.map_fst_toList_eq_keys]
  exact Std.ExtTreeMap.nodup_keys

instance : Lossless ActiveMap := ⟨deserialize_serialize⟩

end OutpointMap
end Maps

section States

theorem UInt64.toValue_ne_null (value : UInt64) : toValue value ≠ .null := by
  change Json.number value.toNat ≠ .null
  simp

theorem Hash32.toValue_ne_null (hash : Hash32) : toValue hash ≠ .null := by
  change Json.string (Hash32.toHex hash) ≠ .null
  simp

namespace ChainState

def names : List String :=
  ["binding","protocol_status","tip_height","tip_hash","chained_root","objects","active"]

def values (state : ChainState) : List Json :=
  [toValue state.binding,toValue state.protocolStatus,toValue state.tipHeight,toValue state.tipHash,
    toValue state.chainedRoot,toValue state.objects,toValue state.active]

def encode (state : ChainState) : Json := record names state.values

def decode (value : Json) : Option ChainState := do
  let fields ← recordFields names value
  mk <$> required (fields "binding") <*> required (fields "protocol_status") <*>
    optional (fields "tip_height") <*> optional (fields "tip_hash") <*>
    required (fields "chained_root") <*> required (fields "objects") <*> required (fields "active")

instance : Serialize ChainState := ⟨encode⟩
instance : Deserialize ChainState := ⟨decode⟩

theorem decode_encode (state : ChainState) : decode state.encode = some state := by
  refine decode_record (by simp [names]) rfl fun fields hvalues => ?_
  simp only [names,values,List.map_cons,List.map_nil,List.cons.injEq,and_true] at hvalues
  simp only [hvalues,required_toValue,optional_toValue UInt64.toValue_ne_null,
    optional_toValue Hash32.toValue_ne_null,Option.map_eq_map,Option.map_some,Option.seq_some]

instance : Lossless ChainState := ⟨decode_encode⟩

end ChainState

namespace BlockDelta

def names : List String := ["before","block_hash","previous_hash","height","events","roots"]

def values (delta : BlockDelta) : List Json :=
  [toValue delta.before,toValue delta.blockHash,toValue delta.previousHash,toValue delta.height,
    toValue delta.events,toValue delta.roots]

def encode (delta : BlockDelta) : Json := record names delta.values

def decode (value : Json) : Option BlockDelta := do
  let fields ← recordFields names value
  mk <$> required (fields "before") <*> required (fields "block_hash") <*>
    required (fields "previous_hash") <*> required (fields "height") <*> required (fields "events") <*>
    required (fields "roots")

instance : Serialize BlockDelta := ⟨encode⟩
instance : Deserialize BlockDelta := ⟨decode⟩

theorem decode_encode (delta : BlockDelta) : decode delta.encode = some delta := by
  refine decode_record (by simp [names]) rfl fun fields hvalues => ?_
  simp only [names,values,List.map_cons,List.map_nil,List.cons.injEq,and_true] at hvalues
  simp only [hvalues,required_toValue,Option.map_eq_map,Option.map_some,Option.seq_some]

instance : Lossless BlockDelta := ⟨decode_encode⟩

end BlockDelta

end States

/-- A state and a journal are read back as they were written. The active index is read from an
array of pairs only when no outpoint is repeated, and is written as the same pairs. -/
theorem persistence_lossless :
    (∀ state : ChainState, fromValue (toValue state) = some state) ∧
      (∀ delta : BlockDelta, fromValue (toValue delta) = some delta) ∧
      ∀ items : List Json,
        (∀ active : ActiveMap, fromValue (.array items) = some active →
          ∃ pairs again : List (OutPointRef × Hash32), fromValue (.array items) = some pairs ∧
            (pairs.map Prod.fst).Nodup ∧ fromValue (toValue active) = some again ∧ again.Perm pairs) ∧
        ∀ pairs : List (OutPointRef × Hash32), fromValue (.array items) = some pairs →
          (pairs.map Prod.fst).Nodup → ∃ active : ActiveMap, fromValue (.array items) = some active := by
  refine ⟨fromValue_toValue,fromValue_toValue,fun items => ⟨?_,?_⟩⟩
  · intro active hactive
    obtain ⟨pairs,hpairs,hnodup,rfl⟩ := OutpointMap.deserialize_eq_some.mp hactive
    exact ⟨pairs,_,hpairs,hnodup,fromValue_toValue _,toList_ofList_perm hnodup⟩
  · intro pairs hpairs hnodup
    exact ⟨_,OutpointMap.deserialize_eq_some.mpr ⟨pairs,hpairs,hnodup,rfl⟩⟩

def sampleCarriers : List (OutPointRef × Hash32) :=
  [(⟨ByteVector.replicate 32 0x33,1⟩,ByteVector.replicate 32 0x44),
    (⟨ByteVector.replicate 32 0x55,1⟩,ByteVector.replicate 32 0x66)]

def repeatedCarriers : List (OutPointRef × Hash32) :=
  sampleCarriers ++ [(⟨ByteVector.replicate 32 0x33,1⟩,ByteVector.replicate 32 0x66)]

/-- An index of two carriers is read, written and read again; the pairs that repeat the outpoint of
the first one are pairs but no index. -/
theorem sample_lossless :
    (∃ (active : ActiveMap) (again : List (OutPointRef × Hash32)),
      fromValue (toValue sampleCarriers) = some active ∧ fromValue (toValue active) = some again ∧
        again.Perm sampleCarriers) ∧
    fromValue (toValue repeatedCarriers) = some repeatedCarriers ∧
    ∀ active : ActiveMap, fromValue (toValue repeatedCarriers) ≠ some active := by
  obtain ⟨hread,hindex⟩ := persistence_lossless.2.2 (sampleCarriers.map toValue)
  obtain ⟨active,hactive⟩ := hindex sampleCarriers (fromValue_toValue sampleCarriers) (by decide)
  obtain ⟨pairs,again,hpairs,_,hagain,hperm⟩ := hread active hactive
  obtain rfl := Option.some.inj ((fromValue_toValue sampleCarriers).symm.trans hpairs)
  refine ⟨⟨active,again,hactive,hagain,hperm⟩,fromValue_toValue repeatedCarriers,?_⟩
  intro index hrepeated
  obtain ⟨pairs,_,hpairs,hnodup,_⟩ :=
    (persistence_lossless.2.2 (repeatedCarriers.map toValue)).1 index hrepeated
  obtain rfl := Option.some.inj ((fromValue_toValue repeatedCarriers).symm.trans hpairs)
  exact absurd hnodup (by decide)

end TandemVerifier
