import TandemVerifier.Library.Crypto

/-! # Consensus data types with fixed-width encodings

The records, enumerations and witness decoders of `tandem-core/src/types.rs`. Hash
functions and the curve test come from external crates and are a parameter of every
definition that uses them. Maps are ordered and extensional, so equality of states
is equality of their entries.
-/
namespace TandemVerifier
open Library

/-- The external primitives: SHA256, HASH160 and secp256k1 point decoding. -/
structure Primitives where
  sha256 : Bytes → ByteVector 32
  hash160 : Bytes → ByteVector 20
  isPoint : Bytes → Bool

def bitcoinPrimitives : Primitives where
  sha256 := Crypto.sha256
  hash160 bytes := Crypto.ripemd160 (Crypto.sha256 bytes).toList
  isPoint := Crypto.isCompressedPoint

def ascii (cs : List Char) : Bytes := cs.map fun c => UInt8.ofNat c.toNat

def magic : Bytes := ascii ['T','N','D','M']
def version : UInt8 := 1
def carrierValue : UInt64 := 20000
def refundDelay : UInt32 := 52560
def foundingWindow : UInt32 := 4320
def initLead : UInt32 := 1008
def changeFloor : UInt64 := 1000
def rbfSequence : UInt32 := 0xfffffffd

abbrev Hash32 := ByteVector 32
abbrev Key33 := ByteVector 33

def Hash32.zero : Hash32 := ByteVector.replicate 32 0
def Hash32.isZero (hash : Hash32) : Bool := hash == Hash32.zero

instance : Std.TransOrd Hash32 := inferInstanceAs (Std.TransOrd (ByteVector 32))
instance : Std.LawfulEqOrd Hash32 := inferInstanceAs (Std.LawfulEqOrd (ByteVector 32))
instance : LawfulBEq Hash32 := instLawfulBEq

structure OutPointRef where
  txid : Hash32
  vout : UInt32
deriving DecidableEq

namespace OutPointRef

def zero : OutPointRef := ⟨Hash32.zero,0⟩

def wireBytes (outpoint : OutPointRef) : Bytes :=
  [outpoint.txid.toList,u32LeBytes outpoint.vout].flatten

instance : Ord OutPointRef := ⟨compareLex (compareOn txid) (compareOn vout)⟩

instance : Std.TransOrd OutPointRef :=
  inferInstanceAs (Std.TransCmp (compareLex (compareOn txid) (compareOn vout)))

instance : Std.LawfulEqOrd OutPointRef where
  compare_self {a} := (Std.ReflCmp.compare_self :
    compareLex (compareOn txid) (compareOn vout) a a = .eq)
  eq_of_compare {a b} h := by
    have hh : (compareOn txid a b).then (compareOn vout a b) = .eq := h
    obtain ⟨ht,hv⟩ := Ordering.then_eq_eq.mp hh
    obtain ⟨at',av⟩ := a
    obtain ⟨bt,bv⟩ := b
    obtain rfl : at' = bt := Std.LawfulEqCmp.eq_of_compare ht
    obtain rfl : av = bv := Std.LawfulEqCmp.eq_of_compare hv
    rfl

@[simp] theorem wireBytes_length (outpoint : OutPointRef) : outpoint.wireBytes.length = 36 := by
  simp [wireBytes]

@[simp] theorem wireBytes_inj {a b : OutPointRef} : a.wireBytes = b.wireBytes ↔ a = b := by
  refine ⟨fun h => ?_,fun h => h ▸ rfl⟩
  have hh := flatten_inj_of_lengths (by simp) h
  simp only [List.cons.injEq,u32LeBytes_inj,and_true] at hh
  obtain ⟨at',av⟩ := a
  obtain ⟨bt,bv⟩ := b
  exact congrArg₂ mk (ByteVector.toList_injective hh.1) hh.2

end OutPointRef

namespace Key33

def zero : Key33 := ByteVector.replicate 33 0

def p2wpkhScript (P : Primitives) (key : Key33) : Bytes :=
  [[0x00,0x14],(P.hash160 key.toList).toList].flatten

def isValid (P : Primitives) (key : Key33) : Bool :=
  (key.toList.head? == some 0x02 || key.toList.head? == some 0x03) && P.isPoint key.toList

end Key33

structure KeyPair where
  key0 : Key33
  key1 : Key33
deriving DecidableEq

namespace KeyPair

/-- Construct only a valid sorted, distinct pair. -/
def checked (P : Primitives) (key0 key1 : Key33) : Option KeyPair :=
  if key0.isValid P && key1.isValid P && compare key0 key1 == .lt then some ⟨key0,key1⟩ else none

def witnessScript (keys : KeyPair) : Bytes :=
  [[0x52,0x21],keys.key0.toList,[0x21],keys.key1.toList,[0x52,0xae]].flatten

def carrierScript (P : Primitives) (keys : KeyPair) : Bytes :=
  [[0x00,0x20],(P.sha256 keys.witnessScript).toList].flatten

def contains (keys : KeyPair) (key : Key33) : Bool := keys.key0 == key || keys.key1 == key

@[simp] theorem carrierScript_length (P : Primitives) (keys : KeyPair) :
    (keys.carrierScript P).length = 34 := by
  simp [carrierScript]

end KeyPair

inductive Network where
  | mainnet
  | signet
  | testnet4
  | regtest
deriving DecidableEq

namespace Network

def code : Network → UInt8
  | mainnet => 0
  | signet => 1
  | testnet4 => 2
  | regtest => 3

theorem code_injective : Function.Injective code := by
  intro a b h
  cases a <;> cases b <;> first | rfl | simp [code] at h

end Network

structure Binding where
  network : Network
  initTxid : Hash32
  specHash : Hash32
deriving DecidableEq

def Binding.namespacePreimage (binding : Binding) : Bytes :=
  [ascii ['T','A','N','D','E','M','/','N','A','M','E','S','P','A','C','E'] ++ [0],
    [binding.network.code],binding.initTxid.toList,binding.specHash.toList].flatten

def Binding.namespace (P : Primitives) (binding : Binding) : Hash32 :=
  P.sha256 binding.namespacePreimage

def objectKeyPreimage (ns createTxid : Hash32) : Bytes :=
  [ascii ['T','A','N','D','E','M','/','O','B','J','E','C','T'] ++ [0],
    ns.toList,createTxid.toList,u32LeBytes 1].flatten

/-- The binary object key of a CREATE output at vout 1. -/
def objectKey (P : Primitives) (ns createTxid : Hash32) : Hash32 :=
  P.sha256 (objectKeyPreimage ns createTxid)

inductive Opcode where
  | init
  | create
  | mark
  | rotate
  | close
deriving DecidableEq

namespace Opcode

def fromByte (value : UInt8) : Option Opcode :=
  if value = 0 then some init
  else if value = 1 then some create
  else if value = 2 then some mark
  else if value = 3 then some rotate
  else if value = 4 then some close
  else none

def payloadLen : Opcode → ℕ
  | init => 59
  | create => 40
  | mark => 78
  | rotate => 44
  | close => 80

end Opcode

inductive Reason where
  | valid
  | multipleMarkers
  | badMarkerEncodingOrLength
  | unknownVersion
  | wrongNetwork
  | unknownOpcode
  | wrongNamespace
  | unsupportedOrReservedField
  | badTxVersionOrLocktime
  | badInputCountOrOrder
  | badOutputCountOrOrder
  | unconfirmedOrSameBlockPrevout
  | badInputScript
  | badKeyOrderOrBinding
  | badSignatureOrSighash
  | badOutputScriptOrValue
  | nonpositiveOrInvalidFee
  | badFeeSplitOrChange
  | predecessorNotActive
  | badStateSequence
  | badSuccessor
  | badCommitment
  | badHeightOrPhase
  | badRefundShapeOrMaturity
  | multipleCarriers
  | unmarkedCarrierSpend
deriving DecidableEq

def Reason.code : Reason → UInt16
  | valid => 0x0000
  | multipleMarkers => 0x0001
  | badMarkerEncodingOrLength => 0x0002
  | unknownVersion => 0x0003
  | wrongNetwork => 0x0004
  | unknownOpcode => 0x0005
  | wrongNamespace => 0x0006
  | unsupportedOrReservedField => 0x0007
  | badTxVersionOrLocktime => 0x0010
  | badInputCountOrOrder => 0x0011
  | badOutputCountOrOrder => 0x0012
  | unconfirmedOrSameBlockPrevout => 0x0013
  | badInputScript => 0x0014
  | badKeyOrderOrBinding => 0x0015
  | badSignatureOrSighash => 0x0016
  | badOutputScriptOrValue => 0x0017
  | nonpositiveOrInvalidFee => 0x0018
  | badFeeSplitOrChange => 0x0019
  | predecessorNotActive => 0x001a
  | badStateSequence => 0x001b
  | badSuccessor => 0x001c
  | badCommitment => 0x001d
  | badHeightOrPhase => 0x001e
  | badRefundShapeOrMaturity => 0x001f
  | multipleCarriers => 0x0020
  | unmarkedCarrierSpend => 0x0030

theorem Reason.code_injective : Function.Injective Reason.code := by
  intro a b h
  cases a <;> cases b <;> first | rfl | simp [code] at h

inductive EventType where
  | init
  | create
  | mark
  | rotate
  | close
  | refund
  | exitedNoncanonical
  | invalid
deriving DecidableEq

def EventType.code : EventType → UInt8
  | init => 0
  | create => 1
  | mark => 2
  | rotate => 3
  | close => 4
  | refund => 5
  | exitedNoncanonical => 6
  | invalid => 7

theorem EventType.code_injective : Function.Injective EventType.code := by
  intro a b h
  cases a <;> cases b <;> first | rfl | simp [code] at h

def EventType.ofOpcode : Opcode → EventType
  | .init => .init
  | .create => .create
  | .mark => .mark
  | .rotate => .rotate
  | .close => .close

inductive ValidityClass where
  | invalidNoState
  | validOperation
  | terminalNoncanonical
deriving DecidableEq

def ValidityClass.code : ValidityClass → UInt8
  | invalidNoState => 0
  | validOperation => 1
  | terminalNoncanonical => 2

theorem ValidityClass.code_injective : Function.Injective ValidityClass.code := by
  intro a b h
  cases a <;> cases b <;> first | rfl | simp [code] at h

inductive ObjectStatus where
  | active
  | closed
  | refunded
  | exitedNoncanonical
deriving DecidableEq

def ObjectStatus.code : ObjectStatus → UInt8
  | active => 0
  | closed => 1
  | refunded => 2
  | exitedNoncanonical => 3

structure InputView where
  prevout : OutPointRef
  sequence : UInt32
  scriptSig : Bytes
  witness : List Bytes
  prevoutValue : UInt64
  prevoutScript : Bytes
  prevoutHeight : Option UInt64
  signaturesValid : Bool
deriving DecidableEq

namespace InputView

def p2wpkhRevealedKey (input : InputView) : Option Key33 :=
  if input.scriptSig ≠ [] ∨ input.witness.length ≠ 2 ∨ input.prevoutScript.length ≠ 22 ∨
      input.prevoutScript.take 2 ≠ [0x00,0x14] then none
  else input.witness[1]?.bind (ByteVector.tryFrom 33)

/-- A valid native P2WPKH witness key bound to its prevout. -/
def p2wpkhKey (P : Primitives) (input : InputView) : Option Key33 := do
  let key ← input.p2wpkhRevealedKey
  if !key.isValid P || key.p2wpkhScript P != input.prevoutScript then none else some key

def carrierRevealedKeys (input : InputView) : Option (Key33 × Key33) :=
  if input.scriptSig ≠ [] ∨ input.witness.length ≠ 4 ∨ input.witness[0]? ≠ some [] ∨
      input.prevoutScript.length ≠ 34 ∨ input.prevoutScript.take 2 ≠ [0x00,0x20] then none
  else input.witness[3]?.bind fun script =>
    if script.length ≠ 71 ∨ script.take 2 ≠ [0x52,0x21] ∨ script[35]? ≠ some 0x21 ∨
        script.drop 69 ≠ [0x52,0xae] then none
    else do
      let key0 ← ByteVector.tryFrom 33 ((script.drop 2).take 33)
      let key1 ← ByteVector.tryFrom 33 ((script.drop 36).take 33)
      some (key0,key1)

/-- A valid carrier witness shape and key pair bound to its prevout. -/
def carrierKeys (P : Primitives) (input : InputView) : Option KeyPair := do
  let (key0,key1) ← input.carrierRevealedKeys
  let pair ← KeyPair.checked P key0 key1
  if pair.carrierScript P == input.prevoutScript then some pair else none

def hasEarlierConfirmation (input : InputView) (blockHeight : UInt64) : Bool :=
  input.prevoutHeight.any fun height => height < blockHeight

end InputView

structure OutputView where
  value : UInt64
  scriptPubkey : Bytes
deriving DecidableEq

structure TxView where
  txid : Hash32
  wtxid : Hash32
  version : Int32
  lockTime : UInt32
  inputs : List InputView
  outputs : List OutputView
deriving DecidableEq

structure BlockView where
  hash : Hash32
  previousHash : Hash32
  height : UInt64
  transactions : List TxView
deriving DecidableEq

structure Event where
  ns : Hash32
  blockHash : Hash32
  height : UInt64
  txIndex : UInt32
  eventIndex : UInt32
  subIndex : UInt32
  eventType : EventType
  validityClass : ValidityClass
  reason : Reason
  txid : Hash32
  wtxid : Hash32
  objectKey : Hash32
  stateSeq : UInt32
  predecessor : OutPointRef
  successor : OutPointRef
  key0 : Key33
  key1 : Key33
  commitment : Hash32
deriving DecidableEq

structure ObjectState where
  objectKey : Hash32
  genesis : OutPointRef
  founding : Bool
  status : ObjectStatus
  createHeight : UInt64
  stateSeq : UInt32
  currentOutpoint : OutPointRef
  keys : KeyPair
  terminalTxid : Hash32
  chapterCount : UInt32
deriving DecidableEq

inductive ProtocolStatus where
  | awaitingInit
  | active (initHeight : UInt64) (hOpen hClose : UInt32)
  | failedInit (reason : Reason) (initHeight : UInt64)
deriving DecidableEq

abbrev ObjectMap := Std.ExtTreeMap Hash32 ObjectState
abbrev ActiveMap := Std.ExtTreeMap OutPointRef Hash32

/-- All canonical state required to reduce the next block. -/
structure ChainState where
  binding : Binding
  protocolStatus : ProtocolStatus
  tipHeight : Option UInt64
  tipHash : Option Hash32
  chainedRoot : Hash32
  objects : ObjectMap
  active : ActiveMap
deriving DecidableEq

structure Counters where
  foundingCreated : UInt64
  allObjects : UInt64
  activeObjects : UInt64
deriving DecidableEq

structure HeightRoots where
  height : UInt64
  blockHash : Hash32
  eventRoot : Hash32
  objectStateRoot : Hash32
  chainedRoot : Hash32
  counters : Counters
deriving DecidableEq

namespace ChainState

def stateEmptyPreimage (ns : Hash32) : Bytes :=
  [ascii ['T','A','N','D','E','M','/','S','T','A','T','E','-','E','M','P','T','Y'] ++ [0],ns.toList].flatten

/-- The fail-closed state of an explicit binding. -/
def new (P : Primitives) (binding : Binding) : ChainState where
  binding := binding
  protocolStatus := .awaitingInit
  tipHeight := none
  tipHash := none
  chainedRoot := P.sha256 (stateEmptyPreimage (binding.namespace P))
  objects := ∅
  active := ∅

/-- Objects ordered by object key. -/
def objectValues (state : ChainState) : List ObjectState := state.objects.toList.map Prod.snd

def counters (state : ChainState) : Counters where
  foundingCreated := UInt64.ofNat (state.objectValues.countP fun object => object.founding)
  allObjects := UInt64.ofNat state.objects.size
  activeObjects := UInt64.ofNat (state.objectValues.countP fun object => object.status = .active)

end ChainState
end TandemVerifier
