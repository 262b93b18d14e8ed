import TandemVerifier.Core.Marker

/-! # Validation of the configured INIT, marked operations and refunds

Each validator runs its checks in source order and returns the first violated
reason. Indexing and plain additions panic where the source would, so that a
validator which returns at all has only read fields that are present.
-/
namespace TandemVerifier
open Library Library.Outcome

structure InitParams where
  hOpen : UInt32
  hClose : UInt32
deriving DecidableEq

inductive ValidatedOperation where
  | create (keys : KeyPair)
  | mark (object : ObjectState) (sequence : UInt32) (commitment : Hash32)
  | rotate (object : ObjectState) (sequence : UInt32) (keys : KeyPair)
  | close (object : ObjectState) (sequence : UInt32) (commitment : Hash32)
deriving DecidableEq

def isOpReturn (script : Bytes) : Bool := script.head? == some 0x6a

def hasOtherOpReturn (tx : TxView) (markerVout : UInt32) : Bool :=
  tx.outputs.zipIdx.any fun (output,index) =>
    u32TryFrom index != some markerVout && isOpReturn output.scriptPubkey

def markerCandidates (tx : TxView) (binding : Binding) : List MarkerCandidate :=
  tx.outputs.zipIdx.filterMap fun (output,index) => do
    let vout ← u32TryFrom index
    let candidate ← findMarkerCandidate output.scriptPubkey vout
    if candidate.isInitCandidate && tx.txid != binding.initTxid then none else some candidate

/-- The inputs that spend active carriers, with clones of the objects they own. -/
def carrierSpends (state : ChainState) (tx : TxView) : List (ℕ × ObjectState) :=
  tx.inputs.zipIdx.filterMap fun (input,index) =>
    (state.active[input.prevout]?.bind fun key => state.objects[key]?).map fun object =>
      (index,object)

/-- A plain `u64` addition, which must not overflow. -/
def add64 {ε : Type} (a b : UInt64) : Outcome ε UInt64 := expect (checkedAdd64 a b)

/-- The derived order of optional integers, where an absent value is least. -/
def optionGt (a b : Option UInt64) : Bool :=
  match a,b with
  | none,_ => false
  | some _,none => true
  | some x,some y => y < x

section Checks

def checkTxHeader (tx : TxView) : Outcome Reason Unit :=
  failIf (!(tx.version == 2 && tx.lockTime == 0)) .badTxVersionOrLocktime

def checkOutputShape (tx : TxView) (marker : ParsedMarker) (count : ℕ) : Outcome Reason Unit :=
  failIf (!(tx.outputs.length == count && marker.vout == 0 && !hasOtherOpReturn tx 0))
    .badOutputCountOrOrder

def checkProvenance (tx : TxView) (blockHeight : UInt64) : Outcome Reason Unit :=
  failIf (!tx.inputs.all fun input => input.hasEarlierConfirmation blockHeight)
    .unconfirmedOrSameBlockPrevout

def checkSignatures (tx : TxView) : Outcome Reason Unit :=
  failIf (!tx.inputs.all fun input => input.signaturesValid) .badSignatureOrSighash

/-- Test the inputs at the listed indexes until one matches. -/
def anyIndexed {ε : Type} (inputs : List InputView) (test : InputView → Bool) :
    List ℕ → Outcome ε Bool
  | [] => pure false
  | i :: rest => do
    let input ← index inputs i
    if test input then pure true else anyIndexed inputs test rest

def checkTransitionInputScripts (tx : TxView) (carrierIndexes p2wpkhIndexes : List ℕ) :
    Outcome Reason Unit := do
  let badCarrier ← anyIndexed tx.inputs (fun input => input.carrierRevealedKeys.isNone) carrierIndexes
  failIf badCarrier .badInputScript
  let badKey ← anyIndexed tx.inputs (fun input => input.p2wpkhRevealedKey.isNone) p2wpkhIndexes
  failIf badKey .badInputScript

end Checks

variable (P : Primitives)

def checkNamespace (marker : ParsedMarker) (opcode : Opcode) (binding : Binding) :
    Outcome Reason Unit :=
  if opcode = .init then pure () else do
    let ns ← marker.hashAt 8
    failIf (ns != binding.namespace P) .wrongNamespace

def validateMarkerHeader (marker : ParsedMarker) (binding : Binding) (requiredOpcode : Opcode) :
    Outcome Reason Unit := do
  failIf (marker.version != version) .unknownVersion
  failIf (marker.network != binding.network.code) .wrongNetwork
  let opcode ← okOr marker.opcode .unknownOpcode
  failIf (opcode != requiredOpcode) .unsupportedOrReservedField
  checkNamespace P marker opcode binding

def validateConfiguredInit (binding : Binding) (blockHeight : UInt64) (tx : TxView) :
    Outcome Reason InitParams := do
  let candidates := markerCandidates tx binding
  failIf (candidates.length != 1)
    (if 1 < candidates.length then .multipleMarkers else .badMarkerEncodingOrLength)
  let candidate ← index candidates 0
  let marker ← candidate.parse
  validateMarkerHeader P marker binding .init
  let hOpen ← marker.u32At 7
  let hClose ← marker.u32At 11
  let value ← marker.u64At 15
  failIf (value != carrierValue) .unsupportedOrReservedField
  let delay ← marker.u32At 23
  failIf (delay != refundDelay) .unsupportedOrReservedField
  let spec ← marker.hashAt 27
  failIf (spec != binding.specHash) .unsupportedOrReservedField
  failIf (tx.version != 2 || tx.lockTime != 0) .badTxVersionOrLocktime
  failIf (tx.inputs.length != 1) .badInputCountOrOrder
  let input ← index tx.inputs 0
  failIf (input.sequence != 0xffffffff) .badInputCountOrOrder
  failIf (tx.outputs.length != 2 || marker.vout != 0 || hasOtherOpReturn tx 0) .badOutputCountOrOrder
  failIf (!input.hasEarlierConfirmation blockHeight) .unconfirmedOrSameBlockPrevout
  failIf input.p2wpkhRevealedKey.isNone .badInputScript
  let key ← okOr (input.p2wpkhKey P) .badKeyOrderOrBinding
  failIf (!input.signaturesValid) .badSignatureOrSighash
  let output0 ← index tx.outputs 0
  let output1 ← index tx.outputs 1
  failIf (output0.value != 0 || output1.scriptPubkey != key.p2wpkhScript P) .badOutputScriptOrValue
  let _fee ← okOr ((checkedSub64 input.prevoutValue output1.value).filter (0 < ·))
    .nonpositiveOrInvalidFee
  failIf (output1.value < changeFloor) .badFeeSplitOrChange
  let expectedClose ← okOr (checkedAdd32 hOpen foundingWindow) .badHeightOrPhase
  let initHeight ← okOr (u32TryFrom blockHeight.toNat) .badHeightOrPhase
  let earliestOpen ← okOr (checkedAdd32 initHeight initLead) .badHeightOrPhase
  failIf (expectedClose != hClose || hOpen < earliestOpen) .badHeightOrPhase
  pure ⟨hOpen,hClose⟩

def validateCreate (state : ChainState) (blockHeight : UInt64) (tx : TxView)
    (marker : ParsedMarker) : Outcome Reason ValidatedOperation := do
  let kind ← index marker.payload 7
  failIf (kind != 1) .unsupportedOrReservedField
  checkTxHeader tx
  failIf (tx.inputs.length != 2 || tx.inputs.any fun input => input.sequence != rbfSequence)
    .badInputCountOrOrder
  checkOutputShape tx marker 4
  checkProvenance tx blockHeight
  failIf (tx.inputs.any fun input => input.p2wpkhRevealedKey.isNone) .badInputScript
  let input0 ← index tx.inputs 0
  let key0 ← okOr (input0.p2wpkhKey P) .badKeyOrderOrBinding
  let input1 ← index tx.inputs 1
  let key1 ← okOr (input1.p2wpkhKey P) .badKeyOrderOrBinding
  let keys ← okOr (KeyPair.checked P key0 key1) .badKeyOrderOrBinding
  checkSignatures tx
  let output0 ← index tx.outputs 0
  let output1 ← index tx.outputs 1
  let output2 ← index tx.outputs 2
  let output3 ← index tx.outputs 3
  failIf (output0.value != 0 || output1.value != carrierValue ||
    output1.scriptPubkey != keys.carrierScript P || output2.scriptPubkey != key0.p2wpkhScript P ||
    output3.scriptPubkey != key1.p2wpkhScript P) .badOutputScriptOrValue
  let debit0 ← okOr (checkedSub64 input0.prevoutValue output2.value) .nonpositiveOrInvalidFee
  let debit1 ← okOr (checkedSub64 input1.prevoutValue output3.value) .nonpositiveOrInvalidFee
  let total ← okOr (checkedAdd64 debit0 debit1) .nonpositiveOrInvalidFee
  let fee ← okOr ((checkedSub64 total carrierValue).filter (0 < ·)) .nonpositiveOrInvalidFee
  let ceilHalf ← add64 (fee / 2) (fee % 2)
  let share0 ← add64 10000 ceilHalf
  let share1 ← add64 10000 (fee / 2)
  failIf (debit0 != share0 || debit1 != share1 || output2.value < changeFloor ||
    output3.value < changeFloor) .badFeeSplitOrChange
  match state.protocolStatus with
  | .active _ hOpen _ => do
    failIf (blockHeight < hOpen.toUInt64) .badHeightOrPhase
    pure (.create keys)
  | _ => err .badHeightOrPhase

def validateMark (blockHeight : UInt64) (tx : TxView) (marker : ParsedMarker)
    (carrier : Option (ℕ × ObjectState)) : Outcome Reason ValidatedOperation := do
  let kind ← index marker.payload 7
  failIf (kind != 1) .unsupportedOrReservedField
  let chapterKind ← index marker.payload 44
  failIf (5 < chapterKind) .unsupportedOrReservedField
  let reserved ← index marker.payload 45
  failIf (reserved != 0) .unsupportedOrReservedField
  checkTxHeader tx
  failIf (tx.inputs.length != 2 || (tx.inputs.any fun input => input.sequence != rbfSequence) ||
    carrier.any fun spend => spend.1 != 0) .badInputCountOrOrder
  checkOutputShape tx marker 3
  checkProvenance tx blockHeight
  checkTransitionInputScripts tx [0] [1]
  let input0 ← index tx.inputs 0
  let carrierKeys ← okOr (input0.carrierKeys P) .badKeyOrderOrBinding
  let input1 ← index tx.inputs 1
  let sponsor ← okOr (input1.p2wpkhKey P) .badKeyOrderOrBinding
  let object := carrier.map Prod.snd
  failIf ((object.any fun value => value.keys != carrierKeys || !value.keys.contains sponsor) ||
    object.isNone && !carrierKeys.contains sponsor) .badKeyOrderOrBinding
  checkSignatures tx
  let output0 ← index tx.outputs 0
  let output1 ← index tx.outputs 1
  let output2 ← index tx.outputs 2
  failIf (output0.value != 0 || output1.value != carrierValue ||
    output2.scriptPubkey != sponsor.p2wpkhScript P) .badOutputScriptOrValue
  let _fee ← okOr ((checkedSub64 input1.prevoutValue output2.value).filter (0 < ·))
    .nonpositiveOrInvalidFee
  failIf (output2.value < changeFloor) .badFeeSplitOrChange
  let object ← okOr object .predecessorNotActive
  failIf (input0.prevout != object.currentOutpoint) .predecessorNotActive
  let sequence ← marker.u32At 40
  failIf (checkedAdd32 object.stateSeq 1 != some sequence) .badStateSequence
  failIf (output1.scriptPubkey != object.keys.carrierScript P) .badSuccessor
  let commitment ← marker.hashAt 46
  failIf commitment.isZero .badCommitment
  pure (.mark object sequence commitment)

def validateRotate (blockHeight : UInt64) (tx : TxView) (marker : ParsedMarker)
    (carrier : Option (ℕ × ObjectState)) : Outcome Reason ValidatedOperation := do
  let kind ← index marker.payload 7
  failIf (kind != 1) .unsupportedOrReservedField
  checkTxHeader tx
  failIf (tx.inputs.length != 3 || (tx.inputs.any fun input => input.sequence != rbfSequence) ||
    carrier.any fun spend => spend.1 != 0) .badInputCountOrOrder
  checkOutputShape tx marker 4
  checkProvenance tx blockHeight
  checkTransitionInputScripts tx [0] [1,2]
  let input0 ← index tx.inputs 0
  let oldKeys ← okOr (input0.carrierKeys P) .badKeyOrderOrBinding
  let input1 ← index tx.inputs 1
  let key0 ← okOr (input1.p2wpkhKey P) .badKeyOrderOrBinding
  let input2 ← index tx.inputs 2
  let key1 ← okOr (input2.p2wpkhKey P) .badKeyOrderOrBinding
  let keys ← okOr (KeyPair.checked P key0 key1) .badKeyOrderOrBinding
  let object := carrier.map Prod.snd
  failIf ((object.any fun value => value.keys != oldKeys || value.keys == keys) ||
    object.isNone && oldKeys == keys) .badKeyOrderOrBinding
  checkSignatures tx
  let output0 ← index tx.outputs 0
  let output1 ← index tx.outputs 1
  let output2 ← index tx.outputs 2
  let output3 ← index tx.outputs 3
  failIf (output0.value != 0 || output1.value != carrierValue ||
    output2.scriptPubkey != key0.p2wpkhScript P || output3.scriptPubkey != key1.p2wpkhScript P)
    .badOutputScriptOrValue
  let debit0 ← okOr (checkedSub64 input1.prevoutValue output2.value) .nonpositiveOrInvalidFee
  let debit1 ← okOr (checkedSub64 input2.prevoutValue output3.value) .nonpositiveOrInvalidFee
  let fee ← okOr ((checkedAdd64 debit0 debit1).filter (0 < ·)) .nonpositiveOrInvalidFee
  let ceilHalf ← add64 (fee / 2) (fee % 2)
  failIf (debit0 != ceilHalf || debit1 != fee / 2 || output2.value < changeFloor ||
    output3.value < changeFloor) .badFeeSplitOrChange
  let object ← okOr object .predecessorNotActive
  failIf (input0.prevout != object.currentOutpoint) .predecessorNotActive
  let sequence ← marker.u32At 40
  failIf (checkedAdd32 object.stateSeq 1 != some sequence) .badStateSequence
  failIf (output1.scriptPubkey != keys.carrierScript P) .badSuccessor
  pure (.rotate object sequence keys)

def validateClose (blockHeight : UInt64) (tx : TxView) (marker : ParsedMarker)
    (carrier : Option (ℕ × ObjectState)) : Outcome Reason ValidatedOperation := do
  let kind ← index marker.payload 7
  failIf (kind != 0xff) .unsupportedOrReservedField
  let closeKind ← index marker.payload 44
  failIf (3 < closeKind) .unsupportedOrReservedField
  let reserved ← slice marker.payload 45 3
  failIf (reserved != [0,0,0]) .unsupportedOrReservedField
  checkTxHeader tx
  failIf (tx.inputs.length != 1) .badInputCountOrOrder
  let input ← index tx.inputs 0
  failIf (input.sequence != rbfSequence || carrier.any fun spend => spend.1 != 0)
    .badInputCountOrOrder
  checkOutputShape tx marker 3
  checkProvenance tx blockHeight
  checkTransitionInputScripts tx [0] []
  let keys ← okOr (input.carrierKeys P) .badKeyOrderOrBinding
  let object := carrier.map Prod.snd
  failIf (object.any fun value => value.keys != keys) .badKeyOrderOrBinding
  checkSignatures tx
  let output0 ← index tx.outputs 0
  let output1 ← index tx.outputs 1
  let output2 ← index tx.outputs 2
  failIf (output0.value != 0 || output1.scriptPubkey != keys.key0.p2wpkhScript P ||
    output2.scriptPubkey != keys.key1.p2wpkhScript P) .badOutputScriptOrValue
  let outputs ← okOr (checkedAdd64 output1.value output2.value) .nonpositiveOrInvalidFee
  let _fee ← okOr ((checkedSub64 carrierValue outputs).filter (0 < ·)) .nonpositiveOrInvalidFee
  failIf (output1.value == 0 || output1.value != output2.value) .badFeeSplitOrChange
  let object ← okOr object .predecessorNotActive
  failIf (input.prevout != object.currentOutpoint) .predecessorNotActive
  let sequence ← marker.u32At 40
  failIf (checkedAdd32 object.stateSeq 1 != some sequence) .badStateSequence
  let commitment ← marker.hashAt 48
  pure (.close object sequence commitment)

def validateSingle (state : ChainState) (blockHeight : UInt64) (tx : TxView)
    (marker : ParsedMarker) (carrier : Option (ℕ × ObjectState)) :
    Outcome Reason ValidatedOperation := do
  failIf (marker.version != version) .unknownVersion
  failIf (marker.network != state.binding.network.code) .wrongNetwork
  let opcode ← okOr marker.opcode .unknownOpcode
  checkNamespace P marker opcode state.binding
  match opcode with
  | .init => err .unsupportedOrReservedField
  | .create => validateCreate P state blockHeight tx marker
  | .mark => validateMark P blockHeight tx marker carrier
  | .rotate => validateRotate P blockHeight tx marker carrier
  | .close => validateClose P blockHeight tx marker carrier

def validateRefund (blockHeight : UInt64) (tx : TxView) (object : ObjectState) :
    Outcome Reason Unit := do
  failIf (tx.version != 2 || tx.lockTime != 0 || tx.inputs.length != 1 || tx.outputs.length != 2 ||
    tx.outputs.any fun output => isOpReturn output.scriptPubkey) .badRefundShapeOrMaturity
  let input ← index tx.inputs 0
  failIf (input.sequence != refundDelay || input.prevout != object.currentOutpoint ||
    !input.hasEarlierConfirmation blockHeight || input.carrierKeys P != some object.keys ||
    !input.signaturesValid) .badRefundShapeOrMaturity
  let confirmedHeight ← okOr input.prevoutHeight .badRefundShapeOrMaturity
  failIf (optionGt (checkedAdd64 confirmedHeight refundDelay.toUInt64) (some blockHeight))
    .badRefundShapeOrMaturity
  let output0 ← index tx.outputs 0
  let output1 ← index tx.outputs 1
  failIf (output0.scriptPubkey != object.keys.key0.p2wpkhScript P ||
    output1.scriptPubkey != object.keys.key1.p2wpkhScript P || output0.value == 0 ||
    output0.value != output1.value) .badRefundShapeOrMaturity
  let outputSum ← okOr (checkedAdd64 output0.value output1.value) .badRefundShapeOrMaturity
  let _fee ← okOr ((checkedSub64 carrierValue outputSum).filter (0 < ·)) .badRefundShapeOrMaturity
  pure ()

end TandemVerifier
