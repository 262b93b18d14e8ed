import TandemVerifier.Core.Validation
import TandemVerifier.Library.Precedence

/-! # The rules of every operation

For each opcode the conditions of the protocol, with the reason that reports their violation
and in the order of the reason codes. Every rule is a statement about the whole
transaction, its marker and the carrier it spends, with all amounts and heights in the
natural numbers; a rule that names inputs or outputs by their position is false where an
earlier rule on their number is.
-/
namespace TandemVerifier
open Library

section Fields

/-- The bytes of a marker field. -/
def ParsedMarker.bytesAt (marker : ParsedMarker) (start width : ℕ) : Bytes :=
  (marker.payload.drop start).take width

/-- The number in a marker field. -/
def ParsedMarker.natAt (marker : ParsedMarker) (start width : ℕ) : ℕ := ofLeBytes (marker.bytesAt start width)

/-- The marker that the payload of a candidate spells, whether or not it is well encoded. -/
def MarkerCandidate.spelled (candidate : MarkerCandidate) : ParsedMarker :=
  let opcodeByte := candidate.payload[6]?.getD 0
  ⟨candidate.vout,candidate.payload[4]?.getD 0,candidate.payload[5]?.getD 0,opcodeByte,
    Opcode.fromByte opcodeByte,candidate.payload⟩

/-- One minimal push that ends the script, of the length that its opcode fixes. -/
structure MarkerCandidate.WellEncoded (candidate : MarkerCandidate) : Prop where
  prefixComplete : candidate.prefixComplete = true
  lower : 7 ≤ candidate.declaredLen
  upper : candidate.declaredLen ≤ 80
  payloadComplete : candidate.payloadComplete = true
  noTrailingBytes : candidate.noTrailingBytes = true
  minimalPush : candidate.minimalPush = true
  length : ∀ opcode, candidate.spelled.opcode = some opcode → candidate.payload.length = opcode.payloadLen

end Fields

section Conditions
variable (P : Primitives) (tx : TxView) (marker : ParsedMarker) (carrier : Option (ℕ × ObjectState))

def HeaderRule : Prop := tx.version = 2 ∧ tx.lockTime = 0

/-- The number of inputs, their sequences, and that a spent carrier is the first of them. -/
def InputsRule (count : ℕ) (sequence : UInt32) : Prop :=
  tx.inputs.length = count ∧ (∀ input ∈ tx.inputs, input.sequence = sequence) ∧
    ∀ spend ∈ carrier, spend.1 = 0

def OutputsRule (count : ℕ) : Prop :=
  tx.outputs.length = count ∧ marker.vout = 0 ∧ hasOtherOpReturn tx 0 = false

def ProvenanceRule (blockHeight : UInt64) : Prop :=
  ∀ input ∈ tx.inputs, input.hasEarlierConfirmation blockHeight = true

def SignatureRule : Prop := ∀ input ∈ tx.inputs, input.signaturesValid = true

def PaymentScripts (inputs : List InputView) : Prop :=
  ∀ input ∈ inputs, input.p2wpkhRevealedKey.isSome = true

/-- The first input has the witness of a carrier and the others pay from single keys. -/
def TransitionScripts : Prop :=
  (∀ input ∈ tx.inputs.take 1, input.carrierRevealedKeys.isSome = true) ∧ PaymentScripts (tx.inputs.drop 1)

/-- The first input reveals the keys of a carrier. -/
def RevealsCarrier (keys : KeyPair) : Prop :=
  ∃ input, tx.inputs[0]? = some input ∧ input.carrierKeys P = some keys

/-- Two inputs pay from the two keys of a pair, in its order. -/
def PayingKeys (inputs : List InputView) (keys : KeyPair) : Prop :=
  ∃ input0 input1, inputs = [input0,input1] ∧ input0.p2wpkhKey P = some keys.key0 ∧
    input1.p2wpkhKey P = some keys.key1 ∧ KeyPair.checked P keys.key0 keys.key1 = some keys

/-- The only other input pays from a key. -/
def Sponsors (sponsor : Key33) : Prop :=
  ∃ input, tx.inputs.drop 1 = [input] ∧ input.p2wpkhKey P = some sponsor

/-- Two inputs pay the last two outputs as change and two debits beyond it. -/
def Debits (inputs : List InputView) (outputs : List OutputView) (debit0 debit1 : ℕ) : Prop :=
  ∃ input0 input1 change0 change1, inputs = [input0,input1] ∧ outputs.drop 2 = [change0,change1] ∧
    input0.prevoutValue.toNat = change0.value.toNat + debit0 ∧
    input1.prevoutValue.toNat = change1.value.toNat + debit1

/-- Every change output is worth at least the floor. -/
def ChangeFloors : Prop := ∀ change ∈ tx.outputs.drop 2, 1000 ≤ change.value.toNat

/-- The marker output carries no value and the first output after it is a carrier. -/
def CarrierValues : Prop := ∃ output0 output1 changes, tx.outputs = output0 :: output1 :: changes ∧
  output0.value.toNat = 0 ∧ output1.value.toNat = 20000

/-- The scripts of the outputs from a position on. -/
def ScriptsFrom (start : ℕ) (scripts : List Bytes) : Prop :=
  (tx.outputs.drop start).map OutputView.scriptPubkey = scripts

def PredecessorRule : Prop := ∃ spend ∈ carrier, ∃ input, tx.inputs[0]? = some input ∧
  input.prevout = spend.2.currentOutpoint

def SequenceRule : Prop := ∃ spend ∈ carrier, marker.natAt 40 4 = spend.2.stateSeq.toNat + 1

/-- The carrier output pays to a pair of keys. -/
def SuccessorScript (keys : KeyPair) : Prop :=
  ∃ output, tx.outputs[1]? = some output ∧ output.scriptPubkey = keys.carrierScript P

/-- The values of the two outputs after the marker. -/
def Payouts (value0 value1 : ℕ) : Prop :=
  (tx.outputs.drop 1).map (fun output => output.value.toNat) = [value0,value1]

end Conditions

section Lists
variable (P : Primitives) (state : ChainState) (blockHeight : UInt64) (tx : TxView) (marker : ParsedMarker)
variable (carrier : Option (ℕ × ObjectState))

def createRules : List (Rule Reason) := [
  ⟨.unsupportedOrReservedField,marker.payload[7]? = some 1⟩,
  ⟨.badTxVersionOrLocktime,HeaderRule tx⟩,
  ⟨.badInputCountOrOrder,InputsRule tx none 2 rbfSequence⟩,
  ⟨.badOutputCountOrOrder,OutputsRule tx marker 4⟩,
  ⟨.unconfirmedOrSameBlockPrevout,ProvenanceRule tx blockHeight⟩,
  ⟨.badInputScript,PaymentScripts tx.inputs⟩,
  ⟨.badKeyOrderOrBinding,∃ keys, PayingKeys P tx.inputs keys⟩,
  ⟨.badSignatureOrSighash,SignatureRule tx⟩,
  ⟨.badOutputScriptOrValue,CarrierValues tx ∧ ∃ keys, PayingKeys P tx.inputs keys ∧
    ScriptsFrom tx 1 [keys.carrierScript P,keys.key0.p2wpkhScript P,keys.key1.p2wpkhScript P]⟩,
  ⟨.nonpositiveOrInvalidFee,∃ debit0 debit1, Debits tx.inputs tx.outputs debit0 debit1 ∧
    20000 < debit0 + debit1 ∧ debit0 + debit1 < 2 ^ 64⟩,
  ⟨.badFeeSplitOrChange,(∃ fee, Debits tx.inputs tx.outputs (10000 + (fee + 1) / 2) (10000 + fee / 2)) ∧
    ChangeFloors tx⟩,
  ⟨.badHeightOrPhase,∃ initHeight hOpen hClose, state.protocolStatus = .active initHeight hOpen hClose ∧
    hOpen.toNat ≤ blockHeight.toNat⟩]

def markRules : List (Rule Reason) := [
  ⟨.unsupportedOrReservedField,marker.payload[7]? = some 1 ∧
    (∃ chapterKind, marker.payload[44]? = some chapterKind ∧ chapterKind.toNat ≤ 5) ∧
    marker.payload[45]? = some 0⟩,
  ⟨.badTxVersionOrLocktime,HeaderRule tx⟩,
  ⟨.badInputCountOrOrder,InputsRule tx carrier 2 rbfSequence⟩,
  ⟨.badOutputCountOrOrder,OutputsRule tx marker 3⟩,
  ⟨.unconfirmedOrSameBlockPrevout,ProvenanceRule tx blockHeight⟩,
  ⟨.badInputScript,TransitionScripts tx⟩,
  ⟨.badKeyOrderOrBinding,∃ keys sponsor, RevealsCarrier P tx keys ∧ Sponsors P tx sponsor ∧
    (∀ spend ∈ carrier, spend.2.keys = keys) ∧ keys.contains sponsor = true⟩,
  ⟨.badSignatureOrSighash,SignatureRule tx⟩,
  ⟨.badOutputScriptOrValue,CarrierValues tx ∧ ∃ sponsor, Sponsors P tx sponsor ∧
    ScriptsFrom tx 2 [sponsor.p2wpkhScript P]⟩,
  ⟨.nonpositiveOrInvalidFee,∃ input change, tx.inputs.drop 1 = [input] ∧ tx.outputs.drop 2 = [change] ∧
    change.value.toNat < input.prevoutValue.toNat⟩,
  ⟨.badFeeSplitOrChange,ChangeFloors tx⟩,
  ⟨.predecessorNotActive,PredecessorRule tx carrier⟩,
  ⟨.badStateSequence,SequenceRule marker carrier⟩,
  ⟨.badSuccessor,∃ spend ∈ carrier, SuccessorScript P tx spend.2.keys⟩,
  ⟨.badCommitment,marker.bytesAt 46 32 ≠ Hash32.zero.toList⟩]

def rotateRules : List (Rule Reason) := [
  ⟨.unsupportedOrReservedField,marker.payload[7]? = some 1⟩,
  ⟨.badTxVersionOrLocktime,HeaderRule tx⟩,
  ⟨.badInputCountOrOrder,InputsRule tx carrier 3 rbfSequence⟩,
  ⟨.badOutputCountOrOrder,OutputsRule tx marker 4⟩,
  ⟨.unconfirmedOrSameBlockPrevout,ProvenanceRule tx blockHeight⟩,
  ⟨.badInputScript,TransitionScripts tx⟩,
  ⟨.badKeyOrderOrBinding,∃ oldKeys keys, RevealsCarrier P tx oldKeys ∧ PayingKeys P (tx.inputs.drop 1) keys ∧
    (∀ spend ∈ carrier, spend.2.keys = oldKeys) ∧ oldKeys ≠ keys⟩,
  ⟨.badSignatureOrSighash,SignatureRule tx⟩,
  ⟨.badOutputScriptOrValue,CarrierValues tx ∧ ∃ keys, PayingKeys P (tx.inputs.drop 1) keys ∧
    ScriptsFrom tx 2 [keys.key0.p2wpkhScript P,keys.key1.p2wpkhScript P]⟩,
  ⟨.nonpositiveOrInvalidFee,∃ debit0 debit1, Debits (tx.inputs.drop 1) tx.outputs debit0 debit1 ∧
    0 < debit0 + debit1 ∧ debit0 + debit1 < 2 ^ 64⟩,
  ⟨.badFeeSplitOrChange,(∃ fee, Debits (tx.inputs.drop 1) tx.outputs ((fee + 1) / 2) (fee / 2)) ∧
    ChangeFloors tx⟩,
  ⟨.predecessorNotActive,PredecessorRule tx carrier⟩,
  ⟨.badStateSequence,SequenceRule marker carrier⟩,
  ⟨.badSuccessor,∃ keys, PayingKeys P (tx.inputs.drop 1) keys ∧ SuccessorScript P tx keys⟩]

def closeRules : List (Rule Reason) := [
  ⟨.unsupportedOrReservedField,marker.payload[7]? = some 0xff ∧
    (∃ closeKind, marker.payload[44]? = some closeKind ∧ closeKind.toNat ≤ 3) ∧
    marker.bytesAt 45 3 = [0,0,0]⟩,
  ⟨.badTxVersionOrLocktime,HeaderRule tx⟩,
  ⟨.badInputCountOrOrder,InputsRule tx carrier 1 rbfSequence⟩,
  ⟨.badOutputCountOrOrder,OutputsRule tx marker 3⟩,
  ⟨.unconfirmedOrSameBlockPrevout,ProvenanceRule tx blockHeight⟩,
  ⟨.badInputScript,TransitionScripts tx⟩,
  ⟨.badKeyOrderOrBinding,∃ keys, RevealsCarrier P tx keys ∧ ∀ spend ∈ carrier, spend.2.keys = keys⟩,
  ⟨.badSignatureOrSighash,SignatureRule tx⟩,
  ⟨.badOutputScriptOrValue,(∃ output, tx.outputs[0]? = some output ∧ output.value.toNat = 0) ∧
    ∃ keys, RevealsCarrier P tx keys ∧
      ScriptsFrom tx 1 [keys.key0.p2wpkhScript P,keys.key1.p2wpkhScript P]⟩,
  ⟨.nonpositiveOrInvalidFee,∃ value0 value1, Payouts tx value0 value1 ∧ value0 + value1 < 20000⟩,
  ⟨.badFeeSplitOrChange,∃ value, Payouts tx value value ∧ 0 < value⟩,
  ⟨.predecessorNotActive,PredecessorRule tx carrier⟩,
  ⟨.badStateSequence,SequenceRule marker carrier⟩]

/-- The rules of the operation that an opcode names; INIT is no operation of its own transaction. -/
def operationRules : Option Opcode → List (Rule Reason)
  | none => []
  | some .init => [⟨.unsupportedOrReservedField,False⟩]
  | some .create => createRules P state blockHeight tx marker
  | some .mark => markRules P blockHeight tx marker carrier
  | some .rotate => rotateRules P blockHeight tx marker carrier
  | some .close => closeRules P blockHeight tx marker carrier

def markerRules : List (Rule Reason) := [
  ⟨.unknownVersion,marker.version = version⟩,
  ⟨.wrongNetwork,marker.network = state.binding.network.code⟩,
  ⟨.unknownOpcode,marker.opcode.isSome = true⟩,
  ⟨.wrongNamespace,marker.opcode = some .init ∨
    marker.bytesAt 8 32 = (state.binding.namespace P).toList⟩]

/-- All rules of the transaction of a single candidate. -/
def singleRules (candidate : MarkerCandidate) : List (Rule Reason) :=
  [⟨.badMarkerEncodingOrLength,candidate.WellEncoded⟩] ++ (markerRules P state candidate.spelled ++
    operationRules P state blockHeight tx candidate.spelled carrier candidate.spelled.opcode)

/-- All rules of the configured INIT. -/
def initRules (binding : Binding) : List (Rule Reason) :=
  let candidates := markerCandidates tx binding
  [⟨.multipleMarkers,candidates.length ≤ 1⟩,
  ⟨.badMarkerEncodingOrLength,∃ candidate ∈ candidates, candidate.WellEncoded⟩,
  ⟨.unknownVersion,∃ candidate ∈ candidates, candidate.spelled.version = version⟩,
  ⟨.wrongNetwork,∃ candidate ∈ candidates, candidate.spelled.network = binding.network.code⟩,
  ⟨.unknownOpcode,∃ candidate ∈ candidates, candidate.spelled.opcode.isSome = true⟩,
  ⟨.unsupportedOrReservedField,∃ candidate ∈ candidates, candidate.spelled.opcode = some .init ∧
    candidate.spelled.natAt 15 8 = 20000 ∧ candidate.spelled.natAt 23 4 = 52560 ∧
    candidate.spelled.bytesAt 27 32 = binding.specHash.toList⟩,
  ⟨.badTxVersionOrLocktime,HeaderRule tx⟩,
  ⟨.badInputCountOrOrder,InputsRule tx none 1 0xffffffff⟩,
  ⟨.badOutputCountOrOrder,∃ candidate ∈ candidates, OutputsRule tx candidate.spelled 2⟩,
  ⟨.unconfirmedOrSameBlockPrevout,ProvenanceRule tx blockHeight⟩,
  ⟨.badInputScript,PaymentScripts tx.inputs⟩,
  ⟨.badKeyOrderOrBinding,∀ input ∈ tx.inputs, (input.p2wpkhKey P).isSome = true⟩,
  ⟨.badSignatureOrSighash,SignatureRule tx⟩,
  ⟨.badOutputScriptOrValue,(∃ output, tx.outputs[0]? = some output ∧ output.value.toNat = 0) ∧
    ∃ input ∈ tx.inputs, ∃ key, input.p2wpkhKey P = some key ∧ ScriptsFrom tx 1 [key.p2wpkhScript P]⟩,
  ⟨.nonpositiveOrInvalidFee,∃ input ∈ tx.inputs, ∃ change, tx.outputs[1]? = some change ∧
    change.value.toNat < input.prevoutValue.toNat⟩,
  ⟨.badFeeSplitOrChange,∃ change, tx.outputs[1]? = some change ∧ 1000 ≤ change.value.toNat⟩,
  ⟨.badHeightOrPhase,∃ candidate ∈ candidates,
    candidate.spelled.natAt 11 4 = candidate.spelled.natAt 7 4 + 4320 ∧
    blockHeight.toNat + 1008 ≤ candidate.spelled.natAt 7 4⟩]

end Lists
end TandemVerifier
