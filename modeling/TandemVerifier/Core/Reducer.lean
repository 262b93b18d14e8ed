import TandemVerifier.Core.Roots
import TandemVerifier.Core.Validation

/-! # Deterministic block dispatch, state reduction and rollback

A function on a mutable reference returns the state it leaves behind together with
its result, also when that result is an error: whether an error leaves the state as
it was is a property to prove and not a convention of the model.
-/
namespace TandemVerifier
open Library Library.Outcome

/-- The reversible result of one block; `before` is the inverse journal. -/
structure BlockDelta where
  before : ChainState
  blockHash : Hash32
  previousHash : Hash32
  height : UInt64
  events : List Event
  roots : HeightRoots
deriving DecidableEq

inductive ReducerError where
  | configuredInitAbsent
  | nonconsecutiveHeight (expected actual : UInt64)
  | parentMismatch
  | disconnectMismatch
  | transactionIndexOverflow
deriving DecidableEq

/-- `u32::MAX`, the event index of a markerless event. -/
def u32Max : UInt32 := 0xffffffff

def attemptedEventType (candidate : MarkerCandidate) : EventType :=
  if candidate.payload[4]? = some version then
    match candidate.opcodeByte.bind Opcode.fromByte with
    | some opcode => .ofOpcode opcode
    | none => .invalid
  else .invalid

def populationNamespace (candidate : MarkerCandidate) : Option Hash32 :=
  if !candidate.payloadComplete || candidate.payload.length < 40 then none else do
  let opcode ← candidate.opcodeByte.bind Opcode.fromByte
  if candidate.payload[4]? ≠ some version ∨ opcode = .init ∨
      candidate.payload.length ≠ opcode.payloadLen then none
  else ByteVector.tryFrom 32 ((candidate.payload.drop 8).take 32)

section Events
variable (P : Primitives)

def validEventBase (state : ChainState) (block : BlockView) (tx : TxView)
    (txIndex eventIndex : UInt32) (eventType : EventType) (objectKey : Hash32) (stateSeq : UInt32)
    (predecessor successor : OutPointRef) (keys : KeyPair) (commitment : Hash32) : Event where
  ns := state.binding.namespace P
  blockHash := block.hash
  height := block.height
  txIndex := txIndex
  eventIndex := eventIndex
  subIndex := 0
  eventType := eventType
  validityClass := .validOperation
  reason := .valid
  txid := tx.txid
  wtxid := tx.wtxid
  objectKey := objectKey
  stateSeq := stateSeq
  predecessor := predecessor
  successor := successor
  key0 := keys.key0
  key1 := keys.key1
  commitment := commitment

def validInitEvent (state : ChainState) (block : BlockView) (tx : TxView) (txIndex : UInt32) :
    Event where
  ns := state.binding.namespace P
  blockHash := block.hash
  height := block.height
  txIndex := txIndex
  eventIndex := ((markerCandidates tx state.binding).head?.map MarkerCandidate.vout).getD u32Max
  subIndex := 0
  eventType := .init
  validityClass := .validOperation
  reason := .valid
  txid := tx.txid
  wtxid := tx.wtxid
  objectKey := Hash32.zero
  stateSeq := u32Max
  predecessor := .zero
  successor := .zero
  key0 := Key33.zero
  key1 := Key33.zero
  commitment := state.binding.specHash

def validRefundEvent (state : ChainState) (block : BlockView) (tx : TxView) (txIndex : UInt32)
    (object : ObjectState) : Event :=
  validEventBase P state block tx txIndex u32Max .refund object.objectKey object.stateSeq
    object.currentOutpoint .zero object.keys Hash32.zero

def bareInvalidEvent (block : BlockView) (tx : TxView) (txIndex eventIndex : UInt32)
    (eventType : EventType) (reason : Reason) (ns : Hash32) : Event where
  ns := ns
  blockHash := block.hash
  height := block.height
  txIndex := txIndex
  eventIndex := eventIndex
  subIndex := 0
  eventType := eventType
  validityClass := .invalidNoState
  reason := reason
  txid := tx.txid
  wtxid := tx.wtxid
  objectKey := Hash32.zero
  stateSeq := u32Max
  predecessor := .zero
  successor := .zero
  key0 := Key33.zero
  key1 := Key33.zero
  commitment := Hash32.zero

/-- The smallest output index among the candidates. -/
def minimumVout (candidates : List MarkerCandidate) : UInt32 :=
  (candidates.map MarkerCandidate.vout).min?.getD u32Max

def invalidEvent (binding : Binding) (block : BlockView) (tx : TxView) (txIndex : UInt32)
    (reason : Reason) (configuredInit : Bool) : Event :=
  let candidates := markerCandidates tx binding
  let eventIndex := match candidates with
    | [] => u32Max
    | [candidate] => candidate.vout
    | _ => minimumVout candidates
  let eventType := match candidates with
    | [candidate] => attemptedEventType candidate
    | _ => .invalid
  let ns := if configuredInit then binding.namespace P else
    match candidates with
    | [candidate] => (populationNamespace candidate).getD Hash32.zero
    | _ => Hash32.zero
  bareInvalidEvent block tx txIndex eventIndex eventType reason ns

/-- The event of one carrier terminated by a noncanonical spend. -/
def exitEvent (block : BlockView) (tx : TxView) (txIndex eventIndex subIndex : UInt32)
    (reason : Reason) (ns : Hash32) (object : ObjectState) : Event where
  ns := ns
  blockHash := block.hash
  height := block.height
  txIndex := txIndex
  eventIndex := eventIndex
  subIndex := subIndex
  eventType := .exitedNoncanonical
  validityClass := .terminalNoncanonical
  reason := reason
  txid := tx.txid
  wtxid := tx.wtxid
  objectKey := object.objectKey
  stateSeq := object.stateSeq
  predecessor := object.currentOutpoint
  successor := .zero
  key0 := object.keys.key0
  key1 := object.keys.key1
  commitment := Hash32.zero

end Events

section Mutation

def terminateObject (state : ChainState) (object : ObjectState) (status : ObjectStatus)
    (terminalTxid : Hash32) : ChainState :=
  { state with
    active := state.active.erase object.currentOutpoint
    objects := state.objects.modify object.objectKey fun stored =>
      { stored with status := status, currentOutpoint := .zero, terminalTxid := terminalTxid } }

def CarrierLe (a b : ℕ × ObjectState) : Prop :=
  (compare a.2.objectKey b.2.objectKey).isLE = true

instance : DecidableRel CarrierLe := fun a b =>
  inferInstanceAs (Decidable ((compare a.2.objectKey b.2.objectKey).isLE = true))

/-- Terminate carriers in the given order, numbering their events from `sub`. -/
def terminateEach (block : BlockView) (tx : TxView) (txIndex eventIndex : UInt32) (reason : Reason)
    (ns : Hash32) : ChainState → ℕ → List (ℕ × ObjectState) →
      Outcome Infallible (ChainState × List Event)
  | state,_,[] => pure (state,[])
  | state,sub,(_,object) :: rest => do
    let subIndex ← expect (u32TryFrom sub)
    let event := exitEvent block tx txIndex eventIndex subIndex reason ns object
    let state := terminateObject state object .exitedNoncanonical tx.txid
    let (state,events) ← terminateEach block tx txIndex eventIndex reason ns state (sub + 1) rest
    pure (state,event :: events)

def terminateCarriers (state : ChainState) (block : BlockView) (tx : TxView)
    (txIndex eventIndex : UInt32) (reason : Reason) (ns : Hash32)
    (carriers : List (ℕ × ObjectState)) : Outcome Infallible (ChainState × List Event) :=
  terminateEach block tx txIndex eventIndex reason ns state 0 (carriers.insertionSort CarrierLe)

variable (P : Primitives)

def applyValidOperation (state : ChainState) (block : BlockView) (tx : TxView)
    (txIndex eventIndex : UInt32) (operation : ValidatedOperation) :
    Outcome Infallible (ChainState × Event) :=
  let successor : OutPointRef := ⟨tx.txid,1⟩
  match operation with
  | .create keys =>
    let key := objectKey P (state.binding.namespace P) tx.txid
    match state.protocolStatus with
    | .active _ hOpen hClose =>
      let founding := decide (hOpen.toUInt64 ≤ block.height) && decide (block.height < hClose.toUInt64)
      let object : ObjectState := {
        objectKey := key
        genesis := successor
        founding := founding
        status := .active
        createHeight := block.height
        stateSeq := 0
        currentOutpoint := successor
        keys := keys
        terminalTxid := Hash32.zero
        chapterCount := 0 }
      let state := { state with
        active := state.active.insert successor key
        objects := state.objects.insert key object }
      pure (state,validEventBase P state block tx txIndex eventIndex .create key 0 .zero successor
        keys Hash32.zero)
    | _ => .panic
  | .mark object sequence commitment => do
    let predecessor := object.currentOutpoint
    let chapterCount ← expect (checkedAdd32 object.chapterCount 1)
    let object := { object with
      currentOutpoint := successor, stateSeq := sequence, chapterCount := chapterCount }
    let state := { state with
      active := (state.active.erase predecessor).insert successor object.objectKey
      objects := state.objects.insert object.objectKey object }
    pure (state,validEventBase P state block tx txIndex eventIndex .mark object.objectKey sequence
      predecessor successor object.keys commitment)
  | .rotate object sequence keys =>
    let predecessor := object.currentOutpoint
    let object := { object with currentOutpoint := successor, stateSeq := sequence, keys := keys }
    let state := { state with
      active := (state.active.erase predecessor).insert successor object.objectKey
      objects := state.objects.insert object.objectKey object }
    pure (state,validEventBase P state block tx txIndex eventIndex .rotate object.objectKey sequence
      predecessor successor keys Hash32.zero)
  | .close object sequence commitment =>
    let predecessor := object.currentOutpoint
    let state := terminateObject state object .closed tx.txid
    let state := { state with
      objects := state.objects.modify object.objectKey fun stored =>
        { stored with stateSeq := sequence } }
    pure (state,validEventBase P state block tx txIndex eventIndex .close object.objectKey sequence
      predecessor .zero object.keys commitment)

/-- Dispatch of a transaction with exactly one candidate. -/
def processMarked (state : ChainState) (block : BlockView) (tx : TxView) (txIndex : UInt32)
    (candidate : MarkerCandidate) (carriers : List (ℕ × ObjectState)) :
    Outcome Infallible (ChainState × List Event) :=
  let ns := (populationNamespace candidate).getD Hash32.zero
  let validation := candidate.parse >>= fun marker =>
    validateSingle P state block.height tx marker carriers.head?
  match validation with
  | .panic => .panic
  | .ok operation => do
    let (state,event) ← applyValidOperation P state block tx txIndex candidate.vout operation
    pure (state,[event])
  | .err reason =>
    if carriers.isEmpty then
      pure (state,[bareInvalidEvent block tx txIndex candidate.vout (attemptedEventType candidate)
        reason ns])
    else terminateCarriers state block tx txIndex candidate.vout reason ns carriers

/-- Dispatch of a transaction without a candidate that spends at most one carrier. -/
def processMarkerless (state : ChainState) (block : BlockView) (tx : TxView) (txIndex : UInt32)
    (carriers : List (ℕ × ObjectState)) : Outcome Infallible (ChainState × List Event) :=
  match carriers.head? with
  | none => pure (state,[])
  | some (_,object) =>
    if tx.inputs.length == 1 && tx.outputs.length == 2 then
      match validateRefund P block.height tx object with
      | .panic => .panic
      | .ok () =>
        pure (terminateObject state object .refunded tx.txid,
          [validRefundEvent P state block tx txIndex object])
      | .err _ =>
        terminateCarriers state block tx txIndex u32Max .badRefundShapeOrMaturity
          (state.binding.namespace P) carriers
    else
      terminateCarriers state block tx txIndex u32Max .unmarkedCarrierSpend
        (state.binding.namespace P) carriers

def processTransaction (state : ChainState) (block : BlockView) (tx : TxView) (txIndex : UInt32) :
    Outcome Infallible (ChainState × List Event) :=
  let candidates := markerCandidates tx state.binding
  let carriers := carrierSpends state tx
  if 1 < candidates.length then
    let eventIndex := minimumVout candidates
    if carriers.isEmpty then
      pure (state,[bareInvalidEvent block tx txIndex eventIndex .invalid .multipleMarkers Hash32.zero])
    else
      terminateCarriers state block tx txIndex eventIndex .multipleMarkers Hash32.zero carriers
  else if 1 < carriers.length then
    let eventIndex := (candidates.head?.map MarkerCandidate.vout).getD u32Max
    let ns := (candidates.head?.bind populationNamespace).getD
      (if candidates.isEmpty then state.binding.namespace P else Hash32.zero)
    terminateCarriers state block tx txIndex eventIndex .multipleCarriers ns carriers
  else
    match candidates.head? with
    | none => processMarkerless P state block tx txIndex carriers
    | some candidate => processMarked P state block tx txIndex candidate carriers

end Mutation

section Blocks
variable (P : Primitives)

def validateLinkage (state : ChainState) (block : BlockView) : Except ReducerError Unit :=
  match state.tipHeight with
  | none => .ok ()
  | some height =>
    match checkedAdd64 height 1 with
    | none => .error (.nonconsecutiveHeight 0xffffffffffffffff block.height)
    | some expected =>
      if block.height ≠ expected then .error (.nonconsecutiveHeight expected block.height)
      else if state.tipHash ≠ some block.previousHash then .error .parentMismatch
      else .ok ()

/-- A loop over the transactions of a block that mutates the state and collects events. -/
def forEachTransaction
    (step : ChainState → TxView → UInt32 → Outcome Infallible (ChainState × List Event)) :
    ChainState → List Event → ℕ → List TxView →
      Outcome Infallible (ChainState × Except ReducerError (List Event))
  | state,events,_,[] => pure (state,.ok events)
  | state,events,position,tx :: rest =>
    match u32TryFrom position with
    | none => pure (state,.error .transactionIndexOverflow)
    | some txIndex => do
      let (state,emitted) ← step state tx txIndex
      forEachTransaction step state (events ++ emitted) (position + 1) rest

/-- The loop body of the block that carries a valid configured INIT. -/
def initBlockStep (block : BlockView) (state : ChainState) (tx : TxView) (txIndex : UInt32) :
    Outcome Infallible (ChainState × List Event) :=
  if tx.txid = state.binding.initTxid then pure (state,[validInitEvent P state block tx txIndex])
  else processTransaction P state block tx txIndex

def reduceTransactions (state : ChainState) (block : BlockView) :
    Outcome Infallible (ChainState × Except ReducerError (List Event)) :=
  match state.protocolStatus with
  | .awaitingInit =>
    match block.transactions.zipIdx.find? fun entry => entry.1.txid == state.binding.initTxid with
    | none => pure (state,.error .configuredInitAbsent)
    | some (initTx,position) =>
      match u32TryFrom position with
      | none => pure (state,.error .transactionIndexOverflow)
      | some initIndex =>
        match validateConfiguredInit P state.binding block.height initTx with
        | .panic => .panic
        | .ok params =>
          forEachTransaction (initBlockStep P block)
            { state with protocolStatus := .active block.height params.hOpen params.hClose }
            [] 0 block.transactions
        | .err reason =>
          pure ({ state with protocolStatus := .failedInit reason block.height },
            .ok [invalidEvent P state.binding block initTx initIndex reason true])
  | .active _ _ _ =>
    forEachTransaction (fun state tx txIndex => processTransaction P state block tx txIndex)
      state [] 0 block.transactions
  | .failedInit _ _ => pure (state,.ok [])

def postBlockRoots (ns : Hash32) (state : ChainState) (block : BlockView) (events : List Event) :
    HeightRoots :=
  let eventRootValue := eventRoot P ns events
  let objectRootValue := objectStateRoot P ns state.objectValues
  { height := block.height
    blockHash := block.hash
    eventRoot := eventRootValue
    objectStateRoot := objectRootValue
    chainedRoot := blockRoot P ns state.chainedRoot block.hash block.height eventRootValue
      objectRootValue state.counters
    counters := state.counters }

/-- Commit the roots and the tip of a block whose transactions have been reduced. -/
def sealBlock (before state : ChainState) (block : BlockView) (events : List Event) :
    ChainState × BlockDelta :=
  let roots := postBlockRoots P (before.binding.namespace P) state block events
  ({ state with
      tipHeight := some block.height
      tipHash := some block.hash
      chainedRoot := roots.chainedRoot },
    { before := before
      blockHash := block.hash
      previousHash := block.previousHash
      height := block.height
      events := events
      roots := roots })

def applyBlock (state : ChainState) (block : BlockView) :
    Outcome Infallible (ChainState × Except ReducerError BlockDelta) :=
  match validateLinkage state block with
  | .error e => pure (state,.error e)
  | .ok () =>
    if 2 ^ 32 - 1 < block.transactions.length then
      pure (state,.error .transactionIndexOverflow)
    else do
      let (reduced,result) ← reduceTransactions P state block
      match result with
      | .error e => pure (reduced,.error e)
      | .ok events =>
        let (sealed,delta) := sealBlock P state reduced block events
        pure (sealed,.ok delta)

def disconnectBlock (state : ChainState) (delta : BlockDelta) :
    ChainState × Except ReducerError Unit :=
  if state.tipHash ≠ some delta.blockHash ∨ state.tipHeight ≠ some delta.height then
    (state,.error .disconnectMismatch)
  else (delta.before,.ok ())

end Blocks
end TandemVerifier
