import TandemVerifier.Reduction.Admission
import TandemVerifier.Reduction.CarrierSpend
import TandemVerifier.Reduction.Frame
import TandemVerifier.Reduction.Phase
import TandemVerifier.Reduction.Refund

/-! # Nobody is locked in

The owners of an active object can always leave. In the next block they can close it, unless
its state sequence has reached the greatest value of the field, and once the delay has passed
they can refund it whatever its sequence is. The transactions that do so are written out, with
inputs that carry what the run says about the carrier that they spend.
-/
namespace TandemVerifier
open Library Library.Outcome Library.LinkedChain
variable {P : Primitives} {binding : Binding} {placed : List Placed} {state state' : ChainState}
variable {block : BlockView} {tx : TxView} {txIndex : UInt32} {events : List Event}
variable {object : ObjectState}

section Keys

/-- The keys of every object pass the check of a revealed pair. -/
def Spendable (P : Primitives) (state : ChainState) : Prop :=
  ∀ (key : Hash32) (object : ObjectState), state.objects[key]? = some object →
    KeyPair.checked P object.keys.key0 object.keys.key1 = some object.keys

theorem Spendable.spent {i : ℕ} (h : Spendable P state) (hspend : (i,object) ∈ carrierSpends state tx) :
    KeyPair.checked P object.keys.key0 object.keys.key1 = some object.keys := by
  obtain ⟨_,key,_,_,hobject⟩ := mem_carrierSpends.mp hspend
  exact h key object hobject

theorem Spendable.effect (h : Spendable P state) (heffect : TxEffect P state block tx txIndex state' events) :
    Spendable P state' := by
  intro key object hobject
  cases heffect.objectStep hobject with
  | kept hkept => exact h key object hkept
  | created marker keys initHeight hOpen hClose _ haccepted =>
    obtain ⟨_,_,_,_,_,_,haccept⟩ := haccepted
    exact haccept.checked
  | marked marker owner sequence commitment chapterCount hcarriers _ _ =>
    have hspend : (0,owner) ∈ carrierSpends state tx := by simp [hcarriers]
    have hchecked := h.spent hspend
    exact hchecked
  | rotated marker owner sequence keys _ haccepted =>
    obtain ⟨_,_,_,_,_,_,_,haccept⟩ := haccepted
    exact haccept.checked
  | ended stored status sequence hstored _ _ => exact h key stored hstored

theorem Reached.spendable {log : List Event} (h : Reached P binding placed log state) :
    Spendable P state := by
  induction h with
  | fresh => simp [Spendable,ChainState.new]
  | decided status _ _ ih => exact ih
  | processed block tx txIndex _ hcall ih => exact ih.effect (processTransaction_effect hcall)
  | passed more emitted _ _ ih => exact ih
  | sealed tipHeight tipHash chainedRoot _ ih => exact ih

end Keys

section Orders

/-- What the owners settle on when they leave: the payout of each of them and the bytes that
only the network interprets. -/
structure Parting where
  txid : Hash32
  wtxid : Hash32
  signature0 : Bytes
  signature1 : Bytes
  payout : UInt64
  positive : payout ≠ 0
  fee : 2 * payout.toNat < 20000

/-- The input that spends the carrier of an object with the signatures of both owners. -/
def Parting.input (P : Primitives) (parting : Parting) (object : ObjectState) (confirmed : UInt64)
    (sequence : UInt32) : InputView where
  prevout := object.currentOutpoint
  sequence := sequence
  scriptSig := []
  witness := [[],parting.signature0,parting.signature1,object.keys.witnessScript]
  prevoutValue := carrierValue
  prevoutScript := object.keys.carrierScript P
  prevoutHeight := some confirmed
  signaturesValid := true

def Parting.payouts (P : Primitives) (parting : Parting) (object : ObjectState) : List OutputView :=
  [⟨parting.payout,object.keys.key0.p2wpkhScript P⟩,⟨parting.payout,object.keys.key1.p2wpkhScript P⟩]

def refundTransaction (P : Primitives) (object : ObjectState) (confirmed : UInt64) (parting : Parting) :
    TxView where
  txid := parting.txid
  wtxid := parting.wtxid
  version := 2
  lockTime := 0
  inputs := [parting.input P object confirmed refundDelay]
  outputs := parting.payouts P object

/-- The payload of the CLOSE marker that follows a state sequence. -/
def closePayload (P : Primitives) (binding : Binding) (object : ObjectState) (kind : UInt8)
    (commitment : Hash32) : Bytes :=
  [magic,[version,binding.network.code,4,0xff],(binding.namespace P).toList,
    u32LeBytes (object.stateSeq + 1),[kind,0,0,0],commitment.toList].flatten

def closeTransaction (P : Primitives) (binding : Binding) (object : ObjectState) (confirmed : UInt64)
    (parting : Parting) (kind : UInt8) (commitment : Hash32) : TxView where
  txid := parting.txid
  wtxid := parting.wtxid
  version := 2
  lockTime := 0
  inputs := [parting.input P object confirmed rbfSequence]
  outputs := ⟨0,markerScript (closePayload P binding object kind commitment)⟩ :: parting.payouts P object

end Orders

section Witness
variable {parting : Parting} {confirmed : UInt64} {sequence : UInt32}

theorem Parting.input_revealed : (parting.input P object confirmed sequence).carrierRevealedKeys =
    some (object.keys.key0,object.keys.key1) := by
  have htry : ∀ key : Key33, ByteVector.tryFrom 33 key.toList = some key := fun key =>
    ByteVector.tryFrom_eq_some.mpr rfl
  have hpast : object.keys.key0.toList.drop 34 = [] := List.drop_eq_nil_of_le (by simp)
  simp [InputView.carrierRevealedKeys,Parting.input,KeyPair.witnessScript,KeyPair.carrierScript,
    List.take_append,List.drop_append,hpast,htry]

theorem Parting.input_keys
    (h : KeyPair.checked P object.keys.key0 object.keys.key1 = some object.keys) :
    (parting.input P object confirmed sequence).carrierKeys P = some object.keys := by
  have hscript : (parting.input P object confirmed sequence).prevoutScript = object.keys.carrierScript P :=
    rfl
  simp [InputView.carrierKeys,Parting.input_revealed,h,hscript]

theorem p2wpkhScript_plain (key : Key33) : isOpReturn (key.p2wpkhScript P) = false := by
  simp [isOpReturn,Key33.p2wpkhScript]

theorem p2wpkhScript_unmarked (key : Key33) (vout : UInt32) :
    findMarkerCandidate (key.p2wpkhScript P) vout = none := by
  simp [findMarkerCandidate,Key33.p2wpkhScript]

/-- An input that spends the carrier of an active object, alone, spends that object. -/
theorem Indexed.carrierSpends_eq {key : Hash32} {input : InputView} (h : Indexed P binding placed state)
    (hobject : state.objects[key]? = some object) (hactive : object.status = .active)
    (hinputs : tx.inputs = [input]) (hprevout : input.prevout = object.currentOutpoint) :
    carrierSpends state tx = [(0,object)] := by
  have hindexed : state.active[object.currentOutpoint]? = some key :=
    (h.activeBijection _ key).mpr ⟨object,hobject,h.key_eq key object hobject,hactive,rfl⟩
  simp [carrierSpends,hinputs,hprevout,hindexed,hobject]

end Witness

section Refund
variable {parting : Parting} {confirmed : UInt64}

theorem refundTransaction_terms
    (h : KeyPair.checked P object.keys.key0 object.keys.key1 = some object.keys) :
    RefundTerms P (refundTransaction P object confirmed parting) object
      (parting.input P object confirmed refundDelay) where
  version := rfl
  lockTime := rfl
  inputs := rfl
  sequence := rfl
  prevout := rfl
  carrierKeys := Parting.input_keys h
  signed := rfl
  payouts := by
    refine ⟨_,_,rfl,p2wpkhScript_plain _,p2wpkhScript_plain _,rfl,rfl,rfl,?_,parting.fee⟩
    exact fun hzero => parting.positive (UInt64.toNat_inj.mp hzero)

theorem refundTransaction_validates
    (h : KeyPair.checked P object.keys.key0 object.keys.key1 = some object.keys)
    (hmature : confirmed.toNat + 52560 ≤ block.height.toNat) :
    validateRefund P block.height (refundTransaction P object confirmed parting) object = ok () := by
  refine validateRefund_iff.mpr ⟨_,refundTransaction_terms h,Or.inl ⟨confirmed,rfl,?_,hmature⟩⟩
  omega

theorem refundTransaction_unmarked :
    markerCandidates (refundTransaction P object confirmed parting) binding = [] := by
  simp [markerCandidates,refundTransaction,Parting.payouts,p2wpkhScript_unmarked,u32TryFrom]

/-- A mature refund ends the object as refunded. -/
theorem refundTransaction_processed {key : Hash32} (hindexed : Indexed P binding placed state)
    (hspendable : Spendable P state) (hobject : state.objects[key]? = some object)
    (hactive : object.status = .active) (hmature : confirmed.toNat + 52560 ≤ block.height.toNat) :
    processTransaction P state block (refundTransaction P object confirmed parting) txIndex =
      ok (terminateObject state object .refunded parting.txid,
        [validRefundEvent P state block (refundTransaction P object confirmed parting) txIndex object]) := by
  have hcarriers : carrierSpends state (refundTransaction P object confirmed parting) = [(0,object)] :=
    hindexed.carrierSpends_eq hobject hactive rfl rfl
  have hvalid : validateRefund P block.height (refundTransaction P object confirmed parting) object = ok () :=
    refundTransaction_validates (hspendable key object hobject) hmature
  have hshape : ((refundTransaction P object confirmed parting).inputs.length == 1 &&
      (refundTransaction P object confirmed parting).outputs.length == 2) = true := rfl
  simp [processTransaction,processMarkerless,refundTransaction_unmarked,hcarriers,hshape,hvalid]
  rfl

end Refund

section Close
variable {parting : Parting} {confirmed : UInt64} {kind : UInt8} {commitment : Hash32}

/-- What the reducer reads from the payload of the marker. -/
structure ClosePayload (P : Primitives) (binding : Binding) (object : ObjectState) (kind : UInt8)
    (commitment : Hash32) (payload : Bytes) : Prop where
  length : payload.length = 80
  magic : payload.take 4 = magic
  versioned : payload[4]? = some version
  network : payload[5]? = some binding.network.code
  opcode : payload[6]? = some 4
  fixed : payload[7]? = some 0xff
  ns : (payload.drop 8).take 32 = (binding.namespace P).toList
  sequence : (payload.drop 40).take 4 = u32LeBytes (object.stateSeq + 1)
  kind : payload[44]? = some kind
  reserved : (payload.drop 45).take 3 = [0,0,0]
  commitment : (payload.drop 48).take 32 = commitment.toList

theorem closePayload_fields :
    ClosePayload P binding object kind commitment (closePayload P binding object kind commitment) := by
  have hmagic : TandemVerifier.magic.length = 4 := rfl
  have hsequence := u32LeBytes_length (object.stateSeq + 1)
  constructor
  all_goals simp [closePayload,List.drop_append,List.drop_eq_nil_of_le,List.take_of_length_le,hmagic,
    hsequence]

theorem ClosePayload.grammar {payload : Bytes} (h : ClosePayload P binding object kind commitment payload) :
    MarkerPayload payload where
  magic := h.magic
  lower := by rw [h.length]; decide
  upper := by rw [h.length]
  exact_length := by
    rintro ⟨byte,length⟩ hentry hopcode
    obtain rfl : byte = 4 := Option.some.inj (hopcode.symm.trans h.opcode)
    have hlength : length = 80 := by simpa using hentry
    rw [h.length,hlength]

/-- The marker that the parser reads from the payload. -/
def closeMarker (binding : Binding) (payload : Bytes) : ParsedMarker :=
  ⟨0,version,binding.network.code,4,some .close,payload⟩

theorem ClosePayload.candidate {payload : Bytes} (h : ClosePayload P binding object kind commitment payload) :
    ∃ candidate : MarkerCandidate, findMarkerCandidate (markerScript payload) 0 = some candidate ∧
      candidate.vout = 0 ∧ candidate.opcodeByte = some 4 ∧
      candidate.parse = ok (closeMarker binding payload) := by
  have hparse : parseScript (markerScript (closeMarker binding payload).payload)
      (closeMarker binding payload).vout = some (ok (closeMarker binding payload)) :=
    parseScript_complete h.grammar h.versioned h.network h.opcode rfl
  obtain ⟨candidate,hcandidate,hresult⟩ := Option.map_eq_some_iff.mp hparse
  obtain ⟨_,_,_,_,_,_,hvout,_,_,hopcode,_⟩ := parse_eq_ok.mp hresult
  exact ⟨candidate,hcandidate,hvout.symm,hopcode,hresult⟩

theorem closeTransaction_candidate {candidate : MarkerCandidate}
    (h : findMarkerCandidate (markerScript (closePayload P binding object kind commitment)) 0 =
      some candidate)
    (hopcode : candidate.opcodeByte = some 4) :
    markerCandidates (closeTransaction P binding object confirmed parting kind commitment) binding =
      [candidate] := by
  have hinit : candidate.isInitCandidate = false := by simp [MarkerCandidate.isInitCandidate,hopcode]
  simp [markerCandidates,closeTransaction,Parting.payouts,p2wpkhScript_unmarked,u32TryFrom,h,hinit]

theorem ClosePayload.u32At {marker : ParsedMarker}
    (h : ClosePayload P binding object kind commitment marker.payload) :
    (marker.u32At 40 : Outcome Reason UInt32) = ok (object.stateSeq + 1) := by
  have hlength := h.length
  have hnext := (object.stateSeq + 1).toNat_lt
  refine bind_eq_ok.mpr ⟨u32LeBytes (object.stateSeq + 1),slice_eq_ok.mpr ⟨by omega,h.sequence⟩,?_⟩
  rw [u32LeBytes,ofLeBytes_leBytes,Nat.mod_eq_of_lt (by omega),UInt32.ofNat_toNat]
  rfl

theorem ParsedMarker.hashAt_of_bytes {marker : ParsedMarker} {start : ℕ} {hash : Hash32}
    (hlength : start + 32 ≤ marker.payload.length)
    (h : (marker.payload.drop start).take 32 = hash.toList) :
    (marker.hashAt start : Outcome Reason Hash32) = ok hash := by
  refine bind_eq_ok.mpr ⟨hash.toList,slice_eq_ok.mpr ⟨hlength,h⟩,?_⟩
  exact expect_eq_ok.mpr (ByteVector.tryFrom_eq_some.mpr rfl)

theorem closeTransaction_validates {marker : ParsedMarker}
    (hfields : ClosePayload P binding object kind commitment marker.payload) (hvout : marker.vout = 0)
    (hkeys : KeyPair.checked P object.keys.key0 object.keys.key1 = some object.keys)
    (hkind : kind ≤ 3) (hsequence : object.stateSeq.toNat + 1 < 2 ^ 32)
    (hconfirmed : confirmed.toNat < block.height.toNat) :
    validateClose P block.height (closeTransaction P binding object confirmed parting kind commitment) marker
      (some (0,object)) = ok (.close object (object.stateSeq + 1) commitment) := by
  have hlength := hfields.length
  have hfee := parting.fee
  have hcarrier : (parting.input P object confirmed rbfSequence).carrierKeys P = some object.keys :=
    Parting.input_keys hkeys
  have hearlier : (parting.input P object confirmed rbfSequence).hasEarlierConfirmation block.height = true :=
    hasEarlierConfirmation_iff.mpr ⟨confirmed,rfl,hconfirmed⟩
  have hplain : hasOtherOpReturn (closeTransaction P binding object confirmed parting kind commitment) 0 =
      false := by
    simp [hasOtherOpReturn,closeTransaction,Parting.payouts,p2wpkhScript_plain,u32TryFrom]
  have hscripts : checkTransitionInputScripts
      (closeTransaction P binding object confirmed parting kind commitment) [0] [] = ok () := by
    simp [checkTransitionInputScripts,anyIndexed,index,expect,closeTransaction,Parting.input_revealed,failIf]
  have hnext : checkedAdd32 object.stateSeq 1 = some (object.stateSeq + 1) := by
    rw [checkedAdd32_eq_some,UInt32.toNat_add]
    simp only [UInt32.reduceToNat]
    omega
  simp only [validateClose,bind_eq_ok,index_eq_ok,failIf_eq_ok,okOr_eq_ok,exists_const,slice_eq_ok,
    checkTxHeader_eq_ok,checkOutputShape_eq_ok,checkProvenance_eq_ok,checkSignatures_eq_ok,
    checkedSub64_eq_some,checkedAdd64_eq_some,filter_pos_eq_some,pure_eq_ok,Outcome.ok.injEq]
  refine ⟨0xff,hfields.fixed,rfl,kind,hfields.kind,by simpa using hkind,[0,0,0],⟨by omega,hfields.reserved⟩,
    rfl,⟨rfl,rfl⟩,rfl,_,rfl,rfl,⟨rfl,hvout,hplain⟩,by simpa [closeTransaction] using hearlier,(),hscripts,
    object.keys,hcarrier,by simp,by simp [closeTransaction,Parting.input],_,rfl,_,rfl,_,rfl,
    by simp,UInt64.ofNat (2 * parting.payout.toNat),?_,
    UInt64.ofNat (20000 - 2 * parting.payout.toNat),?_,?_,object,rfl,by simp [Parting.input],
    object.stateSeq + 1,hfields.u32At,by simp [hnext],commitment,
    ParsedMarker.hashAt_of_bytes (by omega) hfields.commitment,rfl⟩
  · rw [UInt64.toNat_ofNat']
    dsimp only
    omega
  · have hvalue : carrierValue.toNat = 20000 := rfl
    rw [UInt64.toNat_ofNat',UInt64.toNat_ofNat',hvalue]
    omega
  · simp [parting.positive]

/-- A close of the carrier of an earlier block ends the object as closed. -/
theorem closeTransaction_processed {key : Hash32} (hindexed : Indexed P binding placed state)
    (hspendable : Spendable P state) (hobject : state.objects[key]? = some object)
    (hactive : object.status = .active) (hkind : kind ≤ 3) (hsequence : object.stateSeq.toNat + 1 < 2 ^ 32)
    (hconfirmed : confirmed.toNat < block.height.toNat) :
    processTransaction P state block (closeTransaction P binding object confirmed parting kind commitment)
      txIndex = ok (closeObject state object (object.stateSeq + 1) parting.txid,
        [validEventBase P state block (closeTransaction P binding object confirmed parting kind commitment)
          txIndex 0 .close object.objectKey (object.stateSeq + 1) object.currentOutpoint .zero object.keys
          commitment]) := by
  have hfields : ClosePayload P binding object kind commitment
      (closePayload P binding object kind commitment) := closePayload_fields
  have hlength : 8 + 32 ≤ (closePayload P binding object kind commitment).length := by
    rw [hfields.length]
    decide
  obtain ⟨candidate,hcandidate,hvout,hopcode,hparse⟩ := hfields.candidate
  have hcandidates : markerCandidates (closeTransaction P binding object confirmed parting kind commitment)
      state.binding = [candidate] := by
    rw [hindexed.binding_eq]
    exact closeTransaction_candidate hcandidate hopcode
  have hcarriers : carrierSpends state (closeTransaction P binding object confirmed parting kind commitment) =
      [(0,object)] := hindexed.carrierSpends_eq hobject hactive rfl rfl
  have hns : ((closeMarker binding (closePayload P binding object kind commitment)).hashAt 8 :
      Outcome Reason Hash32) = ok (binding.namespace P) :=
    ParsedMarker.hashAt_of_bytes hlength hfields.ns
  have hclose : validateClose P block.height
      (closeTransaction P binding object confirmed parting kind commitment)
      (closeMarker binding (closePayload P binding object kind commitment)) (some (0,object)) =
        ok (.close object (object.stateSeq + 1) commitment) :=
    closeTransaction_validates hfields rfl (hspendable key object hobject) hkind hsequence hconfirmed
  have hvalid : validateSingle P state block.height
      (closeTransaction P binding object confirmed parting kind commitment)
      (closeMarker binding (closePayload P binding object kind commitment)) (some (0,object)) =
        ok (.close object (object.stateSeq + 1) commitment) := by
    rw [← hclose]
    simp only [validateSingle,hindexed.binding_eq,checkNamespace]
    simp [closeMarker,failIf,okOr] at hns ⊢
    simp [hns]
  simp [processTransaction,hcandidates,hcarriers,processMarked,hparse,hvalid,applyValidOperation,hvout]
  exact ⟨rfl,rfl⟩

end Close
section Runs
variable {blocks : List BlockView} {deltas : List BlockDelta} {key : Hash32} {parting : Parting}

/-- The next block ends one object and leaves every other one as it was. -/
structure Departs (P : Primitives) (binding : Binding) (blocks : List BlockView) (state : ChainState)
    (block : BlockView) (object : ObjectState) (ended : ObjectState) (eventType : EventType) : Prop where
  resolved : Resolved (placedTransactions blocks) → Resolved (placedTransactions (blocks ++ [block]))
  ends : ∃ final deltas delta event,
    applyBlocks P (ChainState.new P binding) (blocks ++ [block]) = some (final,deltas ++ [delta]) ∧
    delta.events = [event] ∧ event.validityClass = .validOperation ∧ event.eventType = eventType ∧
    event.objectKey = object.objectKey ∧ event.predecessor = object.currentOutpoint ∧
    final.objects[object.objectKey]? = some ended ∧ final.active[object.currentOutpoint]? = none ∧
    ∀ key, key ≠ object.objectKey → final.objects[key]? = state.objects[key]?

/-- A block of one transaction seals what that transaction leaves behind. -/
theorem applyBlock_single {initHeight : UInt64} {hOpen hClose : UInt32} {after : ChainState}
    (hlinkage : validateLinkage state block = .ok ())
    (hstatus : state.protocolStatus = .active initHeight hOpen hClose)
    (htransactions : block.transactions = [tx])
    (hcall : processTransaction P state block tx 0 = ok (after,events)) : ∃ final delta,
      applyBlock P state block = ok (final,.ok delta) ∧ delta.events = events ∧
        final.objects = after.objects ∧ final.active = after.active := by
  have hloop : reduceTransactions P state block = ok (after,.ok events) := by
    simp [reduceTransactions,hstatus,htransactions,forEachTransaction,u32TryFrom,hcall]
  refine ⟨(sealBlock P state after block events).1,(sealBlock P state after block events).2,?_,rfl,rfl,rfl⟩
  simp [applyBlock,hlinkage,htransactions,hloop]

/-- The input of a departing transaction is the resolved carrier. -/
theorem Resolved.departing {entry : Placed} {confirmed : UInt64} {sequence : UInt32}
    (hdistinct : Distinct P binding placed) (hentry : entry ∈ placed)
    (htxid : entry.tx.txid = object.currentOutpoint.txid)
    (houtput : entry.tx.outputs[1]? = some ⟨carrierValue,object.keys.carrierScript P⟩)
    (hvout : object.currentOutpoint.vout = 1)
    (hinputs : tx.inputs = [parting.input P object entry.height sequence])
    (h : Resolved placed) : Resolved (placed ++ [⟨confirmed,tx⟩]) := by
  refine List.pairwise_append.mpr ⟨h,List.pairwise_singleton _ _,?_⟩
  intro earlier hearlier later hlater input hinput hspends output hspent
  obtain rfl := List.mem_singleton.mp hlater
  rw [hinputs] at hinput
  obtain rfl := List.mem_singleton.mp hinput
  obtain rfl : earlier = entry :=
    List.inj_on_of_nodup_map hdistinct.txids hearlier hentry (hspends.symm.trans htxid.symm)
  have hindex : (parting.input P object earlier.height sequence).prevout.vout.toNat = 1 := by
    rw [Parting.input,hvout]
    rfl
  rw [hindex,houtput] at hspent
  obtain rfl := Option.some.inj hspent
  exact ⟨rfl,rfl,rfl⟩

theorem applyBlocks_active_of_object
    (hrun : applyBlocks P (ChainState.new P binding) blocks = some (state,deltas))
    (hobject : state.objects[key]? = some object) :
    ∃ initHeight hOpen hClose, state.protocolStatus = .active initHeight hOpen hClose := by
  by_contra hidle
  have hphase := PhaseState.new.applyBlocks hrun
  have hempty := (hphase.idle fun initHeight hOpen hClose hstatus =>
    hidle ⟨initHeight,hOpen,hClose,hstatus⟩).1
  simp [hempty] at hobject

/-- A transaction whose only effect is to end an object, in a block of its own. -/
theorem Terminates.departs {after : ChainState} {update : ObjectState → ObjectState} {event : Event}
    (hrun : applyBlocks P (ChainState.new P binding) blocks = some (state,deltas))
    (hlinkage : validateLinkage state block = .ok ())
    (hobject : state.objects[object.objectKey]? = some object)
    (htransactions : block.transactions = [tx])
    (hresolved : Resolved (placedTransactions blocks) →
      Resolved (placedTransactions blocks ++ [⟨block.height,tx⟩]))
    (hcall : processTransaction P state block tx 0 = ok (after,[event]))
    (hvalid : event.validityClass = .validOperation) (hkey : event.objectKey = object.objectKey)
    (hpredecessor : event.predecessor = object.currentOutpoint)
    (hends : Terminates state object update after) :
    Departs P binding blocks state block object (update object) event.eventType := by
  obtain ⟨initHeight,hOpen,hClose,hstatus⟩ := applyBlocks_active_of_object hrun hobject
  obtain ⟨final,delta,happly,hevents,hobjects,hactive⟩ :=
    applyBlock_single hlinkage hstatus htransactions hcall
  constructor
  · intro h
    have hplaced : placedTransactions (blocks ++ [block]) =
        placedTransactions blocks ++ [⟨block.height,tx⟩] := by
      simp [placedTransactions,placedIn,htransactions]
    rw [hplaced]
    exact hresolved h
  · refine ⟨final,deltas,delta,event,applyBlocks_concat.mpr ⟨state,deltas,delta,hrun,happly,rfl⟩,hevents,
      hvalid,rfl,hkey,hpredecessor,?_,?_,?_⟩
    · rw [hobjects,hends.getElem?_objects,if_pos rfl,hobject]
      rfl
    · rw [hactive,hends.active_eq]
      exact erase_active_eq_none rfl
    · intro key hother
      rw [hobjects,hends.getElem?_objects,if_neg (Ne.symm hother)]

/-- No transition follows the greatest state sequence. -/
theorem TxEffect.exhausted {event : Event} (h : TxEffect P state block tx txIndex state' events)
    (hindexed : Indexed P binding placed state) (hobject : state.objects[key]? = some object)
    (hsequence : object.stateSeq = u32Max) (hevent : event ∈ events) (hkey : event.objectKey = key)
    (hvalid : event.validityClass = .validOperation) :
    event.eventType ≠ .mark ∧ event.eventType ≠ .rotate ∧ event.eventType ≠ .close := by
  -- the owner of the carrier is the object itself, whose sequence has no successor
  have howner : ∀ owner sequence, (0,owner) ∈ carrierSpends state tx → owner.objectKey = key →
      owner.stateSeq.toNat + 1 ≠ UInt32.toNat sequence := by
    intro owner sequence hspend hsame hnext
    have hstored := (hindexed.owner hspend).1
    rw [hsame,hobject] at hstored
    obtain rfl := Option.some.inj hstored
    have hmax : u32Max.toNat = 2 ^ 32 - 1 := rfl
    have hlt := sequence.toNat_lt
    rw [hsequence,hmax] at hnext
    omega
  cases h with
  | silent _ _ => simp at hevent
  | rejected eventIndex eventType reason ns _ _ =>
    obtain rfl := List.mem_singleton.mp hevent
    simp [bareInvalidEvent] at hvalid
  | created candidate marker keys initHeight hOpen hClose _ _ _ _ _ =>
    obtain rfl := List.mem_singleton.mp hevent
    simp [validEventBase]
  | marked candidate marker owner sequence commitment chapterCount _ _ hcarriers _ haccepted =>
    obtain ⟨_,_,_,_,_,_,haccept⟩ := haccepted
    obtain rfl := List.mem_singleton.mp hevent
    exact absurd haccept.stateSeq (howner owner sequence (by simp [hcarriers]) hkey)
  | rotated candidate marker owner sequence keys _ _ hcarriers haccepted =>
    obtain ⟨_,_,_,_,_,_,_,haccept⟩ := haccepted
    obtain rfl := List.mem_singleton.mp hevent
    exact absurd haccept.stateSeq (howner owner sequence (by simp [hcarriers]) hkey)
  | closed candidate marker owner sequence commitment _ _ hcarriers haccepted =>
    obtain ⟨_,_,_,_,haccept⟩ := haccepted
    obtain rfl := List.mem_singleton.mp hevent
    exact absurd haccept.stateSeq (howner owner sequence (by simp [hcarriers]) hkey)
  | refunded owner _ _ _ =>
    obtain rfl := List.mem_singleton.mp hevent
    simp [validRefundEvent,validEventBase]
  | exited eventIndex reason ns carriers _ _ _ _ =>
    obtain ⟨_,_,_,rfl⟩ := mem_exitEvents hevent
    simp [exitEvent] at hvalid

/-- Whatever a run placed lies below a block that follows it. -/
theorem placed_below {entry : Placed}
    (hlinked : ((blocks ++ [block]).map BlockView.header).IsChain headerLinks.Follows)
    (hentry : entry ∈ placedTransactions blocks) : entry.height.toNat < block.height.toNat := by
  obtain ⟨earlier,hmem,_,hheight⟩ := mem_placedTransactions.mp hentry
  have hranks := pairwise_rank hlinked
  rw [List.map_append,List.pairwise_append] at hranks
  rw [hheight]
  exact hranks.2.2 earlier.header (List.mem_map_of_mem hmem) block.header (by simp)

/-- At the end of every run the output that holds an active object is known, and its owners can
end the object in the next block: by a close unless the state sequence is exhausted, which also
rules out any other transition, and by a refund once the delay has passed. -/
theorem custody_exits (hrun : applyBlocks P (ChainState.new P binding) blocks = some (state,deltas))
    (hdistinct : Distinct P binding (placedTransactions blocks))
    (hobject : state.objects[key]? = some object) (hactive : object.status = .active)
    (hlinked : ((blocks ++ [block]).map BlockView.header).IsChain headerLinks.Follows) :
    ∃ entry ∈ placedTransactions blocks, entry.tx.txid = object.currentOutpoint.txid ∧
      entry.tx.outputs[1]? = some ⟨carrierValue,object.keys.carrierScript P⟩ ∧
      (∀ (parting : Parting) (kind : UInt8) (commitment : Hash32), kind ≤ 3 →
        object.stateSeq.toNat + 1 < 2 ^ 32 →
        block.transactions = [closeTransaction P binding object entry.height parting kind commitment] →
        Departs P binding blocks state block object
          { object with
            status := .closed, currentOutpoint := .zero, terminalTxid := parting.txid,
            stateSeq := object.stateSeq + 1 } .close) ∧
      (∀ parting : Parting, entry.height.toNat + 52560 ≤ block.height.toNat →
        block.transactions = [refundTransaction P object entry.height parting] →
        Departs P binding blocks state block object
          { object with
            status := .refunded, currentOutpoint := .zero, terminalTxid := parting.txid } .refund) ∧
      (object.stateSeq = u32Max → ∀ block tx txIndex after emitted,
        processTransaction P state block tx txIndex = ok (after,emitted) → ∀ event ∈ emitted,
        event.objectKey = key → event.validityClass = .validOperation →
        event.eventType ≠ .mark ∧ event.eventType ≠ .rotate ∧ event.eventType ≠ .close) := by
  have hreached := run_reached hrun
  have hindexed := hreached.indexed hdistinct
  have hspendable := hreached.spendable
  have hlinkage := (validateLinkage_iff hrun).mpr hlinked
  obtain ⟨entry,hentry,htxid,houtput⟩ := hreached.custody key object hobject hactive
  have hkey := hindexed.key_eq key object hobject
  have hstored : state.objects[object.objectKey]? = some object := by rwa [hkey]
  have hvout : object.currentOutpoint.vout = 1 :=
    (hindexed.carrier _ key ((hindexed.activeBijection _ key).mpr ⟨object,hobject,hkey,hactive,rfl⟩)).1
  have hbelow := placed_below hlinked hentry
  refine ⟨entry,hentry,htxid,houtput,?_,?_,?_⟩
  · intro parting kind commitment hkind hsequence htransactions
    exact (closeObject_terminates state object (object.stateSeq + 1) parting.txid).departs hrun hlinkage
      hstored htransactions (Resolved.departing hdistinct hentry htxid houtput hvout rfl)
      (closeTransaction_processed hindexed hspendable hobject hactive hkind hsequence hbelow) rfl rfl rfl
  · intro parting hmature htransactions
    exact (terminateObject_terminates state object .refunded parting.txid (by decide)).departs hrun hlinkage
      hstored htransactions (Resolved.departing hdistinct hentry htxid houtput hvout rfl)
      (refundTransaction_processed hindexed hspendable hobject hactive hmature) rfl rfl rfl
  · intro hsequence block tx txIndex after emitted hcall event hevent hsame hvalid
    exact (processTransaction_effect hcall).exhausted hindexed hobject hsequence hevent hsame hvalid

end Runs
section Sample

def sampleParting : Parting where
  txid := sampleHash 13
  wtxid := sampleHash 14
  signature0 := [0x30]
  signature1 := [0x30]
  payout := 9830
  positive := by decide
  fee := by decide

/-- The sample blocks followed by as many empty blocks as a refund has to wait for. -/
def agedBlocks : List BlockView := sampleBlocks ++ emptyBlocks sampleHash 1110 52559

def agedBlock (transactions : List TxView) : BlockView := { emptyBlock sampleHash 53669 with transactions }

theorem agedBlocks_run : ∃ final deltas,
    applyBlocks bitcoinPrimitives (ChainState.new bitcoinPrimitives sampleBinding) agedBlocks =
      some (final,deltas) ∧ (∃ object, final.objects[sampleKey]? = some object ∧ object.status = .active) ∧
      ∀ transactions, validateLinkage final (agedBlock transactions) = .ok () := by
  obtain ⟨final,deltas,hrun,hstatus,hlog⟩ := sampleBlocks_run
  obtain ⟨outpoint,hactive⟩ := sampleObject_active hrun hlog
  obtain ⟨object,hobject,_,hlive,_⟩ :=
    (((run_reached hrun).indexed sample_distinct).activeBijection outpoint sampleKey).mp hactive
  obtain ⟨hheight,hhash⟩ := applyBlocks_tip hrun
  have hend : sampleBlocks.getLast? = some rotateBlock := by
    rw [sampleBlocks,List.getLast?_append]
    rfl
  rw [hend] at hheight hhash
  have htip : final.tipHeight = some (UInt64.ofNat 1109) := hheight
  have hlast : final.tipHash = some (sampleHash 1109) := hhash
  have hdecided : final.protocolStatus ≠ .awaitingInit := by
    rw [hstatus]
    simp
  obtain ⟨idle,hidle,_⟩ := applyBlocks_empty (P := bitcoinPrimitives) hdecided htip hlast 52559 (by decide)
  refine ⟨_,deltas ++ idle,applyBlocks_append.mpr ⟨final,deltas,idle,hrun,hidle,rfl⟩,⟨object,hobject,hlive⟩,?_⟩
  intro transactions
  have hheight' : (afterEmptyBlocks bitcoinPrimitives sampleHash final 1109 52559).tipHeight =
      some (UInt64.ofNat 53668) := rfl
  have hhash' : (afterEmptyBlocks bitcoinPrimitives sampleHash final 1109 52559).tipHash =
      some (sampleHash 53668) := rfl
  exact validateLinkage_empty hheight' hhash' (by decide)

theorem agedBlocks_placed : placedTransactions agedBlocks = placedTransactions sampleBlocks := by
  have hempty : placedTransactions (emptyBlocks sampleHash 1110 52559) = [] := by
    rw [placedTransactions,emptyBlocks,List.flatMap_map,List.flatMap_eq_nil_iff]
    intro height _
    rfl
  rw [placedTransactions] at hempty
  rw [placedTransactions,agedBlocks,List.flatMap_append,hempty,List.append_nil,placedTransactions]

/-- The object of the sample deployment is refunded once its carrier has aged. -/
theorem sample_exits : ∃ final deltas object transactions,
    applyBlocks bitcoinPrimitives (ChainState.new bitcoinPrimitives sampleBinding) agedBlocks =
      some (final,deltas) ∧ final.objects[sampleKey]? = some object ∧
      Departs bitcoinPrimitives sampleBinding agedBlocks final (agedBlock transactions) object
        { object with
          status := .refunded, currentOutpoint := .zero, terminalTxid := sampleHash 13 } .refund := by
  obtain ⟨final,deltas,hrun,⟨object,hobject,hactive⟩,hlinkage⟩ := agedBlocks_run
  have hdistinct : Distinct bitcoinPrimitives sampleBinding (placedTransactions agedBlocks) := by
    rw [agedBlocks_placed]
    exact sample_distinct
  obtain ⟨entry,hentry,htxid,_⟩ := (run_reached hrun).custody sampleKey object hobject hactive
  have hheight : entry.height.toNat ≤ 1109 := by
    rw [agedBlocks_placed,sampleBlocks_placed] at hentry
    simp only [List.mem_cons,List.not_mem_nil,or_false] at hentry
    obtain rfl | rfl | rfl := hentry
    all_goals decide
  let transactions := [refundTransaction bitcoinPrimitives object entry.height sampleParting]
  have hlinked := (validateLinkage_iff hrun).mp (hlinkage transactions)
  obtain ⟨other,hother,hsame,_,_,hrefund,_⟩ := custody_exits hrun hdistinct hobject hactive hlinked
  obtain rfl : other = entry :=
    List.inj_on_of_nodup_map hdistinct.txids hother hentry (hsame.trans htxid.symm)
  have hmature : other.height.toNat + 52560 ≤ (agedBlock transactions).height.toNat := by
    have hblock : (agedBlock transactions).height.toNat = 53669 := rfl
    omega
  exact ⟨final,deltas,object,transactions,hrun,hobject,hrefund sampleParting hmature rfl⟩

end Sample
end TandemVerifier
