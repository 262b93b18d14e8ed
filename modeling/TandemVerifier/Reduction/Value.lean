import TandemVerifier.Reduction.CarrierSpend
import TandemVerifier.Reduction.Precedence

/-! # Conservation of value and the split of the fee

A validator computes its fee from the inputs and outputs it checks and never reads the value
of the carrier that it spends. The balance of the whole transaction follows from the value
that every active carrier has kept since it was indexed. In the other direction the checked
additions and subtractions lose no amount that satisfies the equations of the split.
-/
namespace TandemVerifier
open Library Library.Outcome
variable {P : Primitives} {binding : Binding} {placed : List Placed} {state state' : ChainState}
variable {block : BlockView} {tx : TxView} {txIndex : UInt32} {events : List Event}

section Settlement

def inputTotal (tx : TxView) : ℕ := (tx.inputs.map fun input => input.prevoutValue.toNat).sum

def outputTotal (tx : TxView) : ℕ := (tx.outputs.map fun output => output.value.toNat).sum

/-- Both parties fund a carrier by halves and share the fee, the first one the odd unit. -/
def CreateSplit (tx : TxView) (fee : ℕ) : Prop :=
  Debits tx.inputs tx.outputs (10000 + (fee + 1) / 2) (10000 + fee / 2) ∧ ChangeFloors tx

/-- The new parties share the fee of a rotation, the first one the odd unit. -/
def RotateSplit (tx : TxView) (fee : ℕ) : Prop :=
  Debits (tx.inputs.drop 1) tx.outputs ((fee + 1) / 2) (fee / 2) ∧ ChangeFloors tx

/-- The sponsor pays the whole fee. -/
def MarkSplit (tx : TxView) (fee : ℕ) : Prop :=
  ∃ sponsor change, tx.inputs.drop 1 = [sponsor] ∧ tx.outputs.drop 2 = [change] ∧
    sponsor.prevoutValue.toNat = change.value.toNat + fee ∧ 1000 ≤ change.value.toNat

/-- Two equal amounts and the fee make up the carrier. -/
def ReleaseSplit (payouts : List OutputView) (fee : ℕ) : Prop :=
  ∃ amount, payouts.map (fun output => output.value.toNat) = [amount,amount] ∧ 0 < amount ∧
    2 * amount + fee = 20000

/-- How an operation of each type divides its fee. -/
def FeeSplit (tx : TxView) (fee : ℕ) : EventType → Prop
  | .create => CreateSplit tx fee
  | .mark => MarkSplit tx fee
  | .rotate => RotateSplit tx fee
  | .close => ReleaseSplit (tx.outputs.drop 1) fee
  | .refund => ReleaseSplit tx.outputs fee
  | .init => False
  | .exitedNoncanonical => False
  | .invalid => False

/-- The inputs pay for the outputs and a positive fee, which is split as the operation demands. -/
def Settled (tx : TxView) (eventType : EventType) : Prop :=
  ∃ fee, 0 < fee ∧ inputTotal tx = outputTotal tx + fee ∧ FeeSplit tx fee eventType

end Settlement

section Acceptance
variable {blockHeight : UInt64} {marker : ParsedMarker} {carrier : Option (ℕ × ObjectState)}
variable {input0 input1 input2 : InputView} {output0 output1 output2 output3 : OutputView}
variable {keys : KeyPair} {object : ObjectState} {sequence : UInt32} {commitment : Hash32} {sponsor : Key33}

theorem floor_le {output : OutputView} (h : changeFloor ≤ output.value) : 1000 ≤ output.value.toNat :=
  UInt64.le_iff_toNat_le.mp h

theorem CreateAccepted.settled (h : CreateAccepted P state blockHeight tx marker input0 input1 output0
    output1 output2 output3 keys) : Settled tx .create := by
  obtain ⟨fee,hpositive,hdebit0,hdebit1⟩ := h.fee
  have hmarker := value_eq_zero.mpr h.markerValue
  have hcarrier : output1.value.toNat = 20000 := by rw [h.carrierOutput]; rfl
  have hhalf : fee / 2 + fee % 2 = (fee + 1) / 2 := by omega
  rw [hhalf] at hdebit0
  refine ⟨fee,hpositive,?_,?_,?_⟩
  · simp only [inputTotal,outputTotal,h.inputs,h.outputs,List.map_cons,List.map_nil,List.sum_cons,
      List.sum_nil]
    omega
  · rw [h.inputs,h.outputs,debits_iff]
    exact ⟨hdebit0,hdebit1⟩
  · simp [ChangeFloors,h.outputs,floor_le h.floor0,floor_le h.floor1]

theorem MarkAccepted.settled (h : MarkAccepted P blockHeight tx marker carrier input0 input1 output0 output1
    output2 sponsor object sequence commitment) (hvalue : input0.prevoutValue = carrierValue) :
    Settled tx .mark := by
  have hmarker := value_eq_zero.mpr h.markerValue
  have hcarrier : output1.value.toNat = 20000 := by rw [h.carrierOutput]; rfl
  have hspent : input0.prevoutValue.toNat = 20000 := by rw [hvalue]; rfl
  have hfee := h.fee
  refine ⟨input1.prevoutValue.toNat - output2.value.toNat,by omega,?_,input1,output2,?_,?_,by omega,
    floor_le h.floor⟩
  · simp only [inputTotal,outputTotal,h.inputs,h.outputs,List.map_cons,List.map_nil,List.sum_cons,
      List.sum_nil]
    omega
  · simp [h.inputs]
  · simp [h.outputs]

theorem RotateAccepted.settled (h : RotateAccepted P blockHeight tx marker carrier input0 input1 input2
    output0 output1 output2 output3 object sequence keys) (hvalue : input0.prevoutValue = carrierValue) :
    Settled tx .rotate := by
  obtain ⟨fee,hpositive,hdebit0,hdebit1⟩ := h.fee
  have hmarker := value_eq_zero.mpr h.markerValue
  have hcarrier : output1.value.toNat = 20000 := by rw [h.carrierOutput]; rfl
  have hspent : input0.prevoutValue.toNat = 20000 := by rw [hvalue]; rfl
  have hhalf : fee / 2 + fee % 2 = (fee + 1) / 2 := by omega
  rw [hhalf] at hdebit0
  refine ⟨fee,hpositive,?_,?_,?_⟩
  · simp only [inputTotal,outputTotal,h.inputs,h.outputs,List.map_cons,List.map_nil,List.sum_cons,
      List.sum_nil]
    omega
  · rw [h.inputs,h.outputs,List.drop_succ_cons,List.drop_zero,debits_iff]
    exact ⟨hdebit0,hdebit1⟩
  · simp [ChangeFloors,h.outputs,floor_le h.floor0,floor_le h.floor1]

/-- A carrier paid out in two equal amounts. -/
theorem releaseSplit {payout0 payout1 : OutputView} (hequal : payout0.value = payout1.value)
    (hpositive : payout0.value ≠ 0) (hfee : payout0.value.toNat + payout1.value.toNat < carrierValue.toNat) :
    ∃ fee, 0 < fee ∧ payout0.value.toNat + payout1.value.toNat + fee = 20000 ∧
      ReleaseSplit [payout0,payout1] fee := by
  have hcarrier : carrierValue.toNat = 20000 := rfl
  have hamount : payout0.value.toNat = payout1.value.toNat := by rw [hequal]
  have hne : payout0.value.toNat ≠ 0 := fun hzero => hpositive (value_eq_zero.mp hzero)
  refine ⟨20000 - (payout0.value.toNat + payout1.value.toNat),by omega,by omega,payout0.value.toNat,?_,
    by omega,by omega⟩
  simp [hequal]

theorem CloseAccepted.settled (h : CloseAccepted P blockHeight tx marker carrier input0 output0 output1
    output2 object sequence commitment) (hvalue : input0.prevoutValue = carrierValue) : Settled tx .close := by
  obtain ⟨fee,hpositive,hsum,hsplit⟩ := releaseSplit h.equalPayout h.positive h.fee
  have hmarker := value_eq_zero.mpr h.markerValue
  have hspent : input0.prevoutValue.toNat = 20000 := by rw [hvalue]; rfl
  refine ⟨fee,hpositive,?_,?_⟩
  · simp only [inputTotal,outputTotal,h.inputs,h.outputs,List.map_cons,List.map_nil,List.sum_cons,
      List.sum_nil]
    omega
  · simpa [FeeSplit,h.outputs] using hsplit

theorem RefundAccepted.settled (h : RefundAccepted P blockHeight tx input0 output0 output1 object)
    (hvalue : input0.prevoutValue = carrierValue) : Settled tx .refund := by
  obtain ⟨fee,hpositive,hsum,hsplit⟩ := releaseSplit h.equalPayout h.positive h.fee
  have hspent : input0.prevoutValue.toNat = 20000 := by rw [hvalue]; rfl
  refine ⟨fee,hpositive,?_,?_⟩
  · simp only [inputTotal,outputTotal,h.inputs,h.outputs,List.map_cons,List.map_nil,List.sum_cons,
      List.sum_nil]
    omega
  · simpa [FeeSplit,h.outputs] using hsplit

end Acceptance

section Steps

/-- A valid event names its transaction, which is settled when spent carriers have their value. -/
theorem TxEffect.settled {event : Event} (h : TxEffect P state block tx txIndex state' events)
    (hindexed : Indexed P binding placed state)
    (hvalue : ∀ input ∈ tx.inputs, ∀ key, state.active[input.prevout]? = some key →
      input.prevoutValue = carrierValue)
    (hevent : event ∈ events) (hvalid : event.validityClass = .validOperation) :
    event.txid = tx.txid ∧ Settled tx event.eventType := by
  -- the first input of a transition spends the carrier of its object
  have hspent : ∀ {object input rest}, carrierSpends state tx = [(0,object)] → tx.inputs = input :: rest →
      input.prevoutValue = carrierValue := by
    intro object input rest hcarriers hinputs
    obtain ⟨_,_,hactive,spent,hspent,hprevout⟩ := hindexed.owner (by simp [hcarriers] :
      (0,object) ∈ carrierSpends state tx)
    obtain rfl : input = spent := by simpa [hinputs] using hspent
    exact hvalue input (by simp [hinputs]) _ (hprevout ▸ hactive)
  cases h with
  | silent hcandidates hcarriers => simp at hevent
  | rejected eventIndex eventType reason ns hcandidates hcarriers =>
    rw [List.mem_singleton.mp hevent] at hvalid
    simp [bareInvalidEvent] at hvalid
  | created candidate marker keys initHeight hOpen hClose hcandidates hparse hcarriers hstatus haccepted =>
    obtain ⟨_,_,_,_,_,_,haccept⟩ := haccepted
    rw [List.mem_singleton.mp hevent]
    exact ⟨rfl,haccept.settled⟩
  | marked candidate marker object sequence commitment chapterCount hcandidates hparse hcarriers
      hchapter haccepted =>
    obtain ⟨_,_,_,_,_,_,haccept⟩ := haccepted
    rw [List.mem_singleton.mp hevent]
    exact ⟨rfl,haccept.settled (hspent hcarriers haccept.inputs)⟩
  | rotated candidate marker object sequence keys hcandidates hparse hcarriers haccepted =>
    obtain ⟨_,_,_,_,_,_,_,haccept⟩ := haccepted
    rw [List.mem_singleton.mp hevent]
    exact ⟨rfl,haccept.settled (hspent hcarriers haccept.inputs)⟩
  | closed candidate marker object sequence commitment hcandidates hparse hcarriers haccepted =>
    obtain ⟨_,_,_,_,haccept⟩ := haccepted
    rw [List.mem_singleton.mp hevent]
    exact ⟨rfl,haccept.settled (hspent hcarriers haccept.inputs)⟩
  | refunded object hcandidates hcarriers haccepted =>
    obtain ⟨_,_,_,haccept⟩ := haccepted
    rw [List.mem_singleton.mp hevent]
    exact ⟨rfl,haccept.settled (hspent hcarriers haccept.inputs)⟩
  | exited eventIndex reason ns carriers hnonempty hperm hsorted hlength =>
    obtain ⟨spend,_,subIndex,rfl⟩ := mem_exitEvents hevent
    simp [exitEvent] at hvalid

end Steps

section Converse
variable {blockHeight : UInt64} {marker : ParsedMarker} {carrier : Option (ℕ × ObjectState)} {fee : ℕ}

theorem validateCreate_fee (hlength : marker.payload.length = 40) (hpositive : 0 < fee)
    (hsplit : CreateSplit tx fee) (hbound : 20000 + fee < 2 ^ 64) :
    validateCreate P state blockHeight tx marker ≠ err .nonpositiveOrInvalidFee ∧
      validateCreate P state blockHeight tx marker ≠ err .badFeeSplitOrChange := by
  have hchecks := @validateCreate_checks P state blockHeight tx marker hlength
  refine ⟨hchecks.ne_err ?_,hchecks.ne_err ?_⟩
  · simp only [createRules,List.forall_mem_cons,List.not_mem_nil,false_implies,implies_true,and_true,
      reduceCtorEq,true_and,true_implies]
    exact ⟨_,_,hsplit.1,by omega,by omega⟩
  · simp only [createRules,List.forall_mem_cons,List.not_mem_nil,false_implies,implies_true,and_true,
      reduceCtorEq,true_and,true_implies]
    exact ⟨⟨fee,hsplit.1⟩,hsplit.2⟩

theorem validateRotate_fee (hlength : marker.payload.length = 44) (hpositive : 0 < fee)
    (hsplit : RotateSplit tx fee) (hbound : fee < 2 ^ 64) :
    validateRotate P blockHeight tx marker carrier ≠ err .nonpositiveOrInvalidFee ∧
      validateRotate P blockHeight tx marker carrier ≠ err .badFeeSplitOrChange := by
  have hchecks := @validateRotate_checks P blockHeight tx marker carrier hlength
  refine ⟨hchecks.ne_err ?_,hchecks.ne_err ?_⟩
  · simp only [rotateRules,List.forall_mem_cons,List.not_mem_nil,false_implies,implies_true,and_true,
      reduceCtorEq,true_and,true_implies]
    exact ⟨_,_,hsplit.1,by omega,by omega⟩
  · simp only [rotateRules,List.forall_mem_cons,List.not_mem_nil,false_implies,implies_true,and_true,
      reduceCtorEq,true_and,true_implies]
    exact ⟨⟨fee,hsplit.1⟩,hsplit.2⟩

end Converse

/-- Every valid operation of a run with distinct txids and resolved inputs balances over the natural
numbers with a positive fee that is split exactly; and the fee rules of CREATE and ROTATE reject no
amounts that satisfy their equations while the debits fit in 64 bits. -/
theorem value_conservation {blocks : List BlockView} {final : ChainState} {deltas : List BlockDelta}
    (hrun : applyBlocks P (ChainState.new P binding) blocks = some (final,deltas))
    (hdistinct : Distinct P binding (placedTransactions blocks))
    (hresolved : OutputsResolved (placedTransactions blocks)) :
    (∀ delta ∈ deltas, ∀ event ∈ delta.events, event.validityClass = .validOperation →
      event.eventType ≠ .init → ∃ entry ∈ placedTransactions blocks, entry.tx.txid = event.txid ∧
        Settled entry.tx event.eventType) ∧
    (∀ (state : ChainState) (blockHeight : UInt64) (tx : TxView) (candidate : MarkerCandidate)
      (marker : ParsedMarker) (fee : ℕ), candidate.parse = ok marker → marker.opcode = some .create →
      0 < fee → CreateSplit tx fee → (10000 + (fee + 1) / 2) + (10000 + fee / 2) < 2 ^ 64 →
      validateCreate P state blockHeight tx marker ≠ err .nonpositiveOrInvalidFee ∧
        validateCreate P state blockHeight tx marker ≠ err .badFeeSplitOrChange) ∧
    ∀ (blockHeight : UInt64) (tx : TxView) (candidate : MarkerCandidate) (marker : ParsedMarker)
      (carrier : Option (ℕ × ObjectState)) (fee : ℕ), candidate.parse = ok marker →
      marker.opcode = some .rotate → 0 < fee → RotateSplit tx fee → (fee + 1) / 2 + fee / 2 < 2 ^ 64 →
      validateRotate P blockHeight tx marker carrier ≠ err .nonpositiveOrInvalidFee ∧
        validateRotate P blockHeight tx marker carrier ≠ err .badFeeSplitOrChange := by
  refine ⟨?_,?_,?_⟩
  · intro delta hdelta event hevent hvalid htype
    rcases applyBlocks_event_called hrun hdelta hevent with hinert | hcalled
    · obtain ⟨⟨hinvalid | hinit,_⟩,_⟩ := hinert
      · simp [hvalid] at hinvalid
      · exact absurd hinit htype
    · obtain ⟨block,tx,before,after,emitted,hcalled,hmem⟩ := hcalled
      obtain ⟨placed,more,log,txIndex,hplaced,hpoint,hcall⟩ := hcalled.point
      rw [hplaced] at hdistinct hresolved
      have hindexed := hpoint.reached.indexed hdistinct.of_append
      have hsettled := (processTransaction_effect hcall).settled hindexed (fun input hinput key hactive =>
        (carrier_input hindexed hpoint.reached.custody hresolved hinput hactive).2) hmem hvalid
      exact ⟨⟨block.height,tx⟩,by simp [hplaced],hsettled.1.symm,hsettled.2⟩
  · intro state blockHeight tx candidate marker fee hparse hopcode hpositive hsplit hbound
    exact validateCreate_fee (parse_length hparse hopcode) hpositive hsplit (by omega)
  · intro blockHeight tx candidate marker carrier fee hparse hopcode hpositive hsplit hbound
    exact validateRotate_fee (parse_length hparse hopcode) hpositive hsplit (by omega)

/-- The sample run is settled: its rotation pays its fee from the new parties. -/
theorem sample_value_conservation : ∃ final deltas, applyBlocks bitcoinPrimitives
    (ChainState.new bitcoinPrimitives sampleBinding) sampleBlocks = some (final,deltas) ∧
      ∃ delta ∈ deltas, ∃ event ∈ delta.events, event.eventType = .rotate ∧
        ∃ entry ∈ placedTransactions sampleBlocks, entry.tx.txid = event.txid ∧ Settled entry.tx .rotate := by
  obtain ⟨final,deltas,hrun,_,hlog⟩ := sampleBlocks_run
  obtain ⟨delta,hdelta,hevent⟩ := sampleLog_rotation hlog
  refine ⟨final,deltas,hrun,delta,hdelta,_,hevent,rfl,?_⟩
  exact (value_conservation hrun sample_distinct sample_resolved.outputs).1 delta hdelta _ hevent rfl
    (by simp [validEventBase])

end TandemVerifier
