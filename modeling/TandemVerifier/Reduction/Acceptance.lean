import TandemVerifier.Core.Validation

/-! # What a successful validation establishes

Every validator has one inversion lemma. It returns the inputs and outputs of the
transaction as explicit lists, so that later results speak about the spent carrier
and the new carrier output and never unfold a validator again.
-/
namespace TandemVerifier
open Library Library.Outcome
variable {P : Primitives} {blockHeight : UInt64} {tx : TxView} {marker : ParsedMarker}

section Checks

@[simp] theorem checkTxHeader_eq_ok {u : Unit} :
    checkTxHeader tx = ok u ↔ tx.version = 2 ∧ tx.lockTime = 0 := by
  simp [checkTxHeader]

@[simp] theorem checkOutputShape_eq_ok {count : ℕ} {u : Unit} :
    checkOutputShape tx marker count = ok u ↔
      tx.outputs.length = count ∧ marker.vout = 0 ∧ hasOtherOpReturn tx 0 = false := by
  simp [checkOutputShape,and_assoc]

@[simp] theorem checkProvenance_eq_ok {u : Unit} :
    checkProvenance tx blockHeight = ok u ↔
      ∀ input ∈ tx.inputs, input.hasEarlierConfirmation blockHeight = true := by
  simp [checkProvenance]

@[simp] theorem checkSignatures_eq_ok {u : Unit} :
    checkSignatures tx = ok u ↔ ∀ input ∈ tx.inputs, input.signaturesValid = true := by
  simp [checkSignatures]

@[simp] theorem add64_eq_ok {ε : Type} {a b c : UInt64} :
    (add64 a b : Outcome ε UInt64) = ok c ↔ a.toNat + b.toNat = c.toNat := by
  rw [add64,expect_eq_ok,checkedAdd64_eq_some]

end Checks

/-- The shape shared by every marked operation. -/
structure OperationShape (blockHeight : UInt64) (tx : TxView) (marker : ParsedMarker) : Prop where
  version : tx.version = 2
  lockTime : tx.lockTime = 0
  sequences : ∀ input ∈ tx.inputs, input.sequence = rbfSequence
  markerVout : marker.vout = 0
  noOtherOpReturn : hasOtherOpReturn tx 0 = false
  confirmed : ∀ input ∈ tx.inputs, input.hasEarlierConfirmation blockHeight = true
  signed : ∀ input ∈ tx.inputs, input.signaturesValid = true

/-- A transition of the object whose active carrier is spent by the first input. -/
structure TransitionShape (P : Primitives) (marker : ParsedMarker)
    (carrier : Option (ℕ × ObjectState)) (input : InputView) (object : ObjectState)
    (sequence : UInt32) : Prop where
  carrier_eq : carrier = some (0,object)
  carrierKeys : input.carrierKeys P = some object.keys
  prevout : input.prevout = object.currentOutpoint
  markerSequence : marker.u32At 40 = (ok sequence : Outcome Reason UInt32)
  stateSeq : object.stateSeq.toNat + 1 = sequence.toNat

structure CreateAccepted (P : Primitives) (state : ChainState) (blockHeight : UInt64) (tx : TxView)
    (marker : ParsedMarker) (input0 input1 : InputView)
    (output0 output1 output2 output3 : OutputView) (keys : KeyPair) : Prop
    extends OperationShape blockHeight tx marker where
  kind : marker.payload[7]? = some 1
  inputs : tx.inputs = [input0,input1]
  outputs : tx.outputs = [output0,output1,output2,output3]
  key0 : input0.p2wpkhKey P = some keys.key0
  key1 : input1.p2wpkhKey P = some keys.key1
  checked : KeyPair.checked P keys.key0 keys.key1 = some keys
  markerValue : output0.value = 0
  carrierOutput : output1 = ⟨carrierValue,keys.carrierScript P⟩
  change0 : output2.scriptPubkey = keys.key0.p2wpkhScript P
  change1 : output3.scriptPubkey = keys.key1.p2wpkhScript P
  fee : ∃ fee : ℕ, 0 < fee ∧
    input0.prevoutValue.toNat = output2.value.toNat + (10000 + (fee / 2 + fee % 2)) ∧
    input1.prevoutValue.toNat = output3.value.toNat + (10000 + fee / 2)
  floor0 : changeFloor ≤ output2.value
  floor1 : changeFloor ≤ output3.value
  phase : ∃ initHeight hOpen hClose, state.protocolStatus = .active initHeight hOpen hClose ∧
    hOpen.toUInt64 ≤ blockHeight

structure MarkAccepted (P : Primitives) (blockHeight : UInt64) (tx : TxView)
    (marker : ParsedMarker) (carrier : Option (ℕ × ObjectState)) (input0 input1 : InputView)
    (output0 output1 output2 : OutputView) (sponsor : Key33) (object : ObjectState)
    (sequence : UInt32) (commitment : Hash32) : Prop
    extends OperationShape blockHeight tx marker,
      TransitionShape P marker carrier input0 object sequence where
  kind : marker.payload[7]? = some 1
  chapterKind : ∃ b, marker.payload[44]? = some b ∧ b ≤ 5
  reserved : marker.payload[45]? = some 0
  inputs : tx.inputs = [input0,input1]
  outputs : tx.outputs = [output0,output1,output2]
  sponsorKey : input1.p2wpkhKey P = some sponsor
  sponsorMember : object.keys.contains sponsor = true
  markerValue : output0.value = 0
  carrierOutput : output1 = ⟨carrierValue,object.keys.carrierScript P⟩
  change : output2.scriptPubkey = sponsor.p2wpkhScript P
  fee : output2.value.toNat < input1.prevoutValue.toNat
  floor : changeFloor ≤ output2.value
  markerCommitment : marker.hashAt 46 = (ok commitment : Outcome Reason Hash32)
  nonzero : commitment.isZero = false

structure RotateAccepted (P : Primitives) (blockHeight : UInt64) (tx : TxView)
    (marker : ParsedMarker) (carrier : Option (ℕ × ObjectState)) (input0 input1 input2 : InputView)
    (output0 output1 output2 output3 : OutputView) (object : ObjectState) (sequence : UInt32)
    (keys : KeyPair) : Prop
    extends OperationShape blockHeight tx marker,
      TransitionShape P marker carrier input0 object sequence where
  kind : marker.payload[7]? = some 1
  inputs : tx.inputs = [input0,input1,input2]
  outputs : tx.outputs = [output0,output1,output2,output3]
  key0 : input1.p2wpkhKey P = some keys.key0
  key1 : input2.p2wpkhKey P = some keys.key1
  checked : KeyPair.checked P keys.key0 keys.key1 = some keys
  rotated : object.keys ≠ keys
  markerValue : output0.value = 0
  carrierOutput : output1 = ⟨carrierValue,keys.carrierScript P⟩
  change0 : output2.scriptPubkey = keys.key0.p2wpkhScript P
  change1 : output3.scriptPubkey = keys.key1.p2wpkhScript P
  fee : ∃ fee : ℕ, 0 < fee ∧
    input1.prevoutValue.toNat = output2.value.toNat + (fee / 2 + fee % 2) ∧
    input2.prevoutValue.toNat = output3.value.toNat + fee / 2
  floor0 : changeFloor ≤ output2.value
  floor1 : changeFloor ≤ output3.value

structure CloseAccepted (P : Primitives) (blockHeight : UInt64) (tx : TxView)
    (marker : ParsedMarker) (carrier : Option (ℕ × ObjectState)) (input : InputView)
    (output0 output1 output2 : OutputView) (object : ObjectState) (sequence : UInt32)
    (commitment : Hash32) : Prop
    extends OperationShape blockHeight tx marker,
      TransitionShape P marker carrier input object sequence where
  kind : marker.payload[7]? = some 0xff
  closeKind : ∃ b, marker.payload[44]? = some b ∧ b ≤ 3
  reserved : (marker.payload.drop 45).take 3 = [0,0,0]
  inputs : tx.inputs = [input]
  outputs : tx.outputs = [output0,output1,output2]
  markerValue : output0.value = 0
  payout0 : output1.scriptPubkey = object.keys.key0.p2wpkhScript P
  payout1 : output2.scriptPubkey = object.keys.key1.p2wpkhScript P
  equalPayout : output1.value = output2.value
  positive : output1.value ≠ 0
  fee : output1.value.toNat + output2.value.toNat < carrierValue.toNat
  markerCommitment : marker.hashAt 48 = (ok commitment : Outcome Reason Hash32)

structure RefundAccepted (P : Primitives) (blockHeight : UInt64) (tx : TxView) (input : InputView)
    (output0 output1 : OutputView) (object : ObjectState) : Prop where
  version : tx.version = 2
  lockTime : tx.lockTime = 0
  inputs : tx.inputs = [input]
  outputs : tx.outputs = [output0,output1]
  noOpReturn : ∀ output ∈ tx.outputs, isOpReturn output.scriptPubkey = false
  sequence : input.sequence = refundDelay
  prevout : input.prevout = object.currentOutpoint
  confirmed : input.hasEarlierConfirmation blockHeight = true
  carrierKeys : input.carrierKeys P = some object.keys
  signed : input.signaturesValid = true
  payout0 : output0.scriptPubkey = object.keys.key0.p2wpkhScript P
  payout1 : output1.scriptPubkey = object.keys.key1.p2wpkhScript P
  positive : output0.value ≠ 0
  equalPayout : output0.value = output1.value
  fee : output0.value.toNat + output1.value.toNat < carrierValue.toNat

section Lists
variable {α : Type}

theorem eq_of_getElem?_one {xs : List α} {a : α} (hl : xs.length = 1) (h0 : xs[0]? = some a) :
    xs = [a] := by
  obtain ⟨x,rfl⟩ := List.length_eq_one_iff.mp hl
  simpa using h0

theorem eq_of_getElem?_two {xs : List α} {a b : α} (hl : xs.length = 2) (h0 : xs[0]? = some a)
    (h1 : xs[1]? = some b) : xs = [a,b] := by
  obtain ⟨x,y,rfl⟩ := List.length_eq_two.mp hl
  simp only [List.getElem?_cons_zero,List.getElem?_cons_succ,Option.some.injEq] at h0 h1
  rw [h0,h1]

theorem eq_of_getElem?_three {xs : List α} {a b c : α} (hl : xs.length = 3) (h0 : xs[0]? = some a)
    (h1 : xs[1]? = some b) (h2 : xs[2]? = some c) : xs = [a,b,c] := by
  obtain ⟨x,y,z,rfl⟩ := List.length_eq_three.mp hl
  simp only [List.getElem?_cons_zero,List.getElem?_cons_succ,Option.some.injEq] at h0 h1 h2
  rw [h0,h1,h2]

theorem eq_of_getElem?_four {xs : List α} {a b c d : α} (hl : xs.length = 4) (h0 : xs[0]? = some a)
    (h1 : xs[1]? = some b) (h2 : xs[2]? = some c) (h3 : xs[3]? = some d) : xs = [a,b,c,d] := by
  cases xs with
  | nil => simp at hl
  | cons x rest =>
    simp only [List.getElem?_cons_zero,List.getElem?_cons_succ,Option.some.injEq] at h0 h1 h2 h3
    rw [h0,eq_of_getElem?_three (by simpa using hl) h1 h2 h3]

end Lists

/-- A checked pair is the pair of its arguments. -/
theorem KeyPair.checked_eq_some {key0 key1 : Key33} {keys : KeyPair} :
    KeyPair.checked P key0 key1 = some keys ↔ keys = ⟨key0,key1⟩ ∧ key0.isValid P = true ∧
      key1.isValid P = true ∧ compare key0 key1 = .lt := by
  unfold checked
  split
  · next h =>
    simp only [Bool.and_eq_true,beq_iff_eq] at h
    simp only [Option.some.injEq,h,and_self,and_true]
    exact eq_comm
  · next h =>
    simp only [Bool.and_eq_true,beq_iff_eq,not_and] at h
    simp only [reduceCtorEq,false_iff,not_and]
    exact fun _ h0 h1 => h ⟨h0,h1⟩

theorem filter_pos_eq_some {x : Option UInt64} {fee : UInt64} :
    x.filter (0 < ·) = some fee ↔ x = some fee ∧ 0 < fee.toNat := by
  rw [Option.filter_eq_some_iff]
  simp [UInt64.lt_iff_toNat_lt]

theorem validateCreate_ok {state : ChainState} {operation : ValidatedOperation}
    (h : validateCreate P state blockHeight tx marker = ok operation) :
    ∃ input0 input1 output0 output1 output2 output3 keys, operation = .create keys ∧
      CreateAccepted P state blockHeight tx marker input0 input1 output0 output1 output2 output3
        keys := by
  simp only [validateCreate,bind_eq_ok,index_eq_ok,failIf_eq_ok,okOr_eq_ok,exists_const,
    checkTxHeader_eq_ok,checkOutputShape_eq_ok,checkProvenance_eq_ok,checkSignatures_eq_ok,
    add64_eq_ok,checkedSub64_eq_some,checkedAdd64_eq_some,filter_pos_eq_some] at h
  obtain ⟨kind,hkind,hkind1,⟨hv,hlock⟩,hin,⟨hol,hvout,hop⟩,hconf,_,input0,hi0,key0,hk0,input1,hi1,
    key1,hk1,keys,hkeys,hsig,output0,ho0,output1,ho1,output2,ho2,output3,ho3,hout,debit0,hd0,
    debit1,hd1,total,ht,fee,⟨hfee,hpos⟩,ceil,hceil,share0,hs0,share1,hs1,hsplit,hphase⟩ := h
  obtain ⟨rfl,_⟩ := KeyPair.checked_eq_some.mp hkeys
  simp only [Bool.or_eq_false_iff,bne_eq_false_iff_eq,List.any_eq_false,Bool.not_eq_true,
    decide_eq_false_iff_not,UInt64.not_lt] at hkind1 hin hout hsplit
  obtain ⟨hlen,hseq⟩ := hin
  obtain ⟨⟨⟨⟨hm,hval⟩,hscr⟩,hc0⟩,hc1⟩ := hout
  obtain ⟨⟨⟨hsd0,hsd1⟩,hf0⟩,hf1⟩ := hsplit
  subst hsd0 hsd1 hkind1
  have hhalf : (fee / 2).toNat = fee.toNat / 2 := by simp
  have hmod : (fee % 2).toNat = fee.toNat % 2 := by simp
  have hten : (10000 : UInt64).toNat = 10000 := rfl
  cases hst : state.protocolStatus with
  | awaitingInit => simp [hst] at hphase
  | failedInit reason height => simp [hst] at hphase
  | active initHeight hOpen hClose =>
    simp only [hst,bind_eq_ok,failIf_eq_ok,exists_const,pure_eq_ok,Outcome.ok.injEq,
      decide_eq_false_iff_not,UInt64.not_lt] at hphase
    refine ⟨input0,input1,output0,output1,output2,output3,⟨key0,key1⟩,hphase.2.symm,
      ⟨hv,hlock,hseq,hvout,hop,hconf,hsig⟩,hkind,eq_of_getElem?_two hlen hi0 hi1,
      eq_of_getElem?_four hol ho0 ho1 ho2 ho3,hk0,hk1,hkeys,hm,?_,hc0,hc1,
      ⟨fee.toNat,hpos,by omega,by omega⟩,hf0,hf1,initHeight,hOpen,hClose,hst,hphase.1⟩
    cases output1
    simp_all

/-- The object read through the carrier index is the one whose keys are revealed. -/
theorem carrier_of_validate {carrier : Option (ℕ × ObjectState)} {object : ObjectState}
    (hindex : (carrier.any fun spend => spend.1 != 0) = false)
    (hobject : carrier.map Prod.snd = some object) : carrier = some (0,object) := by
  cases carrier with
  | none => simp at hobject
  | some spend =>
    obtain ⟨i,value⟩ := spend
    simp only [Option.any_some,bne_eq_false_iff_eq,Option.map_some,Option.some.injEq] at hindex hobject
    rw [hindex,hobject]

theorem validateMark_ok {carrier : Option (ℕ × ObjectState)} {operation : ValidatedOperation}
    (h : validateMark P blockHeight tx marker carrier = ok operation) :
    ∃ input0 input1 output0 output1 output2 sponsor object sequence commitment,
      operation = .mark object sequence commitment ∧
      MarkAccepted P blockHeight tx marker carrier input0 input1 output0 output1 output2 sponsor
        object sequence commitment := by
  simp only [validateMark,bind_eq_ok,index_eq_ok,failIf_eq_ok,okOr_eq_ok,exists_const,
    checkTxHeader_eq_ok,checkOutputShape_eq_ok,checkProvenance_eq_ok,checkSignatures_eq_ok,
    checkedSub64_eq_some,filter_pos_eq_some,pure_eq_ok,Outcome.ok.injEq] at h
  obtain ⟨kind,hkind,hkind1,chapter,hchapter,hchapter5,reserved,hres,hres0,⟨hv,hlock⟩,hin,
    ⟨hol,hvout,hop⟩,hconf,_,_,input0,hi0,keys,hkeys,input1,hi1,sponsor,hsp,hbind,hsig,output0,ho0,
    output1,ho1,output2,ho2,hout,fee,⟨hfee,hpos⟩,hfloor,object,hobj,hprev,sequence,hseqAt,hseq,
    hsucc,commitment,hcom,hcom0,rfl⟩ := h
  simp only [Bool.or_eq_false_iff,bne_eq_false_iff_eq,List.any_eq_false,Bool.not_eq_true,
    decide_eq_false_iff_not,UInt64.not_lt,UInt8.not_lt] at hkind1 hchapter5 hres0 hin hout hfloor
  simp only [bne_eq_false_iff_eq] at hprev hseq hsucc
  obtain ⟨⟨hlen,hsequences⟩,hindex⟩ := hin
  obtain ⟨⟨hm,hval⟩,hchange⟩ := hout
  obtain rfl := carrier_of_validate hindex hobj
  simp only [Option.map_some,Option.any_some,Option.isNone_some,Bool.false_and,Bool.or_false,
    Bool.or_eq_false_iff,bne_eq_false_iff_eq,Bool.not_eq_false'] at hbind
  subst hkind1 hres0
  refine ⟨input0,input1,output0,output1,output2,sponsor,object,sequence,commitment,rfl,
    ⟨hv,hlock,hsequences,hvout,hop,hconf,hsig⟩,
    ⟨rfl,hbind.1.symm ▸ hkeys,hprev,hseqAt,?_⟩,hkind,⟨chapter,hchapter,hchapter5⟩,hres,
    eq_of_getElem?_two hlen hi0 hi1,eq_of_getElem?_three hol ho0 ho1 ho2,hsp,hbind.2,hm,?_,hchange,
    by omega,hfloor,hcom,hcom0⟩
  · simpa using checkedAdd32_eq_some.mp hseq
  · cases output1
    simp_all

theorem validateRotate_ok {carrier : Option (ℕ × ObjectState)} {operation : ValidatedOperation}
    (h : validateRotate P blockHeight tx marker carrier = ok operation) :
    ∃ input0 input1 input2 output0 output1 output2 output3 object sequence keys,
      operation = .rotate object sequence keys ∧
      RotateAccepted P blockHeight tx marker carrier input0 input1 input2 output0 output1 output2
        output3 object sequence keys := by
  simp only [validateRotate,bind_eq_ok,index_eq_ok,failIf_eq_ok,okOr_eq_ok,exists_const,
    checkTxHeader_eq_ok,checkOutputShape_eq_ok,checkProvenance_eq_ok,checkSignatures_eq_ok,
    add64_eq_ok,checkedSub64_eq_some,checkedAdd64_eq_some,filter_pos_eq_some,pure_eq_ok,
    Outcome.ok.injEq] at h
  obtain ⟨kind,hkind,hkind1,⟨hv,hlock⟩,hin,⟨hol,hvout,hop⟩,hconf,_,_,input0,hi0,oldKeys,hold,input1,
    hi1,key0,hk0,input2,hi2,key1,hk1,keys,hkeys,hbind,hsig,output0,ho0,output1,ho1,output2,ho2,
    output3,ho3,hout,debit0,hd0,debit1,hd1,fee,⟨hfee,hpos⟩,ceil,hceil,hsplit,object,hobj,hprev,
    sequence,hseqAt,hseq,hsucc,rfl⟩ := h
  obtain ⟨rfl,_⟩ := KeyPair.checked_eq_some.mp hkeys
  simp only [Bool.or_eq_false_iff,bne_eq_false_iff_eq,List.any_eq_false,Bool.not_eq_true,
    decide_eq_false_iff_not,UInt64.not_lt] at hkind1 hin hout hsplit hprev hseq hsucc
  obtain ⟨⟨hlen,hsequences⟩,hindex⟩ := hin
  obtain ⟨⟨⟨hm,hval⟩,hc0⟩,hc1⟩ := hout
  obtain ⟨⟨⟨hsd0,hsd1⟩,hf0⟩,hf1⟩ := hsplit
  obtain rfl := carrier_of_validate hindex hobj
  simp only [Option.map_some,Option.any_some,Option.isNone_some,Bool.false_and,Bool.or_false,
    Bool.or_eq_false_iff,bne_eq_false_iff_eq,beq_eq_false_iff_ne] at hbind
  subst hkind1 hsd0 hsd1
  have hhalf : (fee / 2).toNat = fee.toNat / 2 := by simp
  have hmod : (fee % 2).toNat = fee.toNat % 2 := by simp
  refine ⟨input0,input1,input2,output0,output1,output2,output3,object,sequence,⟨key0,key1⟩,rfl,
    ⟨hv,hlock,hsequences,hvout,hop,hconf,hsig⟩,
    ⟨rfl,hbind.1.symm ▸ hold,hprev,hseqAt,?_⟩,hkind,eq_of_getElem?_three hlen hi0 hi1 hi2,
    eq_of_getElem?_four hol ho0 ho1 ho2 ho3,hk0,hk1,hkeys,hbind.2,hm,?_,hc0,hc1,
    ⟨fee.toNat,hpos,by omega,by omega⟩,hf0,hf1⟩
  · simpa using checkedAdd32_eq_some.mp hseq
  · cases output1
    simp_all

theorem validateClose_ok {carrier : Option (ℕ × ObjectState)} {operation : ValidatedOperation}
    (h : validateClose P blockHeight tx marker carrier = ok operation) :
    ∃ input output0 output1 output2 object sequence commitment,
      operation = .close object sequence commitment ∧
      CloseAccepted P blockHeight tx marker carrier input output0 output1 output2 object sequence
        commitment := by
  simp only [validateClose,bind_eq_ok,index_eq_ok,failIf_eq_ok,okOr_eq_ok,exists_const,slice_eq_ok,
    checkTxHeader_eq_ok,checkOutputShape_eq_ok,checkProvenance_eq_ok,checkSignatures_eq_ok,
    checkedSub64_eq_some,checkedAdd64_eq_some,filter_pos_eq_some,pure_eq_ok,Outcome.ok.injEq] at h
  obtain ⟨kind,hkind,hkind1,closeKind,hclose,hclose3,reserved,⟨_,hres⟩,hres0,⟨hv,hlock⟩,hlen,input,
    hi,hin,⟨hol,hvout,hop⟩,hconf,_,_,keys,hkeys,hbind,hsig,output0,ho0,output1,ho1,output2,ho2,hout,
    outputs,houtputs,fee,⟨hfee,hpos⟩,hpay,object,hobj,hprev,sequence,hseqAt,hseq,commitment,hcom,
    rfl⟩ := h
  simp only [Bool.or_eq_false_iff,bne_eq_false_iff_eq,decide_eq_false_iff_not,UInt8.not_lt,
    beq_eq_false_iff_ne] at hkind1 hclose3 hres0 hlen hin hout hpay hprev hseq
  obtain ⟨hsequence,hindex⟩ := hin
  obtain ⟨⟨hm,hp0⟩,hp1⟩ := hout
  obtain rfl := carrier_of_validate hindex hobj
  simp only [Option.map_some,Option.any_some,bne_eq_false_iff_eq] at hbind
  subst hkind1 hbind
  have hinputs := eq_of_getElem?_one hlen hi
  refine ⟨input,output0,output1,output2,object,sequence,commitment,rfl,
    ⟨hv,hlock,by simpa [hinputs] using hsequence,hvout,hop,hconf,hsig⟩,
    ⟨rfl,hkeys,hprev,hseqAt,?_⟩,hkind,⟨closeKind,hclose,hclose3⟩,hres.trans hres0,hinputs,
    eq_of_getElem?_three hol ho0 ho1 ho2,hm,hp0,hp1,hpay.2,hpay.1,by omega,hcom⟩
  simpa using checkedAdd32_eq_some.mp hseq

/-- What a validated operation says about its transaction. -/
def Accepted (P : Primitives) (state : ChainState) (blockHeight : UInt64) (tx : TxView)
    (marker : ParsedMarker) (carrier : Option (ℕ × ObjectState)) : ValidatedOperation → Prop
  | .create keys => ∃ input0 input1 output0 output1 output2 output3,
    CreateAccepted P state blockHeight tx marker input0 input1 output0 output1 output2 output3 keys
  | .mark object sequence commitment => ∃ input0 input1 output0 output1 output2 sponsor,
    MarkAccepted P blockHeight tx marker carrier input0 input1 output0 output1 output2 sponsor object
      sequence commitment
  | .rotate object sequence keys => ∃ input0 input1 input2 output0 output1 output2 output3,
    RotateAccepted P blockHeight tx marker carrier input0 input1 input2 output0 output1 output2
      output3 object sequence keys
  | .close object sequence commitment => ∃ input output0 output1 output2,
    CloseAccepted P blockHeight tx marker carrier input output0 output1 output2 object sequence
      commitment

theorem validateSingle_ok {state : ChainState} {carrier : Option (ℕ × ObjectState)}
    {operation : ValidatedOperation}
    (h : validateSingle P state blockHeight tx marker carrier = ok operation) :
    Accepted P state blockHeight tx marker carrier operation := by
  simp only [validateSingle,bind_eq_ok,failIf_eq_ok,okOr_eq_ok,exists_const] at h
  obtain ⟨_,_,opcode,_,_,_,h⟩ := h
  cases opcode with
  | init => simp at h
  | create =>
    obtain ⟨input0,input1,output0,output1,output2,output3,keys,rfl,ha⟩ := validateCreate_ok h
    exact ⟨input0,input1,output0,output1,output2,output3,ha⟩
  | mark =>
    obtain ⟨input0,input1,output0,output1,output2,sponsor,object,sequence,commitment,rfl,ha⟩ :=
      validateMark_ok h
    exact ⟨input0,input1,output0,output1,output2,sponsor,ha⟩
  | rotate =>
    obtain ⟨input0,input1,input2,output0,output1,output2,output3,object,sequence,keys,rfl,ha⟩ :=
      validateRotate_ok h
    exact ⟨input0,input1,input2,output0,output1,output2,output3,ha⟩
  | close =>
    obtain ⟨input,output0,output1,output2,object,sequence,commitment,rfl,ha⟩ := validateClose_ok h
    exact ⟨input,output0,output1,output2,ha⟩

theorem validateRefund_ok {object : ObjectState} {u : Unit}
    (h : validateRefund P blockHeight tx object = ok u) :
    ∃ input output0 output1, RefundAccepted P blockHeight tx input output0 output1 object := by
  simp only [validateRefund,bind_eq_ok,index_eq_ok,failIf_eq_ok,okOr_eq_ok,exists_const,
    checkedSub64_eq_some,checkedAdd64_eq_some,filter_pos_eq_some,pure_eq_ok] at h
  obtain ⟨hshape,input,hi,hspend,height,_,_,output0,ho0,output1,ho1,hpay,sum,hsum,fee,⟨hfee,hpos⟩,
    _⟩ := h
  simp only [Bool.or_eq_false_iff,bne_eq_false_iff_eq,List.any_eq_false,Bool.not_eq_true,
    beq_eq_false_iff_ne,Bool.not_eq_false'] at hshape hspend hpay
  obtain ⟨⟨⟨⟨hv,hlock⟩,hil⟩,hol⟩,hop⟩ := hshape
  obtain ⟨⟨⟨⟨hseq,hprev⟩,hconf⟩,hkeys⟩,hsig⟩ := hspend
  obtain ⟨⟨⟨hp0,hp1⟩,hpositive⟩,heq⟩ := hpay
  exact ⟨input,output0,output1,hv,hlock,eq_of_getElem?_one hil hi,eq_of_getElem?_two hol ho0 ho1,
    hop,hseq,hprev,hconf,hkeys,hsig,hp0,hp1,hpositive,heq,by omega⟩

end TandemVerifier
