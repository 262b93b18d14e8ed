import TandemVerifier.Reduction.Deployment

/-! # Exact acceptance of refunds

The maturity of a refund is tested by a checked addition whose result is compared as an
option, and an absent result orders below every height. A refund is therefore accepted when
its terms hold and it is mature, and also when the maturity height does not fit in 64 bits.
-/
namespace TandemVerifier
open Library Library.Outcome
variable {P : Primitives} {blockHeight : UInt64} {tx : TxView} {object : ObjectState} {input : InputView}

/-- The terms of a refund other than its maturity, over the natural numbers. -/
structure RefundTerms (P : Primitives) (tx : TxView) (object : ObjectState) (input : InputView) :
    Prop where
  version : tx.version = 2
  lockTime : tx.lockTime = 0
  inputs : tx.inputs = [input]
  sequence : input.sequence.toNat = 52560
  prevout : input.prevout = object.currentOutpoint
  carrierKeys : input.carrierKeys P = some object.keys
  signed : input.signaturesValid = true
  payouts : ∃ output0 output1, tx.outputs = [output0,output1] ∧
    isOpReturn output0.scriptPubkey = false ∧ isOpReturn output1.scriptPubkey = false ∧
    output0.scriptPubkey = object.keys.key0.p2wpkhScript P ∧
    output1.scriptPubkey = object.keys.key1.p2wpkhScript P ∧
    output1.value.toNat = output0.value.toNat ∧ output0.value.toNat ≠ 0 ∧
    2 * output0.value.toNat < 20000

/-- The spent carrier was confirmed at an earlier height and the delay has passed. -/
def Mature (blockHeight : UInt64) (input : InputView) : Prop :=
  ∃ height, input.prevoutHeight = some height ∧ height.toNat < blockHeight.toNat ∧
    height.toNat + 52560 ≤ blockHeight.toNat

/-- The height at which an earlier confirmed carrier matures does not fit in 64 bits. -/
def MaturityOverflows (blockHeight : UInt64) (input : InputView) : Prop :=
  ∃ height, input.prevoutHeight = some height ∧ height.toNat < blockHeight.toNat ∧
    2 ^ 64 ≤ height.toNat + 52560

theorem not_mature_of_overflows (h : MaturityOverflows blockHeight input) : ¬Mature blockHeight input := by
  rintro ⟨height,hheight,_,hmature⟩
  obtain ⟨height',hheight',_,hoverflows⟩ := h
  obtain rfl := Option.some.inj (hheight.symm.trans hheight')
  have hlt := blockHeight.toNat_lt
  omega

/-- The comparison of the source passes for a mature height and for one that overflows. -/
theorem maturity_passes {height : UInt64} (hearlier : height.toNat < blockHeight.toNat) :
    optionGt (checkedAdd64 height refundDelay.toUInt64) (some blockHeight) = false ↔
      height.toNat + 52560 ≤ blockHeight.toNat ∨ 2 ^ 64 ≤ height.toNat + 52560 := by
  have hdelay : refundDelay.toUInt64.toNat = 52560 := rfl
  cases hadd : checkedAdd64 height refundDelay.toUInt64 with
  | none =>
    have hoverflows := checkedAdd64_eq_none.mp hadd
    rw [hdelay] at hoverflows
    exact iff_of_true rfl (Or.inr hoverflows)
  | some total =>
    have htotal := checkedAdd64_eq_some.mp hadd
    have hlt := total.toNat_lt
    simp only [optionGt,decide_eq_false_iff_not,UInt64.not_lt,UInt64.le_iff_toNat_le]
    omega

theorem hasEarlierConfirmation_iff : input.hasEarlierConfirmation blockHeight = true ↔
    ∃ height, input.prevoutHeight = some height ∧ height.toNat < blockHeight.toNat := by
  unfold InputView.hasEarlierConfirmation
  cases input.prevoutHeight with
  | none => simp
  | some height => simp [UInt64.lt_iff_toNat_lt]

/-- What the validator accepts. -/
theorem validateRefund_iff : validateRefund P blockHeight tx object = ok () ↔
    ∃ input, RefundTerms P tx object input ∧
      (Mature blockHeight input ∨ MaturityOverflows blockHeight input) := by
  have hvalue : carrierValue.toNat = 20000 := rfl
  constructor
  · intro h
    obtain ⟨input,output0,output1,haccept⟩ := validateRefund_ok h
    have hfee := haccept.fee
    have hequal := congrArg UInt64.toNat haccept.equalPayout
    refine ⟨input,⟨haccept.version,haccept.lockTime,haccept.inputs,by rw [haccept.sequence]; rfl,
      haccept.prevout,haccept.carrierKeys,haccept.signed,output0,output1,haccept.outputs,
      haccept.noOpReturn output0 (by simp [haccept.outputs]),
      haccept.noOpReturn output1 (by simp [haccept.outputs]),haccept.payout0,haccept.payout1,hequal.symm,
      fun hzero => haccept.positive (UInt64.toNat_inj.mp hzero),by omega⟩,?_⟩
    obtain ⟨height,hheight,hearlier⟩ := hasEarlierConfirmation_iff.mp haccept.confirmed
    simp only [validateRefund,bind_eq_ok,index_eq_ok,failIf_eq_ok,okOr_eq_ok,exists_const,haccept.inputs,
      List.getElem?_cons_zero,Option.some.injEq,exists_eq_left',hheight] at h
    rcases (maturity_passes hearlier).mp h.2.2.1 with hmature | hoverflows
    · exact Or.inl ⟨height,hheight,hearlier,hmature⟩
    · exact Or.inr ⟨height,hheight,hearlier,hoverflows⟩
  · rintro ⟨input,hterms,hmaturity⟩
    obtain ⟨height,hheight,hearlier,hpasses⟩ : ∃ height, input.prevoutHeight = some height ∧
        height.toNat < blockHeight.toNat ∧
          optionGt (checkedAdd64 height refundDelay.toUInt64) (some blockHeight) = false := by
      rcases hmaturity with ⟨height,hheight,hearlier,hmature⟩ | ⟨height,hheight,hearlier,hoverflows⟩
      · exact ⟨height,hheight,hearlier,(maturity_passes hearlier).mpr (Or.inl hmature)⟩
      · exact ⟨height,hheight,hearlier,(maturity_passes hearlier).mpr (Or.inr hoverflows)⟩
    obtain ⟨output0,output1,houtputs,hplain0,hplain1,hscript0,hscript1,hequal,hpositive,hbound⟩ :=
      hterms.payouts
    have hsequence : input.sequence = refundDelay := UInt32.toNat_inj.mp hterms.sequence
    have hconfirmed := hasEarlierConfirmation_iff.mpr ⟨height,hheight,hearlier⟩
    have hsame : output1.value = output0.value := UInt64.toNat_inj.mp hequal
    have hnonzero : output0.value ≠ 0 := fun hzero => hpositive (by rw [hzero]; rfl)
    obtain ⟨total,htotal,hdouble⟩ : ∃ total, checkedAdd64 output0.value output0.value = some total ∧
        total.toNat = 2 * output0.value.toNat := by
      refine ⟨UInt64.ofNat (2 * output0.value.toNat),?_⟩
      rw [checkedAdd64_eq_some,UInt64.toNat_ofNat']
      omega
    obtain ⟨fee,hfee⟩ : ∃ fee, (checkedSub64 carrierValue total).filter (0 < ·) = some fee := by
      refine ⟨UInt64.ofNat (20000 - 2 * output0.value.toNat),?_⟩
      rw [filter_pos_eq_some,checkedSub64_eq_some,UInt64.toNat_ofNat',hvalue]
      omega
    rw [hscript0] at hplain0
    rw [hscript1] at hplain1
    simp [validateRefund,hterms.version,hterms.lockTime,hterms.inputs,houtputs,hplain0,hplain1,hsequence,
      hterms.prevout,hconfirmed,hterms.carrierKeys,hterms.signed,hheight,hpasses,index,expect,okOr,failIf,
      hscript0,hscript1,hsame,hnonzero,htotal,hfee]

/-- The validator accepts exactly the mature refunds, unless the terms of a refund hold and its
maturity height overflows. -/
theorem validateRefund_exact : (validateRefund P blockHeight tx object = ok () ↔
      ∃ input, RefundTerms P tx object input ∧ Mature blockHeight input) ↔
    ¬∃ input, RefundTerms P tx object input ∧ MaturityOverflows blockHeight input := by
  rw [validateRefund_iff]
  constructor
  · rintro hexact ⟨input,hterms,hoverflows⟩
    obtain ⟨other,hother,hmature⟩ := hexact.mp ⟨input,hterms,Or.inr hoverflows⟩
    obtain rfl : input = other := by simpa using hterms.inputs.symm.trans hother.inputs
    exact not_mature_of_overflows hoverflows hmature
  · intro hnever
    constructor
    · rintro ⟨input,hterms,hmature | hoverflows⟩
      · exact ⟨input,hterms,hmature⟩
      · exact absurd ⟨input,hterms,hoverflows⟩ hnever
    · rintro ⟨input,hterms,hmature⟩
      exact ⟨input,hterms,Or.inl hmature⟩

section Sample

def refundedObject : ObjectState where
  objectKey := sampleKey
  genesis := ⟨sampleCreate.txid,1⟩
  founding := true
  status := .active
  createHeight := 0xfffffffffffffffe
  stateSeq := 0
  currentOutpoint := ⟨sampleCreate.txid,1⟩
  keys := sampleKeys
  terminalTxid := Hash32.zero
  chapterCount := 0

/-- A refund of a carrier that was confirmed one block below the greatest height. -/
def sampleRefund : TxView where
  txid := sampleHash 13
  wtxid := sampleHash 14
  version := 2
  lockTime := 0
  inputs := [{ carrierInput sampleKeys sampleCreate.txid 0xfffffffffffffffe with sequence := refundDelay }]
  outputs := [keyOutput 9830 key1G,keyOutput 9830 key2G]

/-- A refund after one block is accepted, since its maturity height does not fit in 64 bits. -/
theorem sampleRefund_immature :
    validateRefund bitcoinPrimitives 0xffffffffffffffff sampleRefund refundedObject = ok () ∧
      ¬∃ input, RefundTerms bitcoinPrimitives sampleRefund refundedObject input ∧
        Mature 0xffffffffffffffff input := by
  refine ⟨by decide +kernel,?_⟩
  rintro ⟨input,hterms,height,hheight,_,hmature⟩
  obtain rfl := (List.cons.inj hterms.inputs).1
  obtain rfl := Option.some.inj hheight
  exact absurd hmature (by decide)

end Sample
end TandemVerifier
