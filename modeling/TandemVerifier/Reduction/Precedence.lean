import TandemVerifier.Core.MarkerGrammar
import TandemVerifier.Reduction.Acceptance
import TandemVerifier.Reduction.Rules

/-! # Reason precedence

Each validator checks exactly the rules of its operation in the order of their codes, so it
reports the violated rule of least code. The shared checks have one lemma each; the
validators are followed step by step, and the inputs and outputs are fixed as soon as their
number is.
-/
namespace TandemVerifier
open Library Library.Outcome
variable {P : Primitives} {state : ChainState} {blockHeight : UInt64} {tx : TxView} {marker : ParsedMarker}
variable {carrier : Option (ℕ × ObjectState)} {α : Type} {rest : List (Rule Reason)}

section Fields
variable {ε : Type} {start : ℕ}

theorem ParsedMarker.bytesAt_length {width : ℕ} (h : start + width ≤ marker.payload.length) :
    (marker.bytesAt start width).length = width := by
  rw [bytesAt,List.length_take,List.length_drop]
  omega

theorem u32At_eq (h : start + 4 ≤ marker.payload.length) : ∃ value : UInt32,
    (marker.u32At start : Outcome ε UInt32) = ok value ∧ value.toNat = marker.natAt start 4 := by
  refine ⟨UInt32.ofNat (marker.natAt start 4),?_,?_⟩
  · rw [ParsedMarker.u32At,slice,if_pos h]
    rfl
  · have hlt := ofLeBytes_lt (marker.bytesAt start 4)
    rw [ParsedMarker.bytesAt_length h] at hlt
    rw [UInt32.toNat_ofNat',ParsedMarker.natAt]
    omega

theorem u64At_eq (h : start + 8 ≤ marker.payload.length) : ∃ value : UInt64,
    (marker.u64At start : Outcome ε UInt64) = ok value ∧ value.toNat = marker.natAt start 8 := by
  refine ⟨UInt64.ofNat (marker.natAt start 8),?_,?_⟩
  · rw [ParsedMarker.u64At,slice,if_pos h]
    rfl
  · have hlt := ofLeBytes_lt (marker.bytesAt start 8)
    rw [ParsedMarker.bytesAt_length h] at hlt
    rw [UInt64.toNat_ofNat',ParsedMarker.natAt]
    omega

theorem hashAt_eq (h : start + 32 ≤ marker.payload.length) : ∃ value : Hash32,
    (marker.hashAt start : Outcome ε Hash32) = ok value ∧ value.toList = marker.bytesAt start 32 := by
  refine ⟨⟨marker.bytesAt start 32,ParsedMarker.bytesAt_length h⟩,?_,rfl⟩
  rw [ParsedMarker.hashAt,slice,if_pos h,ok_bind,expect_eq_ok,ByteVector.tryFrom_eq_some]
  rfl

end Fields

namespace Library.Checks
variable {f : Unit → Outcome Reason α}

theorem header (hrest : HeaderRule tx → Checks rest (f ())) :
    Checks (⟨.badTxVersionOrLocktime,HeaderRule tx⟩ :: rest) (checkTxHeader tx >>= f) :=
  Checks.of_failIf (by simp [HeaderRule]) hrest

theorem outputShape {count : ℕ} (hrest : OutputsRule tx marker count → Checks rest (f ())) :
    Checks (⟨.badOutputCountOrOrder,OutputsRule tx marker count⟩ :: rest)
      (checkOutputShape tx marker count >>= f) :=
  Checks.of_failIf (by simp [OutputsRule,and_assoc]) hrest

theorem provenance (hrest : ProvenanceRule tx blockHeight → Checks rest (f ())) :
    Checks (⟨.unconfirmedOrSameBlockPrevout,ProvenanceRule tx blockHeight⟩ :: rest)
      (checkProvenance tx blockHeight >>= f) :=
  Checks.of_failIf (by simp [ProvenanceRule]) hrest

theorem signatures (hrest : SignatureRule tx → Checks rest (f ())) :
    Checks (⟨.badSignatureOrSighash,SignatureRule tx⟩ :: rest) (checkSignatures tx >>= f) :=
  Checks.of_failIf (by simp [SignatureRule]) hrest

end Library.Checks

section Amounts

theorem filter_pos_eq_none {x : Option UInt64} :
    x.filter (0 < ·) = none ↔ ∀ fee, x = some fee → fee.toNat = 0 := by
  simp only [Option.filter_eq_none_iff,decide_eq_true_eq,UInt64.lt_iff_toNat_lt,UInt64.toNat_zero,
    Nat.not_lt,Nat.le_zero]

/-- A positive difference is missing exactly when nothing is left. -/
theorem positiveSub_eq_none {a b : UInt64} :
    (checkedSub64 a b).filter (0 < ·) = none ↔ a.toNat ≤ b.toNat := by
  rw [filter_pos_eq_none]
  cases hsub : checkedSub64 a b with
  | none =>
    have hlt := checkedSub64_eq_none.mp hsub
    simp only [reduceCtorEq,false_implies,implies_true,true_iff]
    omega
  | some fee =>
    have hsum := checkedSub64_eq_some.mp hsub
    simp only [Option.some.injEq,forall_eq']
    omega

/-- A positive sum is missing exactly when there is nothing to add or it does not fit. -/
theorem positiveAdd_eq_none {a b : UInt64} : (checkedAdd64 a b).filter (0 < ·) = none ↔
    a.toNat + b.toNat = 0 ∨ 2 ^ 64 ≤ a.toNat + b.toNat := by
  rw [filter_pos_eq_none]
  cases hadd : checkedAdd64 a b with
  | none =>
    have hoverflow := checkedAdd64_eq_none.mp hadd
    simp only [reduceCtorEq,false_implies,implies_true,true_iff]
    omega
  | some fee =>
    have hsum := checkedAdd64_eq_some.mp hadd
    have hbound := fee.toNat_lt
    simp only [Option.some.injEq,forall_eq']
    omega

theorem add64_eq {ε : Type} {a b : UInt64} (h : a.toNat + b.toNat < 2 ^ 64) : ∃ c : UInt64,
    (add64 a b : Outcome ε UInt64) = ok c ∧ c.toNat = a.toNat + b.toNat := by
  refine ⟨UInt64.ofNat (a.toNat + b.toNat),?_,?_⟩
  · rw [add64_eq_ok,UInt64.toNat_ofNat']
    omega
  · rw [UInt64.toNat_ofNat']
    omega

theorem halves_eq {ε : Type} (fee : UInt64) : ∃ ceil : UInt64,
    (add64 (fee / 2) (fee % 2) : Outcome ε UInt64) = ok ceil ∧ ceil.toNat = (fee.toNat + 1) / 2 := by
  have hfee := fee.toNat_lt
  have hhalf : (fee / 2).toNat = fee.toNat / 2 := by simp
  have hmod : (fee % 2).toNat = fee.toNat % 2 := by simp
  obtain ⟨ceil,hadd,hceil⟩ := @add64_eq ε (fee / 2) (fee % 2) (by omega)
  exact ⟨ceil,hadd,by omega⟩

end Amounts

section Relations

/-- A statement about the only value of a relation. -/
theorem exists_and_iff {β : Type} {R Q : β → Prop} {value : β} (h : R value)
    (hunique : ∀ other, R other → other = value) : (∃ other, R other ∧ Q other) ↔ Q value := by
  constructor
  · rintro ⟨other,hother,hq⟩
    rw [hunique other hother] at hq
    exact hq
  · exact fun hq => ⟨value,h,hq⟩

theorem PayingKeys.unique {inputs : List InputView} {keys other : KeyPair} (h : PayingKeys P inputs keys)
    (hother : PayingKeys P inputs other) : other = keys := by
  obtain ⟨input0,input1,rfl,h0,h1,hchecked⟩ := h
  obtain ⟨_,_,hinputs,h0',h1',hchecked'⟩ := hother
  simp only [List.cons.injEq,and_true] at hinputs
  obtain ⟨rfl,rfl⟩ := hinputs
  rw [Option.some.inj (h0.symm.trans h0'),Option.some.inj (h1.symm.trans h1')] at hchecked
  exact Option.some.inj (hchecked'.symm.trans hchecked)

theorem debits_iff {input0 input1 : InputView} {output0 output1 change0 change1 : OutputView}
    {debit0 debit1 : ℕ} :
    Debits [input0,input1] [output0,output1,change0,change1] debit0 debit1 ↔
      input0.prevoutValue.toNat = change0.value.toNat + debit0 ∧
        input1.prevoutValue.toNat = change1.value.toNat + debit1 := by
  simp [Debits]

theorem value_eq_zero {output : OutputView} : output.value.toNat = 0 ↔ output.value = 0 := by
  rw [← UInt64.toNat_inj,UInt64.toNat_zero]

theorem carrierValues_iff {output0 output1 : OutputView} {changes : List OutputView}
    (houtputs : tx.outputs = output0 :: output1 :: changes) :
    CarrierValues tx ↔ output0.value = 0 ∧ output1.value = carrierValue := by
  have hvalue : carrierValue.toNat = 20000 := rfl
  rw [← UInt64.toNat_inj,← UInt64.toNat_inj,UInt64.toNat_zero,hvalue]
  simp [CarrierValues,houtputs]

theorem below_floor {output : OutputView} : output.value < changeFloor ↔ output.value.toNat < 1000 :=
  UInt64.lt_iff_toNat_lt

end Relations

section Lists
variable {β : Type}

theorem exists_byte {bytes : Bytes} {i : ℕ} (h : i < bytes.length) : ∃ byte, bytes[i]? = some byte :=
  ⟨_,List.getElem?_eq_getElem h⟩

theorem exists_four {xs : List β} (h : xs.length = 4) : ∃ a b c d, xs = [a,b,c,d] := by
  cases xs with
  | nil => simp at h
  | cons a rest =>
    obtain ⟨b,c,d,rfl⟩ := List.length_eq_three.mp (by simpa using h : rest.length = 3)
    exact ⟨a,b,c,d,rfl⟩

end Lists

section Create
variable {input0 input1 : InputView} {holds : Prop}

/-- The three early returns that read a pair of paying keys. -/
theorem Library.Checks.payingKeys {f : Key33 → Key33 → KeyPair → Outcome Reason α}
    (hneeds : holds → ∃ keys, PayingKeys P [input0,input1] keys)
    (hrest : ∀ keys, PayingKeys P [input0,input1] keys →
      Checks (⟨.badKeyOrderOrBinding,holds⟩ :: rest) (f keys.key0 keys.key1 keys)) :
    Checks (⟨.badKeyOrderOrBinding,holds⟩ :: rest) (do
      let key0 ← okOr (input0.p2wpkhKey P) .badKeyOrderOrBinding
      let key1 ← okOr (input1.p2wpkhKey P) .badKeyOrderOrBinding
      let keys ← okOr (KeyPair.checked P key0 key1) .badKeyOrderOrBinding
      f key0 key1 keys) := by
  have hpaying : holds → ∃ keys : KeyPair, input0.p2wpkhKey P = some keys.key0 ∧
      input1.p2wpkhKey P = some keys.key1 ∧ KeyPair.checked P keys.key0 keys.key1 = some keys := by
    intro h
    obtain ⟨keys,_,_,hinputs,hkeys⟩ := hneeds h
    simp only [List.cons.injEq,and_true] at hinputs
    obtain ⟨rfl,rfl⟩ := hinputs
    exact ⟨keys,hkeys⟩
  refine .of_okOr_part (fun hnone h => ?_) fun key0 hkey0 => ?_
  · obtain ⟨keys,hkey0,_⟩ := hpaying h
    simp [hkey0] at hnone
  refine .of_okOr_part (fun hnone h => ?_) fun key1 hkey1 => ?_
  · obtain ⟨keys,_,hkey1,_⟩ := hpaying h
    simp [hkey1] at hnone
  refine .of_okOr_part (fun hnone h => ?_) fun keys hchecked => ?_
  · obtain ⟨keys,h0,h1,hchecked⟩ := hpaying h
    rw [Option.some.inj (hkey0.symm.trans h0),Option.some.inj (hkey1.symm.trans h1),hchecked] at hnone
    simp at hnone
  obtain ⟨rfl,_⟩ := KeyPair.checked_eq_some.mp hchecked
  exact hrest ⟨key0,key1⟩ ⟨input0,input1,rfl,hkey0,hkey1,hchecked⟩

/-- The two early returns that read the debits. -/
theorem Library.Checks.debits {change0 change1 : OutputView} {f : UInt64 → UInt64 → Outcome Reason α}
    (hneeds : holds → ∃ debit0 debit1, input0.prevoutValue.toNat = change0.value.toNat + debit0 ∧
      input1.prevoutValue.toNat = change1.value.toNat + debit1)
    (hrest : ∀ debit0 debit1 : UInt64, input0.prevoutValue.toNat = change0.value.toNat + debit0.toNat →
      input1.prevoutValue.toNat = change1.value.toNat + debit1.toNat →
      Checks (⟨.nonpositiveOrInvalidFee,holds⟩ :: rest) (f debit0 debit1)) :
    Checks (⟨.nonpositiveOrInvalidFee,holds⟩ :: rest) (do
      let debit0 ← okOr (checkedSub64 input0.prevoutValue change0.value) .nonpositiveOrInvalidFee
      let debit1 ← okOr (checkedSub64 input1.prevoutValue change1.value) .nonpositiveOrInvalidFee
      f debit0 debit1) := by
  refine .of_okOr_part (fun hnone h => ?_) fun debit0 hdebit0 => ?_
  · have hless := checkedSub64_eq_none.mp hnone
    obtain ⟨_,_,_,_⟩ := hneeds h
    omega
  refine .of_okOr_part (fun hnone h => ?_) fun debit1 hdebit1 => ?_
  · have hless := checkedSub64_eq_none.mp hnone
    obtain ⟨_,_,_,_⟩ := hneeds h
    omega
  exact hrest debit0 debit1 (checkedSub64_eq_some.mp hdebit0) (checkedSub64_eq_some.mp hdebit1)

/-- The test of the split: both shares have a common base and the halves of the fee. -/
theorem splitGuard {output0 output1 change0 change1 : OutputView} {debit0 debit1 share0 share1 : UInt64}
    (base fee : ℕ) (houtputs : tx.outputs = [output0,output1,change0,change1])
    (hdebit0 : input0.prevoutValue.toNat = change0.value.toNat + debit0.toNat)
    (hdebit1 : input1.prevoutValue.toNat = change1.value.toNat + debit1.toNat)
    (hshare0 : share0.toNat = base + (fee + 1) / 2) (hshare1 : share1.toNat = base + fee / 2)
    (hsum : debit0.toNat + debit1.toNat = 2 * base + fee) :
    (debit0 != share0 || debit1 != share1 || change0.value < changeFloor || change1.value < changeFloor) =
        false ↔
      (∃ fee, input0.prevoutValue.toNat = change0.value.toNat + (base + (fee + 1) / 2) ∧
        input1.prevoutValue.toNat = change1.value.toNat + (base + fee / 2)) ∧ ChangeFloors tx := by
  simp only [Bool.or_eq_false_iff,bne_eq_false_iff_eq,decide_eq_false_iff_not,below_floor,
    ← UInt64.toNat_inj,ChangeFloors,houtputs,List.drop_succ_cons,List.drop_zero,List.forall_mem_cons,
    List.not_mem_nil,false_implies,implies_true]
  constructor
  · rintro ⟨⟨⟨hsplit0,hsplit1⟩,hfloor0⟩,hfloor1⟩
    exact ⟨⟨fee,by omega,by omega⟩,by omega,by omega,trivial⟩
  · rintro ⟨⟨other,hsplit0,hsplit1⟩,hfloor0,hfloor1,_⟩
    exact ⟨⟨⟨by omega,by omega⟩,by omega⟩,by omega⟩

theorem validateCreate_checks (hlength : marker.payload.length = 40) :
    Checks (createRules P state blockHeight tx marker) (validateCreate P state blockHeight tx marker) := by
  unfold createRules validateCreate
  obtain ⟨kind,hkind⟩ := exists_byte (i := 7) (by omega : 7 < marker.payload.length)
  rw [Checks.index_bind hkind]
  refine .of_failIf (by simp [hkind]) fun _ => ?_
  refine .header fun _ => ?_
  refine .of_failIf (by simp [InputsRule]) fun hinputs => ?_
  obtain ⟨input0,input1,hinputs⟩ := List.length_eq_two.mp hinputs.1
  refine .outputShape fun houtputs => ?_
  obtain ⟨output0,output1,output2,output3,houtputs⟩ := exists_four houtputs.1
  refine .provenance fun _ => ?_
  refine .of_failIf (by simp [PaymentScripts,Option.isSome_iff_ne_none]) fun _ => ?_
  simp only [hinputs,houtputs,index,List.getElem?_cons_zero,List.getElem?_cons_succ,expect,ok_bind]
  refine .payingKeys id fun keys hkeys => ?_
  refine .pass ⟨keys,hkeys⟩ ?_
  refine .signatures fun _ => ?_
  have hvalue : carrierValue.toNat = 20000 := rfl
  refine .of_failIf ?_ fun _ => ?_
  · rw [exists_and_iff hkeys fun other hother => hkeys.unique hother,carrierValues_iff houtputs]
    simp [ScriptsFrom,houtputs,and_assoc]
  -- the debits and their sum, then the fee
  simp only [debits_iff]
  refine .debits (fun h => ?_) fun debit0 debit1 hdebit0 hdebit1 => ?_
  · obtain ⟨other0,other1,hdebits,_⟩ := h
    exact ⟨other0,other1,hdebits⟩
  refine .of_okOr_part (fun hnone => ?_) fun total htotal => ?_
  · have hoverflow := checkedAdd64_eq_none.mp hnone
    rintro ⟨_,_,⟨_,_⟩,_⟩
    omega
  rw [checkedAdd64_eq_some] at htotal
  refine .of_okOr_part (fun hnone => ?_) fun fee hfee => ?_
  · have hnonpositive := positiveSub_eq_none.mp hnone
    rintro ⟨_,_,⟨_,_⟩,_⟩
    omega
  rw [filter_pos_eq_some,checkedSub64_eq_some] at hfee
  have hbound := total.toNat_lt
  refine .pass ⟨debit0.toNat,debit1.toNat,⟨hdebit0,hdebit1⟩,by omega,by omega⟩ ?_
  have hfeeBound := fee.toNat_lt
  have hhalf : (fee / 2).toNat = fee.toNat / 2 := by simp
  have hten : (10000 : UInt64).toNat = 10000 := rfl
  obtain ⟨ceil,hadd,hceil⟩ := @halves_eq Reason fee
  obtain ⟨share0,hadd0,hshare0⟩ := @add64_eq Reason 10000 ceil (by omega)
  obtain ⟨share1,hadd1,hshare1⟩ := @add64_eq Reason 10000 (fee / 2) (by omega)
  rw [hadd,ok_bind,hadd0,ok_bind,hadd1,ok_bind]
  refine .of_failIf ?_ fun _ => ?_
  · exact splitGuard 10000 fee.toNat houtputs hdebit0 hdebit1 (by omega) (by omega) (by omega)
  cases hstatus : state.protocolStatus with
  | awaitingInit => exact Or.inr ⟨by simp,rfl⟩
  | failedInit reason height => exact Or.inr ⟨by simp,rfl⟩
  | active initHeight hOpen hClose =>
    refine .of_failIf ?_ fun _ => ⟨_,rfl⟩
    simp [UInt64.lt_iff_toNat_lt]

end Create

section Transitions
variable {input : InputView} {funding : List InputView}

theorem inputsGuard {count : ℕ} : (tx.inputs.length != count ||
      (tx.inputs.any fun input => input.sequence != rbfSequence) ||
      carrier.any fun spend => spend.1 != 0) = false ↔ InputsRule tx carrier count rbfSequence := by
  cases carrier with
  | none => simp [InputsRule]
  | some spend => simp [InputsRule,and_assoc]

/-- Testing consecutive inputs tests a segment of them. -/
theorem anyIndexed_range' {ε : Type} {test : InputView → Bool} (earlier funding : List InputView) :
    (anyIndexed (earlier ++ funding) test (List.range' earlier.length funding.length) : Outcome ε Bool) =
      ok (funding.any test) := by
  induction funding generalizing earlier with
  | nil => rfl
  | cons input rest ih =>
    have hrest := ih (earlier ++ [input])
    rw [List.append_assoc,List.singleton_append,List.length_append,List.length_singleton] at hrest
    have hget : (earlier ++ input :: rest)[earlier.length]? = some input := by simp
    rw [List.length_cons,List.range'_succ,anyIndexed,Checks.index_bind hget,hrest,List.any_cons]
    cases test input <;> rfl

theorem Library.Checks.transitionScripts {f : Unit → Outcome Reason α} {indexes : List ℕ}
    (hinputs : tx.inputs = input :: funding) (hindexes : indexes = List.range' 1 funding.length)
    (hrest : TransitionScripts tx → Checks rest (f ())) :
    Checks (⟨.badInputScript,TransitionScripts tx⟩ :: rest)
      (checkTransitionInputScripts tx [0] indexes >>= f) := by
  have hfirst : (anyIndexed tx.inputs (fun input => input.carrierRevealedKeys.isNone) [0] :
      Outcome Reason Bool) = ok input.carrierRevealedKeys.isNone := by
    rw [anyIndexed,Checks.index_bind (a := input) (by simp [hinputs]),anyIndexed]
    cases input.carrierRevealedKeys.isNone <;> rfl
  have hothers : (anyIndexed tx.inputs (fun input => input.p2wpkhRevealedKey.isNone) indexes :
      Outcome Reason Bool) = ok (funding.any fun input => input.p2wpkhRevealedKey.isNone) := by
    rw [hinputs,hindexes]
    exact anyIndexed_range' [input] funding
  have hcheck : checkTransitionInputScripts tx [0] indexes = failIf (input.carrierRevealedKeys.isNone ||
      funding.any fun input => input.p2wpkhRevealedKey.isNone) .badInputScript := by
    rw [checkTransitionInputScripts,hfirst,hothers]
    cases input.carrierRevealedKeys.isNone <;> rfl
  rw [hcheck]
  refine .of_failIf ?_ hrest
  simp [TransitionScripts,PaymentScripts,hinputs,Option.isSome_iff_ne_none]

/-- The active predecessor and its next sequence number. -/
theorem Library.Checks.predecessor {f : ObjectState → UInt32 → Outcome Reason α}
    (hinput : tx.inputs[0]? = some input) (hlength : 44 ≤ marker.payload.length)
    (hrest : ∀ i object sequence, carrier = some (i,object) → Checks rest (f object sequence)) :
    Checks (⟨.predecessorNotActive,PredecessorRule tx carrier⟩ ::
        ⟨.badStateSequence,SequenceRule marker carrier⟩ :: rest) (do
      let object ← okOr (carrier.map Prod.snd) .predecessorNotActive
      failIf (input.prevout != object.currentOutpoint) .predecessorNotActive
      let sequence ← marker.u32At 40
      failIf (checkedAdd32 object.stateSeq 1 != some sequence) .badStateSequence
      f object sequence) := by
  cases hcarrier : carrier with
  | none => exact Or.inr ⟨by simp [PredecessorRule],rfl⟩
  | some spend =>
    obtain ⟨i,object⟩ := spend
    obtain ⟨sequence,hread,hsequence⟩ := @u32At_eq marker Reason 40 (by omega)
    rw [Option.map_some,okOr,ok_bind,hread,ok_bind]
    refine .of_failIf (by simp [PredecessorRule,hinput]) fun _ => ?_
    refine .of_failIf ?_ fun _ => hrest i object sequence hcarrier
    simp only [bne_eq_false_iff_eq,checkedAdd32_eq_some,SequenceRule,Option.mem_def,Option.some.injEq,
      exists_eq_left']
    rw [← hsequence]
    constructor
    · exact fun h => h.symm
    · exact fun h => h.symm

theorem revealsCarrier_iff {keys : KeyPair} (hinputs : tx.inputs = input :: funding) :
    RevealsCarrier P tx keys ↔ input.carrierKeys P = some keys := by
  simp [RevealsCarrier,hinputs]

theorem sponsors_iff {sponsorInput : InputView} {sponsor : Key33} (hinputs : tx.inputs = [input,sponsorInput]) :
    Sponsors P tx sponsor ↔ sponsorInput.p2wpkhKey P = some sponsor := by
  simp [Sponsors,hinputs]

theorem successorScript_iff {output0 output1 : OutputView} {changes : List OutputView} {keys : KeyPair}
    (houtputs : tx.outputs = output0 :: output1 :: changes) :
    SuccessorScript P tx keys ↔ output1.scriptPubkey = keys.carrierScript P := by
  simp [SuccessorScript,houtputs]

/-- The keys of a spent carrier are the revealed ones, and these pass a test of their own. -/
theorem ownerGuard {keys : KeyPair} {fails : KeyPair → Bool} :
    (((carrier.map Prod.snd).any fun value => value.keys != keys || fails value.keys) ||
      (carrier.map Prod.snd).isNone && fails keys) = false ↔
      (∀ spend ∈ carrier, spend.2.keys = keys) ∧ fails keys = false := by
  cases carrier with
  | none => simp
  | some spend =>
    simp only [Option.map_some,Option.any_some,Option.isNone_some,Bool.false_and,Bool.or_false,
      Bool.or_eq_false_iff,bne_eq_false_iff_eq,Option.mem_def,Option.some.injEq,forall_eq']
    constructor
    · rintro ⟨rfl,htest⟩
      exact ⟨rfl,htest⟩
    · rintro ⟨rfl,htest⟩
      exact ⟨rfl,htest⟩

theorem validateMark_checks (hlength : marker.payload.length = 78) :
    Checks (markRules P blockHeight tx marker carrier) (validateMark P blockHeight tx marker carrier) := by
  unfold markRules validateMark
  obtain ⟨kind,hkind⟩ := exists_byte (i := 7) (by omega : 7 < marker.payload.length)
  obtain ⟨chapterKind,hchapter⟩ := exists_byte (i := 44) (by omega : 44 < marker.payload.length)
  obtain ⟨reserved,hreserved⟩ := exists_byte (i := 45) (by omega : 45 < marker.payload.length)
  simp only [hkind,hchapter,hreserved,index,expect,ok_bind,Option.some.injEq,exists_eq_left']
  refine .of_failIf_part (fun hguard h => by simp [h.1] at hguard) fun hfirst => ?_
  refine .of_failIf_part (fun hguard h => ?_) fun hsecond => ?_
  · exact absurd h.2.1 (by simpa [UInt8.lt_iff_toNat_lt] using hguard)
  refine .of_failIf_part (fun hguard h => by simp [h.2.2] at hguard) fun hthird => ?_
  refine .pass ⟨by simpa using hfirst,by simpa [UInt8.lt_iff_toNat_lt] using hsecond,by simpa using hthird⟩ ?_
  refine .header fun _ => ?_
  refine .of_failIf inputsGuard fun hrule => ?_
  obtain ⟨input0,input1,hinputs⟩ := List.length_eq_two.mp hrule.1
  refine .outputShape fun houtputs => ?_
  obtain ⟨output0,output1,output2,houtputs⟩ := List.length_eq_three.mp houtputs.1
  refine .provenance fun _ => ?_
  refine .transitionScripts hinputs rfl fun _ => ?_
  simp only [revealsCarrier_iff hinputs,sponsors_iff hinputs]
  have hfirstInput : tx.inputs[0]? = some input0 := by simp [hinputs]
  simp only [hinputs,houtputs,List.getElem?_cons_zero,List.getElem?_cons_succ,ok_bind]
  refine .of_okOr_part (fun hnone => by simp [hnone]) fun keys hkeys => ?_
  refine .of_okOr_part (fun hnone => by simp [hnone]) fun sponsor hsponsor => ?_
  simp only [hkeys,hsponsor,Option.some.injEq,exists_eq_left',exists_and_left]
  refine .of_failIf ?_ fun _ => ?_
  · rw [@ownerGuard carrier keys fun owner => !owner.contains sponsor,Bool.not_eq_false']
  refine .signatures fun _ => ?_
  refine .of_failIf (by simp [carrierValues_iff houtputs,ScriptsFrom,houtputs,and_assoc]) fun _ => ?_
  refine .of_okOr_part (fun hnone => ?_) fun fee hfee => ?_
  · have hnonpositive := positiveSub_eq_none.mp hnone
    simpa using hnonpositive
  rw [filter_pos_eq_some,checkedSub64_eq_some] at hfee
  refine .pass ⟨input1,rfl,output2,rfl,by omega⟩ ?_
  refine .of_failIf (by simp [below_floor,ChangeFloors,houtputs]) fun _ => ?_
  refine .predecessor hfirstInput (by omega) fun i object sequence hcarrier => ?_
  refine .of_failIf (by simp [hcarrier,successorScript_iff houtputs]) fun _ => ?_
  obtain ⟨commitment,hread,hcommitment⟩ := @hashAt_eq marker Reason 46 (by omega)
  rw [hread,ok_bind]
  refine .of_failIf ?_ fun _ => ⟨_,rfl⟩
  rw [← hcommitment,Hash32.isZero,beq_eq_false_iff_ne]
  exact (not_congr ByteVector.toList_inj).symm

theorem validateRotate_checks (hlength : marker.payload.length = 44) :
    Checks (rotateRules P blockHeight tx marker carrier) (validateRotate P blockHeight tx marker carrier) := by
  unfold rotateRules validateRotate
  obtain ⟨kind,hkind⟩ := exists_byte (i := 7) (by omega : 7 < marker.payload.length)
  rw [Checks.index_bind hkind]
  refine .of_failIf (by simp [hkind]) fun _ => ?_
  refine .header fun _ => ?_
  refine .of_failIf inputsGuard fun hrule => ?_
  obtain ⟨input0,input1,input2,hinputs⟩ := List.length_eq_three.mp hrule.1
  refine .outputShape fun houtputs => ?_
  obtain ⟨output0,output1,output2,output3,houtputs⟩ := exists_four houtputs.1
  refine .provenance fun _ => ?_
  refine .transitionScripts hinputs rfl fun _ => ?_
  have hfirstInput : tx.inputs[0]? = some input0 := by simp [hinputs]
  simp only [revealsCarrier_iff hinputs]
  simp only [hinputs,houtputs,index,List.getElem?_cons_zero,List.getElem?_cons_succ,expect,ok_bind,
    List.drop_succ_cons,List.drop_zero]
  refine .of_okOr_part (fun hnone => by simp [hnone]) fun oldKeys hold => ?_
  simp only [hold,Option.some.injEq,exists_eq_left',exists_and_left]
  refine .payingKeys (fun h => ?_) fun keys hkeys => ?_
  · obtain ⟨keys,hkeys,_⟩ := h
    exact ⟨keys,hkeys⟩
  rw [exists_and_iff hkeys fun other hother => hkeys.unique hother]
  refine .of_failIf ?_ fun _ => ?_
  · rw [@ownerGuard carrier oldKeys fun owner => owner == keys,beq_eq_false_iff_ne]
  refine .signatures fun _ => ?_
  rw [exists_and_iff hkeys fun other hother => hkeys.unique hother,
    exists_and_iff hkeys fun other hother => hkeys.unique hother]
  refine .of_failIf (by simp [carrierValues_iff houtputs,ScriptsFrom,houtputs,and_assoc]) fun _ => ?_
  simp only [debits_iff]
  refine .debits (fun h => ?_) fun debit0 debit1 hdebit0 hdebit1 => ?_
  · obtain ⟨other0,other1,hdebits,_⟩ := h
    exact ⟨other0,other1,hdebits⟩
  refine .of_okOr_part (fun hnone => ?_) fun fee hfee => ?_
  · have hinvalid := positiveAdd_eq_none.mp hnone
    rintro ⟨_,_,⟨_,_⟩,_⟩
    omega
  rw [filter_pos_eq_some,checkedAdd64_eq_some] at hfee
  have hfeeBound := fee.toNat_lt
  have hhalf : (fee / 2).toNat = fee.toNat / 2 := by simp
  refine .pass ⟨debit0.toNat,debit1.toNat,⟨hdebit0,hdebit1⟩,by omega,by omega⟩ ?_
  obtain ⟨ceil,hadd,hceil⟩ := @halves_eq Reason fee
  rw [hadd,ok_bind]
  refine .of_failIf ?_ fun _ => ?_
  · have hshare0 : ceil.toNat = 0 + (fee.toNat + 1) / 2 := by omega
    have hshare1 : (fee / 2).toNat = 0 + fee.toNat / 2 := by omega
    have hguard := splitGuard 0 fee.toNat houtputs hdebit0 hdebit1 hshare0 hshare1 (by omega)
    simpa using hguard
  refine .predecessor hfirstInput (by omega) fun i object sequence hcarrier => ?_
  refine .of_failIf (by simp [successorScript_iff houtputs]) fun _ => ⟨_,rfl⟩

theorem payouts_iff {output0 output1 output2 : OutputView} {value0 value1 : ℕ}
    (houtputs : tx.outputs = [output0,output1,output2]) :
    Payouts tx value0 value1 ↔ output1.value.toNat = value0 ∧ output2.value.toNat = value1 := by
  simp [Payouts,houtputs]

theorem validateClose_checks (hlength : marker.payload.length = 80) :
    Checks (closeRules P blockHeight tx marker carrier) (validateClose P blockHeight tx marker carrier) := by
  unfold closeRules validateClose
  obtain ⟨kind,hkind⟩ := exists_byte (i := 7) (by omega : 7 < marker.payload.length)
  obtain ⟨closeKind,hclose⟩ := exists_byte (i := 44) (by omega : 44 < marker.payload.length)
  have hreserved : (slice marker.payload 45 3 : Outcome Reason Bytes) = ok (marker.bytesAt 45 3) := by
    rw [slice,if_pos (by omega)]
    rfl
  rw [hreserved]
  simp only [hkind,hclose,index,expect,ok_bind,Option.some.injEq,exists_eq_left']
  refine .of_failIf_part (fun hguard h => by simp [h.1] at hguard) fun hfirst => ?_
  refine .of_failIf_part (fun hguard h => ?_) fun hsecond => ?_
  · exact absurd h.2.1 (by simpa [UInt8.lt_iff_toNat_lt] using hguard)
  refine .of_failIf_part (fun hguard h => by simp [h.2.2] at hguard) fun hthird => ?_
  refine .pass ⟨by simpa using hfirst,by simpa [UInt8.lt_iff_toNat_lt] using hsecond,by simpa using hthird⟩ ?_
  refine .header fun _ => ?_
  -- the number of inputs is checked before the first of them is read
  refine .of_failIf_part (fun hguard h => by simp [h.1] at hguard) fun hcount => ?_
  obtain ⟨input,hinputs⟩ := List.length_eq_one_iff.mp (by simpa using hcount : tx.inputs.length = 1)
  have hfirstInput : tx.inputs[0]? = some input := by simp [hinputs]
  simp only [hfirstInput,ok_bind]
  refine .of_failIf ?_ fun _ => ?_
  · cases carrier with
    | none => simp [InputsRule,hinputs]
    | some spend => simp [InputsRule,hinputs]
  refine .outputShape fun houtputs => ?_
  obtain ⟨output0,output1,output2,houtputs⟩ := List.length_eq_three.mp houtputs.1
  refine .provenance fun _ => ?_
  refine .transitionScripts hinputs rfl fun _ => ?_
  simp only [revealsCarrier_iff hinputs,payouts_iff houtputs]
  simp only [houtputs,List.getElem?_cons_zero,List.getElem?_cons_succ,ok_bind]
  refine .of_okOr_part (fun hnone => by simp [hnone]) fun keys hkeys => ?_
  simp only [hkeys,Option.some.injEq,exists_eq_left']
  refine .of_failIf ?_ fun _ => ?_
  · cases carrier with
    | none => simp
    | some spend => simp
  refine .signatures fun _ => ?_
  refine .of_failIf (by simp [value_eq_zero,ScriptsFrom,houtputs,and_assoc]) fun _ => ?_
  have hvalue : carrierValue.toNat = 20000 := rfl
  refine .of_okOr_part (fun hnone => ?_) fun total htotal => ?_
  · have hoverflow := checkedAdd64_eq_none.mp hnone
    rintro ⟨_,_,⟨_,_⟩,_⟩
    omega
  rw [checkedAdd64_eq_some] at htotal
  refine .of_okOr_part (fun hnone => ?_) fun fee hfee => ?_
  · have hnonpositive := positiveSub_eq_none.mp hnone
    rintro ⟨_,_,⟨_,_⟩,_⟩
    omega
  rw [filter_pos_eq_some,checkedSub64_eq_some] at hfee
  refine .pass ⟨output1.value.toNat,output2.value.toNat,⟨rfl,rfl⟩,by omega⟩ ?_
  refine .of_failIf ?_ fun _ => ?_
  · simp only [Bool.or_eq_false_iff,beq_eq_false_iff_ne,bne_eq_false_iff_eq,ne_eq,← UInt64.toNat_inj,
      UInt64.toNat_zero]
    constructor
    · rintro ⟨hpositive,hequal⟩
      exact ⟨output1.value.toNat,⟨rfl,hequal.symm⟩,Nat.pos_of_ne_zero hpositive⟩
    · rintro ⟨value,⟨h1,h2⟩,hpositive⟩
      exact ⟨by omega,by omega⟩
  refine .predecessor hfirstInput (by omega) fun i object sequence hcarrier => ?_
  obtain ⟨commitment,hread,_⟩ := @hashAt_eq marker Reason 48 (by omega)
  rw [hread]
  exact ⟨_,rfl⟩

end Transitions

section Single
variable {binding : Binding} {candidate : MarkerCandidate}

theorem markerCandidates_payload (h : candidate ∈ markerCandidates tx binding)
    (hcomplete : candidate.payloadComplete = true) : candidate.payload.length = candidate.declaredLen := by
  simp only [markerCandidates,List.mem_filterMap,Option.bind_eq_bind,Option.bind_eq_some_iff] at h
  obtain ⟨entry,_,vout,_,found,hfound,hkeep⟩ := h
  split at hkeep
  · simp at hkeep
  · obtain rfl := Option.some.inj hkeep
    obtain ⟨opcode,declaredLen,prefixLen,minimalPush,_,_,_,_,_,_,rfl⟩ := findMarkerCandidate_eq_some.mp hfound
    simp only [decide_eq_true_eq] at hcomplete
    simp only [List.length_take,List.length_drop]
    omega

theorem parse_checks (hmem : candidate ∈ markerCandidates tx binding) :
    Checks [⟨.badMarkerEncodingOrLength,candidate.WellEncoded⟩] candidate.parse := by
  unfold MarkerCandidate.parse
  refine .of_failIf_part (fun hguard h => ?_) fun hguard => ?_
  · simp [h.prefixComplete,h.lower,h.upper,h.payloadComplete,h.noTrailingBytes,h.minimalPush] at hguard
  simp only [Bool.or_eq_false_iff,Bool.not_eq_false',Bool.and_eq_true,decide_eq_true_eq] at hguard
  obtain ⟨⟨⟨⟨hopening,hlower,hupper⟩,hcomplete⟩,htrailing⟩,hminimal⟩ := hguard
  have hpayload := markerCandidates_payload hmem hcomplete
  obtain ⟨version,hversion⟩ := exists_byte (i := 4) (by omega : 4 < candidate.payload.length)
  obtain ⟨network,hnetwork⟩ := exists_byte (i := 5) (by omega : 5 < candidate.payload.length)
  obtain ⟨opcodeByte,hopcode⟩ := exists_byte (i := 6) (by omega : 6 < candidate.payload.length)
  rw [Checks.index_bind hversion,Checks.index_bind hnetwork,Checks.index_bind hopcode]
  have hspelled : candidate.spelled.opcode = Opcode.fromByte opcodeByte := by
    simp [MarkerCandidate.spelled,hopcode]
  refine .of_failIf ?_ fun _ => ⟨_,rfl⟩
  constructor
  · intro hlength
    refine ⟨hopening,hlower,hupper,hcomplete,htrailing,hminimal,?_⟩
    intro opcode hknown
    rw [← hspelled,hknown] at hlength
    simpa using (bne_eq_false_iff_eq.mp hlength).symm
  · intro hencoded
    rw [← hspelled]
    cases hcase : candidate.spelled.opcode with
    | none => rfl
    | some opcode => simpa using (hencoded.length opcode hcase).symm

theorem parse_length {opcode : Opcode} (hparse : candidate.parse = ok marker)
    (hopcode : marker.opcode = some opcode) : marker.payload.length = opcode.payloadLen := by
  obtain ⟨_,_,_,_,_,_,_,_,_,_,_,hpayload,hexact⟩ := parse_eq_ok.mp hparse
  rw [hpayload]
  exact hexact opcode hopcode

theorem parse_spelled (h : candidate.parse = ok marker) : marker = candidate.spelled := by
  obtain ⟨_,_,_,_,_,_,hvout,hversion,hnetwork,hbyte,hopcode,hpayload,_⟩ := parse_eq_ok.mp h
  cases marker
  simp only at hvout hversion hnetwork hbyte hopcode hpayload
  subst hvout hopcode hpayload
  simp [MarkerCandidate.spelled,hversion,hnetwork,hbyte]

theorem Library.Checks.namespaceRule {opcode : Opcode} {f : Unit → Outcome Reason α}
    (hopcode : marker.opcode = some opcode) (hlength : marker.payload.length = opcode.payloadLen)
    (hrest : Checks rest (f ())) :
    Checks (⟨.wrongNamespace,marker.opcode = some .init ∨
        marker.bytesAt 8 32 = (binding.namespace P).toList⟩ :: rest)
      (checkNamespace P marker opcode binding >>= f) := by
  rw [checkNamespace]
  by_cases hinit : opcode = .init
  · rw [if_pos hinit]
    exact .pass (Or.inl (by rw [hopcode,hinit])) hrest
  · have hlong : 8 + 32 ≤ marker.payload.length := by
      cases opcode with
      | init => exact absurd rfl hinit
      | create => simp [hlength,Opcode.payloadLen]
      | mark => simp [hlength,Opcode.payloadLen]
      | rotate => simp [hlength,Opcode.payloadLen]
      | close => simp [hlength,Opcode.payloadLen]
    obtain ⟨ns,hread,hns⟩ := @hashAt_eq marker Reason 8 hlong
    rw [if_neg hinit,hread,ok_bind]
    refine .of_failIf ?_ fun _ => hrest
    rw [← hns,ByteVector.toList_inj,bne_eq_false_iff_eq,hopcode]
    simp [hinit]

theorem validateSingle_checks
    (hlength : ∀ opcode, marker.opcode = some opcode → marker.payload.length = opcode.payloadLen) :
    Checks (markerRules P state marker ++ operationRules P state blockHeight tx marker carrier marker.opcode)
      (validateSingle P state blockHeight tx marker carrier) := by
  unfold markerRules validateSingle
  refine .of_failIf (by simp) fun _ => ?_
  refine .of_failIf (by simp) fun _ => ?_
  refine .of_okOr_part (fun hnone => by simp [hnone]) fun opcode hopcode => ?_
  refine .pass (by simp [hopcode]) ?_
  refine .namespaceRule hopcode (hlength opcode hopcode) ?_
  rw [hopcode]
  cases opcode with
  | init => exact Or.inr ⟨id,rfl⟩
  | create => exact validateCreate_checks (hlength _ hopcode)
  | mark => exact validateMark_checks (hlength _ hopcode)
  | rotate => exact validateRotate_checks (hlength _ hopcode)
  | close => exact validateClose_checks (hlength _ hopcode)

theorem single_checks (hmem : candidate ∈ markerCandidates tx binding) :
    Checks (singleRules P state blockHeight tx carrier candidate)
      (candidate.parse >>= fun marker => validateSingle P state blockHeight tx marker carrier) := by
  refine .bind (parse_checks hmem) fun marker hparse => ?_
  obtain rfl := parse_spelled hparse
  exact validateSingle_checks fun _ => parse_length hparse

end Single

section Init
variable {binding : Binding} {candidate : MarkerCandidate}

/-- The announced window is read with the three fields that every INIT fixes. -/
theorem Library.Checks.fixedFields {f : UInt32 → UInt32 → Outcome Reason α}
    (hopcode : marker.opcode = some .init) (hlength : marker.payload.length = 59)
    (hrest : ∀ hOpen hClose : UInt32, hOpen.toNat = marker.natAt 7 4 → hClose.toNat = marker.natAt 11 4 →
      Checks rest (f hOpen hClose)) :
    Checks (⟨.unsupportedOrReservedField,marker.opcode = some .init ∧ marker.natAt 15 8 = 20000 ∧
        marker.natAt 23 4 = 52560 ∧ marker.bytesAt 27 32 = binding.specHash.toList⟩ :: rest) (do
      let hOpen ← marker.u32At 7
      let hClose ← marker.u32At 11
      let value ← marker.u64At 15
      failIf (value != carrierValue) .unsupportedOrReservedField
      let delay ← marker.u32At 23
      failIf (delay != refundDelay) .unsupportedOrReservedField
      let spec ← marker.hashAt 27
      failIf (spec != binding.specHash) .unsupportedOrReservedField
      f hOpen hClose) := by
  obtain ⟨hOpen,hreadOpen,hopen⟩ := @u32At_eq marker Reason 7 (by omega)
  obtain ⟨hClose,hreadClose,hclose⟩ := @u32At_eq marker Reason 11 (by omega)
  obtain ⟨value,hreadValue,hvalue⟩ := @u64At_eq marker Reason 15 (by omega)
  obtain ⟨delay,hreadDelay,hdelay⟩ := @u32At_eq marker Reason 23 (by omega)
  obtain ⟨spec,hreadSpec,hspec⟩ := @hashAt_eq marker Reason 27 (by omega)
  rw [hreadOpen,ok_bind,hreadClose,ok_bind,hreadValue,ok_bind,hreadDelay,ok_bind,hreadSpec,ok_bind]
  rw [← hvalue,← hdelay,← hspec]
  have hfixed : carrierValue.toNat = 20000 ∧ refundDelay.toNat = 52560 := ⟨rfl,rfl⟩
  refine .of_failIf_part (fun hguard h => ?_) fun hvalueOk => ?_
  · rw [bne_iff_ne,ne_eq,← UInt64.toNat_inj] at hguard
    omega
  refine .of_failIf_part (fun hguard h => ?_) fun hdelayOk => ?_
  · rw [bne_iff_ne,ne_eq,← UInt32.toNat_inj] at hguard
    omega
  refine .of_failIf_part (fun hguard h => ?_) fun hspecOk => ?_
  · rw [bne_iff_ne,ne_eq,← ByteVector.toList_inj] at hguard
    exact hguard h.2.2.2
  rw [bne_eq_false_iff_eq] at hvalueOk hdelayOk hspecOk
  subst hvalueOk hdelayOk hspecOk
  exact .pass ⟨hopcode,hfixed.1,hfixed.2,rfl⟩ (hrest hOpen hClose hopen hclose)

/-- The window that INIT announces, in the natural numbers. -/
theorem windowGuard {hOpen hClose : UInt32} {value : α} :
    Checks [⟨Reason.badHeightOrPhase,hClose.toNat = hOpen.toNat + 4320 ∧
        blockHeight.toNat + 1008 ≤ hOpen.toNat⟩] (do
        let expectedClose ← okOr (checkedAdd32 hOpen foundingWindow) .badHeightOrPhase
        let initHeight ← okOr (u32TryFrom blockHeight.toNat) .badHeightOrPhase
        let earliestOpen ← okOr (checkedAdd32 initHeight initLead) .badHeightOrPhase
        failIf (expectedClose != hClose || hOpen < earliestOpen) .badHeightOrPhase
        pure value) := by
  have hwindow : foundingWindow.toNat = 4320 := rfl
  have hlead : initLead.toNat = 1008 := rfl
  have hopenBound := hOpen.toNat_lt
  have hcloseBound := hClose.toNat_lt
  refine .of_okOr_part (fun hnone => ?_) fun expectedClose hexpected => ?_
  · have hoverflow := checkedAdd32_eq_none.mp hnone
    omega
  rw [checkedAdd32_eq_some] at hexpected
  refine .of_okOr_part (fun hnone => ?_) fun initHeight hheight => ?_
  · have hoverflow := u32TryFrom_eq_none.mp hnone
    omega
  rw [u32TryFrom_eq_some] at hheight
  refine .of_okOr_part (fun hnone => ?_) fun earliestOpen hearliest => ?_
  · have hoverflow := checkedAdd32_eq_none.mp hnone
    omega
  rw [checkedAdd32_eq_some] at hearliest
  refine .of_failIf ?_ fun _ => ⟨value,rfl⟩
  rw [Bool.or_eq_false_iff,bne_eq_false_iff_eq,decide_eq_false_iff_not,UInt32.lt_iff_toNat_lt,
    ← UInt32.toNat_inj]
  omega

theorem validateConfiguredInit_checks :
    Checks (initRules P blockHeight tx binding) (validateConfiguredInit P binding blockHeight tx) := by
  unfold initRules validateConfiguredInit
  cases hcandidates : markerCandidates tx binding with
  | nil => exact .pass (by simp) (Or.inr ⟨by simp,rfl⟩)
  | cons candidate others =>
    cases others with
    | cons other others => exact Or.inr ⟨by simp,rfl⟩
    | nil =>
      have hmem : candidate ∈ markerCandidates tx binding := by simp [hcandidates]
      simp only [List.mem_singleton,exists_eq_left]
      refine .pass (by simp) ?_
      change Checks _ (candidate.parse >>= _)
      refine .bind (parse_checks hmem) fun marker hparse => ?_
      obtain rfl := parse_spelled hparse
      unfold validateMarkerHeader
      simp only [bind_assoc]
      refine .of_failIf (by simp) fun _ => ?_
      refine .of_failIf (by simp) fun _ => ?_
      refine .of_okOr_part (fun hnone => by simp [hnone]) fun opcode hopcode => ?_
      refine .pass (by simp [hopcode]) ?_
      -- the other fields of the same rule can be read once the opcode is INIT
      refine .of_failIf_part (fun hguard h => ?_) fun hinit => ?_
      · rw [hopcode] at h
        simp [Option.some.inj h.1] at hguard
      obtain rfl : opcode = .init := by simpa using hinit
      have hlength : candidate.spelled.payload.length = 59 := parse_length hparse hopcode
      rw [checkNamespace,if_pos rfl,pure_eq_ok,ok_bind]
      refine .fixedFields hopcode hlength fun hOpen hClose hopen hclose => ?_
      rw [← hopen,← hclose]
      refine .of_failIf (by simp [HeaderRule]) fun _ => ?_
      refine .of_failIf_part (fun hguard h => by simp [h.1] at hguard) fun hcount => ?_
      obtain ⟨input,hinputs⟩ := List.length_eq_one_iff.mp (by simpa using hcount : tx.inputs.length = 1)
      have hinput : tx.inputs[0]? = some input := by simp [hinputs]
      rw [Checks.index_bind hinput]
      refine .of_failIf (by simp [InputsRule,hinputs]) fun _ => ?_
      refine .of_failIf (by simp [OutputsRule,and_assoc]) fun hshape => ?_
      obtain ⟨output0,output1,houtputs⟩ := List.length_eq_two.mp hshape.1
      have houtput0 : tx.outputs[0]? = some output0 := by simp [houtputs]
      have houtput1 : tx.outputs[1]? = some output1 := by simp [houtputs]
      simp only [ProvenanceRule,PaymentScripts,SignatureRule,hinputs,houtput0,houtput1,List.mem_singleton,
        forall_eq,exists_eq_left,Option.some.injEq,exists_eq_left']
      refine .of_failIf (by simp) fun _ => ?_
      refine .of_failIf (by simp [Option.isSome_iff_ne_none]) fun _ => ?_
      refine .of_okOr_part (fun hnone => by simp [hnone]) fun key hkey => ?_
      refine .pass (by simp [hkey]) ?_
      refine .of_failIf (by simp) fun _ => ?_
      rw [Checks.index_bind houtput0,Checks.index_bind houtput1]
      refine .of_failIf (by simp [hkey,value_eq_zero,ScriptsFrom,houtputs]) fun _ => ?_
      refine .of_okOr_part (fun hnone => ?_) fun fee hfee => ?_
      · have hnonpositive := positiveSub_eq_none.mp hnone
        omega
      rw [filter_pos_eq_some,checkedSub64_eq_some] at hfee
      refine .pass (by omega) ?_
      refine .of_failIf (by simp [below_floor]) fun _ => ?_
      exact windowGuard

end Init
end TandemVerifier
