import TandemVerifier.Reduction.Deployment
import TandemVerifier.Reduction.EventOrder
import TandemVerifier.Reduction.NoPanic

/-! # The reason that a transaction reports

A transaction with one candidate and at most one carrier reports the violated rule of least
code. The reasons that concern the number of candidates and of carriers come before it, in
this order, and a transaction without a candidate is judged as a refund.
-/
namespace TandemVerifier
open Library Library.Outcome
variable {P : Primitives} {state state' : ChainState} {block : BlockView} {tx : TxView}
variable {txIndex : UInt32} {events : List Event}

section Single
variable {binding : Binding} {candidate : MarkerCandidate} {carrier : Option (ℕ × ObjectState)}
variable {blockHeight : UInt64} {marker : ParsedMarker}

/-- The position of a reason in the order of the checks. -/
def Reason.rank (reason : Reason) : ℕ := reason.code.toNat

theorem singleRules_sorted : ((singleRules P state blockHeight tx carrier candidate).map Rule.reason).Pairwise
    fun a b => a.rank < b.rank := by
  unfold singleRules markerRules
  cases candidate.spelled.opcode with
  | none =>
    simp only [operationRules,List.append_nil,List.cons_append,List.nil_append,List.map_cons,List.map_nil]
    decide
  | some opcode =>
    cases opcode with
    | init =>
      simp only [operationRules,List.cons_append,List.nil_append,List.map_cons,List.map_nil]
      decide
    | create =>
      simp only [operationRules,createRules,List.cons_append,List.nil_append,List.map_cons,List.map_nil]
      decide
    | mark =>
      simp only [operationRules,markRules,List.cons_append,List.nil_append,List.map_cons,List.map_nil]
      decide
    | rotate =>
      simp only [operationRules,rotateRules,List.cons_append,List.nil_append,List.map_cons,List.map_nil]
      decide
    | close =>
      simp only [operationRules,closeRules,List.cons_append,List.nil_append,List.map_cons,List.map_nil]
      decide

theorem initRules_sorted :
    ((initRules P blockHeight tx binding).map Rule.reason).Pairwise fun a b => a.rank < b.rank := by
  simp only [initRules,List.map_cons,List.map_nil]
  decide

/-- The validation of the only candidate of a transaction: parse it, then check its operation. -/
def validateCandidate (P : Primitives) (state : ChainState) (blockHeight : UInt64) (tx : TxView)
    (candidate : MarkerCandidate) (carrier : Option (ℕ × ObjectState)) :
    Outcome Reason ValidatedOperation :=
  candidate.parse >>= fun marker => validateSingle P state blockHeight tx marker carrier

theorem validateCandidate_leastViolated (hmem : candidate ∈ markerCandidates tx binding) :
    LeastViolated Reason.rank (singleRules P state blockHeight tx carrier candidate)
      (validateCandidate P state blockHeight tx candidate carrier) :=
  (single_checks hmem).leastViolated singleRules_sorted

end Single

section Transaction

/-- Every event of a rejected transaction names the reason. -/
def RejectedFor (events : List Event) (reason : Reason) : Prop :=
  events ≠ [] ∧ ∀ event ∈ events, event.reason = reason ∧ event.validityClass ≠ .validOperation

/-- One input and two outputs, the shape that is judged as a refund. -/
def RefundShape (tx : TxView) : Prop := tx.inputs.length = 1 ∧ tx.outputs.length = 2

/-- What the events of a transaction report; its candidates and the carriers it spends decide
which case applies, and no two cases apply together. -/
inductive Reported (P : Primitives) (state : ChainState) (block : BlockView) (tx : TxView)
    (txIndex : UInt32) (events : List Event) : Prop
  | multipleMarkers (hcandidates : 1 < (markerCandidates tx state.binding).length)
      (hrejected : RejectedFor events .multipleMarkers)
  | multipleCarriers (hcandidates : (markerCandidates tx state.binding).length ≤ 1)
      (hcarriers : 1 < (carrierSpends state tx).length) (hrejected : RejectedFor events .multipleCarriers)
  | silent (hcandidates : markerCandidates tx state.binding = []) (hcarriers : carrierSpends state tx = [])
      (hevents : events = [])
  | refund (i : ℕ) (object : ObjectState) (hcandidates : markerCandidates tx state.binding = [])
      (hcarriers : carrierSpends state tx = [(i,object)]) (hshape : RefundShape tx)
      (hvalid : validateRefund P block.height tx object = ok ())
      (hevents : events = [validRefundEvent P state block tx txIndex object])
  | badRefund (i : ℕ) (object : ObjectState) (hcandidates : markerCandidates tx state.binding = [])
      (hcarriers : carrierSpends state tx = [(i,object)]) (hshape : RefundShape tx)
      (hinvalid : validateRefund P block.height tx object ≠ ok ())
      (hrejected : RejectedFor events .badRefundShapeOrMaturity)
  | unmarked (i : ℕ) (object : ObjectState) (hcandidates : markerCandidates tx state.binding = [])
      (hcarriers : carrierSpends state tx = [(i,object)]) (hshape : ¬RefundShape tx)
      (hrejected : RejectedFor events .unmarkedCarrierSpend)
  | valid (candidate : MarkerCandidate) (operation : ValidatedOperation)
      (hcandidates : markerCandidates tx state.binding = [candidate])
      (hcarriers : (carrierSpends state tx).length ≤ 1)
      (hvalid : validateCandidate P state block.height tx candidate (carrierSpends state tx).head? =
        ok operation)
      (hevents : ∃ event, events = [event] ∧ event.reason = .valid ∧ event.validityClass = .validOperation)
  | invalid (candidate : MarkerCandidate) (reason : Reason)
      (hcandidates : markerCandidates tx state.binding = [candidate])
      (hcarriers : (carrierSpends state tx).length ≤ 1)
      (hinvalid : validateCandidate P state block.height tx candidate (carrierSpends state tx).head? =
        err reason)
      (hrejected : RejectedFor events reason)

/-- Several markers decide the case alone. -/
theorem Reported.of_markers (h : Reported P state block tx txIndex events)
    (hmarkers : 1 < (markerCandidates tx state.binding).length) : RejectedFor events .multipleMarkers := by
  cases h with
  | multipleMarkers hcandidates hrejected => exact hrejected
  | multipleCarriers hcandidates => omega
  | silent hcandidates => simp [hcandidates] at hmarkers
  | refund i object hcandidates => simp [hcandidates] at hmarkers
  | badRefund i object hcandidates => simp [hcandidates] at hmarkers
  | unmarked i object hcandidates => simp [hcandidates] at hmarkers
  | valid candidate operation hcandidates => simp [hcandidates] at hmarkers
  | invalid candidate reason hcandidates => simp [hcandidates] at hmarkers

theorem terminateCarriers_rejectedFor {eventIndex : UInt32} {reason : Reason} {ns : Hash32}
    {carriers : List (ℕ × ObjectState)} (hne : carriers ≠ [])
    (h : terminateCarriers state block tx txIndex eventIndex reason ns carriers = ok (state',events)) :
    RejectedFor events reason := by
  obtain ⟨_,rfl,_⟩ := terminateEach_ok h
  constructor
  · rw [← List.length_pos_iff,exitEvents_length,List.length_insertionSort]
    exact List.length_pos_iff.mpr hne
  · intro event hevent
    obtain ⟨_,_,_,rfl⟩ := mem_exitEvents hevent
    exact ⟨rfl,by simp [exitEvent]⟩

theorem bareInvalidEvent_rejectedFor {eventIndex : UInt32} {eventType : EventType} {reason : Reason}
    {ns : Hash32} : RejectedFor [bareInvalidEvent block tx txIndex eventIndex eventType reason ns] reason := by
  simp [RejectedFor,bareInvalidEvent]

/-- A rejection that terminates the carriers, or reports a bare event where there is none. -/
theorem rejection_rejectedFor {carriers : List (ℕ × ObjectState)} {eventIndex : UInt32}
    {eventType : EventType} {reason : Reason} {ns ns' : Hash32}
    (h : (if carriers.isEmpty then
        pure (state,[bareInvalidEvent block tx txIndex eventIndex eventType reason ns])
      else terminateCarriers state block tx txIndex eventIndex reason ns' carriers) = ok (state',events)) :
    RejectedFor events reason := by
  cases carriers with
  | nil =>
    simp only [List.isEmpty_nil,if_true,pure_eq_ok,Outcome.ok.injEq,Prod.mk.injEq] at h
    rw [← h.2]
    exact bareInvalidEvent_rejectedFor
  | cons spend rest => exact terminateCarriers_rejectedFor (List.cons_ne_nil spend rest) h

theorem applyValidOperation_valid {eventIndex : UInt32} {operation : ValidatedOperation} {event : Event}
    (h : applyValidOperation P state block tx txIndex eventIndex operation = ok (state',event)) :
    event.reason = .valid ∧ event.validityClass = .validOperation := by
  cases operation with
  | create keys =>
    simp only [applyValidOperation] at h
    split at h
    · simp only [pure_eq_ok,Outcome.ok.injEq,Prod.mk.injEq] at h
      rw [← h.2]
      exact ⟨rfl,rfl⟩
    · simp at h
  | mark object sequence commitment =>
    simp only [applyValidOperation,bind_eq_ok,pure_eq_ok,Outcome.ok.injEq,Prod.mk.injEq] at h
    obtain ⟨_,_,_,rfl⟩ := h
    exact ⟨rfl,rfl⟩
  | rotate object sequence keys =>
    simp only [applyValidOperation,pure_eq_ok,Outcome.ok.injEq,Prod.mk.injEq] at h
    rw [← h.2]
    exact ⟨rfl,rfl⟩
  | close object sequence commitment =>
    simp only [applyValidOperation,pure_eq_ok,Outcome.ok.injEq,Prod.mk.injEq] at h
    rw [← h.2]
    exact ⟨rfl,rfl⟩

theorem processMarkerless_reported (hcandidates : markerCandidates tx state.binding = [])
    (hcarriers : (carrierSpends state tx).length ≤ 1)
    (h : processMarkerless P state block tx txIndex (carrierSpends state tx) = ok (state',events)) :
    Reported P state block tx txIndex events := by
  unfold processMarkerless at h
  cases hhead : (carrierSpends state tx).head? with
  | none =>
    simp only [hhead,pure_eq_ok,Outcome.ok.injEq,Prod.mk.injEq] at h
    exact .silent hcandidates (List.head?_eq_none_iff.mp hhead) h.2.symm
  | some spend =>
    obtain ⟨i,object⟩ := spend
    have hspends := eq_singleton_of_head? hcarriers hhead
    have hne : carrierSpends state tx ≠ [] := by simp [hspends]
    simp only [hhead,Bool.and_eq_true,beq_iff_eq] at h
    split at h
    · next hshape =>
      cases hrefund : validateRefund P block.height tx object with
      | panic => simp [hrefund] at h
      | ok u =>
        simp only [hrefund,pure_eq_ok,Outcome.ok.injEq,Prod.mk.injEq] at h
        exact .refund i object hcandidates hspends hshape hrefund h.2.symm
      | err reason =>
        simp only [hrefund] at h
        exact .badRefund i object hcandidates hspends hshape (by simp [hrefund])
          (terminateCarriers_rejectedFor hne h)
    · next hshape => exact .unmarked i object hcandidates hspends hshape (terminateCarriers_rejectedFor hne h)

theorem processMarked_reported {candidate : MarkerCandidate}
    (hcandidates : markerCandidates tx state.binding = [candidate])
    (hcarriers : (carrierSpends state tx).length ≤ 1)
    (h : processMarked P state block tx txIndex candidate (carrierSpends state tx) = ok (state',events)) :
    Reported P state block tx txIndex events := by
  unfold processMarked at h
  cases hvalidation : candidate.parse >>= fun marker =>
      validateSingle P state block.height tx marker (carrierSpends state tx).head? with
  | panic => simp [hvalidation] at h
  | ok operation =>
    simp only [hvalidation,bind_eq_ok,pure_eq_ok,Outcome.ok.injEq,Prod.mk.injEq,Prod.exists] at h
    obtain ⟨_,event,happly,_,rfl⟩ := h
    exact .valid candidate operation hcandidates hcarriers hvalidation
      ⟨event,rfl,applyValidOperation_valid happly⟩
  | err reason =>
    simp only [hvalidation] at h
    exact .invalid candidate reason hcandidates hcarriers hvalidation (rejection_rejectedFor h)

theorem processTransaction_reported
    (h : processTransaction P state block tx txIndex = ok (state',events)) :
    Reported P state block tx txIndex events := by
  unfold processTransaction at h
  dsimp only at h
  split at h
  · next hmany => exact .multipleMarkers hmany (rejection_rejectedFor h)
  · next hfew =>
    split at h
    · next hmany =>
      have hne : carrierSpends state tx ≠ [] := by
        rintro hempty
        simp [hempty] at hmany
      exact .multipleCarriers (by omega) hmany (terminateCarriers_rejectedFor hne h)
    · next hone =>
      cases hhead : (markerCandidates tx state.binding).head? with
      | none =>
        rw [hhead] at h
        exact processMarkerless_reported (List.head?_eq_none_iff.mp hhead) (by omega) h
      | some candidate =>
        rw [hhead] at h
        exact processMarked_reported (eq_singleton_of_head? (by omega) hhead) (by omega) h

end Transaction

/-- Validation of the only candidate of a transaction, and of the configured INIT, succeeds exactly
when all rules hold and otherwise names the violated rule of least code. At the level of the
transaction several markers come first, then several carriers, then the refund, and otherwise
the reason of that validation is reported; a transaction of a run is always processed. -/
theorem reason_precedence (P : Primitives) :
    (∀ (state : ChainState) (blockHeight : UInt64) (tx : TxView) (candidate : MarkerCandidate)
      (carrier : Option (ℕ × ObjectState)), candidate ∈ markerCandidates tx state.binding →
      LeastViolated Reason.rank (singleRules P state blockHeight tx carrier candidate)
        (validateCandidate P state blockHeight tx candidate carrier)) ∧
    (∀ (binding : Binding) (blockHeight : UInt64) (tx : TxView),
      LeastViolated Reason.rank (initRules P blockHeight tx binding)
        (validateConfiguredInit P binding blockHeight tx)) ∧
    (∀ (state : ChainState) (block : BlockView) (tx : TxView) (txIndex : UInt32) (state' : ChainState)
      (events : List Event), processTransaction P state block tx txIndex = ok (state',events) →
      Reported P state block tx txIndex events) ∧
    ∀ (binding : Binding) (placed : List Placed) (log : List Event) (state : ChainState)
      (block : BlockView) (tx : TxView) (txIndex : UInt32), Reached P binding placed log state →
      tx.inputs.length ≤ 2 ^ 32 → ∃ result, processTransaction P state block tx txIndex = ok result := by
  refine ⟨?_,?_,?_,?_⟩
  · intro state blockHeight tx candidate carrier hmem
    exact validateCandidate_leastViolated hmem
  · intro binding blockHeight tx
    exact validateConfiguredInit_checks.leastViolated initRules_sorted
  · intro state block tx txIndex state' events h
    exact processTransaction_reported h
  · intro binding placed log state block tx txIndex hreached hinputs
    exact (processTransaction_returns hreached.numbered hinputs).exists_ok

section Sample

/-- The payload of a CREATE in the namespace of zeros. -/
def strayPayload : Bytes := magic ++ [1,3,1,1] ++ List.replicate 32 0

/-- A CREATE that has both the wrong namespace and a lock time. -/
def strayCreate : TxView :=
  { sampleCreate with lockTime := 1,outputs := [markerOutput strayPayload] ++ sampleCreate.outputs.drop 1 }

def strayCandidate : MarkerCandidate := ⟨0,40,strayPayload,true,true,true,true⟩

/-- The namespace is reported and not the lock time, and two markers before anything else. -/
theorem sample_precedence : ∃ paired state' events,
    ¬HeaderRule strayCreate ∧
    validateCandidate bitcoinPrimitives sampleNew 1109 strayCreate strayCandidate none = err .wrongNamespace ∧
    processTransaction bitcoinPrimitives paired exitBlock doubleMarker 1 = ok (state',events) ∧
    RejectedFor events .multipleMarkers := by
  obtain ⟨paired,deltas,_,_,hrun,_⟩ := samplePair_run
  obtain ⟨hsingle,_,hreported,hprocessed⟩ := reason_precedence bitcoinPrimitives
  obtain ⟨⟨state',events⟩,hcall⟩ := hprocessed _ _ _ paired exitBlock doubleMarker 1 (run_reached hrun) (by decide)
  have hcandidate : strayCandidate ∈ markerCandidates strayCreate sampleNew.binding := by decide +kernel
  have hmarkers : (markerCandidates doubleMarker paired.binding).length = 2 := by
    rw [applyBlocks_binding hrun]
    decide +kernel
  have hnamespace : ¬(strayCandidate.spelled.opcode = some .init ∨
      strayCandidate.spelled.bytesAt 8 32 = (sampleNew.binding.namespace bitcoinPrimitives).toList) := by
    decide +kernel
  have hlater : ∀ rule ∈ operationRules bitcoinPrimitives sampleNew 1109 strayCreate strayCandidate.spelled none
      strayCandidate.spelled.opcode, Reason.wrongNamespace.rank < rule.reason.rank := by
    rw [show strayCandidate.spelled.opcode = some .create from rfl]
    simp only [operationRules,createRules,List.forall_mem_cons]
    decide
  refine ⟨paired,state',events,by unfold HeaderRule; decide,?_,hcall,?_⟩
  · rw [(hsingle sampleNew 1109 strayCreate strayCandidate none hcandidate).err_iff]
    refine ⟨⟨.wrongNamespace,_⟩,by simp [singleRules,markerRules],rfl,hnamespace,?_⟩
    intro other hother hlower
    simp only [singleRules,markerRules,List.cons_append,List.nil_append,List.mem_cons] at hother
    rcases hother with rfl | rfl | rfl | rfl | rfl | hother
    · exact ⟨rfl,by decide,by decide,rfl,rfl,rfl,by decide⟩
    · decide
    · decide
    · decide
    · exact absurd hlower (lt_irrefl _)
    · exact absurd (hlater other hother) (lt_asymm hlower)
  · exact (hreported _ _ _ _ _ _ hcall).of_markers (by omega)

end Sample
end TandemVerifier
