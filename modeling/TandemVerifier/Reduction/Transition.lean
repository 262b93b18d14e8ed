import TandemVerifier.Core.Reducer
import TandemVerifier.Reduction.Acceptance

/-! # The effect of one transaction

A transaction is silent, rejected, applied as one of the five valid operations, or
it terminates every carrier that it spends. The relation below says which state and
which events each case leaves behind; every invariant of the reducer is proved by
cases on it.
-/
namespace TandemVerifier
open Library Library.Outcome

section Updates

/-- The object inserted by an accepted CREATE. -/
def createdObject (P : Primitives) (state : ChainState) (block : BlockView) (tx : TxView)
    (keys : KeyPair) (hOpen hClose : UInt32) : ObjectState where
  objectKey := objectKey P (state.binding.namespace P) tx.txid
  genesis := ⟨tx.txid,1⟩
  founding := decide (hOpen.toUInt64 ≤ block.height) && decide (block.height < hClose.toUInt64)
  status := .active
  createHeight := block.height
  stateSeq := 0
  currentOutpoint := ⟨tx.txid,1⟩
  keys := keys
  terminalTxid := Hash32.zero
  chapterCount := 0

def addObject (state : ChainState) (object : ObjectState) : ChainState :=
  { state with
    active := state.active.insert object.currentOutpoint object.objectKey
    objects := state.objects.insert object.objectKey object }

/-- Replace an object together with the carrier outpoint that indexes it. -/
def moveCarrier (state : ChainState) (predecessor : OutPointRef) (object : ObjectState) :
    ChainState :=
  { state with
    active := (state.active.erase predecessor).insert object.currentOutpoint object.objectKey
    objects := state.objects.insert object.objectKey object }

def closeObject (state : ChainState) (object : ObjectState) (sequence : UInt32) (txid : Hash32) :
    ChainState :=
  { terminateObject state object .closed txid with
    objects := (terminateObject state object .closed txid).objects.modify object.objectKey
      fun stored => { stored with stateSeq := sequence } }

def terminateAll (state : ChainState) (txid : Hash32) (carriers : List (ℕ × ObjectState)) :
    ChainState :=
  carriers.foldl (fun state spend => terminateObject state spend.2 .exitedNoncanonical txid) state

def exitEvents (block : BlockView) (tx : TxView) (txIndex eventIndex : UInt32) (reason : Reason)
    (ns : Hash32) (sub : ℕ) : List (ℕ × ObjectState) → List Event
  | [] => []
  | spend :: rest =>
    exitEvent block tx txIndex eventIndex (UInt32.ofNat sub) reason ns spend.2 ::
      exitEvents block tx txIndex eventIndex reason ns (sub + 1) rest

end Updates

theorem terminateEach_ok {block : BlockView} {tx : TxView} {txIndex eventIndex : UInt32}
    {reason : Reason} {ns : Hash32} {carriers : List (ℕ × ObjectState)} {state state' : ChainState}
    {sub : ℕ} {events : List Event}
    (h : terminateEach block tx txIndex eventIndex reason ns state sub carriers = ok (state',events)) :
    state' = terminateAll state tx.txid carriers ∧
      events = exitEvents block tx txIndex eventIndex reason ns sub carriers ∧
      (carriers ≠ [] → sub + carriers.length ≤ 2 ^ 32) := by
  induction carriers generalizing state sub events with
  | nil =>
    simp only [terminateEach,pure_eq_ok,Outcome.ok.injEq,Prod.mk.injEq] at h
    exact ⟨h.1.symm,h.2.symm,fun hne => absurd rfl hne⟩
  | cons spend rest ih =>
    simp only [terminateEach,bind_eq_ok,expect_eq_ok,pure_eq_ok,Outcome.ok.injEq,Prod.mk.injEq,
      Prod.exists] at h
    obtain ⟨subIndex,hsub,mid,tail,htail,rfl,rfl⟩ := h
    obtain ⟨hstate,htail,hlen⟩ := ih htail
    obtain rfl := u32TryFrom_eq_some.mp hsub
    refine ⟨hstate,by rw [htail,exitEvents,UInt32.ofNat_toNat],fun _ => ?_⟩
    have hlt := subIndex.toNat_lt
    rw [List.length_cons]
    by_cases hrest : rest = []
    · subst hrest
      simp only [List.length_nil]
      omega
    · have hh := hlen hrest
      omega

theorem mem_exitEvents {block : BlockView} {tx : TxView} {txIndex eventIndex : UInt32} {reason : Reason}
    {ns : Hash32} {sub : ℕ} {carriers : List (ℕ × ObjectState)} {event : Event}
    (h : event ∈ exitEvents block tx txIndex eventIndex reason ns sub carriers) :
    ∃ spend ∈ carriers, ∃ subIndex,
      event = exitEvent block tx txIndex eventIndex subIndex reason ns spend.2 := by
  induction carriers generalizing sub with
  | nil => simp [exitEvents] at h
  | cons first rest ih =>
    rcases List.mem_cons.mp h with rfl | htail
    · exact ⟨first,List.mem_cons_self,_,rfl⟩
    · obtain ⟨spend,hspend,hh⟩ := ih htail
      exact ⟨spend,List.mem_cons_of_mem _ hspend,hh⟩

/-- The states and events that one transaction can leave behind. -/
inductive TxEffect (P : Primitives) (state : ChainState) (block : BlockView) (tx : TxView)
    (txIndex : UInt32) : ChainState → List Event → Prop
  | silent (hcandidates : markerCandidates tx state.binding = [])
      (hcarriers : carrierSpends state tx = []) : TxEffect P state block tx txIndex state []
  | rejected (eventIndex : UInt32) (eventType : EventType) (reason : Reason) (ns : Hash32)
      (hcandidates : markerCandidates tx state.binding ≠ [])
      (hcarriers : carrierSpends state tx = []) :
      TxEffect P state block tx txIndex state
        [bareInvalidEvent block tx txIndex eventIndex eventType reason ns]
  | created (candidate : MarkerCandidate) (marker : ParsedMarker) (keys : KeyPair)
      (initHeight : UInt64) (hOpen hClose : UInt32)
      (hcandidates : markerCandidates tx state.binding = [candidate])
      (hparse : candidate.parse = ok marker)
      (hcarriers : (carrierSpends state tx).length ≤ 1)
      (hstatus : state.protocolStatus = .active initHeight hOpen hClose)
      (haccepted : Accepted P state block.height tx marker (carrierSpends state tx).head?
        (.create keys)) :
      TxEffect P state block tx txIndex
        (addObject state (createdObject P state block tx keys hOpen hClose))
        [validEventBase P state block tx txIndex candidate.vout .create
          (objectKey P (state.binding.namespace P) tx.txid) 0 .zero ⟨tx.txid,1⟩ keys Hash32.zero]
  | marked (candidate : MarkerCandidate) (marker : ParsedMarker) (object : ObjectState)
      (sequence : UInt32) (commitment : Hash32) (chapterCount : UInt32)
      (hcandidates : markerCandidates tx state.binding = [candidate])
      (hparse : candidate.parse = ok marker)
      (hcarriers : carrierSpends state tx = [(0,object)])
      (hchapter : object.chapterCount.toNat + 1 = chapterCount.toNat)
      (haccepted : Accepted P state block.height tx marker (some (0,object))
        (.mark object sequence commitment)) :
      TxEffect P state block tx txIndex
        (moveCarrier state object.currentOutpoint
          { object with
            currentOutpoint := ⟨tx.txid,1⟩, stateSeq := sequence, chapterCount := chapterCount })
        [validEventBase P state block tx txIndex candidate.vout .mark object.objectKey sequence
          object.currentOutpoint ⟨tx.txid,1⟩ object.keys commitment]
  | rotated (candidate : MarkerCandidate) (marker : ParsedMarker) (object : ObjectState)
      (sequence : UInt32) (keys : KeyPair)
      (hcandidates : markerCandidates tx state.binding = [candidate])
      (hparse : candidate.parse = ok marker)
      (hcarriers : carrierSpends state tx = [(0,object)])
      (haccepted : Accepted P state block.height tx marker (some (0,object))
        (.rotate object sequence keys)) :
      TxEffect P state block tx txIndex
        (moveCarrier state object.currentOutpoint
          { object with currentOutpoint := ⟨tx.txid,1⟩, stateSeq := sequence, keys := keys })
        [validEventBase P state block tx txIndex candidate.vout .rotate object.objectKey sequence
          object.currentOutpoint ⟨tx.txid,1⟩ keys Hash32.zero]
  | closed (candidate : MarkerCandidate) (marker : ParsedMarker) (object : ObjectState)
      (sequence : UInt32) (commitment : Hash32)
      (hcandidates : markerCandidates tx state.binding = [candidate])
      (hparse : candidate.parse = ok marker)
      (hcarriers : carrierSpends state tx = [(0,object)])
      (haccepted : Accepted P state block.height tx marker (some (0,object))
        (.close object sequence commitment)) :
      TxEffect P state block tx txIndex (closeObject state object sequence tx.txid)
        [validEventBase P state block tx txIndex candidate.vout .close object.objectKey sequence
          object.currentOutpoint .zero object.keys commitment]
  | refunded (object : ObjectState)
      (hcandidates : markerCandidates tx state.binding = [])
      (hcarriers : carrierSpends state tx = [(0,object)])
      (haccepted : ∃ input output0 output1,
        RefundAccepted P block.height tx input output0 output1 object) :
      TxEffect P state block tx txIndex (terminateObject state object .refunded tx.txid)
        [validRefundEvent P state block tx txIndex object]
  | exited (eventIndex : UInt32) (reason : Reason) (ns : Hash32) (carriers : List (ℕ × ObjectState))
      (hnonempty : carriers ≠ []) (hperm : carriers.Perm (carrierSpends state tx))
      (hsorted : carriers.Pairwise CarrierLe) (hlength : carriers.length ≤ 2 ^ 32) :
      TxEffect P state block tx txIndex (terminateAll state tx.txid carriers)
        (exitEvents block tx txIndex eventIndex reason ns 0 carriers)

section Inversion
variable {P : Primitives} {state state' : ChainState} {block : BlockView} {tx : TxView}
variable {txIndex : UInt32} {events : List Event}

theorem mem_carrierSpends {i : ℕ} {object : ObjectState} :
    (i,object) ∈ carrierSpends state tx ↔ ∃ input key, tx.inputs[i]? = some input ∧
      state.active[input.prevout]? = some key ∧ state.objects[key]? = some object := by
  simp only [carrierSpends,List.mem_filterMap,Prod.exists,List.mem_zipIdx_iff_getElem?,
    Option.map_eq_some_iff,Option.bind_eq_some_iff,Prod.mk.injEq]
  constructor
  · rintro ⟨input,j,hj,value,⟨key,hkey,hobject⟩,rfl,rfl⟩
    exact ⟨input,key,hj,hkey,hobject⟩
  · rintro ⟨input,key,hi,hkey,hobject⟩
    exact ⟨input,i,hi,object,⟨key,hkey,hobject⟩,rfl,rfl⟩

theorem eq_singleton_of_head? {α : Type} {xs : List α} {x : α} (hlength : xs.length ≤ 1)
    (hhead : xs.head? = some x) : xs = [x] := by
  cases xs with
  | nil => simp at hhead
  | cons first rest =>
    simp only [List.head?_cons,Option.some.injEq] at hhead
    rw [List.length_cons] at hlength
    rw [hhead,List.length_eq_zero_iff.mp (by omega : rest.length = 0)]

instance : Std.Total CarrierLe where
  total a b := by
    by_cases h : (compare a.2.objectKey b.2.objectKey).isLE = true
    · exact Or.inl h
    · right
      rw [CarrierLe,Std.OrientedCmp.lt_of_not_isLE h]
      rfl

instance : IsTrans (ℕ × ObjectState) CarrierLe where
  trans _ _ _ := Std.TransCmp.isLE_trans

theorem terminateCarriers_effect {eventIndex : UInt32} {reason : Reason} {ns : Hash32}
    (hne : carrierSpends state tx ≠ [])
    (h : terminateCarriers state block tx txIndex eventIndex reason ns (carrierSpends state tx) =
      ok (state',events)) : TxEffect P state block tx txIndex state' events := by
  have hperm := List.perm_insertionSort CarrierLe (carrierSpends state tx)
  have hsorted := List.pairwise_insertionSort CarrierLe (carrierSpends state tx)
  have hsort : List.insertionSort CarrierLe (carrierSpends state tx) ≠ [] := by
    intro he
    exact hne (List.Perm.nil_eq (he ▸ hperm)).symm
  obtain ⟨rfl,rfl,hlength⟩ := terminateEach_ok h
  exact .exited eventIndex reason ns _ hsort hperm hsorted (by simpa using hlength hsort)

theorem applyValidOperation_effect {candidate : MarkerCandidate} {marker : ParsedMarker}
    {operation : ValidatedOperation} {event : Event}
    (hcandidates : markerCandidates tx state.binding = [candidate])
    (hparse : candidate.parse = ok marker) (hcarriers : (carrierSpends state tx).length ≤ 1)
    (haccepted : Accepted P state block.height tx marker (carrierSpends state tx).head? operation)
    (h : applyValidOperation P state block tx txIndex candidate.vout operation =
      ok (state',event)) : TxEffect P state block tx txIndex state' [event] := by
  cases operation with
  | create keys =>
    obtain ⟨_,_,_,_,_,_,haccept⟩ := haccepted
    obtain ⟨initHeight,hOpen,hClose,hstatus,_⟩ := haccept.phase
    simp only [applyValidOperation,hstatus,pure_eq_ok,Outcome.ok.injEq,Prod.mk.injEq] at h
    obtain ⟨rfl,rfl⟩ := h
    rw [← hstatus]
    exact .created candidate marker keys initHeight hOpen hClose hcandidates hparse hcarriers hstatus
      ⟨_,_,_,_,_,_,haccept⟩
  | mark object sequence commitment =>
    obtain ⟨_,_,_,_,_,_,haccept⟩ := haccepted
    have hspend := eq_singleton_of_head? hcarriers haccept.carrier_eq
    simp only [applyValidOperation,bind_eq_ok,expect_eq_ok,checkedAdd32_eq_some,pure_eq_ok,
      Outcome.ok.injEq,Prod.mk.injEq] at h
    obtain ⟨chapterCount,hchapter,rfl,rfl⟩ := h
    exact .marked candidate marker object sequence commitment chapterCount hcandidates hparse hspend
      hchapter ⟨_,_,_,_,_,_,haccept.carrier_eq ▸ haccept⟩
  | rotate object sequence keys =>
    obtain ⟨_,_,_,_,_,_,_,haccept⟩ := haccepted
    have hspend := eq_singleton_of_head? hcarriers haccept.carrier_eq
    simp only [applyValidOperation,pure_eq_ok,Outcome.ok.injEq,Prod.mk.injEq] at h
    obtain ⟨rfl,rfl⟩ := h
    exact .rotated candidate marker object sequence keys hcandidates hparse hspend
      ⟨_,_,_,_,_,_,_,haccept.carrier_eq ▸ haccept⟩
  | close object sequence commitment =>
    obtain ⟨_,_,_,_,haccept⟩ := haccepted
    have hspend := eq_singleton_of_head? hcarriers haccept.carrier_eq
    simp only [applyValidOperation,pure_eq_ok,Outcome.ok.injEq,Prod.mk.injEq] at h
    obtain ⟨rfl,rfl⟩ := h
    exact .closed candidate marker object sequence commitment hcandidates hparse hspend
      ⟨_,_,_,_,haccept.carrier_eq ▸ haccept⟩

theorem processMarked_effect {candidate : MarkerCandidate}
    (hcandidates : markerCandidates tx state.binding = [candidate])
    (hcarriers : (carrierSpends state tx).length ≤ 1)
    (h : processMarked P state block tx txIndex candidate (carrierSpends state tx) =
      ok (state',events)) : TxEffect P state block tx txIndex state' events := by
  unfold processMarked at h
  cases hval : (candidate.parse >>= fun marker =>
      validateSingle P state block.height tx marker (carrierSpends state tx).head?) with
  | panic => simp [hval] at h
  | ok operation =>
    obtain ⟨marker,hparse,hsingle⟩ := bind_eq_ok.mp hval
    simp only [hval,bind_eq_ok,pure_eq_ok,Outcome.ok.injEq,Prod.mk.injEq,Prod.exists] at h
    obtain ⟨final,event,happly,rfl,rfl⟩ := h
    exact applyValidOperation_effect hcandidates hparse hcarriers (validateSingle_ok hsingle) happly
  | err reason =>
    simp only [hval,List.isEmpty_iff] at h
    by_cases hne : carrierSpends state tx = []
    · simp only [if_pos hne,pure_eq_ok,Outcome.ok.injEq,Prod.mk.injEq] at h
      obtain ⟨rfl,rfl⟩ := h
      exact .rejected _ _ _ _ (by simp [hcandidates]) hne
    · rw [if_neg hne] at h
      exact terminateCarriers_effect hne h

/-- A refund spends the only carrier with its only input. -/
theorem refund_carrier {object : ObjectState} {i : ℕ} {input : InputView}
    (hinputs : tx.inputs = [input]) (hcarriers : (carrierSpends state tx).length ≤ 1)
    (hhead : (carrierSpends state tx).head? = some (i,object)) :
    carrierSpends state tx = [(0,object)] := by
  have hspend := eq_singleton_of_head? hcarriers hhead
  have hmem : (i,object) ∈ carrierSpends state tx := by simp [hspend]
  obtain ⟨spent,_,hi,_⟩ := mem_carrierSpends.mp hmem
  have hzero : i = 0 := by
    have := (List.getElem?_eq_some_iff.mp hi).1
    simp only [hinputs,List.length_singleton] at this
    omega
  rw [hspend,hzero]

theorem processMarkerless_effect (hcandidates : markerCandidates tx state.binding = [])
    (hcarriers : (carrierSpends state tx).length ≤ 1)
    (h : processMarkerless P state block tx txIndex (carrierSpends state tx) = ok (state',events)) :
    TxEffect P state block tx txIndex state' events := by
  unfold processMarkerless at h
  cases hhead : (carrierSpends state tx).head? with
  | none =>
    simp only [hhead,pure_eq_ok,Outcome.ok.injEq,Prod.mk.injEq] at h
    obtain ⟨rfl,rfl⟩ := h
    exact .silent hcandidates (List.head?_eq_none_iff.mp hhead)
  | some spend =>
    obtain ⟨i,object⟩ := spend
    have hne : carrierSpends state tx ≠ [] := by
      intro he
      simp [he] at hhead
    simp only [hhead] at h
    by_cases hshape : (tx.inputs.length == 1 && tx.outputs.length == 2) = true
    · rw [if_pos hshape] at h
      cases hrefund : validateRefund P block.height tx object with
      | panic => simp [hrefund] at h
      | err reason =>
        simp only [hrefund] at h
        exact terminateCarriers_effect hne h
      | ok u =>
        simp only [hrefund,pure_eq_ok,Outcome.ok.injEq,Prod.mk.injEq] at h
        obtain ⟨rfl,rfl⟩ := h
        obtain ⟨input,output0,output1,haccept⟩ := validateRefund_ok hrefund
        exact .refunded object hcandidates (refund_carrier haccept.inputs hcarriers hhead)
          ⟨input,output0,output1,haccept⟩
    · rw [if_neg hshape] at h
      exact terminateCarriers_effect hne h

/-- Every call that returns has one of the listed effects. -/
theorem processTransaction_effect
    (h : processTransaction P state block tx txIndex = ok (state',events)) :
    TxEffect P state block tx txIndex state' events := by
  unfold processTransaction at h
  by_cases hmany : 1 < (markerCandidates tx state.binding).length
  · simp only [if_pos hmany,List.isEmpty_iff] at h
    by_cases hne : carrierSpends state tx = []
    · simp only [if_pos hne,pure_eq_ok,Outcome.ok.injEq,Prod.mk.injEq] at h
      obtain ⟨rfl,rfl⟩ := h
      refine .rejected _ _ _ _ ?_ hne
      intro he
      simp [he] at hmany
    · rw [if_neg hne] at h
      exact terminateCarriers_effect hne h
  · simp only [if_neg hmany] at h
    by_cases hcarriers : 1 < (carrierSpends state tx).length
    · simp only [if_pos hcarriers] at h
      refine terminateCarriers_effect ?_ h
      intro he
      simp [he] at hcarriers
    · simp only [if_neg hcarriers] at h
      have hone : (carrierSpends state tx).length ≤ 1 := by omega
      cases hc : markerCandidates tx state.binding with
      | nil =>
        simp only [hc,List.head?_nil] at h
        exact processMarkerless_effect hc hone h
      | cons candidate rest =>
        have hrest : rest = [] := by
          simp only [hc,List.length_cons] at hmany
          exact List.length_eq_zero_iff.mp (by omega)
        subst hrest
        simp only [hc,List.head?_cons] at h
        exact processMarked_effect hc hone h

theorem terminateAll_frame (carriers : List (ℕ × ObjectState)) (txid : Hash32) :
    terminateAll state txid carriers =
      { state with
        objects := (terminateAll state txid carriers).objects
        active := (terminateAll state txid carriers).active } := by
  induction carriers generalizing state with
  | nil => rfl
  | cons spend rest ih =>
    have hh := @ih (terminateObject state spend.2 .exitedNoncanonical txid)
    exact hh

/-- One transaction changes nothing but the two maps. -/
theorem TxEffect.frame (h : TxEffect P state block tx txIndex state' events) :
    state' = { state with objects := state'.objects, active := state'.active } := by
  cases h with
  | exited eventIndex reason ns carriers hnonempty hperm hsorted hlength =>
    exact terminateAll_frame carriers tx.txid
  | _ => rfl

end Inversion

section Objects
variable {P : Primitives} {state state' : ChainState} {block : BlockView} {tx : TxView}
variable {txIndex : UInt32} {events : List Event}

/-- The outpoint at which an object lives, if it is active. -/
def ObjectState.carrier (object : ObjectState) : Option OutPointRef :=
  if object.status = .active then some object.currentOutpoint else none

theorem ObjectState.carrier_eq_some {object : ObjectState} {outpoint : OutPointRef} :
    object.carrier = some outpoint ↔ object.status = .active ∧ object.currentOutpoint = outpoint := by
  by_cases h : object.status = .active <;> simp [carrier,h]

/-- The update of a termination: the outpoint is unindexed and the object loses it. -/
structure Terminates (state : ChainState) (object : ObjectState) (update : ObjectState → ObjectState)
    (state' : ChainState) : Prop where
  binding_eq : state'.binding = state.binding
  active_eq : state'.active = state.active.erase object.currentOutpoint
  objects_eq : state'.objects = state.objects.modify object.objectKey update
  keeps : ∀ stored, (update stored).objectKey = stored.objectKey ∧
    (update stored).genesis = stored.genesis
  ends : ∀ stored, (update stored).status ≠ .active ∧ (update stored).currentOutpoint = .zero

variable {object : ObjectState} {update : ObjectState → ObjectState}

theorem Terminates.getElem?_objects (h : Terminates state object update state') (k : Hash32) :
    state'.objects[k]? =
      if object.objectKey = k then state.objects[object.objectKey]?.map update
      else state.objects[k]? := by
  rw [h.objects_eq,Std.ExtTreeMap.getElem?_modify]
  simp only [Std.compare_eq_iff_eq]

theorem Terminates.carrier_eq_none (h : Terminates state object update state') (stored : ObjectState) :
    (update stored).carrier = none := by
  simp [ObjectState.carrier,(h.ends stored).1]

theorem terminateObject_terminates (state : ChainState) (object : ObjectState)
    (status : ObjectStatus) (txid : Hash32) (hstatus : status ≠ .active) :
    Terminates state object (fun stored =>
      { stored with status := status, currentOutpoint := .zero, terminalTxid := txid })
      (terminateObject state object status txid) where
  binding_eq := rfl
  active_eq := rfl
  objects_eq := rfl
  keeps _ := ⟨rfl,rfl⟩
  ends _ := ⟨hstatus,rfl⟩

theorem closeObject_terminates (state : ChainState) (object : ObjectState) (sequence : UInt32)
    (txid : Hash32) :
    Terminates state object (fun stored =>
      { stored with
        status := .closed, currentOutpoint := .zero, terminalTxid := txid, stateSeq := sequence })
      (closeObject state object sequence txid) where
  binding_eq := rfl
  active_eq := rfl
  objects_eq := by
    apply Std.ExtTreeMap.ext_getElem?
    intro k
    simp only [closeObject,terminateObject,Std.ExtTreeMap.getElem?_modify,Std.compare_eq_iff_eq]
    split
    · simp [Function.comp_def]
    · rfl
  keeps _ := ⟨rfl,rfl⟩
  ends _ := ⟨by simp,rfl⟩

theorem terminateAll_objects {carriers : List (ℕ × ObjectState)} {txid key : Hash32}
    (h : (terminateAll state txid carriers).objects[key]? = some object) :
    state.objects[key]? = some object ∨ ∃ stored, state.objects[key]? = some stored ∧
      object = { stored with
        status := .exitedNoncanonical, currentOutpoint := .zero, terminalTxid := txid } := by
  induction carriers generalizing state with
  | nil => exact Or.inl h
  | cons spend rest ih =>
    have hterm := terminateObject_terminates state spend.2 .exitedNoncanonical txid (by simp)
    have hlater : ∀ value, (terminateObject state spend.2 .exitedNoncanonical txid).objects[key]? =
        some value → state.objects[key]? = some value ∨ ∃ stored, state.objects[key]? = some stored ∧
          value = { stored with
            status := .exitedNoncanonical, currentOutpoint := .zero, terminalTxid := txid } := by
      intro value hvalue
      rw [hterm.getElem?_objects] at hvalue
      split at hvalue
      · next hkey =>
        obtain ⟨stored,hstored,rfl⟩ := Option.map_eq_some_iff.mp hvalue
        exact Or.inr ⟨stored,hkey ▸ hstored,rfl⟩
      · exact Or.inl hvalue
    rcases ih h with hkept | ⟨stored,hstored,rfl⟩
    · exact hlater object hkept
    · rcases hlater stored hstored with hkept | ⟨first,hfirst,rfl⟩
      · exact Or.inr ⟨stored,hkept,rfl⟩
      · exact Or.inr ⟨first,hfirst,rfl⟩

theorem addObject_getElem? (key : Hash32) : (addObject state object).objects[key]? =
    if object.objectKey = key then some object else state.objects[key]? := by
  simp only [addObject,Std.ExtTreeMap.getElem?_insert,Std.compare_eq_iff_eq]

theorem moveCarrier_getElem? {predecessor : OutPointRef} (key : Hash32) :
    (moveCarrier state predecessor object).objects[key]? =
      if object.objectKey = key then some object else state.objects[key]? := by
  simp only [moveCarrier,Std.ExtTreeMap.getElem?_insert,Std.compare_eq_iff_eq]

/-- How one transaction can have produced an entry of the object map. -/
inductive ObjectStep (P : Primitives) (state : ChainState) (block : BlockView) (tx : TxView) :
    Hash32 → ObjectState → Prop
  | kept {key : Hash32} {object : ObjectState} (hobject : state.objects[key]? = some object) :
      ObjectStep P state block tx key object
  | created (marker : ParsedMarker) (keys : KeyPair) (initHeight : UInt64) (hOpen hClose : UInt32)
      (hstatus : state.protocolStatus = .active initHeight hOpen hClose)
      (haccepted : Accepted P state block.height tx marker (carrierSpends state tx).head?
        (.create keys)) :
      ObjectStep P state block tx (objectKey P (state.binding.namespace P) tx.txid)
        (createdObject P state block tx keys hOpen hClose)
  | marked (marker : ParsedMarker) (object : ObjectState) (sequence : UInt32) (commitment : Hash32)
      (chapterCount : UInt32) (hcarriers : carrierSpends state tx = [(0,object)])
      (hchapter : object.chapterCount.toNat + 1 = chapterCount.toNat)
      (haccepted : Accepted P state block.height tx marker (some (0,object))
        (.mark object sequence commitment)) :
      ObjectStep P state block tx object.objectKey
        { object with
          currentOutpoint := ⟨tx.txid,1⟩, stateSeq := sequence, chapterCount := chapterCount }
  | rotated (marker : ParsedMarker) (object : ObjectState) (sequence : UInt32) (keys : KeyPair)
      (hcarriers : carrierSpends state tx = [(0,object)])
      (haccepted : Accepted P state block.height tx marker (some (0,object))
        (.rotate object sequence keys)) :
      ObjectStep P state block tx object.objectKey
        { object with currentOutpoint := ⟨tx.txid,1⟩, stateSeq := sequence, keys := keys }
  | ended {key : Hash32} (stored : ObjectState) (status : ObjectStatus) (sequence : UInt32)
      (hstored : state.objects[key]? = some stored) (hstatus : status ≠ .active)
      (hsequence : sequence = stored.stateSeq ∨ ∃ object, carrierSpends state tx = [(0,object)] ∧
        object.objectKey = key ∧ object.stateSeq.toNat + 1 = sequence.toNat) :
      ObjectStep P state block tx key
        { stored with
          status := status, currentOutpoint := .zero, terminalTxid := tx.txid, stateSeq := sequence }

theorem TxEffect.objectStep {key : Hash32} (h : TxEffect P state block tx txIndex state' events)
    (hobject : state'.objects[key]? = some object) : ObjectStep P state block tx key object := by
  cases h with
  | silent hcandidates hcarriers => exact .kept hobject
  | rejected eventIndex eventType reason ns hcandidates hcarriers => exact .kept hobject
  | created candidate marker keys initHeight hOpen hClose hcandidates hparse hcarriers hstatus haccepted =>
    rw [addObject_getElem?] at hobject
    split at hobject
    · next hkey =>
      obtain rfl := Option.some.inj hobject
      rw [← hkey]
      exact .created marker keys initHeight hOpen hClose hstatus haccepted
    · exact .kept hobject
  | marked candidate marker owner sequence commitment chapterCount hcandidates hparse hcarriers
      hchapter haccepted =>
    rw [moveCarrier_getElem?] at hobject
    split at hobject
    · next hkey =>
      obtain rfl := Option.some.inj hobject
      rw [← hkey]
      exact .marked marker owner sequence commitment chapterCount hcarriers hchapter haccepted
    · exact .kept hobject
  | rotated candidate marker owner sequence keys hcandidates hparse hcarriers haccepted =>
    rw [moveCarrier_getElem?] at hobject
    split at hobject
    · next hkey =>
      obtain rfl := Option.some.inj hobject
      rw [← hkey]
      exact .rotated marker owner sequence keys hcarriers haccepted
    · exact .kept hobject
  | closed candidate marker owner sequence commitment hcandidates hparse hcarriers haccepted =>
    obtain ⟨_,_,_,_,haccept⟩ := haccepted
    rw [(closeObject_terminates state owner sequence tx.txid).getElem?_objects] at hobject
    split at hobject
    · next hkey =>
      obtain ⟨stored,hstored,rfl⟩ := Option.map_eq_some_iff.mp hobject
      exact .ended stored .closed sequence (hkey ▸ hstored) (by simp)
        (Or.inr ⟨owner,hcarriers,hkey,haccept.stateSeq⟩)
    · exact .kept hobject
  | refunded owner hcandidates hcarriers haccepted =>
    rw [(terminateObject_terminates state owner .refunded tx.txid (by simp)).getElem?_objects] at hobject
    split at hobject
    · next hkey =>
      obtain ⟨stored,hstored,rfl⟩ := Option.map_eq_some_iff.mp hobject
      exact .ended stored .refunded stored.stateSeq (hkey ▸ hstored) (by simp) (Or.inl rfl)
    · exact .kept hobject
  | exited eventIndex reason ns carriers hnonempty hperm hsorted hlength =>
    rcases terminateAll_objects hobject with hkept | ⟨stored,hstored,rfl⟩
    · exact .kept hkept
    · exact .ended stored .exitedNoncanonical stored.stateSeq hstored (by simp) (Or.inl rfl)

end Objects
end TandemVerifier
