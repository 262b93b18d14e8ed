import TandemVerifier.Library.LocalUpdate
import TandemVerifier.Reduction.Frame

/-! # A transaction reads the state through the carriers it spends

Of the state, `process_transaction` reads the binding, the status and the objects whose
carriers the transaction spends. What it does to the state is one of a few updates that
are determined by these; so the same transaction makes the same update, with the same
events, in every state that agrees on them.
-/
namespace TandemVerifier
open Library Library.Outcome Library.LocalUpdate
variable {P : Primitives} {state state' other : ChainState} {block : BlockView} {tx : TxView}
variable {txIndex : UInt32} {events : List Event}

/-- What a transaction does to the two maps. -/
inductive Update where
  | keep
  | add (object : ObjectState)
  | move (predecessor : OutPointRef) (object : ObjectState)
  | close (object : ObjectState) (sequence : UInt32) (txid : Hash32)
  | refund (object : ObjectState) (txid : Hash32)
  | exit (txid : Hash32) (carriers : List (ℕ × ObjectState))

namespace Update

def apply : Update → ChainState → ChainState
  | keep,state => state
  | add object,state => addObject state object
  | move predecessor object,state => moveCarrier state predecessor object
  | close object sequence txid,state => closeObject state object sequence txid
  | refund object txid,state => terminateObject state object .refunded txid
  | exit txid carriers,state => terminateAll state txid carriers

/-- The keys of the objects that the update may write. -/
def keys : Update → List Hash32
  | keep => []
  | add object | move _ object | close object _ _ | refund object _ => [object.objectKey]
  | exit _ carriers => carriers.map fun spend => spend.2.objectKey

/-- The outpoints that the update may add or remove. -/
def outpoints : Update → List OutPointRef
  | keep => []
  | add object | close object _ _ | refund object _ => [object.currentOutpoint]
  | move predecessor object => [predecessor,object.currentOutpoint]
  | exit _ carriers => carriers.map fun spend => spend.2.currentOutpoint

def objectsOf (state : ChainState) (key : Hash32) : Option ObjectState := state.objects[key]?
def activeOf (state : ChainState) (outpoint : OutPointRef) : Option Hash32 := state.active[outpoint]?

theorem apply_frame (update : Update) (state : ChainState) :
    update.apply state = { state with
      objects := (update.apply state).objects, active := (update.apply state).active } := by
  cases update with
  | exit txid carriers => exact terminateAll_frame carriers txid
  | _ => rfl

theorem objects_terminates {object : ObjectState} {update : ObjectState → ObjectState}
    {f : ChainState → ChainState} (h : ∀ s, Terminates s object update (f s)) :
    LocalOn objectsOf [object.objectKey] f := by
  refine ⟨fun s k hk => ?_,fun s s' k hsame => ?_⟩
  · have hother : object.objectKey ≠ k := by simpa [eq_comm] using hk
    simp only [objectsOf,(h s).getElem?_objects,if_neg hother]
  · simp only [objectsOf,(h _).getElem?_objects] at hsame ⊢
    split
    · next hkey => rw [hkey,hsame]
    · exact hsame

theorem active_terminates {object : ObjectState} {update : ObjectState → ObjectState}
    {f : ChainState → ChainState} (h : ∀ s, Terminates s object update (f s)) :
    LocalOn activeOf [object.currentOutpoint] f := by
  refine ⟨fun s o ho => ?_,fun s s' o hsame => ?_⟩
  · have hother : object.currentOutpoint ≠ o := by simpa [eq_comm] using ho
    simp only [activeOf,(h s).active_eq,Std.ExtTreeMap.getElem?_erase,Std.compare_eq_iff_eq,if_neg hother]
  · simp only [activeOf,(h _).active_eq,Std.ExtTreeMap.getElem?_erase] at hsame ⊢
    rw [hsame]

theorem objects_local (update : Update) : LocalOn objectsOf update.keys update.apply := by
  cases update with
  | keep => exact .refl
  | add object =>
    refine ⟨fun s k hk => ?_,fun s s' k h => ?_⟩
    · have hother : object.objectKey ≠ k := by simpa [keys,eq_comm] using hk
      simp only [objectsOf,apply,addObject_getElem?,if_neg hother]
    · simp only [objectsOf,apply,addObject_getElem?] at h ⊢
      rw [h]
  | move predecessor object =>
    refine ⟨fun s k hk => ?_,fun s s' k h => ?_⟩
    · have hother : object.objectKey ≠ k := by simpa [keys,eq_comm] using hk
      simp only [objectsOf,apply,moveCarrier_getElem?,if_neg hother]
    · simp only [objectsOf,apply,moveCarrier_getElem?] at h ⊢
      rw [h]
  | close object sequence txid =>
    exact objects_terminates fun s => closeObject_terminates s object sequence txid
  | refund object txid =>
    exact objects_terminates fun s => terminateObject_terminates s object .refunded txid (by simp)
  | exit txid carriers =>
    refine ⟨fun s k hk => ?_,fun s s' k h => ?_⟩
    · simp only [objectsOf,apply,terminateAll_getElem?]
      exact if_neg hk
    · simp only [objectsOf,apply,terminateAll_getElem?] at h ⊢
      rw [h]

theorem active_local (update : Update) : LocalOn activeOf update.outpoints update.apply := by
  cases update with
  | keep => exact .refl
  | add object =>
    refine ⟨fun s o ho => ?_,fun s s' o h => ?_⟩
    · have hother : object.currentOutpoint ≠ o := by simpa [outpoints,eq_comm] using ho
      simp only [activeOf,apply,addObject,Std.ExtTreeMap.getElem?_insert,Std.compare_eq_iff_eq,if_neg hother]
    · simp only [activeOf,apply,addObject,Std.ExtTreeMap.getElem?_insert] at h ⊢
      rw [h]
  | move predecessor object =>
    refine ⟨fun s o ho => ?_,fun s s' o h => ?_⟩
    · obtain ⟨hold,hnew⟩ : predecessor ≠ o ∧ object.currentOutpoint ≠ o := by
        simpa [outpoints,eq_comm] using ho
      simp only [activeOf,apply,moveCarrier,Std.ExtTreeMap.getElem?_insert,Std.ExtTreeMap.getElem?_erase,
        Std.compare_eq_iff_eq,if_neg hold,if_neg hnew]
    · simp only [activeOf,apply,moveCarrier,Std.ExtTreeMap.getElem?_insert,
        Std.ExtTreeMap.getElem?_erase] at h ⊢
      rw [h]
  | close object sequence txid =>
    exact active_terminates fun s => closeObject_terminates s object sequence txid
  | refund object txid =>
    exact active_terminates fun s => terminateObject_terminates s object .refunded txid (by simp)
  | exit txid carriers =>
    refine ⟨fun s o ho => ?_,fun s s' o h => ?_⟩
    · simp only [activeOf,apply,terminateAll_active]
      exact if_neg ho
    · simp only [activeOf,apply,terminateAll_active] at h ⊢
      rw [h]

/-- Updates of different objects at different outpoints commute. -/
theorem apply_comm {first second : Update} (hkeys : first.keys.Disjoint second.keys)
    (houtpoints : first.outpoints.Disjoint second.outpoints) (state : ChainState) :
    first.apply (second.apply state) = second.apply (first.apply state) := by
  have hobjects : (first.apply (second.apply state)).objects = (second.apply (first.apply state)).objects :=
    Std.ExtTreeMap.ext_getElem? fun k => first.objects_local.comm second.objects_local hkeys state k
  have hactive : (first.apply (second.apply state)).active = (second.apply (first.apply state)).active :=
    Std.ExtTreeMap.ext_getElem? fun o => first.active_local.comm second.active_local houtpoints state o
  rw [first.apply_frame (second.apply state),second.apply_frame (first.apply state),hobjects,hactive,
    second.apply_frame state,first.apply_frame state]

end Update

/-- The event of the same transaction at another index of the block. -/
def Event.at (txIndex : UInt32) (event : Event) : Event := { event with txIndex := txIndex }

/-- The update stays with the carriers that the transaction spends and the object it creates. -/
structure Update.Within (P : Primitives) (state : ChainState) (tx : TxView) (update : Update) : Prop where
  keys : ∀ key ∈ update.keys, key = objectKey P (state.binding.namespace P) tx.txid ∨
    ∃ spend ∈ carrierSpends state tx, spend.2.objectKey = key
  outpoints : ∀ outpoint ∈ update.outpoints, outpoint = ⟨tx.txid,1⟩ ∨
    ∃ spend ∈ carrierSpends state tx, spend.2.currentOutpoint = outpoint

theorem Update.Within.moved {spend : ℕ × ObjectState} (hmem : spend ∈ carrierSpends state tx)
    {object : ObjectState} (hkey : object.objectKey = spend.2.objectKey)
    (hnew : object.currentOutpoint = ⟨tx.txid,1⟩) :
    (Update.move spend.2.currentOutpoint object).Within P state tx := by
  refine ⟨?_,?_⟩
  · intro key hmember
    exact Or.inr ⟨spend,hmem,hkey.symm.trans (List.mem_singleton.mp hmember).symm⟩
  · intro outpoint hmember
    simp only [Update.outpoints,List.mem_cons,List.not_mem_nil,or_false] at hmember
    rcases hmember with rfl | rfl
    · exact Or.inr ⟨spend,hmem,rfl⟩
    · exact Or.inl hnew

theorem Update.Within.ended {update : Update} {spend : ℕ × ObjectState}
    (hmem : spend ∈ carrierSpends state tx) (hkeys : update.keys = [spend.2.objectKey])
    (houtpoints : update.outpoints = [spend.2.currentOutpoint]) : update.Within P state tx := by
  refine ⟨?_,?_⟩
  · intro key hmember
    rw [hkeys] at hmember
    exact Or.inr ⟨spend,hmem,(List.mem_singleton.mp hmember).symm⟩
  · intro outpoint hmember
    rw [houtpoints] at hmember
    exact Or.inr ⟨spend,hmem,(List.mem_singleton.mp hmember).symm⟩

/-- One update made in a state is what the call makes of the other state, at every index. -/
def Recurs (P : Primitives) (state other : ChainState) (tx : TxView) (state' : ChainState)
    (events : List Event) (call : UInt32 → Outcome Infallible (ChainState × List Event)) : Prop :=
  ∃ update : Update, state' = update.apply state ∧ update.Within P state tx ∧
    ∀ index, call index = ok (update.apply other,events.map (Event.at index))

theorem Recurs.congr {call call' : UInt32 → Outcome Infallible (ChainState × List Event)}
    (h : Recurs P state other tx state' events call) (hcall : ∀ index, call' index = call index) :
    Recurs P state other tx state' events call' := by
  obtain ⟨update,happlied,hwithin,hrepeated⟩ := h
  exact ⟨update,happlied,hwithin,fun index => (hcall index).trans (hrepeated index)⟩

theorem Recurs.keep {call : UInt32 → Outcome Infallible (ChainState × List Event)}
    (hcall : ∀ index, call index = ok (other,events.map (Event.at index))) :
    Recurs P state other tx state events call :=
  ⟨.keep,rfl,⟨by simp [Update.keys],by simp [Update.outpoints]⟩,hcall⟩

section Calls

theorem terminateEach_repeats {eventIndex : UInt32} {reason : Reason} {ns : Hash32}
    {carriers : List (ℕ × ObjectState)} {sub : ℕ}
    (h : terminateEach block tx txIndex eventIndex reason ns state sub carriers = ok (state',events))
    (other : ChainState) (index : UInt32) :
    terminateEach block tx index eventIndex reason ns other sub carriers =
      ok (terminateAll other tx.txid carriers,events.map (Event.at index)) := by
  induction carriers generalizing state sub events other with
  | nil =>
    simp only [terminateEach,pure_eq_ok,Outcome.ok.injEq,Prod.mk.injEq] at h
    simp [terminateEach,terminateAll,← h.2]
  | cons spend rest ih =>
    obtain ⟨i,object⟩ := spend
    simp only [terminateEach,bind_eq_ok,expect_eq_ok,pure_eq_ok,Outcome.ok.injEq,Prod.mk.injEq,
      Prod.exists] at h
    obtain ⟨subIndex,hsub,next,later,hrest,rfl,rfl⟩ := h
    have hlater := ih hrest (terminateObject other object .exitedNoncanonical tx.txid)
    simp only [terminateEach,hsub,expect,ok_bind,hlater,pure_eq_ok,List.map_cons]
    rfl

theorem terminateCarriers_recurs {eventIndex : UInt32} {reason : Reason} {ns : Hash32}
    (h : terminateCarriers state block tx txIndex eventIndex reason ns (carrierSpends state tx) =
      ok (state',events)) :
    Recurs P state other tx state' events fun index =>
      terminateCarriers other block tx index eventIndex reason ns (carrierSpends state tx) := by
  refine ⟨.exit tx.txid ((carrierSpends state tx).insertionSort CarrierLe),?_,⟨?_,?_⟩,?_⟩
  · exact (terminateEach_ok h).1
  · intro key hkey
    obtain ⟨spend,hspend,hsame⟩ := List.mem_map.mp hkey
    exact Or.inr ⟨spend,(List.mem_insertionSort _).mp hspend,hsame⟩
  · intro outpoint houtpoint
    obtain ⟨spend,hspend,hsame⟩ := List.mem_map.mp houtpoint
    exact Or.inr ⟨spend,(List.mem_insertionSort _).mp hspend,hsame⟩
  · exact fun index => terminateEach_repeats h other index

theorem validateSingle_congr {blockHeight : UInt64} {marker : ParsedMarker}
    {carrier : Option (ℕ × ObjectState)} (hbinding : other.binding = state.binding)
    (hstatus : other.protocolStatus = state.protocolStatus) :
    validateSingle P other blockHeight tx marker carrier =
      validateSingle P state blockHeight tx marker carrier := by
  simp only [validateSingle,validateCreate,hbinding,hstatus]

theorem validEventBase_at {index eventIndex sequence : UInt32} {eventType : EventType} {key commitment : Hash32}
    {predecessor successor : OutPointRef} {keys : KeyPair} (hbinding : other.binding = state.binding) :
    validEventBase P other block tx index eventIndex eventType key sequence predecessor successor keys
      commitment = (validEventBase P state block tx txIndex eventIndex eventType key sequence predecessor
        successor keys commitment).at index := by
  simp only [validEventBase,Event.at,hbinding]

theorem applyValidOperation_create {keys : KeyPair} {eventIndex : UInt32} {initHeight : UInt64}
    {hOpen hClose : UInt32} (hactive : state.protocolStatus = .active initHeight hOpen hClose) :
    applyValidOperation P state block tx txIndex eventIndex (.create keys) =
      ok (addObject state (createdObject P state block tx keys hOpen hClose),
        validEventBase P state block tx txIndex eventIndex .create
          (objectKey P (state.binding.namespace P) tx.txid) 0 .zero ⟨tx.txid,1⟩ keys Hash32.zero) := by
  unfold applyValidOperation
  dsimp only
  split
  · next found hOpen' hClose' hsome =>
    rw [hactive,ProtocolStatus.active.injEq] at hsome
    obtain ⟨rfl,rfl,rfl⟩ := hsome
    rfl
  · next hnone => exact absurd hactive (hnone initHeight hOpen hClose)

theorem applyValidOperation_repeats {eventIndex : UInt32} {operation : ValidatedOperation} {event : Event}
    {marker : ParsedMarker} (hbinding : other.binding = state.binding)
    (hstatus : other.protocolStatus = state.protocolStatus)
    (haccepted : Accepted P state block.height tx marker (carrierSpends state tx).head? operation)
    (h : applyValidOperation P state block tx txIndex eventIndex operation = ok (state',event)) :
    ∃ update : Update, state' = update.apply state ∧ update.Within P state tx ∧ ∀ index,
      applyValidOperation P other block tx index eventIndex operation =
        ok (update.apply other,event.at index) := by
  have hspend : ∀ {object : ObjectState}, (carrierSpends state tx).head? = some (0,object) →
      ∃ spend ∈ carrierSpends state tx, spend.2 = object := by
    intro object hhead
    exact ⟨(0,object),List.mem_of_head? hhead,rfl⟩
  cases operation with
  | create keys =>
    obtain ⟨_,_,_,_,_,_,hcreate⟩ := haccepted
    obtain ⟨initHeight,hOpen,hClose,hactive,_⟩ := hcreate.phase
    rw [applyValidOperation_create hactive,Outcome.ok.injEq,Prod.mk.injEq] at h
    obtain ⟨rfl,rfl⟩ := h
    refine ⟨.add (createdObject P state block tx keys hOpen hClose),rfl,⟨?_,?_⟩,fun index => ?_⟩
    · intro key hkey
      exact Or.inl (List.mem_singleton.mp hkey)
    · intro outpoint houtpoint
      exact Or.inl (List.mem_singleton.mp houtpoint)
    · rw [applyValidOperation_create (hstatus.trans hactive),hbinding,createdObject,hbinding]
      exact congrArg ok (Prod.ext rfl (validEventBase_at hbinding))
  | mark object sequence commitment =>
    obtain ⟨_,_,_,_,_,_,hmark⟩ := haccepted
    obtain ⟨spend,hmem,rfl⟩ := hspend hmark.carrier_eq
    simp only [applyValidOperation,bind_eq_ok,expect_eq_ok,pure_eq_ok,Outcome.ok.injEq,Prod.mk.injEq] at h
    obtain ⟨chapterCount,hchapter,rfl,rfl⟩ := h
    refine ⟨.move spend.2.currentOutpoint { spend.2 with
      currentOutpoint := ⟨tx.txid,1⟩, stateSeq := sequence, chapterCount := chapterCount },rfl,
      .moved hmem rfl rfl,fun index => ?_⟩
    simp only [applyValidOperation,hchapter,expect,ok_bind]
    exact congrArg ok (Prod.ext rfl (validEventBase_at hbinding))
  | rotate object sequence keys =>
    obtain ⟨_,_,_,_,_,_,_,hrotate⟩ := haccepted
    obtain ⟨spend,hmem,rfl⟩ := hspend hrotate.carrier_eq
    simp only [applyValidOperation,pure_eq_ok,Outcome.ok.injEq,Prod.mk.injEq] at h
    obtain ⟨rfl,rfl⟩ := h
    exact ⟨.move spend.2.currentOutpoint { spend.2 with
      currentOutpoint := ⟨tx.txid,1⟩, stateSeq := sequence, keys := keys },rfl,.moved hmem rfl rfl,
      fun index => congrArg ok (Prod.ext rfl (validEventBase_at hbinding))⟩
  | close object sequence commitment =>
    obtain ⟨_,_,_,_,hclose⟩ := haccepted
    obtain ⟨spend,hmem,rfl⟩ := hspend hclose.carrier_eq
    simp only [applyValidOperation,pure_eq_ok,Outcome.ok.injEq,Prod.mk.injEq] at h
    obtain ⟨rfl,rfl⟩ := h
    exact ⟨.close spend.2 sequence tx.txid,rfl,.ended hmem rfl rfl,
      fun index => congrArg ok (Prod.ext rfl (validEventBase_at hbinding))⟩

theorem processMarked_recurs {candidate : MarkerCandidate} (hbinding : other.binding = state.binding)
    (hstatus : other.protocolStatus = state.protocolStatus)
    (h : processMarked P state block tx txIndex candidate (carrierSpends state tx) = ok (state',events)) :
    Recurs P state other tx state' events fun index =>
      processMarked P other block tx index candidate (carrierSpends state tx) := by
  have hvalidation : (candidate.parse >>= fun marker =>
      validateSingle P other block.height tx marker (carrierSpends state tx).head?) =
        candidate.parse >>= fun marker =>
          validateSingle P state block.height tx marker (carrierSpends state tx).head? := by
    simp only [validateSingle_congr hbinding hstatus]
  simp only [processMarked] at h
  cases hresult : candidate.parse >>= fun marker =>
      validateSingle P state block.height tx marker (carrierSpends state tx).head? with
  | panic => simp [hresult] at h
  | err reason =>
    simp only [hresult] at h
    split at h
    · next hnone =>
      obtain ⟨rfl,rfl⟩ := Prod.mk.inj (Outcome.ok.inj h)
      refine .keep fun index => ?_
      simp only [processMarked,hvalidation,hresult,if_pos hnone]
      rfl
    · next hsome =>
      refine (terminateCarriers_recurs h).congr fun index => ?_
      simp only [processMarked,hvalidation,hresult,if_neg hsome]
  | ok operation =>
    simp only [hresult,bind_eq_ok,pure_eq_ok,Outcome.ok.injEq,Prod.mk.injEq,Prod.exists] at h
    obtain ⟨next,event,happly,rfl,rfl⟩ := h
    obtain ⟨marker,_,hsingle⟩ := bind_eq_ok.mp hresult
    obtain ⟨update,happlied,hwithin,hcall⟩ :=
      applyValidOperation_repeats hbinding hstatus (validateSingle_ok hsingle) happly
    refine ⟨update,happlied,hwithin,fun index => ?_⟩
    simp only [processMarked,hvalidation,hresult,hcall index,ok_bind,pure_eq_ok]
    rfl

theorem processMarkerless_recurs (hbinding : other.binding = state.binding)
    (h : processMarkerless P state block tx txIndex (carrierSpends state tx) = ok (state',events)) :
    Recurs P state other tx state' events fun index =>
      processMarkerless P other block tx index (carrierSpends state tx) := by
  simp only [processMarkerless] at h
  cases hhead : (carrierSpends state tx).head? with
  | none =>
    simp only [hhead,pure_eq_ok,Outcome.ok.injEq,Prod.mk.injEq] at h
    obtain ⟨rfl,rfl⟩ := h
    refine .keep fun index => ?_
    simp only [processMarkerless,hhead]
    rfl
  | some spend =>
    obtain ⟨i,object⟩ := spend
    simp only [hhead] at h
    split at h
    · next hshape =>
      cases hrefund : validateRefund P block.height tx object with
      | panic => simp [hrefund] at h
      | err reason =>
        simp only [hrefund] at h
        refine (terminateCarriers_recurs h).congr fun index => ?_
        simp only [processMarkerless,hhead,if_pos hshape,hrefund,hbinding]
      | ok u =>
        simp only [hrefund,pure_eq_ok,Outcome.ok.injEq,Prod.mk.injEq] at h
        obtain ⟨rfl,rfl⟩ := h
        refine ⟨.refund object tx.txid,rfl,.ended (List.mem_of_head? hhead) rfl rfl,fun index => ?_⟩
        simp only [processMarkerless,hhead,if_pos hshape,hrefund]
        refine congrArg ok (Prod.ext rfl ?_)
        exact congrArg (fun event => [event]) (validEventBase_at hbinding)
    · next hshape =>
      refine (terminateCarriers_recurs h).congr fun index => ?_
      simp only [processMarkerless,hhead,if_neg hshape,hbinding]

/-- A transaction makes the same update in every state with the same binding and status in
which it spends the same carriers. -/
theorem processTransaction_recurs (hbinding : other.binding = state.binding)
    (hstatus : other.protocolStatus = state.protocolStatus)
    (hcarriers : carrierSpends other tx = carrierSpends state tx)
    (h : processTransaction P state block tx txIndex = ok (state',events)) :
    Recurs P state other tx state' events fun index => processTransaction P other block tx index := by
  unfold processTransaction at h
  dsimp only at h
  split at h
  · next hmany =>
    split at h
    · next hnone =>
      obtain ⟨rfl,rfl⟩ := Prod.mk.inj (Outcome.ok.inj h)
      refine .keep fun index => ?_
      simp only [processTransaction,hbinding,hcarriers,if_pos hmany,if_pos hnone]
      rfl
    · next hsome =>
      refine (terminateCarriers_recurs h).congr fun index => ?_
      simp only [processTransaction,hbinding,hcarriers,if_pos hmany,if_neg hsome]
  next hone =>
  split at h
  · next hmany =>
    refine (terminateCarriers_recurs h).congr fun index => ?_
    simp only [processTransaction,hbinding,hcarriers,if_neg hone,if_pos hmany]
  next hsingle =>
  cases hhead : (markerCandidates tx state.binding).head? with
  | none =>
    simp only [hhead] at h
    refine (processMarkerless_recurs hbinding h).congr fun index => ?_
    simp only [processTransaction,hbinding,hcarriers,if_neg hone,if_neg hsingle,hhead]
  | some candidate =>
    simp only [hhead] at h
    refine (processMarked_recurs hbinding hstatus h).congr fun index => ?_
    simp only [processTransaction,hbinding,hcarriers,if_neg hone,if_neg hsingle,hhead]

end Calls
end TandemVerifier
