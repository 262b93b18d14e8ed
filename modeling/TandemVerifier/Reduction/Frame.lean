import TandemVerifier.Reduction.Deployment
import TandemVerifier.Reduction.EventOrder
import TandemVerifier.Reduction.NoPanic
import TandemVerifier.Reduction.ObjectHistory

/-! # What one transaction leaves unchanged

Every branch of the reducer removes the outpoint that an object records and not the prevout
that spent it, and writes back a clone under the key the clone records. That only the
carriers spent by the transaction are touched follows from the index alone: an indexed
object records the outpoint and the key under which it is found.
-/
namespace TandemVerifier
open Library Library.Outcome
variable {P : Primitives} {state state' : ChainState} {block : BlockView} {tx : TxView}
variable {txIndex : UInt32} {events : List Event}

/-- The active index holds exactly the outpoints of the active objects, under their own keys. -/
def ActiveBijection (state : ChainState) : Prop :=
  ∀ (outpoint : OutPointRef) (key : Hash32), state.active[outpoint]? = some key ↔
    ∃ object, state.objects[key]? = some object ∧ object.objectKey = key ∧ object.status = .active ∧
      object.currentOutpoint = outpoint

/-- Every reached state has the bijection. -/
theorem Indexed.activeBijection {binding : Binding} {placed : List Placed}
    (h : Indexed P binding placed state) : ActiveBijection state := by
  intro outpoint key
  rw [h.index outpoint key]
  constructor
  · rintro ⟨object,hobject,hcarrier⟩
    obtain ⟨hstatus,houtpoint⟩ := ObjectState.carrier_eq_some.mp hcarrier
    exact ⟨object,hobject,h.key_eq key object hobject,hstatus,houtpoint⟩
  · rintro ⟨object,hobject,_,hstatus,houtpoint⟩
    exact ⟨object,hobject,ObjectState.carrier_eq_some.mpr ⟨hstatus,houtpoint⟩⟩

/-- A spent carrier records the prevout that spends it and the key that indexes it. -/
theorem ActiveBijection.spend {i : ℕ} {object : ObjectState} (h : ActiveBijection state)
    (hspend : (i,object) ∈ carrierSpends state tx) : ∃ input ∈ tx.inputs,
      input.prevout = object.currentOutpoint ∧ state.active[object.currentOutpoint]? = some object.objectKey := by
  obtain ⟨input,key,hinput,hactive,hobject⟩ := mem_carrierSpends.mp hspend
  obtain ⟨stored,hstored,hkey,_,houtpoint⟩ := (h input.prevout key).mp hactive
  obtain rfl := Option.some.inj (hobject.symm.trans hstored)
  exact ⟨input,List.mem_of_getElem? hinput,houtpoint.symm,by rw [houtpoint,hkey,hactive]⟩

theorem ActiveBijection.silent (h : ActiveBijection state) (hcarriers : carrierSpends state tx = []) :
    ∀ input ∈ tx.inputs, state.active[input.prevout]? = none := by
  intro input hinput
  by_contra hsome
  obtain ⟨key,hactive⟩ := Option.ne_none_iff_exists'.mp hsome
  obtain ⟨object,hobject,_⟩ := (h input.prevout key).mp hactive
  obtain ⟨i,hi⟩ := List.mem_iff_getElem?.mp hinput
  have hspend : (i,object) ∈ carrierSpends state tx :=
    mem_carrierSpends.mpr ⟨input,key,hi,hactive,hobject⟩
  simp [hcarriers] at hspend

/-- The two maps agree outside the given carriers and the first output after the marker. -/
structure Touches (P : Primitives) (state : ChainState) (tx : TxView) (carriers : List (ℕ × ObjectState))
    (state' : ChainState) : Prop where
  objects : ∀ key, key ≠ objectKey P (state.binding.namespace P) tx.txid →
    key ∉ carriers.map (fun spend => spend.2.objectKey) → state'.objects[key]? = state.objects[key]?
  active : ∀ outpoint, outpoint ≠ ⟨tx.txid,1⟩ →
    outpoint ∉ carriers.map (fun spend => spend.2.currentOutpoint) →
    state'.active[outpoint]? = state.active[outpoint]?

theorem Touches.refl {carriers : List (ℕ × ObjectState)} : Touches P state tx carriers state :=
  ⟨fun _ _ _ => rfl,fun _ _ _ => rfl⟩

theorem Touches.moved {i : ℕ} {object moved : ObjectState} (hkey : moved.objectKey = object.objectKey)
    (houtpoint : moved.currentOutpoint = ⟨tx.txid,1⟩) :
    Touches P state tx [(i,object)] (moveCarrier state object.currentOutpoint moved) where
  objects key _ hother := by
    rw [moveCarrier_getElem?,if_neg]
    rw [hkey]
    simpa [eq_comm] using hother
  active outpoint hnew hother := by
    have hold : object.currentOutpoint ≠ outpoint := by simpa [eq_comm] using hother
    simp only [moveCarrier,houtpoint,Std.ExtTreeMap.getElem?_insert,Std.ExtTreeMap.getElem?_erase,
      Std.compare_eq_iff_eq]
    rw [if_neg (Ne.symm hnew),if_neg hold]

theorem Terminates.touches {i : ℕ} {object : ObjectState} {update : ObjectState → ObjectState}
    (h : Terminates state object update state') : Touches P state tx [(i,object)] state' where
  objects key _ hother := by
    rw [h.getElem?_objects,if_neg]
    simpa [eq_comm] using hother
  active outpoint _ hother := by
    have hold : object.currentOutpoint ≠ outpoint := by simpa [eq_comm] using hother
    rw [h.active_eq,Std.ExtTreeMap.getElem?_erase]
    simp [hold]

/-- Every effect is confined to the spent carriers and the object that the transaction creates. -/
theorem TxEffect.touches (h : TxEffect P state block tx txIndex state' events) :
    Touches P state tx (carrierSpends state tx) state' := by
  cases h with
  | silent hcandidates hcarriers => exact .refl
  | rejected eventIndex eventType reason ns hcandidates hcarriers => exact .refl
  | created candidate marker keys initHeight hOpen hClose hcandidates hparse hcarriers hstatus haccepted =>
    refine ⟨fun key hnew _ => ?_,fun outpoint hnew _ => ?_⟩
    · rw [addObject_getElem?,if_neg]
      exact Ne.symm hnew
    · simp only [addObject,createdObject,Std.ExtTreeMap.getElem?_insert,Std.compare_eq_iff_eq]
      rw [if_neg (Ne.symm hnew)]
  | marked candidate marker object sequence commitment chapterCount hcandidates hparse hcarriers hchapter
      haccepted =>
    rw [hcarriers]
    exact .moved rfl rfl
  | rotated candidate marker object sequence keys hcandidates hparse hcarriers haccepted =>
    rw [hcarriers]
    exact .moved rfl rfl
  | closed candidate marker object sequence commitment hcandidates hparse hcarriers haccepted =>
    rw [hcarriers]
    exact (closeObject_terminates state object sequence tx.txid).touches
  | refunded object hcandidates hcarriers haccepted =>
    rw [hcarriers]
    exact (terminateObject_terminates state object .refunded tx.txid (by simp)).touches
  | exited eventIndex reason ns carriers hnonempty hperm hsorted hlength =>
    refine ⟨fun key _ hother => ?_,fun outpoint _ hother => ?_⟩
    · rw [terminateAll_getElem?,if_neg]
      rwa [(hperm.map fun spend => spend.2.objectKey).mem_iff]
    · rw [terminateAll_active,if_neg]
      rwa [(hperm.map fun spend => spend.2.currentOutpoint).mem_iff]

/-- Only a transaction without candidates and carriers is silent. -/
theorem TxEffect.silent_iff (h : TxEffect P state block tx txIndex state' events) (hevents : events = []) :
    markerCandidates tx state.binding = [] ∧ carrierSpends state tx = [] := by
  cases h with
  | silent hcandidates hcarriers => exact ⟨hcandidates,hcarriers⟩
  | exited eventIndex reason ns carriers hnonempty hperm hsorted hlength =>
    have hlength := @exitEvents_length block tx txIndex eventIndex reason ns 0 carriers
    rw [hevents] at hlength
    exact absurd (List.length_eq_zero_iff.mp hlength.symm) hnonempty
  | _ => simp at hevents

/-- Rejections change nothing, and only they are of their class. -/
theorem TxEffect.rejected_state (h : TxEffect P state block tx txIndex state' events)
    (hclass : ∀ event ∈ events, event.validityClass = .invalidNoState) : state' = state := by
  cases h with
  | silent hcandidates hcarriers => rfl
  | rejected eventIndex eventType reason ns hcandidates hcarriers => rfl
  | exited eventIndex reason ns carriers hnonempty hperm hsorted hlength =>
    obtain ⟨first,rest,rfl⟩ := List.exists_cons_of_ne_nil hnonempty
    have hfirst := hclass _ List.mem_cons_self
    simp [exitEvent] at hfirst
  | _ =>
    have hfirst := hclass _ List.mem_cons_self
    simp [validEventBase,validRefundEvent] at hfirst

/-- One transaction changes only the objects whose carriers it spends and the one it creates, only
the outpoints of these carriers and its own, and nothing when it is rejected or silent. -/
theorem transaction_frame (hindex : ActiveBijection state)
    (h : processTransaction P state block tx txIndex = ok (state',events)) :
    (state'.binding = state.binding ∧ state'.protocolStatus = state.protocolStatus ∧
      state'.tipHeight = state.tipHeight ∧ state'.tipHash = state.tipHash ∧
      state'.chainedRoot = state.chainedRoot) ∧
    (∀ key, key ≠ objectKey P (state.binding.namespace P) tx.txid →
      (∀ input ∈ tx.inputs, state.active[input.prevout]? ≠ some key) →
      state'.objects[key]? = state.objects[key]?) ∧
    (∀ outpoint, outpoint ≠ ⟨tx.txid,1⟩ →
      (∀ input ∈ tx.inputs, input.prevout = outpoint → state.active[outpoint]? = none) →
      state'.active[outpoint]? = state.active[outpoint]?) ∧
    ((∀ event ∈ events, event.validityClass = .invalidNoState) → state' = state) ∧
    (events = [] → markerCandidates tx state.binding = [] ∧
      ∀ input ∈ tx.inputs, state.active[input.prevout]? = none) := by
  have heffect := processTransaction_effect h
  have hframe := heffect.frame
  refine ⟨?_,?_,?_,heffect.rejected_state,?_⟩
  · rw [hframe]
    exact ⟨rfl,rfl,rfl,rfl,rfl⟩
  · intro key hnew hother
    apply heffect.touches.objects key hnew
    intro hmem
    obtain ⟨⟨i,object⟩,hspend,rfl⟩ := List.mem_map.mp hmem
    obtain ⟨input,hinput,hprevout,hactive⟩ := hindex.spend hspend
    exact hother input hinput (hprevout ▸ hactive)
  · intro outpoint hnew hother
    apply heffect.touches.active outpoint hnew
    intro hmem
    obtain ⟨⟨i,object⟩,hspend,rfl⟩ := List.mem_map.mp hmem
    obtain ⟨input,hinput,hprevout,hactive⟩ := hindex.spend hspend
    rw [hother input hinput hprevout] at hactive
    exact absurd hactive (by simp)
  · intro hempty
    obtain ⟨hcandidates,hcarriers⟩ := heffect.silent_iff hempty
    exact ⟨hcandidates,hindex.silent hcarriers⟩

/-- Two objects are active, and one transaction spends the carrier of the first: the second object
and its outpoint stay. -/
theorem sample_transaction_frame : ∃ paired state' events,
    paired.active.toList = [(⟨sampleCreate.txid,1⟩,sampleKey),(⟨neighbourCreate.txid,1⟩,neighbourKey)] ∧
    processTransaction bitcoinPrimitives paired exitBlock exitOne 0 = ok (state',events) ∧ events ≠ [] ∧
    state'.protocolStatus = paired.protocolStatus ∧
    (∃ object, state'.objects[neighbourKey]? = some object ∧ object.status = .active) ∧
    state'.active[(⟨neighbourCreate.txid,1⟩ : OutPointRef)]? = some neighbourKey := by
  obtain ⟨paired,deltas,_,_,hrun,hpaired,_⟩ := samplePair_run
  have hreached := run_reached hrun
  have hindex := (hreached.indexed pair_distinct).activeBijection
  have hreturns : (processTransaction bitcoinPrimitives paired exitBlock exitOne 0).Returns :=
    processTransaction_returns hreached.numbered (by decide)
  obtain ⟨⟨state',events⟩,hcall⟩ := hreturns.exists_ok
  have hactive : ∀ (outpoint : OutPointRef) key, (outpoint,key) ∈ paired.active.toList →
      paired.active[outpoint]? = some key := fun _ _ =>
    Std.ExtTreeMap.mem_toList_iff_getElem?_eq_some.mp
  have hspent := hactive ⟨sampleCreate.txid,1⟩ sampleKey (by rw [hpaired]; exact .head _)
  have hother := hactive ⟨neighbourCreate.txid,1⟩ neighbourKey (by rw [hpaired]; exact .tail _ (.head _))
  have hnew : neighbourKey ≠ objectKey bitcoinPrimitives (paired.binding.namespace bitcoinPrimitives)
      exitOne.txid := by
    rw [applyBlocks_binding hrun]
    decide +kernel
  obtain ⟨⟨_,hstatus,_⟩,hobjects,houtpoints,_,hsilent⟩ := transaction_frame hindex hcall
  refine ⟨paired,state',events,hpaired,hcall,?_,hstatus,?_,?_⟩
  · intro hempty
    have hinput := (hsilent hempty).2 _ (.head _)
    exact Option.some_ne_none _ (hspent.symm.trans hinput)
  · obtain ⟨object,hobject,_,hobjectStatus,_⟩ := (hindex _ _).mp hother
    refine ⟨object,?_,hobjectStatus⟩
    rw [hobjects neighbourKey hnew,hobject]
    intro input hinput
    obtain rfl := List.mem_singleton.mp hinput
    intro hspends
    exact absurd (hspent.symm.trans hspends) (by decide +kernel)
  · rw [houtpoints _ (by decide),hother]
    intro input hinput hprevout
    obtain rfl := List.mem_singleton.mp hinput
    exact absurd hprevout (by decide)

end TandemVerifier
