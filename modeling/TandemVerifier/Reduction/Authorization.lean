import TandemVerifier.Reduction.ObjectHistory

/-! # Who may change an object

Every valid transition spends the current carrier of its object with the first input,
reveals the recorded keys there and has every input signed. The keys of an object come
from the two inputs that created it and are replaced only by a rotation, whose new keys
again sign inputs of their own.
-/
namespace TandemVerifier
open Library Library.Outcome
variable {P : Primitives} {binding : Binding} {placed : List Placed} {log : List Event}
variable {state after : ChainState} {block : BlockView} {tx : TxView} {txIndex : UInt32}
variable {emitted : List Event} {object : ObjectState}

/-- The transaction spends the current carrier of the object with its first input, under the
recorded keys, spends no other active carrier and is signed throughout. -/
structure Authorized (P : Primitives) (state : ChainState) (tx : TxView) (object : ObjectState) : Prop where
  stored : state.objects[object.objectKey]? = some object
  current : ∃ input, tx.inputs[0]? = some input ∧ input.prevout = object.currentOutpoint ∧
    state.active[input.prevout]? = some object.objectKey ∧ input.carrierKeys P = some object.keys
  alone : ∀ (i : ℕ) (input : InputView), tx.inputs[i]? = some input → i ≠ 0 →
    state.active[input.prevout]? = none
  signed : ∀ input ∈ tx.inputs, input.signaturesValid = true

/-- The keys of the pair are sorted, valid and revealed by the inputs at two positions. -/
structure Revealed (P : Primitives) (tx : TxView) (i j : ℕ) (keys : KeyPair) : Prop where
  checked : KeyPair.checked P keys.key0 keys.key1 = some keys
  first : ∃ input, tx.inputs[i]? = some input ∧ input.p2wpkhKey P = some keys.key0
  second : ∃ input, tx.inputs[j]? = some input ∧ input.p2wpkhKey P = some keys.key1

section Steps

theorem Indexed.authorized {input : InputView} (h : Indexed P binding placed state)
    (hcarriers : carrierSpends state tx = [(0,object)]) (hinput : tx.inputs[0]? = some input)
    (hkeys : input.carrierKeys P = some object.keys)
    (hsigned : ∀ input ∈ tx.inputs, input.signaturesValid = true) : Authorized P state tx object := by
  have hspend : (0,object) ∈ carrierSpends state tx := by simp [hcarriers]
  obtain ⟨hobject,_,hactive,spent,hspent,hprevout⟩ := h.owner hspend
  obtain rfl : spent = input := Option.some.inj (hspent.symm.trans hinput)
  refine ⟨hobject,⟨spent,hspent,hprevout,hprevout ▸ hactive,hkeys⟩,?_,hsigned⟩
  intro i other hother hi
  cases hindexed : state.active[other.prevout]? with
  | none => rfl
  | some key =>
    obtain ⟨owner,howner,_⟩ := (h.index _ _).mp hindexed
    have hmem : (i,owner) ∈ carrierSpends state tx :=
      mem_carrierSpends.mpr ⟨other,key,hother,hindexed,howner⟩
    simp only [hcarriers,List.mem_singleton,Prod.mk.injEq] at hmem
    exact absurd hmem.1 hi

/-- What a valid operation of each type says about its object and its inputs. -/
inductive Grant (P : Primitives) (state after : ChainState) (tx : TxView) (event : Event) : Prop
  | create (created : ObjectState) (htype : event.eventType = .create)
      (hcreated : after.objects[event.objectKey]? = some created)
      (hkeys : Revealed P tx 0 1 created.keys)
  | mark (object : ObjectState) (input : InputView) (sponsor : Key33) (htype : event.eventType = .mark)
      (hkey : event.objectKey = object.objectKey) (hauthorized : Authorized P state tx object)
      (hinput : tx.inputs[1]? = some input) (hsponsor : input.p2wpkhKey P = some sponsor)
      (hmember : object.keys.contains sponsor = true)
  | rotate (object rotated : ObjectState) (htype : event.eventType = .rotate)
      (hkey : event.objectKey = object.objectKey) (hauthorized : Authorized P state tx object)
      (hrotated : after.objects[event.objectKey]? = some rotated)
      (hchanged : rotated.keys ≠ object.keys) (hkeys : Revealed P tx 1 2 rotated.keys)
  | release (object : ObjectState) (htype : event.eventType = .close ∨ event.eventType = .refund)
      (hkey : event.objectKey = object.objectKey) (hauthorized : Authorized P state tx object)

theorem TxEffect.grant {event : Event} (h : TxEffect P state block tx txIndex after emitted)
    (hindexed : Indexed P binding placed state) (hevent : event ∈ emitted)
    (hvalid : event.validityClass = .validOperation) : Grant P state after tx event := by
  cases h with
  | silent hcandidates hcarriers => simp at hevent
  | rejected eventIndex eventType reason ns hcandidates hcarriers =>
    rw [List.mem_singleton.mp hevent] at hvalid
    simp [bareInvalidEvent] at hvalid
  | created candidate marker keys initHeight hOpen hClose hcandidates hparse hcarriers hstatus haccepted =>
    obtain ⟨input0,input1,_,_,_,_,haccept⟩ := haccepted
    rw [List.mem_singleton.mp hevent]
    refine .create (createdObject P state block tx keys hOpen hClose) rfl ?_
      ⟨haccept.checked,⟨input0,?_,haccept.key0⟩,⟨input1,?_,haccept.key1⟩⟩
    · simp [addObject,createdObject,validEventBase]
    · simp [haccept.inputs]
    · simp [haccept.inputs]
  | marked candidate marker object sequence commitment chapterCount hcandidates hparse hcarriers
      hchapter haccepted =>
    obtain ⟨input0,input1,_,_,_,sponsor,haccept⟩ := haccepted
    rw [List.mem_singleton.mp hevent]
    exact .mark object input1 sponsor rfl rfl
      (hindexed.authorized hcarriers (by simp [haccept.inputs]) haccept.carrierKeys haccept.signed)
      (by simp [haccept.inputs]) haccept.sponsorKey haccept.sponsorMember
  | rotated candidate marker object sequence keys hcandidates hparse hcarriers haccepted =>
    obtain ⟨input0,input1,input2,_,_,_,_,haccept⟩ := haccepted
    rw [List.mem_singleton.mp hevent]
    refine .rotate object { object with currentOutpoint := ⟨tx.txid,1⟩, stateSeq := sequence, keys := keys }
      rfl rfl
      (hindexed.authorized hcarriers (by simp [haccept.inputs]) haccept.carrierKeys haccept.signed)
      ?_ (Ne.symm haccept.rotated)
      ⟨haccept.checked,⟨input1,?_,haccept.key0⟩,⟨input2,?_,haccept.key1⟩⟩
    · simp [moveCarrier,validEventBase]
    · simp [haccept.inputs]
    · simp [haccept.inputs]
  | closed candidate marker object sequence commitment hcandidates hparse hcarriers haccepted =>
    obtain ⟨input,_,_,_,haccept⟩ := haccepted
    rw [List.mem_singleton.mp hevent]
    exact .release object (Or.inl rfl) rfl
      (hindexed.authorized hcarriers (by simp [haccept.inputs]) haccept.carrierKeys haccept.signed)
  | refunded object hcandidates hcarriers haccepted =>
    obtain ⟨input,_,_,haccept⟩ := haccepted
    rw [List.mem_singleton.mp hevent]
    exact .release object (Or.inr rfl) rfl
      (hindexed.authorized hcarriers (by simp [haccept.inputs]) haccept.carrierKeys
        (by simp [haccept.inputs,haccept.signed]))
  | exited eventIndex reason ns carriers hnonempty hperm hsorted hlength =>
    obtain ⟨spend,_,subIndex,rfl⟩ := mem_exitEvents hevent
    simp [exitEvent] at hvalid

/-- An object whose keys changed was rotated by an event of the same call. -/
theorem TxEffect.keys_changed {key : Hash32} {changed : ObjectState}
    (h : TxEffect P state block tx txIndex after emitted) (hindexed : Indexed P binding placed state)
    (hdistinct : Distinct P binding (placed ++ [⟨block.height,tx⟩]))
    (hobject : state.objects[key]? = some object) (hchanged : after.objects[key]? = some changed)
    (hkeys : changed.keys ≠ object.keys) : ∃ event ∈ emitted, event.validityClass = .validOperation ∧
      event.eventType = .rotate ∧ event.objectKey = key := by
  have hstep := h.keyStep hindexed hdistinct key
  rw [hobject,hchanged] at hstep
  have hmem : ∀ event ∈ objectHistory key emitted, event ∈ emitted := fun event hevent =>
    (List.mem_filter.mp hevent).1
  generalize objectHistory key emitted = history at hstep hmem
  cases hstep with
  | rotated eventIndex marker owner sequence keys hactive haccepted =>
    exact ⟨_,hmem _ (List.mem_singleton_self _),rfl,rfl,rfl⟩
  | _ => exact absurd rfl hkeys

end Steps

/-- At every point of a run with distinct txids and for every transaction: a valid transition
is authorized by the keys that the object then has, the keys of new and rotated objects are
revealed by inputs of their own, and nothing but a rotation changes the keys of an object. -/
theorem transitions_authorized (hpoint : RunPoint P binding placed log state)
    (hdistinct : Distinct P binding placed)
    (hcall : processTransaction P state block tx txIndex = ok (after,emitted)) :
    (∀ event ∈ emitted, event.validityClass = .validOperation →
      event.eventType ∈ [EventType.mark,.rotate,.close,.refund] →
      ∃ object, state.objects[event.objectKey]? = some object ∧ Authorized P state tx object) ∧
    (∀ event ∈ emitted, event.validityClass = .validOperation → event.eventType = .mark →
      ∃ object input sponsor, state.objects[event.objectKey]? = some object ∧
        tx.inputs[1]? = some input ∧ input.p2wpkhKey P = some sponsor ∧
        object.keys.contains sponsor = true) ∧
    (∀ event ∈ emitted, event.validityClass = .validOperation → event.eventType = .create →
      ∃ created, after.objects[event.objectKey]? = some created ∧ Revealed P tx 0 1 created.keys) ∧
    (∀ event ∈ emitted, event.validityClass = .validOperation → event.eventType = .rotate →
      ∃ object rotated, state.objects[event.objectKey]? = some object ∧
        after.objects[event.objectKey]? = some rotated ∧ rotated.keys ≠ object.keys ∧
        Revealed P tx 1 2 rotated.keys) ∧
    (Distinct P binding (placed ++ [⟨block.height,tx⟩]) → ∀ (key : Hash32) (object changed : ObjectState),
      state.objects[key]? = some object → after.objects[key]? = some changed →
      changed.keys ≠ object.keys → ∃ event ∈ emitted, event.validityClass = .validOperation ∧
        event.eventType = .rotate ∧ event.objectKey = key) := by
  have hindexed := hpoint.reached.indexed hdistinct
  have heffect := processTransaction_effect hcall
  refine ⟨?_,?_,?_,?_,?_⟩
  · intro event hevent hvalid htype
    cases heffect.grant hindexed hevent hvalid with
    | create created hcreate _ _ => simp [hcreate] at htype
    | mark object input sponsor _ hkey hauthorized _ _ _ =>
      exact ⟨object,hkey ▸ hauthorized.stored,hauthorized⟩
    | rotate object rotated _ hkey hauthorized _ _ _ =>
      exact ⟨object,hkey ▸ hauthorized.stored,hauthorized⟩
    | release object _ hkey hauthorized => exact ⟨object,hkey ▸ hauthorized.stored,hauthorized⟩
  · intro event hevent hvalid htype
    cases heffect.grant hindexed hevent hvalid with
    | create created hcreate _ _ => simp [hcreate] at htype
    | mark object input sponsor _ hkey hauthorized hinput hsponsor hmember =>
      exact ⟨object,input,sponsor,hkey ▸ hauthorized.stored,hinput,hsponsor,hmember⟩
    | rotate object rotated hrotate _ _ _ _ _ => simp [hrotate] at htype
    | release object hrelease _ _ => simp [htype] at hrelease
  · intro event hevent hvalid htype
    cases heffect.grant hindexed hevent hvalid with
    | create created _ hcreated hkeys => exact ⟨created,hcreated,hkeys⟩
    | mark object input sponsor hmark _ _ _ _ _ => simp [hmark] at htype
    | rotate object rotated hrotate _ _ _ _ _ => simp [hrotate] at htype
    | release object hrelease _ _ => simp [htype] at hrelease
  · intro event hevent hvalid htype
    cases heffect.grant hindexed hevent hvalid with
    | create created hcreate _ _ => simp [hcreate] at htype
    | mark object input sponsor hmark _ _ _ _ _ => simp [hmark] at htype
    | rotate object rotated _ hkey hauthorized hrotated hchanged hkeys =>
      exact ⟨object,rotated,hkey ▸ hauthorized.stored,hrotated,hchanged,hkeys⟩
    | release object hrelease _ _ => simp [htype] at hrelease
  · intro hfresh key object changed hobject hchanged hkeys
    exact heffect.keys_changed hindexed hfresh hobject hchanged hkeys

/-- The rotation of the sample run is authorized by the keys before it. -/
theorem sample_authorized : ∃ block tx before after emitted event object,
    Called bitcoinPrimitives sampleBinding sampleBlocks block tx before after emitted ∧
      event ∈ emitted ∧ event.eventType = .rotate ∧
      before.objects[event.objectKey]? = some object ∧ Authorized bitcoinPrimitives before tx object := by
  obtain ⟨final,deltas,hrun,_,hlog⟩ := sampleBlocks_run
  obtain ⟨delta,hdelta,hevent⟩ := sampleLog_rotation hlog
  rcases applyBlocks_event_called hrun hdelta hevent with hinert | hcalled
  · simp [Event.Inert,validEventBase] at hinert
  · obtain ⟨block,tx,before,after,emitted,hcalled,hmem⟩ := hcalled
    obtain ⟨placed,more,log,txIndex,hplaced,hpoint,hcall⟩ := hcalled.point
    have hdistinct := sample_distinct
    rw [hplaced] at hdistinct
    obtain ⟨object,hobject,hauthorized⟩ :=
      (transitions_authorized hpoint hdistinct.of_append hcall).1 _ hmem rfl (by simp [validEventBase])
    exact ⟨block,tx,before,after,emitted,_,object,hcalled,hmem,rfl,hobject,hauthorized⟩

end TandemVerifier
