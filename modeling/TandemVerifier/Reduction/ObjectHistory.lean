import TandemVerifier.Reduction.CarrierSpend

/-! # The history of one object

The events that name an object, and the entry of the object map that they leave behind.
One transaction creates, moves or ends an object, or leaves it alone; the history of an
object is the sequence of these steps, and each of them records the transaction whose
output carries the object.
-/
namespace TandemVerifier
open Library Library.Outcome
variable {P : Primitives} {binding : Binding} {placed : List Placed} {log : List Event}
variable {state state' : ChainState} {block : BlockView} {tx : TxView} {txIndex : UInt32}
variable {events : List Event} {key : Hash32} {object : ObjectState}

/-- The event changes the state of the object with this key. -/
def Event.Names (key : Hash32) (event : Event) : Prop :=
  event.objectKey = key ∧ event.eventType ≠ .init ∧ event.validityClass ≠ .invalidNoState

instance : DecidablePred (Event.Names key) := fun event =>
  inferInstanceAs (Decidable (event.objectKey = key ∧ event.eventType ≠ .init ∧
    event.validityClass ≠ .invalidNoState))

/-- The events of a log that name an object, in emission order. -/
def objectHistory (key : Hash32) (log : List Event) : List Event := log.filter (Event.Names key)

section History

@[simp] theorem objectHistory_append (first second : List Event) :
    objectHistory key (first ++ second) = objectHistory key first ++ objectHistory key second :=
  List.filter_append ..

theorem objectHistory_inert (h : ∀ event ∈ events, event.Inert) : objectHistory key events = [] := by
  rw [objectHistory,List.filter_eq_nil_iff]
  intro event hevent hnames
  obtain ⟨_,hinit,hstate⟩ : event.Names key := of_decide_eq_true hnames
  rcases (h event hevent).1 with hclass | htype
  · exact hstate hclass
  · exact hinit htype

theorem objectHistory_singleton {event : Event} (htype : event.eventType ≠ .init)
    (hclass : event.validityClass ≠ .invalidNoState) :
    objectHistory key [event] = if event.objectKey = key then [event] else [] := by
  by_cases hkey : event.objectKey = key <;> simp [objectHistory,Event.Names,htype,hclass,hkey]

end History

/-- The object after a termination. -/
def ObjectState.ended (object : ObjectState) (status : ObjectStatus) (txid : Hash32) : ObjectState :=
  { object with status := status, currentOutpoint := .zero, terminalTxid := txid }

/-- What one transaction does to the entry of a key, with the events that name the key. -/
inductive KeyStep (P : Primitives) (state : ChainState) (block : BlockView) (tx : TxView)
    (txIndex : UInt32) (key : Hash32) : Option ObjectState → Option ObjectState → List Event → Prop
  | kept (stored : Option ObjectState) : KeyStep P state block tx txIndex key stored stored []
  | created (eventIndex : UInt32) (marker : ParsedMarker) (keys : KeyPair) (initHeight : UInt64)
      (hOpen hClose : UInt32) (hkey : objectKey P (state.binding.namespace P) tx.txid = key)
      (hstatus : state.protocolStatus = .active initHeight hOpen hClose)
      (haccepted : Accepted P state block.height tx marker (carrierSpends state tx).head?
        (.create keys)) :
      KeyStep P state block tx txIndex key none
        (some (createdObject P state block tx keys hOpen hClose))
        [validEventBase P state block tx txIndex eventIndex .create key 0 .zero ⟨tx.txid,1⟩ keys
          Hash32.zero]
  | marked (eventIndex : UInt32) (marker : ParsedMarker) (object : ObjectState) (sequence : UInt32)
      (commitment : Hash32) (chapterCount : UInt32) (hactive : object.status = .active)
      (hchapter : object.chapterCount.toNat + 1 = chapterCount.toNat)
      (haccepted : Accepted P state block.height tx marker (some (0,object))
        (.mark object sequence commitment)) :
      KeyStep P state block tx txIndex key (some object)
        (some { object with
          currentOutpoint := ⟨tx.txid,1⟩, stateSeq := sequence, chapterCount := chapterCount })
        [validEventBase P state block tx txIndex eventIndex .mark key sequence object.currentOutpoint
          ⟨tx.txid,1⟩ object.keys commitment]
  | rotated (eventIndex : UInt32) (marker : ParsedMarker) (object : ObjectState) (sequence : UInt32)
      (keys : KeyPair) (hactive : object.status = .active)
      (haccepted : Accepted P state block.height tx marker (some (0,object))
        (.rotate object sequence keys)) :
      KeyStep P state block tx txIndex key (some object)
        (some { object with currentOutpoint := ⟨tx.txid,1⟩, stateSeq := sequence, keys := keys })
        [validEventBase P state block tx txIndex eventIndex .rotate key sequence object.currentOutpoint
          ⟨tx.txid,1⟩ keys Hash32.zero]
  | closed (eventIndex : UInt32) (marker : ParsedMarker) (object : ObjectState) (sequence : UInt32)
      (commitment : Hash32) (hactive : object.status = .active)
      (haccepted : Accepted P state block.height tx marker (some (0,object))
        (.close object sequence commitment)) :
      KeyStep P state block tx txIndex key (some object)
        (some { object.ended .closed tx.txid with stateSeq := sequence })
        [validEventBase P state block tx txIndex eventIndex .close key sequence object.currentOutpoint
          .zero object.keys commitment]
  | refunded (object : ObjectState) (hkey : object.objectKey = key) (hactive : object.status = .active)
      (haccepted : ∃ input output0 output1,
        RefundAccepted P block.height tx input output0 output1 object) :
      KeyStep P state block tx txIndex key (some object) (some (object.ended .refunded tx.txid))
        [validRefundEvent P state block tx txIndex object]
  | exited (object : ObjectState) (exits : List Event) (hactive : object.status = .active)
      (hnonempty : exits ≠ [])
      (hexits : ∀ event ∈ exits, ∃ eventIndex subIndex reason ns,
        event = exitEvent block tx txIndex eventIndex subIndex reason ns object)
      (hsingle : (tx.inputs.map InputView.prevout).Nodup → exits.length = 1) :
      KeyStep P state block tx txIndex key (some object)
        (some (object.ended .exitedNoncanonical tx.txid)) exits

section Exits
variable {eventIndex : UInt32} {reason : Reason} {ns txid : Hash32} {sub : ℕ}
variable {carriers : List (ℕ × ObjectState)}

theorem terminateAll_getElem? (key : Hash32) :
    (terminateAll state txid carriers).objects[key]? =
      if key ∈ carriers.map fun spend => spend.2.objectKey then
        state.objects[key]?.map fun stored => stored.ended .exitedNoncanonical txid
      else state.objects[key]? := by
  induction carriers generalizing state with
  | nil => simp [terminateAll]
  | cons spend rest ih =>
    have hterm := terminateObject_terminates state spend.2 .exitedNoncanonical txid (by simp)
    have hrest := @ih (terminateObject state spend.2 .exitedNoncanonical txid)
    rw [hterm.getElem?_objects] at hrest
    rw [terminateAll] at hrest
    rw [terminateAll,List.foldl_cons,hrest]
    by_cases hkey : spend.2.objectKey = key
    · subst hkey
      by_cases hmem : spend.2.objectKey ∈ rest.map fun spend => spend.2.objectKey
      · simp [hmem,ObjectState.ended,Function.comp_def]
      · simp [hmem,ObjectState.ended]
    · by_cases hmem : key ∈ rest.map fun spend => spend.2.objectKey
      · simp [hmem,hkey]
      · simp [hmem,hkey,Ne.symm hkey]

theorem exitEvents_history_length : (objectHistory key
    (exitEvents block tx txIndex eventIndex reason ns sub carriers)).length =
      (carriers.map fun spend => spend.2.objectKey).count key := by
  induction carriers generalizing sub with
  | nil => rfl
  | cons spend rest ih =>
    have hrest := @ih (sub + 1)
    rw [exitEvents,← List.singleton_append,objectHistory_append,List.length_append,hrest,
      objectHistory_singleton (by simp [exitEvent]) (by simp [exitEvent]),List.map_cons,List.count_cons]
    by_cases hkey : spend.2.objectKey = key
    · simp [exitEvent,hkey,Nat.add_comm]
    · simp [exitEvent,hkey]

theorem Indexed.carrierSpends_keys_nodup (h : Indexed P binding placed state)
    (hprevouts : (tx.inputs.map InputView.prevout).Nodup)
    (hperm : carriers.Perm (carrierSpends state tx)) :
    (carriers.map fun spend => spend.2.objectKey).Nodup := by
  have hnodup : (carriers.map fun spend => spend.2.currentOutpoint).Nodup :=
    (hperm.map _).nodup_iff.mpr (h.carrierSpends_nodup hprevouts)
  rw [List.Nodup,List.pairwise_map] at hnodup ⊢
  apply hnodup.imp_of_mem
  intro a b ha hb hne hkey
  have hstored := (h.owner (hperm.mem_iff.mp ha)).1
  rw [hkey,(h.owner (hperm.mem_iff.mp hb)).1] at hstored
  exact hne (congrArg ObjectState.currentOutpoint (Option.some.inj hstored).symm)

end Exits

section Steps

theorem Indexed.spent (h : Indexed P binding placed state) (hcarriers : carrierSpends state tx = [(0,object)]) :
    state.objects[object.objectKey]? = some object ∧ object.status = .active := by
  have hspend : (0,object) ∈ carrierSpends state tx := by simp [hcarriers]
  obtain ⟨hobject,hactive,_⟩ := h.owner hspend
  exact ⟨hobject,hactive⟩

theorem validEventBase_names {eventIndex stateSeq : UInt32} {eventType : EventType} {predecessor successor : OutPointRef}
    {keys : KeyPair} {commitment : Hash32} (htype : eventType ≠ .init) :
    (validEventBase P state block tx txIndex eventIndex eventType key stateSeq predecessor successor keys
      commitment).Names key :=
  ⟨rfl,htype,by simp [validEventBase]⟩

/-- An event steps the key it names and keeps every other one. -/
theorem KeyStep.single {event : Event} {owner : Hash32} {stored next : Option ObjectState}
    (hstored : state.objects[owner]? = stored)
    (hstep : KeyStep P state block tx txIndex owner stored next [event]) (hnames : event.Names owner) :
    KeyStep P state block tx txIndex key state.objects[key]?
      (if owner = key then next else state.objects[key]?) (objectHistory key [event]) := by
  rw [objectHistory_singleton hnames.2.1 hnames.2.2,hnames.1]
  by_cases hkey : owner = key
  · subst hkey
    rw [if_pos rfl,if_pos rfl,hstored]
    exact hstep
  · rw [if_neg hkey,if_neg hkey]
    exact .kept _

/-- The termination events step the key of every spent carrier and keep every other one. -/
theorem KeyStep.exits {eventIndex : UInt32} {reason : Reason} {ns : Hash32} {carriers : List (ℕ × ObjectState)}
    (hindexed : Indexed P binding placed state) (hperm : carriers.Perm (carrierSpends state tx)) :
    KeyStep P state block tx txIndex key state.objects[key]?
      (terminateAll state tx.txid carriers).objects[key]?
      (objectHistory key (exitEvents block tx txIndex eventIndex reason ns 0 carriers)) := by
  have hcount := @exitEvents_history_length block tx txIndex key eventIndex reason ns 0 carriers
  rw [terminateAll_getElem?]
  by_cases hkey : key ∈ carriers.map fun spend => spend.2.objectKey
  · rw [if_pos hkey]
    obtain ⟨spend,hspend,rfl⟩ := List.mem_map.mp hkey
    obtain ⟨hobject,hactive,_⟩ := hindexed.owner (hperm.mem_iff.mp hspend)
    rw [hobject]
    refine .exited spend.2 _ hactive ?_ ?_ ?_
    · rw [← List.length_pos_iff,hcount]
      exact List.count_pos_iff.mpr hkey
    · intro event hevent
      obtain ⟨hmem,hnames⟩ := List.mem_filter.mp hevent
      obtain ⟨other,hother,subIndex,rfl⟩ := mem_exitEvents hmem
      obtain ⟨hsame,_⟩ : Event.Names spend.2.objectKey _ := of_decide_eq_true hnames
      have hstored := (hindexed.owner (hperm.mem_iff.mp hother)).1
      rw [show other.2.objectKey = spend.2.objectKey from hsame,hobject] at hstored
      exact ⟨eventIndex,subIndex,reason,ns,by rw [Option.some.inj hstored]⟩
    · intro hprevouts
      rw [hcount]
      exact List.count_eq_one_of_mem (hindexed.carrierSpends_keys_nodup hprevouts hperm) hkey
  · rw [if_neg hkey]
    have hnone : objectHistory key (exitEvents block tx txIndex eventIndex reason ns 0 carriers) = [] := by
      rw [← List.length_eq_zero_iff,hcount]
      exact List.count_eq_zero.mpr hkey
    rw [hnone]
    exact .kept _

theorem TxEffect.keyStep (h : TxEffect P state block tx txIndex state' events)
    (hindexed : Indexed P binding placed state)
    (hdistinct : Distinct P binding (placed ++ [⟨block.height,tx⟩])) (key : Hash32) :
    KeyStep P state block tx txIndex key state.objects[key]? state'.objects[key]?
      (objectHistory key events) := by
  cases h with
  | silent hcandidates hcarriers => exact .kept _
  | rejected eventIndex eventType reason ns hcandidates hcarriers =>
    have hinert : objectHistory key
        [bareInvalidEvent block tx txIndex eventIndex eventType reason ns] = [] := by
      simp [objectHistory,Event.Names,bareInvalidEvent]
    rw [hinert]
    exact .kept _
  | created candidate marker keys initHeight hOpen hClose hcandidates hparse hcarriers hstatus haccepted =>
    have hfresh : state.objects[objectKey P (state.binding.namespace P) tx.txid]? = none := by
      rw [hindexed.binding_eq]
      exact hindexed.key_fresh hdistinct
    rw [addObject_getElem?]
    exact .single hfresh (.created candidate.vout marker keys initHeight hOpen hClose rfl hstatus haccepted)
      (validEventBase_names (by simp))
  | marked candidate marker object sequence commitment chapterCount hcandidates hparse hcarriers
      hchapter haccepted =>
    obtain ⟨hobject,hactive⟩ := hindexed.spent hcarriers
    rw [moveCarrier_getElem?]
    exact .single hobject (.marked candidate.vout marker object sequence commitment chapterCount hactive
      hchapter haccepted) (validEventBase_names (by simp))
  | rotated candidate marker object sequence keys hcandidates hparse hcarriers haccepted =>
    obtain ⟨hobject,hactive⟩ := hindexed.spent hcarriers
    rw [moveCarrier_getElem?]
    exact .single hobject (.rotated candidate.vout marker object sequence keys hactive haccepted)
      (validEventBase_names (by simp))
  | closed candidate marker object sequence commitment hcandidates hparse hcarriers haccepted =>
    obtain ⟨hobject,hactive⟩ := hindexed.spent hcarriers
    rw [(closeObject_terminates state object sequence tx.txid).getElem?_objects,hobject]
    exact .single hobject (.closed candidate.vout marker object sequence commitment hactive haccepted)
      (validEventBase_names (by simp))
  | refunded object hcandidates hcarriers haccepted =>
    obtain ⟨hobject,hactive⟩ := hindexed.spent hcarriers
    rw [(terminateObject_terminates state object .refunded tx.txid (by simp)).getElem?_objects,hobject]
    exact .single hobject (.refunded object rfl hactive haccepted) (validEventBase_names (by simp))
  | exited eventIndex reason ns carriers hnonempty hperm hsorted hlength => exact .exits hindexed hperm

end Steps

/-- The event records that the transaction of the entry left the object at its output 1. -/
structure Carries (P : Primitives) (entry : Placed) (event : Event) (object : ObjectState) : Prop where
  valid : event.validityClass = .validOperation
  txid : event.txid = entry.tx.txid
  height : event.height = entry.height
  successor : event.successor = ⟨entry.tx.txid,1⟩
  stateSeq : event.stateSeq = object.stateSeq
  active : object.status = .active
  current : object.currentOutpoint = ⟨entry.tx.txid,1⟩
  output : entry.tx.outputs[1]? = some ⟨carrierValue,object.keys.carrierScript P⟩
  checked : KeyPair.checked P object.keys.key0 object.keys.key1 = some object.keys

/-- The transaction of the entry spends the carrier of the object, confirmed before it. -/
def SpendsEarlier (entry : Placed) (object : ObjectState) : Prop :=
  ∃ input ∈ entry.tx.inputs, input.prevout = object.currentOutpoint ∧
    input.hasEarlierConfirmation entry.height = true

/-- The event ends the object that the transaction of the entry spends. -/
inductive Ends (entry : Placed) (object : ObjectState) (event : Event) : Prop
  | closed (hvalid : event.validityClass = .validOperation) (htype : event.eventType = .close)
      (hheight : event.height = entry.height)
      (hsequence : event.stateSeq.toNat = object.stateSeq.toNat + 1)
      (hspends : SpendsEarlier entry object)
  | refunded (hvalid : event.validityClass = .validOperation) (htype : event.eventType = .refund)
      (hheight : event.height = entry.height) (hsequence : event.stateSeq = object.stateSeq)
      (hspends : SpendsEarlier entry object)
  | exited (hvalid : event.validityClass = .terminalNoncanonical)
      (htype : event.eventType = .exitedNoncanonical) (hsequence : event.stateSeq = object.stateSeq)

/-- The life of an object as its history tells it, with the transaction that carries it. Each
carrying transaction stands in a given relation to the one before it. -/
inductive Life (P : Primitives) (follows : Placed → Placed → Prop) :
    List Event → ObjectState → Placed → Prop
  | created {event : Event} {object : ObjectState} {entry : Placed}
      (htype : event.eventType = .create) (hsequence : event.stateSeq = 0)
      (hchapter : object.chapterCount = 0) (hcarries : Carries P entry event object) :
      Life P follows [event] object entry
  | moved {history : List Event} {event : Event} {object moved : ObjectState} {entry later : Placed}
      (h : Life P follows history object entry) (hactive : object.status = .active)
      (hfollows : follows entry later) (hspends : SpendsEarlier later object)
      (hlinked : event.predecessor = object.currentOutpoint)
      (hsequence : event.stateSeq.toNat = object.stateSeq.toNat + 1)
      (hchapter : event.eventType = .mark ∧
          moved.chapterCount.toNat = object.chapterCount.toNat + 1 ∨
        event.eventType = .rotate ∧ moved.chapterCount = object.chapterCount)
      (hcarries : Carries P later event moved) : Life P follows (history ++ [event]) moved later
  | ended {history ends : List Event} {object ended : ObjectState} {entry later : Placed}
      (h : Life P follows history object entry) (hactive : object.status = .active)
      (hfollows : follows entry later) (hnonempty : ends ≠ [])
      (hsingle : (later.tx.inputs.map InputView.prevout).Nodup → ends.length = 1)
      (hends : ∀ event ∈ ends, Ends later object event ∧ event.predecessor = object.currentOutpoint)
      (hended : ended.status ≠ .active) (hchapter : ended.chapterCount = object.chapterCount) :
      Life P follows (history ++ ends) ended later

section Lives
variable {follows : Placed → Placed → Prop} {entry : Placed} {history : List Event}

/-- The last event of a living object records where the object is. -/
theorem Life.carries (h : Life P follows history object entry) (hactive : object.status = .active) :
    ∃ event, history.getLast? = some event ∧ Carries P entry event object := by
  cases h with
  | created htype hsequence hchapter hcarries => exact ⟨_,rfl,hcarries⟩
  | moved h hactive hfollows hspends hlinked hsequence hchapter hcarries =>
    exact ⟨_,List.getLast?_concat,hcarries⟩
  | ended h _ hfollows hnonempty hsingle hends hended hchapter => exact absurd hactive hended

/-- The transaction extends the life of an object by what its step does to it. -/
theorem Life.step {emitted : List Event} {after : Option ObjectState}
    (h : Life P follows history object entry) (hfollows : follows entry ⟨block.height,tx⟩)
    (hstep : KeyStep P state block tx txIndex key (some object) after emitted) :
    ∃ next carrier, after = some next ∧ (carrier = entry ∨ carrier = ⟨block.height,tx⟩) ∧
      Life P follows (history ++ emitted) next carrier := by
  cases hstep with
  | kept => exact ⟨object,entry,rfl,Or.inl rfl,by simpa using h⟩
  | marked eventIndex marker _ sequence commitment chapterCount hactive hchapter haccepted =>
    obtain ⟨input0,_,_,_,_,_,haccept⟩ := haccepted
    obtain ⟨_,_,hcarries⟩ := h.carries hactive
    refine ⟨_,⟨block.height,tx⟩,rfl,Or.inr rfl,.moved h hactive hfollows ?_ rfl haccept.stateSeq.symm
      (Or.inl ⟨rfl,hchapter.symm⟩) ⟨rfl,rfl,rfl,rfl,rfl,hactive,rfl,?_,hcarries.checked⟩⟩
    · exact ⟨input0,by simp [haccept.inputs],haccept.prevout,haccept.confirmed _ (by simp [haccept.inputs])⟩
    · rw [haccept.outputs,haccept.carrierOutput]
      rfl
  | rotated eventIndex marker _ sequence keys hactive haccepted =>
    obtain ⟨input0,_,_,_,_,_,_,haccept⟩ := haccepted
    refine ⟨_,⟨block.height,tx⟩,rfl,Or.inr rfl,.moved h hactive hfollows ?_ rfl haccept.stateSeq.symm
      (Or.inr ⟨rfl,rfl⟩) ⟨rfl,rfl,rfl,rfl,rfl,hactive,rfl,?_,haccept.checked⟩⟩
    · exact ⟨input0,by simp [haccept.inputs],haccept.prevout,haccept.confirmed _ (by simp [haccept.inputs])⟩
    · rw [haccept.outputs,haccept.carrierOutput]
      rfl
  | closed eventIndex marker _ sequence commitment hactive haccepted =>
    obtain ⟨input,_,_,_,haccept⟩ := haccepted
    refine ⟨_,⟨block.height,tx⟩,rfl,Or.inr rfl,.ended h hactive hfollows (by simp) (by simp) ?_
      (by simp [ObjectState.ended]) rfl⟩
    intro event hevent
    rw [List.mem_singleton.mp hevent]
    refine ⟨.closed rfl rfl rfl haccept.stateSeq.symm ?_,rfl⟩
    exact ⟨input,by simp [haccept.inputs],haccept.prevout,haccept.confirmed _ (by simp [haccept.inputs])⟩
  | refunded _ hkey hactive haccepted =>
    obtain ⟨input,_,_,haccept⟩ := haccepted
    refine ⟨_,⟨block.height,tx⟩,rfl,Or.inr rfl,.ended h hactive hfollows (by simp) (by simp) ?_
      (by simp [ObjectState.ended]) rfl⟩
    intro event hevent
    rw [List.mem_singleton.mp hevent]
    exact ⟨.refunded rfl rfl rfl rfl ⟨input,by simp [haccept.inputs],haccept.prevout,haccept.confirmed⟩,rfl⟩
  | exited _ _ hactive hnonempty hexits hsingle =>
    refine ⟨_,⟨block.height,tx⟩,rfl,Or.inr rfl,.ended h hactive hfollows hnonempty hsingle ?_
      (by simp [ObjectState.ended]) rfl⟩
    intro event hevent
    obtain ⟨eventIndex,subIndex,reason,ns,rfl⟩ := hexits event hevent
    exact ⟨.exited rfl rfl rfl,rfl⟩

/-- A key without an object has no history; the history of an object is its life. -/
structure Chronicle (P : Primitives) (follows : Placed → Placed → Prop) (placed : List Placed)
    (log : List Event) (state : ChainState) : Prop where
  absent : ∀ key : Hash32, state.objects[key]? = none → objectHistory key log = []
  life : ∀ (key : Hash32) (object : ObjectState), state.objects[key]? = some object →
    ∃ entry ∈ placed, Life P follows (objectHistory key log) object entry

theorem Chronicle.passed {more : List Placed} (h : Chronicle P follows placed log state)
    (hinert : ∀ event ∈ events, event.Inert) : Chronicle P follows (placed ++ more) (log ++ events) state := by
  constructor
  · intro key hnone
    rw [objectHistory_append,objectHistory_inert hinert,h.absent key hnone,List.append_nil]
  · intro key object hobject
    obtain ⟨entry,hentry,hlife⟩ := h.life key object hobject
    rw [objectHistory_append,objectHistory_inert hinert,List.append_nil]
    exact ⟨entry,List.mem_append_left _ hentry,hlife⟩

theorem Chronicle.effect (h : Chronicle P follows placed log state)
    (hindexed : Indexed P binding placed state)
    (hdistinct : Distinct P binding (placed ++ [⟨block.height,tx⟩]))
    (hfollows : ∀ entry ∈ placed, follows entry ⟨block.height,tx⟩)
    (heffect : TxEffect P state block tx txIndex state' events) :
    Chronicle P follows (placed ++ [⟨block.height,tx⟩]) (log ++ events) state' := by
  constructor
  · intro key hnone
    have hstep := heffect.keyStep hindexed hdistinct key
    rw [hnone] at hstep
    cases hbefore : state.objects[key]? with
    | none =>
      rw [hbefore] at hstep
      rw [objectHistory_append,h.absent key hbefore,List.nil_append]
      generalize objectHistory key events = emitted at hstep
      cases hstep with
      | kept => rfl
    | some object =>
      obtain ⟨entry,hentry,hlife⟩ := h.life key object hbefore
      rw [hbefore] at hstep
      obtain ⟨next,_,hsome,_⟩ := hlife.step (hfollows entry hentry) hstep
      simp at hsome
  · intro key object hobject
    have hstep := heffect.keyStep hindexed hdistinct key
    rw [objectHistory_append]
    cases hbefore : state.objects[key]? with
    | none =>
      rw [hbefore,hobject] at hstep
      rw [h.absent key hbefore,List.nil_append]
      generalize objectHistory key events = emitted at hstep
      cases hstep with
      | created eventIndex marker keys initHeight hOpen hClose hkey hstatus haccepted =>
        obtain ⟨_,_,_,_,_,_,haccept⟩ := haccepted
        refine ⟨⟨block.height,tx⟩,by simp,.created rfl rfl rfl
          ⟨rfl,rfl,rfl,rfl,rfl,rfl,rfl,?_,haccept.checked⟩⟩
        rw [haccept.outputs,haccept.carrierOutput]
        rfl
    | some before =>
      obtain ⟨entry,hentry,hlife⟩ := h.life key before hbefore
      rw [hbefore] at hstep
      obtain ⟨next,carrier,hnext,hcarrier,hlater⟩ := hlife.step (hfollows entry hentry) hstep
      rw [hobject] at hnext
      obtain rfl := Option.some.inj hnext
      refine ⟨carrier,?_,hlater⟩
      rcases hcarrier with rfl | rfl
      · exact List.mem_append_left _ hentry
      · simp

theorem Reached.chronicle (h : Reached P binding placed log state) (hdistinct : Distinct P binding placed)
    (hfollows : placed.Pairwise follows) : Chronicle P follows placed log state := by
  induction h with
  | fresh => exact ⟨fun _ _ => rfl,by simp [ChainState.new]⟩
  | decided status _ _ ih => exact ⟨(ih hdistinct hfollows).absent,(ih hdistinct hfollows).life⟩
  | processed block tx txIndex hbefore hcall ih =>
    obtain ⟨hearlier,_,hnext⟩ := List.pairwise_append.mp hfollows
    exact (ih hdistinct.of_append hearlier).effect (hbefore.indexed hdistinct.of_append) hdistinct
      (fun entry hentry => hnext entry hentry _ (by simp)) (processTransaction_effect hcall)
  | passed more emitted _ hinert ih =>
    exact (ih hdistinct.of_append (List.pairwise_append.mp hfollows).1).passed hinert
  | sealed tipHeight tipHash chainedRoot _ ih =>
    exact ⟨(ih hdistinct hfollows).absent,(ih hdistinct hfollows).life⟩

end Lives

/-- The event records the end of an object. -/
def Event.Terminal (event : Event) : Prop :=
  (event.validityClass = .validOperation ∧ event.eventType ∈ [EventType.close,.refund]) ∨
  (event.validityClass = .terminalNoncanonical ∧ event.eventType = .exitedNoncanonical)

/-- The events that record the creation or a move of an object, in emission order. -/
def carrierEvents (key : Hash32) (log : List Event) : List Event :=
  log.filter fun event => event.objectKey = key ∧ event.validityClass = .validOperation ∧
    event.eventType ∈ [EventType.create,.mark,.rotate]

section Custody
variable {follows : Placed → Placed → Prop} {entry : Placed} {history : List Event}

theorem Life.carrying (h : Life P follows history object entry) (hactive : object.status = .active) :
    ∀ event ∈ history, event.validityClass = .validOperation ∧
      event.eventType ∈ [EventType.create,.mark,.rotate] := by
  induction h with
  | created htype hsequence hchapter hcarries =>
    intro event hevent
    rw [List.mem_singleton.mp hevent]
    exact ⟨hcarries.valid,by simp [htype]⟩
  | moved h hbefore hfollows hspends hlinked hsequence hchapter hcarries ih =>
    intro event hevent
    rcases List.mem_append.mp hevent with hearlier | hlast
    · exact ih hbefore event hearlier
    · rw [List.mem_singleton.mp hlast]
      refine ⟨hcarries.valid,?_⟩
      rcases hchapter with ⟨htype,_⟩ | ⟨htype,_⟩ <;> simp [htype]
  | ended h _ hfollows hnonempty hsingle hends hended hchapter ih => exact absurd hactive hended

theorem Ends.terminal {event : Event} (h : Ends entry object event) : event.Terminal := by
  cases h with
  | closed hvalid htype hheight hsequence hspends => exact Or.inl ⟨hvalid,by simp [htype]⟩
  | refunded hvalid htype hheight hsequence hspends => exact Or.inl ⟨hvalid,by simp [htype]⟩
  | exited hvalid htype hsequence => exact Or.inr ⟨hvalid,htype⟩

theorem Life.ended_iff (h : Life P follows history object entry) :
    object.status ≠ .active ↔ ∃ event ∈ history, event.Terminal := by
  constructor
  · intro hended
    cases h with
    | created htype hsequence hchapter hcarries => exact absurd hcarries.active hended
    | moved h hactive hfollows hspends hlinked hsequence hchapter hcarries =>
      exact absurd hcarries.active hended
    | ended h hactive hfollows hnonempty hsingle hends hended hchapter =>
      obtain ⟨event,hevent⟩ := List.exists_mem_of_ne_nil _ hnonempty
      exact ⟨event,List.mem_append_right _ hevent,(hends event hevent).1.terminal⟩
  · rintro ⟨event,hevent,hterminal⟩ hactive
    obtain ⟨hvalid,htype⟩ := h.carrying hactive event hevent
    rcases hterminal with ⟨_,hends⟩ | ⟨hexit,_⟩
    · cases hcase : event.eventType <;> simp [hcase] at htype hends
    · simp [hvalid] at hexit

/-- The whole history of a living object records its creation and its moves. -/
theorem Life.carrierEvents_eq (h : Life P follows (objectHistory key log) object entry)
    (hactive : object.status = .active) : carrierEvents key log = objectHistory key log := by
  rw [carrierEvents,objectHistory]
  apply List.filter_congr
  intro event hevent
  have hnames : event.Names key → event.validityClass = .validOperation ∧
      event.eventType ∈ [EventType.create,.mark,.rotate] := by
    intro hnames
    exact h.carrying hactive event (List.mem_filter.mpr ⟨hevent,decide_eq_true hnames⟩)
  refine decide_eq_decide.mpr ⟨?_,fun h => ⟨h.1,hnames h⟩⟩
  rintro ⟨hkey,hvalid,htype⟩
  refine ⟨hkey,?_,by simp [hvalid]⟩
  intro hinit
  simp [hinit] at htype

theorem Distinct.filter_eq (h : Distinct P binding placed) (hentry : entry ∈ placed) :
    placed.filter (fun other => other.tx.txid = entry.tx.txid) = [entry] := by
  have hcount : (placed.map fun other => other.tx.txid).count entry.tx.txid = 1 :=
    List.count_eq_one_of_mem h.txids (List.mem_map_of_mem hentry)
  rw [List.count,List.countP_map,List.countP_eq_length_filter] at hcount
  obtain ⟨only,honly⟩ := List.length_eq_one_iff.mp hcount
  have hmem : entry ∈ placed.filter (fun other => other.tx.txid = entry.tx.txid) := by
    simp [hentry]
  have hsame : placed.filter (fun other => other.tx.txid = entry.tx.txid) = [only] := by
    rw [← honly]
    apply List.filter_congr
    intro other hother
    simp [Bool.beq_eq_decide_eq]
  rw [hsame] at hmem ⊢
  rw [List.mem_singleton.mp hmem]

end Custody

/-- At every point of a run with distinct txids, the outpoint of an active carrier is output 1 of
the one visited transaction with its txid. This output holds the carrier value under the carrier
script of the checked keys recorded for the object, and the last event that created or moved the
object is an event of this transaction. -/
theorem carrier_custody (hpoint : RunPoint P binding placed log state)
    (hdistinct : Distinct P binding placed) {outpoint : OutPointRef}
    (hactive : state.active[outpoint]? = some key) :
    outpoint.vout = 1 ∧ ∃ entry object event,
      placed.filter (fun other => other.tx.txid = outpoint.txid) = [entry] ∧
      state.objects[key]? = some object ∧
      entry.tx.outputs[1]? = some ⟨carrierValue,object.keys.carrierScript P⟩ ∧
      KeyPair.checked P object.keys.key0 object.keys.key1 = some object.keys ∧
      (carrierEvents key log).getLast? = some event ∧ event.txid = entry.tx.txid ∧
      event.successor = outpoint := by
  have hindexed := hpoint.reached.indexed hdistinct
  have htrue : placed.Pairwise fun _ _ => True := List.pairwise_iff_forall_sublist.mpr (by simp)
  have hchronicle := hpoint.reached.chronicle hdistinct htrue
  obtain ⟨object,hobject,hcarrier⟩ := (hindexed.index outpoint key).mp hactive
  obtain ⟨hstatus,houtpoint⟩ := ObjectState.carrier_eq_some.mp hcarrier
  obtain ⟨entry,hentry,hlife⟩ := hchronicle.life key object hobject
  obtain ⟨event,hlast,hcarries⟩ := hlife.carries hstatus
  have hcurrent : outpoint = ⟨entry.tx.txid,1⟩ := houtpoint.symm.trans hcarries.current
  subst hcurrent
  exact ⟨rfl,entry,object,event,hdistinct.filter_eq hentry,hobject,hcarries.output,hcarries.checked,
    by rw [hlife.carrierEvents_eq hstatus,hlast],hcarries.txid,hcarries.successor⟩

/-- The object of the sample run is created, rotated and still alive. -/
theorem sampleObject_active {final : ChainState} {deltas : List BlockDelta}
    (hrun : applyBlocks bitcoinPrimitives sampleNew sampleBlocks = some (final,deltas))
    (hlog : deltas.flatMap BlockDelta.events = sampleLog) :
    ∃ outpoint : OutPointRef, final.active[outpoint]? = some sampleKey := by
  have hreached := run_reached hrun
  have hindexed := hreached.indexed sample_distinct
  have htrue : (placedTransactions sampleBlocks).Pairwise fun _ _ => True :=
    List.pairwise_iff_forall_sublist.mpr (by simp)
  have hchronicle := hreached.chronicle sample_distinct htrue
  rw [hlog] at hchronicle
  cases hobject : final.objects[sampleKey]? with
  | none =>
    have hempty := hchronicle.absent sampleKey hobject
    simp [objectHistory,sampleLog,Event.Names,validInitEvent,validEventBase] at hempty
  | some object =>
    obtain ⟨entry,_,hlife⟩ := hchronicle.life sampleKey object hobject
    have hactive : object.status = .active := by
      by_contra hended
      obtain ⟨event,hevent,hterminal⟩ := hlife.ended_iff.mp hended
      have hmem := (List.mem_filter.mp hevent).1
      simp only [sampleLog,List.mem_cons,List.not_mem_nil,or_false] at hmem
      rcases hmem with rfl | rfl | rfl <;>
        simp [Event.Terminal,validInitEvent,validEventBase] at hterminal
    exact ⟨object.currentOutpoint,(hindexed.index _ _).mpr
      ⟨object,hobject,ObjectState.carrier_eq_some.mpr ⟨hactive,rfl⟩⟩⟩

theorem sample_custody : ∃ final deltas, ∃ outpoint : OutPointRef,
    applyBlocks bitcoinPrimitives sampleNew sampleBlocks = some (final,deltas) ∧
      final.active[outpoint]? = some sampleKey ∧ outpoint.vout = 1 ∧
      ∃ entry ∈ placedTransactions sampleBlocks, ∃ object, final.objects[sampleKey]? = some object ∧
        entry.tx.outputs[1]? = some ⟨carrierValue,object.keys.carrierScript bitcoinPrimitives⟩ := by
  obtain ⟨final,deltas,hrun,_,hlog⟩ := sampleBlocks_run
  obtain ⟨outpoint,hactive⟩ := sampleObject_active hrun hlog
  obtain ⟨hvout,entry,object,event,hfilter,hobject,houtput,_⟩ :=
    carrier_custody (.between hrun) sample_distinct hactive
  have hentry : entry ∈ placedTransactions sampleBlocks := by
    refine List.mem_of_mem_filter (p := fun other => other.tx.txid = outpoint.txid) ?_
    rw [hfilter]
    exact List.mem_singleton_self entry
  exact ⟨final,deltas,outpoint,hrun,hactive,hvout,entry,hentry,object,hobject,houtput⟩

end TandemVerifier
