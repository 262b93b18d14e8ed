import TandemVerifier.Reduction.Representation

/-! # No carrier spend disappears

CREATE never looks at the carrier of its transaction. It cannot swallow one because
both of its inputs are P2WPKH, while the output behind an active carrier keeps the
34-byte script recorded when it was indexed. In every other case the spent carrier
is unindexed and named by exactly one emitted event.
-/
namespace TandemVerifier
open Library Library.Outcome
variable {P : Primitives} {binding : Binding} {placed : List Placed} {state state' : ChainState}
variable {block : BlockView} {tx : TxView} {txIndex : UInt32} {events : List Event}

section Custody

/-- The output behind every active object holds the carrier script of its keys. -/
def Custody (P : Primitives) (placed : List Placed) (state : ChainState) : Prop :=
  ∀ (key : Hash32) (object : ObjectState), state.objects[key]? = some object →
    object.status = .active → ∃ entry ∈ placed, entry.tx.txid = object.currentOutpoint.txid ∧
      entry.tx.outputs[1]? = some ⟨carrierValue,object.keys.carrierScript P⟩

theorem Custody.mono {more : List Placed} (h : Custody P placed state) :
    Custody P (placed ++ more) state := by
  intro key object hobject hstatus
  obtain ⟨entry,hentry,hh⟩ := h key object hobject hstatus
  exact ⟨entry,List.mem_append_left _ hentry,hh⟩

theorem Custody.effect (h : Custody P placed state)
    (heffect : TxEffect P state block tx txIndex state' events) :
    Custody P (placed ++ [⟨block.height,tx⟩]) state' := by
  intro key object hobject hstatus
  cases heffect.objectStep hobject with
  | kept hkept => exact h.mono key object hkept hstatus
  | created marker keys initHeight hOpen hClose _ haccepted =>
    obtain ⟨_,_,_,_,_,_,haccept⟩ := haccepted
    refine ⟨⟨block.height,tx⟩,by simp,rfl,?_⟩
    rw [haccept.outputs,haccept.carrierOutput]
    rfl
  | marked marker owner sequence commitment chapterCount _ _ haccepted =>
    obtain ⟨_,_,_,_,_,_,haccept⟩ := haccepted
    refine ⟨⟨block.height,tx⟩,by simp,rfl,?_⟩
    rw [haccept.outputs,haccept.carrierOutput]
    rfl
  | rotated marker owner sequence keys _ haccepted =>
    obtain ⟨_,_,_,_,_,_,_,haccept⟩ := haccepted
    refine ⟨⟨block.height,tx⟩,by simp,rfl,?_⟩
    rw [haccept.outputs,haccept.carrierOutput]
    rfl
  | ended stored status sequence _ hended _ => exact absurd hstatus hended

theorem Reached.custody {log : List Event} (h : Reached P binding placed log state) :
    Custody P placed state := by
  induction h with
  | fresh => simp [Custody,ChainState.new]
  | decided status _ _ ih => exact ih
  | processed block tx txIndex _ hcall ih => exact ih.effect (processTransaction_effect hcall)
  | passed more emitted _ _ ih => exact ih.mono
  | sealed tipHeight tipHash chainedRoot _ ih => exact ih

end Custody

section Resolution

/-- Inputs carry the script, value and height of the outputs of the run that they spend. -/
def Resolved (placed : List Placed) : Prop :=
  placed.Pairwise fun earlier later => ∀ input ∈ later.tx.inputs,
    input.prevout.txid = earlier.tx.txid → ∀ output,
      earlier.tx.outputs[input.prevout.vout.toNat]? = some output →
      input.prevoutScript = output.scriptPubkey ∧ input.prevoutValue = output.value ∧
        input.prevoutHeight = some earlier.height

/-- What Bitcoin Core guarantees about the transactions of a run. -/
structure Consistent (P : Primitives) (binding : Binding) (placed : List Placed) : Prop
    extends Distinct P binding placed where
  prevouts : ∀ entry ∈ placed, (entry.tx.inputs.map InputView.prevout).Nodup
  resolved : Resolved placed

theorem p2wpkhKey_length {input : InputView} {key : Key33} (h : input.p2wpkhKey P = some key) :
    input.prevoutScript.length = 22 := by
  simp only [InputView.p2wpkhKey,Option.bind_eq_bind,Option.bind_eq_some_iff] at h
  obtain ⟨revealed,hrevealed,_⟩ := h
  unfold InputView.p2wpkhRevealedKey at hrevealed
  split at hrevealed
  · simp at hrevealed
  · next hshape =>
    simp only [not_or,Decidable.not_not] at hshape
    exact hshape.2.2.1

/-- Inputs carry the script and value of the outputs of the run that they spend. -/
def OutputsResolved (placed : List Placed) : Prop :=
  placed.Pairwise fun earlier later => ∀ input ∈ later.tx.inputs,
    input.prevout.txid = earlier.tx.txid → ∀ output,
      earlier.tx.outputs[input.prevout.vout.toNat]? = some output →
      input.prevoutScript = output.scriptPubkey ∧ input.prevoutValue = output.value

theorem Resolved.outputs (h : Resolved placed) : OutputsResolved placed := by
  refine h.imp ?_
  intro earlier later hinputs input hinput htxid output houtput
  obtain ⟨hscript,hvalue,_⟩ := hinputs input hinput htxid output houtput
  exact ⟨hscript,hvalue⟩

/-- An input that spends an active carrier carries the script and value of a carrier output. -/
theorem carrier_input {more : List Placed} {next : Placed} {input : InputView} {key : Hash32}
    (hindexed : Indexed P binding placed state) (hcustody : Custody P placed state)
    (hresolved : OutputsResolved (placed ++ next :: more)) (hinput : input ∈ next.tx.inputs)
    (hactive : state.active[input.prevout]? = some key) :
    (∃ keys : KeyPair, input.prevoutScript = keys.carrierScript P) ∧ input.prevoutValue = carrierValue := by
  obtain ⟨object,hobject,hcarrier⟩ := (hindexed.index _ _).mp hactive
  obtain ⟨hstatus,houtpoint⟩ := ObjectState.carrier_eq_some.mp hcarrier
  obtain ⟨entry,hentry,htxid,houtput⟩ := hcustody key object hobject hstatus
  have hvout := (hindexed.carrier _ _ hactive).1
  have hpair := (List.pairwise_append.mp hresolved).2.2 entry hentry next List.mem_cons_self
  have hspent := hpair input hinput (by rw [htxid,houtpoint])
    ⟨carrierValue,object.keys.carrierScript P⟩ (by rw [hvout]; exact houtput)
  exact ⟨⟨object.keys,hspent.1⟩,hspent.2⟩

end Resolution

section Accounting

/-- A valid transition or refund, or a noncanonical exit. -/
def Event.SpendsCarrier (event : Event) : Prop :=
  (event.validityClass = .validOperation ∧
    event.eventType ∈ [EventType.mark,.rotate,.close,.refund]) ∨
  (event.validityClass = .terminalNoncanonical ∧ event.eventType = .exitedNoncanonical)

/-- The emitted events that record the spend of an outpoint by the owner of a key. -/
def spendsOf (outpoint : OutPointRef) (key : Hash32) (emitted : List Event) : List Event :=
  emitted.filter fun event => event.predecessor = outpoint ∧ event.objectKey = key

/-- Every active carrier that the transaction spends is unindexed and recorded once. -/
def Accounted (before after : ChainState) (tx : TxView) (emitted : List Event) : Prop :=
  ∀ input ∈ tx.inputs, ∀ key : Hash32, before.active[input.prevout]? = some key →
    after.active[input.prevout]? = none ∧
      ∃ event, spendsOf input.prevout key emitted = [event] ∧ event.SpendsCarrier

/-- Every recorded spend comes from an input that spends an active carrier. -/
def Traced (before : ChainState) (tx : TxView) (emitted : List Event) : Prop :=
  ∀ event ∈ emitted, event.predecessor ≠ .zero →
    ∃ input ∈ tx.inputs, input.prevout = event.predecessor ∧
      before.active[input.prevout]? = some event.objectKey

theorem Indexed.spend_of_active {input : InputView} {key : Hash32}
    (h : Indexed P binding placed state) (hinput : input ∈ tx.inputs)
    (hactive : state.active[input.prevout]? = some key) :
    ∃ i object, (i,object) ∈ carrierSpends state tx ∧ object.currentOutpoint = input.prevout ∧
      object.objectKey = key := by
  obtain ⟨object,hobject,hcarrier⟩ := (h.index _ _).mp hactive
  obtain ⟨i,hi⟩ := List.mem_iff_getElem?.mp hinput
  exact ⟨i,object,mem_carrierSpends.mpr ⟨input,key,hi,hactive,hobject⟩,
    (ObjectState.carrier_eq_some.mp hcarrier).2,h.key_eq key object hobject⟩

theorem filterMap_map_sublist {α β γ : Type} {select : α → Option β} {f : β → γ} {g : α → γ}
    (h : ∀ a b, select a = some b → f b = g a) (xs : List α) :
    ((xs.filterMap select).map f).Sublist (xs.map g) := by
  induction xs with
  | nil => simp
  | cons a rest ih =>
    cases ha : select a with
    | none =>
      rw [List.filterMap_cons_none ha,List.map_cons]
      exact ih.cons _
    | some b =>
      rw [List.filterMap_cons_some ha,List.map_cons,List.map_cons,h a b ha]
      exact ih.cons_cons _

theorem Indexed.carrierSpends_nodup (h : Indexed P binding placed state)
    (hprevouts : (tx.inputs.map InputView.prevout).Nodup) :
    ((carrierSpends state tx).map fun spend => spend.2.currentOutpoint).Nodup := by
  have hmap : tx.inputs.zipIdx.map (fun entry => entry.1.prevout) = tx.inputs.map InputView.prevout := by
    rw [← List.zipIdx_map_fst 0 tx.inputs,List.map_map]
    simp [Function.comp_def]
  rw [← hmap] at hprevouts
  refine (filterMap_map_sublist ?_ tx.inputs.zipIdx).nodup hprevouts
  rintro ⟨input,i⟩ ⟨j,object⟩ hselect
  simp only [Option.map_eq_some_iff,Option.bind_eq_some_iff,Prod.mk.injEq] at hselect
  obtain ⟨value,⟨key,hactive,hobject⟩,_,rfl⟩ := hselect
  obtain ⟨stored,hstored,hcarrier⟩ := (h.index _ _).mp hactive
  obtain rfl : stored = value := Option.some.inj (hstored.symm.trans hobject)
  exact (ObjectState.carrier_eq_some.mp hcarrier).2

theorem terminateAll_active (carriers : List (ℕ × ObjectState)) (txid : Hash32) (o : OutPointRef) :
    (terminateAll state txid carriers).active[o]? =
      if o ∈ carriers.map fun spend => spend.2.currentOutpoint then none else state.active[o]? := by
  induction carriers generalizing state with
  | nil => simp [terminateAll]
  | cons spend rest ih =>
    have hh := @ih (terminateObject state spend.2 .exitedNoncanonical txid)
    rw [terminateAll] at hh
    rw [terminateAll,List.foldl_cons,hh]
    by_cases hrest : o ∈ rest.map fun spend => spend.2.currentOutpoint
    · simp [hrest]
    · rw [if_neg hrest]
      simp only [terminateObject,Std.ExtTreeMap.getElem?_erase,Std.compare_eq_iff_eq,List.map_cons,
        List.mem_cons,hrest,or_false]
      by_cases ho : spend.2.currentOutpoint = o
      · simp [ho]
      · rw [if_neg ho,if_neg (Ne.symm ho)]

/-- Exit events of carriers with distinct outpoints record each of them once. -/
theorem exitEvents_spendsOf {eventIndex : UInt32} {reason : Reason} {ns : Hash32} {sub : ℕ}
    {carriers : List (ℕ × ObjectState)} {spend : ℕ × ObjectState}
    (hnodup : (carriers.map fun spend => spend.2.currentOutpoint).Nodup) (hmem : spend ∈ carriers) :
    ∃ event, spendsOf spend.2.currentOutpoint spend.2.objectKey
      (exitEvents block tx txIndex eventIndex reason ns sub carriers) = [event] ∧
        event.SpendsCarrier := by
  induction carriers generalizing sub with
  | nil => simp at hmem
  | cons first rest ih =>
    obtain ⟨hfirst,hrest⟩ := List.nodup_cons.mp hnodup
    rcases List.mem_cons.mp hmem with rfl | htail
    · refine ⟨exitEvent block tx txIndex eventIndex (UInt32.ofNat sub) reason ns spend.2,?_,
        Or.inr ⟨rfl,rfl⟩⟩
      have hnone : spendsOf spend.2.currentOutpoint spend.2.objectKey
          (exitEvents block tx txIndex eventIndex reason ns (sub + 1) rest) = [] := by
        rw [spendsOf,List.filter_eq_nil_iff]
        intro event hevent hspends
        obtain ⟨other,hother,subIndex,rfl⟩ := mem_exitEvents hevent
        simp only [decide_eq_true_eq] at hspends
        exact hfirst (List.mem_map.mpr ⟨other,hother,hspends.1⟩)
      rw [spendsOf] at hnone ⊢
      rw [exitEvents,List.filter_cons_of_pos (by simp [exitEvent]),hnone]
    · obtain ⟨event,hevent,hspends⟩ := @ih (sub + 1) hrest htail
      refine ⟨event,?_,hspends⟩
      have hne : first.2.currentOutpoint ≠ spend.2.currentOutpoint := by
        intro he
        exact hfirst (List.mem_map.mpr ⟨spend,htail,he.symm⟩)
      rw [spendsOf] at hevent ⊢
      rw [exitEvents,List.filter_cons_of_neg (by simp [exitEvent,hne]),hevent]

theorem spendsOf_singleton {event : Event} {outpoint : OutPointRef} {key : Hash32}
    (hpredecessor : event.predecessor = outpoint) (hkey : event.objectKey = key) :
    spendsOf outpoint key [event] = [event] := by
  simp [spendsOf,hpredecessor,hkey]

theorem erase_active_eq_none {object : ObjectState} {o : OutPointRef}
    (h : object.currentOutpoint = o) :
    (state.active.erase object.currentOutpoint)[o]? = none := by
  simp [← h]

theorem moveCarrier_active_eq_none {object moved : ObjectState} {o : OutPointRef}
    (h : object.currentOutpoint = o) (hne : moved.currentOutpoint ≠ o) :
    (moveCarrier state object.currentOutpoint moved).active[o]? = none := by
  subst h
  simp [moveCarrier,hne]

theorem TxEffect.accounted (h : TxEffect P state block tx txIndex state' events)
    (hindexed : Indexed P binding placed state)
    (hdistinct : Distinct P binding (placed ++ [⟨block.height,tx⟩]))
    (hprevouts : (tx.inputs.map InputView.prevout).Nodup)
    (hscript : ∀ input ∈ tx.inputs, ∀ key : Hash32, state.active[input.prevout]? = some key →
      input.prevoutScript.length = 34) :
    Accounted state state' tx events := by
  intro input hinput key hactive
  obtain ⟨i,object,hspend,houtpoint,hkey⟩ := hindexed.spend_of_active hinput hactive
  have hfresh : state.active[(⟨tx.txid,1⟩ : OutPointRef)]? = none := hindexed.outpoint_fresh hdistinct
  have hne : (⟨tx.txid,1⟩ : OutPointRef) ≠ input.prevout := by
    intro he
    rw [he,hactive] at hfresh
    simp at hfresh
  cases h with
  | silent hcandidates hcarriers => simp [hcarriers] at hspend
  | rejected eventIndex eventType reason ns hcandidates hcarriers => simp [hcarriers] at hspend
  | created candidate marker keys initHeight hOpen hClose hcandidates hparse hcarriers hstatus haccepted =>
    obtain ⟨input0,input1,_,_,_,_,haccept⟩ := haccepted
    have hlength := hscript input hinput key hactive
    rw [haccept.inputs] at hinput
    simp only [List.mem_cons,List.not_mem_nil,or_false] at hinput
    rcases hinput with rfl | rfl
    · have hp2wpkh := p2wpkhKey_length haccept.key0
      omega
    · have hp2wpkh := p2wpkhKey_length haccept.key1
      omega
  | marked candidate marker owner sequence commitment chapterCount hcandidates hparse hcarriers =>
    obtain ⟨rfl,rfl⟩ : i = 0 ∧ object = owner := by simpa [hcarriers] using hspend
    exact ⟨moveCarrier_active_eq_none houtpoint hne,_,spendsOf_singleton houtpoint hkey,
      Or.inl ⟨rfl,by simp [validEventBase]⟩⟩
  | rotated candidate marker owner sequence keys hcandidates hparse hcarriers haccepted =>
    obtain ⟨rfl,rfl⟩ : i = 0 ∧ object = owner := by simpa [hcarriers] using hspend
    exact ⟨moveCarrier_active_eq_none houtpoint hne,_,spendsOf_singleton houtpoint hkey,
      Or.inl ⟨rfl,by simp [validEventBase]⟩⟩
  | closed candidate marker owner sequence commitment hcandidates hparse hcarriers haccepted =>
    obtain ⟨rfl,rfl⟩ : i = 0 ∧ object = owner := by simpa [hcarriers] using hspend
    exact ⟨erase_active_eq_none houtpoint,_,spendsOf_singleton houtpoint hkey,
      Or.inl ⟨rfl,by simp [validEventBase]⟩⟩
  | refunded owner hcandidates hcarriers haccepted =>
    obtain ⟨rfl,rfl⟩ : i = 0 ∧ object = owner := by simpa [hcarriers] using hspend
    exact ⟨erase_active_eq_none houtpoint,_,spendsOf_singleton houtpoint hkey,
      Or.inl ⟨rfl,by simp [validRefundEvent,validEventBase]⟩⟩
  | exited eventIndex reason ns carriers hnonempty hperm hsorted hlength =>
    have hmem := hperm.mem_iff.mpr hspend
    have hnodup : (carriers.map fun spend => spend.2.currentOutpoint).Nodup :=
      (hperm.map _).nodup_iff.mpr (hindexed.carrierSpends_nodup hprevouts)
    obtain ⟨event,hevent,hspends⟩ := exitEvents_spendsOf hnodup hmem
    refine ⟨?_,event,houtpoint ▸ hkey ▸ hevent,hspends⟩
    rw [terminateAll_active,if_pos (List.mem_map.mpr ⟨_,hmem,houtpoint⟩)]

theorem TxEffect.traced (h : TxEffect P state block tx txIndex state' events)
    (hindexed : Indexed P binding placed state) : Traced state tx events := by
  have hinput : ∀ i object, (i,object) ∈ carrierSpends state tx → ∃ input ∈ tx.inputs,
      input.prevout = object.currentOutpoint ∧
        state.active[input.prevout]? = some object.objectKey := by
    intro i object hspend
    obtain ⟨_,_,hactive,input,hinput,hprevout⟩ := hindexed.owner hspend
    exact ⟨input,List.mem_of_getElem? hinput,hprevout,hprevout ▸ hactive⟩
  intro event hevent hpredecessor
  cases h with
  | silent hcandidates hcarriers => simp at hevent
  | rejected eventIndex eventType reason ns hcandidates hcarriers =>
    rw [List.mem_singleton.mp hevent] at hpredecessor
    exact absurd rfl hpredecessor
  | created candidate marker keys initHeight hOpen hClose hcandidates hparse hcarriers hstatus haccepted =>
    rw [List.mem_singleton.mp hevent] at hpredecessor
    exact absurd rfl hpredecessor
  | marked candidate marker owner sequence commitment chapterCount hcandidates hparse hcarriers =>
    rw [List.mem_singleton.mp hevent]
    exact hinput 0 owner (by simp [hcarriers])
  | rotated candidate marker owner sequence keys hcandidates hparse hcarriers haccepted =>
    rw [List.mem_singleton.mp hevent]
    exact hinput 0 owner (by simp [hcarriers])
  | closed candidate marker owner sequence commitment hcandidates hparse hcarriers haccepted =>
    rw [List.mem_singleton.mp hevent]
    exact hinput 0 owner (by simp [hcarriers])
  | refunded owner hcandidates hcarriers haccepted =>
    rw [List.mem_singleton.mp hevent]
    exact hinput 0 owner (by simp [hcarriers])
  | exited eventIndex reason ns carriers hnonempty hperm hsorted hlength =>
    obtain ⟨spend,hspend,subIndex,rfl⟩ := mem_exitEvents hevent
    exact hinput spend.1 spend.2 (hperm.mem_iff.mp hspend)

end Accounting

/-- In a consistent run every call accounts for the carriers it spends, every spend that a
call records is traced to such an input, and every other event of the run records none. -/
theorem carrier_spends_accounted {blocks : List BlockView} {final : ChainState}
    {deltas : List BlockDelta}
    (hrun : applyBlocks P (ChainState.new P binding) blocks = some (final,deltas))
    (hconsistent : Consistent P binding (placedTransactions blocks)) :
    (∀ block tx before after emitted, Called P binding blocks block tx before after emitted →
      Accounted before after tx emitted ∧ Traced before tx emitted) ∧
    ∀ delta ∈ deltas, ∀ event ∈ delta.events, event.predecessor ≠ .zero →
      ∃ block tx before after emitted, Called P binding blocks block tx before after emitted ∧
        event ∈ emitted ∧ ∃ input ∈ tx.inputs, input.prevout = event.predecessor ∧
          before.active[input.prevout]? = some event.objectKey := by
  have hcalls : ∀ block tx before after emitted,
      Called P binding blocks block tx before after emitted →
      Accounted before after tx emitted ∧ Traced before tx emitted := by
    intro block tx before after emitted hcalled
    obtain ⟨placed,more,log,txIndex,hplaced,hpoint,hcall⟩ := hcalled.point
    rw [hplaced] at hconsistent
    have hdistinct : Distinct P binding (placed ++ [⟨block.height,tx⟩]) := by
      have hh := hconsistent.toDistinct
      rw [List.append_cons] at hh
      exact hh.of_append
    have hindexed := hpoint.reached.indexed hdistinct.of_append
    have heffect := processTransaction_effect hcall
    refine ⟨heffect.accounted hindexed hdistinct ?_ ?_,heffect.traced hindexed⟩
    · exact hconsistent.prevouts ⟨block.height,tx⟩ (by simp)
    · intro input hinput key hactive
      obtain ⟨⟨keys,hscript⟩,_⟩ :=
        carrier_input hindexed hpoint.reached.custody hconsistent.resolved.outputs hinput hactive
      rw [hscript,KeyPair.carrierScript_length]
  refine ⟨hcalls,?_⟩
  intro delta hdelta event hevent hpredecessor
  rcases applyBlocks_event_called hrun hdelta hevent with hinert | hcalled
  · exact absurd hinert.1.2 hpredecessor
  · obtain ⟨block,tx,before,after,emitted,hcalled,hmem⟩ := hcalled
    exact ⟨block,tx,before,after,emitted,hcalled,hmem,
      (hcalls block tx before after emitted hcalled).2 event hmem hpredecessor⟩

theorem sample_resolved : Resolved (placedTransactions sampleBlocks) := by
  rw [sampleBlocks_placed]
  refine List.pairwise_cons.mpr ⟨?_,List.pairwise_cons.mpr ⟨?_,List.pairwise_singleton _ _⟩⟩
  · intro later hlater input hinput htxid
    simp only [List.mem_cons,List.not_mem_nil,or_false] at hlater
    rcases hlater with rfl | rfl
    · simp only [sampleCreate,List.mem_cons,List.not_mem_nil,or_false] at hinput
      rcases hinput with rfl | rfl <;> exact absurd htxid (by decide)
    · simp only [sampleRotate,List.mem_cons,List.not_mem_nil,or_false] at hinput
      rcases hinput with rfl | rfl | rfl <;> exact absurd htxid (by decide)
  · intro later hlater input hinput htxid output houtput
    rw [List.mem_singleton.mp hlater] at hinput
    simp only [sampleRotate,List.mem_cons,List.not_mem_nil,or_false] at hinput
    rcases hinput with rfl | rfl | rfl
    · obtain rfl := Option.some.inj houtput
      exact ⟨rfl,rfl,rfl⟩
    · exact absurd htxid (by decide)
    · exact absurd htxid (by decide)

theorem sample_consistent :
    Consistent bitcoinPrimitives sampleBinding (placedTransactions sampleBlocks) := by
  refine ⟨sample_distinct,?_,sample_resolved⟩
  rw [sampleBlocks_placed]
  decide

theorem sample_accounted : ∃ final deltas, applyBlocks bitcoinPrimitives
    (ChainState.new bitcoinPrimitives sampleBinding) sampleBlocks = some (final,deltas) ∧
      ∀ block tx before after emitted,
        Called bitcoinPrimitives sampleBinding sampleBlocks block tx before after emitted →
        Accounted before after tx emitted ∧ Traced before tx emitted := by
  obtain ⟨final,deltas,hrun,_⟩ := sampleBlocks_run
  exact ⟨final,deltas,hrun,(carrier_spends_accounted hrun sample_consistent).1⟩

end TandemVerifier
