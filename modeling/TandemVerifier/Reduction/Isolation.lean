import TandemVerifier.Core.MarkerGrammar
import TandemVerifier.Reduction.Representation
import TandemVerifier.Reduction.ObjectRoot

/-! # Two deployments on one chain do not share anything

Every deployment has its own namespace, and every operation but a REFUND names one. A
transaction has at most one marker that an operation can use, whichever INIT a deployment
follows, so an operation is valid in one deployment only; an outpoint is active in the
deployment of the operation that made it, and a REFUND inherits the deployment of what it
spends. What two deployments agree on would be a collision of the hash.
-/
namespace TandemVerifier
open Library Library.Outcome
variable {P : Primitives} {binding binding' : Binding} {state state' : ChainState}
variable {block : BlockView} {tx : TxView} {txIndex : UInt32} {events : List Event}

/-- The candidates that are not an INIT; these do not depend on the deployment. -/
def operationCandidates (tx : TxView) : List MarkerCandidate :=
  tx.outputs.zipIdx.filterMap fun (output,index) => do
    let vout ← u32TryFrom index
    let candidate ← findMarkerCandidate output.scriptPubkey vout
    if candidate.isInitCandidate then none else some candidate

theorem markerCandidates_filter (tx : TxView) (binding : Binding) :
    (markerCandidates tx binding).filter (fun candidate => !candidate.isInitCandidate) =
      operationCandidates tx := by
  rw [markerCandidates,operationCandidates,List.filter_filterMap]
  apply List.filterMap_congr
  rintro ⟨output,index⟩ _
  cases hvout : u32TryFrom index with
  | none => simp [hvout]
  | some vout =>
    cases hfind : findMarkerCandidate output.scriptPubkey vout with
    | none => simp [hvout,hfind]
    | some candidate =>
      cases hinit : candidate.isInitCandidate with
      | false => simp [hvout,hfind,hinit]
      | true =>
        simp only [hvout,hfind,hinit,Option.bind_eq_bind,Option.bind_some,Bool.true_and,bne_iff_ne]
        split <;> simp [hinit]

/-- The transaction carries one operation marker, and it names the deployment. -/
def Claims (P : Primitives) (binding : Binding) (tx : TxView) : Prop :=
  ∃ candidate marker, operationCandidates tx = [candidate] ∧ candidate.parse = ok marker ∧
    marker.hashAt 8 = (ok (binding.namespace P) : Outcome Reason Hash32)

/-- A transaction names one deployment. -/
theorem Claims.agree (h : Claims P binding tx) (h' : Claims P binding' tx) :
    binding.namespace P = binding'.namespace P := by
  obtain ⟨candidate,marker,hcandidates,hparse,hns⟩ := h
  obtain ⟨candidate',marker',hcandidates',hparse',hns'⟩ := h'
  obtain rfl : candidate = candidate' := by simpa [hcandidates] using hcandidates'
  obtain rfl : marker = marker' := Outcome.ok.inj (hparse.symm.trans hparse')
  exact Outcome.ok.inj (hns.symm.trans hns')

theorem validateSingle_names {blockHeight : UInt64} {marker : ParsedMarker}
    {carrier : Option (ℕ × ObjectState)} {operation : ValidatedOperation}
    (h : validateSingle P state blockHeight tx marker carrier = ok operation) :
    marker.hashAt 8 = (ok (state.binding.namespace P) : Outcome Reason Hash32) ∧
      ∃ opcode, marker.opcode = some opcode ∧ opcode ≠ .init := by
  simp only [validateSingle,bind_eq_ok,failIf_eq_ok,okOr_eq_ok] at h
  obtain ⟨_,_,_,_,opcode,hopcode,_,hcheck,hdispatch⟩ := h
  have hother : opcode ≠ .init := by
    rintro rfl
    simp at hdispatch
  rw [checkNamespace,if_neg hother] at hcheck
  simp only [bind_eq_ok,failIf_eq_ok,bne_eq_false_iff_eq] at hcheck
  obtain ⟨ns,hns,rfl⟩ := hcheck
  exact ⟨hns,opcode,hopcode,hother⟩

theorem parse_not_init {candidate : MarkerCandidate} {marker : ParsedMarker} {opcode : Opcode}
    (hparse : candidate.parse = ok marker) (hopcode : marker.opcode = some opcode)
    (hother : opcode ≠ .init) : candidate.isInitCandidate = false := by
  obtain ⟨_,_,_,_,_,_,_,_,_,hbyte,hread,_⟩ := parse_eq_ok.mp hparse
  rw [MarkerCandidate.isInitCandidate,MarkerCandidate.opcodeByte,hbyte]
  apply beq_false_of_ne
  intro hzero
  rw [hread,Option.some.inj hzero] at hopcode
  exact hother (Option.some.inj hopcode).symm

theorem terminateCarriers_exits {eventIndex : UInt32} {reason : Reason} {ns : Hash32}
    {carriers : List (ℕ × ObjectState)}
    (h : terminateCarriers state block tx txIndex eventIndex reason ns carriers = ok (state',events)) :
    ∀ event ∈ events, event.validityClass ≠ .validOperation := by
  intro event hevent
  obtain ⟨_,rfl,_⟩ := terminateEach_ok h
  obtain ⟨spend,_,subIndex,rfl⟩ := mem_exitEvents hevent
  simp [exitEvent]

/-- A REFUND carries no marker and spends one active outpoint. -/
def Refunds (state : ChainState) (tx : TxView) : Prop :=
  operationCandidates tx = [] ∧
    ∃ input key, tx.inputs = [input] ∧ state.active[input.prevout]? = some key

/-- A valid operation names its deployment or is a REFUND. -/
theorem processTransaction_valid (h : processTransaction P state block tx txIndex = ok (state',events))
    {event : Event} (hevent : event ∈ events) (hvalid : event.validityClass = .validOperation) :
    Claims P state.binding tx ∨ event.eventType = .refund ∧ Refunds state tx := by
  unfold processTransaction at h
  dsimp only at h
  split at h
  · split at h
    · obtain ⟨_,rfl⟩ := Prod.mk.inj (Outcome.ok.inj h)
      rw [List.mem_singleton.mp hevent] at hvalid
      simp [bareInvalidEvent] at hvalid
    · exact absurd hvalid (terminateCarriers_exits h event hevent)
  next hone =>
  split at h
  · exact absurd hvalid (terminateCarriers_exits h event hevent)
  cases hhead : (markerCandidates tx state.binding).head? with
  | none =>
    simp only [hhead,processMarkerless] at h
    have hcandidates := List.head?_eq_none_iff.mp hhead
    cases hcarrier : (carrierSpends state tx).head? with
    | none =>
      simp only [hcarrier,pure_eq_ok,Outcome.ok.injEq,Prod.mk.injEq] at h
      simp [← h.2] at hevent
    | some spend =>
      obtain ⟨i,object⟩ := spend
      simp only [hcarrier] at h
      split at h
      · cases hrefund : validateRefund P block.height tx object with
        | panic => simp [hrefund] at h
        | err reason =>
          simp only [hrefund] at h
          exact absurd hvalid (terminateCarriers_exits h event hevent)
        | ok u =>
          simp only [hrefund,pure_eq_ok,Outcome.ok.injEq,Prod.mk.injEq] at h
          obtain ⟨_,rfl⟩ := h
          obtain ⟨input,output0,output1,haccepted⟩ := validateRefund_ok hrefund
          obtain ⟨spent,key,hspent,hactive,_⟩ := mem_carrierSpends.mp (List.mem_of_head? hcarrier)
          obtain rfl : spent = input := by
            have hmem := List.mem_of_getElem? hspent
            rw [haccepted.inputs] at hmem
            exact List.mem_singleton.mp hmem
          refine Or.inr ⟨by rw [List.mem_singleton.mp hevent]; rfl,?_,spent,key,haccepted.inputs,hactive⟩
          rw [← markerCandidates_filter tx state.binding,hcandidates]
          rfl
      · exact absurd hvalid (terminateCarriers_exits h event hevent)
  | some candidate =>
    simp only [hhead,processMarked] at h
    have hcandidates := eq_singleton_of_head? (by omega) hhead
    cases hvalidation : candidate.parse >>= fun marker =>
        validateSingle P state block.height tx marker (carrierSpends state tx).head? with
    | panic => simp [hvalidation] at h
    | err reason =>
      simp only [hvalidation] at h
      split at h
      · obtain ⟨_,rfl⟩ := Prod.mk.inj (Outcome.ok.inj h)
        rw [List.mem_singleton.mp hevent] at hvalid
        simp [bareInvalidEvent] at hvalid
      · exact absurd hvalid (terminateCarriers_exits h event hevent)
    | ok operation =>
      obtain ⟨marker,hparse,hsingle⟩ := bind_eq_ok.mp hvalidation
      obtain ⟨hns,opcode,hopcode,hother⟩ := validateSingle_names hsingle
      refine Or.inl ⟨candidate,marker,?_,hparse,hns⟩
      rw [← markerCandidates_filter tx state.binding,hcandidates]
      simp [parse_not_init hparse hopcode hother]

/-- A new entry of the active index comes with a valid operation that is no REFUND. -/
theorem TxEffect.active_new {outpoint : OutPointRef} {key : Hash32}
    (h : TxEffect P state block tx txIndex state' events)
    (hactive : state'.active[outpoint]? = some key) :
    state.active[outpoint]? = some key ∨ outpoint.txid = tx.txid ∧
      ∃ event ∈ events, event.validityClass = .validOperation ∧ event.eventType ≠ .refund := by
  have hnew : ∀ event : Event, event ∈ events → event.validityClass = .validOperation →
      event.eventType ≠ .refund → state.active[outpoint]? = some key ∨ outpoint.txid = tx.txid ∧
        ∃ event ∈ events, event.validityClass = .validOperation ∧ event.eventType ≠ .refund := by
    intro event hevent hvalid htype
    rcases h.active_step hactive with hold | rfl
    · exact Or.inl hold
    · exact Or.inr ⟨rfl,event,hevent,hvalid,htype⟩
  cases h with
  | silent hcandidates hcarriers => exact Or.inl hactive
  | rejected eventIndex eventType reason ns hcandidates hcarriers => exact Or.inl hactive
  | created candidate marker keys initHeight hOpen hClose hcandidates hparse hcarriers hstatus haccepted =>
    exact hnew _ List.mem_cons_self rfl (by simp [validEventBase])
  | marked candidate marker object sequence commitment chapterCount hcandidates hparse hcarriers =>
    exact hnew _ List.mem_cons_self rfl (by simp [validEventBase])
  | rotated candidate marker object sequence keys hcandidates hparse hcarriers haccepted =>
    exact hnew _ List.mem_cons_self rfl (by simp [validEventBase])
  | closed candidate marker object sequence commitment hcandidates hparse hcarriers haccepted =>
    exact Or.inl ((closeObject_terminates state object sequence tx.txid).active_mem hactive)
  | refunded object hcandidates hcarriers haccepted =>
    exact Or.inl ((terminateObject_terminates state object .refunded tx.txid (by simp)).active_mem hactive)
  | exited eventIndex reason ns carriers hnonempty hperm hsorted hlength =>
    rw [terminateAll_active] at hactive
    split at hactive
    · simp at hactive
    · exact Or.inl hactive

/-- Every active outpoint was made by a transaction that names the deployment. -/
structure Claimed (P : Primitives) (binding : Binding) (placed : List Placed) (state : ChainState) :
    Prop where
  binding_eq : state.binding = binding
  active : ∀ (outpoint : OutPointRef) (key : Hash32), state.active[outpoint]? = some key →
    ∃ entry ∈ placed, entry.tx.txid = outpoint.txid ∧ Claims P binding entry.tx

theorem Reached.claimed {placed : List Placed} {log : List Event} (h : Reached P binding placed log state) :
    Claimed P binding placed state := by
  induction h with
  | fresh => exact ⟨rfl,by simp [ChainState.new]⟩
  | decided status _ hawaiting ih => exact ⟨ih.binding_eq,ih.active⟩
  | sealed tipHeight tipHash chainedRoot _ ih => exact ⟨ih.binding_eq,ih.active⟩
  | passed more emitted _ hinert ih =>
    refine ⟨ih.binding_eq,fun outpoint key hactive => ?_⟩
    obtain ⟨entry,hentry,hrest⟩ := ih.active outpoint key hactive
    exact ⟨entry,List.mem_append_left _ hentry,hrest⟩
  | processed block tx txIndex _ hcall ih =>
    have heffect := processTransaction_effect hcall
    refine ⟨?_,fun outpoint key hactive => ?_⟩
    · rw [heffect.frame]
      exact ih.binding_eq
    · rcases heffect.active_new hactive with hold | ⟨htxid,event,hevent,hvalid,htype⟩
      · obtain ⟨entry,hentry,hrest⟩ := ih.active outpoint key hold
        exact ⟨entry,List.mem_append_left _ hentry,hrest⟩
      · rcases processTransaction_valid hcall hevent hvalid with hclaims | ⟨hrefund,_⟩
        · exact ⟨⟨block.height,tx⟩,by simp,htxid.symm,ih.binding_eq ▸ hclaims⟩
        · exact absurd hrefund htype

section Runs
variable {chain blocks blocks' : List BlockView} {final final' : ChainState}
variable {deltas deltas' : List BlockDelta}

/-- A valid event other than that of the INIT itself. -/
def Event.Operates (event : Event) : Prop :=
  event.validityClass = .validOperation ∧ event.eventType ≠ .init

/-- The transaction names the deployment or takes back an output of one that does. -/
def Belongs (P : Primitives) (binding : Binding) (placed : List Placed) (tx : TxView) : Prop :=
  Claims P binding tx ∨ operationCandidates tx = [] ∧ ∃ input entry, tx.inputs = [input] ∧
    entry ∈ placed ∧ entry.tx.txid = input.prevout.txid ∧ Claims P binding entry.tx

/-- Every operation in the log of a deployment belongs to it. -/
theorem applyBlocks_belongs (hrun : applyBlocks P (ChainState.new P binding) blocks = some (final,deltas))
    {event : Event} (hevent : event ∈ deltas.flatMap BlockDelta.events) (hoperates : event.Operates) :
    ∃ entry ∈ placedTransactions blocks, entry.tx.txid = event.txid ∧
      Belongs P binding (placedTransactions blocks) entry.tx := by
  obtain ⟨delta,hdelta,hmem⟩ := List.mem_flatMap.mp hevent
  rcases applyBlocks_event_called hrun hdelta hmem with ⟨⟨hinert | hinit,_⟩,_⟩ | hcalled
  · simp [hoperates.1] at hinert
  · exact absurd hinit hoperates.2
  obtain ⟨block,tx,before,after,emitted,hcalled,hemitted⟩ := hcalled
  obtain ⟨placed,more,log,txIndex,hplaced,hpoint,hcall⟩ := hcalled.point
  have hclaimed := hpoint.reached.claimed
  refine ⟨⟨block.height,tx⟩,by simp [hplaced],?_,?_⟩
  · exact ((processTransaction_effect hcall).events_from event hemitted).txid.symm
  · rcases processTransaction_valid hcall hemitted hoperates.1 with hclaims | ⟨_,hnone,input,key,hinputs,hactive⟩
    · exact Or.inl (hclaimed.binding_eq ▸ hclaims)
    · obtain ⟨entry,hentry,htxid,hclaims⟩ := hclaimed.active input.prevout key hactive
      exact Or.inr ⟨hnone,input,entry,hinputs,by simp [hplaced,hentry],htxid,hclaims⟩

/-- A transaction belongs to one deployment, where identifiers determine transactions. -/
theorem Belongs.agree {placed placed' : List Placed} {tx : TxView} (h : Belongs P binding placed tx)
    (h' : Belongs P binding' placed' tx)
    (hshared : ∀ entry ∈ placed, ∀ entry' ∈ placed', entry.tx.txid = entry'.tx.txid → entry = entry') :
    binding.namespace P = binding'.namespace P := by
  rcases h with hclaims | ⟨hnone,input,entry,hinputs,hentry,htxid,hclaims⟩
  · rcases h' with hclaims' | ⟨hnone',_⟩
    · exact hclaims.agree hclaims'
    · obtain ⟨candidate,_,hcandidates,_⟩ := hclaims
      simp [hnone'] at hcandidates
  · rcases h' with ⟨candidate,_,hcandidates,_⟩ | ⟨_,input',entry',hinputs',hentry',htxid',hclaims'⟩
    · simp [hnone] at hcandidates
    · obtain rfl : input = input' := by simpa [hinputs] using hinputs'
      obtain rfl := hshared entry hentry entry' hentry' (htxid.trans htxid'.symm)
      exact hclaims.agree hclaims'

/-- What a deployment hashes to name itself and its objects. -/
def identityPreimages (P : Primitives) (binding : Binding) (chain : List BlockView) : List Bytes :=
  binding.namespacePreimage ::
    (placedTransactions chain).map fun entry => objectKeyPreimage (binding.namespace P) entry.tx.txid

theorem objectKeyPreimage_injective {ns ns' txid txid' : Hash32}
    (h : objectKeyPreimage ns txid = objectKeyPreimage ns' txid') : ns = ns' ∧ txid = txid' := by
  have hh := flatten_inj_of_lengths (by simp) h
  simpa using hh

theorem placedTransactions_suffix (h : blocks <:+ chain) {entry : Placed}
    (hentry : entry ∈ placedTransactions blocks) : entry ∈ placedTransactions chain := by
  obtain ⟨block,hblock,hmem⟩ := List.mem_flatMap.mp hentry
  exact List.mem_flatMap.mpr ⟨block,h.subset hblock,hmem⟩

/-- Transactions with distinct identifiers have distinct object keys, or the hash collides. -/
theorem Distinct.of_chain (hS : ¬ Collision P.sha256 (identityPreimages P binding chain))
    (hnodup : ((placedTransactions chain).map fun entry => entry.tx.txid).Nodup) (h : blocks <:+ chain) :
    Distinct P binding (placedTransactions blocks) where
  txids := by
    obtain ⟨before,rfl⟩ := h
    rw [placedTransactions,List.flatMap_append,List.map_append] at hnodup
    exact hnodup.of_append_right
  keys := by
    intro entry hentry other hother hkeys
    have hpreimages := eq_of_sha256_eq hS
      (List.mem_cons_of_mem _ (List.mem_map_of_mem (placedTransactions_suffix h hentry)))
      (List.mem_cons_of_mem _ (List.mem_map_of_mem (placedTransactions_suffix h hother))) hkeys
    exact objectKeyPreimage_inj hpreimages

/-- Two deployments followed on one chain, from whichever blocks on: no transaction is a valid
operation of both, no outpoint is active in both and no key names an object of both, unless
the hash collides on what they hashed. -/
theorem deployments_isolated (hne : binding ≠ binding')
    (hnodup : ((placedTransactions chain).map fun entry => entry.tx.txid).Nodup)
    (hblocks : blocks <:+ chain) (hblocks' : blocks' <:+ chain)
    (hrun : applyBlocks P (ChainState.new P binding) blocks = some (final,deltas))
    (hrun' : applyBlocks P (ChainState.new P binding') blocks' = some (final',deltas')) :
    ((∀ event ∈ deltas.flatMap BlockDelta.events, ∀ event' ∈ deltas'.flatMap BlockDelta.events,
        event.Operates → event'.Operates → event.txid ≠ event'.txid) ∧
      (∀ outpoint : OutPointRef, final.active[outpoint]? = none ∨ final'.active[outpoint]? = none) ∧
      ∀ key : Hash32, final.objects[key]? = none ∨ final'.objects[key]? = none) ∨
    Collision P.sha256 (identityPreimages P binding chain ++ identityPreimages P binding' chain) := by
  by_cases hS : Collision P.sha256 (identityPreimages P binding chain ++ identityPreimages P binding' chain)
  · exact Or.inr hS
  have hns : binding.namespace P ≠ binding'.namespace P := by
    intro hsame
    exact hne (Binding.namespacePreimage_injective (eq_of_sha256_eq hS
      (by simp [identityPreimages]) (by simp [identityPreimages]) hsame))
  have hshared : ∀ entry ∈ placedTransactions blocks, ∀ entry' ∈ placedTransactions blocks',
      entry.tx.txid = entry'.tx.txid → entry = entry' := by
    intro entry hentry entry' hentry' htxid
    exact List.inj_on_of_nodup_map hnodup (placedTransactions_suffix hblocks hentry)
      (placedTransactions_suffix hblocks' hentry') htxid
  refine Or.inl ⟨?_,?_,?_⟩
  · intro event hevent event' hevent' hoperates hoperates' htxid
    obtain ⟨entry,hentry,hid,hbelongs⟩ := applyBlocks_belongs hrun hevent hoperates
    obtain ⟨entry',hentry',hid',hbelongs'⟩ := applyBlocks_belongs hrun' hevent' hoperates'
    obtain rfl := hshared entry hentry entry' hentry' (hid.trans (htxid.trans hid'.symm))
    exact hns (hbelongs.agree hbelongs' hshared)
  · intro outpoint
    by_contra hboth
    rw [not_or] at hboth
    obtain ⟨key,hactive⟩ := Option.ne_none_iff_exists'.mp hboth.1
    obtain ⟨key',hactive'⟩ := Option.ne_none_iff_exists'.mp hboth.2
    obtain ⟨entry,hentry,htxid,hclaims⟩ := (run_reached hrun).claimed.active outpoint key hactive
    obtain ⟨entry',hentry',htxid',hclaims'⟩ := (run_reached hrun').claimed.active outpoint key' hactive'
    obtain rfl := hshared entry hentry entry' hentry' (htxid.trans htxid'.symm)
    exact hns (hclaims.agree hclaims')
  · intro key
    by_contra hboth
    rw [not_or] at hboth
    obtain ⟨object,hobject⟩ := Option.ne_none_iff_exists'.mp hboth.1
    obtain ⟨object',hobject'⟩ := Option.ne_none_iff_exists'.mp hboth.2
    have hdistinct : Distinct P binding (placedTransactions blocks) :=
      .of_chain (fun hc => hS (hc.mono (List.subset_append_left _ _))) hnodup hblocks
    have hdistinct' : Distinct P binding' (placedTransactions blocks') :=
      .of_chain (fun hc => hS (hc.mono (List.subset_append_right _ _))) hnodup hblocks'
    obtain ⟨entry,hentry,_,hkey⟩ := ((run_reached hrun).indexed hdistinct).genesis key object hobject
    obtain ⟨entry',hentry',_,hkey'⟩ := ((run_reached hrun').indexed hdistinct').genesis key object' hobject'
    have hpreimages := eq_of_sha256_eq hS
      (List.mem_append_left _ (List.mem_cons_of_mem _
        (List.mem_map_of_mem (placedTransactions_suffix hblocks hentry))))
      (List.mem_append_right _ (List.mem_cons_of_mem _
        (List.mem_map_of_mem (placedTransactions_suffix hblocks' hentry')))) (hkey.symm.trans hkey')
    exact hns (objectKeyPreimage_injective hpreimages).1

end Runs

section Sample

/-- A second deployment, with its own INIT beside that of the first one. -/
def otherBinding : Binding := ⟨.regtest,sampleHash 31,sampleHash 99⟩

def otherInit : TxView := { sampleInit with
  txid := otherBinding.initTxid
  wtxid := sampleHash 32
  inputs := [fundingInput key1G 33 2000 0xffffffff]
  outputs := [markerOutput (magic ++ [1,3,0] ++ u32LeBytes 1108 ++ u32LeBytes 5428 ++
    u64LeBytes carrierValue ++ u32LeBytes refundDelay ++ otherBinding.specHash.toList),
    keyOutput 1000 key1G] }

def otherCreate : TxView := { sampleCreate with
  txid := sampleHash 34
  wtxid := sampleHash 35
  inputs := [fundingInput key1G 36 20000 rbfSequence,fundingInput key2G 37 20000 rbfSequence]
  outputs := [markerOutput (magic ++ [1,3,1,1] ++ (otherBinding.namespace bitcoinPrimitives).toList),
    ⟨carrierValue,sampleKeys.carrierScript bitcoinPrimitives⟩,keyOutput 8485 key1G,keyOutput 8485 key2G] }

def otherKey : Hash32 :=
  objectKey bitcoinPrimitives (otherBinding.namespace bitcoinPrimitives) otherCreate.txid

def twinInit : BlockView := sampleBlock 100 [sampleInit,otherInit]

/-- Both deployments are activated in one block and create an object each in another one. -/
def twinBlocks : List BlockView :=
  ([twinInit] ++ emptyBlocks sampleHash 101 1007) ++ [sampleBlock 1108 [sampleCreate,otherCreate]]

theorem twinBlocks_placed : placedTransactions twinBlocks =
    [⟨100,sampleInit⟩,⟨100,otherInit⟩,⟨1108,sampleCreate⟩,⟨1108,otherCreate⟩] := opening_placed _ _

/-- The deployments with the CREATE and the key of their objects. -/
def twinDeployments : List (Binding × TxView × Hash32) :=
  [(sampleBinding,sampleCreate,sampleKey),(otherBinding,otherCreate,otherKey)]

set_option maxRecDepth 10000 in
theorem twinDeployed_eq : ∀ entry ∈ twinDeployments,
    (applyBlocks bitcoinPrimitives (ChainState.new bitcoinPrimitives entry.1) [twinInit]).map (fun run =>
      (run.1.protocolStatus,run.1.tipHeight,run.1.tipHash,
        run.1.objects.isEmpty && run.1.active.isEmpty)) =
      some (.active 100 1108 5428,some 100,some (sampleHash 100),true) := by
  decide +kernel

set_option maxRecDepth 10000 in
theorem twinOpened_eq : ∀ entry ∈ twinDeployments,
    (applyBlocks bitcoinPrimitives (openedFrom entry.1 twinInit)
      [sampleBlock 1108 [sampleCreate,otherCreate]]).map (fun run => run.1.active.toList) =
      some [(⟨entry.2.1.txid,1⟩,entry.2.2)] := by
  decide +kernel

/-- Each deployment has one active object at the end of the blocks. -/
theorem twinBlocks_run : ∀ entry ∈ twinDeployments, ∃ final deltas,
    applyBlocks bitcoinPrimitives (ChainState.new bitcoinPrimitives entry.1) twinBlocks = some (final,deltas) ∧
      final.active.toList = [(⟨entry.2.1.txid,1⟩,entry.2.2)] := by
  intro entry hentry
  obtain ⟨⟨start,first⟩,hstart,hvalues⟩ := Option.map_eq_some_iff.mp (twinDeployed_eq entry hentry)
  simp only [Prod.mk.injEq,Bool.and_eq_true,Std.ExtTreeMap.isEmpty_iff] at hvalues
  obtain ⟨hstatus,hheight,hhash,hobjects,hactive⟩ := hvalues
  obtain ⟨idle,hopened,_⟩ := openedFrom_run hstart hstatus hheight hhash hobjects hactive
  obtain ⟨⟨final,last⟩,hfinal,hcarriers⟩ := Option.map_eq_some_iff.mp (twinOpened_eq entry hentry)
  exact ⟨final,_,applyBlocks_append.mpr ⟨_,first ++ idle,last,hopened,hfinal,rfl⟩,hcarriers⟩

theorem sample_isolated : ∃ final deltas final' deltas',
    applyBlocks bitcoinPrimitives (ChainState.new bitcoinPrimitives sampleBinding) twinBlocks =
      some (final,deltas) ∧
    applyBlocks bitcoinPrimitives (ChainState.new bitcoinPrimitives otherBinding) twinBlocks =
      some (final',deltas') ∧
    final.active.toList = [(⟨sampleCreate.txid,1⟩,sampleKey)] ∧
    final'.active.toList = [(⟨otherCreate.txid,1⟩,otherKey)] ∧
    (((∀ event ∈ deltas.flatMap BlockDelta.events, ∀ event' ∈ deltas'.flatMap BlockDelta.events,
        event.Operates → event'.Operates → event.txid ≠ event'.txid) ∧
      (∀ outpoint : OutPointRef, final.active[outpoint]? = none ∨ final'.active[outpoint]? = none) ∧
      ∀ key : Hash32, final.objects[key]? = none ∨ final'.objects[key]? = none) ∨
      Collision bitcoinPrimitives.sha256 (identityPreimages bitcoinPrimitives sampleBinding twinBlocks ++
        identityPreimages bitcoinPrimitives otherBinding twinBlocks)) := by
  obtain ⟨final,deltas,hrun,hactive⟩ := twinBlocks_run _ (.head _)
  obtain ⟨final',deltas',hrun',hactive'⟩ := twinBlocks_run _ (.tail _ (.head _))
  have hne : sampleBinding ≠ otherBinding := by decide
  have hnodup : ((placedTransactions twinBlocks).map fun entry => entry.tx.txid).Nodup := by
    rw [twinBlocks_placed]
    decide
  exact ⟨final,deltas,final',deltas',hrun,hrun',hactive,hactive',
    deployments_isolated hne hnodup List.suffix_rfl List.suffix_rfl hrun hrun'⟩

end Sample
end TandemVerifier
