import TandemVerifier.Core.RawAccess
import TandemVerifier.Reduction.ChainedRoot
import TandemVerifier.Reduction.EventLog
import TandemVerifier.Reduction.Precedence

/-! # The reducer never panics

A validator that is decided by a list of rules returns: it reads a field of a marker only after
its opcode has fixed the payload length, an input or output only after their number has been
checked. The count of chapters stays
below the sequence number of its object, and the next sequence number is checked before
the count is advanced. The numbering of exits is bounded by the number of inputs.
-/
namespace TandemVerifier
open Library Library.Outcome
variable {P : Primitives} {state state' : ChainState} {blockHeight : UInt64} {tx : TxView}
variable {marker : ParsedMarker} {carrier : Option (ℕ × ObjectState)}

section Validators

theorem validateRefund_returns {object : ObjectState} : (validateRefund P blockHeight tx object).Returns := by
  simp +contextual only [validateRefund,returns_bind,returns_failIf,returns_index,returns_okOr,
    failIf_eq_ok,Bool.or_eq_false_iff,bne_eq_false_iff_eq,true_and,forall_const,Nat.reduceLT,implies_true,
    pure_eq_ok,returns_ok]

end Validators

section Candidates
variable {binding : Binding} {candidate : MarkerCandidate}

theorem parse_returns (h : candidate ∈ markerCandidates tx binding) : candidate.parse.Returns :=
  (parse_checks h).ne_panic

theorem validateSingle_returns
    (hlength : ∀ opcode, marker.opcode = some opcode → marker.payload.length = opcode.payloadLen) :
    (validateSingle P state blockHeight tx marker carrier).Returns :=
  (validateSingle_checks hlength).ne_panic

theorem validateConfiguredInit_returns : (validateConfiguredInit P binding blockHeight tx).Returns :=
  validateConfiguredInit_checks.ne_panic

end Candidates

section Chapters
variable {block : BlockView} {txIndex : UInt32} {events : List Event}

/-- A chapter is counted only by a step that advances the sequence number too. -/
def ChaptersBounded (state : ChainState) : Prop :=
  ∀ (key : Hash32) (object : ObjectState), state.objects[key]? = some object →
    object.chapterCount.toNat ≤ object.stateSeq.toNat

theorem ChaptersBounded.spend {i : ℕ} {object : ObjectState} (h : ChaptersBounded state)
    (hspend : (i,object) ∈ carrierSpends state tx) : object.chapterCount.toNat ≤ object.stateSeq.toNat := by
  obtain ⟨_,key,_,_,hobject⟩ := mem_carrierSpends.mp hspend
  exact h key object hobject

theorem ChaptersBounded.effect (h : ChaptersBounded state) (hkeyed : Keyed state)
    (heffect : TxEffect P state block tx txIndex state' events) : ChaptersBounded state' := by
  intro key object hobject
  cases heffect.objectStep hobject with
  | kept hkept => exact h key object hkept
  | created marker keys initHeight hOpen hClose _ _ => exact le_refl _
  | marked marker owner sequence commitment chapterCount hcarriers hchapter haccepted =>
    have hbound := h.spend (by rw [hcarriers]; exact List.mem_singleton_self _)
    obtain ⟨_,_,_,_,_,_,haccept⟩ := haccepted
    have hsequence := haccept.stateSeq
    change chapterCount.toNat ≤ sequence.toNat
    omega
  | rotated marker owner sequence keys hcarriers haccepted =>
    have hbound := h.spend (by rw [hcarriers]; exact List.mem_singleton_self _)
    obtain ⟨_,_,_,_,_,_,_,haccept⟩ := haccepted
    have hsequence := haccept.stateSeq
    change owner.chapterCount.toNat ≤ sequence.toNat
    omega
  | ended stored status sequence hstored _ hsequence =>
    have hbound := h key stored hstored
    change stored.chapterCount.toNat ≤ sequence.toNat
    rcases hsequence with rfl | ⟨owner,hcarriers,rfl,hnext⟩
    · exact hbound
    · have howner := hkeyed.spend (by rw [hcarriers]; exact List.mem_singleton_self _)
      obtain rfl := Option.some.inj (howner.symm.trans hstored)
      omega

/-- What every state of a run satisfies and the numbering of chapters relies on. -/
structure Numbered (state : ChainState) : Prop where
  keyed : Keyed state
  chapters : ChaptersBounded state

theorem Numbered.processed {emitted : List Event} (h : Numbered state)
    (hcall : processTransaction P state block tx txIndex = ok (state',emitted)) : Numbered state' :=
  have heffect := processTransaction_effect hcall
  ⟨h.keyed.effect heffect,h.chapters.effect h.keyed heffect⟩

theorem Reached.numbered {binding : Binding} {placed : List Placed} {log : List Event}
    (h : Reached P binding placed log state) : Numbered state := by
  induction h with
  | fresh => exact ⟨by simp [Keyed,ChainState.new],by simp [ChaptersBounded,ChainState.new]⟩
  | decided status _ _ ih => exact ⟨ih.keyed,ih.chapters⟩
  | processed block tx txIndex _ hcall ih => exact ih.processed hcall
  | passed more emitted _ _ ih => exact ih
  | sealed tipHeight tipHash chainedRoot _ ih => exact ⟨ih.keyed,ih.chapters⟩

end Chapters

section Transactions
variable {block : BlockView} {txIndex eventIndex : UInt32} {reason : Reason} {ns : Hash32}
variable {carriers : List (ℕ × ObjectState)}

theorem applyValidOperation_returns {operation : ValidatedOperation} (h : Numbered state)
    (hcarriers : ∀ spend ∈ carrier, spend ∈ carrierSpends state tx)
    (haccepted : Accepted P state block.height tx marker carrier operation) :
    (applyValidOperation P state block tx txIndex eventIndex operation).Returns := by
  cases operation with
  | create keys =>
    obtain ⟨_,_,_,_,_,_,haccept⟩ := haccepted
    obtain ⟨_,_,_,hstatus,_⟩ := haccept.phase
    simp [applyValidOperation,hstatus]
  | mark object sequence commitment =>
    obtain ⟨_,_,_,_,_,_,haccept⟩ := haccepted
    have hbound := h.chapters.spend (hcarriers (0,object) haccept.carrier_eq)
    have hnext := haccept.stateSeq
    have hwidth := sequence.toNat_lt
    have hone : (1 : UInt32).toNat = 1 := rfl
    have hcount : (checkedAdd32 object.chapterCount 1).isSome = true := by
      rw [checkedAdd32,if_pos (by omega)]
      rfl
    simp only [applyValidOperation,returns_bind,returns_expect]
    exact ⟨hcount,fun _ _ => returns_ok _⟩
  | rotate object sequence keys => exact returns_ok _
  | close object sequence commitment => exact returns_ok _

theorem terminateEach_returns {sub : ℕ} (h : sub + carriers.length ≤ 2 ^ 32) :
    (terminateEach block tx txIndex eventIndex reason ns state sub carriers).Returns := by
  induction carriers generalizing state sub with
  | nil => exact returns_ok _
  | cons spend rest ih =>
    rw [List.length_cons] at h
    have hsub : (u32TryFrom sub).isSome = true := by
      rw [u32TryFrom,if_pos (by omega)]
      rfl
    simp only [terminateEach,returns_bind,returns_expect]
    exact ⟨hsub,fun _ _ => ⟨ih (by omega),fun _ _ => returns_ok _⟩⟩

theorem terminateCarriers_returns (hinputs : tx.inputs.length ≤ 2 ^ 32) :
    (terminateCarriers state block tx txIndex eventIndex reason ns (carrierSpends state tx)).Returns := by
  apply terminateEach_returns
  have hspends : (carrierSpends state tx).length ≤ tx.inputs.zipIdx.length := List.length_filterMap_le _ _
  rw [List.length_zipIdx] at hspends
  rw [List.length_insertionSort]
  omega

theorem processMarked_returns {candidate : MarkerCandidate} (h : Numbered state)
    (hinputs : tx.inputs.length ≤ 2 ^ 32) (hcandidate : candidate ∈ markerCandidates tx state.binding) :
    (processMarked P state block tx txIndex candidate (carrierSpends state tx)).Returns := by
  have hvalidation : (candidate.parse >>= fun marker =>
      validateSingle P state block.height tx marker (carrierSpends state tx).head?).Returns :=
    returns_bind.mpr ⟨parse_returns hcandidate,fun _ hparse =>
      validateSingle_returns fun _ => parse_length hparse⟩
  unfold processMarked
  cases hresult : candidate.parse >>= fun marker =>
      validateSingle P state block.height tx marker (carrierSpends state tx).head? with
  | panic => exact absurd hresult hvalidation
  | ok operation =>
    obtain ⟨marker,_,hsingle⟩ := bind_eq_ok.mp hresult
    refine returns_bind.mpr ⟨?_,fun _ _ => returns_ok _⟩
    exact applyValidOperation_returns h (fun _ => List.mem_of_mem_head?) (validateSingle_ok hsingle)
  | err reason =>
    dsimp only
    split
    · exact returns_ok _
    · exact terminateCarriers_returns hinputs

theorem processMarkerless_returns (hinputs : tx.inputs.length ≤ 2 ^ 32) :
    (processMarkerless P state block tx txIndex (carrierSpends state tx)).Returns := by
  unfold processMarkerless
  cases (carrierSpends state tx).head? with
  | none => exact returns_ok _
  | some spend =>
    dsimp only
    split
    · cases hresult : validateRefund P block.height tx spend.2 with
      | panic => exact absurd hresult validateRefund_returns
      | ok _ => exact returns_ok _
      | err _ => exact terminateCarriers_returns hinputs
    · exact terminateCarriers_returns hinputs

theorem processTransaction_returns (h : Numbered state) (hinputs : tx.inputs.length ≤ 2 ^ 32) :
    (processTransaction P state block tx txIndex).Returns := by
  unfold processTransaction
  dsimp only
  split
  · split
    · exact returns_ok _
    · exact terminateCarriers_returns hinputs
  · split
    · exact terminateCarriers_returns hinputs
    · cases hhead : (markerCandidates tx state.binding).head? with
      | none => exact processMarkerless_returns hinputs
      | some candidate => exact processMarked_returns h hinputs (List.mem_of_mem_head? hhead)

end Transactions

section Blocks
variable {block : BlockView}

/-- The loop returns when each step does and keeps what the next one relies on. -/
theorem forEachTransaction_returns {motive : ChainState → Prop} {txs : List TxView} {position : ℕ}
    {step : ChainState → TxView → UInt32 → Outcome Infallible (ChainState × List Event)}
    {events : List Event}
    (hreturns : ∀ state tx txIndex, motive state → tx ∈ txs → (step state tx txIndex).Returns)
    (hkept : ∀ state tx txIndex next emitted, motive state → step state tx txIndex = ok (next,emitted) →
      motive next)
    (hstart : motive state) : (forEachTransaction step state events position txs).Returns := by
  induction txs generalizing state events position with
  | nil => exact returns_ok _
  | cons tx rest ih =>
    unfold forEachTransaction
    cases u32TryFrom position with
    | none => exact returns_ok _
    | some txIndex =>
      refine returns_bind.mpr ⟨hreturns state tx txIndex hstart List.mem_cons_self,?_⟩
      rintro ⟨next,emitted⟩ hcall
      exact ih (fun state later index h hmem => hreturns state later index h (List.mem_cons_of_mem tx hmem))
        (hkept state tx txIndex next emitted hstart hcall)

theorem reduceTransactions_returns (h : Numbered state)
    (hinputs : ∀ tx ∈ block.transactions, tx.inputs.length ≤ 2 ^ 32) :
    (reduceTransactions P state block).Returns := by
  unfold reduceTransactions
  cases hstatus : state.protocolStatus with
  | failedInit reason initHeight => exact returns_ok _
  | active initHeight hOpen hClose =>
    exact forEachTransaction_returns (fun _ tx _ h hmem => processTransaction_returns h (hinputs tx hmem))
      (fun _ _ _ _ _ h hcall => h.processed hcall) h
  | awaitingInit =>
    dsimp only
    split
    · exact returns_ok _
    · next initTx position _ =>
      cases u32TryFrom position with
      | none => exact returns_ok _
      | some initIndex =>
        dsimp only
        cases hvalid : validateConfiguredInit P state.binding block.height initTx with
        | panic => exact absurd hvalid validateConfiguredInit_returns
        | err reason => exact returns_ok _
        | ok params =>
          refine forEachTransaction_returns (motive := Numbered) ?_ ?_ ⟨h.keyed,h.chapters⟩
          · intro before tx txIndex hbefore hmem
            unfold initBlockStep
            split
            · exact returns_ok _
            · exact processTransaction_returns hbefore (hinputs tx hmem)
          · intro before tx txIndex next emitted hbefore hcall
            unfold initBlockStep at hcall
            split at hcall
            · obtain ⟨rfl,_⟩ := Prod.mk.inj (Outcome.ok.inj hcall)
              exact hbefore
            · exact hbefore.processed hcall

theorem applyBlock_returns (h : Numbered state)
    (hinputs : ∀ tx ∈ block.transactions, tx.inputs.length ≤ 2 ^ 32) :
    (applyBlock P state block).Returns := by
  unfold applyBlock
  cases validateLinkage state block with
  | error e => exact returns_ok _
  | ok _ =>
    dsimp only
    split
    · exact returns_ok _
    · refine returns_bind.mpr ⟨reduceTransactions_returns h hinputs,?_⟩
      rintro ⟨reduced,result⟩ _
      cases result with
      | error e => exact returns_ok _
      | ok events => exact returns_ok _

end Blocks

section Runs

/-- Apply blocks in order up to the first error. -/
def runBlocks (P : Primitives) : ChainState → List BlockView →
    Outcome Infallible (ChainState × Option ReducerError)
  | state,[] => pure (state,none)
  | state,block :: rest => do
    let (next,result) ← applyBlock P state block
    match result with
    | .error e => pure (next,some e)
    | .ok _ => runBlocks P next rest

theorem runBlocks_returns {binding : Binding} {placed : List Placed} {log : List Event}
    {blocks : List BlockView} (h : Reached P binding placed log state)
    (hinputs : ∀ block ∈ blocks, ∀ tx ∈ block.transactions, tx.inputs.length ≤ 2 ^ 32) :
    (runBlocks P state blocks).Returns := by
  induction blocks generalizing placed log state with
  | nil => exact returns_ok _
  | cons block rest ih =>
    refine returns_bind.mpr ⟨applyBlock_returns h.numbered (hinputs block List.mem_cons_self),?_⟩
    rintro ⟨next,result⟩ happly
    cases result with
    | error e => exact returns_ok _
    | ok delta =>
      exact ih (Reached.kept.applyBlock h happly) fun later hlater => hinputs later (List.mem_cons_of_mem block hlater)

/-- Every index and slice made behind a check of the same function lies in range: the function
written with them returns what its total definition returns. -/
structure AccessesInRange (P : Primitives) : Prop where
  findMarkerCandidate : ∀ (script : Bytes) (vout : UInt32),
    Raw.findMarkerCandidate script vout = okOr (findMarkerCandidate script vout) ()
  populationNamespace : ∀ candidate : MarkerCandidate,
    Raw.populationNamespace candidate = okOr (populationNamespace candidate) ()
  p2wpkhRevealedKey : ∀ input : InputView,
    Raw.p2wpkhRevealedKey input = okOr input.p2wpkhRevealedKey ()
  carrierRevealedKeys : ∀ input : InputView,
    Raw.carrierRevealedKeys input = okOr input.carrierRevealedKeys ()
  invalidEvent : ∀ (binding : Binding) (block : BlockView) (tx : TxView) (txIndex : UInt32)
    (reason : Reason) (configuredInit : Bool),
    Raw.invalidEvent P binding block tx txIndex reason configuredInit =
      ok (invalidEvent P binding block tx txIndex reason configuredInit)
  eventLeaf : ∀ event : Event, (eventLeafPreimage event).length = 371
  eventRoot : ∀ (ns : Hash32) (events : List Event), Raw.eventRoot P ns events = ok (eventRoot P ns events)
  objectStateRoot : ∀ (ns : Hash32) (objects : List ObjectState),
    Raw.objectStateRoot P ns objects = ok (objectStateRoot P ns objects)

theorem accessesInRange (P : Primitives) : AccessesInRange P where
  findMarkerCandidate := Raw.findMarkerCandidate_eq
  populationNamespace := Raw.populationNamespace_eq
  p2wpkhRevealedKey := Raw.p2wpkhRevealedKey_eq
  carrierRevealedKeys := Raw.carrierRevealedKeys_eq
  invalidEvent := Raw.invalidEvent_eq P
  eventLeaf := eventLeafPreimage_length
  eventRoot := Raw.eventRoot_eq P
  objectStateRoot := Raw.objectStateRoot_eq P

/-- No run of blocks from a fresh state panics, the number of chapters never exceeds the sequence
number in a state of a run, and no read behind a check of its own leaves its range. -/
theorem reducer_never_panics (P : Primitives) (binding : Binding) (blocks : List BlockView)
    (hinputs : ∀ block ∈ blocks, ∀ tx ∈ block.transactions, tx.inputs.length ≤ 2 ^ 32) :
    (runBlocks P (ChainState.new P binding) blocks).Returns ∧
      (∀ placed log state, Reached P binding placed log state → ChaptersBounded state) ∧
      AccessesInRange P :=
  ⟨runBlocks_returns .fresh hinputs,fun _ _ _ h => h.numbered.chapters,accessesInRange P⟩

theorem sample_never_panics :
    (∀ block ∈ sampleBlocks, ∀ tx ∈ block.transactions, tx.inputs.length ≤ 2 ^ 32) ∧
      (runBlocks bitcoinPrimitives (ChainState.new bitcoinPrimitives sampleBinding) sampleBlocks).Returns := by
  have hinputs : ∀ block ∈ sampleBlocks, ∀ tx ∈ block.transactions, tx.inputs.length ≤ 2 ^ 32 := by
    intro block hblock tx htx
    have hplaced : (⟨block.height,tx⟩ : Placed) ∈ placedTransactions sampleBlocks :=
      List.mem_flatMap.mpr ⟨block,hblock,List.mem_map_of_mem htx⟩
    rw [sampleBlocks_placed] at hplaced
    simp only [List.mem_cons,Placed.mk.injEq,List.not_mem_nil,or_false] at hplaced
    rcases hplaced with ⟨_,rfl⟩ | ⟨_,rfl⟩ | ⟨_,rfl⟩ <;> decide
  exact ⟨hinputs,(reducer_never_panics bitcoinPrimitives sampleBinding sampleBlocks hinputs).1⟩

end Runs
end TandemVerifier
