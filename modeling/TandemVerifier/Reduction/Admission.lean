import TandemVerifier.Reduction.History
import TandemVerifier.Reduction.Linkage
import TandemVerifier.Reduction.NoPanic
import TandemVerifier.Reduction.Representation

/-! # Which blocks the reducer admits

A block is refused for its linkage, for its size or because the configured INIT is not
in it; nothing that a transaction contains makes a block fail. A list of blocks can
therefore be replayed exactly when it is linked and starts at the INIT block.
-/
namespace TandemVerifier
open Library Library.Outcome Library.LinkedChain
variable {P : Primitives} {binding : Binding} {state state' : ChainState} {block : BlockView}
variable {blocks : List BlockView}

/-- The block contains a transaction with the identifier. -/
def BlockView.Contains (block : BlockView) (txid : Hash32) : Prop :=
  ∃ tx ∈ block.transactions, tx.txid = txid

theorem findInit_contains {initTx : TxView} {position : ℕ}
    (h : findInit state block = some (initTx,position)) : block.Contains state.binding.initTxid := by
  have hmem := List.mem_zipIdx (List.mem_of_find?_eq_some h)
  have htxid := List.find?_some h
  refine ⟨initTx,?_,by simpa using htxid⟩
  rw [hmem.2.2]
  exact List.getElem_mem _

/-- Only a missing INIT stops the reduction of a block that passed the length check. -/
theorem reduceTransactions_refused {e : ReducerError} (hlength : block.transactions.length ≤ 2 ^ 32 - 1)
    (h : reduceTransactions P state block = ok (state',.error e)) :
    state.protocolStatus = .awaitingInit ∧ ¬ block.Contains state.binding.initTxid := by
  have hloop : ∀ {step start final} {e : ReducerError},
      forEachTransaction step start [] 0 block.transactions ≠ ok (final,.error e) := by
    intro step start final e hfail
    have hlong := forEachTransaction_error hfail
    omega
  unfold reduceTransactions at h
  split at h
  · next hstatus =>
    refine ⟨hstatus,?_⟩
    split at h
    · next hfind =>
      rintro ⟨tx,hmem,htxid⟩
      obtain ⟨i,hi,rfl⟩ := List.getElem_of_mem hmem
      have hnone := List.find?_eq_none.mp hfind (block.transactions[i],i)
        (List.mem_zipIdx_iff_getElem?.mpr (List.getElem?_eq_getElem hi))
      simp [htxid] at hnone
    · next initTx position hfind =>
      -- the position of a found transaction fits the index type
      have hposition := (List.mem_zipIdx (List.mem_of_find?_eq_some hfind)).2.1
      obtain ⟨index,hindex⟩ := u32TryFrom_isSome (n := position) (by omega)
      rw [hindex] at h
      dsimp only at h
      split at h
      · simp at h
      · exact absurd h hloop
      · simp at h
  · exact absurd h hloop
  · simp at h

/-- The conditions under which one block is applied. -/
theorem applyBlock_admits (h : Numbered state)
    (hinputs : ∀ tx ∈ block.transactions, tx.inputs.length ≤ 2 ^ 32) :
    (∃ post delta, applyBlock P state block = ok (post,.ok delta)) ↔
      validateLinkage state block = .ok () ∧ block.transactions.length ≤ 2 ^ 32 - 1 ∧
        (state.protocolStatus = .awaitingInit → block.Contains state.binding.initTxid) := by
  constructor
  · rintro ⟨post,delta,happly⟩
    obtain ⟨hlink,hlength,reduced,events,hreduce,_⟩ := applyBlock_ok happly
    refine ⟨hlink,hlength,?_⟩
    intro hawaiting
    cases hreduce with
    | active initHeight hOpen hClose hstatus hloop => simp [hawaiting] at hstatus
    | initialized initTx position params hstatus hfind hvalid hloop => exact findInit_contains hfind
    | failed initTx position initIndex reason hstatus hfind hindex hinvalid => exact findInit_contains hfind
    | idle reason initHeight hstatus => simp [hawaiting] at hstatus
  · rintro ⟨hlink,hlength,hinit⟩
    obtain ⟨⟨reduced,result⟩,hreduce⟩ := (reduceTransactions_returns (P := P) h hinputs).exists_ok
    cases result with
    | error e =>
      obtain ⟨hawaiting,hmissing⟩ := reduceTransactions_refused hlength hreduce
      exact absurd (hinit hawaiting) hmissing
    | ok events =>
      refine ⟨(sealBlock P state reduced block events).1,(sealBlock P state reduced block events).2,?_⟩
      rw [applyBlock,hlink]
      dsimp only
      rw [if_neg (by omega),hreduce]
      rfl

/-- A state without a tip, or whose tip the block follows, accepts the linkage. -/
theorem validateLinkage_admits
    (h : ∀ tip hash, state.tipHeight = some tip → state.tipHash = some hash →
      block.height.toNat = tip.toNat + 1 ∧ block.previousHash = hash)
    (hhash : state.tipHeight.isSome = state.tipHash.isSome) : validateLinkage state block = .ok () := by
  unfold validateLinkage
  cases htip : state.tipHeight with
  | none => rfl
  | some tip =>
    rw [htip,Option.isSome_some,eq_comm,Option.isSome_iff_exists] at hhash
    obtain ⟨hash,hsome⟩ := hhash
    obtain ⟨hheight,hparent⟩ := h tip hash htip hsome
    have hnext : checkedAdd64 tip 1 = some block.height :=
      checkedAdd64_eq_some.mpr (by simpa using hheight.symm)
    simp [hnext,hsome,hparent]

/-- The linkage of one more block is what the chain of the headers says. -/
theorem validateLinkage_iff {deltas : List BlockDelta}
    (h : applyBlocks P (ChainState.new P binding) blocks = some (state,deltas)) :
    validateLinkage state block = .ok () ↔
      ((blocks ++ [block]).map BlockView.header).IsChain headerLinks.Follows := by
  obtain ⟨hheight,hhash⟩ := applyBlocks_tip h
  rw [List.map_append,List.isChain_append]
  constructor
  · intro hlink
    refine ⟨applyBlocks_linked h,List.isChain_singleton _,?_⟩
    intro tip htip next hnext
    rw [List.getLast?_map,Option.mem_def,Option.map_eq_some_iff] at htip
    obtain ⟨last,hlast,rfl⟩ := htip
    obtain rfl : block.header = next := by simpa using hnext
    rw [hlast] at hheight hhash
    exact validateLinkage_follows hheight hhash hlink
  · rintro ⟨_,_,hfollows⟩
    apply validateLinkage_admits
    · intro tip hash htip htipHash
      rw [htip,eq_comm,Option.map_eq_some_iff] at hheight
      obtain ⟨last,hlast,rfl⟩ := hheight
      rw [htipHash,hlast,Option.map_some,Option.some.injEq] at hhash
      subst hhash
      have hnext := hfollows last.header (by simp [hlast]) block.header (by simp)
      exact ⟨hnext.2,hnext.1⟩
    · rw [hheight,hhash,Option.isSome_map,Option.isSome_map]

/-- A run awaits its INIT as long as it has no block. -/
theorem applyBlocks_awaiting {deltas : List BlockDelta}
    (h : applyBlocks P (ChainState.new P binding) blocks = some (state,deltas)) :
    state.protocolStatus = .awaitingInit ↔ blocks = [] := by
  have hnew : TipDecided (ChainState.new P binding) := by simp [TipDecided,ChainState.new]
  have hdecided := (applyBlocks_tipDecided hnew h).2
  rw [(applyBlocks_tip h).2,Option.isSome_map,List.getLast?_isSome] at hdecided
  exact not_iff_not.mp hdecided.symm

/-- One more block can be replayed after a run. -/
theorem applyBlocks_extends {deltas : List BlockDelta}
    (h : applyBlocks P (ChainState.new P binding) blocks = some (state,deltas))
    (hinputs : ∀ tx ∈ block.transactions, tx.inputs.length ≤ 2 ^ 32) :
    (∃ post delta, applyBlock P state block = ok (post,.ok delta)) ↔
      ((blocks ++ [block]).map BlockView.header).IsChain headerLinks.Follows ∧
        block.transactions.length ≤ 2 ^ 32 - 1 ∧ (blocks = [] → block.Contains binding.initTxid) := by
  rw [applyBlock_admits (run_reached h).numbered hinputs,validateLinkage_iff h,applyBlocks_awaiting h,
    applyBlocks_binding h]
  rfl

theorem forall_head?_concat {motive : BlockView → Prop} :
    (∀ first ∈ (blocks ++ [block]).head?, motive first) ↔
      (∀ first ∈ blocks.head?, motive first) ∧ (blocks = [] → motive block) := by
  cases blocks <;> simp

/-- The blocks of a run satisfy the conditions. -/
theorem applyBlocks_admitted {deltas : List BlockDelta}
    (hinputs : ∀ block ∈ blocks, ∀ tx ∈ block.transactions, tx.inputs.length ≤ 2 ^ 32)
    (h : applyBlocks P (ChainState.new P binding) blocks = some (state,deltas)) :
    (blocks.map BlockView.header).IsChain headerLinks.Follows ∧
      (∀ block ∈ blocks, block.transactions.length ≤ 2 ^ 32 - 1) ∧
      ∀ first ∈ blocks.head?, first.Contains binding.initTxid := by
  induction blocks using List.reverseRecOn generalizing state deltas with
  | nil => exact ⟨.nil,by simp,by simp⟩
  | append_singleton earlier block ih =>
    rw [List.forall_mem_append,List.forall_mem_singleton,forall_head?_concat]
    obtain ⟨middle,first,delta,hfirst,happly,_⟩ := applyBlocks_concat.mp h
    obtain ⟨hlinked,hlength,hinit⟩ :=
      (applyBlocks_extends hfirst (hinputs block (by simp))).mp ⟨state,delta,happly⟩
    obtain ⟨_,hsizes,hhead⟩ := ih (fun other hother => hinputs other (List.mem_append_left _ hother)) hfirst
    exact ⟨hlinked,⟨hsizes,hlength⟩,hhead,hinit⟩

/-- Blocks that satisfy the conditions can be replayed. -/
theorem exists_applyBlocks
    (hinputs : ∀ block ∈ blocks, ∀ tx ∈ block.transactions, tx.inputs.length ≤ 2 ^ 32)
    (hlinked : (blocks.map BlockView.header).IsChain headerLinks.Follows)
    (hsizes : ∀ block ∈ blocks, block.transactions.length ≤ 2 ^ 32 - 1)
    (hhead : ∀ first ∈ blocks.head?, first.Contains binding.initTxid) :
    ∃ state deltas, applyBlocks P (ChainState.new P binding) blocks = some (state,deltas) := by
  induction blocks using List.reverseRecOn with
  | nil => exact ⟨_,_,rfl⟩
  | append_singleton earlier block ih =>
    rw [List.forall_mem_append,List.forall_mem_singleton] at hsizes
    rw [forall_head?_concat] at hhead
    have hbelow : (earlier.map BlockView.header).IsChain headerLinks.Follows := by
      rw [List.map_append] at hlinked
      exact hlinked.left_of_append
    obtain ⟨middle,first,hfirst⟩ :=
      ih (fun other hother => hinputs other (List.mem_append_left _ hother)) hbelow hsizes.1 hhead.1
    obtain ⟨post,delta,happly⟩ :=
      (applyBlocks_extends hfirst (hinputs block (by simp))).mpr ⟨hlinked,hsizes.2,hhead.2⟩
    exact ⟨post,first ++ [delta],applyBlocks_concat.mpr ⟨middle,first,delta,hfirst,happly,rfl⟩⟩

/-- A list of blocks can be replayed exactly when it is linked, its blocks can be counted and
its first block contains the configured INIT. -/
theorem replay_admits_exactly (P : Primitives) (binding : Binding) (blocks : List BlockView)
    (hinputs : ∀ block ∈ blocks, ∀ tx ∈ block.transactions, tx.inputs.length ≤ 2 ^ 32) :
    (∃ state deltas, applyBlocks P (ChainState.new P binding) blocks = some (state,deltas)) ↔
      (blocks.map BlockView.header).IsChain headerLinks.Follows ∧
      (∀ block ∈ blocks, block.transactions.length ≤ 2 ^ 32 - 1) ∧
      ∀ first ∈ blocks.head?, first.Contains binding.initTxid := by
  constructor
  · rintro ⟨state,deltas,hrun⟩
    exact applyBlocks_admitted hinputs hrun
  · rintro ⟨hlinked,hsizes,hhead⟩
    exact exists_applyBlocks hinputs hlinked hsizes hhead

section Sample

theorem sampleBlocks_inputs : ∀ block ∈ sampleBlocks, ∀ tx ∈ block.transactions, tx.inputs.length ≤ 2 ^ 32 := by
  intro block hblock tx htx
  have hplaced : (⟨block.height,tx⟩ : Placed) ∈ placedTransactions sampleBlocks :=
    List.mem_flatMap.mpr ⟨block,hblock,List.mem_map_of_mem htx⟩
  rw [sampleBlocks_placed] at hplaced
  simp only [List.mem_cons,Placed.mk.injEq,List.not_mem_nil,or_false] at hplaced
  rcases hplaced with ⟨_,rfl⟩ | ⟨_,rfl⟩ | ⟨_,rfl⟩ <;> decide

/-- The sample blocks are linked since they were replayed; without the INIT block they cannot be. -/
theorem sample_admits_exactly : (sampleBlocks.map BlockView.header).IsChain headerLinks.Follows ∧
    ¬ ∃ state deltas, applyBlocks bitcoinPrimitives sampleNew (emptyBlocks sampleHash 101 1007) =
      some (state,deltas) := by
  obtain ⟨final,deltas,hrun,_⟩ := sampleBlocks_run
  have hlinked := (replay_admits_exactly bitcoinPrimitives sampleBinding sampleBlocks
    sampleBlocks_inputs).mp ⟨final,deltas,hrun⟩
  refine ⟨hlinked.1,?_⟩
  have hempty : ∀ block ∈ emptyBlocks sampleHash 101 1007, block.transactions = [] := by
    intro block hblock
    obtain ⟨n,_,rfl⟩ := List.mem_map.mp hblock
    rfl
  rw [sampleNew,replay_admits_exactly bitcoinPrimitives sampleBinding _ (by
    intro block hblock tx htx
    simp [hempty block hblock] at htx)]
  rintro ⟨_,_,hhead⟩
  obtain ⟨tx,hmem,_⟩ := hhead (emptyBlock sampleHash 101) rfl
  simp [emptyBlock] at hmem

end Sample
end TandemVerifier
