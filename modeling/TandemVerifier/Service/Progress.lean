import TandemVerifier.Library.Termination
import TandemVerifier.Reduction.Admission
import TandemVerifier.Service.Availability
import TandemVerifier.Service.Convergence

/-! # A pass returns

Against a node that answers from one chain and a database that commits what it admits, a
pass cannot fail and cannot go on for ever: nothing the worker asks for is refused, and
every await brings the stored run closer to the best chain. The measure counts two awaits
for every stored block that may have to go and two for every block that may have to come.
-/
namespace TandemVerifier
open Library Library.Outcome Library.LinkedChain Library.Termination Library.Table
variable {P : Primitives} {binding : Binding} {views : Hash32 → BlockView} {chain : List BlockView}
variable {db db' : Database} {state : ChainState} {blocks : List BlockView}
variable {worker : Ingestion} {bestHeight : UInt64}

/-- The sizes that the indices of the reducer can count. -/
structure BlockView.Sized (block : BlockView) : Prop where
  transactions : block.transactions.length ≤ 2 ^ 32 - 1
  inputs : ∀ tx ∈ block.transactions, tx.inputs.length ≤ 2 ^ 32

/-- A chain that the tables and the reducer have room for. -/
structure Holdable (chain : List BlockView) : Prop where
  inhabited : chain ≠ []
  bounded : chain.length ≤ 2 ^ 63
  sized : ∀ block ∈ chain, block.Sized

/-- No call fails, the node is ready and its mempool lists every transaction once. -/
def Answered (network : Network) : (point : Point) → point.Reply → Prop
  | .readStatus,some status => status.readyFor network = true
  | .readMempool,some transactions => (transactions.map TxView.txid).Nodup
  | .readStatus,none | .readBestHeight,none | .compareTip _ _,none | .rollbackTip _,none
  | .locateInit _,none | .fetchBlock _ _,none | .commitBlock _ _ _,none | .reloadState _,none
  | .readMempool,none | .writeMempool _,none => False
  | _,_ => True

/-- The replies of a truthful node and of a database, none of which fails. -/
def Attentive (network : Network) (initTxid : Hash32) (chain : List BlockView) : Permits :=
  fun point reply db db' => Truthful initTxid chain point reply db db' ∧ Answered network point reply

/-- What holds at an await besides the assertion of the pass. -/
def Orderly (state : ChainState) : Point → Prop
  | .compareTip bestHeight tipHeight => tipHeight ≤ bestHeight
  | .rollbackTip _ => state.tipHeight ≠ none
  | .writeMempool transactions => (transactions.map TxView.txid).Nodup
  | .starting | .reloadState _ | .finished (.error _) | .waiting | .panicked => False
  | .readStatus | .readBestHeight | .locateInit _ | .fetchBlock _ _ | .commitBlock _ _ _
  | .readMempool | .finished (.ok _) => True

/-- The awaits that a pass may still need, for a number of stored blocks and of blocks of
the chain. -/
def remaining (stored length : ℕ) : Point → ℕ
  | .readStatus => 2 * stored + 2 * length + 6
  | .readBestHeight => 2 * stored + 2 * length + 5
  | .compareTip _ _ => 2 * stored + 2 * length + 4
  | .rollbackTip _ => 2 * stored + 2 * length + 3
  | .locateInit _ => 2 * length + 3
  | .fetchBlock _ height => 2 * (length - height.toNat) + 2
  | .commitBlock _ height _ => 2 * (length - height.toNat) + 1
  | .readMempool => 2
  | .writeMempool _ => 1
  | .starting | .reloadState _ | .finished _ | .waiting | .panicked => 0

/-- The invariant of a pass that will return. -/
structure Advancing (P : Primitives) (views : Hash32 → BlockView) (binding : Binding)
    (chain : List BlockView) (db : Database) (worker : Ingestion) : Prop where
  release : worker.release.Storable
  passing : Passing P views binding chain db worker.state worker.point
  orderly : Orderly worker.state worker.point

section Points

theorem forHeights_orderly (state : ChainState) (worker : Ingestion) (bestHeight firstHeight : UInt64)
    (stored length : ℕ) :
    Orderly state (worker.forHeights bestHeight firstHeight).point ∧
      remaining stored length (worker.forHeights bestHeight firstHeight).point ≤ 2 * length + 2 := by
  unfold Ingestion.forHeights
  split
  · refine ⟨trivial,?_⟩
    simp only [Ingestion.goto_point,remaining]
    omega
  · refine ⟨trivial,?_⟩
    simp only [Ingestion.goto_point,remaining]
    omega

theorem catchUp_orderly (state : ChainState) (worker : Ingestion) (bestHeight : UInt64)
    (stored length : ℕ)
    (hbound : ∀ tip, worker.state.tipHeight = some tip → tip.toNat < 2 ^ 63) :
    Orderly state (worker.catchUp bestHeight).point ∧
      remaining stored length (worker.catchUp bestHeight).point ≤ 2 * length + 3 := by
  unfold Ingestion.catchUp
  cases htip : worker.state.tipHeight with
  | none => exact ⟨trivial,le_refl _⟩
  | some tip =>
    have hlt := hbound tip htip
    have hnext : checkedAdd64 tip 1 = some (tip + 1) := by
      refine checkedAdd64_eq_some.mpr ?_
      rw [UInt64.toNat_add]
      simp only [UInt64.reduceToNat]
      omega
    simp only [hnext]
    obtain ⟨horderly,hle⟩ := forHeights_orderly state worker bestHeight (tip + 1) stored length
    exact ⟨horderly,by omega⟩

theorem reconcileReorg_orderly (worker : Ingestion) (bestHeight : UInt64) (stored length : ℕ)
    (hbound : ∀ tip, worker.state.tipHeight = some tip → tip.toNat < 2 ^ 63)
    (hhash : worker.state.tipHeight.isSome = worker.state.tipHash.isSome) :
    Orderly worker.state (worker.reconcileReorg bestHeight).point ∧
      remaining stored length (worker.reconcileReorg bestHeight).point ≤ 2 * stored + 2 * length + 4 := by
  unfold Ingestion.reconcileReorg
  cases htip : worker.state.tipHeight with
  | none =>
    obtain ⟨horderly,hle⟩ := catchUp_orderly worker.state worker bestHeight stored length hbound
    exact ⟨horderly,by dsimp only; omega⟩
  | some tip =>
    rw [htip,Option.isSome_some,eq_comm,Option.isSome_iff_exists] at hhash
    obtain ⟨tipHash,hsome⟩ := hhash
    dsimp only
    split
    · simp only [Ingestion.disconnect,hsome,Ingestion.goto_point]
      exact ⟨by simp [Orderly,htip],by simp [remaining]⟩
    · next hle => exact ⟨UInt64.not_lt.mp hle,le_refl _⟩

end Points

section Stored

theorem InStep.tip_bounded (h : InStep P views binding db state blocks) {tip : UInt64}
    (htip : state.tipHeight = some tip) : tip.toNat < 2 ^ 63 := by
  obtain ⟨deltas,hrecords,_⟩ := h
  exact hrecords.stored_tip htip

theorem InStep.tip_hash (h : InStep P views binding db state blocks) :
    state.tipHeight.isSome = state.tipHash.isSome := by
  obtain ⟨deltas,hrecords,_⟩ := h
  rw [(applyBlocks_tip hrecords.run).1,(applyBlocks_tip hrecords.run).2,Option.isSome_map,
    Option.isSome_map]

theorem InStep.network (h : InStep P views binding db state blocks) :
    state.binding.network = binding.network := by
  obtain ⟨deltas,hrecords,_⟩ := h
  rw [applyBlocks_binding hrecords.run]
  rfl

theorem hasTransaction_contains {block : BlockView} {txid : Hash32} :
    block.hasTransaction txid = true ↔ block.Contains txid := by
  simp [BlockView.hasTransaction,BlockView.Contains]

/-- The next block of the chain is never refused by the reducer. -/
theorem InStep.reduces {i height : ℕ} {block : BlockView} (hchain : BestChain views binding.initTxid chain)
    (hholds : Holdable chain) (h : InStep P views binding db state (segment chain i height))
    (hinit : InitAt binding.initTxid chain i) (hi : i ≤ height) (hget : chain[height]? = some block) :
    ∃ post delta, applyBlock P state block = ok (post,.ok delta) := by
  obtain ⟨deltas,hrecords,_⟩ := h
  have hsized := hholds.sized block (List.mem_of_getElem? hget)
  refine (applyBlocks_extends hrecords.run hsized.inputs).mpr ⟨?_,hsized.transactions,?_⟩
  · rw [← segment_succ hi hget,List.isChain_map]
    exact (hchain.rooted.linked.take _).drop _
  · intro hempty
    -- an empty segment starts at the block itself
    obtain ⟨first,hfirst,hcontains⟩ := hinit
    have hsame : i = height := by
      have hlength := congrArg List.length hempty
      have hbound := (List.getElem?_eq_some_iff.mp hget).1
      simp only [segment,List.length_drop,List.length_take,List.length_nil] at hlength
      omega
    rw [hsame,hget,Option.some.injEq] at hfirst
    exact hasTransaction_contains.mp (hfirst ▸ hcontains)

/-- The next block of the chain is never refused by the store. -/
theorem InStep.commits {i height : ℕ} {block : BlockView} {delta : BlockDelta}
    {release : ReleaseIdentity} (hchain : BestChain views binding.initTxid chain) (hholds : Holdable chain)
    (h : InStep P views binding db delta.before (segment chain i height))
    (hget : chain[height]? = some block) (happly : applyBlock P delta.before block = ok (state,.ok delta))
    (hrelease : release.Storable) : ∃ db', Store.applyBlock db state delta release = ok db' := by
  obtain ⟨deltas,hrecords,_⟩ := h
  have hrank : block.height.toNat = height := ranked hchain.rooted hget
  have hlt := (List.getElem?_eq_some_iff.mp hget).1
  have hbound := hholds.bounded
  refine hrecords.applyBlock_commits happly (by omega) ?_ hrelease
  intro row hrow hsame
  obtain ⟨other,hother,hhash⟩ := hrecords.block_of_row hrow
  -- a hash determines its block, and the block stands above the segment
  have hmem : other ∈ chain := List.mem_of_mem_take (List.mem_of_mem_drop hother)
  have heq : other = block := by
    rw [← hchain.viewed other hmem,← hhash,hsame,hchain.viewed block (List.mem_of_getElem? hget)]
  obtain ⟨j,hj,hjget⟩ := List.getElem_of_mem (List.mem_of_mem_drop hother)
  rw [List.length_take] at hj
  have hjrank : blockLinks.rank other = j := by
    refine ranked hchain.rooted ?_
    rw [List.getElem_take] at hjget
    rw [← hjget]
    exact List.getElem?_eq_getElem (by omega)
  have hother : other.height.toNat = j := hjrank
  rw [heq,hrank] at hother
  omega

theorem replaceMempool_distinct (db : Database) {transactions : List TxView}
    (h : (transactions.map TxView.txid).Nodup) :
    ∃ db', Store.replaceMempool db transactions = ok db' := by
  have hrows : insertEach (unique MempoolRow.txid) (StoreError.constraint .mempoolOverlay)
      (fun tx : TxView => pure (⟨tx.txid,tx⟩ : MempoolRow)) [] transactions =
        ok (transactions.map fun tx => ⟨tx.txid,tx⟩) :=
    insertEach_distinct _ (fun _ _ => rfl) h
  rw [Store.replaceMempool,hrows]
  exact ⟨_,rfl⟩

end Stored

section Pass

@[simp] theorem forHeights_release {firstHeight : UInt64} :
    (worker.forHeights bestHeight firstHeight).release = worker.release := by
  unfold Ingestion.forHeights
  split <;> rfl

@[simp] theorem catchUp_release : (worker.catchUp bestHeight).release = worker.release := by
  unfold Ingestion.catchUp
  split
  · split
    · exact forHeights_release
    · rfl
  · rfl

@[simp] theorem disconnect_release : (worker.disconnect bestHeight).release = worker.release := by
  unfold Ingestion.disconnect
  split <;> rfl

@[simp] theorem reconcileReorg_release : (worker.reconcileReorg bestHeight).release = worker.release := by
  unfold Ingestion.reconcileReorg
  split
  · exact catchUp_release
  · split
    · exact disconnect_release
    · rfl

@[simp] theorem reduceBlock_release {height : UInt64} {block : BlockView} :
    (worker.reduceBlock P bestHeight height block).release = worker.release := by
  unfold Ingestion.reduceBlock
  split <;> rfl

/-- The release of a worker is fixed when it is started. -/
theorem resume_release (point : Point) (reply : point.Reply) :
    (worker.resume P point reply).release = worker.release := by
  cases point with
  | starting => rfl
  | reloadState delta => rfl
  | waiting => rfl
  | panicked => cases reply
  | finished result => cases result <;> rfl
  | readMempool => cases reply <;> rfl
  | writeMempool transactions => cases reply <;> rfl
  | readStatus =>
    cases reply with
    | none => rfl
    | some status =>
      simp only [Ingestion.resume]
      split <;> rfl
  | readBestHeight => cases reply <;> simp [Ingestion.resume,Ingestion.fail,Ingestion.goto]
  | compareTip best tipHeight =>
    cases reply with
    | none => rfl
    | some hash =>
      simp only [Ingestion.resume]
      split
      · rfl
      · split <;> simp
  | rollbackTip best =>
    rcases reply with _ | _ | restored
    · rfl
    · rfl
    · simp only [Ingestion.resume]
      split <;> simp
  | locateInit best =>
    rcases reply with _ | _ | height
    · rfl
    · rfl
    · exact forHeights_release
  | fetchBlock best height =>
    cases reply with
    | none => rfl
    | some block => exact reduceBlock_release
  | commitBlock best height delta =>
    cases reply with
    | none => rfl
    | some u =>
      simp only [Ingestion.resume]
      split <;> rfl

/-- A worker at an await has, after the reply, fewer awaits before it. -/
def Closer (chain : List BlockView) (db db' : Database) (point : Point) (next : Ingestion) : Prop :=
  Orderly next.state next.point ∧
    remaining db'.canonicalBlocks.length chain.length next.point <
      remaining db.canonicalBlocks.length chain.length point

theorem rollbackTip_closer {restored : ChainState}
    (h : Passing P views binding chain db worker.state (.rollbackTip bestHeight))
    (hroll : Store.rollbackTip db = ok (db',some restored)) :
    Closer chain db db' (.rollbackTip bestHeight)
      (worker.resume P (.rollbackTip bestHeight) (some (some restored))) := by
  obtain ⟨_,blocks,hstep⟩ := h
  have hlength : db.canonicalBlocks.length = db'.canonicalBlocks.length + 1 := by
    obtain ⟨deltas,hrecords,_⟩ := hstep
    obtain ⟨_,_,_,_,last,_,_,_,hrows,_⟩ := hrecords.rolledBack hroll
    simp [hrows]
  obtain ⟨earlier,hrestored⟩ := hstep.rolledBack hroll
  have hbound : ∀ tip, restored.tipHeight = some tip → tip.toNat < 2 ^ 63 := fun tip => hrestored.tip_bounded
  simp only [Ingestion.resume]
  split
  · obtain ⟨horderly,hle⟩ := catchUp_orderly restored { worker with state := restored } bestHeight
      db'.canonicalBlocks.length chain.length hbound
    refine ⟨by simpa using horderly,?_⟩
    simp only [remaining] at hle ⊢
    omega
  · obtain ⟨horderly,hle⟩ := reconcileReorg_orderly { worker with state := restored } bestHeight
      db'.canonicalBlocks.length chain.length hbound hrestored.tip_hash
    refine ⟨by simpa using horderly,?_⟩
    simp only [remaining] at hle ⊢
    omega

theorem compareTip_closer {tipHeight : UInt64} {hash : Hash32}
    (h : Passing P views binding chain db worker.state (.compareTip bestHeight tipHeight)) :
    Closer chain db db (.compareTip bestHeight tipHeight)
      (worker.resume P (.compareTip bestHeight tipHeight) (some hash)) := by
  obtain ⟨_,htip,blocks,hstep⟩ := h
  have hhash := hstep.tip_hash
  rw [htip,Option.isSome_some,eq_comm,Option.isSome_iff_exists] at hhash
  obtain ⟨tipHash,hsome⟩ := hhash
  simp only [Ingestion.resume,hsome]
  split
  · obtain ⟨horderly,hle⟩ := catchUp_orderly worker.state worker bestHeight
      db.canonicalBlocks.length chain.length fun tip => hstep.tip_bounded
    refine ⟨by simpa using horderly,?_⟩
    simp only [remaining] at hle ⊢
    omega
  · simp only [Ingestion.disconnect,hsome]
    exact ⟨by simp [Orderly,htip],by simp [remaining]⟩

theorem fetchBlock_closer {height : UInt64} {block : BlockView}
    (hchain : BestChain views binding.initTxid chain) (hholds : Holdable chain)
    (h : Passing P views binding chain db worker.state (.fetchBlock bestHeight height))
    (hget : chain[height.toNat]? = some block) :
    Closer chain db db (.fetchBlock bestHeight height)
      (worker.resume P (.fetchBlock bestHeight height) (some block)) := by
  obtain ⟨_,_,i,hinit,hi,hstep⟩ := h
  obtain ⟨post,delta,happly⟩ := hstep.reduces hchain hholds hinit hi hget
  simp only [Ingestion.resume,Ingestion.reduceBlock,happly]
  exact ⟨trivial,by simp [remaining]⟩

theorem commitBlock_closer {height : UInt64} {delta : BlockDelta}
    (h : Passing P views binding chain db worker.state (.commitBlock bestHeight height delta)) :
    Closer chain db db' (.commitBlock bestHeight height delta)
      (worker.resume P (.commitBlock bestHeight height delta) (some ())) := by
  obtain ⟨hbest,hle,_⟩ := h
  have hbelow := UInt64.le_iff_toNat_le.mp hle
  simp only [Ingestion.resume]
  split
  · next hlt =>
    have hnat := UInt64.lt_iff_toNat_lt.mp hlt
    have hnext : (height + 1).toNat = height.toNat + 1 := by
      have hbound := bestHeight.toNat_lt
      rw [UInt64.toNat_add]
      simp only [UInt64.reduceToNat]
      omega
    refine ⟨trivial,?_⟩
    simp only [Ingestion.goto_point,remaining,hnext]
    omega
  · refine ⟨trivial,?_⟩
    simp only [Ingestion.goto_point,remaining]
    omega

/-- Every reply that does not fail brings the worker closer to the end of its pass. -/
theorem closer_step (hchain : BestChain views binding.initTxid chain) (hholds : Holdable chain)
    (point : Point) (reply : point.Reply) (h : Passing P views binding chain db worker.state point)
    (horderly : Orderly worker.state point) (hexchange : worker.Exchange db point reply db')
    (hpermits : Attentive binding.network binding.initTxid chain point reply db db') :
    Closer chain db db' point (worker.resume P point reply) := by
  obtain ⟨htruth,hanswered⟩ := hpermits
  cases point with
  | starting => exact horderly.elim
  | reloadState delta => exact horderly.elim
  | waiting => exact horderly.elim
  | panicked => exact horderly.elim
  | finished result => exact htruth.elim
  | readStatus =>
    cases reply with
    | none => exact hanswered.elim
    | some status =>
      obtain rfl : db' = db := hexchange
      obtain ⟨blocks,hstep⟩ := h
      have hready : status.readyFor worker.state.binding.network = true := hstep.network ▸ hanswered
      simp only [Ingestion.resume,hready]
      exact ⟨trivial,by simp [remaining]⟩
  | readBestHeight =>
    cases reply with
    | none => exact hanswered.elim
    | some bestHeight =>
      obtain rfl : db' = db := hexchange
      obtain ⟨blocks,hstep⟩ := h
      obtain ⟨hnext,hle⟩ := reconcileReorg_orderly worker bestHeight db'.canonicalBlocks.length chain.length
        (fun tip => hstep.tip_bounded) hstep.tip_hash
      refine ⟨by simpa [Ingestion.resume] using hnext,?_⟩
      simp only [Ingestion.resume,remaining] at hle ⊢
      omega
  | compareTip bestHeight tipHeight =>
    cases reply with
    | none => exact hanswered.elim
    | some hash =>
      obtain rfl : db' = db := hexchange
      exact compareTip_closer h
  | rollbackTip bestHeight =>
    rcases reply with _ | _ | restored
    · exact hanswered.elim
    · -- the store returns nothing only when no tip is stored
      obtain ⟨_,blocks,deltas,hrecords,_⟩ := h
      rcases Store.rollbackTip_ok hexchange with ⟨_,stored,hstored,hnone,_⟩ | ⟨_,_,_,_,_,_,_,_,hsome,_⟩
      · rw [hrecords.stored,Option.some.injEq,ProtocolRow.mk.injEq] at hstored
        exact absurd (hstored.2 ▸ hnone) horderly
      · simp at hsome
    · exact rollbackTip_closer h hexchange
  | locateInit bestHeight =>
    rcases reply with _ | _ | height
    · exact hanswered.elim
    · refine ⟨trivial,?_⟩
      simp only [Ingestion.resume,Ingestion.goto_point,remaining]
      omega
    · obtain ⟨hnext,hle⟩ := forHeights_orderly worker.state worker bestHeight height
        db'.canonicalBlocks.length chain.length
      refine ⟨by simpa [Ingestion.resume] using hnext,?_⟩
      simp only [Ingestion.resume,remaining] at hle ⊢
      omega
  | fetchBlock bestHeight height =>
    cases reply with
    | none => exact hanswered.elim
    | some block =>
      obtain rfl : db' = db := hexchange
      exact fetchBlock_closer hchain hholds h htruth
  | commitBlock bestHeight height delta =>
    cases reply with
    | none => exact hanswered.elim
    | some u => exact commitBlock_closer h
  | readMempool =>
    cases reply with
    | none => exact hanswered.elim
    | some transactions => exact ⟨hanswered,by simp [Ingestion.resume,remaining]⟩
  | writeMempool transactions =>
    cases reply with
    | none => exact hanswered.elim
    | some u => exact ⟨trivial,by simp [Ingestion.resume,remaining]⟩

theorem exists_readyFor (network : Network) : ∃ status : CoreStatus, status.readyFor network = true := by
  cases network with
  | mainnet => exact ⟨⟨"main",0,0,false,true⟩,by decide⟩
  | signet => exact ⟨⟨"signet",0,0,false,true⟩,by decide⟩
  | testnet4 => exact ⟨⟨"testnet4",0,0,false,true⟩,by decide⟩
  | regtest => exact ⟨⟨"regtest",0,0,false,true⟩,by decide⟩

/-- At every await before the end there is a reply that does not fail. -/
theorem exists_reply (hchain : BestChain views binding.initTxid chain) (hholds : Holdable chain)
    (hrelease : worker.release.Storable) (point : Point)
    (h : Passing P views binding chain db worker.state point) (horderly : Orderly worker.state point) :
    point = .finished (.ok ()) ∨ ∃ (reply : point.Reply) (db' : Database),
      worker.Exchange db point reply db' ∧
        Attentive binding.network binding.initTxid chain point reply db db' := by
  have hpositive := List.length_pos_iff.mpr hholds.inhabited
  have hbounded := hholds.bounded
  cases point with
  | starting => exact horderly.elim
  | reloadState delta => exact horderly.elim
  | waiting => exact horderly.elim
  | panicked => exact horderly.elim
  | finished result =>
    cases result with
    | error e => exact horderly.elim
    | ok u => exact Or.inl rfl
  | readStatus =>
    obtain ⟨status,hready⟩ := exists_readyFor binding.network
    exact Or.inr ⟨some status,db,rfl,trivial,hready⟩
  | readBestHeight =>
    refine Or.inr ⟨some (UInt64.ofNat (chain.length - 1)),db,rfl,?_,trivial⟩
    simp only [Truthful,UInt64.toNat_ofNat']
    omega
  | compareTip bestHeight tipHeight =>
    have hle := UInt64.le_iff_toNat_le.mp horderly
    have hbest := h.1
    have hlt : tipHeight.toNat < chain.length := by omega
    exact Or.inr ⟨some chain[tipHeight.toNat].hash,db,rfl,⟨_,List.getElem?_eq_getElem hlt,rfl⟩,trivial⟩
  | rollbackTip bestHeight =>
    obtain ⟨_,blocks,deltas,hrecords,_⟩ := h
    cases blocks using List.reverseRecOn with
    | nil => exact absurd (by simpa using (applyBlocks_tip hrecords.run).1) horderly
    | append_singleton earlier block =>
      obtain ⟨db',restored,hroll⟩ := hrecords.rollbackTip_commits
      exact Or.inr ⟨some (some restored),db',hroll,trivial,trivial⟩
  | locateInit bestHeight =>
    by_cases hfound : ∃ block ∈ chain, block.hasTransaction binding.initTxid = true
    · obtain ⟨block,hmem,hcontains⟩ := hfound
      refine Or.inr ⟨some (some block.height),db,rfl,?_,trivial⟩
      exact ⟨block,getElem?_rank hchain.rooted hmem,hcontains⟩
    · refine Or.inr ⟨some none,db,rfl,?_,trivial⟩
      intro block hmem
      exact eq_false_of_ne_true fun hcontains => hfound ⟨block,hmem,hcontains⟩
  | fetchBlock bestHeight height =>
    obtain ⟨hbest,hle,_⟩ := h
    have hbelow := UInt64.le_iff_toNat_le.mp hle
    have hlt : height.toNat < chain.length := by omega
    exact Or.inr ⟨some chain[height.toNat],db,rfl,List.getElem?_eq_getElem hlt,trivial⟩
  | commitBlock bestHeight height delta =>
    obtain ⟨_,_,i,block,_,_,hstep,hget,happly⟩ := h
    obtain ⟨db',hstore⟩ := hstep.commits hchain hholds hget happly hrelease
    exact Or.inr ⟨some (),db',hstore,trivial,trivial⟩
  | readMempool => exact Or.inr ⟨some [],db,rfl,trivial,List.nodup_nil⟩
  | writeMempool transactions =>
    obtain ⟨db',hstore⟩ := replaceMempool_distinct db horderly
    exact Or.inr ⟨some (),db',hstore,trivial,trivial⟩

/-- The steps of a pass without failures keep the invariant and decrease the measure. -/
theorem Advancing.step {config config' : Database × Ingestion}
    (hchain : BestChain views binding.initTxid chain) (hholds : Holdable chain)
    (h : Advancing P views binding chain config.1 config.2)
    (hstep : Ingestion.Step P (Attentive binding.network binding.initTxid chain) config config') :
    Advancing P views binding chain config'.1 config'.2 ∧
      remaining config'.1.canonicalBlocks.length chain.length config'.2.point <
        remaining config.1.canonicalBlocks.length chain.length config.2.point := by
  cases hstep with
  | step point reply hpoint hexchange hpermits =>
    subst hpoint
    have hpassing := passing_step hchain _ reply h.passing hexchange hpermits.1
    obtain ⟨horderly,hlt⟩ := closer_step hchain hholds _ reply h.passing h.orderly hexchange hpermits
    exact ⟨⟨(resume_release _ reply).symm ▸ h.release,hpassing,horderly⟩,hlt⟩

theorem Advancing.progress {config : Database × Ingestion} (hchain : BestChain views binding.initTxid chain)
    (hholds : Holdable chain) (h : Advancing P views binding chain config.1 config.2) :
    (config.2.point = .finished (.ok ()) ∧
      Converged P views binding chain config.1 config.2.state) ∨
    ∃ config', Ingestion.Step P (Attentive binding.network binding.initTxid chain) config config' := by
  rcases exists_reply hchain hholds h.release _ h.passing h.orderly with hdone | ⟨reply,db',hexchange,hpermits⟩
  · have hpassing := h.passing
    rw [hdone] at hpassing
    exact Or.inl ⟨hdone,hpassing⟩
  · exact Or.inr ⟨_,.step _ reply rfl hexchange hpermits⟩

end Pass

/-- Whatever branch is stored, every pass against a node that answers and a database that
commits ends, after at most two awaits for every stored block and every block of the best
chain and six others, and it ends with the stored run on the best chain. -/
theorem run_once_returns {row : ProtocolRow} (hdb : Committed P (fun block => views block.hash = block) db)
    (hstored : db.protocolState = some row) (hstate : worker.state = row.state)
    (hpoint : worker.point = .readStatus) (hrelease : worker.release.Storable)
    (hchain : BestChain views row.binding.initTxid chain) (hholds : Holdable chain) :
    Inevitable (Ingestion.Step P (Attentive row.binding.network row.binding.initTxid chain))
      (fun config => config.2.point = .finished (.ok ()) ∧
        Converged P views row.binding chain config.1 config.2.state)
      (2 * db.canonicalBlocks.length + 2 * chain.length + 6) (db,worker) := by
  obtain ⟨blocks,deltas,hrecords,hviews⟩ := hdb.sound.records hstored
  have hstart : Advancing P views row.binding chain db worker := by
    refine ⟨hrelease,?_,?_⟩
    · rw [hpoint,hstate]
      exact ⟨blocks,deltas,hrecords,hviews⟩
    · rw [hpoint]
      trivial
  refine inevitable_of_measure (fun config => Advancing P views row.binding chain config.1 config.2)
    (fun config => remaining config.1.canonicalBlocks.length chain.length config.2.point)
    (fun _ _ h hstep => h.step hchain hholds hstep) (fun _ h => h.progress hchain hholds) hstart ?_
  simp [hpoint,remaining]

section Sample

theorem rightChain_holdable : Holdable rightChain :=
  ⟨by simp [rightChain],by simp [rightChain],by
    intro block hblock
    simp only [rightChain,List.mem_cons,List.not_mem_nil,or_false] at hblock
    rcases hblock with rfl | rfl | rfl
    · exact ⟨by decide,by decide⟩
    · exact ⟨by decide +kernel,by decide +kernel⟩
    · exact ⟨by decide,by decide⟩⟩

/-- With the left branch stored, a pass against the right chain reaches its end. -/
theorem sample_returns : ∃ (db db' : Database) (worker worker' : Ingestion) (n : ℕ),
    storedHashes db = [sampleHash 1,sampleHash 30] ∧ n ≤ 16 ∧
      RunIn (Ingestion.Step bitcoinPrimitives (Attentive .regtest sampleBinding.initTxid rightChain)) n
        (db,worker) (db',worker') ∧
      Converged bitcoinPrimitives sampleViews sampleBinding rightChain db' worker'.state := by
  obtain ⟨⟨db,worker⟩,hleft,hobserved⟩ := Option.map_eq_some_iff.mp leftPass_eq
  simp only [Prod.mk.injEq] at hobserved
  obtain ⟨hcommitted,hstored⟩ := leftPass_committed hleft
  have hrows : db.canonicalBlocks.length = 2 := by
    have hlength := congrArg List.length hobserved.2
    simpa [storedHashes] using hlength
  have hstate : (⟨worker.state,sampleRelease,worker.health,.readStatus⟩ : Ingestion).state = worker.state := rfl
  have hends := run_once_returns hcommitted hstored hstate rfl sampleRelease_storable rightChain_best
    rightChain_holdable
  obtain ⟨n,⟨db',worker'⟩,hle,hrun,_,hconverged⟩ := hends.reached
  rw [hrows] at hle
  exact ⟨db,db',_,worker',n,hobserved.2,hle,hrun,hconverged⟩

end Sample
end TandemVerifier
