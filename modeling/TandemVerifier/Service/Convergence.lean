import TandemVerifier.Reduction.Representation
import TandemVerifier.Service.Writers

/-! # A pass converges to the best chain

One pass against a best chain that does not change. Only the hash of the tip is
compared; the ancestors are canonical because the stored blocks are linked and a hash
determines its block. The invariant is an assertion for every await of the pass.
-/
namespace TandemVerifier
open Library Library.Outcome Library.LinkedChain
variable {P : Primitives} {binding : Binding} {views : Hash32 → BlockView} {chain : List BlockView}
variable {db db' : Database} {state : ChainState} {blocks : List BlockView} {initTxid : Hash32}

def blockLinks : Links BlockView Hash32 :=
  ⟨BlockView.hash,BlockView.previousHash,fun block => block.height.toNat⟩

/-- A best chain from height zero on, whose blocks are determined by their hashes and of
which at most one contains the configured INIT. -/
structure BestChain (views : Hash32 → BlockView) (initTxid : Hash32) (chain : List BlockView) : Prop where
  rooted : blockLinks.Rooted chain
  viewed : ∀ block ∈ chain, views block.hash = block
  unique : ∀ a ∈ chain, ∀ b ∈ chain, a.hasTransaction initTxid = true →
    b.hasTransaction initTxid = true → a = b

/-- The configured INIT is confirmed at the height. -/
def InitAt (initTxid : Hash32) (chain : List BlockView) (i : ℕ) : Prop :=
  ∃ block, chain[i]? = some block ∧ block.hasTransaction initTxid = true

/-- The replies of a node whose best chain stays the same until the pass returns. -/
def Truthful (initTxid : Hash32) (chain : List BlockView) : Permits
  | .readBestHeight,some bestHeight,_,_ => bestHeight.toNat + 1 = chain.length
  | .compareTip _ tipHeight,some hash,_,_ =>
    ∃ block, chain[tipHeight.toNat]? = some block ∧ block.hash = hash
  | .locateInit _,some (some height),_,_ => InitAt initTxid chain height.toNat
  | .locateInit _,some none,_,_ => ∀ block ∈ chain, block.hasTransaction initTxid = false
  | .fetchBlock _ height,some block,_,_ => chain[height.toNat]? = some block
  | .finished _,_,_,_ => False
  | _,_,_,_ => True

/-- The database records the blocks, and the state is the stored one. -/
def InStep (P : Primitives) (views : Hash32 → BlockView) (binding : Binding) (db : Database)
    (state : ChainState) (blocks : List BlockView) : Prop :=
  ∃ deltas, Records P db binding state blocks deltas ∧ ∀ block ∈ blocks, views block.hash = block

/-- The blocks of the chain from one height up to, but not including, another. -/
def segment (chain : List BlockView) (i height : ℕ) : List BlockView := (chain.take height).drop i

/-- The database and the worker hold exactly what a fresh synchronisation yields. -/
def Converged (P : Primitives) (views : Hash32 → BlockView) (binding : Binding)
    (chain : List BlockView) (db : Database) (state : ChainState) : Prop :=
  (∃ i, InitAt binding.initTxid chain i ∧ InStep P views binding db state (chain.drop i)) ∨
    (∀ block ∈ chain, block.hasTransaction binding.initTxid = false) ∧ InStep P views binding db state []

/-- The assertion at every await of a pass. -/
def Passing (P : Primitives) (views : Hash32 → BlockView) (binding : Binding)
    (chain : List BlockView) (db : Database) (state : ChainState) : Point → Prop
  | .starting | .readStatus | .readBestHeight => ∃ blocks, InStep P views binding db state blocks
  | .compareTip bestHeight tipHeight => bestHeight.toNat + 1 = chain.length ∧
    state.tipHeight = some tipHeight ∧ ∃ blocks, InStep P views binding db state blocks
  | .rollbackTip bestHeight => bestHeight.toNat + 1 = chain.length ∧
    ∃ blocks, InStep P views binding db state blocks
  | .locateInit bestHeight => bestHeight.toNat + 1 = chain.length ∧ InStep P views binding db state []
  | .fetchBlock bestHeight height => bestHeight.toNat + 1 = chain.length ∧ height ≤ bestHeight ∧
    ∃ i, InitAt binding.initTxid chain i ∧ i ≤ height.toNat ∧
      InStep P views binding db state (segment chain i height.toNat)
  | .commitBlock bestHeight height delta => bestHeight.toNat + 1 = chain.length ∧ height ≤ bestHeight ∧
    ∃ i block, InitAt binding.initTxid chain i ∧ i ≤ height.toNat ∧
      InStep P views binding db delta.before (segment chain i height.toNat) ∧
      chain[height.toNat]? = some block ∧ applyBlock P delta.before block = ok (state,.ok delta)
  | .readMempool | .writeMempool _ | .finished (.ok ()) => Converged P views binding chain db state
  | .reloadState _ | .finished (.error _) | .panicked => True
  | .waiting => False

theorem segment_succ {i height : ℕ} {block : BlockView} (hi : i ≤ height)
    (hget : chain[height]? = some block) :
    segment chain i (height + 1) = segment chain i height ++ [block] := by
  have hlength : i ≤ (chain.take height).length := by
    have hlt := (List.getElem?_eq_some_iff.mp hget).1
    rw [List.length_take]
    omega
  rw [segment,List.take_add_one,hget,List.drop_append_of_le_length hlength]
  rfl

theorem segment_self (i : ℕ) : segment chain i i = [] := by
  simp [segment]

theorem segment_full {i height : ℕ} (h : chain.length ≤ height) : segment chain i height = chain.drop i := by
  rw [segment,List.take_of_length_le h]

/-- The first block of a run contains the configured INIT. -/
theorem applyBlocks_first {first : BlockView} {rest : List BlockView} {deltas : List BlockDelta}
    (h : applyBlocks P (ChainState.new P binding) (first :: rest) = some (state,deltas)) :
    first.hasTransaction binding.initTxid = true := by
  obtain ⟨next,delta,tail,happly,_,_⟩ := applyBlocks_cons.mp h
  obtain ⟨_,_,reduced,events,hreduce,_⟩ := applyBlock_ok happly
  have hfound : ∀ {tx : TxView} {position : ℕ},
      findInit (ChainState.new P binding) first = some (tx,position) →
        first.hasTransaction binding.initTxid = true := by
    intro tx position hfind
    have hmem := List.mem_zipIdx (List.mem_of_find?_eq_some hfind)
    have htxid := List.find?_some hfind
    exact List.any_eq_true.mpr ⟨tx,by rw [hmem.2.2]; exact List.getElem_mem _,htxid⟩
  cases hreduce with
  | active initHeight hOpen hClose hstatus hloop => simp [ChainState.new] at hstatus
  | initialized initTx position params hstatus hfind hvalid hloop => exact hfound hfind
  | failed initTx position initIndex reason hstatus hfind hindex hinvalid => exact hfound hfind
  | idle reason initHeight hstatus => simp [ChainState.new] at hstatus

theorem applyBlocks_blockLinks {deltas : List BlockDelta}
    (h : applyBlocks P (ChainState.new P binding) blocks = some (state,deltas)) :
    blocks.IsChain blockLinks.Follows := by
  have hlinked := applyBlocks_linked h
  rw [List.isChain_map] at hlinked
  exact hlinked

/-- Without a tip nothing is recorded. -/
theorem InStep.untouched (h : InStep P views binding db state blocks) (htip : state.tipHeight = none) :
    InStep P views binding db state [] := by
  obtain ⟨deltas,hrecords,hviews⟩ := h
  have hheight := (applyBlocks_tip hrecords.run).1
  rw [htip] at hheight
  have hempty : blocks = [] := by simpa using hheight.symm
  subst hempty
  exact ⟨deltas,hrecords,hviews⟩

/-- A tip on the best chain puts all stored blocks on it, from the INIT block on. -/
theorem InStep.matched (hchain : BestChain views binding.initTxid chain)
    (h : InStep P views binding db state blocks) {tip : UInt64} {block : BlockView}
    (htip : state.tipHeight = some tip) (hget : chain[tip.toNat]? = some block)
    (hhash : state.tipHash = some block.hash) :
    ∃ i, InitAt binding.initTxid chain i ∧ i ≤ tip.toNat ∧ blocks = segment chain i (tip.toNat + 1) := by
  obtain ⟨deltas,hrecords,hviews⟩ := h
  obtain ⟨hheight,hlast⟩ := applyBlocks_tip hrecords.run
  have hlinked := applyBlocks_blockLinks hrecords.run
  cases blocks using List.reverseRecOn with
  | nil => simp [htip] at hheight
  | append_singleton earlier last =>
    have hrank : blockLinks.rank last = tip.toNat := by
      have hlastHeight : last.height = tip := by simpa [htip] using hheight.symm
      rw [← hlastHeight]
      rfl
    have hname : last.hash = block.hash := by simpa [hhash] using hlast.symm
    have hon : blockLinks.OnChain chain last := ⟨block,by rw [hrank,hget],hname.symm⟩
    have hnamed : ∀ x ∈ earlier ++ [last], ∀ y ∈ chain, x.hash = y.hash → x = y := by
      intro x hx y hy hsame
      rw [← hviews x hx,hsame,hchain.viewed y hy]
    obtain ⟨skipped,hsplit⟩ := suffix_take hchain.rooted hlinked hnamed hon
    rw [hrank] at hsplit
    have hdrop : earlier ++ [last] = segment chain skipped.length (tip.toNat + 1) := by
      rw [segment,← hsplit,List.drop_left' rfl]
    have hlength := congrArg List.length hsplit
    have hbound := (List.getElem?_eq_some_iff.mp hget).1
    simp only [List.length_append,List.length_take,List.length_singleton] at hlength
    refine ⟨skipped.length,?_,?_,hdrop⟩
    · obtain ⟨first,rest,hfirst⟩ := List.exists_cons_of_ne_nil (List.append_ne_nil_of_right_ne_nil
        earlier (List.cons_ne_nil last []))
      have hrun := hrecords.run
      rw [hfirst] at hrun
      refine ⟨first,?_,applyBlocks_first hrun⟩
      have hhead : (segment chain skipped.length (tip.toNat + 1))[0]? = some first := by
        rw [← hdrop,hfirst]
        rfl
      rw [segment,List.getElem?_drop,List.getElem?_take] at hhead
      split at hhead
      · simpa using hhead
      · simp at hhead
    · omega

section Pass
variable {worker : Ingestion} {bestHeight : UInt64}

theorem catchUp_matched (hchain : BestChain views binding.initTxid chain)
    (h : InStep P views binding db worker.state blocks) (hbest : bestHeight.toNat + 1 = chain.length)
    {tip : UInt64} {block : BlockView} (htip : worker.state.tipHeight = some tip)
    (hget : chain[tip.toNat]? = some block) (hhash : worker.state.tipHash = some block.hash) :
    Passing P views binding chain db worker.state (worker.catchUp bestHeight).point := by
  obtain ⟨i,hinit,hi,rfl⟩ := h.matched hchain htip hget hhash
  refine Ingestion.catchUp_rule ?_ ?_ ?_ fun _ => trivial
  · intro found next hfound hnext hle
    obtain rfl : tip = found := Option.some.inj (htip.symm.trans hfound)
    exact ⟨hbest,hle,i,hinit,by omega,hnext ▸ h⟩
  · intro found hfound hle
    obtain rfl : tip = found := Option.some.inj (htip.symm.trans hfound)
    have hlength : chain.length ≤ tip.toNat + 1 := by
      have hle' := UInt64.le_iff_toNat_le.mp hle
      omega
    exact Or.inl ⟨i,hinit,segment_full hlength ▸ h⟩
  · intro hnone
    simp [htip] at hnone

theorem catchUp_untouched (worker : Ingestion) (h : InStep P views binding db worker.state blocks)
    (hbest : bestHeight.toNat + 1 = chain.length) (htip : worker.state.tipHeight = none) :
    Passing P views binding chain db worker.state (worker.catchUp bestHeight).point := by
  refine Ingestion.catchUp_rule ?_ ?_ ?_ fun _ => trivial
  · intro tip next hsome
    simp [htip] at hsome
  · intro tip hsome
    simp [htip] at hsome
  · intro hnone
    exact ⟨hbest,h.untouched hnone⟩

theorem reconcileReorg_passing (worker : Ingestion) (h : InStep P views binding db worker.state blocks)
    (hbest : bestHeight.toNat + 1 = chain.length) :
    Passing P views binding chain db worker.state (worker.reconcileReorg bestHeight).point := by
  refine Ingestion.reconcileReorg_rule ?_ ?_ ?_ (fun _ => trivial) trivial
  · intro tip htip _
    exact ⟨hbest,htip,blocks,h⟩
  · intro tip tipHash _ _ _
    exact ⟨hbest,blocks,h⟩
  · intro htip
    exact ⟨hbest,h.untouched htip⟩

/-- A rollback that returns the pre-INIT state has removed the last stored block. -/
theorem InStep.rolledBack {restored : ChainState} (h : InStep P views binding db state blocks)
    (hroll : Store.rollbackTip db = ok (db',some restored)) :
    ∃ earlier, InStep P views binding db' restored earlier := by
  obtain ⟨deltas,hrecords,hviews⟩ := h
  obtain ⟨earlier,block,first,delta,row,rfl,_,_,_,_,hrestored⟩ := hrecords.rolledBack hroll
  exact ⟨earlier,first,hrestored,fun other hother => hviews other (List.mem_append_left _ hother)⟩

theorem InStep.awaiting (h : InStep P views binding db state blocks)
    (hstatus : state.protocolStatus = .awaitingInit) : state.tipHeight = none := by
  obtain ⟨deltas,hrecords,_⟩ := h
  have hnew : TipDecided (ChainState.new P binding) := by simp [TipDecided,ChainState.new]
  have hdecided := applyBlocks_tipDecided hnew hrecords.run
  rw [TipDecided,hstatus] at hdecided
  simpa [hdecided.2] using hdecided.1

/-- Storing the next block of the chain extends the stored segment by it. -/
theorem InStep.extended {i height : ℕ} {block : BlockView} {delta : BlockDelta}
    {release : ReleaseIdentity} (hchain : BestChain views binding.initTxid chain)
    (h : InStep P views binding db delta.before (segment chain i height)) (hi : i ≤ height)
    (hget : chain[height]? = some block) (happly : applyBlock P delta.before block = ok (state,.ok delta))
    (hstore : Store.applyBlock db state delta release = ok db') :
    InStep P views binding db' state (segment chain i (height + 1)) := by
  obtain ⟨deltas,hrecords,hviews⟩ := h
  rw [segment_succ hi hget]
  refine ⟨deltas ++ [delta],(hrecords.applied happly hstore).2,?_⟩
  intro other hother
  rcases List.mem_append.mp hother with hold | hnew
  · exact hviews other hold
  · rw [List.mem_singleton.mp hnew]
    exact hchain.viewed block (List.mem_of_getElem? hget)

theorem Converged.mempool {overlay : List MempoolRow} (h : Converged P views binding chain db state) :
    Converged P views binding chain { db with mempoolOverlay := overlay } state := by
  rcases h with ⟨i,hinit,deltas,hrecords,hviews⟩ | ⟨hnone,deltas,hrecords,hviews⟩
  · exact Or.inl ⟨i,hinit,deltas,hrecords.mempool,hviews⟩
  · exact Or.inr ⟨hnone,deltas,hrecords.mempool,hviews⟩

theorem reduceBlock_passing {height : UInt64} {block : BlockView}
    (h : Passing P views binding chain db worker.state (.fetchBlock bestHeight height))
    (hget : chain[height.toNat]? = some block) :
    Passing P views binding chain db (worker.reduceBlock P bestHeight height block).state
      (worker.reduceBlock P bestHeight height block).point := by
  obtain ⟨hbest,hle,i,hinit,hi,hstep⟩ := h
  unfold Ingestion.reduceBlock
  split
  · next post delta happly =>
    have hbefore : delta.before = worker.state := (applyBlock_delta happly).1
    refine ⟨hbest,hle,i,block,hinit,hi,?_,hget,?_⟩
    · rw [hbefore]
      exact hstep
    · rw [hbefore]
      exact happly
  · trivial
  · trivial
  · trivial

theorem commitBlock_passing {height : UInt64} {delta : BlockDelta}
    (hchain : BestChain views binding.initTxid chain)
    (h : Passing P views binding chain db worker.state (.commitBlock bestHeight height delta))
    (hstore : Store.applyBlock db worker.state delta worker.release = ok db') :
    Passing P views binding chain db' worker.state
      (worker.resume P (.commitBlock bestHeight height delta) (some ())).point := by
  obtain ⟨hbest,hle,i,block,hinit,hi,hstep,hget,happly⟩ := h
  have hextended := hstep.extended hchain hi hget happly hstore
  simp only [Ingestion.resume]
  split
  · next hlt =>
    have hnat := UInt64.lt_iff_toNat_lt.mp hlt
    have hnext : (height + 1).toNat = height.toNat + 1 := by
      have hbound := bestHeight.toNat_lt
      rw [UInt64.toNat_add,UInt64.toNat_one]
      omega
    refine ⟨hbest,?_,i,hinit,by omega,?_⟩
    · rw [UInt64.le_iff_toNat_le]
      omega
    · rw [hnext]
      exact hextended
  · next hge =>
    have hnat := UInt64.le_iff_toNat_le.mp (UInt64.not_lt.mp hge)
    rw [segment_full (by omega)] at hextended
    exact Or.inl ⟨i,hinit,hextended⟩

theorem compareTip_passing {tipHeight : UInt64} {block : BlockView}
    (hchain : BestChain views binding.initTxid chain)
    (h : Passing P views binding chain db worker.state (.compareTip bestHeight tipHeight))
    (hget : chain[tipHeight.toNat]? = some block) :
    Passing P views binding chain db (worker.resume P (.compareTip bestHeight tipHeight) (some block.hash)).state
      (worker.resume P (.compareTip bestHeight tipHeight) (some block.hash)).point := by
  obtain ⟨hbest,htip,blocks,hstep⟩ := h
  simp only [Ingestion.resume]
  split
  · trivial
  · next tipHash hhash =>
    split
    · next hsame =>
      have hmatch : worker.state.tipHash = some block.hash := by rw [hhash,hsame]
      simpa using catchUp_matched hchain hstep hbest htip hget hmatch
    · rw [Ingestion.disconnect_state]
      exact Ingestion.disconnect_rule (fun _ _ => ⟨hbest,blocks,hstep⟩) trivial

theorem rollbackTip_passing {restored : ChainState}
    (h : Passing P views binding chain db worker.state (.rollbackTip bestHeight))
    (hroll : Store.rollbackTip db = ok (db',some restored)) :
    Passing P views binding chain db' (worker.resume P (.rollbackTip bestHeight) (some (some restored))).state
      (worker.resume P (.rollbackTip bestHeight) (some (some restored))).point := by
  obtain ⟨hbest,blocks,hstep⟩ := h
  obtain ⟨earlier,hrestored⟩ := hstep.rolledBack hroll
  simp only [Ingestion.resume]
  split
  · next hstatus =>
    simpa using catchUp_untouched { worker with state := restored } hrestored hbest
      (hrestored.awaiting hstatus)
  · simpa using reconcileReorg_passing { worker with state := restored } hrestored hbest

theorem locateInit_passing {height : UInt64}
    (h : Passing P views binding chain db worker.state (.locateInit bestHeight))
    (hinit : InitAt binding.initTxid chain height.toNat) :
    Passing P views binding chain db (worker.resume P (.locateInit bestHeight) (some (some height))).state
      (worker.resume P (.locateInit bestHeight) (some (some height))).point := by
  obtain ⟨hbest,hstep⟩ := h
  obtain ⟨block,hget,hcontains⟩ := hinit
  have hbound := (List.getElem?_eq_some_iff.mp hget).1
  simp only [Ingestion.resume,Ingestion.forHeights_state]
  apply Ingestion.forHeights_rule
  · intro hle
    refine ⟨hbest,hle,height.toNat,⟨block,hget,hcontains⟩,Nat.le_refl _,?_⟩
    rw [segment_self]
    exact hstep
  · intro hlt
    have hnat := UInt64.lt_iff_toNat_lt.mp hlt
    omega

/-- Every step of a pass keeps the assertion of the await it leads to. -/
theorem passing_step (hchain : BestChain views binding.initTxid chain) (point : Point)
    (reply : point.Reply) (h : Passing P views binding chain db worker.state point)
    (hexchange : worker.Exchange db point reply db')
    (htruth : Truthful binding.initTxid chain point reply db db') :
    Passing P views binding chain db' (worker.resume P point reply).state
      (worker.resume P point reply).point := by
  cases point with
  | starting =>
    obtain rfl : db' = db := hexchange
    exact h
  | readStatus =>
    obtain rfl : db' = db := by cases reply <;> exact hexchange
    cases reply with
    | none => trivial
    | some status =>
      simp only [Ingestion.resume]
      split
      · exact h
      · trivial
  | readBestHeight =>
    cases reply with
    | none => trivial
    | some bestHeight =>
      obtain rfl : db' = db := hexchange
      obtain ⟨blocks,hstep⟩ := h
      simpa [Ingestion.resume] using reconcileReorg_passing worker hstep htruth
  | compareTip bestHeight tipHeight =>
    cases reply with
    | none => trivial
    | some hash =>
      obtain rfl : db' = db := hexchange
      obtain ⟨block,hget,rfl⟩ := htruth
      exact compareTip_passing hchain h hget
  | rollbackTip bestHeight =>
    rcases reply with _ | _ | restored
    · trivial
    · trivial
    · exact rollbackTip_passing h hexchange
  | locateInit bestHeight =>
    rcases reply with _ | _ | height
    · trivial
    · obtain rfl : db' = db := hexchange
      exact Or.inr ⟨htruth,h.2⟩
    · obtain rfl : db' = db := hexchange
      exact locateInit_passing h htruth
  | fetchBlock bestHeight height =>
    cases reply with
    | none => trivial
    | some block =>
      obtain rfl : db' = db := hexchange
      exact reduceBlock_passing h htruth
  | commitBlock bestHeight height delta =>
    cases reply with
    | none => trivial
    | some u =>
      have hstate : (worker.resume P (.commitBlock bestHeight height delta) (some u)).state =
          worker.state := by
        simp only [Ingestion.resume]
        split <;> rfl
      rw [hstate]
      exact commitBlock_passing hchain h hexchange
  | readMempool =>
    cases reply with
    | none => trivial
    | some transactions =>
      obtain rfl : db' = db := hexchange
      exact h
  | writeMempool transactions =>
    cases reply with
    | none => trivial
    | some u =>
      rw [Store.replaceMempool_ok hexchange]
      exact Converged.mempool h
  | finished result => exact absurd htruth (by simp [Truthful])
  | panicked => cases reply
  | reloadState delta => trivial
  | waiting => exact h.elim

/-- The assertions hold along the whole pass. -/
theorem passing_run {config config' : Database × Ingestion}
    (hchain : BestChain views binding.initTxid chain)
    (hstart : Passing P views binding chain config.1 config.2.state config.2.point)
    (h : Relation.ReflTransGen (Ingestion.Step P (Truthful binding.initTxid chain)) config config') :
    Passing P views binding chain config'.1 config'.2.state config'.2.point := by
  induction h with
  | refl => exact hstart
  | tail _ hstep ih =>
    cases hstep with
    | step point reply hpoint hexchange htruth =>
      exact passing_step hchain point reply (hpoint ▸ ih) hexchange htruth

theorem BestChain.init_unique (hchain : BestChain views initTxid chain) {i j : ℕ}
    (hi : InitAt initTxid chain i) (hj : InitAt initTxid chain j) : i = j := by
  obtain ⟨a,hgeta,ha⟩ := hi
  obtain ⟨b,hgetb,hb⟩ := hj
  obtain rfl := hchain.unique a (List.mem_of_getElem? hgeta) b (List.mem_of_getElem? hgetb) ha hb
  rw [← ranked hchain.rooted hgeta,ranked hchain.rooted hgetb]

/-- The recorded heights are those of the recorded blocks. -/
theorem Records.heights {deltas : List BlockDelta} (h : Records P db binding state blocks deltas) :
    db.canonicalBlocks.map (fun row => row.height.toInt) =
      (blocks.map fun block => block.height.toNat).map Int.ofNat := by
  have hheaders := congrArg (List.map fun header => header.height.toNat) (applyBlocks_headers h.run)
  have hblocks : blocks.map (fun block => block.height.toNat) =
      db.canonicalBlocks.map fun row => row.inverseDelta.height.toNat := by
    rw [← h.journal,List.map_map,List.map_map,List.map_map] at hheaders
    exact hheaders.symm
  rw [hblocks,List.map_map]
  exact List.map_congr_left fun row hrow => h.height_toInt hrow

theorem BestChain.heights_drop (hchain : BestChain views initTxid chain) (i : ℕ) :
    (chain.drop i).map (fun block => block.height.toNat) = List.range' i (chain.length - i) := by
  have hranks := congrArg (List.drop i) (map_rank hchain.rooted)
  rw [← List.map_drop,List.range_eq_range',List.drop_range',Nat.zero_add,Nat.mul_one] at hranks
  exact hranks

end Pass

/-- A pass of a worker in step with the stored run that returns Ok has converged. -/
theorem pass_converged {worker : Ingestion} {config : Database × Ingestion} {row : ProtocolRow}
    (hdb : Committed P (fun block => views block.hash = block) db)
    (hstored : db.protocolState = some row) (hstate : worker.state = row.state)
    (hpoint : worker.point = .starting ∨ worker.point = .readStatus)
    (hchain : BestChain views row.binding.initTxid chain)
    (hpass : Relation.ReflTransGen (Ingestion.Step P (Truthful row.binding.initTxid chain))
      (db,worker) config)
    (hok : config.2.point = .finished (.ok ())) :
    Converged P views row.binding chain config.1 config.2.state := by
  obtain ⟨blocks,deltas,hrecords,hviews⟩ := hdb.sound.records hstored
  have hstart : Passing P views row.binding chain db worker.state worker.point := by
    rw [hstate]
    rcases hpoint with hpoint | hpoint
    · rw [hpoint]
      exact ⟨blocks,deltas,hrecords,hviews⟩
    · rw [hpoint]
      exact ⟨blocks,deltas,hrecords,hviews⟩
  have hfinal := passing_run hchain hstart hpass
  rw [hok] at hfinal
  exact hfinal

/-- A pass that returns Ok leaves the worker and the tables as a fresh synchronisation with
the best chain would, whatever branch was stored before. -/
theorem run_once_converges {worker worker' : Ingestion} {row : ProtocolRow}
    (hdb : Committed P (fun block => views block.hash = block) db)
    (hstored : db.protocolState = some row) (hstate : worker.state = row.state)
    (hpoint : worker.point = .readStatus) (hchain : BestChain views row.binding.initTxid chain)
    (hpass : Relation.ReflTransGen (Ingestion.Step P (Truthful row.binding.initTxid chain))
      (db,worker) (db',worker'))
    (hok : worker'.point = .finished (.ok ())) :
    (∀ i, InitAt row.binding.initTxid chain i → ∃ deltas,
      applyBlocks P (ChainState.new P row.binding) (chain.drop i) = some (worker'.state,deltas) ∧
      db'.protocolState = some ⟨row.binding,worker'.state⟩ ∧
      db'.canonicalBlocks.map (fun row => row.height.toInt) =
        (List.range' i (chain.length - i)).map Int.ofNat) ∧
    ((∀ block ∈ chain, block.hasTransaction row.binding.initTxid = false) →
      worker'.state = ChainState.new P row.binding ∧
      db'.protocolState = some ⟨row.binding,ChainState.new P row.binding⟩ ∧
      db'.canonicalBlocks = []) := by
  have hfinal := pass_converged hdb hstored hstate (Or.inr hpoint) hchain hpass hok
  constructor
  · intro i hinit
    rcases hfinal with ⟨j,hj,final,hconverged,_⟩ | ⟨hnone,_⟩
    · obtain rfl := hchain.init_unique hinit hj
      refine ⟨final,hconverged.run,hconverged.stored,?_⟩
      rw [hconverged.heights,hchain.heights_drop]
    · obtain ⟨block,hget,hblock⟩ := hinit
      simp [hnone block (List.mem_of_getElem? hget)] at hblock
  · intro habsent
    rcases hfinal with ⟨j,⟨block,hget,hblock⟩,_⟩ | ⟨_,final,hconverged,_⟩
    · simp [habsent block (List.mem_of_getElem? hget)] at hblock
    · have hrun := hconverged.run
      simp only [applyBlocks,Option.some.injEq,Prod.mk.injEq] at hrun
      obtain ⟨hnew,rfl⟩ := hrun
      refine ⟨hnew.symm,?_,by simpa using hconverged.journal⟩
      rw [hconverged.stored,hnew]

/-- A node that answers from its chain answers truthfully. -/
theorem nodeSource_truthful {status : CoreStatus} (hrooted : blockLinks.Rooted chain)
    (hne : chain ≠ []) (hlength : chain.length ≤ 2 ^ 64) (fate : Fate) :
    Ingestion.Meets (nodeSource status initTxid chain) (Truthful initTxid chain) fate := by
  intro worker db db' point reply h
  cases point with
  | readBestHeight =>
    obtain ⟨rfl,rfl⟩ := Prod.mk.inj (Option.some.inj h)
    have hpositive := List.length_pos_iff.mpr hne
    simp only [Truthful,UInt64.toNat_ofNat']
    omega
  | compareTip bestHeight tipHeight =>
    obtain ⟨rfl,rfl⟩ := Prod.mk.inj (Option.some.inj h)
    cases hget : chain[tipHeight.toNat]? with
    | none => trivial
    | some block => exact ⟨block,hget,rfl⟩
  | locateInit bestHeight =>
    obtain ⟨rfl,rfl⟩ := Prod.mk.inj (Option.some.inj h)
    cases hfind : chain.find? fun block => block.hasTransaction initTxid with
    | none =>
      intro block hblock
      simpa using List.find?_eq_none.mp hfind block hblock
    | some block =>
      have hget := getElem?_rank hrooted (List.mem_of_find?_eq_some hfind)
      have hinit := List.find?_some hfind
      exact ⟨block,hget,hinit⟩
  | fetchBlock bestHeight height =>
    obtain ⟨rfl,rfl⟩ := Prod.mk.inj (Option.some.inj h)
    cases hget : chain[height.toNat]? with
    | none => trivial
    | some block => exact hget
  | finished result => exact nomatch h
  | panicked => cases reply
  | _ => trivial

section Sample

def sampleViews (hash : Hash32) : BlockView :=
  ([emptyBlock sampleHash 0,earlyBlock,leftBlock,rightBlock].find? fun block => block.hash = hash).getD
    leftBlock

theorem leftChain_best : BestChain sampleViews sampleBinding.initTxid leftChain :=
  ⟨⟨by decide +kernel,by decide +kernel⟩,by decide +kernel,by decide +kernel⟩

theorem rightChain_best : BestChain sampleViews sampleBinding.initTxid rightChain :=
  ⟨⟨by decide +kernel,by decide +kernel⟩,by decide +kernel,by decide +kernel⟩

/-- The left branch is stored and the node has switched to the right one. -/
def rightPass : Option (Database × Ingestion) :=
  leftPass.bind fun config => Ingestion.simulate bitcoinPrimitives (sampleNode rightChain)
    (List.replicate 9 .acknowledged) (config.1,config.2.goto .readStatus)

set_option maxRecDepth 10000 in
theorem rightPass_eq : rightPass.map (fun config => (config.2.point,storedHashes config.1)) =
    some (.finished (.ok ()),[sampleHash 1,sampleHash 31]) := by
  decide +kernel

theorem sampleBound_committed {good : BlockView → Prop} : Committed bitcoinPrimitives good sampleBound := by
  have hbind : Store.bindOrLoad bitcoinPrimitives Database.empty sampleBinding =
      ok (sampleBound,sampleNew) := rfl
  exact .single (.bound hbind)

theorem sampleNode_truthful {chain : List BlockView} (h : chain = leftChain ∨ chain = rightChain)
    (fate : Fate) : Ingestion.Meets (sampleNode chain) (Truthful sampleBinding.initTxid chain) fate := by
  rcases h with rfl | rfl
  · exact nodeSource_truthful leftChain_best.rooted (by simp [leftChain]) (by simp [leftChain]) fate
  · exact nodeSource_truthful rightChain_best.rooted (by simp [rightChain]) (by simp [rightChain]) fate

/-- After the first pass the left branch is committed and the worker is in step with it. -/
theorem leftPass_committed {config : Database × Ingestion} (h : leftPass = some config) :
    Committed bitcoinPrimitives (fun block => sampleViews block.hash = block) config.1 ∧
      config.1.protocolState = some ⟨sampleBinding,config.2.state⟩ := by
  have hrun := Ingestion.simulate_run (fun fate _ => sampleNode_truthful (Or.inl rfl) fate) h
  have hpending : Pending bitcoinPrimitives (Truthful sampleBinding.initTxid leftChain).Delivers
      sampleWorker.state sampleWorker.point := trivial
  have hcommitted := (Ingestion.run_committed sampleBound_committed hpending hrun).1
  have hdelivered : ∀ block, (Truthful sampleBinding.initTxid leftChain).Delivers block →
      sampleViews block.hash = block := by
    rintro block ⟨_,height,_,_,hget⟩
    exact leftChain_best.viewed block (List.mem_of_getElem? hget)
  have hpoint := leftPass_eq
  rw [h] at hpoint
  simp only [Option.map_some,Option.some.injEq,Prod.mk.injEq] at hpoint
  have hconverged := pass_converged sampleBound_committed rfl rfl (Or.inl rfl) leftChain_best hrun hpoint.1
  refine ⟨hcommitted.mono hdelivered,?_⟩
  rcases hconverged with ⟨_,_,_,hrecords,_⟩ | ⟨_,_,hrecords,_⟩
  · exact hrecords.stored
  · exact hrecords.stored

theorem sample_converges : ∃ (db db' : Database) (worker worker' : Ingestion) (deltas : List BlockDelta),
    storedHashes db = [sampleHash 1,sampleHash 30] ∧ storedHashes db' = [sampleHash 1,sampleHash 31] ∧
      Relation.ReflTransGen (Ingestion.Step bitcoinPrimitives
        (Truthful sampleBinding.initTxid rightChain)) (db,worker) (db',worker') ∧
      applyBlocks bitcoinPrimitives sampleNew (rightChain.drop 1) = some (worker'.state,deltas) := by
  obtain ⟨⟨db',worker'⟩,hright,hobserved⟩ := Option.map_eq_some_iff.mp rightPass_eq
  simp only [Prod.mk.injEq] at hobserved
  obtain ⟨⟨db,worker⟩,hleft,hpass⟩ := Option.bind_eq_some_iff.mp hright
  have hbefore := leftPass_eq
  rw [hleft] at hbefore
  simp only [Option.map_some,Option.some.injEq,Prod.mk.injEq] at hbefore
  obtain ⟨hcommitted,hstored⟩ := leftPass_committed hleft
  have hrun := Ingestion.simulate_run (fun fate _ => sampleNode_truthful (Or.inr rfl) fate) hpass
  have hinit : InitAt sampleBinding.initTxid rightChain 1 := ⟨earlyBlock,rfl,by decide +kernel⟩
  have hstate : (worker.goto .readStatus).state = worker.state := rfl
  obtain ⟨deltas,hsync,_⟩ := (run_once_converges hcommitted hstored hstate rfl rightChain_best hrun
    hobserved.1).1 1 hinit
  exact ⟨db,db',_,worker',deltas,hbefore.2,hobserved.2,hrun,hsync⟩

end Sample
end TandemVerifier
