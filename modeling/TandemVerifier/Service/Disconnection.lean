import TandemVerifier.Service.Convergence

/-! # Which blocks are disconnected

`reconcile_reorg` decides on the tip in memory and `rollback_tip` removes the tip of the
database. Over passes with failed and ambiguous transactions the two may differ: a block
that was committed without being acknowledged leaves the database one block ahead of the
memory, and that block is stale whenever its parent is. A rollback that was committed
without being acknowledged leaves the memory ahead of the database; nothing resynchronises
it, and the next rollback can remove a block that is on the best chain.
-/
namespace TandemVerifier
open Library Library.Outcome Library.LinkedChain
variable {P : Primitives} {headerOf : Hash32 → Header} {chain : List Header}
variable {db db' : Database} {memory : ChainState}

/-- A best chain from height zero on, whose headers are determined by their hashes. -/
structure HeaderChain (headerOf : Hash32 → Header) (chain : List Header) : Prop where
  rooted : headerLinks.Rooted chain
  identified : ∀ header ∈ chain, headerOf header.hash = header

/-- The replies of a node with the best chain; everything but hashes and heights is free. -/
def Reports (chain : List Header) : Permits
  | .readBestHeight,some bestHeight,_,_ => bestHeight.toNat + 1 = chain.length
  | .compareTip _ tipHeight,some hash,_,_ =>
    ∃ header, chain[tipHeight.toNat]? = some header ∧ header.hash = hash
  | .fetchBlock _ height,some block,_,_ => chain[height.toNat]? = some block.header
  | _,_,_,_ => True

/-- A rollback that is reported as failed has not committed. -/
def Acknowledged : Permits
  | .rollbackTip _,none,db,db' => db' = db
  | _,_,_,_ => True

/-- The same replies without unacknowledged rollbacks. -/
def ReportsAcknowledged (chain : List Header) : Permits :=
  fun point reply db db' => Reports chain point reply db db' ∧ Acknowledged point reply db db'

/-- One worker, its database and the best chain of its node. -/
structure Setting where
  database : Database
  worker : Ingestion
  chain : List Header

/-- The worker steps against a fixed chain; between two passes the chain may change. -/
inductive Setting.Step (P : Primitives) (headerOf : Hash32 → Header) (permits : List Header → Permits) :
    Setting → Setting → Prop
  | worked {db db' : Database} {worker worker' : Ingestion} {chain : List Header}
      (h : Ingestion.Step P (permits chain) (db,worker) (db',worker')) :
      Setting.Step P headerOf permits ⟨db,worker,chain⟩ ⟨db',worker',chain⟩
  | switched {db : Database} {worker : Ingestion} {chain chain' : List Header}
      (hwaiting : worker.point = .waiting) (hchain : HeaderChain headerOf chain') :
      Setting.Step P headerOf permits ⟨db,worker,chain⟩ ⟨db,worker,chain'⟩

/-- The memory is the stored state, or the state before the last stored block. -/
inductive Tracks (P : Primitives) (headerOf : Hash32 → Header) (db : Database) (memory : ChainState) :
    Prop
  | tracks {binding : Binding} {stored : ChainState} (kept dropped : List BlockView)
      {deltas first : List BlockDelta} (hrecords : Records P db binding stored (kept ++ dropped) deltas)
      (hidentified : ∀ block ∈ kept ++ dropped, headerOf block.hash = block.header)
      (hshort : dropped.length ≤ 1)
      (hmemory : applyBlocks P (ChainState.new P binding) kept = some (memory,first))

/-- The tip of the memory is not on the best chain. -/
def TipStale (chain : List Header) (memory : ChainState) : Prop :=
  ∃ tipHash, memory.tipHash = some tipHash ∧ ∀ header ∈ chain, header.hash ≠ tipHash

/-- The assertion at every await, over all passes. -/
def Watched (P : Primitives) (headerOf : Hash32 → Header) (chain : List Header) (db : Database)
    (memory : ChainState) : Point → Prop
  | .compareTip bestHeight tipHeight => bestHeight.toNat + 1 = chain.length ∧
    memory.tipHeight = some tipHeight ∧ Tracks P headerOf db memory
  | .rollbackTip bestHeight => bestHeight.toNat + 1 = chain.length ∧ TipStale chain memory ∧
    Tracks P headerOf db memory
  | .commitBlock _ _ delta => Tracks P headerOf db delta.before ∧ ∃ block,
    headerOf block.hash = block.header ∧ applyBlock P delta.before block = ok (memory,.ok delta)
  | .reloadState delta => Tracks P headerOf db delta.before
  | _ => Tracks P headerOf db memory

namespace Tracks

/-- In step with the database. -/
theorem same {binding : Binding} {blocks : List BlockView} {deltas : List BlockDelta}
    (hrecords : Records P db binding memory blocks deltas)
    (hidentified : ∀ block ∈ blocks, headerOf block.hash = block.header) :
    Tracks P headerOf db memory :=
  .tracks blocks [] (by simpa using hrecords) (by simpa using hidentified) (by simp) hrecords.run

/-- The tip in memory is the last of the kept blocks. -/
theorem tip {binding : Binding} {kept : List BlockView} {first : List BlockDelta} {tipHash : Hash32}
    (hmemory : applyBlocks P (ChainState.new P binding) kept = some (memory,first))
    (hhash : memory.tipHash = some tipHash) :
    ∃ earlier last, kept = earlier ++ [last] ∧ last.hash = tipHash ∧
      memory.tipHeight = some last.height := by
  obtain ⟨hheight,hlast⟩ := applyBlocks_tip hmemory
  cases kept using List.reverseRecOn with
  | nil => simp [hhash] at hlast
  | append_singleton earlier last =>
    refine ⟨earlier,last,rfl,?_,by simpa using hheight⟩
    simpa [hhash] using hlast.symm

/-- A tip that is not on the chain at its own height is nowhere on the chain. -/
theorem stale (h : Tracks P headerOf db memory) (hchain : HeaderChain headerOf chain)
    {tipHeight : UInt64} {tipHash : Hash32} (hheight : memory.tipHeight = some tipHeight)
    (hhash : memory.tipHash = some tipHash)
    (hdiffers : ∀ header, chain[tipHeight.toNat]? = some header → header.hash ≠ tipHash) :
    TipStale chain memory := by
  cases h with
  | tracks kept dropped hrecords hidentified hshort hmemory =>
    obtain ⟨earlier,last,rfl,rfl,hlast⟩ := tip hmemory hhash
    refine ⟨last.hash,hhash,?_⟩
    intro header hheader hsame
    have hlastHeader : headerOf last.hash = last.header := hidentified last (by simp)
    have heq : header = last.header := by
      rw [← hchain.identified header hheader,hsame,hlastHeader]
    have hget := getElem?_rank hchain.rooted hheader
    have hrank : headerLinks.rank header = tipHeight.toNat := by
      obtain rfl : last.height = tipHeight := Option.some.inj (hlast.symm.trans hheight)
      rw [heq]
      rfl
    rw [hrank] at hget
    exact hdiffers header hget hsame

/-- The last stored block is stale when the tip in memory is: it is that tip or its child. -/
theorem last_stale {binding : Binding} {kept dropped earlier : List BlockView} {block : BlockView}
    {stored : ChainState} {deltas first : List BlockDelta} (hchain : HeaderChain headerOf chain)
    (hrun : applyBlocks P (ChainState.new P binding) (kept ++ dropped) = some (stored,deltas))
    (hidentified : ∀ block ∈ kept ++ dropped, headerOf block.hash = block.header)
    (hshort : dropped.length ≤ 1)
    (hmemory : applyBlocks P (ChainState.new P binding) kept = some (memory,first))
    (hstale : TipStale chain memory) (hlast : kept ++ dropped = earlier ++ [block]) :
    ∀ header ∈ chain, header.hash ≠ block.hash := by
  obtain ⟨tipHash,hhash,hother⟩ := hstale
  obtain ⟨before,last,rfl,rfl,_⟩ := tip hmemory hhash
  match dropped with
  | [] =>
    obtain rfl : last = block := by simpa using congrArg List.getLast? hlast
    exact hother
  | [child] =>
    obtain rfl : child = block := by simpa using congrArg List.getLast? hlast
    have hlinked := applyBlocks_linked hrun
    have hfollows : headerLinks.Follows last.header child.header := by
      rw [List.map_append] at hlinked
      exact (List.isChain_append.mp hlinked).2.2 last.header (by simp) child.header (by simp)
    intro header hheader hsame
    have hchild : headerOf child.hash = child.header := hidentified child (by simp)
    have heq : header = child.header := by rw [← hchain.identified header hheader,hsame,hchild]
    obtain ⟨parent,hget,hname⟩ := onChain_parent hchain.rooted hfollows (heq ▸ hheader)
    exact hother parent (List.mem_of_getElem? hget) hname
  | _ :: _ :: _ => simp at hshort

/-- Whatever a rollback removes is stale when the tip in memory is. -/
theorem removed (h : Tracks P headerOf db memory) (hchain : HeaderChain headerOf chain)
    (hstale : TipStale chain memory) {result : Option ChainState}
    (hroll : Store.rollbackTip db = ok (db',result)) {row : BlockRow} (hrow : row ∈ db.canonicalBlocks)
    (hgone : row ∉ db'.canonicalBlocks) : ∀ header ∈ chain, header.hash ≠ row.blockHash := by
  cases h with
  | tracks kept dropped hrecords hidentified hshort hmemory =>
    cases result with
    | none =>
      rcases Store.rollbackTip_ok hroll with ⟨_,_,_,_,_,rfl⟩ | ⟨_,_,_,_,_,_,_,_,hresult,_⟩
      · exact absurd hrow hgone
      · simp at hresult
    | some restored =>
      obtain ⟨earlier,block,before,delta,last,hlast,_,happly,hrows,hjournal,_⟩ :=
        hrecords.rolledBack hroll
      obtain rfl : row = last := by
        rw [hrows] at hrow
        simpa [hgone] using hrow
      have hname : row.blockHash = block.hash := by
        rw [hrecords.rows row hrow,hjournal]
        exact (applyBlock_delta happly).2.1
      rw [hname]
      exact last_stale hchain hrecords.run hidentified hshort hmemory hstale hlast

/-- A rollback that returns a state brings the memory back in step. -/
theorem rolledBack {restored : ChainState} (h : Tracks P headerOf db memory)
    (hroll : Store.rollbackTip db = ok (db',some restored)) : Tracks P headerOf db' restored := by
  cases h with
  | tracks kept dropped hrecords hidentified hshort hmemory =>
    obtain ⟨earlier,block,before,delta,row,hlast,_,_,_,_,hrestored⟩ := hrecords.rolledBack hroll
    apply same hrestored
    intro other hother
    exact hidentified other (hlast ▸ List.mem_append_left _ hother)

/-- A block is committed only when the memory was in step; then the memory after the block is
in step again and the memory before it is one block behind. -/
theorem applied {block : BlockView} {delta : BlockDelta} {release : ReleaseIdentity}
    (h : Tracks P headerOf db delta.before) (hblock : headerOf block.hash = block.header)
    (happly : applyBlock P delta.before block = ok (memory,.ok delta))
    (hstore : Store.applyBlock db memory delta release = ok db') :
    Tracks P headerOf db' memory ∧ Tracks P headerOf db' delta.before := by
  cases h with
  | tracks kept dropped hrecords hidentified hshort hmemory =>
    obtain ⟨hbefore,hnext⟩ := hrecords.applied happly hstore
    have hall : ∀ other ∈ kept ++ dropped ++ [block], headerOf other.hash = other.header := by
      intro other hother
      rcases List.mem_append.mp hother with hold | hnew
      · exact hidentified other hold
      · rw [List.mem_singleton.mp hnew]
        exact hblock
    have hbehind := hrecords.run
    rw [← hbefore] at hbehind
    exact ⟨same hnext hall,.tracks (kept ++ dropped) [block] hnext hall (by simp) hbehind⟩

theorem loaded {state : ChainState} (h : Tracks P headerOf db memory)
    (hload : Store.loadState db = ok state) : Tracks P headerOf db state := by
  cases h with
  | tracks kept dropped hrecords hidentified hshort hmemory =>
    obtain ⟨binding,hstored⟩ := Store.loadState_eq_ok.mp hload
    have hrow := hrecords.stored.symm.trans hstored
    simp only [Option.some.injEq,ProtocolRow.mk.injEq] at hrow
    obtain ⟨rfl,rfl⟩ := hrow
    exact same hrecords hidentified

theorem mempool {overlay : List MempoolRow} (h : Tracks P headerOf db memory) :
    Tracks P headerOf { db with mempoolOverlay := overlay } memory := by
  cases h with
  | tracks kept dropped hrecords hidentified hshort hmemory =>
    exact .tracks kept dropped hrecords.mempool hidentified hshort hmemory

end Tracks

section Steps
variable {bestHeight : UInt64}

theorem catchUp_watched (worker : Ingestion) (h : Tracks P headerOf db worker.state) :
    Watched P headerOf chain db worker.state (worker.catchUp bestHeight).point :=
  Ingestion.catchUp_rule (fun _ _ _ _ _ => h) (fun _ _ _ => h) (fun _ => h) fun _ => h

theorem reconcileReorg_watched (worker : Ingestion) (h : Tracks P headerOf db worker.state)
    (hchain : HeaderChain headerOf chain) (hbest : bestHeight.toNat + 1 = chain.length) :
    Watched P headerOf chain db worker.state (worker.reconcileReorg bestHeight).point := by
  refine Ingestion.reconcileReorg_rule ?_ ?_ (fun _ => h) (fun _ => h) h
  · intro tipHeight htip _
    exact ⟨hbest,htip,h⟩
  · intro tipHeight tipHash htip hhash hlt
    refine ⟨hbest,h.stale hchain htip hhash ?_,h⟩
    intro header hget
    have hbound := (List.getElem?_eq_some_iff.mp hget).1
    have hnat := UInt64.lt_iff_toNat_lt.mp hlt
    omega

theorem reduceBlock_watched {worker : Ingestion} {height : UInt64} {block : BlockView}
    (h : Tracks P headerOf db worker.state) (hblock : headerOf block.hash = block.header) :
    Watched P headerOf chain db (worker.reduceBlock P bestHeight height block).state
      (worker.reduceBlock P bestHeight height block).point := by
  unfold Ingestion.reduceBlock
  split
  · next post delta happly =>
    have hbefore : delta.before = worker.state := (applyBlock_delta happly).1
    refine ⟨?_,block,hblock,?_⟩
    · rw [hbefore]
      exact h
    · rw [hbefore]
      exact happly
  · next post error happly =>
    rw [applyBlock_error happly]
    exact h
  · exact h
  · exact h

theorem compareTip_watched {worker : Ingestion} {tipHeight : UInt64} {found : Header}
    (hchain : HeaderChain headerOf chain)
    (h : Watched P headerOf chain db worker.state (.compareTip bestHeight tipHeight))
    (hfound : chain[tipHeight.toNat]? = some found) :
    Watched P headerOf chain db (worker.resume P (.compareTip bestHeight tipHeight) (some found.hash)).state
      (worker.resume P (.compareTip bestHeight tipHeight) (some found.hash)).point := by
  obtain ⟨hbest,htip,htracks⟩ := h
  simp only [Ingestion.resume]
  split
  · exact htracks
  · next tipHash hhash =>
    split
    · simpa using catchUp_watched worker htracks
    · next hdiffers =>
      rw [Ingestion.disconnect_state]
      refine Ingestion.disconnect_rule ?_ htracks
      intro _ _
      refine ⟨hbest,htracks.stale hchain htip hhash ?_,htracks⟩
      intro header hget
      obtain rfl : found = header := Option.some.inj (hfound.symm.trans hget)
      exact hdiffers

theorem rollbackTip_watched {worker : Ingestion} (hchain : HeaderChain headerOf chain)
    (reply : Point.Reply (.rollbackTip bestHeight))
    (h : Watched P headerOf chain db worker.state (.rollbackTip bestHeight))
    (hexchange : worker.Exchange db (.rollbackTip bestHeight) reply db')
    (hack : reply = none → db' = db) :
    Watched P headerOf chain db' (worker.resume P (.rollbackTip bestHeight) reply).state
      (worker.resume P (.rollbackTip bestHeight) reply).point := by
  obtain ⟨hbest,hstale,htracks⟩ := h
  rcases reply with _ | _ | restored
  · obtain rfl : db' = db := hack rfl
    exact htracks
  · rcases Store.rollbackTip_ok hexchange with ⟨_,_,_,_,_,rfl⟩ | ⟨_,_,_,_,_,_,_,_,hresult,_⟩
    · exact htracks
    · simp at hresult
  · have hrestored := htracks.rolledBack hexchange
    simp only [Ingestion.resume]
    split
    · simpa using catchUp_watched { worker with state := restored } hrestored
    · simpa using reconcileReorg_watched { worker with state := restored } hrestored hchain hbest

theorem writeMempool_watched {worker : Ingestion} {transactions : List TxView}
    (reply : Point.Reply (.writeMempool transactions)) (h : Tracks P headerOf db worker.state)
    (hexchange : worker.Exchange db (.writeMempool transactions) reply db') :
    Tracks P headerOf db' worker.state := by
  have hdb : db' = db ∨ db' = { db with mempoolOverlay := db'.mempoolOverlay } := by
    cases reply with
    | none => exact hexchange.imp_right Store.replaceMempool_ok
    | some u => exact Or.inr (Store.replaceMempool_ok hexchange)
  rcases hdb with rfl | hdb
  · exact h
  · rw [hdb]
    exact h.mempool

/-- Every step without an unacknowledged rollback keeps the assertion. -/
theorem watched_step {worker : Ingestion} (hchain : HeaderChain headerOf chain) (point : Point)
    (reply : point.Reply) (h : Watched P headerOf chain db worker.state point)
    (hexchange : worker.Exchange db point reply db')
    (hreports : ReportsAcknowledged chain point reply db db') :
    Watched P headerOf chain db' (worker.resume P point reply).state
      (worker.resume P point reply).point := by
  obtain ⟨hreports,hack⟩ := hreports
  cases point with
  | readStatus =>
    obtain rfl : db' = db := by cases reply <;> exact hexchange
    cases reply with
    | none => exact h
    | some status =>
      simp only [Ingestion.resume]
      split <;> exact h
  | readBestHeight =>
    cases reply with
    | none =>
      obtain rfl : db' = db := hexchange
      exact h
    | some bestHeight =>
      obtain rfl : db' = db := hexchange
      simpa [Ingestion.resume] using reconcileReorg_watched worker h hchain hreports
  | compareTip bestHeight tipHeight =>
    cases reply with
    | none =>
      obtain rfl : db' = db := hexchange
      exact h.2.2
    | some hash =>
      obtain rfl : db' = db := hexchange
      obtain ⟨found,hfound,rfl⟩ := hreports
      exact compareTip_watched hchain h hfound
  | rollbackTip bestHeight =>
    apply rollbackTip_watched hchain reply h hexchange
    rintro rfl
    exact hack
  | locateInit bestHeight =>
    obtain rfl : db' = db := by cases reply <;> exact hexchange
    rcases reply with _ | _ | height
    · exact h
    · exact h
    · simp only [Ingestion.resume,Ingestion.forHeights_state]
      exact Ingestion.forHeights_rule (fun _ => h) fun _ => h
  | fetchBlock bestHeight height =>
    cases reply with
    | none =>
      obtain rfl : db' = db := hexchange
      exact h
    | some block =>
      obtain rfl : db' = db := hexchange
      have hblock := hchain.identified block.header (List.mem_of_getElem? hreports)
      exact reduceBlock_watched h hblock
  | commitBlock bestHeight height delta =>
    obtain ⟨htracks,block,hblock,happly⟩ := h
    cases reply with
    | none =>
      rcases hexchange with rfl | hstore
      · exact htracks
      · exact (htracks.applied hblock happly hstore).2
    | some u =>
      have hnext := (htracks.applied hblock happly hexchange).1
      simp only [Ingestion.resume]
      split <;> exact hnext
  | reloadState delta =>
    cases reply with
    | none =>
      obtain rfl : db' = db := hexchange
      exact h
    | some state =>
      obtain ⟨rfl,hload⟩ := hexchange
      exact Tracks.loaded h hload
  | readMempool =>
    obtain rfl : db' = db := by cases reply <;> exact hexchange
    cases reply <;> exact h
  | writeMempool transactions =>
    have htracks := writeMempool_watched reply h hexchange
    cases reply <;> exact htracks
  | starting =>
    obtain rfl : db' = db := hexchange
    exact h
  | finished result =>
    obtain rfl : db' = db := hexchange
    cases result <;> exact h
  | waiting =>
    obtain rfl : db' = db := hexchange
    exact h
  | panicked => cases reply

end Steps

/-- The chain and the assertion hold in every setting of a run. -/
theorem watched_run {start setting : Setting} (hchain : HeaderChain headerOf start.chain)
    (hstart : Watched P headerOf start.chain start.database start.worker.state start.worker.point)
    (h : Relation.ReflTransGen (Setting.Step P headerOf ReportsAcknowledged) start setting) :
    HeaderChain headerOf setting.chain ∧ Watched P headerOf setting.chain setting.database
      setting.worker.state setting.worker.point := by
  induction h with
  | refl => exact ⟨hchain,hstart⟩
  | tail _ hstep ih =>
    obtain ⟨hbefore,hwatched⟩ := ih
    cases hstep with
    | worked hstep =>
      cases hstep with
      | step point reply hpoint hexchange hreports =>
        exact ⟨hbefore,watched_step hbefore point reply (hpoint ▸ hwatched) hexchange hreports⟩
    | switched hwaiting hnext =>
      refine ⟨hnext,?_⟩
      simp only [hwaiting] at hwatched ⊢
      exact hwatched

/-- A worker that connects is in step with the database. -/
theorem connected_tracks {binding : Binding} {state : ChainState}
    (hdb : Committed P (fun block => headerOf block.hash = block.header) db)
    (h : Store.bindOrLoad P db binding = ok (db',state)) : Tracks P headerOf db' state := by
  have hbound : Committed P (fun block => headerOf block.hash = block.header) db' := hdb.tail (.bound h)
  have hstored : db'.protocolState = some ⟨binding,state⟩ := by
    rcases Store.bindOrLoad_ok h with ⟨hrow,rfl⟩ | ⟨_,_,rfl⟩
    · exact hrow
    · rfl
  obtain ⟨blocks,deltas,hrecords,hidentified⟩ := hbound.sound.records hstored
  exact .same hrecords hidentified

/-- As long as no rollback was committed and reported as failed, whatever the transaction of
`rollback_tip` deletes is not on the chain against which the tip was compared. -/
theorem rollback_only_stale {binding : Binding} {state : ChainState} {release : ReleaseIdentity}
    {start : Database} {setting : Setting} {bestHeight : UInt64} {result : Option ChainState}
    (hdb : Committed P (fun block => headerOf block.hash = block.header) start)
    (hconnect : Store.bindOrLoad P start binding = ok (db,state)) (hchain : HeaderChain headerOf chain)
    (hrun : Relation.ReflTransGen (Setting.Step P headerOf ReportsAcknowledged)
      ⟨db,Ingestion.new state release,chain⟩ setting)
    (hpoint : setting.worker.point = .rollbackTip bestHeight)
    (hroll : Store.rollbackTip setting.database = ok (db',result)) :
    ∀ row ∈ setting.database.canonicalBlocks, row ∉ db'.canonicalBlocks →
      ∀ header ∈ setting.chain, header.hash ≠ row.blockHash := by
  have hstart : Watched P headerOf chain db (Ingestion.new state release).state
      (Ingestion.new state release).point := connected_tracks hdb hconnect
  obtain ⟨hcurrent,hwatched⟩ := watched_run hchain hstart hrun
  rw [hpoint] at hwatched
  obtain ⟨_,hstale,htracks⟩ := hwatched
  intro row hrow hgone
  exact htracks.removed hcurrent hstale hroll hrow hgone

/-- A run of the worker against one chain is a run of the setting. -/
theorem Setting.worked_run (headerOf : Hash32 → Header) {permits : List Header → Permits}
    {config config' : Database × Ingestion}
    (h : Relation.ReflTransGen (Ingestion.Step P (permits chain)) config config') :
    Relation.ReflTransGen (Setting.Step P headerOf permits) ⟨config.1,config.2,chain⟩
      ⟨config'.1,config'.2,chain⟩ := by
  induction h with
  | refl => exact .refl
  | tail _ hstep ih => exact ih.tail (.worked hstep)

theorem Truthful.reports {initTxid : Hash32} {blocks : List BlockView} (point : Point)
    (reply : point.Reply) (h : Truthful initTxid blocks point reply db db') :
    Reports (blocks.map BlockView.header) point reply db db' := by
  cases point with
  | readBestHeight =>
    cases reply with
    | none => trivial
    | some bestHeight => simpa [Reports,Truthful] using h
  | compareTip bestHeight tipHeight =>
    cases reply with
    | none => trivial
    | some hash =>
      obtain ⟨block,hget,hhash⟩ := h
      exact ⟨block.header,by simp [hget],hhash⟩
  | fetchBlock bestHeight height =>
    cases reply with
    | none => trivial
    | some block =>
      have hget : blocks[height.toNat]? = some block := h
      simp [Reports,hget]
  | _ => trivial

theorem Setting.Step.forget {before after : Setting}
    (h : Setting.Step P headerOf ReportsAcknowledged before after) :
    Setting.Step P headerOf Reports before after := by
  cases h with
  | worked h =>
    cases h with
    | step point reply hpoint hexchange hreports =>
      exact .worked (.step point reply hpoint hexchange hreports.1)
  | switched hwaiting hchain => exact .switched hwaiting hchain

/-- A best chain of blocks has a best chain of headers. -/
theorem BestChain.headers {views : Hash32 → BlockView} {initTxid : Hash32} {blocks : List BlockView}
    (h : BestChain views initTxid blocks) :
    HeaderChain (fun hash => (views hash).header) (blocks.map BlockView.header) := by
  refine ⟨⟨?_,?_⟩,?_⟩
  · rw [List.isChain_map]
    exact h.rooted.linked
  · intro header hheader
    rw [List.head?_map] at hheader
    obtain ⟨block,hblock,rfl⟩ := Option.map_eq_some_iff.mp hheader
    exact h.rooted.origin block hblock
  · intro header hheader
    obtain ⟨block,hblock,rfl⟩ := List.mem_map.mp hheader
    exact congrArg BlockView.header (h.viewed block hblock)

/-- The worker at the first call of the pass that follows a finished one. -/
def Ingestion.nextPass (P : Primitives) (worker : Ingestion) (result : Except PassError Unit) : Ingestion :=
  ((worker.resume P (.finished result) ()).resume P .waiting ()).resume P .starting ()

/-- Between two passes the worker makes no call, and the chain may change. -/
theorem Setting.nextPass {permits : List Header → Permits} {worker : Ingestion}
    {chain' : List Header} {result : Except PassError Unit} (hpoint : worker.point = .finished result)
    (hchain : HeaderChain headerOf chain')
    (hidle : ∀ chain, permits chain (.finished result) () db db ∧ permits chain .waiting () db db ∧
      permits chain .starting () db db) :
    Relation.ReflTransGen (Setting.Step P headerOf permits) ⟨db,worker,chain⟩
      ⟨db,worker.nextPass P result,chain'⟩ := by
  have hwaiting : (worker.resume P (.finished result) ()).point = .waiting := by
    cases result <;> rfl
  have hreport : Setting.Step P headerOf permits ⟨db,worker,chain⟩
      ⟨db,worker.resume P (.finished result) (),chain⟩ :=
    .worked (.step (.finished result) () hpoint rfl (hidle chain).1)
  have hwake : Setting.Step P headerOf permits ⟨db,worker.resume P (.finished result) (),chain'⟩
      ⟨db,(worker.resume P (.finished result) ()).resume P .waiting (),chain'⟩ :=
    .worked (.step .waiting () hwaiting rfl (hidle chain').2.1)
  have hstart : Setting.Step P headerOf permits
      ⟨db,(worker.resume P (.finished result) ()).resume P .waiting (),chain'⟩
      ⟨db,worker.nextPass P result,chain'⟩ :=
    .worked (.step .starting () rfl rfl (hidle chain').2.2)
  exact (((Relation.ReflTransGen.single hreport).tail (.switched hwaiting hchain)).tail hwake).tail hstart

/-- An execution in which nothing is committed without being acknowledged. -/
theorem acknowledged_meets {source : Source} {fate : Fate} (h : fate ≠ .unacknowledged) :
    Ingestion.Meets source Acknowledged fate := by
  intro worker db db' point reply hrespond
  cases point with
  | rollbackTip bestHeight =>
    cases reply with
    | some result => trivial
    | none =>
      have hsettle := Option.some.inj hrespond
      unfold Ingestion.settle at hsettle
      split at hsettle
      · simp at hsettle
      · exact absurd rfl h
      · exact (Prod.mk.inj hsettle).2.symm
  | _ => trivial

section Sample

def sampleHeader (hash : Hash32) : Header := (sampleViews hash).header

def afterRollback (db : Database) : Option (List Hash32) :=
  match Store.rollbackTip db with
  | .ok (db',_) => some (storedHashes db')
  | _ => none

/-- The left branch is stored, the node has switched and the pass awaits the rollback. -/
def staleTip : Option (Database × Ingestion) :=
  leftPass.bind fun config => Ingestion.simulate bitcoinPrimitives (sampleNode rightChain)
    (List.replicate 3 .acknowledged) (config.1,config.2.nextPass bitcoinPrimitives (.ok ()))

set_option maxRecDepth 10000 in
theorem staleTip_eq : staleTip.map (fun config =>
    (config.2.point,storedHashes config.1,afterRollback config.1)) =
      some (.rollbackTip 2,[sampleHash 1,sampleHash 30],some [sampleHash 1]) := by
  decide +kernel

/-- That rollback commits but is reported as failed. -/
def lostRollback : Option (Database × Ingestion) :=
  staleTip.bind (Ingestion.simulate bitcoinPrimitives (sampleNode rightChain) [.unacknowledged])

/-- The next pass against the same chain. -/
def wrongTip : Option (Database × Ingestion) :=
  lostRollback.bind fun config => Ingestion.simulate bitcoinPrimitives (sampleNode rightChain)
    (List.replicate 3 .acknowledged) (config.1,config.2.nextPass bitcoinPrimitives (.error .store))

set_option maxRecDepth 10000 in
theorem lostRollback_eq : lostRollback.map (fun config => config.2.point) =
    some (.finished (.error .store)) := by
  decide +kernel

set_option maxRecDepth 10000 in
theorem wrongTip_eq : wrongTip.map (fun config =>
    (config.2.point,storedHashes config.1,afterRollback config.1)) =
      some (.rollbackTip 2,[sampleHash 1],some []) := by
  decide +kernel

theorem afterRollback_eq_some {db : Database} {hashes : List Hash32} (h : afterRollback db = some hashes) :
    ∃ db' result, Store.rollbackTip db = ok (db',result) ∧ storedHashes db' = hashes := by
  unfold afterRollback at h
  split at h
  · next db' result hroll => exact ⟨db',result,hroll,Option.some.inj h⟩
  · simp at h

theorem sampleNode_reports {chain : List BlockView} (h : chain = leftChain ∨ chain = rightChain)
    (fate : Fate) : Ingestion.Meets (sampleNode chain) (Reports (chain.map BlockView.header)) fate :=
  fun worker db db' point reply hrespond =>
    Truthful.reports point reply (sampleNode_truthful h fate worker db db' point reply hrespond)

theorem sampleNode_acknowledged {chain : List BlockView} (h : chain = leftChain ∨ chain = rightChain)
    {fate : Fate} (hfate : fate ≠ .unacknowledged) :
    Ingestion.Meets (sampleNode chain) (ReportsAcknowledged (chain.map BlockView.header)) fate :=
  fun worker db db' point reply hrespond =>
    ⟨sampleNode_reports h fate worker db db' point reply hrespond,
      acknowledged_meets hfate worker db db' point reply hrespond⟩

/-- The setting in which the first pass of the worker starts. -/
def sampleSetting : Setting := ⟨sampleBound,sampleWorker,leftChain.map BlockView.header⟩

/-- The stale tip is reached by acknowledged steps. -/
theorem staleTip_run {config : Database × Ingestion} (h : staleTip = some config) :
    Relation.ReflTransGen (Setting.Step bitcoinPrimitives sampleHeader ReportsAcknowledged) sampleSetting
      ⟨config.1,config.2,rightChain.map BlockView.header⟩ := by
  obtain ⟨middle,hleft,hright⟩ := Option.bind_eq_some_iff.mp h
  have hpoint := leftPass_eq
  rw [hleft] at hpoint
  simp only [Option.map_some,Option.some.injEq,Prod.mk.injEq] at hpoint
  have hfirst := Ingestion.simulate_run (fun fate hfate => sampleNode_acknowledged (Or.inl rfl)
    (List.eq_of_mem_replicate hfate ▸ by decide)) hleft
  have hsecond := Ingestion.simulate_run (fun fate hfate => sampleNode_acknowledged (Or.inr rfl)
    (List.eq_of_mem_replicate hfate ▸ by decide)) hright
  have hswitch : Relation.ReflTransGen
      (Setting.Step bitcoinPrimitives sampleHeader ReportsAcknowledged)
      ⟨middle.1,middle.2,leftChain.map BlockView.header⟩
      ⟨middle.1,middle.2.nextPass bitcoinPrimitives (.ok ()),rightChain.map BlockView.header⟩ :=
    Setting.nextPass hpoint.1 rightChain_best.headers
      fun _ => ⟨⟨trivial,trivial⟩,⟨trivial,trivial⟩,trivial,trivial⟩
  exact ((Setting.worked_run sampleHeader hfirst).trans hswitch).trans (Setting.worked_run sampleHeader hsecond)

theorem sample_rollback_only_stale : ∃ (setting : Setting) (db' : Database) (row : BlockRow),
    setting.chain = rightChain.map BlockView.header ∧ row ∈ setting.database.canonicalBlocks ∧
      row ∉ db'.canonicalBlocks ∧ row.blockHash = sampleHash 30 ∧
      ∀ header ∈ setting.chain, header.hash ≠ row.blockHash := by
  obtain ⟨config,hconfig,hobserved⟩ := Option.map_eq_some_iff.mp staleTip_eq
  simp only [Prod.mk.injEq] at hobserved
  obtain ⟨hpoint,hbefore,hafter⟩ := hobserved
  obtain ⟨db',result,hroll,hleft⟩ := afterRollback_eq_some hafter
  have hmem : sampleHash 30 ∈ storedHashes config.1 := by
    rw [hbefore]
    simp
  obtain ⟨row,hrow,hhash⟩ := List.mem_map.mp hmem
  have hgone : row ∉ db'.canonicalBlocks := by
    intro hkept
    have hkeptHash : row.blockHash ∈ storedHashes db' := List.mem_map_of_mem hkept
    rw [hleft,hhash] at hkeptHash
    exact absurd hkeptHash (by decide)
  have hconnect : Store.bindOrLoad bitcoinPrimitives sampleBound sampleBinding =
      ok (sampleBound,sampleNew) := by
    simp [Store.bindOrLoad,sampleBound,bind_eq_ok]
  have hstale := rollback_only_stale sampleBound_committed hconnect leftChain_best.headers
    (staleTip_run hconfig) hpoint hroll row hrow hgone
  exact ⟨_,db',row,rfl,hrow,hgone,hhash,hstale⟩

/-- After an unacknowledged rollback the next pass removes the INIT block, which is on the
chain that the node has had since before that rollback. -/
theorem sample_rollback_on_chain : ∃ (setting : Setting) (db' : Database) (result : Option ChainState)
    (row : BlockRow) (header : Header),
    Relation.ReflTransGen (Setting.Step bitcoinPrimitives sampleHeader Reports) sampleSetting setting ∧
      setting.worker.point = .rollbackTip 2 ∧
      Store.rollbackTip setting.database = ok (db',result) ∧
      row ∈ setting.database.canonicalBlocks ∧ row ∉ db'.canonicalBlocks ∧
      header ∈ setting.chain ∧ header.hash = row.blockHash := by
  obtain ⟨config,hconfig,hobserved⟩ := Option.map_eq_some_iff.mp wrongTip_eq
  simp only [Prod.mk.injEq] at hobserved
  obtain ⟨hpoint,hbefore,hafter⟩ := hobserved
  obtain ⟨db',result,hroll,hleft⟩ := afterRollback_eq_some hafter
  obtain ⟨lost,hlost,hnext⟩ := Option.bind_eq_some_iff.mp hconfig
  obtain ⟨stale,hstale,hrollback⟩ := Option.bind_eq_some_iff.mp hlost
  have hfinished := lostRollback_eq
  rw [hlost] at hfinished
  simp only [Option.map_some,Option.some.injEq] at hfinished
  have hreports : ∀ (fates : List Fate), ∀ fate ∈ fates, Ingestion.Meets (sampleNode rightChain)
      (Reports (rightChain.map BlockView.header)) fate :=
    fun _ fate _ => sampleNode_reports (Or.inr rfl) fate
  have hfirst := Relation.ReflTransGen.mono (fun _ _ => Setting.Step.forget) _ _ (staleTip_run hstale)
  have hsecond := Setting.worked_run sampleHeader (Ingestion.simulate_run (hreports _) hrollback)
  have hswitch : Relation.ReflTransGen (Setting.Step bitcoinPrimitives sampleHeader Reports)
      ⟨lost.1,lost.2,rightChain.map BlockView.header⟩
      ⟨lost.1,lost.2.nextPass bitcoinPrimitives (.error .store),rightChain.map BlockView.header⟩ :=
    Setting.nextPass hfinished rightChain_best.headers fun _ => ⟨trivial,trivial,trivial⟩
  have hthird := Setting.worked_run sampleHeader (Ingestion.simulate_run (hreports _) hnext)
  have hmem : sampleHash 1 ∈ storedHashes config.1 := by
    rw [hbefore]
    simp
  obtain ⟨row,hrow,hhash⟩ := List.mem_map.mp hmem
  have hempty : db'.canonicalBlocks = [] := List.map_eq_nil_iff.mp hleft
  refine ⟨⟨config.1,config.2,rightChain.map BlockView.header⟩,db',result,row,earlyBlock.header,
    ((hfirst.trans hsecond).trans hswitch).trans hthird,hpoint,hroll,hrow,by simp [hempty],?_,?_⟩
  · simp [rightChain]
  · rw [hhash]
    rfl

end Sample
end TandemVerifier
