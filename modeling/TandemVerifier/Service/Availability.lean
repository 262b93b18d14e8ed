import TandemVerifier.Reduction.Phase
import TandemVerifier.Service.EventKeys
import TandemVerifier.Service.Writers

/-! # The store accepts what the reducer returns

A transaction of the store fails on a constraint, on a height beyond `bigint` or on a
journal that does not fit. On the tables that committed transactions leave behind none of
these checks fires for a block that extends the stored run: the tables can follow every
run of the reducer, and every stored block can be taken back.
-/
namespace TandemVerifier
open Library Library.Outcome Library.Table
variable {P : Primitives} {good : BlockView → Prop} {db db' : Database} {binding : Binding}
variable {state post : ChainState} {delta : BlockDelta} {release : ReleaseIdentity}
variable {block : BlockView} {blocks : List BlockView} {deltas : List BlockDelta}

/-- Every object of a run was created at or below its tip. -/
theorem applyBlocks_created (h : applyBlocks P (ChainState.new P binding) blocks = some (state,deltas))
    {key : Hash32} {object : ObjectState} (hobject : state.objects[key]? = some object) :
    ∃ tip, state.tipHeight = some tip ∧ object.createHeight.toNat ≤ tip.toNat := by
  have hphase := PhaseState.new.applyBlocks h
  cases hstatus : state.protocolStatus with
  | active initHeight hOpen hClose =>
    obtain ⟨tip,htip,hopened⟩ := hphase.opened initHeight hOpen hClose hstatus
    exact ⟨tip,htip,(hopened key object hobject).reached⟩
  | awaitingInit =>
    have hempty := (hphase.idle (by simp [hstatus])).1
    simp [hempty] at hobject
  | failedInit reason initHeight =>
    have hempty := (hphase.idle (by simp [hstatus])).1
    simp [hempty] at hobject

/-- The object projection of a run can be written. -/
theorem syncObjects_run (h : applyBlocks P (ChainState.new P binding) blocks = some (state,deltas))
    (hbound : ∀ tip, state.tipHeight = some tip → tip.toNat < 2 ^ 63) :
    Store.syncObjects db state =
      ok { db with canonicalObjects := state.objectValues.map storedObject } := by
  have hkeyed := applyBlocks_keyed h
  have hvalues : ∀ object ∈ state.objectValues, ∃ key : Hash32, state.objects[key]? = some object := by
    intro object hmem
    obtain ⟨⟨key,value⟩,hentry,rfl⟩ := List.mem_map.mp hmem
    exact ⟨key,Std.ExtTreeMap.mem_toList_iff_getElem?_eq_some.mp hentry⟩
  have hnodup : (state.objectValues.map ObjectState.objectKey).Nodup := by
    have hkeys : state.objectValues.map ObjectState.objectKey = state.objects.toList.map Prod.fst := by
      rw [ChainState.objectValues,List.map_map]
      apply List.map_congr_left
      rintro ⟨key,value⟩ hentry
      exact hkeyed key value (Std.ExtTreeMap.mem_toList_iff_getElem?_eq_some.mp hentry)
    rw [hkeys,Std.ExtTreeMap.map_fst_toList_eq_keys]
    exact Std.ExtTreeMap.nodup_keys
  have hrows : insertEach (unique ObjectRow.objectKey) (StoreError.constraint .canonicalObjects)
      (fun object : ObjectState => do
        let height ← Store.toI64 object.createHeight
        pure (Store.objectRow object height)) [] state.objectValues =
      ok (state.objectValues.map storedObject) := by
    refine insertEach_distinct storedObject ?_ hnodup
    intro object hobject
    obtain ⟨key,hget⟩ := hvalues object hobject
    obtain ⟨tip,htip,hle⟩ := applyBlocks_created h hget
    have htipBound := hbound tip htip
    rw [Store.toI64_eq_ok.mpr ⟨by omega,rfl⟩]
    rfl
  rw [Store.syncObjects,hrows]
  rfl

theorem Records.eventsReferenced (h : Records P db binding state blocks deltas) : EventsReferenced db := by
  intro row hrow
  rw [h.events] at hrow
  obtain ⟨delta,hdelta,hmem⟩ := List.mem_flatMap.mp hrow
  obtain ⟨event,hevent,rfl⟩ := List.mem_map.mp hmem
  rw [← h.journal] at hdelta
  obtain ⟨stored,hstored,rfl⟩ := List.mem_map.mp hdelta
  refine ⟨stored,hstored,?_⟩
  have hin : stored.inverseDelta ∈ deltas := h.journal ▸ List.mem_map_of_mem hstored
  rw [h.rows stored hstored]
  change stored.inverseDelta.height.toInt64 = event.height.toInt64
  rw [applyBlocks_event_height h.run hin event hevent]

theorem Records.row_header (h : Records P db binding state blocks deltas) :
    db.canonicalBlocks.map (fun row => row.inverseDelta.header) = blocks.map BlockView.header := by
  rw [← applyBlocks_headers h.run,← h.journal,List.map_map]
  rfl

/-- The journals of the rows are the deltas of every run that the tables describe. -/
theorem Canonical.journal (h : Canonical P db binding state blocks deltas) :
    db.canonicalBlocks.map BlockRow.inverseDelta = deltas := by
  have hlength : deltas.length = db.canonicalBlocks.length := by
    have hheaders := congrArg List.length (applyBlocks_headers h.run)
    rw [List.length_map,List.length_map] at hheaders
    rw [hheaders,h.paired]
  apply List.ext_getElem (by simp [hlength])
  intro i hi hj
  have hrow : i < db.canonicalBlocks.length := by simpa using hi
  have hdelta := (h.rows i _ (List.getElem?_eq_getElem hrow)).1
  rw [List.getElem?_eq_getElem hj,Option.some.injEq] at hdelta
  simp [hdelta]

theorem Records.row_of_block (h : Records P db binding state blocks deltas) (hblock : block ∈ blocks) :
    ∃ row ∈ db.canonicalBlocks, row.blockHash = block.hash := by
  have hheader : block.header ∈ db.canonicalBlocks.map fun row => row.inverseDelta.header :=
    h.row_header ▸ List.mem_map_of_mem hblock
  obtain ⟨row,hrow,heq⟩ := List.mem_map.mp hheader
  refine ⟨row,hrow,?_⟩
  rw [h.rows row hrow]
  exact congrArg Header.hash heq

theorem Records.block_of_row (h : Records P db binding state blocks deltas) {row : BlockRow}
    (hrow : row ∈ db.canonicalBlocks) : ∃ block ∈ blocks, row.blockHash = block.hash := by
  have hheader : row.inverseDelta.header ∈ blocks.map BlockView.header :=
    h.row_header ▸ List.mem_map_of_mem hrow
  obtain ⟨block,hblock,heq⟩ := List.mem_map.mp hheader
  refine ⟨block,hblock,?_⟩
  rw [h.rows row hrow]
  exact (congrArg Header.hash heq).symm

/-- A block above the stored run takes a height that no row has. -/
theorem Records.row_fresh (h : Records P db binding state blocks deltas)
    (happly : applyBlock P state block = ok (post,.ok delta)) {row : BlockRow}
    (hrow : row ∈ db.canonicalBlocks) : row.height ≠ delta.height.toInt64 := by
  have hnext : applyBlocks P (ChainState.new P binding) (blocks ++ [block]) =
      some (post,deltas ++ [delta]) := applyBlocks_concat.mpr ⟨_,_,_,h.run,happly,rfl⟩
  have hin : row.inverseDelta ∈ deltas := h.journal ▸ List.mem_map_of_mem hrow
  rw [h.rows row hrow]
  intro hsame
  have hlower := (List.pairwise_append.mp (applyBlocks_heights hnext)).2.2 row.inverseDelta hin delta
    (by simp)
  rw [Store.toInt64_injective hsame] at hlower
  exact UInt64.lt_irrefl _ hlower

/-- A block that extends the stored run under a new hash is committed. -/
theorem Records.applyBlock_commits (h : Records P db binding state blocks deltas)
    (happly : applyBlock P state block = ok (post,.ok delta)) (hbound : block.height.toNat < 2 ^ 63)
    (hfresh : ∀ row ∈ db.canonicalBlocks, row.blockHash ≠ block.hash) (hrelease : release.Storable) :
    ∃ db', Store.applyBlock db post delta release = ok db' := by
  obtain ⟨hbefore,hhash,_,hheight,_,htipHeight,htipHash⟩ := applyBlock_delta happly
  have hnext : applyBlocks P (ChainState.new P binding) (blocks ++ [block]) =
      some (post,deltas ++ [delta]) := applyBlocks_concat.mpr ⟨_,_,_,h.run,happly,rfl⟩
  have hdelta : delta.height.toNat < 2 ^ 63 := by rwa [hheight]
  have hload : Store.loadState db = ok delta.before :=
    Store.loadState_eq_ok.mpr ⟨binding,hbefore ▸ h.stored⟩
  have hblock := insertBlock_fresh_ok hdelta hrelease fun row hrow =>
    ⟨h.row_fresh happly hrow,hhash ▸ hfresh row hrow⟩
  have hevents := insertEvents_ordered (applyBlock_ordered happly).1 (applyBlock_event_height happly)
    h.eventsReferenced hblock
  have htip : ∀ tip, post.tipHeight = some tip → tip.toNat < 2 ^ 63 := by
    intro tip heq
    rw [htipHeight] at heq
    exact Option.some.inj heq ▸ hbound
  rw [Store.applyBlock,htipHeight,htipHash,hheight,hhash,hload]
  simp only [bne_self_eq_false,failIf,Bool.false_eq_true,if_false,ok_bind]
  rw [hblock,ok_bind,hevents,ok_bind,syncObjects_run hnext htip]
  exact ⟨_,rfl⟩

theorem Records.stored_tip (h : Records P db binding state blocks deltas) {tip : UInt64}
    (htip : state.tipHeight = some tip) : tip.toNat < 2 ^ 63 := by
  rw [(applyBlocks_tip h.run).1] at htip
  obtain ⟨last,hlast,rfl⟩ := Option.map_eq_some_iff.mp htip
  have hheader : last.header ∈ deltas.map BlockDelta.header := by
    rw [applyBlocks_headers h.run]
    exact List.mem_map_of_mem (List.mem_of_getLast? hlast)
  obtain ⟨delta,hdelta,heq⟩ := List.mem_map.mp hheader
  have hheight : delta.height = last.height := congrArg Header.height heq
  exact hheight ▸ h.bounded delta hdelta

/-- The last stored block can be rolled back. -/
theorem Records.rollbackTip_commits {earlier : List BlockView}
    (h : Records P db binding state (earlier ++ [block]) deltas) :
    ∃ db' restored, Store.rollbackTip db = ok (db',some restored) := by
  obtain ⟨middle,first,delta,hfirst,happly,rfl⟩ := applyBlocks_concat.mp h.run
  obtain ⟨hbefore,hhash,_,hheight,_,htipHeight,htipHash⟩ := applyBlock_delta happly
  obtain ⟨rows,row,_,_,hrow,hfind,_⟩ := h.last_row
  have hload : Store.loadState db = ok state := Store.loadState_eq_ok.mpr ⟨binding,h.stored⟩
  have hbound := h.stored_tip htipHeight
  rw [hheight] at hfind
  have hdisconnect : disconnectBlock state row.inverseDelta = (middle,.ok ()) := by
    rw [disconnectBlock,hrow,hhash,hheight,hbefore,htipHeight,htipHash]
    simp
  -- the restored state is that of the run below, whose tip is stored as well
  have hbelow : ∀ tip, middle.tipHeight = some tip → tip.toNat < 2 ^ 63 := by
    intro tip htip
    have hnext := (validateLinkage_ok (applyBlock_ok happly).1 htip).1
    omega
  have hrestored : ∃ value, Store.restoredHeight middle = ok value := by
    cases htip : middle.tipHeight with
    | none => exact ⟨none,by rw [Store.restoredHeight,htip]; rfl⟩
    | some tip =>
      refine ⟨some tip.toInt64,?_⟩
      rw [Store.restoredHeight,htip]
      simp only [Store.toI64_eq_ok.mpr ⟨hbelow tip htip,rfl⟩,ok_bind,pure_eq_ok]
  obtain ⟨value,hvalue⟩ := hrestored
  rw [Store.rollbackTip,hload,ok_bind,htipHeight]
  simp only [Store.toI64_eq_ok.mpr ⟨hbound,rfl⟩,ok_bind,hfind,okOr,hdisconnect,
    syncObjects_run hfirst hbelow,hvalue,pure_eq_ok]
  exact ⟨_,_,rfl⟩

theorem applyBlock_admitted (h : Store.applyBlock db post delta release = ok db') :
    delta.height.toNat < 2 ^ 63 ∧ (∀ row ∈ db.canonicalBlocks, row.blockHash ≠ delta.blockHash) ∧
      release.Storable := by
  simp only [Store.applyBlock,bind_eq_ok] at h
  obtain ⟨_,_,_,_,_,_,_,_,_,hinsert,_⟩ := h
  simp only [Store.insertBlock,bind_eq_ok,Store.toI64_eq_ok,insertRow_eq_ok,Store.blockAdmitted,
    Bool.and_eq_true] at hinsert
  obtain ⟨_,⟨hbound,rfl⟩,_,⟨⟨⟨⟨_,hhash⟩,hparser⟩,hindexer⟩,_⟩,_⟩ := hinsert
  refine ⟨hbound,?_,hparser,hindexer⟩
  intro row hrow
  exact of_decide_eq_true (List.all_eq_true.mp hhash row hrow)

/-- Whoever has reduced a block on whatever state, his transaction commits exactly when that
state is the stored one, the block is new and the columns can hold it; and exactly the
stored blocks can be rolled back, one after another down to the empty run. -/
theorem store_commits_exactly (h : Committed P good db) {row : ProtocolRow}
    (hrow : db.protocolState = some row) :
    (∀ before block post delta release, applyBlock P before block = ok (post,.ok delta) →
      ((∃ db', Store.applyBlock db post delta release = ok db') ↔
        before = row.state ∧ block.height.toNat < 2 ^ 63 ∧
          (∀ stored ∈ db.canonicalBlocks, stored.blockHash ≠ block.hash) ∧ release.Storable)) ∧
    ((∃ db' restored, Store.rollbackTip db = ok (db',some restored)) ↔ db.canonicalBlocks ≠ []) ∧
    (db.canonicalBlocks = [] → Store.rollbackTip db = ok (db,none)) := by
  obtain ⟨blocks,deltas,hrecords,_⟩ := h.sound.records hrow
  refine ⟨?_,?_,?_⟩
  · intro before block post delta release happly
    obtain ⟨_,hhash,_,hheight,_⟩ := applyBlock_delta happly
    constructor
    · rintro ⟨db',hstore⟩
      obtain ⟨hbound,hfresh,hrelease⟩ := applyBlock_admitted hstore
      exact ⟨(hrecords.applied happly hstore).1,hheight ▸ hbound,hhash ▸ hfresh,hrelease⟩
    · rintro ⟨rfl,hbound,hfresh,hrelease⟩
      exact hrecords.applyBlock_commits happly hbound hfresh hrelease
  · constructor
    · rintro ⟨db',restored,hroll⟩ hempty
      obtain ⟨_,_,_,_,last,_,_,_,hlast,_⟩ := hrecords.rolledBack hroll
      simp [hempty] at hlast
    · intro hne
      cases blocks using List.reverseRecOn with
      | nil =>
        have hrun := hrecords.run
        have hjournal := hrecords.journal
        simp only [applyBlocks,Option.some.injEq,Prod.mk.injEq] at hrun
        rw [← hrun.2,List.map_eq_nil_iff] at hjournal
        exact absurd hjournal hne
      | append_singleton earlier block => exact hrecords.rollbackTip_commits
  · intro hempty
    have hjournal := hrecords.journal
    rw [hempty,List.map_nil] at hjournal
    have hlength := congrArg List.length (applyBlocks_headers hrecords.run)
    rw [← hjournal] at hlength
    obtain rfl : blocks = [] := by simpa using hlength.symm
    have htip := (applyBlocks_tip hrecords.run).1
    have hload : Store.loadState db = ok row.state := Store.loadState_eq_ok.mpr ⟨_,hrecords.stored⟩
    rw [Store.rollbackTip,hload,ok_bind,htip]
    rfl

/-- Every run of the reducer can be stored block by block. -/
theorem Records.exists_run (hrun : applyBlocks P (ChainState.new P binding) blocks = some (state,deltas))
    (hgood : ∀ block ∈ blocks, good block) (hbound : ∀ block ∈ blocks, block.height.toNat < 2 ^ 63)
    (hhashes : (blocks.map BlockView.hash).Nodup) (hrelease : release.Storable) :
    ∃ db, Committed P good db ∧ Records P db binding state blocks deltas := by
  induction blocks using List.reverseRecOn generalizing state deltas with
  | nil =>
    simp only [applyBlocks,Option.some.injEq,Prod.mk.injEq] at hrun
    obtain ⟨rfl,rfl⟩ := hrun
    have hbind : Store.bindOrLoad P Database.empty binding =
        ok ({ Database.empty with protocolState := some ⟨binding,ChainState.new P binding⟩ },
          ChainState.new P binding) := rfl
    exact ⟨_,.single (.bound hbind),Records.new ⟨rfl,rfl,rfl,rfl⟩⟩
  | append_singleton earlier block ih =>
    obtain ⟨middle,first,delta,hfirst,happly,rfl⟩ := applyBlocks_concat.mp hrun
    rw [List.map_append,List.map_singleton] at hhashes
    obtain ⟨db,hcommitted,hrecords⟩ := ih hfirst
      (fun other hother => hgood other (List.mem_append_left _ hother))
      (fun other hother => hbound other (List.mem_append_left _ hother)) hhashes.of_append_left
    have hfresh : ∀ row ∈ db.canonicalBlocks, row.blockHash ≠ block.hash := by
      intro row hrow hsame
      obtain ⟨other,hother,hhash⟩ := hrecords.block_of_row hrow
      exact List.disjoint_of_nodup_append hhashes (List.mem_map_of_mem hother) (by simp [← hhash,hsame])
    obtain ⟨db',hstore⟩ := hrecords.applyBlock_commits happly (hbound block (by simp)) hfresh hrelease
    exact ⟨db',hcommitted.tail (.applied (hgood block (by simp)) happly hstore),
      (hrecords.applied happly hstore).2⟩

section Sample

theorem sampleRelease_storable : sampleRelease.Storable := by
  constructor <;> decide

theorem sampleHash_inj {a b : ℕ} (ha : a < 256 ^ 32) (hb : b < 256 ^ 32) (h : sampleHash a = sampleHash b) :
    a = b := by
  have hbytes := congrArg ByteVector.toList h
  exact leBytes_inj ha hb (List.reverse_injective hbytes)

theorem sampleBlocks_heights : sampleBlocks.map BlockView.height =
    (List.range' 100 1010).map UInt64.ofNat := by
  decide +kernel

theorem sampleBlocks_bounded {block : BlockView} (h : block ∈ sampleBlocks) : block.height.toNat < 1110 := by
  have hmem : block.height ∈ (List.range' 100 1010).map UInt64.ofNat :=
    sampleBlocks_heights ▸ List.mem_map_of_mem h
  obtain ⟨n,hn,heq⟩ := List.mem_map.mp hmem
  obtain ⟨i,hi,rfl⟩ := List.mem_range'.mp hn
  rw [← heq,UInt64.toNat_ofNat']
  omega

theorem sampleBlocks_hash {block : BlockView} (h : block ∈ sampleBlocks) :
    block.hash = sampleHash block.height.toNat := by
  simp only [sampleBlocks,List.mem_append,List.mem_cons,List.not_mem_nil,or_false] at h
  rcases h with (rfl | hempty) | rfl | rfl
  · rfl
  · obtain ⟨n,hn,rfl⟩ := List.mem_map.mp hempty
    obtain ⟨i,hi,rfl⟩ := List.mem_range'.mp hn
    have hheight : (UInt64.ofNat (101 + 1 * i)).toNat = 101 + 1 * i := by
      rw [UInt64.toNat_ofNat']
      omega
    exact congrArg sampleHash hheight.symm
  · rfl
  · rfl

theorem sampleBlocks_hashes : (sampleBlocks.map BlockView.hash).Nodup := by
  have hheights : (sampleBlocks.map BlockView.height).Nodup := by
    rw [sampleBlocks_heights]
    apply List.Nodup.map_on _ List.nodup_range'
    intro a ha b hb heq
    obtain ⟨i,hi,rfl⟩ := List.mem_range'.mp ha
    obtain ⟨j,hj,rfl⟩ := List.mem_range'.mp hb
    have hsame := congrArg UInt64.toNat heq
    rw [UInt64.toNat_ofNat',UInt64.toNat_ofNat'] at hsame
    omega
  apply List.Nodup.map_on _ (List.Nodup.of_map _ hheights)
  intro a ha b hb heq
  rw [sampleBlocks_hash ha,sampleBlocks_hash hb] at heq
  have hlt : (1110 : ℕ) < 256 ^ 32 := by decide
  have hsame := sampleHash_inj ((sampleBlocks_bounded ha).trans hlt)
    ((sampleBlocks_bounded hb).trans hlt) heq
  exact List.inj_on_of_nodup_map hheights ha hb (UInt64.toNat_inj.mp hsame)

/-- A hash names one of the sample blocks. -/
theorem sampleBlocks_determined {blocks : List BlockView} (hblocks : ∀ block ∈ blocks, block ∈ sampleBlocks)
    (hheaders : blocks.map BlockView.header = sampleBlocks.map BlockView.header) : blocks = sampleBlocks := by
  have hlength : blocks.length = sampleBlocks.length := by simpa using congrArg List.length hheaders
  apply List.ext_getElem hlength
  intro i hi hj
  have hheader : blocks[i].header = sampleBlocks[i].header := by
    have hget := congrArg (fun headers : List Header => headers[i]?) hheaders
    simpa [List.getElem?_eq_getElem hi,List.getElem?_eq_getElem hj] using hget
  exact List.inj_on_of_nodup_map sampleBlocks_hashes (hblocks _ (List.getElem_mem hi))
    (List.getElem_mem hj) (congrArg Header.hash hheader)

/-- The sample blocks leave one object, active at the output of the ROTATE. -/
theorem sampleBlocks_carrier {final : ChainState} {deltas : List BlockDelta}
    (h : applyBlocks bitcoinPrimitives sampleNew sampleBlocks = some (final,deltas)) :
    final.active[(⟨sampleRotate.txid,1⟩ : OutPointRef)]? = some sampleKey ∧
      ∃ object, final.objects[sampleKey]? = some object := by
  obtain ⟨opened,hopened,_⟩ := sampleOpened_run
  obtain ⟨middle,first,second,hfirst,hsecond,_⟩ := applyBlocks_append.mp h
  obtain ⟨rfl,_⟩ := Prod.mk.inj (Option.some.inj (hopened.symm.trans hfirst))
  obtain ⟨run,hrun,hvalues⟩ := Option.map_eq_some_iff.mp sampleOpened_eq
  obtain rfl := Option.some.inj (hsecond.symm.trans hrun)
  simp only [Prod.mk.injEq] at hvalues
  obtain ⟨_,_,hactive,hobject⟩ := hvalues
  obtain ⟨object,hget,_⟩ := Option.map_eq_some_iff.mp hobject
  refine ⟨Std.ExtTreeMap.mem_toList_iff_getElem?_eq_some.mp ?_,object,hget⟩
  rw [hactive]
  exact List.mem_singleton.mpr rfl

/-- A database that records the sample deployment. -/
theorem sample_stored : ∃ db final deltas, Committed bitcoinPrimitives (fun block => block ∈ sampleBlocks) db ∧
    Records bitcoinPrimitives db sampleBinding final sampleBlocks deltas ∧
      deltas.flatMap BlockDelta.events = sampleLog := by
  obtain ⟨final,deltas,hrun,_,hlog⟩ := sampleBlocks_run
  have hbound : ∀ block ∈ sampleBlocks, block.height.toNat < 2 ^ 63 := by
    intro block hblock
    exact (sampleBlocks_bounded hblock).trans (by decide)
  obtain ⟨db,hcommitted,hrecords⟩ := Records.exists_run hrun (fun _ hblock => hblock) hbound
    sampleBlocks_hashes sampleRelease_storable
  exact ⟨db,final,deltas,hcommitted,hrecords,hlog⟩

/-- The stored sample rejects a second copy of its first block and can be rolled back. -/
theorem sample_commits_exactly : ∃ db row, Committed bitcoinPrimitives (fun block => block ∈ sampleBlocks) db ∧
    db.protocolState = some row ∧
    (∃ db' restored, Store.rollbackTip db = ok (db',some restored)) ∧
    ∃ state delta, applyBlock bitcoinPrimitives sampleNew initBlock = ok (state,.ok delta) ∧
      ¬ ∃ db', Store.applyBlock db state delta sampleRelease = ok db' := by
  obtain ⟨db,final,deltas,hcommitted,hrecords,_⟩ := sample_stored
  obtain ⟨happlies,hrolls,_⟩ := store_commits_exactly hcommitted hrecords.stored
  obtain ⟨state,delta,happly⟩ := sampleInit_run
  obtain ⟨row,hmem,hhash⟩ := hrecords.row_of_block (by simp [sampleBlocks] : initBlock ∈ sampleBlocks)
  refine ⟨db,_,hcommitted,hrecords.stored,hrolls.mpr (List.ne_nil_of_mem hmem),state,delta,happly,?_⟩
  rintro hstore
  exact ((happlies _ _ _ _ _ happly).mp hstore).2.2.1 row hmem hhash

end Sample
end TandemVerifier
