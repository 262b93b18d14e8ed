import TandemVerifier.Service.Canonical
import TandemVerifier.Service.Simulation

/-! # Any number of writers keep the tables canonical

The abstract layer is the sequence of committed transactions on one database: whoever
issues them and whatever was in his memory, a block is only stored if it extends the
state that is stored. The concrete layer is any number of ingestion workers that step,
fail, crash and reconnect in any order; each of their steps commits one of these
transactions or none.
-/
namespace TandemVerifier
open Library Library.Outcome Library.LinkedChain
variable {P : Primitives} {good : BlockView → Prop} {db db' : Database}

/-- A committed transaction; blocks are only stored as the reducer returned them. -/
inductive Commit (P : Primitives) (good : BlockView → Prop) : Database → Database → Prop
  | bound {db db' : Database} {binding : Binding} {state : ChainState}
      (h : Store.bindOrLoad P db binding = ok (db',state)) : Commit P good db db'
  | applied {db db' : Database} {before post : ChainState} {block : BlockView} {delta : BlockDelta}
      {release : ReleaseIdentity} (hgood : good block)
      (happly : applyBlock P before block = ok (post,.ok delta))
      (hstore : Store.applyBlock db post delta release = ok db') : Commit P good db db'
  | rolledBack {db db' : Database} (result : Option ChainState)
      (h : Store.rollbackTip db = ok (db',result)) : Commit P good db db'
  | overlaid {db db' : Database} {transactions : List TxView}
      (h : Store.replaceMempool db transactions = ok db') : Commit P good db db'

/-- The databases reachable by committed transactions from the migrations on. -/
def Committed (P : Primitives) (good : BlockView → Prop) : Database → Prop :=
  Relation.ReflTransGen (Commit P good) Database.empty

/-- The database is unbound and empty, or it records a run of good blocks. -/
inductive Sound (P : Primitives) (good : BlockView → Prop) (db : Database) : Prop
  | unbound (h : db.Unbound)
  | recorded {binding : Binding} {state : ChainState} {blocks : List BlockView}
      {deltas : List BlockDelta} (h : Records P db binding state blocks deltas)
      (hgood : ∀ block ∈ blocks, good block)

theorem Sound.records {row : ProtocolRow} (h : Sound P good db) (hrow : db.protocolState = some row) :
    ∃ blocks deltas, Records P db row.binding row.state blocks deltas ∧
      ∀ block ∈ blocks, good block := by
  cases h with
  | unbound h => simp [h.protocolState] at hrow
  | recorded h hgood =>
    obtain rfl := Option.some.inj (h.stored.symm.trans hrow)
    exact ⟨_,_,h,hgood⟩

theorem Sound.commit (h : Sound P good db) (hcommit : Commit P good db db') : Sound P good db' := by
  cases hcommit with
  | bound hbind =>
    rcases Store.bindOrLoad_ok hbind with ⟨_,rfl⟩ | ⟨hnone,rfl,rfl⟩
    · exact h
    · cases h with
      | unbound h => exact .recorded (Records.new h) (by simp)
      | recorded h hgood => simp [h.stored] at hnone
  | applied hgood happly hstore =>
    obtain ⟨binding,hstored,_⟩ := Store.applyBlock_ok hstore
    obtain ⟨blocks,deltas,hrecords,hall⟩ := h.records hstored
    refine .recorded (hrecords.applied happly hstore).2 ?_
    intro block hblock
    rcases List.mem_append.mp hblock with hold | hnew
    · exact hall block hold
    · rw [List.mem_singleton.mp hnew]
      exact hgood
  | rolledBack result hroll =>
    cases result with
    | none =>
      rcases Store.rollbackTip_ok hroll with ⟨_,_,_,_,_,rfl⟩ | ⟨_,_,_,_,_,_,_,_,hresult,_⟩
      · exact h
      · simp at hresult
    | some restored =>
      cases h with
      | unbound h => simp [Store.rollbackTip,Store.loadState,okOr,h.protocolState] at hroll
      | recorded h hgood =>
        obtain ⟨earlier,block,first,delta,row,rfl,_,_,_,_,hrecords⟩ := h.rolledBack hroll
        exact .recorded hrecords fun other hother => hgood other (List.mem_append_left _ hother)
  | overlaid hmempool =>
    rw [Store.replaceMempool_ok hmempool]
    cases h with
    | unbound h =>
      exact .unbound ⟨h.protocolState,h.canonicalBlocks,h.canonicalEvents,h.canonicalObjects⟩
    | recorded h hgood => exact .recorded h.mempool hgood

/-- Every sequence of committed transactions keeps the tables sound. -/
theorem Committed.sound (h : Committed P good db) : Sound P good db := by
  induction h with
  | refl => exact .unbound ⟨rfl,rfl,rfl,rfl⟩
  | tail _ hcommit ih => exact ih.commit hcommit

theorem Committed.mono {good' : BlockView → Prop} (h : Committed P good db)
    (hgood : ∀ block, good block → good' block) : Committed P good' db := by
  refine Relation.ReflTransGen.mono ?_ _ _ h
  intro before after hcommit
  cases hcommit with
  | bound hbind => exact .bound hbind
  | applied hblock happly hstore => exact .applied (hgood _ hblock) happly hstore
  | rolledBack result hroll => exact .rolledBack result hroll
  | overlaid hmempool => exact .overlaid hmempool

section Workers
variable {permits : Permits} {ι : Type} [DecidableEq ι]

/-- A database and the processes that write to it; `none` is a process that is down. -/
structure World (ι : Type) where
  database : Database
  workers : ι → Option Ingestion

def World.initial : World ι := ⟨Database.empty,fun _ => none⟩

/-- One step of one process. A crash may follow any step, so that a process can die after
its transaction has committed and before it learns so. -/
inductive World.Step (P : Primitives) (permits : Permits) : World ι → World ι → Prop
  | connected {world : World ι} {db' : Database} {state : ChainState} (i : ι) (binding : Binding)
      (release : ReleaseIdentity) (h : Store.bindOrLoad P world.database binding = ok (db',state)) :
      World.Step P permits world
        ⟨db',Function.update world.workers i (some (Ingestion.new state release))⟩
  | worked {world : World ι} {db' : Database} {worker worker' : Ingestion} (i : ι)
      (hworker : world.workers i = some worker)
      (h : Ingestion.Step P permits (world.database,worker) (db',worker')) :
      World.Step P permits world ⟨db',Function.update world.workers i (some worker')⟩
  | crashed {world : World ι} (i : ι) :
      World.Step P permits world { world with workers := Function.update world.workers i none }

/-- A block that the environment may deliver to a worker. -/
def Permits.Delivers (permits : Permits) (block : BlockView) : Prop :=
  ∃ bestHeight height db db', permits (.fetchBlock bestHeight height) (some block) db db'

/-- A worker that awaits a commit stores exactly what the reducer returned. -/
def Pending (P : Primitives) (good : BlockView → Prop) (state : ChainState) : Point → Prop
  | .commitBlock _ _ delta =>
    ∃ before block, good block ∧ applyBlock P before block = ok (state,.ok delta)
  | _ => True

theorem catchUp_pending {worker : Ingestion} (bestHeight : UInt64) :
    Pending P good worker.state (worker.catchUp bestHeight).point :=
  Ingestion.catchUp_rule (fun _ _ _ _ _ => trivial) (fun _ _ _ => trivial) (fun _ => trivial)
    fun _ => trivial

theorem disconnect_pending {worker : Ingestion} (bestHeight : UInt64) :
    Pending P good worker.state (worker.disconnect bestHeight).point :=
  Ingestion.disconnect_rule (fun _ _ => trivial) trivial

theorem reconcileReorg_pending {worker : Ingestion} (bestHeight : UInt64) :
    Pending P good worker.state (worker.reconcileReorg bestHeight).point :=
  Ingestion.reconcileReorg_rule (fun _ _ _ => trivial) (fun _ _ _ _ _ => trivial) (fun _ => trivial)
    (fun _ => trivial) trivial

theorem reduceBlock_pending {worker : Ingestion} {block : BlockView} (bestHeight height : UInt64)
    (hgood : good block) : Pending P good (worker.reduceBlock P bestHeight height block).state
      (worker.reduceBlock P bestHeight height block).point := by
  unfold Ingestion.reduceBlock
  split
  · next happly => exact ⟨_,block,hgood,happly⟩
  · trivial
  · trivial
  · trivial

theorem resume_pending {worker : Ingestion} (point : Point) (reply : point.Reply)
    (hpermits : permits point reply db db') :
    Pending P permits.Delivers (worker.resume P point reply).state
      (worker.resume P point reply).point := by
  cases point with
  | readBestHeight =>
    cases reply with
    | none => trivial
    | some bestHeight => simpa [Ingestion.resume] using reconcileReorg_pending bestHeight
  | compareTip bestHeight tipHeight =>
    cases reply with
    | none => trivial
    | some hash =>
      simp only [Ingestion.resume]
      split
      · trivial
      · split
        · simpa using catchUp_pending bestHeight
        · simpa using disconnect_pending bestHeight
  | rollbackTip bestHeight =>
    match reply with
    | none => trivial
    | some none => trivial
    | some (some state) =>
      simp only [Ingestion.resume]
      split
      · simpa using @catchUp_pending P permits.Delivers { worker with state := state } bestHeight
      · simpa using @reconcileReorg_pending P permits.Delivers { worker with state := state } bestHeight
  | locateInit bestHeight =>
    match reply with
    | none => trivial
    | some none => trivial
    | some (some height) =>
      simp only [Ingestion.resume]
      exact Ingestion.forHeights_rule (fun _ => trivial) fun _ => trivial
  | fetchBlock bestHeight height =>
    cases reply with
    | none => trivial
    | some block => exact reduceBlock_pending bestHeight height ⟨bestHeight,height,db,db',hpermits⟩
  | commitBlock bestHeight height delta =>
    cases reply with
    | none => trivial
    | some u =>
      simp only [Ingestion.resume]
      split <;> trivial
  | readStatus =>
    cases reply with
    | none => trivial
    | some status =>
      simp only [Ingestion.resume]
      split <;> trivial
  | readMempool => cases reply <;> trivial
  | writeMempool transactions => cases reply <;> trivial
  | finished result => cases result <;> trivial
  | panicked => cases reply
  | starting => trivial
  | reloadState delta => trivial
  | waiting => trivial

/-- An awaited call commits one transaction or leaves the database as it was. -/
theorem exchange_commits {worker : Ingestion} (point : Point) (reply : point.Reply)
    (hpending : Pending P good worker.state point) (h : worker.Exchange db point reply db') :
    db' = db ∨ Commit P good db db' := by
  cases point with
  | rollbackTip bestHeight =>
    cases reply with
    | some result => exact Or.inr (.rolledBack result h)
    | none =>
      rcases h with rfl | ⟨result,hroll⟩
      · exact Or.inl rfl
      · exact Or.inr (.rolledBack result hroll)
  | commitBlock bestHeight height delta =>
    obtain ⟨before,block,hgood,happly⟩ := hpending
    cases reply with
    | some u => exact Or.inr (.applied hgood happly h)
    | none =>
      rcases h with rfl | hstore
      · exact Or.inl rfl
      · exact Or.inr (.applied hgood happly hstore)
  | reloadState delta =>
    cases reply with
    | some state => exact Or.inl h.1
    | none => exact Or.inl h
  | writeMempool transactions =>
    cases reply with
    | some u => exact Or.inr (.overlaid h)
    | none =>
      rcases h with rfl | hstore
      · exact Or.inl rfl
      · exact Or.inr (.overlaid hstore)
  | panicked => cases reply
  | _ => exact Or.inl h

/-- A step of a worker keeps the database reachable by committed transactions. -/
theorem Ingestion.Step.committed {worker worker' : Ingestion} (hdb : Committed P permits.Delivers db)
    (hpending : Pending P permits.Delivers worker.state worker.point)
    (h : Ingestion.Step P permits (db,worker) (db',worker')) :
    Committed P permits.Delivers db' ∧ Pending P permits.Delivers worker'.state worker'.point := by
  cases h with
  | step point reply hpoint hexchange hpermits =>
    refine ⟨?_,resume_pending point reply hpermits⟩
    rcases exchange_commits point reply (hpoint ▸ hpending) hexchange with rfl | hcommit
    · exact hdb
    · exact hdb.tail hcommit

theorem Ingestion.run_committed {config config' : Database × Ingestion}
    (hdb : Committed P permits.Delivers config.1)
    (hpending : Pending P permits.Delivers config.2.state config.2.point)
    (h : Relation.ReflTransGen (Ingestion.Step P permits) config config') :
    Committed P permits.Delivers config'.1 ∧
      Pending P permits.Delivers config'.2.state config'.2.point := by
  induction h with
  | refl => exact ⟨hdb,hpending⟩
  | tail _ hstep ih => exact hstep.committed ih.1 ih.2

theorem update_pending {workers : ι → Option Ingestion} {i : ι} {replaced : Option Ingestion}
    (hworkers : ∀ i worker, workers i = some worker → Pending P good worker.state worker.point)
    (hreplaced : ∀ worker, replaced = some worker → Pending P good worker.state worker.point) :
    ∀ j worker, Function.update workers i replaced j = some worker →
      Pending P good worker.state worker.point := by
  intro j worker hworker
  rw [Function.update_apply] at hworker
  split at hworker
  · exact hreplaced worker hworker
  · exact hworkers j worker hworker

/-- The workers refine the committed transactions. -/
theorem World.committed {world : World ι}
    (h : Relation.ReflTransGen (World.Step P permits) World.initial world) :
    Committed P permits.Delivers world.database ∧ ∀ i worker, world.workers i = some worker →
      Pending P permits.Delivers worker.state worker.point := by
  induction h with
  | refl => exact ⟨.refl,by simp [World.initial]⟩
  | tail _ hstep ih =>
    obtain ⟨hdb,hworkers⟩ := ih
    cases hstep with
    | connected i binding release hbind =>
      refine ⟨hdb.tail (.bound hbind),update_pending hworkers ?_⟩
      rintro _ ⟨rfl⟩
      trivial
    | worked i hworker hstep =>
      obtain ⟨hdb',hpending⟩ := hstep.committed hdb (hworkers i _ hworker)
      refine ⟨hdb',update_pending hworkers ?_⟩
      rintro _ ⟨rfl⟩
      exact hpending
    | crashed i => exact ⟨hdb,update_pending hworkers (by simp)⟩

/-- A run of one worker is a run of the world. -/
theorem World.worked_run {world : World ι} {worker worker' : Ingestion} (i : ι)
    (hworker : world.workers i = some worker)
    (h : Relation.ReflTransGen (Ingestion.Step P permits) (world.database,worker) (db',worker')) :
    Relation.ReflTransGen (World.Step P permits) world
      ⟨db',Function.update world.workers i (some worker')⟩ := by
  generalize hstart : (world.database,worker) = start at h
  generalize hfinal : (db',worker') = final at h
  induction h generalizing db' worker' with
  | refl =>
    obtain ⟨rfl,rfl⟩ := Prod.mk.inj (hfinal.trans hstart.symm)
    rw [← hworker,Function.update_eq_self]
  | @tail middle _ _ hstep ih =>
    subst hfinal
    apply (ih rfl).tail
    have hlast : World.Step P permits ⟨middle.1,Function.update world.workers i (some middle.2)⟩
        ⟨db',Function.update (Function.update world.workers i (some middle.2)) i (some worker')⟩ :=
      .worked i (Function.update_self _ _ _) hstep
    simpa using hlast

end Workers

/-- What the five tables say about a run of blocks, row by row. -/
structure Canonical (P : Primitives) (db : Database) (binding : Binding) (state : ChainState)
    (blocks : List BlockView) (deltas : List BlockDelta) : Prop where
  linked : (blocks.map BlockView.header).IsChain headerLinks.Follows
  run : applyBlocks P (ChainState.new P binding) blocks = some (state,deltas)
  contiguous : (db.canonicalBlocks.map fun row => row.height.toInt).IsChain fun a b => b = a + 1
  paired : db.canonicalBlocks.length = blocks.length
  rows : ∀ (i : ℕ) (row : BlockRow), db.canonicalBlocks[i]? = some row →
    deltas[i]? = some row.inverseDelta ∧ row = storedBlock row.inverseDelta row.release ∧
      row.height.toInt = row.inverseDelta.height.toNat
  below : ∀ (i : ℕ) (row : BlockRow), db.canonicalBlocks[i]? = some row →
    applyBlocks P (ChainState.new P binding) (blocks.take i) =
      some (row.inverseDelta.before,deltas.take i)
  events : db.canonicalEvents = deltas.flatMap fun delta => delta.events.map storedEvent
  objects : db.canonicalObjects = state.objects.toList.map fun entry =>
    { storedObject entry.2 with objectKey := entry.1 }

section Canonical
variable {binding : Binding} {state : ChainState} {blocks : List BlockView} {deltas : List BlockDelta}

theorem Records.height_toInt (h : Records P db binding state blocks deltas) {row : BlockRow}
    (hrow : row ∈ db.canonicalBlocks) : row.height.toInt = row.inverseDelta.height.toNat := by
  have hbound := h.bounded row.inverseDelta (h.journal ▸ List.mem_map_of_mem hrow)
  rw [h.rows row hrow]
  exact Store.toInt_toInt64 hbound

theorem Records.contiguous (h : Records P db binding state blocks deltas) :
    (db.canonicalBlocks.map fun row => row.height.toInt).IsChain fun a b => b = a + 1 := by
  have hlinked := applyBlocks_linked h.run
  rw [← applyBlocks_headers h.run,List.isChain_map,← h.journal,List.isChain_map] at hlinked
  rw [List.isChain_map]
  apply hlinked.imp_of_mem_imp
  intro a b ha hb hfollows
  have hrank : b.inverseDelta.height.toNat = a.inverseDelta.height.toNat + 1 := hfollows.2
  rw [h.height_toInt ha,h.height_toInt hb,hrank]
  rfl

theorem Records.canonical (h : Records P db binding state blocks deltas) :
    Canonical P db binding state blocks deltas := by
  have hkeyed := applyBlocks_keyed h.run
  have hget : ∀ (i : ℕ) (row : BlockRow), db.canonicalBlocks[i]? = some row →
      deltas[i]? = some row.inverseDelta := by
    intro i row hrow
    rw [← h.journal,List.getElem?_map,hrow]
    rfl
  refine ⟨applyBlocks_linked h.run,h.run,h.contiguous,?_,?_,?_,h.events,?_⟩
  · have hlength := congrArg List.length (applyBlocks_headers h.run)
    rw [← h.journal] at hlength
    simpa using hlength
  · intro i row hrow
    have hmem := List.mem_of_getElem? hrow
    exact ⟨hget i row hrow,h.rows row hmem,h.height_toInt hmem⟩
  · intro i row hrow
    exact applyBlocks_before h.run (hget i row hrow)
  · rw [h.objects,ChainState.objectValues,List.map_map]
    apply List.map_congr_left
    intro entry hentry
    have hobject : state.objects[entry.1]? = some entry.2 :=
      Std.ExtTreeMap.mem_toList_iff_getElem?_eq_some.mp hentry
    simp only [Function.comp_apply,← hkeyed entry.1 entry.2 hobject]
    rfl

end Canonical

/-- Whatever the workers do, the tables are those of one run of hash-linked blocks. -/
theorem writers_canonical {ι : Type} [DecidableEq ι] {world : World ι}
    (h : Relation.ReflTransGen (World.Step P Permits.any) World.initial world) :
    (world.database.protocolState = none → world.database.canonicalBlocks = [] ∧
      world.database.canonicalEvents = [] ∧ world.database.canonicalObjects = []) ∧
    ∀ row, world.database.protocolState = some row → ∃ blocks deltas,
      Canonical P world.database row.binding row.state blocks deltas := by
  have hsound := (World.committed h).1.sound
  constructor
  · intro hnone
    cases hsound with
    | unbound hempty =>
      exact ⟨hempty.canonicalBlocks,hempty.canonicalEvents,hempty.canonicalObjects⟩
    | recorded hrecords hgood => simp [hrecords.stored] at hnone
  · intro row hrow
    obtain ⟨blocks,deltas,hrecords,_⟩ := hsound.records hrow
    exact ⟨blocks,deltas,hrecords.canonical⟩

/-- A second worker whose memory is stale after the first pass of another one. -/
def sampleStale : Option (Database × Ingestion) :=
  leftPass.bind fun config => Ingestion.simulate bitcoinPrimitives (sampleNode rightChain)
    (List.replicate 7 .acknowledged) (config.1,sampleWorker)

set_option maxRecDepth 10000 in
theorem sampleStale_eq : sampleStale.map (fun config =>
    (config.2.point,storedHashes config.1,config.1.protocolState.isSome)) =
      some (.finished (.error .store),[sampleHash 1,sampleHash 30],true) := by
  decide +kernel

theorem sample_writers : ∃ (world : World Bool) (row : ProtocolRow) (blocks : List BlockView)
    (deltas : List BlockDelta), storedHashes world.database = [sampleHash 1,sampleHash 30] ∧
      world.database.protocolState = some row ∧
      Canonical bitcoinPrimitives world.database row.binding row.state blocks deltas := by
  obtain ⟨⟨db,worker⟩,hstale,hobserved⟩ := Option.map_eq_some_iff.mp sampleStale_eq
  simp only [Prod.mk.injEq] at hobserved
  obtain ⟨⟨middle,first⟩,hfirst,hsecond⟩ := Option.bind_eq_some_iff.mp hstale
  obtain ⟨row,hrow⟩ := Option.isSome_iff_exists.mp hobserved.2.2
  have hmeets : ∀ chain (fates : List Fate), ∀ fate ∈ fates,
      Ingestion.Meets (sampleNode chain) Permits.any fate := fun _ _ _ _ _ _ _ _ _ _ => trivial
  have hleft : World.Step bitcoinPrimitives Permits.any World.initial
      (⟨sampleBound,Function.update (fun _ => none) true (some sampleWorker)⟩ : World Bool) :=
    .connected true sampleBinding sampleRelease rfl
  have hright : World.Step bitcoinPrimitives Permits.any
      ⟨sampleBound,Function.update (fun _ => none) true (some sampleWorker)⟩
      ⟨sampleBound,Function.update (Function.update (fun _ => none) true (some sampleWorker)) false
        (some sampleWorker)⟩ :=
    .connected false sampleBinding sampleRelease rfl
  have hconnect := (Relation.ReflTransGen.single hleft).tail hright
  have hwork := hconnect.trans
    (World.worked_run true rfl (Ingestion.simulate_run (hmeets leftChain _) hfirst))
  have hrun := hwork.trans
    (World.worked_run false rfl (Ingestion.simulate_run (hmeets rightChain _) hsecond))
  obtain ⟨blocks,deltas,hcanonical⟩ := (writers_canonical hrun).2 row hrow
  exact ⟨_,row,blocks,deltas,hobserved.2.1,hrow,hcanonical⟩

end TandemVerifier
