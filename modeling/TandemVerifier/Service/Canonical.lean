import TandemVerifier.Reduction.History
import TandemVerifier.Reduction.Linkage
import TandemVerifier.Service.Store

/-! # The tables record one run of blocks

What a committed transaction does to the tables, and the invariant that these changes
keep: the block rows are the deltas of one run from the new state, the event rows are
the events of these deltas and the object rows are the objects of the stored state.
-/
namespace TandemVerifier
open Library Library.Outcome Library.Table Library.LinkedChain
variable {P : Primitives} {db db' : Database} {binding : Binding} {state post : ChainState}
variable {delta : BlockDelta} {release : ReleaseIdentity} {block : BlockView}
variable {blocks : List BlockView} {deltas : List BlockDelta}

/-- The row that `Store.applyBlock` writes for a delta. -/
def storedBlock (delta : BlockDelta) (release : ReleaseIdentity) : BlockRow :=
  Store.blockRow delta release delta.height.toInt64

def storedEvent (event : Event) : EventRow := Store.eventRow event event.height.toInt64

def storedObject (object : ObjectState) : ObjectRow :=
  Store.objectRow object object.createHeight.toInt64

namespace Store

theorem toI64_eq_ok {value : UInt64} {key : Int64} :
    toI64 value = ok key ↔ value.toNat < 2 ^ 63 ∧ key = value.toInt64 := by
  unfold toI64
  split
  · simp_all [eq_comm]
  · simp_all

theorem toInt64_injective {a b : UInt64} (h : a.toInt64 = b.toInt64) : a = b := by
  rw [← UInt64.toUInt64_toInt64 a,h,UInt64.toUInt64_toInt64]

theorem toInt_toInt64 {value : UInt64} (h : value.toNat < 2 ^ 63) :
    value.toInt64.toInt = value.toNat := by
  have hbound : 2 * value.toBitVec.toNat < 2 ^ 64 := by
    have heq : value.toBitVec.toNat = value.toNat := rfl
    omega
  exact BitVec.toInt_eq_toNat_of_lt hbound

theorem loadState_eq_ok :
    loadState db = ok state ↔ ∃ binding, db.protocolState = some ⟨binding,state⟩ := by
  rw [loadState,okOr_eq_ok,Option.map_eq_some_iff]
  constructor
  · rintro ⟨row,hrow,rfl⟩
    exact ⟨row.binding,hrow⟩
  · rintro ⟨binding,hrow⟩
    exact ⟨_,hrow,rfl⟩

theorem insertBlock_ok (h : insertBlock db delta release = ok db') :
    delta.height.toNat < 2 ^ 63 ∧
      db' = { db with canonicalBlocks := db.canonicalBlocks ++ [storedBlock delta release] } := by
  simp only [insertBlock,bind_eq_ok,toI64_eq_ok,insertRow_eq_ok,pure_eq_ok,Outcome.ok.injEq] at h
  obtain ⟨_,⟨hbound,rfl⟩,_,⟨_,rfl⟩,rfl⟩ := h
  exact ⟨hbound,rfl⟩

theorem insertEvents_ok {events : List Event} (h : insertEvents db events = ok db') :
    db' = { db with canonicalEvents := db.canonicalEvents ++ events.map storedEvent } := by
  simp only [insertEvents,bind_eq_ok,pure_eq_ok,Outcome.ok.injEq] at h
  obtain ⟨rows,hrows,rfl⟩ := h
  have hmap := insertEach_map storedEvent ?_ hrows
  · rw [hmap.1]
  · intro event found hfound
    simp only [bind_eq_ok,toI64_eq_ok,Outcome.ok.injEq] at hfound
    obtain ⟨_,⟨_,rfl⟩,rfl⟩ := hfound
    rfl

theorem syncObjects_ok (h : syncObjects db state = ok db') :
    db' = { db with canonicalObjects := state.objectValues.map storedObject } := by
  simp only [syncObjects,bind_eq_ok,pure_eq_ok,Outcome.ok.injEq] at h
  obtain ⟨rows,hrows,rfl⟩ := h
  have hmap := insertEach_map storedObject ?_ hrows
  · rw [hmap.1,List.nil_append]
  · intro object found hfound
    simp only [bind_eq_ok,toI64_eq_ok,Outcome.ok.injEq] at hfound
    obtain ⟨_,⟨_,rfl⟩,rfl⟩ := hfound
    rfl

/-- A committed block extends the tables by its own rows and replaces the state before it. -/
theorem applyBlock_ok (h : applyBlock db post delta release = ok db') :
    ∃ binding, db.protocolState = some ⟨binding,delta.before⟩ ∧ delta.height.toNat < 2 ^ 63 ∧
      db' = { db with
        protocolState := some ⟨binding,post⟩
        canonicalBlocks := db.canonicalBlocks ++ [storedBlock delta release]
        canonicalEvents := db.canonicalEvents ++ delta.events.map storedEvent
        canonicalObjects := post.objectValues.map storedObject } := by
  simp only [applyBlock,bind_eq_ok,failIf_eq_ok,bne_eq_false_iff_eq,pure_eq_ok,Outcome.ok.injEq,
    loadState_eq_ok] at h
  obtain ⟨_,_,_,_,_,⟨binding,hstored⟩,_,rfl,withBlock,hblock,withEvents,hevents,h⟩ := h
  obtain ⟨withObjects,hobjects,rfl⟩ := h
  obtain ⟨hbound,rfl⟩ := insertBlock_ok hblock
  obtain rfl := insertEvents_ok hevents
  obtain rfl := syncObjects_ok hobjects
  exact ⟨binding,hstored,hbound,by simp [saveState,hstored]⟩

/-- A committed rollback restores the state before the block of the tip's row. -/
theorem rollbackTip_ok {result : Option ChainState} (h : rollbackTip db = ok (db',result)) :
    (∃ binding state, db.protocolState = some ⟨binding,state⟩ ∧ state.tipHeight = none ∧
      result = none ∧ db' = db) ∨
    ∃ binding state tipHeight row entry, db.protocolState = some ⟨binding,state⟩ ∧
      state.tipHeight = some tipHeight ∧
      db.canonicalBlocks.find? (fun row => row.height = tipHeight.toInt64) = some row ∧
      result = some row.inverseDelta.before ∧
      db' = { deleteBlock db tipHeight.toInt64 with
        protocolState := some ⟨binding,row.inverseDelta.before⟩
        canonicalObjects := row.inverseDelta.before.objectValues.map storedObject
        reorgJournal := db.reorgJournal ++ [entry] } := by
  simp only [rollbackTip,bind_eq_ok,loadState_eq_ok] at h
  obtain ⟨state,⟨binding,hstored⟩,h⟩ := h
  cases htip : state.tipHeight with
  | none =>
    simp only [htip,pure_eq_ok,Outcome.ok.injEq,Prod.mk.injEq] at h
    exact Or.inl ⟨binding,state,hstored,htip,h.2.symm,h.1.symm⟩
  | some tipHeight =>
    simp only [htip,bind_eq_ok,toI64_eq_ok,okOr_eq_ok] at h
    obtain ⟨_,⟨_,rfl⟩,row,hrow,h⟩ := h
    cases hdisconnect : disconnectBlock state row.inverseDelta with
    | mk restored outcome =>
      cases outcome with
      | error e => simp [hdisconnect] at h
      | ok u =>
        obtain rfl := disconnectBlock_ok hdisconnect
        simp only [hdisconnect,bind_eq_ok,pure_eq_ok,Outcome.ok.injEq,Prod.mk.injEq] at h
        obtain ⟨withObjects,hobjects,restored,_,rfl,rfl⟩ := h
        obtain rfl := syncObjects_ok hobjects
        refine Or.inr ⟨binding,state,tipHeight,row,⟨tipHeight.toInt64,row.inverseDelta.blockHash,
          restored,row.inverseDelta.before.tipHash⟩,hstored,htip,hrow,rfl,?_⟩
        simp [saveState,deleteBlock,hstored]

theorem replaceMempool_ok {transactions : List TxView}
    (h : replaceMempool db transactions = ok db') :
    db' = { db with mempoolOverlay := db'.mempoolOverlay } := by
  simp only [replaceMempool,bind_eq_ok,pure_eq_ok,Outcome.ok.injEq] at h
  obtain ⟨rows,_,rfl⟩ := h
  rfl

/-- Connecting yields the stored state and at most binds an unbound database. -/
theorem bindOrLoad_ok (h : bindOrLoad P db binding = ok (db',state)) :
    db.protocolState = some ⟨binding,state⟩ ∧ db' = db ∨
    db.protocolState = none ∧ state = ChainState.new P binding ∧
      db' = { db with protocolState := some ⟨binding,state⟩ } := by
  unfold bindOrLoad at h
  cases hrow : db.protocolState with
  | none =>
    simp only [hrow,pure_eq_ok,Outcome.ok.injEq,Prod.mk.injEq] at h
    obtain ⟨rfl,rfl⟩ := h
    exact Or.inr ⟨rfl,rfl,rfl⟩
  | some row =>
    simp only [hrow,bind_eq_ok,failIf_eq_ok,bne_eq_false_iff_eq,pure_eq_ok,Outcome.ok.injEq,
      Prod.mk.injEq] at h
    obtain ⟨_,rfl,rfl,rfl⟩ := h
    exact Or.inl ⟨rfl,rfl⟩

end Store

/-- The tables record exactly one run of blocks. -/
structure Records (P : Primitives) (db : Database) (binding : Binding) (state : ChainState)
    (blocks : List BlockView) (deltas : List BlockDelta) : Prop where
  stored : db.protocolState = some ⟨binding,state⟩
  run : applyBlocks P (ChainState.new P binding) blocks = some (state,deltas)
  journal : db.canonicalBlocks.map BlockRow.inverseDelta = deltas
  rows : ∀ row ∈ db.canonicalBlocks, row = storedBlock row.inverseDelta row.release
  bounded : ∀ delta ∈ deltas, delta.height.toNat < 2 ^ 63
  events : db.canonicalEvents = deltas.flatMap fun delta => delta.events.map storedEvent
  objects : db.canonicalObjects = state.objectValues.map storedObject

/-- A database that no deployment has been bound to. -/
structure Database.Unbound (db : Database) : Prop where
  protocolState : db.protocolState = none
  canonicalBlocks : db.canonicalBlocks = []
  canonicalEvents : db.canonicalEvents = []
  canonicalObjects : db.canonicalObjects = []

namespace Records

theorem new (h : db.Unbound) :
    Records P { db with protocolState := some ⟨binding,ChainState.new P binding⟩ } binding
      (ChainState.new P binding) [] [] where
  stored := rfl
  run := rfl
  journal := by simp [h.canonicalBlocks]
  rows := by simp [h.canonicalBlocks]
  bounded := by simp
  events := h.canonicalEvents
  objects := by simp [h.canonicalObjects,ChainState.objectValues,ChainState.new]

/-- Writing the mempool overlay leaves the record as it was. -/
theorem mempool {overlay : List MempoolRow} (h : Records P db binding state blocks deltas) :
    Records P { db with mempoolOverlay := overlay } binding state blocks deltas :=
  ⟨h.stored,h.run,h.journal,h.rows,h.bounded,h.events,h.objects⟩

/-- A committed block extends the recorded run, whatever its writer had in memory. -/
theorem applied {before : ChainState} (h : Records P db binding state blocks deltas)
    (happly : applyBlock P before block = ok (post,.ok delta))
    (hstore : Store.applyBlock db post delta release = ok db') :
    before = state ∧ Records P db' binding post (blocks ++ [block]) (deltas ++ [delta]) := by
  obtain ⟨found,hfound,hbound,rfl⟩ := Store.applyBlock_ok hstore
  have hrow := h.stored.symm.trans hfound
  simp only [Option.some.injEq,ProtocolRow.mk.injEq] at hrow
  obtain ⟨rfl,rfl⟩ := hrow
  have hbefore : before = delta.before := (applyBlock_delta happly).1.symm
  subst hbefore
  refine ⟨rfl,rfl,applyBlocks_concat.mpr ⟨_,deltas,delta,h.run,happly,rfl⟩,?_,?_,?_,?_,rfl⟩
  · rw [List.map_append,h.journal]
    rfl
  · intro row hrow
    rcases List.mem_append.mp hrow with hold | hnew
    · exact h.rows row hold
    · rw [List.mem_singleton.mp hnew]
      rfl
  · intro other hother
    rcases List.mem_append.mp hother with hold | hnew
    · exact h.bounded other hold
    · rw [List.mem_singleton.mp hnew]
      exact hbound
  · rw [List.flatMap_append,h.events]
    simp

theorem height_ne {first : List BlockDelta} {last : BlockDelta}
    (h : Records P db binding state blocks (first ++ [last])) {other : BlockDelta}
    (hother : other ∈ first) : other.height.toInt64 ≠ last.height.toInt64 := by
  intro hsame
  have hlower := (List.pairwise_append.mp (applyBlocks_heights h.run)).2.2 other hother last (by simp)
  rw [Store.toInt64_injective hsame] at hlower
  exact UInt64.lt_irrefl _ hlower

/-- The row of the last delta is the last row and the only one at its height. -/
theorem last_row {first : List BlockDelta} {last : BlockDelta}
    (h : Records P db binding state blocks (first ++ [last])) :
    ∃ rows row, db.canonicalBlocks = rows ++ [row] ∧ rows.map BlockRow.inverseDelta = first ∧
      row.inverseDelta = last ∧
      db.canonicalBlocks.find? (fun row => row.height = last.height.toInt64) = some row ∧
      db.canonicalBlocks.filter (fun row => row.height ≠ last.height.toInt64) = rows := by
  obtain ⟨rows,tail,hrows,hfirst,htail⟩ := List.map_eq_append_iff.mp h.journal
  obtain ⟨row,rfl,hrow⟩ := List.map_eq_singleton_iff.mp htail
  have hother : ∀ other ∈ rows, other.height ≠ last.height.toInt64 := by
    intro other hmem
    rw [h.rows other (by simp [hrows,hmem])]
    exact h.height_ne (hfirst ▸ List.mem_map_of_mem hmem)
  have hlast : row.height = last.height.toInt64 := by
    rw [h.rows row (by simp [hrows]),hrow]
    rfl
  refine ⟨rows,row,hrows,hfirst,hrow,?_,?_⟩
  · have hnone : rows.find? (fun row => row.height = last.height.toInt64) = none := by
      simpa using hother
    rw [hrows,List.find?_append,hnone]
    simp [hlast]
  · have hkept : rows.filter (fun row => row.height ≠ last.height.toInt64) = rows := by
      simpa using hother
    rw [hrows,List.filter_append,hkept]
    simp [hlast]

/-- Deleting the last height cascades to exactly the events of the last delta. -/
theorem last_events {first : List BlockDelta} {last : BlockDelta}
    (h : Records P db binding state blocks (first ++ [last])) :
    db.canonicalEvents.filter (fun row => row.height ≠ last.height.toInt64) =
      first.flatMap fun delta => delta.events.map storedEvent := by
  have hheight : ∀ delta ∈ first ++ [last], ∀ row ∈ delta.events.map storedEvent,
      row.height = delta.height.toInt64 := by
    intro delta hdelta row hrow
    obtain ⟨event,hevent,rfl⟩ := List.mem_map.mp hrow
    rw [← applyBlocks_event_height h.run hdelta event hevent]
    rfl
  rw [h.events,List.flatMap_append,List.filter_append]
  have hkept : (first.flatMap fun delta => delta.events.map storedEvent).filter
      (fun row => row.height ≠ last.height.toInt64) =
        first.flatMap fun delta => delta.events.map storedEvent := by
    apply List.filter_eq_self.mpr
    intro row hrow
    obtain ⟨delta,hdelta,hmem⟩ := List.mem_flatMap.mp hrow
    rw [hheight delta (by simp [hdelta]) row hmem]
    simpa using h.height_ne hdelta
  have hgone : ([last].flatMap fun delta => delta.events.map storedEvent).filter
      (fun row => row.height ≠ last.height.toInt64) = [] := by
    apply List.filter_eq_nil_iff.mpr
    intro row hrow
    obtain ⟨delta,hdelta,hmem⟩ := List.mem_flatMap.mp hrow
    obtain rfl := List.mem_singleton.mp hdelta
    rw [hheight delta (by simp) row hmem]
    simp
  rw [hkept,hgone,List.append_nil]

/-- A committed rollback removes exactly the last block of the recorded run. -/
theorem rolledBack {restored : ChainState} (h : Records P db binding state blocks deltas)
    (hroll : Store.rollbackTip db = ok (db',some restored)) :
    ∃ earlier block first delta row, blocks = earlier ++ [block] ∧ deltas = first ++ [delta] ∧
      applyBlock P restored block = ok (state,.ok delta) ∧
      db.canonicalBlocks = db'.canonicalBlocks ++ [row] ∧ row.inverseDelta = delta ∧
      Records P db' binding restored earlier first := by
  rcases Store.rollbackTip_ok hroll with ⟨_,_,_,_,hnone,_⟩ | hsome
  · simp at hnone
  obtain ⟨found,held,tipHeight,row,entry,hfound,htip,hrow,hrestored,rfl⟩ := hsome
  have hstored := h.stored.symm.trans hfound
  simp only [Option.some.injEq,ProtocolRow.mk.injEq] at hstored
  obtain ⟨rfl,rfl⟩ := hstored
  cases blocks using List.reverseRecOn with
  | nil =>
    have hrun := h.run
    simp only [applyBlocks,Option.some.injEq,Prod.mk.injEq] at hrun
    simp [← hrun.1,ChainState.new] at htip
  | append_singleton earlier block =>
    obtain ⟨middle,first,delta,hfirst,happly,rfl⟩ := applyBlocks_concat.mp h.run
    obtain ⟨hbefore,_,_,hheight,_,htipHeight,_⟩ := applyBlock_delta happly
    obtain rfl : tipHeight = delta.height := by
      rw [htip,← hheight] at htipHeight
      exact Option.some.inj htipHeight
    obtain ⟨rows,last,hrows,hmap,hlast,hfind,hfilter⟩ := h.last_row
    obtain rfl : last = row := Option.some.inj (hfind.symm.trans hrow)
    simp only [Option.some.injEq,hlast,hbefore] at hrestored
    subst hrestored
    refine ⟨earlier,block,first,delta,last,rfl,rfl,happly,?_,hlast,?_⟩
    · simp only [Store.deleteBlock,hfilter]
      exact hrows
    · simp only [Store.deleteBlock,hlast,hbefore]
      refine ⟨rfl,hfirst,?_,?_,?_,h.last_events,rfl⟩
      · rw [hfilter,hmap]
      · intro other hother
        exact h.rows other (List.mem_of_mem_filter hother)
      · intro other hother
        exact h.bounded other (List.mem_append_left _ hother)

end Records
end TandemVerifier
