import TandemVerifier.Reduction.Deployment
import TandemVerifier.Reduction.EventOrder
import TandemVerifier.Service.Canonical

/-! # Event keys of one block

The position of an event within its block is its primary key in `canonical_events` below
the height. The events of a block have distinct positions and are stored under a height at
which no block was stored before, so that no insertion of theirs can violate the key.
-/
namespace TandemVerifier
open Library Library.Outcome Library.Table
variable {P : Primitives} {state state' : ChainState} {block : BlockView} {delta : BlockDelta}
variable {db db' : Database} {release : ReleaseIdentity} {events : List Event}

theorem Store.i64OfU32_injective {a b : UInt32} (h : Store.i64OfU32 a = Store.i64OfU32 b) : a = b := by
  have hwide := congrArg UInt64.toNat (Store.toInt64_injective h)
  rw [UInt32.toNat_toUInt64,UInt32.toNat_toUInt64] at hwide
  exact UInt32.toNat_inj.mp hwide

/-- Events of different positions have different rows under the primary key. -/
theorem Event.PositionLt.key_ne {a b : Event} (h : a.PositionLt b) :
    ((storedEvent a).height,(storedEvent a).txIndex,(storedEvent a).eventIndex,(storedEvent a).subIndex) ≠
      ((storedEvent b).height,(storedEvent b).txIndex,(storedEvent b).eventIndex,(storedEvent b).subIndex) := by
  intro hkey
  simp only [storedEvent,Store.eventRow,Prod.mk.injEq] at hkey
  obtain ⟨_,htx,hevent,hsub⟩ := hkey
  rw [Event.positionLt_iff,Store.i64OfU32_injective htx,Store.i64OfU32_injective hevent,
    Store.i64OfU32_injective hsub] at h
  rcases h with h | ⟨_,h | ⟨_,h⟩⟩ <;> exact absurd h (UInt32.lt_irrefl _)

/-- The foreign key of `canonical_events`. -/
def EventsReferenced (db : Database) : Prop :=
  ∀ row ∈ db.canonicalEvents, ∃ stored ∈ db.canonicalBlocks, stored.height = row.height

/-- A block row is inserted at a height that no stored block has. -/
theorem Store.insertBlock_fresh (h : Store.insertBlock db delta release = ok db') :
    ∀ stored ∈ db.canonicalBlocks, stored.height ≠ delta.height.toInt64 := by
  simp only [Store.insertBlock,bind_eq_ok,Store.toI64_eq_ok,insertRow_eq_ok,Store.blockAdmitted,
    Bool.and_eq_true] at h
  obtain ⟨_,⟨_,rfl⟩,_,⟨⟨⟨⟨hheight,_⟩,_⟩,_⟩,_⟩,_⟩ := h
  intro stored hstored
  exact of_decide_eq_true (List.all_eq_true.mp hheight stored hstored)

/-- A release whose commits the columns admit. -/
def ReleaseIdentity.Storable (release : ReleaseIdentity) : Prop :=
  Store.isCommit release.parserCommit = true ∧ Store.isCommit release.indexerCommit = true

theorem insertBlock_fresh_ok (hbound : delta.height.toNat < 2 ^ 63) (hrelease : release.Storable)
    (hrows : ∀ row ∈ db.canonicalBlocks,
      row.height ≠ delta.height.toInt64 ∧ row.blockHash ≠ delta.blockHash) :
    Store.insertBlock db delta release =
      ok { db with canonicalBlocks := db.canonicalBlocks ++ [storedBlock delta release] } := by
  have hadmitted : Store.blockAdmitted db.canonicalBlocks
      (Store.blockRow delta release delta.height.toInt64) = true := by
    simp only [Store.blockAdmitted,unique,Bool.and_eq_true,List.all_eq_true,decide_eq_true_eq]
    exact ⟨⟨⟨fun row hrow => (hrows row hrow).1,fun row hrow => (hrows row hrow).2⟩,hrelease.1⟩,hrelease.2⟩
  have hinsert : insertRow Store.blockAdmitted (StoreError.constraint .canonicalBlocks) db.canonicalBlocks
      (Store.blockRow delta release delta.height.toInt64) =
        ok (db.canonicalBlocks ++ [Store.blockRow delta release delta.height.toInt64]) :=
    insertRow_eq_ok.mpr ⟨hadmitted,rfl⟩
  rw [Store.insertBlock,Store.toI64_eq_ok.mpr ⟨hbound,rfl⟩,ok_bind,hinsert]
  rfl

/-- After its block row, every event of a block can be inserted. -/
theorem insertEvents_ordered (hordered : events.Pairwise Event.PositionLt)
    (hheight : ∀ event ∈ events, event.height = delta.height) (hreferenced : EventsReferenced db)
    (hinsert : Store.insertBlock db delta release = ok db') :
    Store.insertEvents db' events =
      ok { db' with canonicalEvents := db'.canonicalEvents ++ events.map storedEvent } := by
  have hfresh := Store.insertBlock_fresh hinsert
  obtain ⟨hbound,rfl⟩ := Store.insertBlock_ok hinsert
  have hstored : ∀ event ∈ events, (storedEvent event).height = delta.height.toInt64 := by
    intro event hevent
    rw [← hheight event hevent]
    rfl
  -- the rows are those of the events, each under a key that no earlier row has
  have hrows : insertEach (Store.eventAdmitted (db.canonicalBlocks ++ [storedBlock delta release]))
      (StoreError.constraint .canonicalEvents) (fun event : Event => do
        let height ← Store.toI64 event.height
        pure (Store.eventRow event height)) db.canonicalEvents events =
      ok (db.canonicalEvents ++ events.map storedEvent) := by
    apply insertEach_admitted
    · intro event hevent
      have hbounded : event.height.toNat < 2 ^ 63 := by rwa [hheight event hevent]
      rw [Store.toI64_eq_ok.mpr ⟨hbounded,rfl⟩]
      rfl
    · rintro earlier event later rfl
      have hevent := hstored event (by simp)
      have hbefore := (List.pairwise_append.mp hordered).2.2
      simp only [Store.eventAdmitted,Bool.and_eq_true,unique,List.all_eq_true,decide_eq_true_eq]
      refine ⟨List.any_eq_true.mpr ⟨storedBlock delta release,by simp,?_⟩,?_⟩
      · rw [hevent]
        simp [storedBlock,Store.blockRow]
      intro row hrow
      rcases List.mem_append.mp hrow with hold | hnew
      · -- an older row would refer to a block stored at this height
        obtain ⟨stored,hmem,hsame⟩ := hreferenced row hold
        intro hkey
        exact hfresh stored hmem (by rw [hsame,(Prod.mk.inj hkey).1,hevent])
      · obtain ⟨other,hother,rfl⟩ := List.mem_map.mp hnew
        exact (hbefore other hother event List.mem_cons_self).key_ne
  rw [Store.insertEvents,hrows]
  rfl

/-- The events of a block are in canonical order under distinct keys, each records its
transaction, and the event root does not depend on the order in which it reads them. -/
theorem applyBlock_event_keys (h : applyBlock P state block = ok (state',.ok delta)) :
    delta.events.Pairwise Event.PositionLt ∧
    (∀ event ∈ delta.events, event.blockHash = block.hash ∧ event.height = block.height ∧
      ∃ tx, block.transactions[event.txIndex.toNat]? = some tx ∧ event.txid = tx.txid ∧
        event.wtxid = tx.wtxid) ∧
    (∀ event ∈ delta.events, event.subIndex ≠ 0 → event.validityClass = .terminalNoncanonical) ∧
    (∀ txIndex, NumberedByKey (terminalEvents txIndex delta.events)) ∧
    (∀ db db' release, EventsReferenced db → Store.insertBlock db delta release = ok db' →
      Store.insertEvents db' delta.events =
        ok { db' with canonicalEvents := db'.canonicalEvents ++ delta.events.map storedEvent }) ∧
    (∀ ns permuted, permuted.Perm delta.events → eventRoot P ns permuted =
      if hempty : delta.events = [] then P.sha256 (eventEmptyPreimage ns)
      else merkle P (delta.events.map (eventLeaf P)) (mt List.map_eq_nil_iff.mp hempty) eventNodeDomain) := by
  obtain ⟨⟨hordered,hfrom⟩,hsub,hnumbered⟩ := applyBlock_emission h
  have hheight : delta.height = block.height := by
    obtain ⟨_,_,reduced,events,_,hseal⟩ := applyBlock_ok h
    obtain ⟨_,rfl⟩ := Prod.mk.inj hseal
    rfl
  refine ⟨hordered,?_,hsub,hnumbered,?_,?_⟩
  · intro event hevent
    obtain ⟨tx,hget,hsource⟩ := hfrom event hevent
    exact ⟨hsource.blockHash,hsource.height,tx,hget,hsource.txid,hsource.wtxid⟩
  · intro db db' release hreferenced hinsert
    refine insertEvents_ordered hordered ?_ hreferenced hinsert
    intro event hevent
    obtain ⟨tx,_,hsource⟩ := hfrom event hevent
    rw [hsource.height,hheight]
  · intro ns permuted hperm
    have hiff : permuted = [] ↔ delta.events = [] := by
      rw [← List.length_eq_zero_iff,hperm.length_eq,List.length_eq_zero_iff]
    unfold eventRoot
    simp only [orderedEvents_perm hordered hperm,hiff]

/-- A block with a quiet transaction, a rejection and the exits of two objects, stored into empty
tables. -/
theorem sample_event_keys : ∃ paired final delta,
    applyBlock bitcoinPrimitives paired exitBlock = ok (final,.ok delta) ∧
    delta.events.map eventPlace =
      [(1,0,0,.invalid),(2,0xffffffff,0,.exitedNoncanonical),(2,0xffffffff,1,.exitedNoncanonical)] ∧
    delta.events.Pairwise Event.PositionLt ∧
    (∀ event ∈ delta.events, event.txIndex = 2 → event.txid = exitBoth.txid) ∧
    NumberedByKey (terminalEvents 2 delta.events) ∧
    (∀ release : ReleaseIdentity, release.Storable → ∃ db', Store.insertBlock .empty delta release = ok db' ∧
      Store.insertEvents db' delta.events = ok { db' with canonicalEvents := delta.events.map storedEvent }) ∧
    ∀ ns, eventRoot bitcoinPrimitives ns delta.events.reverse = eventRoot bitcoinPrimitives ns delta.events := by
  obtain ⟨paired,_,final,delta,_,_,happly,hplaces⟩ := samplePair_run
  obtain ⟨hordered,hsource,_,hnumbered,hinsert,hroot⟩ := applyBlock_event_keys happly
  obtain ⟨_,_,_,hheight,_⟩ := applyBlock_delta happly
  refine ⟨paired,final,delta,happly,hplaces,hordered,?_,hnumbered 2,?_,?_⟩
  · intro event hevent htxIndex
    obtain ⟨_,_,tx,htx,htxid,_⟩ := hsource event hevent
    rw [htxIndex] at htx
    rw [htxid,← Option.some.inj (show some exitBoth = some tx from htx)]
  · intro release hrelease
    have hblock : Store.insertBlock .empty delta release =
        ok { Database.empty with canonicalBlocks := [storedBlock delta release] } :=
      insertBlock_fresh_ok (by rw [hheight]; decide) hrelease (by simp [Database.empty])
    exact ⟨_,hblock,hinsert _ _ _ (by simp [EventsReferenced,Database.empty]) hblock⟩
  · intro ns
    rw [hroot ns _ (List.reverse_perm _),hroot ns _ (.refl _)]

end TandemVerifier
