import Mathlib.Data.Prod.Lex
import TandemVerifier.Core.Persistence
import TandemVerifier.Reduction.Frame
import TandemVerifier.Service.Availability
import TandemVerifier.Service.Identity

/-! # The read API answers from the recorded run

The read queries of `store.rs` and the handlers of `api.rs` over them. The tables have
been written by any number of workers, and rows lie in them in an order that no query
relies on: every answer is stated over the run of blocks that the tables record.
-/
namespace TandemVerifier
open Library Library.Outcome Library.Table
variable {P : Primitives} {good : BlockView → Prop} {db : Database} {binding : Binding}
variable {state : ChainState} {blocks : List BlockView} {deltas : List BlockDelta}

section Statements

namespace Store

/-- Read one object by binary object key. -/
def object (db : Database) (key : Hash32) : Option ObjectState :=
  (db.canonicalObjects.find? fun row => row.objectKey = key).map ObjectRow.payload

/-- The row of an active carrier at an exact wire-order outpoint. -/
def isCarrierAt (txid : Hash32) (vout : UInt32) (row : ObjectRow) : Bool :=
  row.currentTxid = txid ∧ row.currentVout = i64OfU32 vout ∧ row.status = 0

def carrierRows (db : Database) (txid : Hash32) (vout : UInt32) : List ObjectRow :=
  db.canonicalObjects.filter (isCarrierAt txid vout)

/-- Read one active carrier; `fetch_optional` takes the first row. -/
def carrier (db : Database) (txid : Hash32) (vout : UInt32) : Option ObjectState :=
  (carrierRows db txid vout).head?.map ObjectRow.payload

/-- `ORDER BY height DESC, tx_index, event_index, sub_index`. -/
def listing (row : EventRow) : ℤ ×ₗ ℤ ×ₗ ℤ ×ₗ ℤ :=
  toLex (-row.height.toInt,toLex (row.txIndex.toInt,toLex (row.eventIndex.toInt,row.subIndex.toInt)))

/-- `height.map(to_i64).transpose()`. -/
def heightFilter : Option UInt64 → Outcome StoreError (Option Int64)
  | none => pure none
  | some height => do
    let key ← toI64 height
    pure (some key)

/-- Read bounded events with optional height and object filters. -/
def events (db : Database) (height : Option UInt64) (objectKey : Option Hash32) :
    Outcome StoreError (List Event) := do
  let height ← heightFilter height
  pure ((select (fun row : EventRow => height.all (row.height = ·) && objectKey.all (row.objectKey = ·))
    listing 500 db.canonicalEvents).map EventRow.payload)

/-- Read bounded invalid and noncanonical events. -/
def invalidEvents (db : Database) : List Event :=
  (select (fun row : EventRow => row.validityClass ≠ 1) listing 500 db.canonicalEvents).map
    EventRow.payload

/-- `SELECT count(*) FROM canonical_events WHERE validity_class <> 1`. -/
def countInvalid (db : Database) : ℕ := db.canonicalEvents.countP fun row => row.validityClass ≠ 1

end Store

/-- An error of a read handler; a malformed path or query is the client's. -/
inductive QueryError where
  | badRequest (message : String)
  | api (error : ApiError)
deriving DecidableEq

namespace Api

/-- The text of a hash in a path or a query. -/
def parseHash (value label : String) : Except QueryError Hash32 :=
  match Hash32.fromHex value with
  | .ok hash => .ok hash
  | .error _ => .error (.badRequest ("invalid " ++ label))

/-- Any error of the store is an internal one. -/
def fromStore {α : Type} : Outcome StoreError α → Except QueryError α
  | .ok value => .ok value
  | _ => .error (.api .internal)

def orNotFound (found : Option ObjectState) (message : String) : Except QueryError Json :=
  match found with
  | some payload => .ok (toValue payload)
  | none => .error (.api (.notFound message))

/-- `GET /tandem/objects/(object_key)`. -/
def object (db : Database) (objectKey : String) : Except QueryError Json := do
  let key ← parseHash objectKey "object key"
  orNotFound (Store.object db key) "object not found"

/-- `GET /tandem/carriers/(txid)/(vout)`. -/
def carrier (db : Database) (txid : String) (vout : UInt32) : Except QueryError Json :=
  match wireHash txid with
  | .ok txid => orNotFound (Store.carrier db txid vout) "active carrier not found"
  | .error _ => .error (.badRequest "invalid display-order txid")

/-- `object_key.map(parse_hash).transpose()`. -/
def keyFilter : Option String → Except QueryError (Option Hash32)
  | none => .ok none
  | some value => do
    let key ← parseHash value "object key"
    .ok (some key)

/-- `GET /tandem/events` with its optional filters. -/
def events (db : Database) (height : Option UInt64) (objectKey : Option String) :
    Except QueryError (List Json) := do
  let key ← keyFilter objectKey
  let found ← fromStore (Store.events db height key)
  .ok (found.map toValue)

/-- `GET /tandem/invalid`. -/
def invalidEvents (db : Database) : List Json := (Store.invalidEvents db).map toValue

end Api

end Statements

section Listing

/-- The events of a run, the newest block first and each block in its own order. -/
def listed (deltas : List BlockDelta) : List Event := deltas.reverse.flatMap BlockDelta.events

theorem Store.i64OfU32_toInt (value : UInt32) : (Store.i64OfU32 value).toInt = value.toNat := by
  have hlt := value.toNat_lt
  have hbound : value.toUInt64.toNat < 2 ^ 63 := by
    rw [UInt32.toNat_toUInt64]
    omega
  rw [Store.i64OfU32,Store.toInt_toInt64 hbound,UInt32.toNat_toUInt64]

/-- Positions within one height are listed in ascending order. -/
theorem Event.PositionLt.listing_lt {a b : Event} (h : a.PositionLt b) (hheight : a.height = b.height) :
    Store.listing (storedEvent a) < Store.listing (storedEvent b) := by
  rw [Event.positionLt_iff] at h
  simp only [UInt32.lt_iff_toNat_lt,← UInt32.toNat_inj] at h
  simp only [Store.listing,storedEvent,Store.eventRow,Store.i64OfU32_toInt,hheight,Prod.Lex.toLex_lt_toLex]
  exact Or.inr ⟨trivial,by exact_mod_cast h⟩

/-- Heights are listed in descending order. -/
theorem listing_lt_of_height {a b : Event} (ha : a.height.toNat < 2 ^ 63) (hb : b.height.toNat < 2 ^ 63)
    (h : b.height < a.height) : Store.listing (storedEvent a) < Store.listing (storedEvent b) := by
  rw [UInt64.lt_iff_toNat_lt] at h
  simp only [Store.listing,storedEvent,Store.eventRow,Store.toInt_toInt64 ha,Store.toInt_toInt64 hb,
    Prod.Lex.toLex_lt_toLex]
  omega

theorem Records.event_bounded (h : Records P db binding state blocks deltas) {delta : BlockDelta}
    (hdelta : delta ∈ deltas) {event : Event} (hevent : event ∈ delta.events) :
    event.height = delta.height ∧ event.height.toNat < 2 ^ 63 := by
  have hheight := applyBlocks_event_height h.run hdelta event hevent
  exact ⟨hheight,hheight ▸ h.bounded delta hdelta⟩

theorem Records.delta_ordered (h : Records P db binding state blocks deltas) {delta : BlockDelta}
    (hdelta : delta ∈ deltas) : delta.events.Pairwise Event.PositionLt := by
  obtain ⟨_,_,_,_,_,_,_,_,happly⟩ := applyBlocks_mem h.run hdelta
  exact (applyBlock_ordered happly).1

/-- The listed events have strictly increasing keys. -/
theorem Records.listed_sorted (h : Records P db binding state blocks deltas) :
    (listed deltas).Pairwise fun a b => Store.listing (storedEvent a) < Store.listing (storedEvent b) := by
  rw [listed,List.pairwise_flatMap]
  constructor
  · intro delta hdelta
    have hmem := List.mem_reverse.mp hdelta
    apply (h.delta_ordered hmem).imp_of_mem
    intro a b ha hb hlt
    exact hlt.listing_lt ((h.event_bounded hmem ha).1.trans (h.event_bounded hmem hb).1.symm)
  · rw [List.pairwise_reverse]
    apply (applyBlocks_heights h.run).imp_of_mem
    intro lower upper hlower hupper hlt a ha b hb
    obtain ⟨haheight,habound⟩ := h.event_bounded hupper ha
    obtain ⟨hbheight,hbbound⟩ := h.event_bounded hlower hb
    exact listing_lt_of_height habound hbbound (by rwa [haheight,hbheight])

theorem Records.listed_perm (h : Records P db binding state blocks deltas) :
    ((listed deltas).map storedEvent).Perm db.canonicalEvents := by
  rw [h.events,listed,List.map_flatMap]
  exact (List.reverse_perm deltas).flatMap_right _

/-- Every bounded query over the event table selects from the listed events. -/
theorem Records.select_events (h : Records P db binding state blocks deltas) {keep : EventRow → Bool}
    {wanted : Event → Bool} {limit : ℕ} (hkeep : ∀ event ∈ listed deltas, keep (storedEvent event) = wanted event) :
    (select keep Store.listing limit db.canonicalEvents).map EventRow.payload =
      ((listed deltas).filter wanted).take limit := by
  have hsorted : ((listed deltas).map storedEvent).Pairwise fun a b => Store.listing a < Store.listing b :=
    List.pairwise_map.mpr h.listed_sorted
  have hpayload : ∀ events : List Event, (events.map storedEvent).map EventRow.payload = events := by
    intro events
    rw [List.map_map]
    exact List.map_id'' (fun _ => rfl) events
  rw [select_eq h.listed_perm hsorted,List.filter_map,← List.map_take,hpayload]
  congr 1
  exact List.filter_congr hkeep

end Listing

section Events

/-- The filters of `GET /tandem/events`. -/
def Event.matches (height : Option UInt64) (objectKey : Option Hash32) (event : Event) : Bool :=
  height.all (event.height = ·) && objectKey.all (event.objectKey = ·)

def Event.isInvalid (event : Event) : Bool := event.validityClass ≠ .validOperation

theorem storedEvent_invalid (event : Event) :
    decide ((storedEvent event).validityClass ≠ 1) = event.isInvalid := by
  have hclass : (storedEvent event).validityClass = Store.i16OfU8 event.validityClass.code := rfl
  rw [hclass,Event.isInvalid]
  cases event.validityClass <;> decide

theorem Store.heightFilter_ok {height : Option UInt64} (h : ∀ value ∈ height, value.toNat < 2 ^ 63) :
    Store.heightFilter height = ok (height.map UInt64.toInt64) := by
  cases height with
  | none => rfl
  | some value =>
    rw [Store.heightFilter,Store.toI64_eq_ok.mpr ⟨h value rfl,rfl⟩]
    rfl

theorem Records.events_eq (h : Records P db binding state blocks deltas) {height : Option UInt64}
    (hheight : ∀ value ∈ height, value.toNat < 2 ^ 63) (objectKey : Option Hash32) :
    Store.events db height objectKey =
      ok (((listed deltas).filter (Event.matches height objectKey)).take 500) := by
  rw [Store.events,Store.heightFilter_ok hheight,ok_bind,pure_eq_ok,h.select_events]
  intro event _
  cases height with
  | none => rfl
  | some value =>
    have hsame : ((storedEvent event).height = value.toInt64) ↔ event.height = value :=
      ⟨Store.toInt64_injective,fun heq => by rw [← heq]; rfl⟩
    simp only [Option.map_some,Option.all_some,hsame]
    rfl

theorem Records.invalidEvents_eq (h : Records P db binding state blocks deltas) :
    Store.invalidEvents db = ((listed deltas).filter Event.isInvalid).take 500 :=
  h.select_events fun event _ => storedEvent_invalid event

theorem Records.countInvalid_eq (h : Records P db binding state blocks deltas) :
    Store.countInvalid db = (listed deltas).countP Event.isInvalid := by
  rw [Store.countInvalid,← h.listed_perm.countP_eq,List.countP_map]
  apply List.countP_congr
  intro event _
  rw [← storedEvent_invalid]
  rfl

/-- The events of one block are exactly those of its height. -/
theorem listed_height (h : Records P db binding state blocks deltas) {delta : BlockDelta}
    (hdelta : delta ∈ deltas) :
    (listed deltas).filter (Event.matches (some delta.height) none) = delta.events := by
  obtain ⟨lower,upper,rfl⟩ := List.append_of_mem hdelta
  have hheights := List.pairwise_append.mp (applyBlocks_heights h.run)
  have hother : ∀ {rest : List BlockDelta}, (∀ other ∈ rest, other ∈ lower ++ delta :: upper ∧
      other.height ≠ delta.height) →
      (rest.reverse.flatMap BlockDelta.events).filter (Event.matches (some delta.height) none) = [] := by
    intro rest hrest
    apply List.filter_eq_nil_iff.mpr
    intro event hevent
    obtain ⟨other,hmem,hother⟩ := List.mem_flatMap.mp hevent
    obtain ⟨hin,hne⟩ := hrest other (List.mem_reverse.mp hmem)
    simpa [Event.matches,(h.event_bounded hin hother).1] using hne
  have hown : delta.events.filter (Event.matches (some delta.height) none) = delta.events := by
    apply List.filter_eq_self.mpr
    intro event hevent
    simp [Event.matches,(h.event_bounded hdelta hevent).1]
  rw [listed,List.reverse_append,List.reverse_cons,List.flatMap_append,List.flatMap_append,
    List.flatMap_singleton,List.filter_append,List.filter_append,hown,hother,hother]
  · simp
  · intro other hmem
    refine ⟨by simp [hmem],?_⟩
    exact UInt64.ne_of_lt (hheights.2.2 other hmem delta (by simp))
  · intro other hmem
    refine ⟨by simp [hmem],?_⟩
    exact (UInt64.ne_of_lt ((List.pairwise_cons.mp hheights.2.1).1 other hmem)).symm

/-- Whatever writers have committed, the event endpoints list the events of the recorded run:
newest block first, each block in its own order, filtered and cut off after 500 entries. -/
theorem event_queries_canonical (h : Committed P good db) {row : ProtocolRow}
    (hrow : db.protocolState = some row) :
    ∃ blocks deltas, (∀ block ∈ blocks, good block) ∧
      Canonical P db row.binding row.state blocks deltas ∧
      (∀ height text key, Api.keyFilter text = .ok key → (∀ value ∈ height, value.toNat < 2 ^ 63) →
        Api.events db height text =
          .ok ((((listed deltas).filter (Event.matches height key)).take 500).map toValue)) ∧
      (∀ delta ∈ deltas, Api.events db (some delta.height) none =
        .ok ((delta.events.take 500).map toValue)) ∧
      Api.invalidEvents db = (((listed deltas).filter Event.isInvalid).take 500).map toValue ∧
      Store.countInvalid db = (listed deltas).countP Event.isInvalid := by
  obtain ⟨blocks,deltas,hrecords,hgood⟩ := h.sound.records hrow
  have hevents : ∀ height text key, Api.keyFilter text = .ok key →
      (∀ value ∈ height, value.toNat < 2 ^ 63) → Api.events db height text =
        .ok ((((listed deltas).filter (Event.matches height key)).take 500).map toValue) := by
    intro height text key hkey hheight
    rw [Api.events,hkey]
    change (Api.fromStore (Store.events db height key) >>= fun found => Except.ok (found.map toValue)) = _
    rw [hrecords.events_eq hheight key]
    rfl
  refine ⟨blocks,deltas,hgood,hrecords.canonical,hevents,?_,?_,hrecords.countInvalid_eq⟩
  · intro delta hdelta
    rw [hevents (some delta.height) none none rfl,listed_height hrecords hdelta]
    rintro _ ⟨rfl⟩
    exact hrecords.bounded delta hdelta
  · rw [Api.invalidEvents,hrecords.invalidEvents_eq]

/-- The stored sample has three events, all of them valid. -/
theorem sample_event_queries : ∃ db answer,
    Committed bitcoinPrimitives (fun block => block ∈ sampleBlocks) db ∧
      Api.events db none none = .ok answer ∧ answer.Perm (sampleLog.map toValue) ∧
      Api.invalidEvents db = [] := by
  obtain ⟨db,final,deltas,hcommitted,hrecords,hlog⟩ := sample_stored
  obtain ⟨_,found,_,hcanonical,hevents,_,hinvalid,_⟩ :=
    event_queries_canonical hcommitted hrecords.stored
  obtain rfl : found = deltas := hcanonical.journal.symm.trans hrecords.journal
  have hperm : (listed found).Perm sampleLog := by
    rw [← hlog]
    exact (List.reverse_perm found).flatMap_right _
  have hnone : (listed found).filter Event.isInvalid = [] := by
    apply List.filter_eq_nil_iff.mpr
    intro event hevent
    have hmem := hperm.subset hevent
    simp only [sampleLog,List.mem_cons,List.not_mem_nil,or_false] at hmem
    rcases hmem with rfl | rfl | rfl <;> simp [Event.isInvalid,validInitEvent,validEventBase]
  have hall : (listed found).filter (Event.matches none none) = listed found :=
    List.filter_eq_self.mpr fun _ _ => rfl
  refine ⟨db,_,hcommitted,hevents none none none rfl (by simp),?_,?_⟩
  · rw [hall,List.take_of_length_le (by rw [hperm.length_eq]; decide)]
    exact hperm.map _
  · rw [hinvalid,hnone]
    rfl

end Events

section Objects

theorem Records.object_eq (h : Records P db binding state blocks deltas) (key : Hash32) :
    Store.object db key = state.objects[key]? := by
  have hkeep : ∀ (found : Hash32) (object : ObjectState), state.objects[found]? = some object →
      (decide (object.objectKey = key) = true ↔ some key = some found) := by
    intro found object hobject
    rw [applyBlocks_keyed h.run found object hobject,decide_eq_true_iff,Option.some.injEq,eq_comm]
  have hrows : state.objects.toList.filter (fun entry => decide (entry.2.objectKey = key)) = _ :=
    filter_toList_eq hkeep
  have hfind : Store.object db key =
      ((state.objects.toList.filter fun entry => decide (entry.2.objectKey = key)).head?).map Prod.snd := by
    rw [Store.object,h.objects,ChainState.objectValues,List.map_map,List.find?_map,List.head?_filter,
      Option.map_map]
    rfl
  rw [hfind,hrows]
  cases hobject : state.objects[key]? <;> simp [hobject]

theorem orNotFound_eq_ok {found : Option ObjectState} {message : String} {object : ObjectState} :
    Api.orNotFound found message = .ok (toValue object) ↔ found = some object := by
  cases found with
  | none => simp [Api.orNotFound]
  | some payload =>
    simp only [Api.orNotFound,Except.ok.injEq,Option.some.injEq]
    refine ⟨fun heq => ?_,fun heq => by rw [heq]⟩
    have hread := congrArg (fun value => (fromValue value : Option ObjectState)) heq
    simpa [Lossless.fromValue_toValue] using hread

theorem orNotFound_eq_error {found : Option ObjectState} {message : String} :
    Api.orNotFound found message = .error (.api (.notFound message)) ↔ found = none := by
  cases found <;> simp [Api.orNotFound]

theorem i16OfU8_active (status : ObjectStatus) : Store.i16OfU8 status.code = 0 ↔ status = .active := by
  cases status <;> decide

theorem isCarrierAt_stored {object : ObjectState} {txid : Hash32} {vout : UInt32} :
    Store.isCarrierAt txid vout (storedObject object) = true ↔
      object.status = .active ∧ object.currentOutpoint = ⟨txid,vout⟩ := by
  have hvout : (storedObject object).currentVout = Store.i64OfU32 vout ↔
      object.currentOutpoint.vout = vout :=
    ⟨Store.i64OfU32_injective,fun heq => by rw [← heq]; rfl⟩
  have hstatus : (storedObject object).status = 0 ↔ object.status = .active := i16OfU8_active _
  have hpoint : object.currentOutpoint = ⟨txid,vout⟩ ↔
      object.currentOutpoint.txid = txid ∧ object.currentOutpoint.vout = vout := by
    cases object.currentOutpoint
    simp
  rw [Store.isCarrierAt,decide_eq_true_iff,hvout,hstatus,hpoint]
  constructor
  · rintro ⟨htxid,hvalue,hactive⟩
    exact ⟨hactive,htxid,hvalue⟩
  · rintro ⟨hactive,htxid,hvalue⟩
    exact ⟨htxid,hvalue,hactive⟩

/-- The rows of active carriers at an outpoint are those of the object indexed there. -/
theorem Records.carrierRows_eq (h : Records P db binding state blocks deltas)
    (hindex : ActiveBijection state) (txid : Hash32) (vout : UInt32) :
    Store.carrierRows db txid vout =
      ((state.active[(⟨txid,vout⟩ : OutPointRef)]?.bind fun key => state.objects[key]?).map
        storedObject).toList := by
  have hkeep : ∀ (key : Hash32) (object : ObjectState), state.objects[key]? = some object →
      (Store.isCarrierAt txid vout (storedObject object) = true ↔
        state.active[(⟨txid,vout⟩ : OutPointRef)]? = some key) := by
    intro key object hobject
    rw [isCarrierAt_stored,hindex]
    constructor
    · rintro ⟨hactive,houtpoint⟩
      exact ⟨object,hobject,applyBlocks_keyed h.run key object hobject,hactive,houtpoint⟩
    · rintro ⟨found,hfound,_,hactive,houtpoint⟩
      obtain rfl := Option.some.inj (hobject.symm.trans hfound)
      exact ⟨hactive,houtpoint⟩
  have hrows : state.objects.toList.filter (fun entry => Store.isCarrierAt txid vout (storedObject entry.2)) =
      _ := filter_toList_eq hkeep
  have hcarriers : Store.carrierRows db txid vout = (state.objects.toList.filter fun entry =>
      Store.isCarrierAt txid vout (storedObject entry.2)).map fun entry => storedObject entry.2 := by
    rw [Store.carrierRows,h.objects,ChainState.objectValues,List.map_map,List.filter_map]
    rfl
  rw [hcarriers,hrows]
  cases state.active[(⟨txid,vout⟩ : OutPointRef)]? with
  | none => rfl
  | some key =>
    rw [Option.bind_some,Option.bind_some]
    cases state.objects[key]? <;> rfl

/-- The object endpoints show the state that the recorded run has reached, and a carrier is
shown exactly when the reducer would find it. -/
theorem object_queries_canonical (h : Committed P good db) {row : ProtocolRow}
    (hrow : db.protocolState = some row) :
    ∃ blocks deltas, (∀ block ∈ blocks, good block) ∧
      Canonical P db row.binding row.state blocks deltas ∧
      (∀ text key, Hash32.fromHex text = .ok key →
        (∀ object, Api.object db text = .ok (toValue object) ↔ row.state.objects[key]? = some object) ∧
        (Api.object db text = .error (.api (.notFound "object not found")) ↔
          row.state.objects[key]? = none)) ∧
      (Distinct P row.binding (placedTransactions blocks) → ∀ text txid vout, wireHash text = .ok txid →
        (Store.carrierRows db txid vout).length ≤ 1 ∧
        (∀ object, Api.carrier db text vout = .ok (toValue object) ↔
          ∃ key : Hash32, row.state.active[(⟨txid,vout⟩ : OutPointRef)]? = some key ∧
            row.state.objects[key]? = some object) ∧
        (Api.carrier db text vout = .error (.api (.notFound "active carrier not found")) ↔
          row.state.active[(⟨txid,vout⟩ : OutPointRef)]? = none)) := by
  obtain ⟨blocks,deltas,hrecords,hgood⟩ := h.sound.records hrow
  refine ⟨blocks,deltas,hgood,hrecords.canonical,?_,?_⟩
  · intro text key htext
    have hanswer : Api.object db text = Api.orNotFound (row.state.objects[key]?) "object not found" := by
      rw [Api.object,Api.parseHash,htext,← hrecords.object_eq]
      rfl
    rw [hanswer]
    exact ⟨fun object => orNotFound_eq_ok,orNotFound_eq_error⟩
  · intro hdistinct text txid vout htext
    have hindex := ((run_reached hrecords.run).indexed hdistinct).activeBijection
    have hrows := hrecords.carrierRows_eq hindex txid vout
    have hanswer : Api.carrier db text vout = Api.orNotFound
        (row.state.active[(⟨txid,vout⟩ : OutPointRef)]?.bind fun key => row.state.objects[key]?)
        "active carrier not found" := by
      rw [Api.carrier,htext]
      change Api.orNotFound (Store.carrier db txid vout) _ = _
      rw [Store.carrier,hrows]
      cases row.state.active[(⟨txid,vout⟩ : OutPointRef)]?.bind fun key => row.state.objects[key]? <;> rfl
    refine ⟨?_,?_,?_⟩
    · rw [hrows]
      cases row.state.active[(⟨txid,vout⟩ : OutPointRef)]?.bind fun key => row.state.objects[key]? <;> simp
    · intro object
      rw [hanswer,orNotFound_eq_ok,Option.bind_eq_some_iff]
    · rw [hanswer,orNotFound_eq_error]
      cases hactive : row.state.active[(⟨txid,vout⟩ : OutPointRef)]? with
      | none => simp
      | some key =>
        obtain ⟨object,hobject,_⟩ := (hindex _ _).mp hactive
        simp [hobject]

/-- The carrier of the stored sample is found by its outpoint and by its object key. -/
theorem sample_object_queries : ∃ (db : Database) (object : ObjectState),
    Committed bitcoinPrimitives (fun block => block ∈ sampleBlocks) db ∧
      Api.carrier db (displayHash sampleRotate.txid) 1 = .ok (toValue object) ∧
      Api.object db (Hash32.toHex sampleKey) = .ok (toValue object) := by
  obtain ⟨db,final,deltas,hcommitted,hrecords,_⟩ := sample_stored
  obtain ⟨hactive,object,hobject⟩ := sampleBlocks_carrier hrecords.run
  obtain ⟨blocks,found,hgood,hcanonical,hobjects,hcarriers⟩ :=
    object_queries_canonical hcommitted hrecords.stored
  have hheaders : blocks.map BlockView.header = sampleBlocks.map BlockView.header := by
    rw [← applyBlocks_headers hcanonical.run,← hcanonical.journal,← applyBlocks_headers hrecords.run,
      hrecords.journal]
  obtain rfl := sampleBlocks_determined hgood hheaders
  have htext : Hash32.fromHex (Hash32.toHex sampleKey) = .ok sampleKey := Hex.decodeToSlice_encode sampleKey
  refine ⟨db,object,hcommitted,?_,((hobjects _ _ htext).1 object).mpr hobject⟩
  exact ((hcarriers sample_distinct _ _ 1 (wireHash_displayHash sampleRotate.txid)).2.1 object).mpr
    ⟨sampleKey,hactive,hobject⟩

end Objects
end TandemVerifier
