import TandemVerifier.Library.Table
import TandemVerifier.Core.Reducer

/-! # The transactional canonical store

The tables of `migrations/0001_initial.sql` and the statements of `store.rs` over
them. A `jsonb` column holds the value it encodes, the clock columns are left out and
the rows of the reorganization journal stand in the order of their serial identifiers.
Each method is one transaction: it returns the database it commits, and an error
commits nothing.
-/
namespace TandemVerifier
open Library Library.Outcome Library.Table

structure ReleaseIdentity where
  parserCommit : String
  indexerCommit : String
  parserBinarySha256 : Hash32
  indexerBinarySha256 : Hash32
deriving DecidableEq

structure ProtocolRow where
  binding : Binding
  state : ChainState
deriving DecidableEq

/-- A row of `canonical_blocks`, with the counter and the release columns grouped. -/
structure BlockRow where
  height : Int64
  blockHash : Hash32
  previousHash : Hash32
  eventRoot : Hash32
  objectStateRoot : Hash32
  chainedRoot : Hash32
  counters : Counters
  release : ReleaseIdentity
  inverseDelta : BlockDelta
deriving DecidableEq

structure EventRow where
  height : Int64
  txIndex : Int64
  eventIndex : Int64
  subIndex : Int64
  txid : Hash32
  objectKey : Hash32
  eventType : Int16
  validityClass : Int16
  reason : Int32
  payload : Event
deriving DecidableEq

structure ObjectRow where
  objectKey : Hash32
  currentTxid : Hash32
  currentVout : Int64
  status : Int16
  createHeight : Int64
  stateSeq : Int64
  payload : ObjectState
deriving DecidableEq

structure MempoolRow where
  txid : Hash32
  payload : TxView
deriving DecidableEq

structure ReorgRow where
  disconnectedHeight : Int64
  disconnectedHash : Hash32
  restoredHeight : Option Int64
  restoredHash : Option Hash32
deriving DecidableEq

structure Database where
  protocolState : Option ProtocolRow
  canonicalBlocks : List BlockRow
  canonicalEvents : List EventRow
  canonicalObjects : List ObjectRow
  mempoolOverlay : List MempoolRow
  reorgJournal : List ReorgRow
deriving DecidableEq

inductive TableName where
  | canonicalBlocks
  | canonicalEvents
  | canonicalObjects
  | mempoolOverlay
deriving DecidableEq

inductive StoreError where
  | anotherDeployment
  | rowNotFound
  | postStateHeight
  | postStateHash
  | stateChanged
  | heightOutOfRange
  | constraint (table : TableName)
  | noInverseJournal
  | journalMismatch (error : ReducerError)
deriving DecidableEq

/-- Canonical roots with the release that produced them. -/
structure PersistedHeight where
  roots : HeightRoots
  release : ReleaseIdentity
deriving DecidableEq

/-- The tables after the migrations. -/
def Database.empty : Database := ⟨none,[],[],[],[],[]⟩

namespace Store

def toI64 (value : UInt64) : Outcome StoreError Int64 :=
  if value.toNat < 2 ^ 63 then pure value.toInt64 else .err .heightOutOfRange

def i64OfU32 (value : UInt32) : Int64 := value.toUInt64.toInt64
def i16OfU8 (value : UInt8) : Int16 := value.toUInt16.toInt16
def i32OfU16 (value : UInt16) : Int32 := value.toUInt32.toInt32

/-- The check `~ '^[0-9a-f]{40}$'` of the commit columns. -/
def isCommit (text : String) : Bool :=
  text.toList.length == 40 &&
    text.toList.all fun c => ('0' ≤ c && c ≤ '9') || ('a' ≤ c && c ≤ 'f')

def blockRow (delta : BlockDelta) (release : ReleaseIdentity) (height : Int64) : BlockRow where
  height := height
  blockHash := delta.blockHash
  previousHash := delta.previousHash
  eventRoot := delta.roots.eventRoot
  objectStateRoot := delta.roots.objectStateRoot
  chainedRoot := delta.roots.chainedRoot
  counters := delta.roots.counters
  release := release
  inverseDelta := delta

def eventRow (event : Event) (height : Int64) : EventRow where
  height := height
  txIndex := i64OfU32 event.txIndex
  eventIndex := i64OfU32 event.eventIndex
  subIndex := i64OfU32 event.subIndex
  txid := event.txid
  objectKey := event.objectKey
  eventType := i16OfU8 event.eventType.code
  validityClass := i16OfU8 event.validityClass.code
  reason := i32OfU16 event.reason.code
  payload := event

def objectRow (object : ObjectState) (createHeight : Int64) : ObjectRow where
  objectKey := object.objectKey
  currentTxid := object.currentOutpoint.txid
  currentVout := i64OfU32 object.currentOutpoint.vout
  status := i16OfU8 object.status.code
  createHeight := createHeight
  stateSeq := i64OfU32 object.stateSeq
  payload := object

def blockAdmitted (rows : List BlockRow) (row : BlockRow) : Bool :=
  unique BlockRow.height rows row && unique BlockRow.blockHash rows row &&
    isCommit row.release.parserCommit && isCommit row.release.indexerCommit

/-- The foreign key to the block row and the primary key of an event. -/
def eventAdmitted (blocks : List BlockRow) (rows : List EventRow) (row : EventRow) : Bool :=
  (blocks.any fun block => block.height = row.height) &&
    unique (fun row : EventRow => (row.height,row.txIndex,row.eventIndex,row.subIndex)) rows row

/-- `SELECT state`, with or without a row lock. -/
def loadState (db : Database) : Outcome StoreError ChainState :=
  okOr (db.protocolState.map ProtocolRow.state) .rowNotFound

def saveState (db : Database) (state : ChainState) : Database :=
  { db with protocolState := db.protocolState.map fun row => { row with state := state } }

def insertBlock (db : Database) (delta : BlockDelta) (release : ReleaseIdentity) :
    Outcome StoreError Database := do
  let height ← toI64 delta.height
  let rows ← insertRow blockAdmitted (.constraint .canonicalBlocks) db.canonicalBlocks
    (blockRow delta release height)
  pure { db with canonicalBlocks := rows }

def insertEvents (db : Database) (events : List Event) : Outcome StoreError Database := do
  let rows ← insertEach (eventAdmitted db.canonicalBlocks) (.constraint .canonicalEvents)
    (fun event : Event => do
      let height ← toI64 event.height
      pure (eventRow event height)) db.canonicalEvents events
  pure { db with canonicalEvents := rows }

/-- Delete and rewrite the whole object projection. -/
def syncObjects (db : Database) (state : ChainState) : Outcome StoreError Database := do
  let rows ← insertEach (unique ObjectRow.objectKey) (.constraint .canonicalObjects)
    (fun object : ObjectState => do
      let height ← toI64 object.createHeight
      pure (objectRow object height)) [] state.objectValues
  pure { db with canonicalObjects := rows }

/-- Bind an empty database to one deployment, or load the state of its own. -/
def bindOrLoad (P : Primitives) (db : Database) (binding : Binding) :
    Outcome StoreError (Database × ChainState) :=
  match db.protocolState with
  | some row => do
    failIf (row.binding != binding) .anotherDeployment
    pure (db,row.state)
  | none =>
    let state := ChainState.new P binding
    pure ({ db with protocolState := some ⟨binding,state⟩ },state)

/-- Persist one post-block state, its events, roots and inverse journal. -/
def applyBlock (db : Database) (postState : ChainState) (delta : BlockDelta)
    (release : ReleaseIdentity) : Outcome StoreError Database := do
  failIf (postState.tipHeight != some delta.height) .postStateHeight
  failIf (postState.tipHash != some delta.blockHash) .postStateHash
  let stored ← loadState db
  failIf (stored != delta.before) .stateChanged
  let db ← insertBlock db delta release
  let db ← insertEvents db delta.events
  let db ← syncObjects db postState
  pure (saveState db postState)

/-- `DELETE FROM canonical_blocks`, which cascades to the events of the height. -/
def deleteBlock (db : Database) (height : Int64) : Database :=
  { db with
    canonicalBlocks := db.canonicalBlocks.filter fun row => row.height ≠ height
    canonicalEvents := db.canonicalEvents.filter fun row => row.height ≠ height }

/-- `restored_height` of the journal: `tip_height.map(to_i64).transpose()`. -/
def restoredHeight (state : ChainState) : Outcome StoreError (Option Int64) :=
  match state.tipHeight with
  | none => pure none
  | some height => do
    let value ← toI64 height
    pure (some value)

/-- Roll back exactly one canonical tip and journal the reorganization. -/
def rollbackTip (db : Database) : Outcome StoreError (Database × Option ChainState) := do
  let state ← loadState db
  match state.tipHeight with
  | none => pure (db,none)
  | some tipHeight =>
    let height ← toI64 tipHeight
    let row ← okOr (db.canonicalBlocks.find? fun row => row.height = height) .noInverseJournal
    let delta := row.inverseDelta
    match disconnectBlock state delta with
    | (_,.error error) => .err (.journalMismatch error)
    | (state,.ok ()) =>
      let db ← syncObjects (deleteBlock db height) state
      let db := saveState db state
      let restored ← restoredHeight state
      let entry : ReorgRow := ⟨height,delta.blockHash,restored,state.tipHash⟩
      pure ({ db with reorgJournal := db.reorgJournal ++ [entry] },some state)

/-- Replace the provisional mempool overlay. -/
def replaceMempool (db : Database) (transactions : List TxView) : Outcome StoreError Database := do
  let rows ← insertEach (unique MempoolRow.txid) (.constraint .mempoolOverlay)
    (fun tx : TxView => pure (⟨tx.txid,tx⟩ : MempoolRow)) [] transactions
  pure { db with mempoolOverlay := rows }

def rootsFromRow (height : UInt64) (row : BlockRow) : PersistedHeight where
  roots := ⟨height,row.blockHash,row.eventRoot,row.objectStateRoot,row.chainedRoot,row.counters⟩
  release := row.release

/-- Read a canonical height root tuple. -/
def rootsAt (db : Database) (height : UInt64) : Outcome StoreError (Option PersistedHeight) := do
  let key ← toI64 height
  pure ((db.canonicalBlocks.find? fun row => row.height = key).map (rootsFromRow height))

end Store
end TandemVerifier
