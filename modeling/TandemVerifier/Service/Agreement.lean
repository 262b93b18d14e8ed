import TandemVerifier.Reduction.Representation
import TandemVerifier.Service.Writers

/-! # The signing gate

`agreement` of `api.rs` as an automaton that stops at each of its five reads, beside the
worker, other writers and a node whose chain changes at any time. The row that is signed
is read in one query, so its fields belong together; the status of the chain it belongs
to was checked by an earlier query, and a failed INIT may have been stored in between.
-/
namespace TandemVerifier
open Library Library.Outcome

section Signer

/-- Lowercase hexadecimal, `hex::encode`. -/
def hexEncode (bytes : Bytes) : String :=
  String.ofList (bytes.flatMap fun byte =>
    [Nat.digitChar (byte.toNat / 16),Nat.digitChar (byte.toNat % 16)])

/-- Reverse a wire-order hash for conventional display. -/
def displayHash (hash : Hash32) : String := hexEncode hash.toList.reverse

def Network.label : Network → String
  | mainnet => "mainnet"
  | signet => "signet"
  | testnet4 => "testnet4"
  | regtest => "regtest"

def Binding.protocolId (binding : Binding) : String :=
  "tndm:" ++ binding.network.label ++ ":" ++ displayHash binding.initTxid

structure AgreementTuple where
  schema : String
  protocolId : String
  height : String
  blockHash : String
  eventRoot : String
  objectStateRoot : String
  chainedRoot : String
  foundingCreated : String
  allObjects : String
  activeObjects : String
  parserCommit : String
  indexerCommit : String
  parserBinarySha256 : String
  indexerBinarySha256 : String
deriving DecidableEq

/-- Build the exact tuple from a persisted height and release identity. -/
def AgreementTuple.fromRoots (protocolId : String) (roots : HeightRoots) (release : ReleaseIdentity) :
    AgreementTuple where
  schema := "urn:tandem:agreement-tuple"
  protocolId := protocolId
  height := toString roots.height.toNat
  blockHash := displayHash roots.blockHash
  eventRoot := hexEncode roots.eventRoot.toList
  objectStateRoot := hexEncode roots.objectStateRoot.toList
  chainedRoot := hexEncode roots.chainedRoot.toList
  foundingCreated := toString roots.counters.foundingCreated.toNat
  allObjects := toString roots.counters.allObjects.toNat
  activeObjects := toString roots.counters.activeObjects.toNat
  parserCommit := release.parserCommit
  indexerCommit := release.indexerCommit
  parserBinarySha256 := hexEncode release.parserBinarySha256.toList
  indexerBinarySha256 := hexEncode release.indexerBinarySha256.toList

structure AgreementEnvelope where
  schema : String
  keyId : String
  tuple : AgreementTuple
  signature : String
deriving DecidableEq

/-- The signer with the functions of the `serde_jcs` and `ed25519_dalek` crates. -/
structure AgreementSigner where
  keyId : String
  canonicalBytes : AgreementTuple → Option Bytes
  signBytes : Bytes → ByteVector 64

def AgreementSigner.sign (signer : AgreementSigner) (tuple : AgreementTuple) :
    Option AgreementEnvelope := do
  let bytes ← signer.canonicalBytes tuple
  some ⟨"urn:tandem:agreement-envelope",signer.keyId,tuple,hexEncode (signer.signBytes bytes).toList⟩

end Signer

section Handler

inductive StatusCode where
  | notFound
  | conflict
  | serviceUnavailable
  | internalServerError
deriving DecidableEq

structure ApiError where
  status : StatusCode
  message : String
deriving DecidableEq

namespace ApiError

def notFound (message : String) : ApiError := ⟨.notFound,message⟩
def conflict (message : String) : ApiError := ⟨.conflict,message⟩
def unavailable (message : String) : ApiError := ⟨.serviceUnavailable,message⟩

/-- The answer to any error of the source, the store or the signer. -/
def internal : ApiError := ⟨.internalServerError,"internal verifier error"⟩

end ApiError

/-- The awaits of one request with the locals that are live there. -/
inductive AgreementPoint where
  | readHealth
  | readStatus
  | loadState (coreStatus : CoreStatus)
  | rootsAt
  | blockHash (persisted : PersistedHeight)
  | done (result : Except ApiError AgreementEnvelope)
deriving DecidableEq

namespace AgreementPoint

/-- A reply `none` is an error of the call. -/
@[reducible] def Reply : AgreementPoint → Type
  | readHealth => WorkerHealth
  | readStatus => Option CoreStatus
  | loadState _ => Option ChainState
  | rootsAt => Option (Option PersistedHeight)
  | blockHash _ => Option Hash32
  | done _ => Empty

def fail (error : ApiError) : AgreementPoint := done (.error error)

variable (binding : Binding) (signer : AgreementSigner) (height : UInt64)

/-- Sign the row whose hash Core has just reported. -/
def signRow (persisted : PersistedHeight) : AgreementPoint :=
  match signer.sign (AgreementTuple.fromRoots binding.protocolId persisted.roots persisted.release) with
  | some envelope => done (.ok envelope)
  | none => fail .internal

/-- Run from the reply to the awaited read up to the next await. -/
def resume : (point : AgreementPoint) → point.Reply → AgreementPoint
  | readHealth,worker =>
    if worker.catchingUp || worker.lastError.isSome then
      fail (.unavailable "agreement signer is not caught up")
    else readStatus
  | readStatus,none => fail .internal
  | readStatus,some coreStatus =>
    if coreStatus.readyFor binding.network then loadState coreStatus
    else fail (.unavailable "Bitcoin Core readiness gate failed")
  | loadState _,none => fail .internal
  | loadState coreStatus,some chainState =>
    match chainState.protocolStatus with
    | .active _ _ _ =>
      if chainState.tipHeight ≠ some coreStatus.blocks ∨ coreStatus.blocks < height then
        fail (.unavailable "canonical protocol state is not ready for signing")
      else rootsAt
    | _ => fail (.unavailable "canonical protocol state is not ready for signing")
  | rootsAt,none => fail .internal
  | rootsAt,some none => fail (.notFound "canonical height not found")
  | rootsAt,some (some persisted) => blockHash persisted
  | blockHash _,none => fail .internal
  | blockHash persisted,some canonicalHash =>
    if canonicalHash ≠ persisted.roots.blockHash then
      fail (.conflict "stored height is not canonical on the configured Bitcoin Core node")
    else signRow binding signer persisted
  | done _,reply => nomatch reply

end AgreementPoint

/-- What Bitcoin Core answers at one moment. -/
structure CoreAnswers where
  status : Option CoreStatus
  blockHash : UInt64 → Option Hash32

/-- One verifier process while it serves one request. -/
structure Service where
  database : Database
  worker : Ingestion
  core : CoreAnswers
  request : AgreementPoint

/-- The reads of the request, each on the state of its own moment. -/
def Service.Reads (service : Service) (height : UInt64) : (point : AgreementPoint) → point.Reply → Prop
  | .readHealth,health => health = service.worker.health
  | .readStatus,some coreStatus => service.core.status = some coreStatus
  | .loadState _,some chainState => Store.loadState service.database = ok chainState
  | .rootsAt,some result => Store.rootsAt service.database height = ok result
  | .blockHash _,some hash => service.core.blockHash height = some hash
  | _,_ => True

/-- The steps of the worker, of other writers, of Core and of the request, in any order. -/
inductive Service.Step (P : Primitives) (binding : Binding) (signer : AgreementSigner)
    (height : UInt64) : Service → Service → Prop
  | worked {service : Service} {db' : Database} {worker' : Ingestion}
      (h : Ingestion.Step P Permits.any (service.database,service.worker) (db',worker')) :
      Service.Step P binding signer height service { service with database := db', worker := worker' }
  | committed {service : Service} {db' : Database}
      (h : Commit P Permits.any.Delivers service.database db') :
      Service.Step P binding signer height service { service with database := db' }
  | switched {service : Service} (core' : CoreAnswers) :
      Service.Step P binding signer height service { service with core := core' }
  | answered {service : Service} (point : AgreementPoint) (reply : point.Reply)
      (hpoint : service.request = point) (h : service.Reads height point reply) :
      Service.Step P binding signer height service
        { service with request := point.resume binding signer height reply }

end Handler

section Gate
variable {P : Primitives} {good : BlockView → Prop} {db db' : Database}

def Database.status (db : Database) : Option ProtocolStatus :=
  db.protocolState.map fun row => row.state.protocolStatus

/-- A change of the database that stores a failed INIT. -/
def FailsInit (db db' : Database) : Prop :=
  db.status = some .awaitingInit ∧ ∃ reason height, db'.status = some (.failedInit reason height)

def NotFailed (db : Database) : Prop := ∀ reason height, db.status ≠ some (.failedInit reason height)

/-- A committed transaction only makes a deployment fail by storing a failed INIT. -/
theorem NotFailed.commit (h : NotFailed db) (hsound : Sound P good db) (hcommit : Commit P good db db')
    (hkept : ¬ FailsInit db db') : NotFailed db' := by
  cases hcommit with
  | bound hbind =>
    rcases Store.bindOrLoad_ok hbind with ⟨_,rfl⟩ | ⟨_,rfl,rfl⟩
    · exact h
    · intro reason height
      simp [Database.status,ChainState.new]
  | @applied before post block delta release hgood happly hstore =>
    obtain ⟨binding,hstored,_,rfl⟩ := Store.applyBlock_ok hstore
    have hbefore := (applyBlock_delta happly).1
    have hstatus : db.status = some delta.before.protocolStatus := by
      rw [Database.status,hstored]
      rfl
    intro reason height hfailed
    rcases (applyBlock_status happly).2 with hawait | hsame
    · refine hkept ⟨?_,reason,height,hfailed⟩
      rw [hstatus,← hawait,hbefore]
    · apply h reason height
      rw [hstatus,hbefore,← hsame]
      exact hfailed
  | rolledBack result hroll =>
    cases result with
    | none =>
      rcases Store.rollbackTip_ok hroll with ⟨_,_,_,_,_,rfl⟩ | ⟨_,_,_,_,_,_,_,_,hresult,_⟩
      · exact h
      · simp at hresult
    | some restored =>
      cases hsound with
      | unbound hempty => simp [Store.rollbackTip,Store.loadState,okOr,hempty.protocolState] at hroll
      | recorded hrecords _ =>
        obtain ⟨_,_,_,_,_,_,_,happly,_,_,hrestored⟩ := hrecords.rolledBack hroll
        intro reason height hfailed
        simp only [Database.status,hrestored.stored,Option.map_some,Option.some.injEq] at hfailed
        rcases (applyBlock_status happly).2 with hawait | hsame
        · simp [hfailed] at hawait
        · apply h reason height
          rw [Database.status,hrecords.stored,Option.map_some,hsame,hfailed]
  | overlaid hmempool =>
    rw [Store.replaceMempool_ok hmempool]
    exact h

/-- The tuple that was read belongs to one row of the recorded run. -/
structure ReadRow (P : Primitives) (height : UInt64) (db : Database) (persisted : PersistedHeight)
    (row : ProtocolRow) (delta : BlockDelta) : Prop where
  state : db.protocolState = some row
  stored : storedBlock delta persisted.release ∈ db.canonicalBlocks
  recorded : ∃ blocks deltas, Canonical P db row.binding row.state blocks deltas ∧ delta ∈ deltas
  height_eq : delta.height = height
  roots : persisted.roots = delta.roots

theorem rootsAt_readRow {height : UInt64} {persisted : PersistedHeight} (hsound : Sound P good db)
    (h : Store.rootsAt db height = ok (some persisted)) : ∃ row delta, ReadRow P height db persisted row delta := by
  simp only [Store.rootsAt,bind_eq_ok,Store.toI64_eq_ok,pure_eq_ok,Outcome.ok.injEq,
    Option.map_eq_some_iff] at h
  obtain ⟨_,⟨_,rfl⟩,found,hfind,rfl⟩ := h
  have hmem := List.mem_of_find?_eq_some hfind
  cases hsound with
  | unbound hempty => simp [hempty.canonicalBlocks] at hmem
  | @recorded binding state blocks deltas hrecords _ =>
    obtain ⟨delta,release,rfl⟩ : ∃ delta release, found = storedBlock delta release :=
      ⟨_,_,hrecords.rows found hmem⟩
    have hdelta : delta ∈ deltas := by
      rw [← hrecords.journal]
      exact List.mem_map.mpr ⟨_,hmem,rfl⟩
    obtain ⟨_,block,_,_,_,_,_,_,happly⟩ := applyBlocks_mem hrecords.run hdelta
    obtain ⟨_,hhash,_,hheight,_⟩ := applyBlock_delta happly
    obtain ⟨_,_,_,hrootHeight,hrootHash,_⟩ := applyBlock_roots happly
    have hkey : (storedBlock delta release).height = height.toInt64 := by
      simpa using List.find?_some hfind
    obtain rfl := Store.toInt64_injective hkey
    refine ⟨_,delta,hrecords.stored,hmem,⟨blocks,deltas,hrecords.canonical,hdelta⟩,rfl,?_⟩
    have hroots : delta.roots = ⟨delta.height,delta.blockHash,delta.roots.eventRoot,
        delta.roots.objectStateRoot,delta.roots.chainedRoot,delta.roots.counters⟩ := by
      rw [hheight,hhash,← hrootHeight,← hrootHash]
    rw [hroots]
    rfl

/-- A decided chain with a recorded block is active if it has not failed. -/
theorem ReadRow.active {height : UInt64} {persisted : PersistedHeight} {row : ProtocolRow}
    {delta : BlockDelta} (h : ReadRow P height db persisted row delta) (hnot : NotFailed db) :
    ∃ initHeight hOpen hClose, row.state.protocolStatus = .active initHeight hOpen hClose := by
  obtain ⟨blocks,deltas,hcanonical,hdelta⟩ := h.recorded
  cases hstatus : row.state.protocolStatus with
  | awaitingInit =>
    have hnew : TipDecided (ChainState.new P row.binding) := by simp [TipDecided,ChainState.new]
    have hdecided := applyBlocks_tipDecided hnew hcanonical.run
    have hhash := (applyBlocks_tip hcanonical.run).2
    obtain ⟨earlier,block,later,_,_,_,rfl,_,_⟩ := applyBlocks_mem hcanonical.run hdelta
    rw [TipDecided,hstatus,hhash] at hdecided
    simp at hdecided
  | active initHeight hOpen hClose => exact ⟨initHeight,hOpen,hClose,rfl⟩
  | failedInit reason initHeight =>
    refine absurd ?_ (hnot reason initHeight)
    rw [Database.status,h.state,Option.map_some,hstatus]

end Gate

section Interleaving
variable {P : Primitives} {binding : Binding} {signer : AgreementSigner} {height : UInt64}
variable {allowed : Service → Service → Prop} {start service service' : Service}

/-- While the request waits for the row it is going to sign, no failed INIT is stored. -/
def InitKept (before after : Service) : Prop :=
  before.request = .rootsAt → ¬ FailsInit before.database after.database

def KeepsInit (allowed : Service → Service → Prop) : Prop :=
  ∀ before after, allowed before after → InitKept before after

/-- The runs whose steps are all allowed. -/
def Service.Run (P : Primitives) (binding : Binding) (signer : AgreementSigner) (height : UInt64)
    (allowed : Service → Service → Prop) : Service → Service → Prop :=
  Relation.ReflTransGen fun before after =>
    Service.Step P binding signer height before after ∧ allowed before after

/-- The assertion at every await of the request. -/
def Gated (P : Primitives) (binding : Binding) (signer : AgreementSigner) (height : UInt64)
    (allowed : Service → Service → Prop) (start service : Service) : AgreementPoint → Prop
  | .rootsAt => KeepsInit allowed → NotFailed service.database
  | .blockHash persisted => ∃ reading row delta,
    Service.Run P binding signer height allowed start reading ∧
    Service.Run P binding signer height allowed reading service ∧
    ReadRow P height reading.database persisted row delta ∧
    (KeepsInit allowed → NotFailed reading.database)
  | .done (.ok envelope) => ∃ reading reporting persisted row delta,
    Service.Run P binding signer height allowed start reading ∧
    Service.Run P binding signer height allowed reading reporting ∧
    Service.Run P binding signer height allowed reporting service ∧
    ReadRow P height reading.database persisted row delta ∧
    (KeepsInit allowed → NotFailed reading.database) ∧
    reporting.core.blockHash height = some persisted.roots.blockHash ∧
    envelope.tuple = AgreementTuple.fromRoots binding.protocolId persisted.roots persisted.release
  | _ => True

/-- A step that leaves the request where it is keeps its assertion. -/
theorem Gated.unmoved (h : Gated P binding signer height allowed start service service.request)
    (hrun : Service.Run P binding signer height allowed service service')
    (hsame : service'.request = service.request)
    (hkept : service.request = .rootsAt → KeepsInit allowed →
      NotFailed service.database → NotFailed service'.database) :
    Gated P binding signer height allowed start service' service'.request := by
  rw [hsame]
  cases hpoint : service.request with
  | rootsAt =>
    rw [hpoint] at h
    intro hall
    exact hkept hpoint hall (h hall)
  | blockHash persisted =>
    rw [hpoint] at h
    obtain ⟨reading,row,delta,hfirst,hlater,hrest⟩ := h
    exact ⟨reading,row,delta,hfirst,hlater.trans hrun,hrest⟩
  | done result =>
    cases result with
    | error e => trivial
    | ok envelope =>
      rw [hpoint] at h
      obtain ⟨reading,reporting,persisted,row,delta,hfirst,hsecond,hthird,hrest⟩ := h
      exact ⟨reading,reporting,persisted,row,delta,hfirst,hsecond,hthird.trans hrun,hrest⟩
  | _ => trivial

theorem sign_tuple {tuple : AgreementTuple} {envelope : AgreementEnvelope}
    (h : signer.sign tuple = some envelope) : envelope.tuple = tuple := by
  obtain ⟨bytes,_,h⟩ := Option.bind_eq_some_iff.mp h
  rw [← Option.some.inj h]

/-- The last await either fails or signs the row that Core has just confirmed. -/
theorem resume_blockHash (binding : Binding) (signer : AgreementSigner) (height : UInt64)
    (persisted : PersistedHeight) (canonicalHash : Hash32) :
    (∃ error, AgreementPoint.resume binding signer height (.blockHash persisted) (some canonicalHash) =
      .fail error) ∨
    ∃ envelope, canonicalHash = persisted.roots.blockHash ∧
      envelope.tuple =
        AgreementTuple.fromRoots binding.protocolId persisted.roots persisted.release ∧
      AgreementPoint.resume binding signer height (.blockHash persisted) (some canonicalHash) =
        .done (.ok envelope) := by
  simp only [AgreementPoint.resume,AgreementPoint.signRow]
  split
  · exact Or.inl ⟨_,rfl⟩
  · next hhash =>
    split
    · next envelope hsign => exact Or.inr ⟨envelope,not_not.mp hhash,sign_tuple hsign,rfl⟩
    · exact Or.inl ⟨_,rfl⟩

/-- Each read of the request establishes the assertion of the next one. -/
theorem Gated.answered {good : BlockView → Prop} (point : AgreementPoint) (reply : point.Reply)
    (h : Gated P binding signer height allowed start service point)
    (hreads : service.Reads height point reply) (hsound : Sound P good service.database)
    (hpast : Service.Run P binding signer height allowed start service)
    (hstep : Service.Run P binding signer height allowed service
      { service with request := point.resume binding signer height reply }) :
    Gated P binding signer height allowed start
      { service with request := point.resume binding signer height reply }
      (point.resume binding signer height reply) := by
  cases point with
  | readHealth =>
    simp only [AgreementPoint.resume]
    split <;> trivial
  | readStatus =>
    cases reply with
    | none => trivial
    | some coreStatus =>
      simp only [AgreementPoint.resume]
      split <;> trivial
  | loadState coreStatus =>
    cases reply with
    | none => trivial
    | some chainState =>
      obtain ⟨found,hstored⟩ := Store.loadState_eq_ok.mp hreads
      simp only [AgreementPoint.resume]
      split
      · next hactive =>
        split
        · trivial
        · intro _ reason initHeight hfailed
          simp [Database.status,hstored,hactive] at hfailed
      · trivial
  | rootsAt =>
    match reply with
    | none => trivial
    | some none => trivial
    | some (some persisted) =>
      obtain ⟨row,delta,hrow⟩ := rootsAt_readRow hsound hreads
      exact ⟨service,row,delta,hpast,hstep,hrow,h⟩
  | blockHash persisted =>
    cases reply with
    | none => trivial
    | some canonicalHash =>
      rcases resume_blockHash binding signer height persisted canonicalHash with
        ⟨error,hresume⟩ | ⟨envelope,rfl,htuple,hresume⟩
      · rw [hresume]
        trivial
      · obtain ⟨reading,row,delta,hfirst,hlater,hrow,hnot⟩ := h
        rw [hresume] at hstep ⊢
        exact ⟨reading,service,persisted,row,delta,hfirst,hlater,hstep,hrow,hnot,hreads,htuple⟩
  | done result => cases reply

/-- What holds along a run: the database is reachable by committed transactions, and the
request satisfies the assertion of its await. -/
structure Serving (P : Primitives) (binding : Binding) (signer : AgreementSigner) (height : UInt64)
    (allowed : Service → Service → Prop) (start service : Service) : Prop where
  committed : Committed P Permits.any.Delivers service.database
  pending : Pending P Permits.any.Delivers service.worker.state service.worker.point
  gated : Gated P binding signer height allowed start service service.request

theorem Serving.step (h : Serving P binding signer height allowed start service)
    (hpast : Service.Run P binding signer height allowed start service)
    (hstep : Service.Step P binding signer height service service') (hallowed : allowed service service') :
    Serving P binding signer height allowed start service' := by
  have hrun : Service.Run P binding signer height allowed service service' := .single ⟨hstep,hallowed⟩
  have hsound := h.committed.sound
  cases hstep with
  | @worked db' worker' hwork =>
    obtain ⟨hdb,hpending⟩ := hwork.committed h.committed h.pending
    refine ⟨hdb,hpending,h.gated.unmoved hrun rfl ?_⟩
    intro hpoint hall hnot
    cases hwork with
    | step point reply hat hexchange _ =>
      rcases exchange_commits point reply (hat ▸ h.pending) hexchange with hsame | hcommit
      · rw [hsame]
        exact hnot
      · exact hnot.commit hsound hcommit (hall _ _ hallowed hpoint)
  | committed hcommit =>
    refine ⟨h.committed.tail hcommit,h.pending,h.gated.unmoved hrun rfl ?_⟩
    intro hpoint hall hnot
    exact hnot.commit hsound hcommit (hall _ _ hallowed hpoint)
  | switched core' =>
    exact ⟨h.committed,h.pending,h.gated.unmoved hrun rfl fun _ _ hnot => hnot⟩
  | answered point reply hpoint hreads =>
    exact ⟨h.committed,h.pending,Gated.answered point reply (hpoint ▸ h.gated) hreads hsound hpast hrun⟩

theorem Serving.run (h : Serving P binding signer height allowed start start)
    (hrun : Service.Run P binding signer height allowed start service) :
    Serving P binding signer height allowed start service := by
  induction hrun with
  | refl => exact h
  | tail hpast hlast ih => exact ih.step hpast hlast.1 hlast.2

end Interleaving

/-- A signed envelope is that of one committed row of the recorded run, and Core reported its
hash during the request. Its chain is active in every run in which no failed INIT is stored
between the reads of the state and of the row. -/
theorem agreement_signs_row {P : Primitives} {binding : Binding} {signer : AgreementSigner}
    {height : UInt64} {allowed : Service → Service → Prop} {start final : Service}
    {envelope : AgreementEnvelope}
    (hcommitted : Committed P Permits.any.Delivers start.database)
    (hpending : Pending P Permits.any.Delivers start.worker.state start.worker.point)
    (hstart : start.request = .readHealth)
    (hrun : Service.Run P binding signer height allowed start final)
    (hdone : final.request = .done (.ok envelope)) :
    ∃ (reading reporting : Service) (row : ProtocolRow) (blocks : List BlockView)
      (deltas : List BlockDelta) (delta : BlockDelta) (release : ReleaseIdentity),
      Service.Run P binding signer height allowed start reading ∧
      Service.Run P binding signer height allowed reading reporting ∧
      Service.Run P binding signer height allowed reporting final ∧
      reading.database.protocolState = some row ∧
      Canonical P reading.database row.binding row.state blocks deltas ∧ delta ∈ deltas ∧
      storedBlock delta release ∈ reading.database.canonicalBlocks ∧ delta.height = height ∧
      envelope.tuple = AgreementTuple.fromRoots binding.protocolId delta.roots release ∧
      reporting.core.blockHash height = some delta.blockHash ∧
      (KeepsInit allowed →
        ∃ initHeight hOpen hClose, row.state.protocolStatus = .active initHeight hOpen hClose) := by
  have hserving : Serving P binding signer height allowed start start :=
    ⟨hcommitted,hpending,by rw [hstart]; trivial⟩
  have hgated := (hserving.run hrun).gated
  rw [hdone] at hgated
  obtain ⟨reading,reporting,persisted,row,delta,hfirst,hsecond,hthird,hrow,hnot,hhash,htuple⟩ := hgated
  obtain ⟨blocks,deltas,hcanonical,hdelta⟩ := hrow.recorded
  have hblockHash : delta.roots.blockHash = delta.blockHash := by
    obtain ⟨_,block,_,_,_,_,_,_,happly⟩ := applyBlocks_mem hcanonical.run hdelta
    rw [(applyBlock_roots happly).2.2.2.2.1,(applyBlock_delta happly).2.1]
  rw [hrow.roots] at hhash htuple
  rw [hblockHash] at hhash
  exact ⟨reading,reporting,row,blocks,deltas,delta,persisted.release,hfirst,hsecond,hthird,hrow.state,
    hcanonical,hdelta,hrow.stored,hrow.height_eq,htuple,hhash,fun hall => hrow.active (hnot hall)⟩

section Progress
variable {P : Primitives} {binding : Binding} {signer : AgreementSigner} {height : UInt64}
variable {allowed : Service → Service → Prop} {service : Service}

/-- Steps that do not touch the database are allowed. -/
def Quiet (allowed : Service → Service → Prop) : Prop :=
  ∀ before after, before.database = after.database → allowed before after

theorem initKept_quiet : Quiet InitKept := by
  intro before after hsame _ hfails
  obtain ⟨hawait,reason,initHeight,hfailed⟩ := hfails
  rw [hsame,hfailed] at hawait
  simp at hawait

theorem Service.answered_run (hquiet : Quiet allowed) (point : AgreementPoint) (reply : point.Reply)
    (hpoint : service.request = point) (h : service.Reads height point reply) :
    Service.Run P binding signer height allowed service
      { service with request := point.resume binding signer height reply } :=
  .single ⟨.answered point reply hpoint h,hquiet _ _ rfl⟩

/-- A request passes the three checks of a caught-up verifier with an active deployment. -/
theorem Service.passes_checks {coreStatus : CoreStatus} {chainState : ChainState}
    {initHeight : UInt64} {hOpen hClose : UInt32} (hquiet : Quiet allowed)
    (hrequest : service.request = .readHealth) (hcatching : service.worker.health.catchingUp = false)
    (herror : service.worker.health.lastError = none) (hcore : service.core.status = some coreStatus)
    (hready : coreStatus.readyFor binding.network = true)
    (hload : Store.loadState service.database = ok chainState)
    (hactive : chainState.protocolStatus = .active initHeight hOpen hClose)
    (htip : chainState.tipHeight = some coreStatus.blocks) (hheight : height ≤ coreStatus.blocks) :
    Service.Run P binding signer height allowed service { service with request := .rootsAt } := by
  have hfirst := @Service.answered_run P binding signer height allowed service hquiet .readHealth
    service.worker.health hrequest rfl
  have hsecond := @Service.answered_run P binding signer height allowed
    { service with request := .readStatus } hquiet .readStatus (some coreStatus) rfl hcore
  have hthird := @Service.answered_run P binding signer height allowed
    { service with request := .loadState coreStatus } hquiet (.loadState coreStatus) (some chainState)
    rfl hload
  simp only [AgreementPoint.resume,hcatching,herror,Option.isSome_none,Bool.or_self] at hfirst
  simp only [AgreementPoint.resume,hready,if_true] at hsecond
  simp only [AgreementPoint.resume,hactive,htip,ne_eq,not_true_eq_false,false_or,
    UInt64.not_lt.mpr hheight,if_false] at hthird
  exact (hfirst.trans hsecond).trans hthird

/-- A request that has read a row whose hash Core reports is signed. -/
theorem Service.signs {persisted : PersistedHeight} {envelope : AgreementEnvelope}
    (hquiet : Quiet allowed) (hrequest : service.request = .rootsAt)
    (hroots : Store.rootsAt service.database height = ok (some persisted))
    (hhash : service.core.blockHash height = some persisted.roots.blockHash)
    (hsign : signer.sign (AgreementTuple.fromRoots binding.protocolId persisted.roots
      persisted.release) = some envelope) :
    Service.Run P binding signer height allowed service
      { service with request := .done (.ok envelope) } := by
  have hfirst := @Service.answered_run P binding signer height allowed service hquiet .rootsAt
    (some (some persisted)) hrequest hroots
  have hsecond := @Service.answered_run P binding signer height allowed
    { service with request := .blockHash persisted } hquiet (.blockHash persisted)
    (some persisted.roots.blockHash) rfl hhash
  simp only [AgreementPoint.resume] at hfirst
  simp only [AgreementPoint.resume,AgreementPoint.signRow,hsign,ne_eq,not_true_eq_false,
    if_false] at hsecond
  exact hfirst.trans hsecond

/-- A run of the worker is a run of the service. -/
theorem Service.worked_run {db' : Database} {worker' : Ingestion}
    (h : Relation.ReflTransGen (Ingestion.Step P Permits.any) (service.database,service.worker)
      (db',worker')) :
    Service.Run P binding signer height (fun _ _ => True) service
      { service with database := db', worker := worker' } := by
  generalize hfinal : (db',worker') = final at h
  induction h generalizing db' worker' with
  | refl =>
    obtain ⟨rfl,rfl⟩ := Prod.mk.inj hfinal
    exact .refl
  | @tail middle _ _ hstep ih =>
    subst hfinal
    have hlast : Service.Step P binding signer height
        { service with database := middle.1, worker := middle.2 }
        { service with database := db', worker := worker' } := .worked hstep
    exact (ih rfl).tail ⟨hlast,trivial⟩

end Progress

section Sample

/-- An INIT that keeps the notice period at height 1 and breaks it at height 2. -/
def tightInit : TxView :=
  { earlyInit with
    outputs := [markerOutput (magic ++ [1,3,0] ++ u32LeBytes 1009 ++ u32LeBytes 5329 ++
      u64LeBytes carrierValue ++ u32LeBytes refundDelay ++ sampleBinding.specHash.toList),
      keyOutput 1000 key1G] }

def tightChain : List BlockView := [emptyBlock sampleHash 0,sampleBlock 1 [tightInit],leftBlock]

/-- A reorganization past the INIT block that confirms INIT one block later. -/
def delayedChain : List BlockView := [emptyBlock sampleHash 0,⟨sampleHash 40,sampleHash 0,1,[]⟩,
  ⟨sampleHash 41,sampleHash 40,2,[tightInit]⟩]

/-- The node and the clock over several passes. -/
def passesSource (chain : List BlockView) : Source
  | .finished _ => some ()
  | .waiting => some ()
  | point => sampleNode chain point

def answersOf (chain : List BlockView) : CoreAnswers :=
  ⟨some sampleStatus,fun height => chain[height.toNat]?.map BlockView.hash⟩

/-- A worker that has stored the chain and waits for its next pass. -/
def tightPass : Option (Database × Ingestion) :=
  Ingestion.simulate bitcoinPrimitives (passesSource tightChain) (List.replicate 11 .acknowledged)
    (sampleBound,sampleWorker)

/-- Its next pass after the reorganization, up to the commit of the new block. -/
def delayedPass : Option (Database × Ingestion) :=
  tightPass.bind (Ingestion.simulate bitcoinPrimitives (passesSource delayedChain)
    (List.replicate 11 .acknowledged))

def jcsField (field : String × String) : String := "\"" ++ field.1 ++ "\":\"" ++ field.2 ++ "\""

/-- The canonical JSON of a tuple whose texts need no escapes. -/
def jcs (tuple : AgreementTuple) : Bytes :=
  ascii ("\x7b" ++ String.intercalate "," ([("active_objects",tuple.activeObjects),
    ("all_objects",tuple.allObjects),("block_hash",tuple.blockHash),("chained_root",tuple.chainedRoot),
    ("event_root",tuple.eventRoot),("founding_created",tuple.foundingCreated),("height",tuple.height),
    ("indexer_binary_sha256",tuple.indexerBinarySha256),("indexer_commit",tuple.indexerCommit),
    ("object_state_root",tuple.objectStateRoot),("parser_binary_sha256",tuple.parserBinarySha256),
    ("parser_commit",tuple.parserCommit),("protocol_id",tuple.protocolId),
    ("schema",tuple.schema)].map jcsField) ++ "\x7d").toList

/-- The key of the seed of sevens, with its signature of the one tuple that is signed. -/
def sampleSigner (first second : ℕ) : AgreementSigner where
  keyId := "test-key"
  canonicalBytes tuple := some (jcs tuple)
  signBytes _ := ⟨Crypto.beBytes 32 first ++ Crypto.beBytes 32 second,by simp [Crypto.beBytes]⟩

def signedHash (db : Database) : Option Hash32 :=
  match Store.rootsAt db 2 with
  | .ok (some persisted) => some persisted.roots.blockHash
  | _ => none

theorem signedHash_some {db : Database} {hash : Hash32} (h : signedHash db = some hash) :
    ∃ persisted, Store.rootsAt db 2 = ok (some persisted) ∧ persisted.roots.blockHash = hash := by
  unfold signedHash at h
  split at h
  · next persisted hroots => exact ⟨persisted,hroots,Option.some.inj h⟩
  · simp at h

def observed (config : Database × Ingestion) :
    List Hash32 × Option (ProtocolStatus × Option UInt64) × Option Hash32 × WorkerHealth :=
  (storedHashes config.1,config.1.protocolState.map fun row =>
    (row.state.protocolStatus,row.state.tipHeight),signedHash config.1,config.2.health)

set_option maxRecDepth 10000 in
theorem tightPass_eq : tightPass.map observed = some ([sampleHash 1,sampleHash 30],
    some (.active 1 1009 5329,some 2),some (sampleHash 30),⟨some 2,none,false⟩) := by
  decide +kernel

set_option maxRecDepth 10000 in
theorem delayedPass_eq : delayedPass.map observed = some ([sampleHash 41],
    some (.failedInit .badHeightOrPhase 2,some 2),some (sampleHash 41),⟨some 2,none,true⟩) := by
  decide +kernel

/-- The database after the first pass is committed, and the worker awaits nothing of it. -/
theorem tightPass_committed {config : Database × Ingestion} (h : tightPass = some config) :
    Committed bitcoinPrimitives Permits.any.Delivers config.1 ∧
      Pending bitcoinPrimitives Permits.any.Delivers config.2.state config.2.point := by
  have hbind : Store.bindOrLoad bitcoinPrimitives Database.empty sampleBinding =
      ok (sampleBound,sampleNew) := rfl
  have hstart : Committed bitcoinPrimitives Permits.any.Delivers sampleBound := .single (.bound hbind)
  have hpending : Pending bitcoinPrimitives Permits.any.Delivers sampleWorker.state
      sampleWorker.point := trivial
  exact Ingestion.run_committed hstart hpending
    (Ingestion.simulate_run (fun _ _ _ _ _ _ _ _ => trivial) h)

/-- The service when the request arrives, after the first pass. -/
def sampleService (config : Database × Ingestion) : Service :=
  ⟨config.1,config.2,answersOf tightChain,.readHealth⟩

theorem sampleService_checks {binding : Binding} {config : Database × Ingestion} {signer : AgreementSigner}
    {allowed : Service → Service → Prop} (hnetwork : binding.network = .regtest) (hquiet : Quiet allowed)
    (hobserved : observed config = ([sampleHash 1,sampleHash 30],some (.active 1 1009 5329,some 2),
      some (sampleHash 30),⟨some 2,none,false⟩)) :
    Service.Run bitcoinPrimitives binding signer 2 allowed (sampleService config)
      { sampleService config with request := .rootsAt } := by
  simp only [observed,Prod.mk.injEq] at hobserved
  obtain ⟨_,hstate,_,hhealth⟩ := hobserved
  obtain ⟨row,hrow,hstatus⟩ := Option.map_eq_some_iff.mp hstate
  obtain ⟨hactive,htip⟩ := Prod.mk.inj hstatus
  have hload : Store.loadState config.1 = ok row.state := Store.loadState_eq_ok.mpr ⟨row.binding,hrow⟩
  have hcatching : config.2.health.catchingUp = false := by rw [hhealth]
  have herror : config.2.health.lastError = none := by rw [hhealth]
  have hready : sampleStatus.readyFor binding.network = true := by
    rw [hnetwork]
    decide
  exact Service.passes_checks hquiet rfl hcatching herror rfl hready hload hactive htip (by decide)

def tightSigner : AgreementSigner :=
  sampleSigner 0xab8d0f467f36a345b8e901f7700a7a959a615018a4373d5b49c56a904a793c52
    0x1bc8a09181b203c26f52fa029aefe111dc906a29b957127871b1e2d0ab094e0b

theorem sample_signs_row : ∃ (start final reading : Service) (envelope : AgreementEnvelope)
    (row : ProtocolRow) (delta : BlockDelta) (release : ReleaseIdentity),
    Service.Run bitcoinPrimitives sampleBinding tightSigner 2 InitKept start final ∧
      start.request = .readHealth ∧ final.request = .done (.ok envelope) ∧
      storedBlock delta release ∈ reading.database.canonicalBlocks ∧ delta.height = 2 ∧
      envelope.tuple = AgreementTuple.fromRoots sampleBinding.protocolId delta.roots release ∧
      reading.database.protocolState = some row ∧
      ∃ initHeight hOpen hClose, row.state.protocolStatus = .active initHeight hOpen hClose := by
  obtain ⟨config,hpass,hobserved⟩ := Option.map_eq_some_iff.mp tightPass_eq
  obtain ⟨hcommitted,hpending⟩ := tightPass_committed hpass
  have hchecks := @sampleService_checks sampleBinding config tightSigner InitKept rfl initKept_quiet hobserved
  simp only [observed,Prod.mk.injEq] at hobserved
  obtain ⟨persisted,hroots,hhash⟩ := signedHash_some hobserved.2.2.1
  have hreported : (answersOf tightChain).blockHash 2 = some persisted.roots.blockHash := by
    rw [hhash]
    decide
  have hsigns := @Service.signs bitcoinPrimitives sampleBinding tightSigner 2 InitKept
    ⟨config.1,config.2,answersOf tightChain,.rootsAt⟩ persisted _ initKept_quiet rfl hroots hreported rfl
  have hrun := hchecks.trans hsigns
  obtain ⟨reading,_,row,_,_,delta,release,_,_,_,hrow,_,_,hstored,hheight,htuple,_,hactive⟩ :=
    agreement_signs_row hcommitted hpending rfl hrun rfl
  exact ⟨_,_,reading,_,row,delta,release,hrun,rfl,rfl,hstored,hheight,htuple,hrow,
    hactive fun _ _ hkept => hkept⟩

def delayedSigner : AgreementSigner :=
  sampleSigner 0x9474c65b637d84cf069aa66143ba83ef478c3e539b833f4acdf1d69c4f9ee8c6
    0x9bf8e869f5ca38653f19703d074610215ee67ee29baed052d47f1eb8db7c1209

/-- The request passes its checks on an active deployment; then the node reorganizes past
INIT, the worker rolls both blocks back and stores the block in which INIT fails, and the
request signs the row of that block. -/
theorem sample_signs_failed : ∃ (start reading final : Service) (envelope : AgreementEnvelope)
    (row : ProtocolRow) (persisted : PersistedHeight),
    Committed bitcoinPrimitives Permits.any.Delivers start.database ∧
      start.request = .readHealth ∧ storedHashes start.database = [sampleHash 1,sampleHash 30] ∧
      Service.Run bitcoinPrimitives sampleBinding delayedSigner 2 (fun _ _ => True)
        start reading ∧
      Service.Run bitcoinPrimitives sampleBinding delayedSigner 2 (fun _ _ => True)
        reading final ∧
      reading.request = .rootsAt ∧ Store.rootsAt reading.database 2 = ok (some persisted) ∧
      persisted.roots.blockHash = sampleHash 41 ∧ storedHashes reading.database = [sampleHash 41] ∧
      reading.database.protocolState = some row ∧
      row.state.protocolStatus = .failedInit .badHeightOrPhase 2 ∧
      final.database = reading.database ∧ final.request = .done (.ok envelope) ∧
      envelope.tuple =
        AgreementTuple.fromRoots sampleBinding.protocolId persisted.roots persisted.release := by
  obtain ⟨later,hlater,hfailed⟩ := Option.map_eq_some_iff.mp delayedPass_eq
  obtain ⟨config,hpass,hdelayed⟩ := Option.bind_eq_some_iff.mp hlater
  obtain ⟨found,hfound,hobserved⟩ := Option.map_eq_some_iff.mp tightPass_eq
  obtain rfl : config = found := Option.some.inj (hpass.symm.trans hfound)
  have hquiet : Quiet fun _ _ => True := fun _ _ _ => trivial
  have hchecks := @sampleService_checks sampleBinding config delayedSigner _ rfl hquiet hobserved
  have hswitch : Service.Run bitcoinPrimitives sampleBinding delayedSigner 2
      (fun _ _ => True) { sampleService config with request := .rootsAt }
      { sampleService config with request := .rootsAt, core := answersOf delayedChain } :=
    .single ⟨.switched (answersOf delayedChain),trivial⟩
  have hwork := @Service.worked_run bitcoinPrimitives sampleBinding delayedSigner 2
    { sampleService config with request := .rootsAt, core := answersOf delayedChain } later.1 later.2
    (Ingestion.simulate_run (fun _ _ _ _ _ _ _ _ => trivial) hdelayed)
  simp only [observed,Prod.mk.injEq] at hfailed hobserved
  obtain ⟨hhashes,hstate,hsigned,_⟩ := hfailed
  obtain ⟨persisted,hroots,hhash⟩ := signedHash_some hsigned
  obtain ⟨row,hrow,hstatus⟩ := Option.map_eq_some_iff.mp hstate
  have hreported : (answersOf delayedChain).blockHash 2 = some persisted.roots.blockHash := by
    rw [hhash]
    decide
  have hsigns := @Service.signs bitcoinPrimitives sampleBinding delayedSigner 2 _
    ⟨later.1,later.2,answersOf delayedChain,.rootsAt⟩ persisted _ hquiet rfl hroots hreported rfl
  exact ⟨sampleService config,_,_,_,row,persisted,(tightPass_committed hpass).1,rfl,hobserved.1,
    (hchecks.trans hswitch).trans hwork,hsigns,rfl,hroots,hhash,hhashes,hrow,(Prod.mk.inj hstatus).1,
    rfl,rfl,rfl⟩

end Sample
end TandemVerifier
