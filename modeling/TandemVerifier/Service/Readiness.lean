import TandemVerifier.Service.Agreement
import TandemVerifier.Service.Indexers
import TandemVerifier.Service.Progress

/-! # What a caught-up verifier answers

The readiness handler of `api.rs`, and the answers of both gated handlers once a pass has
ended and node and database stand still: the verifier is ready exactly when the configured
INIT is valid, and then it signs every height from the INIT block to the tip.
-/
namespace TandemVerifier
open Library Library.Outcome Library.LinkedChain Library.Termination

section Handler

/-- The name of a reason as `{:?}` prints it. -/
def Reason.debugName : Reason → String
  | valid => "Valid"
  | multipleMarkers => "MultipleMarkers"
  | badMarkerEncodingOrLength => "BadMarkerEncodingOrLength"
  | unknownVersion => "UnknownVersion"
  | wrongNetwork => "WrongNetwork"
  | unknownOpcode => "UnknownOpcode"
  | wrongNamespace => "WrongNamespace"
  | unsupportedOrReservedField => "UnsupportedOrReservedField"
  | badTxVersionOrLocktime => "BadTxVersionOrLocktime"
  | badInputCountOrOrder => "BadInputCountOrOrder"
  | badOutputCountOrOrder => "BadOutputCountOrOrder"
  | unconfirmedOrSameBlockPrevout => "UnconfirmedOrSameBlockPrevout"
  | badInputScript => "BadInputScript"
  | badKeyOrderOrBinding => "BadKeyOrderOrBinding"
  | badSignatureOrSighash => "BadSignatureOrSighash"
  | badOutputScriptOrValue => "BadOutputScriptOrValue"
  | nonpositiveOrInvalidFee => "NonpositiveOrInvalidFee"
  | badFeeSplitOrChange => "BadFeeSplitOrChange"
  | predecessorNotActive => "PredecessorNotActive"
  | badStateSequence => "BadStateSequence"
  | badSuccessor => "BadSuccessor"
  | badCommitment => "BadCommitment"
  | badHeightOrPhase => "BadHeightOrPhase"
  | badRefundShapeOrMaturity => "BadRefundShapeOrMaturity"
  | multipleCarriers => "MultipleCarriers"
  | unmarkedCarrierSpend => "UnmarkedCarrierSpend"

structure Readiness where
  ready : Bool
  protocolId : String
  tipHeight : Option UInt64
  core : Option CoreStatus
  signerKeyId : String
  signerPublicKey : String
  worker : WorkerHealth
  failures : List String
deriving DecidableEq

/-- The awaits of a readiness request, with the failures and the answers collected so far. -/
inductive ReadinessPoint where
  | pingDatabase
  | readStatus (failures : List String)
  | loadState (failures : List String) (core : Option CoreStatus)
  | readHealth (failures : List String) (core : Option CoreStatus) (chainState : Option ChainState)
  | done (response : Readiness)
deriving DecidableEq

namespace ReadinessPoint

@[reducible] def Reply : ReadinessPoint → Type
  | pingDatabase => Option Unit
  | readStatus _ => Option CoreStatus
  | loadState _ _ => Option ChainState
  | readHealth _ _ _ => WorkerHealth
  | done _ => Empty

def protocolFailures : ProtocolStatus → List String
  | .awaitingInit => ["protocol: configured INIT is not canonical"]
  | .failedInit reason _ => ["protocol: configured INIT failed with " ++ reason.debugName]
  | .active _ _ _ => []

def workerFailures (worker : WorkerHealth) : List String :=
  (if worker.catchingUp then ["worker: canonical catch-up is in progress"] else []) ++
    if worker.lastError.isSome then ["worker: ingestion pass failed"] else []

def tipFailures : Option CoreStatus → Option ChainState → List String
  | some coreStatus,some storedState =>
    if storedState.tipHeight ≠ some coreStatus.blocks then
      ["protocol: canonical tip is behind Bitcoin Core"]
    else []
  | _,_ => []

variable (binding : Binding) (signerKeyId signerPublicKey : String)

def respond (failures : List String) (core : Option CoreStatus) (chainState : Option ChainState)
    (worker : WorkerHealth) : Readiness where
  ready := failures.isEmpty
  protocolId := binding.protocolId
  tipHeight := chainState.bind ChainState.tipHeight
  core := core
  signerKeyId := signerKeyId
  signerPublicKey := signerPublicKey
  worker := worker
  failures := failures

def resume : (point : ReadinessPoint) → point.Reply → ReadinessPoint
  | pingDatabase,none => readStatus ["postgresql: unavailable"]
  | pingDatabase,some () => readStatus []
  | readStatus failures,none => loadState (failures ++ ["bitcoin_core: unavailable"]) none
  | readStatus failures,some status =>
    if status.readyFor binding.network then loadState failures (some status)
    else loadState (failures ++ ["bitcoin_core: network, sync, IBD, or txindex gate failed"]) (some status)
  | loadState failures core,none => readHealth (failures ++ ["state: unavailable"]) core none
  | loadState failures core,some chainState =>
    readHealth (failures ++ protocolFailures chainState.protocolStatus) core (some chainState)
  | readHealth failures core chainState,worker =>
    done (respond binding signerKeyId signerPublicKey
      (failures ++ workerFailures worker ++ tipFailures core chainState) core chainState worker)
  | done _,reply => nomatch reply

end ReadinessPoint

/-- What a read of the request may return; a call may always fail. -/
def Service.Sees (service : Service) : (point : ReadinessPoint) → point.Reply → Prop
  | .readStatus _,some status => service.core.status = some status
  | .loadState _ _,some chainState => Store.loadState service.database = ok chainState
  | .readHealth _ _ _,health => health = service.worker.health
  | _,_ => True

/-- A readiness request among the steps of the worker, of other writers, of the node and of
an agreement request. -/
inductive Probing (P : Primitives) (binding : Binding) (signer : AgreementSigner) (height : UInt64)
    (publicKey : String) : Service × ReadinessPoint → Service × ReadinessPoint → Prop
  | moved {service service' : Service} {point : ReadinessPoint}
      (h : Service.Step P binding signer height service service') :
      Probing P binding signer height publicKey (service,point) (service',point)
  | answered {service : Service} (point : ReadinessPoint) (reply : point.Reply)
      (h : service.Sees point reply) :
      Probing P binding signer height publicKey (service,point)
        (service,point.resume binding signer.keyId publicKey reply)

end Handler

section Closed
variable {P : Primitives} {binding : Binding} {signer : AgreementSigner} {height : UInt64}
variable {publicKey : String} {start service service' : Service}

def Moves (P : Primitives) (binding : Binding) (signer : AgreementSigner) (height : UInt64) :
    Service → Service → Prop :=
  Relation.ReflTransGen (Service.Step P binding signer height)

/-- The node was ready when its status was read. -/
structure NodeReady (P : Primitives) (binding : Binding) (signer : AgreementSigner) (height : UInt64)
    (start service : Service) (core : Option CoreStatus) (status : CoreStatus) : Prop where
  core_eq : core = some status
  ready : status.readyFor binding.network = true
  reported : ∃ checked, Moves P binding signer height start checked ∧
    Moves P binding signer height checked service ∧ checked.core.status = some status

/-- The loaded state was that of a committed run of an active deployment. -/
structure StateActive (P : Primitives) (binding : Binding) (signer : AgreementSigner) (height : UInt64)
    (start service : Service) (chainState : Option ChainState) (state : ChainState) : Prop where
  chainState_eq : chainState = some state
  active : ∃ initHeight hOpen hClose, state.protocolStatus = .active initHeight hOpen hClose
  recorded : ∃ reading bound blocks deltas, Moves P binding signer height start reading ∧
    Moves P binding signer height reading service ∧
    Canonical P reading.database bound state blocks deltas

/-- What the request has established if it has collected no failure. -/
def Vouched (P : Primitives) (binding : Binding) (signer : AgreementSigner) (height : UInt64)
    (start service : Service) : ReadinessPoint → Prop
  | .pingDatabase | .readStatus _ => True
  | .loadState failures core => failures = [] →
    ∃ status, NodeReady P binding signer height start service core status
  | .readHealth failures core chainState => failures = [] → ∃ status state,
    NodeReady P binding signer height start service core status ∧
    StateActive P binding signer height start service chainState state
  | .done response => response.ready = true → ∃ status state resting,
    NodeReady P binding signer height start service response.core status ∧
    StateActive P binding signer height start service (some state) state ∧
    state.tipHeight = some status.blocks ∧ response.tipHeight = some status.blocks ∧
    Moves P binding signer height start resting ∧ Moves P binding signer height resting service ∧
    resting.worker.health.catchingUp = false ∧ resting.worker.health.lastError = none

theorem NodeReady.later {core : Option CoreStatus} {status : CoreStatus}
    (h : NodeReady P binding signer height start service core status)
    (hmove : Moves P binding signer height service service') :
    NodeReady P binding signer height start service' core status := by
  obtain ⟨checked,hbefore,hafter,hstatus⟩ := h.reported
  exact ⟨h.core_eq,h.ready,checked,hbefore,hafter.trans hmove,hstatus⟩

theorem StateActive.later {chainState : Option ChainState} {state : ChainState}
    (h : StateActive P binding signer height start service chainState state)
    (hmove : Moves P binding signer height service service') :
    StateActive P binding signer height start service' chainState state := by
  obtain ⟨reading,bound,blocks,deltas,hbefore,hafter,hcanonical⟩ := h.recorded
  exact ⟨h.chainState_eq,h.active,reading,bound,blocks,deltas,hbefore,hafter.trans hmove,hcanonical⟩

theorem Vouched.later {point : ReadinessPoint} (h : Vouched P binding signer height start service point)
    (hmove : Moves P binding signer height service service') :
    Vouched P binding signer height start service' point := by
  cases point with
  | pingDatabase => trivial
  | readStatus failures => trivial
  | loadState failures core =>
    intro hnone
    obtain ⟨status,hnode⟩ := h hnone
    exact ⟨status,hnode.later hmove⟩
  | readHealth failures core chainState =>
    intro hnone
    obtain ⟨status,state,hnode,hstate⟩ := h hnone
    exact ⟨status,state,hnode.later hmove,hstate.later hmove⟩
  | done response =>
    intro hready
    obtain ⟨status,state,resting,hnode,hstate,htip,hshown,hbefore,hafter,hhealth⟩ := h hready
    exact ⟨status,state,resting,hnode.later hmove,hstate.later hmove,htip,hshown,hbefore,hafter.trans hmove,
      hhealth⟩

theorem protocolFailures_nil {status : ProtocolStatus} (h : ReadinessPoint.protocolFailures status = []) :
    ∃ initHeight hOpen hClose, status = .active initHeight hOpen hClose := by
  cases status with
  | active initHeight hOpen hClose => exact ⟨initHeight,hOpen,hClose,rfl⟩
  | _ => simp [ReadinessPoint.protocolFailures] at h

theorem workerFailures_nil {worker : WorkerHealth} (h : ReadinessPoint.workerFailures worker = []) :
    worker.catchingUp = false ∧ worker.lastError = none := by
  simpa [ReadinessPoint.workerFailures] using h

theorem tipFailures_nil {status : CoreStatus} {state : ChainState}
    (h : ReadinessPoint.tipFailures (some status) (some state) = []) :
    state.tipHeight = some status.blocks := by
  simpa [ReadinessPoint.tipFailures] using h

/-- Each read of the request vouches for one more gate. -/
theorem Vouched.answered (point : ReadinessPoint) (reply : point.Reply)
    (h : Vouched P binding signer height start service point) (hsees : service.Sees point reply)
    (hcommitted : Committed P Permits.any.Delivers service.database)
    (hpast : Moves P binding signer height start service) :
    Vouched P binding signer height start service (point.resume binding signer.keyId publicKey reply) := by
  cases point with
  | pingDatabase => cases reply <;> trivial
  | readStatus failures =>
    cases reply with
    | none => simp [ReadinessPoint.resume,Vouched]
    | some status =>
      simp only [ReadinessPoint.resume]
      split
      · next hready => exact fun _ => ⟨status,rfl,hready,service,hpast,.refl,hsees⟩
      · simp [Vouched]
  | loadState failures core =>
    cases reply with
    | none => simp [ReadinessPoint.resume,Vouched]
    | some state =>
      intro hnone
      obtain ⟨hbefore,hprotocol⟩ := List.append_eq_nil_iff.mp hnone
      obtain ⟨status,hnode⟩ := h hbefore
      obtain ⟨bound,hstored⟩ := Store.loadState_eq_ok.mp hsees
      obtain ⟨blocks,deltas,hrecords,_⟩ := hcommitted.sound.records hstored
      exact ⟨status,state,hnode,rfl,protocolFailures_nil hprotocol,service,bound,blocks,deltas,hpast,.refl,
        hrecords.canonical⟩
  | readHealth failures core chainState =>
    obtain rfl : reply = service.worker.health := hsees
    intro hready
    obtain ⟨hbefore,htip⟩ := List.append_eq_nil_iff.mp (List.isEmpty_iff.mp hready)
    obtain ⟨hfirst,hworker⟩ := List.append_eq_nil_iff.mp hbefore
    obtain ⟨status,state,hnode,hstate⟩ := h hfirst
    rw [hnode.core_eq,hstate.chainState_eq] at htip
    have hreached := tipFailures_nil htip
    have hshown : (chainState.bind ChainState.tipHeight) = some status.blocks := by
      rw [hstate.chainState_eq]
      exact hreached
    exact ⟨status,state,service,hnode,⟨rfl,hstate.active,hstate.recorded⟩,hreached,hshown,hpast,.refl,
      workerFailures_nil hworker⟩
  | done response => exact nomatch reply

end Closed

section Still
variable {P : Primitives} {views : Hash32 → BlockView} {binding : Binding} {chain : List BlockView}
variable {signer : AgreementSigner} {service : Service} {state : ChainState} {height : UInt64}

/-- The reply is an answer and no failed call. -/
def AgreementPoint.Prompt : (point : AgreementPoint) → point.Reply → Prop
  | .readStatus,none | .loadState _,none | .rootsAt,none | .blockHash _,none => False
  | _,_ => True

/-- One await of an agreement request on a service that stands still. -/
def Service.Serves (service : Service) (binding : Binding) (signer : AgreementSigner) (height : UInt64)
    (point next : AgreementPoint) : Prop :=
  ∃ reply, service.Reads height point reply ∧ point.Prompt reply ∧
    next = point.resume binding signer height reply

theorem Service.Serves.step {point next : AgreementPoint} (h : service.Serves binding signer height point next) :
    Service.Step P binding signer height { service with request := point }
      { service with request := next } := by
  obtain ⟨reply,hreads,_,rfl⟩ := h
  cases point with
  | done result => exact nomatch reply
  | _ => exact .answered _ reply rfl hreads

/-- A point with one answer has one successor. -/
theorem serves_iff {next : AgreementPoint} (point : AgreementPoint) (reply : point.Reply)
    (hreads : service.Reads height point reply) (hprompt : point.Prompt reply)
    (hunique : ∀ other, service.Reads height point other → point.Prompt other → other = reply) :
    service.Serves binding signer height point next ↔ next = point.resume binding signer height reply := by
  constructor
  · rintro ⟨other,hother,hanswer,rfl⟩
    rw [hunique other hother hanswer]
  · rintro rfl
    exact ⟨reply,hreads,hprompt,rfl⟩

/-- The request ends with the answer. -/
def Service.Answers (service : Service) (binding : Binding) (signer : AgreementSigner) (height : UInt64)
    (answer : Except ApiError AgreementEnvelope) (bound : ℕ) (point : AgreementPoint) : Prop :=
  Inevitable (service.Serves binding signer height) (fun final => final = .done answer) bound point

namespace Service.Answers
variable {answer : Except ApiError AgreementEnvelope} {bound : ℕ} {status : CoreStatus}
variable {persisted : PersistedHeight}

theorem done : service.Answers binding signer height answer bound (.done answer) := by
  refine Inevitable.stop rfl ?_
  rintro next ⟨reply,_⟩
  exact nomatch reply

theorem readHealth (hhealth : service.worker.health.catchingUp = false)
    (herror : service.worker.health.lastError = none)
    (h : service.Answers binding signer height answer bound .readStatus) :
    service.Answers binding signer height answer (bound + 1) .readHealth := by
  refine Inevitable.next (fun next => ?_) h
  have hstep : AgreementPoint.readHealth.resume binding signer height service.worker.health = .readStatus := by
    simp [AgreementPoint.resume,hhealth,herror]
  rw [← hstep]
  exact serves_iff .readHealth service.worker.health rfl trivial fun other hother _ => hother

theorem readStatus (hstatus : service.core.status = some status)
    (hready : status.readyFor binding.network = true)
    (h : service.Answers binding signer height answer bound (.loadState status)) :
    service.Answers binding signer height answer (bound + 1) .readStatus := by
  refine Inevitable.next (fun next => ?_) h
  have hstep : AgreementPoint.readStatus.resume binding signer height (some status) = .loadState status := by
    simp [AgreementPoint.resume,hready]
  rw [← hstep]
  refine serves_iff .readStatus (some status) hstatus trivial fun other hother hprompt => ?_
  cases other with
  | none => exact hprompt.elim
  | some found => exact hother.symm.trans hstatus

theorem loadState (hload : Store.loadState service.database = ok state)
    (h : service.Answers binding signer height answer bound
      ((AgreementPoint.loadState status).resume binding signer height (some state))) :
    service.Answers binding signer height answer (bound + 1) (.loadState status) := by
  refine Inevitable.next (fun next => ?_) h
  refine serves_iff (.loadState status) (some state) hload trivial fun other hother hprompt => ?_
  cases other with
  | none => exact hprompt.elim
  | some found => exact congrArg some (Outcome.ok.inj (hother.symm.trans hload))

theorem rootsAt {found : Option PersistedHeight} (hroots : Store.rootsAt service.database height = ok found)
    (h : service.Answers binding signer height answer bound
      (AgreementPoint.rootsAt.resume binding signer height (some found))) :
    service.Answers binding signer height answer (bound + 1) .rootsAt := by
  refine Inevitable.next (fun next => ?_) h
  refine serves_iff .rootsAt (some found) hroots trivial fun other hother hprompt => ?_
  cases other with
  | none => exact hprompt.elim
  | some row => exact congrArg some (Outcome.ok.inj (hother.symm.trans hroots))

theorem blockHash {hash : Hash32} (hhash : service.core.blockHash height = some hash)
    (h : service.Answers binding signer height answer bound
      ((AgreementPoint.blockHash persisted).resume binding signer height (some hash))) :
    service.Answers binding signer height answer (bound + 1) (.blockHash persisted) := by
  refine Inevitable.next (fun next => ?_) h
  refine serves_iff (.blockHash persisted) (some hash) hhash trivial fun other hother hprompt => ?_
  cases other with
  | none => exact hprompt.elim
  | some found => exact hother.symm.trans hhash

end Service.Answers
end Still

section CaughtUp
variable {P : Primitives} {views : Hash32 → BlockView} {binding : Binding} {chain : List BlockView}
variable {signer : AgreementSigner} {service : Service} {db : Database} {state : ChainState}
variable {height : UInt64} {status : CoreStatus} {i : ℕ} {deltas : List BlockDelta}

/-- The node reports the chain and is ready. -/
structure CoreAnswers.Reporting (core : CoreAnswers) (network : Network) (chain : List BlockView)
    (status : CoreStatus) : Prop where
  status_eq : core.status = some status
  ready : status.readyFor network = true
  best : status.blocks.toNat + 1 = chain.length
  hashes : ∀ height : UInt64, height.toNat < chain.length →
    core.blockHash height = chain[height.toNat]?.map BlockView.hash

theorem Converged.stored (h : Converged P views binding chain db state) :
    db.protocolState = some ⟨binding,state⟩ := by
  rcases h with ⟨_,_,_,hrecords,_⟩ | ⟨_,_,hrecords,_⟩
  · exact hrecords.stored
  · exact hrecords.stored

/-- An active deployment is recorded from its INIT block on. -/
theorem Converged.records (h : Converged P views binding chain db state)
    (hactive : state.protocolStatus ≠ .awaitingInit) :
    ∃ i deltas, InitAt binding.initTxid chain i ∧ Records P db binding state (chain.drop i) deltas := by
  rcases h with ⟨i,hinit,deltas,hrecords,_⟩ | ⟨_,deltas,hrecords,_⟩
  · exact ⟨i,deltas,hinit,hrecords⟩
  · have hrun := hrecords.run
    simp only [applyBlocks,Option.some.injEq,Prod.mk.injEq] at hrun
    rw [← hrun.1] at hactive
    exact absurd rfl hactive

theorem Records.tip_drop (h : Records P db binding state (chain.drop i) deltas)
    (hchain : BestChain views binding.initTxid chain) (hinit : InitAt binding.initTxid chain i)
    (hbest : status.blocks.toNat + 1 = chain.length) : state.tipHeight = some status.blocks := by
  obtain ⟨first,hget,_⟩ := hinit
  obtain ⟨hi,_⟩ := List.getElem?_eq_some_iff.mp hget
  obtain ⟨last,hlast⟩ : ∃ last, chain.getLast? = some last :=
    Option.isSome_iff_exists.mp (by simpa using List.ne_nil_of_length_pos (by omega : 0 < chain.length))
  have hlength : chain.length = last.height.toNat + 1 := rooted_length hchain.rooted hlast
  have hheight : last.height = status.blocks := UInt64.toNat_inj.mp (by omega)
  rw [(applyBlocks_tip h.run).1,List.getLast?_drop,if_neg (by omega),hlast,Option.map_some,hheight]

/-- The delta of a height is that of the block there. -/
theorem Records.delta_block (h : Records P db binding state (chain.drop i) deltas)
    (hchain : BestChain views binding.initTxid chain) {delta : BlockDelta} (hdelta : delta ∈ deltas) :
    ∃ block, chain[delta.height.toNat]? = some block ∧ block.hash = delta.blockHash ∧
      i ≤ delta.height.toNat := by
  have hheader : delta.header ∈ (chain.drop i).map BlockView.header := by
    rw [← applyBlocks_headers h.run]
    exact List.mem_map_of_mem hdelta
  obtain ⟨block,hmem,hsame⟩ := List.mem_map.mp hheader
  have hheight : block.height = delta.height := congrArg Header.height hsame
  have hrank := getElem?_rank hchain.rooted (List.mem_of_mem_drop hmem)
  have hrange : block.height.toNat ∈ List.range' i (chain.length - i) := by
    rw [← hchain.heights_drop]
    exact List.mem_map_of_mem hmem
  rw [List.mem_range'_1] at hrange
  refine ⟨block,?_,congrArg Header.hash hsame,?_⟩
  · rw [← hheight]
    exact hrank
  · rw [← hheight]
    exact hrange.1

/-- Every height from the INIT block on has a delta. -/
theorem Records.delta_at (h : Records P db binding state (chain.drop i) deltas)
    (hchain : BestChain views binding.initTxid chain) (hlow : i ≤ height.toNat)
    (hhigh : height.toNat < chain.length) : ∃ delta ∈ deltas, delta.height = height := by
  have hrange : height.toNat ∈ (chain.drop i).map fun block => block.height.toNat := by
    rw [hchain.heights_drop,List.mem_range'_1]
    omega
  obtain ⟨block,hmem,hheight⟩ := List.mem_map.mp hrange
  have hheader : block.header ∈ deltas.map BlockDelta.header := by
    rw [applyBlocks_headers h.run]
    exact List.mem_map_of_mem hmem
  obtain ⟨delta,hdelta,hsame⟩ := List.mem_map.mp hheader
  refine ⟨delta,hdelta,?_⟩
  rw [show delta.height = block.height from congrArg Header.height hsame]
  exact UInt64.toNat_inj.mp hheight

/-- What a caught-up verifier owes to a request for the height. -/
inductive Due (P : Primitives) (binding : Binding) (signer : AgreementSigner) (chain : List BlockView)
    (db : Database) (state : ChainState) (height : UInt64) : Except ApiError AgreementEnvelope → Prop
  | inactive (h : ∀ initHeight hOpen hClose, state.protocolStatus ≠ .active initHeight hOpen hClose) :
      Due P binding signer chain db state height
        (.error (.unavailable "canonical protocol state is not ready for signing"))
  | above {initHeight : UInt64} {hOpen hClose : UInt32}
      (hactive : state.protocolStatus = .active initHeight hOpen hClose) (h : chain.length ≤ height.toNat) :
      Due P binding signer chain db state height
        (.error (.unavailable "canonical protocol state is not ready for signing"))
  | below {initHeight : UInt64} {hOpen hClose : UInt32} {i : ℕ}
      (hactive : state.protocolStatus = .active initHeight hOpen hClose)
      (hinit : InitAt binding.initTxid chain i) (h : height.toNat < i) :
      Due P binding signer chain db state height (.error (.notFound "canonical height not found"))
  | signed {initHeight : UInt64} {hOpen hClose : UInt32} {i : ℕ} {deltas : List BlockDelta}
      {delta : BlockDelta} {release : ReleaseIdentity} {envelope : AgreementEnvelope}
      (hactive : state.protocolStatus = .active initHeight hOpen hClose)
      (hinit : InitAt binding.initTxid chain i) (hlow : i ≤ height.toNat) (hhigh : height.toNat < chain.length)
      (hrun : applyBlocks P (ChainState.new P binding) (chain.drop i) = some (state,deltas))
      (hdelta : delta ∈ deltas) (hheight : delta.height = height)
      (hstored : storedBlock delta release ∈ db.canonicalBlocks)
      (htuple : envelope.tuple = AgreementTuple.fromRoots binding.protocolId delta.roots release)
      (hsigned : signer.sign envelope.tuple = some envelope) :
      Due P binding signer chain db state height (.ok envelope)

/-- The row of a stored height. -/
theorem Records.rootsAt_some (h : Records P db binding state (chain.drop i) deltas)
    (hchain : BestChain views binding.initTxid chain) (hlow : i ≤ height.toNat)
    (hhigh : height.toNat < chain.length) : ∃ delta ∈ deltas, ∃ release, delta.height = height ∧
      storedBlock delta release ∈ db.canonicalBlocks ∧
      Store.rootsAt db height = ok (some ⟨delta.roots,release⟩) := by
  obtain ⟨delta,hdelta,hheight⟩ := h.delta_at hchain hlow hhigh
  have hbound : height.toNat < 2 ^ 63 := hheight ▸ h.bounded delta hdelta
  obtain ⟨found,hroots,hfound⟩ := h.rootsAt_eq hbound
  have hmem : delta ∈ deltasAt height deltas := List.mem_filter.mpr ⟨hdelta,decide_eq_true hheight⟩
  cases found with
  | none =>
    rw [Option.map_none,eq_comm,Option.map_eq_none_iff,List.head?_eq_none_iff] at hfound
    rw [hfound] at hmem
    cases hmem
  | some persisted =>
    have hsound : Sound P (fun _ => True) db := .recorded h fun _ _ => trivial
    obtain ⟨row,stored,hread⟩ := rootsAt_readRow hsound hroots
    have hjournal : stored ∈ deltas := by
      rw [← h.journal]
      exact List.mem_map.mpr ⟨_,hread.stored,rfl⟩
    refine ⟨stored,hjournal,persisted.release,hread.height_eq,hread.stored,?_⟩
    rw [hroots,← hread.roots]

theorem Records.rootsAt_none (h : Records P db binding state (chain.drop i) deltas)
    (hchain : BestChain views binding.initTxid chain) (hinit : InitAt binding.initTxid chain i)
    (hlow : height.toNat < i) : Store.rootsAt db height = ok none := by
  obtain ⟨first,hget,_⟩ := hinit
  obtain ⟨hi,_⟩ := List.getElem?_eq_some_iff.mp hget
  have hrank : first.height.toNat = i := ranked hchain.rooted hget
  obtain ⟨delta,hdelta,hheight⟩ := h.delta_at hchain hrank.ge (hrank ▸ hi)
  have hbound : height.toNat < 2 ^ 63 := by
    have hlast := h.bounded delta hdelta
    rw [hheight] at hlast
    omega
  obtain ⟨found,hroots,hfound⟩ := h.rootsAt_eq hbound
  have hempty : deltasAt height deltas = [] := by
    refine List.filter_eq_nil_iff.mpr fun other hother hsame => ?_
    obtain ⟨_,_,_,hfrom⟩ := h.delta_block hchain hother
    rw [of_decide_eq_true hsame] at hfrom
    omega
  rw [hempty,List.head?_nil,Option.map_none,Option.map_eq_none_iff] at hfound
  rw [hroots,hfound]

/-- A request to a caught-up verifier is answered as due, within five awaits. -/
theorem agreement_due (hchain : BestChain views binding.initTxid chain)
    (hconverged : Converged P views binding chain service.database state)
    (hcatching : service.worker.health.catchingUp = false) (herror : service.worker.health.lastError = none)
    (hcore : service.core.Reporting binding.network chain status)
    (hsigner : ∀ tuple, (signer.canonicalBytes tuple).isSome) :
    ∃ answer, Due P binding signer chain service.database state height answer ∧
      service.Answers binding signer height answer 5 .readHealth := by
  have hload : Store.loadState service.database = ok state :=
    Store.loadState_eq_ok.mpr ⟨binding,hconverged.stored⟩
  have hgate : ∀ {answer}, service.Answers binding signer height answer 2
      ((AgreementPoint.loadState status).resume binding signer height (some state)) →
      service.Answers binding signer height answer 5 .readHealth := fun h =>
    .readHealth hcatching herror (.readStatus hcore.status_eq hcore.ready (.loadState hload h))
  cases hstatus : state.protocolStatus with
  | awaitingInit =>
    refine ⟨_,.inactive (by simp [hstatus]),hgate ?_⟩
    simp only [AgreementPoint.resume,hstatus]
    exact .done
  | failedInit reason initHeight =>
    refine ⟨_,.inactive (by simp [hstatus]),hgate ?_⟩
    simp only [AgreementPoint.resume,hstatus]
    exact .done
  | active initHeight hOpen hClose =>
    obtain ⟨i,deltas,hinit,hrecords⟩ := hconverged.records (by simp [hstatus])
    have htip := hrecords.tip_drop hchain hinit hcore.best
    by_cases habove : chain.length ≤ height.toNat
    · refine ⟨_,.above hstatus habove,hgate ?_⟩
      have hlt : status.blocks < height := UInt64.lt_iff_toNat_lt.mpr (by have := hcore.best; omega)
      simp only [AgreementPoint.resume,hstatus,hlt,or_true,if_true]
      exact .done
    · have hle : ¬ status.blocks < height := by
        rw [UInt64.lt_iff_toNat_lt]
        have := hcore.best
        omega
      have hrows : (AgreementPoint.loadState status).resume binding signer height (some state) = .rootsAt := by
        simp only [AgreementPoint.resume,hstatus,htip,ne_eq,not_true_eq_false,hle,or_self,if_false]
      by_cases hbelow : height.toNat < i
      · refine ⟨_,.below hstatus hinit hbelow,hgate ?_⟩
        rw [hrows]
        exact .rootsAt (hrecords.rootsAt_none hchain hinit hbelow) .done
      · obtain ⟨delta,hdelta,release,hheight,hstored,hroots⟩ :=
          hrecords.rootsAt_some hchain (not_lt.mp hbelow) (not_le.mp habove)
        obtain ⟨envelope,hsigned⟩ : ∃ envelope, signer.sign
            (AgreementTuple.fromRoots binding.protocolId delta.roots release) = some envelope := by
          obtain ⟨bytes,hbytes⟩ := Option.isSome_iff_exists.mp (hsigner _)
          exact ⟨_,by rw [AgreementSigner.sign,hbytes]; rfl⟩
        have htuple := sign_tuple hsigned
        refine ⟨_,.signed hstatus hinit (not_lt.mp hbelow) (not_le.mp habove) hrecords.run hdelta hheight
          hstored htuple (htuple ▸ hsigned),hgate ?_⟩
        obtain ⟨block,hblock,hname,_⟩ := hrecords.delta_block hchain hdelta
        have hhash : service.core.blockHash height = some delta.roots.blockHash := by
          rw [hcore.hashes height (not_le.mp habove),← hheight,hblock,Option.map_some,hname,
            (applyBlocks_roots hrecords.run hdelta).2]
        rw [hrows]
        refine .rootsAt hroots (.blockHash hhash ?_)
        simp only [AgreementPoint.resume,AgreementPoint.signRow,hsigned,ne_eq,not_true_eq_false,if_false]
        exact .done

def ReadinessPoint.Prompt : (point : ReadinessPoint) → point.Reply → Prop
  | .pingDatabase,none | .readStatus _,none | .loadState _ _,none => False
  | _,_ => True

/-- One await of a readiness request on a service that stands still. -/
def Service.Probes (service : Service) (binding : Binding) (signerKeyId publicKey : String)
    (point next : ReadinessPoint) : Prop :=
  ∃ reply, service.Sees point reply ∧ point.Prompt reply ∧
    next = point.resume binding signerKeyId publicKey reply

theorem probes_iff {signerKeyId publicKey : String} {next : ReadinessPoint} (point : ReadinessPoint)
    (reply : point.Reply) (hsees : service.Sees point reply) (hprompt : point.Prompt reply)
    (hunique : ∀ other, service.Sees point other → point.Prompt other → other = reply) :
    service.Probes binding signerKeyId publicKey point next ↔
      next = point.resume binding signerKeyId publicKey reply := by
  constructor
  · rintro ⟨other,hother,hanswer,rfl⟩
    rw [hunique other hother hanswer]
  · rintro rfl
    exact ⟨reply,hsees,hprompt,rfl⟩

/-- A readiness request to a service that stands still has one course. -/
theorem readiness_course {signerKeyId publicKey : String}
    (hload : Store.loadState service.database = ok state)
    (hcore : service.core.Reporting binding.network chain status) :
    Inevitable (service.Probes binding signerKeyId publicKey)
      (fun final => final = .done (ReadinessPoint.respond binding signerKeyId publicKey
        (ReadinessPoint.protocolFailures state.protocolStatus ++
          ReadinessPoint.workerFailures service.worker.health ++
          ReadinessPoint.tipFailures (some status) (some state))
        (some status) (some state) service.worker.health)) 4 .pingDatabase := by
  have hready : (ReadinessPoint.readStatus []).resume binding signerKeyId publicKey (some status) =
      .loadState [] (some status) := by
    simp [ReadinessPoint.resume,hcore.ready]
  refine Inevitable.next (b := .readStatus []) (fun next => ?_)
    (Inevitable.next (b := .loadState [] (some status)) (fun next => ?_)
    (Inevitable.next (b := .readHealth (ReadinessPoint.protocolFailures state.protocolStatus) (some status)
      (some state)) (fun next => ?_)
    (Inevitable.next (fun next => ?_) (Inevitable.stop rfl ?_))))
  · refine probes_iff .pingDatabase (some ()) trivial trivial fun other _ hprompt => ?_
    cases other with
    | none => exact hprompt.elim
    | some u => rfl
  · rw [← hready]
    refine probes_iff (.readStatus []) (some status) hcore.status_eq trivial fun other hsees hprompt => ?_
    cases other with
    | none => exact hprompt.elim
    | some found => exact hsees.symm.trans hcore.status_eq
  · refine probes_iff (.loadState [] (some status)) (some state) hload trivial fun other hsees hprompt => ?_
    cases other with
    | none => exact hprompt.elim
    | some found => exact congrArg some (Outcome.ok.inj (hsees.symm.trans hload))
  · exact probes_iff (.readHealth _ _ _) service.worker.health rfl trivial fun other hsees _ => hsees
  · rintro next ⟨reply,_⟩
    exact nomatch reply

/-- The tip is behind the node only before INIT. -/
theorem Converged.tipFailures (hchain : BestChain views binding.initTxid chain)
    (h : Converged P views binding chain db state) (hbest : status.blocks.toNat + 1 = chain.length)
    (hdecided : state.protocolStatus ≠ .awaitingInit) :
    ReadinessPoint.tipFailures (some status) (some state) = [] := by
  obtain ⟨i,deltas,hinit,hrecords⟩ := h.records hdecided
  simp [ReadinessPoint.tipFailures,hrecords.tip_drop hchain hinit hbest]

/-- The service when a request arrives after a pass has ended well and its health is recorded. -/
def Service.afterPass (P : Primitives) (config : Database × Ingestion) (core : CoreAnswers) : Service :=
  ⟨config.1,config.2.resume P (.finished (.ok ())) (),core,.readHealth⟩

/-- After a pass that started in step with the stored run and ended well, while node and database
stand still, the readiness request reports ready exactly when the deployment is active, and
every agreement request is answered as due: each height from the INIT block to the tip is
signed with the roots of the reduction of the node's chain, and no other. -/
theorem caught_up_answers {publicKey : String} {row : ProtocolRow} {worker : Ingestion}
    {config : Database × Ingestion} {core : CoreAnswers}
    (hdb : Committed P (fun block => views block.hash = block) db) (hstored : db.protocolState = some row)
    (hstate : worker.state = row.state) (hpoint : worker.point = .starting ∨ worker.point = .readStatus)
    (hchain : BestChain views row.binding.initTxid chain)
    (hpass : Relation.ReflTransGen (Ingestion.Step P (Truthful row.binding.initTxid chain))
      (db,worker) config)
    (hok : config.2.point = .finished (.ok ()))
    (hcore : core.Reporting row.binding.network chain status)
    (hsigner : ∀ tuple, (signer.canonicalBytes tuple).isSome) :
    (∃ response, Inevitable ((Service.afterPass P config core).Probes row.binding signer.keyId publicKey)
        (fun final => final = .done response) 4 .pingDatabase ∧
      (response.ready = true ↔
        ∃ initHeight hOpen hClose, config.2.state.protocolStatus = .active initHeight hOpen hClose)) ∧
    ∀ height, ∃ answer, Due P row.binding signer chain config.1 config.2.state height answer ∧
      (Service.afterPass P config core).Answers row.binding signer height answer 5 .readHealth := by
  have hconverged := pass_converged hdb hstored hstate hpoint hchain hpass hok
  have hafter : Converged P views row.binding chain (Service.afterPass P config core).database
      config.2.state := hconverged
  refine ⟨⟨_,readiness_course (Store.loadState_eq_ok.mpr ⟨row.binding,hafter.stored⟩) hcore,?_⟩,fun height =>
    agreement_due hchain hafter rfl rfl hcore hsigner⟩
  have hworker : ReadinessPoint.workerFailures (Service.afterPass P config core).worker.health = [] := rfl
  simp only [ReadinessPoint.respond,hworker,List.append_nil,List.isEmpty_iff,List.append_eq_nil_iff]
  constructor
  · rintro ⟨hprotocol,_⟩
    exact protocolFailures_nil hprotocol
  · rintro ⟨initHeight,hOpen,hClose,hactive⟩
    have hdecided : config.2.state.protocolStatus ≠ .awaitingInit := by simp [hactive]
    refine ⟨?_,hconverged.tipFailures hchain hcore.best hdecided⟩
    simp [ReadinessPoint.protocolFailures,hactive]

end CaughtUp

section Sample

/-- The service after the first pass has been recorded as successful. -/
def leftService (config : Database × Ingestion) : Service :=
  Service.afterPass bitcoinPrimitives config (answersOf leftChain)

theorem leftChain_reporting : (answersOf leftChain).Reporting sampleBinding.network leftChain sampleStatus :=
  ⟨rfl,by decide,rfl,fun _ _ => rfl⟩

theorem leftPass_ends {config : Database × Ingestion} (h : leftPass = some config) :
    Relation.ReflTransGen (Ingestion.Step bitcoinPrimitives (Truthful sampleBinding.initTxid leftChain))
      (sampleBound,sampleWorker) config ∧ config.2.point = .finished (.ok ()) := by
  have hpoint := leftPass_eq
  rw [h] at hpoint
  simp only [Option.map_some,Option.some.injEq,Prod.mk.injEq] at hpoint
  exact ⟨Ingestion.simulate_run (fun fate _ => sampleNode_truthful (Or.inl rfl) fate) h,hpoint.1⟩

theorem leftPass_converged {config : Database × Ingestion} (h : leftPass = some config) :
    Converged bitcoinPrimitives sampleViews sampleBinding leftChain config.1 config.2.state := by
  obtain ⟨hrun,hends⟩ := leftPass_ends h
  have hstored : sampleBound.protocolState = some ⟨sampleBinding,sampleNew⟩ := rfl
  exact pass_converged sampleBound_committed hstored rfl (Or.inl rfl) leftChain_best hrun hends

set_option maxRecDepth 10000 in
theorem leftChain_active : (applyBlocks bitcoinPrimitives sampleNew (leftChain.drop 1)).map
    (fun run => run.1.protocolStatus) = some (.active 1 1108 5428) := by
  decide +kernel

theorem leftChain_init : InitAt sampleBinding.initTxid leftChain 1 := ⟨earlyBlock,rfl,by decide +kernel⟩

theorem leftPass_active {config : Database × Ingestion} (h : leftPass = some config) :
    config.2.state.protocolStatus = .active 1 1108 5428 := by
  obtain ⟨⟨state,deltas⟩,hrun,hactive⟩ := Option.map_eq_some_iff.mp leftChain_active
  rcases leftPass_converged h with ⟨i,hi,deltas',hrecords,_⟩ | ⟨hnone,_⟩
  · obtain rfl := leftChain_best.init_unique leftChain_init hi
    obtain ⟨hsame,_⟩ := Prod.mk.inj (Option.some.inj (hrun.symm.trans hrecords.run))
    rw [← hsame]
    exact hactive
  · obtain ⟨block,hget,hblock⟩ := leftChain_init
    simp [hnone block (List.mem_of_getElem? hget)] at hblock

theorem Service.Probes.run {P : Primitives} {service : Service} {binding : Binding} {signer : AgreementSigner}
    {height : UInt64} {publicKey : String} {n : ℕ} {point next : ReadinessPoint}
    (h : RunIn (service.Probes binding signer.keyId publicKey) n point next) :
    Relation.ReflTransGen (Probing P binding signer height publicKey) (service,point) (service,next) := by
  induction h with
  | refl => exact .refl
  | tail _ hstep ih =>
    obtain ⟨reply,hsees,_,rfl⟩ := hstep
    exact ih.tail (.answered _ reply hsees)

/-- The verifier signs the INIT block after the first pass. -/
theorem sample_caught_up : ∃ (service : Service) (response : Readiness) (envelope : AgreementEnvelope),
    Inevitable (service.Probes sampleBinding tightSigner.keyId "") (fun final => final = .done response) 4
      .pingDatabase ∧ response.ready = true ∧
    service.Answers sampleBinding tightSigner 1 (.ok envelope) 5 .readHealth := by
  obtain ⟨config,hleft,_⟩ := Option.map_eq_some_iff.mp leftPass_eq
  have hactive := leftPass_active hleft
  obtain ⟨hrun,hends⟩ := leftPass_ends hleft
  have hstored : sampleBound.protocolState = some ⟨sampleBinding,sampleNew⟩ := rfl
  have hcaught := @caught_up_answers bitcoinPrimitives sampleViews leftChain tightSigner sampleBound sampleStatus
    "" ⟨sampleBinding,sampleNew⟩ sampleWorker config (answersOf leftChain) sampleBound_committed hstored rfl
    (Or.inl rfl) leftChain_best hrun hends leftChain_reporting fun _ => rfl
  obtain ⟨⟨response,hresponse,hready⟩,hanswers⟩ := hcaught
  obtain ⟨answer,hdue,hanswer⟩ := hanswers 1
  refine ⟨leftService config,response,?_⟩
  cases hdue with
  | inactive h => exact absurd hactive (h _ _ _)
  | above _ h => simp [leftChain] at h
  | below _ hinit h => simp [← leftChain_best.init_unique leftChain_init hinit] at h
  | @signed _ _ _ _ _ _ _ envelope => exact ⟨envelope,hresponse,hready.mpr ⟨_,_,_,hactive⟩,hanswer⟩

end Sample
end TandemVerifier
