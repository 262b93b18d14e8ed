import TandemVerifier.Reduction.Deployment
import TandemVerifier.Service.Ingest

/-! # Executing the worker

The step relation leaves open what the environment answers and how a transaction ends.
Once both are given, the worker can be executed: a source answers the calls to Bitcoin
Core and every transaction has a fate. An execution is a run of the step relation, for
every constraint that its answers meet.
-/
namespace TandemVerifier
open Library Library.Outcome

/-- How a database call ends for the worker that awaits it. -/
inductive Fate where
  | acknowledged
  | aborted
  | unacknowledged
deriving DecidableEq

/-- The answers of Bitcoin Core and of the clock; `none` where the database answers. -/
abbrev Source := (point : Point) → Option point.Reply

def BlockView.hasTransaction (block : BlockView) (txid : Hash32) : Bool :=
  block.transactions.any fun tx => tx.txid == txid

/-- The answers during a pass of a node with the given status, best chain and empty mempool. -/
def nodeSource (status : CoreStatus) (initTxid : Hash32) (chain : List BlockView) : Source
  | .starting => some ()
  | .readStatus => some (some status)
  | .readBestHeight => some (some (UInt64.ofNat (chain.length - 1)))
  | .compareTip _ tipHeight => some (chain[tipHeight.toNat]?.map BlockView.hash)
  | .locateInit _ =>
    some (some ((chain.find? fun block => block.hasTransaction initTxid).map BlockView.height))
  | .fetchBlock _ height => some chain[height.toNat]?
  | .readMempool => some (some [])
  | _ => none

namespace Ingestion
variable {P : Primitives} {source : Source} {fate : Fate} {worker worker' : Ingestion}
variable {db db' : Database} {permits : Permits}

/-- A transaction that would commit: its reply and the database, by its fate. -/
def settle {α : Type} (fate : Fate) (db : Database) (result : Outcome StoreError (Database × α)) :
    Option α × Database :=
  match fate,result with
  | .acknowledged,.ok (db',value) => (some value,db')
  | .unacknowledged,.ok (db',_) => (none,db')
  | _,_ => (none,db)

def respond (source : Source) (fate : Fate) (worker : Ingestion) (db : Database) :
    (point : Point) → Option (point.Reply × Database)
  | .rollbackTip _ => some (settle fate db (Store.rollbackTip db))
  | .commitBlock _ _ delta =>
    some (settle fate db (Store.applyBlock db worker.state delta worker.release >>= fun db' =>
      pure (db',())))
  | .reloadState _ =>
    some (settle fate db (Store.loadState db >>= fun state => pure (db,state)))
  | .writeMempool transactions =>
    some (settle fate db (Store.replaceMempool db transactions >>= fun db' => pure (db',())))
  | point => (source point).map fun reply => (reply,db)

def advance (P : Primitives) (source : Source) (fate : Fate) (config : Database × Ingestion) :
    Option (Database × Ingestion) :=
  (respond source fate config.2 config.1 config.2.point).map fun answer =>
    (answer.2,config.2.resume P config.2.point answer.1)

/-- Execute one step for each fate. -/
def simulate (P : Primitives) (source : Source) : List Fate → Database × Ingestion →
    Option (Database × Ingestion)
  | [],config => some config
  | fate :: rest,config => (advance P source fate config).bind (simulate P source rest)

theorem settle_exchange {α : Type} {result : Outcome StoreError (Database × α)} {reply : Option α}
    (h : settle fate db result = (reply,db')) : (∀ value, reply = some value → result = ok (db',value)) ∧
      (reply = none → db' = db ∨ ∃ value, result = ok (db',value)) := by
  unfold settle at h
  split at h
  · obtain ⟨rfl,rfl⟩ := Prod.mk.inj h
    simp
  · obtain ⟨rfl,rfl⟩ := Prod.mk.inj h
    simp
  · obtain ⟨rfl,rfl⟩ := Prod.mk.inj h
    simp

theorem respond_exchange {point : Point} {reply : point.Reply}
    (h : respond source fate worker db point = some (reply,db')) :
    worker.Exchange db point reply db' := by
  cases point with
  | rollbackTip bestHeight =>
    obtain ⟨hsome,hnone⟩ := settle_exchange (Option.some.inj h)
    cases reply with
    | none => exact hnone rfl
    | some result => exact hsome result rfl
  | commitBlock bestHeight height delta =>
    obtain ⟨hsome,hnone⟩ := settle_exchange (Option.some.inj h)
    cases reply with
    | none => simpa [Exchange,bind_eq_ok] using hnone rfl
    | some result => simpa [Exchange,bind_eq_ok] using hsome result rfl
  | reloadState delta =>
    obtain ⟨hsome,hnone⟩ := settle_exchange (Option.some.inj h)
    cases reply with
    | none =>
      have hdb := hnone rfl
      simp only [bind_eq_ok,pure_eq_ok,Outcome.ok.injEq,Prod.mk.injEq] at hdb
      rcases hdb with rfl | ⟨_,_,_,rfl,_⟩ <;> rfl
    | some state =>
      have hstate := hsome state rfl
      simp only [bind_eq_ok,pure_eq_ok,Outcome.ok.injEq,Prod.mk.injEq] at hstate
      obtain ⟨_,hload,rfl,rfl⟩ := hstate
      exact ⟨rfl,hload⟩
  | writeMempool transactions =>
    obtain ⟨hsome,hnone⟩ := settle_exchange (Option.some.inj h)
    cases reply with
    | none => simpa [Exchange,bind_eq_ok] using hnone rfl
    | some result => simpa [Exchange,bind_eq_ok] using hsome result rfl
  | panicked => cases reply
  | _ =>
    obtain ⟨_,_,heq⟩ := Option.map_eq_some_iff.mp h
    exact (Prod.mk.inj heq).2.symm

/-- What is answered under a fate meets a constraint. -/
def Meets (source : Source) (permits : Permits) (fate : Fate) : Prop :=
  ∀ (worker : Ingestion) (db db' : Database) (point : Point) (reply : point.Reply),
    respond source fate worker db point = some (reply,db') → permits point reply db db'

/-- An execution is a run of the step relation. -/
theorem simulate_run {fates : List Fate} {config config' : Database × Ingestion}
    (hmeets : ∀ fate ∈ fates, Meets source permits fate)
    (h : simulate P source fates config = some config') :
    Relation.ReflTransGen (Ingestion.Step P permits) config config' := by
  induction fates generalizing config with
  | nil =>
    obtain rfl := Option.some.inj h
    exact .refl
  | cons fate rest ih =>
    obtain ⟨middle,hadvance,hrest⟩ := Option.bind_eq_some_iff.mp h
    obtain ⟨⟨reply,after⟩,hrespond,rfl⟩ := Option.map_eq_some_iff.mp hadvance
    have hpermits := hmeets fate (by simp) _ _ _ _ _ hrespond
    have hlater : ∀ fate ∈ rest, Meets source permits fate := by
      intro later hmem
      exact hmeets later (List.mem_cons_of_mem _ hmem)
    exact .head (.step _ reply rfl (respond_exchange hrespond) hpermits) (ih hlater hrest)

end Ingestion

section Sample

def sampleRelease : ReleaseIdentity :=
  ⟨String.ofList (List.replicate 40 'a'),String.ofList (List.replicate 40 'b'),sampleHash 20,sampleHash 21⟩

def sampleStatus : CoreStatus := ⟨"regtest",2,2,false,true⟩

/-- The sample INIT, funded by an output of the first block. -/
def earlyInit : TxView :=
  { sampleInit with inputs := [{ fundingInput key1G 4 2000 0xffffffff with prevoutHeight := some 0 }] }

def earlyBlock : BlockView := sampleBlock 1 [earlyInit]

/-- Two blocks at the same height above the INIT block. -/
def leftBlock : BlockView := ⟨sampleHash 30,sampleHash 1,2,[]⟩
def rightBlock : BlockView := ⟨sampleHash 31,sampleHash 1,2,[]⟩

def leftChain : List BlockView := [emptyBlock sampleHash 0,earlyBlock,leftBlock]
def rightChain : List BlockView := [emptyBlock sampleHash 0,earlyBlock,rightBlock]

def sampleNode (chain : List BlockView) : Source := nodeSource sampleStatus sampleBinding.initTxid chain

def sampleBound : Database := { Database.empty with protocolState := some ⟨sampleBinding,sampleNew⟩ }

def sampleWorker : Ingestion := Ingestion.new sampleNew sampleRelease

/-- The first pass of a worker on an empty database, against the left chain. -/
def leftPass : Option (Database × Ingestion) :=
  Ingestion.simulate bitcoinPrimitives (sampleNode leftChain) (List.replicate 10 .acknowledged)
    (sampleBound,sampleWorker)

def storedHashes (db : Database) : List Hash32 := db.canonicalBlocks.map BlockRow.blockHash

set_option maxRecDepth 10000 in
theorem leftPass_eq : leftPass.map (fun config => (config.2.point,storedHashes config.1)) =
    some (.finished (.ok ()),[sampleHash 1,sampleHash 30]) := by
  decide +kernel

end Sample
end TandemVerifier
