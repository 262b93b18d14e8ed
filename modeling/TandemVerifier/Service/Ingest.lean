import Mathlib.Logic.Relation
import TandemVerifier.Service.Store

/-! # The ingestion worker

`run`, `run_once` and `reconcile_reorg` of `ingest.rs` as an automaton that stops at
every await: a point is a place where the worker waits, with the locals that are live
there, and `resume` is the code from the reply to the next await. A reply `none` is an
error returned to the worker. What the database does meanwhile is a relation, because a
transaction reported as failed may have been aborted or may have committed.
-/
namespace TandemVerifier
open Library Library.Outcome

/-- Bitcoin Core readiness facts. -/
structure CoreStatus where
  chain : String
  blocks : UInt64
  headers : UInt64
  initialBlockDownload : Bool
  txindexSynced : Bool
deriving DecidableEq

def CoreStatus.readyFor (status : CoreStatus) (network : Network) : Bool :=
  let expected := match network with
    | .mainnet => "main"
    | .signet => "signet"
    | .testnet4 => "testnet4"
    | .regtest => "regtest"
  status.chain == expected && status.blocks == status.headers && !status.initialBlockDownload &&
    status.txindexSynced

inductive PassError where
  | source
  | coreNotReady (status : CoreStatus)
  | noRollbackJournal
  | heightOverflow
  | reduction (height : UInt64) (error : ReducerError)
  | store
deriving DecidableEq

/-- Observable ingestion health without consensus authority. -/
structure WorkerHealth where
  lastSuccessfulHeight : Option UInt64
  lastError : Option PassError
  catchingUp : Bool
deriving DecidableEq

/-- The awaits of the worker; `starting` and `finished` write the shared health. -/
inductive Point where
  | starting
  | readStatus
  | readBestHeight
  | compareTip (bestHeight tipHeight : UInt64)
  | rollbackTip (bestHeight : UInt64)
  | locateInit (bestHeight : UInt64)
  | fetchBlock (bestHeight height : UInt64)
  | commitBlock (bestHeight height : UInt64) (delta : BlockDelta)
  | reloadState (delta : BlockDelta)
  | readMempool
  | writeMempool (transactions : List TxView)
  | finished (result : Except PassError Unit)
  | waiting
  | panicked
deriving DecidableEq

@[reducible] def Point.Reply : Point → Type
  | starting => Unit
  | readStatus => Option CoreStatus
  | readBestHeight => Option UInt64
  | compareTip _ _ => Option Hash32
  | rollbackTip _ => Option (Option ChainState)
  | locateInit _ => Option (Option UInt64)
  | fetchBlock _ _ => Option BlockView
  | commitBlock _ _ _ => Option Unit
  | reloadState _ => Option ChainState
  | readMempool => Option (List TxView)
  | writeMempool _ => Option Unit
  | finished _ => Unit
  | waiting => Unit
  | panicked => Empty

structure Ingestion where
  state : ChainState
  release : ReleaseIdentity
  health : WorkerHealth
  point : Point
deriving DecidableEq

namespace Ingestion

def new (state : ChainState) (release : ReleaseIdentity) : Ingestion :=
  ⟨state,release,⟨none,none,false⟩,.starting⟩

def goto (worker : Ingestion) (point : Point) : Ingestion := { worker with point := point }

def fail (worker : Ingestion) (error : PassError) : Ingestion := worker.goto (.finished (.error error))

/-- `for height in first..=best`, entered only when `first <= best`. -/
def forHeights (worker : Ingestion) (bestHeight firstHeight : UInt64) : Ingestion :=
  if firstHeight ≤ bestHeight then worker.goto (.fetchBlock bestHeight firstHeight)
  else worker.goto .readMempool

/-- The choice of the first height after `reconcile_reorg` has returned. -/
def catchUp (worker : Ingestion) (bestHeight : UInt64) : Ingestion :=
  match worker.state.tipHeight with
  | some tip =>
    match checkedAdd64 tip 1 with
    | some firstHeight => worker.forHeights bestHeight firstHeight
    | none => worker.fail .heightOverflow
  | none => worker.goto (.locateInit bestHeight)

/-- The branch of `reconcile_reorg` that disconnects; `expect` panics without a tip hash. -/
def disconnect (worker : Ingestion) (bestHeight : UInt64) : Ingestion :=
  match worker.state.tipHash with
  | some _ => worker.goto (.rollbackTip bestHeight)
  | none => worker.goto .panicked

/-- The head of the loop of `reconcile_reorg`. -/
def reconcileReorg (worker : Ingestion) (bestHeight : UInt64) : Ingestion :=
  match worker.state.tipHeight with
  | none => worker.catchUp bestHeight
  | some tipHeight =>
    if bestHeight < tipHeight then worker.disconnect bestHeight
    else worker.goto (.compareTip bestHeight tipHeight)

/-- Reduce a fetched block in memory and hand it to the store. -/
def reduceBlock (P : Primitives) (worker : Ingestion) (bestHeight height : UInt64) (block : BlockView) :
    Ingestion :=
  match applyBlock P worker.state block with
  | .ok (state,.ok delta) => { worker with state := state, point := .commitBlock bestHeight height delta }
  | .ok (state,.error error) => { worker with state := state }.fail (.reduction height error)
  | .err _ => worker.goto .panicked
  | .panic => worker.goto .panicked

/-- Run from the reply to the awaited call up to the next await. -/
def resume (P : Primitives) (worker : Ingestion) : (point : Point) → point.Reply → Ingestion
  | .starting,() =>
    { worker with health := { worker.health with catchingUp := true }, point := .readStatus }
  | .readStatus,none => worker.fail .source
  | .readStatus,some status =>
    if status.readyFor worker.state.binding.network then worker.goto .readBestHeight
    else worker.fail (.coreNotReady status)
  | .readBestHeight,none => worker.fail .source
  | .readBestHeight,some bestHeight => worker.reconcileReorg bestHeight
  | .compareTip _ _,none => worker.fail .source
  | .compareTip bestHeight _,some hash =>
    match worker.state.tipHash with
    | none => worker.goto .panicked
    | some tipHash =>
      if hash = tipHash then worker.catchUp bestHeight else worker.disconnect bestHeight
  | .rollbackTip _,none => worker.fail .store
  | .rollbackTip _,some none => worker.fail .noRollbackJournal
  | .rollbackTip bestHeight,some (some state) =>
    let worker := { worker with state := state }
    if state.protocolStatus = .awaitingInit then worker.catchUp bestHeight
    else worker.reconcileReorg bestHeight
  | .locateInit _,none => worker.fail .source
  | .locateInit _,some none => worker.goto .readMempool
  | .locateInit bestHeight,some (some height) => worker.forHeights bestHeight height
  | .fetchBlock _ _,none => worker.fail .source
  | .fetchBlock bestHeight height,some block => worker.reduceBlock P bestHeight height block
  | .commitBlock _ _ delta,none => worker.goto (.reloadState delta)
  | .commitBlock bestHeight height _,some () =>
    if height < bestHeight then worker.goto (.fetchBlock bestHeight (height + 1))
    else worker.goto .readMempool
  | .reloadState delta,reply => { worker with state := reply.getD delta.before }.fail .store
  | .readMempool,none => worker.fail .source
  | .readMempool,some transactions => worker.goto (.writeMempool transactions)
  | .writeMempool _,none => worker.fail .store
  | .writeMempool _,some () => worker.goto (.finished (.ok ()))
  | .finished (.ok ()),() =>
    { worker with health := ⟨worker.state.tipHeight,none,false⟩, point := .waiting }
  | .finished (.error error),() =>
    { worker with
      health := { worker.health with lastError := some error, catchingUp := false }
      point := .waiting }
  | .waiting,() => worker.goto .starting
  | .panicked,reply => nomatch reply

/-- The database before and after an awaited call that returns the reply. A call that returns
an error has left the database alone or has committed without being acknowledged. -/
def Exchange (worker : Ingestion) (db : Database) : (point : Point) → point.Reply → Database → Prop
  | .rollbackTip _,some result,db' => Store.rollbackTip db = ok (db',result)
  | .rollbackTip _,none,db' => db' = db ∨ ∃ result, Store.rollbackTip db = ok (db',result)
  | .commitBlock _ _ delta,some (),db' =>
    Store.applyBlock db worker.state delta worker.release = ok db'
  | .commitBlock _ _ delta,none,db' =>
    db' = db ∨ Store.applyBlock db worker.state delta worker.release = ok db'
  | .reloadState _,some state,db' => db' = db ∧ Store.loadState db = ok state
  | .writeMempool transactions,some (),db' => Store.replaceMempool db transactions = ok db'
  | .writeMempool transactions,none,db' => db' = db ∨ Store.replaceMempool db transactions = ok db'
  | _,_,db' => db' = db

section Rules
variable {P : Primitives} {worker : Ingestion} {bestHeight firstHeight : UInt64}
variable {motive : Point → Prop}

@[simp] theorem goto_state (point : Point) : (worker.goto point).state = worker.state := rfl
@[simp] theorem goto_point (point : Point) : (worker.goto point).point = point := rfl
@[simp] theorem fail_state (error : PassError) : (worker.fail error).state = worker.state := rfl

@[simp] theorem fail_point (error : PassError) :
    (worker.fail error).point = .finished (.error error) := rfl

@[simp] theorem forHeights_state : (worker.forHeights bestHeight firstHeight).state = worker.state := by
  unfold forHeights
  split <;> rfl

@[simp] theorem catchUp_state : (worker.catchUp bestHeight).state = worker.state := by
  unfold catchUp
  split
  · split <;> simp
  · rfl

@[simp] theorem disconnect_state : (worker.disconnect bestHeight).state = worker.state := by
  unfold disconnect
  split <;> rfl

@[simp] theorem reconcileReorg_state : (worker.reconcileReorg bestHeight).state = worker.state := by
  unfold reconcileReorg
  split
  · exact catchUp_state
  · split <;> simp

theorem forHeights_rule (hfetch : firstHeight ≤ bestHeight → motive (.fetchBlock bestHeight firstHeight))
    (hdone : bestHeight < firstHeight → motive .readMempool) :
    motive (worker.forHeights bestHeight firstHeight).point := by
  unfold forHeights
  split
  · next hle => exact hfetch hle
  · next hgt => exact hdone (UInt64.not_le.mp hgt)

theorem catchUp_rule
    (hfetch : ∀ tip next, worker.state.tipHeight = some tip → next.toNat = tip.toNat + 1 →
      next ≤ bestHeight → motive (.fetchBlock bestHeight next))
    (hdone : ∀ tip, worker.state.tipHeight = some tip → bestHeight ≤ tip → motive .readMempool)
    (hinit : worker.state.tipHeight = none → motive (.locateInit bestHeight))
    (herror : ∀ error, motive (.finished (.error error))) :
    motive (worker.catchUp bestHeight).point := by
  unfold catchUp
  split
  · next tip htip =>
    split
    · next next hnext =>
      have hadd : next.toNat = tip.toNat + 1 := by
        simpa using (checkedAdd64_eq_some.mp hnext).symm
      apply forHeights_rule (hfetch tip next htip hadd)
      intro hlt
      apply hdone tip htip
      rw [UInt64.lt_iff_toNat_lt] at hlt
      exact UInt64.le_iff_toNat_le.mpr (by omega)
    · exact herror _
  · next htip => exact hinit htip

theorem disconnect_rule
    (hroll : ∀ tipHash, worker.state.tipHash = some tipHash → motive (.rollbackTip bestHeight))
    (hpanic : motive .panicked) : motive (worker.disconnect bestHeight).point := by
  unfold disconnect
  split
  · next tipHash htip => exact hroll tipHash htip
  · exact hpanic

theorem reconcileReorg_rule
    (hcompare : ∀ tip, worker.state.tipHeight = some tip → tip ≤ bestHeight →
      motive (.compareTip bestHeight tip))
    (hroll : ∀ tip tipHash, worker.state.tipHeight = some tip → worker.state.tipHash = some tipHash →
      bestHeight < tip → motive (.rollbackTip bestHeight))
    (hinit : worker.state.tipHeight = none → motive (.locateInit bestHeight))
    (herror : ∀ error, motive (.finished (.error error))) (hpanic : motive .panicked) :
    motive (worker.reconcileReorg bestHeight).point := by
  unfold reconcileReorg
  split
  · next htip =>
    refine catchUp_rule ?_ ?_ hinit herror
    · intro tip next hsome
      simp [htip] at hsome
    · intro tip hsome
      simp [htip] at hsome
  · next tip htip =>
    split
    · next hlt => exact disconnect_rule (fun tipHash hhash => hroll tip tipHash htip hhash hlt) hpanic
    · next hle => exact hcompare tip htip (UInt64.not_lt.mp hle)

end Rules
end Ingestion

/-- A constraint on the replies of the environment and on the database around them. -/
abbrev Permits := (point : Point) → point.Reply → Database → Database → Prop

/-- Any reply and any database that the calls themselves allow. -/
def Permits.any : Permits := fun _ _ _ _ => True

/-- One step of a worker on its database. -/
inductive Ingestion.Step (P : Primitives) (permits : Permits) :
    Database × Ingestion → Database × Ingestion → Prop
  | step {db db' : Database} {worker : Ingestion} (point : Point) (reply : point.Reply)
      (hpoint : worker.point = point) (hexchange : worker.Exchange db point reply db')
      (hpermits : permits point reply db db') :
      Ingestion.Step P permits (db,worker) (db',worker.resume P point reply)

end TandemVerifier
