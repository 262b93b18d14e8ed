import TandemVerifier.Reduction.Representation

/-! # The event log determines the objects and the active index

The fold below reads only event fields and the founding window. The reducer builds
its events and its state changes in separate code, from clones of the objects; the
fold meets it in every branch because a clone is the stored object of its own key.
That needs neither distinct txids nor distinct prevouts.
-/
namespace TandemVerifier
open Library Library.Outcome

/-- The part of the state that the event log describes. -/
structure Ledger where
  objects : ObjectMap
  active : ActiveMap
deriving DecidableEq

def ChainState.ledger (state : ChainState) : Ledger := ⟨state.objects,state.active⟩

section Replay

def replayCreate (hOpen hClose : UInt32) (ledger : Ledger) (event : Event) : Ledger where
  objects := ledger.objects.insert event.objectKey {
    objectKey := event.objectKey
    genesis := event.successor
    founding := decide (hOpen.toUInt64 ≤ event.height) && decide (event.height < hClose.toUInt64)
    status := .active
    createHeight := event.height
    stateSeq := 0
    currentOutpoint := event.successor
    keys := ⟨event.key0,event.key1⟩
    terminalTxid := Hash32.zero
    chapterCount := 0 }
  active := ledger.active.insert event.successor event.objectKey

/-- Move a carrier from the predecessor to the successor of an event. -/
def replayMove (update : ObjectState → ObjectState) (ledger : Ledger) (event : Event) : Ledger where
  objects := ledger.objects.modify event.objectKey fun object =>
    { update object with currentOutpoint := event.successor }
  active := (ledger.active.erase event.predecessor).insert event.successor event.objectKey

def replayMark (event : Event) (object : ObjectState) : ObjectState :=
  { object with stateSeq := event.stateSeq, chapterCount := object.chapterCount + 1 }

def replayRotate (event : Event) (object : ObjectState) : ObjectState :=
  { object with stateSeq := event.stateSeq, keys := ⟨event.key0,event.key1⟩ }

/-- The update of a fold in which ROTATE replaces the keys and nothing else. -/
def replayKeysOnly (event : Event) (object : ObjectState) : ObjectState :=
  { object with keys := ⟨event.key0,event.key1⟩ }

/-- Unindex the predecessor of an event and end its object. -/
def replayEnd (status : ObjectStatus) (update : ObjectState → ObjectState) (ledger : Ledger)
    (event : Event) : Ledger where
  objects := ledger.objects.modify event.objectKey fun object =>
    { update object with status := status, currentOutpoint := .zero, terminalTxid := event.txid }
  active := ledger.active.erase event.predecessor

/-- One event of the fold, for a given reading of ROTATE. -/
def replayEvent (rotate : Event → ObjectState → ObjectState) (hOpen hClose : UInt32)
    (ledger : Ledger) (event : Event) : Ledger :=
  if event.validityClass = .invalidNoState then ledger else
  match event.eventType with
  | .init => ledger
  | .invalid => ledger
  | .create => replayCreate hOpen hClose ledger event
  | .mark => replayMove (replayMark event) ledger event
  | .rotate => replayMove (rotate event) ledger event
  | .close => replayEnd .closed (fun object => { object with stateSeq := event.stateSeq }) ledger event
  | .refund => replayEnd .refunded id ledger event
  | .exitedNoncanonical => replayEnd .exitedNoncanonical id ledger event

def replay (rotate : Event → ObjectState → ObjectState) (hOpen hClose : UInt32) (ledger : Ledger)
    (log : List Event) : Ledger :=
  log.foldl (replayEvent rotate hOpen hClose) ledger

end Replay

/-- The founding window of a run; a run that never became active has every window. -/
def FoundingWindow (state : ChainState) (hOpen hClose : UInt32) : Prop :=
  ∀ initHeight start stop, state.protocolStatus = .active initHeight start stop →
    start = hOpen ∧ stop = hClose

section Steps
variable {P : Primitives} {binding : Binding} {placed : List Placed} {state state' : ChainState}
variable {block : BlockView} {tx : TxView} {txIndex : UInt32} {events log : List Event}
variable {hOpen hClose : UInt32}

/-- Objects are stored under their own key. -/
def Keyed (state : ChainState) : Prop :=
  ∀ (key : Hash32) (object : ObjectState), state.objects[key]? = some object → object.objectKey = key

theorem Keyed.effect (h : Keyed state) (heffect : TxEffect P state block tx txIndex state' events) :
    Keyed state' := by
  intro key object hobject
  cases heffect.objectStep hobject with
  | kept hkept => exact h key object hkept
  | created marker keys initHeight hOpen hClose _ _ => rfl
  | marked marker owner sequence commitment chapterCount _ _ _ => rfl
  | rotated marker owner sequence keys _ _ => rfl
  | ended stored status sequence hstored _ _ => exact h key stored hstored

theorem Keyed.spend {i : ℕ} {object : ObjectState} (h : Keyed state)
    (hspend : (i,object) ∈ carrierSpends state tx) :
    state.objects[object.objectKey]? = some object := by
  obtain ⟨input,key,_,_,hobject⟩ := mem_carrierSpends.mp hspend
  rw [h key object hobject]
  exact hobject

/-- Storing an updated clone is the update of the stored object. -/
theorem insert_eq_modify {objects : ObjectMap} {object : ObjectState}
    {update : ObjectState → ObjectState} (h : objects[object.objectKey]? = some object) :
    objects.insert object.objectKey (update object) = objects.modify object.objectKey update := by
  apply Std.ExtTreeMap.ext_getElem?
  intro key
  rw [Std.ExtTreeMap.getElem?_insert,Std.ExtTreeMap.getElem?_modify,h]
  rfl

theorem replay_append {rotate : Event → ObjectState → ObjectState} {ledger : Ledger}
    (first second : List Event) :
    replay rotate hOpen hClose ledger (first ++ second) =
      replay rotate hOpen hClose (replay rotate hOpen hClose ledger first) second := by
  simp only [replay,List.foldl_append]

theorem replay_inert {rotate : Event → ObjectState → ObjectState} {ledger : Ledger}
    (h : ∀ event ∈ events, event.Inert) : replay rotate hOpen hClose ledger events = ledger := by
  induction events with
  | nil => rfl
  | cons event rest ih =>
    have hevent : replayEvent rotate hOpen hClose ledger event = ledger := by
      rcases (h event List.mem_cons_self).1 with hclass | htype
      · simp [replayEvent,hclass]
      · simp [replayEvent,htype]
    rw [replay,List.foldl_cons,hevent]
    exact ih fun other hother => h other (List.mem_cons_of_mem _ hother)

theorem replay_exitEvents {rotate : Event → ObjectState → ObjectState} {eventIndex : UInt32}
    {reason : Reason} {ns : Hash32} {sub : ℕ} {carriers : List (ℕ × ObjectState)} :
    replay rotate hOpen hClose state.ledger
      (exitEvents block tx txIndex eventIndex reason ns sub carriers) =
        (terminateAll state tx.txid carriers).ledger := by
  induction carriers generalizing state sub with
  | nil => rfl
  | cons spend rest ih =>
    have hh := @ih (terminateObject state spend.2 .exitedNoncanonical tx.txid) (sub + 1)
    exact hh

theorem chapterCount_eq {before after : UInt32} (h : before.toNat + 1 = after.toNat) :
    before + 1 = after := by
  apply UInt32.toNat_inj.mp
  have hlt := after.toNat_lt
  rw [UInt32.toNat_add,UInt32.toNat_one]
  omega

theorem ledger_move {object : ObjectState} {update : ObjectState → ObjectState} {event : Event}
    (hobject : state.objects[object.objectKey]? = some object) :
    (⟨state.objects.modify object.objectKey fun value =>
        { update value with currentOutpoint := event.successor },
      (state.active.erase object.currentOutpoint).insert event.successor object.objectKey⟩ : Ledger) =
    ⟨state.objects.insert object.objectKey { update object with currentOutpoint := event.successor },
      (state.active.erase object.currentOutpoint).insert event.successor object.objectKey⟩ := by
  rw [← insert_eq_modify hobject]

/-- Folding the events of one transaction gives the maps it leaves behind. -/
theorem TxEffect.replayed (h : TxEffect P state block tx txIndex state' events)
    (hkeyed : Keyed state) (hwindow : FoundingWindow state hOpen hClose) :
    replay replayRotate hOpen hClose state.ledger events = state'.ledger := by
  cases h with
  | silent hcandidates hcarriers => rfl
  | rejected eventIndex eventType reason ns hcandidates hcarriers => rfl
  | created candidate marker keys initHeight start stop hcandidates hparse hcarriers hstatus haccepted =>
    obtain ⟨rfl,rfl⟩ := hwindow initHeight start stop hstatus
    rfl
  | marked candidate marker object sequence commitment chapterCount hcandidates hparse hcarriers
      hchapter haccepted =>
    have hobject := hkeyed.spend (hcarriers ▸ List.mem_singleton_self (0,object))
    obtain rfl := chapterCount_eq hchapter
    exact ledger_move hobject
  | rotated candidate marker object sequence keys hcandidates hparse hcarriers haccepted =>
    have hobject := hkeyed.spend (hcarriers ▸ List.mem_singleton_self (0,object))
    exact ledger_move hobject
  | closed candidate marker object sequence commitment hcandidates hparse hcarriers haccepted =>
    have hterm := closeObject_terminates state object sequence tx.txid
    rw [ChainState.ledger,ChainState.ledger,hterm.objects_eq,hterm.active_eq]
    rfl
  | refunded object hcandidates hcarriers haccepted => rfl
  | exited eventIndex reason ns carriers hnonempty hperm hsorted hlength => exact replay_exitEvents

theorem Reached.keyed (h : Reached P binding placed log state) : Keyed state := by
  induction h with
  | fresh => simp [Keyed,ChainState.new]
  | decided status _ _ ih => exact ih
  | processed block tx txIndex _ hcall ih => exact ih.effect (processTransaction_effect hcall)
  | passed more emitted _ _ ih => exact ih
  | sealed tipHeight tipHash chainedRoot _ ih => exact ih

theorem Reached.replayed (h : Reached P binding placed log state)
    (hwindow : FoundingWindow state hOpen hClose) :
    replay replayRotate hOpen hClose ⟨∅,∅⟩ log = state.ledger := by
  induction h with
  | fresh => rfl
  | decided status _ hawaiting ih =>
    apply ih
    intro initHeight start stop hactive
    simp [hawaiting] at hactive
  | processed block tx txIndex hreached hcall ih =>
    have heffect := processTransaction_effect hcall
    rw [heffect.frame] at hwindow
    rw [replay_append,ih hwindow]
    exact heffect.replayed hreached.keyed hwindow
  | passed more emitted _ hinert ih => rw [replay_append,ih hwindow,replay_inert hinert]
  | sealed tipHeight tipHash chainedRoot _ ih => exact ih hwindow

end Steps

/-- Folding all events of a run from empty maps gives its final objects and active index. -/
theorem applyBlocks_replay {P : Primitives} {binding : Binding} {blocks : List BlockView}
    {final : ChainState} {deltas : List BlockDelta} {hOpen hClose : UInt32}
    (hrun : applyBlocks P (ChainState.new P binding) blocks = some (final,deltas))
    (hwindow : FoundingWindow final hOpen hClose) :
    replay replayRotate hOpen hClose ⟨∅,∅⟩ (deltas.flatMap BlockDelta.events) =
      ⟨final.objects,final.active⟩ :=
  (run_reached hrun).replayed hwindow

theorem sample_window {final : ChainState} (h : final.protocolStatus = .active 100 1108 5428) :
    FoundingWindow final 1108 5428 := by
  intro initHeight start stop hactive
  rw [h] at hactive
  simp only [ProtocolStatus.active.injEq] at hactive
  exact ⟨hactive.2.1.symm,hactive.2.2.symm⟩

theorem sample_replay : ∃ final deltas, applyBlocks bitcoinPrimitives
    (ChainState.new bitcoinPrimitives sampleBinding) sampleBlocks = some (final,deltas) ∧
      replay replayRotate 1108 5428 ⟨∅,∅⟩ (deltas.flatMap BlockDelta.events) =
        ⟨final.objects,final.active⟩ := by
  obtain ⟨final,deltas,hrun,hstatus,_⟩ := sampleBlocks_run
  exact ⟨final,deltas,hrun,applyBlocks_replay hrun (sample_window hstatus)⟩

theorem sampleLog_rotate : ((replay replayRotate 1108 5428 ⟨∅,∅⟩ sampleLog).objects[sampleKey]?).map
    ObjectState.stateSeq = some 1 := by
  simp [replay,sampleLog,replayEvent,validInitEvent,validEventBase,replayMove,replayCreate,
    replayRotate]

theorem sampleLog_keysOnly : ((replay replayKeysOnly 1108 5428 ⟨∅,∅⟩ sampleLog).objects[sampleKey]?).map
    ObjectState.stateSeq = some 0 := by
  simp [replay,sampleLog,replayEvent,validInitEvent,validEventBase,replayMove,replayCreate,
    replayKeysOnly]

/-- A fold in which ROTATE leaves the state sequence alone misses the state of the sample run. -/
theorem sample_replayKeysOnly : ∃ final deltas, applyBlocks bitcoinPrimitives
    (ChainState.new bitcoinPrimitives sampleBinding) sampleBlocks = some (final,deltas) ∧
      FoundingWindow final 1108 5428 ∧
      replay replayKeysOnly 1108 5428 ⟨∅,∅⟩ (deltas.flatMap BlockDelta.events) ≠
        ⟨final.objects,final.active⟩ := by
  obtain ⟨final,deltas,hrun,hstatus,hlog⟩ := sampleBlocks_run
  have hledger : replay replayRotate 1108 5428 ⟨∅,∅⟩ (deltas.flatMap BlockDelta.events) =
      final.ledger := (run_reached hrun).replayed (sample_window hstatus)
  refine ⟨final,deltas,hrun,sample_window hstatus,?_⟩
  intro hsame
  rw [hlog] at hledger hsame
  have hrotate := sampleLog_rotate
  have hkeysOnly := sampleLog_keysOnly
  rw [hsame,← ChainState.ledger,← hledger,hrotate] at hkeysOnly
  simp at hkeysOnly

end TandemVerifier
