import Mathlib.Data.List.Chain
import TandemVerifier.Reduction.ObjectHistory

/-! # Every history is one lineage

With resolved inputs each event of an object records the spend of the output that the
event before it announced, in a later block if it is a valid operation. The sequence
number advances with every valid transition and stands still at a refund or an exit. An
object that has ended is never written again and no later event names it.
-/
namespace TandemVerifier
open Library Library.Outcome
variable {P : Primitives} {binding : Binding} {placed : List Placed} {log : List Event}
variable {state state' : ChainState} {block : BlockView} {tx : TxView} {txIndex : UInt32}
variable {events history : List Event} {key : Hash32} {object : ObjectState} {entry later : Placed}

/-- By how much an event of this type advances the sequence number. -/
def EventType.advance : EventType → ℕ
  | .mark | .rotate | .close => 1
  | _ => 0

/-- What an event records relative to the one before it in the history of an object. -/
structure Event.Links (before after : Event) : Prop where
  predecessor : after.predecessor = before.successor
  stateSeq : after.stateSeq.toNat = before.stateSeq.toNat + after.eventType.advance

/-- One CREATE, then any number of MARK and ROTATE, then at most one end; each event follows
on the one before it, and the heights of the valid events increase. -/
structure Lineage (history : List Event) : Prop where
  shape : ∃ create moves ends, history = create :: (moves ++ ends) ∧
    (create.validityClass = .validOperation ∧ create.eventType = .create ∧ create.stateSeq = 0) ∧
    (∀ event ∈ moves, event.validityClass = .validOperation ∧
      event.eventType ∈ [EventType.mark,.rotate]) ∧
    (∀ event ∈ ends, event.Terminal) ∧ ends.length ≤ 1
  predecessors : history.IsChain fun before after => after.predecessor = before.successor
  sequence : history.IsChain fun before after =>
    after.stateSeq.toNat = before.stateSeq.toNat + after.eventType.advance
  heights : (history.filter fun event => event.validityClass = .validOperation).Pairwise
    fun before after => before.height < after.height

/-- The number of MARKs of a history. -/
def markCount (history : List Event) : ℕ := history.countP fun event => event.eventType = .mark

/-- The entry of a key and the history of the key tell the same story. -/
def Recorded (history : List Event) : Option ObjectState → Prop
  | none => history = []
  | some object => Lineage history ∧ object.chapterCount.toNat = markCount history ∧
    (object.status ≠ .active ↔ ∃ event ∈ history, event.Terminal)

/-- The later transaction spends distinct outpoints, resolved to the earlier one where it
spends its outputs. -/
def Succeeds (earlier later : Placed) : Prop :=
  (later.tx.inputs.map InputView.prevout).Nodup ∧ ∀ input ∈ later.tx.inputs,
    input.prevout.txid = earlier.tx.txid → ∀ output,
      earlier.tx.outputs[input.prevout.vout.toNat]? = some output →
      input.prevoutScript = output.scriptPubkey ∧ input.prevoutValue = output.value ∧
        input.prevoutHeight = some earlier.height

theorem Consistent.succeeds (h : Consistent P binding placed) : placed.Pairwise Succeeds := by
  refine List.Pairwise.imp_of_mem ?_ h.resolved
  intro earlier later _ hlater hresolved
  exact ⟨h.prevouts later hlater,hresolved⟩

section Links

/-- A carrier confirmed before the block that spends it was created in an earlier block. -/
theorem Carries.earlier {event : Event} (h : Carries P entry event object)
    (hsucceeds : Succeeds entry later) (hspends : SpendsEarlier later object) :
    entry.height < later.height := by
  obtain ⟨input,hinput,hprevout,hconfirmed⟩ := hspends
  rw [h.current] at hprevout
  obtain ⟨_,_,hheight⟩ := hsucceeds.2 input hinput (by rw [hprevout]) _ (by rw [hprevout]; exact h.output)
  rw [InputView.hasEarlierConfirmation,hheight] at hconfirmed
  simpa using hconfirmed

theorem Life.links (h : Life P Succeeds history object entry) : history.IsChain Event.Links := by
  induction h with
  | created htype hsequence hchapter hcarries => exact List.isChain_singleton _
  | moved h hactive hfollows hspends hlinked hsequence hchapter hcarries ih =>
    obtain ⟨last,hlast,hbefore⟩ := h.carries hactive
    apply ih.append (List.isChain_singleton _)
    intro before hmem after hafter
    obtain rfl : last = before := by simpa [hlast] using hmem
    obtain rfl := Option.some.inj hafter
    constructor
    · rw [hlinked,hbefore.current,hbefore.successor]
    · rw [hsequence,hbefore.stateSeq]
      rcases hchapter with ⟨htype,_⟩ | ⟨htype,_⟩ <;> simp [htype,EventType.advance]
  | ended h hactive hfollows hnonempty hsingle hends hended hchapter ih =>
    obtain ⟨last,hlast,hbefore⟩ := h.carries hactive
    obtain ⟨only,rfl⟩ := List.length_eq_one_iff.mp (hsingle hfollows.1)
    obtain ⟨hend,hlinked⟩ := hends only (List.mem_singleton_self only)
    apply ih.append (List.isChain_singleton _)
    intro before hmem after hafter
    obtain rfl : last = before := by simpa [hlast] using hmem
    obtain rfl := Option.some.inj hafter
    constructor
    · rw [hlinked,hbefore.current,hbefore.successor]
    · cases hend with
      | closed _ htype _ hsequence _ => simp [hsequence,hbefore.stateSeq,htype,EventType.advance]
      | refunded _ htype _ hsequence _ => simp [hsequence,hbefore.stateSeq,htype,EventType.advance]
      | exited _ htype hsequence => simp [hsequence,hbefore.stateSeq,htype,EventType.advance]

theorem Life.shape (h : Life P Succeeds history object entry) :
    ∃ create moves ends, history = create :: (moves ++ ends) ∧
      (create.validityClass = .validOperation ∧ create.eventType = .create ∧ create.stateSeq = 0) ∧
      (∀ event ∈ moves, event.validityClass = .validOperation ∧
        event.eventType ∈ [EventType.mark,.rotate]) ∧
      (∀ event ∈ ends, event.Terminal) ∧ ends.length ≤ 1 ∧ (object.status = .active → ends = []) := by
  induction h with
  | created htype hsequence hchapter hcarries =>
    exact ⟨_,[],[],rfl,⟨hcarries.valid,htype,hsequence⟩,by simp⟩
  | @moved history event object moved entry later h hactive hfollows hspends hlinked hsequence hchapter
      hcarries ih =>
    obtain ⟨create,moves,ends,rfl,hcreate,hmoves,_,_,halive⟩ := ih
    obtain rfl := halive hactive
    refine ⟨create,moves ++ [event],[],by simp,hcreate,?_,by simp⟩
    intro other hother
    rcases List.mem_append.mp hother with hearlier | hlast
    · exact hmoves other hearlier
    · rw [List.mem_singleton.mp hlast]
      refine ⟨hcarries.valid,?_⟩
      rcases hchapter with ⟨htype,_⟩ | ⟨htype,_⟩ <;> simp [htype]
  | @ended history only object ended entry later h hactive hfollows hnonempty hsingle hends hended
      hchapter ih =>
    obtain ⟨create,moves,ends,rfl,hcreate,hmoves,_,_,halive⟩ := ih
    obtain rfl := halive hactive
    refine ⟨create,moves,only,by simp,hcreate,hmoves,?_,(hsingle hfollows.1).le,
      fun h => absurd h hended⟩
    exact fun event hevent => (hends event hevent).1.terminal

/-- The valid events of a lineage stand in blocks of increasing height, a living object's last
one in the block of its carrier. -/
theorem Life.heights (h : Life P Succeeds history object entry) :
    (object.status = .active → ∀ event ∈ history, event.height ≤ entry.height) ∧
    (history.filter fun event => event.validityClass = .validOperation).Pairwise
      fun before after => before.height < after.height := by
  induction h with
  | created htype hsequence hchapter hcarries =>
    constructor
    · intro _ event hevent
      rw [List.mem_singleton.mp hevent,hcarries.height]
      exact UInt64.le_refl _
    · exact (List.pairwise_singleton _ _).filter _
  | moved h hactive hfollows hspends hlinked hsequence hchapter hcarries ih =>
    obtain ⟨_,_,hbefore⟩ := h.carries hactive
    have hlater := hbefore.earlier hfollows hspends
    have hbound := ih.1 hactive
    constructor
    · intro _ event hevent
      rcases List.mem_append.mp hevent with hearlier | hlast
      · exact UInt64.le_trans (hbound event hearlier) (UInt64.le_of_lt hlater)
      · rw [List.mem_singleton.mp hlast,hcarries.height]
        exact UInt64.le_refl _
    · rw [List.filter_append,List.pairwise_append]
      refine ⟨ih.2,(List.pairwise_singleton _ _).filter _,?_⟩
      intro before hmem after hafter
      rw [List.mem_singleton.mp (List.mem_of_mem_filter hafter),hcarries.height]
      exact UInt64.lt_of_le_of_lt (hbound before (List.mem_of_mem_filter hmem)) hlater
  | ended h hactive hfollows hnonempty hsingle hends hended hchapter ih =>
    obtain ⟨_,_,hbefore⟩ := h.carries hactive
    obtain ⟨only,rfl⟩ := List.length_eq_one_iff.mp (hsingle hfollows.1)
    refine ⟨fun h => absurd h hended,?_⟩
    rw [List.filter_append,List.pairwise_append]
    refine ⟨ih.2,(List.pairwise_singleton _ _).filter _,?_⟩
    intro before hmem after hafter
    obtain ⟨hlast,hvalid⟩ := List.mem_filter.mp hafter
    obtain rfl := List.mem_singleton.mp hlast
    have hbound := ih.1 hactive before (List.mem_of_mem_filter hmem)
    cases (hends after hlast).1 with
    | closed _ _ hheight _ hspends =>
      rw [hheight]
      exact UInt64.lt_of_le_of_lt hbound (hbefore.earlier hfollows hspends)
    | refunded _ _ hheight _ hspends =>
      rw [hheight]
      exact UInt64.lt_of_le_of_lt hbound (hbefore.earlier hfollows hspends)
    | exited hexit _ _ => simp [hexit] at hvalid

theorem Life.chapters (h : Life P Succeeds history object entry) :
    object.chapterCount.toNat = markCount history := by
  induction h with
  | created htype hsequence hchapter hcarries => simp [hchapter,markCount,htype]
  | moved h hactive hfollows hspends hlinked hsequence hchapter hcarries ih =>
    rw [markCount] at ih
    rw [markCount,List.countP_append,← ih]
    rcases hchapter with ⟨htype,hcount⟩ | ⟨htype,hcount⟩
    · simp [hcount,htype]
    · simp [hcount,htype]
  | ended h hactive hfollows hnonempty hsingle hends hended hchapter ih =>
    rw [markCount] at ih
    rw [markCount,List.countP_append,← ih,hchapter,Nat.left_eq_add,List.countP_eq_zero]
    intro event hevent hmark
    rcases (hends event hevent).1.terminal with ⟨_,htype⟩ | ⟨_,htype⟩
    · cases hcase : event.eventType <;> simp [hcase] at htype hmark
    · simp [htype] at hmark

theorem Life.lineage (h : Life P Succeeds history object entry) : Lineage history := by
  obtain ⟨create,moves,ends,hhistory,hcreate,hmoves,hends,hlength,_⟩ := h.shape
  exact ⟨⟨create,moves,ends,hhistory,hcreate,hmoves,hends,hlength⟩,
    h.links.imp fun _ _ hlink => hlink.predecessor,h.links.imp fun _ _ hlink => hlink.stateSeq,h.heights.2⟩

theorem Reached.recorded (h : Reached P binding placed log state) (hconsistent : Consistent P binding placed)
    (key : Hash32) : Recorded (objectHistory key log) state.objects[key]? := by
  have hchronicle := h.chronicle hconsistent.toDistinct hconsistent.succeeds
  cases hobject : state.objects[key]? with
  | none => exact hchronicle.absent key hobject
  | some object =>
    obtain ⟨entry,_,hlife⟩ := hchronicle.life key object hobject
    exact ⟨hlife.lineage,hlife.chapters,hlife.ended_iff⟩

end Links

section Permanence

theorem KeyStep.unnamed {before after : Option ObjectState} (hevents : events = [])
    (h : KeyStep P state block tx txIndex key before after events) : after = before := by
  cases h with
  | kept => rfl
  | created eventIndex marker keys initHeight hOpen hClose hkey hstatus haccepted => simp at hevents
  | marked eventIndex marker object sequence commitment chapterCount hactive hchapter haccepted =>
    simp at hevents
  | rotated eventIndex marker object sequence keys hactive haccepted => simp at hevents
  | closed eventIndex marker object sequence commitment hactive haccepted => simp at hevents
  | refunded object hkey hactive haccepted => simp at hevents
  | exited object exits hactive hnonempty hexits hsingle => exact absurd hevents hnonempty

theorem KeyStep.ended {after : Option ObjectState} (hended : object.status ≠ .active)
    (h : KeyStep P state block tx txIndex key (some object) after events) : events = [] := by
  cases h with
  | kept => rfl
  | marked eventIndex marker _ sequence commitment chapterCount hactive hchapter haccepted =>
    exact absurd hactive hended
  | rotated eventIndex marker _ sequence keys hactive haccepted => exact absurd hactive hended
  | closed eventIndex marker _ sequence commitment hactive haccepted => exact absurd hactive hended
  | refunded _ hkey hactive haccepted => exact absurd hactive hended
  | exited _ _ hactive hnonempty hexits hsingle => exact absurd hactive hended

/-- The entry of a key changes only with an event that names it, and never after its end. -/
def Permanent (key : Hash32) (before after : ChainState) (emitted : List Event) : Prop :=
  (objectHistory key emitted = [] → after.objects[key]? = before.objects[key]?) ∧
  ∀ object, before.objects[key]? = some object → object.status ≠ .active → objectHistory key emitted = []

theorem Permanent.trans {before middle after : ChainState} {first second : List Event}
    (h : Permanent key before middle first) (hnext : Permanent key middle after second) :
    Permanent key before after (first ++ second) := by
  constructor
  · intro hnone
    rw [objectHistory_append,List.append_eq_nil_iff] at hnone
    rw [hnext.1 hnone.2,h.1 hnone.1]
  · intro object hobject hended
    have hfirst := h.2 object hobject hended
    have hmiddle := (h.1 hfirst).trans hobject
    rw [objectHistory_append,hfirst,hnext.2 object hmiddle hended,List.append_nil]

theorem TxEffect.permanent (h : TxEffect P state block tx txIndex state' events)
    (hindexed : Indexed P binding placed state)
    (hdistinct : Distinct P binding (placed ++ [⟨block.height,tx⟩])) : Permanent key state state' events := by
  have hstep := h.keyStep hindexed hdistinct key
  refine ⟨fun hevents => hstep.unnamed hevents,?_⟩
  intro object hobject hended
  rw [hobject] at hstep
  exact hstep.ended hended

theorem Permanent.of_objects (hobjects : state'.objects = state.objects)
    (hevents : ∀ event ∈ events, event.Inert) : Permanent key state state' events :=
  ⟨fun _ => by rw [hobjects],fun _ _ _ => objectHistory_inert hevents⟩

/-- What a run adds to a reached state is permanent. -/
theorem Reached.permanent {blocks : List BlockView} {deltas : List BlockDelta}
    (h : Reached P binding placed log state) (hrun : applyBlocks P state blocks = some (state',deltas))
    (hdistinct : Distinct P binding (placed ++ placedTransactions blocks)) :
    Permanent key state state' (deltas.flatMap BlockDelta.events) := by
  have hkept : Kept P fun visited emitted current => Reached P binding visited emitted current ∧
      ∃ more, emitted = log ++ more ∧ (Distinct P binding visited → Permanent key state current more) := by
    constructor
    · rintro visited _ current status ⟨hreached,more,rfl,hpermanent⟩ hstatus
      refine ⟨.decided status hreached hstatus,more,rfl,fun hdistinct => ?_⟩
      exact hpermanent hdistinct
    · rintro visited _ current next emitted block tx txIndex ⟨hreached,more,rfl,hpermanent⟩ hcall
      refine ⟨.processed block tx txIndex hreached hcall,more ++ emitted,by simp,fun hdistinct => ?_⟩
      exact (hpermanent hdistinct.of_append).trans ((processTransaction_effect hcall).permanent
        (hreached.indexed hdistinct.of_append) hdistinct)
    · rintro visited _ current passed emitted ⟨hreached,more,rfl,hpermanent⟩ hinert
      refine ⟨.passed passed emitted hreached hinert,more ++ emitted,by simp,fun hdistinct => ?_⟩
      exact (hpermanent hdistinct.of_append).trans (.of_objects rfl hinert)
    · rintro visited _ current tipHeight tipHash chainedRoot ⟨hreached,more,rfl,hpermanent⟩
      refine ⟨.sealed tipHeight tipHash chainedRoot hreached,more,rfl,fun hdistinct => ?_⟩
      exact hpermanent hdistinct
  have hstart : Permanent key state state [] := .of_objects rfl (by simp)
  obtain ⟨_,more,hmore,hpermanent⟩ := hkept.applyBlocks ⟨h,[],by simp,fun _ => hstart⟩ hrun
  rw [List.append_cancel_left hmore]
  exact hpermanent hdistinct

end Permanence

/-- At every point of a consistent run and for every key: the history of the key is one lineage
that agrees with its entry, and whatever transaction or blocks come next, the entry changes only
with an event that names the key, and no event names it after its end. -/
theorem object_lineages (hpoint : RunPoint P binding placed log state)
    (hconsistent : Consistent P binding placed) (key : Hash32) :
    Recorded (objectHistory key log) state.objects[key]? ∧
    (∀ block tx txIndex after emitted, Consistent P binding (placed ++ [⟨block.height,tx⟩]) →
      processTransaction P state block tx txIndex = ok (after,emitted) →
      (objectHistory key emitted = [] → after.objects[key]? = state.objects[key]?) ∧
      ((∃ event ∈ objectHistory key log, event.Terminal) → objectHistory key emitted = [])) ∧
    ∀ blocks final deltas, Consistent P binding (placed ++ placedTransactions blocks) →
      applyBlocks P state blocks = some (final,deltas) →
      (objectHistory key (deltas.flatMap BlockDelta.events) = [] →
        final.objects[key]? = state.objects[key]?) ∧
      ((∃ event ∈ objectHistory key log, event.Terminal) →
        objectHistory key (deltas.flatMap BlockDelta.events) = []) := by
  have hreached := hpoint.reached
  have hrecorded := hreached.recorded hconsistent key
  have hended : (∃ event ∈ objectHistory key log, event.Terminal) →
      ∃ object, state.objects[key]? = some object ∧ object.status ≠ .active := by
    intro hterminal
    cases hobject : state.objects[key]? with
    | none =>
      rw [hobject,Recorded] at hrecorded
      simp [hrecorded] at hterminal
    | some object =>
      rw [hobject] at hrecorded
      exact ⟨object,rfl,hrecorded.2.2.mpr hterminal⟩
  refine ⟨hrecorded,?_,?_⟩
  · intro block tx txIndex after emitted hnext hcall
    have hpermanent : Permanent key state after emitted := (processTransaction_effect hcall).permanent
      (hreached.indexed hconsistent.toDistinct) hnext.toDistinct
    refine ⟨hpermanent.1,fun hterminal => ?_⟩
    obtain ⟨object,hobject,hstatus⟩ := hended hterminal
    exact hpermanent.2 object hobject hstatus
  · intro blocks final deltas hnext hrun
    have hpermanent : Permanent key state final (deltas.flatMap BlockDelta.events) :=
      hreached.permanent hrun hnext.toDistinct
    refine ⟨hpermanent.1,fun hterminal => ?_⟩
    obtain ⟨object,hobject,hstatus⟩ := hended hterminal
    exact hpermanent.2 object hobject hstatus

theorem sample_lineages : ∃ final deltas object,
    applyBlocks bitcoinPrimitives sampleNew sampleBlocks = some (final,deltas) ∧
      final.objects[sampleKey]? = some object ∧
      Lineage (objectHistory sampleKey (deltas.flatMap BlockDelta.events)) ∧
      object.chapterCount.toNat = 0 := by
  obtain ⟨final,deltas,hrun,_,hlog⟩ := sampleBlocks_run
  obtain ⟨hrecorded,_,_⟩ := object_lineages (.between hrun) sample_consistent sampleKey
  cases hobject : final.objects[sampleKey]? with
  | none =>
    rw [hobject,hlog] at hrecorded
    simp [Recorded,objectHistory,sampleLog,Event.Names,validInitEvent,validEventBase] at hrecorded
  | some object =>
    rw [hobject] at hrecorded
    refine ⟨final,deltas,object,hrun,hobject,hrecorded.1,?_⟩
    rw [hrecorded.2.1,hlog]
    simp [markCount,objectHistory,sampleLog,validInitEvent,validEventBase,List.countP_eq_zero]

end TandemVerifier
