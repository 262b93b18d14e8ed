import TandemVerifier.Library.MapCount
import TandemVerifier.Reduction.Linkage
import TandemVerifier.Reduction.ObjectHistory
import TandemVerifier.Reduction.Phase

/-! # The counters count the events

The counters of a block are recomputed from the object map, the events are emitted by
the transactions. With distinct txids a CREATE never replaces an object, a spent carrier
leaves the index with exactly one event, and nothing else touches either count.
-/
namespace TandemVerifier
open Library Library.Outcome
variable {P : Primitives} {binding : Binding} {placed : List Placed} {log events : List Event}
variable {state state' : ChainState} {block : BlockView} {tx : TxView} {txIndex : UInt32}
variable {hOpen hClose : UInt32}

/-- The number of valid CREATE events of a log. -/
def createCount (log : List Event) : ℕ :=
  log.countP fun event => event.validityClass = .validOperation ∧ event.eventType = .create

/-- The number of valid CREATE events below the end of the founding window. -/
def foundingCount (hClose : UInt32) (log : List Event) : ℕ :=
  log.countP fun event => event.validityClass = .validOperation ∧ event.eventType = .create ∧
    event.height < hClose.toUInt64

/-- The number of valid CLOSE and REFUND events and of noncanonical terminations of a log. -/
def endCount (log : List Event) : ℕ :=
  log.countP fun event => (event.validityClass = .validOperation ∧
    (event.eventType = .close ∨ event.eventType = .refund)) ∨
      event.validityClass = .terminalNoncanonical

/-- What a list of events adds to the three counts. -/
structure Adds (hClose : UInt32) (events : List Event) (creates founders ends : ℕ) : Prop where
  creates : createCount events = creates
  founders : foundingCount hClose events = founders
  ends : endCount events = ends

section Counts

theorem createCount_append (first second : List Event) :
    createCount (first ++ second) = createCount first + createCount second := List.countP_append ..

theorem foundingCount_append (first second : List Event) :
    foundingCount hClose (first ++ second) = foundingCount hClose first + foundingCount hClose second :=
  List.countP_append ..

theorem endCount_append (first second : List Event) :
    endCount (first ++ second) = endCount first + endCount second := List.countP_append ..

theorem exitEvents_adds {eventIndex : UInt32} {reason : Reason} {ns : Hash32} {sub : ℕ}
    {carriers : List (ℕ × ObjectState)} :
    Adds hClose (exitEvents block tx txIndex eventIndex reason ns sub carriers) 0 0 carriers.length := by
  constructor
  · apply List.countP_eq_zero.mpr
    intro event hevent
    simp [exitEvents_terminal hevent]
  · apply List.countP_eq_zero.mpr
    intro event hevent
    simp [exitEvents_terminal hevent]
  · rw [← @exitEvents_length block tx txIndex eventIndex reason ns sub carriers]
    apply List.countP_eq_length.mpr
    intro event hevent
    simp [exitEvents_terminal hevent]

theorem adds_of_invalid {event : Event} (hclass : event.validityClass = .invalidNoState) :
    Adds hClose [event] 0 0 0 := by
  constructor
  · simp [createCount,hclass]
  · simp [foundingCount,hclass]
  · simp [endCount,hclass]

theorem adds_of_move {event : Event} (hclass : event.validityClass = .validOperation)
    (htype : event.eventType = .mark ∨ event.eventType = .rotate) : Adds hClose [event] 0 0 0 := by
  constructor
  · rcases htype with htype | htype <;> simp [createCount,htype]
  · rcases htype with htype | htype <;> simp [foundingCount,htype]
  · rcases htype with htype | htype <;> simp [endCount,hclass,htype]

theorem adds_of_end {event : Event} (hclass : event.validityClass = .validOperation)
    (htype : event.eventType = .close ∨ event.eventType = .refund) : Adds hClose [event] 0 0 1 := by
  constructor
  · rcases htype with htype | htype <;> simp [createCount,htype]
  · rcases htype with htype | htype <;> simp [foundingCount,htype]
  · simp [endCount,hclass,htype]

theorem adds_of_create {event : Event} (hclass : event.validityClass = .validOperation)
    (htype : event.eventType = .create) :
    Adds hClose [event] 1 (if event.height < hClose.toUInt64 then 1 else 0) 0 := by
  constructor
  · simp [createCount,hclass,htype]
  · simp [foundingCount,hclass,htype,List.countP_cons]
  · simp [endCount,hclass,htype]

end Counts

/-- The numbers of objects, founding objects and carriers agree with a log. -/
structure ObjectTally (hClose : UInt32) (log : List Event) (state : ChainState) : Prop where
  created : state.objects.size = createCount log
  founding : countValues (fun object => object.founding) state.objects = foundingCount hClose log
  balance : state.active.size + endCount log = createCount log

section Steps

/-- An effect that creates nothing keeps the tally. -/
theorem ObjectTally.kept (h : ObjectTally hClose log state)
    (hobjects : ∀ key : Hash32,
      state'.objects[key]?.map ObjectState.founding = state.objects[key]?.map ObjectState.founding)
    {ends : ℕ} (hadds : Adds hClose events 0 0 ends)
    (hactive : state'.active.size + ends = state.active.size) :
    ObjectTally hClose (log ++ events) state' := by
  have hsize := countValues_congr (fun _ => true) ObjectState.founding hobjects
  rw [countValues_true,countValues_true] at hsize
  have hbalance := h.balance
  constructor
  · rw [hsize,h.created,createCount_append,hadds.creates,Nat.add_zero]
  · rw [foundingCount_append,hadds.founders,Nat.add_zero,← h.founding]
    exact countValues_congr (fun founding => founding) ObjectState.founding hobjects
  · rw [createCount_append,endCount_append,hadds.creates,hadds.ends]
    omega

theorem Indexed.mem_active {i : ℕ} {object : ObjectState} (h : Indexed P binding placed state)
    (hspend : (i,object) ∈ carrierSpends state tx) : object.currentOutpoint ∈ state.active := by
  rw [Std.ExtTreeMap.mem_iff_isSome_getElem?,(h.owner hspend).2.2.1]
  rfl

theorem terminateAll_size {carriers : List (ℕ × ObjectState)} {txid : Hash32}
    (hnodup : (carriers.map fun spend => spend.2.currentOutpoint).Nodup)
    (hactive : ∀ spend ∈ carriers, spend.2.currentOutpoint ∈ state.active) :
    (terminateAll state txid carriers).active.size + carriers.length = state.active.size := by
  induction carriers generalizing state with
  | nil => rfl
  | cons spend rest ih =>
    obtain ⟨hfirst,hrest⟩ := List.nodup_cons.mp hnodup
    have hsize := size_erase_add_one (hactive spend List.mem_cons_self)
    have hnext := @ih (terminateObject state spend.2 .exitedNoncanonical txid) hrest (by
      intro other hother
      refine Std.ExtTreeMap.mem_erase.mpr ⟨?_,hactive other (List.mem_cons_of_mem _ hother)⟩
      rw [ne_eq,Std.compare_eq_iff_eq]
      intro hsame
      exact hfirst (List.mem_map.mpr ⟨other,hother,hsame.symm⟩))
    have herase : (terminateObject state spend.2 .exitedNoncanonical txid).active =
        state.active.erase spend.2.currentOutpoint := rfl
    rw [terminateAll,herase] at hnext
    rw [terminateAll,List.foldl_cons,List.length_cons]
    omega

theorem ObjectTally.moved {i : ℕ} {object moved : ObjectState} (h : ObjectTally hClose log state)
    (hindexed : Indexed P binding placed state)
    (hdistinct : Distinct P binding (placed ++ [⟨block.height,tx⟩]))
    (hspend : (i,object) ∈ carrierSpends state tx) (hkey : moved.objectKey = object.objectKey)
    (hfounding : moved.founding = object.founding) (houtpoint : moved.currentOutpoint = ⟨tx.txid,1⟩)
    (hadds : Adds hClose events 0 0 0) :
    ObjectTally hClose (log ++ events) (moveCarrier state object.currentOutpoint moved) := by
  refine h.kept ?_ hadds ?_
  · intro key
    rw [moveCarrier_getElem?,hkey]
    split
    · next hsame =>
      rw [← hsame,(hindexed.owner hspend).1,Option.map_some,Option.map_some,hfounding]
    · rfl
  · have hfresh : state.active[(⟨tx.txid,1⟩ : OutPointRef)]? = none := hindexed.outpoint_fresh hdistinct
    have hsize := size_erase_add_one (hindexed.mem_active hspend)
    rw [moveCarrier,houtpoint,size_insert_of_none,Nat.add_zero,hsize]
    rw [Std.ExtTreeMap.getElem?_erase,hfresh]
    simp

theorem ObjectTally.terminated {i : ℕ} {object : ObjectState} {update : ObjectState → ObjectState}
    (h : ObjectTally hClose log state) (hindexed : Indexed P binding placed state)
    (hspend : (i,object) ∈ carrierSpends state tx) (hterm : Terminates state object update state')
    (hfounding : ∀ stored, (update stored).founding = stored.founding)
    (hadds : Adds hClose events 0 0 1) : ObjectTally hClose (log ++ events) state' := by
  refine h.kept ?_ hadds ?_
  · intro key
    rw [hterm.getElem?_objects]
    split
    · next hsame =>
      rw [hsame,Option.map_map]
      congr 1
      funext stored
      exact hfounding stored
    · rfl
  · rw [hterm.active_eq,size_erase_add_one (hindexed.mem_active hspend)]

/-- A created object is new in both maps and is founding exactly when its event is counted so. -/
theorem ObjectTally.created_object {object : ObjectState} {founders : ℕ} (h : ObjectTally hClose log state)
    (hkey : state.objects[object.objectKey]? = none)
    (houtpoint : state.active[object.currentOutpoint]? = none) (hadds : Adds hClose events 1 founders 0)
    (hfounders : (if object.founding then 1 else 0) = founders) :
    ObjectTally hClose (log ++ events) (addObject state object) := by
  have hbalance := h.balance
  have hactive : (addObject state object).active.size = state.active.size + 1 :=
    size_insert_of_none houtpoint
  constructor
  · rw [createCount_append,hadds.creates,addObject,← h.created]
    exact size_insert_of_none hkey
  · rw [foundingCount_append,hadds.founders,← h.founding,← hfounders,addObject]
    exact countValues_insert _ hkey
  · rw [createCount_append,endCount_append,hadds.creates,hadds.ends,hactive]
    omega

theorem ObjectTally.effect (h : ObjectTally hClose log state) (hindexed : Indexed P binding placed state)
    (hdistinct : Distinct P binding (placed ++ [⟨block.height,tx⟩]))
    (hprevouts : (tx.inputs.map InputView.prevout).Nodup) (hwindow : FoundingWindow state hOpen hClose)
    (heffect : TxEffect P state block tx txIndex state' events) : ObjectTally hClose (log ++ events) state' := by
  cases heffect with
  | silent hcandidates hcarriers => exact h.kept (fun _ => rfl) ⟨rfl,rfl,rfl⟩ rfl
  | rejected eventIndex eventType reason ns hcandidates hcarriers =>
    exact h.kept (fun _ => rfl) (adds_of_invalid rfl) rfl
  | created candidate marker keys initHeight start stop hcandidates hparse hcarriers hstatus haccepted =>
    obtain ⟨rfl,rfl⟩ := hwindow initHeight start stop hstatus
    obtain ⟨_,_,_,_,_,_,haccept⟩ := haccepted
    obtain ⟨_,_,_,hactive,hopen⟩ := haccept.phase
    obtain ⟨rfl,-⟩ := hwindow _ _ _ hactive
    have hkey := hindexed.key_fresh hdistinct
    rw [← hindexed.binding_eq] at hkey
    apply h.created_object hkey (hindexed.outpoint_fresh hdistinct) (adds_of_create rfl rfl)
    by_cases hfounds : block.height < stop.toUInt64 <;> simp [validEventBase,createdObject,hopen,hfounds]
  | marked candidate marker object sequence commitment chapterCount hcandidates hparse hcarriers
      hchapter haccepted =>
    have hspend : (0,object) ∈ carrierSpends state tx := by simp [hcarriers]
    exact h.moved hindexed hdistinct hspend rfl rfl rfl (adds_of_move rfl (.inl rfl))
  | rotated candidate marker object sequence keys hcandidates hparse hcarriers haccepted =>
    have hspend : (0,object) ∈ carrierSpends state tx := by simp [hcarriers]
    exact h.moved hindexed hdistinct hspend rfl rfl rfl (adds_of_move rfl (.inr rfl))
  | closed candidate marker object sequence commitment hcandidates hparse hcarriers haccepted =>
    have hspend : (0,object) ∈ carrierSpends state tx := by simp [hcarriers]
    have hterm := closeObject_terminates state object sequence tx.txid
    exact h.terminated hindexed hspend hterm (fun _ => rfl) (adds_of_end rfl (.inl rfl))
  | refunded object hcandidates hcarriers haccepted =>
    have hspend : (0,object) ∈ carrierSpends state tx := by simp [hcarriers]
    have hterm := terminateObject_terminates state object .refunded tx.txid (by simp)
    exact h.terminated hindexed hspend hterm (fun _ => rfl) (adds_of_end rfl (.inr rfl))
  | exited eventIndex reason ns carriers hnonempty hperm hsorted hlength =>
    refine h.kept ?_ exitEvents_adds ?_
    · intro key
      rw [terminateAll_getElem?]
      split
      · rw [Option.map_map]
        rfl
      · rfl
    · apply terminateAll_size
      · exact (hperm.map _).nodup_iff.mpr (hindexed.carrierSpends_nodup hprevouts)
      · intro spend hspend
        exact hindexed.mem_active (hperm.mem_iff.mp hspend)

/-- The INIT event of a run is never a termination. -/
def InitsValid (log : List Event) : Prop :=
  ∀ event ∈ log, event.validityClass = .terminalNoncanonical → event.eventType ≠ .init

theorem inert_adds (hinert : ∀ event ∈ events, event.Inert) (hinits : InitsValid events) :
    Adds hClose events 0 0 0 := by
  constructor
  · apply List.countP_eq_zero.mpr
    intro event hevent
    rcases (hinert event hevent).1 with hclass | htype
    · simp [hclass]
    · simp [htype]
  · apply List.countP_eq_zero.mpr
    intro event hevent
    rcases (hinert event hevent).1 with hclass | htype
    · simp [hclass]
    · simp [htype]
  · apply List.countP_eq_zero.mpr
    intro event hevent
    rcases (hinert event hevent).1 with hclass | htype
    · simp [hclass]
    · have hclass : event.validityClass ≠ .terminalNoncanonical := fun h => hinits event hevent h htype
      simp [htype,hclass]

theorem Reached.tally (h : Reached P binding placed log state) (hdistinct : Distinct P binding placed)
    (hprevouts : ∀ entry ∈ placed, (entry.tx.inputs.map InputView.prevout).Nodup)
    (hwindow : FoundingWindow state hOpen hClose) (hinits : InitsValid log) : ObjectTally hClose log state := by
  induction h with
  | fresh => exact ⟨rfl,rfl,rfl⟩
  | decided status _ hawaiting ih =>
    have hbefore := ih hdistinct hprevouts (by
      intro initHeight start stop hactive
      simp [hawaiting] at hactive) hinits
    exact ⟨hbefore.created,hbefore.founding,hbefore.balance⟩
  | processed block tx txIndex hreached hcall ih =>
    have heffect := processTransaction_effect hcall
    rw [heffect.frame] at hwindow
    have hbefore := ih hdistinct.of_append (fun entry hentry => hprevouts entry (by simp [hentry])) hwindow
      (fun event hevent => hinits event (by simp [hevent]))
    exact hbefore.effect (hreached.indexed hdistinct.of_append) hdistinct
      (hprevouts ⟨block.height,tx⟩ (by simp)) hwindow heffect
  | passed more emitted _ hinert ih =>
    have hbefore := ih hdistinct.of_append (fun entry hentry => hprevouts entry (by simp [hentry])) hwindow
      (fun event hevent => hinits event (by simp [hevent]))
    exact hbefore.kept (fun _ => rfl) (inert_adds hinert fun event hevent => hinits event (by simp [hevent])) rfl
  | sealed tipHeight tipHash chainedRoot _ ih =>
    have hbefore := ih hdistinct hprevouts hwindow hinits
    exact ⟨hbefore.created,hbefore.founding,hbefore.balance⟩

theorem TxEffect.inits_valid (h : TxEffect P state block tx txIndex state' events) : InitsValid events := by
  intro event hevent hclass
  cases h with
  | silent hcandidates hcarriers => simp at hevent
  | exited eventIndex reason ns carriers hnonempty hperm hsorted hlength =>
    obtain ⟨_,_,_,rfl⟩ := mem_exitEvents hevent
    simp [exitEvent]
  | _ =>
    rw [List.mem_singleton.mp hevent] at hclass
    simp [bareInvalidEvent,validEventBase,validRefundEvent] at hclass

theorem applyBlocks_inits_valid {blocks : List BlockView} {deltas : List BlockDelta}
    (hrun : applyBlocks P (ChainState.new P binding) blocks = some (state,deltas)) :
    InitsValid (deltas.flatMap BlockDelta.events) := by
  intro event hevent hclass
  obtain ⟨delta,hdelta,hmem⟩ := List.mem_flatMap.mp hevent
  rcases applyBlocks_event_called hrun hdelta hmem with ⟨_,hnot⟩ | ⟨_,_,_,_,_,hcalled,hemitted⟩
  · exact absurd hclass hnot
  · obtain ⟨_,_,_,_,_,_,hcall⟩ := hcalled.point
    exact (processTransaction_effect hcall).inits_valid event hemitted hclass

end Steps

/-- The counters say what the log and the state say, as machine words. -/
structure Counters.Agree (counters : Counters) (hClose : UInt32) (log : List Event) (state : ChainState) :
    Prop where
  allObjects : counters.allObjects = UInt64.ofNat (createCount log)
  foundingCreated : counters.foundingCreated = UInt64.ofNat (foundingCount hClose log)
  activeObjects : counters.activeObjects = UInt64.ofNat state.active.size
  balance : state.active.size + endCount log = createCount log

section Runs
variable {blocks : List BlockView} {deltas : List BlockDelta}

theorem Indexed.countActive (h : Indexed P binding placed state) :
    state.objectValues.countP (fun object => object.status = .active) = state.active.size := by
  rw [h.index.size_eq,countValues,ChainState.objectValues]
  apply List.countP_congr
  intro object _
  by_cases hstatus : object.status = .active <;> simp [ObjectState.carrier,hstatus]

theorem applyBlocks_agree (hrun : applyBlocks P (ChainState.new P binding) blocks = some (state,deltas))
    (hdistinct : Distinct P binding (placedTransactions blocks))
    (hprevouts : ∀ entry ∈ placedTransactions blocks, (entry.tx.inputs.map InputView.prevout).Nodup)
    (hwindow : FoundingWindow state hOpen hClose) :
    state.objects.size = createCount (deltas.flatMap BlockDelta.events) ∧
      state.counters.Agree hClose (deltas.flatMap BlockDelta.events) state := by
  have hreached := run_reached hrun
  have htally := hreached.tally hdistinct hprevouts hwindow (applyBlocks_inits_valid hrun)
  refine ⟨htally.created,?_,?_,?_,htally.balance⟩
  · rw [ChainState.counters,htally.created]
  · rw [ChainState.counters,← htally.founding]
    rfl
  · rw [ChainState.counters,(hreached.indexed hdistinct).countActive]

theorem applyBlocks_last {delta : BlockDelta} {earlier : List BlockDelta}
    (hrun : applyBlocks P (ChainState.new P binding) blocks = some (state,earlier ++ [delta])) :
    delta.roots.counters = state.counters ∧ state.protocolStatus ≠ .awaitingInit := by
  obtain ⟨applied,rest,middle,_,_,hlast⟩ := applyBlocks_split hrun
  cases rest with
  | nil => simp [applyBlocks] at hlast
  | cons block later =>
    obtain ⟨next,_,tail,happly,hrest,htail⟩ := applyBlocks_cons.mp hlast
    obtain ⟨rfl,rfl⟩ := List.cons.inj htail
    cases later with
    | nil =>
      simp only [applyBlocks,Option.some.injEq,Prod.mk.injEq,and_true] at hrest
      subst hrest
      exact ⟨(applyBlock_roots happly).2.2.1,(applyBlock_status happly).1⟩
    | cons second later =>
      obtain ⟨_,_,_,_,_,hnil⟩ := applyBlocks_cons.mp hrest
      simp at hnil

/-- The counters of every block of a run agree with the log up to it. -/
theorem applyBlocks_delta_agree {earlier later : List BlockDelta} {delta : BlockDelta}
    (hrun : applyBlocks P (ChainState.new P binding) blocks = some (state,earlier ++ delta :: later))
    (hdistinct : Distinct P binding (placedTransactions blocks))
    (hprevouts : ∀ entry ∈ placedTransactions blocks, (entry.tx.inputs.map InputView.prevout).Nodup)
    (hwindow : FoundingWindow state hOpen hClose) : ∃ applied rest before,
      blocks = applied ++ rest ∧
      applyBlocks P (ChainState.new P binding) applied = some (before,earlier ++ [delta]) ∧
      delta.roots.counters.Agree hClose ((earlier ++ [delta]).flatMap BlockDelta.events) before := by
  rw [List.append_cons] at hrun
  obtain ⟨applied,rest,before,rfl,hfirst,hsecond⟩ := applyBlocks_split hrun
  obtain ⟨hcounters,hdecided⟩ := applyBlocks_last hfirst
  rw [placedTransactions,List.flatMap_append] at hdistinct hprevouts
  rw [FoundingWindow,applyBlocks_status hdecided hsecond] at hwindow
  refine ⟨applied,rest,before,rfl,hfirst,?_⟩
  rw [hcounters]
  exact (applyBlocks_agree hfirst hdistinct.of_append
    (fun entry hentry => hprevouts entry (List.mem_append_left _ hentry)) hwindow).2

theorem foundingCount_le (log : List Event) : foundingCount hClose log ≤ createCount log := by
  apply List.countP_mono_left
  intro event _ hcounted
  simp only [decide_eq_true_eq] at hcounted ⊢
  exact ⟨hcounted.1,hcounted.2.1⟩

theorem ofNat_le_of_lt {a b : ℕ} (hle : a ≤ b) (hlt : b < 2 ^ 64) : UInt64.ofNat a ≤ UInt64.ofNat b := by
  have hlt' : a < 2 ^ 64 := Nat.lt_of_le_of_lt hle hlt
  rw [UInt64.le_iff_toNat_le,UInt64.toNat_ofNat',UInt64.toNat_ofNat',Nat.mod_eq_of_lt hlt,
    Nat.mod_eq_of_lt hlt']
  exact hle

/-- A log of blocks at or above the end of the founding window founds nothing. -/
theorem foundingCount_eq_zero {middle : List BlockDelta}
    (hevents : ∀ delta ∈ middle, ∀ event ∈ delta.events, event.height = delta.height)
    (hheights : ∀ delta ∈ middle, hClose.toUInt64 ≤ delta.height) :
    foundingCount hClose (middle.flatMap BlockDelta.events) = 0 := by
  apply List.countP_eq_zero.mpr
  intro event hevent hcounted
  obtain ⟨delta,hdelta,hmem⟩ := List.mem_flatMap.mp hevent
  simp only [decide_eq_true_eq] at hcounted
  have hheight := hcounted.2.2
  rw [hevents delta hdelta event hmem,← UInt64.not_le] at hheight
  exact hheight (hheights delta hdelta)

theorem Counters.Agree.mono {counters counters' : Counters} {more : List Event}
    (h : counters.Agree hClose log state) (h' : counters'.Agree hClose (log ++ more) state')
    (hlt : createCount (log ++ more) < 2 ^ 64) :
    counters.allObjects ≤ counters'.allObjects ∧ counters.foundingCreated ≤ counters'.foundingCreated := by
  have hfounding := Nat.lt_of_le_of_lt (@foundingCount_le hClose (log ++ more)) hlt
  rw [createCount_append] at hlt
  rw [foundingCount_append] at hfounding
  rw [h.allObjects,h'.allObjects,h.foundingCreated,h'.foundingCreated,createCount_append,foundingCount_append]
  exact ⟨ofNat_le_of_lt (Nat.le_add_right ..) hlt,ofNat_le_of_lt (Nat.le_add_right ..) hfounding⟩

/-- The blocks after one at or above the end of the founding window found nothing. -/
theorem applyBlocks_founds_nothing {earlier middle later : List BlockDelta} {delta : BlockDelta}
    (hrun : applyBlocks P (ChainState.new P binding) blocks = some (state,earlier ++ delta :: (middle ++ later)))
    (hclosed : hClose.toUInt64 ≤ delta.height) :
    foundingCount hClose (middle.flatMap BlockDelta.events) = 0 := by
  have hheights := (List.pairwise_append.mp (applyBlocks_heights hrun)).2.1
  apply foundingCount_eq_zero
  · intro other hother
    apply applyBlocks_event_height hrun
    exact List.mem_append_right _ (List.mem_cons_of_mem _ (List.mem_append_left _ hother))
  · intro other hother
    have habove := (List.pairwise_cons.mp hheights).1 other (List.mem_append_left _ hother)
    exact UInt64.le_trans hclosed (UInt64.le_of_lt habove)

end Runs

/-- In every run with distinct txids and prevouts the counters of every applied block agree with
the events emitted up to it. The counts of objects and of founding objects never decrease as
long as the number of objects is a machine word, and from the end of the founding window on
the count of founding objects is constant. -/
theorem counters_agree {blocks : List BlockView} {final : ChainState} {deltas : List BlockDelta}
    (hrun : applyBlocks P (ChainState.new P binding) blocks = some (final,deltas))
    (hdistinct : Distinct P binding (placedTransactions blocks))
    (hprevouts : ∀ entry ∈ placedTransactions blocks, (entry.tx.inputs.map InputView.prevout).Nodup)
    (hwindow : FoundingWindow final hOpen hClose) :
    (∀ earlier delta later, deltas = earlier ++ delta :: later → ∃ applied rest state,
      blocks = applied ++ rest ∧
      applyBlocks P (ChainState.new P binding) applied = some (state,earlier ++ [delta]) ∧
      delta.roots.counters.Agree hClose ((earlier ++ [delta]).flatMap BlockDelta.events) state) ∧
    ∀ earlier delta middle delta' later, deltas = earlier ++ delta :: (middle ++ delta' :: later) →
      (final.objects.size < 2 ^ 64 →
        delta.roots.counters.allObjects ≤ delta'.roots.counters.allObjects ∧
        delta.roots.counters.foundingCreated ≤ delta'.roots.counters.foundingCreated) ∧
      (hClose.toUInt64 ≤ delta.height →
        delta'.roots.counters.foundingCreated = delta.roots.counters.foundingCreated) := by
  constructor
  · rintro earlier delta later rfl
    exact applyBlocks_delta_agree hrun hdistinct hprevouts hwindow
  rintro earlier delta middle delta' later rfl
  have hassoc : earlier ++ delta :: (middle ++ delta' :: later) =
      (earlier ++ delta :: middle) ++ delta' :: later := by simp
  obtain ⟨_,_,_,_,_,hfirst⟩ := applyBlocks_delta_agree hrun hdistinct hprevouts hwindow
  obtain ⟨_,_,_,_,_,hsecond⟩ := applyBlocks_delta_agree (hassoc ▸ hrun) hdistinct hprevouts hwindow
  have hlog : ((earlier ++ delta :: middle) ++ [delta']).flatMap BlockDelta.events =
      (earlier ++ [delta]).flatMap BlockDelta.events ++ (middle ++ [delta']).flatMap BlockDelta.events := by
    simp
  rw [hlog] at hsecond
  constructor
  · intro hsize
    apply hfirst.mono hsecond
    apply Nat.lt_of_le_of_lt _ hsize
    have htotal : (earlier ++ delta :: (middle ++ delta' :: later)).flatMap BlockDelta.events =
        (earlier ++ [delta]).flatMap BlockDelta.events ++ (middle ++ [delta']).flatMap BlockDelta.events ++
          later.flatMap BlockDelta.events := by
      simp
    rw [(applyBlocks_agree hrun hdistinct hprevouts hwindow).1,htotal,createCount_append _ (later.flatMap _)]
    exact Nat.le_add_right ..
  · intro hclosed
    rw [List.append_cons middle] at hrun
    have hzero := applyBlocks_founds_nothing hrun hclosed
    rw [hfirst.foundingCreated,hsecond.foundingCreated,foundingCount_append,hzero,Nat.add_zero]

theorem sample_counters_agree : ∃ final deltas,
    applyBlocks bitcoinPrimitives sampleNew sampleBlocks = some (final,deltas) ∧
      ∃ earlier delta state, deltas = earlier ++ [delta] ∧
        delta.roots.counters.Agree 5428 (deltas.flatMap BlockDelta.events) state := by
  obtain ⟨final,deltas,hrun,hstatus,hlog⟩ := sampleBlocks_run
  have hne : deltas ≠ [] := by
    rintro rfl
    simp [sampleLog] at hlog
  obtain ⟨hagree,_⟩ := counters_agree hrun sample_distinct sample_consistent.prevouts (sample_window hstatus)
  have hlast := (List.dropLast_append_getLast hne).symm
  obtain ⟨_,_,state,_,_,hcounters⟩ := hagree deltas.dropLast (deltas.getLast hne) [] hlast
  rw [← hlast] at hcounters
  exact ⟨final,deltas,hrun,deltas.dropLast,deltas.getLast hne,state,hlast,hcounters⟩

end TandemVerifier
