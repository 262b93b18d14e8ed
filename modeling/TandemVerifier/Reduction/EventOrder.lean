import Mathlib.Data.List.Pairwise
import TandemVerifier.Reduction.Run

/-! # Events are emitted in canonical order

The transaction loop emits the events of each transaction under its own index and
numbers multiple exits of one transaction from zero, in the order of their object keys.
The events of a block are therefore strictly increasing, and sorting them in any order
gives them back as they were emitted.
-/
namespace TandemVerifier
open Library Library.Outcome
variable {P : Primitives} {state state' : ChainState} {block : BlockView} {tx : TxView}
variable {txIndex : UInt32} {events : List Event}

/-- Strictly earlier in transaction index, event index and sub-index. -/
def Event.PositionLt (a b : Event) : Prop := a.comparePosition b = .lt

theorem Event.positionLt_iff {a b : Event} : a.PositionLt b ↔ a.txIndex < b.txIndex ∨
    a.txIndex = b.txIndex ∧ (a.eventIndex < b.eventIndex ∨
      a.eventIndex = b.eventIndex ∧ a.subIndex < b.subIndex) := by
  simp only [PositionLt,comparePosition,compareLex,compareOn,Ordering.then_eq_lt,Std.compare_eq_lt,
    Std.compare_eq_iff_eq]

theorem Event.PositionLt.le {a b : Event} (h : a.PositionLt b) : a.PositionLe b := by
  rw [PositionLe,h]
  rfl

theorem Event.PositionLt.ne {a b : Event} (h : a.PositionLt b) : a ≠ b := by
  rintro rfl
  rw [positionLt_iff] at h
  rcases h with h | ⟨_,h | ⟨_,h⟩⟩ <;> exact absurd h (UInt32.lt_irrefl _)

/-- The event records the block and the transaction that emitted it. -/
structure Event.From (event : Event) (block : BlockView) (tx : TxView) (txIndex : UInt32) : Prop where
  blockHash : event.blockHash = block.hash
  height : event.height = block.height
  txIndex : event.txIndex = txIndex
  txid : event.txid = tx.txid
  wtxid : event.wtxid = tx.wtxid

theorem exitEvents_from {eventIndex : UInt32} {reason : Reason} {ns : Hash32} {sub : ℕ}
    {carriers : List (ℕ × ObjectState)} {event : Event}
    (h : event ∈ exitEvents block tx txIndex eventIndex reason ns sub carriers) :
    event.From block tx txIndex ∧ event.eventIndex = eventIndex ∧
      ∃ i, sub ≤ i ∧ i < sub + carriers.length ∧ event.subIndex = UInt32.ofNat i := by
  induction carriers generalizing sub with
  | nil => simp [exitEvents] at h
  | cons first rest ih =>
    rcases List.mem_cons.mp h with rfl | htail
    · exact ⟨⟨rfl,rfl,rfl,rfl,rfl⟩,rfl,sub,Nat.le_refl _,by simp,rfl⟩
    · obtain ⟨hfrom,hindex,i,hle,hlt,hsub⟩ := ih htail
      rw [List.length_cons]
      exact ⟨hfrom,hindex,i,by omega,by omega,hsub⟩

theorem exitEvents_ordered {eventIndex : UInt32} {reason : Reason} {ns : Hash32} {sub : ℕ}
    {carriers : List (ℕ × ObjectState)} (hbound : sub + carriers.length ≤ 2 ^ 32) :
    (exitEvents block tx txIndex eventIndex reason ns sub carriers).Pairwise Event.PositionLt := by
  induction carriers generalizing sub with
  | nil => exact .nil
  | cons first rest ih =>
    rw [List.length_cons] at hbound
    refine List.pairwise_cons.mpr ⟨?_,ih (by omega)⟩
    intro event hevent
    obtain ⟨hfrom,hindex,i,hle,hlt,hsub⟩ := exitEvents_from hevent
    rw [Event.positionLt_iff]
    refine Or.inr ⟨hfrom.txIndex.symm,Or.inr ⟨hindex.symm,?_⟩⟩
    rw [hsub,UInt32.lt_iff_toNat_lt]
    simp only [exitEvent,UInt32.toNat_ofNat']
    omega

theorem TxEffect.events_from (h : TxEffect P state block tx txIndex state' events) :
    ∀ event ∈ events, event.From block tx txIndex := by
  intro event hevent
  cases h with
  | silent hcandidates hcarriers => simp at hevent
  | exited eventIndex reason ns carriers hnonempty hperm hsorted hlength =>
    exact (exitEvents_from hevent).1
  | _ =>
    rw [List.mem_singleton.mp hevent]
    exact ⟨rfl,rfl,rfl,rfl,rfl⟩

theorem TxEffect.events_ordered (h : TxEffect P state block tx txIndex state' events) :
    events.Pairwise Event.PositionLt := by
  cases h with
  | silent hcandidates hcarriers => exact .nil
  | exited eventIndex reason ns carriers hnonempty hperm hsorted hlength =>
    exact exitEvents_ordered (by simpa using hlength)
  | _ => exact List.pairwise_singleton _ _

section SubIndexes

/-- Numbered from zero, in the order of the object keys. -/
def NumberedByKey (events : List Event) : Prop :=
  (events.map fun event => event.subIndex.toNat) = List.range events.length ∧
    events.Pairwise fun a b => (compare a.objectKey b.objectKey).isLE = true

/-- The exits that the transaction at an index caused. -/
def terminalEvents (txIndex : UInt32) (events : List Event) : List Event :=
  events.filter fun event => event.txIndex == txIndex && event.validityClass == .terminalNoncanonical

/-- Only exits have a sub-index other than zero, and those of one transaction are numbered. -/
def SubIndexed (events : List Event) : Prop :=
  (∀ event ∈ events, event.subIndex ≠ 0 → event.validityClass = .terminalNoncanonical) ∧
    ∀ txIndex, NumberedByKey (terminalEvents txIndex events)

theorem NumberedByKey.nil : NumberedByKey [] := ⟨rfl,.nil⟩

theorem SubIndexed.nil : SubIndexed [] := ⟨by simp,fun _ => .nil⟩

theorem SubIndexed.single {event : Event} (hsub : event.subIndex = 0)
    (hclass : event.validityClass ≠ .terminalNoncanonical) : SubIndexed [event] := by
  refine ⟨?_,fun txIndex => ?_⟩
  · intro other hother hne
    rw [List.mem_singleton.mp hother] at hne
    exact absurd hsub hne
  · have hempty : terminalEvents txIndex [event] = [] := by simp [terminalEvents,hclass]
    rw [hempty]
    exact .nil

theorem exitEvents_length {eventIndex : UInt32} {reason : Reason} {ns : Hash32} {sub : ℕ}
    {carriers : List (ℕ × ObjectState)} :
    (exitEvents block tx txIndex eventIndex reason ns sub carriers).length = carriers.length := by
  induction carriers generalizing sub with
  | nil => rfl
  | cons first rest ih => rw [exitEvents,List.length_cons,ih,List.length_cons]

theorem exitEvents_subIndex {eventIndex : UInt32} {reason : Reason} {ns : Hash32} {sub : ℕ}
    {carriers : List (ℕ × ObjectState)} (hbound : sub + carriers.length ≤ 2 ^ 32) :
    ((exitEvents block tx txIndex eventIndex reason ns sub carriers).map fun event =>
      event.subIndex.toNat) = List.range' sub carriers.length := by
  induction carriers generalizing sub with
  | nil => rfl
  | cons first rest ih =>
    rw [List.length_cons] at hbound
    have hsub : (UInt32.ofNat sub).toNat = sub := by
      rw [UInt32.toNat_ofNat']
      omega
    rw [exitEvents,List.map_cons,ih (by omega),List.length_cons,List.range'_succ,exitEvent,hsub]

theorem exitEvents_keys {eventIndex : UInt32} {reason : Reason} {ns : Hash32} {sub : ℕ}
    {carriers : List (ℕ × ObjectState)} :
    (exitEvents block tx txIndex eventIndex reason ns sub carriers).map Event.objectKey =
      carriers.map fun spend => spend.2.objectKey := by
  induction carriers generalizing sub with
  | nil => rfl
  | cons first rest ih => rw [exitEvents,List.map_cons,ih,List.map_cons,exitEvent]

theorem exitEvents_terminal {eventIndex : UInt32} {reason : Reason} {ns : Hash32} {sub : ℕ}
    {carriers : List (ℕ × ObjectState)} {event : Event}
    (h : event ∈ exitEvents block tx txIndex eventIndex reason ns sub carriers) :
    event.validityClass = .terminalNoncanonical := by
  obtain ⟨_,_,_,rfl⟩ := mem_exitEvents h
  rfl

/-- Sorted carriers are numbered in the order of their keys. -/
theorem exitEvents_numbered {eventIndex : UInt32} {reason : Reason} {ns : Hash32}
    {carriers : List (ℕ × ObjectState)} (hsorted : carriers.Pairwise CarrierLe)
    (hlength : carriers.length ≤ 2 ^ 32) :
    NumberedByKey (exitEvents block tx txIndex eventIndex reason ns 0 carriers) := by
  constructor
  · rw [exitEvents_subIndex (by omega),exitEvents_length,List.range_eq_range']
  · have hkeys : (carriers.map fun spend => spend.2.objectKey).Pairwise
        fun a b => (compare a b).isLE = true := List.pairwise_map.mpr hsorted
    rw [← @exitEvents_keys block tx txIndex eventIndex reason ns 0 carriers] at hkeys
    exact List.pairwise_map.mp hkeys

theorem SubIndexed.exits {eventIndex : UInt32} {reason : Reason} {ns : Hash32}
    {carriers : List (ℕ × ObjectState)} (hsorted : carriers.Pairwise CarrierLe)
    (hlength : carriers.length ≤ 2 ^ 32) :
    SubIndexed (exitEvents block tx txIndex eventIndex reason ns 0 carriers) := by
  refine ⟨fun event hevent _ => exitEvents_terminal hevent,fun other => ?_⟩
  by_cases hsame : txIndex = other
  · have hall : terminalEvents other (exitEvents block tx txIndex eventIndex reason ns 0 carriers) =
        exitEvents block tx txIndex eventIndex reason ns 0 carriers := by
      refine List.filter_eq_self.mpr fun event hevent => ?_
      rw [(exitEvents_from hevent).1.txIndex,exitEvents_terminal hevent,hsame]
      simp
    rw [hall]
    exact exitEvents_numbered hsorted hlength
  · have hnone : terminalEvents other (exitEvents block tx txIndex eventIndex reason ns 0 carriers) = [] := by
      refine List.filter_eq_nil_iff.mpr fun event hevent => ?_
      rw [(exitEvents_from hevent).1.txIndex]
      simp [hsame]
    rw [hnone]
    exact .nil

theorem TxEffect.events_subIndexed (h : TxEffect P state block tx txIndex state' events) :
    SubIndexed events := by
  cases h with
  | silent hcandidates hcarriers => exact .nil
  | exited eventIndex reason ns carriers hnonempty hperm hsorted hlength => exact .exits hsorted hlength
  | _ => exact .single rfl (by simp [bareInvalidEvent,validEventBase,validRefundEvent])

/-- Later transactions have events under other indexes. -/
theorem SubIndexed.append {earlier emitted : List Event} (h : SubIndexed earlier)
    (hemitted : SubIndexed emitted) (hindex : ∀ event ∈ emitted, event.txIndex = txIndex)
    (hearlier : ∀ event ∈ earlier, event.txIndex ≠ txIndex) : SubIndexed (earlier ++ emitted) := by
  refine ⟨?_,fun other => ?_⟩
  · intro event hevent
    exact (List.mem_append.mp hevent).elim (h.1 event) (hemitted.1 event)
  · rw [terminalEvents,List.filter_append]
    by_cases hsame : other = txIndex
    · have hnone : terminalEvents other earlier = [] := by
        refine List.filter_eq_nil_iff.mpr fun event hevent => ?_
        simp [hsame,hearlier event hevent]
      rw [terminalEvents] at hnone
      rw [hnone,List.nil_append]
      exact hemitted.2 other
    · have hnone : terminalEvents other emitted = [] := by
        refine List.filter_eq_nil_iff.mpr fun event hevent => ?_
        simp [hindex event hevent,Ne.symm hsame]
      rw [terminalEvents] at hnone
      rw [hnone,List.append_nil]
      exact h.2 other

end SubIndexes

/-- What one transaction of a block emits. -/
structure Emission (block : BlockView) (tx : TxView) (txIndex : UInt32) (emitted : List Event) : Prop where
  ordered : emitted.Pairwise Event.PositionLt
  source : ∀ event ∈ emitted, event.From block tx txIndex
  subIndexed : SubIndexed emitted

theorem processTransaction_emission
    (h : processTransaction P state block tx txIndex = ok (state',events)) :
    Emission block tx txIndex events where
  ordered := (processTransaction_effect h).events_ordered
  source := (processTransaction_effect h).events_from
  subIndexed := (processTransaction_effect h).events_subIndexed

theorem initBlockStep_emission (h : initBlockStep P block state tx txIndex = ok (state',events)) :
    Emission block tx txIndex events := by
  unfold initBlockStep at h
  split at h
  · simp only [pure_eq_ok,Outcome.ok.injEq,Prod.mk.injEq] at h
    obtain ⟨_,rfl⟩ := h
    refine ⟨List.pairwise_singleton _ _,?_,.single rfl (by simp [validInitEvent])⟩
    intro event hevent
    rw [List.mem_singleton.mp hevent]
    exact ⟨rfl,rfl,rfl,rfl,rfl⟩
  · exact processTransaction_emission h

/-- The events of a block are ordered and each records the transaction at its index. -/
def BlockOrdered (block : BlockView) (txs : List TxView) (events : List Event) : Prop :=
  events.Pairwise Event.PositionLt ∧ ∀ event ∈ events, ∃ tx,
    txs[event.txIndex.toNat]? = some tx ∧ event.From block tx event.txIndex

/-- The events of one more transaction keep the order of the block. -/
theorem BlockOrdered.append {earlier : List TxView} {acc emitted : List Event}
    (h : BlockOrdered block earlier acc) (hemission : Emission block tx txIndex emitted)
    (hposition : txIndex.toNat = earlier.length) :
    BlockOrdered block (earlier ++ [tx]) (acc ++ emitted) := by
  obtain ⟨hordered,hfrom⟩ := h
  constructor
  · refine List.pairwise_append.mpr ⟨hordered,hemission.ordered,?_⟩
    intro first hfirst second hsecond
    obtain ⟨_,hget,_⟩ := hfrom first hfirst
    have hlt := (List.getElem?_eq_some_iff.mp hget).1
    rw [Event.positionLt_iff,(hemission.source second hsecond).txIndex,UInt32.lt_iff_toNat_lt,hposition]
    exact Or.inl hlt
  · intro event hevent
    rcases List.mem_append.mp hevent with hold | hemit
    · obtain ⟨found,hget,hevent⟩ := hfrom event hold
      have hlt := (List.getElem?_eq_some_iff.mp hget).1
      exact ⟨found,by rw [List.getElem?_append_left hlt,hget],hevent⟩
    · have hh := hemission.source event hemit
      refine ⟨tx,?_,hh.txIndex ▸ hh⟩
      rw [hh.txIndex,hposition]
      simp

theorem loop_ordered {step : ChainState → TxView → UInt32 → Outcome Infallible (ChainState × List Event)}
    {txs : List TxView} {start final : ChainState}
    (hstep : ∀ {before tx txIndex after emitted}, step before tx txIndex = ok (after,emitted) →
      Emission block tx txIndex emitted)
    (hloop : forEachTransaction step start [] 0 txs = ok (final,.ok events)) :
    BlockOrdered block txs events ∧ SubIndexed events := by
  refine forEachTransaction_rule
    (motive := fun visited _ events => BlockOrdered block visited events ∧ SubIndexed events)
    ?_ ⟨⟨.nil,by simp⟩,.nil⟩ hloop
  rintro earlier tx before acc txIndex after emitted ⟨hordered,hsub⟩ hindex hcall
  have hemission := hstep hcall
  have hposition : txIndex.toNat = earlier.length := u32TryFrom_eq_some.mp hindex
  refine ⟨hordered.append hemission hposition,hsub.append hemission.subIndexed
    (fun event hevent => (hemission.source event hevent).txIndex) ?_⟩
  rintro event hevent rfl
  obtain ⟨_,hget,_⟩ := hordered.2 event hevent
  have hlt := (List.getElem?_eq_some_iff.mp hget).1
  omega

theorem Reduction.ordered {reduced : ChainState} (h : Reduction P state block reduced events) :
    BlockOrdered block block.transactions events ∧ SubIndexed events := by
  cases h with
  | active initHeight hOpen hClose hstatus hloop =>
    exact loop_ordered processTransaction_emission hloop
  | initialized initTx position params hstatus hfind hvalid hloop =>
    exact loop_ordered initBlockStep_emission hloop
  | failed initTx position initIndex reason hstatus hfind hindex hinvalid =>
    refine ⟨⟨List.pairwise_singleton _ _,?_⟩,.single rfl (by simp [invalidEvent,bareInvalidEvent])⟩
    intro event hevent
    rw [List.mem_singleton.mp hevent]
    have hget : block.transactions[position]? = some initTx := by
      have hmem := List.mem_of_find?_eq_some hfind
      exact List.mem_zipIdx_iff_getElem?.mp hmem
    have hposition : initIndex.toNat = position := u32TryFrom_eq_some.mp hindex
    refine ⟨initTx,?_,⟨rfl,rfl,rfl,rfl,rfl⟩⟩
    simp only [invalidEvent,bareInvalidEvent,hposition,hget]
  | idle reason initHeight hstatus => exact ⟨⟨.nil,by simp⟩,.nil⟩

theorem applyBlock_emission {delta : BlockDelta}
    (h : applyBlock P state block = ok (state',.ok delta)) :
    BlockOrdered block block.transactions delta.events ∧ SubIndexed delta.events := by
  obtain ⟨_,_,reduced,events,hreduce,hseal⟩ := applyBlock_ok h
  obtain ⟨_,rfl⟩ := Prod.mk.inj hseal
  exact hreduce.ordered

theorem applyBlock_ordered {delta : BlockDelta}
    (h : applyBlock P state block = ok (state',.ok delta)) :
    BlockOrdered block block.transactions delta.events :=
  (applyBlock_emission h).1

section Sorting

/-- Sorting the events of a block does not move them. -/
theorem orderedEvents_eq (h : events.Pairwise Event.PositionLt) : orderedEvents events = events :=
  (h.imp Event.PositionLt.le).insertionSort_eq

instance : Std.TransCmp Event.comparePosition :=
  inferInstanceAs (Std.TransCmp (compareLex (compareOn Event.txIndex)
    (compareLex (compareOn Event.eventIndex) (compareOn Event.subIndex))))

instance : Std.Total Event.PositionLe where
  total a b := by
    by_cases h : (a.comparePosition b).isLE = true
    · exact Or.inl h
    · right
      rw [Event.PositionLe,Std.OrientedCmp.lt_of_not_isLE h]
      rfl

instance : IsTrans Event Event.PositionLe where
  trans _ _ _ := Std.TransCmp.isLE_trans

/-- Ordered events share no position. -/
theorem eq_of_position_eq (h : events.Pairwise Event.PositionLt) {a b : Event} (ha : a ∈ events)
    (hb : b ∈ events) (hposition : a.comparePosition b = .eq) : a = b := by
  have hdistinct : events.Pairwise fun a b => a.comparePosition b ≠ .eq :=
    h.imp fun hlt heq => by simp [Event.PositionLt,heq] at hlt
  have hsymm : Std.Symm fun a b : Event => a.comparePosition b ≠ .eq :=
    ⟨fun _ _ hne heq => hne (Std.OrientedCmp.eq_symm heq)⟩
  by_contra hne
  exact hdistinct.forall ha hb hne hposition

/-- Any permutation of ordered events is sorted back to them. -/
theorem orderedEvents_perm {permuted : List Event} (h : events.Pairwise Event.PositionLt)
    (hperm : permuted.Perm events) : orderedEvents permuted = events := by
  have hsorted := (List.perm_insertionSort Event.PositionLe permuted).trans hperm
  apply List.Perm.eq_of_pairwise _ (List.pairwise_insertionSort Event.PositionLe permuted)
    (h.imp Event.PositionLt.le) hsorted
  intro a b ha hb hab hba
  exact eq_of_position_eq h (hsorted.mem_iff.mp ha) hb (Std.OrientedCmp.isLE_antisymm hab hba)

end Sorting

end TandemVerifier
