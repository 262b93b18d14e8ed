import TandemVerifier.Library.InverseIndex
import TandemVerifier.Reduction.Deployment

/-! # The two maps describe one set of carriers

The active index and the object map are updated separately, from clones taken before
the update. The invariant says that the index is the inverse of the current outpoint
on active objects, and that every indexed outpoint is output 1 of a visited
transaction. A fresh transaction therefore never meets an entry that it would replace.
-/
namespace TandemVerifier
open Library Library.Outcome
variable {P : Primitives} {binding : Binding} {placed : List Placed} {state state' : ChainState}

/-- Txids are pairwise distinct and object keys do not collide on them. -/
structure Distinct (P : Primitives) (binding : Binding) (placed : List Placed) : Prop where
  txids : (placed.map fun entry => entry.tx.txid).Nodup
  keys : ∀ entry ∈ placed, ∀ other ∈ placed,
    objectKey P (binding.namespace P) entry.tx.txid = objectKey P (binding.namespace P) other.tx.txid →
    entry.tx.txid = other.tx.txid

theorem Distinct.of_nodup (htxids : (placed.map fun entry => entry.tx.txid).Nodup)
    (hkeys : (placed.map fun entry => objectKey P (binding.namespace P) entry.tx.txid).Nodup) :
    Distinct P binding placed where
  txids := htxids
  keys := by
    intro entry hentry other hother hkey
    rw [List.inj_on_of_nodup_map hkeys hentry hother hkey]

theorem Distinct.of_append {more : List Placed} (h : Distinct P binding (placed ++ more)) :
    Distinct P binding placed where
  txids := by
    have hh := h.txids
    rw [List.map_append] at hh
    exact hh.of_append_left
  keys entry he other ho :=
    h.keys entry (List.mem_append_left _ he) other (List.mem_append_left _ ho)

theorem Distinct.fresh {next entry : Placed} (h : Distinct P binding (placed ++ [next]))
    (he : entry ∈ placed) : entry.tx.txid ≠ next.tx.txid := by
  have hh := h.txids
  rw [List.map_append,List.nodup_append] at hh
  exact hh.2.2 _ (List.mem_map_of_mem he) _ (by simp)

theorem Distinct.fresh_key {next entry : Placed} (h : Distinct P binding (placed ++ [next]))
    (he : entry ∈ placed) : objectKey P (binding.namespace P) entry.tx.txid ≠
      objectKey P (binding.namespace P) next.tx.txid :=
  fun hkey => h.fresh he (h.keys entry (by simp [he]) next (by simp) hkey)

/-- The invariant of the objects and of the active index. -/
structure Indexed (P : Primitives) (binding : Binding) (placed : List Placed) (state : ChainState) :
    Prop where
  binding_eq : state.binding = binding
  index : IsInverseIndex ObjectState.carrier (fun key => state.objects[key]?)
    (fun outpoint => state.active[outpoint]?)
  key_eq : ∀ (key : Hash32) (object : ObjectState), state.objects[key]? = some object → object.objectKey = key
  genesis : ∀ (key : Hash32) (object : ObjectState), state.objects[key]? = some object →
    ∃ entry ∈ placed, object.genesis = ⟨entry.tx.txid,1⟩ ∧
      key = objectKey P (binding.namespace P) entry.tx.txid
  carrier : ∀ (outpoint : OutPointRef) (key : Hash32), state.active[outpoint]? = some key →
    outpoint.vout = 1 ∧ ∃ entry ∈ placed, entry.tx.txid = outpoint.txid
  live : ∀ (key : Hash32) (object : ObjectState), state.objects[key]? = some object →
    object.status = .active → object.terminalTxid = Hash32.zero
  terminated : ∀ (key : Hash32) (object : ObjectState), state.objects[key]? = some object →
    object.status ≠ .active → object.currentOutpoint = .zero

namespace Indexed

theorem new : Indexed P binding [] (ChainState.new P binding) where
  binding_eq := rfl
  index := by simp [IsInverseIndex,ChainState.new]
  key_eq := by simp [ChainState.new]
  genesis := by simp [ChainState.new]
  carrier := by simp [ChainState.new]
  live := by simp [ChainState.new]
  terminated := by simp [ChainState.new]

theorem mono {more : List Placed} (h : Indexed P binding placed state) :
    Indexed P binding (placed ++ more) state where
  binding_eq := h.binding_eq
  index := h.index
  key_eq := h.key_eq
  genesis key object hobject := by
    obtain ⟨entry,hentry,hh⟩ := h.genesis key object hobject
    exact ⟨entry,List.mem_append_left _ hentry,hh⟩
  carrier outpoint key hactive := by
    obtain ⟨hvout,entry,hentry,htxid⟩ := h.carrier outpoint key hactive
    exact ⟨hvout,entry,List.mem_append_left _ hentry,htxid⟩
  live := h.live
  terminated := h.terminated

/-- The invariant reads only the binding and the two maps. -/
theorem congr (h : Indexed P binding placed state) (hbinding : state'.binding = state.binding)
    (hactive : state'.active = state.active) (hobjects : state'.objects = state.objects) :
    Indexed P binding placed state' where
  binding_eq := hbinding.trans h.binding_eq
  index := by
    rw [hactive,hobjects]
    exact h.index
  key_eq := by
    rw [hobjects]
    exact h.key_eq
  genesis := by
    rw [hobjects]
    exact h.genesis
  carrier := by
    rw [hactive]
    exact h.carrier
  live := by
    rw [hobjects]
    exact h.live
  terminated := by
    rw [hobjects]
    exact h.terminated

/-- The object behind a spent carrier is the active owner of the spent outpoint. -/
theorem owner {tx : TxView} {i : ℕ} {object : ObjectState} (h : Indexed P binding placed state)
    (hmem : (i,object) ∈ carrierSpends state tx) :
    state.objects[object.objectKey]? = some object ∧ object.status = .active ∧
      state.active[object.currentOutpoint]? = some object.objectKey ∧
      ∃ input, tx.inputs[i]? = some input ∧ input.prevout = object.currentOutpoint := by
  obtain ⟨input,key,hinput,hactive,hobject⟩ := mem_carrierSpends.mp hmem
  obtain ⟨stored,hstored,hcarrier⟩ := (h.index _ _).mp hactive
  obtain rfl : stored = object := by
    exact Option.some.inj (hstored.symm.trans hobject)
  obtain ⟨hstatus,houtpoint⟩ := ObjectState.carrier_eq_some.mp hcarrier
  obtain rfl := h.key_eq key stored hobject
  exact ⟨hobject,hstatus,houtpoint ▸ hactive,input,hinput,houtpoint.symm⟩

theorem outpoint_fresh {next : Placed} {vout : UInt32} (h : Indexed P binding placed state)
    (hdistinct : Distinct P binding (placed ++ [next])) :
    state.active[(⟨next.tx.txid,vout⟩ : OutPointRef)]? = none := by
  cases hactive : state.active[(⟨next.tx.txid,vout⟩ : OutPointRef)]? with
  | none => rfl
  | some key =>
    obtain ⟨_,entry,hentry,htxid⟩ := h.carrier _ _ hactive
    exact absurd htxid (hdistinct.fresh hentry)

theorem key_fresh {next : Placed} (h : Indexed P binding placed state)
    (hdistinct : Distinct P binding (placed ++ [next])) :
    state.objects[objectKey P (binding.namespace P) next.tx.txid]? = none := by
  cases hobject : state.objects[objectKey P (binding.namespace P) next.tx.txid]? with
  | none => rfl
  | some object =>
    obtain ⟨entry,hentry,_,hkey⟩ := h.genesis _ _ hobject
    exact absurd hkey.symm (hdistinct.fresh_key hentry)

/-- Writing one object keeps the invariant when its carrier, if any, is free and visited. -/
theorem write {more : List Placed} (key : Hash32) (object : ObjectState)
    (h : Indexed P binding placed state) (hbinding : state'.binding = state.binding)
    (hobjects : ∀ k : Hash32, state'.objects[k]? = if key = k then some object else state.objects[k]?)
    (hactive : ∀ o : OutPointRef, state'.active[o]? = if object.carrier = some o then some key
      else if state.active[o]? = some key then none else state.active[o]?)
    (hfree : ∀ o, object.carrier = some o → ∀ k : Hash32, state.active[o]? = some k → k = key)
    (hkey : object.objectKey = key)
    (hgenesis : ∃ entry ∈ placed ++ more, object.genesis = ⟨entry.tx.txid,1⟩ ∧
      key = objectKey P (binding.namespace P) entry.tx.txid)
    (hcarrier : ∀ o, object.carrier = some o →
      o.vout = 1 ∧ ∃ entry ∈ placed ++ more, entry.tx.txid = o.txid)
    (hlive : object.status = .active → object.terminalTxid = Hash32.zero)
    (hterminated : object.status ≠ .active → object.currentOutpoint = .zero) :
    Indexed P binding (placed ++ more) state' := by
  have hmono : Indexed P binding (placed ++ more) state := h.mono
  have hcases : ∀ k value, state'.objects[k]? = some value →
      (key = k ∧ object = value) ∨ state.objects[k]? = some value := by
    intro k value hvalue
    rw [hobjects] at hvalue
    split at hvalue
    · next hk => exact Or.inl ⟨hk,Option.some.inj hvalue⟩
    · exact Or.inr hvalue
  refine ⟨hbinding.trans h.binding_eq,h.index.write hobjects hactive hfree,?_,?_,?_,?_,?_⟩
  · intro k value hvalue
    rcases hcases k value hvalue with ⟨rfl,rfl⟩ | hold
    · exact hkey
    · exact h.key_eq k value hold
  · intro k value hvalue
    rcases hcases k value hvalue with ⟨rfl,rfl⟩ | hold
    · exact hgenesis
    · exact hmono.genesis k value hold
  · intro o k hk
    rw [hactive] at hk
    split at hk
    · next ho => exact hcarrier o ho
    · split at hk
      · simp at hk
      · exact hmono.carrier o k hk
  · intro k value hvalue
    rcases hcases k value hvalue with ⟨rfl,rfl⟩ | hold
    · exact hlive
    · exact h.live k value hold
  · intro k value hvalue
    rcases hcases k value hvalue with ⟨rfl,rfl⟩ | hold
    · exact hterminated
    · exact h.terminated k value hold

end Indexed

section Clones

/-- A clone taken from the state: its key and its outpoint still identify one object. -/
structure Owned (state : ChainState) (object : ObjectState) : Prop where
  stored : ∃ current, state.objects[object.objectKey]? = some current ∧
    ∀ o, current.carrier = some o → o = object.currentOutpoint
  exclusive : ∀ key : Hash32, state.active[object.currentOutpoint]? = some key → key = object.objectKey

theorem Owned.of_spend {tx : TxView} {i : ℕ} {object : ObjectState}
    (h : Indexed P binding placed state) (hmem : (i,object) ∈ carrierSpends state tx) :
    Owned state object := by
  obtain ⟨hobject,_,hactive,_⟩ := h.owner hmem
  refine ⟨⟨object,hobject,?_⟩,?_⟩
  · intro o ho
    exact (ObjectState.carrier_eq_some.mp ho).2.symm
  · intro key hkey
    rw [hactive] at hkey
    exact (Option.some.inj hkey).symm

/-- Erasing the outpoint of a clone drops exactly the entries of its key. -/
theorem Owned.getElem?_erase {object : ObjectState} (h : Indexed P binding placed state)
    (howned : Owned state object) (o : OutPointRef) :
    (state.active.erase object.currentOutpoint)[o]? =
      if state.active[o]? = some object.objectKey then none else state.active[o]? := by
  rw [Std.ExtTreeMap.getElem?_erase]
  simp only [Std.compare_eq_iff_eq]
  by_cases ho : object.currentOutpoint = o
  · subst ho
    rw [if_pos rfl]
    cases hactive : state.active[object.currentOutpoint]? with
    | none => simp
    | some key => simp [howned.exclusive key hactive]
  · rw [if_neg ho]
    by_cases hactive : state.active[o]? = some object.objectKey
    · obtain ⟨current,hcurrent,hcarrier⟩ := howned.stored
      obtain ⟨value,hvalue,hlocation⟩ := (h.index _ _).mp hactive
      have hsame : current = value := Option.some.inj (hcurrent.symm.trans hvalue)
      exact absurd (hcarrier o (hsame ▸ hlocation)).symm ho
    · rw [if_neg hactive]

variable {object other : ObjectState} {update : ObjectState → ObjectState}

theorem Indexed.terminates (h : Indexed P binding placed state) (howned : Owned state object)
    (hterm : Terminates state object update state') : Indexed P binding placed state' := by
  obtain ⟨current,hcurrent,_⟩ := howned.stored
  have hnone := hterm.carrier_eq_none current
  have hh : Indexed P binding (placed ++ []) state' := by
    refine h.write object.objectKey (update current) hterm.binding_eq ?_ ?_ ?_ ?_ ?_
      ?_ ?_ ?_
    · intro k
      rw [hterm.getElem?_objects,hcurrent]
      rfl
    · intro o
      rw [hterm.active_eq,howned.getElem?_erase h,hnone]
      simp
    · simp [hnone]
    · exact (hterm.keeps current).1.trans (h.key_eq _ _ hcurrent)
    · rw [(hterm.keeps current).2,List.append_nil]
      exact h.genesis _ _ hcurrent
    · simp [hnone]
    · exact fun hactive => absurd hactive (hterm.ends current).1
    · exact fun _ => (hterm.ends current).2
  simpa using hh

theorem Owned.terminates (h : Owned state other) (hterm : Terminates state object update state') :
    Owned state' other := by
  obtain ⟨⟨current,hcurrent,hcarrier⟩,hexclusive⟩ := h
  constructor
  · by_cases hk : object.objectKey = other.objectKey
    · refine ⟨update current,?_,by simp [hterm.carrier_eq_none]⟩
      rw [hterm.getElem?_objects,if_pos hk,hk,hcurrent]
      rfl
    · refine ⟨current,?_,hcarrier⟩
      rw [hterm.getElem?_objects,if_neg hk,hcurrent]
  · intro key hkey
    rw [hterm.active_eq,Std.ExtTreeMap.getElem?_erase] at hkey
    split at hkey
    · simp at hkey
    · exact hexclusive key hkey

theorem Indexed.terminateAll {carriers : List (ℕ × ObjectState)} {txid : Hash32}
    (h : Indexed P binding placed state) (howned : ∀ spend ∈ carriers, Owned state spend.2) :
    Indexed P binding placed (terminateAll state txid carriers) := by
  induction carriers generalizing state with
  | nil => exact h
  | cons spend rest ih =>
    have hterm := terminateObject_terminates state spend.2 .exitedNoncanonical txid (by simp)
    apply ih (h.terminates (howned spend List.mem_cons_self) hterm)
    intro other hother
    exact (howned other (List.mem_cons_of_mem _ hother)).terminates hterm

end Clones

section Steps
variable {block : BlockView} {tx : TxView} {txIndex : UInt32} {events : List Event}

theorem Indexed.created {keys : KeyPair} {hOpen hClose : UInt32} (h : Indexed P binding placed state)
    (hdistinct : Distinct P binding (placed ++ [⟨block.height,tx⟩])) :
    Indexed P binding (placed ++ [⟨block.height,tx⟩])
      (addObject state (createdObject P state block tx keys hOpen hClose)) := by
  have hns : state.binding.namespace P = binding.namespace P := by rw [h.binding_eq]
  have hkey := h.key_fresh hdistinct
  have hfresh : state.active[(⟨tx.txid,1⟩ : OutPointRef)]? = none := h.outpoint_fresh hdistinct
  refine h.write (objectKey P (binding.namespace P) tx.txid)
    (createdObject P state block tx keys hOpen hClose) rfl ?_ ?_ ?_ ?_ ?_ ?_ ?_ ?_
  · intro k
    simp only [addObject,createdObject,hns,Std.ExtTreeMap.getElem?_insert,Std.compare_eq_iff_eq]
  · intro o
    have hunindexed : state.active[o]? ≠ some (objectKey P (binding.namespace P) tx.txid) := by
      intro ho
      obtain ⟨value,hvalue,_⟩ := (h.index _ _).mp ho
      have hnone := hkey.symm.trans hvalue
      simp at hnone
    simp only [addObject,createdObject,ObjectState.carrier,hns,if_neg hunindexed,if_true,
      Option.some.injEq,Std.ExtTreeMap.getElem?_insert,Std.compare_eq_iff_eq]
  · intro o ho k hk
    obtain rfl := (ObjectState.carrier_eq_some.mp ho).2
    have hnone := hfresh.symm.trans hk
    simp at hnone
  · simp [createdObject,hns]
  · exact ⟨⟨block.height,tx⟩,by simp,rfl,rfl⟩
  · intro o ho
    obtain rfl := (ObjectState.carrier_eq_some.mp ho).2
    exact ⟨rfl,⟨block.height,tx⟩,by simp,rfl⟩
  · exact fun _ => rfl
  · exact fun hstatus => absurd rfl hstatus

/-- A transition keeps the identity of its object and moves it to output 1. -/
theorem Indexed.moved {i : ℕ} {object moved : ObjectState} (h : Indexed P binding placed state)
    (hdistinct : Distinct P binding (placed ++ [⟨block.height,tx⟩]))
    (hspend : (i,object) ∈ carrierSpends state tx) (hkey : moved.objectKey = object.objectKey)
    (hgenesis : moved.genesis = object.genesis) (hstatus : moved.status = object.status)
    (hterminal : moved.terminalTxid = object.terminalTxid)
    (houtpoint : moved.currentOutpoint = ⟨tx.txid,1⟩) :
    Indexed P binding (placed ++ [⟨block.height,tx⟩])
      (moveCarrier state object.currentOutpoint moved) := by
  obtain ⟨hobject,hactive,_,_⟩ := h.owner hspend
  have howned := Owned.of_spend h hspend
  have hfresh : state.active[(⟨tx.txid,1⟩ : OutPointRef)]? = none := h.outpoint_fresh hdistinct
  have hcarrier : moved.carrier = some ⟨tx.txid,1⟩ :=
    ObjectState.carrier_eq_some.mpr ⟨hstatus.trans hactive,houtpoint⟩
  refine h.write object.objectKey moved rfl ?_ ?_ ?_ hkey ?_ ?_ ?_ ?_
  · intro k
    simp only [moveCarrier,hkey,Std.ExtTreeMap.getElem?_insert,Std.compare_eq_iff_eq]
  · intro o
    simp only [moveCarrier,hkey,houtpoint,hcarrier,Option.some.injEq,Std.ExtTreeMap.getElem?_insert,
      Std.compare_eq_iff_eq,howned.getElem?_erase h]
  · intro o ho k hk
    obtain rfl := Option.some.inj (hcarrier.symm.trans ho)
    have hnone := hfresh.symm.trans hk
    simp at hnone
  · rw [hgenesis]
    exact h.mono.genesis _ _ hobject
  · intro o ho
    obtain rfl := Option.some.inj (hcarrier.symm.trans ho)
    exact ⟨rfl,⟨block.height,tx⟩,by simp,rfl⟩
  · exact fun _ => hterminal.trans (h.live _ _ hobject hactive)
  · exact fun hne => absurd (hstatus.trans hactive) hne

theorem Indexed.effect (h : Indexed P binding placed state)
    (hdistinct : Distinct P binding (placed ++ [⟨block.height,tx⟩]))
    (heffect : TxEffect P state block tx txIndex state' events) :
    Indexed P binding (placed ++ [⟨block.height,tx⟩]) state' := by
  cases heffect with
  | silent hcandidates hcarriers => exact h.mono
  | rejected eventIndex eventType reason ns hcandidates hcarriers => exact h.mono
  | created candidate marker keys initHeight hOpen hClose hcandidates hparse hcarriers hstatus haccepted =>
    exact h.created hdistinct
  | marked candidate marker object sequence commitment chapterCount hcandidates hparse hcarriers =>
    exact h.moved hdistinct (i := 0) (by simp [hcarriers]) rfl rfl rfl rfl rfl
  | rotated candidate marker object sequence keys hcandidates hparse hcarriers haccepted =>
    exact h.moved hdistinct (i := 0) (by simp [hcarriers]) rfl rfl rfl rfl rfl
  | closed candidate marker object sequence commitment hcandidates hparse hcarriers haccepted =>
    have hspend : (0,object) ∈ carrierSpends state tx := by simp [hcarriers]
    have howned := Owned.of_spend h hspend
    exact (h.terminates howned (closeObject_terminates state object sequence tx.txid)).mono
  | refunded object hcandidates hcarriers haccepted =>
    have hspend : (0,object) ∈ carrierSpends state tx := by simp [hcarriers]
    have howned := Owned.of_spend h hspend
    exact (h.terminates howned
      (terminateObject_terminates state object .refunded tx.txid (by simp))).mono
  | exited eventIndex reason ns carriers hnonempty hperm hsorted hlength =>
    refine (h.terminateAll ?_).mono
    intro spend hspend
    exact Owned.of_spend h (hperm.mem_iff.mp hspend)

theorem Reached.indexed {log : List Event} (h : Reached P binding placed log state)
    (hdistinct : Distinct P binding placed) : Indexed P binding placed state := by
  induction h with
  | fresh => exact .new
  | decided status _ _ ih => exact (ih hdistinct).congr rfl rfl rfl
  | processed block tx txIndex _ hcall ih =>
    exact (ih hdistinct.of_append).effect hdistinct (processTransaction_effect hcall)
  | passed more emitted _ _ ih => exact (ih hdistinct.of_append).mono
  | sealed tipHeight tipHash chainedRoot _ ih => exact (ih hdistinct).congr rfl rfl rfl

end Steps

/-- The tip is known exactly when the configured INIT has been decided. -/
def TipDecided (state : ChainState) : Prop :=
  (state.tipHeight.isSome ↔ state.tipHash.isSome) ∧
    (state.tipHash.isSome ↔ state.protocolStatus ≠ .awaitingInit)

theorem applyBlock_tipDecided {block : BlockView} {delta : BlockDelta}
    (h : applyBlock P state block = ok (state',.ok delta)) : TipDecided state' := by
  obtain ⟨_,_,reduced,events,hreduce,hseal⟩ := applyBlock_ok h
  obtain ⟨rfl,_⟩ := Prod.mk.inj hseal
  obtain ⟨status,hstatus,_,hreduced⟩ := hreduce.frame
  rw [hreduced]
  simp [TipDecided,hstatus]

theorem applyBlocks_tipDecided {blocks : List BlockView} {deltas : List BlockDelta}
    (h : TipDecided state) (hrun : applyBlocks P state blocks = some (state',deltas)) :
    TipDecided state' := by
  induction blocks generalizing state deltas with
  | nil =>
    simp only [applyBlocks,Option.some.injEq,Prod.mk.injEq] at hrun
    exact hrun.1 ▸ h
  | cons block rest ih =>
    obtain ⟨next,delta,tail,happly,hrest,_⟩ := applyBlocks_cons.mp hrun
    exact ih (applyBlock_tipDecided happly) hrest

/-- What a reducer state says about its carriers, objects and tip. -/
structure Represents (P : Primitives) (binding : Binding) (blocks : List BlockView)
    (state : ChainState) : Prop where
  active_iff : ∀ (outpoint : OutPointRef) (key : Hash32), state.active[outpoint]? = some key ↔
    ∃ object, state.objects[key]? = some object ∧ object.status = .active ∧
      object.currentOutpoint = outpoint
  active_injective : ∀ (outpoint other : OutPointRef) (key : Hash32),
    state.active[outpoint]? = some key → state.active[other]? = some key → outpoint = other
  active_onto : ∀ (key : Hash32) (object : ObjectState), state.objects[key]? = some object →
    (object.status = .active ↔ ∃ outpoint : OutPointRef, state.active[outpoint]? = some key)
  identity : ∀ (key : Hash32) (object : ObjectState), state.objects[key]? = some object →
    object.objectKey = key ∧ ∃ txid, object.genesis = ⟨txid,1⟩ ∧
      key = objectKey P (binding.namespace P) txid
  carrier : ∀ (outpoint : OutPointRef) (key : Hash32), state.active[outpoint]? = some key →
    outpoint.vout = 1 ∧ ∃ block ∈ blocks, ∃ tx ∈ block.transactions, tx.txid = outpoint.txid
  zero_inactive : state.active[OutPointRef.zero]? = none
  live : ∀ (key : Hash32) (object : ObjectState), state.objects[key]? = some object →
    object.status = .active → object.terminalTxid = Hash32.zero
  terminated : ∀ (key : Hash32) (object : ObjectState), state.objects[key]? = some object →
    object.status ≠ .active → object.currentOutpoint = .zero
  tip : TipDecided state

theorem mem_placedTransactions {blocks : List BlockView} {entry : Placed} :
    entry ∈ placedTransactions blocks ↔
      ∃ block ∈ blocks, entry.tx ∈ block.transactions ∧ entry.height = block.height := by
  simp only [placedTransactions,placedIn,List.mem_flatMap,List.mem_map]
  constructor
  · rintro ⟨block,hblock,tx,htx,rfl⟩
    exact ⟨block,hblock,htx,rfl⟩
  · rintro ⟨block,hblock,htx,hheight⟩
    exact ⟨block,hblock,entry.tx,htx,by rw [← hheight]⟩

/-- Every state reached by accepted blocks with distinct txids satisfies the invariant. -/
theorem applyBlocks_represents {blocks : List BlockView} {deltas : List BlockDelta}
    (hrun : applyBlocks P (ChainState.new P binding) blocks = some (state,deltas))
    (hdistinct : Distinct P binding (placedTransactions blocks)) :
    Represents P binding blocks state := by
  have h := (run_reached hrun).indexed hdistinct
  have hcarrier : ∀ (outpoint : OutPointRef) (key : Hash32), state.active[outpoint]? = some key →
      outpoint.vout = 1 ∧ ∃ block ∈ blocks, ∃ tx ∈ block.transactions, tx.txid = outpoint.txid := by
    intro outpoint key hactive
    obtain ⟨hvout,entry,hentry,htxid⟩ := h.carrier outpoint key hactive
    obtain ⟨block,hblock,htx,_⟩ := mem_placedTransactions.mp hentry
    exact ⟨hvout,block,hblock,entry.tx,htx,htxid⟩
  refine ⟨?_,fun _ _ _ => h.index.location_unique,?_,?_,hcarrier,?_,h.live,h.terminated,?_⟩
  · intro outpoint key
    simpa only [ObjectState.carrier_eq_some] using h.index outpoint key
  · intro key object hobject
    rw [← h.index.occupied_iff hobject]
    by_cases hstatus : object.status = .active <;> simp [ObjectState.carrier,hstatus]
  · intro key object hobject
    obtain ⟨entry,_,hgenesis,hkey⟩ := h.genesis key object hobject
    exact ⟨h.key_eq key object hobject,entry.tx.txid,hgenesis,hkey⟩
  · cases hzero : state.active[OutPointRef.zero]? with
    | none => rfl
    | some key =>
      have hvout := (hcarrier _ _ hzero).1
      simp [OutPointRef.zero] at hvout
  · exact applyBlocks_tipDecided (by simp [TipDecided,ChainState.new]) hrun

set_option maxRecDepth 10000 in
theorem sample_distinct : Distinct bitcoinPrimitives sampleBinding (placedTransactions sampleBlocks) := by
  rw [sampleBlocks_placed]
  exact .of_nodup (by decide +kernel) (by decide +kernel)

set_option maxRecDepth 10000 in
theorem pair_distinct : Distinct bitcoinPrimitives sampleBinding (placedTransactions
    (([initBlock] ++ emptyBlocks sampleHash 101 1007) ++ [pairBlock])) := by
  rw [pairBlock_placed]
  exact .of_nodup (by decide +kernel) (by decide +kernel)

theorem sample_represents : ∃ final deltas, applyBlocks bitcoinPrimitives
    (ChainState.new bitcoinPrimitives sampleBinding) sampleBlocks = some (final,deltas) ∧
      Represents bitcoinPrimitives sampleBinding sampleBlocks final := by
  obtain ⟨final,deltas,hrun,_⟩ := sampleBlocks_run
  exact ⟨final,deltas,hrun,applyBlocks_represents hrun sample_distinct⟩

end TandemVerifier
