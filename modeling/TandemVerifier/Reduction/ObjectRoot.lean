import TandemVerifier.Reduction.CarrierSpend
import TandemVerifier.Reduction.ChainedRoot
import TandemVerifier.Reduction.EventLog
import TandemVerifier.Reduction.Linkage

/-! # The object-state root separates reachable states

A leaf hashes neither the genesis of an object nor, depending on its status, its outpoint
or its terminal txid. In a reached state the object key determines the genesis up to a
collision, a living object has no terminal txid and an ended one no outpoint, so that the
leaf still determines the object. None of this needs distinct txids.
-/
namespace TandemVerifier
open Library Library.Outcome
variable {P : Primitives} {binding : Binding} {placed : List Placed} {log events : List Event}
variable {state state' : ChainState} {block : BlockView} {tx : TxView} {txIndex : UInt32}

/-- The fields of the stored objects that a leaf leaves out are determined by the others. -/
structure Stamped (P : Primitives) (binding : Binding) (state : ChainState) : Prop where
  binding_eq : state.binding = binding
  keyed : Keyed state
  genesis : ∀ (key : Hash32) (object : ObjectState), state.objects[key]? = some object →
    object.genesis.vout = 1 ∧ key = objectKey P (binding.namespace P) object.genesis.txid
  live : ∀ (key : Hash32) (object : ObjectState), state.objects[key]? = some object →
    object.status = .active → object.terminalTxid = Hash32.zero
  ended : ∀ (key : Hash32) (object : ObjectState), state.objects[key]? = some object →
    object.status ≠ .active → object.currentOutpoint = .zero
  carrier : ∀ (outpoint : OutPointRef) (key : Hash32), state.active[outpoint]? = some key →
    outpoint.vout = 1

section Steps

theorem Terminates.active_mem {object : ObjectState} {update : ObjectState → ObjectState}
    {outpoint : OutPointRef} {key : Hash32} (h : Terminates state object update state')
    (hactive : state'.active[outpoint]? = some key) : state.active[outpoint]? = some key := by
  rw [h.active_eq,Std.ExtTreeMap.getElem?_erase] at hactive
  split at hactive
  · simp at hactive
  · exact hactive

/-- A new entry of the active index is output 1 of the transaction. -/
theorem TxEffect.active_step {outpoint : OutPointRef} {key : Hash32}
    (h : TxEffect P state block tx txIndex state' events)
    (hactive : state'.active[outpoint]? = some key) :
    state.active[outpoint]? = some key ∨ outpoint = ⟨tx.txid,1⟩ := by
  have hmoved : ∀ object moved : ObjectState, moved.currentOutpoint = ⟨tx.txid,1⟩ →
      (moveCarrier state object.currentOutpoint moved).active[outpoint]? = some key →
      state.active[outpoint]? = some key ∨ outpoint = ⟨tx.txid,1⟩ := by
    intro object moved hmoved hactive
    simp only [moveCarrier,Std.ExtTreeMap.getElem?_insert,Std.ExtTreeMap.getElem?_erase,
      Std.compare_eq_iff_eq,hmoved] at hactive
    split at hactive
    · next hsame => exact Or.inr hsame.symm
    · split at hactive
      · simp at hactive
      · exact Or.inl hactive
  cases h with
  | silent hcandidates hcarriers => exact Or.inl hactive
  | rejected eventIndex eventType reason ns hcandidates hcarriers => exact Or.inl hactive
  | created candidate marker keys initHeight hOpen hClose hcandidates hparse hcarriers hstatus haccepted =>
    simp only [addObject,createdObject,Std.ExtTreeMap.getElem?_insert,Std.compare_eq_iff_eq] at hactive
    split at hactive
    · next hsame => exact Or.inr hsame.symm
    · exact Or.inl hactive
  | marked candidate marker object sequence commitment chapterCount hcandidates hparse hcarriers =>
    exact hmoved object _ rfl hactive
  | rotated candidate marker object sequence keys hcandidates hparse hcarriers haccepted =>
    exact hmoved object _ rfl hactive
  | closed candidate marker object sequence commitment hcandidates hparse hcarriers haccepted =>
    exact Or.inl ((closeObject_terminates state object sequence tx.txid).active_mem hactive)
  | refunded object hcandidates hcarriers haccepted =>
    exact Or.inl
      ((terminateObject_terminates state object .refunded tx.txid (by simp)).active_mem hactive)
  | exited eventIndex reason ns carriers hnonempty hperm hsorted hlength =>
    rw [terminateAll_active] at hactive
    split at hactive
    · simp at hactive
    · exact Or.inl hactive

/-- The object behind a validated transition is alive. -/
theorem Stamped.transition {marker : ParsedMarker} {input : InputView} {object : ObjectState}
    {sequence : UInt32} (h : Stamped P binding state) (hcarriers : carrierSpends state tx = [(0,object)])
    (hinput : tx.inputs[0]? = some input)
    (hshape : TransitionShape P marker (some (0,object)) input object sequence) :
    object.status = .active := by
  have hspend : (0,object) ∈ carrierSpends state tx := by simp [hcarriers]
  obtain ⟨other,key,hother,hactive,hobject⟩ := mem_carrierSpends.mp hspend
  obtain rfl : input = other := Option.some.inj (hinput.symm.trans hother)
  by_contra hended
  have hvout := h.carrier _ _ hactive
  rw [hshape.prevout,h.ended key object hobject hended] at hvout
  simp [OutPointRef.zero] at hvout

theorem Stamped.effect (h : Stamped P binding state)
    (heffect : TxEffect P state block tx txIndex state' events) : Stamped P binding state' := by
  have hframe : state'.binding = state.binding := by rw [heffect.frame]
  have hstored : ∀ owner, carrierSpends state tx = [(0,owner)] →
      state.objects[owner.objectKey]? = some owner := by
    intro owner hcarriers
    have hspend : (0,owner) ∈ carrierSpends state tx := by simp [hcarriers]
    exact h.keyed.spend hspend
  refine ⟨hframe.trans h.binding_eq,h.keyed.effect heffect,?_,?_,?_,?_⟩
  · intro key object hobject
    cases heffect.objectStep hobject with
    | kept hkept => exact h.genesis key object hkept
    | created marker keys initHeight hOpen hClose _ _ => exact ⟨rfl,by rw [h.binding_eq]; rfl⟩
    | marked marker owner sequence commitment chapterCount hcarriers _ _ =>
      exact h.genesis _ owner (hstored owner hcarriers)
    | rotated marker owner sequence keys hcarriers _ =>
      exact h.genesis _ owner (hstored owner hcarriers)
    | ended stored status sequence hstored _ _ => exact h.genesis key stored hstored
  · intro key object hobject hstatus
    cases heffect.objectStep hobject with
    | kept hkept => exact h.live key object hkept hstatus
    | created marker keys initHeight hOpen hClose _ _ => rfl
    | marked marker owner sequence commitment chapterCount hcarriers _ _ =>
      exact h.live _ owner (hstored owner hcarriers) hstatus
    | rotated marker owner sequence keys hcarriers _ => exact h.live _ owner (hstored owner hcarriers) hstatus
    | ended stored status sequence _ hended _ => exact absurd hstatus hended
  · intro key object hobject hstatus
    cases heffect.objectStep hobject with
    | kept hkept => exact h.ended key object hkept hstatus
    | created marker keys initHeight hOpen hClose _ _ => exact absurd rfl hstatus
    | marked marker owner sequence commitment chapterCount hcarriers _ haccepted =>
      obtain ⟨input,_,_,_,_,_,haccept⟩ := haccepted
      have hinput : tx.inputs[0]? = some input := by rw [haccept.inputs]; rfl
      exact absurd (h.transition hcarriers hinput haccept.toTransitionShape) hstatus
    | rotated marker owner sequence keys hcarriers haccepted =>
      obtain ⟨input,_,_,_,_,_,_,haccept⟩ := haccepted
      have hinput : tx.inputs[0]? = some input := by rw [haccept.inputs]; rfl
      exact absurd (h.transition hcarriers hinput haccept.toTransitionShape) hstatus
    | ended stored status sequence _ _ _ => rfl
  · intro outpoint key hactive
    rcases heffect.active_step hactive with hkept | rfl
    · exact h.carrier outpoint key hkept
    · rfl

theorem Reached.stamped (h : Reached P binding placed log state) : Stamped P binding state := by
  induction h with
  | fresh =>
    refine ⟨rfl,?_,?_,?_,?_,?_⟩
    all_goals simp [Keyed,ChainState.new]
  | decided status _ _ ih => exact ⟨ih.binding_eq,ih.keyed,ih.genesis,ih.live,ih.ended,ih.carrier⟩
  | processed block tx txIndex _ hcall ih => exact ih.effect (processTransaction_effect hcall)
  | passed more emitted _ _ ih => exact ih
  | sealed tipHeight tipHash chainedRoot _ ih =>
    exact ⟨ih.binding_eq,ih.keyed,ih.genesis,ih.live,ih.ended,ih.carrier⟩

end Steps

section Preimages

theorem ObjectStatus.code_injective : Function.Injective ObjectStatus.code := by
  intro a b h
  cases a <;> cases b <;> first | rfl | (simp [ObjectStatus.code] at h)

theorem objectKeyPreimage_inj {ns txid txid' : Hash32}
    (h : objectKeyPreimage ns txid = objectKeyPreimage ns txid') : txid = txid' := by
  have hh := flatten_inj_of_lengths (by simp) h
  simpa using hh

theorem objectStateLeafPreimage_length (object : ObjectState) :
    (objectStateLeafPreimage object).length = 204 := by
  simp [objectStateLeafPreimage,ascii]

theorem objectEmptyPreimage_length (ns : Hash32) : (objectEmptyPreimage ns).length = 52 := by
  simp [objectEmptyPreimage,ascii]

theorem objectNodePreimage_length (pair : Hash32 × Hash32) :
    (nodePreimage objectNodeDomain pair).length = 83 := by
  simp [nodePreimage,objectNodeDomain,ascii]

/-- The leaf determines every hashed field. -/
theorem objectStateLeafPreimage_inj {a b : ObjectState}
    (h : objectStateLeafPreimage a = objectStateLeafPreimage b) :
    a.objectKey = b.objectKey ∧ a.founding = b.founding ∧ a.status = b.status ∧
      a.createHeight = b.createHeight ∧ a.stateSeq = b.stateSeq ∧ a.keys = b.keys ∧
      a.chapterCount = b.chapterCount ∧
      (a.status = .active → a.currentOutpoint = b.currentOutpoint) ∧
      (a.status ≠ .active → a.terminalTxid = b.terminalTxid) := by
  have hh := flatten_inj_of_lengths (by simp) h
  simp only [List.cons.injEq,ByteVector.toList_inj,u64LeBytes_inj,u32LeBytes_inj,
    OutPointRef.wireBytes_inj,ObjectStatus.code_injective.eq_iff,and_true,true_and] at hh
  obtain ⟨hkey,hfounding,hstatus,hheight,hsequence,houtpoint,hkey0,hkey1,hterminal,hchapter⟩ := hh
  have hsame : a.founding = b.founding := by
    cases ha : a.founding <;> cases hb : b.founding <;> simp [ha,hb] at hfounding ⊢
  have hkeys : a.keys = b.keys := by
    cases ha : a.keys
    cases hb : b.keys
    simp only [ha,hb] at hkey0 hkey1
    rw [hkey0,hkey1]
  refine ⟨hkey,hsame,hstatus,hheight,hsequence,hkeys,hchapter,?_,?_⟩
  · intro hactive
    rwa [if_pos hactive,if_pos (hstatus ▸ hactive)] at houtpoint
  · intro hended
    rwa [if_neg hended,if_neg (hstatus ▸ hended)] at hterminal

/-- The byte strings hashed to form the root of the stored objects. -/
def objectRootPreimages (P : Primitives) (ns : Hash32) (objects : List ObjectState) : List Bytes :=
  if objects = [] then [objectEmptyPreimage ns]
  else objects.map objectStateLeafPreimage ++
    (Merkle.treePairs (merkleNode P objectNodeDomain) ((orderedLeaves P objects).map Prod.snd)).map
      (nodePreimage objectNodeDomain)

/-- Byte strings hashed for the object map of a state: the keys of its objects and its root. -/
def objectPreimages (P : Primitives) (ns : Hash32) (objects : List ObjectState) : List Bytes :=
  objects.map (fun object => objectKeyPreimage ns object.genesis.txid) ++ objectRootPreimages P ns objects

end Preimages

section Root
variable {S : List Bytes} {ns : Hash32}

theorem Keyed.toList_eq (h : Keyed state) :
    state.objects.toList = state.objectValues.map fun object => (object.objectKey,object) := by
  have hentry : ∀ entry ∈ state.objects.toList, (entry.2.objectKey,entry.2) = entry := by
    rintro ⟨key,object⟩ hmem
    rw [h key object (Std.ExtTreeMap.mem_toList_iff_getElem?_eq_some.mp hmem)]
  rw [ChainState.objectValues,List.map_map]
  exact ((List.map_congr_left hentry).trans (List.map_id' _)).symm

/-- The stored objects are listed by increasing key. -/
theorem Keyed.objectValues_sorted (h : Keyed state) :
    state.objectValues.Pairwise fun a b => compare a.objectKey b.objectKey = .lt := by
  have hsorted := Std.ExtTreeMap.ordered_keys_toList (t := state.objects)
  rw [h.toList_eq,List.pairwise_map] at hsorted
  exact hsorted

theorem Keyed.orderedLeaves_eq (h : Keyed state) : orderedLeaves P state.objectValues =
    state.objectValues.map fun object => (object.objectKey,objectStateLeaf P object) := by
  apply List.Pairwise.insertionSort_eq
  rw [List.pairwise_map]
  apply h.objectValues_sorted.imp
  intro a b hlt
  rw [KeyLe,hlt]
  rfl

theorem Keyed.objectStateRoot_eq (h : Keyed state) : objectStateRoot P ns state.objectValues =
    Merkle.digest P.sha256 (nodePreimage objectNodeDomain) (objectEmptyPreimage ns)
      (state.objectValues.map objectStateLeafPreimage) := by
  by_cases hne : state.objectValues = []
  · simp [objectStateRoot,Merkle.digest,hne]
  · have hleaves : state.objectValues.map objectStateLeafPreimage ≠ [] := by simpa using hne
    rw [objectStateRoot,Merkle.digest,dif_neg hne,dif_neg hleaves,merkle]
    simp only [h.orderedLeaves_eq,List.map_map]
    rfl

theorem Keyed.objectRootPreimages_eq (h : Keyed state) : objectRootPreimages P ns state.objectValues =
    Merkle.hashed P.sha256 (nodePreimage objectNodeDomain) (objectEmptyPreimage ns)
      (state.objectValues.map objectStateLeafPreimage) := by
  by_cases hne : state.objectValues = []
  · simp [objectRootPreimages,Merkle.hashed,hne]
  · have hleaves : state.objectValues.map objectStateLeafPreimage ≠ [] := by simpa using hne
    rw [objectRootPreimages,Merkle.hashed,if_neg hne,if_neg hleaves,h.orderedLeaves_eq,List.map_map,
      List.map_map]
    rfl

theorem Keyed.leaves_nodup (h : Keyed state) :
    (state.objectValues.map objectStateLeafPreimage).Nodup := by
  rw [List.Nodup,List.pairwise_map]
  apply h.objectValues_sorted.imp
  intro a b hlt hsame
  rw [(objectStateLeafPreimage_inj hsame).1] at hlt
  simp at hlt

theorem Stamped.mem_objectValues (h : Stamped P binding state) {object : ObjectState}
    (hobject : object ∈ state.objectValues) : state.objects[object.objectKey]? = some object := by
  rw [ChainState.objectValues] at hobject
  obtain ⟨⟨key,_⟩,hmem,rfl⟩ := List.mem_map.mp hobject
  have hstored := Std.ExtTreeMap.mem_toList_iff_getElem?_eq_some.mp hmem
  rw [h.keyed key _ hstored]
  exact hstored

/-- Equal roots have equal leaves when nothing hashed for them collides. -/
theorem Keyed.leaves_eq {ns : Hash32} (h : Keyed state) (h' : Keyed state') (hS : ¬Collision P.sha256 S)
    (hmem : ∀ bytes ∈ objectRootPreimages P ns state.objectValues, bytes ∈ S)
    (hmem' : ∀ bytes ∈ objectRootPreimages P ns state'.objectValues, bytes ∈ S)
    (hroot : objectStateRoot P ns state.objectValues = objectStateRoot P ns state'.objectValues) :
    state.objectValues.map objectStateLeafPreimage = state'.objectValues.map objectStateLeafPreimage := by
  rw [h.objectStateRoot_eq,h'.objectStateRoot_eq] at hroot
  rw [h.objectRootPreimages_eq] at hmem
  rw [h'.objectRootPreimages_eq] at hmem'
  refine Merkle.digest_inj hS (nodePreimage_injective objectNodeDomain) h.leaves_nodup h'.leaves_nodup
    hmem hmem' ?_ ?_ hroot
  · intro bytes hbytes
    rw [← List.map_append] at hbytes
    obtain ⟨object,_,rfl⟩ := List.mem_map.mp hbytes
    have hleaf := objectStateLeafPreimage_length object
    constructor
    · intro hsame
      rw [hsame,objectEmptyPreimage_length] at hleaf
      omega
    · intro pair hsame
      rw [← hsame,objectNodePreimage_length] at hleaf
      omega
  · intro pair hsame
    have hnode := objectNodePreimage_length pair
    rw [hsame,objectEmptyPreimage_length] at hnode
    omega

/-- Objects of two reached states with one leaf are equal, unless object keys collide. -/
theorem Stamped.leaf_inj {a b : ObjectState} (h : Stamped P binding state) (h' : Stamped P binding state')
    (hS : ¬Collision P.sha256 S) (ha : a ∈ state.objectValues) (hb : b ∈ state'.objectValues)
    (hkey : objectKeyPreimage (binding.namespace P) a.genesis.txid ∈ S)
    (hkey' : objectKeyPreimage (binding.namespace P) b.genesis.txid ∈ S)
    (hleaf : objectStateLeafPreimage a = objectStateLeafPreimage b) : a = b := by
  have hstored := h.mem_objectValues ha
  have hstored' := h'.mem_objectValues hb
  obtain ⟨hsame,hfounding,hstatus,hheight,hsequence,hkeys,hchapter,hcurrent,hterminal⟩ :=
    objectStateLeafPreimage_inj hleaf
  obtain ⟨hvout,hgenesis⟩ := h.genesis _ a hstored
  obtain ⟨hvout',hgenesis'⟩ := h'.genesis _ b hstored'
  have hdigest : objectKey P (binding.namespace P) a.genesis.txid =
      objectKey P (binding.namespace P) b.genesis.txid := by
    rw [← hgenesis,← hgenesis',hsame]
  have htxid := objectKeyPreimage_inj (eq_of_sha256_eq hS hkey hkey' hdigest)
  have horigin : a.genesis = b.genesis := by
    cases hg : a.genesis
    cases hg' : b.genesis
    simp only [hg,hg'] at htxid hvout hvout'
    rw [htxid,hvout,hvout']
  have houtpoint : a.currentOutpoint = b.currentOutpoint := by
    by_cases hactive : a.status = .active
    · exact hcurrent hactive
    · rw [h.ended _ a hstored hactive,h'.ended _ b hstored' (hstatus ▸ hactive)]
  have hend : a.terminalTxid = b.terminalTxid := by
    by_cases hactive : a.status = .active
    · rw [h.live _ a hstored hactive,h'.live _ b hstored' (hstatus ▸ hactive)]
    · exact hterminal hactive
  cases a
  cases b
  simp only at hsame hfounding hstatus hheight hsequence hkeys hchapter horigin houtpoint hend
  simp only [hsame,hfounding,hstatus,hheight,hsequence,hkeys,hchapter,horigin,houtpoint,hend]

end Root

/-- Two reached states of one binding with one object-state root have equal object maps, or two
distinct byte strings hashed for their object keys, leaves, nodes or empty roots collide. -/
theorem objectStateRoot_separates {blocks blocks' : List BlockView} {final final' : ChainState}
    {deltas deltas' : List BlockDelta}
    (hrun : applyBlocks P (ChainState.new P binding) blocks = some (final,deltas))
    (hrun' : applyBlocks P (ChainState.new P binding) blocks' = some (final',deltas'))
    (hroot : objectStateRoot P (binding.namespace P) final.objectValues =
      objectStateRoot P (binding.namespace P) final'.objectValues) :
    final.objects = final'.objects ∨
    Collision P.sha256 (objectPreimages P (binding.namespace P) final.objectValues ++
      objectPreimages P (binding.namespace P) final'.objectValues) := by
  have h := (run_reached hrun).stamped
  have h' := (run_reached hrun').stamped
  by_cases hS : Collision P.sha256 (objectPreimages P (binding.namespace P) final.objectValues ++
      objectPreimages P (binding.namespace P) final'.objectValues)
  · exact Or.inr hS
  refine Or.inl ?_
  have hleaves := h.keyed.leaves_eq h'.keyed hS
    (fun _ hbytes => List.mem_append_left _ (List.mem_append_right _ hbytes))
    (fun _ hbytes => List.mem_append_right _ (List.mem_append_right _ hbytes)) hroot
  have hvalues : final.objectValues = final'.objectValues := by
    refine map_inj_on ?_ hleaves
    intro a ha b hb hleaf
    refine h.leaf_inj h' hS ha hb ?_ ?_ hleaf
    · exact List.mem_append_left _ (List.mem_append_left _ (List.mem_map.mpr ⟨a,ha,rfl⟩))
    · exact List.mem_append_right _ (List.mem_append_left _ (List.mem_map.mpr ⟨b,hb,rfl⟩))
  apply Std.ExtTreeMap.ext_toList
  rw [h.keyed.toList_eq,h'.keyed.toList_eq,hvalues]

/-- The sample run, and the same run with one more empty block, have one root. -/
theorem sample_separates : ∃ final deltas final' deltas',
    applyBlocks bitcoinPrimitives sampleNew sampleBlocks = some (final,deltas) ∧
      applyBlocks bitcoinPrimitives sampleNew (sampleBlocks ++ emptyBlocks sampleHash 1110 1) =
        some (final',deltas') ∧
      (final.objects = final'.objects ∨ Collision bitcoinPrimitives.sha256
        (objectPreimages bitcoinPrimitives (sampleBinding.namespace bitcoinPrimitives) final.objectValues ++
          objectPreimages bitcoinPrimitives (sampleBinding.namespace bitcoinPrimitives)
            final'.objectValues)) := by
  obtain ⟨final,deltas,hrun,hstatus,_⟩ := sampleBlocks_run
  obtain ⟨hheight,hhash⟩ := applyBlocks_tip hrun
  have hlast : sampleBlocks.getLast? = some rotateBlock := by
    rw [sampleBlocks,List.getLast?_append]
    rfl
  rw [hlast] at hheight hhash
  have hdecided : final.protocolStatus ≠ .awaitingInit := by
    rw [hstatus]
    simp
  have htip : final.tipHeight = some (UInt64.ofNat 1109) := hheight
  have htipHash : final.tipHash = some (sampleHash 1109) := hhash
  obtain ⟨empty,hempty,_⟩ := applyBlocks_empty (P := bitcoinPrimitives) hdecided htip htipHash 1 (by decide)
  have hlonger := applyBlocks_append.mpr ⟨final,deltas,empty,hrun,hempty,rfl⟩
  exact ⟨final,deltas,_,_,hrun,hlonger,objectStateRoot_separates hrun hlonger rfl⟩

end TandemVerifier
