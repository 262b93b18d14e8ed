import Mathlib.Data.List.Induction
import TandemVerifier.Reduction.Deployment
import TandemVerifier.Reduction.EventOrder

/-! # The chained root commits to the whole history

Every preimage starts with a tag and consists of fields of fixed width, so it
determines its fields; preimages of different kinds differ in length or in the tag.
Two runs with one chained root are compared from the last block backwards. The tree
that repeats an odd leaf is not injective on arbitrary lists, but a block emits
distinct events and no leaf is the digest of a node.
-/
namespace TandemVerifier
open Library Library.Outcome

section Encoding

theorem Binding.namespacePreimage_injective : Function.Injective Binding.namespacePreimage := by
  intro a b h
  have hh := flatten_inj_of_lengths (by simp) h
  simp only [List.cons.injEq,ByteVector.toList_inj,and_true,true_and] at hh
  obtain ⟨hnetwork,htxid,hspec⟩ := hh
  obtain ⟨an,at',as⟩ := a
  obtain ⟨bn,bt,bs⟩ := b
  simp only at hnetwork htxid hspec
  rw [Network.code_injective hnetwork,htxid,hspec]

theorem stateEmptyPreimage_injective : Function.Injective ChainState.stateEmptyPreimage := by
  intro a b h
  have hh := flatten_inj_of_lengths (by simp) h
  simpa using hh

theorem eventLeafPreimage_injective : Function.Injective eventLeafPreimage := by
  intro a b h
  have hh := flatten_inj_of_lengths (by simp) h
  simp only [List.cons.injEq,ByteVector.toList_inj,u64LeBytes_inj,u32LeBytes_inj,u16LeBytes_inj,
    OutPointRef.wireBytes_inj,EventType.code_injective.eq_iff,ValidityClass.code_injective.eq_iff,
    Reason.code_injective.eq_iff,and_true,true_and] at hh
  cases a
  cases b
  simp only [Event.mk.injEq]
  exact hh

theorem blockRootPreimage_inj {ns ns' previous previous' hash hash' : Hash32} {height height' : UInt64}
    {events events' objects objects' : Hash32} {counters counters' : Counters}
    (h : blockRootPreimage ns previous hash height events objects counters =
      blockRootPreimage ns' previous' hash' height' events' objects' counters') :
    ns = ns' ∧ previous = previous' ∧ hash = hash' ∧ height = height' ∧ events = events' ∧
      objects = objects' ∧ counters = counters' := by
  have hh := flatten_inj_of_lengths (by simp) h
  simp only [List.cons.injEq,ByteVector.toList_inj,u64LeBytes_inj,and_true,true_and] at hh
  obtain ⟨hns,hprevious,hhash,hheight,hevents,hobjects,hfounding,hall,hactive⟩ := hh
  cases counters
  cases counters'
  simp only at hfounding hall hactive
  subst hfounding hall hactive
  exact ⟨hns,hprevious,hhash,hheight,hevents,hobjects,rfl⟩

theorem stateEmptyPreimage_length (ns : Hash32) :
    (ChainState.stateEmptyPreimage ns).length = 51 := by
  simp [ChainState.stateEmptyPreimage,ascii]

theorem eventEmptyPreimage_length (ns : Hash32) : (eventEmptyPreimage ns).length = 51 := by
  simp [eventEmptyPreimage,ascii]

theorem eventLeafPreimage_length (event : Event) : (eventLeafPreimage event).length = 371 := by
  simp [eventLeafPreimage,ascii]

theorem eventNodePreimage_length (pair : Hash32 × Hash32) :
    (nodePreimage eventNodeDomain pair).length = 82 := by
  simp [nodePreimage,eventNodeDomain,ascii]

theorem blockRootPreimage_length (ns previous hash : Hash32) (height : UInt64)
    (events objects : Hash32) (counters : Counters) :
    (blockRootPreimage ns previous hash height events objects counters).length = 209 := by
  simp [blockRootPreimage,ascii]

end Encoding

variable (P : Primitives)

section Preimages

/-- The byte strings hashed to form the event root of a block. -/
def eventPreimages (ns : Hash32) (events : List Event) : List Bytes :=
  if events = [] then [eventEmptyPreimage ns]
  else (orderedEvents events).map eventLeafPreimage ++
    (Merkle.treePairs (merkleNode P eventNodeDomain) ((orderedEvents events).map (eventLeaf P))).map
      (nodePreimage eventNodeDomain)

def deltaPreimages (ns : Hash32) (delta : BlockDelta) : List Bytes :=
  blockRootPreimage ns delta.before.chainedRoot delta.blockHash delta.height delta.roots.eventRoot
    delta.roots.objectStateRoot delta.roots.counters :: eventPreimages P ns delta.events

/-- Byte strings hashed in a run: namespace, empty state, event trees and block roots. -/
def runPreimages (binding : Binding) (deltas : List BlockDelta) : List Bytes :=
  binding.namespacePreimage :: ChainState.stateEmptyPreimage (binding.namespace P) ::
    deltas.flatMap (deltaPreimages P (binding.namespace P))

end Preimages

section EventRoot
variable {P} {S : List Bytes} {ns : Hash32} {events events' : List Event}

theorem eq_of_sha256_eq (hS : ¬Collision P.sha256 S) {x y : Bytes} (hx : x ∈ S) (hy : y ∈ S)
    (h : P.sha256 x = P.sha256 y) : x = y :=
  (eq_or_collision hx hy h).resolve_right hS

/-- The event root of an ordered list, without the sort. -/
theorem eventRoot_of_ordered (h : events.Pairwise Event.PositionLt) : eventRoot P ns events =
    Merkle.digest P.sha256 (nodePreimage eventNodeDomain) (eventEmptyPreimage ns)
      (events.map eventLeafPreimage) := by
  by_cases hne : events = []
  · simp [eventRoot,Merkle.digest,hne]
  · have hleaves : events.map eventLeafPreimage ≠ [] := by simpa using hne
    rw [eventRoot,Merkle.digest,dif_neg hne,dif_neg hleaves,merkle]
    simp only [orderedEvents_eq h,List.map_map]
    rfl

theorem eventPreimages_of_ordered (h : events.Pairwise Event.PositionLt) : eventPreimages P ns events =
    Merkle.hashed P.sha256 (nodePreimage eventNodeDomain) (eventEmptyPreimage ns)
      (events.map eventLeafPreimage) := by
  by_cases hne : events = []
  · simp [eventPreimages,Merkle.hashed,hne]
  · have hleaves : events.map eventLeafPreimage ≠ [] := by simpa using hne
    rw [eventPreimages,Merkle.hashed,if_neg hne,if_neg hleaves,orderedEvents_eq h,List.map_map]
    rfl

/-- Without a collision the event root determines the emitted events. -/
theorem eventRoot_inj (hS : ¬Collision P.sha256 S) (h : events.Pairwise Event.PositionLt)
    (h' : events'.Pairwise Event.PositionLt) (hsub : eventPreimages P ns events ⊆ S)
    (hsub' : eventPreimages P ns events' ⊆ S)
    (hroot : eventRoot P ns events = eventRoot P ns events') : events = events' := by
  rw [eventRoot_of_ordered h,eventRoot_of_ordered h'] at hroot
  rw [eventPreimages_of_ordered h] at hsub
  rw [eventPreimages_of_ordered h'] at hsub'
  refine List.map_injective_iff.mpr eventLeafPreimage_injective (Merkle.digest_inj hS
    (nodePreimage_injective eventNodeDomain) ?_ ?_ hsub hsub' ?_ ?_ hroot)
  · exact List.Nodup.map eventLeafPreimage_injective (h.imp Event.PositionLt.ne)
  · exact List.Nodup.map eventLeafPreimage_injective (h'.imp Event.PositionLt.ne)
  · intro bytes hbytes
    rw [← List.map_append] at hbytes
    obtain ⟨event,_,rfl⟩ := List.mem_map.mp hbytes
    have hleaf := eventLeafPreimage_length event
    constructor
    · intro hsame
      rw [hsame,eventEmptyPreimage_length] at hleaf
      omega
    · intro pair hsame
      rw [← hsame,eventNodePreimage_length] at hleaf
      omega
  · intro pair hsame
    have hnode := eventNodePreimage_length pair
    rw [hsame,eventEmptyPreimage_length] at hnode
    omega

end EventRoot

/-- What the chained root says about one block. -/
def BlockDelta.committed (delta : BlockDelta) : Hash32 × UInt64 × List Event × Hash32 × Counters :=
  (delta.blockHash,delta.height,delta.events,delta.roots.objectStateRoot,delta.roots.counters)

section Backwards
variable {P} {S : List Bytes} {binding binding' : Binding} {state state' final final' : ChainState}
variable {blocks blocks' : List BlockView} {deltas deltas' : List BlockDelta}
variable {block block' : BlockView} {delta delta' : BlockDelta}

theorem new_binding_eq (hS : ¬Collision P.sha256 S) (hsub : runPreimages P binding deltas ⊆ S)
    (hsub' : runPreimages P binding' deltas' ⊆ S)
    (hroot : (ChainState.new P binding).chainedRoot = (ChainState.new P binding').chainedRoot) :
    binding = binding' := by
  have hns := stateEmptyPreimage_injective (eq_of_sha256_eq hS (hsub (by simp [runPreimages]))
    (hsub' (by simp [runPreimages])) hroot)
  exact Binding.namespacePreimage_injective (eq_of_sha256_eq hS (hsub (by simp [runPreimages]))
    (hsub' (by simp [runPreimages])) hns)

theorem runPreimages_concat : runPreimages P binding (deltas ++ [delta]) =
    runPreimages P binding deltas ++ deltaPreimages P (binding.namespace P) delta := by
  simp [runPreimages]

/-- The byte string whose digest is the chained root of an accepted block. -/
theorem applyBlock_chainedRoot (hbinding : state.binding = binding)
    (happly : applyBlock P state block = ok (final,.ok delta)) :
    ∃ preimage ∈ deltaPreimages P (binding.namespace P) delta,
      preimage = blockRootPreimage (binding.namespace P) state.chainedRoot block.hash block.height
        delta.roots.eventRoot delta.roots.objectStateRoot delta.roots.counters ∧
      final.chainedRoot = P.sha256 preimage := by
  obtain ⟨hbefore,hhash,_,hheight,_⟩ := applyBlock_delta happly
  obtain ⟨_,_,_,_,_,_,hroot⟩ := applyBlock_roots happly
  refine ⟨_,List.mem_cons_self,?_,?_⟩
  · rw [hbefore,hhash,hheight]
  · rw [hroot,hbefore,hhash,hheight,hbinding]
    rfl

/-- The root of a new state is not the root of a sealed block. -/
theorem new_root_ne (hS : ¬Collision P.sha256 S) (hempty : runPreimages P binding deltas ⊆ S)
    (hbinding : state.binding = binding')
    (happly : applyBlock P state block = ok (final,.ok delta))
    (hsub : deltaPreimages P (binding'.namespace P) delta ⊆ S) :
    (ChainState.new P binding).chainedRoot ≠ final.chainedRoot := by
  intro hroot
  obtain ⟨preimage,hmem,hpreimage,hdigest⟩ := applyBlock_chainedRoot hbinding happly
  have hsame := eq_of_sha256_eq hS (hempty (by simp [runPreimages])) (hsub hmem)
    (hroot.trans hdigest)
  have hlength := stateEmptyPreimage_length (binding.namespace P)
  rw [hsame,hpreimage,blockRootPreimage_length] at hlength
  omega

/-- Two sealed blocks with one root have equal predecessors and record the same. -/
theorem sealed_root_inj (hS : ¬Collision P.sha256 S) (hbinding : state.binding = binding)
    (hbinding' : state'.binding = binding')
    (happly : applyBlock P state block = ok (final,.ok delta))
    (happly' : applyBlock P state' block' = ok (final',.ok delta'))
    (hsub : deltaPreimages P (binding.namespace P) delta ⊆ S)
    (hsub' : deltaPreimages P (binding'.namespace P) delta' ⊆ S)
    (hroot : final.chainedRoot = final'.chainedRoot) :
    state.chainedRoot = state'.chainedRoot ∧ (block.hash,block.height) = (block'.hash,block'.height) ∧
      delta.committed = delta'.committed := by
  obtain ⟨preimage,hmem,hpreimage,hdigest⟩ := applyBlock_chainedRoot hbinding happly
  obtain ⟨preimage',hmem',hpreimage',hdigest'⟩ := applyBlock_chainedRoot hbinding' happly'
  have hsame := eq_of_sha256_eq hS (hsub hmem) (hsub' hmem')
    (hdigest.symm.trans (hroot.trans hdigest'))
  rw [hpreimage,hpreimage'] at hsame
  obtain ⟨hns,hprevious,hhash,hheight,hevents,hobjects,hcounters⟩ := blockRootPreimage_inj hsame
  have hdelta := applyBlock_delta happly
  have hdelta' := applyBlock_delta happly'
  have heventRoot := (applyBlock_roots happly).1
  have heventRoot' := (applyBlock_roots happly').1
  rw [hbinding] at heventRoot
  rw [hbinding',← hns] at heventRoot'
  have hsame : delta.events = delta'.events := by
    refine eventRoot_inj hS (applyBlock_ordered happly).1 (applyBlock_ordered happly').1
      (fun bytes hbytes => hsub (List.mem_cons_of_mem _ hbytes))
      (fun bytes hbytes => hsub' (List.mem_cons_of_mem _ (hns ▸ hbytes))) ?_
    rw [← heventRoot,← heventRoot',hevents]
  refine ⟨hprevious,by rw [hhash,hheight],?_⟩
  rw [BlockDelta.committed,BlockDelta.committed,hdelta.2.1,hdelta'.2.1,hdelta.2.2.2.1,
    hdelta'.2.2.2.1,hhash,hheight,hsame,hobjects,hcounters]

theorem run_root_inj (hS : ¬Collision P.sha256 S)
    (hrun : applyBlocks P (ChainState.new P binding) blocks = some (final,deltas))
    (hrun' : applyBlocks P (ChainState.new P binding') blocks' = some (final',deltas'))
    (hsub : runPreimages P binding deltas ⊆ S) (hsub' : runPreimages P binding' deltas' ⊆ S)
    (hroot : final.chainedRoot = final'.chainedRoot) :
    binding = binding' ∧
      blocks.map (fun block => (block.hash,block.height)) =
        blocks'.map (fun block => (block.hash,block.height)) ∧
      deltas.map BlockDelta.committed = deltas'.map BlockDelta.committed := by
  induction blocks using List.reverseRecOn generalizing blocks' final final' deltas deltas' with
  | nil =>
    obtain ⟨rfl,rfl⟩ : ChainState.new P binding = final ∧ [] = deltas := by
      simpa [applyBlocks] using hrun
    cases blocks' using List.reverseRecOn with
    | nil =>
      obtain ⟨rfl,rfl⟩ : ChainState.new P binding' = final' ∧ [] = deltas' := by
        simpa [applyBlocks] using hrun'
      exact ⟨new_binding_eq hS hsub hsub' hroot,rfl,rfl⟩
    | append_singleton earlier' block' =>
      obtain ⟨middle',first',delta',hfirst',happly',rfl⟩ := applyBlocks_concat.mp hrun'
      rw [runPreimages_concat] at hsub'
      exact absurd hroot (new_root_ne hS hsub (applyBlocks_binding hfirst') happly'
        fun bytes hbytes => hsub' (List.mem_append_right _ hbytes))
  | append_singleton earlier block ih =>
    obtain ⟨middle,first,delta,hfirst,happly,rfl⟩ := applyBlocks_concat.mp hrun
    rw [runPreimages_concat] at hsub
    have hdelta : deltaPreimages P (binding.namespace P) delta ⊆ S :=
      fun bytes hbytes => hsub (List.mem_append_right _ hbytes)
    cases blocks' using List.reverseRecOn with
    | nil =>
      obtain ⟨rfl,rfl⟩ : ChainState.new P binding' = final' ∧ [] = deltas' := by
        simpa [applyBlocks] using hrun'
      exact absurd hroot.symm
        (new_root_ne hS hsub' (applyBlocks_binding hfirst) happly hdelta)
    | append_singleton earlier' block' =>
      obtain ⟨middle',first',delta',hfirst',happly',rfl⟩ := applyBlocks_concat.mp hrun'
      rw [runPreimages_concat] at hsub'
      obtain ⟨hprevious,hblock,hcommitted⟩ := sealed_root_inj hS (applyBlocks_binding hfirst)
        (applyBlocks_binding hfirst') happly happly' hdelta
        (fun bytes hbytes => hsub' (List.mem_append_right _ hbytes)) hroot
      obtain ⟨hbinding,hblocks,hdeltas⟩ := ih hfirst hfirst'
        (fun bytes hbytes => hsub (List.mem_append_left _ hbytes))
        (fun bytes hbytes => hsub' (List.mem_append_left _ hbytes)) hprevious
      refine ⟨hbinding,?_,?_⟩
      · rw [List.map_append,List.map_append,hblocks]
        simpa using hblock
      · rw [List.map_append,List.map_append,hdeltas]
        simpa using hcommitted

end Backwards

/-- Runs with one chained root have one binding and one history, or exhibit a collision. -/
theorem chainedRoot_commits {binding binding' : Binding} {blocks blocks' : List BlockView}
    {final final' : ChainState} {deltas deltas' : List BlockDelta}
    (hrun : applyBlocks P (ChainState.new P binding) blocks = some (final,deltas))
    (hrun' : applyBlocks P (ChainState.new P binding') blocks' = some (final',deltas'))
    (hroot : final.chainedRoot = final'.chainedRoot) :
    (binding = binding' ∧ blocks.length = blocks'.length ∧
      blocks.map (fun block => (block.hash,block.height)) =
        blocks'.map (fun block => (block.hash,block.height)) ∧
      deltas.map BlockDelta.committed = deltas'.map BlockDelta.committed) ∨
    Collision P.sha256 (runPreimages P binding deltas ++ runPreimages P binding' deltas') := by
  by_cases hS : Collision P.sha256 (runPreimages P binding deltas ++ runPreimages P binding' deltas')
  · exact Or.inr hS
  · obtain ⟨hbinding,hblocks,hdeltas⟩ := run_root_inj hS hrun hrun' (List.subset_append_left _ _)
      (List.subset_append_right _ _) hroot
    have hlength := congrArg List.length hblocks
    simp only [List.length_map] at hlength
    exact Or.inl ⟨hbinding,hlength,hblocks,hdeltas⟩

/-- The sample and its padding, whose first blocks have different transactions. -/
theorem sample_chainedRoot : ∃ final deltas deltas',
    applyBlocks bitcoinPrimitives sampleNew sampleBlocks = some (final,deltas) ∧
    applyBlocks bitcoinPrimitives sampleNew paddedBlocks = some (final,deltas') ∧
    sampleBlocks.head?.map (fun block => block.transactions.length) = some 1 ∧
    paddedBlocks.head?.map (fun block => block.transactions.length) = some 2 ∧
    ((sampleBinding = sampleBinding ∧ sampleBlocks.length = paddedBlocks.length ∧
      sampleBlocks.map (fun block => (block.hash,block.height)) =
        paddedBlocks.map (fun block => (block.hash,block.height)) ∧
      deltas.map BlockDelta.committed = deltas'.map BlockDelta.committed) ∨
    Collision bitcoinPrimitives.sha256 (runPreimages bitcoinPrimitives sampleBinding deltas ++
      runPreimages bitcoinPrimitives sampleBinding deltas')) := by
  obtain ⟨final,deltas,hrun,_⟩ := sampleBlocks_run
  have hpadded : applyBlocks bitcoinPrimitives sampleNew paddedBlocks = some (final,deltas) :=
    (padded_run _).trans hrun
  exact ⟨final,deltas,deltas,hrun,hpadded,rfl,rfl,chainedRoot_commits bitcoinPrimitives hrun hpadded rfl⟩

end TandemVerifier
