import TandemVerifier.Core.Types
import TandemVerifier.Library.MerkleTree
import Mathlib.Data.List.Sort

/-! # Canonical event, object and chained roots

Each digest is SHA256 of a named preimage: a domain tag followed by fields of fixed
width. The preimages are definitions of their own, so that a statement about
collisions can name exactly the byte strings that are hashed.
-/
namespace TandemVerifier
open Library

section Preimages

def eventLeafPreimage (event : Event) : Bytes :=
  [ascii ['T','A','N','D','E','M','/','E','V','E','N','T'] ++ [0],
    event.ns.toList,event.blockHash.toList,u64LeBytes event.height,u32LeBytes event.txIndex,
    u32LeBytes event.eventIndex,u32LeBytes event.subIndex,[event.eventType.code],
    [event.validityClass.code],u16LeBytes event.reason.code,event.txid.toList,event.wtxid.toList,
    event.objectKey.toList,u32LeBytes event.stateSeq,event.predecessor.wireBytes,
    event.successor.wireBytes,event.key0.toList,event.key1.toList,event.commitment.toList].flatten

def eventEmptyPreimage (ns : Hash32) : Bytes :=
  [ascii ['T','A','N','D','E','M','/','E','V','E','N','T','-','E','M','P','T','Y'] ++ [0],ns.toList].flatten

def objectStateLeafPreimage (object : ObjectState) : Bytes :=
  let activeOutpoint := if object.status = .active then object.currentOutpoint else .zero
  let terminalTxid := if object.status = .active then Hash32.zero else object.terminalTxid
  [ascii ['T','A','N','D','E','M','/','O','B','J','E','C','T','-','S','T','A','T','E'] ++ [0],
    object.objectKey.toList,[if object.founding then 1 else 0],[object.status.code],
    u64LeBytes object.createHeight,u32LeBytes object.stateSeq,activeOutpoint.wireBytes,
    object.keys.key0.toList,object.keys.key1.toList,terminalTxid.toList,
    u32LeBytes object.chapterCount].flatten

def objectEmptyPreimage (ns : Hash32) : Bytes :=
  [ascii ['T','A','N','D','E','M','/','O','B','J','E','C','T','-','E','M','P','T','Y'] ++ [0],
    ns.toList].flatten

def blockRootPreimage (ns previousRoot blockHash : Hash32) (height : UInt64)
    (eventRoot objectStateRoot : Hash32) (counters : Counters) : Bytes :=
  [ascii ['T','A','N','D','E','M','/','B','L','O','C','K','R','O','O','T'] ++ [0],
    ns.toList,previousRoot.toList,blockHash.toList,u64LeBytes height,eventRoot.toList,
    objectStateRoot.toList,u64LeBytes counters.foundingCreated,u64LeBytes counters.allObjects,
    u64LeBytes counters.activeObjects].flatten

def eventNodeDomain : Bytes :=
  ascii ['T','A','N','D','E','M','/','E','V','E','N','T','-','N','O','D','E'] ++ [0]

def objectNodeDomain : Bytes :=
  ascii ['T','A','N','D','E','M','/','O','B','J','E','C','T','-','N','O','D','E'] ++ [0]

def nodePreimage (domain : Bytes) (pair : Hash32 × Hash32) : Bytes :=
  [domain,pair.1.toList,pair.2.toList].flatten

end Preimages

variable (P : Primitives)

def merkleNode (domain : Bytes) (pair : Hash32 × Hash32) : Hash32 :=
  P.sha256 (nodePreimage domain pair)

/-- The Merkle root of a nonempty list of leaves. -/
def merkle (leaves : List Hash32) (nonempty : leaves ≠ []) (domain : Bytes) : Hash32 :=
  Merkle.root (merkleNode P domain) leaves nonempty

def eventLeaf (event : Event) : Hash32 := P.sha256 (eventLeafPreimage event)

/-- Comparison of the sort key: transaction index, event index, sub-index. -/
def Event.comparePosition : Event → Event → Ordering :=
  compareLex (compareOn txIndex) (compareLex (compareOn eventIndex) (compareOn subIndex))

def Event.PositionLe (a b : Event) : Prop := (a.comparePosition b).isLE = true

instance : DecidableRel Event.PositionLe := fun a b =>
  inferInstanceAs (Decidable ((a.comparePosition b).isLE = true))

/-- Events in canonical order; the sort is stable. -/
def orderedEvents (events : List Event) : List Event := events.insertionSort Event.PositionLe

theorem orderedEvents_ne_nil {events : List Event} (h : events ≠ []) : orderedEvents events ≠ [] := by
  intro he
  exact h (List.Perm.nil_eq (he ▸ List.perm_insertionSort Event.PositionLe events)).symm

def eventRoot (ns : Hash32) (events : List Event) : Hash32 :=
  if h : events = [] then P.sha256 (eventEmptyPreimage ns)
  else merkle P ((orderedEvents events).map (eventLeaf P))
    (by simpa using orderedEvents_ne_nil h) eventNodeDomain

def objectStateLeaf (object : ObjectState) : Hash32 := P.sha256 (objectStateLeafPreimage object)

def KeyLe (a b : Hash32 × Hash32) : Prop := (compare a.1 b.1).isLE = true

instance : DecidableRel KeyLe := fun a b => inferInstanceAs (Decidable ((compare a.1 b.1).isLE = true))

/-- Snapshot leaves ordered by binary object key. -/
def orderedLeaves (objects : List ObjectState) : List (Hash32 × Hash32) :=
  (objects.map fun object => (object.objectKey,objectStateLeaf P object)).insertionSort KeyLe

theorem orderedLeaves_ne_nil {objects : List ObjectState} (h : objects ≠ []) :
    orderedLeaves P objects ≠ [] := by
  intro he
  have hp := List.perm_insertionSort KeyLe
    (objects.map fun object => (object.objectKey,objectStateLeaf P object))
  change (orderedLeaves P objects).Perm _ at hp
  rw [he] at hp
  exact h (List.map_eq_nil_iff.mp hp.nil_eq.symm)

def objectStateRoot (ns : Hash32) (objects : List ObjectState) : Hash32 :=
  if h : objects = [] then P.sha256 (objectEmptyPreimage ns)
  else merkle P ((orderedLeaves P objects).map Prod.snd)
    (by simpa using orderedLeaves_ne_nil P h) objectNodeDomain

def blockRoot (ns previousRoot blockHash : Hash32) (height : UInt64)
    (eventRoot objectStateRoot : Hash32) (counters : Counters) : Hash32 :=
  P.sha256 (blockRootPreimage ns previousRoot blockHash height eventRoot objectStateRoot counters)

section Binding
variable {P}

theorem nodePreimage_injective (domain : Bytes) : Function.Injective (nodePreimage domain) := by
  intro a b h
  have hh := flatten_inj_of_lengths (by simp) h
  simp only [List.cons.injEq,ByteVector.toList_inj,and_true,true_and] at hh
  exact Prod.ext hh.1 hh.2

/-- A root binds distinct leaves that are no node digests, in trees of any two depths: the loop
ends, and lists of one root are equal or two distinct node preimages collide. -/
theorem merkle_binding (domain : Bytes) {leaves leaves' : List Hash32} (hne : leaves ≠ [])
    (hne' : leaves' ≠ []) (hdistinct : leaves.Nodup) (hdistinct' : leaves'.Nodup)
    (hleaf : ∀ leaf ∈ leaves ++ leaves', ∀ pair ∈ Merkle.treePairs (merkleNode P domain) leaves ++
      Merkle.treePairs (merkleNode P domain) leaves', merkleNode P domain pair ≠ leaf) :
    Merkle.LoopReaches (merkleNode P domain) leaves [merkle P leaves hne domain] ∧
    Merkle.LoopReaches (merkleNode P domain) leaves' [merkle P leaves' hne' domain] ∧
    (merkle P leaves hne domain = merkle P leaves' hne' domain →
      leaves = leaves' ∨ Collision P.sha256 ((Merkle.treePairs (merkleNode P domain) leaves ++
        Merkle.treePairs (merkleNode P domain) leaves').map (nodePreimage domain))) := by
  refine ⟨Merkle.loopReaches_root _ leaves hne,Merkle.loopReaches_root _ leaves' hne',?_⟩
  intro hroot
  rcases Merkle.root_binding hne hne' hdistinct hdistinct' hleaf hroot with hsame | hcollision
  · exact Or.inl hsame
  · exact Or.inr (hcollision.of_map (nodePreimage_injective domain))

/-- Three leaves against one: the trees have depths two and zero. -/
theorem merkle_binding_three :
    let leaf := fun byte => bitcoinPrimitives.sha256 [byte]
    let node := merkleNode bitcoinPrimitives eventNodeDomain
    Merkle.LoopReaches node [leaf 0,leaf 1,leaf 2]
      [merkle bitcoinPrimitives [leaf 0,leaf 1,leaf 2] (List.cons_ne_nil _ _) eventNodeDomain] ∧
    Merkle.LoopReaches node [leaf 3]
      [merkle bitcoinPrimitives [leaf 3] (List.cons_ne_nil _ _) eventNodeDomain] ∧
    (merkle bitcoinPrimitives [leaf 0,leaf 1,leaf 2] (List.cons_ne_nil _ _) eventNodeDomain =
        merkle bitcoinPrimitives [leaf 3] (List.cons_ne_nil _ _) eventNodeDomain →
      [leaf 0,leaf 1,leaf 2] = [leaf 3] ∨ Collision bitcoinPrimitives.sha256
        ((Merkle.treePairs node [leaf 0,leaf 1,leaf 2] ++ Merkle.treePairs node [leaf 3]).map
          (nodePreimage eventNodeDomain))) :=
  merkle_binding eventNodeDomain (List.cons_ne_nil _ _) (List.cons_ne_nil _ _) (by decide +kernel)
    (by decide +kernel) (by decide +kernel)

end Binding

end TandemVerifier
