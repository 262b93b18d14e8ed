import TandemVerifier.Core.Persistence

/-! # Merkle checks of the golden vectors

The checks of `tandem-cli/src/main.rs` on the leaves and the levels that a fixture publishes.
The first hashes every published leaf. The second compares adjacent levels and takes
the first hash of the last one; it never sees the leaves, and no level is required to have
a particular width. A fixture whose levels start at the leaves and narrow to one hash only
at the end is therefore checked as `merkle` would compute it, and no other one is.
-/
namespace TandemVerifier
open Library Library.Outcome

inductive VectorError where
  | missingRootLeaves
  | missingPreimage
  | invalidPreimage (error : Hex.Error)
  | expectedHexadecimalHash
  | invalidHash (error : Hex.Error)
  | leafDigestMismatch
  | missingMerkleLevels
  | emptyMerkleLevelList
  | expectedHashArray
  | emptyChildLevel
  | merkleLevelWidthMismatch
  | merkleParentMismatch
  | missingRootLevel
  | rootLevelIsEmpty
  | reportedMerkleRootMismatch
deriving DecidableEq

section Checks
variable (P : Primitives)

def parseJsonHash (value : Json) : Outcome VectorError Hash32 := do
  let text ← okOr value.asStr .expectedHexadecimalHash
  ofExcept .invalidHash (Hash32.fromHex text)

def parseHashArray (value : Json) : Outcome VectorError (List Hash32) := do
  let items ← okOr value.asArray .expectedHashArray
  collect parseJsonHash items

def verifyPreimageLeaf (leaf : Json) : Outcome VectorError Unit := do
  let text ← okOr (leaf.field "preimageHex").asStr .missingPreimage
  let preimage ← ofExcept .invalidPreimage (Hex.decode text)
  let expected ← parseJsonHash (leaf.field "leafHex")
  failIf (P.sha256 preimage != expected) .leafDigestMismatch

/-- Every published leaf is the digest of its preimage; the result is their number. -/
def verifyPreimageLeaves (value : Json) : Outcome VectorError ℕ := do
  let leaves ← okOr value.asArray .missingRootLeaves
  let _ ← collect (verifyPreimageLeaf P) leaves
  pure leaves.length

/-- The digests of child pairs against the parents, from an index on. -/
def verifyParents (domain : Bytes) (parents : List Hash32) :
    ℕ → List (Hash32 × Hash32) → Outcome VectorError Unit
  | _,[] => pure ()
  | position,childPair :: rest => do
    let parent ← index parents position
    failIf (merkleNode P domain childPair != parent) .merkleParentMismatch
    verifyParents domain parents (position + 1) rest

/-- An odd level with its last hash repeated. -/
def pushLast (children : List Hash32) : Outcome VectorError (List Hash32) :=
  if children.length % 2 = 1 then do
    let last ← okOr children.getLast? .emptyChildLevel
    pure (children ++ [last])
  else pure children

/-- One window of two adjacent levels. -/
def verifyLevelPair (domain : Bytes) (below above : Json) : Outcome VectorError Unit := do
  let children ← parseHashArray below
  let parents ← parseHashArray above
  let children ← pushLast children
  failIf (parents.length != children.length / 2) .merkleLevelWidthMismatch
  verifyParents P domain parents 0 (Merkle.chunkPairs children)

def verifyWindows (domain : Bytes) : List Json → Outcome VectorError Unit
  | below :: above :: rest => do
    verifyLevelPair P domain below above
    verifyWindows domain (above :: rest)
  | _ => pure ()

def verifyMerkleLevels (value : Json) (domain : Bytes) (expectedRoot : Hash32) :
    Outcome VectorError Hash32 := do
  let levels ← okOr value.asArray .missingMerkleLevels
  failIf levels.isEmpty .emptyMerkleLevelList
  verifyWindows P domain levels
  let rootLevel ← okOr levels.getLast? .missingRootLevel
  let hashes ← parseHashArray rootLevel
  let root ← okOr hashes.head? .rootLevelIsEmpty
  failIf (root != expectedRoot) .reportedMerkleRootMismatch
  pure root

end Checks

section Published

/-- The `leafHex` values of a list of leaves, in order. -/
def publishedLeaves (value : Json) : Outcome VectorError (List Hash32) := do
  let leaves ← okOr value.asArray .missingRootLeaves
  collect (fun leaf => parseJsonHash (leaf.field "leafHex")) leaves

/-- The hashes of every published level. -/
def publishedLevels (value : Json) : Outcome VectorError (List (List Hash32)) := do
  let levels ← okOr value.asArray .missingMerkleLevels
  collect parseHashArray levels

/-- The lowest level is the list of leaves, the last one has one hash and each other one more. -/
def LevelsNarrow (leaves : List Hash32) (levels : List (List Hash32)) : Prop :=
  levels.head? = some leaves ∧ (∀ level ∈ levels.dropLast, 1 < level.length) ∧
    ∀ last ∈ levels.getLast?, last.length = 1

end Published

section Windows
variable {P : Primitives} {domain : Bytes}

theorem verifyParents_ok {parents : List Hash32} {position : ℕ} {pairs : List (Hash32 × Hash32)} :
    verifyParents P domain parents position pairs = ok () ↔
      pairs.map (merkleNode P domain) <+: parents.drop position := by
  induction pairs generalizing position with
  | nil => simp [verifyParents]
  | cons pair rest ih =>
    cases hparent : parents[position]? with
    | none =>
      have hdrop : parents.drop position = [] := List.drop_eq_nil_of_le (List.getElem?_eq_none_iff.mp hparent)
      simp [verifyParents,index,hparent,expect,hdrop]
    | some parent =>
      obtain ⟨hlt,rfl⟩ := List.getElem?_eq_some_iff.mp hparent
      rw [List.drop_eq_getElem_cons hlt,List.map_cons,List.cons_prefix_cons,← ih,verifyParents]
      simp [bind_eq_ok,hparent]

theorem pushLast_eq (children : List Hash32) : pushLast children = ok (Merkle.padOdd children) := by
  unfold pushLast Merkle.padOdd
  split
  · next hodd =>
    have hne : children ≠ [] := by
      rintro rfl
      simp at hodd
    rw [List.getLast?_eq_some_getLast hne]
    rfl
  · rfl

/-- The width check leaves no parent without its pair of children. -/
theorem verifyParents_level {children parents : List Hash32} :
    (do failIf (parents.length != (Merkle.padOdd children).length / 2) .merkleLevelWidthMismatch
        verifyParents P domain parents 0 (Merkle.chunkPairs (Merkle.padOdd children))) = ok () ↔
      parents = Merkle.level (merkleNode P domain) children := by
  have hwidth : (Merkle.padOdd children).length / 2 = (Merkle.level (merkleNode P domain) children).length := by
    rw [Merkle.level_length,Merkle.padOdd_length]
    omega
  rw [bind_eq_ok]
  constructor
  · rintro ⟨_,hfail,hparents⟩
    rw [failIf_eq_ok,hwidth,bne_eq_false_iff_eq] at hfail
    rw [verifyParents_ok,List.drop_zero] at hparents
    exact (hparents.eq_of_length hfail.symm).symm
  · rintro rfl
    refine ⟨(),by rw [failIf_eq_ok,hwidth,bne_self_eq_false],?_⟩
    rw [verifyParents_ok,List.drop_zero]
    exact List.prefix_rfl

/-- A window passes exactly when the level above is computed from the level below. -/
theorem verifyLevelPair_ok {below above : Json} : verifyLevelPair P domain below above = ok () ↔
    ∃ children, parseHashArray below = ok children ∧
      parseHashArray above = ok (Merkle.level (merkleNode P domain) children) := by
  rw [verifyLevelPair,bind_eq_ok]
  refine exists_congr fun children => and_congr_right fun _ => ?_
  rw [bind_eq_ok]
  constructor
  · rintro ⟨parents,hparents,hrest⟩
    rw [pushLast_eq,ok_bind,verifyParents_level] at hrest
    rw [hparents,hrest]
  · intro hparents
    exact ⟨_,hparents,by rw [pushLast_eq,ok_bind,verifyParents_level]⟩

/-- Levels that pass are read in full, and each is computed from the one below. -/
theorem verifyWindows_ok {levels : List Json} {last : Json} {hashes : List Hash32}
    (hlast : levels.getLast? = some last) (hhashes : parseHashArray last = ok hashes) :
    verifyWindows P domain levels = ok () ↔ ∃ parsed, collect parseHashArray levels = ok parsed ∧
      parsed.IsChain fun below above => above = Merkle.level (merkleNode P domain) below := by
  induction levels with
  | nil => simp at hlast
  | cons below rest ih =>
    cases rest with
    | nil =>
      obtain rfl : below = last := by simpa using hlast
      refine ⟨fun _ => ⟨[hashes],?_,List.IsChain.singleton _⟩,fun _ => rfl⟩
      rw [collect_cons_eq_ok]
      exact ⟨hashes,[],hhashes,rfl,rfl⟩
    | cons above rest =>
      have htail := ih (by rwa [List.getLast?_cons_cons] at hlast)
      rw [verifyWindows,bind_eq_ok]
      constructor
      · rintro ⟨_,hpair,hrest⟩
        obtain ⟨children,hchildren,hparents⟩ := verifyLevelPair_ok.mp hpair
        obtain ⟨parsed,hparsed,hchain⟩ := htail.mp hrest
        obtain ⟨parents,others,hfirst,_,rfl⟩ := collect_cons_eq_ok.mp hparsed
        obtain rfl := ok.inj (hfirst.symm.trans hparents)
        refine ⟨children :: _,collect_cons_eq_ok.mpr ⟨children,_,hchildren,hparsed,rfl⟩,?_⟩
        exact List.isChain_cons_cons.mpr ⟨rfl,hchain⟩
      · rintro ⟨parsed,hparsed,hchain⟩
        obtain ⟨children,upper,hchildren,hupper,rfl⟩ := collect_cons_eq_ok.mp hparsed
        obtain ⟨parents,others,hparents,_,rfl⟩ := collect_cons_eq_ok.mp hupper
        obtain ⟨rfl,hchain⟩ := List.isChain_cons_cons.mp hchain
        exact ⟨(),verifyLevelPair_ok.mpr ⟨children,hchildren,hparents⟩,htail.mpr ⟨_,hupper,hchain⟩⟩

/-- The levels pass exactly when each is computed from the one below and the last one
starts with the expected root. -/
theorem verifyMerkleLevels_ok {value : Json} {expectedRoot root : Hash32} :
    verifyMerkleLevels P value domain expectedRoot = ok root ↔ root = expectedRoot ∧
      ∃ levels last, publishedLevels value = ok levels ∧ levels.getLast? = some last ∧
        last.head? = some root ∧
        levels.IsChain fun below above => above = Merkle.level (merkleNode P domain) below := by
  unfold verifyMerkleLevels publishedLevels
  cases value.asArray with
  | none => simp [okOr]
  | some items =>
    simp only [okOr,ok_bind]
    constructor
    · intro h
      obtain ⟨_,_,h⟩ := bind_eq_ok.mp h
      obtain ⟨_,hwindows,h⟩ := bind_eq_ok.mp h
      obtain ⟨rootLevel,hrootLevel,h⟩ := bind_eq_ok.mp h
      obtain ⟨hashes,hhashes,h⟩ := bind_eq_ok.mp h
      obtain ⟨first,hfirst,h⟩ := bind_eq_ok.mp h
      obtain ⟨_,hexpected,h⟩ := bind_eq_ok.mp h
      obtain rfl := ok.inj h
      have hlast := okOr_eq_ok.mp hrootLevel
      obtain ⟨levels,hlevels,hchain⟩ := (verifyWindows_ok hlast hhashes).mp hwindows
      obtain ⟨last,hparsed,hlevelsLast⟩ := collect_getLast? hlevels hlast
      obtain rfl := ok.inj (hhashes.symm.trans hparsed)
      refine ⟨by simpa using hexpected,levels,hashes,hlevels,hlevelsLast,okOr_eq_ok.mp hfirst,hchain⟩
    · rintro ⟨rfl,levels,last,hlevels,hlast,hhead,hchain⟩
      cases hitems : items.getLast? with
      | none =>
        rw [List.getLast?_eq_none_iff.mp hitems] at hlevels
        obtain rfl := ok.inj hlevels
        simp at hlast
      | some rootLevel =>
        obtain ⟨hashes,hhashes,hsame⟩ := collect_getLast? hlevels hitems
        obtain rfl := Option.some.inj (hlast.symm.trans hsame)
        have hne : items.isEmpty = false := by
          cases items with
          | nil => simp at hitems
          | cons item rest => rfl
        have hwindows := (verifyWindows_ok hitems hhashes).mpr ⟨levels,hlevels,hchain⟩
        simp [hne,failIf,hwindows,hhashes,hhead]

end Windows

section Agreement
variable {P : Primitives} {domain : Bytes}

/-- Verified leaves are all read, and as many as the check reports. -/
theorem verifyPreimageLeaves_published {value : Json} {count : ℕ}
    (h : verifyPreimageLeaves P value = ok count) :
    ∃ leaves, publishedLeaves value = ok leaves ∧ leaves.length = count := by
  unfold verifyPreimageLeaves at h
  obtain ⟨items,hitems,h⟩ := bind_eq_ok.mp h
  obtain ⟨units,hunits,hcount⟩ := bind_eq_ok.mp h
  obtain rfl := ok.inj hcount
  have hread : ∀ leaf u, verifyPreimageLeaf P leaf = ok u →
      ∃ hash, parseJsonHash (leaf.field "leafHex") = ok hash := by
    intro leaf u hleaf
    obtain ⟨_,_,hleaf⟩ := bind_eq_ok.mp hleaf
    obtain ⟨_,_,hleaf⟩ := bind_eq_ok.mp hleaf
    obtain ⟨hash,hhash,_⟩ := bind_eq_ok.mp hleaf
    exact ⟨hash,hhash⟩
  obtain ⟨leaves,hleaves⟩ := collect_imp hread hunits
  exact ⟨leaves,bind_eq_ok.mpr ⟨items,hitems,hleaves⟩,collect_length hleaves⟩

/-- Levels computed one from another are those of `merkle` exactly when they narrow from the
leaves to one hash only at the end. -/
theorem eq_levels_iff_narrow {leaves : List Hash32} {levels : List (List Hash32)}
    (hchain : levels.IsChain fun below above => above = Merkle.level (merkleNode P domain) below) :
    leaves ≠ [] ∧ levels = Merkle.levels (merkleNode P domain) leaves ↔ LevelsNarrow leaves levels := by
  constructor
  · rintro ⟨hne,hlevels⟩
    obtain ⟨rest,hrest⟩ := Merkle.loopLevels_eq_cons (merkleNode P domain) leaves.length leaves
    have hlast := Merkle.getLast?_loopLevels (merkleNode P domain) leaves.length leaves
    rw [Merkle.loop_eq_root _ leaves hne] at hlast
    have hsame : levels = leaves :: rest := hlevels.trans hrest
    rw [hrest,← hsame] at hlast
    rw [hsame] at hchain
    have hnarrow := (Merkle.eq_loopLevels_iff _ _ leaves rest (Nat.le_refl _) hchain).mp hrest.symm
    rw [← hsame] at hnarrow
    refine ⟨by rw [hsame]; rfl,hnarrow.1,?_⟩
    intro last hmem
    obtain rfl := Option.some.inj (hlast.symm.trans hmem)
    rfl
  · rintro ⟨hhead,hwide,hone⟩
    obtain ⟨rest,rfl⟩ := List.head?_eq_some_iff.mp hhead
    refine ⟨?_,(Merkle.eq_loopLevels_iff _ _ leaves rest (Nat.le_refl _) hchain).mpr
      ⟨hwide,fun last hmem => (hone last hmem).le⟩⟩
    rintro rfl
    cases rest with
    | nil => simpa using hone [] rfl
    | cons above rest => simpa using hwide [] (by simp)

/-- When both checks pass, the returned root is that of the published leaves and the published
levels are those of `merkle` exactly when the levels narrow from the leaves. -/
theorem verifyMerkleLevels_agrees {leavesValue levelsValue : Json} {expectedRoot root : Hash32} {count : ℕ}
    (hleaves : verifyPreimageLeaves P leavesValue = ok count)
    (hlevels : verifyMerkleLevels P levelsValue domain expectedRoot = ok root) :
    ∃ leaves levels, publishedLeaves leavesValue = ok leaves ∧ leaves.length = count ∧
      publishedLevels levelsValue = ok levels ∧
      ((∃ hne : leaves ≠ [], root = merkle P leaves hne domain ∧
          levels = Merkle.levels (merkleNode P domain) leaves) ↔ LevelsNarrow leaves levels) := by
  obtain ⟨leaves,hread,hcount⟩ := verifyPreimageLeaves_published hleaves
  obtain ⟨_,levels,last,hpublished,hlast,hroot,hchain⟩ := verifyMerkleLevels_ok.mp hlevels
  refine ⟨leaves,levels,hread,hcount,hpublished,?_⟩
  rw [← eq_levels_iff_narrow hchain]
  constructor
  · rintro ⟨hne,_,hsame⟩
    exact ⟨hne,hsame⟩
  · rintro ⟨hne,hsame⟩
    refine ⟨hne,?_,hsame⟩
    have htop := Merkle.getLast?_loopLevels (merkleNode P domain) leaves.length leaves
    rw [Merkle.loop_eq_root _ leaves hne] at htop
    rw [hsame,Merkle.levels,htop,Option.some.injEq] at hlast
    rw [← hlast] at hroot
    exact (Option.some.inj hroot).symm

end Agreement

section Written
variable {P : Primitives}

theorem parseJsonHash_toValue (hash : Hash32) : parseJsonHash (toValue hash) = ok hash := by
  change ofExcept VectorError.invalidHash (Hash32.fromHex (Hash32.toHex hash)) = ok hash
  rw [Hash32.fromHex,Hash32.toHex,Hex.decodeToSlice_encode]
  rfl

theorem parseHashArray_toValue (hashes : List Hash32) : parseHashArray (toValue hashes) = ok hashes :=
  collect_map parseJsonHash_toValue hashes

theorem publishedLevels_toValue (levels : List (List Hash32)) :
    publishedLevels (toValue levels) = ok levels :=
  collect_map parseHashArray_toValue levels

/-- The levels that `merkle` goes through pass the check with its root. -/
theorem verifyMerkleLevels_levels {leaves : List Hash32} (hne : leaves ≠ []) (domain : Bytes) :
    verifyMerkleLevels P (toValue (Merkle.levels (merkleNode P domain) leaves)) domain
      (merkle P leaves hne domain) = ok (merkle P leaves hne domain) := by
  have htop := Merkle.getLast?_loopLevels (merkleNode P domain) leaves.length leaves
  rw [Merkle.loop_eq_root _ leaves hne] at htop
  exact verifyMerkleLevels_ok.mpr ⟨rfl,_,_,publishedLevels_toValue _,htop,rfl,
    Merkle.loopLevels_isChain _ _ _⟩

/-- An entry of the list of leaves, written from its preimage. -/
def leafEntry (P : Primitives) (preimage : Bytes) : Json :=
  .object [("leafHex",toValue (P.sha256 preimage)),("preimageHex",.string (Hex.encode preimage))]

theorem verifyPreimageLeaf_leafEntry (preimage : Bytes) :
    verifyPreimageLeaf P (leafEntry P preimage) = ok () := by
  have htext : (leafEntry P preimage).field "preimageHex" = .string (Hex.encode preimage) := rfl
  have hleaf : (leafEntry P preimage).field "leafHex" = toValue (P.sha256 preimage) := rfl
  simp [verifyPreimageLeaf,htext,hleaf,parseJsonHash_toValue,Json.asStr,okOr,Hex.decode_encode,
    Outcome.ofExcept,failIf]

theorem verifyPreimageLeaves_leafEntry (preimages : List Bytes) :
    verifyPreimageLeaves P (.array (preimages.map (leafEntry P))) = ok preimages.length := by
  have hunits : ∀ entries : List Bytes, collect (verifyPreimageLeaf P) (entries.map (leafEntry P)) =
      ok (entries.map fun _ => ()) := by
    intro entries
    induction entries with
    | nil => rfl
    | cons entry rest ih => simp [collect,verifyPreimageLeaf_leafEntry,ih]
  simp [verifyPreimageLeaves,Json.asArray,okOr,hunits]

theorem publishedLeaves_leafEntry (preimages : List Bytes) :
    publishedLeaves (.array (preimages.map (leafEntry P))) = ok (preimages.map P.sha256) := by
  have hleaf : ∀ preimage, (leafEntry P preimage).field "leafHex" = toValue (P.sha256 preimage) :=
    fun _ => rfl
  change collect (fun leaf => parseJsonHash (leaf.field "leafHex")) (preimages.map (leafEntry P)) = _
  induction preimages with
  | nil => rfl
  | cons preimage rest ih => simp [collect,hleaf,parseJsonHash_toValue,ih]

end Written

/-- Three leaves published with their own levels. -/
theorem verifyMerkleLevels_agrees_three :
    let preimages : List Bytes := [[0],[1],[2]]
    let leaves := preimages.map bitcoinPrimitives.sha256
    let levels := Merkle.levels (merkleNode bitcoinPrimitives eventNodeDomain) leaves
    ∃ read written,
      publishedLeaves (.array (preimages.map (leafEntry bitcoinPrimitives))) = ok read ∧ read.length = 3 ∧
      publishedLevels (toValue levels) = ok written ∧
      ((∃ hne : read ≠ [], merkle bitcoinPrimitives leaves (List.cons_ne_nil _ _) eventNodeDomain =
            merkle bitcoinPrimitives read hne eventNodeDomain ∧
          written = Merkle.levels (merkleNode bitcoinPrimitives eventNodeDomain) read) ↔
        LevelsNarrow read written) :=
  verifyMerkleLevels_agrees (verifyPreimageLeaves_leafEntry [[0],[1],[2]])
    (verifyMerkleLevels_levels (List.cons_ne_nil _ _) eventNodeDomain)

/-- A fixture whose only leaf is the digest of the empty string passes with the zero hash as its
only level, and so with a root that is not that of its leaves. -/
theorem verifyMerkleLevels_stray_level :
    verifyPreimageLeaves bitcoinPrimitives (.array [leafEntry bitcoinPrimitives []]) = ok 1 ∧
    verifyMerkleLevels bitcoinPrimitives (toValue [[Hash32.zero]]) eventNodeDomain Hash32.zero =
      ok Hash32.zero ∧
    publishedLeaves (.array [leafEntry bitcoinPrimitives []]) = ok [bitcoinPrimitives.sha256 []] ∧
    Hash32.zero ≠ merkle bitcoinPrimitives [bitcoinPrimitives.sha256 []] (List.cons_ne_nil _ _)
      eventNodeDomain := by
  have hdigest : Hash32.zero ≠ bitcoinPrimitives.sha256 [] := by decide +kernel
  exact ⟨verifyPreimageLeaves_leafEntry [[]],
    verifyMerkleLevels_levels (List.cons_ne_nil Hash32.zero []) eventNodeDomain,
    publishedLeaves_leafEntry [[]],hdigest⟩

end TandemVerifier
