import TandemVerifier.Core.MarkerGrammar
import TandemVerifier.Core.Reducer

/-! # Slices and indexes behind a length check

The functions of this module read bytes by position after a check of their own. Here they
are written with every index and slice as the source has it, each of which panics outside
its list, and shown to return what the total definitions return. An absent value is the
error of the computation.
-/
namespace TandemVerifier.Raw
open Library Library.Outcome

section Markers

def pushHeader (script : Bytes) (opcode : UInt8) : Outcome Unit (ℕ × ℕ × Bool × Bool) :=
  if 0x01 ≤ opcode ∧ opcode ≤ 0x4b then pure (opcode.toNat,2,true,true)
  else if opcode = 0x4c then do
    let length ← okOr script[2]? ()
    pure (length.toNat,3,true,decide (0x4c ≤ length))
  else if opcode = 0x4d then do
    let bytes ← okOr (getRange script 2 4) ()
    let byte0 ← index bytes 0
    let byte1 ← index bytes 1
    let length := ofLeBytes [byte0,byte1]
    pure (length,4,true,decide (0xff < length))
  else if opcode = 0x4e then do
    let bytes ← okOr (getRange script 2 6) ()
    let byte0 ← index bytes 0
    let byte1 ← index bytes 1
    let byte2 ← index bytes 2
    let byte3 ← index bytes 3
    let length := ofLeBytes [byte0,byte1,byte2,byte3]
    pure (length,6,true,decide (0xffff < length))
  else err ()

def findMarkerCandidate (script : Bytes) (vout : UInt32) : Outcome Unit MarkerCandidate := do
  failIf (script.head? != some 0x6a) ()
  let opcode ← okOr script[1]? ()
  let (declaredLen,prefixLen,prefixComplete,minimalPush) ← pushHeader script opcode
  failIf (!prefixComplete || decide (declaredLen < 4)) ()
  let available := script.length - prefixLen
  failIf (decide (available < 4) || getRange script prefixLen (prefixLen + 4) != some magic) ()
  let physicalLen := min declaredLen available
  let payload ← slice script prefixLen physicalLen
  pure {
    vout := vout
    declaredLen := declaredLen
    payload := payload
    prefixComplete := prefixComplete
    payloadComplete := decide (declaredLen ≤ available)
    noTrailingBytes := available == declaredLen
    minimalPush := minimalPush }

def populationNamespace (candidate : MarkerCandidate) : Outcome Unit Hash32 := do
  failIf (!candidate.payloadComplete || decide (candidate.payload.length < 40)) ()
  let opcode ← okOr (candidate.opcodeByte.bind Opcode.fromByte) ()
  let observed ← index candidate.payload 4
  failIf (observed != version || opcode == .init || candidate.payload.length != opcode.payloadLen) ()
  let bytes ← slice candidate.payload 8 32
  okOr (ByteVector.tryFrom 32 bytes) ()

end Markers

section Inputs

def p2wpkhRevealedKey (input : InputView) : Outcome Unit Key33 := do
  failIf (input.scriptSig != [] || input.witness.length != 2 || input.prevoutScript.length != 22) ()
  let program ← slice input.prevoutScript 0 2
  failIf (program != [0x00,0x14]) ()
  let key ← index input.witness 1
  okOr (ByteVector.tryFrom 33 key) ()

def carrierRevealedKeys (input : InputView) : Outcome Unit (Key33 × Key33) := do
  failIf (input.scriptSig != [] || input.witness.length != 4) ()
  let dummy ← index input.witness 0
  failIf (dummy != [] || input.prevoutScript.length != 34) ()
  let program ← slice input.prevoutScript 0 2
  failIf (program != [0x00,0x20]) ()
  let script ← index input.witness 3
  failIf (script.length != 71) ()
  let opening ← slice script 0 2
  failIf (opening != [0x52,0x21]) ()
  let push ← index script 35
  failIf (push != 0x21) ()
  let closing ← slice script 69 2
  failIf (closing != [0x52,0xae]) ()
  let bytes0 ← slice script 2 33
  let key0 ← okOr (ByteVector.tryFrom 33 bytes0) ()
  let bytes1 ← slice script 36 33
  let key1 ← okOr (ByteVector.tryFrom 33 bytes1) ()
  pure (key0,key1)

theorem p2wpkhRevealedKey_eq (input : InputView) :
    p2wpkhRevealedKey input = okOr input.p2wpkhRevealedKey () := by
  apply eq_okOr
  · simp only [p2wpkhRevealedKey,returns_bind,returns_failIf,returns_slice,returns_index,returns_okOr,
      failIf_eq_ok,slice_eq_ok,Bool.or_eq_false_iff,bne_eq_false_iff_eq]
    refine ⟨trivial,?_⟩
    rintro _ ⟨⟨_,hwitness⟩,hlength⟩
    exact ⟨by omega,fun _ _ => ⟨trivial,fun _ _ => ⟨by omega,fun _ _ => trivial⟩⟩⟩
  · intro key
    simp only [p2wpkhRevealedKey,InputView.p2wpkhRevealedKey,bind_eq_ok,failIf_eq_ok,slice_eq_ok,
      index_eq_ok,okOr_eq_ok,Bool.or_eq_false_iff,bne_eq_false_iff_eq]
    constructor
    · rintro ⟨_,⟨⟨hsig,hwitness⟩,hlength⟩,_,⟨_,rfl⟩,_,hprogram,bytes,hbytes,hkey⟩
      rw [List.drop_zero] at hprogram
      rw [if_neg (by simp [hsig,hwitness,hlength,hprogram]),hbytes]
      exact hkey
    · intro h
      split at h
      · simp at h
      · next hshape =>
        simp only [not_or,Decidable.not_not] at hshape
        obtain ⟨hsig,hwitness,hlength,hprogram⟩ := hshape
        obtain ⟨bytes,hbytes,hkey⟩ := Option.bind_eq_some_iff.mp h
        exact ⟨(),⟨⟨hsig,hwitness⟩,hlength⟩,_,⟨by omega,rfl⟩,(),hprogram,bytes,hbytes,hkey⟩

theorem carrierRevealedKeys_eq (input : InputView) :
    carrierRevealedKeys input = okOr input.carrierRevealedKeys () := by
  apply eq_okOr
  · simp only [carrierRevealedKeys,returns_bind,returns_failIf,returns_slice,returns_index,returns_okOr,
      failIf_eq_ok,slice_eq_ok,Bool.or_eq_false_iff,bne_eq_false_iff_eq,pure_eq_ok,returns_ok]
    refine ⟨trivial,?_⟩
    rintro _ ⟨_,hwitness⟩
    refine ⟨by omega,fun _ _ => ⟨trivial,?_⟩⟩
    rintro _ ⟨_,hlength⟩
    refine ⟨by omega,fun _ _ => ⟨trivial,fun _ _ => ⟨by omega,fun script _ => ⟨trivial,?_⟩⟩⟩⟩
    intro _ hscript
    refine ⟨by omega,fun _ _ => ⟨trivial,fun _ _ => ⟨by omega,fun _ _ => ⟨trivial,fun _ _ => ?_⟩⟩⟩⟩
    refine ⟨by omega,fun _ _ => ⟨trivial,fun _ _ => ⟨by omega,fun _ _ => ⟨trivial,fun _ _ => ?_⟩⟩⟩⟩
    exact ⟨by omega,fun _ _ => ⟨trivial,fun _ _ => trivial⟩⟩
  · rintro ⟨key0,key1⟩
    simp only [carrierRevealedKeys,InputView.carrierRevealedKeys,bind_eq_ok,failIf_eq_ok,slice_eq_ok,
      index_eq_ok,okOr_eq_ok,Bool.or_eq_false_iff,bne_eq_false_iff_eq,pure_eq_ok,Outcome.ok.injEq]
    constructor
    · rintro ⟨_,⟨hsig,hwitness⟩,dummy,hdummy,_,⟨rfl,hlength⟩,_,⟨_,rfl⟩,_,hprogram,script,hscript,_,hsize,_,
        ⟨_,rfl⟩,_,hopening,push,hpush,_,rfl,_,⟨_,rfl⟩,_,hclosing,_,⟨_,rfl⟩,_,hkey0,_,⟨_,rfl⟩,_,hkey1,hpair⟩
      rw [List.drop_zero] at hprogram hopening
      rw [List.take_of_length_le (by rw [List.length_drop]; omega)] at hclosing
      rw [if_neg (by
        simp only [not_or,Decidable.not_not]
        exact ⟨hsig,hwitness,hdummy,hlength,hprogram⟩),hscript,Option.bind_some,if_neg (by
        simp only [not_or,Decidable.not_not]
        exact ⟨hsize,hopening,hpush,hclosing⟩)]
      simp [hkey0,hkey1,hpair]
    · intro h
      split at h
      · simp at h
      · next hshape =>
        simp only [not_or,Decidable.not_not] at hshape
        obtain ⟨hsig,hwitness,hdummy,hlength,hprogram⟩ := hshape
        obtain ⟨script,hscript,h⟩ := Option.bind_eq_some_iff.mp h
        split at h
        · simp at h
        · next hinner =>
          simp only [not_or,Decidable.not_not] at hinner
          obtain ⟨hsize,hopening,hpush,hclosing⟩ := hinner
          simp only [Option.bind_eq_bind,Option.bind_eq_some_iff,Option.some.injEq] at h
          obtain ⟨first,hfirst,second,hsecond,hpair⟩ := h
          have htail : (script.drop 69).take 2 = [0x52,0xae] := by
            rw [List.take_of_length_le (by rw [List.length_drop]; omega)]
            exact hclosing
          exact ⟨(),⟨hsig,hwitness⟩,[],hdummy,(),⟨rfl,hlength⟩,_,⟨by omega,rfl⟩,(),hprogram,script,hscript,
            (),hsize,_,⟨by omega,rfl⟩,(),hopening,0x21,hpush,(),rfl,_,⟨by omega,rfl⟩,(),htail,_,
            ⟨by omega,rfl⟩,first,hfirst,_,⟨by omega,rfl⟩,second,hsecond,hpair⟩

end Inputs

section Agreement

theorem populationNamespace_eq (candidate : MarkerCandidate) :
    populationNamespace candidate = okOr (TandemVerifier.populationNamespace candidate) () := by
  apply eq_okOr
  · simp only [populationNamespace,returns_bind,returns_failIf,returns_slice,returns_index,returns_okOr,
      failIf_eq_ok,Bool.or_eq_false_iff,decide_eq_false_iff_not,Nat.not_lt]
    refine ⟨trivial,?_⟩
    rintro _ ⟨_,hlength⟩
    exact ⟨trivial,fun _ _ => ⟨by omega,fun _ _ => ⟨trivial,fun _ _ => ⟨by omega,fun _ _ => trivial⟩⟩⟩⟩
  · intro ns
    simp only [populationNamespace,TandemVerifier.populationNamespace,bind_eq_ok,failIf_eq_ok,slice_eq_ok,
      index_eq_ok,okOr_eq_ok,Bool.or_eq_false_iff,bne_eq_false_iff_eq,Bool.not_eq_false',
      decide_eq_false_iff_not,Nat.not_lt]
    constructor
    · rintro ⟨_,⟨hcomplete,hlength⟩,opcode,hopcode,_,hversion,_,⟨⟨rfl,hinit⟩,hexact⟩,_,⟨_,rfl⟩,hns⟩
      rw [if_neg (by simp [hcomplete,hlength]),hopcode]
      simp only [Option.bind_eq_bind,Option.bind_some]
      rw [if_neg (by
        simp only [not_or,Decidable.not_not]
        exact ⟨hversion,by simpa using hinit,hexact⟩)]
      exact hns
    · intro h
      split at h
      · simp at h
      · next hshape =>
        simp only [Bool.or_eq_true,Bool.not_eq_true',decide_eq_true_eq,not_or,Bool.not_eq_false,
          Nat.not_lt] at hshape
        obtain ⟨opcode,hopcode,h⟩ := Option.bind_eq_some_iff.mp h
        split at h
        · simp at h
        · next hfields =>
          simp only [not_or,Decidable.not_not] at hfields
          obtain ⟨hversion,hinit,hexact⟩ := hfields
          exact ⟨(),hshape,opcode,hopcode,version,hversion,(),⟨⟨rfl,by simpa using hinit⟩,hexact⟩,_,
            ⟨by omega,rfl⟩,h⟩

theorem getRange_length {script bytes : Bytes} {start stop : ℕ} (hle : start ≤ stop)
    (h : getRange script start stop = some bytes) : bytes.length = stop - start := by
  obtain ⟨hstop,rfl⟩ := getRange_eq_some.mp h
  rw [List.length_take,List.length_drop]
  omega

theorem pushHeader_eq (script : Bytes) (opcode : UInt8) :
    pushHeader script opcode = okOr (TandemVerifier.pushHeader script opcode) () := by
  unfold pushHeader TandemVerifier.pushHeader
  split
  · rfl
  · split
    · cases script[2]? <;> rfl
    · split
      · cases hbytes : getRange script 2 4 with
        | none => rfl
        | some bytes =>
          obtain ⟨byte0,byte1,rfl⟩ := List.length_eq_two.mp (getRange_length (by omega) hbytes)
          rfl
      · split
        · cases hbytes : getRange script 2 6 with
          | none => rfl
          | some bytes =>
            have hlength := getRange_length (by omega) hbytes
            obtain ⟨byte0,rest,rfl⟩ := List.exists_cons_of_length_pos (by omega : 0 < bytes.length)
            obtain ⟨byte1,byte2,byte3,rfl⟩ := List.length_eq_three.mp (by simpa using hlength)
            rfl
        · rfl

theorem findMarkerCandidate_eq (script : Bytes) (vout : UInt32) :
    findMarkerCandidate script vout = okOr (TandemVerifier.findMarkerCandidate script vout) () := by
  apply eq_okOr
  · simp only [findMarkerCandidate,pushHeader_eq,returns_bind,returns_failIf,returns_slice,returns_okOr,
      failIf_eq_ok,Bool.or_eq_false_iff,decide_eq_false_iff_not,Nat.not_lt,pure_eq_ok,returns_ok]
    refine ⟨trivial,fun _ _ => ⟨trivial,fun opcode _ => ⟨trivial,?_⟩⟩⟩
    rintro ⟨declaredLen,prefixLen,prefixComplete,minimalPush⟩ _
    refine ⟨trivial,fun _ _ => ⟨trivial,?_⟩⟩
    rintro _ ⟨havailable,_⟩
    exact ⟨by omega,fun _ _ => trivial⟩
  · intro candidate
    rw [findMarkerCandidate_eq_some]
    simp only [findMarkerCandidate,pushHeader_eq,bind_eq_ok,failIf_eq_ok,slice_eq_ok,okOr_eq_ok,
      Bool.or_eq_false_iff,bne_eq_false_iff_eq,Bool.not_eq_false',decide_eq_false_iff_not,Nat.not_lt,
      pure_eq_ok,Outcome.ok.injEq,getRange_eq_some,Prod.exists]
    constructor
    · rintro ⟨_,hreturn,opcode,hopcode,declaredLen,prefixLen,_,minimalPush,hheader,_,⟨rfl,hlong⟩,_,
        ⟨havailable,hlength,hmagic⟩,_,⟨_,rfl⟩,rfl⟩
      rw [List.head?_eq_getElem?] at hreturn
      rw [Nat.add_sub_cancel_left] at hmagic
      exact ⟨opcode,declaredLen,prefixLen,minimalPush,hreturn,hopcode,hheader,hlong,hlength,hmagic,rfl⟩
    · rintro ⟨opcode,declaredLen,prefixLen,minimalPush,hreturn,hopcode,hheader,hlong,hlength,hmagic,rfl⟩
      rw [← List.head?_eq_getElem?] at hreturn
      refine ⟨(),hreturn,opcode,hopcode,declaredLen,prefixLen,true,minimalPush,hheader,(),⟨rfl,hlong⟩,(),
        ⟨by omega,hlength,?_⟩,_,⟨by omega,rfl⟩,rfl⟩
      rw [Nat.add_sub_cancel_left]
      exact hmagic

end Agreement

section Events
variable (P : Primitives)

/-- The event of an invalid transaction, where a single candidate is read by its position. -/
def invalidEvent (binding : Binding) (block : BlockView) (tx : TxView) (txIndex : UInt32)
    (reason : Reason) (configuredInit : Bool) : Outcome Infallible Event := do
  let candidates := markerCandidates tx binding
  let eventIndex ← if candidates.length = 1 then do
      let candidate ← index candidates 0
      pure candidate.vout
    else if 1 < candidates.length then pure (minimumVout candidates)
    else pure u32Max
  let eventType ← if candidates.length = 1 then do
      let candidate ← index candidates 0
      pure (attemptedEventType candidate)
    else pure .invalid
  let ns ← if configuredInit then pure (binding.namespace P)
    else if candidates.length = 1 then do
      let candidate ← index candidates 0
      pure ((TandemVerifier.populationNamespace candidate).getD Hash32.zero)
    else pure Hash32.zero
  pure (bareInvalidEvent block tx txIndex eventIndex eventType reason ns)

theorem invalidEvent_eq (binding : Binding) (block : BlockView) (tx : TxView) (txIndex : UInt32)
    (reason : Reason) (configuredInit : Bool) :
    invalidEvent P binding block tx txIndex reason configuredInit =
      ok (TandemVerifier.invalidEvent P binding block tx txIndex reason configuredInit) := by
  unfold invalidEvent TandemVerifier.invalidEvent
  cases markerCandidates tx binding with
  | nil => cases configuredInit <;> rfl
  | cons candidate rest =>
    cases rest with
    | nil => cases configuredInit <;> rfl
    | cons second rest =>
      have hmany : ¬(candidate :: second :: rest).length = 1 := by simp
      have hone : 1 < (candidate :: second :: rest).length := by simp
      simp only [if_neg hmany,if_pos hone]
      cases configuredInit <;> rfl

end Events

section Trees
variable {D : Type} (node : D × D → D)

/-- Adjacent pairs as slices of length two. -/
def chunksExact : List D → List (List D)
  | a :: b :: rest => [a,b] :: chunksExact rest
  | _ => []

/-- Hash every chunk, read by position. -/
def hashChunks : List (List D) → Outcome Infallible (List D)
  | [] => pure []
  | chunk :: rest => do
    let left ← index chunk 0
    let right ← index chunk 1
    let digests ← hashChunks rest
    pure (node (left,right) :: digests)

def level (leaves : List D) : Outcome Infallible (List D) := do
  let padded ← if leaves.length % 2 = 1 then do
      let last ← expect leaves.getLast?
      pure (leaves ++ [last])
    else pure leaves
  hashChunks node (chunksExact padded)

def loop : ℕ → List D → Outcome Infallible (List D)
  | 0,leaves => pure leaves
  | fuel + 1,leaves =>
    if 1 < leaves.length then do
      let digests ← level node leaves
      loop fuel digests
    else pure leaves

/-- The root as the source computes it, with its assertion that there is a leaf. -/
def merkle (leaves : List D) : Outcome Infallible D := do
  if leaves.isEmpty then .panic else
  let digests ← loop node leaves.length leaves
  index digests 0

theorem hashChunks_eq (leaves : List D) :
    hashChunks node (chunksExact leaves) = ok ((Merkle.chunkPairs leaves).map node) := by
  induction leaves using Merkle.pair_induction with
  | nil => rfl
  | single a => rfl
  | pair a b rest ih =>
    rw [chunksExact,hashChunks,ih]
    rfl

theorem level_eq (leaves : List D) : level node leaves = ok (Merkle.level node leaves) := by
  rw [level,Merkle.level,Merkle.levelPairs,Merkle.padOdd]
  by_cases hodd : leaves.length % 2 = 1
  · have hne : leaves ≠ [] := by
      rintro rfl
      simp at hodd
    rw [if_pos hodd,if_pos hodd,List.getLast?_eq_some_getLast hne]
    exact hashChunks_eq node _
  · rw [if_neg hodd,if_neg hodd]
    exact hashChunks_eq node leaves

theorem loop_eq (fuel : ℕ) (leaves : List D) : loop node fuel leaves = ok (Merkle.loop node fuel leaves) := by
  induction fuel generalizing leaves with
  | zero => rfl
  | succ fuel ih =>
    rw [loop,Merkle.loop]
    split
    · rw [level_eq,ok_bind,ih]
    · rfl

theorem merkle_eq {leaves : List D} (h : leaves ≠ []) :
    merkle node leaves = ok (Merkle.root node leaves h) := by
  have hfull : leaves.isEmpty = false := by simpa using h
  rw [merkle,hfull,loop_eq,Merkle.loop_eq_root node leaves h]
  rfl

end Trees

section Roots
variable (P : Primitives)

def eventRoot (ns : Hash32) (events : List Event) : Outcome Infallible Hash32 :=
  if events = [] then pure (P.sha256 (eventEmptyPreimage ns))
  else merkle (merkleNode P eventNodeDomain) ((orderedEvents events).map (eventLeaf P))

def objectStateRoot (ns : Hash32) (objects : List ObjectState) : Outcome Infallible Hash32 :=
  if objects = [] then pure (P.sha256 (objectEmptyPreimage ns))
  else merkle (merkleNode P objectNodeDomain) ((orderedLeaves P objects).map Prod.snd)

theorem eventRoot_eq (ns : Hash32) (events : List Event) :
    eventRoot P ns events = ok (TandemVerifier.eventRoot P ns events) := by
  unfold eventRoot TandemVerifier.eventRoot
  split
  · rfl
  · exact merkle_eq _ _

theorem objectStateRoot_eq (ns : Hash32) (objects : List ObjectState) :
    objectStateRoot P ns objects = ok (TandemVerifier.objectStateRoot P ns objects) := by
  unfold objectStateRoot TandemVerifier.objectStateRoot
  split
  · rfl
  · exact merkle_eq _ _

end Roots
end TandemVerifier.Raw
