import TandemVerifier.Reduction.Acceptance
import TandemVerifier.Service.Ancestry

/-! # What the resolver has verified and the reducer has decoded

The resolver verifies signatures under keys that it never compares with the program of
the spent output; the reducer compares the keys and never sees a signature. Both read
one witness, and the 71 bytes of a carrier script leave no freedom between the two
readings, so that together they authenticate the spend.
-/
namespace TandemVerifier
open Library
variable {P : Primitives} {view : InputView}

section Decoding

/-- What the reducer knows of an input that reveals a key. -/
theorem p2wpkhKey_eq_some {key : Key33} (h : view.p2wpkhKey P = some key) :
    ∃ signature, view.witness = [signature,key.toList] ∧ view.prevoutScript = key.p2wpkhScript P := by
  simp only [InputView.p2wpkhKey,Option.bind_eq_bind,Option.bind_eq_some_iff] at h
  obtain ⟨revealed,hrevealed,hbound⟩ := h
  split at hbound
  · simp at hbound
  · next hscript =>
    obtain rfl := Option.some.inj hbound
    simp only [Bool.or_eq_true,Bool.not_eq_true',bne_iff_ne,not_or,Decidable.not_not] at hscript
    unfold InputView.p2wpkhRevealedKey at hrevealed
    split at hrevealed
    · simp at hrevealed
    · next hshape =>
      simp only [not_or,Decidable.not_not] at hshape
      obtain ⟨bytes,hbytes,hkey⟩ := Option.bind_eq_some_iff.mp hrevealed
      obtain rfl := ByteVector.tryFrom_eq_some.mp hkey
      obtain ⟨signature,second,hwitness⟩ := List.length_eq_two.mp hshape.2.1
      rw [hwitness] at hbytes
      obtain rfl : second = revealed.toList := by simpa using hbytes
      exact ⟨signature,hwitness,hscript.2.symm⟩

theorem drop_eq_take_append_drop {α : Type*} (xs : List α) (start width : ℕ) :
    xs.drop start = (xs.drop start).take width ++ xs.drop (start + width) := by
  rw [← List.drop_drop,List.take_append_drop]

/-- A script with the fixed bytes of a 2-of-2 is the script of the two keys inside it. -/
theorem eq_witnessScript {script : Bytes} {keys : KeyPair} (hhead : script.take 2 = [0x52,0x21])
    (hmiddle : script[35]? = some 0x21) (htail : script.drop 69 = [0x52,0xae])
    (hkey0 : (script.drop 2).take 33 = keys.key0.toList)
    (hkey1 : (script.drop 36).take 33 = keys.key1.toList) : script = keys.witnessScript := by
  have hseparator : script.drop 35 = 0x21 :: script.drop 36 :=
    List.drop_eq_getElem?_toList_append.trans (by rw [hmiddle]; rfl)
  calc script = script.take 2 ++ script.drop 2 := (List.take_append_drop 2 script).symm
    _ = [0x52,0x21] ++ (keys.key0.toList ++ script.drop 35) := by
      rw [hhead,drop_eq_take_append_drop script 2 33,hkey0]
    _ = [0x52,0x21] ++ (keys.key0.toList ++ 0x21 :: (keys.key1.toList ++ script.drop 69)) := by
      rw [hseparator,drop_eq_take_append_drop script 36 33,hkey1]
    _ = keys.witnessScript := by simp [KeyPair.witnessScript,htail]

/-- What the reducer knows of an input that reveals the keys of a carrier. -/
theorem carrierKeys_eq_some {keys : KeyPair} (h : view.carrierKeys P = some keys) :
    ∃ signature0 signature1, view.witness = [[],signature0,signature1,keys.witnessScript] ∧
      view.prevoutScript = keys.carrierScript P := by
  simp only [InputView.carrierKeys,Option.bind_eq_bind,Option.bind_eq_some_iff,Prod.exists] at h
  obtain ⟨key0,key1,hrevealed,pair,hchecked,hbound⟩ := h
  split at hbound
  · next hscript =>
    obtain rfl := Option.some.inj hbound
    obtain ⟨rfl,_⟩ := KeyPair.checked_eq_some.mp hchecked
    unfold InputView.carrierRevealedKeys at hrevealed
    split at hrevealed
    · simp at hrevealed
    · next hshape =>
      simp only [not_or,Decidable.not_not] at hshape
      obtain ⟨script,hthird,hkeys⟩ := Option.bind_eq_some_iff.mp hrevealed
      split at hkeys
      · simp at hkeys
      · next hlayout =>
        simp only [not_or,Decidable.not_not] at hlayout
        simp only [Option.bind_eq_bind,Option.bind_eq_some_iff,ByteVector.tryFrom_eq_some,
          Option.some.injEq,Prod.mk.injEq] at hkeys
        obtain ⟨first,hkey0,second,hkey1,rfl,rfl⟩ := hkeys
        have h1 : 1 < view.witness.length := by omega
        have h2 : 2 < view.witness.length := by omega
        have hwitness := eq_of_getElem?_four hshape.2.1 hshape.2.2.1 (List.getElem?_eq_getElem h1)
          (List.getElem?_eq_getElem h2) hthird
        have hscript71 : script = KeyPair.witnessScript ⟨first,second⟩ :=
          eq_witnessScript hlayout.2.1 hlayout.2.2.1 hlayout.2.2.2 hkey0 hkey1
        rw [hscript71] at hwitness
        exact ⟨_,_,hwitness,(eq_of_beq hscript).symm⟩
  · simp at hbound

end Decoding

variable {bitcoin : Bitcoin} {core : ℕ → Node} {own cache cache' : ResolvedMap}
variable {log log' : List RpcRequest} {transaction : Transaction}

section Resolution
open BitcoinCoreRpc

/-- An input with a valid signature flag is the view of a spent output. -/
theorem resolveInput_signed {index : ℕ} {input : TxIn}
    (h : resolveInput bitcoin core own transaction index input cache log = some (view,cache',log'))
    (hvalid : view.signaturesValid = true) :
    ∃ prevout height, view = spendingInput bitcoin transaction index input prevout height := by
  unfold resolveInput at h
  split at h
  · simp only [Option.some.injEq,Prod.mk.injEq] at h
    obtain ⟨rfl,_⟩ := h
    simp [nullInput] at hvalid
  · simp only [Option.bind_eq_bind,Option.bind_eq_some_iff,Option.some.injEq,Prod.mk.injEq] at h
    obtain ⟨⟨parent,_,_⟩,_,prevout,_,rfl,_⟩ := h
    exact ⟨prevout,parent.height,rfl⟩

theorem resolveInputs_signed {index i : ℕ} {inputs : List TxIn} {views : List InputView}
    (h : resolveInputs bitcoin core own transaction index inputs cache log = some (views,cache',log'))
    (hview : views[i]? = some view) (hvalid : view.signaturesValid = true) :
    ∃ input prevout height, inputs[i]? = some input ∧
      view = spendingInput bitcoin transaction (index + i) input prevout height := by
  induction inputs generalizing index i views cache log with
  | nil =>
    simp only [resolveInputs,Option.some.injEq,Prod.mk.injEq] at h
    simp [← h.1] at hview
  | cons input rest ih =>
    simp only [resolveInputs,Option.bind_eq_bind,Option.bind_eq_some_iff,Option.some.injEq,
      Prod.mk.injEq] at h
    obtain ⟨⟨first,_,_⟩,hfirst,⟨later,_,_⟩,hlater,rfl,rfl,rfl⟩ := h
    cases i with
    | zero =>
      obtain rfl : first = view := by simpa using hview
      obtain ⟨prevout,height,hspending⟩ := resolveInput_signed hfirst hvalid
      exact ⟨input,prevout,height,rfl,hspending⟩
    | succ i =>
      obtain ⟨found,prevout,height,hfound,hspending⟩ := ih hlater (by simpa using hview)
      refine ⟨found,prevout,height,by simpa using hfound,?_⟩
      rw [hspending,Nat.add_right_comm,Nat.add_assoc]

end Resolution

section Verification
variable {index : ℕ} {prevout : OutputView}

theorem getD_false_eq_true {x : Option Bool} : x.getD false = true ↔ x = some true := by
  cases x <;> simp

theorem verifyP2wpkh_eq_true {signatureBytes publicKeyBytes : Bytes}
    (h : verifyP2wpkh bitcoin transaction index prevout signatureBytes publicKeyBytes = true) :
    ∃ signature publicKey sighash, strictSignature bitcoin signatureBytes = some signature ∧
      bitcoin.publicKeyFromSlice publicKeyBytes = some publicKey ∧
      bitcoin.p2wpkhSignatureHash transaction index prevout.scriptPubkey prevout.value = some sighash ∧
      bitcoin.verifyEcdsa sighash signature.signature publicKey = true := by
  have hverified := getD_false_eq_true.mp h
  simp only [Option.bind_eq_bind,Option.bind_eq_some_iff,Option.some.injEq] at hverified
  obtain ⟨signature,hsignature,publicKey,hkey,sighash,hsighash,hecdsa⟩ := hverified
  exact ⟨signature,publicKey,sighash,hsignature,hkey,hsighash,hecdsa⟩

/-- Where the witness script is that of a pair, both signatures were verified in its order. -/
theorem verifyP2wsh2of2_eq_true {signature0Bytes signature1Bytes : Bytes} {keys : KeyPair}
    (h : verifyP2wsh2of2 bitcoin transaction index prevout signature0Bytes signature1Bytes
      keys.witnessScript = true) :
    ∃ signature0 signature1 publicKey0 publicKey1 sighash,
      strictSignature bitcoin signature0Bytes = some signature0 ∧
      strictSignature bitcoin signature1Bytes = some signature1 ∧
      bitcoin.publicKeyFromSlice keys.key0.toList = some publicKey0 ∧
      bitcoin.publicKeyFromSlice keys.key1.toList = some publicKey1 ∧
      bitcoin.p2wshSignatureHash transaction index keys.witnessScript prevout.value = some sighash ∧
      bitcoin.verifyEcdsa sighash signature0.signature publicKey0 = true ∧
      bitcoin.verifyEcdsa sighash signature1.signature publicKey1 = true := by
  unfold verifyP2wsh2of2 at h
  split at h
  · simp at h
  · have hverified := getD_false_eq_true.mp h
    simp only [Option.bind_eq_bind,Option.bind_eq_some_iff,Option.some.injEq,Bool.and_eq_true] at hverified
    obtain ⟨signature0,hsignature0,signature1,hsignature1,publicKey0,hkey0,publicKey1,hkey1,sighash,
      hsighash,hecdsa0,hecdsa1⟩ := hverified
    have hfirst : (keys.witnessScript.drop 2).take 33 = keys.key0.toList := by
      simp [KeyPair.witnessScript]
    have hpast : keys.key0.toList.drop 34 = [] := List.drop_of_length_le (by simp)
    have hsecond : (keys.witnessScript.drop 36).take 33 = keys.key1.toList := by
      simp [KeyPair.witnessScript,List.drop_append,hpast]
    exact ⟨signature0,signature1,publicKey0,publicKey1,sighash,hsignature0,hsignature1,hfirst ▸ hkey0,
      hsecond ▸ hkey1,hsighash,hecdsa0,hecdsa1⟩

end Verification

/-- The first witness item is a strict signature under the key on the P2WPKH digest of the
input for the spent script and value. -/
def SignedByKey (bitcoin : Bitcoin) (transaction : Transaction) (index : ℕ) (view : InputView)
    (key : Key33) : Prop :=
  ∃ bytes signature publicKey sighash, view.witness[0]? = some bytes ∧
    strictSignature bitcoin bytes = some signature ∧
    bitcoin.publicKeyFromSlice key.toList = some publicKey ∧
    bitcoin.p2wpkhSignatureHash transaction index view.prevoutScript view.prevoutValue = some sighash ∧
    bitcoin.verifyEcdsa sighash signature.signature publicKey = true

/-- The second and third witness items are strict signatures under the first and second key
on the P2WSH digest of the input for the witness script and the spent value. -/
def SignedByPair (bitcoin : Bitcoin) (transaction : Transaction) (index : ℕ) (view : InputView)
    (keys : KeyPair) : Prop :=
  ∃ bytes0 bytes1 signature0 signature1 publicKey0 publicKey1 sighash,
    view.witness[1]? = some bytes0 ∧ view.witness[2]? = some bytes1 ∧
    strictSignature bitcoin bytes0 = some signature0 ∧
    strictSignature bitcoin bytes1 = some signature1 ∧
    bitcoin.publicKeyFromSlice keys.key0.toList = some publicKey0 ∧
    bitcoin.publicKeyFromSlice keys.key1.toList = some publicKey1 ∧
    bitcoin.p2wshSignatureHash transaction index keys.witnessScript view.prevoutValue = some sighash ∧
    bitcoin.verifyEcdsa sighash signature0.signature publicKey0 = true ∧
    bitcoin.verifyEcdsa sighash signature1.signature publicKey1 = true

/-- Every input that the resolver marks as signed is the view of an output spent by that
input, and the keys that the reducer decodes from it are those that signed. -/
theorem resolved_keys_signed {views : List InputView} {i : ℕ}
    (hresolve : BitcoinCoreRpc.resolveInputs bitcoin core own transaction 0 transaction.input cache log =
      some (views,cache',log')) (hview : views[i]? = some view)
    (hvalid : view.signaturesValid = true) :
    (∀ key, view.p2wpkhKey P = some key → view.prevoutScript = key.p2wpkhScript P ∧
      SignedByKey bitcoin transaction i view key) ∧
    ∀ keys, view.carrierKeys P = some keys → view.witness[3]? = some keys.witnessScript ∧
      view.prevoutScript = keys.carrierScript P ∧ SignedByPair bitcoin transaction i view keys := by
  obtain ⟨input,prevout,height,hinput,rfl⟩ := resolveInputs_signed hresolve hview hvalid
  rw [Nat.zero_add] at hvalid ⊢
  simp only [BitcoinCoreRpc.spendingInput,verifyInputSignature,hinput] at hvalid
  split at hvalid
  · simp at hvalid
  · constructor
    · intro key hkey
      obtain ⟨signatureBytes,hwitness,hscript⟩ := p2wpkhKey_eq_some hkey
      simp only [BitcoinCoreRpc.spendingInput] at hwitness
      simp only [hwitness,Bool.and_eq_true] at hvalid
      obtain ⟨signature,publicKey,sighash,hverified⟩ := verifyP2wpkh_eq_true hvalid.2
      refine ⟨hscript,signatureBytes,signature,publicKey,sighash,?_,hverified⟩
      simp [BitcoinCoreRpc.spendingInput,hwitness]
    · intro keys hkeys
      obtain ⟨bytes0,bytes1,hwitness,hscript⟩ := carrierKeys_eq_some hkeys
      simp only [BitcoinCoreRpc.spendingInput] at hwitness
      simp only [hwitness,Bool.and_eq_true] at hvalid
      obtain ⟨signature0,signature1,publicKey0,publicKey1,sighash,hverified⟩ :=
        verifyP2wsh2of2_eq_true hvalid.2
      refine ⟨?_,hscript,bytes0,bytes1,signature0,signature1,publicKey0,publicKey1,sighash,?_,?_,
        hverified⟩ <;> simp [BitcoinCoreRpc.spendingInput,hwitness]

section Sample

/-- The digest of version 0 witness programs for SIGHASH_ALL. -/
def witnessDigest (transaction : Transaction) (index : ℕ) (scriptCode : Bytes) (value : UInt64) :
    Option Hash32 :=
  transaction.input[index]?.map fun input => doubleSha256 (
    u32LeBytes transaction.version.toUInt32 ++
    (doubleSha256 (transaction.input.flatMap fun input => input.previousOutput.wireBytes)).toList ++
    (doubleSha256 (transaction.input.flatMap fun input => u32LeBytes input.sequence)).toList ++
    input.previousOutput.wireBytes ++ sized scriptCode ++ u64LeBytes value ++
    u32LeBytes input.sequence ++
    (doubleSha256 (transaction.output.flatMap fun output =>
      u64LeBytes output.value ++ sized output.scriptPubkey)).toList ++
    u32LeBytes transaction.lockTime ++ u32LeBytes sighashAll)

/-- The digest of the carrier input of the sample and the digest of its sponsor input. -/
def carrierDigest : Hash32 := sampleHash 0xef703876a3e9ae58b526a01cc7b6303fdf0fce9d6f47eb9a1e636e5546d78c04
def sponsorDigest : Hash32 := sampleHash 0x246a57ce7ce66fc73b8336be11bacecc8ddc7f8efc316c524a1fdca1f159aced

/-- Signatures on these digests with the private keys 1, 2 and 1. -/
def carrierSignature0 : Bytes := [0x30,0x45,0x02,0x21,0x00] ++
  Crypto.beBytes 32 0xf9308a019258c31049344f85f89d5229b531c845836f99b08601f113bce036f9 ++ [0x02,0x20] ++
  Crypto.beBytes 32 0x4d8aeb7d676b7b22ff73a536401bd6239ddb9354167a4c5a4c31004966808094
def carrierSignature1 : Bytes := [0x30,0x44,0x02,0x20] ++
  Crypto.beBytes 32 0x2f8bde4d1a07209355b4a7250a5c5128e88b84bddc619ab7cba8d569b240efe4 ++ [0x02,0x20] ++
  Crypto.beBytes 32 0x761b31035e64c97fe01cc947c5afc3b67bc457665e43f3744ab4b18ab24fef69
def sponsorSignature : Bytes := [0x30,0x44,0x02,0x20] ++
  Crypto.beBytes 32 0x5cbdf0646e5db4eaa398f365f2ea7a0e3d419b7e0330e39ce92bddedcac4f9bc ++ [0x02,0x20] ++
  Crypto.beBytes 32 0x7fd5ac8b02f643e696fbf9fadac3d10496cd55cb1b1b74b6d3ffada9a53f320d

/-- The functions of Bitcoin on the sample: its signatures are low-S and in DER, and they are
the ones that verify. -/
def signingBitcoin : Bitcoin :=
  { sampleBitcoin with
    signatureFromSlice := fun bytes =>
      bytes.getLast?.map fun last => ⟨bytes.dropLast,UInt32.ofNat last.toNat⟩
    signatureToVec := fun signature =>
      signature.signature ++ [UInt8.ofNat signature.sighashType.toNat]
    publicKeyFromSlice := fun bytes => if Crypto.isCompressedPoint bytes then some bytes else none
    p2wpkhSignatureHash := fun transaction index script value =>
      witnessDigest transaction index ([0x76,0xa9,0x14] ++ script.drop 2 ++ [0x88,0xac]) value
    p2wshSignatureHash := witnessDigest
    verifyEcdsa := fun digest signature key => decide ((digest,signature,key) ∈
      [(carrierDigest,carrierSignature0,key1G.toList),(carrierDigest,carrierSignature1,key2G.toList),
        (sponsorDigest,sponsorSignature,key1G.toList)]) }

def carrierParent : Transaction :=
  ⟨2,0,[⟨⟨sampleHash 21,0⟩,rbfSequence,[],[]⟩],
    [⟨0,[0x6a]⟩,⟨carrierValue,sampleKeys.carrierScript bitcoinPrimitives⟩]⟩

def sponsorParent : Transaction :=
  ⟨2,0,[⟨⟨sampleHash 22,0⟩,rbfSequence,[],[]⟩],[keyOutput 5000 key1G]⟩

/-- A transaction that spends a carrier together with an output of its first key. -/
def signedTransaction : Transaction :=
  ⟨2,0,[⟨⟨signingBitcoin.computeTxid carrierParent,1⟩,rbfSequence,[],
      [[],carrierSignature0 ++ [1],carrierSignature1 ++ [1],sampleKeys.witnessScript]⟩,
    ⟨⟨signingBitcoin.computeTxid sponsorParent,0⟩,rbfSequence,[],[sponsorSignature ++ [1],key1G.toList]⟩],
    [⟨0,[0x6a]⟩,⟨carrierValue,sampleKeys.carrierScript bitcoinPrimitives⟩,keyOutput 4000 key1G]⟩

def signedViews : Option (List InputView × ResolvedMap × List RpcRequest) :=
  BitcoinCoreRpc.resolveInputs signingBitcoin (fun _ => nodeOf signingBitcoin [] []) ∅ signedTransaction 0
    signedTransaction.input
    (BitcoinCoreRpc.ownTransactions signingBitcoin 90 [carrierParent,sponsorParent]) []

set_option maxRecDepth 10000 in
theorem signedViews_eq : signedViews.map (fun resolved => resolved.1.map fun view =>
    (view.signaturesValid,view.carrierKeys bitcoinPrimitives,view.p2wpkhKey bitcoinPrimitives)) =
      some [(true,some sampleKeys,none),(true,none,some key1G)] := by
  decide +kernel

theorem sample_keys_signed : ∃ carrierView sponsorView rest, signedViews = some ([carrierView,sponsorView],rest) ∧
    SignedByPair signingBitcoin signedTransaction 0 carrierView sampleKeys ∧
    SignedByKey signingBitcoin signedTransaction 1 sponsorView key1G := by
  obtain ⟨⟨views,cache,log⟩,hresolve,hviews⟩ := Option.map_eq_some_iff.mp signedViews_eq
  obtain ⟨carrierView,tail,rfl,hcarrier,htail⟩ := List.map_eq_cons_iff.mp hviews
  obtain ⟨sponsorView,none,rfl,hsponsor,hnone⟩ := List.map_eq_cons_iff.mp htail
  obtain rfl := List.map_eq_nil_iff.mp hnone
  simp only [Prod.mk.injEq] at hcarrier hsponsor
  obtain ⟨hcarrierValid,hkeys,_⟩ := hcarrier
  obtain ⟨hsponsorValid,_,hkey⟩ := hsponsor
  exact ⟨carrierView,sponsorView,_,hresolve,
    ((resolved_keys_signed hresolve (i := 0) rfl hcarrierValid).2 sampleKeys hkeys).2.2,
    ((resolved_keys_signed hresolve (i := 1) rfl hsponsorValid).1 key1G hkey).2⟩

end Sample
end TandemVerifier
