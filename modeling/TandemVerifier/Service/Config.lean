import Mathlib.Data.Finset.Card
import TandemVerifier.Library.Text
import TandemVerifier.Service.Availability
import TandemVerifier.Service.Identity

/-! # Configuration of the process

The arguments of `config.rs` are checked one after the other before anything is connected:
the specification is read and hashed, and mainnet needs a document that names the deployment.
The checks are collected here into one description of the accepted arguments, over the
characters of the texts and the lines of the specification.
-/
namespace TandemVerifier
open Library Library.Outcome

section Arguments

/-- Process arguments. Every consensus binding and release identity is explicit. -/
structure Args where
  network : String
  initTxid : String
  specPath : String
  specSha256 : String
  databaseUrl : String
  bitcoinRpcUrl : String
  bitcoinRpcUser : String
  bitcoinRpcPassword : String
  bindAddr : String
  signingKeyFile : String
  signingKeyId : String
  parserCommit : String
  indexerCommit : String
  parserBinarySha256 : String
  indexerBinarySha256 : String
  pollIntervalMs : UInt64
  zmqRawblockUrl : Option String
  allowMainnet : Bool
  mainnetAuthorizationFile : Option String
  mainnetAuthorizationSha256 : Option String
deriving DecidableEq

/-- Validated process configuration. -/
structure Config (Url Address : Type) where
  binding : Binding
  databaseUrl : String
  bitcoinRpcUrl : Url
  bitcoinRpcUser : String
  bitcoinRpcPassword : String
  bindAddr : Address
  signingKeyFile : String
  signingKeyId : String
  parserCommit : String
  indexerCommit : String
  parserBinarySha256 : Hash32
  indexerBinarySha256 : Hash32
  pollInterval : UInt64
  zmqRawblockUrl : Option String

/-- The release identity that must be stored with every applied block. -/
def Config.releaseIdentity {Url Address : Type} (config : Config Url Address) : ReleaseIdentity :=
  ⟨config.parserCommit,config.indexerCommit,config.parserBinarySha256,config.indexerBinarySha256⟩

/-- The files that the process reads and the parsers of other crates. -/
structure Surroundings (Url Address : Type) where
  read : String → Option Bytes
  parseUrl : String → Option Url
  scheme : Url → String
  parseAddress : String → Option Address
  parseJson : Bytes → Option Json

inductive ConfigError where
  | unsupportedNetwork (value : String)
  | initTxidLength
  | initTxidNotHexadecimal (error : Hex.Error)
  | initTxidZero
  | specSha256 (error : Hex.Error)
  | cannotReadSpecification (path : String)
  | byteOrderMark
  | invalidUtf8
  | carriageReturn
  | notOneFinalLf
  | trailingWhitespace (line : ℕ)
  | specificationMismatch (expected actual : Hash32)
  | databaseNotPostgres
  | invalidRpcUrl
  | rpcUrlScheme
  | invalidBindAddress
  | keyIdLength
  | keyIdCharacter
  | commit (name : String)
  | parserBinarySha256 (error : Hex.Error)
  | indexerBinarySha256 (error : Hex.Error)
  | pollInterval
  | emptyCredentials
  | mainnetNotAllowed
  | authorizationFileMissing
  | authorizationSha256Missing
  | authorizationSha256 (error : Hex.Error)
  | cannotReadAuthorization (path : String)
  | authorizationMismatch
  | invalidAuthorizationJson
  | authorizationSchema
  | authorizationProtocolId
  | authorizationSpecHash
  | twoNamedApprovers
  | approvalTimeMissing
deriving DecidableEq

def ConfigError.message : ConfigError → String
  | unsupportedNetwork value => "unsupported Bitcoin network: " ++ value
  | initTxidLength => "configured INIT txid must be 64 hexadecimal characters"
  | initTxidNotHexadecimal _ => "configured INIT txid is not hexadecimal"
  | initTxidZero => "configured INIT txid cannot be zero"
  | specSha256 _ => "TANDEM_SPEC_SHA256 must be 64 hexadecimal characters"
  | cannotReadSpecification path => "cannot read specification at " ++ path
  | byteOrderMark => "specification must not contain a UTF-8 BOM"
  | invalidUtf8 => "specification must be valid UTF-8"
  | carriageReturn => "specification must use LF line endings"
  | notOneFinalLf => "specification must end in exactly one LF"
  | trailingWhitespace line =>
    "specification line " ++ toString line ++ " has trailing horizontal whitespace"
  | specificationMismatch expected actual =>
    "specification SHA256 mismatch: expected " ++ Hash32.toHex expected ++ ", got " ++ Hash32.toHex actual
  | databaseNotPostgres => "DATABASE_URL must be PostgreSQL"
  | invalidRpcUrl => "invalid Bitcoin Core RPC URL"
  | rpcUrlScheme => "Bitcoin Core RPC URL must use HTTP or HTTPS"
  | invalidBindAddress => "invalid HTTP bind address"
  | keyIdLength => "signing key id length must be 1 through 128"
  | keyIdCharacter => "signing key id contains an unsupported character"
  | commit name => name ++ " must be 40 lowercase hexadecimal characters"
  | parserBinarySha256 _ => "invalid TANDEM_PARSER_BINARY_SHA256"
  | indexerBinarySha256 _ => "invalid TANDEM_INDEXER_BINARY_SHA256"
  | pollInterval => "poll interval must be at least 250 ms"
  | emptyCredentials => "Bitcoin Core RPC credentials cannot be empty"
  | mainnetNotAllowed => "mainnet requires TANDEM_ALLOW_MAINNET=true"
  | authorizationFileMissing => "mainnet requires TANDEM_MAINNET_AUTHORIZATION_FILE"
  | authorizationSha256Missing => "mainnet requires TANDEM_MAINNET_AUTHORIZATION_SHA256"
  | authorizationSha256 _ => "invalid mainnet authorization SHA256"
  | cannotReadAuthorization path => "cannot read mainnet authorization at " ++ path
  | authorizationMismatch => "mainnet authorization SHA256 mismatch"
  | invalidAuthorizationJson => "invalid mainnet authorization JSON"
  | authorizationSchema => "wrong mainnet authorization schema"
  | authorizationProtocolId => "mainnet authorization protocol id mismatch"
  | authorizationSpecHash => "mainnet authorization spec hash mismatch"
  | twoNamedApprovers => "mainnet authorization requires two named approvers"
  | approvalTimeMissing => "mainnet authorization approval time is missing"

end Arguments

section Checks

/-- The lines against trailing blanks and tabs, counted from an index on. -/
def checkLines : ℕ → List Bytes → Outcome ConfigError Unit
  | _,[] => pure ()
  | index,line :: rest => do
    failIf (line.getLast?.any fun byte => byte == 0x20 || byte == 0x09) (.trailingWhitespace (index + 1))
    checkLines (index + 1) rest

def verifySpecBytes (bytes : Bytes) : Outcome ConfigError Unit := do
  failIf ([0xef,0xbb,0xbf].isPrefixOf bytes) .byteOrderMark
  failIf (!ByteArray.validateUTF8 ⟨bytes.toArray⟩) .invalidUtf8
  failIf (bytes.contains 0x0d) .carriageReturn
  failIf (bytes.getLast? != some 0x0a) .notOneFinalLf
  failIf ([0x0a,0x0a].isSuffixOf bytes) .notOneFinalLf
  checkLines 0 (bytes.splitOn 0x0a)

def isAsciiDigit (byte : UInt8) : Bool := 0x30 ≤ byte && byte ≤ 0x39
def isAsciiUppercase (byte : UInt8) : Bool := 0x41 ≤ byte && byte ≤ 0x5a
def isAsciiLowercase (byte : UInt8) : Bool := 0x61 ≤ byte && byte ≤ 0x7a
def isAsciiHexdigit (byte : UInt8) : Bool :=
  isAsciiDigit byte || (0x41 ≤ byte && byte ≤ 0x46) || (0x61 ≤ byte && byte ≤ 0x66)

def isKeyIdByte (byte : UInt8) : Bool :=
  isAsciiDigit byte || isAsciiUppercase byte || isAsciiLowercase byte ||
    (ascii ['.','_',':','-']).contains byte

def validateKeyId (value : String) : Outcome ConfigError Unit := do
  let bytes := Text.bytes value
  failIf (!(1 ≤ bytes.length && bytes.length ≤ 128)) .keyIdLength
  failIf (!bytes.all isKeyIdByte) .keyIdCharacter

def validateCommit (name value : String) : Outcome ConfigError Unit :=
  let bytes := Text.bytes value
  failIf (!(bytes.length == 40 && bytes.all fun byte => isAsciiHexdigit byte && !isAsciiUppercase byte))
    (.commit name)

structure MainnetAuthorization where
  schema : String
  protocolId : String
  specHash : Hash32
  approvedBy : List String
  approvedAt : String
deriving DecidableEq

namespace MainnetAuthorization

def names : List String := ["schema","protocolId","specHash","approvedBy","approvedAt"]

/-- A text of the document. -/
def text (value : Option Json) : Option String := value.bind Json.asStr

/-- The fields by name or in order; an unknown field is refused. -/
def decode (value : Json) : Option MainnetAuthorization := do
  let fields ← match value with
    | .object entries =>
      if ∀ entry ∈ entries, entry.1 ∈ names then recordFields names value else none
    | _ => recordFields names value
  let schema ← text (fields "schema")
  let protocolId ← text (fields "protocolId")
  let specHash ← required (fields "specHash")
  let items ← (fields "approvedBy").bind Json.asArray
  let approvedBy ← items.mapM Json.asStr
  let approvedAt ← text (fields "approvedAt")
  some ⟨schema,protocolId,specHash,approvedBy,approvedAt⟩

/-- The set of approvers that have a name. -/
def namedApprovers (authorization : MainnetAuthorization) : List String :=
  ((authorization.approvedBy.map Text.trim).filter fun approver => !approver.isEmpty).dedup

end MainnetAuthorization

variable {Url Address : Type} (P : Primitives) (env : Surroundings Url Address)

def validateMainnetGate (args : Args) (binding : Binding) : Outcome ConfigError Unit :=
  if binding.network ≠ .mainnet then pure () else do
  failIf (!args.allowMainnet) .mainnetNotAllowed
  let path ← okOr args.mainnetAuthorizationFile .authorizationFileMissing
  let expected ← okOr args.mainnetAuthorizationSha256 .authorizationSha256Missing
  let expected ← ofExcept .authorizationSha256 (Hash32.fromHex expected)
  let bytes ← okOr (env.read path) (.cannotReadAuthorization path)
  failIf (P.sha256 bytes != expected) .authorizationMismatch
  let authorization ← okOr ((env.parseJson bytes).bind MainnetAuthorization.decode) .invalidAuthorizationJson
  failIf (authorization.schema != "urn:tandem:mainnet-authorization") .authorizationSchema
  failIf (authorization.protocolId != binding.protocolId) .authorizationProtocolId
  failIf (authorization.specHash != binding.specHash) .authorizationSpecHash
  failIf (authorization.namedApprovers.length < 2) .twoNamedApprovers
  failIf (Text.trim authorization.approvedAt).isEmpty .approvalTimeMissing

def startsWith (value start : String) : Bool := start.toList.isPrefixOf value.toList

/-- Validate explicit arguments. -/
def Config.fromArgs (args : Args) : Outcome ConfigError (Config Url Address) := do
  let network ← okOr (Network.fromStr args.network) (.unsupportedNetwork args.network)
  failIf ((Text.bytes args.initTxid).length != 64) .initTxidLength
  let initTxid ← ofExcept .initTxidNotHexadecimal (wireHash args.initTxid)
  failIf initTxid.isZero .initTxidZero
  let expectedSpecHash ← ofExcept .specSha256 (Hash32.fromHex args.specSha256)
  let spec ← okOr (env.read args.specPath) (.cannotReadSpecification args.specPath)
  verifySpecBytes spec
  let actualSpecHash := P.sha256 spec
  failIf (actualSpecHash != expectedSpecHash) (.specificationMismatch expectedSpecHash actualSpecHash)
  failIf (!(startsWith args.databaseUrl "postgres://" || startsWith args.databaseUrl "postgresql://"))
    .databaseNotPostgres
  let bitcoinRpcUrl ← okOr (env.parseUrl args.bitcoinRpcUrl) .invalidRpcUrl
  failIf (!(env.scheme bitcoinRpcUrl == "http" || env.scheme bitcoinRpcUrl == "https")) .rpcUrlScheme
  let bindAddr ← okOr (env.parseAddress args.bindAddr) .invalidBindAddress
  validateKeyId args.signingKeyId
  validateCommit "TANDEM_PARSER_COMMIT" args.parserCommit
  validateCommit "TANDEM_INDEXER_COMMIT" args.indexerCommit
  let parserBinarySha256 ← ofExcept .parserBinarySha256 (Hash32.fromHex args.parserBinarySha256)
  let indexerBinarySha256 ← ofExcept .indexerBinarySha256 (Hash32.fromHex args.indexerBinarySha256)
  failIf (args.pollIntervalMs < 250) .pollInterval
  failIf (args.bitcoinRpcUser.isEmpty || args.bitcoinRpcPassword.isEmpty) .emptyCredentials
  let binding : Binding := ⟨network,initTxid,actualSpecHash⟩
  validateMainnetGate P env args binding
  pure ⟨binding,args.databaseUrl,bitcoinRpcUrl,args.bitcoinRpcUser,args.bitcoinRpcPassword,bindAddr,
    args.signingKeyFile,args.signingKeyId,args.parserCommit,args.indexerCommit,parserBinarySha256,
    indexerBinarySha256,args.pollIntervalMs,args.zmqRawblockUrl⟩

end Checks

section Specification
variable {bytes : Bytes}

theorem checkLines_eq_ok {index : ℕ} {lines : List Bytes} : checkLines index lines = ok () ↔
    ∀ line ∈ lines, line.getLast? ≠ some 0x20 ∧ line.getLast? ≠ some 0x09 := by
  induction lines generalizing index with
  | nil => simp [checkLines]
  | cons line rest ih =>
    have hline : (line.getLast?.any fun byte => byte == 0x20 || byte == 0x09) = false ↔
        line.getLast? ≠ some 0x20 ∧ line.getLast? ≠ some 0x09 := by
      cases line.getLast? with
      | none => simp
      | some byte => simp
    rw [checkLines,bind_eq_ok,List.forall_mem_cons,← @ih (index + 1),← hline]
    simp

/-- A text of lines without blanks or tabs at their ends and without carriage returns, each
ended by a line feed, and the last of them not empty unless it is the only one. -/
structure CanonicalText (lines : List Bytes) (bytes : Bytes) : Prop where
  joined : bytes = Text.terminate 0x0a lines
  closed : lines = [[]] ∨ ∃ last, lines.getLast? = some last ∧ last ≠ []
  plain : ∀ line ∈ lines, 0x0a ∉ line ∧ 0x0d ∉ line ∧ line.getLast? ≠ some 0x20 ∧ line.getLast? ≠ some 0x09
  unmarked : ¬[0xef,0xbb,0xbf] <+: bytes
  encoded : ∃ text : String, bytes = Text.bytes text

theorem validateUTF8_iff : ByteArray.validateUTF8 ⟨bytes.toArray⟩ = true ↔
    ∃ text : String, bytes = Text.bytes text := by
  rw [ByteArray.validateUTF8_eq_true_iff]
  constructor
  · intro h
    refine ⟨String.fromUTF8 _ h,?_⟩
    simp [Text.bytes,String.fromUTF8]
  · rintro ⟨text,rfl⟩
    have hsame : (⟨(Text.bytes text).toArray⟩ : ByteArray) = text.toByteArray := by
      simp [Text.bytes]
    rw [hsame]
    exact text.isValidUTF8

/-- The checks, each as a fact about the bytes. -/
theorem verifySpecBytes_checks : verifySpecBytes bytes = ok () ↔ ¬[0xef,0xbb,0xbf] <+: bytes ∧
    (∃ text : String, bytes = Text.bytes text) ∧ 0x0d ∉ bytes ∧ bytes.getLast? = some 0x0a ∧
    ¬[0x0a,0x0a] <:+ bytes ∧
    ∀ line ∈ bytes.splitOn 0x0a, line.getLast? ≠ some 0x20 ∧ line.getLast? ≠ some 0x09 := by
  simp only [verifySpecBytes,bind_eq_ok,failIf_eq_ok,exists_const,checkLines_eq_ok,Bool.not_eq_eq_eq_not,
    Bool.not_false,validateUTF8_iff,bne_eq_false_iff_eq]
  simp only [Bool.eq_false_iff,ne_eq,List.isPrefixOf_iff_prefix,List.isSuffixOf_iff_suffix,
    List.contains_iff_mem]

theorem CanonicalText.lines_ne_nil {lines : List Bytes} (h : CanonicalText lines bytes) : lines ≠ [] := by
  rintro rfl
  rcases h.closed with hone | ⟨_,hlast,_⟩
  · cases hone
  · cases hlast

/-- The specification is accepted exactly when it is a canonical text. -/
theorem verifySpecBytes_eq_ok : verifySpecBytes bytes = ok () ↔ ∃ lines, CanonicalText lines bytes := by
  have hreturn : (0x0d : UInt8) ≠ 0x0a := by decide
  rw [verifySpecBytes_checks]
  constructor
  · rintro ⟨hmark,htext,hreturns,hlast,hdouble,htrailing⟩
    obtain ⟨lines,hsplit⟩ := Text.exists_lines hlast
    obtain ⟨hjoined,hlines⟩ := Text.splitOn_eq_lines.mp hsplit
    have hne : lines ≠ [] := by
      rintro rfl
      simp [hjoined,Text.terminate] at hlast
    rw [hsplit] at htrailing
    rw [hjoined] at hreturns hdouble
    refine ⟨lines,hjoined,(Text.terminate_closed hne hlines).mp hdouble,fun line hline => ?_,hmark,htext⟩
    have hfree : 0x0d ∉ line := fun hmem => hreturns ((Text.mem_terminate hreturn).mpr ⟨line,hline,hmem⟩)
    exact ⟨hlines line hline,hfree,htrailing line (List.mem_append_left _ hline)⟩
  · rintro ⟨lines,h⟩
    have hlines : ∀ line ∈ lines, 0x0a ∉ line := fun line hline => (h.plain line hline).1
    refine ⟨h.unmarked,h.encoded,?_,?_,?_,?_⟩
    · rw [h.joined,Text.mem_terminate hreturn]
      rintro ⟨line,hline,hmem⟩
      exact (h.plain line hline).2.1 hmem
    · rw [h.joined]
      exact Text.getLast?_terminate h.lines_ne_nil
    · rw [h.joined]
      exact (Text.terminate_closed h.lines_ne_nil hlines).mpr h.closed
    · rw [Text.splitOn_eq_lines.mpr ⟨h.joined,hlines⟩]
      intro line hline
      rcases List.mem_append.mp hline with hline | hline
      · exact (h.plain line hline).2.2
      · obtain rfl := List.mem_singleton.mp hline
        simp

end Specification

section Names

theorem keyId_ascii :
    Text.AsciiTest isKeyIdByte fun c => c.isAlphanum || ['.','_',':','-'].contains c where
  same := by decide +kernel
  bytes := by decide +kernel
  chars c h := by
    have h : (((decide (c.val ≥ 'A'.val ∧ c.val ≤ 'Z'.val) || (c.val ≥ 'a'.val && c.val ≤ 'z'.val)) ||
        (c.val ≥ '0'.val && c.val ≤ '9'.val)) || ['.','_',':','-'].contains c) = true := h
    simp only [Bool.or_eq_true,Bool.and_eq_true,decide_eq_true_eq,List.contains_iff_mem,
      UInt32.le_iff_toNat_le,GE.ge] at h
    rcases h with ((⟨_,h⟩ | ⟨_,h⟩) | ⟨_,h⟩) | h
    · exact Nat.lt_of_le_of_lt h (by decide)
    · exact Nat.lt_of_le_of_lt h (by decide)
    · exact Nat.lt_of_le_of_lt h (by decide)
    · have hall : (['.','_',':','-'].all fun c => c.toNat < 128) = true := by decide
      exact of_decide_eq_true (List.all_eq_true.mp hall c h)

theorem commit_ascii : Text.AsciiTest (fun byte => isAsciiHexdigit byte && !isAsciiUppercase byte)
    fun c => ('0' ≤ c && c ≤ '9') || ('a' ≤ c && c ≤ 'f') where
  same := by decide +kernel
  bytes := by decide +kernel
  chars c h := by
    simp only [Bool.or_eq_true,Bool.and_eq_true,decide_eq_true_eq] at h
    rcases h with ⟨_,h⟩ | ⟨_,h⟩
    · have hle : c.toNat ≤ 57 := h
      omega
    · have hle : c.toNat ≤ 102 := h
      omega

theorem validateKeyId_eq_ok {value : String} : validateKeyId value = ok () ↔
    1 ≤ value.toList.length ∧ value.toList.length ≤ 128 ∧
      ∀ c ∈ value.toList, c.isAlphanum = true ∨ c ∈ ['.','_',':','-'] := by
  have hall : (∀ c ∈ value.toList, c.isAlphanum = true ∨ c ∈ ['.','_',':','-']) ↔
      value.toList.all (fun c => c.isAlphanum || ['.','_',':','-'].contains c) = true := by
    simp only [List.all_eq_true,Bool.or_eq_true,List.contains_iff_mem]
  simp only [validateKeyId,bind_eq_ok,failIf_eq_ok,exists_const,Bool.not_eq_eq_eq_not,Bool.not_false,
    Bool.and_eq_true,decide_eq_true_eq,keyId_ascii.all_bytes]
  rw [hall,← and_assoc]
  refine and_congr_left fun hpass => ?_
  rw [keyId_ascii.length_bytes hpass]

theorem validateCommit_eq_ok {name value : String} :
    validateCommit name value = ok () ↔ Store.isCommit value = true := by
  simp only [validateCommit,failIf_eq_ok,Bool.not_eq_eq_eq_not,Bool.not_false,Store.isCommit]
  rw [Bool.and_eq_true,Bool.and_eq_true,beq_iff_eq,beq_iff_eq,commit_ascii.all_bytes]
  refine and_congr_left fun hpass => ?_
  rw [commit_ascii.length_bytes hpass]

end Names

section Accepted
variable {Url Address : Type} {P : Primitives} {env : Surroundings Url Address} {args : Args}
variable {binding : Binding} {config : Config Url Address}

theorem Hash32.fromHex_eq_ok {text : String} {hash : Hash32} :
    Hash32.fromHex text = .ok hash ↔ Text.lower text = Hash32.toHex hash := Hex.decodeToSlice_eq_ok

theorem wireHash_eq_ok {text : String} {hash : Hash32} :
    wireHash text = .ok hash ↔ Text.lower text = displayHash hash := by
  rw [displayHash_eq,← Hash32.fromHex_eq_ok,wireHash]
  cases Hash32.fromHex text with
  | error error => simp [Except.map]
  | ok decoded =>
    simp only [Except.map,Except.ok.injEq]
    constructor
    · rintro rfl
      rw [Hash32.reverse_reverse]
    · rintro rfl
      rw [Hash32.reverse_reverse]

/-- The document names the deployment, a time and two different approvers. -/
structure MainnetAuthorization.Approves (authorization : MainnetAuthorization) (binding : Binding) :
    Prop where
  schema : authorization.schema = "urn:tandem:mainnet-authorization"
  protocolId : authorization.protocolId = binding.protocolId
  specHash : authorization.specHash = binding.specHash
  approvers : ∃ a ∈ authorization.approvedBy, ∃ b ∈ authorization.approvedBy,
    Text.trim a ≠ "" ∧ Text.trim b ≠ "" ∧ Text.trim a ≠ Text.trim b
  approvedAt : Text.trim authorization.approvedAt ≠ ""

/-- Mainnet is switched on and the document with the expected hash approves of the deployment. -/
structure MainnetAuthorized (P : Primitives) (env : Surroundings Url Address) (args : Args)
    (binding : Binding) : Prop where
  allowed : args.allowMainnet = true
  document : ∃ path expected bytes value authorization, args.mainnetAuthorizationFile = some path ∧
    args.mainnetAuthorizationSha256 = some expected ∧ env.read path = some bytes ∧
    Text.lower expected = Hash32.toHex (P.sha256 bytes) ∧ env.parseJson bytes = some value ∧
    MainnetAuthorization.decode value = some authorization ∧ authorization.Approves binding

theorem MainnetAuthorization.two_named {authorization : MainnetAuthorization} :
    2 ≤ authorization.namedApprovers.length ↔ ∃ a ∈ authorization.approvedBy, ∃ b ∈ authorization.approvedBy,
      Text.trim a ≠ "" ∧ Text.trim b ≠ "" ∧ Text.trim a ≠ Text.trim b := by
  have hmem : ∀ name,
      name ∈ (authorization.approvedBy.map Text.trim).filter (fun approver => !approver.isEmpty) ↔
      ∃ approver ∈ authorization.approvedBy, Text.trim approver = name ∧ name ≠ "" := by
    intro name
    simp only [List.mem_filter,List.mem_map,Bool.not_eq_eq_eq_not,Bool.not_true,String.isEmpty_eq_false_iff]
    constructor
    · rintro ⟨⟨approver,happrover,htrim⟩,hnamed⟩
      exact ⟨approver,happrover,htrim,hnamed⟩
    · rintro ⟨approver,happrover,htrim,hnamed⟩
      exact ⟨⟨approver,happrover,htrim⟩,hnamed⟩
  rw [namedApprovers,← List.card_toFinset,Nat.succ_le_iff,Finset.one_lt_card]
  simp only [List.mem_toFinset,hmem]
  constructor
  · rintro ⟨_,⟨a,ha,rfl,hnamed⟩,_,⟨b,hb,rfl,hnamed'⟩,hne⟩
    exact ⟨a,ha,b,hb,hnamed,hnamed',hne⟩
  · rintro ⟨a,ha,b,hb,hnamed,hnamed',hne⟩
    exact ⟨_,⟨a,ha,rfl,hnamed⟩,_,⟨b,hb,rfl,hnamed'⟩,hne⟩

/-- Only mainnet is gated, and there the authorization decides. -/
theorem validateMainnetGate_eq_ok : validateMainnetGate P env args binding = ok () ↔
    (binding.network = .mainnet → MainnetAuthorized P env args binding) := by
  unfold validateMainnetGate
  by_cases hnetwork : binding.network = .mainnet
  · rw [if_neg (not_not.mpr hnetwork)]
    simp only [hnetwork,forall_const,bind_eq_ok,failIf_eq_ok,okOr_eq_ok,ofExcept_eq_ok,exists_const,
      Bool.not_eq_eq_eq_not,Bool.not_false,bne_eq_false_iff_eq,Hash32.fromHex_eq_ok,Option.bind_eq_some_iff,
      decide_eq_false_iff_not,Nat.not_lt,MainnetAuthorization.two_named,String.isEmpty_eq_false_iff]
    constructor
    · rintro ⟨hallowed,path,hpath,text,htext,expected,hexpected,bytes,hread,rfl,authorization,
        ⟨value,hvalue,hdecode⟩,hschema,hid,hspec,hnamed,hdated⟩
      exact ⟨hallowed,path,text,bytes,value,authorization,hpath,htext,hread,hexpected,hvalue,hdecode,
        hschema,hid,hspec,hnamed,hdated⟩
    · rintro ⟨hallowed,path,text,bytes,value,authorization,hpath,htext,hread,hexpected,hvalue,hdecode,
        happroves⟩
      exact ⟨hallowed,path,hpath,text,htext,_,hexpected,bytes,hread,rfl,authorization,⟨value,hvalue,hdecode⟩,
        happroves.schema,happroves.protocolId,happroves.specHash,happroves.approvers,happroves.approvedAt⟩
  · simp [hnetwork]

/-- The arguments describe the configuration. -/
structure Args.Describe (P : Primitives) (env : Surroundings Url Address) (args : Args)
    (config : Config Url Address) : Prop where
  network : args.network = config.binding.network.label
  initTxid : Text.lower args.initTxid = displayHash config.binding.initTxid
  initTxid_ne : config.binding.initTxid ≠ Hash32.zero
  specification : ∃ spec lines, env.read args.specPath = some spec ∧ CanonicalText lines spec ∧
    config.binding.specHash = P.sha256 spec
  specSha256 : Text.lower args.specSha256 = Hash32.toHex config.binding.specHash
  database : "postgres://".toList <+: args.databaseUrl.toList ∨
    "postgresql://".toList <+: args.databaseUrl.toList
  rpcUrl : env.parseUrl args.bitcoinRpcUrl = some config.bitcoinRpcUrl
  scheme : env.scheme config.bitcoinRpcUrl = "http" ∨ env.scheme config.bitcoinRpcUrl = "https"
  bindAddr : env.parseAddress args.bindAddr = some config.bindAddr
  keyId : 1 ≤ args.signingKeyId.toList.length ∧ args.signingKeyId.toList.length ≤ 128 ∧
    ∀ c ∈ args.signingKeyId.toList, c.isAlphanum = true ∨ c ∈ ['.','_',':','-']
  release : config.releaseIdentity.Storable
  parserBinary : Text.lower args.parserBinarySha256 = Hash32.toHex config.parserBinarySha256
  indexerBinary : Text.lower args.indexerBinarySha256 = Hash32.toHex config.indexerBinarySha256
  poll : 250 ≤ args.pollIntervalMs
  credentials : args.bitcoinRpcUser ≠ "" ∧ args.bitcoinRpcPassword ≠ ""
  mainnet : config.binding.network = .mainnet → MainnetAuthorized P env args config.binding
  passed : config = ⟨config.binding,args.databaseUrl,config.bitcoinRpcUrl,args.bitcoinRpcUser,
    args.bitcoinRpcPassword,config.bindAddr,args.signingKeyFile,args.signingKeyId,args.parserCommit,
    args.indexerCommit,config.parserBinarySha256,config.indexerBinarySha256,args.pollIntervalMs,
    args.zmqRawblockUrl⟩

/-- The arguments are accepted exactly when they describe a configuration, which is returned. -/
theorem fromArgs_eq_ok : Config.fromArgs P env args = ok config ↔ args.Describe P env config := by
  simp only [Config.fromArgs,bind_eq_ok,failIf_eq_ok,okOr_eq_ok,ofExcept_eq_ok,exists_const,
    Bool.not_eq_eq_eq_not,Bool.not_false,bne_eq_false_iff_eq,Hash32.fromHex_eq_ok,wireHash_eq_ok,
    Network.fromStr_eq_some,Bool.or_eq_true,beq_iff_eq,startsWith,List.isPrefixOf_iff_prefix,
    Bool.or_eq_false_iff,String.isEmpty_eq_false_iff,decide_eq_false_iff_not,UInt64.not_lt,
    Hash32.isZero,beq_eq_false_iff_ne]
  constructor
  · rintro ⟨network,hnetwork,_,initTxid,hinit,hzero,_,hspecSha,spec,hread,_,hspec,rfl,hdatabase,url,hurl,
      hscheme,address,haddress,_,hkeyId,_,hparser,_,hindexer,parser,hparserHash,indexer,hindexerHash,hpoll,
      hcredentials,_,hgate,hconfig⟩
    obtain ⟨lines,htext⟩ := verifySpecBytes_eq_ok.mp hspec
    obtain rfl := ok.inj hconfig
    exact ⟨hnetwork,hinit,hzero,⟨spec,lines,hread,htext,rfl⟩,hspecSha,hdatabase,hurl,hscheme,haddress,
      validateKeyId_eq_ok.mp hkeyId,⟨validateCommit_eq_ok.mp hparser,validateCommit_eq_ok.mp hindexer⟩,
      hparserHash,hindexerHash,hpoll,hcredentials,validateMainnetGate_eq_ok.mp hgate,rfl⟩
  · intro h
    obtain ⟨spec,lines,hread,htext,hspec⟩ := h.specification
    have hlength : (Text.bytes args.initTxid).length = 64 := by
      rw [Hex.lower_encode_length (h.initTxid.trans (displayHash_eq _)),ByteVector.toList_length]
    have hcommits := h.release
    rw [h.passed] at hcommits
    refine ⟨_,h.network,hlength,_,h.initTxid,h.initTxid_ne,_,h.specSha256,spec,hread,
      (),verifySpecBytes_eq_ok.mpr ⟨lines,htext⟩,hspec.symm,h.database,_,h.rpcUrl,h.scheme,_,h.bindAddr,
      (),validateKeyId_eq_ok.mpr h.keyId,(),validateCommit_eq_ok.mpr hcommits.1,(),
      validateCommit_eq_ok.mpr hcommits.2,_,h.parserBinary,_,h.indexerBinary,h.poll,h.credentials,(),?_,?_⟩
    · rw [← hspec]
      exact validateMainnetGate_eq_ok.mpr h.mainnet
    · rw [← hspec]
      exact congrArg ok h.passed.symm

end Accepted
end TandemVerifier
