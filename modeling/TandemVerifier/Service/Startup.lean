import TandemVerifier.Service.Attestation
import TandemVerifier.Service.Config

/-! # Start of the process

`main.rs` checks the arguments, loads the key and connects to the database before it starts
the worker and the handlers. A start can still fail after the database is bound: in particular
a binary without the feature `zmq` refuses a configured endpoint only then. What a started
process signs is about the specification it has read, and its database stays closed to
processes with another one.
-/
namespace TandemVerifier
open Library Library.Outcome

section Start
variable {Url Address : Type} {P : Primitives} {binding : Binding}

/-- How the binary was built, and which requests to the machine and to other servers succeed. -/
structure Host (Address : Type) where
  zmqFeature : Bool
  connectPostgres : String → Bool
  migrate : Bool
  buildClient : Bool
  connectZmq : String → Bool
  listen : Address → Bool

/-- A failure before the database is bound. -/
inductive StartError where
  | config (error : ConfigError)
  | signer (error : LoadError)
  | postgres
  | migrations
  | store (error : StoreError)
deriving DecidableEq

/-- A failure after the database is bound. -/
inductive LaunchError where
  | httpClient
  | zmqFeature
  | zmqConnect
  | listener
deriving DecidableEq

/-- The failures of the two sockets carry the messages of other crates. -/
def LaunchError.message : LaunchError → Option String
  | httpClient => some "cannot build Bitcoin Core HTTP client"
  | zmqFeature => some "TANDEM_ZMQ_RAWBLOCK_URL is set but this binary lacks the zmq feature"
  | zmqConnect | listener => none

inductive Wakeup where
  | poll (interval : UInt64)
  | zmq (endpoint : String)
deriving DecidableEq

/-- What `main` hands to its two tasks. -/
structure Process (Url Address : Type) where
  config : Config Url Address
  signer : AgreementSigner
  worker : Ingestion
  wakeup : Wakeup

/-- `read_to_string`, which fails on bytes that are not UTF-8. -/
def Surroundings.readToString (env : Surroundings Url Address) (path : String) : Option String :=
  (env.read path).bind fun bytes => String.fromUTF8? ⟨bytes.toArray⟩

/-- `Store::connect`: the pool, the migrations and the binding. -/
def Store.connect (P : Primitives) (host : Host Address) (databaseUrl : String) (db : Database)
    (binding : Binding) : Outcome StartError (Database × ChainState) := do
  failIf (!host.connectPostgres databaseUrl) .postgres
  failIf (!host.migrate) .migrations
  mapErr .store (Store.bindOrLoad P db binding)

def buildWakeup (host : Host Address) (config : Config Url Address) : Except LaunchError Wakeup :=
  match config.zmqRawblockUrl with
  | some endpoint =>
    if host.zmqFeature then
      if host.connectZmq endpoint then .ok (.zmq endpoint) else .error .zmqConnect
    else .error .zmqFeature
  | none => .ok (.poll config.pollInterval)

/-- `main` from the bound database to the two tasks. The worker is spawned before the listener is
bound, so that the database can already have changed when this fails. -/
def Process.launch (host : Host Address) (config : Config Url Address) (signer : AgreementSigner)
    (state : ChainState) : Except LaunchError (Process Url Address) :=
  if !host.buildClient then .error .httpClient else
  match buildWakeup host config with
  | .error error => .error error
  | .ok wakeup =>
    let worker := Ingestion.new state config.releaseIdentity
    if host.listen config.bindAddr then .ok ⟨config,signer,worker,wakeup⟩ else .error .listener

/-- `main` up to the two tasks: the arguments, the key, the database and what is built on it. -/
def Process.start (P : Primitives) (env : Surroundings Url Address) (host : Host Address)
    (fromBytes : ByteVector 32 → SigningKey) (args : Args) (db : Database) :
    Outcome StartError (Database × Except LaunchError (Process Url Address)) := do
  let config ← mapErr .config (Config.fromArgs P env args)
  let signer ← ofExcept .signer
    (AgreementSigner.load fromBytes (env.readToString config.signingKeyFile) config.signingKeyId)
  let (db,state) ← Store.connect P host config.databaseUrl db config.binding
  pure (db,Process.launch host config signer state)

variable {env : Surroundings Url Address} {host : Host Address} {fromBytes : ByteVector 32 → SigningKey}
variable {args : Args} {db db' later : Database} {process : Process Url Address} {signer : AgreementSigner}
variable {config : Config Url Address} {state : ChainState} {launched : Except LaunchError (Process Url Address)}

theorem Store.bindOrLoad_of (h : ∀ row, db.protocolState = some row → row.binding = binding) :
    ∃ db' state, Store.bindOrLoad P db binding = ok (db',state) := by
  unfold Store.bindOrLoad
  cases hrow : db.protocolState with
  | none => exact ⟨_,_,rfl⟩
  | some row => exact ⟨db,row.state,by simp [h row hrow,failIf]⟩

/-- A start has read a configuration and a key, and has bound the database. -/
structure Process.Bound (P : Primitives) (env : Surroundings Url Address) (host : Host Address)
    (fromBytes : ByteVector 32 → SigningKey) (args : Args) (db db' : Database)
    (config : Config Url Address) (signer : AgreementSigner) (state : ChainState) : Prop where
  described : args.Describe P env config
  keyed : ∃ text seed, env.readToString args.signingKeyFile = some text ∧
    Text.lower (Text.trim text) = Hex.encode (ByteVector.toList (n := 32) seed) ∧
      signer = .ofKey args.signingKeyId (fromBytes seed)
  reached : host.connectPostgres config.databaseUrl = true ∧ host.migrate = true
  bound : Store.bindOrLoad P db config.binding = ok (db',state)

theorem Store.connect_eq_ok {databaseUrl : String} :
    Store.connect P host databaseUrl db binding = ok (db',state) ↔
      (host.connectPostgres databaseUrl = true ∧ host.migrate = true) ∧
        Store.bindOrLoad P db binding = ok (db',state) := by
  simp only [Store.connect,bind_eq_ok,failIf_eq_ok,mapErr_eq_ok,Bool.not_eq_eq_eq_not,Bool.not_false]
  constructor
  · rintro ⟨_,hconnect,_,hmigrate,hbind⟩
    exact ⟨⟨hconnect,hmigrate⟩,hbind⟩
  · rintro ⟨⟨hconnect,hmigrate⟩,hbind⟩
    exact ⟨(),hconnect,(),hmigrate,hbind⟩

theorem Process.start_eq_ok : Process.start P env host fromBytes args db = ok (db',launched) ↔
    ∃ config signer state, Process.Bound P env host fromBytes args db db' config signer state ∧
      launched = Process.launch host config signer state := by
  simp only [Process.start,bind_eq_ok,mapErr_eq_ok,ofExcept_eq_ok,fromArgs_eq_ok,AgreementSigner.load_eq_ok,
    pure_eq_ok,Prod.exists,Store.connect_eq_ok]
  constructor
  · rintro ⟨config,hdescribe,signer,⟨text,seed,hread,hseed,rfl⟩,bound,state,⟨hreached,hbind⟩,hresult⟩
    obtain ⟨rfl,rfl⟩ := Prod.mk.inj (ok.inj hresult)
    rw [hdescribe.passed] at hread
    refine ⟨config,_,state,⟨hdescribe,⟨text,seed,hread,hseed,?_⟩,hreached,hbind⟩,rfl⟩
    rw [hdescribe.passed]
  · rintro ⟨config,signer,state,⟨hdescribe,⟨text,seed,hread,hseed,hsigner⟩,hreached,hbind⟩,rfl⟩
    have hfile : config.signingKeyFile = args.signingKeyFile := by rw [hdescribe.passed]
    have hkeyId : config.signingKeyId = args.signingKeyId := by rw [hdescribe.passed]
    exact ⟨config,hdescribe,signer,⟨text,seed,by rw [hfile,hread],hseed,by rw [hkeyId,hsigner]⟩,db',state,
      ⟨hreached,hbind⟩,rfl⟩

/-- The machine grants what a configuration asks for once the database is bound. -/
structure Host.Grants (host : Host Address) (config : Config Url Address) : Prop where
  client : host.buildClient = true
  wakeup : ∀ endpoint, config.zmqRawblockUrl = some endpoint →
    host.zmqFeature = true ∧ host.connectZmq endpoint = true
  listener : host.listen config.bindAddr = true

theorem buildWakeup_ok : (∃ wakeup, buildWakeup host config = .ok wakeup) ↔
    ∀ endpoint, config.zmqRawblockUrl = some endpoint →
      host.zmqFeature = true ∧ host.connectZmq endpoint = true := by
  unfold buildWakeup
  cases config.zmqRawblockUrl with
  | none => simp
  | some endpoint => cases hfeature : host.zmqFeature <;> cases hconnect : host.connectZmq endpoint <;> simp_all

theorem Process.launch_eq_ok : Process.launch host config signer state = .ok process ↔
    host.buildClient = true ∧ buildWakeup host config = .ok process.wakeup ∧
      host.listen config.bindAddr = true ∧
      process = ⟨config,signer,Ingestion.new state config.releaseIdentity,process.wakeup⟩ := by
  unfold Process.launch
  cases hclient : host.buildClient with
  | false => simp
  | true =>
    cases hwakeup : buildWakeup host config with
    | error error => simp
    | ok wakeup =>
      cases hlisten : host.listen config.bindAddr with
      | false => simp
      | true =>
        simp only [Bool.not_true,Bool.false_eq_true,if_false,if_true,Except.ok.injEq,true_and]
        constructor
        · rintro rfl
          exact ⟨rfl,rfl⟩
        · rintro ⟨rfl,hprocess⟩
          exact hprocess.symm

/-- A launch succeeds exactly when the machine grants what the configuration asks for. -/
theorem Process.launch_succeeds : (∃ process, Process.launch host config signer state = .ok process) ↔
    host.Grants config := by
  simp only [Process.launch_eq_ok]
  constructor
  · rintro ⟨process,hclient,hwakeup,hlisten,_⟩
    exact ⟨hclient,buildWakeup_ok.mp ⟨_,hwakeup⟩,hlisten⟩
  · rintro ⟨hclient,hwakeup,hlisten⟩
    obtain ⟨wakeup,hbuilt⟩ := buildWakeup_ok.mpr hwakeup
    exact ⟨⟨config,signer,Ingestion.new state config.releaseIdentity,wakeup⟩,hclient,hbuilt,hlisten,rfl⟩

section Answers
variable {height : UInt64} {allowed : Service → Service → Prop} {start service : Service}
variable {envelope : AgreementEnvelope}

end Answers

theorem Process.Bound.bound_to
    (h : Process.Bound P env host fromBytes args db db' config signer state) :
    db'.BoundTo config.binding := by
  rcases Store.bindOrLoad_ok h.bound with ⟨hrow,rfl⟩ | ⟨_,_,rfl⟩
  · exact ⟨state,hrow⟩
  · exact ⟨state,rfl⟩

theorem Database.BoundTo.commits {good : BlockView → Prop} (h : db.BoundTo binding)
    (hlater : Relation.ReflTransGen (Commit P good) db later) : later.BoundTo binding := by
  induction hlater with
  | refl => exact h
  | tail _ hcommit ih => exact ih.commit hcommit

/-- A process can only start on the database of its own deployment. -/
theorem Process.Bound.same_binding (h : Process.Bound P env host fromBytes args db db' config signer state)
    (hbound : db.BoundTo binding) : config.binding = binding := by
  obtain ⟨stored,hstored⟩ := hbound
  rcases Store.bindOrLoad_ok h.bound with ⟨hrow,_⟩ | ⟨hnone,_⟩
  · exact congrArg ProtocolRow.binding (Option.some.inj (hrow.symm.trans hstored))
  · simp [hstored] at hnone

/-- Two documents of one hash that are read alike approve of the same deployment. -/
theorem MainnetAuthorized.same_binding {Url' Address' : Type} {env' : Surroundings Url' Address'}
    {args' : Args} {binding' : Binding} (h : MainnetAuthorized P env args binding)
    (h' : MainnetAuthorized P env' args' binding')
    (hparser : env.parseJson = env'.parseJson) (hexpected : args.mainnetAuthorizationSha256.map Text.lower =
      args'.mainnetAuthorizationSha256.map Text.lower) :
    binding = binding' ∨ ∃ document document', args.mainnetAuthorizationFile.bind env.read = some document ∧
      args'.mainnetAuthorizationFile.bind env'.read = some document' ∧
        Collision P.sha256 [document,document'] := by
  obtain ⟨path,text,document,value,authorization,hpath,htext,hread,hhash,hvalue,hdecode,
    happroves⟩ := h.document
  obtain ⟨path',text',document',value',authorization',hpath',htext',hread',hhash',hvalue',hdecode',
    happroves'⟩ := h'.document
  rw [htext,htext',Option.map_some,Option.map_some,Option.some.injEq,hhash,hhash'] at hexpected
  have hsame : P.sha256 document = P.sha256 document' := by
    apply hexEncode_injective
    rw [hexEncode_eq,hexEncode_eq]
    exact hexpected
  have hboth : document ∈ [document,document'] ∧ document' ∈ [document,document'] := by simp
  rcases eq_or_collision hboth.1 hboth.2 hsame with rfl | hcollision
  · left
    rw [hparser,hvalue',Option.some.injEq] at hvalue
    rw [hvalue,hdecode,Option.some.injEq] at hdecode'
    rw [← hdecode'] at happroves'
    obtain ⟨hnetwork,hinit⟩ := protocolId_injective (happroves.protocolId.symm.trans happroves'.protocolId)
    obtain ⟨network,initTxid,specHash⟩ := binding
    obtain ⟨network',initTxid',specHash'⟩ := binding'
    rw [Binding.mk.injEq]
    exact ⟨hnetwork,hinit,happroves.specHash.symm.trans happroves'.specHash⟩
  · right
    refine ⟨document,document',?_,?_,hcollision⟩
    · rw [hpath]
      exact hread
    · rw [hpath']
      exact hread'

/-- A process starts exactly when its arguments describe a configuration, its key file holds the
digits of a seed, the database can be reached and is unbound or bound to the described
deployment, and the machine grants what the configuration asks for: for a configured endpoint
that is a binary with the feature `zmq`. A start that fails after the database was bound leaves
it bound to the described deployment. -/
theorem startup_accepts_exactly :
    ((∃ db' process, Process.start P env host fromBytes args db = ok (db',.ok process)) ↔
      ∃ config, args.Describe P env config ∧
        (∃ text seed, env.readToString args.signingKeyFile = some text ∧
          Text.lower (Text.trim text) = Hex.encode (ByteVector.toList (n := 32) seed)) ∧
        (host.connectPostgres config.databaseUrl = true ∧ host.migrate = true) ∧
        (∀ row, db.protocolState = some row → row.binding = config.binding) ∧ host.Grants config) ∧
    ∀ db' error, Process.start P env host fromBytes args db = ok (db',.error error) →
      ∃ config, args.Describe P env config ∧ db'.BoundTo config.binding ∧ ¬host.Grants config := by
  refine ⟨⟨?_,?_⟩,?_⟩
  · rintro ⟨db',process,hstart⟩
    obtain ⟨config,signer,state,hbound,hlaunch⟩ := Process.start_eq_ok.mp hstart
    obtain ⟨text,seed,hread,hseed,_⟩ := hbound.keyed
    refine ⟨config,hbound.described,⟨text,seed,hread,hseed⟩,hbound.reached,fun row hrow => ?_,
      Process.launch_succeeds.mp ⟨process,hlaunch.symm⟩⟩
    exact (hbound.same_binding ⟨row.state,hrow⟩).symm
  · rintro ⟨config,hdescribed,⟨text,seed,hread,hseed⟩,hreached,hbinding,hgrants⟩
    obtain ⟨db',state,hbind⟩ := Store.bindOrLoad_of hbinding
    have hbound : Process.Bound P env host fromBytes args db db' config
        (.ofKey args.signingKeyId (fromBytes seed)) state :=
      ⟨hdescribed,⟨text,seed,hread,hseed,rfl⟩,hreached,hbind⟩
    obtain ⟨process,hlaunch⟩ := Process.launch_succeeds.mpr hgrants
    exact ⟨db',process,Process.start_eq_ok.mpr ⟨config,_,state,hbound,hlaunch.symm⟩⟩
  · intro db' error hstart
    obtain ⟨config,signer,state,hbound,hlaunch⟩ := Process.start_eq_ok.mp hstart
    refine ⟨config,hbound.described,hbound.bound_to,fun hgrants => ?_⟩
    obtain ⟨process,hsucceeds⟩ := Process.launch_succeeds.mpr hgrants
    cases hlaunch.trans hsucceeds

section Sample

def sampleSpec : Bytes := ascii ['a','b','c'] ++ [0x0a]

/-- The key file ends in a line feed, as the specification does. -/
def sampleSeed : String :=
  String.ofList ([] ++ (Hex.encode (ByteVector.replicate 32 7).toList).toList ++ [Char.ofNat 10])

def sampleSurroundings : Surroundings String String where
  read path := if path = "tandem.md" then some sampleSpec
    else if path = "seed" then some (Text.bytes sampleSeed) else none
  parseUrl text := if text = "http://127.0.0.1:18443/" then some text else none
  scheme _ := "http"
  parseAddress text := if text = "127.0.0.1:8088" then some text else none
  parseJson _ := none

/-- A binary without the feature `zmq` whose other requests succeed. -/
def sampleHost : Host String where
  zmqFeature := false
  connectPostgres _ := true
  migrate := true
  buildClient := true
  connectZmq _ := true
  listen _ := true

def sampleArgs (endpoint : Option String) : Args where
  network := "regtest"
  initTxid := displayHash (sampleHash 1)
  specPath := "tandem.md"
  specSha256 := Hash32.toHex (bitcoinPrimitives.sha256 sampleSpec)
  databaseUrl := "postgres://localhost/tandem"
  bitcoinRpcUrl := "http://127.0.0.1:18443/"
  bitcoinRpcUser := "user"
  bitcoinRpcPassword := "password"
  bindAddr := "127.0.0.1:8088"
  signingKeyFile := "seed"
  signingKeyId := "test-key"
  parserCommit := sampleRelease.parserCommit
  indexerCommit := sampleRelease.indexerCommit
  parserBinarySha256 := Hash32.toHex sampleRelease.parserBinarySha256
  indexerBinarySha256 := Hash32.toHex sampleRelease.indexerBinarySha256
  pollIntervalMs := 5000
  zmqRawblockUrl := endpoint
  allowMainnet := false
  mainnetAuthorizationFile := none
  mainnetAuthorizationSha256 := none

def startedBinding : Binding := ⟨.regtest,sampleHash 1,bitcoinPrimitives.sha256 sampleSpec⟩

def sampleConfig (endpoint : Option String) : Config String String where
  binding := startedBinding
  databaseUrl := "postgres://localhost/tandem"
  bitcoinRpcUrl := "http://127.0.0.1:18443/"
  bitcoinRpcUser := "user"
  bitcoinRpcPassword := "password"
  bindAddr := "127.0.0.1:8088"
  signingKeyFile := "seed"
  signingKeyId := "test-key"
  parserCommit := sampleRelease.parserCommit
  indexerCommit := sampleRelease.indexerCommit
  parserBinarySha256 := sampleRelease.parserBinarySha256
  indexerBinarySha256 := sampleRelease.indexerBinarySha256
  pollInterval := 5000
  zmqRawblockUrl := endpoint

theorem sampleSpec_canonical : CanonicalText [[0x61,0x62,0x63]] sampleSpec where
  joined := rfl
  closed := Or.inr ⟨_,rfl,by decide⟩
  plain := by decide
  unmarked := by decide
  encoded := ⟨String.ofList ['a','b','c',Char.ofNat 10],by rw [Text.bytes_eq,String.toList_ofList]; decide⟩

theorem sampleArgs_describe (endpoint : Option String) :
    (sampleArgs endpoint).Describe bitcoinPrimitives sampleSurroundings (sampleConfig endpoint) where
  network := rfl
  initTxid := wireHash_eq_ok.mp (wireHash_displayHash _)
  initTxid_ne := (by decide : sampleHash 1 ≠ Hash32.zero)
  specification := ⟨sampleSpec,_,by simp [sampleSurroundings,sampleArgs],sampleSpec_canonical,rfl⟩
  specSha256 := Hex.lower_encode _
  database := Or.inl (by decide : "postgres://".toList <+: "postgres://localhost/tandem".toList)
  rpcUrl := rfl
  scheme := Or.inl rfl
  bindAddr := rfl
  keyId := validateKeyId_eq_ok.mp (by decide : validateKeyId "test-key" = ok ())
  release := sampleRelease_storable
  parserBinary := Hex.lower_encode _
  indexerBinary := Hex.lower_encode _
  poll := (by decide : (250 : UInt64) ≤ 5000)
  credentials := (by decide : "user" ≠ "" ∧ "password" ≠ "")
  mainnet h := by cases h
  passed := rfl

theorem readToString_bytes {env : Surroundings Url Address} {path text : String}
    (h : env.read path = some (Text.bytes text)) : env.readToString path = some text := by
  have hsame : (⟨(Text.bytes text).toArray⟩ : ByteArray) = text.toByteArray := by simp [Text.bytes]
  simp only [Surroundings.readToString,h,Option.bind_some,hsame]
  rw [String.fromUTF8?,dif_pos text.isValidUTF8]
  rfl

def startedState : ChainState := ChainState.new bitcoinPrimitives startedBinding

def startedDatabase : Database := { Database.empty with protocolState := some ⟨startedBinding,startedState⟩ }

/-- The key of the seed file, with its signature of the tuple of height 2. -/
def startedKey : SigningKey :=
  signingOnce ((sampleSigner 0xbbf785a0d7170c2ec7613cad9a0ed4c34c646eeac3ad3d07fbaef6bc18deae44
    0xf8e283116ff3c6ed9a0551f32d45a6f5dcaf25c02db1209d431230317906c001).signBytes [])

theorem sampleArgs_bound (endpoint : Option String) :
    Process.Bound bitcoinPrimitives sampleSurroundings sampleHost (fun _ => startedKey) (sampleArgs endpoint)
      Database.empty startedDatabase (sampleConfig endpoint) (.ofKey "test-key" startedKey) startedState := by
  have hread : sampleSurroundings.readToString "seed" = some sampleSeed := readToString_bytes rfl
  have hspace : ∀ c ∈ [Char.ofNat 10], Text.isWhitespace c = true := by
    intro c hc
    obtain rfl := List.mem_singleton.mp hc
    decide
  have hload := AgreementSigner.load_encoded (fun _ => startedKey) "test-key" (ByteVector.replicate 32 7)
    (fun c hc => absurd hc List.not_mem_nil) hspace
  obtain ⟨text,seed,htext,hseed,_⟩ := AgreementSigner.load_eq_ok.mp hload
  exact ⟨sampleArgs_describe endpoint,⟨text,seed,hread.trans htext,hseed,rfl⟩,⟨rfl,rfl⟩,rfl⟩

/-- With a configured endpoint the default binary does not start, but has bound the database. -/
theorem sample_accepts : ∃ db' config,
    Process.start bitcoinPrimitives sampleSurroundings sampleHost (fun _ => startedKey)
      (sampleArgs (some "tcp://127.0.0.1:28332")) Database.empty = ok (db',.error .zmqFeature) ∧
    (sampleArgs (some "tcp://127.0.0.1:28332")).Describe bitcoinPrimitives sampleSurroundings config ∧
    db'.BoundTo config.binding := by
  have hstart : Process.start bitcoinPrimitives sampleSurroundings sampleHost (fun _ => startedKey)
      (sampleArgs (some "tcp://127.0.0.1:28332")) Database.empty =
        ok (startedDatabase,.error .zmqFeature) :=
    Process.start_eq_ok.mpr ⟨_,_,_,sampleArgs_bound _,rfl⟩
  obtain ⟨config,hdescribed,hbound,_⟩ := startup_accepts_exactly.2 _ _ hstart
  exact ⟨startedDatabase,config,hstart,hdescribed,hbound⟩

end Sample
end Start
end TandemVerifier
