import Mathlib.Data.List.Basic
import TandemVerifier.Core.Types

/-! # Resolving blocks through Bitcoin Core

`BitcoinCoreRpc::block` of `rpc.rs` with the calls it makes. The state of the client is
the log of its calls: the n-th call is answered by the node as it is at the n-th moment,
so that the active chain may change between any two calls. Decoding, hashing and the
curve come from external crates and are a parameter; a reply `none` is an error.
-/
namespace TandemVerifier
open Library

structure TxIn where
  previousOutput : OutPointRef
  sequence : UInt32
  scriptSig : Bytes
  witness : List Bytes
deriving DecidableEq

structure Transaction where
  version : Int32
  lockTime : UInt32
  input : List TxIn
  output : List OutputView
deriving DecidableEq

/-- The header fields other than the parent hash are kept as they are serialized. -/
structure Block where
  version : Bytes
  prevBlockhash : Hash32
  rest : Bytes
  txdata : List Transaction
deriving DecidableEq

structure EcdsaSignature where
  signature : Bytes
  sighashType : UInt32
deriving DecidableEq

/-- `EcdsaSighashType::All`. -/
def sighashAll : UInt32 := 1

/-- The functions of the `bitcoin` and `secp256k1` crates. -/
structure Bitcoin where
  computeTxid : Transaction → Hash32
  computeWtxid : Transaction → Hash32
  blockHash : Block → Hash32
  signatureFromSlice : Bytes → Option EcdsaSignature
  normalizeS : Bytes → Bytes
  signatureToVec : EcdsaSignature → Bytes
  publicKeyFromSlice : Bytes → Option Bytes
  p2wpkhSignatureHash : Transaction → ℕ → Bytes → UInt64 → Option Hash32
  p2wshSignatureHash : Transaction → ℕ → Bytes → UInt64 → Option Hash32
  verifyEcdsa : Hash32 → Bytes → Bytes → Bool

section Signatures
variable (bitcoin : Bitcoin)

def strictSignature (bytes : Bytes) : Option EcdsaSignature := do
  let signature ← bitcoin.signatureFromSlice bytes
  if signature.sighashType ≠ sighashAll ∨
      bitcoin.normalizeS signature.signature ≠ signature.signature ∨
      bitcoin.signatureToVec signature ≠ bytes then none
  else some signature

def verifyP2wpkh (transaction : Transaction) (index : ℕ) (prevout : OutputView)
    (signatureBytes publicKeyBytes : Bytes) : Bool :=
  (do
    let signature ← strictSignature bitcoin signatureBytes
    let publicKey ← bitcoin.publicKeyFromSlice publicKeyBytes
    let sighash ← bitcoin.p2wpkhSignatureHash transaction index prevout.scriptPubkey prevout.value
    some (bitcoin.verifyEcdsa sighash signature.signature publicKey)).getD false

def verifyP2wsh2of2 (transaction : Transaction) (index : ℕ) (prevout : OutputView)
    (signature0Bytes signature1Bytes witnessScript : Bytes) : Bool :=
  if witnessScript.length ≠ 71 ∨ witnessScript.take 2 ≠ [0x52,0x21] ∨
      witnessScript[35]? ≠ some 0x21 ∨ witnessScript.drop 69 ≠ [0x52,0xae] then false
  else (do
    let signature0 ← strictSignature bitcoin signature0Bytes
    let signature1 ← strictSignature bitcoin signature1Bytes
    let key0 ← bitcoin.publicKeyFromSlice ((witnessScript.drop 2).take 33)
    let key1 ← bitcoin.publicKeyFromSlice ((witnessScript.drop 36).take 33)
    let sighash ← bitcoin.p2wshSignatureHash transaction index witnessScript prevout.value
    some (bitcoin.verifyEcdsa sighash signature0.signature key0 &&
      bitcoin.verifyEcdsa sighash signature1.signature key1)).getD false

def isP2wpkh (script : Bytes) : Bool := script.length == 22 && script.take 2 == [0x00,0x14]
def isP2wsh (script : Bytes) : Bool := script.length == 34 && script.take 2 == [0x00,0x20]

def verifyInputSignature (transaction : Transaction) (index : ℕ) (prevout : OutputView) : Bool :=
  match transaction.input[index]? with
  | none => false
  | some input =>
    if input.scriptSig ≠ [] then false
    else match input.witness with
      | [signature,publicKey] =>
        isP2wpkh prevout.scriptPubkey &&
          verifyP2wpkh bitcoin transaction index prevout signature publicKey
      | [dummy,signature0,signature1,witnessScript] =>
        isP2wsh prevout.scriptPubkey && dummy.isEmpty &&
          verifyP2wsh2of2 bitcoin transaction index prevout signature0 signature1 witnessScript
      | _ => false

end Signatures

/-- The reply to a verbose `getrawtransaction`. -/
structure RawTransactionVerbose where
  transaction : Transaction
  blockhash : Option Hash32
  confirmations : Option Int64

/-- The block that `raw_transaction` takes as the confirmation of the transaction. -/
def RawTransactionVerbose.confirmedIn (verbose : RawTransactionVerbose) : Option Hash32 :=
  if verbose.confirmations.any fun confirmations => 0 < confirmations then verbose.blockhash else none

/-- A block with the height that the node has for it. -/
structure Entry where
  block : Block
  height : UInt64
deriving DecidableEq

/-- Bitcoin Core at one moment: its active chain and its answers. -/
structure Node where
  active : List Entry
  getBlockHash : UInt64 → Option Hash32
  getBlock : Hash32 → Option Block
  getRawTransaction : Hash32 → Option RawTransactionVerbose
  getBlockHeader : Hash32 → Option UInt64

inductive RpcRequest where
  | getBlockHash (height : UInt64)
  | getBlock (hash : Hash32)
  | getRawTransaction (txid : Hash32)
  | getBlockHeader (hash : Hash32)
deriving DecidableEq

structure ResolvedTransaction where
  transaction : Transaction
  height : Option UInt64

abbrev ResolvedMap := Std.ExtTreeMap Hash32 ResolvedTransaction

/-- `previous_output.is_null()`. -/
def OutPointRef.isNull (outpoint : OutPointRef) : Bool :=
  outpoint.txid == Hash32.zero && outpoint.vout == 0xffffffff

namespace BitcoinCoreRpc
variable (bitcoin : Bitcoin) (core : ℕ → Node)

/-- Call the node of this moment and log the request. -/
def call {α : Type} (log : List RpcRequest) (request : RpcRequest) (answer : Node → Option α) :
    Option (α × List RpcRequest) :=
  (answer (core log.length)).map fun reply => (reply,log ++ [request])

def rawTransaction (log : List RpcRequest) (txid : Hash32) :
    Option (ResolvedTransaction × List RpcRequest) := do
  let (verbose,log) ← call core log (.getRawTransaction txid) fun node => node.getRawTransaction txid
  if bitcoin.computeTxid verbose.transaction ≠ txid then none
  else match verbose.confirmedIn with
    | some blockHash => do
      let (height,log) ← call core log (.getBlockHeader blockHash) fun node =>
        node.getBlockHeader blockHash
      some (⟨verbose.transaction,some height⟩,log)
    | none => some (⟨verbose.transaction,none⟩,log)

/-- The parent of an input: from the block itself, from the cache or from the node. -/
def resolveParent (own cache : ResolvedMap) (log : List RpcRequest) (txid : Hash32) :
    Option (ResolvedTransaction × ResolvedMap × List RpcRequest) :=
  match own[txid]? with
  | some parent => some (parent,cache,log)
  | none =>
    match cache[txid]? with
    | some parent => some (parent,cache,log)
    | none => do
      let (parent,log) ← rawTransaction bitcoin core log txid
      some (parent,cache.insert txid parent,log)

def nullInput (input : TxIn) : InputView where
  prevout := .zero
  sequence := input.sequence
  scriptSig := input.scriptSig
  witness := input.witness
  prevoutValue := 0
  prevoutScript := []
  prevoutHeight := none
  signaturesValid := false

/-- The view of an input whose spent output and its height are known. -/
def spendingInput (transaction : Transaction) (index : ℕ) (input : TxIn) (prevout : OutputView)
    (height : Option UInt64) : InputView where
  prevout := input.previousOutput
  sequence := input.sequence
  scriptSig := input.scriptSig
  witness := input.witness
  prevoutValue := prevout.value
  prevoutScript := prevout.scriptPubkey
  prevoutHeight := height
  signaturesValid := verifyInputSignature bitcoin transaction index prevout

def resolveInput (own : ResolvedMap) (transaction : Transaction) (index : ℕ) (input : TxIn)
    (cache : ResolvedMap) (log : List RpcRequest) :
    Option (InputView × ResolvedMap × List RpcRequest) :=
  if input.previousOutput.isNull then some (nullInput input,cache,log)
  else do
    let (parent,cache,log) ← resolveParent bitcoin core own cache log input.previousOutput.txid
    let prevout ← parent.transaction.output[input.previousOutput.vout.toNat]?
    some (spendingInput bitcoin transaction index input prevout parent.height,cache,log)

def resolveInputs (own : ResolvedMap) (transaction : Transaction) :
    ℕ → List TxIn → ResolvedMap → List RpcRequest →
      Option (List InputView × ResolvedMap × List RpcRequest)
  | _,[],cache,log => some ([],cache,log)
  | index,input :: rest,cache,log => do
    let (view,cache,log) ← resolveInput bitcoin core own transaction index input cache log
    let (views,cache,log) ← resolveInputs own transaction (index + 1) rest cache log
    some (view :: views,cache,log)

def transactionView (transaction : Transaction) (inputs : List InputView) : TxView where
  txid := bitcoin.computeTxid transaction
  wtxid := bitcoin.computeWtxid transaction
  version := transaction.version
  lockTime := transaction.lockTime
  inputs := inputs
  outputs := transaction.output

/-- `resolve_transaction` for every transaction of a block in order. -/
def resolveTransactions (own : ResolvedMap) :
    List Transaction → ResolvedMap → List RpcRequest →
      Option (List TxView × ResolvedMap × List RpcRequest)
  | [],cache,log => some ([],cache,log)
  | transaction :: rest,cache,log => do
    let (inputs,cache,log) ← resolveInputs bitcoin core own transaction 0 transaction.input cache log
    let (views,cache,log) ← resolveTransactions own rest cache log
    some (transactionView bitcoin transaction inputs :: views,cache,log)

/-- The transactions of the block itself, confirmed at its height. -/
def ownTransactions (height : UInt64) (txdata : List Transaction) : ResolvedMap :=
  txdata.foldl (fun own transaction =>
    own.insert (bitcoin.computeTxid transaction) ⟨transaction,some height⟩) ∅

/-- Resolve the block that is active at a height, with every input prevout. -/
def block (height : UInt64) : Option (BlockView × List RpcRequest) := do
  let (hash,log) ← call core [] (.getBlockHash height) fun node => node.getBlockHash height
  let (block,log) ← call core log (.getBlock hash) fun node => node.getBlock hash
  if bitcoin.blockHash block ≠ hash then none
  else do
    let (transactions,_,log) ← resolveTransactions bitcoin core
      (ownTransactions bitcoin height block.txdata) block.txdata ∅ log
    some (⟨bitcoin.blockHash block,block.prevBlockhash,height,transactions⟩,log)

end BitcoinCoreRpc
end TandemVerifier
