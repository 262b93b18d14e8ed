import TandemVerifier.Reduction.Run

/-! # Blocks without transactions

Once INIT is decided, every linked block without transactions is accepted. It moves
the tip, extends the chained root and changes nothing else, so a deployment can
always be carried from its INIT block to its opening height. The sample deployments
are opened in this way.
-/
namespace TandemVerifier
open Library Library.Outcome
variable {P : Primitives} {hashOf : ℕ → Hash32} {state : ChainState} {height : ℕ}

/-- The empty block at a height of a chain given by its block hashes. -/
def emptyBlock (hashOf : ℕ → Hash32) (height : ℕ) : BlockView :=
  ⟨hashOf height,hashOf (height - 1),UInt64.ofNat height,[]⟩

def emptyBlocks (hashOf : ℕ → Hash32) (start count : ℕ) : List BlockView :=
  (List.range' start count).map (emptyBlock hashOf)

/-- The chained root after empty blocks above the given height. -/
def emptyChainRoot (P : Primitives) (hashOf : ℕ → Hash32) (state : ChainState) (height : ℕ) : ℕ → Hash32
  | 0 => state.chainedRoot
  | count + 1 =>
    let ns := state.binding.namespace P
    blockRoot P ns (emptyChainRoot P hashOf state height count) (hashOf (height + count + 1))
      (UInt64.ofNat (height + count + 1)) (eventRoot P ns []) (objectStateRoot P ns state.objectValues)
      state.counters

def afterEmptyBlocks (P : Primitives) (hashOf : ℕ → Hash32) (state : ChainState) (height count : ℕ) :
    ChainState :=
  { state with
    tipHeight := some (UInt64.ofNat (height + count))
    tipHash := some (hashOf (height + count))
    chainedRoot := emptyChainRoot P hashOf state height count }

theorem validateLinkage_empty (hheight : state.tipHeight = some (UInt64.ofNat height))
    (hhash : state.tipHash = some (hashOf height)) (hbound : height + 1 < 2 ^ 64) :
    validateLinkage state (emptyBlock hashOf (height + 1)) = .ok () := by
  have hadd : checkedAdd64 (UInt64.ofNat height) 1 = some (UInt64.ofNat (height + 1)) := by
    rw [checkedAdd64_eq_some,UInt64.toNat_ofNat',UInt64.toNat_ofNat',UInt64.toNat_one]
    omega
  simp [validateLinkage,hheight,hadd,emptyBlock,hhash]

theorem reduceTransactions_empty {block : BlockView} (hstatus : state.protocolStatus ≠ .awaitingInit)
    (hempty : block.transactions = []) :
    reduceTransactions P state block = ok (state,.ok []) := by
  unfold reduceTransactions
  cases hcase : state.protocolStatus with
  | awaitingInit => exact absurd hcase hstatus
  | active initHeight hOpen hClose => simp [hempty,forEachTransaction]
  | failedInit reason initHeight => rfl

theorem applyBlock_empty (hstatus : state.protocolStatus ≠ .awaitingInit)
    (hheight : state.tipHeight = some (UInt64.ofNat height))
    (hhash : state.tipHash = some (hashOf height)) (hbound : height + 1 < 2 ^ 64) :
    applyBlock P state (emptyBlock hashOf (height + 1)) =
      ok ((sealBlock P state state (emptyBlock hashOf (height + 1)) []).1,
        .ok (sealBlock P state state (emptyBlock hashOf (height + 1)) []).2) := by
  have hreduce : reduceTransactions P state (emptyBlock hashOf (height + 1)) = ok (state,.ok []) :=
    reduceTransactions_empty hstatus rfl
  unfold applyBlock
  rw [validateLinkage_empty hheight hhash hbound,hreduce]
  simp [emptyBlock]

/-- Empty blocks are accepted up to any height and emit no event. -/
theorem applyBlocks_empty (hstatus : state.protocolStatus ≠ .awaitingInit)
    (hheight : state.tipHeight = some (UInt64.ofNat height))
    (hhash : state.tipHash = some (hashOf height)) (count : ℕ) (hbound : height + count < 2 ^ 64) :
    ∃ deltas, applyBlocks P state (emptyBlocks hashOf (height + 1) count) =
      some (afterEmptyBlocks P hashOf state height count,deltas) ∧
      ∀ delta ∈ deltas, delta.events = [] := by
  induction count with
  | zero =>
    refine ⟨[],?_,by simp⟩
    simp [emptyBlocks,applyBlocks,afterEmptyBlocks,emptyChainRoot,← hheight,← hhash]
  | succ count ih =>
    obtain ⟨deltas,hrun,hevents⟩ := ih (by omega)
    obtain ⟨delta,happly,hempty⟩ : ∃ delta, applyBlock P (afterEmptyBlocks P hashOf state height count)
        (emptyBlock hashOf (height + count + 1)) =
          ok (afterEmptyBlocks P hashOf state height (count + 1),.ok delta) ∧ delta.events = [] :=
      ⟨_,applyBlock_empty hstatus rfl rfl (by omega),rfl⟩
    have hblocks : emptyBlocks hashOf (height + 1) (count + 1) =
        emptyBlocks hashOf (height + 1) count ++ [emptyBlock hashOf (height + count + 1)] := by
      rw [emptyBlocks,List.range'_1_concat,List.map_append,Nat.add_right_comm]
      rfl
    refine ⟨deltas ++ [delta],?_,?_⟩
    · rw [hblocks]
      exact applyBlocks_concat.mpr ⟨_,deltas,delta,hrun,happly,rfl⟩
    · intro other hother
      rcases List.mem_append.mp hother with hold | hnew
      · exact hevents other hold
      · rw [List.mem_singleton.mp hnew,hempty]

section Sample

/-- A compressed key with an even ordinate. -/
def evenKey (abscissa : ℕ) : Key33 := ⟨0x02 :: Crypto.beBytes 32 abscissa,by simp [Crypto.beBytes]⟩

def key1G : Key33 := evenKey 0x79be667ef9dcbbac55a06295ce870b07029bfcdb2dce28d959f2815b16f81798
def key2G : Key33 := evenKey 0xc6047f9441ed7d6d3045406e95c07cd85c778e4b8cef3ca7abac09b95c709ee5
def key3G : Key33 := evenKey 0xf9308a019258c31049344f85f89d5229b531c845836f99b08601f113bce036f9

def sampleHash (n : ℕ) : Hash32 := ⟨Crypto.beBytes 32 n,by simp [Crypto.beBytes]⟩

def sampleBinding : Binding := ⟨.regtest,sampleHash 1,sampleHash 2⟩

def fundingInput (key : Key33) (txid : ℕ) (value : UInt64) (sequence : UInt32) : InputView :=
  ⟨⟨sampleHash txid,0⟩,sequence,[],[[0x30],key.toList],value,key.p2wpkhScript bitcoinPrimitives,
    some 90,true⟩

def carrierInput (keys : KeyPair) (txid : Hash32) (height : UInt64) : InputView :=
  ⟨⟨txid,1⟩,rbfSequence,[],[[],[0x30],[0x30],keys.witnessScript],carrierValue,
    keys.carrierScript bitcoinPrimitives,some height,true⟩

def markerOutput (payload : Bytes) : OutputView := ⟨0,[0x6a,UInt8.ofNat payload.length] ++ payload⟩

def keyOutput (value : UInt64) (key : Key33) : OutputView := ⟨value,key.p2wpkhScript bitcoinPrimitives⟩

def sampleInit : TxView where
  txid := sampleBinding.initTxid
  wtxid := sampleHash 3
  version := 2
  lockTime := 0
  inputs := [fundingInput key1G 4 2000 0xffffffff]
  outputs := [markerOutput (magic ++ [1,3,0] ++ u32LeBytes 1108 ++ u32LeBytes 5428 ++
    u64LeBytes carrierValue ++ u32LeBytes refundDelay ++ sampleBinding.specHash.toList),
    keyOutput 1000 key1G]

def samplePayload (opcode : UInt8) (rest : Bytes) : Bytes :=
  magic ++ [1,3,opcode,1] ++ (sampleBinding.namespace bitcoinPrimitives).toList ++ rest

def sampleKeys : KeyPair := ⟨key1G,key2G⟩
def rotatedKeys : KeyPair := ⟨key1G,key3G⟩

def sampleCreate : TxView where
  txid := sampleHash 5
  wtxid := sampleHash 6
  version := 2
  lockTime := 0
  inputs := [fundingInput key1G 7 20000 rbfSequence,fundingInput key2G 8 20000 rbfSequence]
  outputs := [markerOutput (samplePayload 1 []),
    ⟨carrierValue,sampleKeys.carrierScript bitcoinPrimitives⟩,keyOutput 8485 key1G,
    keyOutput 8485 key2G]

def sampleRotate : TxView where
  txid := sampleHash 9
  wtxid := sampleHash 10
  version := 2
  lockTime := 0
  inputs := [carrierInput sampleKeys sampleCreate.txid 1108,fundingInput key1G 11 5000 rbfSequence,
    fundingInput key3G 12 5000 rbfSequence]
  outputs := [markerOutput (samplePayload 3 (u32LeBytes 1)),
    ⟨carrierValue,rotatedKeys.carrierScript bitcoinPrimitives⟩,keyOutput 4000 key1G,
    keyOutput 4000 key3G]

def sampleBlock (height : ℕ) (transactions : List TxView) : BlockView :=
  { emptyBlock sampleHash height with transactions := transactions }

def initBlock : BlockView := sampleBlock 100 [sampleInit]
def createBlock : BlockView := sampleBlock 1108 [sampleCreate]
def rotateBlock : BlockView := sampleBlock 1109 [sampleRotate]

/-- INIT, empty blocks up to the opening height, CREATE and ROTATE of one object. -/
def sampleBlocks : List BlockView :=
  [initBlock] ++ emptyBlocks sampleHash 101 1007 ++ [createBlock,rotateBlock]

/-- The sample up to its CREATE. -/
def createdBlocks : List BlockView := [initBlock] ++ emptyBlocks sampleHash 101 1007 ++ [createBlock]

theorem sampleBlocks_created : sampleBlocks = createdBlocks ++ [rotateBlock] := by
  simp [sampleBlocks,createdBlocks]

def sampleNew : ChainState := ChainState.new bitcoinPrimitives sampleBinding

def sampleKey : Hash32 :=
  objectKey bitcoinPrimitives (sampleBinding.namespace bitcoinPrimitives) sampleCreate.txid

def sampleLog : List Event :=
  [validInitEvent bitcoinPrimitives sampleNew initBlock sampleInit 0,
    validEventBase bitcoinPrimitives sampleNew createBlock sampleCreate 0 0 .create sampleKey 0 .zero
      ⟨sampleCreate.txid,1⟩ sampleKeys Hash32.zero,
    validEventBase bitcoinPrimitives sampleNew rotateBlock sampleRotate 0 0 .rotate sampleKey 1
      ⟨sampleCreate.txid,1⟩ ⟨sampleRotate.txid,1⟩ rotatedKeys Hash32.zero]

def sampleDeployed : Option (ChainState × List BlockDelta) :=
  applyBlocks bitcoinPrimitives sampleNew [initBlock]

/-- The state below the opening height of a deployment whose INIT is in the given block. -/
def openedFrom (binding : Binding) (block : BlockView) : ChainState :=
  { ChainState.new bitcoinPrimitives binding with
    protocolStatus := .active 100 1108 5428
    tipHeight := some 1107
    tipHash := some (sampleHash 1107)
    chainedRoot := emptyChainRoot bitcoinPrimitives sampleHash
      ((applyBlocks bitcoinPrimitives (ChainState.new bitcoinPrimitives binding) [block]).getD (sampleNew,[])).1
      100 1007 }

/-- Empty blocks lead from the INIT block to the opening height. -/
theorem openedFrom_run {binding : Binding} {block : BlockView} {start : ChainState} {first : List BlockDelta}
    (h : applyBlocks bitcoinPrimitives (ChainState.new bitcoinPrimitives binding) [block] = some (start,first))
    (hstatus : start.protocolStatus = .active 100 1108 5428) (hheight : start.tipHeight = some 100)
    (hhash : start.tipHash = some (sampleHash 100)) (hobjects : start.objects = ∅)
    (hactive : start.active = ∅) :
    ∃ idle, applyBlocks bitcoinPrimitives (ChainState.new bitcoinPrimitives binding)
      ([block] ++ emptyBlocks sampleHash 101 1007) = some (openedFrom binding block,first ++ idle) ∧
        idle.flatMap BlockDelta.events = [] := by
  have hbinding : start.binding = binding := applyBlocks_binding h
  have hdecided : start.protocolStatus ≠ .awaitingInit := by
    rw [hstatus]
    simp
  have htip : start.tipHeight = some (UInt64.ofNat 100) := hheight
  obtain ⟨idle,hidle,hempty⟩ := applyBlocks_empty (P := bitcoinPrimitives) hdecided htip hhash 1007
    (by decide)
  have hafter : afterEmptyBlocks bitcoinPrimitives sampleHash start 100 1007 = openedFrom binding block := by
    rw [openedFrom,h,afterEmptyBlocks,hbinding,hstatus,hobjects,hactive]
    rfl
  rw [hafter] at hidle
  exact ⟨idle,applyBlocks_append.mpr ⟨start,first,idle,h,hidle,rfl⟩,List.flatMap_eq_nil_iff.mpr hempty⟩

set_option maxRecDepth 10000 in
theorem sampleDeployed_eq : sampleDeployed.map (fun run =>
    (run.1.protocolStatus,run.1.tipHeight,run.1.tipHash,
      run.1.objects.isEmpty && run.1.active.isEmpty,run.2.flatMap BlockDelta.events)) =
      some (.active 100 1108 5428,some 100,some (sampleHash 100),true,sampleLog.take 1) := by
  decide +kernel

def sampleOpened : ChainState := openedFrom sampleBinding initBlock

set_option maxRecDepth 10000 in
theorem sampleOpened_eq : (applyBlocks bitcoinPrimitives sampleOpened [createBlock,rotateBlock]).map
    (fun run => (run.1.protocolStatus,run.2.flatMap BlockDelta.events,run.1.active.toList,
      run.1.objects[sampleKey]?.map ObjectState.currentOutpoint)) =
      some (.active 100 1108 5428,sampleLog.drop 1,[(⟨sampleRotate.txid,1⟩,sampleKey)],
        some ⟨sampleRotate.txid,1⟩) := by
  decide +kernel

/-- INIT and the empty blocks lead to the opened state. -/
theorem sampleOpened_run : ∃ deltas, applyBlocks bitcoinPrimitives sampleNew
    ([initBlock] ++ emptyBlocks sampleHash 101 1007) = some (sampleOpened,deltas) ∧
      deltas.flatMap BlockDelta.events = sampleLog.take 1 := by
  obtain ⟨⟨start,first⟩,hdeployed,hstart⟩ := Option.map_eq_some_iff.mp sampleDeployed_eq
  simp only [Prod.mk.injEq,Bool.and_eq_true,Std.ExtTreeMap.isEmpty_iff] at hstart
  obtain ⟨hstatus,hheight,hhash,⟨hobjects,hactive⟩,hfirst⟩ := hstart
  obtain ⟨idle,hrun,hidle⟩ := openedFrom_run hdeployed hstatus hheight hhash hobjects hactive
  refine ⟨first ++ idle,hrun,?_⟩
  rw [List.flatMap_append,hidle,hfirst,List.append_nil]

/-- The sample blocks are accepted and emit INIT, CREATE and ROTATE. -/
theorem sampleBlocks_run : ∃ final deltas,
    applyBlocks bitcoinPrimitives sampleNew sampleBlocks = some (final,deltas) ∧
      final.protocolStatus = .active 100 1108 5428 ∧
      deltas.flatMap BlockDelta.events = sampleLog := by
  obtain ⟨first,hfirst,hopening⟩ := sampleOpened_run
  obtain ⟨⟨final,last⟩,hopened,hfinal⟩ := Option.map_eq_some_iff.mp sampleOpened_eq
  simp only [Prod.mk.injEq] at hfinal
  refine ⟨final,first ++ last,?_,hfinal.1,?_⟩
  · exact applyBlocks_append.mpr ⟨_,first,last,hfirst,hopened,rfl⟩
  · rw [List.flatMap_append,hopening,hfinal.2.1]
    rfl

theorem sampleLog_rotation {deltas : List BlockDelta} (hlog : deltas.flatMap BlockDelta.events = sampleLog) :
    ∃ delta ∈ deltas, validEventBase bitcoinPrimitives sampleNew rotateBlock sampleRotate 0 0 .rotate
      sampleKey 1 ⟨sampleCreate.txid,1⟩ ⟨sampleRotate.txid,1⟩ rotatedKeys Hash32.zero ∈ delta.events := by
  rw [← List.mem_flatMap,hlog]
  simp [sampleLog]

theorem sampleInit_run : ∃ state delta,
    applyBlock bitcoinPrimitives sampleNew initBlock = ok (state,.ok delta) := by
  obtain ⟨run,hrun,_⟩ := Option.map_eq_some_iff.mp sampleDeployed_eq
  obtain ⟨state,delta,_,happly,_⟩ := applyBlocks_cons.mp hrun
  exact ⟨state,delta,happly⟩

/-- The empty blocks between the INIT block and the later ones place nothing. -/
theorem opening_placed (block : BlockView) (later : List BlockView) : placedTransactions
    ([block] ++ emptyBlocks sampleHash 101 1007 ++ later) =
      placedTransactions [block] ++ placedTransactions later := by
  have hempty : placedTransactions (emptyBlocks sampleHash 101 1007) = [] := by
    rw [placedTransactions,emptyBlocks,List.flatMap_map,List.flatMap_eq_nil_iff]
    intro height _
    rfl
  simp only [placedTransactions] at hempty ⊢
  rw [List.flatMap_append,List.flatMap_append,hempty,List.append_nil]

theorem sampleBlocks_placed : placedTransactions sampleBlocks =
    [⟨100,sampleInit⟩,⟨1108,sampleCreate⟩,⟨1109,sampleRotate⟩] := opening_placed _ _

/-- A transaction that neither carries a marker nor spends a carrier. -/
def quietTx : TxView where
  txid := sampleHash 17
  wtxid := sampleHash 18
  version := 2
  lockTime := 0
  inputs := [fundingInput key1G 19 2000 rbfSequence]
  outputs := [keyOutput 1000 key1G]

/-- The INIT block with a transaction that nothing commits to, and the sample on top of it. -/
def paddedInit : BlockView := sampleBlock 100 [sampleInit,quietTx]

def paddedBlocks : List BlockView :=
  [paddedInit] ++ emptyBlocks sampleHash 101 1007 ++ [createBlock,rotateBlock]

theorem quietTx_processed {state : ChainState} {block : BlockView} {txIndex : UInt32}
    (hactive : state.active = ∅) (hbinding : state.binding = sampleBinding) :
    processTransaction bitcoinPrimitives state block quietTx txIndex = ok (state,[]) := by
  have hcandidates : markerCandidates quietTx state.binding = [] := by
    rw [hbinding]
    decide +kernel
  have hcarriers : carrierSpends state quietTx = [] := by
    simp [carrierSpends,hactive]
  simp [processTransaction,hcandidates,hcarriers,processMarkerless,pure_eq_ok]

theorem paddedInit_reduced : reduceTransactions bitcoinPrimitives sampleNew paddedInit =
    reduceTransactions bitcoinPrimitives sampleNew initBlock := by
  have hfind : ∀ block, block = paddedInit ∨ block = initBlock →
      block.transactions.zipIdx.find? (fun entry => entry.1.txid == sampleNew.binding.initTxid) =
        some (sampleInit,0) := by
    rintro block (rfl | rfl)
    · decide +kernel
    · decide +kernel
  have hindex : u32TryFrom 0 = some 0 := rfl
  have hnext : u32TryFrom 1 = some 1 := rfl
  have hloop : ∀ status, forEachTransaction (initBlockStep bitcoinPrimitives paddedInit)
      { sampleNew with protocolStatus := status } [] 0 [sampleInit,quietTx] =
        forEachTransaction (initBlockStep bitcoinPrimitives initBlock)
          { sampleNew with protocolStatus := status } [] 0 [sampleInit] := by
    intro status
    have hinit : ∀ block, initBlockStep bitcoinPrimitives block { sampleNew with protocolStatus := status }
        sampleInit 0 = pure ({ sampleNew with protocolStatus := status },
          [validInitEvent bitcoinPrimitives { sampleNew with protocolStatus := status } block sampleInit 0]) :=
      fun block => if_pos rfl
    have hquiet : initBlockStep bitcoinPrimitives paddedInit { sampleNew with protocolStatus := status }
        quietTx 1 = pure ({ sampleNew with protocolStatus := status },[]) := by
      have hother : quietTx.txid ≠ sampleBinding.initTxid := by decide
      exact (if_neg hother).trans (quietTx_processed rfl rfl)
    simp only [forEachTransaction,hindex,hnext,hinit,hquiet,pure_eq_ok,ok_bind,List.nil_append,List.append_nil,
      Nat.zero_add]
    rfl
  have hstatus : sampleNew.protocolStatus = .awaitingInit := rfl
  have hheight : paddedInit.height = initBlock.height := rfl
  unfold reduceTransactions
  rw [hstatus]
  dsimp only
  rw [hfind _ (Or.inl rfl),hfind _ (Or.inr rfl)]
  dsimp only
  rw [hindex,hheight]
  cases validateConfiguredInit bitcoinPrimitives sampleNew.binding initBlock.height sampleInit with
  | panic => rfl
  | err reason => rfl
  | ok params => exact hloop _

/-- Padding the first block does not change a run. -/
theorem padded_run (later : List BlockView) : applyBlocks bitcoinPrimitives sampleNew (paddedInit :: later) =
    applyBlocks bitcoinPrimitives sampleNew (initBlock :: later) := by
  have hfirst : applyBlock bitcoinPrimitives sampleNew paddedInit =
      applyBlock bitcoinPrimitives sampleNew initBlock := by
    unfold applyBlock
    rw [paddedInit_reduced]
    rfl
  rw [applyBlocks,applyBlocks,hfirst]

/-- A second CREATE for the block of the first one. -/
def neighbourCreate : TxView := { sampleCreate with
  txid := sampleHash 13
  wtxid := sampleHash 14
  inputs := [fundingInput key1G 15 20000 rbfSequence,fundingInput key2G 16 20000 rbfSequence] }

def neighbourKey : Hash32 :=
  objectKey bitcoinPrimitives (sampleBinding.namespace bitcoinPrimitives) neighbourCreate.txid

def doubleMarker : TxView :=
  { quietTx with
    txid := sampleHash 21
    wtxid := sampleHash 22
    outputs := [markerOutput (samplePayload 1 []),keyOutput 1000 key1G,markerOutput (samplePayload 1 [])] }

/-- Transactions without marker that spend the carriers of both objects or of the first one. -/
def exitBoth : TxView :=
  { quietTx with
    txid := sampleHash 23
    wtxid := sampleHash 24
    inputs := [carrierInput sampleKeys neighbourCreate.txid 1108,
      carrierInput sampleKeys sampleCreate.txid 1108] }

def exitOne : TxView :=
  { quietTx with
    txid := sampleHash 25
    wtxid := sampleHash 26
    inputs := [carrierInput sampleKeys sampleCreate.txid 1108] }

def pairBlock : BlockView := sampleBlock 1108 [sampleCreate,neighbourCreate]
def exitBlock : BlockView := sampleBlock 1109 [quietTx,doubleMarker,exitBoth]

theorem pairBlock_placed : placedTransactions
    (([initBlock] ++ emptyBlocks sampleHash 101 1007) ++ [pairBlock]) =
      [⟨100,sampleInit⟩,⟨1108,sampleCreate⟩,⟨1108,neighbourCreate⟩] := opening_placed _ _

def eventPlace (event : Event) : UInt32 × UInt32 × UInt32 × EventType :=
  (event.txIndex,event.eventIndex,event.subIndex,event.eventType)

set_option synthInstance.maxSize 1024 in
set_option maxRecDepth 10000 in
theorem samplePair_eq : (applyBlocks bitcoinPrimitives sampleOpened [pairBlock]).map (fun run =>
    (run.1.active.toList,(applyBlocks bitcoinPrimitives run.1 [exitBlock]).map fun last =>
      (last.2.flatMap BlockDelta.events).map eventPlace)) =
    some ([(⟨sampleCreate.txid,1⟩,sampleKey),(⟨neighbourCreate.txid,1⟩,neighbourKey)],
      some [(1,0,0,.invalid),(2,0xffffffff,0,.exitedNoncanonical),(2,0xffffffff,1,.exitedNoncanonical)]) := by
  decide +kernel

/-- Two objects are created in one block; the next one has a quiet transaction, one with two
markers, and one that spends both carriers. -/
theorem samplePair_run : ∃ paired deltas final delta,
    applyBlocks bitcoinPrimitives sampleNew
      (([initBlock] ++ emptyBlocks sampleHash 101 1007) ++ [pairBlock]) = some (paired,deltas) ∧
    paired.active.toList = [(⟨sampleCreate.txid,1⟩,sampleKey),(⟨neighbourCreate.txid,1⟩,neighbourKey)] ∧
    applyBlock bitcoinPrimitives paired exitBlock = ok (final,.ok delta) ∧
    delta.events.map eventPlace =
      [(1,0,0,.invalid),(2,0xffffffff,0,.exitedNoncanonical),(2,0xffffffff,1,.exitedNoncanonical)] := by
  obtain ⟨opening,hopening,_⟩ := sampleOpened_run
  obtain ⟨⟨paired,last⟩,hpaired,hvalues⟩ := Option.map_eq_some_iff.mp samplePair_eq
  obtain ⟨hactive,hexit⟩ := Prod.mk.inj hvalues
  obtain ⟨⟨final,exits⟩,hfinal,hevents⟩ := Option.map_eq_some_iff.mp hexit
  obtain ⟨_,delta,_,happly,hnil,rfl⟩ := applyBlocks_cons.mp hfinal
  obtain ⟨rfl,rfl⟩ := Prod.mk.inj (Option.some.inj hnil)
  exact ⟨paired,opening ++ last,_,delta,applyBlocks_append.mpr ⟨_,opening,last,hopening,hpaired,rfl⟩,hactive,
    happly,by simpa using hevents⟩

end Sample
end TandemVerifier
