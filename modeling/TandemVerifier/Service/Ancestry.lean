import TandemVerifier.Service.Convergence
import TandemVerifier.Service.Rpc

/-! # Block views and the ancestry of the block

A block is fetched once, but the heights of its prevouts come from later calls, and each
call sees the chain that is active at its own moment. The view depends on the ancestry of
the block alone exactly when each of these chains has the parent at the height at which
the ancestry has it. A view resolved across a chain switch is stored under the same hash
and never compared again.
-/
namespace TandemVerifier
open Library Library.Outcome Library.LinkedChain

section Tree
variable (bitcoin : Bitcoin)

def entryLinks : Links Entry Hash32 :=
  ⟨fun entry => bitcoin.blockHash entry.block,fun entry => entry.block.prevBlockhash,
    fun entry => entry.height.toNat⟩

def Entry.contains (entry : Entry) (txid : Hash32) : Bool :=
  entry.block.txdata.any fun transaction => bitcoin.computeTxid transaction == txid

/-- The height at which a chain confirms a transaction. -/
def heightIn (chain : List Entry) (txid : Hash32) : Option UInt64 :=
  (chain.find? fun entry => entry.contains bitcoin txid).map Entry.height

/-- All blocks that the node has seen: a hash fixes the block and its height, a txid fixes
the outputs, and no chain confirms a transaction twice. -/
structure BlockTree where
  known : Entry → Prop
  outputsOf : Hash32 → List OutputView
  named : ∀ a b, known a → known b → bitcoin.blockHash a.block = bitcoin.blockHash b.block → a = b
  outputs : ∀ entry, known entry → ∀ transaction ∈ entry.block.txdata,
    transaction.output = outputsOf (bitcoin.computeTxid transaction)
  once : ∀ chain, (entryLinks bitcoin).Rooted chain → (∀ entry ∈ chain, known entry) →
    ∀ a ∈ chain, ∀ b ∈ chain, ∀ txid, a.contains bitcoin txid → b.contains bitcoin txid → a = b

variable {bitcoin}

/-- What the node is assumed to report: blocks by hash, stale or not, and the confirmation of
a transaction on the chain that is active at the moment of the call. -/
structure Node.Faithful (tree : BlockTree bitcoin) (node : Node) : Prop where
  rooted : (entryLinks bitcoin).Rooted node.active
  known : ∀ entry ∈ node.active, tree.known entry
  hash : ∀ height hash, node.getBlockHash height = some hash →
    ∃ entry, node.active[height.toNat]? = some entry ∧ bitcoin.blockHash entry.block = hash
  block : ∀ hash block, node.getBlock hash = some block → ∃ entry, tree.known entry ∧ entry.block = block
  confirmed : ∀ txid verbose, node.getRawTransaction txid = some verbose → verbose.confirmedIn =
    (node.active.find? fun entry => entry.contains bitcoin txid).map fun entry =>
      bitcoin.blockHash entry.block
  outputs : ∀ txid verbose, node.getRawTransaction txid = some verbose →
    verbose.transaction.output = tree.outputsOf txid
  header : ∀ hash height, node.getBlockHeader hash = some height → ∀ entry, tree.known entry →
    bitcoin.blockHash entry.block = hash → height = entry.height

/-- The chain of known blocks from height zero up to the entry. -/
structure Ancestry (tree : BlockTree bitcoin) (entry : Entry) (home : List Entry) : Prop where
  rooted : (entryLinks bitcoin).Rooted home
  known : ∀ ancestor ∈ home, tree.known ancestor
  last : home.getLast? = some entry

end Tree

section Resolution
variable {bitcoin : Bitcoin} {tree : BlockTree bitcoin} {core : ℕ → Node}
variable {own cache cache' : ResolvedMap} {log log' : List RpcRequest} {height : UInt64}

/-- A call in the log that asked for the transaction, with the height it saw. -/
def Asked (bitcoin : Bitcoin) (core : ℕ → Node) (log : List RpcRequest) (txid : Hash32)
    (height : Option UInt64) : Prop :=
  ∃ n, log[n]? = some (.getRawTransaction txid) ∧ heightIn bitcoin (core n).active txid = height

/-- The parent and the resolved height of an input that spends an output. -/
def spends (input : TxIn) (view : InputView) : List (Hash32 × Option UInt64) :=
  if input.previousOutput.isNull then [] else [(input.previousOutput.txid,view.prevoutHeight)]

def inputSpends (inputs : List TxIn) (views : List InputView) : List (Hash32 × Option UInt64) :=
  (List.zipWith spends inputs views).flatten

/-- The parents and the resolved heights of all inputs of a block that are not coinbase. -/
def blockSpends (txdata : List Transaction) (views : List TxView) : List (Hash32 × Option UInt64) :=
  (List.zipWith (fun transaction view => inputSpends transaction.input view.inputs) txdata views).flatten

/-- Where the heights of the inputs resolved so far come from. -/
structure Tally (tree : BlockTree bitcoin) (core : ℕ → Node) (own : ResolvedMap) (height : UInt64)
    (resolved : List (Hash32 × Option UInt64)) (cache : ResolvedMap) (log : List RpcRequest) : Prop where
  source : ∀ entry ∈ resolved, own[entry.1]?.isSome ∧ entry.2 = some height ∨
    Asked bitcoin core log entry.1 entry.2
  calls : ∀ (n : ℕ) (txid : Hash32), log[n]? = some (.getRawTransaction txid) →
    (txid,heightIn bitcoin (core n).active txid) ∈ resolved
  cached : ∀ (txid : Hash32) (parent : ResolvedTransaction), cache[txid]? = some parent →
    Asked bitcoin core log txid parent.height ∧ parent.transaction.output = tree.outputsOf txid

/-- The transactions of the block itself. -/
def Own (tree : BlockTree bitcoin) (height : UInt64) (txdata : List Transaction) (own : ResolvedMap) :
    Prop :=
  ∀ (txid : Hash32) (parent : ResolvedTransaction), own[txid]? = some parent →
    parent.height = some height ∧ parent.transaction.output = tree.outputsOf txid ∧
      ∃ transaction ∈ txdata, bitcoin.computeTxid transaction = txid

theorem Asked.mono {txid : Hash32} {found : Option UInt64} (h : Asked bitcoin core log txid found)
    (more : List RpcRequest) : Asked bitcoin core (log ++ more) txid found := by
  obtain ⟨n,hget,hheight⟩ := h
  exact ⟨n,by rw [List.getElem?_append_left (List.getElem?_eq_some_iff.mp hget).1,hget],hheight⟩

theorem ownTransactions_get {txdata : List Transaction} {txid : Hash32} {parent : ResolvedTransaction}
    (h : (BitcoinCoreRpc.ownTransactions bitcoin height txdata)[txid]? = some parent) :
    ∃ transaction ∈ txdata, bitcoin.computeTxid transaction = txid ∧ parent = ⟨transaction,some height⟩ := by
  unfold BitcoinCoreRpc.ownTransactions at h
  induction txdata using List.reverseRecOn with
  | nil => simp at h
  | append_singleton earlier last ih =>
    rw [List.foldl_append] at h
    simp only [List.foldl_cons,List.foldl_nil,Std.ExtTreeMap.getElem?_insert] at h
    split at h
    · next hsame =>
      refine ⟨last,by simp,Std.compare_eq_iff_eq.mp hsame,(Option.some.inj h).symm⟩
    · obtain ⟨transaction,hmem,hrest⟩ := ih h
      exact ⟨transaction,by simp [hmem],hrest⟩

/-- What a parent asked of the node carries: the height on the chain active at that call. -/
theorem rawTransaction_some {txid : Hash32} {parent : ResolvedTransaction}
    (hcore : ∀ n, (core n).Faithful tree)
    (h : BitcoinCoreRpc.rawTransaction bitcoin core log txid = some (parent,log')) :
    parent.height = heightIn bitcoin (core log.length).active txid ∧
      parent.transaction.output = tree.outputsOf txid ∧
      ∃ more, log' = log ++ .getRawTransaction txid :: more ∧
        ∀ other, .getRawTransaction other ∉ more := by
  simp only [BitcoinCoreRpc.rawTransaction,BitcoinCoreRpc.call,Option.bind_eq_bind,
    Option.bind_eq_some_iff,Option.map_eq_some_iff] at h
  obtain ⟨_,⟨verbose,hverbose,rfl⟩,h⟩ := h
  have houtputs := (hcore log.length).outputs txid verbose hverbose
  have hconfirmed := (hcore log.length).confirmed txid verbose hverbose
  split at h
  · simp at h
  · unfold heightIn
    cases hfind : (core log.length).active.find? fun entry => entry.contains bitcoin txid with
    | none =>
      rw [hfind] at hconfirmed
      simp only [hconfirmed,Option.map_none,Option.some.injEq,Prod.mk.injEq] at h
      obtain ⟨rfl,rfl⟩ := h
      exact ⟨rfl,houtputs,[],rfl,by simp⟩
    | some entry =>
      rw [hfind] at hconfirmed
      simp only [hconfirmed,Option.map_some,Option.bind_eq_some_iff,Option.map_eq_some_iff] at h
      obtain ⟨_,⟨found,hheader,rfl⟩,h⟩ := h
      obtain ⟨rfl,rfl⟩ := Prod.mk.inj (Option.some.inj h)
      have hknown := (hcore log.length).known entry (List.mem_of_find?_eq_some hfind)
      have hheight := (hcore _).header _ found hheader entry hknown rfl
      refine ⟨by simp [hheight],houtputs,[.getBlockHeader (bitcoin.blockHash entry.block)],?_,by simp⟩
      simp

theorem Tally.asked {resolved : List (Hash32 × Option UInt64)} {txid : Hash32}
    {parent : ResolvedTransaction} {more : List RpcRequest}
    (h : Tally tree core own height resolved cache log)
    (hheight : parent.height = heightIn bitcoin (core log.length).active txid)
    (houtputs : parent.transaction.output = tree.outputsOf txid)
    (hmore : ∀ other, .getRawTransaction other ∉ more) :
    Tally tree core own height (resolved ++ [(txid,parent.height)]) (cache.insert txid parent)
      (log ++ .getRawTransaction txid :: more) := by
  have hasked : Asked bitcoin core (log ++ .getRawTransaction txid :: more) txid parent.height :=
    ⟨log.length,by simp,hheight.symm⟩
  refine ⟨?_,?_,?_⟩
  · intro entry hentry
    rcases List.mem_append.mp hentry with hold | hnew
    · exact (h.source entry hold).imp_right fun hcall => hcall.mono _
    · rw [List.mem_singleton.mp hnew]
      exact Or.inr hasked
  · intro n other hcall
    rw [List.getElem?_append] at hcall
    split at hcall
    · exact List.mem_append_left _ (h.calls n other hcall)
    · next hlate =>
      rw [List.getElem?_cons] at hcall
      split at hcall
      · next hfirst =>
        obtain rfl : n = log.length := by omega
        obtain rfl : txid = other := by simpa using hcall
        rw [← hheight]
        simp
      · exact absurd (List.mem_of_getElem? hcall) (hmore other)
  · intro other found hfound
    rw [Std.ExtTreeMap.getElem?_insert] at hfound
    split at hfound
    · next hsame =>
      obtain rfl := Std.compare_eq_iff_eq.mp hsame
      obtain rfl := Option.some.inj hfound
      exact ⟨hasked,houtputs⟩
    · exact ⟨(h.cached other found hfound).1.mono _,(h.cached other found hfound).2⟩

theorem Tally.known {resolved : List (Hash32 × Option UInt64)} {txid : Hash32} {found : Option UInt64}
    (h : Tally tree core own height resolved cache log)
    (hfound : own[txid]?.isSome ∧ found = some height ∨ Asked bitcoin core log txid found) :
    Tally tree core own height (resolved ++ [(txid,found)]) cache log := by
  refine ⟨?_,fun n other hcall => List.mem_append_left _ (h.calls n other hcall),h.cached⟩
  intro entry hentry
  rcases List.mem_append.mp hentry with hold | hnew
  · exact h.source entry hold
  · rw [List.mem_singleton.mp hnew]
    exact hfound

theorem resolveParent_tally {txdata : List Transaction} {resolved : List (Hash32 × Option UInt64)}
    {txid : Hash32} {parent : ResolvedTransaction} (hcore : ∀ n, (core n).Faithful tree)
    (hown : Own tree height txdata own) (h : Tally tree core own height resolved cache log)
    (hresolve : BitcoinCoreRpc.resolveParent bitcoin core own cache log txid =
      some (parent,cache',log')) :
    Tally tree core own height (resolved ++ [(txid,parent.height)]) cache' log' ∧
      parent.transaction.output = tree.outputsOf txid := by
  unfold BitcoinCoreRpc.resolveParent at hresolve
  split at hresolve
  · next found hlocal =>
    simp only [Option.some.injEq,Prod.mk.injEq] at hresolve
    obtain ⟨rfl,rfl,rfl⟩ := hresolve
    obtain ⟨hheight,houtputs,_⟩ := hown txid found hlocal
    exact ⟨h.known (Or.inl ⟨by rw [hlocal]; rfl,hheight⟩),houtputs⟩
  · split at hresolve
    · next found hcached =>
      simp only [Option.some.injEq,Prod.mk.injEq] at hresolve
      obtain ⟨rfl,rfl,rfl⟩ := hresolve
      obtain ⟨hasked,houtputs⟩ := h.cached txid found hcached
      exact ⟨h.known (Or.inr hasked),houtputs⟩
    · simp only [Option.bind_eq_bind,Option.bind_eq_some_iff,Option.some.injEq,Prod.mk.injEq] at hresolve
      obtain ⟨⟨found,after⟩,hraw,rfl,rfl,rfl⟩ := hresolve
      obtain ⟨hheight,houtputs,more,rfl,hmore⟩ := rawTransaction_some hcore hraw
      exact ⟨h.asked hheight houtputs hmore,houtputs⟩

/-- The view of an input, given the height of its parent. -/
def inputView (tree : BlockTree bitcoin) (transaction : Transaction) (index : ℕ) (input : TxIn)
    (height : Option UInt64) : InputView :=
  if input.previousOutput.isNull then BitcoinCoreRpc.nullInput input
  else BitcoinCoreRpc.spendingInput bitcoin transaction index input
    ((tree.outputsOf input.previousOutput.txid)[input.previousOutput.vout.toNat]?.getD ⟨0,[]⟩) height

def inputViews (tree : BlockTree bitcoin) (home : List Entry) (transaction : Transaction) (index : ℕ)
    (inputs : List TxIn) : List InputView :=
  (inputs.zipIdx index).map fun entry =>
    inputView tree transaction entry.2 entry.1 (heightIn bitcoin home entry.1.previousOutput.txid)

/-- The view of a block that depends on its ancestry alone. -/
def resolvedView (tree : BlockTree bitcoin) (home : List Entry) (entry : Entry) : BlockView where
  hash := bitcoin.blockHash entry.block
  previousHash := entry.block.prevBlockhash
  height := entry.height
  transactions := entry.block.txdata.map fun transaction =>
    BitcoinCoreRpc.transactionView bitcoin transaction
      (inputViews tree home transaction 0 transaction.input)

/-- The resolved heights are those of a chain. -/
def Matches (bitcoin : Bitcoin) (home : List Entry) (resolved : List (Hash32 × Option UInt64)) : Prop :=
  ∀ entry ∈ resolved, entry.2 = heightIn bitcoin home entry.1

variable {txdata : List Transaction} {resolved : List (Hash32 × Option UInt64)}
variable {transaction : Transaction} {index : ℕ}

theorem resolveInput_tally {input : TxIn} {view : InputView} (hcore : ∀ n, (core n).Faithful tree)
    (hown : Own tree height txdata own) (h : Tally tree core own height resolved cache log)
    (hresolve : BitcoinCoreRpc.resolveInput bitcoin core own transaction index input cache log =
      some (view,cache',log')) :
    Tally tree core own height (resolved ++ spends input view) cache' log' ∧
      view = inputView tree transaction index input view.prevoutHeight := by
  unfold BitcoinCoreRpc.resolveInput at hresolve
  unfold spends inputView
  split at hresolve
  · next hnull =>
    simp only [Option.some.injEq,Prod.mk.injEq] at hresolve
    obtain ⟨rfl,rfl,rfl⟩ := hresolve
    simp only [hnull,if_true,List.append_nil,and_true]
    exact h
  · next hspends =>
    simp only [Option.bind_eq_bind,Option.bind_eq_some_iff,Option.some.injEq,Prod.mk.injEq] at hresolve
    obtain ⟨⟨parent,_,_⟩,hparent,prevout,hprevout,rfl,rfl,rfl⟩ := hresolve
    obtain ⟨htally,houtputs⟩ := resolveParent_tally hcore hown h hparent
    rw [houtputs] at hprevout
    simp only [hspends,hprevout,Option.getD_some]
    exact ⟨htally,rfl⟩

theorem resolveInputs_tally {inputs : List TxIn} {views : List InputView}
    (hcore : ∀ n, (core n).Faithful tree) (hown : Own tree height txdata own)
    (h : Tally tree core own height resolved cache log)
    (hresolve : BitcoinCoreRpc.resolveInputs bitcoin core own transaction index inputs cache log =
      some (views,cache',log')) :
    Tally tree core own height (resolved ++ inputSpends inputs views) cache' log' ∧
      ∀ home, Matches bitcoin home (inputSpends inputs views) →
        views = inputViews tree home transaction index inputs := by
  induction inputs generalizing index cache log views resolved with
  | nil =>
    simp only [BitcoinCoreRpc.resolveInputs,Option.some.injEq,Prod.mk.injEq] at hresolve
    obtain ⟨rfl,rfl,rfl⟩ := hresolve
    simp only [inputSpends,List.zipWith_nil_left,List.flatten_nil,List.append_nil]
    exact ⟨h,fun _ _ => rfl⟩
  | cons input rest ih =>
    simp only [BitcoinCoreRpc.resolveInputs,Option.bind_eq_bind,Option.bind_eq_some_iff,
      Option.some.injEq,Prod.mk.injEq] at hresolve
    obtain ⟨⟨view,_,_⟩,hfirst,⟨later,_,_⟩,hlater,rfl,rfl,rfl⟩ := hresolve
    obtain ⟨htally,hview⟩ := resolveInput_tally hcore hown h hfirst
    obtain ⟨hrest,hviews⟩ := ih htally hlater
    have hsplit : inputSpends (input :: rest) (view :: later) =
        spends input view ++ inputSpends rest later := by
      simp [inputSpends]
    rw [hsplit,← List.append_assoc]
    refine ⟨hrest,?_⟩
    intro home hmatch
    have hhead : view = inputView tree transaction index input
        (heightIn bitcoin home input.previousOutput.txid) := by
      rw [hview]
      unfold inputView
      split
      · rfl
      · next hspends =>
        have hheight : view.prevoutHeight = heightIn bitcoin home input.previousOutput.txid :=
          hmatch (input.previousOutput.txid,view.prevoutHeight) (by simp [spends,hspends])
        rw [hheight]
    have htail := hviews home fun entry hentry => hmatch entry (List.mem_append_right _ hentry)
    rw [htail]
    nth_rewrite 1 [hhead]
    rfl

theorem resolveTransactions_tally {own : ResolvedMap} {remaining : List Transaction}
    {views : List TxView} (hcore : ∀ n, (core n).Faithful tree) (hown : Own tree height txdata own)
    (h : Tally tree core own height resolved cache log)
    (hresolve : BitcoinCoreRpc.resolveTransactions bitcoin core own remaining cache log =
      some (views,cache',log')) :
    Tally tree core own height (resolved ++ blockSpends remaining views) cache' log' ∧
      ∀ home, Matches bitcoin home (blockSpends remaining views) →
        views = remaining.map fun transaction => BitcoinCoreRpc.transactionView bitcoin transaction
          (inputViews tree home transaction 0 transaction.input) := by
  induction remaining generalizing cache log views resolved with
  | nil =>
    simp only [BitcoinCoreRpc.resolveTransactions,Option.some.injEq,Prod.mk.injEq] at hresolve
    obtain ⟨rfl,rfl,rfl⟩ := hresolve
    simp only [blockSpends,List.zipWith_nil_left,List.flatten_nil,List.append_nil]
    exact ⟨h,fun _ _ => rfl⟩
  | cons transaction rest ih =>
    simp only [BitcoinCoreRpc.resolveTransactions,Option.bind_eq_bind,Option.bind_eq_some_iff,
      Option.some.injEq,Prod.mk.injEq] at hresolve
    obtain ⟨⟨inputs,_,_⟩,hfirst,⟨later,_,_⟩,hlater,rfl,rfl,rfl⟩ := hresolve
    obtain ⟨htally,hinputs⟩ := resolveInputs_tally hcore hown h hfirst
    obtain ⟨hrest,hviews⟩ := ih htally hlater
    have hsplit : blockSpends (transaction :: rest)
        (BitcoinCoreRpc.transactionView bitcoin transaction inputs :: later) =
          inputSpends transaction.input inputs ++ blockSpends rest later := by
      simp [blockSpends,BitcoinCoreRpc.transactionView]
    rw [hsplit,← List.append_assoc]
    refine ⟨hrest,?_⟩
    intro home hmatch
    have hhead := hinputs home fun entry hentry => hmatch entry (List.mem_append_left _ hentry)
    have htail := hviews home fun entry hentry => hmatch entry (List.mem_append_right _ hentry)
    rw [hhead,htail]
    rfl

/-- Every parent is confirmed in the chain at the resolved height. -/
def Confirmed (bitcoin : Bitcoin) (home : List Entry) (resolved : List (Hash32 × Option UInt64)) : Prop :=
  ∀ entry ∈ resolved, ∃ ancestor ∈ home, ancestor.contains bitcoin entry.1 ∧
    entry.2 = some ancestor.height

/-- At each call for a parent, the chain that is active then confirms the parent at the height
at which the given chain confirms it. -/
def Agrees (bitcoin : Bitcoin) (core : ℕ → Node) (home : List Entry) (log : List RpcRequest) : Prop :=
  ∀ (n : ℕ) (txid : Hash32), log[n]? = some (.getRawTransaction txid) →
    ∃ ancestor ∈ home, ancestor.contains bitcoin txid ∧
      heightIn bitcoin (core n).active txid = some ancestor.height

theorem ownTransactions_own {entry : Entry} (hentry : tree.known entry) :
    Own tree height entry.block.txdata
      (BitcoinCoreRpc.ownTransactions bitcoin height entry.block.txdata) := by
  intro txid parent hget
  obtain ⟨transaction,hmem,rfl,rfl⟩ := ownTransactions_get hget
  exact ⟨rfl,tree.outputs entry hentry transaction hmem,transaction,hmem,rfl⟩

/-- What a call that returns has done: it has fetched a block of the chain that was active
at its start, and counted where each height comes from. -/
theorem block_some {view : BlockView} (hcore : ∀ n, (core n).Faithful tree)
    (h : BitcoinCoreRpc.block bitcoin core height = some (view,log)) :
    ∃ entry home own cache, Ancestry tree entry home ∧ bitcoin.blockHash entry.block = view.hash ∧
      Own tree entry.height entry.block.txdata own ∧
      Tally tree core own entry.height (blockSpends entry.block.txdata view.transactions) cache log ∧
      ∀ home, Matches bitcoin home (blockSpends entry.block.txdata view.transactions) →
        view = resolvedView tree home entry := by
  simp only [BitcoinCoreRpc.block,BitcoinCoreRpc.call,Option.bind_eq_bind,Option.bind_eq_some_iff,
    Option.map_eq_some_iff] at h
  obtain ⟨_,⟨hash,hhash,rfl⟩,_,⟨block,hblock,rfl⟩,h⟩ := h
  split at h
  · simp at h
  · next hnamed =>
    simp only [Option.bind_eq_some_iff,Option.some.injEq,Prod.mk.injEq] at h
    obtain ⟨⟨transactions,_,_⟩,hresolve,rfl,rfl⟩ := h
    obtain ⟨entry,hget,hname⟩ := (hcore _).hash height hash hhash
    obtain ⟨found,hfound,rfl⟩ := (hcore _).block hash block hblock
    have hknown := (hcore _).known entry (List.mem_of_getElem? hget)
    obtain rfl := tree.named entry found hknown hfound (hname.trans (not_not.mp hnamed).symm)
    have hrooted := (hcore ([] : List RpcRequest).length).rooted
    have hheight : entry.height = height := UInt64.toNat_inj.mp (ranked hrooted hget)
    subst hheight
    have hown := @ownTransactions_own bitcoin tree entry.height entry hfound
    have hstart : Tally tree core (BitcoinCoreRpc.ownTransactions bitcoin entry.height
        entry.block.txdata) entry.height [] ∅ [.getBlockHash entry.height,.getBlock hash] := by
      refine ⟨by simp,?_,by simp⟩
      intro n txid hcall
      have hmem := List.mem_of_getElem? hcall
      simp at hmem
    obtain ⟨htally,hviews⟩ := resolveTransactions_tally hcore hown hstart hresolve
    refine ⟨entry,_,_,_,⟨rooted_take hrooted (entry.height.toNat + 1),?_,?_⟩,rfl,hown,htally,?_⟩
    · intro ancestor hmem
      exact (hcore _).known ancestor (List.mem_of_mem_take hmem)
    · rw [List.take_add_one,hget]
      simp
    · intro home hmatch
      have htransactions := hviews home hmatch
      rw [htransactions]
      rfl

theorem Ancestry.unique {entry : Entry} {home other : List Entry} (h : Ancestry tree entry home)
    (hother : Ancestry tree entry other) : other = home := by
  apply rooted_unique h.rooted hother.rooted h.last hother.last
  intro x hx y hy hname
  exact tree.named x y (hother.known x hx) (h.known y hy) hname

theorem Ancestry.heightIn {entry ancestor : Entry} {home : List Entry} {txid : Hash32}
    (h : Ancestry tree entry home) (hmem : ancestor ∈ home) (hcontains : ancestor.contains bitcoin txid) :
    heightIn bitcoin home txid = some ancestor.height := by
  unfold TandemVerifier.heightIn
  cases hfind : home.find? fun entry => entry.contains bitcoin txid with
  | none => exact absurd hcontains (List.find?_eq_none.mp hfind ancestor hmem)
  | some found =>
    have hfound := List.mem_of_find?_eq_some hfind
    have hholds : found.contains bitcoin txid := by simpa using List.find?_some hfind
    rw [tree.once home h.rooted h.known found hfound ancestor hmem txid hholds hcontains]
    rfl

theorem Confirmed.matches {entry : Entry} {home : List Entry} (h : Ancestry tree entry home)
    (hconfirmed : Confirmed bitcoin home resolved) : Matches bitcoin home resolved := by
  intro spend hspend
  obtain ⟨ancestor,hmem,hcontains,hheight⟩ := hconfirmed spend hspend
  rw [hheight,h.heightIn hmem hcontains]

/-- The heights are those of the ancestry exactly when every call for a parent saw a chain that
agrees with the ancestry on it. -/
theorem Tally.confirmed_iff {entry : Entry} {home : List Entry} (hhome : Ancestry tree entry home)
    (hown : Own tree entry.height entry.block.txdata own)
    (h : Tally tree core own entry.height resolved cache log) :
    Confirmed bitcoin home resolved ↔ Agrees bitcoin core home log := by
  constructor
  · intro hconfirmed n txid hcall
    exact hconfirmed (txid,TandemVerifier.heightIn bitcoin (core n).active txid) (h.calls n txid hcall)
  · intro hagrees spend hspend
    rcases h.source spend hspend with ⟨hlocal,hheight⟩ | ⟨n,hcall,hheight⟩
    · obtain ⟨parent,hparent⟩ := Option.isSome_iff_exists.mp hlocal
      obtain ⟨_,_,transaction,hmem,htxid⟩ := hown spend.1 parent hparent
      refine ⟨entry,List.mem_of_getLast? hhome.last,?_,hheight⟩
      exact List.any_eq_true.mpr ⟨transaction,hmem,by simp [htxid]⟩
    · obtain ⟨ancestor,hmem,hcontains,hfound⟩ := hagrees n spend.1 hcall
      exact ⟨ancestor,hmem,hcontains,hheight.symm.trans hfound⟩

end Resolution

section Runs
variable {bitcoin : Bitcoin} {tree : BlockTree bitcoin} {entry : Entry} {home : List Entry}
variable {P : Primitives} {db : Database}

/-- The views of a chain, each one resolved by the chain up to its block. -/
def ancestryViews (tree : BlockTree bitcoin) (home : List Entry) : List BlockView :=
  home.map fun entry => resolvedView tree (home.take (entry.height.toNat + 1)) entry

/-- A view that depends on the ancestry of its block alone. -/
def Viewed (tree : BlockTree bitcoin) (block : BlockView) : Prop :=
  ∃ entry home, Ancestry tree entry home ∧ block = resolvedView tree home entry

/-- Blocks are fetched by calls that see the ancestry of the block; all other replies are free. -/
def FetchesAgree (tree : BlockTree bitcoin) : Permits
  | .fetchBlock _ height,some block,_,_ => ∃ core log entry home, (∀ n, (core n).Faithful tree) ∧
    BitcoinCoreRpc.block bitcoin core height = some (block,log) ∧ Ancestry tree entry home ∧
    bitcoin.blockHash entry.block = block.hash ∧ Agrees bitcoin core home log
  | _,_,_,_ => True

theorem Ancestry.mem (h : Ancestry tree entry home) : entry ∈ home := List.mem_of_getLast? h.last

theorem Ancestry.upTo {ancestor : Entry} (h : Ancestry tree entry home) (hmem : ancestor ∈ home) :
    Ancestry tree ancestor (home.take (ancestor.height.toNat + 1)) := by
  have hget : home[ancestor.height.toNat]? = some ancestor := getElem?_rank h.rooted hmem
  refine ⟨rooted_take h.rooted _,fun other hother => h.known other (List.mem_of_mem_take hother),?_⟩
  rw [List.take_add_one,hget]
  simp

theorem Ancestry.same {other : Entry} {home' : List Entry} (h : Ancestry tree entry home)
    (hother : Ancestry tree other home')
    (hname : bitcoin.blockHash entry.block = bitcoin.blockHash other.block) :
    entry = other ∧ home = home' := by
  obtain rfl := tree.named entry other (h.known entry h.mem) (hother.known other hother.mem) hname
  exact ⟨rfl,hother.unique h⟩

theorem Viewed.injOn : Set.InjOn BlockView.hash {block | Viewed tree block} := by
  rintro _ ⟨entry,home,h,rfl⟩ _ ⟨other,home',hother,rfl⟩ hname
  obtain ⟨rfl,rfl⟩ := h.same hother hname
  rfl

theorem Ancestry.viewed (h : Ancestry tree entry home) {block : BlockView}
    (hblock : block ∈ ancestryViews tree home) : Viewed tree block := by
  obtain ⟨ancestor,hmem,rfl⟩ := List.mem_map.mp hblock
  exact ⟨ancestor,_,h.upTo hmem,rfl⟩

theorem Ancestry.rooted_views (h : Ancestry tree entry home) :
    blockLinks.Rooted (ancestryViews tree home) := by
  refine ⟨(List.isChain_map _).mpr h.rooted.linked,?_⟩
  intro block hblock
  rw [ancestryViews,List.head?_map] at hblock
  obtain ⟨first,hfirst,rfl⟩ := Option.mem_map.mp hblock
  exact h.rooted.origin first hfirst

theorem resolvedView_hasTransaction {txid : Hash32} :
    (resolvedView tree home entry).hasTransaction txid = entry.contains bitcoin txid := by
  simp [BlockView.hasTransaction,resolvedView,Entry.contains,BitcoinCoreRpc.transactionView,
    Function.comp_def]

/-- The views of an ancestry form a chain whose blocks are determined by their hashes. -/
theorem Ancestry.bestChain (h : Ancestry tree entry home) {views : Hash32 → BlockView}
    (hviews : ∀ block, Viewed tree block → views block.hash = block) (txid : Hash32) :
    BestChain views txid (ancestryViews tree home) := by
  refine ⟨h.rooted_views,fun block hblock => hviews block (h.viewed hblock),?_⟩
  intro a ha b hb hina hinb
  obtain ⟨x,hx,rfl⟩ := List.mem_map.mp ha
  obtain ⟨y,hy,rfl⟩ := List.mem_map.mp hb
  rw [resolvedView_hasTransaction] at hina hinb
  rw [tree.once home h.rooted h.known x hx y hy txid hina hinb]

/-- A database that stores only such views holds the reduction of the ancestry of its tip. -/
theorem Committed.ancestry (h : Committed P (Viewed tree) db) {row : ProtocolRow} {hash : Hash32}
    (hrow : db.protocolState = some row) (htip : row.state.tipHash = some hash) :
    ∃ entry home i deltas, Ancestry tree entry home ∧ bitcoin.blockHash entry.block = hash ∧
      InitAt row.binding.initTxid (ancestryViews tree home) i ∧
      applyBlocks P (ChainState.new P row.binding) ((ancestryViews tree home).drop i) =
        some (row.state,deltas) := by
  obtain ⟨blocks,deltas,hrecords,hviewed⟩ := h.sound.records hrow
  obtain ⟨hheight,hlast⟩ := applyBlocks_tip hrecords.run
  rw [htip] at hlast
  obtain ⟨last,hend,rfl⟩ := Option.map_eq_some_iff.mp hlast.symm
  obtain ⟨entry,home,hhome,rfl⟩ := hviewed last (List.mem_of_getLast? hend)
  obtain ⟨views,hviews⟩ : ∃ views : Hash32 → BlockView, ∀ block, Viewed tree block →
      views block.hash = block := by
    have : Nonempty BlockView := ⟨resolvedView tree home entry⟩
    exact ⟨_,fun block hblock => Viewed.injOn.leftInvOn_invFunOn hblock⟩
  have hstep : InStep P views row.binding db row.state blocks :=
    ⟨deltas,hrecords,fun block hblock => hviews block (hviewed block hblock)⟩
  have htipHeight : row.state.tipHeight = some entry.height := by
    rw [hheight,hend]
    rfl
  have hlength : home.length = entry.height.toNat + 1 := rooted_length hhome.rooted hhome.last
  have hget : (ancestryViews tree home)[entry.height.toNat]? = some (resolvedView tree home entry) := by
    have hentry : home[entry.height.toNat]? = some entry := getElem?_rank hhome.rooted hhome.mem
    rw [ancestryViews,List.getElem?_map,hentry,Option.map_some,
      List.take_of_length_le (Nat.le_of_eq hlength)]
  obtain ⟨i,hinit,_,hblocks⟩ := hstep.matched (hhome.bestChain hviews _) htipHeight hget htip
  rw [segment_full (by simp [ancestryViews,hlength])] at hblocks
  subst hblocks
  exact ⟨entry,home,i,deltas,hhome,rfl,hinit,hrecords.run⟩

theorem FetchesAgree.viewed {block : BlockView} (h : (FetchesAgree tree).Delivers block) :
    Viewed tree block := by
  obtain ⟨_,height,_,_,core,log,entry,home,hcore,hblock,hhome,hname,hagrees⟩ := h
  obtain ⟨found,other,own,cache,hother,hsame,hown,htally,hview⟩ := block_some hcore hblock
  obtain ⟨rfl,rfl⟩ := hhome.same hother (hname.trans hsame.symm)
  have hconfirmed := (htally.confirmed_iff hhome hown).mpr hagrees
  exact ⟨entry,home,hhome,hview home (hconfirmed.matches hhome)⟩

end Runs

/-- A block view has the prevout heights of the block's own ancestry exactly when, at each call
for a parent, the chain active then confirms the parent at the height at which the ancestry
does. If all fetches of a run meet this, the stored state is the reduction of the ancestry of
the stored tip. -/
theorem blockViews_ancestry {bitcoin : Bitcoin} (tree : BlockTree bitcoin) (P : Primitives) :
    (∀ (core : ℕ → Node) (height : UInt64) (view : BlockView) (log : List RpcRequest),
      (∀ n, (core n).Faithful tree) → BitcoinCoreRpc.block bitcoin core height = some (view,log) →
      ∃ entry home, Ancestry tree entry home ∧ bitcoin.blockHash entry.block = view.hash ∧
        (Confirmed bitcoin home (blockSpends entry.block.txdata view.transactions) ↔
          Agrees bitcoin core home log)) ∧
    ∀ (ι : Type) [DecidableEq ι] (world : World ι) (row : ProtocolRow) (hash : Hash32),
      Relation.ReflTransGen (World.Step P (FetchesAgree tree)) World.initial world →
      world.database.protocolState = some row → row.state.tipHash = some hash →
      ∃ entry home i deltas, Ancestry tree entry home ∧ bitcoin.blockHash entry.block = hash ∧
        InitAt row.binding.initTxid (ancestryViews tree home) i ∧
        applyBlocks P (ChainState.new P row.binding) ((ancestryViews tree home).drop i) =
          some (row.state,deltas) := by
  constructor
  · intro core height view log hcore hblock
    obtain ⟨entry,home,own,cache,hhome,hname,hown,htally,_⟩ := block_some hcore hblock
    exact ⟨entry,home,hhome,hname,htally.confirmed_iff hhome hown⟩
  · intro ι _ world row hash hrun hrow htip
    have hcommitted := (World.committed hrun).1.mono fun block hblock => FetchesAgree.viewed hblock
    exact hcommitted.ancestry hrow htip

section Answers
variable {bitcoin : Bitcoin} {tree : BlockTree bitcoin} {stored active : List Entry}

/-- A node that keeps all blocks and follows one chain. A stale transaction is returned with
zero confirmations; of the others only the sign of the count is read. -/
def nodeOf (bitcoin : Bitcoin) (stored active : List Entry) : Node where
  active := active
  getBlockHash height := active[height.toNat]?.map fun entry => bitcoin.blockHash entry.block
  getBlock hash := (stored.find? fun entry => bitcoin.blockHash entry.block = hash).map Entry.block
  getRawTransaction txid := do
    let transaction ← (stored.flatMap fun entry => entry.block.txdata).find? fun transaction =>
      bitcoin.computeTxid transaction = txid
    match active.find? fun entry => entry.contains bitcoin txid with
    | some entry => some ⟨transaction,some (bitcoin.blockHash entry.block),some 1⟩
    | none => some ⟨transaction,none,some 0⟩
  getBlockHeader hash := (stored.find? fun entry => bitcoin.blockHash entry.block = hash).map Entry.height

theorem nodeOf_faithful (hstored : ∀ entry ∈ stored, tree.known entry) (hactive : active ⊆ stored)
    (hrooted : (entryLinks bitcoin).Rooted active) : (nodeOf bitcoin stored active).Faithful tree := by
  refine ⟨hrooted,fun entry hentry => hstored entry (hactive hentry),?_,?_,?_,?_,?_⟩
  · intro height hash h
    exact Option.map_eq_some_iff.mp h
  · intro hash block h
    obtain ⟨entry,hfind,rfl⟩ := Option.map_eq_some_iff.mp h
    exact ⟨entry,hstored entry (List.mem_of_find?_eq_some hfind),rfl⟩
  · intro txid verbose h
    obtain ⟨transaction,_,h⟩ := Option.bind_eq_some_iff.mp h
    simp only [nodeOf]
    split at h
    · next entry hfind =>
      obtain rfl := Option.some.inj h
      rw [hfind]
      rfl
    · next hfind =>
      obtain rfl := Option.some.inj h
      rw [hfind]
      rfl
  · intro txid verbose h
    obtain ⟨transaction,hfind,h⟩ := Option.bind_eq_some_iff.mp h
    obtain ⟨entry,hentry,hmem⟩ := List.mem_flatMap.mp (List.mem_of_find?_eq_some hfind)
    have htxid : bitcoin.computeTxid transaction = txid := by simpa using List.find?_some hfind
    have houtputs := tree.outputs entry (hstored entry hentry) transaction hmem
    rw [htxid] at houtputs
    split at h
    · obtain rfl := Option.some.inj h
      exact houtputs
    · obtain rfl := Option.some.inj h
      exact houtputs
  · intro hash height h entry hentry hname
    obtain ⟨found,hfind,rfl⟩ := Option.map_eq_some_iff.mp h
    have hfound : bitcoin.blockHash found.block = hash := by simpa using List.find?_some hfind
    rw [tree.named found entry (hstored found (List.mem_of_find?_eq_some hfind)) hentry
      (hfound.trans hname.symm)]

end Answers

section Sample

def compactSize (n : ℕ) : Bytes :=
  if n < 0xfd then [UInt8.ofNat n]
  else if n < 2 ^ 16 then 0xfd :: leBytes 2 n
  else if n < 2 ^ 32 then 0xfe :: leBytes 4 n
  else 0xff :: leBytes 8 n

def sized (bytes : Bytes) : Bytes := compactSize bytes.length ++ bytes

/-- The encoding of a transaction, with the witnesses where they are asked for. -/
def Transaction.serialize (transaction : Transaction) (segwit : Bool) : Bytes :=
  u32LeBytes transaction.version.toUInt32 ++ (if segwit then [0x00,0x01] else []) ++
    compactSize transaction.input.length ++
    (transaction.input.flatMap fun input => input.previousOutput.txid.toList ++
      u32LeBytes input.previousOutput.vout ++ sized input.scriptSig ++ u32LeBytes input.sequence) ++
    compactSize transaction.output.length ++
    (transaction.output.flatMap fun output => u64LeBytes output.value ++ sized output.scriptPubkey) ++
    (if segwit then transaction.input.flatMap fun input =>
      compactSize input.witness.length ++ input.witness.flatMap sized else []) ++
    u32LeBytes transaction.lockTime

def doubleSha256 (bytes : Bytes) : Hash32 := Crypto.sha256 (Crypto.sha256 bytes).toList

/-- The hashes of Bitcoin. No sample input carries a witness, so no signature is read. -/
def sampleBitcoin : Bitcoin where
  computeTxid transaction := doubleSha256 (transaction.serialize false)
  computeWtxid transaction := doubleSha256 (transaction.serialize
    (transaction.input.any fun input => !input.witness.isEmpty))
  blockHash block := doubleSha256 (block.version ++ block.prevBlockhash.toList ++ block.rest)
  signatureFromSlice _ := none
  normalizeS signature := signature
  signatureToVec signature := signature.signature
  publicKeyFromSlice _ := none
  p2wpkhSignatureHash _ _ _ _ := none
  p2wshSignatureHash _ _ _ _ := none
  verifyEcdsa _ _ _ := false

def coinbase (height extra : UInt8) : Transaction :=
  ⟨1,0,[⟨⟨.zero,0xffffffff⟩,0xffffffff,[1,height,extra],[]⟩],[⟨5000000000,[0x51]⟩]⟩

def spending (txid : Hash32) (value : UInt64) : Transaction :=
  ⟨2,0,[⟨⟨txid,0⟩,0xffffffff,[],[]⟩],[⟨value,[0x51]⟩]⟩

def minedBlock (previous merkleRoot : Hash32) (time nonce : UInt32) (txdata : List Transaction) : Block :=
  ⟨u32LeBytes 0x20000000,previous,merkleRoot.toList ++ u32LeBytes time ++ u32LeBytes 0x207fffff ++
    u32LeBytes nonce,txdata⟩

def coinTxid : Hash32 := sampleHash 0x9fa01e0921a74936b9ec9bfa7a4934ea57c493a2f780c6020534836d2cceba29
def parentTxid : Hash32 := sampleHash 0x42cb3a913efebb260d127a08d2b30fe6aa007866be988524bfe9f53fbfea82f7
def originHash : Hash32 := sampleHash 0x11b4dd5dc48383b8d1aa3db6508a0ef08d7fbbe6165c7e5a89f058d18e524b4d
def parentHash : Hash32 := sampleHash 0x24a8060f1a5f8bff510c532be49379fa88cadddbb16f54c02b98b10027559d0c
def childHash : Hash32 := sampleHash 0x505a82fe8a931ccf9a6a2aaed770272eab1f54c36da6145c7507d17007849963

def parentTransaction : Transaction := spending coinTxid 4999990000
def childTransaction : Transaction := spending parentTxid 4999980000

def originEntry : Entry := ⟨minedBlock .zero coinTxid 1 2 [coinbase 0 0],0⟩

/-- The parent is confirmed at height 1 and spent at height 2. -/
def parentEntry : Entry := ⟨minedBlock originHash
  (sampleHash 0x311494664adc40a313e6ec118bbf4292d332d96b09d6150d96683bdccebdaf92) 2 3
  [coinbase 1 0,parentTransaction],1⟩

def childEntry : Entry := ⟨minedBlock parentHash
  (sampleHash 0x4ad0976ddb9dc0a82df8a736f0f3bc11a9027fab718e348967f6478eaf35b8c3) 3 0
  [coinbase 2 0,childTransaction],2⟩

/-- A block beside the one that confirms the parent. -/
def rivalEntry : Entry := ⟨minedBlock originHash
  (sampleHash 0xc0fa3e9f65aacb79cae1eec3720977019e9138487b66d4971343bf20adc8e8bc) 4 0
  [coinbase 1 1],1⟩

def sampleEntries : List Entry := [originEntry,parentEntry,childEntry,rivalEntry]
def parentChain : List Entry := [originEntry,parentEntry,childEntry]
def rivalChain : List Entry := [originEntry,rivalEntry]

def sampleOutputs (txid : Hash32) : List OutputView :=
  ((sampleEntries.flatMap fun entry => entry.block.txdata).find? fun transaction =>
    sampleBitcoin.computeTxid transaction = txid).elim [] Transaction.output

set_option maxRecDepth 10000 in
/-- All that the samples need of the hashes, evaluated once. -/
theorem sampleEntries_hashes :
    (∀ a ∈ sampleEntries, ∀ b ∈ sampleEntries,
      sampleBitcoin.blockHash a.block = sampleBitcoin.blockHash b.block → a = b) ∧
    (∀ a ∈ sampleEntries, ∀ b ∈ sampleEntries, ∀ transaction ∈ a.block.txdata,
      b.contains sampleBitcoin (sampleBitcoin.computeTxid transaction) → a = b) ∧
    (∀ entry ∈ sampleEntries, ∀ transaction ∈ entry.block.txdata,
      transaction.output = sampleOutputs (sampleBitcoin.computeTxid transaction)) ∧
    parentChain.IsChain (entryLinks sampleBitcoin).Follows ∧
    rivalChain.IsChain (entryLinks sampleBitcoin).Follows ∧
    sampleBitcoin.blockHash parentEntry.block = parentHash ∧
    sampleBitcoin.blockHash childEntry.block = childHash ∧
    originEntry.contains sampleBitcoin coinTxid = true ∧
    parentEntry.contains sampleBitcoin parentTxid = true := by
  decide +kernel

def sampleTree : BlockTree sampleBitcoin where
  known entry := entry ∈ sampleEntries
  outputsOf := sampleOutputs
  named := fun a b ha hb hname => sampleEntries_hashes.1 a ha b hb hname
  outputs := sampleEntries_hashes.2.2.1
  once := by
    intro chain _ hknown a ha b hb txid hina hinb
    obtain ⟨transaction,hmem,htxid⟩ := List.any_eq_true.mp hina
    rw [← eq_of_beq htxid] at hinb
    exact sampleEntries_hashes.2.1 a (hknown a ha) b (hknown b hb) transaction hmem hinb

theorem rooted_of_origin {rest : List Entry}
    (h : (originEntry :: rest).IsChain (entryLinks sampleBitcoin).Follows) :
    (entryLinks sampleBitcoin).Rooted (originEntry :: rest) := by
  refine ⟨h,?_⟩
  rintro _ ⟨rfl⟩
  rfl

theorem childEntry_ancestry : Ancestry sampleTree childEntry parentChain := by
  refine ⟨rooted_of_origin sampleEntries_hashes.2.2.2.1,?_,rfl⟩
  intro ancestor hmem
  exact List.mem_append_left [rivalEntry] hmem

theorem parentEntry_ancestry : Ancestry sampleTree parentEntry [originEntry,parentEntry] :=
  childEntry_ancestry.upTo (by simp [parentChain])

/-- A node that stays on the parent's chain. -/
def stayingCore (_ : ℕ) : Node := nodeOf sampleBitcoin sampleEntries parentChain

/-- A node that leaves the parent's chain after it has sent the block. -/
def leavingCore (n : ℕ) : Node :=
  nodeOf sampleBitcoin sampleEntries (if n < 2 then parentChain else rivalChain)

theorem stayingCore_faithful (n : ℕ) : (stayingCore n).Faithful sampleTree :=
  nodeOf_faithful (fun _ h => h) childEntry_ancestry.known childEntry_ancestry.rooted

theorem leavingCore_faithful (n : ℕ) : (leavingCore n).Faithful sampleTree := by
  unfold leavingCore
  split
  · exact stayingCore_faithful n
  · exact nodeOf_faithful (fun _ h => h) (by simp [rivalChain,sampleEntries])
      (rooted_of_origin sampleEntries_hashes.2.2.2.2.1)

def fetched (core : ℕ → Node) (height : UInt64) : Option (Hash32 × List RpcRequest) :=
  (BitcoinCoreRpc.block sampleBitcoin core height).map fun result => (result.1.hash,result.2)

def childSpends (core : ℕ → Node) : Option (Hash32 × List (Hash32 × Option UInt64)) :=
  (BitcoinCoreRpc.block sampleBitcoin core 2).map fun result =>
    (result.1.hash,blockSpends childEntry.block.txdata result.1.transactions)

set_option maxRecDepth 10000 in
theorem sampleCalls :
    childSpends leavingCore = some (childHash,[(parentTxid,none)]) ∧
    fetched stayingCore 1 = some (parentHash,[.getBlockHash 1,.getBlock parentHash,
      .getRawTransaction coinTxid,.getBlockHeader originHash]) ∧
    fetched stayingCore 2 = some (childHash,[.getBlockHash 2,.getBlock childHash,
      .getRawTransaction parentTxid,.getBlockHeader parentHash]) := by
  decide +kernel

/-- The chain switches between the fetch of the block and the call for the parent: the parent
lies in the ancestry of the block at height 1, and the view gives it no height. -/
theorem sample_switched_view : (∀ n, (leavingCore n).Faithful sampleTree) ∧
    Ancestry sampleTree childEntry parentChain ∧ parentEntry ∈ parentChain ∧
    parentEntry.contains sampleBitcoin parentTxid = true ∧ parentEntry.height = 1 ∧
    ∃ view log, BitcoinCoreRpc.block sampleBitcoin leavingCore 2 = some (view,log) ∧
      sampleBitcoin.blockHash childEntry.block = view.hash ∧
      blockSpends childEntry.block.txdata view.transactions = [(parentTxid,none)] ∧
      ¬ Confirmed sampleBitcoin parentChain (blockSpends childEntry.block.txdata view.transactions) := by
  obtain ⟨_,_,_,_,_,_,hchild,_,hparent⟩ := sampleEntries_hashes
  refine ⟨leavingCore_faithful,childEntry_ancestry,by simp [parentChain],hparent,rfl,?_⟩
  obtain ⟨⟨view,log⟩,hblock,hresult⟩ := Option.map_eq_some_iff.mp sampleCalls.1
  obtain ⟨hhash,hspends⟩ := Prod.mk.inj hresult
  refine ⟨view,log,hblock,hchild.trans hhash.symm,hspends,?_⟩
  rw [hspends]
  intro hconfirmed
  obtain ⟨_,_,_,hheight⟩ := hconfirmed (parentTxid,none) (by simp)
  simp at hheight

/-- A call on a chain that does not change agrees with the ancestors that contain the parents. -/
theorem stayingCore_agrees {home : List Entry} {log : List RpcRequest}
    (hhome : home ⊆ parentChain)
    (h : ∀ txid, .getRawTransaction txid ∈ log → ∃ ancestor ∈ home, ancestor.contains sampleBitcoin txid) :
    Agrees sampleBitcoin stayingCore home log := by
  intro n txid hcall
  obtain ⟨ancestor,hmem,hcontains⟩ := h txid (List.mem_of_getElem? hcall)
  exact ⟨ancestor,hmem,hcontains,childEntry_ancestry.heightIn (hhome hmem) hcontains⟩

/-- Both fetches of the pass agree with the ancestry of the block they return. -/
theorem stayingCore_fetch {height : UInt64} {view : BlockView} {log : List RpcRequest}
    (hheight : height = 1 ∨ height = 2)
    (h : BitcoinCoreRpc.block sampleBitcoin stayingCore height = some (view,log)) :
    ∃ entry home, Ancestry sampleTree entry home ∧
      sampleBitcoin.blockHash entry.block = view.hash ∧ Agrees sampleBitcoin stayingCore home log := by
  obtain ⟨_,hfirst,hsecond⟩ := sampleCalls
  obtain ⟨_,_,_,_,_,hparent,hchild,hinorigin,hinparent⟩ := sampleEntries_hashes
  rcases hheight with rfl | rfl
  · simp only [fetched,h,Option.map_some,Option.some.injEq,Prod.mk.injEq] at hfirst
    refine ⟨parentEntry,_,parentEntry_ancestry,hparent.trans hfirst.1.symm,
      stayingCore_agrees (by simp [parentChain]) ?_⟩
    intro txid hmem
    obtain rfl : txid = coinTxid := by simpa [hfirst.2] using hmem
    exact ⟨originEntry,by simp,hinorigin⟩
  · simp only [fetched,h,Option.map_some,Option.some.injEq,Prod.mk.injEq] at hsecond
    refine ⟨childEntry,_,childEntry_ancestry,hchild.trans hsecond.1.symm,
      stayingCore_agrees (fun _ h => h) ?_⟩
    intro txid hmem
    obtain rfl : txid = parentTxid := by simpa [hsecond.2] using hmem
    exact ⟨parentEntry,by simp [parentChain],hinparent⟩

def rpcSource : Source
  | .starting => some ()
  | .readStatus => some (some sampleStatus)
  | .readBestHeight => some (some 2)
  | .locateInit _ => some (some (some 1))
  | .fetchBlock _ height =>
    if height = 1 ∨ height = 2 then
      some ((BitcoinCoreRpc.block sampleBitcoin stayingCore height).map Prod.fst)
    else none
  | _ => none

/-- The parent is configured as INIT; it carries no marker and fails. -/
def rpcBinding : Binding := ⟨.regtest,parentTxid,sampleHash 2⟩

def rpcNew : ChainState := ChainState.new bitcoinPrimitives rpcBinding

def rpcBound : Database := { Database.empty with protocolState := some ⟨rpcBinding,rpcNew⟩ }

/-- A worker stores the block of the parent through the node. -/
def rpcPass : Option (Database × Ingestion) :=
  Ingestion.simulate bitcoinPrimitives rpcSource (List.replicate 6 .acknowledged)
    (rpcBound,Ingestion.new rpcNew sampleRelease)

set_option maxRecDepth 10000 in
theorem rpcPass_eq : rpcPass.map (fun config => (storedHashes config.1,
    config.1.protocolState.map fun row => row.state.tipHash)) =
      some ([parentHash],some (some parentHash)) := by
  decide +kernel

theorem rpcSource_meets (fate : Fate) : Ingestion.Meets rpcSource (FetchesAgree sampleTree) fate := by
  intro worker db db' point reply h
  cases point with
  | fetchBlock bestHeight height =>
    cases reply with
    | none => trivial
    | some block =>
      simp only [Ingestion.respond,rpcSource] at h
      split at h
      · next hheight =>
        simp only [Option.map_some,Option.some.injEq,Prod.mk.injEq] at h
        obtain ⟨⟨view,log⟩,hblock,rfl⟩ := Option.map_eq_some_iff.mp h.1
        obtain ⟨entry,home,hhome,hname,hagrees⟩ := stayingCore_fetch hheight hblock
        exact ⟨stayingCore,log,entry,home,stayingCore_faithful,hblock,hhome,hname,hagrees⟩
      · simp at h
  | panicked => cases reply
  | _ => trivial

theorem sample_ancestry :
    (∃ view log entry home, BitcoinCoreRpc.block sampleBitcoin stayingCore 2 = some (view,log) ∧
      Ancestry sampleTree entry home ∧
      Confirmed sampleBitcoin home (blockSpends entry.block.txdata view.transactions)) ∧
    ∃ (world : World Unit) (row : ProtocolRow) (entry : Entry) (home : List Entry) (i : ℕ)
      (deltas : List BlockDelta),
      Relation.ReflTransGen (World.Step bitcoinPrimitives (FetchesAgree sampleTree)) .initial world ∧
      world.database.protocolState = some row ∧ Ancestry sampleTree entry home ∧
      sampleBitcoin.blockHash entry.block = parentHash ∧
      applyBlocks bitcoinPrimitives (ChainState.new bitcoinPrimitives row.binding)
        ((ancestryViews sampleTree home).drop i) = some (row.state,deltas) := by
  constructor
  · obtain ⟨⟨view,log⟩,hblock,_⟩ := Option.map_eq_some_iff.mp sampleCalls.2.2
    obtain ⟨other,chain,hother,hsame,hagrees⟩ := stayingCore_fetch (Or.inr rfl) hblock
    obtain ⟨entry,home,hhome,hname,hiff⟩ := (blockViews_ancestry sampleTree bitcoinPrimitives).1
      stayingCore 2 view log stayingCore_faithful hblock
    obtain ⟨rfl,rfl⟩ := hhome.same hother (hname.trans hsame.symm)
    exact ⟨view,log,entry,home,hblock,hhome,hiff.mpr hagrees⟩
  · obtain ⟨⟨db,worker⟩,hpass,hobserved⟩ := Option.map_eq_some_iff.mp rpcPass_eq
    simp only [Prod.mk.injEq] at hobserved
    obtain ⟨row,hrow,htip⟩ := Option.map_eq_some_iff.mp hobserved.2
    have hconnect : World.Step bitcoinPrimitives (FetchesAgree sampleTree) World.initial
        (⟨rpcBound,Function.update (fun _ => none) () (some (Ingestion.new rpcNew sampleRelease))⟩ :
          World Unit) := .connected () rpcBinding sampleRelease rfl
    have hrun := (Relation.ReflTransGen.single hconnect).trans
      (World.worked_run () rfl (Ingestion.simulate_run (fun fate _ => rpcSource_meets fate) hpass))
    obtain ⟨entry,home,i,deltas,hhome,hname,_,hreduction⟩ :=
      (blockViews_ancestry sampleTree bitcoinPrimitives).2 Unit _ row parentHash hrun hrow htip
    exact ⟨_,row,entry,home,i,deltas,hrun,hrow,hhome,hname,hreduction⟩

end Sample
end TandemVerifier
