import TandemVerifier.Reduction.Transition

/-! # Runs of accepted blocks

A run applies blocks in order while each of them is accepted. Every run is a
sequence of small steps: the status is set, a transaction is processed, a
transaction is passed over, a block is sealed. Invariants are proved by induction
on these steps and then hold after every block and before every transaction.
-/
namespace TandemVerifier
open Library Library.Outcome

/-- Apply blocks in order while every one of them is accepted. -/
def applyBlocks (P : Primitives) : ChainState → List BlockView → Option (ChainState × List BlockDelta)
  | state,[] => some (state,[])
  | state,block :: rest =>
    match applyBlock P state block with
    | .ok (next,.ok delta) => (applyBlocks P next rest).map fun run => (run.1,delta :: run.2)
    | _ => none

variable {P : Primitives}

section Loop
variable {step : ChainState → TxView → UInt32 → Outcome Infallible (ChainState × List Event)}
variable {motive : List TxView → ChainState → List Event → Prop}

/-- The invariant rule of the transaction loop, over the transactions already visited. -/
theorem forEachTransaction_from
    (hstep : ∀ earlier tx state events txIndex next emitted, motive earlier state events →
      u32TryFrom earlier.length = some txIndex → step state tx txIndex = ok (next,emitted) →
      motive (earlier ++ [tx]) next (events ++ emitted))
    {txs earlier : List TxView} {state final : ChainState} {acc events : List Event}
    (hstart : motive earlier state acc)
    (h : forEachTransaction step state acc earlier.length txs = ok (final,.ok events)) :
    motive (earlier ++ txs) final events := by
  induction txs generalizing earlier state acc with
  | nil =>
    simp only [forEachTransaction,pure_eq_ok,Outcome.ok.injEq,Prod.mk.injEq,Except.ok.injEq] at h
    obtain ⟨rfl,rfl⟩ := h
    simpa using hstart
  | cons tx rest ih =>
    unfold forEachTransaction at h
    cases hi : u32TryFrom earlier.length with
    | none => simp [hi] at h
    | some txIndex =>
      simp only [hi,bind_eq_ok,Prod.exists] at h
      obtain ⟨next,emitted,hcall,hrest⟩ := h
      have hnext := hstep earlier tx state acc txIndex next emitted hstart hi hcall
      have hlength : earlier.length + 1 = (earlier ++ [tx]).length := by simp
      rw [hlength] at hrest
      simpa using ih hnext hrest

theorem forEachTransaction_rule
    (hstep : ∀ earlier tx state events txIndex next emitted, motive earlier state events →
      u32TryFrom earlier.length = some txIndex → step state tx txIndex = ok (next,emitted) →
      motive (earlier ++ [tx]) next (events ++ emitted))
    {txs : List TxView} {start final : ChainState} {events : List Event}
    (hstart : motive [] start [])
    (h : forEachTransaction step start [] 0 txs = ok (final,.ok events)) :
    motive txs final events := by
  have hh : forEachTransaction step start [] ([] : List TxView).length txs = ok (final,.ok events) := h
  exact forEachTransaction_from hstep hstart hh

/-- Visiting one more transaction continues a finished loop. -/
theorem forEachTransaction_concat {txs : List TxView} {tx : TxView} {position : ℕ}
    {start state next : ChainState} {acc events emitted : List Event} {txIndex : UInt32}
    (h : forEachTransaction step start acc position txs = ok (state,.ok events))
    (hindex : u32TryFrom (position + txs.length) = some txIndex)
    (hcall : step state tx txIndex = ok (next,emitted)) :
    forEachTransaction step start acc position (txs ++ [tx]) = ok (next,.ok (events ++ emitted)) := by
  induction txs generalizing start acc position with
  | nil =>
    simp only [forEachTransaction,pure_eq_ok,Outcome.ok.injEq,Prod.mk.injEq,Except.ok.injEq] at h
    obtain ⟨rfl,rfl⟩ := h
    rw [List.length_nil,Nat.add_zero] at hindex
    simp [forEachTransaction,hindex,hcall]
  | cons first rest ih =>
    unfold forEachTransaction at h
    cases hi : u32TryFrom position with
    | none => simp [hi] at h
    | some index =>
      simp only [hi,bind_eq_ok,Prod.exists] at h
      obtain ⟨middle,part,hfirst,hrest⟩ := h
      have hlength : position + 1 + rest.length = position + (first :: rest).length := by
        rw [List.length_cons]
        omega
      have hh := ih hrest (hlength ▸ hindex)
      simp only [List.cons_append,forEachTransaction,hi,hfirst,ok_bind]
      exact hh

/-- Every event of a finished loop is emitted by the call on one of its transactions. -/
theorem forEachTransaction_event {txs : List TxView} {start final : ChainState} {events : List Event}
    (h : forEachTransaction step start [] 0 txs = ok (final,.ok events)) {event : Event}
    (he : event ∈ events) : ∃ earlier tx later before acc txIndex after emitted,
      txs = earlier ++ tx :: later ∧ forEachTransaction step start [] 0 earlier = ok (before,.ok acc) ∧
      u32TryFrom earlier.length = some txIndex ∧ step before tx txIndex = ok (after,emitted) ∧
      event ∈ emitted := by
  have hrule := forEachTransaction_rule (motive := fun visited state events =>
    forEachTransaction step start [] 0 visited = ok (state,.ok events) ∧
    ∀ event ∈ events, ∃ earlier tx later before acc txIndex after emitted,
      visited = earlier ++ tx :: later ∧
      forEachTransaction step start [] 0 earlier = ok (before,.ok acc) ∧
      u32TryFrom earlier.length = some txIndex ∧ step before tx txIndex = ok (after,emitted) ∧
      event ∈ emitted) ?_ ⟨rfl,by simp⟩ h
  · exact hrule.2 event he
  · rintro visited tx state acc txIndex next emitted ⟨hloop,hevents⟩ hindex hcall
    refine ⟨forEachTransaction_concat hloop (by simpa using hindex) hcall,?_⟩
    intro event hevent
    rcases List.mem_append.mp hevent with hold | hnew
    · obtain ⟨earlier,first,later,rest⟩ := hevents event hold
      obtain ⟨before,part,index,after,found,rfl,hrest⟩ := rest
      exact ⟨earlier,first,later ++ [tx],before,part,index,after,found,by simp,hrest⟩
    · exact ⟨visited,tx,[],state,acc,txIndex,next,emitted,rfl,hloop,hindex,hcall,hnew⟩

end Loop

section Blocks
variable {state state' : ChainState} {block : BlockView} {delta : BlockDelta}

/-- The first transaction of the block with the configured txid, with its position. -/
def findInit (state : ChainState) (block : BlockView) : Option (TxView × ℕ) :=
  block.transactions.zipIdx.find? fun entry => entry.1.txid == state.binding.initTxid

/-- The state in which the transaction loop of an INIT block starts. -/
def activated (state : ChainState) (block : BlockView) (params : InitParams) : ChainState :=
  { state with protocolStatus := .active block.height params.hOpen params.hClose }

/-- The four ways in which the transactions of a block are reduced. -/
inductive Reduction (P : Primitives) (state : ChainState) (block : BlockView) :
    ChainState → List Event → Prop
  | active (initHeight : UInt64) (hOpen hClose : UInt32) {final : ChainState} {events : List Event}
      (hstatus : state.protocolStatus = .active initHeight hOpen hClose)
      (hloop : forEachTransaction (fun state tx txIndex => processTransaction P state block tx txIndex)
        state [] 0 block.transactions = ok (final,.ok events)) :
      Reduction P state block final events
  | initialized (initTx : TxView) (position : ℕ) (params : InitParams) {final : ChainState}
      {events : List Event} (hstatus : state.protocolStatus = .awaitingInit)
      (hfind : findInit state block = some (initTx,position))
      (hvalid : validateConfiguredInit P state.binding block.height initTx = ok params)
      (hloop : forEachTransaction (initBlockStep P block) (activated state block params) [] 0
        block.transactions = ok (final,.ok events)) :
      Reduction P state block final events
  | failed (initTx : TxView) (position : ℕ) (initIndex : UInt32) (reason : Reason)
      (hstatus : state.protocolStatus = .awaitingInit)
      (hfind : findInit state block = some (initTx,position))
      (hindex : u32TryFrom position = some initIndex)
      (hinvalid : validateConfiguredInit P state.binding block.height initTx = err reason) :
      Reduction P state block { state with protocolStatus := .failedInit reason block.height }
        [invalidEvent P state.binding block initTx initIndex reason true]
  | idle (reason : Reason) (initHeight : UInt64)
      (hstatus : state.protocolStatus = .failedInit reason initHeight) :
      Reduction P state block state []

theorem reduceTransactions_ok {final : ChainState} {events : List Event}
    (h : reduceTransactions P state block = ok (final,.ok events)) :
    Reduction P state block final events := by
  unfold reduceTransactions at h
  cases hstatus : state.protocolStatus with
  | active initHeight hOpen hClose =>
    simp only [hstatus] at h
    exact .active initHeight hOpen hClose hstatus h
  | failedInit reason initHeight =>
    simp only [hstatus,pure_eq_ok,Outcome.ok.injEq,Prod.mk.injEq,Except.ok.injEq] at h
    obtain ⟨rfl,rfl⟩ := h
    exact .idle reason initHeight hstatus
  | awaitingInit =>
    simp only [hstatus] at h
    cases hfind : findInit state block with
    | none =>
      rw [findInit] at hfind
      simp [hfind] at h
    | some entry =>
      obtain ⟨initTx,position⟩ := entry
      have hfound := hfind
      rw [findInit] at hfind
      simp only [hfind] at h
      cases hindex : u32TryFrom position with
      | none => simp [hindex] at h
      | some initIndex =>
        simp only [hindex] at h
        cases hvalid : validateConfiguredInit P state.binding block.height initTx with
        | panic => simp [hvalid] at h
        | ok params =>
          simp only [hvalid] at h
          exact .initialized initTx position params hstatus hfound hvalid h
        | err reason =>
          simp only [hvalid,pure_eq_ok,Outcome.ok.injEq,Prod.mk.injEq,Except.ok.injEq] at h
          obtain ⟨rfl,rfl⟩ := h
          exact .failed initTx position initIndex reason hstatus hfound hindex hvalid

theorem processTransaction_frame {before after : ChainState} {tx : TxView} {txIndex : UInt32}
    {emitted : List Event} (h : processTransaction P before block tx txIndex = ok (after,emitted)) :
    after = { before with objects := after.objects, active := after.active } :=
  (processTransaction_effect h).frame

theorem initBlockStep_frame {before after : ChainState} {tx : TxView} {txIndex : UInt32}
    {emitted : List Event} (h : initBlockStep P block before tx txIndex = ok (after,emitted)) :
    after = { before with objects := after.objects, active := after.active } := by
  unfold initBlockStep at h
  split at h
  · simp only [pure_eq_ok,Outcome.ok.injEq,Prod.mk.injEq] at h
    obtain ⟨rfl,_⟩ := h
    rfl
  · exact processTransaction_frame h

theorem loop_frame {step : ChainState → TxView → UInt32 → Outcome Infallible (ChainState × List Event)}
    {txs : List TxView} {start final : ChainState} {events : List Event}
    (hstep : ∀ {before tx txIndex after emitted}, step before tx txIndex = ok (after,emitted) →
      after = { before with objects := after.objects, active := after.active })
    (hloop : forEachTransaction step start [] 0 txs = ok (final,.ok events)) :
    final = { start with objects := final.objects, active := final.active } := by
  refine forEachTransaction_rule (motive := fun _ state _ =>
    state = { start with objects := state.objects, active := state.active }) ?_ rfl hloop
  intro earlier tx before acc txIndex after emitted hbefore _ hcall
  rw [hstep hcall,hbefore]

/-- A reduction decides the status of a fresh chain and otherwise changes only the maps. -/
theorem Reduction.frame {reduced : ChainState} {events : List Event}
    (h : Reduction P state block reduced events) :
    ∃ status, status ≠ .awaitingInit ∧
      (state.protocolStatus = .awaitingInit ∨ status = state.protocolStatus) ∧
      reduced = { state with
        protocolStatus := status, objects := reduced.objects, active := reduced.active } := by
  cases h with
  | active initHeight hOpen hClose hstatus hloop =>
    exact ⟨state.protocolStatus,by simp [hstatus],Or.inr rfl,loop_frame processTransaction_frame hloop⟩
  | initialized initTx position params hstatus hfind hvalid hloop =>
    exact ⟨.active block.height params.hOpen params.hClose,by simp,Or.inl hstatus,
      loop_frame initBlockStep_frame hloop⟩
  | failed initTx position initIndex reason hstatus hfind hindex hinvalid =>
    exact ⟨.failedInit reason block.height,by simp,Or.inl hstatus,rfl⟩
  | idle reason initHeight hstatus =>
    exact ⟨state.protocolStatus,by simp [hstatus],Or.inr rfl,rfl⟩

/-- A state with a tip accepts only a block at the next height whose parent is the tip. -/
theorem validateLinkage_ok {tip : UInt64} (h : validateLinkage state block = .ok ())
    (htip : state.tipHeight = some tip) :
    tip.toNat + 1 = block.height.toNat ∧ state.tipHash = some block.previousHash := by
  simp only [validateLinkage,htip] at h
  split at h
  · simp at h
  · next expected hexpected =>
    split at h
    · simp at h
    · next hheight =>
      split at h
      · simp at h
      · next hparent =>
        rw [Decidable.not_not.mp hheight]
        exact ⟨checkedAdd64_eq_some.mp hexpected,Decidable.not_not.mp hparent⟩

/-- An accepted block links to the tip and seals a reduction of its transactions. -/
theorem applyBlock_ok (h : applyBlock P state block = ok (state',.ok delta)) :
    validateLinkage state block = .ok () ∧ block.transactions.length ≤ 2 ^ 32 - 1 ∧
      ∃ reduced events, Reduction P state block reduced events ∧
        sealBlock P state reduced block events = (state',delta) := by
  unfold applyBlock at h
  cases hlink : validateLinkage state block with
  | error e => simp [hlink] at h
  | ok u =>
    simp only [hlink] at h
    by_cases hlong : 2 ^ 32 - 1 < block.transactions.length
    · rw [if_pos hlong] at h
      simp at h
    · rw [if_neg hlong] at h
      simp only [bind_eq_ok,Prod.exists] at h
      obtain ⟨reduced,result,hreduce,h⟩ := h
      cases result with
      | error e => simp at h
      | ok events =>
        simp only [pure_eq_ok,Outcome.ok.injEq,Prod.mk.injEq,Except.ok.injEq] at h
        obtain ⟨rfl,rfl⟩ := h
        exact ⟨rfl,by omega,reduced,events,reduceTransactions_ok hreduce,rfl⟩

/-- What the delta of an accepted block records. -/
theorem applyBlock_delta (h : applyBlock P state block = ok (state',.ok delta)) :
    delta.before = state ∧ delta.blockHash = block.hash ∧ delta.previousHash = block.previousHash ∧
      delta.height = block.height ∧ state'.binding = state.binding ∧
      state'.tipHeight = some block.height ∧ state'.tipHash = some block.hash := by
  obtain ⟨_,_,reduced,events,hreduce,hseal⟩ := applyBlock_ok h
  obtain ⟨rfl,rfl⟩ := Prod.mk.inj hseal
  obtain ⟨_,_,_,hreduced⟩ := hreduce.frame
  exact ⟨rfl,rfl,rfl,rfl,by rw [hreduced],rfl,rfl⟩

/-- An accepted block decides the status, and leaves a decided one as it is. -/
theorem applyBlock_status (h : applyBlock P state block = ok (state',.ok delta)) :
    state'.protocolStatus ≠ .awaitingInit ∧
      (state.protocolStatus = .awaitingInit ∨ state'.protocolStatus = state.protocolStatus) := by
  obtain ⟨_,_,reduced,events,hreduce,hseal⟩ := applyBlock_ok h
  obtain ⟨rfl,_⟩ := Prod.mk.inj hseal
  obtain ⟨status,hdecided,hkept,hreduced⟩ := hreduce.frame
  rw [hreduced]
  exact ⟨hdecided,hkept⟩

/-- The chained root of an accepted block hashes the root before it and its own roots. -/
theorem applyBlock_roots (h : applyBlock P state block = ok (state',.ok delta)) :
    delta.roots.eventRoot = eventRoot P (state.binding.namespace P) delta.events ∧
      delta.roots.objectStateRoot =
        objectStateRoot P (state.binding.namespace P) state'.objectValues ∧
      delta.roots.counters = state'.counters ∧ delta.roots.height = block.height ∧
      delta.roots.blockHash = block.hash ∧ delta.roots.chainedRoot = state'.chainedRoot ∧
      state'.chainedRoot = blockRoot P (state.binding.namespace P) state.chainedRoot block.hash
        block.height delta.roots.eventRoot delta.roots.objectStateRoot delta.roots.counters := by
  obtain ⟨_,_,reduced,events,hreduce,hseal⟩ := applyBlock_ok h
  obtain ⟨rfl,rfl⟩ := Prod.mk.inj hseal
  obtain ⟨_,_,_,hreduced⟩ := hreduce.frame
  have hroot : reduced.chainedRoot = state.chainedRoot := by rw [hreduced]
  exact ⟨rfl,rfl,rfl,rfl,rfl,rfl,by rw [← hroot]; rfl⟩

end Blocks

section Runs
variable {state middle final : ChainState} {earlier later : List BlockView} {block : BlockView}
variable {deltas : List BlockDelta}

theorem applyBlocks_cons :
    applyBlocks P state (block :: later) = some (final,deltas) ↔ ∃ next delta rest,
      applyBlock P state block = ok (next,.ok delta) ∧ applyBlocks P next later = some (final,rest) ∧
      deltas = delta :: rest := by
  rw [applyBlocks]
  constructor
  · intro h
    split at h
    · next next delta happly =>
      obtain ⟨run,hrun,heq⟩ := Option.map_eq_some_iff.mp h
      obtain ⟨rfl,rfl⟩ := Prod.mk.inj heq
      exact ⟨next,delta,run.2,happly,hrun,rfl⟩
    · simp at h
  · rintro ⟨next,delta,rest,happly,hrun,rfl⟩
    simp [happly,hrun]

theorem applyBlocks_append :
    applyBlocks P state (earlier ++ later) = some (final,deltas) ↔ ∃ middle first second,
      applyBlocks P state earlier = some (middle,first) ∧
      applyBlocks P middle later = some (final,second) ∧ deltas = first ++ second := by
  induction earlier generalizing state deltas with
  | nil => simp [applyBlocks]
  | cons block rest ih =>
    simp only [List.cons_append,applyBlocks_cons,ih]
    constructor
    · rintro ⟨next,delta,_,happly,⟨middle,first,second,hfirst,hsecond,rfl⟩,rfl⟩
      exact ⟨middle,delta :: first,second,⟨next,delta,first,happly,hfirst,rfl⟩,hsecond,rfl⟩
    · rintro ⟨middle,_,second,⟨next,delta,first,happly,hfirst,rfl⟩,hsecond,rfl⟩
      exact ⟨next,delta,first ++ second,happly,⟨middle,first,second,hfirst,hsecond,rfl⟩,rfl⟩

/-- The deltas of a run are split with its blocks. -/
theorem applyBlocks_split {blocks : List BlockView} {first second : List BlockDelta}
    (h : applyBlocks P state blocks = some (final,first ++ second)) : ∃ applied rest middle,
      blocks = applied ++ rest ∧ applyBlocks P state applied = some (middle,first) ∧
      applyBlocks P middle rest = some (final,second) := by
  induction first generalizing state blocks with
  | nil => exact ⟨[],blocks,state,rfl,rfl,h⟩
  | cons delta first ih =>
    cases blocks with
    | nil => simp [applyBlocks] at h
    | cons block later =>
      obtain ⟨next,_,tail,happly,hrest,htail⟩ := applyBlocks_cons.mp h
      obtain ⟨rfl,rfl⟩ := List.cons.inj htail
      obtain ⟨applied,rest,middle,rfl,hfirst,hsecond⟩ := ih hrest
      exact ⟨block :: applied,rest,middle,rfl,applyBlocks_cons.mpr ⟨next,delta,first,happly,hfirst,rfl⟩,
        hsecond⟩

theorem applyBlocks_concat :
    applyBlocks P state (earlier ++ [block]) = some (final,deltas) ↔ ∃ middle first delta,
      applyBlocks P state earlier = some (middle,first) ∧
      applyBlock P middle block = ok (final,.ok delta) ∧ deltas = first ++ [delta] := by
  rw [applyBlocks_append]
  constructor
  · rintro ⟨middle,first,second,hfirst,hsecond,rfl⟩
    obtain ⟨next,delta,rest,happly,hrest,rfl⟩ := applyBlocks_cons.mp hsecond
    simp only [applyBlocks,Option.some.injEq,Prod.mk.injEq] at hrest
    obtain ⟨rfl,rfl⟩ := hrest
    exact ⟨middle,first,delta,hfirst,happly,rfl⟩
  · rintro ⟨middle,first,delta,hfirst,happly,rfl⟩
    exact ⟨middle,first,[delta],hfirst,applyBlocks_cons.mpr ⟨final,delta,[],happly,rfl,rfl⟩,rfl⟩

theorem applyBlocks_binding {blocks : List BlockView}
    (h : applyBlocks P state blocks = some (final,deltas)) : final.binding = state.binding := by
  induction blocks generalizing state deltas with
  | nil =>
    simp only [applyBlocks,Option.some.injEq,Prod.mk.injEq] at h
    rw [h.1]
  | cons block rest ih =>
    obtain ⟨next,delta,tail,happly,hrest,_⟩ := applyBlocks_cons.mp h
    rw [ih hrest,(applyBlock_delta happly).2.2.2.2.1]

/-- Every delta of a run is the result of applying one of its blocks. -/
theorem applyBlocks_mem {blocks : List BlockView} {delta : BlockDelta}
    (h : applyBlocks P state blocks = some (final,deltas)) (hdelta : delta ∈ deltas) :
    ∃ earlier block later middle first next, blocks = earlier ++ block :: later ∧
      applyBlocks P state earlier = some (middle,first) ∧
      applyBlock P middle block = ok (next,.ok delta) := by
  induction blocks generalizing state deltas with
  | nil =>
    simp only [applyBlocks,Option.some.injEq,Prod.mk.injEq] at h
    simp [← h.2] at hdelta
  | cons block rest ih =>
    obtain ⟨next,first,tail,happly,hrest,rfl⟩ := applyBlocks_cons.mp h
    rcases List.mem_cons.mp hdelta with rfl | htail
    · exact ⟨[],block,rest,state,[],next,rfl,rfl,happly⟩
    · obtain ⟨earlier,found,later,middle,part,after,rfl,hrun,hfound⟩ := ih hrest htail
      exact ⟨block :: earlier,found,later,middle,first :: part,after,rfl,
        applyBlocks_cons.mpr ⟨next,first,part,happly,hrun,rfl⟩,hfound⟩

end Runs

/-- A transaction with the height of the block that contains it. -/
structure Placed where
  height : UInt64
  tx : TxView

def placedIn (block : BlockView) : List Placed :=
  block.transactions.map fun tx => ⟨block.height,tx⟩

def placedTransactions (blocks : List BlockView) : List Placed := blocks.flatMap placedIn

/-- An event that records no change of objects and spends no carrier. -/
def Event.Inert (event : Event) : Prop :=
  (event.validityClass = .invalidNoState ∨ event.eventType = .init) ∧ event.predecessor = .zero

/-- The small steps of a run, with the transactions visited and the events emitted so far. -/
inductive Reached (P : Primitives) (binding : Binding) : List Placed → List Event → ChainState → Prop
  | fresh : Reached P binding [] [] (ChainState.new P binding)
  | decided {placed : List Placed} {log : List Event} {state : ChainState} (status : ProtocolStatus)
      (h : Reached P binding placed log state) (hawaiting : state.protocolStatus = .awaitingInit) :
      Reached P binding placed log { state with protocolStatus := status }
  | processed {placed : List Placed} {log : List Event} {state next : ChainState}
      {emitted : List Event} (block : BlockView) (tx : TxView) (txIndex : UInt32)
      (h : Reached P binding placed log state)
      (hcall : processTransaction P state block tx txIndex = ok (next,emitted)) :
      Reached P binding (placed ++ [⟨block.height,tx⟩]) (log ++ emitted) next
  | passed {placed : List Placed} {log : List Event} {state : ChainState} (more : List Placed)
      (emitted : List Event) (h : Reached P binding placed log state)
      (hinert : ∀ event ∈ emitted, event.Inert) :
      Reached P binding (placed ++ more) (log ++ emitted) state
  | sealed {placed : List Placed} {log : List Event} {state : ChainState} (tipHeight : UInt64)
      (tipHash chainedRoot : Hash32) (h : Reached P binding placed log state) :
      Reached P binding placed log
        { state with tipHeight := some tipHeight, tipHash := some tipHash, chainedRoot := chainedRoot }

/-- A property of the transactions visited, the events emitted and the state that every small
step of a run keeps. -/
structure Kept (P : Primitives) (C : List Placed → List Event → ChainState → Prop) : Prop where
  decided : ∀ {placed log state} (status : ProtocolStatus), C placed log state →
    state.protocolStatus = .awaitingInit → C placed log { state with protocolStatus := status }
  processed : ∀ {placed log state next emitted} (block : BlockView) (tx : TxView) (txIndex : UInt32),
    C placed log state → processTransaction P state block tx txIndex = ok (next,emitted) →
    C (placed ++ [⟨block.height,tx⟩]) (log ++ emitted) next
  passed : ∀ {placed log state} (more : List Placed) (emitted : List Event), C placed log state →
    (∀ event ∈ emitted, event.Inert) → C (placed ++ more) (log ++ emitted) state
  sealed : ∀ {placed log state} (tipHeight : UInt64) (tipHash chainedRoot : Hash32), C placed log state →
    C placed log
      { state with tipHeight := some tipHeight, tipHash := some tipHash, chainedRoot := chainedRoot }

theorem Reached.kept {binding : Binding} : Kept P (Reached P binding) :=
  ⟨.decided,.processed,.passed,.sealed⟩

namespace Kept
variable {C : List Placed → List Event → ChainState → Prop}
variable {placed : List Placed} {log events : List Event}
variable {state final : ChainState} {block : BlockView} {txs : List TxView}

theorem initBlockStep {tx : TxView} {txIndex : UInt32} {next : ChainState} {emitted : List Event}
    (hkept : Kept P C) (h : C placed log state)
    (hcall : initBlockStep P block state tx txIndex = ok (next,emitted)) :
    C (placed ++ [⟨block.height,tx⟩]) (log ++ emitted) next := by
  unfold TandemVerifier.initBlockStep at hcall
  by_cases hinit : tx.txid = state.binding.initTxid
  · simp only [if_pos hinit,pure_eq_ok,Outcome.ok.injEq,Prod.mk.injEq] at hcall
    obtain ⟨rfl,rfl⟩ := hcall
    apply hkept.passed [_] _ h
    intro event he
    rw [List.mem_singleton.mp he]
    exact ⟨Or.inr rfl,rfl⟩
  · rw [if_neg hinit] at hcall
    exact hkept.processed block tx txIndex h hcall

theorem loop {step : ChainState → TxView → UInt32 → Outcome Infallible (ChainState × List Event)}
    (hstep : ∀ {placed log state tx txIndex next emitted}, C placed log state →
      step state tx txIndex = ok (next,emitted) →
      C (placed ++ [⟨block.height,tx⟩]) (log ++ emitted) next)
    (h : C placed log state) (hloop : forEachTransaction step state [] 0 txs = ok (final,.ok events)) :
    C (placed ++ txs.map fun tx => ⟨block.height,tx⟩) (log ++ events) final := by
  refine forEachTransaction_rule (motive := fun visited state events =>
    C (placed ++ visited.map fun tx => ⟨block.height,tx⟩) (log ++ events) state)
    ?_ (by simpa using h) hloop
  intro earlier tx state events txIndex next emitted hreached _ hcall
  have hnext := hstep hreached hcall
  simpa using hnext

theorem reduction {reduced : ChainState} (hkept : Kept P C) (h : C placed log state)
    (hreduce : Reduction P state block reduced events) :
    C (placed ++ placedIn block) (log ++ events) reduced := by
  cases hreduce with
  | active initHeight hOpen hClose hstatus hloop =>
    exact loop (fun h hcall => hkept.processed block _ _ h hcall) h hloop
  | initialized initTx position params hstatus hfind hvalid hloop =>
    exact loop hkept.initBlockStep (hkept.decided _ h hstatus) hloop
  | failed initTx position initIndex reason hstatus hfind hindex hinvalid =>
    apply hkept.passed _ _ (hkept.decided _ h hstatus)
    intro event he
    rw [List.mem_singleton.mp he]
    exact ⟨Or.inl rfl,rfl⟩
  | idle reason initHeight hstatus =>
    exact hkept.passed _ _ h (by simp)

theorem applyBlock {next : ChainState} {delta : BlockDelta} (hkept : Kept P C) (h : C placed log state)
    (happly : applyBlock P state block = ok (next,.ok delta)) :
    C (placed ++ placedIn block) (log ++ delta.events) next := by
  obtain ⟨_,_,reduced,events,hreduce,hseal⟩ := applyBlock_ok happly
  obtain ⟨rfl,rfl⟩ := Prod.mk.inj hseal
  exact hkept.sealed _ _ _ (hkept.reduction h hreduce)

theorem applyBlocks {blocks : List BlockView} {deltas : List BlockDelta} (hkept : Kept P C)
    (h : C placed log state) (hrun : applyBlocks P state blocks = some (final,deltas)) :
    C (placed ++ placedTransactions blocks) (log ++ deltas.flatMap BlockDelta.events) final := by
  induction blocks generalizing state placed log deltas with
  | nil =>
    simp only [TandemVerifier.applyBlocks,Option.some.injEq,Prod.mk.injEq] at hrun
    obtain ⟨rfl,rfl⟩ := hrun
    simpa [placedTransactions] using h
  | cons block rest ih =>
    obtain ⟨next,delta,tail,happly,hrest,rfl⟩ := applyBlocks_cons.mp hrun
    have hh := ih (hkept.applyBlock h happly) hrest
    simpa [placedTransactions] using hh

end Kept

theorem run_reached {binding : Binding} {final : ChainState} {blocks : List BlockView}
    {deltas : List BlockDelta}
    (hrun : applyBlocks P (ChainState.new P binding) blocks = some (final,deltas)) :
    Reached P binding (placedTransactions blocks) (deltas.flatMap BlockDelta.events) final := by
  simpa using Reached.kept.applyBlocks .fresh hrun

/-- While the block is applied to the state, `processTransaction` is called in the state
`before` on the transaction that follows the `earlier` ones. -/
inductive Handed (P : Primitives) (state : ChainState) (block : BlockView) :
    List TxView → TxView → ChainState → Prop
  | active {initHeight : UInt64} {hOpen hClose : UInt32} {earlier later : List TxView} {tx : TxView}
      {before : ChainState} {events : List Event}
      (hstatus : state.protocolStatus = .active initHeight hOpen hClose)
      (hblock : block.transactions = earlier ++ tx :: later)
      (hloop : forEachTransaction (fun state tx txIndex => processTransaction P state block tx txIndex)
        state [] 0 earlier = ok (before,.ok events)) :
      Handed P state block earlier tx before
  | initialized {initTx : TxView} {position : ℕ} {params : InitParams} {earlier later : List TxView}
      {tx : TxView} {before : ChainState} {events : List Event}
      (hstatus : state.protocolStatus = .awaitingInit)
      (hfind : findInit state block = some (initTx,position))
      (hvalid : validateConfiguredInit P state.binding block.height initTx = ok params)
      (hblock : block.transactions = earlier ++ tx :: later)
      (hother : tx.txid ≠ state.binding.initTxid)
      (hloop : forEachTransaction (initBlockStep P block) (activated state block params) [] 0
        earlier = ok (before,.ok events)) :
      Handed P state block earlier tx before

/-- A call of `processTransaction` made while the blocks are applied to a new state. -/
def Called (P : Primitives) (binding : Binding) (blocks : List BlockView) (block : BlockView)
    (tx : TxView) (before after : ChainState) (emitted : List Event) : Prop :=
  ∃ earlierBlocks laterBlocks state deltas earlier txIndex,
    blocks = earlierBlocks ++ block :: laterBlocks ∧
    applyBlocks P (ChainState.new P binding) earlierBlocks = some (state,deltas) ∧
    Handed P state block earlier tx before ∧ u32TryFrom earlier.length = some txIndex ∧
    processTransaction P before block tx txIndex = ok (after,emitted)

section Handed
variable {binding : Binding} {placed : List Placed} {log : List Event}
variable {state before : ChainState} {block : BlockView} {earlier : List TxView} {tx : TxView}

theorem Handed.split (h : Handed P state block earlier tx before) :
    ∃ later, block.transactions = earlier ++ tx :: later := by
  cases h with
  | active hstatus hblock hloop => exact ⟨_,hblock⟩
  | initialized hstatus hfind hvalid hblock hother hloop => exact ⟨_,hblock⟩

/-- Every event of a reduction is inert or emitted by a call of `processTransaction`. -/
theorem Reduction.event_handed {reduced : ChainState} {events : List Event}
    (h : Reduction P state block reduced events) {event : Event} (he : event ∈ events) :
    (event.Inert ∧ event.validityClass ≠ .terminalNoncanonical) ∨
      ∃ earlier tx before txIndex after emitted, Handed P state block earlier tx before ∧
      u32TryFrom earlier.length = some txIndex ∧
      processTransaction P before block tx txIndex = ok (after,emitted) ∧ event ∈ emitted := by
  cases h with
  | active initHeight hOpen hClose hstatus hloop =>
    obtain ⟨earlier,tx,later,before,acc,txIndex,after,emitted,hblock,hvisited,hindex,hcall,hmem⟩ :=
      forEachTransaction_event hloop he
    exact Or.inr ⟨earlier,tx,before,txIndex,after,emitted,.active hstatus hblock hvisited,hindex,hcall,
      hmem⟩
  | initialized initTx position params hstatus hfind hvalid hloop =>
    obtain ⟨earlier,tx,later,before,acc,txIndex,after,emitted,hblock,hvisited,hindex,hcall,hmem⟩ :=
      forEachTransaction_event hloop he
    have hbinding : before.binding = state.binding := by
      rw [loop_frame initBlockStep_frame hvisited]
      rfl
    unfold initBlockStep at hcall
    rw [hbinding] at hcall
    by_cases hinit : tx.txid = state.binding.initTxid
    · simp only [if_pos hinit,pure_eq_ok,Outcome.ok.injEq,Prod.mk.injEq] at hcall
      obtain ⟨_,rfl⟩ := hcall
      rw [List.mem_singleton.mp hmem]
      exact Or.inl ⟨⟨Or.inr rfl,rfl⟩,by simp [validInitEvent]⟩
    · rw [if_neg hinit] at hcall
      exact Or.inr ⟨earlier,tx,before,txIndex,after,emitted,
        .initialized hstatus hfind hvalid hblock hinit hvisited,hindex,hcall,hmem⟩
  | failed initTx position initIndex reason hstatus hfind hindex hinvalid =>
    rw [List.mem_singleton.mp he]
    exact Or.inl ⟨⟨Or.inl rfl,rfl⟩,by simp [invalidEvent,bareInvalidEvent]⟩
  | idle reason initHeight hstatus => simp at he

theorem applyBlocks_event_called {blocks : List BlockView} {final : ChainState}
    {deltas : List BlockDelta} {delta : BlockDelta} {event : Event}
    (hrun : applyBlocks P (ChainState.new P binding) blocks = some (final,deltas))
    (hdelta : delta ∈ deltas) (hevent : event ∈ delta.events) :
    (event.Inert ∧ event.validityClass ≠ .terminalNoncanonical) ∨
      ∃ block tx before after emitted, Called P binding blocks block tx before after emitted ∧
        event ∈ emitted := by
  obtain ⟨earlierBlocks,block,laterBlocks,state,first,next,rfl,hfirst,happly⟩ :=
    applyBlocks_mem hrun hdelta
  obtain ⟨_,_,reduced,events,hreduce,hseal⟩ := applyBlock_ok happly
  obtain ⟨_,rfl⟩ := Prod.mk.inj hseal
  rcases hreduce.event_handed hevent with hinert | hhanded
  · exact Or.inl hinert
  · obtain ⟨earlier,tx,before,txIndex,after,emitted,hhanded,hindex,hcall,hmem⟩ := hhanded
    exact Or.inr ⟨block,tx,before,after,emitted,
      ⟨earlierBlocks,laterBlocks,state,first,earlier,txIndex,rfl,hfirst,hhanded,hindex,hcall⟩,hmem⟩

end Handed

/-- The points of runs over accepted blocks, with the transactions visited and the events
emitted so far: between two blocks, or between two transactions of the next block. -/
inductive RunPoint (P : Primitives) (binding : Binding) : List Placed → List Event → ChainState → Prop
  | between {blocks : List BlockView} {state : ChainState} {deltas : List BlockDelta}
      (hrun : applyBlocks P (ChainState.new P binding) blocks = some (state,deltas)) :
      RunPoint P binding (placedTransactions blocks) (deltas.flatMap BlockDelta.events) state
  | active {blocks : List BlockView} {state current : ChainState} {deltas : List BlockDelta}
      {block : BlockView} {visited rest : List TxView} {initHeight : UInt64} {hOpen hClose : UInt32}
      {events : List Event}
      (hrun : applyBlocks P (ChainState.new P binding) blocks = some (state,deltas))
      (hstatus : state.protocolStatus = .active initHeight hOpen hClose)
      (hblock : block.transactions = visited ++ rest)
      (hloop : forEachTransaction (fun state tx txIndex => processTransaction P state block tx txIndex)
        state [] 0 visited = ok (current,.ok events)) :
      RunPoint P binding (placedTransactions blocks ++ visited.map fun tx => ⟨block.height,tx⟩)
        (deltas.flatMap BlockDelta.events ++ events) current
  | initialized {blocks : List BlockView} {state current : ChainState} {deltas : List BlockDelta}
      {block : BlockView} {visited rest : List TxView} {initTx : TxView} {position : ℕ}
      {params : InitParams} {events : List Event}
      (hrun : applyBlocks P (ChainState.new P binding) blocks = some (state,deltas))
      (hstatus : state.protocolStatus = .awaitingInit)
      (hfind : findInit state block = some (initTx,position))
      (hvalid : validateConfiguredInit P state.binding block.height initTx = ok params)
      (hblock : block.transactions = visited ++ rest)
      (hloop : forEachTransaction (initBlockStep P block) (activated state block params) [] 0
        visited = ok (current,.ok events)) :
      RunPoint P binding (placedTransactions blocks ++ visited.map fun tx => ⟨block.height,tx⟩)
        (deltas.flatMap BlockDelta.events ++ events) current

theorem RunPoint.reached {binding : Binding} {placed : List Placed} {log : List Event} {state : ChainState}
    (h : RunPoint P binding placed log state) : Reached P binding placed log state := by
  cases h with
  | between hrun => exact run_reached hrun
  | active hrun hstatus hblock hloop =>
    exact Kept.loop (fun h hcall => .processed _ _ _ h hcall) (run_reached hrun) hloop
  | initialized hrun hstatus hfind hvalid hblock hloop =>
    exact Kept.loop Reached.kept.initBlockStep (.decided _ (run_reached hrun) hstatus) hloop

/-- Every call of a run is made at one of its points. -/
theorem Called.point {binding : Binding} {blocks : List BlockView} {block : BlockView} {tx : TxView}
    {before after : ChainState} {emitted : List Event}
    (h : Called P binding blocks block tx before after emitted) :
    ∃ placed more log txIndex, placedTransactions blocks = placed ++ ⟨block.height,tx⟩ :: more ∧
      RunPoint P binding placed log before ∧
      processTransaction P before block tx txIndex = ok (after,emitted) := by
  obtain ⟨earlierBlocks,laterBlocks,state,deltas,earlier,txIndex,rfl,hrun,hhanded,_,hcall⟩ := h
  obtain ⟨later,hblock⟩ := hhanded.split
  have hplaced : placedTransactions (earlierBlocks ++ block :: laterBlocks) =
      (placedTransactions earlierBlocks ++ earlier.map fun tx => ⟨block.height,tx⟩) ++
        ⟨block.height,tx⟩ ::
          (later.map (fun tx => ⟨block.height,tx⟩) ++ placedTransactions laterBlocks) := by
    simp [placedTransactions,placedIn,hblock]
  cases hhanded with
  | active hstatus hsplit hloop =>
    exact ⟨_,_,_,txIndex,hplaced,.active hrun hstatus hsplit hloop,hcall⟩
  | initialized hstatus hfind hvalid hsplit hother hloop =>
    exact ⟨_,_,_,txIndex,hplaced,.initialized hrun hstatus hfind hvalid hsplit hloop,hcall⟩

end TandemVerifier
