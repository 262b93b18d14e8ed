import TandemVerifier.Reduction.Deployment

/-! # Applying and disconnecting blocks is independent of the history

Blocks are applied and the tip is disconnected in any order, with failing attempts
in between. The state is always the one reached by the blocks that are still
applied. An error leaves the state as it was: the status of an INIT block is set
before a loop that can still report an index overflow, but the length check before
it makes that exit unreachable. The delta of the tip is always accepted, and
disconnecting it leads back to the state below the tip.
-/
namespace TandemVerifier
open Library Library.Outcome
variable {P : Primitives} {binding : Binding} {state state' : ChainState} {block : BlockView}

section Errors

theorem forEachTransaction_error
    {step : ChainState → TxView → UInt32 → Outcome Infallible (ChainState × List Event)}
    {txs : List TxView} {position : ℕ} {acc : List Event} {e : ReducerError}
    (h : forEachTransaction step state acc position txs = ok (state',.error e)) :
    2 ^ 32 < position + txs.length := by
  induction txs generalizing state acc position with
  | nil => simp [forEachTransaction] at h
  | cons tx rest ih =>
    unfold forEachTransaction at h
    rw [List.length_cons]
    cases hi : u32TryFrom position with
    | none =>
      by_cases hlt : position < 2 ^ 32
      · obtain ⟨index,hindex⟩ := u32TryFrom_isSome hlt
        simp [hi] at hindex
      · omega
    | some index =>
      simp only [hi,bind_eq_ok,Prod.exists] at h
      obtain ⟨next,emitted,_,hrest⟩ := h
      have hh := ih hrest
      omega

theorem reduceTransactions_error {e : ReducerError}
    (hlength : block.transactions.length ≤ 2 ^ 32 - 1)
    (h : reduceTransactions P state block = ok (state',.error e)) : state' = state := by
  have hloop : ∀ {step start final} {e : ReducerError},
      forEachTransaction step start [] 0 block.transactions ≠ ok (final,.error e) := by
    intro step start final e hfail
    have hlong := forEachTransaction_error hfail
    omega
  unfold reduceTransactions at h
  split at h
  · split at h
    · simp only [pure_eq_ok,Outcome.ok.injEq,Prod.mk.injEq] at h
      exact h.1.symm
    · split at h
      · simp only [pure_eq_ok,Outcome.ok.injEq,Prod.mk.injEq] at h
        exact h.1.symm
      · split at h
        · simp at h
        · exact absurd h hloop
        · simp at h
  · exact absurd h hloop
  · simp at h

/-- A rejected block leaves the whole state as it was. -/
theorem applyBlock_error {e : ReducerError}
    (h : applyBlock P state block = ok (state',.error e)) : state' = state := by
  unfold applyBlock at h
  cases hlink : validateLinkage state block with
  | error failure =>
    simp only [hlink,pure_eq_ok,Outcome.ok.injEq,Prod.mk.injEq] at h
    exact h.1.symm
  | ok u =>
    simp only [hlink] at h
    by_cases hlong : 2 ^ 32 - 1 < block.transactions.length
    · rw [if_pos hlong] at h
      simp only [pure_eq_ok,Outcome.ok.injEq,Prod.mk.injEq] at h
      exact h.1.symm
    · rw [if_neg hlong] at h
      simp only [bind_eq_ok,Prod.exists] at h
      obtain ⟨reduced,result,hreduce,h⟩ := h
      cases result with
      | ok events => simp at h
      | error failure =>
        simp only [pure_eq_ok,Outcome.ok.injEq,Prod.mk.injEq] at h
        obtain ⟨rfl,_⟩ := h
        exact reduceTransactions_error (by omega) hreduce

theorem disconnectBlock_error {delta : BlockDelta} {e : ReducerError}
    (h : disconnectBlock state delta = (state',.error e)) : state' = state := by
  unfold disconnectBlock at h
  split at h
  · exact (Prod.mk.inj h).1.symm
  · simp at h

theorem disconnectBlock_ok {delta : BlockDelta}
    (h : disconnectBlock state delta = (state',.ok ())) : state' = delta.before := by
  unfold disconnectBlock at h
  split at h
  · simp at h
  · exact (Prod.mk.inj h).1.symm

/-- A delta is accepted exactly when it names the tip. -/
theorem disconnectBlock_accepts {delta : BlockDelta} :
    (disconnectBlock state delta).2 = .ok () ↔
      state.tipHash = some delta.blockHash ∧ state.tipHeight = some delta.height := by
  unfold disconnectBlock
  split
  · next hmismatch =>
    rw [← not_and_or] at hmismatch
    exact iff_of_false (by simp) hmismatch
  · next hmatch =>
    rw [← not_and_or,not_not] at hmatch
    exact iff_of_true rfl hmatch

end Errors

/-- The states reached by applying and disconnecting blocks in any order, with the blocks
that are applied and not since disconnected and their deltas, oldest first. -/
inductive History (P : Primitives) (binding : Binding) :
    List (BlockView × BlockDelta) → ChainState → Prop
  | new : History P binding [] (ChainState.new P binding)
  | applied {stack : List (BlockView × BlockDelta)} {state state' : ChainState} {block : BlockView}
      {delta : BlockDelta} (h : History P binding stack state)
      (happly : applyBlock P state block = ok (state',.ok delta)) :
      History P binding (stack ++ [(block,delta)]) state'
  | rejected {stack : List (BlockView × BlockDelta)} {state state' : ChainState} {block : BlockView}
      {e : ReducerError} (h : History P binding stack state)
      (happly : applyBlock P state block = ok (state',.error e)) :
      History P binding stack state'
  | disconnected {stack : List (BlockView × BlockDelta)} {state state' : ChainState}
      {block : BlockView} {delta : BlockDelta} (h : History P binding (stack ++ [(block,delta)]) state)
      (hdisconnect : disconnectBlock state delta = (state',.ok ())) :
      History P binding stack state'
  | kept {stack : List (BlockView × BlockDelta)} {state state' : ChainState} {delta : BlockDelta}
      {e : ReducerError} (h : History P binding stack state)
      (hdisconnect : disconnectBlock state delta = (state',.error e)) :
      History P binding stack state'

theorem History.applyBlocks_eq {stack : List (BlockView × BlockDelta)}
    (h : History P binding stack state) :
    applyBlocks P (ChainState.new P binding) (stack.map Prod.fst) =
      some (state,stack.map Prod.snd) := by
  induction h with
  | new => rfl
  | applied _ happly ih =>
    rw [List.map_append,List.map_append]
    exact applyBlocks_concat.mpr ⟨_,_,_,ih,happly,rfl⟩
  | rejected _ happly ih => rw [applyBlock_error happly,ih]
  | disconnected _ hdisconnect ih =>
    rw [List.map_append,List.map_append] at ih
    obtain ⟨middle,first,delta,hfirst,happly,hdeltas⟩ := applyBlocks_concat.mp ih
    obtain ⟨rfl,hdelta⟩ := List.append_inj' hdeltas rfl
    obtain rfl := List.singleton_inj.mp hdelta
    rw [disconnectBlock_ok hdisconnect,(applyBlock_delta happly).1,hfirst]
  | kept _ hdisconnect ih => rw [disconnectBlock_error hdisconnect,ih]

/-- The tip of the state is the tip of the stack. -/
theorem History.tip {stack : List (BlockView × BlockDelta)} (h : History P binding stack state) :
    state.tipHash = stack.getLast?.map (fun top => top.2.blockHash) ∧
      state.tipHeight = stack.getLast?.map (fun top => top.2.height) := by
  have hrun := h.applyBlocks_eq
  rcases List.eq_nil_or_concat stack with rfl | ⟨earlier,⟨block,delta⟩,rfl⟩
  · obtain ⟨rfl,_⟩ := Prod.mk.inj (Option.some.inj hrun)
    exact ⟨rfl,rfl⟩
  · rw [List.concat_eq_append,List.map_append,List.map_append] at hrun
    obtain ⟨middle,first,last,_,happly,hdeltas⟩ := applyBlocks_concat.mp hrun
    obtain ⟨_,hlast⟩ := List.append_inj' hdeltas rfl
    obtain rfl : delta = last := List.singleton_inj.mp hlast
    obtain ⟨_,hhash,_,hheight,_,htipHeight,htipHash⟩ := applyBlock_delta happly
    simp [htipHeight,htipHash,hhash,hheight]

/-- The delta of the tip is accepted, and leads back to the blocks below the tip. -/
theorem History.undone {earlier : List (BlockView × BlockDelta)} {delta : BlockDelta}
    (h : History P binding (earlier ++ [(block,delta)]) state) :
    ∃ below, disconnectBlock state delta = (below,.ok ()) ∧ History P binding earlier below := by
  obtain ⟨hhash,hheight⟩ := h.tip
  rw [List.getLast?_concat] at hhash hheight
  have haccepted := disconnectBlock_accepts.mpr ⟨hhash,hheight⟩
  have hdisconnect : disconnectBlock state delta = ((disconnectBlock state delta).1,.ok ()) :=
    Prod.ext rfl haccepted
  exact ⟨_,hdisconnect,.disconnected h hdisconnect⟩

/-- The state depends only on the blocks still applied. The delta of the tip is accepted and
undone, a delta that does not name the tip is refused, and no error changes the state. -/
theorem History.independent {stack : List (BlockView × BlockDelta)}
    (h : History P binding stack state) :
    applyBlocks P (ChainState.new P binding) (stack.map Prod.fst) =
      some (state,stack.map Prod.snd) ∧
    (∀ earlier block delta, stack = earlier ++ [(block,delta)] →
      ∃ below, disconnectBlock state delta = (below,.ok ()) ∧ History P binding earlier below ∧
        applyBlocks P (ChainState.new P binding) (earlier.map Prod.fst) =
          some (below,earlier.map Prod.snd)) ∧
    (∀ delta, (disconnectBlock state delta).2 = .ok () ↔
      ∃ top ∈ stack.getLast?, delta.blockHash = top.2.blockHash ∧ delta.height = top.2.height) ∧
    (∀ block state' e, applyBlock P state block = ok (state',.error e) → state' = state) ∧
    ∀ delta state' e, disconnectBlock state delta = (state',.error e) → state' = state := by
  refine ⟨h.applyBlocks_eq,?_,?_,fun _ _ _ => applyBlock_error,fun _ _ _ => disconnectBlock_error⟩
  · rintro earlier block delta rfl
    obtain ⟨below,hdisconnect,hbelow⟩ := h.undone
    exact ⟨below,hdisconnect,hbelow,hbelow.applyBlocks_eq⟩
  · intro delta
    rw [disconnectBlock_accepts,h.tip.1,h.tip.2]
    cases htop : stack.getLast? with
    | none => simp
    | some top => simp [eq_comm]

set_option maxRecDepth 10000 in
/-- Before INIT the configured block must carry it, after it the next block must follow it. -/
theorem sample_rejected {delta : BlockDelta}
    (happly : applyBlock bitcoinPrimitives sampleNew initBlock = ok (state,.ok delta)) :
    applyBlock bitcoinPrimitives sampleNew createBlock = ok (sampleNew,.error .configuredInitAbsent) ∧
      applyBlock bitcoinPrimitives state createBlock =
        ok (state,.error (.nonconsecutiveHeight 101 1108)) := by
  obtain ⟨_,_,_,_,_,hheight,_⟩ := applyBlock_delta happly
  refine ⟨rfl,?_⟩
  unfold applyBlock validateLinkage
  rw [hheight]
  rfl

/-- A block without INIT is rejected, INIT is applied, a block that skips heights and a delta
of another height are rejected, and the delta of INIT is accepted. -/
theorem sample_history : ∃ state delta,
    applyBlock bitcoinPrimitives sampleNew createBlock = ok (sampleNew,.error .configuredInitAbsent) ∧
    applyBlock bitcoinPrimitives sampleNew initBlock = ok (state,.ok delta) ∧
    applyBlock bitcoinPrimitives state createBlock =
      ok (state,.error (.nonconsecutiveHeight 101 1108)) ∧
    disconnectBlock state { delta with height := 101 } = (state,.error .disconnectMismatch) ∧
    disconnectBlock state delta = (sampleNew,.ok ()) ∧
    History bitcoinPrimitives sampleBinding [(initBlock,delta)] state ∧
    History bitcoinPrimitives sampleBinding [] sampleNew := by
  obtain ⟨state,delta,happly⟩ := sampleInit_run
  obtain ⟨hearly,hskipped⟩ := sample_rejected happly
  obtain ⟨_,_,_,hdelta,_⟩ := applyBlock_delta happly
  have happlied : History bitcoinPrimitives sampleBinding [(initBlock,delta)] state :=
    .rejected (.applied (.rejected .new hearly) happly) hskipped
  have hrefused : (disconnectBlock state { delta with height := 101 }).2 ≠ .ok () := by
    intro haccepted
    obtain ⟨top,htop,_,hheight⟩ := (happlied.independent.2.2.1 _).mp haccepted
    obtain rfl : (initBlock,delta) = top := by simpa using htop
    have hdecided : (101 : UInt64) = initBlock.height := hheight.trans hdelta
    exact absurd hdecided (by decide)
  have hmismatch : disconnectBlock state { delta with height := 101 } =
      (state,.error .disconnectMismatch) := by
    unfold disconnectBlock at hrefused ⊢
    split
    · rfl
    · next hmatch => rw [if_neg hmatch] at hrefused; exact absurd rfl hrefused
  have hkept : History bitcoinPrimitives sampleBinding [(initBlock,delta)] state :=
    .kept happlied hmismatch
  obtain ⟨below,hdisconnect,hbelow,hrun⟩ := hkept.independent.2.1 [] initBlock delta rfl
  obtain ⟨rfl,_⟩ := Prod.mk.inj (Option.some.inj hrun)
  exact ⟨state,delta,hearly,happly,hskipped,hmismatch,hdisconnect,hkept,hbelow⟩

end TandemVerifier
