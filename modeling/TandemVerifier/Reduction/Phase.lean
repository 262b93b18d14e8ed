import TandemVerifier.Reduction.Deployment

/-! # Phases of a deployment

The first accepted block decides the protocol status for good. A valid INIT fixes the
window in which founding objects are created; its heights come from the payload and are
compared with the block height through checked conversions. CREATE tests the opening
height in the validator and the closing height where the object is built, both against
the status that was set before the first transaction of the INIT block.
-/
namespace TandemVerifier
open Library Library.Outcome
variable {P : Primitives} {binding : Binding} {state state' : ChainState} {block : BlockView}
variable {initHeight height : UInt64} {hOpen hClose : UInt32}

/-- The heights of a valid INIT, over the natural numbers. -/
structure InitWindow (initHeight : UInt64) (hOpen hClose : UInt32) : Prop where
  closing : hClose.toNat = hOpen.toNat + 4320
  bounded : hClose.toNat ≤ 2 ^ 32 - 1
  lead : initHeight.toNat + 1008 ≤ hOpen.toNat

/-- An object created in the open phase and not above the given height. -/
structure CreatedIn (hOpen hClose : UInt32) (height : UInt64) (object : ObjectState) : Prop where
  opened : hOpen.toNat ≤ object.createHeight.toNat
  reached : object.createHeight.toNat ≤ height.toNat
  founding : object.founding = true ↔ object.createHeight.toNat < hClose.toNat

theorem validateConfiguredInit_window {tx : TxView} {params : InitParams}
    (h : validateConfiguredInit P binding height tx = ok params) :
    InitWindow height params.hOpen params.hClose := by
  simp only [validateConfiguredInit,bind_eq_ok,failIf_eq_ok,okOr_eq_ok,exists_const,pure_eq_ok,
    Outcome.ok.injEq,checkedAdd32_eq_some,u32TryFrom_eq_some,Bool.or_eq_false_iff,
    bne_eq_false_iff_eq,decide_eq_false_iff_not,UInt32.not_lt,UInt32.le_iff_toNat_le] at h
  obtain ⟨_,candidate,_,marker,_,_,_,hOpen,_,hClose,_,value,_,_,delay,_,_,spec,_,_,_,_,input,_,_,_,_,_,
    key,_,_,output0,_,output1,_,_,fee,_,_,expectedClose,hexpected,height32,hheight,earliest,hearliest,
    ⟨rfl,hlead⟩,rfl⟩ := h
  have hwindow : foundingWindow.toNat = 4320 := rfl
  have hlead32 : initLead.toNat = 1008 := rfl
  have hlt := expectedClose.toNat_lt
  constructor <;> simp only <;> omega

theorem CreatedIn.raise {object : ObjectState} {higher : UInt64} (h : CreatedIn hOpen hClose height object)
    (hle : height.toNat ≤ higher.toNat) : CreatedIn hOpen hClose higher object :=
  ⟨h.opened,Nat.le_trans h.reached hle,h.founding⟩

/-- Every object of the state was created in the open phase. -/
def Opened (hOpen hClose : UInt32) (height : UInt64) (state : ChainState) : Prop :=
  ∀ (key : Hash32) (object : ObjectState), state.objects[key]? = some object →
    CreatedIn hOpen hClose height object

theorem Opened.effect {tx : TxView} {txIndex : UInt32} {events : List Event}
    (h : Opened hOpen hClose block.height state)
    (hstatus : state.protocolStatus = .active initHeight hOpen hClose)
    (heffect : TxEffect P state block tx txIndex state' events) :
    Opened hOpen hClose block.height state' := by
  intro key object hobject
  have hspend : ∀ i spent, (i,spent) ∈ carrierSpends state tx →
      CreatedIn hOpen hClose block.height spent := by
    intro i spent hmem
    obtain ⟨_,found,_,_,hfound⟩ := mem_carrierSpends.mp hmem
    exact h found spent hfound
  cases heffect.objectStep hobject with
  | kept hkept => exact h key object hkept
  | created marker keys initHeight' hOpen' hClose' hstatus' haccepted =>
    rw [hstatus] at hstatus'
    simp only [ProtocolStatus.active.injEq] at hstatus'
    obtain ⟨rfl,rfl,rfl⟩ := hstatus'
    obtain ⟨_,_,_,_,_,_,haccept⟩ := haccepted
    obtain ⟨_,_,_,hphase,hopen⟩ := haccept.phase
    rw [hstatus] at hphase
    simp only [ProtocolStatus.active.injEq] at hphase
    obtain ⟨rfl,rfl,rfl⟩ := hphase
    have hle : hOpen.toNat ≤ block.height.toNat := by
      simpa [UInt64.le_iff_toNat_le] using hopen
    refine ⟨hle,Nat.le_refl _,?_⟩
    simp [createdObject,hopen,UInt64.lt_iff_toNat_lt]
  | marked marker owner sequence commitment chapterCount hcarriers _ _ =>
    obtain ⟨hopened,hreached,hfounding⟩ := hspend 0 owner (by simp [hcarriers])
    exact ⟨hopened,hreached,hfounding⟩
  | rotated marker owner sequence keys hcarriers _ =>
    obtain ⟨hopened,hreached,hfounding⟩ := hspend 0 owner (by simp [hcarriers])
    exact ⟨hopened,hreached,hfounding⟩
  | ended stored status sequence hstored _ _ =>
    obtain ⟨hopened,hreached,hfounding⟩ := h key stored hstored
    exact ⟨hopened,hreached,hfounding⟩

/-- The state between two transactions of a block: the status is fixed and every object was
created in the open phase, at most at the height of the block. -/
def OpenedAt (block : BlockView) (initHeight : UInt64) (hOpen hClose : UInt32) (state : ChainState) :
    Prop :=
  state.protocolStatus = .active initHeight hOpen hClose ∧ Opened hOpen hClose block.height state

theorem processTransaction_opened {tx : TxView} {txIndex : UInt32} {emitted : List Event}
    (h : OpenedAt block initHeight hOpen hClose state)
    (hcall : processTransaction P state block tx txIndex = ok (state',emitted)) :
    OpenedAt block initHeight hOpen hClose state' := by
  obtain ⟨hstatus,hopened⟩ := h
  refine ⟨?_,hopened.effect hstatus (processTransaction_effect hcall)⟩
  rw [processTransaction_frame hcall]
  exact hstatus

theorem initBlockStep_opened {tx : TxView} {txIndex : UInt32} {emitted : List Event}
    (h : OpenedAt block initHeight hOpen hClose state)
    (hcall : initBlockStep P block state tx txIndex = ok (state',emitted)) :
    OpenedAt block initHeight hOpen hClose state' := by
  unfold initBlockStep at hcall
  split at hcall
  · simp only [pure_eq_ok,Outcome.ok.injEq,Prod.mk.injEq] at hcall
    exact hcall.1 ▸ h
  · exact processTransaction_opened h hcall

theorem loop_opened {step : ChainState → TxView → UInt32 → Outcome Infallible (ChainState × List Event)}
    {txs : List TxView} {start final : ChainState} {events : List Event}
    (hstep : ∀ {before tx txIndex after emitted}, OpenedAt block initHeight hOpen hClose before →
      step before tx txIndex = ok (after,emitted) → OpenedAt block initHeight hOpen hClose after)
    (hstart : OpenedAt block initHeight hOpen hClose start)
    (hloop : forEachTransaction step start [] 0 txs = ok (final,.ok events)) :
    OpenedAt block initHeight hOpen hClose final :=
  forEachTransaction_rule (motive := fun _ state _ => OpenedAt block initHeight hOpen hClose state)
    (fun _ _ _ _ _ _ _ hbefore _ hcall => hstep hbefore hcall) hstart hloop

/-- What the status of a state between two blocks says about its objects. -/
structure PhaseState (state : ChainState) : Prop where
  window : ∀ initHeight hOpen hClose, state.protocolStatus = .active initHeight hOpen hClose →
    InitWindow initHeight hOpen hClose
  opened : ∀ initHeight hOpen hClose, state.protocolStatus = .active initHeight hOpen hClose →
    ∃ tip, state.tipHeight = some tip ∧ Opened hOpen hClose tip state
  idle : (∀ initHeight hOpen hClose, state.protocolStatus ≠ .active initHeight hOpen hClose) →
    state.objects = ∅ ∧ state.active = ∅

theorem PhaseState.new : PhaseState (ChainState.new P binding) where
  window := by simp [ChainState.new]
  opened := by simp [ChainState.new]
  idle := by simp [ChainState.new]

theorem PhaseState.of_openedAt (hwindow : InitWindow initHeight hOpen hClose)
    (h : OpenedAt block initHeight hOpen hClose state) (hash root : Hash32) :
    PhaseState { state with tipHeight := some block.height, tipHash := some hash, chainedRoot := root } := by
  obtain ⟨hstatus,hopened⟩ := h
  constructor
  · intro initHeight' hOpen' hClose' hactive
    simp only [hstatus,ProtocolStatus.active.injEq] at hactive
    obtain ⟨rfl,rfl,rfl⟩ := hactive
    exact hwindow
  · intro initHeight' hOpen' hClose' hactive
    simp only [hstatus,ProtocolStatus.active.injEq] at hactive
    obtain ⟨rfl,rfl,rfl⟩ := hactive
    exact ⟨block.height,rfl,hopened⟩
  · intro hidle
    exact absurd hstatus (hidle initHeight hOpen hClose)

theorem PhaseState.applyBlock {delta : BlockDelta} (h : PhaseState state)
    (happly : applyBlock P state block = ok (state',.ok delta)) : PhaseState state' := by
  obtain ⟨hlink,_,reduced,events,hreduce,hseal⟩ := applyBlock_ok happly
  obtain ⟨rfl,_⟩ := Prod.mk.inj hseal
  cases hreduce with
  | active initHeight hOpen hClose hstatus hloop =>
    obtain ⟨tip,htip,hopened⟩ := h.opened initHeight hOpen hClose hstatus
    have hnext := (validateLinkage_ok hlink htip).1
    have hstart : OpenedAt block initHeight hOpen hClose state :=
      ⟨hstatus,fun key object hobject => (hopened key object hobject).raise (by omega)⟩
    exact .of_openedAt (h.window initHeight hOpen hClose hstatus)
      (loop_opened processTransaction_opened hstart hloop) _ _
  | initialized initTx position params hstatus hfind hvalid hloop =>
    have hempty := (h.idle (by simp [hstatus])).1
    have hstart : OpenedAt block block.height params.hOpen params.hClose
        (activated state block params) := ⟨rfl,by simp [Opened,activated,hempty]⟩
    exact .of_openedAt (validateConfiguredInit_window hvalid)
      (loop_opened initBlockStep_opened hstart hloop) _ _
  | failed initTx position initIndex reason hstatus hfind hindex hinvalid =>
    have hempty := h.idle (by simp [hstatus])
    exact ⟨by simp,by simp,fun _ => hempty⟩
  | idle reason initHeight hstatus =>
    have hempty := h.idle (by simp [hstatus])
    exact ⟨by simp [hstatus],by simp [hstatus],fun _ => hempty⟩

theorem PhaseState.applyBlocks {blocks : List BlockView} {deltas : List BlockDelta} (h : PhaseState state)
    (hrun : applyBlocks P state blocks = some (state',deltas)) : PhaseState state' := by
  induction blocks generalizing state deltas with
  | nil =>
    simp only [TandemVerifier.applyBlocks,Option.some.injEq,Prod.mk.injEq] at hrun
    exact hrun.1 ▸ h
  | cons block rest ih =>
    obtain ⟨next,delta,tail,happly,hrest,_⟩ := applyBlocks_cons.mp hrun
    exact ih (h.applyBlock happly) hrest

/-- A decided status survives every run. -/
theorem applyBlocks_status {blocks : List BlockView} {deltas : List BlockDelta}
    (hdecided : state.protocolStatus ≠ .awaitingInit)
    (hrun : applyBlocks P state blocks = some (state',deltas)) :
    state'.protocolStatus = state.protocolStatus := by
  induction blocks generalizing state deltas with
  | nil =>
    simp only [applyBlocks,Option.some.injEq,Prod.mk.injEq] at hrun
    rw [hrun.1]
  | cons block rest ih =>
    obtain ⟨next,delta,tail,happly,hrest,_⟩ := applyBlocks_cons.mp hrun
    obtain ⟨hnext,hkept⟩ := applyBlock_status happly
    rw [ih hnext hrest,hkept.resolve_left hdecided]

theorem applyBlock_failed_events {delta : BlockDelta} {reason : Reason}
    (hstatus : state.protocolStatus = .failedInit reason initHeight)
    (happly : applyBlock P state block = ok (state',.ok delta)) : delta.events = [] := by
  obtain ⟨_,_,reduced,events,hreduce,hseal⟩ := applyBlock_ok happly
  obtain ⟨_,rfl⟩ := Prod.mk.inj hseal
  cases hreduce with
  | active _ _ _ hactive _ => simp [hstatus] at hactive
  | initialized _ _ _ hawaiting _ _ _ => simp [hstatus] at hawaiting
  | failed _ _ _ _ hawaiting _ _ _ => simp [hstatus] at hawaiting
  | idle _ _ _ => rfl

/-- The phases of the state reached by a list of accepted blocks. -/
structure Phased (P : Primitives) (binding : Binding) (blocks : List BlockView) (state : ChainState) :
    Prop where
  decided : state.protocolStatus = .awaitingInit ↔ blocks = []
  settled : ∀ earlier later middle deltas, blocks = earlier ++ later → earlier ≠ [] →
    applyBlocks P (ChainState.new P binding) earlier = some (middle,deltas) →
    middle.protocolStatus = state.protocolStatus
  window : ∀ initHeight hOpen hClose, state.protocolStatus = .active initHeight hOpen hClose →
    InitWindow initHeight hOpen hClose
  opened : ∀ initHeight hOpen hClose, state.protocolStatus = .active initHeight hOpen hClose →
    ∃ tip, state.tipHeight = some tip ∧
      ∀ (key : Hash32) (object : ObjectState), state.objects[key]? = some object →
        CreatedIn hOpen hClose tip object ∧ initHeight.toNat + 1008 ≤ object.createHeight.toNat
  failed : ∀ reason initHeight, state.protocolStatus = .failedInit reason initHeight →
    state.objects = ∅ ∧ state.active = ∅ ∧ ∀ later final deltas,
      applyBlocks P state later = some (final,deltas) → ∀ delta ∈ deltas, delta.events = []

/-- Every state reached by accepted blocks is in one of the phases. -/
theorem applyBlocks_phased {blocks : List BlockView} {deltas : List BlockDelta}
    (hrun : applyBlocks P (ChainState.new P binding) blocks = some (state,deltas)) :
    Phased P binding blocks state := by
  have hphase : PhaseState state := PhaseState.new.applyBlocks hrun
  refine ⟨?_,?_,hphase.window,?_,?_⟩
  · constructor
    · intro hawaiting
      cases blocks with
      | nil => rfl
      | cons block rest =>
        obtain ⟨next,delta,tail,happly,hrest,_⟩ := applyBlocks_cons.mp hrun
        have hnext := (applyBlock_status happly).1
        exact absurd ((applyBlocks_status hnext hrest).symm.trans hawaiting) hnext
    · rintro rfl
      simp only [applyBlocks,Option.some.injEq,Prod.mk.injEq] at hrun
      rw [← hrun.1]
      rfl
  · rintro earlier later middle first rfl hearlier hfirst
    obtain ⟨found,_,_,hfound,hlater,_⟩ := applyBlocks_append.mp hrun
    obtain ⟨rfl,_⟩ := Prod.mk.inj (Option.some.inj (hfound.symm.trans hfirst))
    cases earlier with
    | nil => exact absurd rfl hearlier
    | cons block rest =>
      obtain ⟨next,delta,tail,happly,hrest,_⟩ := applyBlocks_cons.mp hfirst
      have hnext := (applyBlock_status happly).1
      have hmiddle := applyBlocks_status hnext hrest
      exact (applyBlocks_status (hmiddle ▸ hnext) hlater).symm
  · intro initHeight hOpen hClose hactive
    obtain ⟨tip,htip,hopened⟩ := hphase.opened initHeight hOpen hClose hactive
    refine ⟨tip,htip,?_⟩
    intro key object hobject
    have hcreated := hopened key object hobject
    exact ⟨hcreated,Nat.le_trans (hphase.window initHeight hOpen hClose hactive).lead hcreated.opened⟩
  · intro reason initHeight hfailed
    obtain ⟨hobjects,hactive⟩ := hphase.idle (by simp [hfailed])
    refine ⟨hobjects,hactive,?_⟩
    intro later final more hlater delta hdelta
    obtain ⟨earlier,block,_,middle,_,next,_,hearlier,happly⟩ := applyBlocks_mem hlater hdelta
    have hmiddle := applyBlocks_status (by simp [hfailed]) hearlier
    exact applyBlock_failed_events (hmiddle.trans hfailed) happly

theorem sample_phased : ∃ final deltas, applyBlocks bitcoinPrimitives
    (ChainState.new bitcoinPrimitives sampleBinding) sampleBlocks = some (final,deltas) ∧
      final.protocolStatus = .active 100 1108 5428 ∧
      Phased bitcoinPrimitives sampleBinding sampleBlocks final := by
  obtain ⟨final,deltas,hrun,hstatus,_⟩ := sampleBlocks_run
  exact ⟨final,deltas,hrun,hstatus,applyBlocks_phased hrun⟩

end TandemVerifier
