import TandemVerifier.Library.Reordering
import TandemVerifier.Reduction.Admission
import TandemVerifier.Reduction.Locality

/-! # The order of the transactions of a block

The reducer visits the transactions of a block in their order. What it computes depends
on that order only where one transaction spends what another makes: two orders that both
put a spend behind the carrier it spends lead to the same objects, the same active
carriers and the same events up to their transaction indices.
-/
namespace TandemVerifier
open Library Library.Outcome Library.Reordering Relation
variable {P : Primitives} {binding : Binding} {placed : List Placed} {log : List Event}
variable {state state' next final : ChainState} {block : BlockView} {a b : TxView} {txs txs' : List TxView}

/-- Within a block the transaction may stand before the other one: it does not spend the
other's carrier output, and the two spend no output twice. -/
structure MayPrecede (tx other : TxView) : Prop where
  carrier : ∀ input ∈ tx.inputs, input.prevout ≠ ⟨other.txid,1⟩
  prevouts : ∀ input ∈ tx.inputs, ∀ spent ∈ other.inputs, input.prevout ≠ spent.prevout

theorem Distinct.subperm {some : List Placed} (h : Distinct P binding placed) (hsub : some.Subperm placed) :
    Distinct P binding some where
  txids := by
    obtain ⟨arranged,hperm,hsublist⟩ := hsub
    exact (hperm.map _).nodup_iff.mp ((hsublist.map _).nodup h.txids)
  keys := fun entry hentry other hother => h.keys entry (hsub.subset hentry) other (hsub.subset hother)

section Independent
variable {update update' : Update}

theorem Update.Within.spends (h : update.Within P state a) (hindexed : Indexed P binding placed state)
    {outpoint : OutPointRef} (houtpoint : outpoint ∈ update.outpoints) :
    outpoint = ⟨a.txid,1⟩ ∨ ∃ input ∈ a.inputs, input.prevout = outpoint := by
  rcases h.outpoints outpoint houtpoint with hnew | ⟨⟨i,object⟩,hspend,rfl⟩
  · exact Or.inl hnew
  · obtain ⟨_,_,_,input,hinput,hprevout⟩ := hindexed.owner hspend
    exact Or.inr ⟨input,List.mem_of_getElem? hinput,hprevout⟩

/-- An active object that the update may write is carried by an outpoint that the
transaction spends. -/
theorem Update.Within.writes (h : update.Within P state a) (hindexed : Indexed P binding placed state)
    (hdistinct : Distinct P binding (placed ++ [⟨block.height,a⟩])) {outpoint : OutPointRef} {key : Hash32}
    (hactive : state.active[outpoint]? = some key) (hkey : key ∈ update.keys) :
    ∃ input ∈ a.inputs, input.prevout = outpoint := by
  rcases h.keys key hkey with hnew | ⟨⟨i,spent⟩,hspend,rfl⟩
  · obtain ⟨object,hobject,_⟩ := (hindexed.index outpoint key).mp hactive
    dsimp only at hobject
    rw [hnew,hindexed.binding_eq,hindexed.key_fresh hdistinct] at hobject
    cases hobject
  · obtain ⟨_,_,hspent,input,hinput,hprevout⟩ := hindexed.owner hspend
    exact ⟨input,List.mem_of_getElem? hinput,hprevout.trans (hindexed.index.location_unique hspent hactive)⟩

/-- The update of one transaction leaves the carriers that an independent one spends. -/
theorem Update.Within.carriers (h : update.Within P state a) (hindexed : Indexed P binding placed state)
    (hdistinct : Distinct P binding (placed ++ [⟨block.height,a⟩])) (hba : MayPrecede b a) :
    carrierSpends (update.apply state) b = carrierSpends state b := by
  unfold carrierSpends
  refine List.filterMap_congr ?_
  rintro ⟨input,i⟩ hmem
  have hinput : input ∈ b.inputs := List.fst_mem_of_mem_zipIdx hmem
  have hactive : (update.apply state).active[input.prevout]? = state.active[input.prevout]? := by
    refine update.active_local.outside state input.prevout fun houtpoint => ?_
    rcases h.spends hindexed houtpoint with hnew | ⟨spent,hspent,hsame⟩
    · exact hba.carrier input hinput hnew
    · exact hba.prevouts input hinput spent hspent hsame.symm
  simp only [hactive]
  cases hkey : state.active[input.prevout]? with
  | none => rfl
  | some key =>
    have hobject : (update.apply state).objects[key]? = state.objects[key]? := by
      refine update.objects_local.outside state key fun hwritten => ?_
      obtain ⟨spent,hspent,hsame⟩ := h.writes hindexed hdistinct hkey hwritten
      exact hba.prevouts input hinput spent hspent hsame.symm
    simp only [Option.bind_some,hobject]

theorem Update.Within.keys_disjoint (h : update.Within P state a) (h' : update'.Within P state b)
    (hindexed : Indexed P binding placed state)
    (hdistinct : Distinct P binding (placed ++ [⟨block.height,a⟩,⟨block.height,b⟩])) (hab : MayPrecede a b) :
    update.keys.Disjoint update'.keys := by
  have hone : Distinct P binding (placed ++ [⟨block.height,a⟩]) :=
    hdistinct.subperm ((List.sublist_append_left [_] [_]).append_left placed).subperm
  have htwo : Distinct P binding (placed ++ [⟨block.height,b⟩]) :=
    hdistinct.subperm ((List.sublist_cons_self _ [_]).append_left placed).subperm
  have hshared : ∀ {outpoint : OutPointRef} {key : Hash32}, state.active[outpoint]? = some key →
      key ∈ update.keys → key ∉ update'.keys := by
    intro outpoint key hactive hkey hkey'
    obtain ⟨input,hinput,hprevout⟩ := h.writes hindexed hone hactive hkey
    obtain ⟨spent,hspent,hprevout'⟩ := h'.writes hindexed htwo hactive hkey'
    exact hab.prevouts input hinput spent hspent (hprevout.trans hprevout'.symm)
  intro key hkey hkey'
  rcases h.keys key hkey with hnew | ⟨⟨i,object⟩,hspend,rfl⟩
  · rcases h'.keys key hkey' with hnew' | ⟨⟨i,object⟩,hspend,rfl⟩
    · have hsame : a.txid = b.txid := by
        refine hdistinct.keys ⟨block.height,a⟩ (by simp) ⟨block.height,b⟩ (by simp) ?_
        rw [← hindexed.binding_eq]
        exact hnew.symm.trans hnew'
      have hnodup := hdistinct.txids
      simp [List.nodup_append,hsame] at hnodup
    · exact hshared (hindexed.owner hspend).2.2.1 hkey hkey'
  · exact hshared (hindexed.owner hspend).2.2.1 hkey hkey'

theorem Update.Within.outpoints_disjoint (h : update.Within P state a) (h' : update'.Within P state b)
    (hindexed : Indexed P binding placed state) (hne : a.txid ≠ b.txid) (hab : MayPrecede a b)
    (hba : MayPrecede b a) : update.outpoints.Disjoint update'.outpoints := by
  intro outpoint houtpoint houtpoint'
  rcases h.spends hindexed houtpoint with hnew | ⟨input,hinput,hprevout⟩
  · rcases h'.spends hindexed houtpoint' with hnew' | ⟨spent,hspent,hprevout'⟩
    · exact hne (congrArg OutPointRef.txid (hnew.symm.trans hnew'))
    · exact hba.carrier spent hspent (hprevout'.trans hnew)
  · rcases h'.spends hindexed houtpoint' with hnew' | ⟨spent,hspent,hprevout'⟩
    · exact hab.carrier input hinput (hprevout.trans hnew')
    · exact hab.prevouts input hinput spent hspent (hprevout.trans hprevout'.symm)

end Independent

/-- A loop body of a block: it keeps to the reached states, and what it makes of a
transaction is determined by the carriers spent. -/
structure LoopBody (P : Primitives) (binding : Binding) (block : BlockView)
    (step : ChainState → TxView → UInt32 → Outcome Infallible (ChainState × List Event)) : Prop where
  reached : ∀ {placed log state tx txIndex next emitted}, Reached P binding placed log state →
    step state tx txIndex = ok (next,emitted) →
    Reached P binding (placed ++ [⟨block.height,tx⟩]) (log ++ emitted) next
  recurs : ∀ {state other tx txIndex next emitted}, other.binding = state.binding →
    other.protocolStatus = state.protocolStatus → carrierSpends other tx = carrierSpends state tx →
    step state tx txIndex = ok (next,emitted) → Recurs P state other tx next emitted (step other tx)

theorem processTransaction_body :
    LoopBody P binding block fun state tx txIndex => processTransaction P state block tx txIndex where
  reached h hcall := .processed block _ _ h hcall
  recurs hbinding hstatus hcarriers hcall := processTransaction_recurs hbinding hstatus hcarriers hcall

theorem initBlockStep_body : LoopBody P binding block (initBlockStep P block) where
  reached h hcall := Reached.kept.initBlockStep h hcall
  recurs {state other tx txIndex next emitted} hbinding hstatus hcarriers hcall := by
    unfold initBlockStep at hcall
    split at hcall
    · next hinit =>
      obtain ⟨rfl,rfl⟩ := Prod.mk.inj (Outcome.ok.inj hcall)
      refine .keep fun index => ?_
      simp only [initBlockStep,hbinding,if_pos hinit,validInitEvent]
      rfl
    · next hother =>
      refine (processTransaction_recurs hbinding hstatus hcarriers hcall).congr fun index => ?_
      simp only [initBlockStep,hbinding,if_neg hother]

section Loops
variable {step : ChainState → TxView → UInt32 → Outcome Infallible (ChainState × List Event)}
variable {acc acc' events : List Event} {position : ℕ} {i j : UInt32} {emitted emitted' : List Event}

theorem Recurs.frame {call : UInt32 → Outcome Infallible (ChainState × List Event)} {other : ChainState}
    (h : Recurs P state other a next emitted call) :
    next.binding = state.binding ∧ next.protocolStatus = state.protocolStatus := by
  obtain ⟨update,rfl,_⟩ := h
  rw [update.apply_frame state]
  exact ⟨rfl,rfl⟩

theorem Update.Within.congr {update : Update} {other : ChainState} (h : update.Within P other a)
    (hbinding : other.binding = state.binding) (hcarriers : carrierSpends other a = carrierSpends state a) :
    update.Within P state a := by
  refine ⟨?_,?_⟩
  · rw [← hbinding,← hcarriers]
    exact h.keys
  · rw [← hcarriers]
    exact h.outpoints

/-- Neighbours that may stand in either order lead to the same state in either order. -/
theorem LoopBody.exchange (hbody : LoopBody P binding block step)
    (hindexed : Indexed P binding placed state)
    (hdistinct : Distinct P binding (placed ++ [⟨block.height,a⟩,⟨block.height,b⟩]))
    (hab : MayPrecede a b) (hba : MayPrecede b a) (hfirst : step state a i = ok (next,emitted))
    (hsecond : step next b j = ok (final,emitted')) :
    ∃ middle, step state b i = ok (middle,emitted'.map (Event.at i)) ∧
      step middle a j = ok (final,emitted.map (Event.at j)) := by
  have hone : Distinct P binding (placed ++ [⟨block.height,a⟩]) :=
    hdistinct.subperm ((List.sublist_append_left [_] [_]).append_left placed).subperm
  have htwo : Distinct P binding (placed ++ [⟨block.height,b⟩]) :=
    hdistinct.subperm ((List.sublist_cons_self _ [_]).append_left placed).subperm
  have hne : a.txid ≠ b.txid := by
    have hnodup := hdistinct.txids
    rw [List.map_append,List.nodup_append] at hnodup
    simpa using hnodup.2.1
  -- the second transaction in the first state
  have hself := hbody.recurs rfl rfl rfl hfirst
  obtain ⟨hbinding,hstatus⟩ := hself.frame
  obtain ⟨made,hmade,hmadeWithin,_⟩ := hself
  have hcarriers : carrierSpends state b = carrierSpends next b := by
    rw [hmade]
    exact (hmadeWithin.carriers hindexed hone hba).symm
  obtain ⟨update',hfinal,hwithin',hcall'⟩ :=
    hbody.recurs hbinding.symm hstatus.symm hcarriers hsecond
  have hwithin : update'.Within P state b := hwithin'.congr hbinding hcarriers.symm
  -- the first transaction in the state that the second one leaves
  obtain ⟨hbinding',hstatus'⟩ : (update'.apply state).binding = state.binding ∧
      (update'.apply state).protocolStatus = state.protocolStatus := by
    rw [update'.apply_frame state]
    exact ⟨rfl,rfl⟩
  obtain ⟨update,hnext,hwithinFirst,hcall⟩ :=
    hbody.recurs hbinding' hstatus' (hwithin.carriers hindexed htwo hab) hfirst
  refine ⟨update'.apply state,hcall' i,?_⟩
  rw [hcall j,hfinal,hnext,update.apply_comm (hwithinFirst.keys_disjoint hwithin hindexed hdistinct hab)
    (hwithinFirst.outpoints_disjoint hwithin hindexed hne hab hba)]

theorem forEachTransaction_cons {tx : TxView} :
    forEachTransaction step state acc position (tx :: txs) = ok (final,.ok events) ↔
      ∃ txIndex next emitted, u32TryFrom position = some txIndex ∧ step state tx txIndex = ok (next,emitted) ∧
        forEachTransaction step next (acc ++ emitted) (position + 1) txs = ok (final,.ok events) := by
  simp only [forEachTransaction]
  cases u32TryFrom position with
  | none => simp
  | some txIndex => simp [bind_eq_ok]

theorem forEachTransaction_append {earlier later : List TxView} :
    forEachTransaction step state acc position (earlier ++ later) = ok (final,.ok events) ↔
      ∃ middle found, forEachTransaction step state acc position earlier = ok (middle,.ok found) ∧
        forEachTransaction step middle found (position + earlier.length) later = ok (final,.ok events) := by
  induction earlier generalizing state acc position with
  | nil => simp [forEachTransaction]
  | cons tx earlier ih =>
    have hlength : position + (tx :: earlier).length = position + 1 + earlier.length := by
      simp only [List.length_cons]
      omega
    simp only [List.cons_append,forEachTransaction_cons,ih,hlength]
    constructor
    · rintro ⟨txIndex,next,emitted,hindex,hcall,middle,found,hearlier,hlater⟩
      exact ⟨middle,found,⟨txIndex,next,emitted,hindex,hcall,hearlier⟩,hlater⟩
    · rintro ⟨middle,found,⟨txIndex,next,emitted,hindex,hcall,hearlier⟩,hlater⟩
      exact ⟨txIndex,next,emitted,hindex,hcall,middle,found,hearlier,hlater⟩

/-- What a loop adds to the events does not depend on those it starts with. -/
theorem forEachTransaction_acc (h : forEachTransaction step state acc position txs = ok (final,.ok events)) :
    ∃ added, events = acc ++ added ∧ ∀ acc',
      forEachTransaction step state acc' position txs = ok (final,.ok (acc' ++ added)) := by
  induction txs generalizing state acc position with
  | nil =>
    simp only [forEachTransaction,pure_eq_ok,Outcome.ok.injEq,Prod.mk.injEq,Except.ok.injEq] at h
    obtain ⟨rfl,rfl⟩ := h
    exact ⟨[],by simp,fun acc' => by simp [forEachTransaction]⟩
  | cons tx txs ih =>
    obtain ⟨txIndex,middle,emitted,hindex,hcall,hrest⟩ := forEachTransaction_cons.mp h
    obtain ⟨added,rfl,hadded⟩ := ih hrest
    refine ⟨emitted ++ added,List.append_assoc acc emitted added,fun acc' => ?_⟩
    rw [← List.append_assoc]
    exact forEachTransaction_cons.mpr ⟨txIndex,middle,emitted,hindex,hcall,hadded (acc' ++ emitted)⟩

/-- The events are the same up to their order and their transaction indices. -/
def SameEvents (events events' : List Event) : Prop :=
  (events.map (Event.at 0)).Perm (events'.map (Event.at 0))

theorem map_at (events : List Event) (index : UInt32) :
    (events.map (Event.at index)).map (Event.at 0) = events.map (Event.at 0) := by
  rw [List.map_map]
  rfl

theorem LoopBody.exchanged (hbody : LoopBody P binding block step)
    (hreached : Reached P binding placed log state)
    (hdistinct : Distinct P binding (placed ++ txs.map fun tx => ⟨block.height,tx⟩))
    (hexchange : Exchange MayPrecede txs txs')
    (hloop : forEachTransaction step state [] 0 txs = ok (final,.ok events)) :
    ∃ events', forEachTransaction step state [] 0 txs' = ok (final,.ok events') ∧
      SameEvents events' events := by
  obtain ⟨earlier,later,a,b,hab,hba⟩ := hexchange
  obtain ⟨middle,found,hearlier,hrest⟩ := forEachTransaction_append.mp hloop
  have hindexed : Indexed P binding (placed ++ earlier.map fun tx => ⟨block.height,tx⟩) middle := by
    refine (Kept.loop hbody.reached hreached hearlier).indexed (hdistinct.subperm ?_)
    rw [List.map_append,← List.append_assoc]
    exact (List.sublist_append_left _ _).subperm
  have hpair : Distinct P binding ((placed ++ earlier.map fun tx => ⟨block.height,tx⟩) ++
      [⟨block.height,a⟩,⟨block.height,b⟩]) := by
    refine hdistinct.subperm ?_
    rw [List.map_append,← List.append_assoc,List.map_cons,List.map_cons]
    exact ((List.sublist_append_left [_,_] _).append_left _).subperm
  obtain ⟨i,next,emitted,hfirstIndex,hfirst,hrest⟩ := forEachTransaction_cons.mp hrest
  obtain ⟨j,after,emitted',hsecondIndex,hsecond,hlater⟩ := forEachTransaction_cons.mp hrest
  obtain ⟨other,hfirst',hsecond'⟩ := hbody.exchange hindexed hpair hab hba hfirst hsecond
  obtain ⟨added,rfl,hadded⟩ := forEachTransaction_acc hlater
  refine ⟨found ++ emitted'.map (Event.at i) ++ emitted.map (Event.at j) ++ added,?_,?_⟩
  · refine forEachTransaction_append.mpr ⟨middle,found,hearlier,?_⟩
    refine forEachTransaction_cons.mpr ⟨i,other,_,hfirstIndex,hfirst',?_⟩
    exact forEachTransaction_cons.mpr ⟨j,after,_,hsecondIndex,hsecond',hadded _⟩
  · simp only [SameEvents,List.map_append,map_at]
    refine List.Perm.append_right _ ?_
    rw [List.append_assoc,List.append_assoc]
    exact List.perm_append_comm.append_left _

/-- Two admissible orders of the transactions lead to the same state. -/
theorem LoopBody.reordered (hbody : LoopBody P binding block step)
    (hreached : Reached P binding placed log state)
    (hdistinct : Distinct P binding (placed ++ txs.map fun tx => ⟨block.height,tx⟩))
    (hperm : txs.Perm txs') (hvalid : txs.Pairwise MayPrecede) (hvalid' : txs'.Pairwise MayPrecede)
    (hloop : forEachTransaction step state [] 0 txs = ok (final,.ok events)) :
    ∃ events', forEachTransaction step state [] 0 txs' = ok (final,.ok events') ∧
      SameEvents events' events := by
  have hexchanges := exchanges_of_perm hperm hvalid hvalid'
  clear hperm hvalid hvalid'
  suffices h : txs.Perm txs' ∧ ∃ events', forEachTransaction step state [] 0 txs' =
      ok (final,.ok events') ∧ SameEvents events' events from h.2
  induction hexchanges with
  | refl => exact ⟨.refl txs,events,hloop,.refl _⟩
  | tail _ hexchange ih =>
    obtain ⟨hperm,events',hloop',hsame⟩ := ih
    have hdistinct' := hdistinct.subperm ((hperm.symm.map _).append_left placed).subperm
    obtain ⟨events'',hloop'',hsame'⟩ := hbody.exchanged hreached hdistinct' hexchange hloop'
    exact ⟨hperm.trans hexchange.perm,events'',hloop'',hsame'.trans hsame⟩

end Loops

section Blocks
variable {reduced : ChainState} {events : List Event} {tx : TxView} {txIndex : UInt32}

theorem terminateEach_reordered {eventIndex : UInt32} {reason : Reason} {ns : Hash32} {sub : ℕ}
    {carriers : List (ℕ × ObjectState)} :
    terminateEach { block with transactions := txs } tx txIndex eventIndex reason ns state sub carriers =
      terminateEach block tx txIndex eventIndex reason ns state sub carriers := by
  induction carriers generalizing state sub with
  | nil => rfl
  | cons spend carriers ih =>
    simp only [terminateEach,ih]
    rfl

/-- Of its block a transaction reads the hash and the height. -/
theorem processTransaction_reordered :
    processTransaction P state { block with transactions := txs } tx txIndex =
      processTransaction P state block tx txIndex := by
  simp only [processTransaction,processMarkerless,processMarked,terminateCarriers,terminateEach_reordered]
  rfl

theorem initBlockStep_reordered :
    initBlockStep P { block with transactions := txs } = initBlockStep P block := by
  funext state tx txIndex
  simp only [initBlockStep,processTransaction_reordered]
  rfl

theorem findInit_reordered {initTx : TxView} {position : ℕ} (hperm : block.transactions.Perm txs)
    (hnodup : (block.transactions.map TxView.txid).Nodup)
    (h : findInit state block = some (initTx,position)) :
    ∃ position', findInit state { block with transactions := txs } = some (initTx,position') := by
  have hfound : ∀ {transactions : List TxView} {entry : TxView × ℕ},
      transactions.zipIdx.find? (fun entry => entry.1.txid == state.binding.initTxid) = some entry →
      entry.1 ∈ transactions ∧ entry.1.txid = state.binding.initTxid := by
    intro transactions entry hfind
    exact ⟨List.fst_mem_of_mem_zipIdx (List.mem_of_find?_eq_some hfind),by simpa using List.find?_some hfind⟩
  obtain ⟨hmem,htxid⟩ := hfound h
  obtain ⟨i,hi⟩ := List.mem_iff_getElem?.mp (hperm.subset hmem)
  have hsome : ((txs.zipIdx).find? fun entry => entry.1.txid == state.binding.initTxid).isSome := by
    rw [List.find?_isSome]
    exact ⟨(initTx,i),List.mem_zipIdx_iff_getElem?.mpr hi,by simpa using htxid⟩
  obtain ⟨⟨other,position'⟩,hother⟩ := Option.isSome_iff_exists.mp hsome
  obtain ⟨hmem',htxid'⟩ := hfound hother
  have hsame : other = initTx :=
    List.inj_on_of_nodup_map hnodup (hperm.symm.subset hmem') hmem (htxid'.trans htxid.symm)
  exact ⟨position',hsame ▸ hother⟩

theorem Reduction.computes (hlength : block.transactions.length ≤ 2 ^ 32 - 1)
    (h : Reduction P state block reduced events) :
    reduceTransactions P state block = ok (reduced,.ok events) := by
  cases h with
  | active initHeight hOpen hClose hstatus hloop => simp only [reduceTransactions,hstatus,hloop]
  | initialized initTx position params hstatus hfind hvalid hloop =>
    have hposition := (List.mem_zipIdx (List.mem_of_find?_eq_some hfind)).2.1
    obtain ⟨index,hindex⟩ := u32TryFrom_isSome (n := position) (by omega)
    simp only [reduceTransactions,hstatus]
    rw [show block.transactions.zipIdx.find? _ = _ from hfind]
    simp only [hindex,hvalid]
    exact hloop
  | failed initTx position initIndex reason hstatus hfind hindex hinvalid =>
    simp only [reduceTransactions,hstatus]
    rw [show block.transactions.zipIdx.find? _ = _ from hfind]
    simp only [hindex,hinvalid]
    rfl
  | idle reason initHeight hstatus =>
    simp only [reduceTransactions,hstatus]
    rfl

theorem Reduction.reordered (hreached : Reached P binding placed log state)
    (hdistinct : Distinct P binding (placed ++ placedIn block)) (hperm : block.transactions.Perm txs)
    (hvalid : block.transactions.Pairwise MayPrecede) (hvalid' : txs.Pairwise MayPrecede)
    (hlength : block.transactions.length ≤ 2 ^ 32 - 1) (h : Reduction P state block reduced events) :
    ∃ events', Reduction P state { block with transactions := txs } reduced events' ∧
      SameEvents events' events := by
  have hnodup : (block.transactions.map TxView.txid).Nodup := by
    have htxids := hdistinct.txids
    rw [List.map_append,List.nodup_append,placedIn,List.map_map] at htxids
    exact htxids.2.1
  cases h with
  | active initHeight hOpen hClose hstatus hloop =>
    obtain ⟨events',hloop',hsame⟩ :=
      processTransaction_body.reordered hreached hdistinct hperm hvalid hvalid' hloop
    refine ⟨events',.active initHeight hOpen hClose hstatus ?_,hsame⟩
    simp only [processTransaction_reordered]
    exact hloop'
  | initialized initTx position params hstatus hfind hinit hloop =>
    obtain ⟨position',hfind'⟩ := findInit_reordered hperm hnodup hfind
    obtain ⟨events',hloop',hsame⟩ :=
      initBlockStep_body.reordered (.decided _ hreached hstatus) hdistinct hperm hvalid hvalid' hloop
    refine ⟨events',.initialized initTx position' params hstatus hfind' hinit ?_,hsame⟩
    rw [initBlockStep_reordered]
    exact hloop'
  | failed initTx position initIndex reason hstatus hfind hindex hinvalid =>
    obtain ⟨position',hfind'⟩ := findInit_reordered hperm hnodup hfind
    have hposition := (List.mem_zipIdx (List.mem_of_find?_eq_some hfind')).2.1
    dsimp only at hposition
    rw [← hperm.length_eq] at hposition
    obtain ⟨index,hindex'⟩ := u32TryFrom_isSome (n := position') (by omega)
    exact ⟨_,.failed initTx position' index reason hstatus hfind' hindex' hinvalid,.refl _⟩
  | idle reason initHeight hstatus => exact ⟨[],.idle reason initHeight hstatus,.refl _⟩

/-- A block whose transactions stand in another admissible order is applied as well. The state
it leaves differs in the chained root alone, its object root and its counters are the same,
and its events are the same up to their order and their transaction indices. -/
theorem block_order_immaterial {blocks : List BlockView} {deltas : List BlockDelta} {delta : BlockDelta}
    (hdistinct : Distinct P binding (placedTransactions (blocks ++ [block])))
    (hrun : applyBlocks P (ChainState.new P binding) blocks = some (state,deltas))
    (happly : applyBlock P state block = ok (next,.ok delta)) (hperm : block.transactions.Perm txs)
    (hvalid : block.transactions.Pairwise MayPrecede) (hvalid' : txs.Pairwise MayPrecede) :
    ∃ next' delta', applyBlock P state { block with transactions := txs } = ok (next',.ok delta') ∧
      next' = { next with chainedRoot := next'.chainedRoot } ∧
      delta'.roots.objectStateRoot = delta.roots.objectStateRoot ∧
      delta'.roots.counters = delta.roots.counters ∧ SameEvents delta'.events delta.events := by
  obtain ⟨hlink,hlength,reduced,events,hreduce,hseal⟩ := applyBlock_ok happly
  rw [placedTransactions,List.flatMap_append,List.flatMap_singleton] at hdistinct
  obtain ⟨events',hreduce',hsame⟩ :=
    hreduce.reordered (run_reached hrun) hdistinct hperm hvalid hvalid' hlength
  have hlength' : txs.length ≤ 2 ^ 32 - 1 := hperm.length_eq ▸ hlength
  obtain ⟨rfl,rfl⟩ := Prod.mk.inj hseal
  have hlink' : validateLinkage state { block with transactions := txs } = .ok () := hlink
  refine ⟨(sealBlock P state reduced { block with transactions := txs } events').1,
    (sealBlock P state reduced { block with transactions := txs } events').2,?_,rfl,rfl,rfl,hsame⟩
  rw [applyBlock,hlink']
  dsimp only
  rw [if_neg (by omega),hreduce'.computes hlength']
  rfl

end Blocks

section Sample

set_option maxRecDepth 10000 in
theorem neighbour_distinct : Distinct bitcoinPrimitives sampleBinding [⟨100,sampleInit⟩,
    ⟨1108,sampleCreate⟩,⟨1108,sampleRotate⟩,⟨1108,neighbourCreate⟩] :=
  .of_nodup (by decide +kernel) (by decide +kernel)

theorem neighbour_placed : placedTransactions (([initBlock] ++ emptyBlocks sampleHash 101 1007) ++
    [sampleBlock 1108 [sampleCreate,sampleRotate,neighbourCreate]]) = [⟨100,sampleInit⟩,
      ⟨1108,sampleCreate⟩,⟨1108,sampleRotate⟩,⟨1108,neighbourCreate⟩] := opening_placed _ _

instance (tx other : TxView) : Decidable (MayPrecede tx other) :=
  decidable_of_iff ((∀ input ∈ tx.inputs, input.prevout ≠ ⟨other.txid,1⟩) ∧
    ∀ input ∈ tx.inputs, ∀ spent ∈ other.inputs, input.prevout ≠ spent.prevout)
    ⟨fun h => ⟨h.1,h.2⟩,fun h => ⟨h.carrier,h.prevouts⟩⟩

/-- The second CREATE may stand behind the first object's ROTATE or in front of its CREATE. -/
theorem sample_block_order : ∃ state deltas next delta next' delta',
    applyBlocks bitcoinPrimitives sampleNew ([initBlock] ++ emptyBlocks sampleHash 101 1007) =
      some (state,deltas) ∧
    applyBlock bitcoinPrimitives state (sampleBlock 1108 [sampleCreate,sampleRotate,neighbourCreate]) =
      ok (next,.ok delta) ∧
    applyBlock bitcoinPrimitives state (sampleBlock 1108 [neighbourCreate,sampleCreate,sampleRotate]) =
      ok (next',.ok delta') ∧
    next' = { next with chainedRoot := next'.chainedRoot } ∧ SameEvents delta'.events delta.events := by
  obtain ⟨final,all,hrun,_⟩ := sampleBlocks_run
  obtain ⟨state,deltas,_,hopened,hcreated,_⟩ := applyBlocks_append.mp hrun
  obtain ⟨_,_,_,hcreate,_⟩ := applyBlocks_cons.mp hcreated
  have hnumbered := (run_reached hopened).numbered
  obtain ⟨hlink,_,hinit⟩ := (applyBlock_admits hnumbered (by decide)).mp ⟨_,_,hcreate⟩
  obtain ⟨next,delta,happly⟩ : ∃ next delta, applyBlock bitcoinPrimitives state
      (sampleBlock 1108 [sampleCreate,sampleRotate,neighbourCreate]) = ok (next,.ok delta) := by
    refine (applyBlock_admits hnumbered (by decide)).mpr ⟨hlink,by decide,fun hawaiting => ?_⟩
    obtain ⟨tx,hmem,htxid⟩ := hinit hawaiting
    exact ⟨tx,List.mem_cons.mpr (Or.inl (List.mem_singleton.mp hmem)),htxid⟩
  have hperm : [sampleCreate,sampleRotate,neighbourCreate].Perm [neighbourCreate,sampleCreate,sampleRotate] :=
    (List.perm_append_singleton neighbourCreate [sampleCreate,sampleRotate])
  obtain ⟨next',delta',happly',hnext,_,_,hsame⟩ := block_order_immaterial
    (neighbour_placed ▸ neighbour_distinct) hopened happly hperm (by decide) (by decide)
  exact ⟨state,deltas,next,delta,next',delta',hopened,happly,happly',hnext,hsame⟩

end Sample
end TandemVerifier
