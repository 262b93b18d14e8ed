import TandemVerifier.Reduction.ChainedRoot
import TandemVerifier.Service.Convergence
import TandemVerifier.Service.Queries

/-! # Indexers that meet at a block agree below it

Two services of the same deployment, each with its own database, its own node and its own
history of reorganizations. They exchange signed heights; what makes a comparison
meaningful is that a block hash fixes everything below it. Where both have stored a block
of the same hash, they have stored the same run up to it, and every answer about a height
at or below it is the same.
-/
namespace TandemVerifier
open Library Library.Outcome Library.LinkedChain
variable {P : Primitives} {binding : Binding} {views : Hash32 → BlockView} {db db' : Database}
variable {state state' : ChainState} {blocks blocks' : List BlockView} {deltas deltas' : List BlockDelta}

/-- A block that is the one its hash names. -/
def NamedBy (views : Hash32 → BlockView) (block : BlockView) : Prop := views block.hash = block

/-- No hash-linked chain contains the configured INIT twice. -/
def InitOnce (views : Hash32 → BlockView) (initTxid : Hash32) : Prop :=
  ∀ chain : List BlockView, chain.IsChain blockLinks.Follows → (∀ block ∈ chain, NamedBy views block) →
    ∀ a ∈ chain, ∀ b ∈ chain, a.hasTransaction initTxid = true → b.hasTransaction initTxid = true → a = b

section Runs

/-- Runs whose last blocks have the same hash are the same. -/
theorem runs_meet {earlier earlier' : List BlockView} {block block' : BlockView}
    (hinit : InitOnce views binding.initTxid)
    (hrun : applyBlocks P (ChainState.new P binding) (earlier ++ [block]) = some (state,deltas))
    (hrun' : applyBlocks P (ChainState.new P binding) (earlier' ++ [block']) = some (state',deltas'))
    (hviews : ∀ b ∈ earlier ++ [block], NamedBy views b)
    (hviews' : ∀ b ∈ earlier' ++ [block'], NamedBy views b) (hhash : block.hash = block'.hash) :
    earlier = earlier' ∧ block = block' := by
  obtain rfl : block = block' := by
    rw [← hviews block (by simp),← hviews' block' (by simp),hhash]
  have hlinked := applyBlocks_blockLinks hrun
  have hlinked' := applyBlocks_blockLinks hrun'
  have hstart : ∀ {chain : List BlockView} {final : ChainState} {journal : List BlockDelta},
      applyBlocks P (ChainState.new P binding) chain = some (final,journal) →
        ∀ x ∈ chain.head?, x.hasTransaction binding.initTxid = true := by
    intro chain final journal hchain x hx
    cases chain with
    | nil => simp at hx
    | cons first rest =>
      obtain rfl : first = x := by simpa using hx
      exact applyBlocks_first hchain
  refine ⟨eq_of_marked_starts hlinked hlinked' ?_ (hstart hrun) (hstart hrun')
    (hinit _ hlinked hviews) (hinit _ hlinked' hviews'),rfl⟩
  intro x hx y hy hname
  rw [← hviews x (by simp [hx]),← hviews' y (by simp [hy])]
  exact congrArg views hname

/-- A run up to the block of one of its deltas. -/
theorem applyBlocks_upto {delta : BlockDelta}
    (h : applyBlocks P (ChainState.new P binding) blocks = some (state,deltas)) (hdelta : delta ∈ deltas) :
    ∃ earlier block later first rest middle, blocks = earlier ++ block :: later ∧
      deltas = first ++ delta :: rest ∧ block.hash = delta.blockHash ∧
      applyBlocks P (ChainState.new P binding) (earlier ++ [block]) = some (middle,first ++ [delta]) := by
  obtain ⟨first,rest,rfl⟩ := List.append_of_mem hdelta
  rw [List.append_cons] at h
  obtain ⟨applied,later,middle,rfl,hfirst,_⟩ := applyBlocks_split h
  cases applied using List.reverseRecOn with
  | nil => simp [applyBlocks] at hfirst
  | append_singleton earlier block =>
    obtain ⟨_,_,last,_,happly,hsplit⟩ := applyBlocks_concat.mp hfirst
    obtain rfl : delta = last := by simpa using (List.append_inj' hsplit rfl).2
    exact ⟨earlier,block,later,first,rest,middle,by simp,rfl,(applyBlock_delta happly).2.1.symm,hfirst⟩

end Runs

section Prefixes

/-- What the endpoints show of a block. -/
def BlockDelta.shown (delta : BlockDelta) : HeightRoots × List Event := (delta.roots,delta.events)

def deltasAt (height : UInt64) (deltas : List BlockDelta) : List BlockDelta :=
  deltas.filter fun delta => delta.height = height

/-- Two runs show the same at every height up to the given one. -/
def SameBelow (height : UInt64) (deltas deltas' : List BlockDelta) : Prop :=
  ∀ lower ≤ height, (deltasAt lower deltas).map BlockDelta.shown =
    (deltasAt lower deltas').map BlockDelta.shown

/-- Above one of its deltas a run only has higher ones. -/
theorem deltasAt_upto {first rest : List BlockDelta} {delta : BlockDelta}
    (h : applyBlocks P (ChainState.new P binding) blocks = some (state,first ++ delta :: rest))
    {lower : UInt64} (hle : lower ≤ delta.height) :
    deltasAt lower (first ++ delta :: rest) = deltasAt lower (first ++ [delta]) := by
  have habove : deltasAt lower rest = [] := by
    apply List.filter_eq_nil_iff.mpr
    intro other hother hsame
    have hheights := (List.pairwise_append.mp (applyBlocks_heights h)).2.1
    have hlt := (List.pairwise_cons.mp hheights).1 other hother
    rw [of_decide_eq_true hsame] at hlt
    exact absurd hlt (UInt64.not_lt.mpr hle)
  rw [deltasAt] at habove
  rw [deltasAt,deltasAt,List.append_cons,List.filter_append,habove,List.append_nil]

/-- Runs that both contain a block of one hash have the same deltas up to it. -/
theorem runs_sameBelow {delta delta' : BlockDelta} (hinit : InitOnce views binding.initTxid)
    (hrun : applyBlocks P (ChainState.new P binding) blocks = some (state,deltas))
    (hrun' : applyBlocks P (ChainState.new P binding) blocks' = some (state',deltas'))
    (hviews : ∀ b ∈ blocks, NamedBy views b) (hviews' : ∀ b ∈ blocks', NamedBy views b)
    (hdelta : delta ∈ deltas) (hdelta' : delta' ∈ deltas') (hhash : delta.blockHash = delta'.blockHash) :
    delta = delta' ∧ SameBelow delta.height deltas deltas' := by
  obtain ⟨earlier,block,later,first,rest,middle,rfl,rfl,hblock,hupto⟩ := applyBlocks_upto hrun hdelta
  obtain ⟨earlier',block',later',first',rest',middle',rfl,rfl,hblock',hupto'⟩ := applyBlocks_upto hrun' hdelta'
  obtain ⟨rfl,rfl⟩ := runs_meet hinit hupto hupto'
    (fun b hb => hviews b (by simp at hb ⊢; tauto)) (fun b hb => hviews' b (by simp at hb ⊢; tauto))
    (by rw [hblock,hblock',hhash])
  obtain ⟨rfl,hsame⟩ := Prod.mk.inj (Option.some.inj (hupto.symm.trans hupto'))
  obtain ⟨rfl,hlast⟩ := List.append_inj' hsame rfl
  obtain rfl : delta = delta' := by simpa using hlast
  refine ⟨rfl,?_⟩
  intro lower hle
  rw [deltasAt_upto hrun hle,deltasAt_upto hrun' hle]

/-- Runs with the same tip reach the same state. -/
theorem states_meet (hinit : InitOnce views binding.initTxid)
    (hrun : applyBlocks P (ChainState.new P binding) blocks = some (state,deltas))
    (hrun' : applyBlocks P (ChainState.new P binding) blocks' = some (state',deltas'))
    (hviews : ∀ b ∈ blocks, NamedBy views b) (hviews' : ∀ b ∈ blocks', NamedBy views b)
    (htip : state.tipHash = state'.tipHash) : state = state' := by
  rw [(applyBlocks_tip hrun).2,(applyBlocks_tip hrun').2] at htip
  cases blocks using List.reverseRecOn with
  | nil =>
    have hnone : blocks' = [] := by simpa using htip.symm
    subst hnone
    exact (Prod.mk.inj (Option.some.inj (hrun.symm.trans hrun'))).1
  | append_singleton earlier block =>
    cases blocks' using List.reverseRecOn with
    | nil => simp at htip
    | append_singleton earlier' block' =>
      have hhash : block.hash = block'.hash := by simpa using htip
      obtain ⟨rfl,rfl⟩ := runs_meet hinit hrun hrun' hviews hviews' hhash
      exact (Prod.mk.inj (Option.some.inj (hrun.symm.trans hrun'))).1

end Prefixes

section Answers

theorem applyBlocks_roots {delta : BlockDelta}
    (h : applyBlocks P state blocks = some (state',deltas)) (hdelta : delta ∈ deltas) :
    delta.roots.height = delta.height ∧ delta.roots.blockHash = delta.blockHash := by
  obtain ⟨_,block,_,_,_,_,_,_,happly⟩ := applyBlocks_mem h hdelta
  obtain ⟨_,hhash,_,hheight,_⟩ := applyBlock_delta happly
  obtain ⟨_,_,_,hrootHeight,hrootHash,_⟩ := applyBlock_roots happly
  exact ⟨hrootHeight.trans hheight.symm,hrootHash.trans hhash.symm⟩

/-- The roots of a height are those of the delta recorded there. -/
theorem Records.rootsAt_eq (h : Records P db binding state blocks deltas) {height : UInt64}
    (hbound : height.toNat < 2 ^ 63) : ∃ found, Store.rootsAt db height = ok found ∧
      found.map PersistedHeight.roots =
        (deltasAt height deltas).head?.map BlockDelta.roots := by
  have hrow : ∀ row ∈ db.canonicalBlocks,
      decide (row.height = height.toInt64) = decide (row.inverseDelta.height = height) := by
    intro row hmem
    rw [h.rows row hmem,decide_eq_decide]
    exact ⟨Store.toInt64_injective,fun heq => congrArg UInt64.toInt64 heq⟩
  refine ⟨_,by rw [Store.rootsAt,Store.toI64_eq_ok.mpr ⟨hbound,rfl⟩]; rfl,?_⟩
  rw [← h.journal,deltasAt,List.filter_map,List.head?_map,← List.head?_filter,List.filter_congr hrow,
    Option.map_map,Option.map_map]
  have hmem : ∀ row ∈ (db.canonicalBlocks.filter fun row => row.inverseDelta.height = height).head?,
      (Store.rootsFromRow height row).roots = row.inverseDelta.roots := by
    intro row hhead
    have hfiltered := List.mem_of_head? hhead
    obtain ⟨hin,hheight⟩ := List.mem_filter.mp hfiltered
    have hdelta : row.inverseDelta ∈ deltas := h.journal ▸ List.mem_map_of_mem hin
    obtain ⟨hrootHeight,hrootHash⟩ := applyBlocks_roots h.run hdelta
    have hsame : row.inverseDelta.height = height := of_decide_eq_true hheight
    have hroots : (Store.rootsFromRow height (storedBlock row.inverseDelta row.release)).roots =
        ⟨height,row.inverseDelta.blockHash,row.inverseDelta.roots.eventRoot,
          row.inverseDelta.roots.objectStateRoot,row.inverseDelta.roots.chainedRoot,
          row.inverseDelta.roots.counters⟩ := rfl
    rw [← h.rows row hin,← hsame,← hrootHeight,← hrootHash] at hroots
    rw [← hsame,← hrootHeight]
    exact hroots
  exact Option.map_congr hmem

theorem Records.read_delta (h : Records P db binding state blocks deltas) {height : UInt64}
    {persisted : PersistedHeight} (hread : Store.rootsAt db height = ok (some persisted)) :
    ∃ delta ∈ deltas, delta.height = height ∧ persisted.roots = delta.roots ∧ height.toNat < 2 ^ 63 := by
  have hbound : height.toNat < 2 ^ 63 := by
    obtain ⟨_,hkey,_⟩ := bind_eq_ok.mp hread
    exact (Store.toI64_eq_ok.mp hkey).1
  obtain ⟨found,hfound,hroots⟩ := h.rootsAt_eq hbound
  obtain rfl : found = some persisted := Outcome.ok.inj (hfound.symm.trans hread)
  obtain ⟨delta,hhead,heq⟩ := Option.map_eq_some_iff.mp hroots.symm
  obtain ⟨hdelta,hheight⟩ := List.mem_filter.mp (List.mem_of_head? hhead)
  exact ⟨delta,hdelta,of_decide_eq_true hheight,heq.symm,hbound⟩

/-- Every recorded block can be read at its height. -/
theorem Records.read_block (h : Records P db binding state blocks deltas) {block : BlockView}
    (hblock : block ∈ blocks) : ∃ persisted, Store.rootsAt db block.height = ok (some persisted) ∧
      persisted.roots.blockHash = block.hash := by
  have hheader : block.header ∈ deltas.map BlockDelta.header :=
    applyBlocks_headers h.run ▸ List.mem_map_of_mem hblock
  obtain ⟨delta,hdelta,heq⟩ := List.mem_map.mp hheader
  have hheight : delta.height = block.height := congrArg Header.height heq
  have hhash : delta.blockHash = block.hash := congrArg Header.hash heq
  obtain ⟨found,hfound,hroots⟩ := h.rootsAt_eq (hheight ▸ h.bounded delta hdelta)
  have hmem : delta ∈ deltasAt block.height deltas :=
    List.mem_filter.mpr ⟨hdelta,by simpa using hheight⟩
  cases hfilter : deltasAt block.height deltas with
  | nil => simp [hfilter] at hmem
  | cons first rest =>
    have hhead : first ∈ deltasAt block.height deltas := by
      rw [hfilter]
      exact List.mem_cons_self
    obtain ⟨hfirst,hlevel⟩ := List.mem_filter.mp hhead
    -- the heights of a run are distinct
    have hsame : first = delta := by
      have hnodup : (deltas.map BlockDelta.height).Nodup := by
        rw [List.Nodup,List.pairwise_map]
        exact (applyBlocks_heights h.run).imp fun hlt => UInt64.ne_of_lt hlt
      exact List.inj_on_of_nodup_map hnodup hfirst hdelta ((of_decide_eq_true hlevel).trans hheight.symm)
    rw [hfilter,List.head?_cons,Option.map_some,Option.map_eq_some_iff] at hroots
    obtain ⟨persisted,rfl,hpersisted⟩ := hroots
    refine ⟨persisted,hfound,?_⟩
    rw [hpersisted,hsame,(applyBlocks_roots h.run hdelta).2,hhash]

theorem listed_at {journal : List BlockDelta} {height : UInt64} (key : Option Hash32)
    (hheights : ∀ delta ∈ journal, ∀ event ∈ delta.events, event.height = delta.height) :
    (listed journal).filter (Event.matches (some height) key) =
      (listed (deltasAt height journal)).filter (Event.matches none key) := by
  have hflat : ∀ run : List BlockDelta, (∀ delta ∈ run, delta ∈ journal) →
      (run.flatMap BlockDelta.events).filter (Event.matches (some height) key) =
        ((run.filter fun delta => delta.height = height).flatMap BlockDelta.events).filter
          (Event.matches none key) := by
    intro run hrun
    induction run with
    | nil => rfl
    | cons delta rest ih =>
      have hrest := ih fun other hother => hrun other (List.mem_cons_of_mem _ hother)
      have hevents := hheights delta (hrun delta List.mem_cons_self)
      rw [List.flatMap_cons,List.filter_append,hrest,List.filter_cons]
      by_cases hheight : delta.height = height
      · rw [if_pos (by simpa using hheight),List.flatMap_cons,List.filter_append]
        congr 1
        apply List.filter_congr
        intro event hevent
        simp [Event.matches,hevents event hevent,hheight]
      · rw [if_neg (by simpa using hheight)]
        have hnone : delta.events.filter (Event.matches (some height) key) = [] := by
          apply List.filter_eq_nil_iff.mpr
          intro event hevent
          simp [Event.matches,hevents event hevent,hheight]
        rw [hnone,List.nil_append]
  rw [listed,listed,hflat _ fun delta hdelta => List.mem_reverse.mp hdelta,List.filter_reverse,deltasAt]

theorem Records.events_at (h : Records P db binding state blocks deltas) {height : UInt64}
    (hbound : height.toNat < 2 ^ 63) (key : Option Hash32) :
    Store.events db (some height) key =
      ok (((listed (deltasAt height deltas)).filter (Event.matches none key)).take 500) := by
  rw [h.events_eq (by rintro _ ⟨rfl⟩; exact hbound),listed_at]
  exact fun delta hdelta => applyBlocks_event_height h.run hdelta

/-- What two databases answer about one height. -/
structure SameAnswers (db db' : Database) (height : UInt64) : Prop where
  roots : ∃ found found', Store.rootsAt db height = ok found ∧ Store.rootsAt db' height = ok found' ∧
    found.map PersistedHeight.roots = found'.map PersistedHeight.roots
  events : ∀ key, Api.events db (some height) key = Api.events db' (some height) key

theorem SameBelow.answers {height lower : UInt64} {binding' : Binding}
    (hsame : SameBelow height deltas deltas') (h : Records P db binding state blocks deltas)
    (h' : Records P db' binding' state' blocks' deltas') (hbound : height.toNat < 2 ^ 63)
    (hle : lower ≤ height) : SameAnswers db db' lower := by
  have hlower : lower.toNat < 2 ^ 63 := Nat.lt_of_le_of_lt (UInt64.le_iff_toNat_le.mp hle) hbound
  have hshown := hsame lower hle
  constructor
  · obtain ⟨found,hfound,heq⟩ := h.rootsAt_eq hlower
    obtain ⟨found',hfound',heq'⟩ := h'.rootsAt_eq hlower
    refine ⟨found,found',hfound,hfound',?_⟩
    have hroots := congrArg (fun shown => (shown.head?.map Prod.fst : Option HeightRoots)) hshown
    simp only [List.head?_map,Option.map_map] at hroots
    rw [heq,heq']
    exact hroots
  · intro key
    have hlisted : listed (deltasAt lower deltas) = listed (deltasAt lower deltas') := by
      have hflat := congrArg (fun shown => (shown.reverse.flatMap Prod.snd : List Event)) hshown
      simp only [← List.map_reverse,List.flatMap_map] at hflat
      exact hflat
    have hevents : ∀ filter, Store.events db (some lower) filter = Store.events db' (some lower) filter := by
      intro filter
      rw [h.events_at hlower,h'.events_at hlower,hlisted]
    simp only [Api.events,hevents]

end Answers

/-- Services of one deployment that have stored a block of the same hash give the same roots
and the same events for every height up to it, whatever their histories were; services with
the same tip have the same state. -/
theorem indexers_agree {row row' : ProtocolRow} (hinit : InitOnce views row.binding.initTxid)
    (h : Committed P (NamedBy views) db) (h' : Committed P (NamedBy views) db')
    (hrow : db.protocolState = some row) (hrow' : db'.protocolState = some row')
    (hbinding : row.binding = row'.binding) :
    (∀ height persisted height' persisted', Store.rootsAt db height = ok (some persisted) →
      Store.rootsAt db' height' = ok (some persisted') →
      persisted.roots.blockHash = persisted'.roots.blockHash →
      (∀ release, AgreementTuple.fromRoots row.binding.protocolId persisted.roots release =
        AgreementTuple.fromRoots row'.binding.protocolId persisted'.roots release) ∧
      ∀ lower ≤ height, SameAnswers db db' lower) ∧
    (row.state.tipHash = row'.state.tipHash → row.state = row'.state) := by
  obtain ⟨blocks,deltas,hrecords,hgood⟩ := h.sound.records hrow
  obtain ⟨blocks',deltas',hrecords',hgood'⟩ := h'.sound.records hrow'
  rw [← hbinding] at hrecords'
  constructor
  · intro height persisted height' persisted' hread hread' hhash
    obtain ⟨delta,hdelta,rfl,hroots,hbound⟩ := hrecords.read_delta hread
    obtain ⟨delta',hdelta',_,hroots',_⟩ := hrecords'.read_delta hread'
    rw [hroots,hroots',(applyBlocks_roots hrecords.run hdelta).2,
      (applyBlocks_roots hrecords'.run hdelta').2] at hhash
    obtain ⟨rfl,hsame⟩ := runs_sameBelow hinit hrecords.run hrecords'.run hgood hgood' hdelta hdelta' hhash
    refine ⟨fun release => by rw [hroots,hroots',hbinding],?_⟩
    exact fun lower hle => hsame.answers hrecords hrecords' hbound hle
  · intro htip
    exact states_meet hinit hrecords.run hrecords'.run hgood hgood' htip

section Sample

def namedSample (hash : Hash32) : BlockView :=
  (sampleBlocks.find? fun block => block.hash = hash).getD initBlock

theorem namedSample_mem (hash : Hash32) : namedSample hash ∈ sampleBlocks := by
  unfold namedSample
  cases hfind : sampleBlocks.find? fun block => block.hash = hash with
  | none => simp [sampleBlocks]
  | some block => exact List.mem_of_find?_eq_some hfind

theorem sampleBlocks_named {block : BlockView} (h : block ∈ sampleBlocks) : NamedBy namedSample block := by
  unfold NamedBy namedSample
  cases hfind : sampleBlocks.find? fun other => other.hash = block.hash with
  | none => simpa using List.find?_eq_none.mp hfind block h
  | some found =>
    have hhash : found.hash = block.hash := by simpa using List.find?_some hfind
    exact List.inj_on_of_nodup_map sampleBlocks_hashes (List.mem_of_find?_eq_some hfind) h hhash

theorem sampleBlocks_init {block : BlockView} (h : block ∈ sampleBlocks)
    (hinit : block.hasTransaction sampleBinding.initTxid = true) : block = initBlock := by
  have hcreate : createBlock.hasTransaction sampleBinding.initTxid = false := by decide +kernel
  have hrotate : rotateBlock.hasTransaction sampleBinding.initTxid = false := by decide +kernel
  simp only [sampleBlocks,List.mem_append,List.mem_cons,List.not_mem_nil,or_false] at h
  rcases h with (rfl | hempty) | rfl | rfl
  · rfl
  · obtain ⟨n,_,rfl⟩ := List.mem_map.mp hempty
    simp [BlockView.hasTransaction,emptyBlock] at hinit
  · rw [hcreate] at hinit
    cases hinit
  · rw [hrotate] at hinit
    cases hinit

theorem sample_initOnce : InitOnce namedSample sampleBinding.initTxid := by
  intro chain _ hnamed a ha b hb hinita hinitb
  have hmem : ∀ block ∈ chain, block ∈ sampleBlocks := by
    intro block hblock
    rw [← hnamed block hblock]
    exact namedSample_mem _
  rw [sampleBlocks_init (hmem a ha) hinita,sampleBlocks_init (hmem b hb) hinitb]

theorem createdBlocks_sub {block : BlockView} (h : block ∈ createdBlocks) : block ∈ sampleBlocks := by
  rw [sampleBlocks_created]
  exact List.mem_append_left _ h

theorem createdBlocks_hashes : (createdBlocks.map BlockView.hash).Nodup := by
  have hhashes := sampleBlocks_hashes
  rw [sampleBlocks_created,List.map_append] at hhashes
  exact hhashes.of_append_left

theorem createdBlocks_bound : ∀ block ∈ createdBlocks, block.height.toNat < 2 ^ 63 := fun _ hblock =>
  (sampleBlocks_bounded (createdBlocks_sub hblock)).trans (by decide)

theorem createdBlocks_run : ∃ created deltas,
    applyBlocks bitcoinPrimitives sampleNew createdBlocks = some (created,deltas) := by
  obtain ⟨final,deltas,hrun,_⟩ := sampleBlocks_run
  rw [sampleBlocks_created] at hrun
  obtain ⟨created,first,_,hcreated,_,_⟩ := applyBlocks_concat.mp hrun
  exact ⟨created,first,hcreated⟩

/-- One service has stored the whole sample, another one its blocks up to the CREATE. -/
theorem sample_stores : ∃ db db' final final' deltas deltas' found found',
    Committed bitcoinPrimitives (NamedBy namedSample) db ∧
    Committed bitcoinPrimitives (NamedBy namedSample) db' ∧
    Records bitcoinPrimitives db sampleBinding final sampleBlocks deltas ∧
    Records bitcoinPrimitives db' sampleBinding final' createdBlocks deltas' ∧
    Store.rootsAt db 1108 = ok (some found) ∧ Store.rootsAt db' 1108 = ok (some found') ∧
    found.roots.blockHash = found'.roots.blockHash := by
  obtain ⟨db,final,deltas,hcommitted,hrecords,_⟩ := sample_stored
  obtain ⟨created,first,hrun⟩ := createdBlocks_run
  obtain ⟨db',hcommitted',hrecords'⟩ := Records.exists_run hrun
    (fun _ hblock => sampleBlocks_named (createdBlocks_sub hblock)) createdBlocks_bound createdBlocks_hashes
    sampleRelease_storable
  have hcreate : createBlock ∈ createdBlocks := by simp [createdBlocks]
  obtain ⟨found,hread,hhash⟩ := hrecords.read_block (createdBlocks_sub hcreate)
  obtain ⟨found',hread',hhash'⟩ := hrecords'.read_block hcreate
  exact ⟨db,db',final,created,deltas,first,found,found',
    hcommitted.mono fun _ hblock => sampleBlocks_named hblock,hcommitted',hrecords,hrecords',hread,hread',
    hhash.trans hhash'.symm⟩

theorem sample_indexers : ∃ db db' found found',
    Committed bitcoinPrimitives (NamedBy namedSample) db ∧
    Committed bitcoinPrimitives (NamedBy namedSample) db' ∧
    db.canonicalBlocks.length ≠ db'.canonicalBlocks.length ∧
    Store.rootsAt db 1108 = ok (some found) ∧ Store.rootsAt db' 1108 = ok (some found') ∧
    found.roots = found'.roots ∧ ∀ lower ≤ 1108, SameAnswers db db' lower := by
  obtain ⟨db,db',final,final',deltas,deltas',found,found',hcommitted,hcommitted',hrecords,hrecords',hread,
    hread',hhash⟩ := sample_stores
  obtain ⟨hagree,_⟩ := indexers_agree sample_initOnce hcommitted hcommitted' hrecords.stored
    hrecords'.stored rfl
  have hanswers := (hagree _ _ _ _ hread hread' hhash).2
  obtain ⟨a,b,ha,hb,heq⟩ := (hanswers 1108 (UInt64.le_refl _)).roots
  refine ⟨db,db',found,found',hcommitted,hcommitted',?_,hread,hread',?_,hanswers⟩
  · rw [hrecords.canonical.paired,hrecords'.canonical.paired,sampleBlocks_created]
    simp
  · obtain rfl : a = some found := Outcome.ok.inj (ha.symm.trans hread)
    obtain rfl : b = some found' := Outcome.ok.inj (hb.symm.trans hread')
    simpa using heq

end Sample

section Roots

/-- Blocks that commit to the same above equal roots have equal roots. -/
theorem applyBlock_shown {before before' : ChainState} {block block' : BlockView}
    {delta delta' : BlockDelta} (hbinding : before.binding = before'.binding)
    (hroot : before.chainedRoot = before'.chainedRoot)
    (happly : applyBlock P before block = ok (state,.ok delta))
    (happly' : applyBlock P before' block' = ok (state',.ok delta'))
    (hcommitted : delta.committed = delta'.committed) :
    delta.shown = delta'.shown ∧ state.chainedRoot = state'.chainedRoot := by
  simp only [BlockDelta.committed,Prod.mk.injEq] at hcommitted
  obtain ⟨hhash,hheight,hevents,hobjects,hcounters⟩ := hcommitted
  obtain ⟨hevent,_,_,hrootHeight,hrootHash,hchained,hblockRoot⟩ := applyBlock_roots happly
  obtain ⟨hevent',_,_,hrootHeight',hrootHash',hchained',hblockRoot'⟩ := applyBlock_roots happly'
  obtain ⟨_,hblock,_,hlevel,_⟩ := applyBlock_delta happly
  obtain ⟨_,hblock',_,hlevel',_⟩ := applyBlock_delta happly'
  have hsameHash : block.hash = block'.hash := by rw [← hblock,← hblock',hhash]
  have hsameHeight : block.height = block'.height := by rw [← hlevel,← hlevel',hheight]
  have heventRoot : delta.roots.eventRoot = delta'.roots.eventRoot := by
    rw [hevent,hevent',hbinding,hevents]
  have hsealed : state.chainedRoot = state'.chainedRoot := by
    rw [hblockRoot,hblockRoot',hbinding,hroot,hsameHash,hsameHeight,heventRoot,hobjects,hcounters]
  refine ⟨?_,hsealed⟩
  have heta : ∀ roots : HeightRoots, roots = ⟨roots.height,roots.blockHash,roots.eventRoot,
    roots.objectStateRoot,roots.chainedRoot,roots.counters⟩ := fun _ => rfl
  rw [BlockDelta.shown,BlockDelta.shown,hevents,heta delta.roots,heta delta'.roots,hrootHeight,hrootHeight',
    hrootHash,hrootHash',heventRoot,hobjects,hcounters,hchained,hchained',hsealed,hsameHash,hsameHeight]

/-- Runs of one deployment that committed to the same blocks show the same. -/
theorem runs_shown (hrun : applyBlocks P (ChainState.new P binding) blocks = some (state,deltas))
    (hrun' : applyBlocks P (ChainState.new P binding) blocks' = some (state',deltas'))
    (hcommitted : deltas.map BlockDelta.committed = deltas'.map BlockDelta.committed) :
    deltas.map BlockDelta.shown = deltas'.map BlockDelta.shown ∧ state.chainedRoot = state'.chainedRoot := by
  induction blocks using List.reverseRecOn generalizing blocks' state state' deltas deltas' with
  | nil =>
    simp only [applyBlocks,Option.some.injEq,Prod.mk.injEq] at hrun
    obtain ⟨rfl,rfl⟩ := hrun
    obtain rfl : deltas' = [] := by simpa using hcommitted.symm
    have hlength := congrArg List.length (applyBlocks_headers hrun')
    obtain rfl : blocks' = [] := by simpa using hlength.symm
    simp only [applyBlocks,Option.some.injEq,Prod.mk.injEq] at hrun'
    exact ⟨rfl,by rw [hrun'.1]⟩
  | append_singleton earlier block ih =>
    obtain ⟨middle,first,delta,hfirst,happly,rfl⟩ := applyBlocks_concat.mp hrun
    cases blocks' using List.reverseRecOn with
    | nil =>
      simp only [applyBlocks,Option.some.injEq,Prod.mk.injEq] at hrun'
      obtain ⟨rfl,rfl⟩ := hrun'
      simp at hcommitted
    | append_singleton earlier' block' =>
      obtain ⟨middle',first',delta',hfirst',happly',rfl⟩ := applyBlocks_concat.mp hrun'
      rw [List.map_append,List.map_append] at hcommitted
      obtain ⟨hbelow,hlast⟩ := List.append_inj' hcommitted rfl
      obtain ⟨hshown,hroot⟩ := ih hfirst hfirst' hbelow
      have hbinding : middle.binding = middle'.binding :=
        (applyBlocks_binding hfirst).trans (applyBlocks_binding hfirst').symm
      obtain ⟨hlastShown,hsealed⟩ := applyBlock_shown hbinding hroot happly happly' (by simpa using hlast)
      exact ⟨by rw [List.map_append,List.map_append,hshown]; simpa using hlastShown,hsealed⟩

theorem runPreimages_upto {first rest : List BlockDelta} {delta : BlockDelta} :
    runPreimages P binding (first ++ [delta]) ⊆ runPreimages P binding (first ++ delta :: rest) := by
  intro bytes hbytes
  simp only [runPreimages,List.mem_cons,List.flatMap_append,List.flatMap_cons,List.mem_append] at hbytes ⊢
  tauto

theorem applyBlocks_lastRoot {first : List BlockDelta} {delta : BlockDelta}
    (h : applyBlocks P (ChainState.new P binding) blocks = some (state,first ++ [delta])) :
    state.chainedRoot = delta.roots.chainedRoot := by
  cases blocks using List.reverseRecOn with
  | nil => simp [applyBlocks] at h
  | append_singleton earlier block =>
    obtain ⟨_,_,last,_,happly,hsplit⟩ := applyBlocks_concat.mp h
    obtain rfl : delta = last := by simpa using (List.append_inj' hsplit rfl).2
    exact (applyBlock_roots happly).2.2.2.2.2.1.symm

theorem deltasAt_shown (h : applyBlocks P (ChainState.new P binding) blocks = some (state,deltas))
    {height : UInt64} : (deltasAt height deltas).map BlockDelta.shown =
      (deltas.map BlockDelta.shown).filter fun shown => shown.1.height = height := by
  rw [deltasAt,List.filter_map]
  congr 1
  apply List.filter_congr
  intro delta hdelta
  rw [← (applyBlocks_roots h hdelta).1]
  rfl

/-- The preimages that were hashed for the stored blocks. -/
def storedPreimages (P : Primitives) (binding : Binding) (db : Database) : List Bytes :=
  runPreimages P binding (db.canonicalBlocks.map BlockRow.inverseDelta)

/-- Recorded blocks with one chained root, of whatever deployments and databases, belong to the
same deployment and height and have the same answers below them, unless SHA256 collides. -/
theorem Records.roots_commit {binding' : Binding} {delta delta' : BlockDelta}
    (h : Records P db binding state blocks deltas) (h' : Records P db' binding' state' blocks' deltas')
    (hfree : ¬ Collision P.sha256 (storedPreimages P binding db ++ storedPreimages P binding' db'))
    (hdelta : delta ∈ deltas) (hdelta' : delta' ∈ deltas')
    (hchained : delta.roots.chainedRoot = delta'.roots.chainedRoot) :
    binding = binding' ∧ delta.height = delta'.height ∧ delta.roots = delta'.roots ∧
      ∀ lower ≤ delta.height, SameAnswers db db' lower := by
  rw [storedPreimages,storedPreimages,h.journal,h'.journal] at hfree
  have hbound := h.bounded delta hdelta
  obtain ⟨earlier,block,_,first,rest,final,_,rfl,_,hupto⟩ := applyBlocks_upto h.run hdelta
  obtain ⟨earlier',block',_,first',rest',final',_,rfl,_,hupto'⟩ := applyBlocks_upto h'.run hdelta'
  have hfinal : final.chainedRoot = final'.chainedRoot := by
    rw [applyBlocks_lastRoot hupto,applyBlocks_lastRoot hupto',hchained]
  obtain ⟨hbinding,_,hcommitted⟩ := run_root_inj hfree hupto hupto'
    (fun bytes hbytes => List.mem_append_left _ (runPreimages_upto hbytes))
    (fun bytes hbytes => List.mem_append_right _ (runPreimages_upto hbytes)) hfinal
  rw [← hbinding] at h' hupto'
  obtain ⟨hshown,_⟩ := runs_shown hupto hupto' hcommitted
  have hlast : delta.shown = delta'.shown := by
    rw [List.map_append,List.map_append] at hshown
    simpa using (List.append_inj' hshown rfl).2
  have hsameRoots : delta.roots = delta'.roots := congrArg Prod.fst hlast
  have hheight : delta.height = delta'.height := by
    rw [← (applyBlocks_roots h.run hdelta).1,← (applyBlocks_roots h'.run hdelta').1,hsameRoots]
  have hsame : SameBelow delta.height (first ++ delta :: rest) (first' ++ delta' :: rest') := by
    intro lower hle
    rw [deltasAt_upto h.run hle,deltasAt_upto h'.run (hheight ▸ hle),deltasAt_shown hupto,
      deltasAt_shown hupto',hshown]
  exact ⟨hbinding,hheight,hsameRoots,fun lower hle => hsame.answers h h' hbound hle⟩

/-- One signed root decides everything: services whose tuples show the same chained root, of
whatever deployments, databases and heights, have the same deployment, the same height and the
same answers up to it, or their stored blocks exhibit a collision of SHA256. -/
theorem signed_roots_commit {good good' : BlockView → Prop} {row row' : ProtocolRow}
    {height height' : UInt64} {persisted persisted' : PersistedHeight}
    (h : Committed P good db) (h' : Committed P good' db')
    (hrow : db.protocolState = some row) (hrow' : db'.protocolState = some row')
    (hread : Store.rootsAt db height = ok (some persisted))
    (hread' : Store.rootsAt db' height' = ok (some persisted'))
    (hroot : (AgreementTuple.fromRoots row.binding.protocolId persisted.roots persisted.release).chainedRoot =
      (AgreementTuple.fromRoots row'.binding.protocolId persisted'.roots persisted'.release).chainedRoot) :
    (row.binding = row'.binding ∧ height = height' ∧ persisted.roots = persisted'.roots ∧
      ∀ lower ≤ height, SameAnswers db db' lower) ∨
    Collision P.sha256 (storedPreimages P row.binding db ++ storedPreimages P row'.binding db') := by
  obtain ⟨blocks,deltas,hrecords,_⟩ := h.sound.records hrow
  obtain ⟨blocks',deltas',hrecords',_⟩ := h'.sound.records hrow'
  by_cases hcollision : Collision P.sha256
      (storedPreimages P row.binding db ++ storedPreimages P row'.binding db')
  · exact Or.inr hcollision
  left
  obtain ⟨delta,hdelta,rfl,hroots,_⟩ := hrecords.read_delta hread
  obtain ⟨delta',hdelta',rfl,hroots',_⟩ := hrecords'.read_delta hread'
  have hchained : delta.roots.chainedRoot = delta'.roots.chainedRoot := by
    rw [← hroots,← hroots']
    exact hexEncode_injective hroot
  obtain ⟨hbinding,hheight,hsame,hanswers⟩ :=
    hrecords.roots_commit hrecords' hcollision hdelta hdelta' hchained
  exact ⟨hbinding,hheight,by rw [hroots,hroots',hsame],hanswers⟩

/-- The blocks up to the CREATE, the first of them with another transaction. -/
def paddedCreated : List BlockView := [paddedInit] ++ emptyBlocks sampleHash 101 1007 ++ [createBlock]

/-- One service has stored the whole sample; the other one saw a first block with another
transaction and stops at the CREATE. Both show the same root there. -/
theorem sample_signed_roots : ∃ (db db' : Database) (found found' : PersistedHeight),
    Committed bitcoinPrimitives (fun block => block ∈ sampleBlocks) db ∧
    Committed bitcoinPrimitives (fun block => block ∈ paddedCreated) db' ∧
    db.canonicalBlocks.length ≠ db'.canonicalBlocks.length ∧
    Store.rootsAt db 1108 = ok (some found) ∧ Store.rootsAt db' 1108 = ok (some found') ∧
    ((∀ lower ≤ 1108, SameAnswers db db' lower) ∨
      Collision bitcoinPrimitives.sha256 (storedPreimages bitcoinPrimitives sampleBinding db ++
        storedPreimages bitcoinPrimitives sampleBinding db')) := by
  obtain ⟨db,final,deltas,hcommitted,hrecords,_⟩ := sample_stored
  obtain ⟨created,first,hrun⟩ := createdBlocks_run
  have hpadded : applyBlocks bitcoinPrimitives sampleNew paddedCreated = some (created,first) :=
    (padded_run _).trans hrun
  obtain ⟨db',hcommitted',hrecords'⟩ := Records.exists_run hpadded (fun _ hblock => hblock)
    (by simpa [paddedCreated,createdBlocks,paddedInit,initBlock,sampleBlock] using createdBlocks_bound)
    createdBlocks_hashes sampleRelease_storable
  have hcreate : createBlock ∈ createdBlocks := by simp [createdBlocks]
  obtain ⟨found,hread,hhash⟩ := hrecords.read_block (createdBlocks_sub hcreate)
  obtain ⟨found',hread',hhash'⟩ := hrecords'.read_block (by simp [paddedCreated] : createBlock ∈ paddedCreated)
  obtain ⟨delta,hdelta,_,hroots,_⟩ := hrecords.read_delta hread
  obtain ⟨delta',hdelta',_,hroots',_⟩ := hrecords'.read_delta hread'
  rw [hroots,(applyBlocks_roots hrecords.run hdelta).2] at hhash
  rw [hroots',(applyBlocks_roots hrun hdelta').2] at hhash'
  obtain ⟨rfl,_⟩ := runs_sameBelow sample_initOnce hrecords.run hrun (fun _ => sampleBlocks_named)
    (fun _ hblock => sampleBlocks_named (createdBlocks_sub hblock)) hdelta hdelta' (hhash.trans hhash'.symm)
  have hroot : (AgreementTuple.fromRoots sampleBinding.protocolId found.roots found.release).chainedRoot =
      (AgreementTuple.fromRoots sampleBinding.protocolId found'.roots found'.release).chainedRoot := by
    rw [hroots,hroots']
    rfl
  refine ⟨db,db',found,found',hcommitted,hcommitted',?_,hread,hread',?_⟩
  · rw [hrecords.canonical.paired,hrecords'.canonical.paired]
    simp [sampleBlocks,paddedCreated]
  rcases signed_roots_commit hcommitted hcommitted' hrecords.stored hrecords'.stored hread hread' hroot with
    ⟨_,_,_,hsame⟩ | hcollision
  · exact Or.inl hsame
  · exact Or.inr hcollision

end Roots
end TandemVerifier
