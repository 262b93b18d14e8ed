import TandemVerifier.Core.Views
import TandemVerifier.Service.Availability
import TandemVerifier.Service.Indexers

/-! # Replay of resolved blocks

The subcommand `replay` of `tandem-cli/src/main.rs`: a file lists a binding, blocks and
optionally the roots to expect; the blocks are reduced from the initial state and the roots
are compared block by block. The file is taken as the tree of its JSON text.
-/
namespace TandemVerifier
open Library Library.Outcome

structure ReplayInput where
  binding : Binding
  blocks : List BlockView
  expectedRoots : List HeightRoots
deriving DecidableEq

namespace ReplayInput

def names : List String := ["binding","blocks","expected_roots"]

/-- A field with a default may be absent, also as the last item of an array. -/
def decode (value : Json) : Option ReplayInput := do
  let fields ← match value with
    | .array _ => recordFields names value <|> recordFields names.dropLast value
    | _ => recordFields names value
  let expectedRoots ← match fields "expected_roots" with
    | none => some []
    | some roots => fromValue roots
  (mk · · expectedRoots) <$> required (fields "binding") <*> required (fields "blocks")

/-- The entries of a file that lists these fields once, among any others and in any order. -/
structure Lists (input : ReplayInput) (entries : List (String × Json)) : Prop where
  once : NamedOnce names entries
  binding : entries.lookup "binding" = some (toValue input.binding)
  blocks : entries.lookup "blocks" = some (toValue input.blocks)
  expectedRoots : entries.lookup "expected_roots" = some (toValue input.expectedRoots) ∨
    entries.lookup "expected_roots" = none ∧ input.expectedRoots = []

theorem decode_object {input : ReplayInput} {entries : List (String × Json)} (h : input.Lists entries) :
    decode (.object entries) = some input := by
  unfold decode
  rw [recordFields_object h.once]
  rcases h.expectedRoots with hroots | ⟨hroots,hempty⟩
  · simp only [Option.bind_eq_bind,Option.bind_some,hroots,h.binding,h.blocks,fromValue_toValue,
      required_toValue,Option.map_eq_map,Option.map_some,Option.seq_some]
  · simp only [Option.bind_eq_bind,Option.bind_some,hroots,h.binding,h.blocks,required_toValue,
      Option.map_eq_map,Option.map_some,Option.seq_some,← hempty]

/-- A file that gives a field twice is refused, whatever the field holds. -/
theorem decode_repeated {entries : List (String × Json)} (h : ¬NamedOnce names entries) :
    decode (.object entries) = none := by
  have hfields : recordFields names (.object entries) = none := if_neg h
  unfold decode
  rw [hfields]
  rfl

end ReplayInput

structure ReplayReport where
  schema : String
  protocolId : String
  heights : List HeightRoots
  eventCounts : List ℕ
  finalState : ChainState
deriving DecidableEq

inductive ReplayError where
  | invalidReplayJson
  | replayFailed (index : ℕ) (error : ReducerError)
  | rootMismatch (height : UInt64)
  | expectedRootListLength
deriving DecidableEq

def ReplayError.message : ReplayError → String
  | invalidReplayJson => "invalid replay JSON"
  | replayFailed index _ => "replay failed at input block " ++ toString index
  | rootMismatch height => "root mismatch at height " ++ toString height.toNat
  | expectedRootListLength => "expected root list length differs from block list"

namespace Cli
section Replay
variable (P : Primitives)

/-- The roots of a block against those expected at its index, where there are any. -/
def checkExpected (expectedRoots : List HeightRoots) (index : ℕ) (block : BlockView) (roots : HeightRoots) :
    Outcome ReplayError Unit :=
  match expectedRoots[index]? with
  | some expected => failIf (roots ≠ expected) (.rootMismatch block.height)
  | none => pure ()

/-- The loop over the blocks, from an index on. -/
def replayBlocks (expectedRoots : List HeightRoots) : ChainState → ℕ → List BlockView →
    Outcome ReplayError (ChainState × List HeightRoots × List ℕ)
  | state,_,[] => pure (state,[],[])
  | state,index,block :: rest =>
    match applyBlock P state block with
    | .panic => .panic
    | .ok (_,.error error) => err (.replayFailed index error)
    | .ok (next,.ok delta) => do
      checkExpected expectedRoots index block delta.roots
      let (final,heights,eventCounts) ← replayBlocks expectedRoots next (index + 1) rest
      pure (final,delta.roots :: heights,delta.events.length :: eventCounts)

def replay (input : ReplayInput) : Outcome ReplayError ReplayReport := do
  let (state,heights,eventCounts) ←
    replayBlocks P input.expectedRoots (ChainState.new P input.binding) 0 input.blocks
  failIf (!(input.expectedRoots.isEmpty || input.expectedRoots.length == heights.length))
    .expectedRootListLength
  pure ⟨"urn:tandem:rust-replay-report",state.binding.protocolId,heights,eventCounts,state⟩

def replayFile (value : Json) : Outcome ReplayError ReplayReport := do
  let input ← okOr (ReplayInput.decode value) .invalidReplayJson
  replay P input

end Replay

section Exact
variable {P : Primitives} {expectedRoots : List HeightRoots} {state final : ChainState} {position : ℕ}
variable {blocks : List BlockView} {heights : List HeightRoots} {eventCounts : List ℕ}

theorem checkExpected_eq_ok {block : BlockView} {roots : HeightRoots} {u : Unit} :
    checkExpected expectedRoots position block roots = ok u ↔
      ∀ expected, expectedRoots[position]? = some expected → roots = expected := by
  unfold checkExpected
  cases expectedRoots[position]? with
  | none => simp
  | some expected => simp [failIf_eq_ok]

/-- The loop is the run of the reducer with the roots compared from the index on. -/
theorem replayBlocks_eq_ok :
    replayBlocks P expectedRoots state position blocks = ok (final,heights,eventCounts) ↔ ∃ deltas,
      applyBlocks P state blocks = some (final,deltas) ∧ heights = deltas.map BlockDelta.roots ∧
      eventCounts = deltas.map (fun delta => delta.events.length) ∧
      ∀ i roots expected, heights[i]? = some roots → expectedRoots[position + i]? = some expected →
        roots = expected := by
  induction blocks generalizing state position heights eventCounts with
  | nil =>
    simp only [replayBlocks,pure_eq_ok,Outcome.ok.injEq,Prod.mk.injEq,applyBlocks,Option.some.injEq]
    constructor
    · rintro ⟨rfl,rfl,rfl⟩
      exact ⟨[],⟨rfl,rfl⟩,rfl,rfl,by simp⟩
    · rintro ⟨_,⟨rfl,rfl⟩,rfl,rfl,_⟩
      exact ⟨rfl,rfl,rfl⟩
  | cons block rest ih =>
    have hshift : ∀ i, position + 1 + i = position + (i + 1) := by omega
    simp only [applyBlocks_cons]
    cases happly : applyBlock P state block with
    | panic => simp [replayBlocks,happly]
    | err e => cases e
    | ok result =>
      obtain ⟨next,outcome⟩ := result
      cases outcome with
      | error e => simp [replayBlocks,happly]
      | ok delta =>
        simp only [replayBlocks,happly,bind_eq_ok,checkExpected_eq_ok,Prod.exists,pure_eq_ok,
          Outcome.ok.injEq,Prod.mk.injEq,Except.ok.injEq]
        constructor
        · rintro ⟨_,hfirst,_,_,_,hrest,rfl,rfl,rfl⟩
          obtain ⟨deltas,hrun,rfl,rfl,hlater⟩ := ih.mp hrest
          refine ⟨delta :: deltas,⟨next,delta,deltas,⟨rfl,rfl⟩,hrun,rfl⟩,rfl,rfl,?_⟩
          intro i roots expected hroots hexpected
          cases i with
          | zero =>
            obtain rfl := Option.some.inj hroots
            exact hfirst expected hexpected
          | succ i => exact hlater i roots expected hroots (hshift i ▸ hexpected)
        · rintro ⟨_,⟨_,_,deltas,⟨rfl,rfl⟩,hrun,rfl⟩,rfl,rfl,hall⟩
          refine ⟨(),fun expected hexpected => hall 0 delta.roots expected rfl hexpected,final,_,_,
            ih.mpr ⟨deltas,hrun,rfl,rfl,?_⟩,rfl,rfl,rfl⟩
          intro i roots expected hroots hexpected
          exact hall (i + 1) roots expected hroots (hshift i ▸ hexpected)

theorem replay_eq_ok {input : ReplayInput} {report : ReplayReport} :
    replay P input = ok report ↔ ∃ state deltas,
      applyBlocks P (ChainState.new P input.binding) input.blocks = some (state,deltas) ∧
      (input.expectedRoots = [] ∨ input.expectedRoots = deltas.map BlockDelta.roots) ∧
      report = ⟨"urn:tandem:rust-replay-report",input.binding.protocolId,deltas.map BlockDelta.roots,
        deltas.map fun delta => delta.events.length,state⟩ := by
  simp only [replay,bind_eq_ok,failIf_eq_ok,replayBlocks_eq_ok,Prod.exists,pure_eq_ok,Outcome.ok.injEq]
  constructor
  · rintro ⟨state,_,_,⟨deltas,hrun,rfl,rfl,hall⟩,_,hlength,rfl⟩
    refine ⟨state,deltas,hrun,?_,?_⟩
    · simp only [Bool.not_eq_eq_eq_not,Bool.not_false,Bool.or_eq_true,List.isEmpty_iff,beq_iff_eq] at hlength
      refine hlength.imp_right fun hsame => List.ext_getElem hsame fun i hi hi' => ?_
      exact (hall i _ _ (List.getElem?_eq_getElem hi') (by simp)).symm
    · rw [applyBlocks_binding hrun]
      rfl
  · rintro ⟨state,deltas,hrun,hexpected,rfl⟩
    refine ⟨state,_,_,⟨deltas,hrun,rfl,rfl,?_⟩,(),?_,?_⟩
    · rcases hexpected with hempty | hsame
      · simp [hempty]
      · intro i roots expected hroots hgiven
        rw [hsame,Nat.zero_add,hroots] at hgiven
        exact Option.some.inj hgiven
    · rcases hexpected with hempty | hsame
      · simp [hempty]
      · simp [hsame]
    · rw [applyBlocks_binding hrun]
      rfl

theorem replayFile_eq_ok {input : ReplayInput} {entries : List (String × Json)} {report : ReplayReport}
    (h : input.Lists entries) : replayFile P (.object entries) = ok report ↔ replay P input = ok report := by
  rw [replayFile,ReplayInput.decode_object h]
  rfl

end Exact

/-- A file that lists its fields once is replayed exactly when the reducer accepts its blocks and
the roots it expects are none or those of all the blocks. The report lists the roots, the event
counts and the state of the reduction. A file that gives a field twice is refused. -/
theorem replay_exact (P : Primitives) (entries : List (String × Json)) :
    (∀ input : ReplayInput, input.Lists entries → ∀ report,
      replayFile P (.object entries) = ok report ↔ ∃ state deltas,
        applyBlocks P (ChainState.new P input.binding) input.blocks = some (state,deltas) ∧
        (input.expectedRoots = [] ∨ input.expectedRoots = deltas.map BlockDelta.roots) ∧
        report = ⟨"urn:tandem:rust-replay-report",input.binding.protocolId,
          deltas.map BlockDelta.roots,deltas.map fun delta => delta.events.length,state⟩) ∧
      (¬NamedOnce ReplayInput.names entries → replayFile P (.object entries) = err .invalidReplayJson) := by
  refine ⟨fun input h report => ?_,fun hrepeated => ?_⟩
  · rw [replayFile_eq_ok h,replay_eq_ok]
  · rw [replayFile,ReplayInput.decode_repeated hrepeated]
    rfl

/-- The sample blocks written without roots to expect. -/
def sampleFile : List (String × Json) := [("blocks",toValue sampleBlocks),("binding",toValue sampleBinding)]

theorem sampleFile_lists : (⟨sampleBinding,sampleBlocks,[]⟩ : ReplayInput).Lists sampleFile :=
  ⟨by simp [NamedOnce,ReplayInput.names,sampleFile],rfl,rfl,Or.inr ⟨rfl,rfl⟩⟩

/-- The sample is replayed, and refused when its binding is given again. -/
theorem sample_replay_exact :
    (∃ report, replayFile bitcoinPrimitives (.object sampleFile) = ok report ∧
      report.finalState.protocolStatus = .active 100 1108 5428 ∧ report.eventCounts.sum = 3) ∧
    replayFile bitcoinPrimitives (.object (("binding",.null) :: sampleFile)) =
      err .invalidReplayJson := by
  obtain ⟨final,deltas,hrun,hactive,hlog⟩ := sampleBlocks_run
  constructor
  · refine ⟨_,((replay_exact bitcoinPrimitives sampleFile).1 _ sampleFile_lists _).mpr
      ⟨final,deltas,hrun,Or.inl rfl,rfl⟩,hactive,?_⟩
    have hlength := congrArg List.length hlog
    rwa [List.length_flatMap] at hlength
  · apply (replay_exact bitcoinPrimitives (("binding",.null) :: sampleFile)).2
    simp [NamedOnce,ReplayInput.names,sampleFile]

section Audit
variable {P : Primitives} {good : BlockView → Prop} {db : Database} {row : ProtocolRow}

/-- The database can be audited by a replay: for the blocks it was built from, a file that
expects roots is accepted exactly when these are the persisted ones, and the replay then ends
in the stored state. -/
theorem replay_audits_store (h : Committed P good db) (hrow : db.protocolState = some row) :
    ∃ blocks, (∀ block ∈ blocks, good block) ∧
      blocks.map BlockView.hash = db.canonicalBlocks.map BlockRow.blockHash ∧
      ∀ (expected : List HeightRoots) (entries : List (String × Json)),
        (⟨row.binding,blocks,expected⟩ : ReplayInput).Lists entries →
        ((∃ report, replayFile P (.object entries) = ok report) ↔
          expected = [] ∨ expected = db.canonicalBlocks.map fun stored => stored.inverseDelta.roots) ∧
        ∀ report, replayFile P (.object entries) = ok report → report.finalState = row.state ∧
          report.protocolId = row.binding.protocolId ∧
          (∀ height found, Store.rootsAt db height = ok (some found) → found.roots ∈ report.heights) ∧
          report.eventCounts.sum = db.canonicalEvents.length := by
  obtain ⟨blocks,deltas,hrecords,hgood⟩ := h.sound.records hrow
  have hroots : deltas.map BlockDelta.roots = db.canonicalBlocks.map fun stored => stored.inverseDelta.roots := by
    rw [← hrecords.journal,List.map_map]
    rfl
  have hhashes : blocks.map BlockView.hash = db.canonicalBlocks.map BlockRow.blockHash := by
    have hheaders := congrArg (List.map Header.hash) (applyBlocks_headers hrecords.run)
    rw [List.map_map,List.map_map,← hrecords.journal,List.map_map] at hheaders
    rw [show blocks.map BlockView.hash = _ from hheaders.symm]
    refine List.map_congr_left fun stored hstored => ?_
    rw [hrecords.rows stored hstored]
    rfl
  refine ⟨blocks,hgood,hhashes,fun expected entries hlists => ⟨?_,?_⟩⟩
  · simp only [replayFile_eq_ok hlists,replay_eq_ok]
    rw [← hroots]
    constructor
    · rintro ⟨_,state,found,hrun,hexpected,_⟩
      obtain ⟨_,rfl⟩ := Prod.mk.inj (Option.some.inj (hrecords.run.symm.trans hrun))
      exact hexpected
    · exact fun hexpected => ⟨_,row.state,deltas,hrecords.run,hexpected,rfl⟩
  · intro report hreport
    obtain ⟨state,found,hrun,_,rfl⟩ := replay_eq_ok.mp ((replayFile_eq_ok hlists).mp hreport)
    obtain ⟨rfl,rfl⟩ := Prod.mk.inj (Option.some.inj (hrecords.run.symm.trans hrun))
    refine ⟨rfl,rfl,?_,?_⟩
    · intro height persisted hfound
      obtain ⟨_,delta,hread⟩ := rootsAt_readRow h.sound hfound
      rw [hread.roots]
      refine List.mem_map_of_mem ?_
      rw [← hrecords.journal]
      exact List.mem_map.mpr ⟨_,hread.stored,rfl⟩
    · rw [hrecords.events,List.length_flatMap]
      simp

/-- The stored sample is audited by the file of its blocks and its persisted roots. -/
theorem sample_audits : ∃ (db : Database) (blocks : List BlockView) (row : ProtocolRow) (report : ReplayReport),
    Committed bitcoinPrimitives (fun block => block ∈ sampleBlocks) db ∧ db.protocolState = some row ∧
      blocks.map BlockView.hash = db.canonicalBlocks.map BlockRow.blockHash ∧
      replayFile bitcoinPrimitives (.object [("binding",toValue row.binding),("blocks",toValue blocks),
        ("expected_roots",toValue (db.canonicalBlocks.map fun stored => stored.inverseDelta.roots))]) =
          ok report ∧ report.finalState = row.state := by
  obtain ⟨db,final,deltas,hcommitted,hrecords,_⟩ := sample_stored
  obtain ⟨blocks,_,hhashes,haudit⟩ := replay_audits_store hcommitted hrecords.stored
  obtain ⟨haccepted,hreported⟩ := haudit (db.canonicalBlocks.map fun stored => stored.inverseDelta.roots)
    [("binding",toValue sampleBinding),("blocks",toValue blocks),
      ("expected_roots",toValue (db.canonicalBlocks.map fun stored => stored.inverseDelta.roots))]
    ⟨by simp [NamedOnce,ReplayInput.names],rfl,rfl,Or.inl rfl⟩
  obtain ⟨report,hreport⟩ := haccepted.mpr (Or.inr rfl)
  exact ⟨db,blocks,_,report,hcommitted,hrecords.stored,hhashes,hreport,(hreported report hreport).1⟩

end Audit
end Cli
end TandemVerifier
