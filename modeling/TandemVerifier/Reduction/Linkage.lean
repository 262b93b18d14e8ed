import TandemVerifier.Library.LinkedChain
import TandemVerifier.Reduction.EventOrder
import TandemVerifier.Reduction.EventLog

/-! # Accepted blocks are hash-linked

`validateLinkage` is the only place where a block meets the tip before it. Over a run
it makes the blocks consecutive in height and linked by hash, so that the deltas and
their events are told apart by height alone.
-/
namespace TandemVerifier
open Library Library.Outcome Library.LinkedChain
variable {P : Primitives} {binding : Binding} {state state' : ChainState} {block : BlockView}
variable {delta : BlockDelta} {blocks : List BlockView} {deltas : List BlockDelta}

/-- What identifies a block and its place. -/
structure Header where
  hash : Hash32
  previousHash : Hash32
  height : UInt64
deriving DecidableEq

def BlockView.header (block : BlockView) : Header := ⟨block.hash,block.previousHash,block.height⟩
def BlockDelta.header (delta : BlockDelta) : Header := ⟨delta.blockHash,delta.previousHash,delta.height⟩

def headerLinks : Links Header Hash32 := ⟨Header.hash,Header.previousHash,fun header => header.height.toNat⟩

theorem applyBlock_header (h : applyBlock P state block = ok (state',.ok delta)) :
    delta.header = block.header := by
  obtain ⟨_,hhash,hprevious,hheight,_⟩ := applyBlock_delta h
  rw [BlockDelta.header,hhash,hprevious,hheight,BlockView.header]

theorem applyBlocks_headers (h : applyBlocks P state blocks = some (state',deltas)) :
    deltas.map BlockDelta.header = blocks.map BlockView.header := by
  induction blocks generalizing state deltas with
  | nil =>
    simp only [applyBlocks,Option.some.injEq,Prod.mk.injEq] at h
    simp [← h.2]
  | cons block rest ih =>
    obtain ⟨next,delta,tail,happly,hrest,rfl⟩ := applyBlocks_cons.mp h
    rw [List.map_cons,List.map_cons,applyBlock_header happly,ih hrest]

/-- A delta records the state after the blocks before its own. -/
theorem applyBlocks_before (h : applyBlocks P state blocks = some (state',deltas)) {i : ℕ}
    (hdelta : deltas[i]? = some delta) :
    applyBlocks P state (blocks.take i) = some (delta.before,deltas.take i) := by
  induction blocks generalizing state deltas i with
  | nil =>
    simp only [applyBlocks,Option.some.injEq,Prod.mk.injEq] at h
    simp [← h.2] at hdelta
  | cons block rest ih =>
    obtain ⟨next,first,tail,happly,hrest,rfl⟩ := applyBlocks_cons.mp h
    cases i with
    | zero =>
      obtain rfl : first = delta := by simpa using hdelta
      rw [(applyBlock_delta happly).1]
      rfl
    | succ i =>
      exact applyBlocks_cons.mpr ⟨next,first,tail.take i,happly,ih hrest (by simpa using hdelta),rfl⟩

/-- A state with a tip accepts only the block that follows the tip. -/
theorem validateLinkage_follows {tip : Header} (hheight : state.tipHeight = some tip.height)
    (hhash : state.tipHash = some tip.hash) (h : validateLinkage state block = .ok ()) :
    headerLinks.Follows tip block.header := by
  obtain ⟨hnext,hparent⟩ := validateLinkage_ok h hheight
  rw [hhash,Option.some.injEq] at hparent
  exact ⟨hparent.symm,hnext.symm⟩

/-- The tip of a run is its last block. -/
theorem applyBlocks_tip (h : applyBlocks P (ChainState.new P binding) blocks = some (state,deltas)) :
    state.tipHeight = blocks.getLast?.map BlockView.height ∧
      state.tipHash = blocks.getLast?.map BlockView.hash := by
  induction blocks using List.reverseRecOn with
  | nil =>
    simp only [applyBlocks,Option.some.injEq,Prod.mk.injEq] at h
    rw [← h.1]
    exact ⟨rfl,rfl⟩
  | append_singleton earlier block ih =>
    obtain ⟨middle,first,delta,_,happly,_⟩ := applyBlocks_concat.mp h
    obtain ⟨_,_,_,_,_,hheight,hhash⟩ := applyBlock_delta happly
    simp [hheight,hhash]

/-- The blocks of a run are consecutive and linked by hash. -/
theorem applyBlocks_linked
    (h : applyBlocks P (ChainState.new P binding) blocks = some (state,deltas)) :
    (blocks.map BlockView.header).IsChain headerLinks.Follows := by
  induction blocks using List.reverseRecOn generalizing state deltas with
  | nil => exact .nil
  | append_singleton earlier block ih =>
    obtain ⟨middle,first,delta,hfirst,happly,_⟩ := applyBlocks_concat.mp h
    rw [List.map_append]
    apply (ih hfirst).append (.singleton _)
    intro tip htip next hnext
    obtain rfl : block.header = next := by simpa using hnext
    obtain ⟨hheight,hhash⟩ := applyBlocks_tip hfirst
    rw [List.getLast?_map] at htip
    obtain ⟨last,hlast,rfl⟩ := Option.map_eq_some_iff.mp htip
    rw [hlast] at hheight hhash
    exact validateLinkage_follows hheight hhash (applyBlock_ok happly).1

theorem applyBlocks_heights
    (h : applyBlocks P (ChainState.new P binding) blocks = some (state,deltas)) :
    deltas.Pairwise fun a b => a.height < b.height := by
  have hlinked := applyBlocks_linked h
  rw [← applyBlocks_headers h,List.isChain_map] at hlinked
  have htrans : IsTrans BlockDelta fun a b => a.height < b.height :=
    ⟨fun _ _ _ hab hbc => UInt64.lt_trans hab hbc⟩
  refine List.isChain_iff_pairwise.mp (hlinked.imp ?_)
  intro a b hfollows
  have hrank : b.height.toNat = a.height.toNat + 1 := hfollows.2
  exact UInt64.lt_iff_toNat_lt.mpr (by omega)

/-- Every event of a delta carries the height of the delta. -/
theorem applyBlock_event_height (h : applyBlock P state block = ok (state',.ok delta)) :
    ∀ event ∈ delta.events, event.height = delta.height := by
  intro event hevent
  obtain ⟨tx,_,hfrom⟩ := (applyBlock_ordered h).2 event hevent
  rw [hfrom.height,(applyBlock_delta h).2.2.2.1]

theorem applyBlocks_event_height (h : applyBlocks P state blocks = some (state',deltas))
    (hdelta : delta ∈ deltas) : ∀ event ∈ delta.events, event.height = delta.height := by
  obtain ⟨_,_,_,_,_,_,_,_,happly⟩ := applyBlocks_mem h hdelta
  exact applyBlock_event_height happly

theorem applyBlocks_keyed (h : applyBlocks P (ChainState.new P binding) blocks = some (state,deltas)) :
    Keyed state :=
  (run_reached h).keyed

end TandemVerifier
