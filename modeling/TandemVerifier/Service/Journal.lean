import TandemVerifier.Library.UndoLog
import TandemVerifier.Service.Availability

/-! # The reorganization journal

The block table is a stack of blocks and the journal the log of what was taken off it,
whichever writers commit and in whatever order. The journal is therefore complete: a block
that was ever committed and is not stored any more has its entry there.
-/
namespace TandemVerifier
open Library Library.Outcome Library.Table Library.UndoLog
variable {P : Primitives} {good : BlockView → Prop} {db db' : Database} {binding : Binding}

/-- The columns by which the journal names a block. -/
structure BlockName where
  height : Int64
  hash : Hash32
deriving DecidableEq

def BlockRow.name (row : BlockRow) : BlockName := ⟨row.height,row.blockHash⟩
def BlockView.name (block : BlockView) : BlockName := ⟨block.height.toInt64,block.hash⟩
def ReorgRow.disconnected (row : ReorgRow) : BlockName := ⟨row.disconnectedHeight,row.disconnectedHash⟩

/-- The journal row of a block that was taken off, with the block below it. -/
def journalRow (entry : BlockName × Option BlockName) : ReorgRow :=
  ⟨entry.1.height,entry.1.hash,entry.2.map BlockName.height,entry.2.map BlockName.hash⟩

/-- Read recent reorganization records: `ORDER BY id DESC LIMIT 200`. -/
def Store.reorgs (db : Database) : List ReorgRow := db.reorgJournal.reverse.take 200

/-- The tables hold the stack and its log. -/
structure Journals (db : Database) (log : Log BlockName) : Prop where
  blocks : db.canonicalBlocks.map BlockRow.name = log.stack
  journal : db.reorgJournal = log.undone.map journalRow

/-- The row that a rollback appends. -/
theorem Store.rollbackTip_entry {restored : ChainState} (h : Store.rollbackTip db = ok (db',some restored)) :
    ∃ state tipHeight row value, (∃ binding, db.protocolState = some ⟨binding,state⟩) ∧
      state.tipHeight = some tipHeight ∧
      db.canonicalBlocks.find? (fun row => row.height = tipHeight.toInt64) = some row ∧
      Store.restoredHeight restored = ok value ∧
      db'.reorgJournal = db.reorgJournal ++
        [⟨tipHeight.toInt64,row.inverseDelta.blockHash,value,restored.tipHash⟩] := by
  simp only [Store.rollbackTip,bind_eq_ok,Store.loadState_eq_ok] at h
  obtain ⟨state,hstored,h⟩ := h
  cases htip : state.tipHeight with
  | none => simp [htip] at h
  | some tipHeight =>
    simp only [htip,bind_eq_ok,Store.toI64_eq_ok,okOr_eq_ok] at h
    obtain ⟨_,⟨_,rfl⟩,row,hrow,h⟩ := h
    cases hdisconnect : disconnectBlock state row.inverseDelta with
    | mk after outcome =>
      cases outcome with
      | error e => simp [hdisconnect] at h
      | ok u =>
        simp only [hdisconnect,bind_eq_ok,pure_eq_ok,Outcome.ok.injEq,Prod.mk.injEq,
          Option.some.injEq] at h
        obtain ⟨withObjects,hobjects,value,hvalue,rfl,rfl⟩ := h
        obtain rfl := Store.syncObjects_ok hobjects
        exact ⟨state,tipHeight,row,value,hstored,htip,hrow,hvalue,rfl⟩

theorem Store.restoredHeight_ok {state : ChainState} {value : Option Int64}
    (h : Store.restoredHeight state = ok value) : value = state.tipHeight.map UInt64.toInt64 := by
  unfold Store.restoredHeight at h
  cases htip : state.tipHeight with
  | none =>
    simp only [htip,pure_eq_ok,Outcome.ok.injEq] at h
    exact h.symm
  | some tip =>
    simp only [htip,bind_eq_ok,Store.toI64_eq_ok,pure_eq_ok,Outcome.ok.injEq] at h
    obtain ⟨_,⟨_,rfl⟩,rfl⟩ := h
    rfl

/-- The names of the stored rows are those of the recorded blocks. -/
theorem Records.names {state : ChainState} {blocks : List BlockView} {deltas : List BlockDelta}
    (h : Records P db binding state blocks deltas) :
    db.canonicalBlocks.map BlockRow.name = blocks.map BlockView.name := by
  have hheaders := congrArg (List.map fun header : Header => (⟨header.height.toInt64,header.hash⟩ : BlockName))
    h.row_header
  rw [List.map_map,List.map_map] at hheaders
  refine Eq.trans (List.map_congr_left fun row hrow => ?_) hheaders
  rw [h.rows row hrow]
  rfl

/-- A rollback pops the stack of the stored blocks and logs what it popped. -/
theorem Records.rollback_entry {state restored : ChainState} {blocks : List BlockView}
    {deltas : List BlockDelta} (h : Records P db binding state blocks deltas)
    (hroll : Store.rollbackTip db = ok (db',some restored)) :
    ∃ earlier block, blocks = earlier ++ [block] ∧
      db'.canonicalBlocks.map BlockRow.name = earlier.map BlockView.name ∧
      db'.reorgJournal = db.reorgJournal ++
        [journalRow (block.name,(earlier.map BlockView.name).getLast?)] := by
  obtain ⟨earlier,block,first,delta,last,rfl,rfl,happly,_,hlast,hrestored⟩ := h.rolledBack hroll
  obtain ⟨held,tipHeight,row,value,⟨found,hstored⟩,htip,hrow,hvalue,hjournal⟩ :=
    Store.rollbackTip_entry hroll
  obtain ⟨_,hhash,_,hheight,_,htipHeight,_⟩ := applyBlock_delta happly
  rw [h.stored,Option.some.injEq,ProtocolRow.mk.injEq] at hstored
  obtain ⟨_,rfl⟩ := hstored
  obtain rfl : tipHeight = block.height := Option.some.inj (htip.symm.trans htipHeight)
  obtain ⟨rows,found,_,_,hfound,hfind,_⟩ := h.last_row
  rw [hheight] at hfind
  obtain rfl : found = row := Option.some.inj (hfind.symm.trans hrow)
  refine ⟨earlier,block,rfl,hrestored.names,?_⟩
  obtain ⟨hbelowHeight,hbelowHash⟩ := applyBlocks_tip hrestored.run
  rw [hjournal,Store.restoredHeight_ok hvalue,hfound,hhash,hbelowHeight,hbelowHash,List.getLast?_map]
  simp only [journalRow,Option.map_map]
  rfl

/-- The number of the block below is one less. -/
def Consecutive (row : ReorgRow) : Prop :=
  ∀ height ∈ row.restoredHeight, row.disconnectedHeight.toInt = height.toInt + 1

theorem Records.rollback_consecutive {state : ChainState} {earlier : List BlockView} {block : BlockView}
    {deltas : List BlockDelta} (h : Records P db binding state (earlier ++ [block]) deltas) :
    Consecutive (journalRow (block.name,(earlier.map BlockView.name).getLast?)) := by
  intro height hheight
  rw [Option.mem_def,journalRow,List.getLast?_map,Option.map_map,Option.map_eq_some_iff] at hheight
  obtain ⟨below,hbelow,rfl⟩ := hheight
  have hlinked := applyBlocks_linked h.run
  rw [List.map_append,List.isChain_append] at hlinked
  have hfollows := hlinked.2.2 below.header (by simp [hbelow]) block.header (by simp)
  have hnext : block.height.toNat = below.height.toNat + 1 := hfollows.2
  have htip : state.tipHeight = some block.height := by simpa using (applyBlocks_tip h.run).1
  have hbound := h.stored_tip htip
  change block.height.toInt64.toInt = below.height.toInt64.toInt + 1
  rw [Store.toInt_toInt64 hbound,Store.toInt_toInt64 (by omega),hnext]
  rfl

/-- The tables before and after some transactions, with the moves that these make: only good
blocks are pushed, and the journal only grows. -/
structure Journaled (good : BlockView → Prop) (db db' : Database) (log : Log BlockName)
    (moves : List (Move BlockName)) (log' : Log BlockName) : Prop where
  run : log.run moves = some log'
  journals : Journals db' log'
  good : ∀ name ∈ pushed moves, ∃ block, good block ∧ name = block.name
  appended : ∃ added, db'.reorgJournal = db.reorgJournal ++ added ∧ ∀ row ∈ added, Consecutive row

theorem Journaled.nothing {log : Log BlockName} (h : Journals db log)
    (hblocks : db'.canonicalBlocks = db.canonicalBlocks) (hjournal : db'.reorgJournal = db.reorgJournal) :
    Journaled good db db' log [] log :=
  ⟨rfl,⟨hblocks ▸ h.blocks,hjournal ▸ h.journal⟩,by simp [pushed],[],by simp [hjournal],by simp⟩

theorem Journaled.trans {first second third : Database} {log log' log'' : Log BlockName}
    {moves more : List (Move BlockName)} (h : Journaled good first second log moves log')
    (h' : Journaled good second third log' more log'') :
    Journaled good first third log (moves ++ more) log'' := by
  refine ⟨run_append.mpr ⟨_,h.run,h'.run⟩,h'.journals,?_,?_⟩
  · intro name hname
    rw [pushed_append] at hname
    rcases List.mem_append.mp hname with hold | hnew
    · exact h.good name hold
    · exact h'.good name hnew
  · obtain ⟨added,hadded,hconsecutive⟩ := h.appended
    obtain ⟨later,hlater,hconsecutive'⟩ := h'.appended
    refine ⟨added ++ later,by rw [hlater,hadded,List.append_assoc],?_⟩
    intro row hrow
    rcases List.mem_append.mp hrow with hold | hnew
    · exact hconsecutive row hold
    · exact hconsecutive' row hnew

/-- A committed transaction with its moves: a commit of a block pushes the name of this block, and
a rollback that returns a state pops. -/
inductive CommitMoves (P : Primitives) (good : BlockView → Prop) (db db' : Database) :
    List (Move BlockName) → Prop
  | bound {binding : Binding} {state : ChainState} (h : Store.bindOrLoad P db binding = ok (db',state)) :
      CommitMoves P good db db' []
  | applied {before post : ChainState} {block : BlockView} {delta : BlockDelta} {release : ReleaseIdentity}
      (hgood : good block) (happly : applyBlock P before block = ok (post,.ok delta))
      (hstore : Store.applyBlock db post delta release = ok db') : CommitMoves P good db db' [.push block.name]
  | rolledBack {restored : ChainState} (h : Store.rollbackTip db = ok (db',some restored)) :
      CommitMoves P good db db' [.pop]
  | vacant (h : Store.rollbackTip db = ok (db',none)) : CommitMoves P good db db' []
  | overlaid {transactions : List TxView} (h : Store.replaceMempool db transactions = ok db') :
      CommitMoves P good db db' []

theorem commit_iff_moves : Commit P good db db' ↔ ∃ moves, CommitMoves P good db db' moves := by
  constructor
  · intro h
    cases h with
    | bound h => exact ⟨_,.bound h⟩
    | applied hgood happly hstore => exact ⟨_,.applied hgood happly hstore⟩
    | rolledBack result h =>
      cases result with
      | none => exact ⟨_,.vacant h⟩
      | some restored => exact ⟨_,.rolledBack h⟩
    | overlaid h => exact ⟨_,.overlaid h⟩
  · rintro ⟨moves,h⟩
    cases h with
    | bound h => exact .bound h
    | applied hgood happly hstore => exact .applied hgood happly hstore
    | rolledBack h => exact .rolledBack _ h
    | vacant h => exact .rolledBack _ h
    | overlaid h => exact .overlaid h

/-- Committed transactions one after the other, with the moves of all of them. -/
inductive CommitRun (P : Primitives) (good : BlockView → Prop) (start : Database) :
    List (Move BlockName) → Database → Prop
  | refl : CommitRun P good start [] start
  | tail {middle last : Database} {moves more : List (Move BlockName)}
      (h : CommitRun P good start moves middle) (hlast : CommitMoves P good middle last more) :
      CommitRun P good start (moves ++ more) last

/-- Transactions in any order have moves, and moves belong to transactions. -/
theorem commits_iff_run :
    Relation.ReflTransGen (Commit P good) db db' ↔ ∃ moves, CommitRun P good db moves db' := by
  constructor
  · intro h
    induction h with
    | refl => exact ⟨_,.refl⟩
    | tail _ hcommit ih =>
      obtain ⟨moves,hrun⟩ := ih
      obtain ⟨more,hlast⟩ := commit_iff_moves.mp hcommit
      exact ⟨_,hrun.tail hlast⟩
  · rintro ⟨moves,hrun⟩
    induction hrun with
    | refl => exact .refl
    | tail _ hlast ih => exact ih.tail (commit_iff_moves.mpr ⟨_,hlast⟩)

/-- The moves of one transaction are made on the stack of the stored blocks. -/
theorem Journals.commit {log : Log BlockName} {moves : List (Move BlockName)} (hsound : Sound P good db)
    (h : Journals db log) (hcommit : CommitMoves P good db db' moves) :
    ∃ log', Journaled good db db' log moves log' := by
  cases hcommit with
  | bound hbind =>
    rcases Store.bindOrLoad_ok hbind with ⟨_,rfl⟩ | ⟨_,_,rfl⟩
    · exact ⟨_,.nothing h rfl rfl⟩
    · exact ⟨_,.nothing h rfl rfl⟩
  | overlaid hoverlay =>
    rw [Store.replaceMempool_ok hoverlay]
    exact ⟨_,.nothing h rfl rfl⟩
  | vacant hroll =>
    rcases Store.rollbackTip_ok hroll with ⟨_,_,_,_,_,rfl⟩ | ⟨_,_,_,_,_,_,_,_,hsome,_⟩
    · exact ⟨_,.nothing h rfl rfl⟩
    · simp at hsome
  | @applied before post block delta release hgood happly hstore =>
    obtain ⟨found,hstored,_,rfl⟩ := Store.applyBlock_ok hstore
    obtain ⟨_,hhash,_,hheight,_⟩ := applyBlock_delta happly
    refine ⟨_,rfl,⟨?_,h.journal⟩,?_,[],by simp,by simp⟩
    · rw [List.map_append,h.blocks]
      simp [BlockRow.name,storedBlock,Store.blockRow,BlockView.name,hhash,hheight]
    · intro name hname
      obtain rfl : name = block.name := by simpa [pushed] using hname
      exact ⟨block,hgood,rfl⟩
  | @rolledBack restored hroll =>
    rcases Store.rollbackTip_ok hroll with ⟨_,_,_,_,hnone,_⟩ | ⟨found,held,_,_,_,hstored,_⟩
    · simp at hnone
    obtain ⟨blocks,deltas,hrecords,_⟩ := hsound.records hstored
    obtain ⟨earlier,block,rfl,hblocks,hjournal⟩ := hrecords.rollback_entry hroll
    have hstack : log.stack = earlier.map BlockView.name ++ [block.name] := by
      rw [← h.blocks,hrecords.names]
      simp
    refine ⟨_,run_singleton.trans (step_pop hstack),⟨hblocks,?_⟩,by simp [pushed],_,hjournal,?_⟩
    · rw [hjournal,h.journal]
      simp
    · intro row hrow
      obtain rfl := List.mem_singleton.mp hrow
      exact hrecords.rollback_consecutive

/-- Transactions in any order are a run of the stack. -/
theorem Journals.commits {log : Log BlockName} {moves : List (Move BlockName)} (hdb : Committed P good db)
    (h : Journals db log) (hrun : CommitRun P good db moves db') :
    ∃ log', Journaled good db db' log moves log' := by
  induction hrun with
  | refl => exact ⟨_,.nothing h rfl rfl⟩
  | tail hearlier hlast ih =>
    obtain ⟨middle,hmoves⟩ := ih
    have hmiddle : Committed P good _ := hdb.trans (commits_iff_run.mpr ⟨_,hearlier⟩)
    obtain ⟨last,hmore⟩ := hmoves.journals.commit hmiddle.sound hlast
    exact ⟨_,hmoves.trans hmore⟩

/-- From any database that the writers leave behind to any later one, the journal only grows,
by rows that name consecutive heights; and of the blocks ever committed, as often as they
were, each is stored or has its row in the journal, whose newest rows are served first. Every
run of transactions has such moves, and the moves are those of its commits and rollbacks. -/
theorem reorg_journal_complete :
    (Committed P good db → Relation.ReflTransGen (Commit P good) db db' →
      ∃ moves more, CommitRun P good Database.empty moves db ∧ CommitRun P good db more db') ∧
    ∀ moves more, CommitRun P good Database.empty moves db → CommitRun P good db more db' →
      ∃ log log', Journaled good Database.empty db Log.empty moves log ∧
        Journaled good db db' log more log' ∧
        (pushed (moves ++ more)).Perm
          (db'.canonicalBlocks.map BlockRow.name ++ db'.reorgJournal.map ReorgRow.disconnected) ∧
        Store.reorgs db' = (log'.undone.reverse.take 200).map journalRow ∧
        ∀ row ∈ db'.reorgJournal, Consecutive row := by
  constructor
  · intro h hlater
    obtain ⟨moves,hmoves⟩ := commits_iff_run.mp h
    obtain ⟨more,hmore⟩ := commits_iff_run.mp hlater
    exact ⟨moves,more,hmoves,hmore⟩
  intro moves more hfirst hlater
  have hempty : Journals Database.empty Log.empty := ⟨rfl,rfl⟩
  have hdb : Committed P good db := commits_iff_run.mpr ⟨moves,hfirst⟩
  obtain ⟨log,hmoves⟩ := hempty.commits .refl hfirst
  obtain ⟨log',hmore⟩ := hmoves.journals.commits hdb hlater
  have hall := hmoves.trans hmore
  refine ⟨log,log',hmoves,hmore,?_,?_,?_⟩
  · have hperm := pushed_perm hall.run
    rw [hall.journals.blocks,hall.journals.journal,List.map_map]
    exact hperm
  · rw [Store.reorgs,hall.journals.journal,← List.map_reverse,List.map_take]
  · obtain ⟨added,hadded,hconsecutive⟩ := hall.appended
    rw [hadded]
    exact hconsecutive

section Sample

/-- The sample deployment with its last block taken back. -/
theorem sample_journal : ∃ db db' moves,
    CommitRun bitcoinPrimitives (fun block => block ∈ sampleBlocks) Database.empty moves db ∧
    CommitRun bitcoinPrimitives (fun block => block ∈ sampleBlocks) db [.pop] db' ∧
    db'.reorgJournal ≠ [] ∧ (∀ row ∈ db'.reorgJournal, Consecutive row) ∧
    (pushed (moves ++ [.pop])).Perm
      (db'.canonicalBlocks.map BlockRow.name ++ db'.reorgJournal.map ReorgRow.disconnected) := by
  obtain ⟨db,final,deltas,hcommitted,hrecords,_⟩ := sample_stored
  rw [sampleBlocks_created] at hrecords
  obtain ⟨db',restored,hroll⟩ := hrecords.rollbackTip_commits
  obtain ⟨_,block,_,_,hjournal⟩ := hrecords.rollback_entry hroll
  obtain ⟨moves,_,hmoves,_⟩ := reorg_journal_complete.1 hcommitted .refl
  have hpop : CommitRun bitcoinPrimitives (fun block => block ∈ sampleBlocks) db [.pop] db' :=
    .tail .refl (.rolledBack hroll)
  obtain ⟨_,_,_,_,hperm,_,hconsecutive⟩ := reorg_journal_complete.2 moves [.pop] hmoves hpop
  exact ⟨db,db',moves,hmoves,hpop,by simp [hjournal],hconsecutive,hperm⟩

end Sample
end TandemVerifier
