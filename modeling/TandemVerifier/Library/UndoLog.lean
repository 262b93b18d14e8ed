import Mathlib.Data.List.Induction
import Mathlib.Data.List.Perm.Basic

/-! # A stack with a log of what was taken off it

Elements are pushed and popped in any order, and every pop is recorded with the element
that it uncovered. The log only grows, and nothing is lost: an element that was ever pushed
is still on the stack or has exactly one entry of the log.
-/
namespace TandemVerifier.Library.UndoLog
variable {α : Type}

inductive Move (α : Type) where
  | push (a : α)
  | pop

/-- A stack, its top last, and the popped elements with what they uncovered. -/
structure Log (α : Type) where
  stack : List α
  undone : List (α × Option α)

def Log.empty : Log α := ⟨[],[]⟩

def Log.step (log : Log α) : Move α → Option (Log α)
  | .push a => some ⟨log.stack ++ [a],log.undone⟩
  | .pop => log.stack.getLast?.map fun top =>
    ⟨log.stack.dropLast,log.undone ++ [(top,log.stack.dropLast.getLast?)]⟩

def Log.run (log : Log α) : List (Move α) → Option (Log α)
  | [] => some log
  | move :: rest => (log.step move).bind fun next => next.run rest

/-- The pushed elements, in order. -/
def pushed (moves : List (Move α)) : List α :=
  moves.filterMap fun
    | .push a => some a
    | .pop => none

variable {log log' : Log α} {moves : List (Move α)} {move : Move α}

theorem run_append {more : List (Move α)} : log.run (moves ++ more) = some log' ↔
    ∃ middle, log.run moves = some middle ∧ middle.run more = some log' := by
  induction moves generalizing log with
  | nil => simp [Log.run]
  | cons first rest ih =>
    simp only [List.cons_append,Log.run,Option.bind_eq_some_iff,ih]
    constructor
    · rintro ⟨next,hnext,middle,hmiddle,hlast⟩
      exact ⟨middle,⟨next,hnext,hmiddle⟩,hlast⟩
    · rintro ⟨middle,⟨next,hnext,hmiddle⟩,hlast⟩
      exact ⟨next,hnext,middle,hmiddle,hlast⟩

theorem run_singleton : log.run [move] = log.step move := by
  simp [Log.run]

theorem pushed_append {more : List (Move α)} : pushed (moves ++ more) = pushed moves ++ pushed more :=
  List.filterMap_append

theorem step_pop {earlier : List α} {top : α} (h : log.stack = earlier ++ [top]) :
    log.step .pop = some ⟨earlier,log.undone ++ [(top,earlier.getLast?)]⟩ := by
  simp [Log.step,h]

/-- What was pushed is on the stack or in the log, each time it was pushed. -/
theorem pushed_perm (h : Log.empty.run moves = some log) :
    (pushed moves).Perm (log.stack ++ log.undone.map Prod.fst) := by
  induction moves using List.reverseRecOn generalizing log with
  | nil =>
    obtain rfl := Option.some.inj h
    exact .refl _
  | append_singleton earlier move ih =>
    obtain ⟨middle,hmiddle,hstep⟩ := run_append.mp h
    rw [run_singleton] at hstep
    have hbefore := ih hmiddle
    cases move with
    | push a =>
      obtain rfl := Option.some.inj hstep
      rw [pushed_append,List.append_assoc]
      refine (hbefore.append_right [a]).trans ?_
      rw [List.append_assoc]
      exact List.perm_append_comm.append_left _
    | pop =>
      obtain ⟨top,htop,rfl⟩ := Option.map_eq_some_iff.mp hstep
      have hpushed : pushed (earlier ++ [.pop]) = pushed earlier := by simp [pushed]
      have hstack := List.dropLast_append_getLast? top htop
      rw [hpushed]
      rw [← hstack,List.append_assoc] at hbefore
      refine hbefore.trans (List.Perm.append_left _ ?_)
      rw [List.map_append]
      exact List.perm_append_comm

end TandemVerifier.Library.UndoLog
