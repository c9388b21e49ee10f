/-
# Waiting for a process

Waiting goes from look to look for as long as the process is running. So what counts is the first
look that finds something else: a process that has ended by then was in time, however long it was
silent before. It is stopped only if not one of the looks found that it had ended, the look at
the limit included.
-/

import Offside.Run.Program

namespace Offside

namespace Child

variable {child : Child} {left look passed : Nat}

/-- The first `passed` looks, the first of them the one with the number `look`, find that the
process is running. -/
def RunsThrough (child : Child) (look passed : Nat) : Prop :=
  ∀ k < passed, child.status (look + k) = .ok none

theorem runsThrough_succ_iff :
    child.RunsThrough look (passed + 1) ↔
      child.status look = .ok none ∧ child.RunsThrough (look + 1) passed := by
  constructor
  · intro hruns
    refine ⟨hruns 0 (Nat.succ_pos passed), fun k hk => ?_⟩
    rw [Nat.add_assoc, Nat.add_comm 1 k]
    exact hruns (k + 1) (Nat.succ_lt_succ hk)
  · rintro ⟨hfirst, hruns⟩ k hk
    cases k with
    | zero => exact hfirst
    | succ k =>
        have hlater := hruns k (Nat.lt_of_succ_lt_succ hk)
        rwa [Nat.add_assoc, Nat.add_comm 1 k] at hlater

theorem wait_of_running (hrunning : child.status look = .ok none) :
    child.wait (left + 1) look = child.wait left (look + 1) := by
  rw [wait.eq_def, hrunning]

/-- Looks that find the process running lead to the next one. -/
theorem wait_of_runsThrough (hruns : child.RunsThrough look passed) :
    child.wait (left + passed) look = child.wait left (look + passed) := by
  induction passed generalizing look with
  | zero => rfl
  | succ passed ih =>
      obtain ⟨hfirst, hruns⟩ := runsThrough_succ_iff.mp hruns
      rw [← Nat.add_assoc, wait_of_running hfirst, ih hruns, Nat.add_assoc, Nat.add_comm 1 passed]

/-- A process that is found to have ended was in time, and it is known whether it succeeded. -/
theorem wait_of_ended (hruns : child.RunsThrough look passed) {success : Bool}
    (hended : child.status (look + passed) = .ok (some success)) :
    child.wait (left + passed) look =
      (if success then .succeeded else .failed, look + passed) := by
  rw [wait_of_runsThrough hruns, wait.eq_def, hended]

/-- A process that every look finds running is stopped at the last one. -/
theorem wait_of_runsThrough_all (hruns : child.RunsThrough look (left + 1))
    (hstop : child.stop (look + left) = .ok ()) :
    child.wait left look = (.stopped, look + left) := by
  have hbefore : child.RunsThrough look left := fun k hk => hruns k (Nat.lt_succ_of_lt hk)
  have hlast : child.status (look + left) = .ok none := hruns left (Nat.lt_succ_self left)
  have hwait := @wait_of_runsThrough child 0 look left hbefore
  rw [Nat.zero_add] at hwait
  rw [hwait, wait.eq_def]
  simp only [hlast, hstop]

theorem status_of_wait_eq_stopped {last : Nat} (hstopped : child.wait left look = (.stopped, last)) :
    child.status look = .ok none := by
  rw [wait.eq_def] at hstopped
  rcases hstatus : child.status look with reason | ⟨⟩ | success
  · rw [hstatus] at hstopped
    cases hstopped
  · rfl
  · rw [hstatus] at hstopped
    cases success <;> cases hstopped

/-- No other process is stopped. -/
theorem runsThrough_of_wait_eq_stopped {last : Nat}
    (hstopped : child.wait left look = (.stopped, last)) : child.RunsThrough look (left + 1) := by
  have hrunning := status_of_wait_eq_stopped hstopped
  rw [runsThrough_succ_iff]
  induction left generalizing look with
  | zero => exact ⟨hrunning, fun k hk => absurd hk (Nat.not_lt_zero k)⟩
  | succ left ih =>
      rw [wait_of_running hrunning] at hstopped
      exact ⟨hrunning, runsThrough_succ_iff.mpr (ih hstopped (status_of_wait_eq_stopped hstopped))⟩

/-- The last look is the first one that is not in front of the limit. -/
theorem looksBefore_bounds (limit : Nat) :
    limit ≤ looksBefore limit * pollInterval ∧
      looksBefore limit * pollInterval < limit + pollInterval := by
  unfold looksBefore pollInterval
  omega

end Child

end Offside
