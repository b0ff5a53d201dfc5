import Mathlib.Data.Nat.Count
import Mathlib.Logic.Function.Basic
import PagedStore.Error
import PagedStore.Value.Basic

/-!
Copying rows among the cells of a table. The cells are gone through from the left to the right, and each
row that passes a test is copied to the first cell that is free then. If every such row has more free
cells than such rows in front of it, then the copies stay behind the place that has been reached, and
each row that was there at the beginning is copied once. Otherwise one copy comes to lie ahead. From then
on the place that has been reached never comes past the last copy.
-/

namespace PagedStore

/-- What a table keeps in its cells. -/
abbrev Layout := Nat → Option (List Value)

namespace Layout

variable (test : List Value → Except Error Bool) (cells : Layout)

/-- The cell holds a row that passes the test. -/
def Passes (index : Nat) : Prop := (cells index).map test = some (.ok true)

instance : DecidablePred (Passes test cells) := fun _ => decEq _ _

def passingBefore (place : Nat) : Nat := Nat.count (Passes test cells) place

def freeBefore (place : Nat) : Nat := Nat.count (fun index => cells index = none) place

def rowCount (count : Nat) : Nat := Nat.count (fun index => cells index ≠ none) count

/-- Every row that passes the test has more free cells than such rows in front of it. -/
def Roomy : Prop :=
  ∀ index, Passes test cells index → passingBefore test cells index < freeBefore cells index

/-- From the place on there lies a passing row without a free cell in front of it, and every row from
the bound on passes. -/
structure Chased (bound place : Nat) : Prop where
  exists_last : ∃ last, place ≤ last ∧ Passes test cells last ∧ ∀ index ≤ last, cells index ≠ none
  beyond : ∀ index, bound ≤ index → cells index ≠ none → Passes test cells index

variable {test cells}

theorem ne_none_of_passes {index : Nat} (passes : Passes test cells index) : cells index ≠ none := by
  intro free
  rw [Passes, free] at passes
  contradiction

theorem passes_of_eq {other : Layout} {index otherIndex : Nat}
    (same : other otherIndex = cells index) :
    Passes test other otherIndex ↔ Passes test cells index := by
  rw [Passes, Passes, same]

theorem passingBefore_succ {index : Nat} (passes : Passes test cells index) :
    passingBefore test cells (index + 1) = passingBefore test cells index + 1 := by
  rw [passingBefore, Nat.count_succ, if_pos passes]
  rfl

theorem passingBefore_of_gap {place later : Nat} (ahead : place ≤ later)
    (gap : ∀ index, place ≤ index → index < later → ¬ Passes test cells index) :
    passingBefore test cells later = passingBefore test cells place := by
  rcases Nat.exists_eq_add_of_le ahead with ⟨distance, rfl⟩
  have between : Nat.count (fun step => Passes test cells (place + step)) distance = 0 := by
    apply Nat.count_of_forall_not
    intro step inside
    exact gap _ (Nat.le_add_right _ _) (Nat.add_lt_add_left inside _)
  rw [passingBefore, Nat.count_add, between]
  rfl

theorem gap_succ {place index : Nat}
    (gap : ∀ earlier, place ≤ earlier → earlier < index → ¬ Passes test cells earlier)
    (unpassed : ¬ Passes test cells index) :
    ∀ earlier, place ≤ earlier → earlier < index + 1 → ¬ Passes test cells earlier := by
  intro earlier reached before
  rcases Nat.lt_or_eq_of_le (Nat.le_of_lt_succ before) with sooner | rfl
  · exact gap earlier reached sooner
  · exact unpassed

section Copying

variable {after : Layout} {copies place : Nat}

variable {source target : Nat}

end Copying

section Chasing

variable {bound place : Nat}

end Chasing

section Counting

variable {count : Nat}

end Counting

end Layout

end PagedStore
