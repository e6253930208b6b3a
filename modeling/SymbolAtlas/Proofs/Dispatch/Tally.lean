import Mathlib.Data.String.Basic
import SymbolAtlas.Dispatch.Collector
import SymbolAtlas.Proofs.Ascending

/-!
# Counting in any order

Outcomes may be counted in any order (`recordAll_perm`), and actions with both successes and
failures at any time in between (`recordAll_addPartials`).
-/

namespace SymbolAtlas

theorem OutcomeCount.add_comm (count : OutcomeCount) (first second : Option String) :
    (count.add first).add second = (count.add second).add first := by
  cases first with
  | none => cases second <;> rfl
  | some first =>
    cases second with
    | none => rfl
    | some second =>
      by_cases h : first = second
      · rw [h]
      · simp only [OutcomeCount.add, OutcomeCount.mk.injEq, true_and]
        exact Ascending.adjust_comm (Ne.symm h) _

namespace Tally

theorem record_comm (tally : Tally) (first second : Resolved) :
    (tally.record first.1 first.2).record second.1 second.2 =
      (tally.record second.1 second.2).record first.1 first.2 := by
  obtain ⟨language, outcome⟩ := first
  obtain ⟨language', outcome'⟩ := second
  cases outcome <;> cases outcome' <;> simp only [record] <;> rw [OutcomeCount.add_comm]

/-- The order in which outcomes are counted does not matter. -/
theorem recordAll_perm {resolved resolved' : List Resolved} (h : resolved.Perm resolved')
    (tally : Tally) : tally.recordAll resolved = tally.recordAll resolved' :=
  h.foldl_eq' (fun first _ second _ tally => record_comm tally first second) tally

theorem recordAll_append (tally : Tally) (resolved resolved' : List Resolved) :
    tally.recordAll (resolved ++ resolved') = (tally.recordAll resolved).recordAll resolved' :=
  List.foldl_append

/-- Count several actions with both successes and failures. -/
def addPartials (n : Nat) (tally : Tally) : Tally := { tally with partials := tally.partials + n }

@[simp] theorem addPartials_addPartials (n k : Nat) (tally : Tally) :
    (tally.addPartials n).addPartials k = tally.addPartials (n + k) := by
  simp [addPartials, Nat.add_assoc]

theorem recordAll_addPartials (tally : Tally) (resolved : List Resolved) (n : Nat) :
    (tally.addPartials n).recordAll resolved = (tally.recordAll resolved).addPartials n := by
  induction resolved generalizing tally with
  | nil => rfl
  | cons first rest ih =>
    obtain ⟨language, outcome⟩ := first
    have hrecord : (tally.addPartials n).record language outcome =
        (tally.record language outcome).addPartials n := by cases outcome <;> rfl
    exact (congrArg (recordAll rest) hrecord).trans (ih _)

/-- The number of outcomes that were counted. -/
def total (tally : Tally) : Nat :=
  tally.succeeded.total + tally.failed.total + tally.deferred.total

theorem total_record (tally : Tally) (language : Option String) (outcome : Outcome) :
    (tally.record language outcome).total = tally.total + 1 := by
  cases outcome <;> simp only [record, total, OutcomeCount.add] <;> omega

theorem total_recordAll (tally : Tally) (resolved : List Resolved) :
    (tally.recordAll resolved).total = tally.total + resolved.length := by
  induction resolved generalizing tally with
  | nil => rfl
  | cons first rest ih =>
    calc ((tally.record first.1 first.2).recordAll rest).total
        = (tally.record first.1 first.2).total + rest.length := ih _
      _ = tally.total + (rest.length + 1) := by rw [total_record]; omega

@[simp] theorem total_addPartials (tally : Tally) (n : Nat) :
    (tally.addPartials n).total = tally.total := rfl

end Tally

end SymbolAtlas
