import SymbolAtlas.Proofs.Dispatch.Units
import SymbolAtlas.Proofs.Outcome.Polling

/-!
# One joint result and many results

A unit may wait for one result for each of its sources, or for a single one that joins them. Both
units ask the same handles, and what the first has taken is what the join has kept.

- **Children of a join** (`Handle.unanswered`, `Handle.answers`): those that have not answered, and
  what the others have. A poll of the join does to them what a poll of the unit with many results
  does to these (`askAll_pollChildren`).
- **Units side by side** (`Unfinished.Joins`): a poll leaves both waiting, side by side as before,
  or it was the last one of both, and then the joint result is the worst of all that were taken
  (`Joins.poll`). At any time the joint result is there when all the others are (`Joins.resolved`),
  and comes to the worst of them (`Joins.outcomes`).
- **Counts side by side** (`Tally.Apart`): two counts that differ in the results of one unit only.
-/

namespace SymbolAtlas

namespace Outcome

/-- The worst does not depend on the order. -/
theorem worstAmong_perm {outcomes outcomes' : List Outcome} (h : outcomes.Perm outcomes') :
    worstAmong outcomes = worstAmong outcomes' := by
  simp only [worstAmong, h.mem_iff]

end Outcome

/-! ## Children of a join -/

namespace Handle

variable {channels : Channels} {children : List (Handle × Option Outcome)} {handle : Handle}
  {outcome : Outcome}

/-- The children that have not answered. -/
def unanswered (children : List (Handle × Option Outcome)) : List Handle :=
  children.filterMap fun child => if child.2.isNone then some child.1 else none

/-- What the other children have answered. -/
def answers (children : List (Handle × Option Outcome)) : List Outcome :=
  children.filterMap Prod.snd

@[simp] theorem unanswered_nil : unanswered [] = [] := rfl

@[simp] theorem unanswered_cons_none :
    unanswered ((handle, none) :: children) = handle :: unanswered children := rfl

@[simp] theorem unanswered_cons_some :
    unanswered ((handle, some outcome) :: children) = unanswered children := rfl

@[simp] theorem answers_nil : answers [] = [] := rfl

@[simp] theorem answers_cons_none :
    answers ((handle, none) :: children) = answers children := rfl

@[simp] theorem answers_cons_some :
    answers ((handle, some outcome) :: children) = outcome :: answers children := rfl

/-- No child of a new join has answered. -/
theorem unanswered_new (handles : List Handle) :
    unanswered (handles.map fun h => (h, none)) = handles := by
  induction handles with
  | nil => rfl
  | cons handle rest ih => simp [ih]

theorem answers_new (handles : List Handle) : answers (handles.map fun h => (h, none)) = [] := by
  induction handles with
  | nil => rfl
  | cons handle rest ih => simp [ih]

/-- A join takes the answer of a child as a unit takes a result. -/
theorem childOutcome_done (result : Except HandleError Outcome) :
    (Poll.done result).childOutcome = some (Unfinished.countedAs result) := by
  cases result <;> rfl

theorem resolvedChildren_eq (channels : Channels) (children : List (Handle × Option Outcome)) :
    resolvedChildren channels children = (unanswered children).all (resolved channels) := by
  induction children with
  | nil => simp [resolvedChildren]
  | cons child rest ih =>
    obtain ⟨handle, _ | outcome⟩ := child <;> simp [resolvedChildren, ih]

/-- The children come to what they have answered and will answer. -/
theorem valueChildren_perm (channels : Channels) (children : List (Handle × Option Outcome)) :
    (valueChildren channels children).Perm
      (answers children ++
        (unanswered children).map fun h => Unfinished.countedAs (h.value channels)) := by
  induction children with
  | nil => simp [valueChildren]
  | cons child rest ih =>
    obtain ⟨handle, _ | outcome⟩ := child
    · rw [valueChildren_cons_none, childOutcome_done, Option.getD_some, answers_cons_none,
        unanswered_cons_none, List.map_cons]
      exact (ih.cons _).trans List.perm_middle.symm
    · rw [valueChildren, answers_cons_some, unanswered_cons_some, List.cons_append]
      exact ih.cons _

/-- A join has its outcome once no child is left that has not answered. -/
theorem joint?_eq (children : List (Handle × Option Outcome)) :
    joint? children =
      if (unanswered children).isEmpty then some (Outcome.worstAmong (answers children))
      else none := by
  have hanswers : children.mapM Prod.snd =
      if (unanswered children).isEmpty then some (answers children) else none := by
    induction children with
    | nil => rfl
    | cons child rest ih =>
      obtain ⟨handle, _ | outcome⟩ := child
      · simp
      · rw [List.mapM_cons, ih, unanswered_cons_some, answers_cons_some]
        split <;> rfl
  rw [joint?, hanswers]
  split
  · rw [Option.map_some, Outcome.worstOf_eq]
  · rfl

/-- Results of their own and children of a join with the same handles are polled alike. -/
theorem askAll_pollChildren (channels : Channels) {results : List PendingResult}
    (h : results.map PendingResult.handle = unanswered children) :
    (Unfinished.askAll channels results).1.map PendingResult.handle =
        unanswered (pollChildren channels children) ∧
      (answers children ++ (Unfinished.askAll channels results).2.map Prod.snd).Perm
        (answers (pollChildren channels children)) := by
  induction children generalizing results with
  | nil =>
    rw [unanswered_nil, List.map_eq_nil_iff] at h
    subst h
    simp [Unfinished.askAll, pollChildren]
  | cons child rest ih =>
    obtain ⟨handle, _ | outcome⟩ := child
    · rw [unanswered_cons_none] at h
      obtain ⟨result, others, rfl, rfl, hothers⟩ := List.map_eq_cons_iff.mp h
      obtain ⟨hwaiting, hanswers⟩ := ih hothers
      simp only [Unfinished.askAll, pollChildren]
      rcases result.handle.poll channels with ⟨handle, _ | answer⟩
      · exact ⟨congrArg (handle :: ·) hwaiting, hanswers⟩
      · rw [childOutcome_done]
        exact ⟨hwaiting, List.perm_middle.trans (hanswers.cons _)⟩
    · obtain ⟨hwaiting, hanswers⟩ := ih h
      simp only [pollChildren, unanswered_cons_some, answers_cons_some]
      exact ⟨hwaiting, hanswers.cons _⟩

end Handle

/-! ## Units side by side -/

/-- Outcomes with both successes and failures. -/
def mixed (outcomes : List Resolved) : Bool :=
  0 < outcomes.countP (fun r => r.2 = .success) && 0 < outcomes.countP (fun r => r.2 = .fail)

/-- A single outcome is not mixed. -/
theorem mixed_single (outcome : Resolved) : mixed [outcome] = false := by
  obtain ⟨language, _ | _ | _⟩ := outcome <;> rfl

/-- How a unit was split: the languages of its results, and that of the joint result. -/
structure Split where
  languages : List (Option String)
  first : Option String

/-- The outcomes of a unit that was split, together. -/
def Split.joint (split : Split) (outcomes : List Resolved) : Resolved :=
  (split.first, Outcome.worstAmong (outcomes.map Prod.snd))

namespace Unfinished

variable {channels : Channels} {split : Split} {taken : List Resolved} {each whole : Unfinished}

/-- The second unit waits for one result that joins those of the first, of which some were taken
before. -/
structure Joins (each : Unfinished) (split : Split) (taken : List Resolved) (whole : Unfinished) :
    Prop where
  action : whole.action = each.action
  joint : ∃ children, whole.results = [⟨.joined children, split.first⟩] ∧
    each.results.map PendingResult.handle = Handle.unanswered children ∧
    (taken.map Prod.snd).Perm (Handle.answers children)
  languages : (taken.map Prod.fst ++ each.results.map PendingResult.language).Perm split.languages
  counted : each.succeeded = taken.countP (fun r => r.2 = .success) ∧
    each.failed = taken.countP (fun r => r.2 = .fail)
  uncounted : whole.succeeded = 0 ∧ whole.failed = 0

theorem poll_eq (channels : Channels) (work : Unfinished) :
    work.poll channels =
      ({ work with
          results := (askAll channels work.results).1
          succeeded := work.succeeded +
            (askAll channels work.results).2.countP fun r => r.2 = .success
          failed := work.failed +
            (askAll channels work.results).2.countP fun r => r.2 = .fail },
        (askAll channels work.results).2) := by
  simp only [poll, foldl_note]

theorem drained_eq (channels : Channels) (work : Unfinished) :
    work.drained channels =
      { work with
        results := []
        succeeded := work.succeeded + (work.outcomes channels).countP fun r => r.2 = .success
        failed := work.failed + (work.outcomes channels).countP fun r => r.2 = .fail } := by
  simp only [drained, foldl_note]

theorem map_language_askAll (channels : Channels) (results : List PendingResult) :
    ((askAll channels results).2.map Prod.fst ++
      (askAll channels results).1.map PendingResult.language).Perm
        (results.map PendingResult.language) := by
  induction results with
  | nil => exact .refl _
  | cons result rest ih =>
    simp only [askAll]
    rcases result.handle.poll channels with ⟨handle, _ | answer⟩
    · exact List.perm_middle.trans (ih.cons _)
    · exact ih.cons _

/-- Both units are at their end: all outcomes of the first, and the joint one of the second. -/
structure Ends (each : Unfinished) (split : Split) (outcomes last : List Resolved)
    (whole : Unfinished) : Prop where
  action : whole.action = each.action
  languages : (outcomes.map Prod.fst).Perm split.languages
  isPartial : each.isPartial = mixed outcomes
  single : last = [split.joint outcomes] ∧ whole.isPartial = false

/-- Handles of their own and their join are side by side. -/
theorem Joins.new {results : List PendingResult} (h : results ≠ []) (action : Int)
    (first : Option String) :
    Joins { action, results } ⟨results.map PendingResult.language, first⟩ []
      { action, results := [⟨.join (results.map PendingResult.handle), first⟩] } where
  action := rfl
  joint := by
    refine ⟨(results.map PendingResult.handle).map fun h => (h, none), ?_, ?_, ?_⟩
    · simp [Handle.join, h]
    · rw [Handle.unanswered_new]
    · rw [Handle.answers_new, List.map_nil]
  languages := .refl _
  counted := ⟨rfl, rfl⟩
  uncounted := ⟨rfl, rfl⟩

/-- A poll leaves both units waiting, or it was the last one for both. -/
theorem Joins.poll (h : Joins each split taken whole) (channels : Channels) :
    ((each.poll channels).1.isComplete = false ∧ (whole.poll channels).1.isComplete = false ∧
      (whole.poll channels).2 = [] ∧
      (each.poll channels).1.Joins split (taken ++ (each.poll channels).2)
        (whole.poll channels).1) ∨
    ((each.poll channels).1.isComplete = true ∧ (whole.poll channels).1.isComplete = true ∧
      (each.poll channels).1.Ends split (taken ++ (each.poll channels).2)
        (whole.poll channels).2 (whole.poll channels).1) := by
  obtain ⟨children, hresults, hhandles, hanswers⟩ := h.joint
  obtain ⟨hwaiting, hnew⟩ := Handle.askAll_pollChildren channels hhandles
  have hlanguages : ((taken ++ (askAll channels each.results).2).map Prod.fst ++
      (askAll channels each.results).1.map PendingResult.language).Perm split.languages := by
    rw [List.map_append, List.append_assoc]
    exact ((map_language_askAll channels each.results).append_left _).trans h.languages
  have houtcomes : ((taken ++ (askAll channels each.results).2).map Prod.snd).Perm
      (Handle.answers (Handle.pollChildren channels children)) := by
    rw [List.map_append]
    exact (hanswers.append_right _).trans hnew
  have hcounted := h.counted
  have huncounted := h.uncounted
  simp only [poll_eq, hresults, askAll, Handle.poll, Handle.joint?_eq, ← hwaiting, isComplete,
    List.isEmpty_map]
  cases hleft : (askAll channels each.results).1.isEmpty with
  | false =>
    refine .inl ⟨rfl, rfl, rfl, h.action, ⟨_, rfl, hwaiting, houtcomes⟩, hlanguages, ?_, ?_⟩
    · simp [hcounted]
    · simpa using huncounted
  | true =>
    rw [List.isEmpty_iff.mp hleft, List.map_nil, List.append_nil] at hlanguages
    refine .inr ⟨rfl, rfl, h.action, hlanguages, ?_, ?_, ?_⟩
    · simp only [isPartial, mixed, hcounted.1, hcounted.2, List.countP_append]
    · simp only [countedAs, Split.joint, ← Outcome.worstAmong_perm houtcomes, if_true]
    · simp only [isPartial, if_true, huncounted, Nat.zero_add]
      exact mixed_single _

theorem Joins.isComplete_poll (h : Joins each split taken whole) (channels : Channels) :
    (whole.poll channels).1.isComplete = (each.poll channels).1.isComplete := by
  rcases h.poll channels with ⟨hleft, hleft', -⟩ | ⟨hdone, hdone', -⟩
  · rw [hleft, hleft']
  · rw [hdone, hdone']

/-- The joint result is there when all the others are. -/
theorem Joins.resolved (h : Joins each split taken whole) (channels : Channels) :
    whole.resolved channels = each.resolved channels := by
  obtain ⟨children, hresults, hhandles, -⟩ := h.joint
  rw [Unfinished.resolved, Unfinished.resolved, hresults, List.all_cons, List.all_nil,
    Bool.and_true, Handle.resolved, Handle.resolvedChildren_eq, ← hhandles, List.all_map]
  rfl

/-- The joint result comes to the worst of the others. -/
theorem Joins.outcomes (h : Joins each split taken whole) (channels : Channels) :
    whole.outcomes channels = [split.joint (taken ++ each.outcomes channels)] := by
  obtain ⟨children, hresults, hhandles, hanswers⟩ := h.joint
  have houtcomes : ((taken ++ each.outcomes channels).map Prod.snd).Perm
      (Handle.valueChildren channels children) := by
    refine List.Perm.trans ?_ (Handle.valueChildren_perm channels children).symm
    rw [List.map_append, ← hhandles, List.map_map]
    refine (hanswers.append_right _).trans (.of_eq ?_)
    simp [Unfinished.outcomes, PendingResult.outcome]
  rw [Unfinished.outcomes, hresults, Split.joint, Outcome.worstAmong_perm houtcomes]
  simp [PendingResult.outcome, Handle.value, countedAs, Outcome.worstOf_eq]

/-- Once all results are taken, both units are at their end. -/
theorem Joins.drained (h : Joins each split taken whole) (channels : Channels) :
    (each.drained channels).Ends split (taken ++ each.outcomes channels)
      (whole.outcomes channels) (whole.drained channels) := by
  simp only [drained_eq, h.outcomes channels]
  refine ⟨h.action, ?_, ?_, rfl, ?_⟩
  · refine List.Perm.trans (.of_eq ?_) h.languages
    simp [Unfinished.outcomes, PendingResult.outcome]
  · simp only [isPartial, mixed, h.counted.1, h.counted.2, List.countP_append]
  · simp only [isPartial, h.uncounted.1, h.uncounted.2, Nat.zero_add]
    exact mixed_single _

end Unfinished

/-! ## Counts side by side -/

namespace Tally

variable {split : Option Split} {pair : Option (Unfinished × Unfinished)} {tally tally' : Tally}

/-- Two counts of the same outcomes, but for those of one unit that was split: the first counts each
of its results when it is taken, and the second the joint one at the end. While the unit is there,
the pair is what is left of it in both. -/
inductive Apart : Option Split → Option (Unfinished × Unfinished) → Tally → Tally → Prop where
  /-- no unit was split -/
  | same (common : Tally) : Apart none none common common
  | held {split : Split} {taken : List Resolved} {each whole : Unfinished} (common : Tally)
      (hjoins : each.Joins split taken whole) :
      Apart (some split) (some (each, whole)) (common.recordAll taken) common
  | ended {split : Split} {outcomes : List Resolved} (common : Tally)
      (hlanguages : (outcomes.map Prod.fst).Perm split.languages) :
      Apart (some split) none
        ((common.recordAll outcomes).addPartials (if mixed outcomes then 1 else 0))
        (common.recordAll [split.joint outcomes])

/-- While a unit that was split is there, its outcomes so far are what sets the counts apart. -/
theorem Apart.of_some {each whole : Unfinished}
    (h : Apart split (some (each, whole)) tally tally') :
    ∃ split' taken, split = some split' ∧ each.Joins split' taken whole ∧
      tally = tally'.recordAll taken := by
  cases h with
  | held common hjoins => exact ⟨_, _, rfl, hjoins, rfl⟩

theorem Apart.of_unsplit (h : Apart none pair tally tally') : pair = none ∧ tally = tally' := by
  cases h with
  | same => exact ⟨rfl, rfl⟩

theorem Apart.of_none {split : Split} (h : Apart (some split) none tally tally') :
    ∃ (common : Tally) (outcomes : List Resolved),
      (outcomes.map Prod.fst).Perm split.languages ∧
      tally = (common.recordAll outcomes).addPartials (if mixed outcomes then 1 else 0) ∧
      tally' = common.recordAll [split.joint outcomes] := by
  cases h with
  | ended common hlanguages => exact ⟨common, _, hlanguages, rfl, rfl⟩

/-- Both count the same. -/
theorem Apart.advance (h : Apart split pair tally tally') (outcomes : List Resolved) (n : Nat) :
    Apart split pair ((tally.recordAll outcomes).addPartials n)
      ((tally'.recordAll outcomes).addPartials n) := by
  have hcomm : ∀ (common : Tally) (others : List Resolved),
      ((common.recordAll others).recordAll outcomes).addPartials n =
        ((common.recordAll outcomes).addPartials n).recordAll others := by
    intro common others
    rw [recordAll_addPartials, ← recordAll_append, ← recordAll_append,
      recordAll_perm List.perm_append_comm]
  cases h with
  | same => exact .same _
  | held common hjoins =>
    rw [hcomm]
    exact .held _ hjoins
  | ended common hlanguages =>
    rw [recordAll_addPartials, addPartials_addPartials, Nat.add_comm, ← addPartials_addPartials,
      hcomm, hcomm]
    exact .ended _ hlanguages

/-- A unit that was split comes to its end in both. -/
theorem Apart.ends {split : Split} {taken new last : List Resolved} {each whole : Unfinished}
    (h : each.Ends split (taken ++ new) last whole) (common : Tally) :
    Apart (some split) none
      (((common.recordAll taken).recordAll new).addPartials (if each.isPartial then 1 else 0))
      ((common.recordAll last).addPartials (if whole.isPartial then 1 else 0)) := by
  rw [← recordAll_append, h.isPartial, h.single.1, h.single.2]
  exact .ended common h.languages

end Tally

end SymbolAtlas
