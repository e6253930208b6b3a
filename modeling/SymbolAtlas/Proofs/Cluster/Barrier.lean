import Mathlib.Algebra.Ring.Nat
import Mathlib.Data.List.Perm.Basic
import SymbolAtlas.Cluster.JobPool

/-!
# The barrier of a pool of workers

A pool stands in a workshop: a caller hands jobs to it and waits, and workers run the jobs. What
happens there happens in small steps, in any order. A worker takes a job, runs it, which counts how
it ended, and signs it off later; so others see the pool between the two. The caller that waits
looks at the counter and sleeps unless it is zero. It is woken only when a job is signed off as the
last one, and then looks again.

- **Steps** (`Workshop.Step`, `Workshop.Runs`): all courses that a workshop can take with a pool of
  a given size. A pool of one worker runs each job while it is handed over.
- **Books** (`Workshop.Sound`): what the counters of the pool say about the jobs in every state.
  Each step keeps the books (`Sound.step`).
- **Rounds** (`JobPool.totalsAfter`): the caller finds the same totals after each round as with a
  pool that runs one job after the other, whatever its size.
- **Progress** (`Sound.exists_worker_step`): a job that is not finished can go on, and the caller
  sleeps only as long as there is one, so no call to wake up is lost.
-/

namespace SymbolAtlas

/-! ## Rounds of jobs one after the other -/

namespace JobPool

/-- The number of jobs that did their work, and of those that failed. -/
def totals (pool : JobPool) : Nat × Nat := (pool.done, pool.failures)

/-- The totals after each of the rounds. -/
def totalsAfter (pool : JobPool) : List (List JobEnd) → List (Nat × Nat)
  | [] => []
  | jobs :: rounds => (pool.round jobs).totals :: (pool.round jobs).totalsAfter rounds

/-- A pool that waits for nothing, and what it has run. -/
def resting (size : Nat) (finished : List JobEnd) : JobPool :=
  { size, finished, failures := finished.countP JobEnd.isFailure }

theorem totalsAfter_concat (pool : JobPool) (rounds : List (List JobEnd)) (jobs : List JobEnd) :
    pool.totalsAfter (rounds ++ [jobs]) =
      pool.totalsAfter rounds ++ [((rounds ++ [jobs]).foldl round pool).totals] := by
  induction rounds generalizing pool with
  | nil => rfl
  | cons first rounds ih => simp [totalsAfter, ih]

theorem submit_inline {pool : JobPool} (h : pool.isInline = true) (job : JobEnd) :
    pool.submit job = pool.ran job :=
  if_pos h

theorem submit_threaded {pool : JobPool} (h : pool.isInline = false) (job : JobEnd) :
    pool.submit job =
      { pool with waiting := pool.waiting ++ [job], pending := pool.pending + 1 } :=
  if_neg (by simp [h])

theorem pending_pos {pool : JobPool} (h : pool.isIdle = false) : 0 < pool.pending := by
  simpa [isIdle, Nat.pos_iff_ne_zero] using h

theorem ran_resting (size : Nat) (finished : List JobEnd) (job : JobEnd) :
    (resting size finished).ran job = resting size (finished ++ [job]) := by
  simp [resting, ran, List.countP_append, List.countP_singleton]

theorem foldl_submit_inline {size : Nat} (hsize : size = 1) (finished jobs : List JobEnd) :
    jobs.foldl (fun pool job => pool.submit job) (resting size finished) =
      resting size (finished ++ jobs) := by
  induction jobs generalizing finished with
  | nil => simp
  | cons job jobs ih =>
    have hinline : (resting size finished).isInline = true := by simp [isInline, resting, hsize]
    rw [List.foldl_cons, submit_inline hinline, ran_resting, ih]
    simp

theorem foldl_submit_threaded {pool : JobPool} (hpool : pool.isInline = false)
    (jobs : List JobEnd) :
    jobs.foldl (fun pool job => pool.submit job) pool =
      { pool with waiting := pool.waiting ++ jobs, pending := pool.pending + jobs.length } := by
  induction jobs generalizing pool with
  | nil => simp
  | cons job jobs ih =>
    have hnext : (pool.submit job).isInline = false := by rwa [submit_threaded hpool]
    rw [List.foldl_cons, ih hnext, submit_threaded hpool]
    simp only [List.append_assoc, List.singleton_append, List.length_cons]
    congr 1
    omega

theorem finishFirst_eq (size : Nat) (finished jobs : List JobEnd) :
    finishFirst jobs.length
        { resting size finished with waiting := jobs, pending := jobs.length } =
      resting size (finished ++ jobs) := by
  induction jobs generalizing finished with
  | nil => simp [finishFirst, resting]
  | cons job jobs ih =>
    have hfinish : finish 0
        { resting size finished with waiting := job :: jobs, pending := jobs.length + 1 } =
          { resting size (finished ++ [job]) with waiting := jobs, pending := jobs.length } := by
      simp [finish, signOff, ran, resting, List.countP_append, List.countP_singleton]
    rw [List.length_cons, finishFirst, hfinish, ih]
    simp

/-- After a round its jobs are run and nothing waits, in a pool of any size. -/
theorem round_resting (size : Nat) (finished jobs : List JobEnd) :
    (resting size finished).round jobs = resting size (finished ++ jobs) := by
  cases hinline : (resting size finished).isInline with
  | true =>
    have hsize : size = 1 := of_decide_eq_true hinline
    rw [round, foldl_submit_inline hsize]
    rfl
  | false =>
    rw [round, foldl_submit_threaded hinline, wait]
    simpa [resting] using finishFirst_eq size finished jobs

theorem foldl_round (size : Nat) (finished : List JobEnd) (rounds : List (List JobEnd)) :
    rounds.foldl round (resting size finished) = resting size (finished ++ rounds.flatten) := by
  induction rounds generalizing finished with
  | nil => simp
  | cons jobs rounds ih => simp [round_resting, ih]

end JobPool

/-! ## The workshop -/

/-- How far a job is. -/
inductive JobStage where
  /-- no worker has taken it -/
  | queued
  /-- a worker runs it -/
  | running
  /-- it has ended and is counted, and its worker has not signed it off -/
  | counted
  /-- it is signed off -/
  | finished
  deriving DecidableEq, Repr

/-- A job that was handed over. -/
structure HandedJob where
  ending : JobEnd
  stage : JobStage
  deriving DecidableEq, Repr

namespace HandedJob

/-- The job has been run. -/
def hasRun (job : HandedJob) : Bool := job.stage = .counted || job.stage = .finished

/-- The job is not signed off. -/
def isUnfinished (job : HandedJob) : Bool := job.stage ≠ .finished

/-- A worker is busy with the job. -/
def isBusy (job : HandedJob) : Bool := job.stage = .running || job.stage = .counted

/-- The number of steps that are left of the job. -/
def stepsLeft (job : HandedJob) : Nat :=
  match job.stage with
  | .queued => 3
  | .running => 2
  | .counted => 1
  | .finished => 0

end HandedJob

/-- What the caller of a pool does. -/
inductive Caller where
  /-- it is free to hand over jobs -/
  | free
  /-- it waits, and sleeps until it is woken -/
  | asleep
  /-- it waits, and was woken -/
  | woken
  deriving DecidableEq, Repr

namespace Caller

/-- Whoever sleeps is woken. -/
def notified : Caller → Caller
  | .asleep => .woken
  | .free => .free
  | .woken => .woken

theorem notified_ne_asleep (caller : Caller) : caller.notified ≠ .asleep := by
  cases caller <;> simp [notified]

end Caller

/-- A pool with its caller and the jobs that it was given. -/
structure Workshop where
  pool : JobPool
  /-- all jobs that were handed over; a job is known by its place here -/
  jobs : List HandedJob := []
  /-- the jobs that were run, in the order in which they were -/
  log : List Nat := []
  caller : Caller := .free
  /-- the jobs of each round that the caller has waited for -/
  rounds : List (List JobEnd) := []
  /-- the jobs that were handed over after the last of these rounds -/
  latest : List JobEnd := []
  /-- the totals that the caller has found after each round -/
  totals : List (Nat × Nat) := []

namespace Workshop

/-- Something that happens in a workshop. -/
inductive Event where
  /-- the caller hands over a job -/
  | submit (ending : JobEnd)
  /-- a worker takes a job -/
  | take (number : Nat)
  /-- a job is run to its end -/
  | run (number : Nat)
  /-- a worker signs a job off -/
  | signOff (number : Nat)
  /-- the caller waits, and goes to sleep -/
  | sleep
  /-- the caller stops waiting -/
  | pass
  deriving DecidableEq, Repr

/-- One step: the event and the workshop after it. -/
inductive Step (shop : Workshop) : Event → Workshop → Prop where
  /-- without workers of its own, the pool runs the job at once -/
  | submitInline {ending : JobEnd} (hcaller : shop.caller = .free)
      (hinline : shop.pool.isInline = true) :
      Step shop (.submit ending)
        { shop with
          pool := shop.pool.submit ending
          jobs := shop.jobs ++ [⟨ending, .finished⟩]
          log := shop.log ++ [shop.jobs.length]
          latest := shop.latest ++ [ending] }
  | submit {ending : JobEnd} (hcaller : shop.caller = .free)
      (hinline : shop.pool.isInline = false) :
      Step shop (.submit ending)
        { shop with
          pool := shop.pool.submit ending
          jobs := shop.jobs ++ [⟨ending, .queued⟩]
          latest := shop.latest ++ [ending] }
  /-- a worker that is not busy takes the job -/
  | take {before after : List HandedJob} {ending : JobEnd}
      (hjobs : shop.jobs = before ++ ⟨ending, .queued⟩ :: after)
      (hworker : shop.jobs.countP HandedJob.isBusy < shop.pool.size) :
      Step shop (.take before.length)
        { shop with jobs := before ++ ⟨ending, .running⟩ :: after }
  | run {before after : List HandedJob} {ending : JobEnd}
      (hjobs : shop.jobs = before ++ ⟨ending, .running⟩ :: after) :
      Step shop (.run before.length)
        { shop with
          pool := shop.pool.ran ending
          jobs := before ++ ⟨ending, .counted⟩ :: after
          log := shop.log ++ [before.length] }
  /-- the worker that finds the counter at zero after it has signed off wakes the caller -/
  | signOff {before after : List HandedJob} {ending : JobEnd} {pool : JobPool}
      (hjobs : shop.jobs = before ++ ⟨ending, .counted⟩ :: after)
      (hpool : pool = shop.pool.signOff (before.countP HandedJob.isUnfinished)) :
      Step shop (.signOff before.length)
        { shop with
          pool
          jobs := before ++ ⟨ending, .finished⟩ :: after
          caller := if pool.isIdle then shop.caller.notified else shop.caller }
  /-- the caller begins to wait or was woken, and finds jobs that are not finished -/
  | sleep (hcaller : shop.caller ≠ .asleep) (hidle : shop.pool.isIdle = false) :
      Step shop .sleep { shop with caller := .asleep }
  /-- the caller begins to wait or was woken, and finds nothing to wait for -/
  | pass (hcaller : shop.caller ≠ .asleep) (hidle : shop.pool.isIdle = true) :
      Step shop .pass
        { shop with
          caller := .free
          rounds := shop.rounds ++ [shop.latest]
          latest := []
          totals := shop.totals ++ [shop.pool.totals] }

/-- A workshop with a pool of the given size gets to the state by the events, one after the
other. -/
inductive Runs (size : Nat) : List Event → Workshop → Prop where
  | start : Runs size [] { pool := JobPool.ofSize size }
  | step {events : List Event} {shop next : Workshop} {event : Event} :
      Runs size events shop → Step shop event next → Runs size (events ++ [event]) next

/-! ## The books -/

/-- The pool waits for the jobs that are not signed off. -/
structure Awaited (pool : JobPool) (jobs : List HandedJob) : Prop where
  waiting : pool.waiting = (jobs.filter HandedJob.isUnfinished).map HandedJob.ending
  pending : pool.pending = jobs.countP HandedJob.isUnfinished

/-- The pool has counted the jobs that have run, each of them once. -/
structure Counted (pool : JobPool) (jobs : List HandedJob) (log : List Nat) : Prop where
  finished : pool.finished.Perm ((jobs.filter HandedJob.hasRun).map HandedJob.ending)
  failures : pool.failures = pool.finished.countP JobEnd.isFailure
  logged : pool.finished.map some = log.map fun number => (jobs.map HandedJob.ending)[number]?
  once : log.Nodup
  mem_log : ∀ number, number ∈ log ↔ (jobs.map HandedJob.hasRun)[number]? = some true

/-- The books are in order. -/
structure Sound (size : Nat) (shop : Workshop) : Prop where
  size : shop.pool.size = max size 1
  awaited : Awaited shop.pool shop.jobs
  counted : Counted shop.pool shop.jobs shop.log
  asleep : shop.caller = .asleep → 0 < shop.pool.pending
  handed : shop.jobs.map HandedJob.ending = shop.rounds.flatten ++ shop.latest
  totals : ∀ other, shop.totals = (JobPool.ofSize other).totalsAfter shop.rounds

variable {size : Nat} {shop next : Workshop} {event : Event} {pool : JobPool}
  {jobs before after : List HandedJob} {log : List Nat} {job : HandedJob}

namespace Awaited

theorem add (h : Awaited pool jobs) (hinline : pool.isInline = false) (ending : JobEnd) :
    Awaited (pool.submit ending) (jobs ++ [⟨ending, .queued⟩]) := by
  rw [JobPool.submit_threaded hinline]
  exact ⟨by simp [h.waiting, HandedJob.isUnfinished], by simp [h.pending, HandedJob.isUnfinished]⟩

/-- A job that is not signed off moves on. -/
theorem move (h : Awaited pool (before ++ job :: after)) (moved : HandedJob)
    (hending : moved.ending = job.ending) (hsame : moved.isUnfinished = job.isUnfinished) :
    Awaited pool (before ++ moved :: after) := by
  refine ⟨?_, ?_⟩
  · rw [h.waiting]
    cases hjob : job.isUnfinished <;> simp [hjob, hsame, hending]
  · rw [h.pending]
    simp [List.countP_cons, hsame]

theorem pending_eq (h : Awaited pool (before ++ job :: after)) (hjob : job.isUnfinished = true) :
    pool.pending =
      before.countP HandedJob.isUnfinished + after.countP HandedJob.isUnfinished + 1 := by
  rw [h.pending, List.countP_append, List.countP_cons_of_pos hjob, Nat.add_assoc]

/-- The counter does not go below zero. -/
theorem pending_signOff (h : Awaited pool (before ++ job :: after))
    (hjob : job.isUnfinished = true) (place : Nat) :
    pool.pending = (pool.signOff place).pending + 1 := by
  have hpending := h.pending_eq hjob
  simp only [JobPool.signOff]
  omega

/-- The pool lets go of the job at its place among those that it waits for. -/
theorem signOff (h : Awaited pool (before ++ job :: after)) (moved : HandedJob)
    (hjob : job.isUnfinished = true) (hmoved : moved.isUnfinished = false) :
    Awaited (pool.signOff (before.countP HandedJob.isUnfinished)) (before ++ moved :: after) := by
  refine ⟨?_, ?_⟩
  · have hplace : before.countP HandedJob.isUnfinished =
        ((before.filter HandedJob.isUnfinished).map HandedJob.ending).length := by
      rw [List.length_map, List.countP_eq_length_filter]
    rw [JobPool.signOff, h.waiting, hplace]
    simp [hjob, hmoved, List.eraseIdx_append_of_length_le]
  · rw [JobPool.signOff, h.pending_eq hjob]
    simp [hmoved]

theorem congr {pool' : JobPool} (h : Awaited pool jobs) (hwaiting : pool'.waiting = pool.waiting)
    (hpending : pool'.pending = pool.pending) : Awaited pool' jobs :=
  ⟨hwaiting.trans h.waiting, hpending.trans h.pending⟩

theorem isIdle_iff (h : Awaited pool jobs) :
    pool.isIdle = true ↔ ∀ job ∈ jobs, job.stage = .finished := by
  simp [JobPool.isIdle, h.pending, HandedJob.isUnfinished, List.countP_eq_zero]

end Awaited

/-- To hand over a job that has not run adds nothing to the jobs that have. -/
theorem getElem?_concat_false {flags : List Bool} {number : Nat} :
    (flags ++ [false])[number]? = some true ↔ flags[number]? = some true := by
  rcases Nat.lt_trichotomy number flags.length with hlt | rfl | hgt
  · rw [List.getElem?_append_left hlt]
  · simp
  · rw [List.getElem?_eq_none (by simp; omega), List.getElem?_eq_none (Nat.le_of_lt hgt)]

/-- One more job has run. -/
theorem getElem?_append_true {before after : List Bool} {number : Nat} :
    (before ++ true :: after)[number]? = some true ↔
      number = before.length ∨ (before ++ false :: after)[number]? = some true := by
  rcases Nat.lt_trichotomy number before.length with hlt | rfl | hgt
  · rw [List.getElem?_append_left hlt, List.getElem?_append_left hlt]
    simp [Nat.ne_of_lt hlt]
  · simp
  · obtain ⟨k, rfl⟩ := Nat.exists_eq_add_of_lt hgt
    have hk : before.length + k + 1 - before.length = k + 1 := by omega
    have hne : before.length + k + 1 ≠ before.length := by omega
    rw [List.getElem?_append_right (by omega), List.getElem?_append_right (by omega)]
    simp [hk, hne]

namespace Counted

theorem congr {pool' : JobPool} (h : Counted pool jobs log)
    (hfinished : pool'.finished = pool.finished) (hfailures : pool'.failures = pool.failures) :
    Counted pool' jobs log where
  finished := hfinished ▸ h.finished
  failures := by rw [hfailures, hfinished, h.failures]
  logged := hfinished ▸ h.logged
  once := h.once
  mem_log := h.mem_log

theorem lt_of_mem_log (h : Counted pool jobs log) {number : Nat} (hnumber : number ∈ log) :
    number < jobs.length := by
  obtain ⟨hlt, -⟩ := List.getElem?_eq_some_iff.mp ((h.mem_log number).mp hnumber)
  simpa using hlt

theorem add (h : Counted pool jobs log) (ending : JobEnd) :
    Counted pool (jobs ++ [⟨ending, .queued⟩]) log where
  finished := by simpa [HandedJob.hasRun] using h.finished
  failures := h.failures
  logged := by
    rw [h.logged, List.map_append]
    refine List.map_congr_left fun number hnumber => ?_
    rw [List.getElem?_append_left (by simpa using h.lt_of_mem_log hnumber)]
  once := h.once
  mem_log number := by
    rw [h.mem_log, List.map_append]
    exact getElem?_concat_false.symm

/-- A job moves on without being run. -/
theorem move (h : Counted pool (before ++ job :: after) log) (moved : HandedJob)
    (hending : moved.ending = job.ending) (hsame : moved.hasRun = job.hasRun) :
    Counted pool (before ++ moved :: after) log where
  finished := by
    have hfinished := h.finished
    cases hjob : job.hasRun <;> simpa [hjob, hsame, hending] using hfinished
  failures := h.failures
  logged := by simpa [hending] using h.logged
  once := h.once
  mem_log number := by simpa [hsame] using h.mem_log number

/-- A job is run. -/
theorem ran (h : Counted pool (before ++ job :: after) log) (moved : HandedJob)
    (hending : moved.ending = job.ending) (hjob : job.hasRun = false)
    (hmoved : moved.hasRun = true) :
    Counted (pool.ran job.ending) (before ++ moved :: after) (log ++ [before.length]) where
  finished := by
    have hfinished := h.finished.append_right [job.ending]
    simp only [List.filter_append, List.filter_cons, hjob, hmoved, Bool.false_eq_true, if_false,
      if_true, List.map_append, List.map_cons, hending] at hfinished ⊢
    exact hfinished.trans ((List.perm_append_singleton _ _).trans List.perm_middle.symm)
  failures := by
    simp [JobPool.ran, h.failures, List.countP_append, List.countP_singleton]
  logged := by
    have hlogged := h.logged
    simp only [List.map_append, List.map_cons] at hlogged
    simp [JobPool.ran, hlogged, hending]
  once := by
    refine List.nodup_append.mpr ⟨h.once, by simp, ?_⟩
    rintro number hnumber _ hlast rfl
    rw [List.mem_singleton.mp hlast, h.mem_log] at hnumber
    simp [hjob] at hnumber
  mem_log number := by
    rw [List.mem_append, List.mem_singleton, h.mem_log, or_comm]
    simp only [List.map_append, List.map_cons, hjob, hmoved]
    rw [getElem?_append_true, List.length_map]

theorem failures_eq (h : Counted pool jobs log) :
    pool.failures = jobs.countP fun job => job.hasRun && job.ending.isFailure := by
  rw [h.failures, h.finished.countP_eq, List.countP_map, List.countP_filter]
  exact List.countP_congr fun job _ => by simp [and_comm]

end Counted

namespace Sound

theorem start (size : Nat) : Sound size { pool := JobPool.ofSize size } where
  size := rfl
  awaited := ⟨rfl, rfl⟩
  counted := ⟨.nil, rfl, rfl, .nil, by simp⟩
  asleep := by simp
  handed := rfl
  totals _ := rfl

/-- Where the caller passes, all jobs that it has handed over have run, so it finds the totals of
any other pool. -/
theorem totals_eq (h : Sound size shop) (hidle : shop.pool.isIdle = true) (other : Nat) :
    shop.pool.totals =
      ((shop.rounds ++ [shop.latest]).foldl JobPool.round (JobPool.ofSize other)).totals := by
  have hfinished := h.awaited.isIdle_iff.mp hidle
  have hall : shop.jobs.filter HandedJob.hasRun = shop.jobs :=
    List.filter_eq_self.mpr fun job hjob => by simp [HandedJob.hasRun, hfinished job hjob]
  have hperm : shop.pool.finished.Perm (shop.rounds ++ [shop.latest]).flatten := by
    have hran := h.counted.finished
    rw [hall, h.handed] at hran
    simpa using hran
  have hother : JobPool.ofSize other = JobPool.resting (max other 1) [] := rfl
  rw [hother, JobPool.foldl_round, List.nil_append]
  simp only [JobPool.totals, JobPool.done, JobPool.resting, h.counted.failures, hperm.countP_eq]

theorem step (h : Sound size shop) (hstep : Step shop event next) : Sound size next := by
  cases hstep with
  | @submitInline ending hcaller hinline =>
    -- the job is queued and run in one go
    have hran := (h.counted.add ending).ran ⟨ending, .finished⟩ rfl rfl rfl
    rw [JobPool.submit_inline hinline]
    exact {
      size := h.size
      awaited := ⟨by simp [JobPool.ran, h.awaited.waiting, HandedJob.isUnfinished],
        by simp [JobPool.ran, h.awaited.pending, HandedJob.isUnfinished]⟩
      counted := hran
      asleep := by simp [hcaller]
      handed := by simp [h.handed]
      totals := h.totals }
  | @submit ending hcaller hinline =>
    have hpool := JobPool.submit_threaded hinline ending
    exact {
      size := by rw [hpool]; exact h.size
      awaited := h.awaited.add hinline ending
      counted := (h.counted.add ending).congr (by rw [hpool]) (by rw [hpool])
      asleep := by simp [hcaller]
      handed := by simp [h.handed]
      totals := h.totals }
  | @take before after ending hjobs hworker =>
    obtain ⟨hsize, hawaited, hcounted, hasleep, hhanded, htotals⟩ := h
    rw [hjobs] at hawaited hcounted hhanded
    exact ⟨hsize, hawaited.move _ rfl rfl, hcounted.move _ rfl rfl, hasleep,
      by simpa using hhanded, htotals⟩
  | @run before after ending hjobs =>
    obtain ⟨hsize, hawaited, hcounted, hasleep, hhanded, htotals⟩ := h
    rw [hjobs] at hawaited hcounted hhanded
    have hmove := hawaited.move ⟨ending, .counted⟩ rfl rfl
    exact ⟨hsize, hmove.congr rfl rfl, hcounted.ran _ rfl rfl rfl, hasleep,
      by simpa using hhanded, htotals⟩
  | @signOff before after ending pool hjobs hpool =>
    obtain ⟨hsize, hawaited, hcounted, hasleep, hhanded, htotals⟩ := h
    rw [hjobs] at hawaited hcounted hhanded
    subst hpool
    have hmove := hcounted.move ⟨ending, .finished⟩ rfl rfl
    refine ⟨hsize, hawaited.signOff _ rfl rfl, hmove.congr rfl rfl, fun hcaller => ?_,
      by simpa using hhanded, htotals⟩
    -- whoever still sleeps was not woken, so the counter is not zero
    split at hcaller
    · exact absurd hcaller (Caller.notified_ne_asleep _)
    · exact JobPool.pending_pos (Bool.eq_false_iff.mpr ‹_›)
  | sleep hcaller hidle =>
    exact ⟨h.size, h.awaited, h.counted, fun _ => JobPool.pending_pos hidle, h.handed, h.totals⟩
  | pass hcaller hidle =>
    refine ⟨h.size, h.awaited, h.counted, by simp, by simpa using h.handed, fun other => ?_⟩
    rw [JobPool.totalsAfter_concat, ← h.totals other, ← h.totals_eq hidle other]

end Sound

theorem Runs.sound {events : List Event} (h : Runs size events shop) : Sound size shop := by
  induction h with
  | start => exact .start size
  | step _ hstep ih => exact ih.step hstep

/-! ## Progress -/

/-- The number of steps that the workers have still to take. -/
def stepsLeft (shop : Workshop) : Nat := (shop.jobs.map HandedJob.stepsLeft).sum

/-- A job that is not finished can go on, or another one can. -/
theorem Sound.exists_worker_step (h : Sound size shop)
    (hjob : ∃ job ∈ shop.jobs, job.stage ≠ .finished) :
    ∃ event next, Step shop event next ∧ next.stepsLeft < shop.stepsLeft ∧
      next.jobs.map HandedJob.ending = shop.jobs.map HandedJob.ending := by
  by_cases hbusy : ∃ job ∈ shop.jobs, job.isBusy = true
  · obtain ⟨⟨ending, stage⟩, hmem, hbusy⟩ := hbusy
    obtain ⟨before, after, hjobs⟩ := List.append_of_mem hmem
    cases stage with
    | queued | finished => cases hbusy
    | running =>
      exact ⟨_, _, .run hjobs, by simp [stepsLeft, hjobs, HandedJob.stepsLeft], by simp [hjobs]⟩
    | counted =>
      exact ⟨_, _, .signOff hjobs rfl, by simp [stepsLeft, hjobs, HandedJob.stepsLeft],
        by simp [hjobs]⟩
  · -- no worker is busy, so one of them can take the job
    obtain ⟨⟨ending, stage⟩, hmem, hunfinished⟩ := hjob
    obtain ⟨before, after, hjobs⟩ := List.append_of_mem hmem
    have hfree : shop.jobs.countP HandedJob.isBusy < shop.pool.size := by
      rw [List.countP_eq_zero.mpr fun job hmem hjob => hbusy ⟨job, hmem, hjob⟩, h.size]
      omega
    cases stage with
    | running | counted => exact absurd ⟨_, hmem, rfl⟩ hbusy
    | finished => exact absurd rfl hunfinished
    | queued =>
      exact ⟨_, _, .take hjobs hfree, by simp [stepsLeft, hjobs, HandedJob.stepsLeft],
        by simp [hjobs]⟩

theorem Runs.exists_all_finished {events : List Event} (h : Runs size events shop) :
    ∃ more later, Runs size (events ++ more) later ∧
      later.jobs.map HandedJob.ending = shop.jobs.map HandedJob.ending ∧
      ∀ job ∈ later.jobs, job.stage = .finished := by
  induction hsteps : shop.stepsLeft using Nat.strongRecOn generalizing events shop with
  | _ n ih =>
    by_cases hfinished : ∀ job ∈ shop.jobs, job.stage = .finished
    · exact ⟨[], shop, by rwa [List.append_nil], rfl, hfinished⟩
    · obtain ⟨event, next, hstep, hless, hsame⟩ :=
        h.sound.exists_worker_step (by simpa using hfinished)
      obtain ⟨more, later, hlater, hendings, hall⟩ := ih _ (hsteps ▸ hless) (h.step hstep) rfl
      exact ⟨event :: more, later, by simpa using hlater, hendings.trans hsame, hall⟩

/-- The workers alone can bring a caller that waits past the barrier. -/
theorem Runs.exists_free {events : List Event} (h : Runs size events shop) :
    ∃ more later, Runs size (events ++ more) later ∧ later.caller = .free ∧
      later.jobs.map HandedJob.ending = shop.jobs.map HandedJob.ending ∧
      ∀ job ∈ later.jobs, job.stage = .finished := by
  obtain ⟨more, later, hlater, hendings, hall⟩ := h.exists_all_finished
  have hidle := hlater.sound.awaited.isIdle_iff.mpr hall
  by_cases hfree : later.caller = .free
  · exact ⟨more, later, hlater, hfree, hendings, hall⟩
  · have hawake : later.caller ≠ .asleep := fun hasleep => by
      have hpending := hlater.sound.asleep hasleep
      simp only [JobPool.isIdle, decide_eq_true_eq] at hidle
      omega
    have hpass := hlater.step (.pass hawake hidle)
    rw [List.append_assoc] at hpass
    exact ⟨_, _, hpass, rfl, hendings, hall⟩

/-! ## The barrier -/

/-- In every state the counter of the pool is the number of jobs that are not finished, and it is
above zero where a job is signed off. The caller passes the barrier only when all jobs that it has
handed over are finished; it sleeps only while some job is not, and the workers alone can bring it
past. Each job is run once, with its own end, and the failures are those of the jobs that have run.
After each round the caller finds the totals of a pool of any other size. -/
theorem barrier_exact {events : List Event} (h : Runs size events shop) :
    (shop.pool.pending = shop.jobs.countP HandedJob.isUnfinished ∧
      shop.pool.waiting = (shop.jobs.filter HandedJob.isUnfinished).map HandedJob.ending ∧
      ∀ number next, Step shop (.signOff number) next →
        shop.pool.pending = next.pool.pending + 1) ∧
    ((∀ next, Step shop .pass next → ∀ job ∈ shop.jobs, job.stage = .finished) ∧
      (shop.caller = .asleep → ∃ job ∈ shop.jobs, job.stage ≠ .finished) ∧
      ∃ more later, Runs size (events ++ more) later ∧ later.caller = .free ∧
        later.jobs.map HandedJob.ending = shop.jobs.map HandedJob.ending ∧
        ∀ job ∈ later.jobs, job.stage = .finished) ∧
    (shop.log.Nodup ∧
      (∀ number, number ∈ shop.log ↔
        ∃ job, shop.jobs[number]? = some job ∧ job.hasRun = true) ∧
      shop.pool.finished.map some =
        shop.log.map fun number => shop.jobs[number]?.map HandedJob.ending) ∧
    shop.pool.failures = shop.jobs.countP (fun job => job.hasRun && job.ending.isFailure) ∧
    shop.jobs.map HandedJob.ending = shop.rounds.flatten ++ shop.latest ∧
    ∀ other, shop.totals = (JobPool.ofSize other).totalsAfter shop.rounds := by
  have hsound := h.sound
  refine ⟨⟨hsound.awaited.pending, hsound.awaited.waiting, fun number next hstep => ?_⟩,
    ⟨fun next hstep => ?_, fun hasleep => ?_, h.exists_free⟩,
    ⟨hsound.counted.once, fun number => ?_, ?_⟩, hsound.counted.failures_eq, hsound.handed,
    hsound.totals⟩
  · cases hstep with
    | signOff hjobs hpool =>
      have hawaited := hsound.awaited
      rw [hjobs] at hawaited
      rw [hpool]
      exact hawaited.pending_signOff rfl _
  · cases hstep with
    | pass hcaller hidle => exact hsound.awaited.isIdle_iff.mp hidle
  · have hpending := hsound.asleep hasleep
    rw [hsound.awaited.pending, List.countP_pos_iff] at hpending
    simpa [HandedJob.isUnfinished] using hpending
  · rw [hsound.counted.mem_log, List.getElem?_map, Option.map_eq_some_iff]
  · simpa only [List.getElem?_map] using hsound.counted.logged

/-- Two workers have run three jobs, and the caller that slept is woken. -/
def pairAtRest : Workshop where
  pool := { size := 2, finished := [.panic, .err, .ok], failures := 2 }
  jobs := [⟨.err, .finished⟩, ⟨.panic, .finished⟩, ⟨.ok, .finished⟩]
  log := [1, 0, 2]
  caller := .woken
  latest := [.err, .panic, .ok]

theorem barrier_exact_pairAtRest :
    Runs 2 [.submit .err, .submit .panic, .submit .ok, .take 1, .take 0, .run 1, .sleep, .run 0,
      .signOff 0, .take 2, .run 2, .signOff 2, .signOff 1] pairAtRest ∧
    pairAtRest.pool.pending = 0 ∧ pairAtRest.log.Nodup ∧
    ∃ next, Step pairAtRest .pass next ∧ (∀ job ∈ pairAtRest.jobs, job.stage = .finished) ∧
      next.rounds = [[.err, .panic, .ok]] ∧ next.totals = [(1, 2)] ∧
      next.totals = (JobPool.ofSize 1).totalsAfter next.rounds := by
  -- both workers are busy with the first two jobs when the caller goes to sleep
  have hrun := (Runs.start : Runs 2 [] _).step (@Step.submit _ .err rfl rfl)
  have hrun := (hrun.step (@Step.submit _ .panic rfl rfl)).step (@Step.submit _ .ok rfl rfl)
  have hrun := hrun.step
    (@Step.take _ [⟨.err, .queued⟩] [⟨.ok, .queued⟩] .panic rfl (by decide))
  have hrun := hrun.step
    (@Step.take _ [] [⟨.panic, .running⟩, ⟨.ok, .queued⟩] .err rfl (by decide))
  have hrun := hrun.step (@Step.run _ [⟨.err, .running⟩] [⟨.ok, .queued⟩] .panic rfl)
  have hrun := hrun.step (.sleep (by decide) rfl)
  -- the panicked job is signed off last, after the third one
  have hrun := hrun.step (@Step.run _ [] [⟨.panic, .counted⟩, ⟨.ok, .queued⟩] .err rfl)
  have hrun := hrun.step (@Step.signOff _ [] [⟨.panic, .counted⟩, ⟨.ok, .queued⟩] .err _ rfl rfl)
  have hrun := hrun.step
    (@Step.take _ [⟨.err, .finished⟩, ⟨.panic, .counted⟩] [] .ok rfl (by decide))
  have hrun := hrun.step (@Step.run _ [⟨.err, .finished⟩, ⟨.panic, .counted⟩] [] .ok rfl)
  have hrun := hrun.step
    (@Step.signOff _ [⟨.err, .finished⟩, ⟨.panic, .counted⟩] [] .ok _ rfl rfl)
  have hrun : Runs 2 _ pairAtRest := hrun.step
    (@Step.signOff _ [⟨.err, .finished⟩] [⟨.ok, .finished⟩] .panic _ rfl rfl)
  have hpass := @Step.pass pairAtRest (by decide) rfl
  obtain ⟨⟨hpending, -⟩, ⟨hbarrier, -⟩, ⟨honce, -⟩, -⟩ := barrier_exact hrun
  obtain ⟨-, -, -, -, -, htotals⟩ := barrier_exact (hrun.step hpass)
  exact ⟨hrun, hpending, honce, _, hpass, hbarrier _ hpass, rfl, rfl, htotals 1⟩

end Workshop

end SymbolAtlas
