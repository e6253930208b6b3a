import SymbolAtlas.Model.Word

/-!
# A pool of workers with a barrier

Jobs are handed to a pool and run on its workers. A pool of one worker runs a job while it is
handed over; a larger one keeps it until some worker has finished it, in any order. A job that errs
or crashes is counted and harms no other job. The pool counts the jobs that are not finished; the
barrier is passed once there are none.
-/

namespace SymbolAtlas

/-- How a job ends. -/
inductive JobEnd where
  | ok
  | err
  | panic
  deriving DecidableEq, Repr, Inhabited

instance : Worded JobEnd where
  all := [.ok, .err, .panic]
  word
    | .ok => "ok"
    | .err => "err"
    | .panic => "panic"

/-- The job did not do its work. -/
def JobEnd.isFailure : JobEnd → Bool
  | .ok => false
  | .err | .panic => true

/-- A pool of workers. -/
structure JobPool where
  /-- the number of workers -/
  size : Nat
  /-- the jobs that are handed over and not finished -/
  waiting : List JobEnd := []
  /-- the number of jobs that are not finished -/
  pending : Nat := 0
  /-- the jobs that are finished, in the order in which they were -/
  finished : List JobEnd := []
  /-- the number of jobs that failed -/
  failures : Nat := 0
  deriving DecidableEq, Repr

namespace JobPool

/-- A pool of the given number of workers, at least one. -/
def ofSize (size : Nat) : JobPool := { size := max size 1 }

/-- Jobs are run while they are handed over. -/
def isInline (pool : JobPool) : Bool := pool.size = 1

/-- A job has been run. -/
def ran (job : JobEnd) (pool : JobPool) : JobPool :=
  { pool with
    finished := pool.finished ++ [job]
    failures := pool.failures + if job.isFailure then 1 else 0 }

/-- Hand a job to the pool. -/
def submit (job : JobEnd) (pool : JobPool) : JobPool :=
  if pool.isInline then pool.ran job
  else { pool with waiting := pool.waiting ++ [job], pending := pool.pending + 1 }

/-- A worker is done with one of the waiting jobs. -/
def signOff (index : Nat) (pool : JobPool) : JobPool :=
  { pool with waiting := pool.waiting.eraseIdx index, pending := pool.pending - 1 }

/-- A worker finishes one of the waiting jobs: it runs the job and then signs it off. -/
def finish (index : Nat) (pool : JobPool) : JobPool :=
  match pool.waiting[index]? with
  | some job => (pool.ran job).signOff index
  | none => pool

/-- The barrier can be passed. -/
def isIdle (pool : JobPool) : Bool := pool.pending = 0

/-- The workers finish as many jobs, always the first one that waits. -/
def finishFirst : Nat → JobPool → JobPool
  | 0, pool => pool
  | n + 1, pool => finishFirst n (pool.finish 0)

/-- Wait until the barrier can be passed. -/
def wait (pool : JobPool) : JobPool := finishFirst pool.pending pool

/-- Hand over the jobs of a round and wait for them. -/
def round (pool : JobPool) (jobs : List JobEnd) : JobPool :=
  (jobs.foldl (fun pool job => pool.submit job) pool).wait

/-- The number of jobs that did their work. -/
def done (pool : JobPool) : Nat := pool.finished.countP fun job => !job.isFailure

end JobPool

end SymbolAtlas
