import SymbolAtlas.Json.Writer
import SymbolAtlas.Run

/-!
# Reports

The summary of a run, as a JSON document or as lines of text.
-/

namespace SymbolAtlas

/-- The totals of a run. -/
def Tally.toJson (tally : Tally) : Json :=
  .record [("succeeded", .ofNat tally.succeeded.total), ("failed", .ofNat tally.failed.total),
    ("deferred", .ofNat tally.deferred.total), ("partial", .ofNat tally.partials)]

/-- The summary of a scheduling pass. -/
def PassSummary.toJson (s : PassSummary) : Json :=
  .record [("tasks", .ofNat s.tasks), ("dispatched", .ofNat s.dispatched),
    ("skipped", .ofNat s.skipped), ("links", .ofNat s.links)]

/-- The summary of clustering. -/
def Cluster.Summary.toJson (s : Cluster.Summary) : Json :=
  .record (s.rows.map fun row => (row.key, .ofInt row.value))

/-- The summary of a run. -/
def RunSummary.fields (s : RunSummary) : List (String × Json) :=
  [("files_discovered", .ofNat s.filesDiscovered), ("repositories", .ofNat s.repositories),
   ("actions_imported", .ofNat s.actionsImported), ("schedule", s.schedule.toJson),
   ("parse", s.parse.toJson), ("cluster", .ofOption Cluster.Summary.toJson s.cluster)]

/-- A duration in nanoseconds. -/
def durationJson (nanos : Nat) : Json :=
  .record [("secs", .ofNat (nanos / 1000000000)), ("nanos", .ofNat (nanos % 1000000000))]

/-- The summary of a run with its duration in nanoseconds, as a document. -/
def RunSummary.document (s : RunSummary) (nanos : Nat) : String :=
  (Json.record (s.fields ++ [("duration", durationJson nanos)])).indented

/-- The summary of a run in lines. -/
def RunSummary.lines (s : RunSummary) : List String :=
  [s!"parsed: {s.parse.succeeded.total} succeeded, {s.parse.failed.total} failed, " ++
     s!"{s.parse.deferred.total} deferred, {s.parse.partials} partial",
   s!"actions: {s.schedule.tasks} scheduled, {s.schedule.links} links, " ++
     s!"{s.schedule.skipped} skipped"] ++
    (match s.cluster with
    | some c => [s!"clusters: {c.clustered} files ({c.concerned} concerned, {c.excluded} excluded)"]
    | none => [])

end SymbolAtlas
