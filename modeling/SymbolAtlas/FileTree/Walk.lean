import SymbolAtlas.FileTree.Basic

/-!
# Walks with several subscribers

One walk over a directory tree feeds several subscribers. Entries come depth first, in order of
their names; hidden ones are only counted. A subscriber that does not want to go on at a directory
hears nothing from below it; once nobody wants to, what lies below is not visited.

* `Answer`: what a subscriber says to an entry.
* `loop`: the entries that are still to come, one after the other, with the directories that are
  open and those who listen in each of them.
* `run`: the walk over a tree from a path, with the counters and the final states of the
  subscribers.
-/

namespace SymbolAtlas

/-- What kind of entry is visited. -/
inductive EntryKind where
  | directory
  | regular
  | symlink
  | other
  deriving DecidableEq, Repr

/-- The kind of a node. -/
def Node.kind : Node → EntryKind
  | .file _ => .regular
  | .directory _ => .directory
  | .link _ => .symlink
  | .pipe => .other

/-- What a subscriber says to an entry. -/
inductive Answer where
  | goOn
  /-- leave out what lies below -/
  | stop
  /-- the subscriber failed -/
  | failed
  /-- the subscriber broke down -/
  | crashed
  deriving DecidableEq, Repr

/-- Counters of a walk. -/
structure WalkCounts where
  files : Nat
  directories : Nat
  hidden : Nat
  errors : Nat
  deriving DecidableEq, Repr

namespace Walk

variable {σ : Type}

/-- What subscribers do with an entry: the new state and the answer. -/
abbrev Visitor (σ : Type) := String → EntryKind → σ → σ × Answer

/-- Where a walk stands. -/
structure State (σ : Type) where
  counts : WalkCounts
  subscribers : List σ

/-- A hidden entry. -/
def isHidden (name : String) : Bool := name.toList.head? == some '.'

/-- Tell the subscribers about an entry; `interested` tells for each of them whether it hears about
it. The answer tells which of them want to go on. -/
def notify (visit : Visitor σ) (path : String) (kind : EntryKind) :
    List Bool → List σ → List σ × List Bool
  | true :: interested, s :: subscribers =>
    let (s, answer) := visit path kind s
    let (subscribers, still) := notify visit path kind interested subscribers
    (s :: subscribers, (answer == .goOn) :: still)
  | _ :: interested, s :: subscribers =>
    let (subscribers, still) := notify visit path kind interested subscribers
    (s :: subscribers, false :: still)
  | _, subscribers => (subscribers, [])

/-- Count an entry. -/
def WalkCounts.add (counts : WalkCounts) (kind : EntryKind) : WalkCounts :=
  if kind = .directory then { counts with directories := counts.directories + 1 }
  else { counts with files := counts.files + 1 }

/-- Count an entry and tell the subscribers about it. -/
def enter (visit : Visitor σ) (path : String) (kind : EntryKind) (interested : List Bool)
    (s : State σ) : State σ × List Bool :=
  let (subscribers, still) := notify visit path kind interested s.subscribers
  (⟨WalkCounts.add s.counts kind, subscribers⟩, still)

/-- Count a hidden entry. -/
def State.hide (s : State σ) : State σ :=
  { s with counts := { s.counts with hidden := s.counts.hidden + 1 } }

/-! ### Open directories -/

/-- Put an entry in its place among others, before the first one whose name does not come earlier.
-/
def insertByName (entry : String × Node) : List (String × Node) → List (String × Node)
  | [] => [entry]
  | other :: rest =>
    if other.1 < entry.1 then other :: insertByName entry rest else entry :: other :: rest

/-- The entries of a directory in the order of their names. -/
def sortByName (entries : List (String × Node)) : List (String × Node) :=
  entries.foldr insertByName []

/-- The directories that a walk is in, innermost first: the path of each one, and the entries that
are still to come. -/
abbrev Trail := List (String × List (String × Node))

/-- Come to a node; a directory is opened. -/
def openNode (path : String) (node : Node) (trail : Trail) : Trail :=
  match node with
  | .directory entries => (path, sortByName entries) :: trail
  | .file _ | .link _ | .pipe => trail

mutual

/-- How much there is to do for what lies below a node. -/
def weight : Node → Nat
  | .directory entries => weightOf entries + 1
  | .file _ | .link _ | .pipe => 0

/-- How much there is to do for entries. -/
def weightOf : List (String × Node) → Nat
  | [] => 0
  | (_, node) :: rest => weight node + 1 + weightOf rest

end

theorem weightOf_insertByName (entry : String × Node) (entries : List (String × Node)) :
    weightOf (insertByName entry entries) = weightOf (entry :: entries) := by
  induction entries with
  | nil => rfl
  | cons other rest ih =>
    rw [insertByName]
    split
    · simp only [weightOf] at ih ⊢
      omega
    · rfl

theorem weightOf_sortByName (entries : List (String × Node)) :
    weightOf (sortByName entries) = weightOf entries := by
  unfold sortByName
  induction entries with
  | nil => rfl
  | cons entry rest ih => rw [List.foldr_cons, weightOf_insertByName, weightOf, ih, weightOf]

/-- How much there is left to do on a trail. -/
def weightOfTrail : Trail → Nat
  | [] => 0
  | (_, entries) :: outer => weightOf entries + 1 + weightOfTrail outer

theorem weightOfTrail_openNode (path : String) (node : Node) (trail : Trail) :
    weightOfTrail (openNode path node trail) = weight node + weightOfTrail trail := by
  cases node <;> simp [openNode, weight, weightOfTrail, weightOf_sortByName]

theorem weightOfTrail_tail_le (trail : Trail) : weightOfTrail trail.tail ≤ weightOfTrail trail := by
  cases trail with
  | nil => exact Nat.le_refl _
  | cons directory outer => simp only [List.tail_cons, weightOfTrail]; omega

/-! ### The loop -/

/-- How a walk goes on after an entry. -/
structure Next (σ : Type) where
  trail : Trail
  /-- who listens in each directory that is open, outermost first -/
  levels : List (List Bool)
  state : State σ

/-- Count an entry that has just been come to, and tell those who are interested. A directory in
which nobody is interested any more is skipped. -/
def step (visit : Visitor σ) (path : String) (kind : EntryKind) (interested : List Bool)
    (opened : Trail) (levels : List (List Bool)) (s : State σ) : Next σ :=
  let (s, still) := enter visit path kind interested s
  if kind = .directory then
    if still.any id then ⟨opened, levels ++ [still], s⟩ else ⟨opened.tail, levels, s⟩
  else ⟨opened, levels, s⟩

theorem weightOfTrail_step_le (visit : Visitor σ) (path : String) (kind : EntryKind)
    (interested : List Bool) (opened : Trail) (levels : List (List Bool)) (s : State σ) :
    weightOfTrail (step visit path kind interested opened levels s).trail ≤
      weightOfTrail opened := by
  unfold step
  dsimp only
  split
  · split
    · exact Nat.le_refl _
    · exact weightOfTrail_tail_le opened
  · exact Nat.le_refl _

/-- The loop of a walk: the next entry comes from the innermost directory, which is left once it has
no more. The levels of directories that have been left are cut off, and those who listen at the last
one hear of the entry. -/
def loop (visit : Visitor σ) : Trail → List (List Bool) → State σ → State σ
  | [], _, s => s
  | (_, []) :: outer, levels, s => loop visit outer levels s
  | (directory, (name, node) :: rest) :: outer, levels, s =>
    let trail := (directory, rest) :: outer
    if isHidden name then loop visit trail levels s.hide
    else
      let path := Path.join directory name
      let levels := levels.take trail.length
      let interested := levels[trail.length - 1]?.getD []
      let next := step visit path node.kind interested (openNode path node trail) levels s
      loop visit next.trail next.levels next.state
termination_by trail => weightOfTrail trail
decreasing_by
  · simp only [weightOfTrail]; omega
  · simp only [weightOfTrail, weightOf]; omega
  · refine Nat.lt_of_le_of_lt (weightOfTrail_step_le ..) ?_
    rw [weightOfTrail_openNode]
    simp only [weightOfTrail, weightOf]
    omega

/-- The walk from a path. A link at the root is followed, and is an entry of its own kind all the
same; in what it leads to nobody is interested. -/
def run (tree : FileTree) (visit : Visitor σ) (root : String) (subscribers : List σ) : State σ :=
  let everyone := subscribers.map fun _ => true
  let start : State σ := ⟨⟨0, 0, 0, 0⟩, subscribers⟩
  let unreadable := { start with counts := { start.counts with errors := 1 } }
  match tree.findEntry? root with
  | none => unreadable
  | some entry =>
    match if entry.kind = .symlink then tree.find? root else some entry with
    | none => unreadable
    | some node =>
      let next := step visit root entry.kind everyone (openNode root node []) [] start
      loop visit next.trail next.levels next.state

end Walk

end SymbolAtlas
