import SymbolAtlas.FileTree.Walk
import SymbolAtlas.Proofs.FileTree.Ordered

/-!
# Walks as descents

The loop of a walk keeps the directories that are open and those who listen in each of them. It does
the same as a recursion over the sorted tree, which is easier to speak of.

- **The recursion** (`Walk.visitNode`, `Walk.visitEntries`): a node, and what lies below it if
  someone is still interested.
- **Sorted trees** (`Walk.sortNode`): the entries of every directory in order. An ordered tree is
  sorted as it stands (`sortNode_of_ordered`).
- **Levels** (`loop_congr`): what the loop does depends on the levels of the open directories only.
- **Descents** (`loop_step`, `loop_visitEntries`): after an entry the loop does what lies below it,
  and goes on where it was before.
- **The walk** (`run_eq_visitNode`): from a root that is no link, it is the recursion from there.
-/

namespace SymbolAtlas

namespace Walk

variable {σ : Type}

mutual

/-- Visit a node and what lies below it. -/
def visitNode (visit : Visitor σ) (path : String) (interested : List Bool) (s : State σ) :
    Node → State σ
  | .directory entries =>
    let (s, still) := enter visit path .directory interested s
    if still.any id then visitEntries visit path still s entries else s
  | .file _ => (enter visit path .regular interested s).1
  | .link _ => (enter visit path .symlink interested s).1
  | .pipe => (enter visit path .other interested s).1

/-- Visit the entries of a directory. -/
def visitEntries (visit : Visitor σ) (path : String) (interested : List Bool) (s : State σ) :
    List (String × Node) → State σ
  | [] => s
  | (name, node) :: rest =>
    let s := if isHidden name then s.hide
      else visitNode visit (Path.join path name) interested s node
    visitEntries visit path interested s rest

end

variable {visit : Visitor σ} {path directory name : String} {node : Node}
  {entries rest : List (String × Node)} {trail outer : Trail} {levels levels' : List (List Bool)}
  {interested : List Bool} {s : State σ}

/-! ## Sorted trees -/

mutual

/-- The node with all directories sorted. -/
def sortNode : Node → Node
  | .directory entries => .directory (sortByName (sortBelow entries))
  | node@(.file _) | node@(.link _) | node@(.pipe) => node

/-- The entries with all directories sorted that lie below. -/
def sortBelow : List (String × Node) → List (String × Node)
  | [] => []
  | (name, node) :: rest => (name, sortNode node) :: sortBelow rest

end

theorem sortBelow_insertByName (name : String) (node : Node) (entries : List (String × Node)) :
    sortBelow (insertByName (name, node) entries) =
      insertByName (name, sortNode node) (sortBelow entries) := by
  induction entries with
  | nil => rfl
  | cons entry rest ih =>
    obtain ⟨other, child⟩ := entry
    simp only [insertByName, sortBelow]
    split
    · rw [sortBelow, ih]
    · rfl

/-- It makes no difference whether a directory is sorted before what lies below. -/
theorem sortBelow_sortByName (entries : List (String × Node)) :
    sortBelow (sortByName entries) = sortByName (sortBelow entries) := by
  unfold sortByName
  induction entries with
  | nil => rfl
  | cons entry rest ih =>
    rw [List.foldr_cons, sortBelow_insertByName, ih, sortBelow, List.foldr_cons]

theorem sortByName_of_ascending (h : Ascending.KeysAscending entries) :
    sortByName entries = entries := by
  unfold sortByName
  induction entries with
  | nil => rfl
  | cons entry rest ih =>
    obtain ⟨hfirst, hrest⟩ := List.pairwise_cons.mp h
    rw [List.foldr_cons, ih hrest]
    cases rest with
    | nil => rfl
    | cons other _ => rw [insertByName, if_neg (lt_asymm (hfirst other (.head _)))]

mutual

theorem sortNode_of_ordered : ∀ {node : Node}, node.Ordered → sortNode node = node
  | .file _, _ | .link _, _ | .pipe, _ => rfl
  | .directory entries, h => by
    rw [sortNode, sortBelow_of_ordered h, sortByName_of_ascending h.1]

theorem sortBelow_of_ordered : ∀ {entries : List (String × Node)},
    (Node.directory entries).Ordered → sortBelow entries = entries
  | [], _ => rfl
  | (name, node) :: rest, h => by
    obtain ⟨-, hnode, hrest⟩ := Node.ordered_directory_cons.mp h
    rw [sortBelow, sortNode_of_ordered hnode, sortBelow_of_ordered hrest]

end

theorem sortBelow_put (name : String) (node : Node) (entries : List (String × Node)) :
    sortBelow (Ascending.put name node entries) =
      Ascending.put name (sortNode node) (sortBelow entries) := by
  induction entries with
  | nil => rfl
  | cons entry rest ih =>
    obtain ⟨first, child⟩ := entry
    simp only [Ascending.put, sortBelow]
    split
    · rfl
    · split
      · rw [sortBelow, ih]
      · rfl

/-- Whatever is put into an ordered tree, nothing but that has to be sorted. -/
theorem sortNode_insert {node child : Node} (h : node.Ordered) (new : Node) {names : List String}
    (hchild : node.descend? names = some child) :
    sortNode (node.insert new names) = node.insert (sortNode new) names := by
  induction names generalizing node with
  | nil => rfl
  | cons name rest ih =>
    obtain ⟨between, hentry, hbelow⟩ := Option.bind_eq_some_iff.mp hchild
    cases node with
    | file _ => cases hentry
    | link _ => cases hentry
    | pipe => cases hentry
    | directory siblings =>
      have hget : Ascending.get? name siblings = some between := hentry
      simp only [Node.insert, hget, Option.getD_some, sortNode]
      rw [sortBelow_put, sortBelow_of_ordered h, ih (h.below hentry) hbelow,
        sortByName_of_ascending (Ascending.keysAscending_put _ _ h.1)]

/-! ## Steps of the loop -/

/-- Where nobody is told, nobody wants to go on. -/
theorem ne_nil_of_still (h : (enter visit path .directory interested s).2.any id = true) :
    interested ≠ [] := by
  rintro rfl
  simp [enter, notify] at h

theorem step_directory (visit : Visitor σ) (path : String) (interested : List Bool) (opened : Trail)
    (levels : List (List Bool)) (s : State σ) :
    step visit path .directory interested opened levels s =
      if (enter visit path .directory interested s).2.any id then
        ⟨opened, levels ++ [(enter visit path .directory interested s).2],
          (enter visit path .directory interested s).1⟩
      else ⟨opened.tail, levels, (enter visit path .directory interested s).1⟩ := rfl

theorem loop_leave : loop visit ((directory, []) :: outer) levels s = loop visit outer levels s := by
  rw [loop]

theorem loop_hidden (h : isHidden name = true) :
    loop visit ((directory, (name, node) :: rest) :: outer) levels s =
      loop visit ((directory, rest) :: outer) levels s.hide := by
  rw [loop, if_pos h]

theorem loop_visible (h : isHidden name = false) :
    loop visit ((directory, (name, node) :: rest) :: outer) levels s =
      let levels := levels.take (outer.length + 1)
      let next := step visit (Path.join directory name) node.kind (levels[outer.length]?.getD [])
        (openNode (Path.join directory name) node ((directory, rest) :: outer)) levels s
      loop visit next.trail next.levels next.state := by
  rw [loop, if_neg (by simp [h])]
  rfl

/-- What the loop does depends on the levels of the open directories only. -/
theorem loop_congr (h : levels.take trail.length = levels'.take trail.length) :
    loop visit trail levels s = loop visit trail levels' s := by
  induction trail, levels, s using loop.induct visit generalizing levels' with
  | case1 levels s => rw [loop, loop]
  | case2 directory outer levels s ih =>
    rw [loop_leave, loop_leave]
    refine ih ?_
    have hfewer := congrArg (List.take outer.length) h
    simpa [List.take_take] using hfewer
  | case3 directory name node rest outer levels s trail hhidden =>
    rename_i ih
    rw [loop_hidden hhidden, loop_hidden hhidden]
    exact ih h
  | case4 directory name node rest outer levels s trail hvisible =>
    have hvisible : isHidden name = false := by simpa using hvisible
    rw [loop_visible hvisible, loop_visible hvisible]
    have hcut : levels.take (outer.length + 1) = levels'.take (outer.length + 1) := h
    rw [hcut]

/-! ## Descents -/

mutual

/-- After an entry, the loop does what lies below it, and goes on with what was open before. -/
theorem loop_step (visit : Visitor σ) (path : String) (trail : Trail) (levels : List (List Bool))
    (interested : List Bool) (hlevels : interested ≠ [] → levels.length = trail.length)
    (s : State σ) (node : Node) :
    let next := step visit path node.kind interested (openNode path node trail) levels s
    loop visit next.trail next.levels next.state =
      loop visit trail levels (visitNode visit path interested s (sortNode node)) := by
  match node with
  | .file _ | .link _ | .pipe => rfl
  | .directory entries =>
    simp only [Node.kind, openNode, sortNode, visitNode, step_directory]
    by_cases hstill : (enter visit path .directory interested s).2.any id = true
    · rw [if_pos hstill, if_pos hstill]
      have hdepth := hlevels (ne_nil_of_still hstill)
      rw [loop_visitEntries visit path trail, ← hdepth, List.getElem?_concat_length,
        sortBelow_sortByName]
      exact loop_congr (by rw [← hdepth]; simp)
    · rw [if_neg hstill, if_neg hstill]
      rfl
termination_by weight node
decreasing_by
  rw [weightOf_sortByName, weight]
  exact Nat.lt_succ_self _

/-- The loop visits the entries of the innermost directory and goes on with the others. -/
theorem loop_visitEntries (visit : Visitor σ) (path : String) (outer : Trail)
    (levels : List (List Bool)) (s : State σ) (entries : List (String × Node)) :
    loop visit ((path, entries) :: outer) levels s =
      loop visit outer levels
        (visitEntries visit path (levels[outer.length]?.getD []) s (sortBelow entries)) := by
  match entries with
  | [] => exact loop_leave
  | (name, node) :: rest =>
    rw [sortBelow, visitEntries]
    cases hhidden : isHidden name with
    | true =>
      rw [loop_hidden hhidden, loop_visitEntries visit path outer levels _ rest]
      rfl
    | false =>
      have hcut : (levels.take (outer.length + 1))[outer.length]? = levels[outer.length]? :=
        List.getElem?_take_of_lt (Nat.lt_succ_self _)
      -- who listens in the directory has a level, so that none is missing
      have hlevels : levels[outer.length]?.getD [] ≠ [] →
          (levels.take (outer.length + 1)).length = ((path, rest) :: outer).length := by
        intro hsome
        have hlength : outer.length < levels.length := by
          by_contra hshort
          rw [List.getElem?_eq_none (Nat.le_of_not_lt hshort)] at hsome
          exact hsome rfl
        simp [List.length_take, Nat.min_eq_left hlength]
      rw [loop_visible hhidden]
      dsimp only
      rw [hcut, loop_step visit _ _ _ _ hlevels s node, loop_visitEntries visit path outer _ _ rest,
        hcut]
      exact loop_congr (by simp [List.take_take])
termination_by weightOf entries
decreasing_by
  all_goals simp only [weightOf]; omega

end

/-- The walk from a root that is no link is the recursion from there. -/
theorem run_eq_visitNode (tree : FileTree) (visit : Visitor σ) {root : String} {node : Node}
    (hroot : tree.findEntry? root = some node) (hlink : ∀ target, node ≠ .link target)
    (subscribers : List σ) :
    run tree visit root subscribers =
      visitNode visit root (subscribers.map fun _ => true) ⟨⟨0, 0, 0, 0⟩, subscribers⟩
        (sortNode node) := by
  have hkind : node.kind ≠ .symlink := by
    cases node with
    | link target => exact absurd rfl (hlink target)
    | file _ | directory _ | pipe => simp [Node.kind]
  unfold run
  rw [hroot]
  dsimp only
  rw [if_neg hkind]
  dsimp only
  rw [loop_step visit root [] [] _ (fun _ => rfl) _ node, loop]

end Walk

end SymbolAtlas
