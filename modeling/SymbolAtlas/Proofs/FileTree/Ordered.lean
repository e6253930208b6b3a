import Mathlib.Data.String.Basic
import SymbolAtlas.FileTree.Basic
import SymbolAtlas.Proofs.Ascending

/-!
# Ordered file trees

The entries of a directory stand in strictly ascending order of their names (`Node.Ordered`), so a
name is taken once and a lookup finds exactly the entries (`entry?_eq_some_iff`). Every change keeps
a tree ordered (`FileTree.ordered_place`, `FileTree.ordered_remove`), and so does going down in it
(`Ordered.descend?`).
-/

namespace SymbolAtlas

namespace Node

mutual

/-- The entries of every directory are in strictly ascending order of their names. -/
def Ordered : Node → Prop
  | .directory entries => Ascending.KeysAscending entries ∧ AllOrdered entries
  | .file _ | .link _ | .pipe => True

/-- The same of all entries of a directory. -/
def AllOrdered : List (String × Node) → Prop
  | [] => True
  | (_, node) :: rest => node.Ordered ∧ AllOrdered rest

end

variable {node new child : Node} {entries : List (String × Node)} {name : String}

theorem allOrdered_iff : AllOrdered entries ↔ ∀ entry ∈ entries, entry.2.Ordered := by
  induction entries with
  | nil => simp [AllOrdered]
  | cons entry rest ih => simp [AllOrdered, ih]

theorem ordered_directory : (directory entries).Ordered ↔
    Ascending.KeysAscending entries ∧ ∀ entry ∈ entries, entry.2.Ordered := by
  rw [Ordered, allOrdered_iff]

theorem ordered_directory_cons : (directory ((name, node) :: entries)).Ordered ↔
    (∀ entry ∈ entries, name < entry.1) ∧ node.Ordered ∧ (directory entries).Ordered := by
  simp only [ordered_directory, Ascending.KeysAscending, List.pairwise_cons, List.forall_mem_cons]
  constructor
  · rintro ⟨⟨hfirst, hkeys⟩, hnode, hall⟩
    exact ⟨hfirst, hnode, hkeys, hall⟩
  · rintro ⟨hfirst, hnode, hkeys, hall⟩
    exact ⟨⟨hfirst, hkeys⟩, hnode, hall⟩

/-- In an ordered directory, a lookup finds exactly the entries. -/
theorem entry?_eq_some_iff (h : (directory entries).Ordered) :
    Node.entry? name (directory entries) = some child ↔ (name, child) ∈ entries :=
  Ascending.get?_eq_some_iff h.1

theorem Ordered.below (h : node.Ordered) (hchild : node.entry? name = some child) :
    child.Ordered := by
  cases node with
  | directory entries =>
    exact (ordered_directory.mp h).2 _ ((entry?_eq_some_iff h).mp hchild)
  | file _ => cases hchild
  | link _ => cases hchild
  | pipe => cases hchild

theorem Ordered.descend? {names : List String} (h : node.Ordered)
    (hchild : node.descend? names = some child) : child.Ordered := by
  induction names generalizing node with
  | nil =>
    cases hchild
    exact h
  | cons name rest ih =>
    obtain ⟨between, hbetween, hchild⟩ := Option.bind_eq_some_iff.mp hchild
    exact ih (h.below hbetween) hchild

theorem descend?_append (node : Node) (names more : List String) :
    node.descend? (names ++ more) =
      (node.descend? names).bind fun child => child.descend? more := by
  induction names generalizing node with
  | nil => rfl
  | cons name names ih =>
    simp only [List.cons_append, Node.descend?, Option.bind_assoc, ih]

/-- Other entries in a directory leave the root a directory. -/
theorem exists_insert_directory {names : List String}
    (h : node.descend? names = some (.directory entries)) (others : List (String × Node)) :
    ∃ siblings, node.insert (.directory others) names = .directory siblings := by
  cases names with
  | nil => exact ⟨others, rfl⟩
  | cons name rest =>
    cases node with
    | directory siblings => exact ⟨_, rfl⟩
    | file _ => cases h
    | link _ => cases h
    | pipe => cases h

theorem ordered_put (h : (directory entries).Ordered) (name : String) (hnew : new.Ordered) :
    (directory (Ascending.put name new entries)).Ordered := by
  obtain ⟨hkeys, hall⟩ := ordered_directory.mp h
  refine ordered_directory.mpr ⟨Ascending.keysAscending_put name new hkeys, fun entry hentry => ?_⟩
  rcases Ascending.mem_put hentry with rfl | hentry
  · exact hnew
  · exact hall entry hentry

/-- What stands under a name in an ordered directory, or an empty directory, is ordered. -/
theorem ordered_getD (h : (directory entries).Ordered) (name : String) :
    ((Ascending.get? name entries).getD (.directory [])).Ordered := by
  cases hchild : Ascending.get? name entries with
  | none => exact ordered_directory.mpr ⟨.nil, by simp⟩
  | some child => exact h.below hchild

theorem Ordered.insert (h : node.Ordered) (hnew : new.Ordered) (names : List String) :
    (node.insert new names).Ordered := by
  induction names generalizing node with
  | nil => exact hnew
  | cons name rest ih =>
    cases node with
    | directory entries => exact ordered_put h name (ih (ordered_getD h name))
    | file _ => exact h
    | link _ => exact h
    | pipe => exact h

theorem Ordered.erase (h : node.Ordered) (names : List String) : (node.erase names).Ordered := by
  fun_induction Node.erase node names with
  | case1 => exact h
  | case2 name entries =>
    obtain ⟨hkeys, hall⟩ := ordered_directory.mp h
    exact ordered_directory.mpr ⟨hkeys.filter _, fun entry hentry =>
      hall entry (List.mem_of_mem_filter hentry)⟩
  | case3 => exact h
  | case4 name rest _ entries child hchild ih => exact ordered_put h name (ih (h.below hchild))
  | case5 => exact h
  | case6 => exact h

end Node

namespace FileTree

variable {tree : FileTree}

theorem ordered_makeDirectories (h : tree.root.Ordered) (path : String) :
    (tree.makeDirectories path).root.Ordered := by
  have hempty : (Node.directory []).Ordered := Node.ordered_directory.mpr ⟨.nil, by simp⟩
  have hone : ∀ (tree : FileTree) (path : String), tree.root.Ordered →
      (tree.makeDirectory path).root.Ordered := by
    intro tree path h
    unfold makeDirectory
    split
    · exact h
    · split
      · split
        · exact h.insert hempty _
        · exact h
      · exact h
  unfold makeDirectories
  induction ancestors path generalizing tree with
  | nil => exact h
  | cons ancestor rest ih => exact ih (hone tree ancestor h)

theorem ordered_place (h : tree.root.Ordered) (path : String) {node : Node} (hnode : node.Ordered) :
    (tree.place path node).root.Ordered := by
  unfold place
  split
  · rename_i parent name _
    have hparent := ordered_makeDirectories h parent
    dsimp only
    split
    · exact hparent.insert hnode _
    · exact hparent.insert hnode _
    · exact hparent
  · exact h

theorem ordered_remove (h : tree.root.Ordered) (path : String) :
    (tree.remove path).root.Ordered := by
  unfold remove
  split
  · exact h.erase _
  · exact h

theorem ordered_findEntry? (h : tree.root.Ordered) {path : String} {node : Node}
    (hfind : tree.findEntry? path = some node) : node.Ordered := by
  obtain ⟨names, -, hnode⟩ := Option.bind_eq_some_iff.mp hfind
  exact h.descend? hnode

end FileTree

end SymbolAtlas
