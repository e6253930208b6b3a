import Mathlib.Data.Finset.Prod
import Mathlib.Data.String.Basic
import SymbolAtlas.Dispatch.Indexer
import SymbolAtlas.Proofs.Ascending
import SymbolAtlas.Proofs.Path.Normal

/-!
# How many paths name files

Only finitely many absolute normal paths name a file of a tree, and `FileTree.pathBound` is no less
than their number (`FileTree.exists_bounded_paths`).

- **Names** (`Node.names`): the names of all entries. A way down the tree takes one of them at each
  step, and is shorter than the tree has nodes (`Node.descend?_spec`).
- **Ways through links** (`FileTree.Reads`): a path that leads somewhere is read name by name, from
  a link on in what is left of it. So all its names are names of entries, and between two links
  there are at most as many of them as there are nodes.
- **Counting** (`card_listsWithin`): names and lengths being bounded, so are the paths.
-/

namespace SymbolAtlas

/-! ## Names of entries -/

namespace Node

mutual

/-- The names of all entries of a tree. -/
def names : Node → List String
  | .directory entries => entryNames entries
  | .file _ | .link _ | .pipe => []

/-- The names of several entries and of all entries below them. -/
def entryNames : List (String × Node) → List String
  | [] => []
  | (name, node) :: rest => name :: (node.names ++ entryNames rest)

end

mutual

theorem length_names (node : Node) : node.names.length + 1 = node.size := by
  cases node with
  | directory entries => simp [names, size, length_entryNames entries]
  | file _ | link _ | pipe => rfl

theorem length_entryNames (entries : List (String × Node)) :
    (entryNames entries).length = sizes entries := by
  match entries with
  | [] => rfl
  | (name, node) :: rest =>
    have hnode := length_names node
    have hrest := length_entryNames rest
    simp only [entryNames, sizes, List.length_cons, List.length_append]
    omega

end

variable {node child : Node} {name : String}

theorem of_mem_entries {entries : List (String × Node)} (h : (name, child) ∈ entries) :
    name ∈ entryNames entries ∧ child.names ⊆ entryNames entries ∧ child.size ≤ sizes entries := by
  induction entries with
  | nil => cases h
  | cons entry rest ih =>
    rcases List.mem_cons.mp h with rfl | h
    · exact ⟨.head _, fun _ hx => .tail _ (List.mem_append_left _ hx), by simp [sizes]⟩
    · obtain ⟨hname, hnames, hsize⟩ := ih h
      exact ⟨.tail _ (List.mem_append_right _ hname),
        fun _ hx => .tail _ (List.mem_append_right _ (hnames hx)),
        Nat.le_trans hsize (by simp [sizes])⟩

theorem entry?_spec (h : node.entry? name = some child) :
    name ∈ node.names ∧ child.names ⊆ node.names ∧ child.size < node.size := by
  cases node with
  | directory entries =>
    obtain ⟨hname, hnames, hsize⟩ := of_mem_entries (Ascending.mem_of_get? h)
    exact ⟨hname, hnames, Nat.lt_succ_of_le hsize⟩
  | file _ | link _ | pipe => cases h

/-- A way down takes names of entries, and each step leaves a smaller tree. -/
theorem descend?_spec {way : List String} (h : node.descend? way = some child) :
    (∀ name ∈ way, name ∈ node.names) ∧ way.length + child.size ≤ node.size := by
  induction way generalizing node with
  | nil =>
    cases h
    simp
  | cons name rest ih =>
    obtain ⟨between, hbetween, hchild⟩ := Option.bind_eq_some_iff.mp h
    obtain ⟨hname, hnames, hsize⟩ := entry?_spec hbetween
    obtain ⟨hrest, hlength⟩ := ih hchild
    refine ⟨fun other hother => ?_, by rw [List.length_cons]; omega⟩
    rcases List.mem_cons.mp hother with rfl | hother
    · exact hname
    · exact hnames (hrest other hother)

theorem size_pos (node : Node) : 0 < node.size := by
  have := length_names node
  omega

end Node

/-! ## Ways through links -/

namespace FileTree

open SymbolAtlas.Path (Component)

/-- Whatever comes before them, names that lead somewhere are names of entries, and there are at
most `bound` of them. -/
def Reads (root : Node) (walk : List String → List Component → Option (List String))
    (bound : Nat) : Prop :=
  ∀ (here : List String) (before : List Component) (names place : List String),
    walk here (before ++ names.map .normal) = some place →
      (∀ name ∈ names, name ∈ root.names) ∧ names.length ≤ bound

variable {root : Node} {last : Bool}
  {jump : List String → List Component → Option (List String)} {bound : Nat}

/-- Names alone: each one goes down by one, until a link starts over. -/
theorem reads_follow_names (hjump : Reads root jump bound) {names here place : List String}
    (h : follow root last jump here (names.map .normal) = some place) :
    (∀ name ∈ names, name ∈ root.names) ∧ names.length ≤ root.size - here.length + bound := by
  induction names generalizing here with
  | nil => simp
  | cons name names ih =>
    simp only [List.map_cons, follow] at h
    cases hnode : root.descend? (name :: here).reverse with
    | none => simp only [hnode, reduceCtorEq] at h
    | some node =>
      obtain ⟨hway, hlength⟩ := Node.descend?_spec hnode
      have hname : name ∈ root.names := hway name (by simp)
      have hsize := node.size_pos
      rw [List.length_reverse, List.length_cons] at hlength
      -- what is left of the names is read further down, or after a link, or is nothing
      suffices hrest : (∀ other ∈ names, other ∈ root.names) ∧
          names.length ≤ root.size - (here.length + 1) + bound by
        refine ⟨List.forall_mem_cons.mpr ⟨hname, hrest.1⟩, ?_⟩
        have := hrest.2
        rw [List.length_cons]
        omega
      cases node with
      | directory entries =>
        simp only [hnode] at h
        exact ih h
      | link target =>
        simp only [hnode] at h
        split at h
        · rename_i hend
          simp only [Bool.and_eq_true, List.isEmpty_iff, List.map_eq_nil_iff] at hend
          simp [hend.1]
        · obtain ⟨hnames, hbound⟩ := hjump _ _ _ _ h
          exact ⟨hnames, by omega⟩
      | file _ | pipe =>
        simp only [hnode] at h
        split at h
        · rename_i hend
          simp only [List.isEmpty_iff, List.map_eq_nil_iff] at hend
          simp [hend]
        · cases h

theorem reads_follow (hjump : Reads root jump bound) :
    Reads root (follow root last jump) (root.size + bound) := by
  intro here before names place h
  induction before generalizing here with
  | nil =>
    obtain ⟨hnames, hbound⟩ := reads_follow_names hjump h
    exact ⟨hnames, by omega⟩
  | cons component before ih =>
    cases component with
    | root | current | parent => exact ih _ h
    | normal name =>
      simp only [List.cons_append, follow] at h
      split at h
      · cases h
      · exact ih _ h
      · split at h
        · rename_i hend
          simp only [Bool.and_eq_true, List.isEmpty_iff, List.append_eq_nil_iff,
            List.map_eq_nil_iff] at hend
          simp [hend.1.2]
        · rw [← List.append_assoc] at h
          obtain ⟨hnames, hbound⟩ := hjump _ _ _ _ h
          exact ⟨hnames, by omega⟩
      · split at h
        · rename_i hend
          simp only [List.isEmpty_iff, List.append_eq_nil_iff, List.map_eq_nil_iff] at hend
          simp [hend.2]
        · cases h

/-- Every link makes room for as many names as there are nodes. -/
theorem reads_followLinks (links : Nat) :
    Reads root (followLinks root last links) ((links + 1) * root.size) := by
  induction links with
  | zero =>
    have hnone : Reads root (fun _ _ => none) 0 := fun _ _ _ _ h => by cases h
    simpa [followLinks] using reads_follow hnone
  | succ links ih =>
    have hbound : (links + 1 + 1) * root.size = root.size + (links + 1) * root.size := by
      rw [Nat.succ_mul (links + 1), Nat.add_comm]
    rw [hbound]
    exact reads_follow ih

end FileTree

/-! ## Counting -/

section Lists

variable {α : Type} [DecidableEq α]

/-- The lists of at most so many members of a set. -/
def listsWithin (s : Finset α) : Nat → Finset (List α)
  | 0 => {[]}
  | n + 1 => insert [] ((s ×ˢ listsWithin s n).image fun pair => pair.1 :: pair.2)

theorem mem_listsWithin {s : Finset α} {n : Nat} {xs : List α} (hxs : ∀ x ∈ xs, x ∈ s)
    (hlength : xs.length ≤ n) : xs ∈ listsWithin s n := by
  induction xs generalizing n with
  | nil => cases n <;> simp [listsWithin]
  | cons x xs ih =>
    cases n with
    | zero => simp at hlength
    | succ n =>
      have hrest := ih (fun y hy => hxs y (.tail _ hy)) (Nat.le_of_succ_le_succ hlength)
      refine Finset.mem_insert_of_mem (Finset.mem_image.mpr ⟨(x, xs), ?_, rfl⟩)
      exact Finset.mem_product.mpr ⟨hxs x (.head _), hrest⟩

theorem card_listsWithin (s : Finset α) (n : Nat) :
    (listsWithin s n).card ≤ (s.card + 1) ^ n := by
  induction n with
  | zero => simp [listsWithin]
  | succ n ih =>
    calc (listsWithin s (n + 1)).card
        ≤ ((s ×ˢ listsWithin s n).image fun pair => pair.1 :: pair.2).card + 1 :=
          Finset.card_insert_le _ _
      _ ≤ s.card * (listsWithin s n).card + 1 := by
          rw [← Finset.card_product]
          exact Nat.add_le_add_right Finset.card_image_le 1
      _ ≤ s.card * (s.card + 1) ^ n + (s.card + 1) ^ n :=
          Nat.add_le_add (Nat.mul_le_mul_left _ ih) (Nat.one_le_pow _ _ (Nat.succ_pos _))
      _ = (s.card + 1) ^ (n + 1) := by rw [Nat.pow_succ, Nat.mul_succ, Nat.mul_comm]

end Lists

namespace FileTree

open SymbolAtlas.Path

variable {tree : FileTree} {path : String}

/-- A regular file is found by following the components of its path. -/
theorem exists_followLinks_of_isFile (hpath : Normal path) (h : tree.isFile path = true) :
    ∃ place, followLinks tree.root true linkLimit [] (components path) = some place := by
  have hjoin : join tree.workingDirectory path = path := by simp [join, hpath.absolute]
  simp only [isFile, find?, locate?, hjoin, Bool.true_or] at h
  cases hplace : followLinks tree.root true linkLimit [] (components path) with
  | none => simp [hplace] at h
  | some place => exact ⟨place, rfl⟩

/-- The names in the path of a file are two dots at most at the start, and then so many names of
entries. -/
theorem exists_names_of_isFile (hpath : Normal path) (h : tree.isFile path = true) :
    ∃ names, path = pathOf names ∧ (∀ name ∈ names, name = ".." ∨ name ∈ tree.root.names) ∧
      names.length ≤ (linkLimit + 1) * tree.root.size + 1 := by
  obtain ⟨place, hplace⟩ := exists_followLinks_of_isFile hpath h
  have hreads : Reads tree.root (followLinks tree.root true linkLimit) _ :=
    reads_followLinks linkLimit
  obtain ⟨names, htext, hcomponents, htail⟩ := hpath.exists_names
  refine ⟨names, htext, ?_⟩
  rw [hcomponents] at hplace
  have hnormal : ∀ rest : List String, (∀ name ∈ rest, name ≠ "..") →
      rest.map nameComponent = rest.map .normal := fun rest hrest =>
    List.map_congr_left fun name hname => if_neg (hrest name hname)
  cases names with
  | nil => simp
  | cons first rest =>
    rw [List.map_cons, hnormal rest htail] at hplace
    obtain ⟨hnames, hlength⟩ := hreads _ [.root, nameComponent first] _ _ hplace
    refine ⟨fun name hname => ?_, by rw [List.length_cons]; omega⟩
    rcases List.mem_cons.mp hname with rfl | hname
    · by_cases hup : name = ".."
      · exact .inl hup
      · rw [nameComponent, if_neg hup] at hplace
        exact .inr ((hreads _ [.root] (name :: rest) _ hplace).1 name (.head _))
    · exact .inr (hnames name hname)

theorem exists_bounded_paths (tree : FileTree) : ∃ paths : Finset String,
    paths.card ≤ tree.pathBound ∧
    ∀ path, Normal path → tree.isFile path = true → path ∈ paths := by
  let names : Finset String := insert ".." tree.root.names.toFinset
  let length := (linkLimit + 1) * tree.root.size + 1
  refine ⟨(listsWithin names length).image pathOf, ?_, fun path hpath hfile => ?_⟩
  · have hcard : names.card ≤ tree.root.size := by
      rw [← tree.root.length_names]
      exact (Finset.card_insert_le _ _).trans
        (Nat.add_le_add_right (List.toFinset_card_le _) 1)
    calc ((listsWithin names length).image pathOf).card
        ≤ (names.card + 1) ^ length := Finset.card_image_le.trans (card_listsWithin names length)
      _ ≤ (tree.root.size + 2) ^ length := Nat.pow_le_pow_left (by omega) _
      _ ≤ (tree.root.size + 2) ^ ((linkLimit + 2) * (tree.root.size + 2)) :=
          Nat.pow_le_pow_right (by omega) (by simp only [length, linkLimit]; omega)
  · obtain ⟨entries, rfl, hnames, hlength⟩ := exists_names_of_isFile hpath hfile
    refine Finset.mem_image_of_mem _ (mem_listsWithin (fun name hname => ?_) hlength)
    simpa [names] using hnames name hname

end FileTree

end SymbolAtlas
