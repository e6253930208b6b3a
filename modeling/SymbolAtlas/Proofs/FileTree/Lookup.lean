import SymbolAtlas.Proofs.FileTree.Listing
import SymbolAtlas.Proofs.Path.Components

/-!
# Paths below a directory

A path that names a directory, with the name of one of its entries behind it, names that entry
(`locate?_join`), whatever links were followed on the way to the directory; where there is no such
entry, it names nothing. So the path under which a walk comes to a directory names this directory
(`locate?_pathTo`).
-/

namespace SymbolAtlas

/-! ## Names behind a path -/

namespace Path

variable {path name : String}

theorem isAbsolute_eq_false_of_isName (h : IsName name) : isAbsolute name = false := by
  have hhead : name.toList.head? ≠ some '/' := fun hslash =>
    h.noSlash (List.mem_of_mem_head? hslash)
  simpa [isAbsolute] using hhead

theorem components_name (h : (Component.normal name).Proper) :
    components name = [.normal name] := by
  have hcut : Text.cut '/' name.toList = [name.toList] := by
    have hfree : ∀ piece ∈ [name.toList], '/' ∉ piece := by simpa using h.1.noSlash
    simpa using Text.cut_intercalate hfree (by simp)
  have hdot : name.toList ≠ ['.'] := fun heq => h.1.noDot (String.toList_inj.mp heq)
  simp [components, hcut, isAbsolute_eq_false_of_isName h.1, hdot, pieceComponent?_toList h.1,
    nameComponent, h.2]

/-- A path with a name behind it ends with this name. -/
theorem exists_toList_join (path name : String) :
    ∃ before, (join path name).toList = before ++ name.toList := by
  unfold join
  split
  · exact ⟨[], rfl⟩
  · split
    · exact ⟨path.toList, String.toList_append⟩
    · exact ⟨(path ++ "/").toList, String.toList_append⟩

/-- A name behind a path is one more component, also as seen from a directory. -/
theorem components_join_name (base : String) (hpath : path ≠ "")
    (h : (Component.normal name).Proper) :
    components (join base (join path name)) = components (join base path) ++ [.normal name] := by
  have hname := isAbsolute_eq_false_of_isName h.1
  obtain ⟨-, tail, hjoin, -⟩ := exists_cut_join hpath hname
  have habsolute : isAbsolute (join path name) = isAbsolute path := by
    rw [hjoin, isAbsolute_append hpath]
  have hcomponents : components (join path name) = components path ++ [.normal name] := by
    rw [components_join hpath hname, components_name h]
    rfl
  cases hp : isAbsolute path with
  | true =>
    have hself : ∀ p, isAbsolute p = true → join base p = p := fun p hp => by simp [join, hp]
    rw [hself _ (habsolute.trans hp), hself _ hp, hcomponents]
  | false =>
    by_cases hbase : base = ""
    · have hself : ∀ p, join base p = p := fun p => by simp [join, hbase]
      rw [hself, hself, hcomponents]
    · rw [components_join hbase (habsolute.trans hp), components_join hbase hp, hcomponents,
        List.filter_append, List.append_assoc]
      rfl

end Path

namespace FileTree

open SymbolAtlas.Path (Component)

/-- A path with a name behind it does not ask for a directory. -/
theorem namesDirectory_join {path name : String} (h : (Component.normal name).Proper) :
    namesDirectory (Path.join path name) = false := by
  obtain ⟨before, hjoin⟩ := Path.exists_toList_join path name
  have hslash : '/' ∉ name.toList.reverse := by simpa using h.1.noSlash
  have hempty : name.toList.reverse ≠ [] := by
    simpa [String.toList_eq_nil_iff] using h.1.nonempty
  have hdot : name.toList.reverse ≠ ['.'] := by
    intro heq
    have hname : name.toList = ['.'] := by simpa using congrArg List.reverse heq
    exact h.1.noDot (String.toList_inj.mp hname)
  rw [namesDirectory, hjoin, List.reverse_append]
  generalize name.toList.reverse = chars at hslash hempty hdot ⊢
  rcases chars with _ | ⟨c, rest⟩
  · exact absurd rfl hempty
  · rw [List.cons_append]
    split
    · rename_i heq
      cases heq
      simp at hslash
    · rename_i heq
      obtain ⟨rfl, hrest⟩ := List.cons.inj heq
      exact absurd (by rw [(List.append_eq_nil_iff.mp hrest).1]) hdot
    · rename_i heq
      obtain ⟨rfl, hrest⟩ := List.cons.inj heq
      rcases rest with _ | ⟨d, rest⟩
      · exact absurd rfl hdot
      · cases hrest
        simp at hslash
    · rfl

/-! ## Following -/

section

variable {root : Node} {name : String}

/-- Where the one way leads to a directory, the other one, which follows the name behind it, leads
to the entry with this name unless that is a link. -/
def LeadsBelow (root : Node) (name : String)
    (walk walk' : List String → List Component → Option (List String)) : Prop :=
  ∀ here cs place entries, walk here cs = some place →
    root.descend? place.reverse = some (.directory entries) →
    (∀ target, root.descend? (name :: place).reverse ≠ some (.link target)) →
    walk' here (cs ++ [.normal name]) =
      if (root.descend? (name :: place).reverse).isSome then some (name :: place) else none

theorem leadsBelow_follow {jump jump' : List String → List Component → Option (List String)}
    (hjump : LeadsBelow root name jump jump') (last last' : Bool) :
    LeadsBelow root name (follow root last jump) (follow root last' jump') := by
  intro here cs place entries hwalk hplace hlink
  induction cs generalizing here with
  | nil =>
    cases hwalk
    rw [List.nil_append, follow]
    cases hentry : root.descend? (name :: place).reverse with
    | none => rfl
    | some node =>
      cases node with
      | directory _ => rfl
      | link target => exact absurd hentry (hlink target)
      | file _ => rfl
      | pipe => rfl
  | cons component rest ih =>
    cases component with
    | root | current | parent => exact ih _ hwalk
    | normal first =>
      have hmore : (rest ++ [Component.normal name]).isEmpty = false := by simp
      rw [List.cons_append, follow]
      rw [follow] at hwalk
      cases hfirst : root.descend? (first :: here).reverse with
      | none =>
        rw [hfirst] at hwalk
        cases hwalk
      | some node =>
        rw [hfirst] at hwalk
        cases node with
        | directory _ => exact ih _ hwalk
        | link target =>
          simp only [hmore, Bool.false_and, Bool.false_eq_true, if_false] at hwalk ⊢
          split at hwalk
          · -- the way ends at the link itself, which is no directory
            cases hwalk
            rw [hfirst] at hplace
            cases hplace
          · rw [← List.append_assoc]
            exact hjump _ _ _ _ hwalk hplace hlink
        | file _ | pipe =>
          simp only at hwalk
          split at hwalk
          · cases hwalk
            rw [hfirst] at hplace
            cases hplace
          · cases hwalk

theorem leadsBelow_followLinks (last last' : Bool) (links : Nat) :
    LeadsBelow root name (followLinks root last links) (followLinks root last' links) := by
  induction links with
  | zero => exact leadsBelow_follow (fun _ _ _ _ h => by cases h) last last'
  | succ links ih => exact leadsBelow_follow ih last last'

end

section

variable {tree : FileTree} {path name : String} {names : List String}
  {entries : List (String × Node)}

theorem exists_of_locate? {last : Bool} (h : tree.locate? last path = some names) :
    ∃ place, followLinks tree.root (last || namesDirectory path) linkLimit []
      (Path.components (Path.join tree.workingDirectory path)) = some place ∧
        place.reverse = names := by
  unfold locate? at h
  split at h
  · cases h
  · dsimp only at h
    split at h
    · cases h
    · split at h
      · cases h
      · exact ⟨_, ‹_›, Option.some.inj h⟩

/-- Behind the path of a directory, the name of an entry that is no link leads to this entry, and
any other name leads nowhere. -/
theorem locate?_join {last : Bool} (hpath : tree.locate? last path = some names)
    (hdirectory : tree.root.descend? names = some (.directory entries))
    (hname : (Component.normal name).Proper)
    (hlink : ∀ target, tree.root.descend? (names ++ [name]) ≠ some (.link target)) (last' : Bool) :
    tree.locate? last' (Path.join path name) =
      if (tree.root.descend? (names ++ [name])).isSome then some (names ++ [name]) else none := by
  have hnonempty : path ≠ "" := by
    rintro rfl
    cases hpath
  have hjoined : (Path.join path name).isEmpty = false := by
    obtain ⟨before, hjoin⟩ := Path.exists_toList_join path name
    rw [Bool.eq_false_iff, ne_eq, String.isEmpty_iff, ← String.toList_eq_nil_iff, hjoin]
    simp [String.toList_eq_nil_iff, hname.1.nonempty]
  obtain ⟨place, hplace, rfl⟩ := exists_of_locate? hpath
  rw [← List.reverse_cons] at hlink ⊢
  have hbelow := leadsBelow_followLinks _ last' linkLimit _ _ _ _ hplace hdirectory hlink
  rw [← Path.components_join_name tree.workingDirectory hnonempty hname] at hbelow
  unfold locate?
  simp only [hjoined, namesDirectory_join hname, Bool.or_false, hbelow, Bool.false_and,
    Bool.false_eq_true, if_false]
  by_cases hentry : (tree.root.descend? (name :: place).reverse).isSome = true
  · rw [if_pos hentry, if_pos hentry]
  · rw [if_neg hentry, if_neg hentry]

/-- The path under which a walk comes to a directory names this directory. -/
theorem locate?_pathTo {root : String} {node : Node} (hroot : tree.locate? false root = some names)
    (hnode : tree.root.descend? names = some node) {below : List String}
    (hbelow : ∀ name ∈ below, (Component.normal name).Proper)
    (hdirectory : node.descend? below = some (.directory entries)) :
    tree.locate? false (Walk.pathTo root below) = some (names ++ below) := by
  induction below using List.reverseRecOn generalizing entries with
  | nil => rwa [List.append_nil]
  | append_singleton below name ih =>
    rw [Node.descend?_append] at hdirectory
    obtain ⟨parent, hparent, hentry⟩ := Option.bind_eq_some_iff.mp hdirectory
    cases parent with
    | file _ => cases hentry
    | link _ => cases hentry
    | pipe => cases hentry
    | directory siblings =>
      have hplace := ih (fun other hother => hbelow other (List.mem_append_left _ hother)) hparent
      have habove : tree.root.descend? (names ++ below) = some (.directory siblings) := by
        rw [Node.descend?_append, hnode]
        exact hparent
      have hhere : tree.root.descend? (names ++ below ++ [name]) = some (.directory entries) := by
        rw [Node.descend?_append, habove]
        exact hentry
      have hjoin := locate?_join hplace habove (hbelow name (by simp))
        (by rw [hhere]; simp) false
      rw [hhere, List.append_assoc] at hjoin
      rw [Walk.pathTo, List.foldl_append]
      exact hjoin

/-- There is something behind the path of a directory that a walk comes to if the directory has an
entry with this name. -/
theorem exists?_join_pathTo {root : String} {node : Node}
    (hroot : tree.findEntry? root = some node) {below : List String}
    (hbelow : ∀ name ∈ below, (Component.normal name).Proper)
    (hdirectory : node.descend? below = some (.directory entries))
    (hname : (Component.normal name).Proper)
    (hlink : ∀ target, node.descend? (below ++ [name]) ≠ some (.link target)) :
    tree.exists? (Path.join (Walk.pathTo root below) name) =
      (node.descend? (below ++ [name])).isSome := by
  obtain ⟨names, hnames, hnode⟩ := Option.bind_eq_some_iff.mp hroot
  have hdescend : ∀ more, tree.root.descend? (names ++ more) = node.descend? more := by
    intro more
    rw [Node.descend?_append, hnode]
    rfl
  have hlocate := locate?_join (locate?_pathTo hnames hnode hbelow hdirectory)
    (by rw [hdescend, hdirectory]) hname
    (by rw [List.append_assoc, hdescend]; exact hlink) true
  rw [List.append_assoc, hdescend] at hlocate
  rw [exists?, find?, hlocate]
  split
  · rw [Option.bind_some, hdescend]
  · rename_i hnone
    simpa using hnone

end

end FileTree

end SymbolAtlas
