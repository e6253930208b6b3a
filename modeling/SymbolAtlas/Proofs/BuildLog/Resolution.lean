import SymbolAtlas.Proofs.BuildLog.Acceptance
import SymbolAtlas.Proofs.Path.Lexical

/-!
# Resolving paths in steps

The paths of an entry are resolved against the directory of the entry, which is resolved against
the base before. This makes no difference: what counts is the path that the three make up.

- **Joining** (`Path.join_assoc`): it does not matter whether the directory is joined to the base or
  the path to the directory first.
- **Normal forms on the way** (`Path.normalize_join_normalize`): a path leads to the same place from
  a directory and from its normal form, although the normal form may name another place.
- **Names** (`Path.exists_names_normalize`): a normal form is a list of names, with a root in front
  if the path has one. Only the first of them may be two dots.
- **Entries** (`Entry.action_paths`): the paths of an action are those of its entry, each joined to
  the directory and the base and then resolved once.
-/

namespace SymbolAtlas

namespace Path

/-! ## Joining -/

/-- What is put between a directory and a relative path. -/
def gap (base : String) : String := if base.toList.getLast? = some '/' then "" else "/"

theorem join_of_isAbsolute {p : String} (base : String) (hp : isAbsolute p = true) :
    join base p = p := by
  simp [join, hp]

theorem join_empty (p : String) : join "" p = p := by
  simp [join]

theorem join_relative {base p : String} (hbase : base ≠ "") (hp : isAbsolute p = false) :
    join base p = base ++ gap base ++ p := by
  have hempty : base.isEmpty = false := by
    rw [Bool.eq_false_iff, ne_eq, String.isEmpty_iff]
    exact hbase
  by_cases hlast : base.toList.getLast? = some '/'
  · simp [join, gap, hp, hempty, hlast]
  · simp [join, gap, hp, hempty, hlast]

theorem gap_append {base p : String} (hp : p ≠ "") : gap (base ++ p) = gap p := by
  have hchars : p.toList ≠ [] := by simpa [String.toList_eq_nil_iff] using hp
  simp only [gap, String.toList_append, List.getLast?_append_of_ne_nil _ hchars]

theorem gap_append_gap (base : String) : gap (base ++ gap base) = "" := by
  by_cases hlast : base.toList.getLast? = some '/'
  · simp [gap, hlast]
  · have hgap : gap base = "/" := if_neg hlast
    rw [hgap, gap_append (by decide)]
    rfl

theorem isAbsolute_join_eq (base p : String) :
    isAbsolute (join base p) = (isAbsolute base || isAbsolute p) := by
  cases hp : isAbsolute p with
  | true => rw [join_of_isAbsolute base hp, hp, Bool.or_true]
  | false =>
    by_cases hbase : base = ""
    · rw [hbase, join_empty, hp]
      rfl
    · rw [join_relative hbase hp, String.append_assoc, isAbsolute_append hbase, Bool.or_false]

theorem join_assoc (base dir p : String) : join (join base dir) p = join base (join dir p) := by
  cases hp : isAbsolute p with
  | true => rw [join_of_isAbsolute _ hp, join_of_isAbsolute dir hp, join_of_isAbsolute base hp]
  | false =>
    cases hdir : isAbsolute dir with
    | true =>
      have hjoin : isAbsolute (join dir p) = true := by rw [isAbsolute_join_eq, hdir, Bool.true_or]
      rw [join_of_isAbsolute base hdir, join_of_isAbsolute base hjoin]
    | false =>
      by_cases hbase : base = ""
      · rw [hbase, join_empty, join_empty]
      have hjoin : isAbsolute (join dir p) = false := by rw [isAbsolute_join_eq, hdir, hp]; rfl
      have hstem : base ++ gap base ≠ "" := by simp [hbase]
      rw [join_relative hbase hdir, join_relative hbase hjoin]
      by_cases hempty : dir = ""
      · -- an empty directory only closes the base by a slash
        rw [hempty, join_empty, String.append_empty, join_relative hstem hp, gap_append_gap,
          String.append_empty]
      · rw [join_relative hempty hp, join_relative (by simp [hempty]) hp, gap_append hempty]
        simp only [String.append_assoc]

/-! ## Normal forms on the way -/

/-- The normal form of a directory can stand for the directory. -/
theorem normalize_join_normalize (base p : String) :
    normalize (join (normalize base) p) = normalize (join base p) := by
  rw [normalize_eq_iff, trail_join, trail_join, trail_normalize]

theorem normalize_normalize (p : String) : normalize (normalize p) = normalize p := by
  rw [normalize_eq_iff, trail_normalize]

theorem resolve_resolve (base dir p : String) :
    resolve (resolve base dir) p = normalize (join (join base dir) p) :=
  normalize_join_normalize (join base dir) p

theorem isAbsolute_normalize (p : String) : isAbsolute (normalize p) = isAbsolute p := by
  obtain ⟨names, h⟩ := exists_comesTo p
  exact h.isAbsolute_normalize

/-- A normal form is made of names, and two dots come first if at all. -/
theorem exists_names_normalize (p : String) : ∃ names : List String,
    normalize p = (if isAbsolute p then "/" else "") ++ "/".intercalate names ∧
    components (normalize p) = (if isAbsolute p then [.root] else []) ++ names.map nameComponent ∧
    (∀ name ∈ names, IsName name) ∧ ".." ∉ names.tail := by
  obtain ⟨names, h⟩ := exists_comesTo p
  have htrail := h.trail_eq
  have hproper := proper_trail p
  refine ⟨(trail p).names.reverse, ?_, ?_, fun name hname => ?_, fun hdots => ?_⟩
  · rw [normalize, Trail.text, htrail]
  · have hnames : names.map nameComponent = names.map .normal :=
      List.map_congr_left fun name hname => if_neg (h.isName name hname).2
    rw [h.components_normalize, htrail]
    simp [hnames, nameComponent]
  · exact hproper.isName name (List.mem_reverse.mp hname)
  · rw [List.tail_reverse, List.mem_reverse] at hdots
    exact hproper.inner ".." hdots rfl

end Path

/-! ## Entries -/

namespace BuildLog

namespace Entry

/-- The directory that an entry gives. -/
def directory? : Entry → Option String
  | .native _ _ _ _ directory => directory
  | .compilation directory _ _ _ _ => some directory

/-- The sources of an entry, as they are written. -/
def sources : Entry → List String
  | .native _ _ sources _ _ => sources
  | .compilation _ file _ _ _ => [file]

/-- The targets of an entry, as they are written. -/
def targets : Entry → List String
  | .native _ _ _ targets _ => targets
  | .compilation _ _ command arguments output =>
    (output.or ((words? command arguments).bind Command.output?)).toList

/-- A path of an entry joined to the directory of the entry and to the base. -/
def joined (base : String) (entry : Entry) (p : String) : String :=
  Path.join (entry.directory?.elim base (Path.join base)) p

variable {base : String} {index : Nat} {entry : Entry} {action : LogAction}

/-- The directory of an entry, resolved or not, leads to the same paths. -/
theorem resolve_directory (base : String) (entry : Entry) (p : String) :
    Path.resolve (entry.directory?.elim base (Path.resolve base)) p =
      Path.normalize (entry.joined base p) := by
  rw [joined]
  cases entry.directory? with
  | none => rfl
  | some dir => exact Path.resolve_resolve base dir p

theorem action_paths (h : entry.action base index = .ok action) :
    action.sources = entry.sources.map (fun p => Path.normalize (entry.joined base p)) ∧
    action.targets = entry.targets.map fun p => Path.normalize (entry.joined base p) := by
  simp only [← resolve_directory]
  cases entry with
  | native kind command sources targets directory =>
    rw [action_native] at h
    split at h
    · cases h
    · cases h
      exact ⟨rfl, rfl⟩
  | compilation directory file command arguments output =>
    rw [action_compilation_eq] at h
    split at h
    · cases h
    · rename_i words hwords
      cases h
      refine ⟨rfl, ?_⟩
      simp only [targets, directory?, hwords, Option.bind_some, Option.elim_some]
      exact Option.toList_map

end Entry

/-- To normalize a path in steps is to normalize it at once. A normal form is its own normal form,
and a list of names in which only the first may be two dots. A path with a directory seen from a
base can be joined in either order, so the paths of an entry are those that it would have if each
was joined to the directory and the base and resolved once. -/
theorem normalize_in_steps (x s : String) :
    Path.normalize (Path.join (Path.normalize x) s) = Path.normalize (Path.join x s) ∧
    Path.normalize (Path.normalize x) = Path.normalize x ∧
    (∃ names : List String,
      Path.normalize x = (if Path.isAbsolute x then "/" else "") ++ "/".intercalate names ∧
      Path.components (Path.normalize x) =
        (if Path.isAbsolute x then [.root] else []) ++ names.map Path.nameComponent ∧
      (∀ name ∈ names, Path.IsName name) ∧ ".." ∉ names.tail) ∧
    Path.isAbsolute (Path.normalize (Path.join x s)) = (Path.isAbsolute x || Path.isAbsolute s) ∧
    (∀ dir, Path.resolve (Path.resolve x dir) s = Path.normalize (Path.join (Path.join x dir) s) ∧
      Path.join (Path.join x dir) s = Path.join x (Path.join dir s)) ∧
    ∀ (entry : Entry) (index : Nat) (action : LogAction), entry.action x index = .ok action →
      action.sources = entry.sources.map (fun p => Path.normalize (entry.joined x p)) ∧
      action.targets = entry.targets.map fun p => Path.normalize (entry.joined x p) := by
  refine ⟨Path.normalize_join_normalize x s, Path.normalize_normalize x,
    Path.exists_names_normalize x, ?_,
    fun dir => ⟨Path.resolve_resolve x dir s, Path.join_assoc x dir s⟩,
    fun entry index action => Entry.action_paths⟩
  rw [Path.isAbsolute_normalize, Path.isAbsolute_join_eq]

/-- A compilation in a directory beside the base. -/
def besideBase : Entry :=
  .compilation "../b/./out" "../src/../a.c" (some "cc -o a.o") none none

theorem normalize_in_steps_besideBase :
    Path.normalize (Path.join (Path.normalize "a/../..") "../x") = "x" ∧
    besideBase.joined "/w/p" "../src/../a.c" = "/w/p/../b/./out/../src/../a.c" ∧
    ∃ action : LogAction, besideBase.action "/w/p" 0 = .ok action ∧
      action.sources = besideBase.sources.map
        (fun p => Path.normalize (besideBase.joined "/w/p" p)) ∧
      action.sources = ["/w/b/a.c"] ∧ action.targets = ["/w/b/out/a.o"] := by
  have haction : besideBase.action "/w/p" 0 =
      .ok ⟨.compile, "cc -o a.o", ["/w/b/a.c"], ["/w/b/out/a.o"]⟩ := by decide +kernel
  obtain ⟨hsteps, -⟩ := normalize_in_steps "a/../.." "../x"
  obtain ⟨-, -, -, -, -, hentry⟩ := normalize_in_steps "/w/p" ""
  exact ⟨hsteps.trans (by decide +kernel), by decide +kernel, _, haction,
    (hentry besideBase 0 _ haction).1, rfl, rfl⟩

end BuildLog

end SymbolAtlas
