import Mathlib.Data.List.Basic
import SymbolAtlas.Path

/-!
# Normal forms of paths

The lexical normal form is a normal form: a path in it is read back as the names that it was
written from.

- **Names** (`IsName`): what a trail is made of. Two dots are such a name, and stand only where
  there was nothing to take away, so at most at the outer end (`Trail.Proper`).
- **Reading back** (`Trail.components_text`, `Trail.trail_text`): the text of a proper rooted trail
  has the components of its names, and leads to that trail. Every path leads to a proper trail
  (`proper_trail`).
- **Absolute normal paths** (`Normal`): the paths that files are known by. The normal form of an
  absolute path is its own normal form (`normal_normalize`), so to resolve anything against an
  absolute directory gives such a path (`normal_resolve`). The directory of one is absolute, unless
  it is the root (`Normal.isAbsolute_parent`).
-/

namespace SymbolAtlas

/-! ## Pieces between slashes -/

namespace Text

variable {sep : Char}

theorem cut_eq_splitOn (sep : Char) (cs : List Char) : cut sep cs = cs.splitOn sep := by
  induction cs with
  | nil => simp [cut]
  | cons c cs ih =>
    obtain ⟨piece, pieces, hcut⟩ := List.exists_cons_of_ne_nil (List.splitOn_ne_nil sep cs)
    simp only [cut, ih, hcut]
    by_cases hc : c = sep <;> simp [hc, List.splitOn_cons_eq_if_modifyHead, hcut]

theorem cut_intercalate {pieces : List (List Char)} (hfree : ∀ piece ∈ pieces, sep ∉ piece)
    (hsome : pieces ≠ []) : cut sep ([sep].intercalate pieces) = pieces := by
  rw [cut_eq_splitOn, List.splitOn_intercalate sep hfree hsome]

theorem notMem_of_mem_cut {cs piece : List Char} (h : piece ∈ cut sep cs) : sep ∉ piece := by
  induction cs generalizing piece with
  | nil =>
    obtain rfl := List.mem_singleton.mp h
    simp
  | cons c cs ih =>
    simp only [cut] at h
    split at h
    · rcases List.mem_cons.mp h with rfl | h
      · simp
      · exact ih h
    · rename_i hc
      split at h
      · obtain rfl := List.mem_singleton.mp h
        simpa using Ne.symm hc
      · rename_i first pieces hcut
        rw [hcut] at ih
        rcases List.mem_cons.mp h with rfl | h
        · simpa [Ne.symm hc] using ih (.head _)
        · exact ih (.tail _ h)

end Text

namespace Path

/-! ## Names and trails -/

/-- What can stand between two slashes of a normal form. -/
structure IsName (name : String) : Prop where
  nonempty : name ≠ ""
  noDot : name ≠ "."
  noSlash : '/' ∉ name.toList

/-- The component that a name of a trail stands for. -/
def nameComponent (name : String) : Component := if name = ".." then .parent else .normal name

theorem pieceComponent?_toList {name : String} (h : IsName name) :
    pieceComponent? name.toList = some (nameComponent name) := by
  have hempty : name.toList ≠ [] := by simpa [String.toList_eq_nil_iff] using h.nonempty
  have hdot : name.toList ≠ ['.'] := fun hname => h.noDot (String.toList_inj.mp hname)
  have hup : name.toList = ['.', '.'] ↔ name = ".." := by
    rw [← String.toList_inj]
    rfl
  by_cases hname : name = ".."
  · subst hname
    decide
  · simp [pieceComponent?, nameComponent, hempty, hdot, hup, hname]

/-- A trail that some path leads to. -/
structure Trail.Proper (t : Trail) : Prop where
  isName : ∀ name ∈ t.names, IsName name
  inner : ∀ name ∈ t.names.dropLast, name ≠ ".."

/-- Components that a path can have past its start. -/
def Component.Proper : Component → Prop
  | .normal name => IsName name ∧ name ≠ ".."
  | .root | .current | .parent => True

theorem proper_of_pieceComponent? {piece : List Char} {c : Component} (hfree : '/' ∉ piece)
    (h : pieceComponent? piece = some c) : c.Proper := by
  simp only [pieceComponent?] at h
  split at h
  · cases h
  · rename_i hdot
    simp only [Bool.or_eq_true, decide_eq_true_eq, not_or] at hdot
    split at h
    · cases h
      trivial
    · rename_i hup
      cases h
      refine ⟨⟨fun hname => hdot.1 ?_, fun hname => hdot.2 ?_, by simpa using hfree⟩,
        fun hname => hup ?_⟩
      · simpa using congrArg String.toList hname
      · simpa using congrArg String.toList hname
      · simpa using congrArg String.toList hname

/-- The components after the start of a path. -/
theorem components_eq (p : String) :
    ∃ start rest, components p = start ++ rest ∧ (∀ c ∈ rest, c.Proper ∧ c ≠ .root) ∧
      (isAbsolute p = true → start = [.root]) ∧ ∀ c ∈ start, c.Proper := by
  refine ⟨_, _, rfl, fun c hc => ?_, fun hp => by rw [if_pos hp], fun c hc => ?_⟩
  · obtain ⟨piece, hpiece, hc⟩ := List.mem_filterMap.mp hc
    refine ⟨proper_of_pieceComponent? (Text.notMem_of_mem_cut hpiece) hc, fun hroot => ?_⟩
    subst hroot
    simp only [pieceComponent?] at hc
    split at hc
    · cases hc
    · split at hc <;> cases hc
  · split at hc
    · obtain rfl := List.mem_singleton.mp hc
      trivial
    · split at hc
      · obtain rfl := List.mem_singleton.mp hc
        trivial
      · cases hc

namespace Trail

variable {t : Trail}

theorem Proper.follow (h : t.Proper) {c : Component} (hc : c.Proper) : (t.follow c).Proper := by
  obtain ⟨rooted, names⟩ := t
  cases c with
  | root => exact ⟨by simp [Trail.follow], by simp [Trail.follow]⟩
  | current => exact h
  | parent =>
    cases names with
    | nil =>
      refine ⟨fun name hname => ?_, by simp [Trail.follow]⟩
      obtain rfl := List.mem_singleton.mp hname
      exact ⟨by decide, by decide, by decide⟩
    | cons last above =>
      refine ⟨fun name hname => h.isName name (.tail _ hname), fun name hname => h.inner name ?_⟩
      cases above with
      | nil => cases hname
      | cons => exact .tail _ hname
  | normal new =>
    refine ⟨fun name hname => ?_, fun name hname => ?_⟩
    · rcases List.mem_cons.mp hname with rfl | hname
      · exact hc.1
      · exact h.isName name hname
    · cases names with
      | nil => cases hname
      | cons last above =>
        rcases List.mem_cons.mp hname with rfl | hname
        · exact hc.2
        · exact h.inner name hname

theorem Proper.foldl (h : t.Proper) {cs : List Component} (hcs : ∀ c ∈ cs, c.Proper) :
    (cs.foldl Trail.follow t).Proper := by
  induction cs generalizing t with
  | nil => exact h
  | cons c cs ih => exact ih (h.follow (hcs c (.head _))) fun c' hc' => hcs c' (.tail _ hc')

theorem rooted_follow {c : Component} (hc : c ≠ .root) : (t.follow c).rooted = t.rooted := by
  obtain ⟨rooted, names⟩ := t
  cases c with
  | root => exact absurd rfl hc
  | parent => cases names <;> rfl
  | current | normal => rfl

theorem rooted_foldl {cs : List Component} (hcs : ∀ c ∈ cs, c ≠ .root) :
    (cs.foldl Trail.follow t).rooted = t.rooted := by
  induction cs generalizing t with
  | nil => rfl
  | cons c cs ih =>
    rw [List.foldl_cons, ih fun c' hc' => hcs c' (.tail _ hc'), rooted_follow (hcs c (.head _))]

/-- The names of a trail lead back to it: two dots come first, where there is no name to take
away. -/
theorem foldl_nameComponent {rooted : Bool} {names : List String}
    (hinner : ∀ name ∈ names.dropLast, name ≠ "..") :
    (names.reverse.map nameComponent).foldl Trail.follow ⟨rooted, []⟩ = ⟨rooted, names⟩ := by
  induction names with
  | nil => rfl
  | cons name names ih =>
    cases names with
    | nil => by_cases hname : name = ".." <;> simp [nameComponent, Trail.follow, hname]
    | cons outer names =>
      have hname : name ≠ ".." := hinner name (.head _)
      have ih := ih fun name' hname' => hinner name' (.tail _ hname')
      rw [List.reverse_cons, List.map_append, List.foldl_append, ih]
      simp [nameComponent, Trail.follow, hname]

theorem toList_text (t : Trail) : t.text.toList =
    (if t.rooted then ['/'] else []) ++ ['/'].intercalate (t.names.reverse.map String.toList) := by
  have hslash : "/".toList = ['/'] := rfl
  obtain ⟨rooted, names⟩ := t
  cases rooted <;> simp [text, String.toList_append, String.toList_intercalate, hslash]

theorem isAbsolute_text (h : t.rooted = true) : isAbsolute t.text = true := by
  simp [isAbsolute, toList_text, h]

/-- The pieces between the slashes of a text that is made of names. -/
theorem filterMap_cut_intercalate {names : List String} (h : ∀ name ∈ names, IsName name) :
    (Text.cut '/' (['/'].intercalate (names.map String.toList))).filterMap pieceComponent? =
      names.map nameComponent := by
  cases names with
  | nil => rfl
  | cons name rest =>
    rw [Text.cut_intercalate _ (by simp), List.filterMap_map]
    · rw [← List.filterMap_eq_map]
      exact List.filterMap_congr fun name hname => pieceComponent?_toList (h name hname)
    · intro piece hpiece
      obtain ⟨name, hname, rfl⟩ := List.mem_map.mp hpiece
      exact (h name hname).noSlash

/-- A rooted text is read back as the names that it was made of. -/
theorem components_text (h : t.Proper) (hrooted : t.rooted = true) :
    components t.text = .root :: t.names.reverse.map nameComponent := by
  have hnames : ∀ name ∈ t.names.reverse, IsName name := fun name hname =>
    h.isName name (List.mem_reverse.mp hname)
  have hcut : (Text.cut '/' t.text.toList).filterMap pieceComponent? =
      t.names.reverse.map nameComponent := by
    rw [← filterMap_cut_intercalate hnames, toList_text, if_pos hrooted]
    simp [Text.cut, pieceComponent?]
  simp only [components, isAbsolute_text hrooted, hcut, if_true, List.singleton_append]

theorem trail_text (h : t.Proper) (hrooted : t.rooted = true) : trail t.text = t := by
  obtain ⟨rooted, names⟩ := t
  obtain rfl : rooted = true := hrooted
  rw [trail, components_text h rfl, List.foldl_cons]
  exact foldl_nameComponent h.inner

end Trail

theorem proper_trail (p : String) : (trail p).Proper := by
  obtain ⟨start, rest, hcomponents, hrest, -, hstart⟩ := components_eq p
  have hbegin : Trail.start.Proper := ⟨by simp [Trail.start], by simp [Trail.start]⟩
  refine hbegin.foldl fun c hc => ?_
  rw [hcomponents] at hc
  exact (List.mem_append.mp hc).elim (hstart c) fun hc => (hrest c hc).1

theorem rooted_trail {p : String} (h : isAbsolute p = true) : (trail p).rooted = true := by
  obtain ⟨start, rest, hcomponents, hrest, hroot, -⟩ := components_eq p
  rw [trail, hcomponents, hroot h, List.singleton_append, List.foldl_cons,
    Trail.rooted_foldl fun c hc => (hrest c hc).2]
  rfl

/-! ## Absolute normal paths -/

/-- The path is absolute and its own normal form. -/
structure Normal (p : String) : Prop where
  absolute : isAbsolute p = true
  normalized : normalize p = p

theorem normal_normalize {p : String} (h : isAbsolute p = true) : Normal (normalize p) := by
  have hrooted := rooted_trail h
  refine ⟨Trail.isAbsolute_text hrooted, ?_⟩
  rw [normalize, normalize, Trail.trail_text (proper_trail p) hrooted]

theorem isAbsolute_join {base p : String} (h : isAbsolute base = true) :
    isAbsolute (join base p) = true := by
  simp only [isAbsolute, beq_iff_eq] at h
  have hbase : base.toList.head? = some '/' := h
  have hprepend : ∀ s : String, isAbsolute (base ++ s) = true := fun s => by
    simp [isAbsolute, String.toList_append, List.head?_append, hbase]
  simp only [join]
  split
  · rename_i hp
    have hempty : base.isEmpty = false := by
      cases hempty : base.isEmpty
      · rfl
      · rw [String.isEmpty_iff.mp hempty] at hbase
        cases hbase
    simpa [hempty] using hp
  · split
    · exact hprepend p
    · rw [String.append_assoc]
      exact hprepend _

theorem normal_resolve {base : String} (h : isAbsolute base = true) (p : String) :
    Normal (resolve base p) :=
  normal_normalize (isAbsolute_join h)

namespace Normal

variable {p : String}

/-- An absolute normal path is a list of names. -/
theorem exists_names (h : Normal p) : ∃ names : List String,
    p = "/" ++ "/".intercalate names ∧ components p = .root :: names.map nameComponent ∧
    ∀ name ∈ names.tail, name ≠ ".." := by
  have hrooted := rooted_trail h.absolute
  have htext : (trail p).text = p := h.normalized
  refine ⟨(trail p).names.reverse, ?_, ?_, fun name hname => ?_⟩
  · calc p = (trail p).text := htext.symm
      _ = _ := by rw [Trail.text, if_pos hrooted]
  · calc components p = components (trail p).text := by rw [htext]
      _ = _ := Trail.components_text (proper_trail p) hrooted
  · refine (proper_trail p).inner name ?_
    rwa [List.tail_reverse, List.mem_reverse] at hname

/-- The directory of a path that is not the root is absolute. -/
theorem isAbsolute_parent (h : Normal p) (hroot : p ≠ "/") :
    isAbsolute ((parent? p).getD ".") = true := by
  obtain ⟨names, hp, hcomponents, -⟩ := h.exists_names
  rcases List.eq_nil_or_concat names with rfl | ⟨outer, last, rfl⟩
  · exact absurd hp hroot
  · have hlast : (components p).getLast? = some (nameComponent last) := by
      simp [hcomponents, List.getLast?_cons]
    have hdrop : (components p).dropLast = .root :: outer.map nameComponent := by
      rw [hcomponents, List.concat_eq_append, List.map_append, ← List.cons_append,
        List.map_singleton, List.dropLast_concat]
    have hname : nameComponent last ≠ .root := by
      unfold nameComponent
      split <;> simp
    have hparent : parent? p = some (ofComponents (.root :: outer.map nameComponent)) := by
      rw [parent?, hlast, hdrop]
      cases hcase : nameComponent last with
      | root => exact absurd hcase hname
      | current | parent | normal => rfl
    simp [hparent, ofComponents, isAbsolute, String.toList_append]

end Normal

end Path

end SymbolAtlas
