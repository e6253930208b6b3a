import SymbolAtlas.Proofs.Path.Normal

/-!
# The components of paths

How paths are read as components, and components written as paths.

- **Steps** (`Component.IsStep`, `steps`): parents and names. Apart from the root of an absolute
  path (`components_eq_steps`) and a dot at the start, a path has steps only.
- **Reading back** (`components_ofComponents`): the text of steps, with or without a root in front,
  has just these components, so different steps have different texts (`ofComponents_inj`).
- **Joining** (`components_join`): a relative path seen from a directory has the components of the
  directory and then its own. So it leads where it leads from there (`trail_join`).
-/

namespace SymbolAtlas

namespace Text

/-- Around a separator, the pieces are those of the two sides. -/
theorem cut_append_cons (sep : Char) (xs ys : List Char) :
    cut sep (xs ++ sep :: ys) = cut sep xs ++ cut sep ys := by
  induction xs with
  | nil => simp [cut]
  | cons x xs ih =>
    obtain ⟨piece, pieces, hcut⟩ : ∃ piece pieces, cut sep xs = piece :: pieces := by
      rw [cut_eq_splitOn]
      exact List.exists_cons_of_ne_nil (List.splitOn_ne_nil sep xs)
    by_cases hx : x = sep
    · simp [cut, hx, ih]
    · simp [cut, hx, ih, hcut]

end Text

namespace Path

/-! ## Steps -/

/-- The components of a path after its root. -/
def steps (p : String) : List Component := (components p).filter (· ≠ .root)

theorem root_notMem_steps (p : String) : .root ∉ steps p := by
  simp [steps]

/-- A component that a path can have past its start and that is not dropped. -/
def Component.IsStep : Component → Prop
  | .normal name => IsName name ∧ name ≠ ".."
  | .parent => True
  | .root | .current => False

theorem isStep_of_pieceComponent? {piece : List Char} {c : Component} (hfree : '/' ∉ piece)
    (h : pieceComponent? piece = some c) : c.IsStep := by
  have hproper := proper_of_pieceComponent? hfree h
  cases c with
  | normal name => exact hproper
  | parent => trivial
  | root | current =>
    simp only [pieceComponent?] at h
    split at h
    · cases h
    · split at h <;> cases h

theorem isStep_of_mem_pieces {cs : List Char} {c : Component}
    (h : c ∈ (Text.cut '/' cs).filterMap pieceComponent?) : c.IsStep := by
  obtain ⟨piece, hpiece, hc⟩ := List.mem_filterMap.mp h
  exact isStep_of_pieceComponent? (Text.notMem_of_mem_cut hpiece) hc

/-- A path has a root if it is absolute, a dot at most at its start, and else only steps. -/
theorem components_cases (p : String) : ∃ start rest, components p = start ++ rest ∧
    (∀ c ∈ rest, c.IsStep) ∧ (isAbsolute p = true → start = [.root]) ∧
    (isAbsolute p = false → start = [] ∨ start = [.current]) := by
  refine ⟨_, _, rfl, fun c hc => isStep_of_mem_pieces hc, fun hp => by rw [if_pos hp],
    fun hp => ?_⟩
  rw [hp, if_neg Bool.false_ne_true]
  split
  · exact .inr rfl
  · exact .inl rfl

theorem filter_eq_of_isStep {rest : List Component} (h : ∀ c ∈ rest, c.IsStep) {c : Component}
    (hc : ¬ c.IsStep) : rest.filter (· ≠ c) = rest := by
  refine List.filter_eq_self.mpr fun c' hc' => ?_
  rw [decide_eq_true_eq]
  rintro rfl
  exact hc (h c' hc')

/-- The root comes first, if there is one. -/
theorem components_eq_steps (p : String) :
    components p = (if isAbsolute p then [.root] else []) ++ steps p := by
  obtain ⟨start, rest, hp, hrest, habsolute, hrelative⟩ := components_cases p
  have hfilter := filter_eq_of_isStep hrest (c := .root) id
  rw [steps, hp, List.filter_append, hfilter]
  cases hp : isAbsolute p with
  | true => simp [habsolute hp]
  | false => rcases hrelative hp with rfl | rfl <;> simp

theorem isAbsolute_iff {p : String} : isAbsolute p = true ↔ .root ∈ components p := by
  rw [components_eq_steps]
  cases isAbsolute p <;> simp [root_notMem_steps]

/-! ## Reading back -/

theorem isName_text {c : Component} (h : c.IsStep) : IsName c.text := by
  cases c with
  | normal name => exact h.1
  | parent => exact ⟨by decide, by decide, by decide⟩
  | root | current => exact h.elim

theorem nameComponent_text {c : Component} (h : c.IsStep) : nameComponent c.text = c := by
  cases c with
  | normal name => exact if_neg h.2
  | parent => rfl
  | root | current => exact h.elim

theorem isName_texts {rest : List Component} (h : ∀ c ∈ rest, c.IsStep) :
    ∀ name ∈ rest.map Component.text, IsName name := by
  intro name hname
  obtain ⟨c, hc, rfl⟩ := List.mem_map.mp hname
  exact isName_text (h c hc)

theorem toList_intercalate_slash (names : List String) :
    ("/".intercalate names).toList = ['/'].intercalate (names.map String.toList) := by
  have hslash : "/".toList = ['/'] := rfl
  rw [String.toList_intercalate, hslash]

theorem filterMap_cut_texts {rest : List Component} (h : ∀ c ∈ rest, c.IsStep) :
    (Text.cut '/' ("/".intercalate (rest.map Component.text)).toList).filterMap pieceComponent? =
      rest := by
  rw [toList_intercalate_slash, Trail.filterMap_cut_intercalate (isName_texts h), List.map_map]
  conv_rhs => rw [← List.map_id rest]
  exact List.map_congr_left fun c hc => nameComponent_text (h c hc)

/-- The first piece of an absolute path is empty. -/
theorem isAbsolute_eq_false {p : String} {piece : List Char}
    (h : (Text.cut '/' p.toList).head? = some piece) (hpiece : piece ≠ []) :
    isAbsolute p = false := by
  rw [Bool.eq_false_iff]
  intro habsolute
  simp only [isAbsolute, beq_iff_eq] at habsolute
  obtain ⟨cs, hcs⟩ := List.head?_eq_some_iff.mp habsolute
  rw [hcs] at h
  simp only [Text.cut, if_true, List.head?_cons, Option.some.injEq] at h
  exact hpiece h.symm

theorem ofComponents_eq (rooted : Bool) {rest : List Component} (h : ∀ c ∈ rest, c.IsStep) :
    ofComponents ((if rooted then [.root] else []) ++ rest) =
      (if rooted then "/" else "") ++ "/".intercalate (rest.map Component.text) := by
  cases rooted with
  | true => rfl
  | false =>
    cases rest with
    | nil => rfl
    | cons first rest =>
      cases first with
      | root => exact (h .root (.head _)).elim
      | current | parent | normal => simp [ofComponents]

/-- The text of steps, with or without a root in front, is read back as these. -/
theorem components_ofComponents (rooted : Bool) {rest : List Component}
    (h : ∀ c ∈ rest, c.IsStep) :
    components (ofComponents ((if rooted then [.root] else []) ++ rest)) =
      (if rooted then [.root] else []) ++ rest := by
  have hcut := filterMap_cut_texts h
  rw [ofComponents_eq rooted h]
  cases rooted with
  | true =>
    have hslash : "/".toList = ['/'] := rfl
    simp only [if_true, components, isAbsolute, String.toList_append, hslash,
      List.singleton_append, List.head?_cons, BEq.rfl]
    simpa [Text.cut, pieceComponent?] using hcut
  | false =>
    simp only [Bool.false_eq_true, if_false, String.empty_append, List.nil_append]
    cases rest with
    | nil => rfl
    | cons first rest =>
      have hname := isName_text (h first (.head _))
      have hhead : (Text.cut '/'
          ("/".intercalate ((first :: rest).map Component.text)).toList).head? =
            some first.text.toList := by
        rw [toList_intercalate_slash, Text.cut_intercalate _ (by simp)]
        · rfl
        · intro piece hpiece
          obtain ⟨name, hmem, rfl⟩ := List.mem_map.mp hpiece
          exact (isName_texts h name hmem).noSlash
      have hdot : first.text.toList ≠ ['.'] := fun hdot =>
        hname.noDot (String.toList_inj.mp hdot)
      have habsolute := isAbsolute_eq_false hhead
        (by simpa [String.toList_eq_nil_iff] using hname.nonempty)
      simp only [components, habsolute, Bool.false_eq_true, if_false, hhead, Option.some.injEq,
        hdot, hcut, List.nil_append]

theorem ofComponents_inj (rooted rooted' : Bool) {rest rest' : List Component}
    (h : ∀ c ∈ rest, c.IsStep) (h' : ∀ c ∈ rest', c.IsStep) :
    ofComponents ((if rooted then [.root] else []) ++ rest) =
        ofComponents ((if rooted' then [.root] else []) ++ rest') ↔
      (if rooted then [Component.root] else []) ++ rest =
        (if rooted' then [Component.root] else []) ++ rest' := by
  refine ⟨fun heq => ?_, fun heq => by rw [heq]⟩
  rw [← components_ofComponents rooted h, heq, components_ofComponents rooted' h']

/-! ## Joining -/

/-- The pieces of a path seen from a directory are those of both, but for an empty one: the
directory may end in a slash, and then no other is put after it. -/
theorem exists_cut_join {base p : String} (hbase : base ≠ "") (hp : isAbsolute p = false) :
    ∃ (stem : List Char) (tail : String), join base p = base ++ tail ∧
      Text.cut '/' (join base p).toList = Text.cut '/' stem ++ Text.cut '/' p.toList ∧
      (Text.cut '/' base.toList = Text.cut '/' stem ∨
        Text.cut '/' base.toList = Text.cut '/' stem ++ [[]]) := by
  have hempty : base.isEmpty = false := by
    rw [Bool.eq_false_iff, ne_eq, String.isEmpty_iff]
    exact hbase
  have hslash : "/".toList = ['/'] := rfl
  by_cases hlast : base.toList.getLast? = some '/'
  · obtain ⟨stem, hstem⟩ := List.getLast?_eq_some_iff.mp hlast
    have hjoin : join base p = base ++ p := by simp [join, hp, hempty, hlast]
    refine ⟨stem, p, hjoin, ?_, .inr ?_⟩
    · rw [hjoin, String.toList_append, hstem, List.append_assoc, List.singleton_append,
        Text.cut_append_cons]
    · rw [hstem, Text.cut_append_cons]
      rfl
  · have hjoin : join base p = base ++ "/" ++ p := by simp [join, hp, hempty, hlast]
    refine ⟨base.toList, "/" ++ p, by rw [hjoin, String.append_assoc], ?_, .inl rfl⟩
    rw [hjoin, String.toList_append, String.toList_append, hslash, List.append_assoc,
      List.singleton_append, Text.cut_append_cons]

theorem isAbsolute_append {base : String} (hbase : base ≠ "") (tail : String) :
    isAbsolute (base ++ tail) = isAbsolute base := by
  have hchars : base.toList ≠ [] := by simpa [String.toList_eq_nil_iff] using hbase
  simp only [isAbsolute, String.toList_append, List.head?_append_of_ne_nil _ hchars]

/-- The pieces of a relative path are its components, but for a dot at its start. -/
theorem filterMap_cut_eq_filter {p : String} (hp : isAbsolute p = false) :
    (Text.cut '/' p.toList).filterMap pieceComponent? =
      (components p).filter (· ≠ .current) := by
  have hsteps : ∀ c ∈ (Text.cut '/' p.toList).filterMap pieceComponent?, c.IsStep := fun c hc =>
    isStep_of_mem_pieces hc
  have hfilter := filter_eq_of_isStep hsteps (c := .current) id
  simp only [components, hp, Bool.false_eq_true, if_false, List.filter_append, hfilter]
  split <;> simp

theorem components_join {base p : String} (hbase : base ≠ "") (hp : isAbsolute p = false) :
    components (join base p) = components base ++ (components p).filter (· ≠ .current) := by
  obtain ⟨stem, tail, hjoin, hcut, hstem⟩ := exists_cut_join hbase hp
  have habsolute : isAbsolute (join base p) = isAbsolute base := by
    rw [hjoin, isAbsolute_append hbase]
  have hsome : Text.cut '/' stem ≠ [] := by
    rw [Text.cut_eq_splitOn]
    exact List.splitOn_ne_nil '/' stem
  have hhead : (Text.cut '/' (join base p).toList).head? = (Text.cut '/' base.toList).head? := by
    rw [hcut, List.head?_append_of_ne_nil _ hsome]
    rcases hstem with hstem | hstem
    · rw [hstem]
    · rw [hstem, List.head?_append_of_ne_nil _ hsome]
  have hpieces : (Text.cut '/' base.toList).filterMap pieceComponent? =
      (Text.cut '/' stem).filterMap pieceComponent? := by
    rcases hstem with hstem | hstem
    · rw [hstem]
    · rw [hstem, List.filterMap_append]
      exact List.append_nil _
  rw [← filterMap_cut_eq_filter hp]
  simp only [components, habsolute, hhead]
  rw [hcut, List.filterMap_append, hpieces, List.append_assoc]

/-- A path seen from a directory leads where it leads from there. -/
theorem trail_join (base p : String) :
    trail (join base p) = (components p).foldl Trail.follow (trail base) := by
  cases hp : isAbsolute p with
  | true =>
    have hjoin : join base p = p := by simp [join, hp]
    rw [hjoin, trail, components_eq_steps, hp]
    rfl
  | false =>
    by_cases hbase : base = ""
    · have hjoin : join base p = p := by simp [join, hbase]
      rw [hjoin, hbase]
      rfl
    · have hcurrent : ∀ t c, (if decide (c ≠ .current) = true then Trail.follow t c else t) =
          Trail.follow t c := by
        intro t c
        cases c <;> rfl
      rw [trail, components_join hbase hp, List.foldl_append, List.foldl_filter]
      simp only [hcurrent]
      rfl

end Path

end SymbolAtlas
