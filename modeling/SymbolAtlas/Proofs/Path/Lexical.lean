import Mathlib.Data.List.Induction
import SymbolAtlas.Proofs.Path.Components

/-!
# Lexical resolution of paths

What a path names when nothing is known about the file system: its components are put on a stack, a
dot is dropped, and a parent takes away the name before it.

- **Reduction** (`reduce`): what is left on the stack. A parent that finds no name stays, unless it
  stands at the root. What is left of components without a root is a run of parents and then names
  (`exists_reduce`), and it leads where the components lead, in every way of following them in which
  a parent undoes a name (`foldl_reduce`).
- **Places** (`place`, `unmatched`): the components that a path comes to, and the number of its
  parents that find no name. `ComesTo` holds of a path, that number and the names that are left.
- **Normal forms** (`ComesTo.components_normalize`): the normal form keeps one unmatched parent if
  their number is odd and none otherwise, also at the root. So it names another place than a
  relative path with more than one of them (`normalize_keeps_place_iff`,
  `normalize_loses_parents`).
-/

namespace SymbolAtlas.Path

/-! ## Reduction -/

/-- Put a component on a stack, the last one on top: the root clears it, a dot is dropped, and a
parent takes away a name on top and is dropped at the root. -/
def push : List Component → Component → List Component
  | _, .root => [.root]
  | stack, .current => stack
  | .normal _ :: stack, .parent => stack
  | .root :: stack, .parent => .root :: stack
  | stack, .parent => .parent :: stack
  | stack, .normal name => .normal name :: stack

/-- What components come to. -/
def reduce (cs : List Component) : List Component := (cs.foldl push []).reverse

theorem push_parents (n : Nat) :
    push (List.replicate n .parent) .parent = List.replicate (n + 1) .parent := by
  cases n <;> simp [push, List.replicate_succ]

theorem foldl_push_parents (n : Nat) :
    (List.replicate n .parent).foldl push [] = List.replicate n .parent := by
  induction n with
  | zero => rfl
  | succ n ih =>
    rw [List.replicate_succ', List.foldl_append, ih]
    simp [push_parents, List.replicate_succ']

theorem foldl_push_parents_root (n : Nat) :
    (List.replicate n .parent).foldl push [.root] = [.root] := by
  induction n with
  | zero => rfl
  | succ n ih => exact ih

theorem foldl_push_names (names : List String) (stack : List Component) :
    (names.map .normal).foldl push stack = (names.map .normal).reverse ++ stack := by
  induction names generalizing stack with
  | nil => rfl
  | cons name names ih => simp [push, ih]

theorem reduce_append_singleton (cs : List Component) (c : Component) :
    reduce (cs ++ [c]) = (push (reduce cs).reverse c).reverse := by
  simp [reduce]

/-- Without a root, what is left is a run of parents and then names, which were there before. -/
theorem exists_reduce {cs : List Component} (h : .root ∉ cs) : ∃ (n : Nat) (names : List String),
    reduce cs = List.replicate n .parent ++ names.map .normal ∧
      ∀ name ∈ names, .normal name ∈ cs := by
  induction cs using List.reverseRecOn with
  | nil => exact ⟨0, [], rfl, by simp⟩
  | append_singleton cs c ih =>
    rw [List.mem_append, List.mem_singleton, not_or] at h
    obtain ⟨n, names, hreduce, hnames⟩ := ih h.1
    have hkept : ∀ name ∈ names, .normal name ∈ cs ++ [c] := fun name hname =>
      List.mem_append_left _ (hnames name hname)
    rw [reduce_append_singleton, hreduce]
    cases c with
    | root => exact absurd rfl h.2
    | current => exact ⟨n, names, by simp [push], hkept⟩
    | parent =>
      rcases List.eq_nil_or_concat names with rfl | ⟨outer, last, rfl⟩
      · exact ⟨n + 1, [], by simp [push_parents], by simp⟩
      · exact ⟨n, outer, by simp [push], fun name hname => hkept name (by simp [hname])⟩
    | normal new =>
      refine ⟨n, names ++ [new], by simp [push], fun name hname => ?_⟩
      rcases List.mem_append.mp hname with hname | hname
      · exact hkept name hname
      · simp [List.mem_singleton.mp hname]

/-- What components without a root come to leads where they lead. -/
theorem foldl_reduce {σ : Type} {f : σ → Component → σ} (hcurrent : ∀ s, f s .current = s)
    (hparent : ∀ s name, f (f s (.normal name)) .parent = s) {cs : List Component}
    (h : .root ∉ cs) (s : σ) : (reduce cs).foldl f s = cs.foldl f s := by
  induction cs using List.reverseRecOn with
  | nil => rfl
  | append_singleton cs c ih =>
    rw [List.mem_append, List.mem_singleton, not_or] at h
    obtain ⟨n, names, hreduce, -⟩ := exists_reduce h.1
    rw [List.foldl_append, List.foldl_cons, List.foldl_nil, ← ih h.1, reduce_append_singleton,
      hreduce]
    cases c with
    | root => exact absurd rfl h.2
    | current => simp [push, hcurrent]
    | parent =>
      rcases List.eq_nil_or_concat names with rfl | ⟨outer, last, rfl⟩
      · rw [List.map_nil, List.append_nil, List.reverse_replicate, push_parents,
          List.reverse_replicate, List.replicate_succ', List.foldl_append]
        rfl
      · simp [push, hparent]
    | normal new => simp [push]

/-! ## Following reduced components -/

namespace Trail

theorem foldl_follow_parents (rooted : Bool) (n : Nat) (names : List String) :
    (List.replicate n .parent).foldl follow ⟨rooted, names⟩ =
      ⟨rooted, names.drop n ++ List.replicate ((n - names.length) % 2) ".."⟩ := by
  induction n generalizing names with
  | zero => simp
  | succ n ih =>
    rw [List.replicate_succ, List.foldl_cons]
    cases names with
    | nil =>
      -- a parent is put where there is no name, and the next one takes it away
      have hstep : follow ⟨rooted, []⟩ .parent = ⟨rooted, [".."]⟩ := rfl
      rw [hstep, ih]
      cases n with
      | zero => rfl
      | succ n =>
        have hmod : (n + 1 + 1) % 2 = n % 2 := by omega
        simp [hmod]
    | cons name names =>
      have hstep : follow ⟨rooted, name :: names⟩ .parent = ⟨rooted, names⟩ := rfl
      rw [hstep, ih]
      simp

theorem foldl_follow_names (t : Trail) (names : List String) :
    (names.map .normal).foldl follow t = ⟨t.rooted, names.reverse ++ t.names⟩ := by
  induction names generalizing t with
  | nil => rfl
  | cons name names ih =>
    rw [List.map_cons, List.foldl_cons, ih]
    simp [follow]

end Trail

/-! ## What a path comes to -/

/-- The place that a path names. -/
def place (p : String) : List Component := reduce (components p)

/-- The number of parents in a path that find no name to take away. -/
def unmatched (p : String) : Nat := (reduce (steps p)).count .parent

/-- The path comes to so many unmatched parents, and then these names. -/
structure ComesTo (p : String) (n : Nat) (names : List String) : Prop where
  reduced : reduce (steps p) = List.replicate n .parent ++ names.map .normal
  isName : ∀ name ∈ names, IsName name ∧ name ≠ ".."

namespace ComesTo

variable {p : String} {n : Nat} {names : List String}

theorem unmatched_eq (h : ComesTo p n names) : unmatched p = n := by
  rw [unmatched, h.reduced, List.count_append, List.count_replicate_self,
    List.count_eq_zero_of_not_mem (by simp), Nat.add_zero]

theorem isStep (h : ComesTo p n names) (m : Nat) :
    ∀ c ∈ List.replicate m Component.parent ++ names.map .normal, c.IsStep := by
  intro c hc
  rcases List.mem_append.mp hc with hc | hc
  · rw [List.eq_of_mem_replicate hc]
    trivial
  · obtain ⟨name, hname, rfl⟩ := List.mem_map.mp hc
    exact h.isName name hname

/-- An absolute path drops its unmatched parents, a relative one keeps them. -/
theorem place_eq (h : ComesTo p n names) :
    place p = (if isAbsolute p then [.root] else List.replicate n .parent) ++
      names.map .normal := by
  rw [place, components_eq_steps]
  cases isAbsolute p with
  | false => simpa using h.reduced
  | true =>
    rw [if_pos rfl, if_pos rfl, reduce, List.foldl_append, List.foldl_cons, List.foldl_nil,
      ← foldl_reduce (fun _ => rfl) (fun _ _ => rfl) (root_notMem_steps p), h.reduced]
    simp [push, foldl_push_parents_root, foldl_push_names]

/-- Where the path leads, seen from a trail. -/
theorem foldl_follow (h : ComesTo p n names) (rooted : Bool) (base : List String) :
    (steps p).foldl Trail.follow ⟨rooted, base⟩ =
      ⟨rooted, names.reverse ++
        (base.drop n ++ List.replicate ((n - base.length) % 2) "..")⟩ := by
  rw [← foldl_reduce (fun _ => rfl) (fun _ _ => rfl) (root_notMem_steps p), h.reduced,
    List.foldl_append, Trail.foldl_follow_parents, Trail.foldl_follow_names]

theorem trail_eq (h : ComesTo p n names) :
    trail p = ⟨isAbsolute p, names.reverse ++ List.replicate (n % 2) ".."⟩ := by
  have hfollow := fun rooted => h.foldl_follow rooted []
  simp only [List.drop_nil, List.nil_append, List.length_nil, Nat.sub_zero] at hfollow
  rw [trail, components_eq_steps]
  cases isAbsolute p with
  | true => exact hfollow true
  | false => exact hfollow false

theorem normalize_eq (h : ComesTo p n names) :
    normalize p = ofComponents ((if isAbsolute p then [.root] else []) ++
      (List.replicate (n % 2) .parent ++ names.map .normal)) := by
  have htexts : (names.map Component.normal).map Component.text = names := by
    simp [Function.comp_def, Component.text]
  rw [normalize, h.trail_eq, ofComponents_eq _ (h.isStep _), Trail.text, List.map_append, htexts]
  simp [Component.text]

theorem components_normalize (h : ComesTo p n names) :
    components (normalize p) = (if isAbsolute p then [.root] else []) ++
      (List.replicate (n % 2) .parent ++ names.map .normal) := by
  rw [h.normalize_eq, components_ofComponents _ (h.isStep _)]

theorem isAbsolute_normalize (h : ComesTo p n names) :
    isAbsolute (normalize p) = isAbsolute p := by
  rw [Bool.eq_iff_iff, isAbsolute_iff, isAbsolute_iff, h.components_normalize,
    components_eq_steps p]
  have hsteps : Component.root ∉ List.replicate (n % 2) .parent ++ names.map .normal :=
    fun hroot => h.isStep _ .root hroot
  cases isAbsolute p <;> simp [hsteps, root_notMem_steps]

/-- The normal form comes to the same names, after one parent if the number of unmatched parents is
odd. -/
theorem of_normalize (h : ComesTo p n names) : ComesTo (normalize p) (n % 2) names := by
  refine ⟨?_, h.isName⟩
  have hsteps : steps (normalize p) = List.replicate (n % 2) .parent ++ names.map .normal := by
    have hfilter := filter_eq_of_isStep (h.isStep (n % 2)) (c := .root) id
    rw [steps, h.components_normalize, List.filter_append, hfilter]
    cases isAbsolute p <;> simp
  rw [hsteps, reduce, List.foldl_append, foldl_push_parents, foldl_push_names]
  simp

end ComesTo

theorem exists_comesTo (p : String) : ∃ names, ComesTo p (unmatched p) names := by
  obtain ⟨n, names, hreduce, hnames⟩ := exists_reduce (root_notMem_steps p)
  have h : ComesTo p n names := by
    refine ⟨hreduce, fun name hname => ?_⟩
    obtain ⟨start, rest, hp, hrest, habsolute, hrelative⟩ := components_cases p
    have hmem := List.mem_of_mem_filter (hnames name hname)
    rw [hp] at hmem
    refine (List.mem_append.mp hmem).elim (fun hstart => ?_) (hrest (.normal name))
    cases hp : isAbsolute p with
    | true => simp [habsolute hp] at hstart
    | false => rcases hrelative hp with rfl | rfl <;> simp at hstart
  exact ⟨names, h.unmatched_eq ▸ h⟩

/-! ## Normal forms -/

/-- The normal form of a path leads where the path leads. -/
theorem trail_normalize (p : String) : trail (normalize p) = trail p := by
  obtain ⟨names, h⟩ := exists_comesTo p
  rw [h.of_normalize.trail_eq, h.trail_eq, h.isAbsolute_normalize, Nat.mod_mod]

theorem normalize_eq_iff {p q : String} : normalize p = normalize q ↔ trail p = trail q := by
  refine ⟨fun heq => ?_, fun heq => by rw [normalize, normalize, heq]⟩
  rw [← trail_normalize p, heq, trail_normalize]

/-- An absolute path without parents is a list of names. -/
theorem exists_names_of_parent_notMem {base : String} (hbase : isAbsolute base = true)
    (hparent : .parent ∉ components base) : ∃ names : List String,
    ComesTo base 0 names ∧ (components base).length = names.length + 1 := by
  obtain ⟨start, rest, hcomponents, hrest, hroot, -⟩ := components_cases base
  rw [hroot hbase] at hcomponents
  have hsteps : steps base = (rest.map Component.text).map .normal := by
    have hfilter := filter_eq_of_isStep hrest (c := .root) id
    have hnormal : ∀ c ∈ rest, Component.normal c.text = c := by
      intro c hc
      cases c with
      | normal name => rfl
      | parent => exact absurd (hcomponents ▸ List.mem_append_right _ hc) hparent
      | root | current => exact (hrest _ hc).elim
    rw [steps, hcomponents, List.filter_append, hfilter, List.map_map]
    conv_lhs => rw [← List.map_id rest]
    exact List.map_congr_left fun c hc => (hnormal c hc).symm
  refine ⟨rest.map Component.text, ⟨?_, fun name hname => ?_⟩, by simp [hcomponents]⟩
  · rw [hsteps, reduce, foldl_push_names]
    simp
  · obtain ⟨c, hc, rfl⟩ := List.mem_map.mp hname
    refine ⟨isName_text (hrest c hc), fun hdots => hparent ?_⟩
    have hc' := nameComponent_text (hrest c hc)
    rw [hdots] at hc'
    rw [hcomponents, ← show c = .parent from hc'.symm]
    exact List.mem_append_right _ hc

/-- Parents that climb no further than one above `names` lead to the same names as one or none of
them only if there is at most one. -/
theorem drop_parents_eq_iff {n : Nat} {names : List String} (hnames : ".." ∉ names)
    (hn : n ≤ names.length + 1) :
    names.drop n ++ List.replicate ((n - names.length) % 2) ".." =
        names.drop (n % 2) ++ List.replicate ((n % 2 - names.length) % 2) ".." ↔ n ≤ 1 := by
  constructor
  · intro heq
    by_contra hmany
    have hnone : (n % 2 - names.length) % 2 = 0 := by omega
    rw [hnone, List.replicate_zero, List.append_nil] at heq
    rcases Nat.lt_or_ge names.length n with hlt | hle
    · have hone : (n - names.length) % 2 = 1 := by omega
      rw [hone] at heq
      refine hnames (List.mem_of_mem_drop (i := n % 2) ?_)
      rw [← heq]
      simp
    · have hlength := congrArg List.length heq
      simp only [List.length_append, List.length_drop, List.length_replicate] at hlength
      omega
  · intro hn
    have hmod : n % 2 = n := by omega
    rw [hmod]

theorem place_normalize_iff (p : String) :
    place (normalize p) = place p ↔ isAbsolute p = true ∨ unmatched p ≤ 1 := by
  obtain ⟨names, h⟩ := exists_comesTo p
  rw [h.of_normalize.place_eq, h.place_eq, h.isAbsolute_normalize]
  cases isAbsolute p with
  | true => simp
  | false =>
    simp only [Bool.false_eq_true, if_false, false_or, List.append_cancel_right_eq,
      List.replicate_inj, or_true, and_true]
    omega

theorem normalize_eq_text_iff (p : String) :
    normalize p = ofComponents (place p) ↔
      if isAbsolute p then unmatched p % 2 = 0 else unmatched p ≤ 1 := by
  obtain ⟨names, h⟩ := exists_comesTo p
  rw [h.normalize_eq, h.place_eq]
  cases isAbsolute p with
  | true =>
    have hnames := (ofComponents_inj true true (h.isStep (unmatched p % 2)) (h.isStep 0))
    simp only [if_true, List.replicate_zero, List.nil_append] at hnames ⊢
    rw [hnames]
    simp
  | false =>
    have hnames :=
      (ofComponents_inj false false (h.isStep (unmatched p % 2)) (h.isStep (unmatched p)))
    simp only [Bool.false_eq_true, if_false, List.nil_append] at hnames ⊢
    simp only [hnames, List.append_cancel_right_eq, List.replicate_inj, or_true, and_true]
    omega

/-- Seen from a directory that is deep enough, the normal form leads where the path leads just when
the path has at most one unmatched parent. -/
theorem normalize_join_normalize_iff {base p : String} (hbase : isAbsolute base = true)
    (hparent : .parent ∉ components base) (hp : isAbsolute p = false)
    (hdeep : unmatched p ≤ (components base).length) :
    normalize (join base p) = normalize (join base (normalize p)) ↔ unmatched p ≤ 1 := by
  obtain ⟨names, h⟩ := exists_comesTo p
  obtain ⟨outer, houter, hlength⟩ := exists_names_of_parent_notMem hbase hparent
  have hnormal : isAbsolute (normalize p) = false := by rw [h.isAbsolute_normalize, hp]
  have hdots : ".." ∉ outer.reverse := fun hmem =>
    (houter.isName ".." (List.mem_reverse.mp hmem)).2 rfl
  have htrail : trail base = ⟨true, outer.reverse⟩ := by
    rw [houter.trail_eq, hbase]
    simp
  rw [normalize_eq_iff, trail_join, trail_join, htrail, components_eq_steps p,
    components_eq_steps (normalize p), hp, hnormal, if_neg Bool.false_ne_true, List.nil_append,
    List.nil_append, h.foldl_follow, h.of_normalize.foldl_follow]
  simp only [Trail.mk.injEq, true_and, List.append_cancel_left_eq]
  exact drop_parents_eq_iff hdots (by simpa [hlength] using hdeep)

/-- What the normal form keeps of a path: the root, the names, and one unmatched parent if their
number is odd. So it names the place that the path names just when the path is absolute or has at
most one unmatched parent; it is the text of that place just when their number is even for an
absolute path and at most one for a relative one; and seen from a directory that is deep enough, it
leads where the path leads just when there is at most one. -/
theorem normalize_keeps_place_iff (p : String) :
    (∃ names : List String,
      place p = (if isAbsolute p then [.root] else List.replicate (unmatched p) .parent) ++
        names.map .normal ∧
      components (normalize p) = (if isAbsolute p then [.root] else []) ++
        (List.replicate (unmatched p % 2) .parent ++ names.map .normal)) ∧
    (place (normalize p) = place p ↔ isAbsolute p = true ∨ unmatched p ≤ 1) ∧
    (normalize p = ofComponents (place p) ↔
      if isAbsolute p then unmatched p % 2 = 0 else unmatched p ≤ 1) ∧
    ∀ base, isAbsolute base = true → .parent ∉ components base → isAbsolute p = false →
      unmatched p ≤ (components base).length →
      (normalize (join base p) = normalize (join base (normalize p)) ↔ unmatched p ≤ 1) := by
  obtain ⟨names, h⟩ := exists_comesTo p
  exact ⟨⟨names, h.place_eq, h.components_normalize⟩, place_normalize_iff p,
    normalize_eq_text_iff p, fun _ => normalize_join_normalize_iff⟩

/-- Two unmatched parents are lost, and one at the root stays. -/
theorem normalize_loses_parents :
    unmatched "../../x" = 2 ∧ ofComponents (place "../../x") = "../../x" ∧
    normalize "../../x" = "x" ∧ place (normalize "../../x") ≠ place "../../x" ∧
    normalize (join "/a/b" "../../x") = "/x" ∧
    normalize (join "/a/b" (normalize "../../x")) = "/a/b/x" ∧
    ofComponents (place "/../x") = "/x" ∧ normalize "/../x" = "/../x" ∧
    ¬ ∀ p, place (normalize p) = place p := by
  have hlost : place (normalize "../../x") ≠ place "../../x" := by decide
  exact ⟨by decide, by decide, by decide, hlost, by decide, by decide, by decide, by decide,
    fun hall => hlost (hall _)⟩

end SymbolAtlas.Path
