import SymbolAtlas.Proofs.FileTree.Walk

/-!
# The entries that a walk meets

A walk with several subscribers comes to an entry as long as one of them is interested.

- **Met entries** (`Walk.meets`): the entries that a walk comes to, with the hidden ones that it
  passes over. The counters count these (`counts_visitNode`), and none of them comes twice
  (`nodup_meets`).
- **Interested subscribers** (`Walk.Someone`): what holds of one of them. Telling all of them about
  an entry, and going through it, is followed one subscriber at a time (`someone_tell`,
  `someone_allAfter`).
- **Open directories** (`mem_meets_iff`): a walk comes to its root and to the entries of the
  directories that one of the subscribers leaves open.
-/

namespace SymbolAtlas

namespace Walk

variable {σ : Type}

/-! ## Entries that a walk meets -/

/-- An entry that a walk meets: the names that lead to it, and its kind unless it is hidden. -/
structure Met where
  names : List String
  kind? : Option EntryKind

/-- The entry, seen from one directory further up. -/
def Met.below (name : String) (met : Met) : Met := { met with names := name :: met.names }

/-- The state of a subscriber after an entry of a directory. -/
def after (visit : Visitor σ) (path name : String) (node : Node) (s : σ) : σ :=
  if isHidden name then s else (solo visit (Path.join path name) s node).1

/-- The subscribers after an entry of a directory; the same ones are interested. -/
def allAfter (visit : Visitor σ) (path name : String) (node : Node) (ps : List (Bool × σ)) :
    List (Bool × σ) :=
  ps.map fun p => (p.1, apart (after visit path name node) p)

mutual

/-- The entries that a walk meets from a node on. -/
def meets (visit : Visitor σ) (path : String) (ps : List (Bool × σ)) : Node → List Met
  | .directory entries =>
    ⟨[], some .directory⟩ ::
      if ((ps.map (tell visit path .directory)).map Prod.fst).any id then
        meetsEntries visit path (ps.map (tell visit path .directory)) entries
      else []
  | .file _ => [⟨[], some .regular⟩]
  | .link _ => [⟨[], some .symlink⟩]
  | .pipe => [⟨[], some .other⟩]

/-- The entries that a walk meets in the entries of a directory. -/
def meetsEntries (visit : Visitor σ) (path : String) (ps : List (Bool × σ)) :
    List (String × Node) → List Met
  | [] => []
  | (name, node) :: rest =>
    (if isHidden name then [⟨[name], none⟩]
      else (meets visit (Path.join path name) ps node).map (Met.below name)) ++
        meetsEntries visit path (allAfter visit path name node ps) rest

end

/-- Count an entry that is met. -/
def Met.count (counts : WalkCounts) (met : Met) : WalkCounts :=
  match met.kind? with
  | some kind => WalkCounts.add counts kind
  | none => { counts with hidden := counts.hidden + 1 }

theorem foldl_count_map_below (name : String) (counts : WalkCounts) (mets : List Met) :
    (mets.map (Met.below name)).foldl Met.count counts = mets.foldl Met.count counts := by
  rw [List.foldl_map]
  rfl

theorem map_fst_allAfter (visit : Visitor σ) (path name : String) (node : Node)
    (ps : List (Bool × σ)) :
    (allAfter visit path name node ps).map Prod.fst = ps.map Prod.fst := by
  rw [allAfter, List.map_map]
  rfl

theorem map_snd_allAfter (visit : Visitor σ) (path name : String) (node : Node)
    (ps : List (Bool × σ)) :
    (allAfter visit path name node ps).map Prod.snd =
      ps.map (apart (after visit path name node)) := by
  rw [allAfter, List.map_map]
  rfl

/-- The first entry of a directory is counted, and the walk goes on after it. -/
theorem visitEntries_cons (visit : Visitor σ) (path : String) (counts : WalkCounts)
    (ps : List (Bool × σ)) (name : String) (node : Node) (rest : List (String × Node)) :
    visitEntries visit path (ps.map Prod.fst) ⟨counts, ps.map Prod.snd⟩ ((name, node) :: rest) =
      visitEntries visit path ((allAfter visit path name node ps).map Prod.fst)
        ⟨if isHidden name then { counts with hidden := counts.hidden + 1 }
          else (visitNode visit (Path.join path name) (ps.map Prod.fst)
            ⟨counts, ps.map Prod.snd⟩ node).counts,
          (allAfter visit path name node ps).map Prod.snd⟩ rest := by
  rw [map_fst_allAfter, map_snd_allAfter, visitEntries]
  by_cases hhidden : isHidden name = true
  · have hsame : ps.map (apart (after visit path name node)) = ps.map Prod.snd :=
      List.map_congr_left fun p _ => by simp [apart, after, hhidden]
    simp only [hhidden, if_true, hsame]
    rfl
  · have hgo : after visit path name node =
        fun s => (solo visit (Path.join path name) s node).1 := by
      funext s
      simp [after, hhidden]
    rw [hgo, ← subscribers_visitNode visit (Path.join path name) counts ps node]
    simp only [if_neg hhidden]

mutual

theorem counts_visitNode (visit : Visitor σ) (path : String) (counts : WalkCounts)
    (ps : List (Bool × σ)) : ∀ node : Node,
    (visitNode visit path (ps.map Prod.fst) ⟨counts, ps.map Prod.snd⟩ node).counts =
      (meets visit path ps node).foldl Met.count counts
  | .file _ | .link _ | .pipe => rfl
  | .directory entries => by
    simp only [visitNode, enter, notify_eq, meets, List.foldl_cons]
    split
    · exact counts_visitEntries visit path _ _ entries
    · rfl

theorem counts_visitEntries (visit : Visitor σ) (path : String) (counts : WalkCounts)
    (ps : List (Bool × σ)) : ∀ entries : List (String × Node),
    (visitEntries visit path (ps.map Prod.fst) ⟨counts, ps.map Prod.snd⟩ entries).counts =
      (meetsEntries visit path ps entries).foldl Met.count counts
  | [] => rfl
  | (name, node) :: rest => by
    rw [visitEntries_cons, counts_visitEntries visit path _ _ rest, meetsEntries,
      List.foldl_append]
    by_cases hhidden : isHidden name = true
    · simp only [if_pos hhidden]
      rfl
    · simp only [if_neg hhidden, foldl_count_map_below,
        counts_visitNode visit (Path.join path name) counts ps node]

end

/-! ## Which entries are met -/

/-- What holds of the state of at least one interested subscriber. -/
def Someone (ps : List (Bool × σ)) (P : σ → Prop) : Prop := ∃ p ∈ ps, p.1 = true ∧ P p.2

theorem Someone.imp {ps : List (Bool × σ)} {P Q : σ → Prop} (h : Someone ps P)
    (hPQ : ∀ s, P s → Q s) : Someone ps Q := by
  obtain ⟨p, hp, hinterested, hP⟩ := h
  exact ⟨p, hp, hinterested, hPQ p.2 hP⟩

theorem someone_map {f : Bool × σ → Bool × σ} {ps : List (Bool × σ)} {P : σ → Prop} :
    Someone (ps.map f) P ↔ ∃ p ∈ ps, (f p).1 = true ∧ P (f p).2 := by
  simp only [Someone, List.mem_map, exists_exists_and_eq_and]

theorem someone_allAfter {visit : Visitor σ} {path name : String} {node : Node}
    {ps : List (Bool × σ)} {P : σ → Prop} :
    Someone (allAfter visit path name node ps) P ↔
      Someone ps fun s => P (after visit path name node s) := by
  rw [allAfter, someone_map]
  refine exists_congr fun p => and_congr_right fun _ => ?_
  cases hinterested : p.1 <;> simp [apart, hinterested]

theorem someone_tell {visit : Visitor σ} {path : String} {kind : EntryKind}
    {ps : List (Bool × σ)} {P : σ → Prop} :
    Someone (ps.map (tell visit path kind)) P ↔
      Someone ps fun s => (visit path kind s).2 = .goOn ∧ P (visit path kind s).1 := by
  rw [someone_map]
  refine exists_congr fun p => and_congr_right fun _ => ?_
  cases hinterested : p.1 <;> simp [tell, hinterested]

theorem someone_or {ps : List (Bool × σ)} {c : Prop} {P : σ → Prop} :
    (Someone ps fun s => c ∨ P s) ↔ c ∧ (ps.map Prod.fst).any id = true ∨ Someone ps P := by
  constructor
  · rintro ⟨p, hp, hinterested, hc | hP⟩
    · exact .inl ⟨hc, List.any_eq_true.mpr ⟨p.1, List.mem_map_of_mem hp, hinterested⟩⟩
    · exact .inr ⟨p, hp, hinterested, hP⟩
  · rintro (⟨hc, hany⟩ | hP)
    · obtain ⟨_, hmem, hinterested⟩ := List.any_eq_true.mp hany
      obtain ⟨p, hp, rfl⟩ := List.mem_map.mp hmem
      exact ⟨p, hp, hinterested, .inl hc⟩
    · exact hP.imp fun s => .inr

theorem Someone.any {ps : List (Bool × σ)} {P : σ → Prop} (h : Someone ps P) :
    (ps.map Prod.fst).any id = true := by
  obtain ⟨p, hp, hinterested, -⟩ := h
  exact List.any_eq_true.mpr ⟨p.1, List.mem_map_of_mem hp, hinterested⟩

/-- The entry with this name in the directory at the end of the names, as a walk meets it. -/
def met? (node : Node) (directory : List String) (name : String) : Option Met :=
  (node.descend? (directory ++ [name])).map fun child =>
    ⟨directory ++ [name], if isHidden name then none else some child.kind⟩

section

variable {entries : List (String × Node)}

theorem descend?_cons_iff (h : (Node.directory entries).Ordered) {name : String}
    {rest : List String} {node : Node} :
    (Node.directory entries).descend? (name :: rest) = some node ↔
      ∃ child, (name, child) ∈ entries ∧ child.descend? rest = some node := by
  simp only [Node.descend?, Option.bind_eq_some_iff, Node.entry?_eq_some_iff h]

theorem met?_nil_iff (h : (Node.directory entries).Ordered) {name : String} {met : Met} :
    met? (.directory entries) [] name = some met ↔ ∃ child, (name, child) ∈ entries ∧
      met = ⟨[name], if isHidden name then none else some child.kind⟩ := by
  simp only [met?, List.nil_append, Option.map_eq_some_iff, descend?_cons_iff h]
  constructor
  · rintro ⟨node, ⟨child, hchild, hnode⟩, rfl⟩
    cases hnode
    exact ⟨node, hchild, rfl⟩
  · rintro ⟨child, hchild, rfl⟩
    exact ⟨child, ⟨child, hchild, rfl⟩, rfl⟩

theorem met?_cons_iff (h : (Node.directory entries).Ordered) {first name : String}
    {directory : List String} {met : Met} :
    met? (.directory entries) (first :: directory) name = some met ↔
      ∃ child, (first, child) ∈ entries ∧
        ∃ inner, met? child directory name = some inner ∧ inner.below first = met := by
  simp only [met?, List.cons_append, Option.map_eq_some_iff, descend?_cons_iff h]
  constructor
  · rintro ⟨node, ⟨child, hchild, hnode⟩, rfl⟩
    exact ⟨child, hchild, _, ⟨node, hnode, rfl⟩, rfl⟩
  · rintro ⟨child, hchild, _, ⟨node, hnode, rfl⟩, rfl⟩
    exact ⟨node, ⟨child, hchild, hnode⟩, rfl⟩

end

theorem mem_soloEntries_cons_iff {visit : Visitor σ} {path : String} {s : σ} {first name : String}
    {node : Node} {rest : List (String × Node)} {names : List String} {kind : EntryKind}
    {answer : Answer} :
    ⟨name :: names, kind, answer⟩ ∈ (soloEntries visit path s ((first, node) :: rest)).2 ↔
      (name = first ∧ isHidden first = false ∧
        ⟨names, kind, answer⟩ ∈ (solo visit (Path.join path first) s node).2) ∨
      ⟨name :: names, kind, answer⟩ ∈
        (soloEntries visit path (after visit path first node s) rest).2 := by
  by_cases hhidden : isHidden first = true
  · simp [soloEntries, after, hhidden]
  · simp only [soloEntries, after, if_neg hhidden, List.mem_append, List.mem_map]
    refine or_congr ?_ Iff.rfl
    constructor
    · rintro ⟨inner, hinner, heq⟩
      cases heq
      exact ⟨rfl, by simpa using hhidden, hinner⟩
    · rintro ⟨rfl, -, hinner⟩
      exact ⟨_, hinner, rfl⟩

/-- What is heard of in a directory is heard of at one of its visible entries. -/
theorem exists_entry_of_mem_soloEntries {visit : Visitor σ} {path : String} {s : σ}
    {entries : List (String × Node)} (hkeys : Ascending.KeysAscending entries) {heard : Heard}
    (h : heard ∈ (soloEntries visit path s entries).2) :
    ∃ name child rest, (name, child) ∈ entries ∧ heard.names = name :: rest := by
  obtain ⟨state, hfrom⟩ := exists_comesFrom_soloEntries visit path s hkeys
  obtain ⟨name, child, hchild, -, inner, -, rfl⟩ := (hfrom heard).mp h
  exact ⟨name, child, inner.names, hchild, rfl⟩

/-- A directory below another one is left open by those who also leave that one open. -/
theorem mem_solo_directory_iff (visit : Visitor σ) (path : String) (s : σ)
    (entries : List (String × Node)) (directory : List String) :
    ⟨directory, .directory, .goOn⟩ ∈ (solo visit path s (.directory entries)).2 ↔
      (visit path .directory s).2 = .goOn ∧ (directory = [] ∨
        ⟨directory, .directory, .goOn⟩ ∈
          (soloEntries visit path (visit path .directory s).1 entries).2) := by
  rw [solo_directory]
  by_cases hanswer : (visit path .directory s).2 = .goOn
  · simp [hanswer]
  · simp [hanswer, Ne.symm hanswer]

/-- Some leave a directory open if some are still interested after they were told, and below it
those among them count. -/
theorem someone_open_iff (visit : Visitor σ) (path : String) (ps : List (Bool × σ))
    (entries : List (String × Node)) (directory : List String) :
    (Someone ps fun s =>
      ⟨directory, .directory, .goOn⟩ ∈ (solo visit path s (.directory entries)).2) ↔
    directory = [] ∧ ((ps.map (tell visit path .directory)).map Prod.fst).any id = true ∨
      Someone (ps.map (tell visit path .directory)) fun s =>
        ⟨directory, .directory, .goOn⟩ ∈ (soloEntries visit path s entries).2 := by
  simp only [mem_solo_directory_iff]
  rw [← someone_tell (P := fun s => directory = [] ∨
    ⟨directory, .directory, .goOn⟩ ∈ (soloEntries visit path s entries).2), someone_or]

/-- The entry is one of the directory, or one of a directory below that someone leaves open. -/
def MeetsIn (visit : Visitor σ) (path : String) (ps : List (Bool × σ))
    (entries : List (String × Node)) (met : Met) : Prop :=
  ∃ directory name, met? (.directory entries) directory name = some met ∧
    (directory = [] ∨ Someone ps fun s =>
      ⟨directory, .directory, .goOn⟩ ∈ (soloEntries visit path s entries).2)

/-- What is met in a directory is met at its first entry or at the others. -/
theorem meetsIn_cons_iff (visit : Visitor σ) (path : String) (ps : List (Bool × σ))
    {first : String} {node : Node} {rest : List (String × Node)}
    (h : (Node.directory ((first, node) :: rest)).Ordered) (met : Met) :
    MeetsIn visit path ps ((first, node) :: rest) met ↔
      (met = ⟨[first], if isHidden first then none else some node.kind⟩ ∨
        isHidden first = false ∧ ∃ directory name inner, met? node directory name = some inner ∧
          inner.below first = met ∧ Someone ps fun s =>
            ⟨directory, .directory, .goOn⟩ ∈ (solo visit (Path.join path first) s node).2) ∨
      MeetsIn visit path (allAfter visit path first node ps) rest met := by
  obtain ⟨hfirst, -, hrest⟩ := Node.ordered_directory_cons.mp h
  have hne : ∀ name child, (name, child) ∈ rest → name ≠ first :=
    fun name child hmem => (hfirst _ hmem).ne'
  simp only [MeetsIn, someone_allAfter]
  constructor
  · rintro ⟨_ | ⟨name, directory⟩, last, hmet, hopen⟩
    · obtain ⟨child, hchild, rfl⟩ := (met?_nil_iff h).mp hmet
      rcases List.mem_cons.mp hchild with heq | hchild
      · cases heq
        exact .inl (.inl rfl)
      · exact .inr ⟨[], last, (met?_nil_iff hrest).mpr ⟨child, hchild, rfl⟩, .inl rfl⟩
    · obtain ⟨child, hchild, inner, hinner, rfl⟩ := (met?_cons_iff h).mp hmet
      obtain ⟨p, hp, hinterested, hmem⟩ := hopen.resolve_left (by simp)
      rcases List.mem_cons.mp hchild with heq | hchild
      · cases heq
        rcases mem_soloEntries_cons_iff.mp hmem with ⟨-, hvisible, hmem⟩ | hmem
        · exact .inl (.inr ⟨hvisible, directory, last, inner, hinner, rfl,
            p, hp, hinterested, hmem⟩)
        · obtain ⟨_, child, _, hchild, heq⟩ := exists_entry_of_mem_soloEntries hrest.1 hmem
          cases heq
          exact absurd rfl (hne _ child hchild)
      · rcases mem_soloEntries_cons_iff.mp hmem with ⟨heq, -⟩ | hmem
        · exact absurd heq (hne name child hchild)
        · exact .inr ⟨name :: directory, last, (met?_cons_iff hrest).mpr
            ⟨child, hchild, inner, hinner, rfl⟩, .inr ⟨p, hp, hinterested, hmem⟩⟩
  · rintro ((rfl | ⟨hvisible, directory, last, inner, hinner, rfl, hopen⟩) |
      ⟨_ | ⟨name, directory⟩, last, hmet, hopen⟩)
    · exact ⟨[], first, (met?_nil_iff h).mpr ⟨node, .head _, rfl⟩, .inl rfl⟩
    · refine ⟨first :: directory, last, (met?_cons_iff h).mpr ⟨node, .head _, inner, hinner, rfl⟩,
        .inr (hopen.imp fun s hmem => ?_)⟩
      exact mem_soloEntries_cons_iff.mpr (.inl ⟨rfl, hvisible, hmem⟩)
    · obtain ⟨child, hchild, rfl⟩ := (met?_nil_iff hrest).mp hmet
      exact ⟨[], last, (met?_nil_iff h).mpr ⟨child, .tail _ hchild, rfl⟩, .inl rfl⟩
    · obtain ⟨child, hchild, inner, hinner, rfl⟩ := (met?_cons_iff hrest).mp hmet
      refine ⟨name :: directory, last, (met?_cons_iff h).mpr
        ⟨child, .tail _ hchild, inner, hinner, rfl⟩,
        .inr ((hopen.resolve_left (by simp)).imp fun s hmem => ?_)⟩
      exact mem_soloEntries_cons_iff.mpr (.inr hmem)

mutual

/-- A walk meets its root, and the entries of the directories that someone leaves open. -/
theorem mem_meets_iff (visit : Visitor σ) (path : String) (ps : List (Bool × σ)) :
    ∀ {node : Node}, node.Ordered → ∀ met : Met, met ∈ meets visit path ps node ↔
      met = ⟨[], some node.kind⟩ ∨ ∃ directory name, met? node directory name = some met ∧
        Someone ps fun s => ⟨directory, .directory, .goOn⟩ ∈ (solo visit path s node).2
  | .file _, _, met | .link _, _, met | .pipe, _, met => by
    simp [meets, Node.kind, solo, soloEntry, Someone]
  | .directory entries, h, met => by
    rw [meets, List.mem_cons]
    refine or_congr Iff.rfl ?_
    simp only [someone_open_iff visit path ps entries]
    generalize ps.map (tell visit path .directory) = told
    by_cases hany : (told.map Prod.fst).any id = true
    · rw [if_pos hany, mem_meetsEntries_iff visit path told h met]
      simp only [MeetsIn, hany, and_true]
    · have hnobody : ∀ P : σ → Prop, ¬ Someone told P := fun P h => hany h.any
      rw [if_neg hany]
      simp [hany, hnobody]

theorem mem_meetsEntries_iff (visit : Visitor σ) (path : String) (ps : List (Bool × σ)) :
    ∀ {entries : List (String × Node)}, (Node.directory entries).Ordered → ∀ met : Met,
      met ∈ meetsEntries visit path ps entries ↔ MeetsIn visit path ps entries met
  | [], h, met => by
    have hnone : ∀ directory name, met? (.directory []) directory name = none := by
      intro directory name
      cases directory <;> rfl
    simp [meetsEntries, MeetsIn, hnone]
  | (first, node) :: rest, h, met => by
    obtain ⟨-, hnode, hrest⟩ := Node.ordered_directory_cons.mp h
    rw [meetsEntries, List.mem_append, mem_meetsEntries_iff visit path _ hrest met,
      meetsIn_cons_iff visit path ps h]
    refine or_congr ?_ Iff.rfl
    by_cases hhidden : isHidden first = true
    · simp [hhidden]
    · rw [if_neg hhidden, if_neg hhidden, List.mem_map]
      have hmeets := mem_meets_iff visit (Path.join path first) ps hnode
      constructor
      · rintro ⟨inner, hinner, rfl⟩
        rcases (hmeets inner).mp hinner with rfl | ⟨directory, last, hmet, hopen⟩
        · exact .inl rfl
        · exact .inr ⟨by simpa using hhidden, directory, last, inner, hmet, rfl, hopen⟩
      · rintro (rfl | ⟨-, directory, last, inner, hmet, rfl, hopen⟩)
        · exact ⟨_, (hmeets _).mpr (.inl rfl), rfl⟩
        · exact ⟨inner, (hmeets inner).mpr (.inr ⟨directory, last, hmet, hopen⟩), rfl⟩

end

theorem MeetsIn.exists_entry {visit : Visitor σ} {path : String} {ps : List (Bool × σ)}
    {entries : List (String × Node)} (h : (Node.directory entries).Ordered) {met : Met}
    (hmet : MeetsIn visit path ps entries met) :
    ∃ name child rest, (name, child) ∈ entries ∧ met.names = name :: rest := by
  obtain ⟨_ | ⟨name, directory⟩, last, hmet, -⟩ := hmet
  · obtain ⟨child, hchild, rfl⟩ := (met?_nil_iff h).mp hmet
    exact ⟨last, child, [], hchild, rfl⟩
  · obtain ⟨child, hchild, inner, -, rfl⟩ := (met?_cons_iff h).mp hmet
    exact ⟨name, child, inner.names, hchild, rfl⟩

mutual

/-- A walk meets no entry twice. -/
theorem nodup_meets (visit : Visitor σ) (path : String) (ps : List (Bool × σ)) :
    ∀ {node : Node}, node.Ordered → ((meets visit path ps node).map Met.names).Nodup
  | .file _, _ | .link _, _ | .pipe, _ => List.nodup_singleton _
  | .directory entries, h => by
    rw [meets, List.map_cons]
    split
    · refine List.nodup_cons.mpr ⟨fun hmem => ?_, nodup_meetsEntries visit path _ h⟩
      obtain ⟨met, hmet, hnil⟩ := List.mem_map.mp hmem
      obtain ⟨name, child, rest, -, hnames⟩ :=
        ((mem_meetsEntries_iff visit path _ h met).mp hmet).exists_entry h
      rw [hnames] at hnil
      cases hnil
    · exact List.nodup_singleton _

theorem nodup_meetsEntries (visit : Visitor σ) (path : String) (ps : List (Bool × σ)) :
    ∀ {entries : List (String × Node)}, (Node.directory entries).Ordered →
      ((meetsEntries visit path ps entries).map Met.names).Nodup
  | [], _ => List.nodup_nil
  | (first, node) :: rest, h => by
    obtain ⟨hfirst, hnode, hrest⟩ := Node.ordered_directory_cons.mp h
    rw [meetsEntries, List.map_append]
    refine List.nodup_append.mpr ⟨?_, nodup_meetsEntries visit path _ hrest, ?_⟩
    · split
      · exact List.nodup_singleton _
      · have hcons := (nodup_meets visit (Path.join path first) ps hnode).map
          (List.cons_injective (a := first))
        simpa [Function.comp_def, Met.below] using hcons
    · -- what is met at the first entry starts with its name, all else with a later one
      have hhead : ∀ names ∈ (if isHidden first then [⟨[first], none⟩]
          else (meets visit (Path.join path first) ps node).map (Met.below first)).map Met.names,
          names.head? = some first := by
        intro names hnames
        split at hnames
        · rw [List.mem_singleton.mp hnames]
          rfl
        · obtain ⟨_, hmem, rfl⟩ := List.mem_map.mp hnames
          obtain ⟨inner, -, rfl⟩ := List.mem_map.mp hmem
          rfl
      rintro names hnames _ hlater rfl
      obtain ⟨met, hmet, rfl⟩ := List.mem_map.mp hlater
      obtain ⟨name, child, below, hchild, heq⟩ :=
        ((mem_meetsEntries_iff visit path _ hrest met).mp hmet).exists_entry hrest
      have hsame := hhead _ hnames
      rw [heq] at hsame
      cases hsame
      exact absurd (hfirst _ hchild) (lt_irrefl _)

end

end Walk

end SymbolAtlas
