import SymbolAtlas.Proofs.FileTree.Counts

/-!
# Everything that a walk can show

A subscriber that goes on everywhere is told about all visible entries.

- **The listing** (`Walk.listing`, `Walk.shown`): the visible entries below a node
  (`mem_shown_iff`), depth first and siblings by the bytes of their names (`pairwise_shown`).
- **Subscribers that settle** (`Walk.Settles`): where such a subscriber leaves a directory, nothing
  it could still be told would change it. It ends as if it had been told about everything
  (`solo_of_settles`), although the walk leaves out what it does not want to hear.
- **Full walks** (`counts_of_goesOn`): with one subscriber that goes on everywhere, the counters
  count all that is visible (`Walk.fullCounts`), whoever else is there.
-/

namespace SymbolAtlas.Walk

variable {σ : Type}

/-! ## The listing -/

/-- A subscriber that goes on everywhere. -/
def listener : Visitor Unit := fun _ _ s => (s, .goOn)

/-- The visible entries below a node, in the order of a walk. -/
def listing (root : String) (node : Node) : List Heard := (solo listener root () node).2

/-- The same for the entries of a directory. -/
def listingEntries (root : String) (entries : List (String × Node)) : List Heard :=
  (soloEntries listener root () entries).2

theorem listing_directory (root : String) (entries : List (String × Node)) :
    listing root (.directory entries) =
      ⟨[], .directory, .goOn⟩ :: listingEntries root entries :=
  solo_directory listener root () entries

theorem listingEntries_cons (root name : String) (node : Node) (rest : List (String × Node)) :
    listingEntries root ((name, node) :: rest) =
      (if isHidden name then []
        else (listing (Path.join root name) node).map (Heard.below name)) ++
          listingEntries root rest := by
  by_cases hhidden : isHidden name = true
  · simp [listingEntries, soloEntries, hhidden]
  · simp [listingEntries, listing, soloEntries, hhidden]

/-- The visible entries of one kind, in the order of a walk. -/
def shown (root : String) (node : Node) (kind : EntryKind) : List (List String) :=
  ((listing root node).filter (·.kind = kind)).map Heard.names

/-- The path of the entry at the end of the names in a walk from `root`. -/
def pathTo (root : String) (names : List String) : String := names.foldl Path.join root

/-- A walk comes to the one entry before the other. -/
def Precedes (first later : List String) : Prop :=
  List.Lex (fun name other => Text.bytes name < Text.bytes other) first later

theorem pairwise_shown (root : String) {node : Node} (h : node.Ordered) (kind : EntryKind) :
    (shown root node kind).Pairwise Precedes :=
  List.pairwise_map.mpr ((pairwise_solo listener root () h).filter _)

/-! ## Subscribers that go on -/

section

variable {visit : Visitor σ} {P : σ → Prop}

/-- In these states a subscriber goes on whatever it is told, and stays in them. -/
def GoesOn (visit : Visitor σ) (P : σ → Prop) : Prop :=
  ∀ path kind s, P s → P (visit path kind s).1 ∧ (visit path kind s).2 = .goOn

mutual

/-- A subscriber that goes on whatever it is told says so to everything. -/
theorem goOn_of_goesOn (h : GoesOn visit P) (path : String) {s : σ} (hs : P s) : ∀ node : Node,
    P (solo visit path s node).1 ∧
      ∀ heard ∈ (solo visit path s node).2, heard.answer = .goOn
  | .file _ => ⟨(h path .regular s hs).1, by simpa [solo, soloEntry] using (h path _ s hs).2⟩
  | .link _ => ⟨(h path .symlink s hs).1, by simpa [solo, soloEntry] using (h path _ s hs).2⟩
  | .pipe => ⟨(h path .other s hs).1, by simpa [solo, soloEntry] using (h path _ s hs).2⟩
  | .directory entries => by
    obtain ⟨hstays, hanswer⟩ := h path .directory s hs
    obtain ⟨hafter, hheard⟩ := goOn_of_goesOn_entries h path hstays entries
    simp only [solo, hanswer, if_true]
    exact ⟨hafter, by simpa using hheard⟩

theorem goOn_of_goesOn_entries (h : GoesOn visit P) (path : String) {s : σ} (hs : P s) :
    ∀ entries : List (String × Node), P (soloEntries visit path s entries).1 ∧
      ∀ heard ∈ (soloEntries visit path s entries).2, heard.answer = .goOn
  | [] => ⟨hs, by simp [soloEntries]⟩
  | (name, node) :: rest => by
    rw [soloEntries]
    split
    · exact goOn_of_goesOn_entries h path hs rest
    · obtain ⟨hstays, hheard⟩ := goOn_of_goesOn h (Path.join path name) hs node
      obtain ⟨hafter, hlater⟩ := goOn_of_goesOn_entries h path hstays rest
      refine ⟨hafter, fun heard hmem => ?_⟩
      rcases List.mem_append.mp hmem with hmem | hmem
      · obtain ⟨inner, hinner, rfl⟩ := List.mem_map.mp hmem
        exact hheard inner hinner
      · exact hlater heard hmem

end

/-- It is told about everything that is visible. -/
theorem mem_solo_of_goesOn (h : GoesOn visit P) (path : String) {s : σ} (hs : P s) {node : Node}
    (hnode : node.Ordered) (names : List String) (kind : EntryKind) :
    ⟨names, kind, .goOn⟩ ∈ (solo visit path s node).2 ↔ node.Shows names kind := by
  have hgoOn := (goOn_of_goesOn h path hs node).2
  constructor
  · intro hmem
    exact ((mem_solo_iff visit path s hnode names kind).mp ⟨_, hmem⟩).1
  · intro hshows
    have hstays : ¬ Withdrawn (solo visit path s node).2 names := by
      rintro ⟨entry, hentry, -, hanswer, -⟩
      exact hanswer (hgoOn entry hentry)
    obtain ⟨answer, hmem⟩ := (mem_solo_iff visit path s hnode names kind).mpr ⟨hshows, hstays⟩
    obtain rfl : answer = .goOn := hgoOn _ hmem
    exact hmem

/-- The counters of a walk that nobody cuts short: everything that is visible, and the hidden
entries of the visible directories. -/
noncomputable def fullCounts (node : Node) : WalkCounts where
  files := {names | ∃ kind, kind ≠ .directory ∧ node.Shows names kind}.ncard
  directories := {names | node.Shows names .directory}.ncard
  hidden := {names | ∃ directory name, names = directory ++ [name] ∧ isHidden name = true ∧
    (node.descend? names).isSome = true ∧ node.Shows directory .directory}.ncard
  errors := 0

/-- A walk with a subscriber that goes on everywhere is not cut short, whoever else is there. -/
theorem counts_of_goesOn (h : GoesOn visit P) {tree : FileTree} {root : String} {node : Node}
    (hroot : tree.findEntry? root = some node) (hlink : ∀ target, node ≠ .link target)
    (hordered : tree.root.Ordered) {subscribers : List σ} {s : σ} (hmem : s ∈ subscribers)
    (hs : P s) :
    (run tree visit root subscribers).counts = fullCounts node := by
  have hnode : node.Ordered := FileTree.ordered_findEntry? hordered hroot
  have hlog : (solo visit root s node).2 ∈ logs visit root node subscribers :=
    List.mem_map_of_mem hmem
  have hvisited : ∀ kind, visited node (logs visit root node subscribers) kind =
      {names | node.Shows names kind} := by
    intro kind
    ext names
    refine and_iff_left_of_imp fun hshows => .inr ⟨_, hlog, .goOn, ?_⟩
    exact (mem_solo_of_goesOn h root hs hnode names kind).mpr hshows
  have hopen : ∀ directory, LeftOpen (logs visit root node subscribers) directory ↔
      node.Shows directory .directory := by
    intro directory
    constructor
    · rintro ⟨_, hother, hgoOn⟩
      obtain ⟨other, -, rfl⟩ := List.mem_map.mp hother
      exact shows_of_open hnode hgoOn
    · exact fun hshows => ⟨_, hlog, (mem_solo_of_goesOn h root hs hnode _ _).mpr hshows⟩
  rw [counts_run hroot hlink hordered visit subscribers]
  simp only [hvisited, hiddenIn, hopen, Set.mem_ofPred_eq, fullCounts]

end

theorem mem_shown_iff (root : String) {node : Node} (h : node.Ordered) (names : List String)
    (kind : EntryKind) : names ∈ shown root node kind ↔ node.Shows names kind := by
  have hlistener : GoesOn listener fun _ => True := fun _ _ _ _ => ⟨trivial, rfl⟩
  simp only [shown, List.mem_map, List.mem_filter, decide_eq_true_eq]
  constructor
  · rintro ⟨heard, ⟨hmem, rfl⟩, rfl⟩
    exact ((mem_solo_iff listener root () h _ _).mp ⟨heard.answer, hmem⟩).1
  · intro hshows
    exact ⟨_, ⟨(mem_solo_of_goesOn hlistener root trivial h names kind).mpr hshows, rfl⟩, rfl⟩

/-! ## Subscribers that settle -/

/-- After leaving a directory, nothing that the subscriber is told changes it. -/
def Settles (visit : Visitor σ) : Prop :=
  ∀ path s, (visit path .directory s).2 ≠ .goOn → ∀ path' kind,
    (visit path' kind (visit path .directory s).1).1 = (visit path .directory s).1

/-- What an entry of the listing does to a subscriber that is told about it. -/
def hear (visit : Visitor σ) (root : String) (s : σ) (heard : Heard) : σ :=
  (visit (pathTo root heard.names) heard.kind s).1

mutual

/-- A subscriber that settles ends as if it had been told about everything that is visible. -/
theorem solo_of_settles {visit : Visitor σ} (h : Settles visit) (path : String) (s : σ) :
    ∀ node : Node, (solo visit path s node).1 = (listing path node).foldl (hear visit path) s
  | .file _ | .link _ | .pipe => rfl
  | .directory entries => by
    have hfirst : hear visit path s ⟨[], .directory, .goOn⟩ = (visit path .directory s).1 := rfl
    rw [listing_directory, List.foldl_cons, hfirst]
    by_cases hanswer : (visit path .directory s).2 = .goOn
    · have hentries := soloEntries_of_settles h path (visit path .directory s).1 entries
      simpa [solo, hanswer] using hentries
    · have hrests : (listingEntries path entries).foldl (hear visit path)
          (visit path .directory s).1 = (visit path .directory s).1 :=
        List.foldl_fixed' (fun heard => h path s hanswer _ _) _
      simpa [solo, hanswer] using hrests.symm

theorem soloEntries_of_settles {visit : Visitor σ} (h : Settles visit) (path : String) (s : σ) :
    ∀ entries : List (String × Node), (soloEntries visit path s entries).1 =
      (listingEntries path entries).foldl (hear visit path) s
  | [] => rfl
  | (name, node) :: rest => by
    rw [listingEntries_cons, List.foldl_append]
    by_cases hhidden : isHidden name = true
    · simpa [soloEntries, hhidden] using soloEntries_of_settles h path s rest
    · have hnode := solo_of_settles h (Path.join path name) s node
      have hrest := soloEntries_of_settles h path
        (solo visit (Path.join path name) s node).1 rest
      have hbelow : ((listing (Path.join path name) node).map (Heard.below name)).foldl
          (hear visit path) s =
            (listing (Path.join path name) node).foldl (hear visit (Path.join path name)) s := by
        rw [List.foldl_map]
        rfl
      simp only [soloEntries, hhidden, Bool.false_eq_true, if_false]
      rw [hrest, hnode, hbelow]

end

end SymbolAtlas.Walk
