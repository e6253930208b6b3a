import SymbolAtlas.Proofs.FileTree.Lookup
import SymbolAtlas.Proofs.Run.Stages
import SymbolAtlas.Proofs.Store.Statistics

/-!
# What discovery finds and records

Discovery is one walk with two subscribers, and a transaction that records what they found.

- **Languages** (`Tallies`): how often each language occurs among some files. A census that is
  offered files counts the first ones it has room for (`Census.foldl_offer`), and keeps the tally
  of those (`Census.foldl_count`).
- **Scouts** (`Scout.goesOn_visit`, `Scout.settles_visit`): the finder goes on everywhere, so the
  walk is not cut short. The census leaves directories once it is full, but then nothing would
  change it any more. What both know at the end is therefore told from the listing of the workspace
  (`subscribers_scout`).
- **Checkouts** (`Scout.isCheckout_iff`): a directory holds one if it has the entry for it.
- **Tables** (`Recorded`): the rows of languages are replaced, the checkouts come to the earlier
  ones, and the rest is as before.
-/

namespace SymbolAtlas

/-! ## Languages -/

/-- The languages of the files at some paths, each with the number of these files. -/
structure Tallies (languages : List (String × Nat)) (paths : List String) : Prop where
  ascending : Ascending.KeysAscending languages
  mem_iff : ∀ language n, (language, n) ∈ languages ↔
    0 < n ∧ n = paths.countP (Language.detect? · = some language)

theorem tallies_nil : Tallies [] [] := ⟨.nil, Ascending.counts_nil.mem_iff⟩

theorem Tallies.counts {languages : List (String × Nat)} {paths : List String}
    (h : Tallies languages paths) :
    Ascending.Counts languages fun language =>
      paths.countP (Language.detect? · = some language) :=
  ⟨h.ascending, h.mem_iff⟩

/-- One more file is counted. -/
theorem Tallies.count {census : Census} {paths : List String}
    (h : Tallies census.languages paths) (path : String) :
    Tallies (census.count path).languages (paths ++ [path]) := by
  cases hdetect : Language.detect? path with
  | none =>
    simp only [Census.count, hdetect]
    refine ⟨h.ascending, fun language n => ?_⟩
    rw [h.mem_iff, List.countP_append]
    simp [hdetect]
  | some found =>
    have hcounts := h.counts.adjust found
    simp only [Census.count, hdetect]
    refine ⟨hcounts.ascending, fun language n => ?_⟩
    rw [hcounts.mem_iff, List.countP_append]
    by_cases hlanguage : language = found
    · simp [hdetect, hlanguage]
    · simp [hdetect, hlanguage, Ne.symm hlanguage]

namespace Census

/-- How many of `n` more files the census may count. -/
def room (census : Census) (n : Nat) : Nat :=
  match census.limit with
  | none => n
  | some limit => limit - census.files

/-- Count a file unless the census is full. -/
def offer (census : Census) (path : String) : Census :=
  if census.isFull then census else census.count path

/-- A census that is offered files counts the first ones it has room for. -/
theorem foldl_offer (census : Census) (paths : List String) :
    paths.foldl offer census =
      (paths.take (census.room paths.length)).foldl (fun census path => census.count path)
        census := by
  induction paths generalizing census with
  | nil => simp
  | cons path rest ih =>
    obtain ⟨files, languages, limit⟩ := census
    rw [List.foldl_cons, ih]
    cases limit with
    | none => simp [offer, isFull, room, count]
    | some limit =>
      by_cases hfull : limit ≤ files
      · simp [offer, isFull, room, hfull, Nat.sub_eq_zero_of_le hfull]
      · obtain ⟨more, rfl⟩ : ∃ more, limit = files + 1 + more :=
          Nat.exists_eq_add_of_le (by omega)
        have hroom : files + 1 + more - files = more + 1 := by omega
        simp [offer, isFull, room, hfull, count, hroom]

/-- Counting files one after the other. -/
theorem foldl_count (census : Census) {before : List String}
    (h : Tallies census.languages before) (paths : List String) :
    ∃ languages, Tallies languages (before ++ paths) ∧
      paths.foldl (fun census path => census.count path) census =
        ⟨census.files + paths.length, languages, census.limit⟩ := by
  induction paths generalizing census before with
  | nil => exact ⟨census.languages, by simpa using h, rfl⟩
  | cons path rest ih =>
    obtain ⟨languages, htallies, hfold⟩ := ih (census.count path) (h.count path)
    refine ⟨languages, by simpa using htallies, ?_⟩
    rw [List.foldl_cons, hfold]
    simp only [count, List.length_cons, mk.injEq, and_true]
    omega

end Census

/-! ## The walk -/

namespace Scout

variable {tree : FileTree}

/-- The directory at the end of the names holds something under the name of a checkout. -/
def IsCheckout (tree : FileTree) (root : String) (names : List String) : Prop :=
  tree.exists? (Path.join (Walk.pathTo root names) ".git") = true

instance (tree : FileTree) (root : String) (names : List String) :
    Decidable (IsCheckout tree root names) := inferInstanceAs (Decidable (_ = true))

/-- The checkout in the directory at the end of the names. -/
def checkout (root : String) (names : List String) : Repository :=
  ⟨Walk.pathTo root names, "git"⟩

theorem visit_finder (found : List Repository) (path : String) (kind : EntryKind) :
    visit tree path kind (.finder found) =
      (.finder (found ++
        if kind = .directory && tree.exists? (Path.join path ".git") then [⟨path, "git"⟩] else []),
        .goOn) := by
  simp only [visit]
  split
  · rfl
  · rw [List.append_nil]

theorem visit_census (census : Census) (path : String) (kind : EntryKind) :
    visit tree path kind (.census census) =
      (.census (if kind = .regular then census.offer path else census),
        if census.isFull then .stop else .goOn) := by
  simp only [visit, Census.offer]
  by_cases hfull : census.isFull = true
  · simp [hfull]
  · by_cases hkind : kind = .regular
    · simp [hfull, hkind]
    · simp [hfull, hkind]

/-- The finder goes on everywhere. -/
theorem goesOn_visit (tree : FileTree) :
    Walk.GoesOn (visit tree) fun scout => ∃ found, scout = .finder found := by
  rintro path kind _ ⟨found, rfl⟩
  rw [visit_finder]
  exact ⟨⟨_, rfl⟩, rfl⟩

/-- A census leaves only when it is full, and then it stays as it is. -/
theorem settles_visit (tree : FileTree) : Walk.Settles (visit tree) := by
  intro path scout hanswer path' kind
  cases scout with
  | finder found =>
    rw [visit_finder] at hanswer
    exact absurd rfl hanswer
  | census census =>
    have hfull : census.isFull = true := by
      by_contra hroom
      rw [visit_census, if_neg hroom] at hanswer
      exact hanswer rfl
    simp [visit_census, Census.offer, hfull]

theorem foldl_hear_finder (root : String) (found : List Repository) (log : List Walk.Heard) :
    log.foldl (Walk.hear (visit tree) root) (.finder found) =
      .finder (found ++ (((log.filter (·.kind = .directory)).map Walk.Heard.names).filter
        (IsCheckout tree root ·)).map (checkout root)) := by
  induction log generalizing found with
  | nil => simp
  | cons heard rest ih =>
    rw [List.foldl_cons, Walk.hear, visit_finder, ih]
    by_cases hkind : heard.kind = .directory
    · by_cases hgit : tree.exists? (Path.join (Walk.pathTo root heard.names) ".git") = true
      · have hcheckout : IsCheckout tree root heard.names := hgit
        simp [hkind, hgit, hcheckout, checkout]
      · have hcheckout : ¬ IsCheckout tree root heard.names := hgit
        simp [hkind, hgit, hcheckout]
    · simp [hkind]

theorem foldl_hear_census (root : String) (census : Census) (log : List Walk.Heard) :
    log.foldl (Walk.hear (visit tree) root) (.census census) =
      .census ((((log.filter (·.kind = .regular)).map Walk.Heard.names).map
        (Walk.pathTo root)).foldl Census.offer census) := by
  induction log generalizing census with
  | nil => rfl
  | cons heard rest ih =>
    rw [List.foldl_cons, Walk.hear, visit_census, ih]
    by_cases hkind : heard.kind = .regular
    · simp [hkind]
    · simp [hkind]

/-- Unless there is a link with the name of a checkout, the directory holds one if it has an entry
with this name. -/
theorem isCheckout_iff {root : String} {node : Node} (hroot : tree.findEntry? root = some node)
    {names : List String} (hshows : node.Shows names .directory)
    (hnames : ∀ name ∈ names, name ≠ "" ∧ '/' ∉ name.toList)
    (hlink : ∀ target, node.descend? (names ++ [".git"]) ≠ some (.link target)) :
    IsCheckout tree root names ↔ (node.descend? (names ++ [".git"])).isSome = true := by
  have hentry : ∀ name ∈ names, (Path.Component.normal name).Proper := by
    intro name hname
    obtain ⟨hnonempty, hslash⟩ := hnames name hname
    have hvisible : Walk.isHidden name = false := hshows.1 name hname
    refine ⟨⟨hnonempty, ?_, hslash⟩, ?_⟩
    · rintro rfl
      cases hvisible
    · rintro rfl
      cases hvisible
  obtain ⟨child, hchild, hkind⟩ := Option.map_eq_some_iff.mp hshows.2
  cases child with
  | file _ => cases hkind
  | link _ => cases hkind
  | pipe => cases hkind
  | directory entries =>
    have hgit : (Path.Component.normal ".git").Proper :=
      ⟨⟨by decide, by decide, by decide⟩, by decide⟩
    rw [IsCheckout, FileTree.exists?_join_pathTo hroot hentry hchild hgit hlink]

end Scout

/-! ## Recording -/

theorem Repository.eq_of_path {row other : Repository} (hpath : row.path = other.path)
    (hkind : row.kind = other.kind) : row = other := by
  cases row
  cases other
  simp_all

namespace Store

section

variable {found : List Repository} {kind : String}

/-- Checkouts of one kind are recorded as they are, and rows of other paths are kept. -/
theorem mem_checkouts_iff (h : ∀ new ∈ found, new.kind = kind) (rows : List Repository)
    (row : Repository) : row ∈ checkouts found rows ↔
      row ∈ found ∨ row ∈ rows ∧ row.path ∉ found.map Repository.path := by
  have hfound : row ∈ checkouts found [] ↔ row ∈ found := by
    induction found using List.reverseRecOn with
    | nil => exact Iff.rfl
    | append_singleton found new ih =>
      rw [checkouts_concat, List.mem_append, List.mem_append, List.mem_filter,
        ih fun old hold => h old (List.mem_append_left _ hold)]
      constructor
      · rintro (⟨hold, -⟩ | hnew)
        · exact .inl hold
        · exact .inr hnew
      · rintro (hold | hnew)
        · by_cases hpath : row.path = new.path
          · have hkind : row.kind = new.kind :=
              (h row (List.mem_append_left _ hold)).trans (h new (by simp)).symm
            exact .inr (Repository.eq_of_path hpath hkind ▸ .head _)
          · exact .inl ⟨hold, by simpa using hpath⟩
        · exact .inr hnew
  rw [checkouts_eq, List.mem_append, hfound, List.mem_filter, decide_eq_true_eq, or_comm]

/-- The paths of checkouts come to those that are recorded. -/
theorem path_mem_checkouts_iff (h : ∀ new ∈ found, new.kind = kind) (rows : List Repository)
    (path : String) : path ∈ (checkouts found rows).map Repository.path ↔
      path ∈ rows.map Repository.path ∨ path ∈ found.map Repository.path := by
  simp only [List.mem_map, mem_checkouts_iff h]
  constructor
  · rintro ⟨row, hfound | ⟨hold, -⟩, rfl⟩
    · exact .inr ⟨row, hfound, rfl⟩
    · exact .inl ⟨row, hold, rfl⟩
  · rintro (⟨row, hold, rfl⟩ | ⟨row, hfound, rfl⟩)
    · by_cases hpath : ∃ new ∈ found, new.path = row.path
      · obtain ⟨new, hnew, hsame⟩ := hpath
        exact ⟨new, .inl hnew, hsame⟩
      · exact ⟨row, .inr ⟨hold, hpath⟩, rfl⟩
    · exact ⟨row, .inl hfound, rfl⟩

/-- Where all rows are of the same kind, the checkouts come to them. -/
theorem mem_checkouts_iff_or (h : ∀ new ∈ found, new.kind = kind) {rows : List Repository}
    (hrows : ∀ old ∈ rows, old.kind = kind) (row : Repository) :
    row ∈ checkouts found rows ↔ row ∈ rows ∨ row ∈ found := by
  rw [mem_checkouts_iff h]
  constructor
  · rintro (hfound | ⟨hold, -⟩)
    · exact .inr hfound
    · exact .inl hold
  · rintro (hold | hfound)
    · by_cases hpath : row.path ∈ found.map Repository.path
      · obtain ⟨new, hnew, hsame⟩ := List.mem_map.mp hpath
        have hkind : new.kind = row.kind := (h new hnew).trans (hrows row hold).symm
        exact .inl (Repository.eq_of_path hsame hkind ▸ hnew)
      · exact .inr ⟨hold, hpath⟩
    · exact .inl hfound

end

end Store

namespace Discovery

/-- The counters of the languages. -/
def rows (languages : List (String × Nat)) : List Statistic :=
  languages.map fun (language, n) => ⟨"language", language, n⟩

theorem within_rows (languages : List (String × Nat)) :
    ∀ row ∈ rows languages, Store.Within "language" row.category := by
  intro row hrow
  obtain ⟨entry, -, rfl⟩ := List.mem_map.mp hrow
  exact .inl rfl

theorem record_eq {found : Discovery} (h : Ascending.KeysAscending found.languages)
    (store : Store) :
    found.record store =
      { store with
        repositories := Store.checkouts found.repositories store.repositories
        statistics := store.statistics.filter (¬ Store.Within "language" ·.category) ++
          rows found.languages } := by
  have hnodup : ((rows found.languages).map fun row => (row.category, row.key)).Nodup := by
    rw [rows, List.map_map]
    refine List.pairwise_map.mpr (h.imp fun {a b} hlt heq => ?_)
    exact hlt.ne (Prod.mk.inj heq).2
  unfold record
  rw [Store.addRepositories_eq]
  exact Store.statistics_replaced (by decide) (within_rows _) hnodup _

section

variable {tree : FileTree} {root : String} {entries : List (String × Node)}

/-- The names of the directories below a node that hold a checkout, in the order of a walk. -/
def checkoutsIn (tree : FileTree) (root : String) (node : Node) : List (List String) :=
  (Walk.shown root node .directory).filter (Scout.IsCheckout tree root ·)

/-- The paths of the files that are counted. -/
def countedIn (limit : Option Nat) (root : String) (node : Node) : List String :=
  ((Walk.shown root node .regular).take
    (limit.getD (Walk.shown root node .regular).length)).map (Walk.pathTo root)

/-- What the scouts know at the end of the walk. -/
theorem subscribers_scout (hroot : tree.findEntry? root = some (.directory entries))
    (hordered : tree.root.Ordered)
    (limit : Option Nat) : ∃ languages,
      Tallies languages (countedIn limit root (.directory entries)) ∧
      (Walk.run tree (Scout.visit tree) root [.finder [], .census { limit }]).subscribers =
        [.finder ((checkoutsIn tree root (.directory entries)).map (Scout.checkout root)),
          .census ⟨(countedIn limit root (.directory entries)).length, languages, limit⟩] := by
  have hroom : ∀ n, ({ limit } : Census).room n = limit.getD n := by
    intro n
    cases limit <;> rfl
  obtain ⟨languages, htallies, hfold⟩ := Census.foldl_count { limit } tallies_nil
    (countedIn limit root (.directory entries))
  have hcensus : ((Walk.shown root (.directory entries) .regular).map (Walk.pathTo root)).foldl
      Census.offer { limit } =
        ⟨(countedIn limit root (.directory entries)).length, languages, limit⟩ := by
    rw [Census.foldl_offer, hroom, List.length_map, ← List.map_take]
    exact hfold.trans (by rw [Nat.zero_add])
  refine ⟨languages, htallies, ?_⟩
  rw [Walk.subscribers_run hordered (Scout.visit tree) hroot (by simp), ← hcensus]
  simp only [List.map_cons, List.map_nil, Walk.solo_of_settles (Scout.settles_visit tree),
    Scout.foldl_hear_finder, Scout.foldl_hear_census, List.nil_append]
  rfl

theorem yields_discover (tree : FileTree) (limit : Option Nat) (root : String) (store : Store) :
    Tx.Yields (discover tree limit root) store (scout tree limit root)
      ((scout tree limit root).record store) :=
  (Tx.Yields.write (scout tree limit root).record store).transaction.bind (.pure _ _)

/-- The languages and the checkouts that were found are in the tables, and nothing else has changed:
the counters of languages are those that were found, and the paths of checkouts are the earlier ones
and those that were found. -/
structure Recorded (languages : List (String × Nat)) (found : List Repository)
    (before after : Store) : Prop where
  rest : after = { before with
    repositories := after.repositories, statistics := after.statistics }
  languages : after.statistics.filter (Store.Within "language" ·.category) = rows languages
  counters : after.statistics.filter (¬ Store.Within "language" ·.category) =
    before.statistics.filter (¬ Store.Within "language" ·.category)
  paths : ∀ path, path ∈ after.repositories.map Repository.path ↔
    path ∈ before.repositories.map Repository.path ∨ path ∈ found.map Repository.path
  rows : ∀ row, row ∈ after.repositories ↔
    row ∈ found ∨ row ∈ before.repositories ∧ row.path ∉ found.map Repository.path
  union : (∀ row ∈ before.repositories, row.kind = "git") → ∀ row, row ∈ after.repositories ↔
    row ∈ before.repositories ∨ row ∈ found

theorem recorded_record (found : Discovery) (h : Ascending.KeysAscending found.languages)
    (hkind : ∀ row ∈ found.repositories, row.kind = "git") (store : Store) :
    Recorded found.languages found.repositories store (found.record store) := by
  obtain ⟨hinside, houtside⟩ :=
    Store.filter_within_replaced (within_rows found.languages) store.statistics
  rw [record_eq h]
  exact ⟨rfl, hinside, houtside, Store.path_mem_checkouts_iff hkind _,
    Store.mem_checkouts_iff hkind _, fun hrows => Store.mem_checkouts_iff_or hkind hrows⟩

/-- Discovery finds and records what is there.

In a workspace whose root is a directory, the walk counts everything that is visible and finds the
directories that hold a checkout, whatever the limit of the census is. The census counts the first
files of the walk, as many as the limit allows, and the languages found are those of these files.
They take the place of the counters of languages, and the checkouts come to those that are known. -/
theorem discover_exact (hroot : tree.findEntry? root = some (.directory entries))
    (hordered : tree.root.Ordered) :
    ∃ files checkouts : List (List String),
      files.Pairwise Walk.Precedes ∧
      (∀ names, names ∈ files ↔ (Node.directory entries).Shows names .regular) ∧
      checkouts.Pairwise Walk.Precedes ∧
      (∀ names, names ∈ checkouts ↔
        (Node.directory entries).Shows names .directory ∧ Scout.IsCheckout tree root names) ∧
      (∀ names, (Node.directory entries).Shows names .directory →
        (∀ name ∈ names, name ≠ "" ∧ '/' ∉ name.toList) →
        (∀ target, (Node.directory entries).descend? (names ++ [".git"]) ≠ some (.link target)) →
        (Scout.IsCheckout tree root names ↔
          ((Node.directory entries).descend? (names ++ [".git"])).isSome = true)) ∧
      ∀ (limit : Option Nat) (store : Store),
        let counted := (files.take (limit.getD files.length)).map (Walk.pathTo root)
        let found := checkouts.map (Scout.checkout root)
        ∃ (languages : List (String × Nat)) (after : Store), Tallies languages counted ∧
          (Walk.run tree (Scout.visit tree) root [.finder [], .census { limit }]).subscribers =
            [.finder found, .census ⟨counted.length, languages, limit⟩] ∧
          Tx.Yields (discover tree limit root) store
            ⟨Walk.fullCounts (.directory entries), found, languages⟩ after ∧
          Recorded languages found store after := by
  have hnode : (Node.directory entries).Ordered := FileTree.ordered_findEntry? hordered hroot
  refine ⟨Walk.shown root (.directory entries) .regular,
    checkoutsIn tree root (.directory entries), Walk.pairwise_shown root hnode .regular,
    fun names => Walk.mem_shown_iff root hnode names .regular,
    (Walk.pairwise_shown root hnode .directory).filter _, fun names => ?_,
    fun names hshows => Scout.isCheckout_iff hroot hshows, fun limit store => ?_⟩
  · rw [checkoutsIn, List.mem_filter, Walk.mem_shown_iff root hnode, decide_eq_true_eq]
  · obtain ⟨languages, htallies, hscouts⟩ := subscribers_scout hroot hordered limit
    have hfinder : Scout.finder [] ∈ [Scout.finder [], .census { limit }] := .head _
    have hcounts := Walk.counts_of_goesOn (Scout.goesOn_visit tree) hroot (by simp) hordered
      hfinder ⟨[], rfl⟩
    have hfound : scout tree limit root =
        ⟨Walk.fullCounts (.directory entries),
          (checkoutsIn tree root (.directory entries)).map (Scout.checkout root), languages⟩ := by
      simp [scout, hscouts, hcounts]
    have hkind : ∀ row ∈ (checkoutsIn tree root (.directory entries)).map (Scout.checkout root),
        row.kind = "git" := by
      intro row hrow
      obtain ⟨names, -, rfl⟩ := List.mem_map.mp hrow
      rfl
    have hyields := yields_discover tree limit root store
    rw [hfound] at hyields
    exact ⟨languages, _, htallies, hscouts, hyields,
      recorded_record ⟨_, _, languages⟩ htallies.ascending hkind store⟩

/-- Tables with the languages of an earlier run, a counter of a category with a similar name, and a
checkout. -/
def sampleStore : Store where
  statistics := [⟨"language", "rust", 3⟩, ⟨"language.old", "go", 1⟩, ⟨"languages", "all", 5⟩]
  repositories := [⟨"/gone", "git"⟩]

theorem discover_exact_sample :
    Walk.sampleTree.findEntry? "/" = some Walk.sampleTree.root ∧ Walk.sampleTree.root.Ordered ∧
    ∃ counts after, Tx.Yields (discover Walk.sampleTree (some 1) "/") sampleStore
        ⟨counts, [⟨"/", "git"⟩], [("c", 1)]⟩ after ∧
      after.statistics.filter (Store.Within "language" ·.category) = [⟨"language", "c", 1⟩] ∧
      after.statistics.filter (¬ Store.Within "language" ·.category) = [⟨"languages", "all", 5⟩] ∧
      ∀ row, row ∈ after.repositories ↔ row = ⟨"/gone", "git"⟩ ∨ row = ⟨"/", "git"⟩ := by
  have hroot : Walk.sampleTree.findEntry? "/" = some Walk.sampleTree.root := by rfl
  have hscouts : (Walk.run Walk.sampleTree (Scout.visit Walk.sampleTree) "/"
      [.finder [], .census { limit := some 1 }]).subscribers =
        [.finder [⟨"/", "git"⟩], .census ⟨1, [("c", 1)], some 1⟩] := by decide +kernel
  obtain ⟨files, checkouts, -, -, -, -, -, hrun⟩ :=
    discover_exact hroot Walk.ordered_sampleTree
  obtain ⟨languages, after, -, hfound, hyields, hrecorded⟩ := hrun (some 1) sampleStore
  rw [hscouts] at hfound
  simp only [List.cons.injEq, Scout.finder.injEq, Scout.census.injEq, Census.mk.injEq] at hfound
  obtain ⟨hcheckouts, ⟨-, rfl, -⟩, -⟩ := hfound
  rw [← hcheckouts] at hyields hrecorded
  refine ⟨hroot, Walk.ordered_sampleTree, _, after, hyields, hrecorded.languages,
    hrecorded.counters.trans (by decide), fun row => ?_⟩
  rw [hrecorded.union (by decide)]
  simp [sampleStore]

end

end Discovery

end SymbolAtlas
