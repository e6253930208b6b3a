import Mathlib.Data.Set.Card
import SymbolAtlas.Proofs.FileTree.Met

/-!
# What a walk counts

The counters of a walk, in terms of what its subscribers are told.

- **Receivers** (`received_iff`): a subscriber is told about the visible entries of the directories
  that it leaves open. So the visible entries that a walk meets are those that someone is told about
  (`mem_meets_some_iff`), and the hidden ones are those in a directory that someone leaves open
  (`mem_meets_none_iff`).
- **Counters** (`counts_run`): the number of these entries, by what each subscriber hears of alone.
- **Closed directories** (`visitNode_insert`): what lies in a directory that nobody leaves open can
  be replaced by anything, the walk does not notice.
-/

namespace SymbolAtlas

namespace Walk

variable {σ : Type}

/-! ## Who receives an entry -/

theorem Heard.not_before_self (heard : Heard) : ¬ heard.Before heard := by
  unfold Heard.Before
  induction heard.names with
  | nil => rintro ⟨⟩
  | cons name names ih =>
    intro h
    cases h with
    | rel hlt => exact List.lt_irrefl _ hlt
    | cons hlater => exact ih hlater

/-- A subscriber says one thing to an entry. -/
theorem answer_unique {visit : Visitor σ} {path : String} {s : σ} {node : Node} (h : node.Ordered)
    {first second : Heard} (hfirst : first ∈ (solo visit path s node).2)
    (hsecond : second ∈ (solo visit path s node).2) (hnames : first.names = second.names) :
    first = second := by
  have hnodup : ((solo visit path s node).2.map Heard.names).Nodup := by
    refine List.pairwise_map.mpr ((pairwise_solo visit path s h).imp fun {a b} hbefore heq => ?_)
    exact Heard.not_before_self a (by rwa [Heard.Before, ← heq] at hbefore)
  exact List.inj_on_of_nodup_map hnodup hfirst hsecond hnames

/-- A subscriber receives the visible entries of the directories that it leaves open. -/
theorem received_iff (visit : Visitor σ) (path : String) (s : σ) {node : Node} (h : node.Ordered)
    (directory : List String) (name : String) (kind : EntryKind) :
    (∃ answer, ⟨directory ++ [name], kind, answer⟩ ∈ (solo visit path s node).2) ↔
      node.Shows (directory ++ [name]) kind ∧
        ⟨directory, .directory, .goOn⟩ ∈ (solo visit path s node).2 := by
  rw [mem_solo_iff visit path s h]
  refine and_congr_right fun hshows => ?_
  constructor
  · intro hstays
    have habove : ¬ Withdrawn (solo visit path s node).2 directory := by
      rintro ⟨entry, hentry, hkind, hanswer, hprefix, hne⟩
      refine hstays ⟨entry, hentry, hkind, hanswer, hprefix.trans (List.prefix_append _ _), ?_⟩
      intro heq
      have hlength := hprefix.length_le
      rw [heq, List.length_append, List.length_singleton] at hlength
      omega
    obtain ⟨answer, hmem⟩ := (mem_solo_iff visit path s h directory .directory).mpr
      ⟨hshows.directory, habove⟩
    by_cases hanswer : answer = .goOn
    · rwa [hanswer] at hmem
    · exact absurd ⟨_, hmem, rfl, hanswer, List.prefix_append _ _, by simp⟩ hstays
  · rintro hopen ⟨entry, hentry, hkind, hanswer, hprefix, hne⟩
    have hbelow : entry.names <+: directory :=
      (List.prefix_concat_iff.mp hprefix).resolve_left hne
    by_cases heq : entry.names = directory
    · exact hanswer (congrArg Heard.answer (answer_unique h hentry hopen heq))
    · exact ((mem_solo_iff visit path s h directory .directory).mp ⟨_, hopen⟩).2
        ⟨entry, hentry, hkind, hanswer, hbelow, heq⟩

theorem shows_nil_iff {node : Node} {kind : EntryKind} :
    node.Shows [] kind ↔ node.kind = kind := by
  simp [Node.Shows, Node.descend?]

/-- What shows in a directory is a visible entry of a directory that shows. -/
theorem shows_concat_iff {node : Node} {directory : List String} {name : String}
    {kind : EntryKind} :
    node.Shows (directory ++ [name]) kind ↔ node.Shows directory .directory ∧
      met? node directory name = some ⟨directory ++ [name], some kind⟩ := by
  constructor
  · intro h
    refine ⟨h.directory, ?_⟩
    obtain ⟨child, hchild, rfl⟩ := Option.map_eq_some_iff.mp h.2
    rw [met?, hchild, Option.map_some, h.1 name (by simp)]
    rfl
  · rintro ⟨⟨hvisible, -⟩, hmet⟩
    obtain ⟨child, hchild, heq⟩ := Option.map_eq_some_iff.mp hmet
    cases hname : isHidden name with
    | true => simp [hname] at heq
    | false =>
      obtain rfl : child.kind = kind := by simpa [hname] using heq
      refine ⟨?_, by rw [hchild, Option.map_some]⟩
      simpa [or_imp, forall_and, hname] using hvisible

theorem met?_names {node : Node} {directory : List String} {name : String} {met : Met}
    (h : met? node directory name = some met) : met.names = directory ++ [name] := by
  obtain ⟨_, -, rfl⟩ := Option.map_eq_some_iff.mp h
  rfl

/-- A directory that is left open shows. -/
theorem shows_of_open {visit : Visitor σ} {path : String} {s : σ} {node : Node} (h : node.Ordered)
    {directory : List String}
    (hopen : ⟨directory, .directory, .goOn⟩ ∈ (solo visit path s node).2) :
    node.Shows directory .directory :=
  ((mem_solo_iff visit path s h directory .directory).mp ⟨_, hopen⟩).1

/-- The entries that are visited are the root and those that someone receives. -/
theorem mem_meets_some_iff (visit : Visitor σ) (path : String) (ps : List (Bool × σ))
    {node : Node} (h : node.Ordered) (names : List String) (kind : EntryKind) :
    ⟨names, some kind⟩ ∈ meets visit path ps node ↔ node.Shows names kind ∧
      (names = [] ∨ Someone ps fun s =>
        ∃ answer, ⟨names, kind, answer⟩ ∈ (solo visit path s node).2) := by
  rw [mem_meets_iff visit path ps h]
  rcases names.eq_nil_or_concat' with rfl | ⟨directory, name, rfl⟩
  · have hnone : ∀ directory name, met? node directory name ≠ some ⟨[], some kind⟩ := by
      simp [met?]
    simp [shows_nil_iff, hnone, eq_comm]
  · simp only [received_iff visit path _ h]
    constructor
    · rintro (heq | ⟨directory', name', hmet, hopen⟩)
      · simp at heq
      · obtain ⟨rfl, heq⟩ := List.append_inj' (met?_names hmet) rfl
        cases heq
        have hshows : node.Shows (directory ++ [name]) kind := by
          obtain ⟨p, -, -, hmem⟩ := hopen
          exact shows_concat_iff.mpr ⟨shows_of_open h hmem, hmet⟩
        exact ⟨hshows, .inr (hopen.imp fun s hmem => ⟨hshows, hmem⟩)⟩
    · rintro ⟨hshows, hroot | hopen⟩
      · simp at hroot
      · exact .inr ⟨directory, name, (shows_concat_iff.mp hshows).2, hopen.imp fun s => And.right⟩

/-- The hidden entries that are counted are those of the directories that someone leaves open. -/
theorem mem_meets_none_iff (visit : Visitor σ) (path : String) (ps : List (Bool × σ))
    {node : Node} (h : node.Ordered) (names : List String) :
    ⟨names, none⟩ ∈ meets visit path ps node ↔ ∃ directory name, names = directory ++ [name] ∧
      isHidden name = true ∧ (node.descend? names).isSome = true ∧ Someone ps fun s =>
        ⟨directory, .directory, .goOn⟩ ∈ (solo visit path s node).2 := by
  rw [mem_meets_iff visit path ps h]
  constructor
  · rintro (heq | ⟨directory, name, hmet, hopen⟩)
    · simp at heq
    · obtain ⟨child, hchild, heq⟩ := Option.map_eq_some_iff.mp hmet
      obtain ⟨rfl, hkind⟩ := Met.mk.inj heq
      exact ⟨directory, name, rfl, by simpa using hkind, by rw [hchild]; rfl, hopen⟩
  · rintro ⟨directory, name, rfl, hhidden, hsome, hopen⟩
    obtain ⟨child, hchild⟩ := Option.isSome_iff_exists.mp hsome
    exact .inr ⟨directory, name, by rw [met?, hchild, Option.map_some, if_pos hhidden], hopen⟩

/-- Whoever leaves a directory open has left those above it open. -/
theorem open_above {visit : Visitor σ} {path : String} {s : σ} {node : Node} (h : node.Ordered)
    {directory below : List String}
    (hopen : ⟨directory ++ below, .directory, .goOn⟩ ∈ (solo visit path s node).2) :
    ⟨directory, .directory, .goOn⟩ ∈ (solo visit path s node).2 := by
  induction below using List.reverseRecOn with
  | nil => rwa [List.append_nil] at hopen
  | append_singleton below name ih =>
    rw [← List.append_assoc] at hopen
    exact ih ((received_iff visit path s h _ name .directory).mp ⟨_, hopen⟩).2

/-! ## Counting -/

/-- The walk counts each entry that it meets, by its kind. -/
theorem foldl_count (counts : WalkCounts) (mets : List Met) :
    mets.foldl Met.count counts =
      { files := counts.files + mets.countP fun met => met.kind?.any (· ≠ .directory)
        directories := counts.directories + mets.countP fun met => met.kind?.any (· = .directory)
        hidden := counts.hidden + mets.countP fun met => met.kind?.isNone
        errors := counts.errors } := by
  induction mets generalizing counts with
  | nil => rfl
  | cons met mets ih =>
    obtain ⟨names, kind?⟩ := met
    rw [List.foldl_cons, ih]
    rcases kind? with _ | kind
    · simp [Met.count]
      omega
    · by_cases hkind : kind = .directory
      · simp [Met.count, WalkCounts.add, hkind]
        omega
      · simp [Met.count, WalkCounts.add, hkind]
        omega

theorem countP_eq_ncard {mets : List Met} (hnodup : (mets.map Met.names).Nodup) (p : Met → Bool) :
    mets.countP p = {names | ∃ kind?, ⟨names, kind?⟩ ∈ mets ∧ p ⟨names, kind?⟩ = true}.ncard := by
  have hset : {names | ∃ kind?, (⟨names, kind?⟩ : Met) ∈ mets ∧ p ⟨names, kind?⟩ = true} =
      (((mets.filter p).map Met.names).toFinset : Set (List String)) := by
    ext names
    simp only [Set.mem_ofPred_eq, List.coe_toFinset, List.mem_map, List.mem_filter]
    constructor
    · rintro ⟨kind?, hmem⟩
      exact ⟨_, hmem, rfl⟩
    · rintro ⟨⟨_, kind?⟩, hmem, rfl⟩
      exact ⟨kind?, hmem⟩
  rw [hset, Set.ncard_coe_finset, List.toFinset_card_of_nodup, List.length_map,
    List.countP_eq_length_filter]
  exact hnodup.sublist (List.filter_sublist.map _)

/-- One of the logs has the entry. -/
def Received (logs : List (List Heard)) (names : List String) (kind : EntryKind) : Prop :=
  ∃ log ∈ logs, ∃ answer, ⟨names, kind, answer⟩ ∈ log

/-- In one of the logs it is said at the directory to go on. -/
def LeftOpen (logs : List (List Heard)) (directory : List String) : Prop :=
  ∃ log ∈ logs, ⟨directory, .directory, .goOn⟩ ∈ log

/-- The visible entries of this kind that the walk visits: the root, and what is received. -/
def visited (node : Node) (logs : List (List Heard)) (kind : EntryKind) : Set (List String) :=
  {names | node.Shows names kind ∧ (names = [] ∨ Received logs names kind)}

/-- The hidden entries in the directories that are left open. -/
def hiddenIn (node : Node) (logs : List (List Heard)) : Set (List String) :=
  {names | ∃ directory name, names = directory ++ [name] ∧ isHidden name = true ∧
    (node.descend? names).isSome = true ∧ LeftOpen logs directory}

/-- What each of the subscribers hears of. -/
def logs (visit : Visitor σ) (root : String) (node : Node) (subscribers : List σ) :
    List (List Heard) :=
  subscribers.map fun s => (solo visit root s node).2

theorem someone_everyone {subscribers : List σ} {P : σ → Prop} :
    Someone (everyone subscribers) P ↔ ∃ s ∈ subscribers, P s := by
  simp only [Someone, everyone, List.mem_map, exists_exists_and_eq_and, true_and]

section

variable {tree : FileTree} {root : String} {node : Node}

/-- The counters of a walk, by what its subscribers hear of. -/
theorem counts_run (hroot : tree.findEntry? root = some node)
    (hlink : ∀ target, node ≠ .link target) (hordered : tree.root.Ordered) (visit : Visitor σ)
    (subscribers : List σ) :
    (run tree visit root subscribers).counts =
      { files := {names | ∃ kind, kind ≠ .directory ∧
          names ∈ visited node (logs visit root node subscribers) kind}.ncard
        directories := (visited node (logs visit root node subscribers) .directory).ncard
        hidden := (hiddenIn node (logs visit root node subscribers)).ncard
        errors := 0 } := by
  have hnode : node.Ordered := FileTree.ordered_findEntry? hordered hroot
  have hvisited : ∀ names kind, ⟨names, some kind⟩ ∈ meets visit root (everyone subscribers) node ↔
      names ∈ visited node (logs visit root node subscribers) kind := by
    intro names kind
    rw [mem_meets_some_iff visit root _ hnode, someone_everyone]
    simp [visited, Received, logs]
  have hhidden : ∀ names, ⟨names, none⟩ ∈ meets visit root (everyone subscribers) node ↔
      names ∈ hiddenIn node (logs visit root node subscribers) := by
    intro names
    simp only [mem_meets_none_iff visit root _ hnode, someone_everyone]
    simp [hiddenIn, LeftOpen, logs]
  have hfiles : {names | ∃ kind?, ⟨names, kind?⟩ ∈ meets visit root (everyone subscribers) node ∧
      kind?.any (· ≠ .directory) = true} = {names | ∃ kind, kind ≠ .directory ∧
        names ∈ visited node (logs visit root node subscribers) kind} := by
    ext names
    simp [Option.exists, hvisited, and_comm]
  have hdirectories : {names | ∃ kind?,
      ⟨names, kind?⟩ ∈ meets visit root (everyone subscribers) node ∧
      kind?.any (· = .directory) = true} =
        visited node (logs visit root node subscribers) .directory := by
    ext names
    simp [Option.exists, hvisited]
  have hnone : {names | ∃ kind?, ⟨names, kind?⟩ ∈ meets visit root (everyone subscribers) node ∧
      kind?.isNone = true} = hiddenIn node (logs visit root node subscribers) := by
    ext names
    simp [hhidden]
  rw [run_everyone tree visit hroot hlink, sortNode_of_ordered hnode, counts_visitNode, foldl_count]
  simp only [countP_eq_ncard (nodup_meets visit root (everyone subscribers) hnode), Nat.zero_add,
    hfiles, hdirectories, hnone]

end

/-! ## What is not read -/

/-- Another node under a name makes no difference to a walk that goes the same way in both. -/
theorem visitEntries_put (visit : Visitor σ) (path name : String) {child new : Node}
    {names : List String}
    (hsame : ∀ counts ps,
      (¬ Someone ps fun s =>
        ⟨names, .directory, .goOn⟩ ∈ (solo visit (Path.join path name) s child).2) →
      visitNode visit (Path.join path name) (ps.map Prod.fst) ⟨counts, ps.map Prod.snd⟩ new =
        visitNode visit (Path.join path name) (ps.map Prod.fst) ⟨counts, ps.map Prod.snd⟩ child)
    (counts : WalkCounts) (ps : List (Bool × σ)) {entries : List (String × Node)}
    (hkeys : Ascending.KeysAscending entries) (hchild : (name, child) ∈ entries)
    (hclosed : ¬ Someone ps fun s =>
      ⟨name :: names, .directory, .goOn⟩ ∈ (soloEntries visit path s entries).2) :
    visitEntries visit path (ps.map Prod.fst) ⟨counts, ps.map Prod.snd⟩
        (Ascending.put name new entries) =
      visitEntries visit path (ps.map Prod.fst) ⟨counts, ps.map Prod.snd⟩ entries := by
  induction entries generalizing counts ps with
  | nil => cases hchild
  | cons entry rest ih =>
    obtain ⟨first, node⟩ := entry
    obtain ⟨hfirst, hrest⟩ := List.pairwise_cons.mp hkeys
    rcases List.mem_cons.mp hchild with heq | hchild
    · cases heq
      simp only [Ascending.put, lt_irrefl, if_false, visitEntries]
      by_cases hhidden : isHidden name = true
      · rw [if_pos hhidden, if_pos hhidden]
      · rw [if_neg hhidden, if_neg hhidden, hsame counts ps]
        exact fun hopen => hclosed (hopen.imp fun s hmem =>
          mem_soloEntries_cons_iff.mpr (.inl ⟨rfl, by simpa using hhidden, hmem⟩))
    · have hlt : first < name := hfirst _ hchild
      simp only [Ascending.put, hlt.not_gt, hlt, if_false, if_true]
      rw [visitEntries_cons, visitEntries_cons]
      refine ih _ _ hrest hchild fun hopen => hclosed ?_
      exact (someone_allAfter.mp hopen).imp fun s hmem => mem_soloEntries_cons_iff.mpr (.inr hmem)

/-- What lies in a directory that nobody leaves open is not read. -/
theorem visitNode_insert (visit : Visitor σ) (path : String) (counts : WalkCounts)
    (ps : List (Bool × σ)) {node : Node} (h : node.Ordered) {names : List String}
    {entries : List (String × Node)} (hdirectory : node.descend? names = some (.directory entries))
    (hclosed : ¬ Someone ps fun s =>
      ⟨names, .directory, .goOn⟩ ∈ (solo visit path s node).2) (others : List (String × Node)) :
    visitNode visit path (ps.map Prod.fst) ⟨counts, ps.map Prod.snd⟩
        (node.insert (.directory others) names) =
      visitNode visit path (ps.map Prod.fst) ⟨counts, ps.map Prod.snd⟩ node := by
  induction names generalizing node path counts ps with
  | nil =>
    cases hdirectory
    have hnobody : ¬ ((ps.map (tell visit path .directory)).map Prod.fst).any id = true :=
      fun hany => hclosed ((someone_open_iff visit path ps entries []).mpr (.inl ⟨rfl, hany⟩))
    simp only [Node.insert, visitNode, enter, notify_eq, if_neg hnobody]
  | cons name rest ih =>
    obtain ⟨child, hentry, hbelow⟩ := Option.bind_eq_some_iff.mp hdirectory
    cases node with
    | file _ => cases hentry
    | link _ => cases hentry
    | pipe => cases hentry
    | directory siblings =>
      have hchild : (name, child) ∈ siblings := (Node.entry?_eq_some_iff h).mp hentry
      have hget : Ascending.get? name siblings = some child := hentry
      simp only [Node.insert, hget, Option.getD_some, visitNode, enter, notify_eq]
      split
      · refine visitEntries_put visit path name (fun counts ps hclosed =>
          ih _ counts ps (h.below hentry) hbelow hclosed) _ _ h.1 hchild fun hopen => hclosed ?_
        exact (someone_open_iff visit path ps siblings _).mpr (.inr hopen)
      · rfl

/-! ## Exact counters -/

/-- The counters of a walk are exact.

From a root that is no link, whatever the subscribers say, the walk counts the root and the visible
entries that at least one of them is told about, which are those in a directory that one of them
left open; it counts the hidden entries in these directories, and no errors. What lies below a
directory that nobody left open is not counted, and it is not read: with anything else in its place
the walk ends in the same way. -/
theorem counts_exact {tree : FileTree} {root : String} {node : Node}
    (hroot : tree.findEntry? root = some node) (hlink : ∀ target, node ≠ .link target)
    (hordered : tree.root.Ordered) (visit : Visitor σ) (subscribers : List σ) :
    ∃ heard : List (List Heard), heard.length = subscribers.length ∧
      (∀ i log, heard[i]? = some log →
        recordOf tree visit root subscribers i = log.map (Heard.notice root) ∧
        ∀ entry ∈ log, node.Shows entry.names entry.kind) ∧
      (∀ directory name kind, node.Shows (directory ++ [name]) kind →
        (Received heard (directory ++ [name]) kind ↔ LeftOpen heard directory)) ∧
      (run tree visit root subscribers).counts =
        { files := {names | ∃ kind, kind ≠ .directory ∧ names ∈ visited node heard kind}.ncard
          directories := (visited node heard .directory).ncard
          hidden := (hiddenIn node heard).ncard
          errors := 0 } ∧
      ∀ directory entries, node.descend? directory = some (.directory entries) →
        ¬ LeftOpen heard directory →
        (∀ below, below ≠ [] → directory ++ below ∉ hiddenIn node heard ∧
          ∀ kind, directory ++ below ∉ visited node heard kind) ∧
        ∀ (others : List (String × Node)) (tree' : FileTree),
          tree'.findEntry? root = some (node.insert (.directory others) directory) →
          run tree' visit root subscribers = run tree visit root subscribers := by
  have hnode : node.Ordered := FileTree.ordered_findEntry? hordered hroot
  refine ⟨logs visit root node subscribers, by simp [logs], ?_, ?_,
    counts_run hroot hlink hordered visit subscribers, ?_⟩
  · intro i log hlog
    obtain ⟨s, hs, rfl⟩ : ∃ s, subscribers[i]? = some s ∧ (solo visit root s node).2 = log := by
      simpa [logs] using hlog
    exact ⟨recordOf_eq hordered hroot hlink visit hs, fun entry hentry =>
      ((mem_solo_iff visit root s hnode entry.names entry.kind).mp ⟨entry.answer, hentry⟩).1⟩
  · intro directory name kind hshows
    simp only [Received, LeftOpen, logs, List.mem_map, exists_exists_and_eq_and,
      received_iff visit root _ hnode, hshows, true_and]
  · intro directory entries hdirectory hclosed
    have hclosed' : ∀ s ∈ subscribers,
        ⟨directory, .directory, .goOn⟩ ∉ (solo visit root s node).2 :=
      fun s hs hmem => hclosed ⟨_, List.mem_map_of_mem hs, hmem⟩
    refine ⟨fun below hbelow => ?_, fun others tree' hroot' => ?_⟩
    · obtain ⟨below, name, rfl⟩ := below.eq_nil_or_concat'.resolve_left hbelow
      rw [← List.append_assoc]
      constructor
      · rintro ⟨parent, last, heq, -, -, _, hlog, hopen⟩
        obtain ⟨rfl, -⟩ := List.append_inj' heq rfl
        obtain ⟨s, hs, rfl⟩ := List.mem_map.mp hlog
        exact hclosed' s hs (open_above hnode hopen)
      · rintro kind ⟨-, hnil | ⟨_, hlog, hreceived⟩⟩
        · simp at hnil
        · obtain ⟨s, hs, rfl⟩ := List.mem_map.mp hlog
          have hopen := ((received_iff visit root s hnode _ name kind).mp hreceived).2
          exact hclosed' s hs (open_above hnode hopen)
    · obtain ⟨siblings, hinsert⟩ := Node.exists_insert_directory hdirectory others
      rw [run_everyone tree' visit hroot' (by simp [hinsert]), run_everyone tree visit hroot hlink,
        sortNode_insert hnode _ hdirectory, sortNode_of_ordered hnode]
      refine visitNode_insert visit root _ _ hnode hdirectory ?_ (sortByName (sortBelow others))
      rw [someone_everyone]
      rintro ⟨s, hs, hmem⟩
      exact hclosed' s hs hmem

/-- Nobody leaves the directory in the sample open: its file is not counted. -/
theorem counts_exact_sample :
    sampleTree.findEntry? "/" = some sampleTree.root ∧ sampleTree.root.Ordered ∧
    (run sampleTree breaksDownAt "/" ["/vendor"]).counts = ⟨1, 2, 1, 0⟩ ∧
    ∃ heard : List (List Heard), heard.length = 1 ∧
      {names | ∃ kind, kind ≠ .directory ∧ names ∈ visited sampleTree.root heard kind}.ncard = 1 ∧
      (visited sampleTree.root heard .directory).ncard = 2 ∧
      (hiddenIn sampleTree.root heard).ncard = 1 := by
  have hroot : sampleTree.findEntry? "/" = some sampleTree.root := by rfl
  have hcounts : (run sampleTree breaksDownAt "/" ["/vendor"]).counts = ⟨1, 2, 1, 0⟩ := by
    decide +kernel
  obtain ⟨heard, hlength, -, -, hexact, -⟩ := counts_exact hroot (by simp [sampleTree])
    ordered_sampleTree breaksDownAt ["/vendor"]
  rw [hcounts] at hexact
  obtain ⟨hfiles, hdirectories, hhidden, -⟩ := WalkCounts.mk.inj hexact
  exact ⟨hroot, ordered_sampleTree, hcounts, heard, hlength, hfiles.symm, hdirectories.symm,
    hhidden.symm⟩

end Walk

end SymbolAtlas
