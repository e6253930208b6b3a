import SymbolAtlas.Proofs.FileTree.Descent
import SymbolAtlas.Proofs.Text.ByteOrder

/-!
# What a subscriber of a walk hears

Subscribers of a walk do not notice each other.

- **Alone** (`Walk.solo`): the walk of one subscriber, with the entries it hears of and what it says
  to them. In company a subscriber goes the same way (`subscribers_visitNode`, `subscribers_run`):
  where it has left it is not told, and what nobody wants to hear of would not have changed anyone.
- **Records** (`Walk.recording`): a subscriber that writes down what it hears writes the entries of
  its walk alone (`solo_recording`), whoever else walks along (`told_as_alone`).
- **Entries** (`Node.Shows`, `Walk.Withdrawn`): what can be heard of below a node, and what is left
  out after the answers given above. These are the entries of a walk alone (`mem_solo_iff`), and
  they come depth first, in the order of the names of siblings (`pairwise_solo`).
-/

namespace SymbolAtlas

namespace Walk

variable {σ : Type}

/-- An entry that a subscriber hears of: the names that lead to it from the root of the walk, its
kind, and what the subscriber says. -/
structure Heard where
  names : List String
  kind : EntryKind
  answer : Answer

/-- The entry, seen from one directory further up. -/
def Heard.below (name : String) (heard : Heard) : Heard :=
  { heard with names := name :: heard.names }

/-- The path of an entry in a walk from `root`. -/
def Heard.path (root : String) (heard : Heard) : String := heard.names.foldl Path.join root

/-- A subscriber hears of an entry with nothing below it. -/
def soloEntry (visit : Visitor σ) (path : String) (kind : EntryKind) (s : σ) : σ × List Heard :=
  let (s, answer) := visit path kind s
  (s, [⟨[], kind, answer⟩])

mutual

/-- The walk of one subscriber: its state afterwards, and what it has heard of. -/
def solo (visit : Visitor σ) (path : String) (s : σ) : Node → σ × List Heard
  | .directory entries =>
    let (s, answer) := visit path .directory s
    if answer = .goOn then
      let (s, heard) := soloEntries visit path s entries
      (s, ⟨[], .directory, answer⟩ :: heard)
    else (s, [⟨[], .directory, answer⟩])
  | .file _ => soloEntry visit path .regular s
  | .link _ => soloEntry visit path .symlink s
  | .pipe => soloEntry visit path .other s

/-- The walk of one subscriber over the entries of a directory. -/
def soloEntries (visit : Visitor σ) (path : String) (s : σ) :
    List (String × Node) → σ × List Heard
  | [] => (s, [])
  | (name, node) :: rest =>
    if isHidden name then soloEntries visit path s rest
    else
      let (s, heard) := solo visit (Path.join path name) s node
      let (s, later) := soloEntries visit path s rest
      (s, heard.map (Heard.below name) ++ later)

end

/-! ## In company as alone -/

/-- What telling a subscriber does, if it is interested: whether it stays so, and its state. -/
def tell (visit : Visitor σ) (path : String) (kind : EntryKind) (p : Bool × σ) : Bool × σ :=
  if p.1 then ((visit path kind p.2).2 == .goOn, (visit path kind p.2).1) else (false, p.2)

theorem notify_eq (visit : Visitor σ) (path : String) (kind : EntryKind) (ps : List (Bool × σ)) :
    notify visit path kind (ps.map Prod.fst) (ps.map Prod.snd) =
      ((ps.map (tell visit path kind)).map Prod.snd,
        (ps.map (tell visit path kind)).map Prod.fst) := by
  induction ps with
  | nil => rfl
  | cons p ps ih =>
    obtain ⟨interested, s⟩ := p
    cases interested <;> simp [notify, tell, ih]

/-- Those who are interested go on alone, the others stay as they are. -/
def apart (go : σ → σ) (p : Bool × σ) : σ := if p.1 then go p.2 else p.2

theorem map_apart_of_nobody (go : σ → σ) {ps : List (Bool × σ)}
    (h : (ps.map Prod.fst).any id = false) : ps.map (apart go) = ps.map Prod.snd := by
  refine List.map_congr_left fun p hp => ?_
  have hp : p.1 = false := by
    have := List.any_eq_false.mp h p.1 (List.mem_map_of_mem hp)
    simpa using this
  simp [apart, hp]

theorem subscribers_enter (visit : Visitor σ) (path : String) (kind : EntryKind)
    (counts : WalkCounts) (ps : List (Bool × σ)) :
    (enter visit path kind (ps.map Prod.fst) ⟨counts, ps.map Prod.snd⟩).1.subscribers =
      ps.map (apart fun s => (soloEntry visit path kind s).1) := by
  simp only [enter, notify_eq, List.map_map]
  refine List.map_congr_left fun p _ => ?_
  obtain ⟨interested, s⟩ := p
  cases interested <;> rfl

mutual

/-- In a walk with others, each interested subscriber goes the way it goes alone. -/
theorem subscribers_visitNode (visit : Visitor σ) (path : String) (counts : WalkCounts)
    (ps : List (Bool × σ)) : ∀ node : Node,
    (visitNode visit path (ps.map Prod.fst) ⟨counts, ps.map Prod.snd⟩ node).subscribers =
      ps.map (apart fun s => (solo visit path s node).1)
  | .file _ => subscribers_enter visit path .regular counts ps
  | .link _ => subscribers_enter visit path .symlink counts ps
  | .pipe => subscribers_enter visit path .other counts ps
  | .directory entries => by
    simp only [visitNode, enter, notify_eq]
    have hgo : (if ((ps.map (tell visit path .directory)).map Prod.fst).any id then
          visitEntries visit path ((ps.map (tell visit path .directory)).map Prod.fst)
            ⟨WalkCounts.add counts .directory,
              (ps.map (tell visit path .directory)).map Prod.snd⟩ entries
        else ⟨WalkCounts.add counts .directory,
          (ps.map (tell visit path .directory)).map Prod.snd⟩).subscribers =
        (ps.map (tell visit path .directory)).map
          (apart fun s => (soloEntries visit path s entries).1) := by
      split
      · exact subscribers_visitEntries visit path _ _ entries
      · rename_i hnobody
        rw [map_apart_of_nobody _ (by simpa using hnobody)]
    rw [hgo, List.map_map]
    refine List.map_congr_left fun p _ => ?_
    obtain ⟨interested, s⟩ := p
    cases interested with
    | false => simp [apart, tell]
    | true =>
      by_cases hanswer : (visit path .directory s).2 = .goOn
      · simp [apart, tell, solo, hanswer]
      · simp [apart, tell, solo, hanswer]

theorem subscribers_visitEntries (visit : Visitor σ) (path : String) (counts : WalkCounts)
    (ps : List (Bool × σ)) : ∀ entries : List (String × Node),
    (visitEntries visit path (ps.map Prod.fst) ⟨counts, ps.map Prod.snd⟩ entries).subscribers =
      ps.map (apart fun s => (soloEntries visit path s entries).1)
  | [] => by
    simp only [visitEntries, soloEntries]
    refine List.map_congr_left fun p _ => ?_
    simp [apart]
  | (name, node) :: rest => by
    simp only [visitEntries]
    by_cases hhidden : isHidden name = true
    · simp only [hhidden, if_true, soloEntries]
      exact subscribers_visitEntries visit path _ ps rest
    · -- the same are interested after the entry, in the states that it left
      let go := fun s => (solo visit (Path.join path name) s node).1
      have hafter := subscribers_visitNode visit (Path.join path name) counts ps node
      rw [if_neg hhidden]
      generalize visitNode visit (Path.join path name) (ps.map Prod.fst)
        ⟨counts, ps.map Prod.snd⟩ node = after at hafter ⊢
      obtain ⟨counts', subscribers⟩ := after
      obtain rfl : subscribers = (ps.map fun p => (p.1, apart go p)).map Prod.snd := by
        rw [List.map_map]
        exact hafter
      have hflags : ps.map Prod.fst = (ps.map fun p => (p.1, apart go p)).map Prod.fst := by
        rw [List.map_map]
        rfl
      rw [hflags, subscribers_visitEntries visit path counts' _ rest, List.map_map]
      refine List.map_congr_left fun p _ => ?_
      obtain ⟨interested, s⟩ := p
      cases interested <;> simp [apart, soloEntries, hhidden, go]

end

/-- All subscribers, interested. -/
def everyone (subscribers : List σ) : List (Bool × σ) := subscribers.map fun s => (true, s)

/-- The walk from a root that is no link starts with everyone. -/
theorem run_everyone (tree : FileTree) (visit : Visitor σ) {root : String} {node : Node}
    (hroot : tree.findEntry? root = some node) (hlink : ∀ target, node ≠ .link target)
    (subscribers : List σ) :
    run tree visit root subscribers =
      visitNode visit root ((everyone subscribers).map Prod.fst)
        ⟨⟨0, 0, 0, 0⟩, (everyone subscribers).map Prod.snd⟩ (sortNode node) := by
  have hflags : (everyone subscribers).map Prod.fst = subscribers.map fun _ => true := by
    rw [everyone, List.map_map]
    rfl
  have hstates : (everyone subscribers).map Prod.snd = subscribers := by
    rw [everyone, List.map_map]
    exact List.map_id _
  rw [run_eq_visitNode tree visit hroot hlink, hflags, hstates]

/-- Each subscriber of a walk ends where it ends alone. -/
theorem subscribers_run {tree : FileTree} (hordered : tree.root.Ordered) (visit : Visitor σ)
    {root : String} {node : Node} (hroot : tree.findEntry? root = some node)
    (hlink : ∀ target, node ≠ .link target) (subscribers : List σ) :
    (run tree visit root subscribers).subscribers =
      subscribers.map fun s => (solo visit root s node).1 := by
  rw [run_everyone tree visit hroot hlink,
    sortNode_of_ordered (FileTree.ordered_findEntry? hordered hroot), subscribers_visitNode,
    everyone, List.map_map]
  rfl

/-! ## Records -/

/-- An entry as subscribers are told about it, with the answer. -/
structure Notice where
  path : String
  kind : EntryKind
  answer : Answer
  deriving DecidableEq

/-- The subscriber, which also writes down what it hears and says. -/
def recording (visit : Visitor σ) : Visitor (σ × List Notice) := fun path kind s =>
  (((visit path kind s.1).1, s.2 ++ [⟨path, kind, (visit path kind s.1).2⟩]),
    (visit path kind s.1).2)

/-- What an entry of a walk from `root` is in the record. -/
def Heard.notice (root : String) (heard : Heard) : Notice :=
  ⟨heard.path root, heard.kind, heard.answer⟩

theorem Heard.notice_below (root name : String) (heard : Heard) :
    (heard.below name).notice root = heard.notice (Path.join root name) := rfl

mutual

/-- A subscriber with a record goes the same way, and writes down what it hears of. -/
theorem solo_recording (visit : Visitor σ) (path : String) (s : σ) (record : List Notice) :
    ∀ node : Node, solo (recording visit) path (s, record) node =
      (((solo visit path s node).1,
        record ++ (solo visit path s node).2.map (Heard.notice path)), (solo visit path s node).2)
  | .file _ | .link _ | .pipe => by simp [solo, soloEntry, recording, Heard.notice, Heard.path]
  | .directory entries => by
    have hentries := soloEntries_recording visit path (visit path .directory s).1
      (record ++ [⟨path, .directory, (visit path .directory s).2⟩]) entries
    by_cases hanswer : (visit path .directory s).2 = .goOn
    · rw [hanswer] at hentries
      simp [solo, recording, hanswer, hentries, Heard.notice, Heard.path]
    · simp [solo, recording, hanswer, Heard.notice, Heard.path]

theorem soloEntries_recording (visit : Visitor σ) (path : String) (s : σ)
    (record : List Notice) : ∀ entries : List (String × Node),
    soloEntries (recording visit) path (s, record) entries =
      (((soloEntries visit path s entries).1,
        record ++ (soloEntries visit path s entries).2.map (Heard.notice path)),
        (soloEntries visit path s entries).2)
  | [] => by simp [soloEntries]
  | (name, node) :: rest => by
    by_cases hhidden : isHidden name = true
    · simpa [soloEntries, hhidden] using soloEntries_recording visit path s record rest
    · simp [soloEntries, hhidden, solo_recording visit (Path.join path name) s record node,
        soloEntries_recording visit path _ _ rest, Function.comp_def, Heard.notice_below]

end

end Walk

/-! ## Entries -/

/-- The names lead from the node to an entry of this kind, and none of them is hidden. -/
def Node.Shows (node : Node) (names : List String) (kind : EntryKind) : Prop :=
  (∀ name ∈ names, Walk.isHidden name = false) ∧ (node.descend? names).map Node.kind = some kind

/-- What shows in a directory shows only if the directory does. -/
theorem Node.Shows.directory {node : Node} {directory : List String} {name : String}
    {kind : EntryKind} (h : node.Shows (directory ++ [name]) kind) :
    node.Shows directory .directory := by
  obtain ⟨hvisible, hkind⟩ := h
  refine ⟨fun other hother => hvisible other (List.mem_append_left _ hother), ?_⟩
  obtain ⟨child, hchild, -⟩ := Option.map_eq_some_iff.mp hkind
  rw [Node.descend?_append] at hchild
  obtain ⟨parent, hparent, hentry⟩ := Option.bind_eq_some_iff.mp hchild
  rw [hparent]
  cases parent with
  | directory entries => rfl
  | file _ => cases hentry
  | link _ => cases hentry
  | pipe => cases hentry

namespace Walk

/-- At a directory above the entry something else was said than to go on. -/
def Withdrawn (heard : List Heard) (names : List String) : Prop :=
  ∃ entry ∈ heard, entry.kind = .directory ∧ entry.answer ≠ .goOn ∧
    entry.names <+: names ∧ entry.names ≠ names

/-- What is heard of in a directory is what is heard of in its visible entries, each of them visited
in the state that belongs to its name. -/
def ComesFrom (visit : Visitor σ) (path : String) (entries : List (String × Node))
    (state : String → σ) (log : List Heard) : Prop :=
  ∀ heard, heard ∈ log ↔ ∃ name node, (name, node) ∈ entries ∧ isHidden name = false ∧
    ∃ inner ∈ (solo visit (Path.join path name) (state name) node).2, inner.below name = heard

theorem exists_comesFrom_soloEntries (visit : Visitor σ) (path : String) (s : σ)
    {entries : List (String × Node)} (hkeys : Ascending.KeysAscending entries) :
    ∃ state, ComesFrom visit path entries state (soloEntries visit path s entries).2 := by
  induction entries generalizing s with
  | nil => exact ⟨fun _ => s, by simp [soloEntries, ComesFrom]⟩
  | cons entry rest ih =>
    obtain ⟨first, node⟩ := entry
    obtain ⟨hfirst, hrest⟩ := List.pairwise_cons.mp hkeys
    by_cases hhidden : isHidden first = true
    · obtain ⟨state, hstate⟩ := ih s hrest
      refine ⟨state, fun heard => ?_⟩
      rw [soloEntries, if_pos hhidden, hstate heard]
      constructor
      · rintro ⟨name, inner, hmem, h⟩
        exact ⟨name, inner, .tail _ hmem, h⟩
      · rintro ⟨name, inner, hmem, hvisible, h⟩
        rcases List.mem_cons.mp hmem with heq | hmem
        · cases heq
          rw [hhidden] at hvisible
          cases hvisible
        · exact ⟨name, inner, hmem, hvisible, h⟩
    · obtain ⟨state, hstate⟩ := ih (solo visit (Path.join path first) s node).1 hrest
      refine ⟨fun name => if name = first then s else state name, fun heard => ?_⟩
      rw [soloEntries, if_neg hhidden]
      simp only [List.mem_append, List.mem_map, hstate heard]
      -- the names of the other entries differ from the first one
      have hne : ∀ name inner, (name, inner) ∈ rest → name ≠ first :=
        fun name inner hmem => (hfirst _ hmem).ne'
      constructor
      · rintro (⟨inner, hinner, rfl⟩ | ⟨name, inner, hmem, h⟩)
        · exact ⟨first, node, .head _, by simpa using hhidden, inner, by simpa using hinner, rfl⟩
        · exact ⟨name, inner, .tail _ hmem, by simpa [hne name inner hmem] using h⟩
      · rintro ⟨name, inner, hmem, h⟩
        rcases List.mem_cons.mp hmem with heq | hmem
        · cases heq
          obtain ⟨-, inner, hinner, rfl⟩ := h
          exact .inl ⟨inner, by simpa using hinner, rfl⟩
        · exact .inr ⟨name, inner, hmem, by simpa [hne name inner hmem] using h⟩

/-- The first entry of a walk is its root, and what lies below follows only if it is to go on. -/
theorem solo_directory (visit : Visitor σ) (path : String) (s : σ)
    (entries : List (String × Node)) :
    (solo visit path s (.directory entries)).2 =
      ⟨[], .directory, (visit path .directory s).2⟩ ::
        if (visit path .directory s).2 = .goOn then
          (soloEntries visit path (visit path .directory s).1 entries).2
        else [] := by
  by_cases hanswer : (visit path .directory s).2 = .goOn <;> simp [solo, hanswer]

theorem solo_leaf (visit : Visitor σ) (path : String) (s : σ) {node : Node}
    (h : ∀ entries, node ≠ .directory entries) :
    (solo visit path s node).2 = [⟨[], node.kind, (visit path node.kind s).2⟩] := by
  cases node with
  | directory entries => exact absurd rfl (h entries)
  | file _ => rfl
  | link _ => rfl
  | pipe => rfl

/-- Nothing is above the root of a walk. -/
theorem not_withdrawn_nil (heard : List Heard) : ¬ Withdrawn heard [] := by
  rintro ⟨entry, -, -, -, hprefix, hne⟩
  exact hne (List.prefix_nil.mp hprefix)

theorem mem_solo_nil_iff (visit : Visitor σ) (path : String) (s : σ) {node : Node}
    (h : node.Ordered) (kind : EntryKind) :
    (∃ answer, ⟨[], kind, answer⟩ ∈ (solo visit path s node).2) ↔ node.kind = kind := by
  by_cases hdirectory : ∃ entries, node = .directory entries
  · obtain ⟨entries, rfl⟩ := hdirectory
    obtain ⟨state, hstate⟩ := exists_comesFrom_soloEntries visit path (visit path .directory s).1 h.1
    rw [solo_directory]
    constructor
    · rintro ⟨answer, hmem⟩
      rcases List.mem_cons.mp hmem with heq | hmem
      · cases heq
        rfl
      · split at hmem
        · obtain ⟨name, node, -, -, inner, -, heq⟩ := (hstate _).mp hmem
          cases heq
        · cases hmem
    · rintro rfl
      exact ⟨_, .head _⟩
  · rw [solo_leaf visit path s fun entries heq => hdirectory ⟨entries, heq⟩]
    simp [eq_comm]

theorem shows_cons {entries : List (String × Node)} (h : (Node.directory entries).Ordered)
    (name : String) (rest : List String) (kind : EntryKind) :
    (Node.directory entries).Shows (name :: rest) kind ↔
      isHidden name = false ∧ ∃ child, (name, child) ∈ entries ∧ child.Shows rest kind := by
  simp only [Node.Shows, List.forall_mem_cons, Node.descend?, Option.map_bind,
    Option.bind_eq_some_iff, Node.entry?_eq_some_iff h, Function.comp_apply]
  constructor
  · rintro ⟨⟨hname, hrest⟩, child, hchild, hkind⟩
    exact ⟨hname, child, hchild, hrest, hkind⟩
  · rintro ⟨hname, child, hchild, hrest, hkind⟩
    exact ⟨⟨hname, hrest⟩, child, hchild, hkind⟩

section

variable {visit : Visitor σ} {path : String} {entries : List (String × Node)} {log : List Heard}
  {state : String → σ}

theorem ComesFrom.mem_cons_iff (hfrom : ComesFrom visit path entries state log) (name : String)
    (rest : List String) (kind : EntryKind) (answer : Answer) :
    ⟨name :: rest, kind, answer⟩ ∈ log ↔ isHidden name = false ∧ ∃ child, (name, child) ∈ entries ∧
      ⟨rest, kind, answer⟩ ∈ (solo visit (Path.join path name) (state name) child).2 := by
  rw [hfrom]
  constructor
  · rintro ⟨name, child, hchild, hname, inner, hinner, heq⟩
    cases heq
    exact ⟨hname, child, hchild, hinner⟩
  · rintro ⟨hname, child, hchild, hinner⟩
    exact ⟨name, child, hchild, hname, _, hinner, rfl⟩

/-- What was said at the directory itself and at other entries does not count for an entry. -/
theorem ComesFrom.withdrawn_iff (hfrom : ComesFrom visit path entries state log)
    (hkeys : Ascending.KeysAscending entries) {name : String} {child : Node}
    (hname : isHidden name = false) (hchild : (name, child) ∈ entries) (rest : List String) :
    Withdrawn (⟨[], .directory, .goOn⟩ :: log) (name :: rest) ↔
      Withdrawn (solo visit (Path.join path name) (state name) child).2 rest := by
  constructor
  · rintro ⟨entry, hentry, hkind, hanswer, hprefix, hne⟩
    rcases List.mem_cons.mp hentry with rfl | hentry
    · exact absurd rfl hanswer
    · obtain ⟨other, node, hnode, -, inner, hinner, rfl⟩ := (hfrom entry).mp hentry
      obtain ⟨rfl, hbelow⟩ := List.cons_prefix_cons.mp hprefix
      have hsame : node = child := by
        have hget := (Ascending.get?_eq_some_iff hkeys).mpr hnode
        rw [(Ascending.get?_eq_some_iff hkeys).mpr hchild] at hget
        exact (Option.some.inj hget).symm
      subst hsame
      refine ⟨inner, hinner, hkind, hanswer, hbelow, fun heq => hne ?_⟩
      rw [Heard.below, heq]
  · rintro ⟨inner, hinner, hkind, hanswer, hprefix, hne⟩
    refine ⟨inner.below name, .tail _ ?_, hkind, hanswer, ?_, ?_⟩
    · exact (hfrom _).mpr ⟨name, child, hchild, hname, inner, hinner, rfl⟩
    · exact List.cons_prefix_cons.mpr ⟨rfl, hprefix⟩
    · exact fun heq => hne (List.cons.inj heq).2

end

/-- A subscriber alone hears of the visible entries that lie below no directory at which it said
something else than to go on, and of no others. -/
theorem mem_solo_iff (visit : Visitor σ) (path : String) (s : σ) {node : Node} (h : node.Ordered)
    (names : List String) (kind : EntryKind) :
    (∃ answer, ⟨names, kind, answer⟩ ∈ (solo visit path s node).2) ↔
      node.Shows names kind ∧ ¬ Withdrawn (solo visit path s node).2 names := by
  induction names generalizing node path s with
  | nil =>
    rw [mem_solo_nil_iff visit path s h]
    simp [Node.Shows, Node.descend?, not_withdrawn_nil]
  | cons name rest ih =>
    by_cases hdirectory : ∃ entries, node = .directory entries
    · obtain ⟨entries, rfl⟩ := hdirectory
      rw [solo_directory]
      by_cases hanswer : (visit path .directory s).2 = .goOn
      · obtain ⟨hkeys, hall⟩ := Node.ordered_directory.mp h
        obtain ⟨state, hfrom⟩ :=
          exists_comesFrom_soloEntries visit path (visit path .directory s).1 hkeys
        rw [if_pos hanswer, shows_cons h, hanswer]
        constructor
        · rintro ⟨answer, hmem⟩
          obtain ⟨hname, child, hchild, hinner⟩ :=
            (hfrom.mem_cons_iff name rest kind answer).mp (by simpa using hmem)
          obtain ⟨hshows, hnot⟩ := (ih _ _ (hall _ hchild)).mp ⟨answer, hinner⟩
          rw [hfrom.withdrawn_iff hkeys hname hchild]
          exact ⟨⟨hname, child, hchild, hshows⟩, hnot⟩
        · rintro ⟨⟨hname, child, hchild, hshows⟩, hnot⟩
          rw [hfrom.withdrawn_iff hkeys hname hchild] at hnot
          obtain ⟨answer, hinner⟩ := (ih _ _ (hall _ hchild)).mpr ⟨hshows, hnot⟩
          exact ⟨answer, .tail _ ((hfrom.mem_cons_iff name rest kind answer).mpr
            ⟨hname, child, hchild, hinner⟩)⟩
      · have hwithdrawn : Withdrawn [⟨[], .directory, (visit path .directory s).2⟩]
            (name :: rest) :=
          ⟨_, .head _, rfl, hanswer, List.nil_prefix, by simp⟩
        rw [if_neg hanswer]
        simp [hwithdrawn]
    · have hleaf : ∀ entries, node ≠ .directory entries :=
        fun entries heq => hdirectory ⟨entries, heq⟩
      have hnone : node.descend? (name :: rest) = none := by
        cases node with
        | directory entries => exact absurd rfl (hleaf entries)
        | file _ => rfl
        | link _ => rfl
        | pipe => rfl
      rw [solo_leaf visit path s hleaf]
      simp [Node.Shows, hnone]

/-! ## The order of entries -/

/-- An entry comes before what lies below it and before later siblings, which are ordered by the
bytes of their names. -/
def Heard.Before (first later : Heard) : Prop :=
  List.Lex (fun name other => Text.bytes name < Text.bytes other) first.names later.names

mutual

theorem pairwise_solo (visit : Visitor σ) (path : String) (s : σ) :
    ∀ {node : Node}, node.Ordered → (solo visit path s node).2.Pairwise Heard.Before
  | .file _, _ | .link _, _ | .pipe, _ => List.pairwise_singleton _ _
  | .directory entries, h => by
    rw [solo_directory]
    split
    · obtain ⟨state, hfrom⟩ :=
        exists_comesFrom_soloEntries visit path (visit path .directory s).1 h.1
      refine List.pairwise_cons.mpr ⟨fun heard hheard => ?_, pairwise_soloEntries visit path _ h⟩
      obtain ⟨name, node, -, -, inner, -, rfl⟩ := (hfrom heard).mp hheard
      exact .nil
    · exact List.pairwise_singleton _ _

theorem pairwise_soloEntries (visit : Visitor σ) (path : String) (s : σ) :
    ∀ {entries : List (String × Node)}, (Node.directory entries).Ordered →
      (soloEntries visit path s entries).2.Pairwise Heard.Before
  | [], _ => .nil
  | (name, node) :: rest, h => by
    obtain ⟨hkeys, hall⟩ := Node.ordered_directory.mp h
    obtain ⟨hfirst, hrest⟩ := List.pairwise_cons.mp hkeys
    have hordered : (Node.directory rest).Ordered :=
      Node.ordered_directory.mpr ⟨hrest, fun entry hentry => hall entry (.tail _ hentry)⟩
    rw [soloEntries]
    split
    · exact pairwise_soloEntries visit path s hordered
    · have hnode := pairwise_solo visit (Path.join path name) s (hall _ (.head _))
      refine List.pairwise_append.mpr ⟨?_, pairwise_soloEntries visit path _ hordered, ?_⟩
      · exact List.pairwise_map.mpr (hnode.imp fun hbefore => .cons hbefore)
      · intro heard hheard later hlater
        obtain ⟨state, hfrom⟩ := exists_comesFrom_soloEntries visit path
          (solo visit (Path.join path name) s node).1 hrest
        obtain ⟨inner, -, rfl⟩ := List.mem_map.mp hheard
        obtain ⟨other, node, hother, -, inner', -, rfl⟩ := (hfrom later).mp hlater
        exact .rel (Text.bytes_lt_of_lt (hfirst _ hother))

end

/-- What the `i`-th subscriber of a walk has written down. -/
def recordOf (tree : FileTree) (visit : Visitor σ) (root : String) (subscribers : List σ)
    (i : Nat) : List Notice :=
  (((run tree (recording visit) root (subscribers.map fun s => (s, []))).subscribers[i]?).map
    Prod.snd).getD []

theorem recordOf_eq {tree : FileTree} (hordered : tree.root.Ordered) {root : String} {node : Node}
    (hroot : tree.findEntry? root = some node) (hlink : ∀ target, node ≠ .link target)
    (visit : Visitor σ) {subscribers : List σ} {i : Nat} {s : σ} (hs : subscribers[i]? = some s) :
    recordOf tree visit root subscribers i =
      (solo visit root s node).2.map (Heard.notice root) := by
  rw [recordOf, subscribers_run hordered (recording visit) hroot hlink]
  simp [hs, solo_recording]

/-- Subscribers of a walk do not interfere.

From a root that is no link, a subscriber is told about the root and the visible entries below it,
depth first and siblings by the bytes of their names, but not about those below a directory at which
it stopped, failed or broke down; what it says to other entries makes no difference. The sequence is
the one it is told alone, whoever else is there and whatever they say, and writing it down leaves
the walk as it is. -/
theorem told_as_alone {tree : FileTree} {root : String} {node : Node}
    (hroot : tree.findEntry? root = some node) (hlink : ∀ target, node ≠ .link target)
    (hordered : tree.root.Ordered) (visit : Visitor σ) {subscribers : List σ} {i : Nat} {s : σ}
    (hs : subscribers[i]? = some s) :
    ∃ heard : List Heard,
      recordOf tree visit root subscribers i = heard.map (Heard.notice root) ∧
      recordOf tree visit root [s] 0 = heard.map (Heard.notice root) ∧
      heard.Pairwise Heard.Before ∧
      (∀ names kind, (∃ answer, ⟨names, kind, answer⟩ ∈ heard) ↔
        node.Shows names kind ∧ ¬ Withdrawn heard names) ∧
      (run tree (recording visit) root (subscribers.map fun s => (s, []))).subscribers.map Prod.fst =
        (run tree visit root subscribers).subscribers := by
  have hnode : node.Ordered := FileTree.ordered_findEntry? hordered hroot
  refine ⟨(solo visit root s node).2, recordOf_eq hordered hroot hlink visit hs,
    recordOf_eq hordered hroot hlink visit rfl, pairwise_solo visit root s hnode,
    mem_solo_iff visit root s hnode, ?_⟩
  rw [subscribers_run hordered (recording visit) hroot hlink,
    subscribers_run hordered visit hroot hlink]
  simp [solo_recording, Function.comp_def]

/-- A directory with a hidden entry, a file and a directory. -/
def sampleTree : FileTree :=
  ⟨.directory [(".git", .pipe), ("a.c", .file .empty),
    ("vendor", .directory [("dep.c", .file .empty)])], "/"⟩

theorem ordered_sampleTree : sampleTree.root.Ordered := by
  have hkeys : (([".git", "a.c", "vendor"] : List String)).Pairwise (· < ·) := by decide
  refine Node.ordered_directory.mpr ⟨List.pairwise_map.mp hkeys, ?_⟩
  simp [Node.Ordered, Node.AllOrdered, Ascending.KeysAscending]

/-- A subscriber that breaks down at one path. -/
def breaksDownAt : Visitor String := fun path _ s => (s, if path = s then .crashed else .goOn)

theorem told_as_alone_sample :
    sampleTree.findEntry? "/" = some sampleTree.root ∧ sampleTree.root.Ordered ∧
    recordOf sampleTree breaksDownAt "/" ["/a.c", "/vendor"] 1 =
      recordOf sampleTree breaksDownAt "/" ["/vendor"] 0 ∧
    recordOf sampleTree breaksDownAt "/" ["/a.c", "/vendor"] 1 =
      [⟨"/", .directory, .goOn⟩, ⟨"/a.c", .regular, .goOn⟩, ⟨"/vendor", .directory, .crashed⟩] ∧
    recordOf sampleTree breaksDownAt "/" ["/a.c", "/vendor"] 0 =
      [⟨"/", .directory, .goOn⟩, ⟨"/a.c", .regular, .crashed⟩, ⟨"/vendor", .directory, .goOn⟩,
        ⟨"/vendor/dep.c", .regular, .goOn⟩] := by
  have hroot : sampleTree.findEntry? "/" = some sampleTree.root := by rfl
  obtain ⟨heard, htogether, halone, -⟩ := told_as_alone hroot (by simp [sampleTree])
    ordered_sampleTree breaksDownAt (show ["/a.c", "/vendor"][1]? = some "/vendor" from rfl)
  exact ⟨hroot, ordered_sampleTree, htogether.trans halone.symm, by decide +kernel,
    by decide +kernel⟩

end Walk

end SymbolAtlas
