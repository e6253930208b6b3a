import SymbolAtlas.Proofs.Command.IncludePaths
import SymbolAtlas.Proofs.Json.Grammar
import SymbolAtlas.Proofs.Json.Records
import SymbolAtlas.Proofs.Path.Normal
import Mathlib.Data.List.Forall2
import Mathlib.Data.Nat.Find

/-!
# Which build logs are accepted

The shapes of entries are stated on the documents themselves: a document may fit both shapes, fields
may be missing or null, and an array may stand for a record. From the shapes follow what a log is,
which of its items is at fault and the action of every other one; none of these depends on what
stands elsewhere in the log, except that an item without a shape spoils the whole.

* `Fits`, `FitsNative`: the shapes of entries.
* `IsLog`, `FirstFault`, `ActionOf`: logs, faults and actions.
* `parse_spec`: parsing a log finds its first fault, or else the action of every item.
-/

namespace SymbolAtlas.BuildLog

/-! ## Shapes -/

/-- The names of the fields of a native entry. -/
def nativeNames : List String := ["kind", "command", "sources", "targets", "directory"]

/-- The names of the fields of a compilation entry. -/
def compilationNames : List String := ["directory", "file", "command", "arguments", "output"]

/-- The document has the shape of an entry and gives its fields these values. -/
inductive Fits (j : Json) : Entry → Prop where
  | native {kind command : String} {sources targets : List String} {directory : Option String}
      (hrecord : j.IsRecord nativeNames)
      (hkind : j.Gives nativeNames "kind" (.ofText kind))
      (hcommand : j.Gives nativeNames "command" (.ofText command))
      (hsources : j.GivesOr nativeNames "sources" .ofTexts [] sources)
      (htargets : j.GivesOr nativeNames "targets" .ofTexts [] targets)
      (hdirectory : j.GivesOr nativeNames "directory" (.ofOption .ofText) none directory) :
      Fits j (.native kind command sources targets directory)
  | compilation {directory file : String} {command output : Option String}
      {arguments : Option (List String)}
      (hrecord : j.IsRecord compilationNames)
      (hdirectory : j.Gives compilationNames "directory" (.ofText directory))
      (hfile : j.Gives compilationNames "file" (.ofText file))
      (hcommand : j.GivesOr compilationNames "command" (.ofOption .ofText) none command)
      (harguments : j.GivesOr compilationNames "arguments" (.ofOption .ofTexts) none arguments)
      (houtput : j.GivesOr compilationNames "output" (.ofOption .ofText) none output) :
      Fits j (.compilation directory file command arguments output)

/-- The entry is native. -/
def Entry.isNative : Entry → Bool
  | .native .. => true
  | .compilation .. => false

/-- The document has the shape of a native entry. -/
def FitsNative (j : Json) : Prop := ∃ entry, Fits j entry ∧ entry.isNative = true

namespace Entry

variable {j : Json} {entry : Entry}

theorem inverts_text? : Json.Inverts (Json.Record.nullable Json.text?) (Json.ofOption .ofText) :=
  Json.inverts_text.nullable (by simp [Json.ofText])

theorem inverts_texts? : Json.Inverts (Json.Record.nullable Json.texts?) (Json.ofOption .ofTexts) :=
  Json.inverts_texts.nullable (by simp [Json.ofTexts])

theorem nativeOfJson?_eq_some_iff : nativeOfJson? j = some entry ↔
    Fits j entry ∧ entry.isNative = true := by
  constructor
  · intro h
    simp only [nativeOfJson?, Option.bind_eq_bind, Option.bind_eq_some_iff] at h
    obtain ⟨r, hr, kind, hkind, command, hcommand, sources, hsources, targets, htargets,
      directory, hdirectory, heq⟩ := h
    cases heq
    obtain ⟨hrecord, hof⟩ := Json.of_record? (by decide) hr
    exact ⟨.native hrecord
      ((hof.required_eq_some_iff Json.inverts_text).mp hkind)
      ((hof.required_eq_some_iff Json.inverts_text).mp hcommand)
      ((hof.defaulted_eq_some_iff Json.inverts_texts).mp hsources)
      ((hof.defaulted_eq_some_iff Json.inverts_texts).mp htargets)
      ((hof.defaulted_eq_some_iff inverts_text?).mp hdirectory), rfl⟩
  · rintro ⟨h, hnative⟩
    cases h with
    | compilation => cases hnative
    | native hrecord hkind hcommand hsources htargets hdirectory =>
      obtain ⟨r, hr, hof⟩ := hrecord.exists_record (by decide)
      rw [nativeNames] at hr
      simp [nativeOfJson?, hr, (hof.required_eq_some_iff Json.inverts_text).mpr hkind,
        (hof.required_eq_some_iff Json.inverts_text).mpr hcommand,
        (hof.defaulted_eq_some_iff Json.inverts_texts).mpr hsources,
        (hof.defaulted_eq_some_iff Json.inverts_texts).mpr htargets,
        (hof.defaulted_eq_some_iff inverts_text?).mpr hdirectory]

theorem compilationOfJson?_eq_some_iff : compilationOfJson? j = some entry ↔
    Fits j entry ∧ entry.isNative = false := by
  constructor
  · intro h
    simp only [compilationOfJson?, Option.bind_eq_bind, Option.bind_eq_some_iff] at h
    obtain ⟨r, hr, directory, hdirectory, file, hfile, command, hcommand, arguments, harguments,
      output, houtput, heq⟩ := h
    cases heq
    obtain ⟨hrecord, hof⟩ := Json.of_record? (by decide) hr
    exact ⟨.compilation hrecord
      ((hof.required_eq_some_iff Json.inverts_text).mp hdirectory)
      ((hof.required_eq_some_iff Json.inverts_text).mp hfile)
      ((hof.defaulted_eq_some_iff inverts_text?).mp hcommand)
      ((hof.defaulted_eq_some_iff inverts_texts?).mp harguments)
      ((hof.defaulted_eq_some_iff inverts_text?).mp houtput), rfl⟩
  · rintro ⟨h, hnative⟩
    cases h with
    | native => cases hnative
    | compilation hrecord hdirectory hfile hcommand harguments houtput =>
      obtain ⟨r, hr, hof⟩ := hrecord.exists_record (by decide)
      rw [compilationNames] at hr
      simp [compilationOfJson?, hr, (hof.required_eq_some_iff Json.inverts_text).mpr hdirectory,
        (hof.required_eq_some_iff Json.inverts_text).mpr hfile,
        (hof.defaulted_eq_some_iff inverts_text?).mpr hcommand,
        (hof.defaulted_eq_some_iff inverts_texts?).mpr harguments,
        (hof.defaulted_eq_some_iff inverts_text?).mpr houtput]

theorem fitsNative_iff : FitsNative j ↔ ∃ entry, nativeOfJson? j = some entry := by
  simp only [FitsNative, nativeOfJson?_eq_some_iff]

/-- A document stands for an entry that it fits, and for a native one whenever it fits one. -/
theorem ofJson?_eq_some_iff : ofJson? j = some entry ↔
    Fits j entry ∧ (FitsNative j → entry.isNative = true) := by
  cases hnative : nativeOfJson? j with
  | some native =>
    have hfits : FitsNative j := fitsNative_iff.mpr ⟨native, hnative⟩
    have hof : ofJson? j = nativeOfJson? j := by rw [ofJson?, hnative]
    rw [hof, nativeOfJson?_eq_some_iff]
    exact and_congr_right fun _ => ⟨fun h _ => h, fun h => h hfits⟩
  | none =>
    have hfits : ¬ FitsNative j := fun h => by
      obtain ⟨native, h⟩ := fitsNative_iff.mp h
      cases hnative.symm.trans h
    rw [ofJson?, hnative, compilationOfJson?_eq_some_iff]
    refine and_congr_right fun h => ⟨fun _ hnative => absurd hnative hfits, fun _ => ?_⟩
    cases hentry : entry.isNative with
    | false => rfl
    | true => exact absurd ⟨entry, h, hentry⟩ hfits

theorem exists_ofJson?_iff : (∃ entry, ofJson? j = some entry) ↔ ∃ entry, Fits j entry := by
  constructor
  · rintro ⟨entry, h⟩
    exact ⟨entry, (ofJson?_eq_some_iff.mp h).1⟩
  · rintro ⟨entry, h⟩
    by_cases hfits : FitsNative j
    · obtain ⟨native, hnative, hkind⟩ := hfits
      exact ⟨native, ofJson?_eq_some_iff.mpr ⟨hnative, fun _ => hkind⟩⟩
    · exact ⟨entry, ofJson?_eq_some_iff.mpr ⟨h, fun hnative => absurd hnative hfits⟩⟩

end Entry

/-! ## Faults and actions -/

/-- What is wrong with the item at an index. -/
inductive Faulty (index : Nat) (item : Json) : LogError → Prop where
  | unknownKind {kind command : String} {sources targets : List String} {directory : Option String}
      (h : Fits item (.native kind command sources targets directory))
      (hkind : (Worded.parse? kind : Option ActionKind) = none) :
      Faulty index item (.unknownKind index kind)
  | noCommand {directory file : String} {output : Option String} (hnative : ¬ FitsNative item)
      (h : Fits item (.compilation directory file none none output)) :
      Faulty index item (.noCommand index)

/-- The action of an item, its paths seen from `base`. -/
inductive ActionOf (base : String) (item : Json) : LogAction → Prop where
  | native {kind command : String} {sources targets : List String} {directory : Option String}
      {known : ActionKind} (h : Fits item (.native kind command sources targets directory))
      (hkind : Worded.parse? kind = some known) :
      ActionOf base item
        { kind := known, label := command
          sources := sources.map (Path.resolve (directory.elim base (Path.resolve base)))
          targets := targets.map (Path.resolve (directory.elim base (Path.resolve base))) }
  | compilation {directory file : String} {command output : Option String}
      {arguments : Option (List String)} {words : List String} (hnative : ¬ FitsNative item)
      (h : Fits item (.compilation directory file command arguments output))
      (hwords : words? command arguments = some words) :
      ActionOf base item
        { kind := .compile, label := command.getD (" ".intercalate words)
          sources := [Path.resolve (Path.resolve base directory) file]
          targets := ((output.or (Command.output? words)).map
            (Path.resolve (Path.resolve base directory))).toList }

section Item

variable {base : String} {index : Nat} {item : Json} {entry : Entry}

theorem entry_eq_native (hitem : Entry.ofJson? item = some entry) {other : Entry}
    (hother : Fits item other) (hnative : other.isNative = true) : entry = other := by
  have htaken := Entry.ofJson?_eq_some_iff.mpr ⟨hother, fun _ => hnative⟩
  exact Option.some.inj (hitem.symm.trans htaken)

theorem entry_eq_compilation (hitem : Entry.ofJson? item = some entry) {other : Entry}
    (hnative : ¬ FitsNative item) (hother : Fits item other) : entry = other := by
  have htaken := Entry.ofJson?_eq_some_iff.mpr ⟨hother, fun h => absurd h hnative⟩
  exact Option.some.inj (hitem.symm.trans htaken)

theorem Entry.action_native (kind command : String) (sources targets : List String)
    (directory : Option String) :
    Entry.action base index (.native kind command sources targets directory) =
      match (Worded.parse? kind : Option ActionKind) with
      | none => .error (.unknownKind index kind)
      | some known => .ok
          { kind := known, label := command
            sources := sources.map (Path.resolve (directory.elim base (Path.resolve base)))
            targets := targets.map (Path.resolve (directory.elim base (Path.resolve base))) } := by
  cases directory <;> rfl

theorem Entry.action_compilation_eq (directory file : String) (command output : Option String)
    (arguments : Option (List String)) :
    Entry.action base index (.compilation directory file command arguments output) =
      match words? command arguments with
      | none => .error (.noCommand index)
      | some words => .ok
          { kind := .compile, label := command.getD (" ".intercalate words)
            sources := [Path.resolve (Path.resolve base directory) file]
            targets := ((output.or (Command.output? words)).map
              (Path.resolve (Path.resolve base directory))).toList } := by
  cases arguments <;> cases command <;> cases output <;> rfl

theorem words?_eq_none_iff {command : Option String} {arguments : Option (List String)} :
    words? command arguments = none ↔ command = none ∧ arguments = none := by
  simp [words?, and_comm]

theorem action_eq_error_iff (hitem : Entry.ofJson? item = some entry) {e : LogError} :
    entry.action base index = .error e ↔ Faulty index item e := by
  obtain ⟨hfits, hnative⟩ := Entry.ofJson?_eq_some_iff.mp hitem
  constructor
  · intro h
    cases entry with
    | native =>
      rw [Entry.action_native] at h
      split at h
      · cases h
        exact .unknownKind hfits ‹_›
      · cases h
    | compilation =>
      rw [Entry.action_compilation_eq] at h
      split at h
      · cases h
        obtain ⟨rfl, rfl⟩ := words?_eq_none_iff.mp ‹_›
        exact .noCommand (fun h => by cases hnative h) hfits
      · cases h
  · intro h
    cases h with
    | unknownKind h hkind =>
      obtain rfl := entry_eq_native hitem h rfl
      simp [Entry.action_native, hkind]
    | noCommand hnot h =>
      obtain rfl := entry_eq_compilation hitem hnot h
      rfl

theorem action_eq_ok_iff (hitem : Entry.ofJson? item = some entry) {action : LogAction} :
    entry.action base index = .ok action ↔ ActionOf base item action := by
  obtain ⟨hfits, hnative⟩ := Entry.ofJson?_eq_some_iff.mp hitem
  constructor
  · intro h
    cases entry with
    | native =>
      rw [Entry.action_native] at h
      split at h
      · cases h
      · cases h
        exact .native hfits ‹_›
    | compilation =>
      rw [Entry.action_compilation_eq] at h
      split at h
      · cases h
      · cases h
        exact .compilation (fun h => by cases hnative h) hfits ‹_›
  · intro h
    cases h with
    | native h hkind =>
      obtain rfl := entry_eq_native hitem h rfl
      simp [Entry.action_native, hkind]
    | compilation hnot h hwords =>
      obtain rfl := entry_eq_compilation hitem hnot h
      simp [Entry.action_compilation_eq, hwords]

end Item

theorem ActionOf.normal {base : String} {item : Json} {action : LogAction}
    (h : ActionOf base item action) (hbase : Path.isAbsolute base = true) :
    ∀ path ∈ action.sources ++ action.targets, Path.Normal path := by
  cases h with
  | @native _ _ sources targets directory =>
    have hdir : Path.isAbsolute (directory.elim base (Path.resolve base)) = true := by
      cases directory with
      | none => exact hbase
      | some directory => exact (Path.normal_resolve hbase directory).absolute
    simp only [← List.map_append, List.forall_mem_map]
    exact fun path _ => Path.normal_resolve hdir path
  | @compilation directory =>
    have hdir := (Path.normal_resolve hbase directory).absolute
    simp only [List.mem_append, List.mem_singleton, Option.mem_toList, Option.map_eq_some_iff]
    rintro path (rfl | ⟨file, -, rfl⟩) <;> exact Path.normal_resolve hdir _

/-! ## Logs -/

/-- The text spells an array, all of whose items have the shape of an entry. All its texts have a
value, its numbers are finite and its nesting is bounded. -/
structure IsLog (content : String) (items : List Json) : Prop where
  document : Json.IsDocument content (.array items)
  plain : (Json.array items).isPlain nestingLimit = true
  fits : ∀ item ∈ items, ∃ entry, Fits item entry

/-- The fault of the first item that has one; the items are numbered from `start`. -/
def FirstFault (start : Nat) (items : List Json) (e : LogError) : Prop :=
  ∃ i item, items[i]? = some item ∧ Faulty (start + i) item e ∧
    ∀ k < i, ∀ earlier, items[k]? = some earlier → ∀ e', ¬ Faulty (start + k) earlier e'

section Log

variable {content base : String} {items : List Json} {entries : List Entry} {start : Nat}

/-- The items stand for the entries. -/
def StandFor (items : List Json) (entries : List Entry) : Prop :=
  List.Forall₂ (fun item entry => Entry.ofJson? item = some entry) items entries

theorem mapM_ofJson?_eq_some_iff :
    items.mapM Entry.ofJson? = some entries ↔ StandFor items entries := by
  rw [StandFor]
  induction items generalizing entries with
  | nil => simp [eq_comm]
  | cons item items ih =>
    simp only [List.mapM_cons, Option.bind_eq_bind, Option.bind_eq_some_iff, ih]
    constructor
    · rintro ⟨entry, hentry, entries, hentries, heq⟩
      cases heq
      exact .cons hentry hentries
    · intro h
      obtain ⟨entry, entries, hentry, hentries, rfl⟩ := List.forall₂_cons_left_iff.mp h
      exact ⟨entry, hentry, entries, hentries, rfl⟩

theorem exists_standFor_iff :
    (∃ entries, StandFor items entries) ↔ ∀ item ∈ items, ∃ entry, Fits item entry := by
  induction items with
  | nil => simp [StandFor]
  | cons item items ih =>
    simp only [StandFor, List.forall₂_cons_left_iff, List.forall_mem_cons] at ih ⊢
    rw [← ih, ← Entry.exists_ofJson?_iff]
    constructor
    · rintro ⟨_, entry, entries, hentry, hentries, -⟩
      exact ⟨⟨entry, hentry⟩, entries, hentries⟩
    · rintro ⟨⟨entry, hentry⟩, entries, hentries⟩
      exact ⟨_, entry, entries, hentry, hentries, rfl⟩

theorem entries?_eq_some_iff : entries? content = some entries ↔
    ∃ items, IsLog content items ∧ StandFor items entries := by
  simp only [entries?, Option.bind_eq_bind, Option.bind_eq_some_iff, Json.read?_eq_some_iff]
  constructor
  · rintro ⟨document, hdocument, h⟩
    split at h
    · cases h
    · rename_i hplain
      split at h
      · rename_i items
        have hstand := mapM_ofJson?_eq_some_iff.mp h
        exact ⟨items, ⟨hdocument, by simpa using hplain, exists_standFor_iff.mp ⟨entries, hstand⟩⟩,
          hstand⟩
      · cases h
  · rintro ⟨items, hlog, hstand⟩
    refine ⟨.array items, hlog.document, ?_⟩
    simpa [hlog.plain] using mapM_ofJson?_eq_some_iff.mpr hstand

theorem firstFault_cons {item : Json} {e : LogError} : FirstFault start (item :: items) e ↔
    Faulty start item e ∨ (∀ e', ¬ Faulty start item e') ∧ FirstFault (start + 1) items e := by
  constructor
  · rintro ⟨i, found, hfound, hfault, hearlier⟩
    cases i with
    | zero =>
      cases hfound
      exact .inl hfault
    | succ i =>
      refine .inr ⟨hearlier 0 (Nat.succ_pos i) item rfl, i, found, hfound, ?_, fun k hk => ?_⟩
      · rwa [Nat.add_right_comm, Nat.add_assoc]
      · have hnot := hearlier (k + 1) (Nat.succ_lt_succ hk)
        rwa [List.getElem?_cons_succ, Nat.add_comm k, ← Nat.add_assoc] at hnot
  · rintro (hfault | ⟨hnone, i, found, hfound, hfault, hearlier⟩)
    · exact ⟨0, item, rfl, hfault, fun k hk => absurd hk (Nat.not_lt_zero k)⟩
    · refine ⟨i + 1, found, hfound, ?_, fun k hk => ?_⟩
      · rwa [Nat.add_right_comm, Nat.add_assoc] at hfault
      · cases k with
        | zero =>
          rintro earlier ⟨⟩
          exact hnone
        | succ k =>
          have hnot := hearlier k (Nat.lt_of_succ_lt_succ hk)
          rwa [List.getElem?_cons_succ, Nat.add_comm k, ← Nat.add_assoc]

theorem actionsFrom_eq_ok_iff (h : StandFor items entries) {actions : List LogAction} :
    actionsFrom base start entries = .ok actions ↔ List.Forall₂ (ActionOf base) items actions := by
  induction h generalizing start actions with
  | nil =>
    simp only [actionsFrom, List.forall₂_nil_left_iff, Except.ok.injEq]
    exact eq_comm
  | @cons item entry items entries hentry hentries ih =>
    rw [actionsFrom, List.forall₂_cons_left_iff]
    constructor
    · intro h
      cases haction : entry.action base start with
      | error e =>
        rw [haction] at h
        cases h
      | ok action =>
        cases hrest : actionsFrom base (start + 1) entries with
        | error e =>
          rw [haction, hrest] at h
          cases h
        | ok rest =>
          rw [haction, hrest] at h
          cases h
          exact ⟨action, rest, (action_eq_ok_iff hentry).mp haction, ih.mp hrest, rfl⟩
    · rintro ⟨action, rest, haction, hrest, rfl⟩
      rw [(action_eq_ok_iff hentry).mpr haction, ih.mpr hrest]
      rfl

theorem actionsFrom_eq_error_iff (h : StandFor items entries) {e : LogError} :
    actionsFrom base start entries = .error e ↔ FirstFault start items e := by
  induction h generalizing start with
  | nil => simp [actionsFrom, FirstFault]
  | @cons item entry items entries hentry hentries ih =>
    -- the first entry fails just when the first item is at fault, and then ends the reading
    have hfault : ∀ e, Faulty start item e ↔ entry.action base start = .error e :=
      fun e => (action_eq_error_iff hentry).symm
    rw [firstFault_cons, actionsFrom, ← ih]
    simp only [hfault]
    cases haction : entry.action base start with
    | error e' => simp [bind, Except.bind]
    | ok action =>
      cases actionsFrom base (start + 1) entries <;>
        simp [bind, Except.bind, pure, Except.pure]

theorem exists_firstFault_iff : (∃ e, FirstFault start items e) ↔
    ∃ i item e, items[i]? = some item ∧ Faulty (start + i) item e := by
  classical
  constructor
  · rintro ⟨e, i, item, hitem, hfault, -⟩
    exact ⟨i, item, e, hitem, hfault⟩
  · intro h
    obtain ⟨item, e, hitem, hfault⟩ := Nat.find_spec h
    exact ⟨e, Nat.find h, item, hitem, hfault, fun k hk earlier hearlier e' hfault' =>
      Nat.find_min h hk ⟨earlier, e', hearlier, hfault'⟩⟩

theorem normal_of_forall₂ {actions : List LogAction}
    (h : List.Forall₂ (ActionOf base) items actions) (hbase : Path.isAbsolute base = true) :
    ∀ action ∈ actions, ∀ path ∈ action.sources ++ action.targets, Path.Normal path := by
  have hnormal := h.flip.imp fun _ _ haction => And.intro (haction.normal hbase) haction
  exact ((List.forall₂_and_left _ _).mp hnormal).1

theorem IsLog.exists_standFor (h : IsLog content items) : ∃ entries,
    StandFor items entries ∧ ∀ base, parse content base = actionsFrom base 0 entries := by
  obtain ⟨entries, hstand⟩ := exists_standFor_iff.mpr h.fits
  have hentries := entries?_eq_some_iff.mpr ⟨items, h, hstand⟩
  exact ⟨entries, hstand, fun base => by rw [parse, hentries]⟩

theorem parse_eq_malformed_iff :
    parse content base = .error .malformed ↔ ¬ ∃ items, IsLog content items := by
  constructor
  · rintro h ⟨items, hlog⟩
    obtain ⟨entries, hstand, hparse⟩ := hlog.exists_standFor
    rw [hparse, actionsFrom_eq_error_iff hstand] at h
    obtain ⟨i, item, -, hfault, -⟩ := h
    cases hfault
  · intro hnone
    cases hentries : entries? content with
    | none => rw [parse, hentries]
    | some entries =>
      obtain ⟨items, hlog, -⟩ := entries?_eq_some_iff.mp hentries
      exact absurd ⟨items, hlog⟩ hnone

theorem exists_ok_iff {α ε : Type} {result : Except ε α} :
    (∃ a, result = .ok a) ↔ ¬ ∃ e, result = .error e := by
  cases result <;> simp

end Log

/-- A text that is no log is malformed. A log fails with the fault of the first item that has one;
if there is none, its actions are those of its items, and their paths are absolute and normal
whenever the base is absolute. -/
theorem parse_spec (content base : String) :
    (parse content base = .error .malformed ↔ ¬ ∃ items, IsLog content items) ∧
    ∀ items, IsLog content items →
      (∀ e, parse content base = .error e ↔ FirstFault 0 items e) ∧
      ((∃ actions, parse content base = .ok actions) ↔
        ∀ index item e, items[index]? = some item → ¬ Faulty index item e) ∧
      ∀ actions, (parse content base = .ok actions ↔ List.Forall₂ (ActionOf base) items actions) ∧
        (parse content base = .ok actions → Path.isAbsolute base = true →
          ∀ action ∈ actions, ∀ path ∈ action.sources ++ action.targets, Path.Normal path) := by
  refine ⟨parse_eq_malformed_iff, fun items hlog => ?_⟩
  obtain ⟨entries, hstand, hparse⟩ := hlog.exists_standFor
  rw [hparse]
  refine ⟨fun e => actionsFrom_eq_error_iff hstand, ?_, fun actions => ?_⟩
  · simp only [exists_ok_iff, actionsFrom_eq_error_iff hstand, exists_firstFault_iff, Nat.zero_add,
      not_exists, not_and]
  · have hactions : actionsFrom base 0 entries = .ok actions ↔ _ := actionsFrom_eq_ok_iff hstand
    exact ⟨hactions, fun hok => normal_of_forall₂ (hactions.mp hok)⟩

/-- A log whose first item fits both shapes and whose second one is an array. -/
def mixedLog : String :=
  "[\x7b\"kind\": \"Link\", \"command\": \"ld\", \"targets\": [\"../p\"]," ++
    " \"directory\": \"d\", \"file\": \"f\"\x7d, [\"s\", \"a.c\", null, [\"cc\", \"-oa.o\"]]]"

theorem parse_spec_mixedLog : ∃ items, IsLog mixedLog items ∧ Path.isAbsolute "/b" = true ∧
    ∃ link compile : LogAction, parse mixedLog "/b" = .ok [link, compile] ∧
      link = ⟨.link, "ld", [], ["/b/p"]⟩ ∧
      compile = ⟨.compile, "cc -oa.o", ["/b/s/a.c"], ["/b/s/a.o"]⟩ ∧
      List.Forall₂ (ActionOf "/b") items [link, compile] ∧
      ∀ path ∈ compile.sources ++ compile.targets, Path.Normal path := by
  have hentries : entries? mixedLog = some [.native "Link" "ld" [] ["../p"] (some "d"),
      .compilation "s" "a.c" none (some ["cc", "-oa.o"]) none] := by decide +kernel
  have hparse : parse mixedLog "/b" = .ok [⟨.link, "ld", [], ["/b/p"]⟩,
      ⟨.compile, "cc -oa.o", ["/b/s/a.c"], ["/b/s/a.o"]⟩] := by
    rw [parse, hentries]
    decide +kernel
  obtain ⟨items, hlog, -⟩ := entries?_eq_some_iff.mp hentries
  obtain ⟨hactions, hnormal⟩ := ((parse_spec mixedLog "/b").2 items hlog).2.2 _
  exact ⟨items, hlog, by decide, _, _, hparse, rfl, rfl, hactions.mp hparse,
    hnormal hparse (by decide) _ (by simp)⟩

end SymbolAtlas.BuildLog
