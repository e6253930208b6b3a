import Mathlib.Data.List.Infix
import SymbolAtlas.BuildLog.Entry
import SymbolAtlas.Command.Options
import SymbolAtlas.Proofs.Text.Words

/-!
# Include directories of a compilation

An entry of a build log gives the words of a compilation. The parser of its action is told the
include directories among them, and reads these from the label of the action, one text that it cuts
at blanks only.

- **Directories** (`Options.Names`): the directories that words name with include flags. Reading
  words adds exactly these, in order (`Options.includePaths_readWords_iff`).
- **Quoting** (`words_eq_split_iff`): cutting a command line at blanks gives its words just when it
  holds neither a quote nor a backslash, since each of these is cut out of the words.
- **Entries** (`include_flags_survive_iff`): the parser is told the directories that the words of
  the entry name whenever the label has these words. A command line with a quote or a backslash,
  and arguments that are empty or hold blanks, have others.
-/

namespace SymbolAtlas

/-! ## Starts of a text -/

namespace Text

theorem stripStart_eq_some_iff {start cs rest : List Char} :
    stripStart start cs = some rest ↔ cs = start ++ rest := by
  fun_induction stripStart start cs with
  | case1 cs => simp
  | case2 s ss => simp
  | case3 ss c cs ih => simp [ih]
  | case4 s ss c cs hne => simp [Ne.symm hne]

theorem afterStart_eq_some_iff {start s rest : String} :
    afterStart start s = some rest ↔ s = start ++ rest := by
  rw [afterStart, Option.map_eq_some_iff]
  constructor
  · rintro ⟨cs, hcs, rfl⟩
    rw [← String.toList_inj, String.toList_append, String.toList_ofList,
      ← stripStart_eq_some_iff]
    exact hcs
  · rintro rfl
    exact ⟨rest.toList, by rw [stripStart_eq_some_iff, String.toList_append], by simp⟩

end Text

namespace Command

/-! ## Directories that words name -/

namespace Options

/-- The directories that words name with include flags, in order. -/
inductive Names : List String → List String → Prop where
  | nil : Names [] []
  /-- a flag at the end names nothing -/
  | last {flag : String} : flag ∈ includeFlags → Names [flag] []
  /-- a flag that stands alone names the next word, whatever it is -/
  | next {flag dir : String} {words dirs : List String} :
      flag ∈ includeFlags → Names words dirs → Names (flag :: dir :: words) (dir :: dirs)
  /-- a word that goes on after a flag names the rest of the word -/
  | joined {flag dir : String} {words dirs : List String} : flag ∈ includeFlags → dir ≠ "" →
      Names words dirs → Names ((flag ++ dir) :: words) (dir :: dirs)
  /-- a word that starts with no flag names nothing -/
  | other {word : String} {words dirs : List String} :
      (∀ flag ∈ includeFlags, ∀ rest, word ≠ flag ++ rest) →
      Names words dirs → Names (word :: words) dirs

/-- No include flag is the start of another one. -/
theorem includeFlags_apart : ∀ flag ∈ includeFlags, ∀ flag' ∈ includeFlags,
    flag.toList <+: flag'.toList → flag = flag' := by
  decide

theorem includeFlag_unique {flag flag' rest rest' : String} (hflag : flag ∈ includeFlags)
    (hflag' : flag' ∈ includeFlags) (heq : flag ++ rest = flag' ++ rest') :
    flag = flag' ∧ rest = rest' := by
  have hlists : flag.toList ++ rest.toList = flag'.toList ++ rest'.toList := by
    rw [← String.toList_append, heq, String.toList_append]
  have hsame : flag = flag' := by
    rcases List.prefix_or_prefix_of_prefix (List.prefix_append _ _)
        (hlists ▸ List.prefix_append flag'.toList rest'.toList) with h | h
    · exact includeFlags_apart flag hflag flag' hflag' h
    · exact (includeFlags_apart flag' hflag' flag hflag h).symm
  subst hsame
  exact ⟨rfl, String.toList_inj.mp (List.append_cancel_left hlists)⟩

theorem findSome?_afterStart_eq_some_iff {word dir : String} :
    (includeFlags.findSome? fun flag => Text.afterStart flag word) = some dir ↔
      ∃ flag ∈ includeFlags, word = flag ++ dir := by
  constructor
  · intro hdir
    obtain ⟨flag, hflag, hafter⟩ := List.exists_of_findSome?_eq_some hdir
    exact ⟨flag, hflag, Text.afterStart_eq_some_iff.mp hafter⟩
  · rintro ⟨flag, hflag, rfl⟩
    -- some flag is found, and it can be no other one
    cases hfound : includeFlags.findSome? fun flag' => Text.afterStart flag' (flag ++ dir) with
    | none =>
      have hnone := List.findSome?_eq_none_iff.mp hfound flag hflag
      rw [Text.afterStart_eq_some_iff.mpr rfl] at hnone
      cases hnone
    | some dir' =>
      obtain ⟨flag', hflag', hafter⟩ := List.exists_of_findSome?_eq_some hfound
      have heq := Text.afterStart_eq_some_iff.mp hafter
      rw [(includeFlag_unique hflag hflag' heq).2]

theorem joinedDirectory?_eq_some_iff {word dir : String} : joinedDirectory? word = some dir ↔
    dir ≠ "" ∧ ∃ flag ∈ includeFlags, word = flag ++ dir := by
  rw [joinedDirectory?, Option.filter_eq_some_iff, findSome?_afterStart_eq_some_iff, and_comm]
  simp

theorem append_notMem_includeFlags {flag dir : String} (hflag : flag ∈ includeFlags)
    (hdir : dir ≠ "") : flag ++ dir ∉ includeFlags := by
  intro hmem
  have heq : flag ++ dir = (flag ++ dir) ++ "" := by simp
  exact hdir (includeFlag_unique hflag hmem heq).2

/-! ## Reading words -/

theorem includePaths_readWords_last {flag : String} (hflag : flag ∈ includeFlags)
    (options : Options) : (readWords options [flag]).includePaths = options.includePaths := by
  simp [readWords, hflag]

theorem readWords_next {flag : String} (hflag : flag ∈ includeFlags) (options : Options)
    (dir : String) (words : List String) : readWords options (flag :: dir :: words) =
      readWords { options with includePaths := options.includePaths ++ [dir] } words := by
  simp [readWords, hflag]

/-- A word that is no flag is read alone. -/
theorem readWords_cons {word : String} (hword : word ∉ includeFlags) (options : Options)
    (words : List String) : readWords options (word :: words) =
      readWords (match joinedDirectory? word with
        | some dir => { options with includePaths := options.includePaths ++ [dir] }
        | none => { options with extraArgs := options.extraArgs ++ [word] }) words := by
  cases words <;> cases hdir : joinedDirectory? word <;> simp [readWords, hword, hdir]

/-- Reading adds the directories that the words name. -/
theorem Names.includePaths_readWords {words dirs : List String} (h : Names words dirs)
    (options : Options) :
    (readWords options words).includePaths = options.includePaths ++ dirs := by
  induction h generalizing options with
  | nil => simp [readWords]
  | last hflag => simp [includePaths_readWords_last hflag]
  | next hflag _ ih => simp [readWords_next hflag, ih]
  | joined hflag hdir _ ih =>
    rw [readWords_cons (append_notMem_includeFlags hflag hdir),
      joinedDirectory?_eq_some_iff.mpr ⟨hdir, _, hflag, rfl⟩, ih]
    simp
  | @other word _ _ hword _ ih =>
    have hnone : joinedDirectory? word = none := by
      refine Option.eq_none_iff_forall_ne_some.mpr fun dir hdir => ?_
      obtain ⟨-, flag, hflag, rfl⟩ := joinedDirectory?_eq_some_iff.mp hdir
      exact hword flag hflag dir rfl
    have hnot : word ∉ includeFlags := fun hmem => hword word hmem "" (by simp)
    rw [readWords_cons hnot, hnone, ih]

theorem Names.unique {words dirs dirs' : List String} (h : Names words dirs)
    (h' : Names words dirs') : dirs = dirs' := by
  have heq := h.includePaths_readWords ⟨[], []⟩
  rw [h'.includePaths_readWords] at heq
  exact heq.symm

theorem exists_named : ∀ words : List String, ∃ dirs, Names words dirs
  | [] => ⟨[], .nil⟩
  | word :: words => by
    by_cases hflag : word ∈ includeFlags
    · cases words with
      | nil => exact ⟨[], .last hflag⟩
      | cons dir words =>
        obtain ⟨dirs, hdirs⟩ := exists_named words
        exact ⟨dir :: dirs, .next hflag hdirs⟩
    · obtain ⟨dirs, hdirs⟩ := exists_named words
      by_cases hstart : ∃ flag ∈ includeFlags, ∃ rest, word = flag ++ rest
      · obtain ⟨flag, hmem, rest, rfl⟩ := hstart
        have hrest : rest ≠ "" := by
          rintro rfl
          exact hflag (by simpa using hmem)
        exact ⟨rest :: dirs, .joined hmem hrest hdirs⟩
      · push Not at hstart
        exact ⟨dirs, .other hstart hdirs⟩

theorem includePaths_readWords_iff {words dirs : List String} {options : Options} :
    (readWords options words).includePaths = options.includePaths ++ dirs ↔
      Names words dirs := by
  refine ⟨fun heq => ?_, fun h => h.includePaths_readWords options⟩
  obtain ⟨dirs', h⟩ := exists_named words
  rw [h.includePaths_readWords options] at heq
  exact List.append_cancel_left heq ▸ h

instance (words dirs : List String) : Decidable (Names words dirs) :=
  decidable_of_iff ((readWords ⟨[], []⟩ words).includePaths = [] ++ dirs)
    includePaths_readWords_iff

theorem includePaths_ofLabel_iff {label : String} {paths dirs : List String} :
    (ofLabel label paths).includePaths = paths ++ dirs ↔
      Names ((Text.words label).drop 1) dirs :=
  includePaths_readWords_iff

end Options

/-! ## Quoting -/

/-- The character is a quote or a backslash. -/
def isQuoting (c : Char) : Bool := c = '"' || c = '\'' || c = '\\'

open Text (isBlank wordsFrom closeWord solid)

theorem isBlank_of_isQuoting {c : Char} (h : isQuoting c = true) : isBlank c = false := by
  simp only [isQuoting, Bool.or_eq_true, decide_eq_true_eq] at h
  rcases h with (rfl | rfl) | rfl <;> decide

theorem splitFrom_plain {c : Char} (hc : isQuoting c = false) (inWord : Bool)
    (run cs : List Char) : splitFrom none inWord run (c :: cs) =
      if isBlank c then
        if inWord then run.reverse :: splitFrom none false [] cs else splitFrom none false [] cs
      else splitFrom none true (c :: run) cs := by
  simp only [isQuoting, Bool.or_eq_false_iff, decide_eq_false_iff_not] at hc
  obtain ⟨⟨hdouble, hsingle⟩, hback⟩ := hc
  simp [splitFrom, hdouble, hsingle, hback]

theorem splitFrom_eq_wordsFrom {cs : List Char} (hcs : ∀ c ∈ cs, isQuoting c = false)
    (run : List Char) : splitFrom none (!run.isEmpty) run cs = wordsFrom run cs := by
  induction cs generalizing run with
  | nil => cases run <;> rfl
  | cons c cs ih =>
    have ih := ih fun c' hc' => hcs c' (.tail _ hc')
    rw [splitFrom_plain (hcs c (.head _)), wordsFrom]
    split
    · have hstart : splitFrom none false [] cs = wordsFrom [] cs := ih []
      cases run <;> simp [closeWord, hstart]
    · exact ih (c :: run)

/-- Whatever is quoted, no character is added. -/
theorem solid_splitFrom_le (quote : Option Char) (inWord : Bool) (run cs : List Char) :
    solid (splitFrom quote inWord run cs).flatten ≤ solid run + solid cs := by
  fun_induction splitFrom quote inWord run cs
  all_goals simp [Text.solid_cons] at *
  all_goals omega

/-- A quote or a backslash outside quotes does not get into the words. -/
theorem solid_splitFrom_quoting {c : Char} (hc : isQuoting c = true) (inWord : Bool)
    (run cs : List Char) :
    solid (splitFrom none inWord run (c :: cs)).flatten < solid run + solid (c :: cs) := by
  rw [Text.solid_cons, isBlank_of_isQuoting hc]
  simp only [isQuoting, Bool.or_eq_true, decide_eq_true_eq] at hc
  rcases hc with hquote | rfl
  · have hskip : splitFrom none inWord run (c :: cs) = splitFrom (some c) true run cs := by
      rcases hquote with rfl | rfl <;> simp [splitFrom]
    have hle := solid_splitFrom_le (some c) true run cs
    rw [hskip]
    simp only [Bool.false_eq_true, if_false]
    omega
  · cases cs with
    | nil => simp [splitFrom]
    | cons next cs =>
      have hle := solid_splitFrom_le none true (next :: run) cs
      simp only [splitFrom, Text.solid_cons, Bool.false_eq_true, if_false] at hle ⊢
      omega

theorem solid_splitFrom_lt {cs : List Char} (h : ∃ c ∈ cs, isQuoting c = true) (inWord : Bool)
    (run : List Char) :
    solid (splitFrom none inWord run cs).flatten < solid run + solid cs := by
  induction cs generalizing inWord run with
  | nil => simp at h
  | cons c cs ih =>
    cases hc : isQuoting c with
    | true => exact solid_splitFrom_quoting hc inWord run cs
    | false =>
      have hlater : ∃ c ∈ cs, isQuoting c = true := by simpa [hc] using h
      rw [splitFrom_plain hc, Text.solid_cons]
      cases hblank : isBlank c with
      | true =>
        have hlt := ih hlater false []
        cases inWord <;> simp at hlt ⊢ <;> omega
      | false =>
        have hlt := ih hlater true (c :: run)
        simp only [Text.solid_cons, hblank, Bool.false_eq_true, if_false] at hlt ⊢
        omega

/-- Cutting at blanks gives the words of a command line just when nothing in it is quoted. -/
theorem words_eq_split_iff {line : String} :
    Text.words line = split line ↔ ∀ c ∈ line.toList, isQuoting c = false := by
  have hinj : Function.Injective (List.map String.ofList) :=
    List.map_injective_iff.mpr fun _ _ => String.ofList_injective
  rw [Text.words, split, hinj.eq_iff]
  constructor
  · intro heq c hc
    refine Bool.eq_false_iff.mpr fun hquoting => ?_
    have hlt := solid_splitFrom_lt ⟨c, hc, hquoting⟩ false []
    rw [← heq, Text.solid_wordsFrom] at hlt
    exact Nat.lt_irrefl _ hlt
  · exact fun h => (splitFrom_eq_wordsFrom h []).symm

end Command

/-! ## Entries -/

namespace BuildLog

open Command

/-- The words of a compilation: its arguments, or those of its command line. -/
def words? (command : Option String) (arguments : Option (List String)) : Option (List String) :=
  arguments.or (command.map split)

theorem Entry.action_compilation {command : Option String} {arguments : Option (List String)}
    {words : List String} (hwords : words? command arguments = some words)
    (base directory file : String) (index : Nat) (output : Option String) :
    ∃ action, Entry.action base index (.compilation directory file command arguments output) =
      .ok action ∧ action.label = command.getD (" ".intercalate words) := by
  cases arguments with
  | some arguments =>
    cases hwords
    exact ⟨_, rfl, rfl⟩
  | none =>
    cases command with
    | some line =>
      cases hwords
      exact ⟨_, rfl, rfl⟩
    | none => cases hwords

/-- The parser of a compilation is told the directories that its words name whenever the label has
these words, and otherwise just when the words of the label name the same directories. The label
has the words of a command line without quotes and backslashes, and those of arguments that are not
empty and hold no blank. -/
theorem include_flags_survive_iff {command : Option String} {arguments : Option (List String)}
    {words : List String} (hwords : words? command arguments = some words)
    (base directory file : String) (index : Nat) (output : Option String) (paths : List String) :
    ∃ action dirs,
      Entry.action base index (.compilation directory file command arguments output) =
        .ok action ∧
      (∀ dirs', Options.Names (words.drop 1) dirs' ↔ dirs' = dirs) ∧
      (Text.words action.label = words →
        (Options.ofLabel action.label paths).includePaths = paths ++ dirs) ∧
      ((Options.ofLabel action.label paths).includePaths = paths ++ dirs ↔
        Options.Names ((Text.words action.label).drop 1) dirs) ∧
      (arguments = none → (Text.words action.label = words ↔
        ∀ c ∈ action.label.toList, isQuoting c = false)) ∧
      (command = none → (Text.words action.label = words ↔ ∀ word ∈ words, Text.IsWord word)) := by
  obtain ⟨action, haction, hlabel⟩ :=
    Entry.action_compilation hwords base directory file index output
  obtain ⟨dirs, hdirs⟩ := Options.exists_named (words.drop 1)
  refine ⟨action, dirs, haction, fun dirs' => ⟨fun h => h.unique hdirs, fun h => h ▸ hdirs⟩,
    fun heq => Options.includePaths_ofLabel_iff.mpr (heq ▸ hdirs),
    Options.includePaths_ofLabel_iff, ?_, ?_⟩
  · rintro rfl
    cases command with
    | none => cases hwords
    | some line =>
      cases hwords
      rw [hlabel]
      exact words_eq_split_iff
  · rintro rfl
    rw [hlabel]
    exact Text.words_intercalate_eq_iff

theorem include_flags_survive_plain :
    words? (some "cc -Iinc -iquote q -c a.c") none =
        some ["cc", "-Iinc", "-iquote", "q", "-c", "a.c"] ∧
      ∃ action, Entry.action "/b" 0
          (.compilation "src" "a.c" (some "cc -Iinc -iquote q -c a.c") none none) = .ok action ∧
        (Options.ofLabel action.label ["/usr"]).includePaths = ["/usr", "inc", "q"] := by
  have hwords : words? (some "cc -Iinc -iquote q -c a.c") none =
      some ["cc", "-Iinc", "-iquote", "q", "-c", "a.c"] := by decide
  obtain ⟨action, dirs, haction, hdirs, htold, -, hplain, -⟩ :=
    include_flags_survive_iff hwords "/b" "src" "a.c" 0 none ["/usr"]
  obtain rfl : ["inc", "q"] = dirs := (hdirs _).mp (by decide)
  have hlabel : action.label = "cc -Iinc -iquote q -c a.c" := by
    cases haction
    rfl
  have hquoting : ∀ c ∈ action.label.toList, isQuoting c = false := by simp [hlabel, isQuoting]
  exact ⟨hwords, action, haction, htold ((hplain rfl).mpr hquoting)⟩

/-- A blank in an argument cuts its directory short, and a quote in a command line gets into it. -/
theorem include_flags_lost :
    (∃ action, Entry.action "/b" 0
          (.compilation "src" "a.c" none (some ["cc", "-I", "my dir", "-c", "a.c"]) none) =
        .ok action ∧
      Options.Names ["-I", "my dir", "-c", "a.c"] ["my dir"] ∧
      (Options.ofLabel action.label []).includePaths = ["my"]) ∧
    ∃ action, Entry.action "/b" 0
          (.compilation "src" "a.c" (some "cc -I\"inc\" -c a.c") none none) = .ok action ∧
      split "cc -I\"inc\" -c a.c" = ["cc", "-Iinc", "-c", "a.c"] ∧
      Options.Names ["-Iinc", "-c", "a.c"] ["inc"] ∧
      (Options.ofLabel action.label []).includePaths = ["\"inc\""] := by
  exact ⟨⟨_, rfl, by decide, by decide⟩, _, rfl, by decide, by decide, by decide⟩

end BuildLog

end SymbolAtlas
