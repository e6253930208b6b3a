import SymbolAtlas.Command.Words
import SymbolAtlas.Proofs.Command.IncludePaths

/-!
# Written command lines

Command lines as they are written, and how their words are read back.

- **Segments** (`Segment`): the ways to write a part of a word. A character can stand for itself,
  stand behind a backslash, or stand between quotes of either kind. Segments are glued together to
  a word (`WrittenWord`); an empty word is written by quotes with nothing between them.
- **Lines** (`Line`): written words with blanks between them, and possibly at both ends.
- **Reading back** (`splitFrom_segment`, `splitFrom_word`, `splitFrom_others`): outside quotes, the
  scanner takes a segment to its characters whatever follows it, hence a word and then a whole line.
  So splitting undoes every way of writing (`split_undoes_quoting`).
-/

namespace SymbolAtlas.Command

open Text (isBlank)

/-! ## Ways to write words -/

/-- A character between words. -/
abbrev Blank := { c : Char // isBlank c = true }

/-- A character that stands for itself outside quotes. -/
abbrev Plain := { c : Char // isBlank c = false ∧ isQuoting c = false }

/-- A character between double quotes, with or without a backslash in front of it. -/
structure DoubleQuoted where
  char : Char
  escaped : Bool
  /-- a double quote and a backslash are always escaped -/
  proper : char = '"' ∨ char = '\\' → escaped = true

/-- The written form of a character between double quotes. -/
def DoubleQuoted.text (d : DoubleQuoted) : List Char :=
  if d.escaped then ['\\', d.char] else [d.char]

/-- A part of a written word. -/
inductive Segment where
  | bare (c : Plain)
  | single (inside : List { c : Char // c ≠ '\'' })
  | double (inside : List DoubleQuoted)
  /-- a character behind a backslash, outside quotes -/
  | escaped (c : Char)

/-- The written form of a segment. -/
def Segment.text : Segment → List Char
  | .bare c => [c.val]
  | .single inside => '\'' :: (inside.map Subtype.val ++ ['\''])
  | .double inside => '"' :: (inside.flatMap DoubleQuoted.text ++ ['"'])
  | .escaped c => ['\\', c]

/-- The characters that a segment stands for. -/
def Segment.chars : Segment → List Char
  | .bare c => [c.val]
  | .single inside => inside.map Subtype.val
  | .double inside => inside.map DoubleQuoted.char
  | .escaped c => [c]

/-- A written word: segments without anything between them. -/
structure WrittenWord where
  segments : List Segment
  nonempty : segments ≠ []

/-- The written form of a word. -/
def WrittenWord.text (w : WrittenWord) : List Char := w.segments.flatMap Segment.text

/-- The characters of a word. -/
def WrittenWord.chars (w : WrittenWord) : List Char := w.segments.flatMap Segment.chars

/-- A word with the blanks in front of it, of which there is at least one. -/
structure NextWord where
  blank : Blank
  blanks : List Blank
  word : WrittenWord

/-- The written form of a word and the blanks in front of it. -/
def NextWord.text (n : NextWord) : List Char :=
  (n.blank :: n.blanks).map Subtype.val ++ n.word.text

/-- A written command line. -/
inductive Line where
  /-- no word at all -/
  | blank (blanks : List Blank)
  | filled (lead : List Blank) (first : WrittenWord) (others : List NextWord) (trail : List Blank)

/-- The written form of a command line. -/
def Line.text : Line → List Char
  | .blank blanks => blanks.map Subtype.val
  | .filled lead first others trail =>
    lead.map Subtype.val ++
      (first.text ++ (others.flatMap NextWord.text ++ trail.map Subtype.val))

/-- The words that are written in a command line. -/
def Line.words : Line → List (List Char)
  | .blank _ => []
  | .filled _ first others _ => first.chars :: others.map fun n => n.word.chars

/-! ## Segments -/

/-- Between single quotes every character up to the closing quote counts as itself. The scanner
takes a backslash there together with the next character, hence two steps. -/
theorem splitFrom_single {inside : List Char} (h : '\'' ∉ inside) (run rest : List Char) :
    splitFrom (some '\'') true run (inside ++ '\'' :: rest) =
      splitFrom none true (inside.reverse ++ run) rest := by
  induction inside using List.twoStepInduction generalizing run with
  | nil => simp [splitFrom]
  | singleton c =>
    have hc : c ≠ '\'' := by simpa [eq_comm] using h
    by_cases hback : c = '\\'
    · simp [hback, splitFrom]
    · simp [hc, hback, splitFrom]
  | cons_cons c d inside ih₁ ih₂ =>
    simp only [List.mem_cons, not_or] at h ih₂
    by_cases hback : c = '\\'
    · have hstep : splitFrom (some '\'') true run ('\\' :: d :: (inside ++ '\'' :: rest)) =
          splitFrom (some '\'') true (d :: '\\' :: run) (inside ++ '\'' :: rest) := by
        simp [splitFrom, Ne.symm h.2.1]
      rw [hback, List.cons_append, List.cons_append, hstep, ih₁ h.2.2]
      simp
    · have hstep : splitFrom (some '\'') true run (c :: (d :: inside ++ '\'' :: rest)) =
          splitFrom (some '\'') true (c :: run) (d :: inside ++ '\'' :: rest) := by
        simp [splitFrom, Ne.symm h.1, hback]
      rw [List.cons_append, hstep, ih₂ _ h.2]
      simp

theorem splitFrom_double (inside : List DoubleQuoted) (run rest : List Char) :
    splitFrom (some '"') true run (inside.flatMap DoubleQuoted.text ++ '"' :: rest) =
      splitFrom none true ((inside.map DoubleQuoted.char).reverse ++ run) rest := by
  induction inside generalizing run with
  | nil => simp [splitFrom]
  | cons d inside ih =>
    obtain ⟨c, escaped, hproper⟩ := d
    cases escaped with
    | true => simp [DoubleQuoted.text, splitFrom, ih]
    | false =>
      have hc : c ≠ '"' ∧ c ≠ '\\' := by simpa using hproper
      simp [DoubleQuoted.text, splitFrom, ih, hc.1, hc.2]

/-- Outside quotes a segment is taken to its characters, and a word has begun after it. -/
theorem splitFrom_segment (s : Segment) (inWord : Bool) (run rest : List Char) :
    splitFrom none inWord run (s.text ++ rest) =
      splitFrom none true (s.chars.reverse ++ run) rest := by
  cases s with
  | bare c =>
    obtain ⟨c, hblank, hquoting⟩ := c
    have hstep := splitFrom_plain hquoting inWord run rest
    simpa [Segment.text, Segment.chars, hblank] using hstep
  | single inside =>
    have hfree : '\'' ∉ inside.map Subtype.val := by
      rw [List.mem_map]
      rintro ⟨c, -, hc⟩
      exact c.property hc
    have hopen : splitFrom none inWord run ('\'' :: (inside.map Subtype.val ++ '\'' :: rest)) =
        splitFrom (some '\'') true run (inside.map Subtype.val ++ '\'' :: rest) := by
      simp [splitFrom]
    rw [Segment.text, List.cons_append, List.append_assoc, List.singleton_append, hopen,
      splitFrom_single hfree]
    rfl
  | double inside =>
    have hopen : splitFrom none inWord run
          ('"' :: (inside.flatMap DoubleQuoted.text ++ '"' :: rest)) =
        splitFrom (some '"') true run (inside.flatMap DoubleQuoted.text ++ '"' :: rest) := by
      simp [splitFrom]
    rw [Segment.text, List.cons_append, List.append_assoc, List.singleton_append, hopen,
      splitFrom_double]
    rfl
  | escaped c => simp [Segment.text, Segment.chars, splitFrom]

/-! ## Words and blanks -/

theorem splitFrom_segments (segments : List Segment) (run rest : List Char) :
    splitFrom none true run (segments.flatMap Segment.text ++ rest) =
      splitFrom none true ((segments.flatMap Segment.chars).reverse ++ run) rest := by
  induction segments generalizing run with
  | nil => rfl
  | cons s segments ih => simp [splitFrom_segment, ih]

theorem splitFrom_word (w : WrittenWord) (rest : List Char) :
    splitFrom none false [] (w.text ++ rest) = splitFrom none true w.chars.reverse rest := by
  obtain ⟨segments, hsome⟩ := w
  obtain ⟨s, segments, rfl⟩ := List.exists_cons_of_ne_nil hsome
  simp [WrittenWord.text, WrittenWord.chars, splitFrom_segment, splitFrom_segments]

theorem splitFrom_blank (b : Blank) (inWord : Bool) (run rest : List Char) :
    splitFrom none inWord run (b.val :: rest) =
      if inWord then run.reverse :: splitFrom none false [] rest
      else splitFrom none false [] rest := by
  have hquoting : isQuoting b.val = false := by
    refine Bool.eq_false_iff.mpr fun h => ?_
    have := isBlank_of_isQuoting h
    simp [b.property] at this
  rw [splitFrom_plain hquoting, if_pos b.property]

theorem splitFrom_blanks (blanks : List Blank) (rest : List Char) :
    splitFrom none false [] (blanks.map Subtype.val ++ rest) = splitFrom none false [] rest := by
  induction blanks with
  | nil => rfl
  | cons b blanks ih => simpa [splitFrom_blank] using ih

/-- Blanks after the last word end it, and so does the end of the line. -/
theorem splitFrom_trail (trail : List Blank) (run : List Char) :
    splitFrom none true run (trail.map Subtype.val) = [run.reverse] := by
  cases trail with
  | nil => rfl
  | cons b blanks =>
    have hrest := splitFrom_blanks blanks []
    rw [List.append_nil] at hrest
    rw [List.map_cons, splitFrom_blank, if_pos rfl, hrest]
    rfl

theorem splitFrom_others (others : List NextWord) (trail : List Blank) (run : List Char) :
    splitFrom none true run (others.flatMap NextWord.text ++ trail.map Subtype.val) =
      run.reverse :: others.map fun n => n.word.chars := by
  induction others generalizing run with
  | nil => exact splitFrom_trail trail run
  | cons n others ih =>
    have hnext : splitFrom none true run (n.text ++ (others.flatMap NextWord.text ++
          trail.map Subtype.val)) =
        run.reverse :: splitFrom none true n.word.chars.reverse
          (others.flatMap NextWord.text ++ trail.map Subtype.val) := by
      rw [NextWord.text, List.map_cons, List.append_assoc, List.cons_append, splitFrom_blank,
        if_pos rfl, splitFrom_blanks, splitFrom_word]
    rw [List.flatMap_cons, List.append_assoc, hnext, ih, List.reverse_reverse]
    rfl

/-! ## Lines -/

theorem splitFrom_line (line : Line) : splitFrom none false [] line.text = line.words := by
  cases line with
  | blank blanks =>
    have hrest := splitFrom_blanks blanks []
    rwa [List.append_nil] at hrest
  | filled lead first others trail =>
    rw [Line.text, splitFrom_blanks, splitFrom_word, splitFrom_others, List.reverse_reverse]
    rfl

/-- A word in double quotes, with a backslash in front of every character. -/
def WrittenWord.ofChars (cs : List Char) : WrittenWord :=
  ⟨[.double (cs.map fun c => ⟨c, true, fun _ => rfl⟩)], List.cons_ne_nil _ _⟩

theorem WrittenWord.chars_ofChars (cs : List Char) : (WrittenWord.ofChars cs).chars = cs := by
  simp [ofChars, chars, Segment.chars, Function.comp_def]

/-- Every list of words can be written. -/
theorem exists_line (words : List (List Char)) : ∃ line : Line, line.words = words := by
  cases words with
  | nil => exact ⟨.blank [], rfl⟩
  | cons first others =>
    refine ⟨.filled [] (.ofChars first)
      (others.map fun cs => ⟨⟨' ', by decide⟩, [], .ofChars cs⟩) [], ?_⟩
    simp [Line.words, WrittenWord.chars_ofChars, Function.comp_def]

/-- Splitting a command line gives its words back, in whatever way they are written; and every list
of words can be written. -/
theorem split_undoes_quoting :
    (∀ line : Line, split (String.ofList line.text) = line.words.map String.ofList) ∧
    ∀ words : List String, ∃ line : Line, line.words.map String.ofList = words := by
  constructor
  · intro line
    rw [split, String.toList_ofList, splitFrom_line]
  · intro words
    obtain ⟨line, hline⟩ := exists_line (words.map String.toList)
    exact ⟨line, by simp [hline, Function.comp_def]⟩

/-- All styles in one word, then an empty word. -/
example : split "-'\\'\"\\\" \"\\'\t\u3000''\n" = ["-\\\" '", ""] := by decide

end SymbolAtlas.Command
