import Mathlib.Data.List.Basic
import SymbolAtlas.Text.Blank

/-!
# Words of a text

What cutting at blanks does to a text.

- **Words** (`IsWord`): the words of a text are not empty and hold no blank (`isWord_of_mem_words`).
  Apart from blanks no character is lost or added (`solid_wordsFrom`).
- **Joined words** (`words_intercalate`): the words of texts with a space between any two are those
  of the texts, one after the other. So texts are read back from it just when each is a word
  (`words_intercalate_eq_iff`).
-/

namespace SymbolAtlas.Text

/-- The text is not empty and holds no blank. -/
def IsWord (s : String) : Prop := s ≠ "" ∧ ∀ c ∈ s.toList, isBlank c = false

instance (s : String) : Decidable (IsWord s) := inferInstanceAs (Decidable (_ ∧ _))

theorem closeWord_append (run : List Char) (xs ys : List (List Char)) :
    closeWord run (xs ++ ys) = closeWord run xs ++ ys := by
  unfold closeWord
  split <;> rfl

/-- A word ends at a blank. -/
theorem wordsFrom_append_blank {b : Char} (hb : isBlank b = true) (run xs ys : List Char) :
    wordsFrom run (xs ++ b :: ys) = wordsFrom run xs ++ wordsFrom [] ys := by
  induction xs generalizing run with
  | nil =>
    have hend : wordsFrom run (b :: ys) = closeWord run (wordsFrom [] ys) := if_pos hb
    rw [List.nil_append, hend, ← List.nil_append (wordsFrom [] ys), closeWord_append]
    rfl
  | cons x xs ih =>
    rw [List.cons_append, wordsFrom, wordsFrom]
    split
    · rw [ih, closeWord_append]
    · exact ih _

theorem wordsFrom_of_no_blank {cs : List Char} (h : ∀ c ∈ cs, isBlank c = false)
    (run : List Char) : wordsFrom run cs = closeWord (cs.reverse ++ run) [] := by
  induction cs generalizing run with
  | nil => rfl
  | cons c cs ih =>
    rw [wordsFrom, h c (.head _), if_neg Bool.false_ne_true,
      ih fun c' hc' => h c' (.tail _ hc')]
    simp

theorem mem_wordsFrom {word run cs : List Char} (hrun : ∀ c ∈ run, isBlank c = false)
    (h : word ∈ wordsFrom run cs) : word ≠ [] ∧ ∀ c ∈ word, isBlank c = false := by
  have hclose : ∀ {run : List Char} {rest : List (List Char)},
      (∀ c ∈ run, isBlank c = false) → word ∈ closeWord run rest →
      word ∈ rest ∨ word ≠ [] ∧ ∀ c ∈ word, isBlank c = false := by
    intro run rest hrun hword
    unfold closeWord at hword
    split at hword
    · exact .inl hword
    · rename_i hempty
      rcases List.mem_cons.mp hword with rfl | hword
      · exact .inr ⟨by simpa using hempty, fun c hc => hrun c (List.mem_reverse.mp hc)⟩
      · exact .inl hword
  induction cs generalizing run with
  | nil => exact (hclose hrun h).resolve_left List.not_mem_nil
  | cons c cs ih =>
    rw [wordsFrom] at h
    split at h
    · exact (hclose hrun h).elim (ih (by simp)) id
    · rename_i hc
      refine ih (fun c' hc' => ?_) h
      rcases List.mem_cons.mp hc' with rfl | hc'
      · exact Bool.eq_false_iff.mpr hc
      · exact hrun c' hc'

theorem isWord_of_mem_words {s word : String} (h : word ∈ words s) : IsWord word := by
  obtain ⟨cs, hcs, rfl⟩ := List.mem_map.mp h
  obtain ⟨hsome, hblank⟩ := mem_wordsFrom (by simp) hcs
  exact ⟨by simpa using hsome, by simpa using hblank⟩

theorem words_of_isWord {s : String} (h : IsWord s) : words s = [s] := by
  have hsome : s.toList ≠ [] := by simpa [String.toList_eq_nil_iff] using h.1
  rw [words, wordsFrom_of_no_blank h.2]
  simp [closeWord, hsome]

/-! ## Characters -/

/-- The number of characters that are no blanks. -/
def solid (cs : List Char) : Nat := cs.countP fun c => !isBlank c

@[simp] theorem solid_nil : solid [] = 0 := rfl

@[simp] theorem solid_append (xs ys : List Char) : solid (xs ++ ys) = solid xs + solid ys :=
  List.countP_append

@[simp] theorem solid_reverse (cs : List Char) : solid cs.reverse = solid cs :=
  List.countP_reverse

theorem solid_cons (c : Char) (cs : List Char) :
    solid (c :: cs) = solid cs + if isBlank c then 0 else 1 := by
  unfold solid
  rw [List.countP_cons]
  cases isBlank c <;> rfl

theorem solid_closeWord (run : List Char) (rest : List (List Char)) :
    solid (closeWord run rest).flatten = solid run + solid rest.flatten := by
  unfold closeWord
  split
  · rename_i hempty
    simp [List.isEmpty_iff.mp hempty]
  · simp

/-- Cutting into words loses blanks only. -/
theorem solid_wordsFrom (run cs : List Char) :
    solid (wordsFrom run cs).flatten = solid run + solid cs := by
  induction cs generalizing run with
  | nil => simp [wordsFrom, solid_closeWord]
  | cons c cs ih =>
    rw [wordsFrom]
    split
    · rename_i hc
      simp [solid_closeWord, ih, solid_cons, hc]
    · rename_i hc
      simp only [ih, solid_cons, hc, Bool.false_eq_true, if_false]
      omega

/-! ## Joined words -/

theorem words_append_space (s t : String) : words (s ++ " " ++ t) = words s ++ words t := by
  have hspace : " ".toList = [' '] := rfl
  rw [words, String.toList_append, String.toList_append, hspace, List.append_assoc,
    List.singleton_append, wordsFrom_append_blank (by decide), List.map_append]
  rfl

theorem words_intercalate (texts : List String) :
    words (" ".intercalate texts) = texts.flatMap words := by
  induction texts with
  | nil => rfl
  | cons first texts ih =>
    cases texts with
    | nil => simp
    | cons second texts =>
      rw [String.intercalate_cons_cons, words_append_space, ih]
      rfl

/-- Texts are read back from the text that joins them just when each is a word. -/
theorem words_intercalate_eq_iff {texts : List String} :
    words (" ".intercalate texts) = texts ↔ ∀ text ∈ texts, IsWord text := by
  constructor
  · intro heq text htext
    rw [← heq] at htext
    exact isWord_of_mem_words htext
  · intro h
    rw [words_intercalate, List.flatMap_congr fun text htext => words_of_isWord (h text htext)]
    simp

end SymbolAtlas.Text
