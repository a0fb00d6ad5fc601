import Sbrocks.Sbush.ParseCommand

/-!
# The words of a line

What a line says: its segments between the signs of a pipe, and the words between
the blanks of a segment.  The part of a line that was read is described by the
words it gave.
-/

namespace Sbrocks.Sbush

open Process (Byte)

/-- A line, a segment or a word, without its final zero. -/
abbrev Text := List Byte

/-- The words of a segment. -/
def words (segment : Text) : List Text := (segment.splitOn blank).filter (· ≠ [])

/-- The commands of a line. -/
def commandsOf (line : Text) : List (List Text) := (line.splitOn bar).map words

/-- A byte that ends a word. -/
def Separates (c : Byte) : Prop := c = blank ∨ c = bar

instance : DecidablePred Separates :=
  fun c => inferInstanceAs (Decidable (c = blank ∨ c = bar))

variable {a b w front seg : Text} {rows : List (List Text)} {ws : List Text}

theorem words_append (a b : Text) : words (a ++ blank :: b) = words a ++ words b := by
  simp [words, List.splitOn_append_cons_self]

@[simp]
theorem words_nil : words [] = [] := by
  simp [words]

theorem words_word (nonempty : w ≠ []) (plain : blank ∉ w) : words w = [w] := by
  simp [words, List.splitOn_eq_singleton plain, nonempty]

theorem commandsOf_append (a b : Text) : commandsOf (a ++ bar :: b) = commandsOf a ++ commandsOf b := by
  simp [commandsOf, List.splitOn_append_cons_self]

theorem commandsOf_segment (plain : bar ∉ seg) : commandsOf seg = [words seg] := by
  simp [commandsOf, List.splitOn_eq_singleton plain]

/-- A part of a line ends between two words, and gave complete commands and the words of the
current one. -/
def Read (front : Text) (rows : List (List Text)) (ws : List Text) : Prop :=
  ∃ seg, bar ∉ seg ∧ (seg = [] ∨ ∃ s, seg = s ++ [blank]) ∧ ws = words seg ∧
    (front = seg ∧ rows = [] ∨ ∃ before, front = before ++ bar :: seg ∧ rows = commandsOf before)

namespace Read

theorem start : Read [] [] [] :=
  ⟨[], List.not_mem_nil, .inl rfl, words_nil.symm, .inl ⟨rfl, rfl⟩⟩

/-- The words of the current segment, when more of it is read. -/
theorem words_more (ends : seg = [] ∨ ∃ s, seg = s ++ [blank]) (a : Text) :
    words (seg ++ a) = words seg ++ words a := by
  rcases ends with rfl | ⟨s, rfl⟩
  · rw [words_nil]
    rfl
  · rw [List.append_assoc, List.singleton_append, words_append, words_append, words_nil,
      List.append_nil]

/-- Reading more of the current segment. -/
theorem more (read : Read front rows ws) (plain : bar ∉ a) :
    commandsOf (front ++ a) = rows ++ [ws ++ words a] := by
  have both : ∀ {seg : Text}, bar ∉ seg → bar ∉ seg ++ a := by
    intro seg whole
    simp [whole, plain]
  rcases read with ⟨seg, whole, ends, rfl, ⟨rfl, rfl⟩ | ⟨before, rfl, rfl⟩⟩
  · rw [commandsOf_segment (both whole), words_more ends]
    rfl
  · rw [List.append_assoc, List.cons_append, commandsOf_append, commandsOf_segment (both whole),
      words_more ends]

/-- Reading up to a blank. -/
theorem toBlank (read : Read front rows ws) (plain : bar ∉ a) :
    Read (front ++ a ++ [blank]) rows (ws ++ words a) := by
  rcases read with ⟨seg, whole, ends, rfl, kind⟩
  refine ⟨seg ++ a ++ [blank], ?_, .inr ⟨_, rfl⟩, ?_, ?_⟩
  · have distinct : bar ≠ blank := by decide
    simp [whole, plain, distinct]
  · rw [words_append, words_more ends, words_nil, List.append_nil]
  · rcases kind with ⟨rfl, rfl⟩ | ⟨before, rfl, rfl⟩
    · exact .inl ⟨rfl, rfl⟩
    · exact .inr ⟨before, by simp, rfl⟩

/-- Reading up to the sign of a pipe. -/
theorem toBar (read : Read front rows ws) (plain : bar ∉ a) :
    Read (front ++ a ++ [bar]) (rows ++ [ws ++ words a]) [] :=
  ⟨[], List.not_mem_nil, .inl rfl, words_nil.symm, .inr ⟨front ++ a, rfl, (read.more plain).symm⟩⟩

/-- Blanks between words. -/
theorem blanks (read : Read front rows ws) (n : Nat) :
    Read (front ++ List.replicate n blank) rows ws := by
  induction n with
  | zero =>
      rw [List.replicate_zero, List.append_nil]
      exact read
  | succ n ih =>
      have next := ih.toBlank (a := []) List.not_mem_nil
      rw [words_nil, List.append_nil, List.append_nil] at next
      rw [List.replicate_succ', ← List.append_assoc]
      exact next

/-- However the line goes on, it has the commands and words that were read. -/
theorem goes_on (read : Read front rows ws) (a : Text) :
    ∃ more rest, commandsOf (front ++ a) = rows ++ (ws ++ more) :: rest := by
  by_cases piped : bar ∈ a
  · rcases List.eq_append_cons_of_mem piped with ⟨first, last, rfl, plain⟩
    refine ⟨words first, commandsOf last, ?_⟩
    rw [← List.append_assoc, commandsOf_append, read.more plain, List.append_assoc,
      List.singleton_append]
  · exact ⟨words a, [], read.more piped⟩

/-- A word that is read is in the commands of the line. -/
theorem has_word (read : Read front rows ws) (nonempty : w ≠ []) (plain : ∀ c ∈ w, ¬Separates c)
    (ends : ∀ c, a.head? = some c → Separates c) :
    ∃ more rest, commandsOf (front ++ (w ++ a)) = rows ++ (ws ++ w :: more) :: rest := by
  have unpiped : bar ∉ w := fun member => plain _ member (.inr rfl)
  have unspaced : blank ∉ w := fun member => plain _ member (.inl rfl)
  have single := words_word nonempty unspaced
  cases a with
  | nil =>
      refine ⟨[], [], ?_⟩
      rw [List.append_nil, read.more unpiped, single]
  | cons c a =>
      rcases ends c rfl with rfl | rfl
      · rcases (read.toBlank unpiped).goes_on a with ⟨more, rest, whole⟩
        refine ⟨more, rest, ?_⟩
        rw [single] at whole
        simpa using whole
      · refine ⟨[], commandsOf a, ?_⟩
        rw [← List.append_assoc, commandsOf_append, read.more unpiped, single, List.append_assoc,
          List.singleton_append]

end Read

/-- Blanks at the end of a segment are no words. -/
theorem words_blanks (a : Text) (n : Nat) : words (a ++ List.replicate n blank) = words a := by
  induction n with
  | zero => rw [List.replicate_zero, List.append_nil]
  | succ n ih =>
      rw [List.replicate_succ', ← List.append_assoc, words_append, ih, words_nil, List.append_nil]

/-! ## The parts of a line -/

/-- A line begins with a word, if only an empty one. -/
theorem exists_word (a : Text) :
    ∃ w rest, a = w ++ rest ∧ (∀ c ∈ w, ¬Separates c) ∧ ∀ c, rest.head? = some c → Separates c := by
  induction a with
  | nil => exact ⟨[], [], rfl, by simp, by simp⟩
  | cons c a ih =>
      by_cases separates : Separates c
      · exact ⟨[], c :: a, rfl, by simp, by simpa using separates⟩
      · rcases ih with ⟨w, rest, rfl, plain, ends⟩
        exact ⟨c :: w, rest, rfl, by simpa using ⟨separates, plain⟩, ends⟩

/-- A line begins with blanks, if any. -/
theorem exists_blanks (a : Text) :
    ∃ n rest, a = List.replicate n blank ++ rest ∧ rest.head? ≠ some blank := by
  induction a with
  | nil => exact ⟨0, [], rfl, by simp⟩
  | cons c a ih =>
      by_cases here : c = blank
      · rcases ih with ⟨n, rest, rfl, ends⟩
        exact ⟨n + 1, rest, by rw [here, List.replicate_succ, List.cons_append], ends⟩
      · exact ⟨0, c :: a, rfl, by simpa using here⟩

/-- How many bytes are left of a line where each of its words begins. -/
def wordSizes : Bool → Text → List Nat
  | _, [] => []
  | inWord, c :: rest =>
      if Separates c then wordSizes false rest
      else if inWord then wordSizes true rest
      else (c :: rest).length :: wordSizes true rest

theorem wordSizes_inWord (plain : ∀ c ∈ w, ¬Separates c) (a : Text) :
    wordSizes true (w ++ a) = wordSizes true a := by
  induction w with
  | nil => rfl
  | cons c w ih =>
      rw [List.cons_append, wordSizes, if_neg (plain c List.mem_cons_self), if_pos rfl,
        ih fun d member => plain d (List.mem_cons_of_mem _ member)]

theorem wordSizes_word (nonempty : w ≠ []) (plain : ∀ c ∈ w, ¬Separates c) (a : Text) :
    wordSizes false (w ++ a) = (w ++ a).length :: wordSizes true a := by
  cases w with
  | nil => exact absurd rfl nonempty
  | cons c w =>
      rw [List.cons_append, wordSizes, if_neg (plain c List.mem_cons_self), if_neg Bool.false_ne_true,
        wordSizes_inWord fun d member => plain d (List.mem_cons_of_mem _ member)]

theorem wordSizes_separator (inWord : Bool) {c : Byte} (separates : Separates c) (a : Text) :
    wordSizes inWord (c :: a) = wordSizes false a := by
  rw [wordSizes, if_pos separates]

theorem wordSizes_blanks (n : Nat) (a : Text) :
    wordSizes false (List.replicate n blank ++ a) = wordSizes false a := by
  induction n with
  | zero => rfl
  | succ n ih => rw [List.replicate_succ, List.cons_append, wordSizes_separator _ (.inl rfl), ih]

/-- A line has one command more than signs of a pipe. -/
theorem commandsOf_length (a : Text) : (commandsOf a).length = a.count bar + 1 := by
  rw [commandsOf, List.length_map]
  induction a with
  | nil => simp
  | cons c a ih =>
      rw [List.splitOn_cons_eq_if_modifyHead]
      split
      · rename_i sign
        rw [List.length_cons, ih, eq_of_beq sign, List.count_cons_self]
      · rename_i other
        rw [List.length_modifyHead, ih, List.count_cons_of_ne]
        simpa using other

end Sbrocks.Sbush
