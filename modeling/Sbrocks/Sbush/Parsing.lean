import Mathlib.Data.List.DropRight
import Sbrocks.Sbush.Rounds

/-!
# What the parser makes of a line

The lines that `parseCommand` is known to parse exactly: the parser gets along with
the places of their blanks, tabs and signs of a pipe, with the bytes behind them, with
the table that the last line left and with the pages of the heap.
-/

namespace Sbrocks.Sbush

open Sbrocks.Libc Sbrocks.Process

/-- A buffer holds a line. -/
structure IsLine (line : Line) (text : Text) : Prop where
  nonzero : (0 : Byte) ∉ text
  short : text.length < maxLen
  content : ∀ j < text.length, line j = text.getD j 0
  ends : line text.length = 0

/-- The parser returns the number of commands, and the table has for each of them its words and
a final `NULL`. -/
def ParsesExactly (sh : Shell) (text : Text) : Prop :=
  ∃ sh', sh.parseCommand = .next (sh', (commandsOf text).length) ∧
    ∀ k ws, (commandsOf text)[k]? = some ws → k < maxCmd ∧ ws.length < maxArgCount ∧
      (∀ j w, ws[j]? = some w → Holds sh'.program (sh'.commands k j) w) ∧
      sh'.commands k ws.length = 0

/-- The line without the blanks at its end. -/
def core (text : Text) : Text := text.rdropWhile (· = blank)

/-- What the parser gets along with. -/
structure Suits (sh : Shell) (text : Text) : Prop where
  /-- A line that begins with a blank has nothing else. -/
  begins : ∀ c, text.head? = some c → isSpace c = true → ∀ d ∈ text, d = blank
  /-- Blanks apart, it does not end in a tab or a new line. -/
  ending : ∀ c, (core text).getLast? = some c → isSpace c = false
  /-- Right behind a sign of a pipe there is a blank. -/
  pipes : ∀ c, [bar, c] <:+: text → c = blank
  /-- No word begins with a tab or a new line. -/
  starts : ∀ c, [blank, c] <:+: text → isSpace c = true → c = blank
  /-- What is behind the line says nothing. -/
  trailing : Trailing sh.line text.length (text.count bar)
  /-- The commands fit into the table, which has a `NULL` where each of them ends. -/
  table : ∀ k ws, (commandsOf text)[k]? = some ws →
    k < maxCmd ∧ ws.length < maxArgCount ∧ sh.commands k ws.length = 0
  /-- The last page of the heap takes the 1024 bytes that are cleared for each word. -/
  fits : FitsAll sh.program.kernel.brkEnd.toNat (wordSizes false (core text))

variable {sh : Shell} {text : Text} {start : Word} {live : List (Word × Word)}

/-- Behind its last byte that is not a blank a line has blanks. -/
theorem core_blanks (text : Text) : ∃ n, text = core text ++ List.replicate n blank := by
  refine ⟨(text.rtakeWhile (· = blank)).length, ?_⟩
  have blanks : text.rtakeWhile (· = blank) =
      List.replicate (text.rtakeWhile (· = blank)).length blank := by
    apply List.eq_replicate_of_mem
    intro c member
    simpa using List.mem_rtakeWhile_imp member
  rw [← blanks]
  exact (List.rdropWhile_append_rtakeWhile ..).symm

theorem Suits.readable (suits : Suits sh text) (line : IsLine sh.line text) :
    Readable text (core text) :=
  ⟨core_blanks text, line.nonzero, line.short, suits.ending, suits.pipes, suits.starts⟩

/-- The first round of a line that has a word or a sign of a pipe. -/
theorem Suits.head (suits : Suits sh text) (line : IsLine sh.line text)
    (busy : Busy start sh.program live) (more : core text ≠ []) :
    Head sh text (core text) start [] (core text) [] [] live { sh with cmdcount := 0 }
      ⟨0, 0, none, 0⟩ := by
  rcases core_blanks text with ⟨n, split⟩
  have lengths : text.length = (core text).length + n := by
    have := congrArg List.length split
    rw [List.length_append, List.length_replicate] at this
    exact this
  have spaces : ∀ c : Text, text = c ++ List.replicate n blank → ∀ j < n,
      text.getD (c.length + j) 0 = blank := by
    rintro c rfl j below
    rw [List.getD_append_right _ _ _ _ (by omega), Nat.add_sub_cancel_left,
      List.getD_replicate _ below]
  exact {
    split := rfl
    read := Read.start
    begins := by
      intro c found
      cases space : isSpace c with
      | false => rfl
      | true =>
          have first : text.head? = some c := by
            rw [split, List.head?_append_of_ne_nil _ more]
            exact found
          have last := suits.ending _ (List.getLast?_eq_some_getLast more)
          have member : (core text).getLast more ∈ text :=
            List.IsPrefix.subset ⟨_, split.symm⟩ (List.getLast_mem more)
          rw [suits.begins c first space _ member] at last
          cases last
    src := rfl
    lag := rfl
    row := rfl
    arg := rfl
    erased := fun str last => by cases last
    left := by
      refine ⟨fun j below => ?_, ⟨n, by omega, fun j below => ?_, fun x low high => ?_⟩,
        fun begun => absurd rfl begun, fun x far => rfl⟩
      · have inside : j < text.length := by omega
        change sh.line (0 + j) = _
        rw [Nat.zero_add, line.content j inside]
        conv_lhs => rw [split]
        exact List.getD_append _ _ _ _ below
      · have inside : (core text).length + j < text.length := by omega
        exact (line.content _ inside).trans (spaces _ split j below)
      · have last : x = text.length := by omega
        rw [last]
        exact line.ends
    busy := busy
    fits := suits.fits
    table := fun k j => by
      have none : wordAt ([] ++ [[]]) k j = none := by
        rw [wordAt_append_nil]
        rfl
      rw [none] }

/-- A table that is filled for a line has its words, with a `NULL` behind them. -/
theorem Suits.filled (suits : Suits sh text) {sh' : Shell}
    (filled : Filled (commandsOf text) sh.commands sh') :
    ∀ k ws, (commandsOf text)[k]? = some ws → k < maxCmd ∧ ws.length < maxArgCount ∧
      (∀ j w, ws[j]? = some w → Holds sh'.program (sh'.commands k j) w) ∧
      sh'.commands k ws.length = 0 := by
  intro k ws command
  rcases suits.table k ws command with ⟨row, arg, null⟩
  have entries : ∀ j, wordAt (commandsOf text) k j = ws[j]? := by
    intro j
    rw [wordAt, List.getD_eq_getElem?_getD, command]
    rfl
  refine ⟨row, arg, fun j w word => ?_, ?_⟩
  · have entry := filled k j
    rw [entries, word] at entry
    exact entry
  · have entry := filled k ws.length
    rw [entries, List.getElem?_eq_none (Nat.le_refl _)] at entry
    exact entry.trans null

/-- The loop over blanks goes nowhere from another byte. -/
theorem skipBlanks_none {line : Line} {s : Nat} (other : line s ≠ blank) (n : Nat) :
    skipBlanks line s n = (line, 0) := by
  cases n with
  | zero => rfl
  | succ n => rw [skipBlanks, if_neg other]

/-- The first round of a blank line clears its first byte. -/
theorem parseRound_blanks {n : Nat} (content : ∀ x < n, sh.line x = blank) (ends : sh.line n = 0)
    (positive : 0 < n) (room : n < lineRounds) :
    sh.parseRound n ⟨0, 0, none, 0⟩ =
      .next ({ sh with line := Function.update sh.line 0 0 }, ⟨0, 0, some 0, 0⟩) := by
  have trimmed := trim_blanks content ends positive room
  have zero : Function.update sh.line 0 0 0 = 0 := Function.update_self ..
  have size : strlen (Function.update sh.line 0 0) 0 = some 0 :=
    strlen_eq (fun j below => absurd below (Nat.not_lt_zero j)) zero (by decide)
  have first : sh.line 0 = blank := content 0 positive
  have counted : wordLength sh.line 0 (n - 0) = 0 :=
    wordLength_eq (fun j below => absurd below (Nat.not_lt_zero j)) (.inl first) (Nat.zero_le _)
  have unpiped : sh.line (0 + 0) ≠ bar := by
    rw [Nat.add_zero, first]
    decide
  have added : Shell.addWord { sh with line := sh.line } 0 0 0 =
      .next ({ sh with line := Function.update sh.line 0 0 }, 0) :=
    addWord_empty trimmed size (by omega)
  have erased : eraseLast sh.line (Cursor.mk 0 0 none 0).str = some sh.line := rfl
  have ran := parseRound_plain erased counted unpiped added
  have other : Function.update sh.line 0 0 (0 + 0) ≠ blank := by
    rw [Nat.add_zero, zero]
    decide
  dsimp only at ran
  rw [skipBlanks_none other] at ran
  exact ran

/-- A blank line has a command without words, and the parser leaves the table alone. -/
theorem parseLoop_blanks (line : IsLine sh.line text) {n : Nat} (blanks : text = List.replicate n blank) :
    ∃ sh', Shell.parseLoop { sh with cmdcount := 0 } text.length ⟨0, 0, none, 0⟩ lineRounds =
        .next sh' ∧ Head.Parsed sh text sh' := by
  have unpiped : bar ∉ text := by
    rw [blanks]
    intro member
    cases List.eq_of_mem_replicate member
  have commands : commandsOf text = [[]] := by
    have none : words text = [] := by
      rw [blanks, ← List.nil_append (List.replicate n blank), words_blanks, words_nil]
    rw [commandsOf_segment unpiped, none]
  have parsed : ∀ line', Head.Parsed sh text { sh with line := line', cmdcount := 0 } := by
    intro line'
    unfold Head.Parsed
    rw [commands]
    refine ⟨rfl, fun k j => ?_⟩
    have none : wordAt ([] ++ [[]]) k j = none := by
      rw [wordAt_append_nil]
      rfl
    rw [List.nil_append] at none
    rw [none]
  have bound : text.length < 1024 := line.short
  have room : text.length < lineRounds := by
    unfold lineRounds
    omega
  have length : text.length = n := by rw [blanks, List.length_replicate]
  have content : ∀ x < text.length, sh.line x = blank := by
    intro x below
    rw [line.content x below, blanks, List.getD_replicate _ (by omega)]
  have rounds : lineRounds = lineRounds - 1 + 1 := by decide
  rw [rounds, Shell.parseLoop]
  by_cases positive : 0 < text.length
  · have ran := @parseRound_blanks { sh with cmdcount := 0 } _ content line.ends positive room
    have byte : ∀ x, 0 < x → Function.update sh.line 0 0 x = sh.line x := fun x some =>
      Function.update_of_ne (by omega) ..
    have behind : Behind (Function.update sh.line 0 0) text.length ⟨0, 0, some 0, 0⟩ := by
      refine ⟨fun _ => ⟨fun x low high sign => ?_, fun x low high _ => ?_⟩,
        fun _ => Function.update_self .., ?_⟩
      · rcases Nat.eq_zero_or_pos x with rfl | some
        · rw [Function.update_self] at sign
          cases sign
        · rw [byte x some] at sign
          rcases Nat.lt_or_ge x text.length with inside | last
          · rw [content x inside] at sign
            cases sign
          · rw [show x = text.length by dsimp only at high; omega, line.ends] at sign
            cases sign
      · left
        rw [byte _ (Nat.succ_pos x)]
        exact content _ (by dsimp only at high; omega)
      · rintro str ⟨⟩
        exact ⟨0, Nat.le_refl _, Nat.le_refl _, Function.update_self ..⟩
    rcases @Behind.parseLoop { sh with line := Function.update sh.line 0 0, cmdcount := 0 } _ _ behind
      (by dsimp only; omega) (lineRounds - 1) (by unfold lineRounds; omega) with ⟨line', looped⟩
    refine ⟨_, ?_, parsed line'⟩
    rw [if_pos positive, ran, Flow.next_bind]
    exact looped
  · exact ⟨{ sh with cmdcount := 0 }, if_neg positive, parsed sh.line⟩

/-- A shell that was just started, with a line in a buffer of zeros. -/
def started (text : Text) : Shell := ⟨Program.fresh, fun j => text.getD j 0, fun _ _ => 0, 0⟩

/-- The line `ls`. -/
def ls : Text := [0x6C, 0x73]

theorem isLine_started (nonzero : (0 : Byte) ∉ text) (short : text.length < maxLen) :
    IsLine (started text).line text :=
  ⟨nonzero, short, fun _ _ => rfl, List.getD_eq_default _ _ (Nat.le_refl _)⟩

theorem suits_ls : Suits (started ls) ls := by
  have whole : core ls = ls := by decide
  have unpiped : ls.count bar = 0 := by decide
  have commands : commandsOf ls = [[ls]] := by decide
  refine ⟨fun c first space => ?_, fun c last => ?_, fun c pair => ?_, fun c pair => ?_, ?_, ?_, ?_⟩
  · cases first
    cases space
  · rw [whole] at last
    cases last
    rfl
  · have member : bar ∈ ls := pair.subset List.mem_cons_self
    exact absurd member (by decide)
  · have member : blank ∈ ls := pair.subset List.mem_cons_self
    exact absurd member (by decide)
  · rw [unpiped]
    refine ⟨rfl, fun x low high => ?_, fun x low high => ?_⟩
    · omega
    · omega
  · intro k ws command
    rw [commands] at command
    rcases k with _ | k
    · cases command
      exact ⟨by decide, by decide, rfl⟩
    · cases command
  · rw [whole]
    exact ⟨⟨by decide, by decide⟩, trivial⟩

end Sbrocks.Sbush
