import Mathlib.Data.Nat.Find
import Sbrocks.Sbush.ParseCommand

/-!
# The loops over the line buffer

What the loops of the parser find in the buffer and what they change there.
-/

namespace Sbrocks.Sbush

open Process (Byte)

variable {line : Line} {s str src n m k x : Nat}

/-! ## `strlen` and `memset` -/

theorem strlenLoop_eq (string : ∀ j < m, line (s + j) ≠ 0) (ends : line (s + m) = 0)
    (room : m < n) : strlenLoop line s n = some m := by
  induction m generalizing s n with
  | zero =>
      cases n with
      | zero => omega
      | succ n => exact if_pos ends
  | succ m ih =>
      cases n with
      | zero => omega
      | succ n =>
          have here : line s ≠ 0 := string 0 (Nat.succ_pos m)
          have rest : strlenLoop line (s + 1) n = some m := by
            apply ih
            · intro j below
              rw [Nat.add_right_comm]
              exact string (j + 1) (Nat.succ_lt_succ below)
            · rw [Nat.add_right_comm]
              exact ends
            · omega
          rw [strlenLoop, if_neg here, rest]
          rfl

theorem strlen_eq (string : ∀ j < m, line (str + j) ≠ 0) (ends : line (str + m) = 0)
    (room : m < lineRounds) : strlen line str = some m :=
  strlenLoop_eq string ends room

/-- Up to a zero there is a string. -/
theorem exists_strlen (ends : line (str + k) = 0) (room : k < lineRounds) :
    ∃ m ≤ k, strlen line str = some m := by
  have some : ∃ j, line (str + j) = 0 := ⟨k, ends⟩
  have least : Nat.find some ≤ k := Nat.find_min' some ends
  exact ⟨Nat.find some, least,
    strlen_eq (fun j below => Nat.find_min some below) (Nat.find_spec some) (by omega)⟩

theorem clear_apply (n : Nat) :
    clear line str n x = if str ≤ x ∧ x < str + n then 0 else line x := by
  induction n generalizing line str with
  | zero =>
      rw [if_neg (by omega)]
      rfl
  | succ n ih =>
      rw [clear, ih]
      by_cases here : x = str
      · rw [here, if_neg (by omega), if_pos (by omega), Function.update_self]
      · rw [Function.update_of_ne here]
        by_cases inside : str + 1 ≤ x ∧ x < str + 1 + n
        · rw [if_pos inside, if_pos (by omega)]
        · rw [if_neg inside, if_neg (by omega)]

/-! ## `trim` -/

/-- The spaces that end a text are cut off. -/
theorem trimEnd_apply (spaces : ∀ j, src + m ≤ j → j < src + m + n → isSpace (line j) = true)
    (text : isSpace (line (src + m - 1)) = false) (positive : 0 < m) :
    trimEnd line src (src + m + n - 1) x =
      if src + m ≤ x ∧ x < src + m + n then 0 else line x := by
  induction n generalizing line with
  | zero =>
      rw [if_neg (by omega), Nat.add_zero]
      cases last : src + m - 1 with
      | zero => rfl
      | succ last' =>
          rw [last] at text
          rw [trimEnd, if_neg (by simp [text])]
  | succ n ih =>
      have here : isSpace (line (src + m + n)) = true := spaces _ (by omega) (by omega)
      have last : src + m + (n + 1) - 1 = (src + m + n - 1) + 1 := by omega
      have place : src + m + n - 1 + 1 = src + m + n := by omega
      rw [last, trimEnd, place, if_pos ⟨by omega, here⟩, ih]
      · by_cases same : x = src + m + n
        · rw [same, if_neg (by omega), if_pos (by omega), Function.update_self]
        · rw [Function.update_of_ne same]
          by_cases inside : src + m ≤ x ∧ x < src + m + n
          · rw [if_pos inside, if_pos (by omega)]
          · rw [if_neg inside, if_neg (by omega)]
      · intro j low high
        rw [Function.update_of_ne (by omega)]
        exact spaces j low (by omega)
      · rw [Function.update_of_ne (by omega)]
        exact text

theorem trimStart_eq (begins : isSpace (line s) = false) (room : 0 < n) :
    trimStart line s n = some s := by
  cases n with
  | zero => omega
  | succ n => rw [trimStart, if_neg (by simp [begins])]

theorem trimStart_spaces (spaces : ∀ j < m, isSpace (line (s + j)) = true)
    (ends : isSpace (line (s + m)) = false) (room : m < n) : trimStart line s n = some (s + m) := by
  induction m generalizing s n with
  | zero => exact trimStart_eq ends room
  | succ m ih =>
      cases n with
      | zero => omega
      | succ n =>
          have shift : ∀ j, s + 1 + j = s + (j + 1) := fun j => by omega
          have rest : trimStart line (s + 1) n = some (s + 1 + m) := by
            apply ih
            · intro j below
              rw [shift]
              exact spaces (j + 1) (Nat.succ_lt_succ below)
            · rw [shift]
              exact ends
            · omega
          have here : isSpace (line s) = true := spaces 0 (Nat.succ_pos m)
          rw [trimStart, if_pos here, rest, shift]

/-- A text that does not begin with a space is trimmed in its place. -/
theorem trim_eq (string : ∀ j < m + n, line (str + j) ≠ 0) (ends : line (str + (m + n)) = 0)
    (room : m + n < lineRounds) (begins : isSpace (line str) = false)
    (spaces : ∀ j, str + m ≤ j → j < str + m + n → isSpace (line j) = true)
    (text : isSpace (line (str + m - 1)) = false) (positive : 0 < m) :
    trim line str = some fun x => if str + m ≤ x ∧ x < str + m + n then 0 else line x := by
  have first : trimStart line str lineRounds = some str := trimStart_eq begins (by omega)
  have length := strlen_eq string ends room
  simp only [trim, first, length, Option.bind_eq_bind, Option.bind_some]
  rw [if_neg (by simp)]
  refine congrArg some (funext fun x => ?_)
  rw [← Nat.add_assoc]
  exact trimEnd_apply spaces text positive

/-- Nothing is trimmed of an empty string. -/
theorem trim_empty (ends : line str = 0) : trim line str = some line := by
  have begins : isSpace (line str) = false := by
    rw [ends]
    rfl
  have first : trimStart line str lineRounds = some str := trimStart_eq begins (by decide)
  have length : strlen line str = some 0 :=
    strlen_eq (fun j below => absurd below (Nat.not_lt_zero j)) ends (by decide)
  simp only [trim, first, length, Option.bind_eq_bind, Option.bind_some]
  rw [if_neg (by simp)]
  cases str with
  | zero => rfl
  | succ s =>
      change some (trimEnd line (s + 1) s) = some line
      cases s with
      | zero => rfl
      | succ s => rw [trimEnd, if_neg (by omega)]

/-- Of a blank line only the first byte is changed. -/
theorem trim_blanks (blanks : ∀ j < m, line j = blank) (ends : line m = 0) (positive : 0 < m)
    (room : m < lineRounds) : trim line 0 = some (Function.update line 0 0) := by
  have first : trimStart line 0 lineRounds = some m := by
    have found : trimStart line 0 lineRounds = some (0 + m) := by
      apply trimStart_spaces _ _ room
      · intro j below
        rw [Nat.zero_add, blanks j below]
        rfl
      · rw [Nat.zero_add, ends]
        rfl
    rw [found, Nat.zero_add]
  have length : strlen line m = some 0 :=
    strlen_eq (fun j below => absurd below (Nat.not_lt_zero j)) ends (by decide)
  have uncut : trimEnd line m (m + 0 - 1) = line := by
    cases m with
    | zero => omega
    | succ m =>
        cases m with
        | zero => rfl
        | succ m => exact if_neg (by omega)
  have moved : trimMove line 0 m lineRounds = some (Function.update line 0 0) := by
    have rounds : lineRounds = lineRounds - 1 + 1 := by decide
    rw [rounds, trimMove, ends]
    exact if_pos rfl
  simp only [trim, first, length, Option.bind_eq_bind, Option.bind_some, uncut,
    if_pos (Nat.ne_of_gt positive), moved]

/-! ## The loops over words and blanks -/

/-- How far the loop over a word goes. -/
theorem wordLength_spec (line : Line) (s n : Nat) :
    wordLength line s n ≤ n ∧
      (∀ j < wordLength line s n, line (s + j) ≠ blank ∧ line (s + j) ≠ bar) ∧
      (wordLength line s n = n ∨ line (s + wordLength line s n) = blank ∨
        line (s + wordLength line s n) = bar) := by
  induction n generalizing s with
  | zero => exact ⟨Nat.le_refl 0, fun j below => absurd below (Nat.not_lt_zero j), .inl rfl⟩
  | succ n ih =>
      rw [wordLength]
      split
      · rename_i plain
        rcases ih (s + 1) with ⟨within, rest, stops⟩
        generalize wordLength line (s + 1) n = k at within rest stops
        have shift : ∀ j, s + 1 + j = s + (j + 1) := fun j => by omega
        refine ⟨by omega, fun j below => ?_, ?_⟩
        · cases j with
          | zero => exact plain
          | succ j =>
              rw [← shift]
              exact rest j (by omega)
        · rw [shift] at stops
          exact stops.imp (congrArg (· + 1)) id
      · rename_i separates
        refine ⟨by omega, fun j below => absurd below (Nat.not_lt_zero j), .inr ?_⟩
        by_contra neither
        exact separates (not_or.mp neither)

/-- How far the loop over blanks goes. -/
theorem skipBlanks_spec (line : Line) (s n : Nat) :
    (skipBlanks line s n).2 ≤ n ∧
      (∀ j < (skipBlanks line s n).2, line (s + j) = blank) ∧
      ((skipBlanks line s n).2 = n ∨ line (s + (skipBlanks line s n).2) ≠ blank) ∧
      ∀ x, (skipBlanks line s n).1 x =
        if s ≤ x ∧ x < s + (skipBlanks line s n).2 then 0 else line x := by
  induction n generalizing line s with
  | zero =>
      refine ⟨Nat.le_refl 0, fun j below => absurd below (Nat.not_lt_zero j), .inl rfl, fun x => ?_⟩
      rw [if_neg (by simp only [skipBlanks]; omega)]
      rfl
  | succ n ih =>
      rw [skipBlanks]
      split
      · rename_i here
        rcases ih (Function.update line s 0) (s + 1) with ⟨within, rest, stops, cleared⟩
        generalize skipBlanks (Function.update line s 0) (s + 1) n = result at within rest stops cleared
        rcases result with ⟨line', k⟩
        dsimp only at within rest stops cleared ⊢
        have shift : ∀ j, s + 1 + j = s + (j + 1) := fun j => by omega
        refine ⟨by omega, fun j below => ?_, ?_, fun x => ?_⟩
        · cases j with
          | zero => exact here
          | succ j =>
              have found := rest j (by omega)
              rw [Function.update_of_ne (by omega), shift] at found
              exact found
        · rw [Function.update_of_ne (by omega), shift] at stops
          exact stops.imp (congrArg (· + 1)) id
        · rw [cleared]
          by_cases same : x = s
          · rw [same, if_neg (by omega), if_pos (by omega), Function.update_self]
          · rw [Function.update_of_ne same]
            by_cases inside : s + 1 ≤ x ∧ x < s + 1 + k
            · rw [if_pos inside, if_pos (by omega)]
            · rw [if_neg inside, if_neg (by omega)]
      · rename_i other
        refine ⟨by omega, fun j below => absurd below (Nat.not_lt_zero j), .inr other, fun x => ?_⟩
        rw [if_neg (by omega)]

/-- The loop over a word stops behind it. -/
theorem wordLength_eq (plain : ∀ j < m, line (s + j) ≠ blank ∧ line (s + j) ≠ bar)
    (ends : line (s + m) = blank ∨ line (s + m) = bar) (room : m ≤ n) : wordLength line s n = m := by
  rcases wordLength_spec line s n with ⟨short, passed, stops⟩
  rcases Nat.lt_trichotomy (wordLength line s n) m with less | same | more
  · have here := plain _ less
    rcases stops with all | stops | stops
    · omega
    · exact absurd stops here.1
    · exact absurd stops here.2
  · exact same
  · have here := passed m more
    exact absurd ends (not_or.mpr here)

/-- The loop over blanks stops behind them. -/
theorem skipBlanks_eq (blanks : ∀ j < m, line (s + j) = blank) (ends : line (s + m) ≠ blank)
    (room : m ≤ n) :
    (skipBlanks line s n).2 = m ∧
      ∀ x, (skipBlanks line s n).1 x = if s ≤ x ∧ x < s + m then 0 else line x := by
  rcases skipBlanks_spec line s n with ⟨short, passed, stops, cleared⟩
  have length : (skipBlanks line s n).2 = m := by
    rcases Nat.lt_trichotomy (skipBlanks line s n).2 m with less | same | more
    · have here := blanks _ less
      rcases stops with all | stops
      · omega
      · exact absurd here stops
    · exact same
    · exact absurd (passed m more) ends
  rw [length] at cleared
  exact ⟨length, cleared⟩

end Sbrocks.Sbush
