import Mathlib.Data.List.DropRight
import Mathlib.Data.List.GetD
import Sbrocks.Sbush.Buffer
import Sbrocks.Sbush.Words

/-!
# Trimming

What `trim` leaves of any string.  The loops are also followed with every access
checked, so that a byte outside the string is neither read nor written.
-/

namespace Sbrocks.Sbush

open Process (Byte)

variable {line : Line} {text lead mid trail : Text} {str src dst n m lo hi x : Nat}

/-! ## Texts -/

/-- A text without the spaces around it. -/
def trimmed (text : Text) : Text := (text.dropWhile isSpace).rdropWhile isSpace

/-- A text stands in a buffer as a string. -/
structure Stands (line : Line) (str : Nat) (text : Text) : Prop where
  string : ∀ c ∈ text, c ≠ 0
  bytes : ∀ i ≤ text.length, line (str + i) = text.getD i 0

namespace Stands

theorem ne_zero (stands : Stands line str text) {j : Nat} (inside : j < text.length) :
    line (str + j) ≠ 0 := by
  rw [stands.bytes j inside.le, List.getD_eq_getElem _ _ inside]
  exact stands.string _ (List.getElem_mem inside)

theorem ends (stands : Stands line str text) : line (str + text.length) = 0 := by
  rw [stands.bytes _ (Nat.le_refl _), List.getD_eq_default _ _ (Nat.le_refl _)]

end Stands

/-- A text is what is left of it, and spaces around. -/
theorem exists_around (text : Text) : ∃ lead trail, text = lead ++ trimmed text ++ trail ∧
    (∀ c ∈ lead, isSpace c = true) ∧ (∀ c ∈ trail, isSpace c = true) := by
  refine ⟨text.takeWhile isSpace, (text.dropWhile isSpace).rtakeWhile isSpace, ?_, ?_, ?_⟩
  · rw [trimmed, List.append_assoc, List.rdropWhile_append_rtakeWhile,
      List.takeWhile_append_dropWhile]
  · intro c member
    exact List.mem_takeWhile_imp member
  · intro c member
    exact List.mem_rtakeWhile_imp member

/-- What is left begins with no space. -/
theorem trimmed_begins (nonempty : trimmed text ≠ []) :
    isSpace ((trimmed text).getD 0 0) = false := by
  obtain ⟨trail, rest⟩ := List.rdropWhile_prefix isSpace (text.dropWhile isSpace)
  have positive : 0 < (trimmed text).length := List.length_pos_iff.mpr nonempty
  have some : 0 < (text.dropWhile isSpace).length := by
    rw [← rest, List.length_append]
    exact Nat.add_pos_left positive _
  have first := List.dropWhile_get_zero_not isSpace text some
  have same : (text.dropWhile isSpace).getD 0 0 = (trimmed text).getD 0 0 := by
    conv_lhs => rw [← rest]
    exact List.getD_append _ _ _ _ positive
  rw [← same, List.getD_eq_getElem _ _ some]
  simpa using first

/-- What is left ends with no space. -/
theorem trimmed_lasts (nonempty : trimmed text ≠ []) :
    isSpace ((trimmed text).getD ((trimmed text).length - 1) 0) = false := by
  have last := List.rdropWhile_last_not isSpace (text.dropWhile isSpace) nonempty
  rw [List.getD_eq_getElem _ _ (by have := List.length_pos_iff.mpr nonempty; omega),
    ← List.getLast_eq_getElem nonempty]
  exact Bool.eq_false_iff.mpr last

theorem trimmed_trimmed (text : Text) : trimmed (trimmed text) = trimmed text := by
  have same : (trimmed text).dropWhile isSpace = trimmed text := by
    rw [List.dropWhile_eq_self_iff]
    intro positive
    have first := trimmed_begins (List.length_pos_iff.mp positive)
    rw [List.getD_eq_getElem _ _ positive] at first
    exact Bool.eq_false_iff.mp first
  rw [trimmed, same, trimmed, List.rdropWhile_idempotent]

/-! ## The loops -/

/-- The last loop of `trim` moves a string down. -/
theorem trimMove_apply (before : dst < src) (string : ∀ j < m, line (src + j) ≠ 0)
    (ends : line (src + m) = 0) (room : m < n) :
    trimMove line dst src n = some fun x =>
      if dst ≤ x ∧ x ≤ dst + m then line (src + (x - dst)) else line x := by
  obtain ⟨n, rfl⟩ := Nat.exists_eq_succ_of_ne_zero (Nat.ne_of_gt (Nat.zero_lt_of_lt room))
  induction m generalizing line dst src n with
  | zero =>
      rw [trimMove, if_pos (show line src = 0 from ends)]
      refine congrArg some (funext fun x => ?_)
      by_cases here : x = dst
      · rw [here, Function.update_self, if_pos (by omega), Nat.sub_self]
        rfl
      · rw [Function.update_of_ne here, if_neg (by omega)]
  | succ m ih =>
      have more : line src ≠ 0 := string 0 (Nat.succ_pos m)
      have apart : ∀ j, Function.update line dst (line src) (src + 1 + j) = line (src + (j + 1)) := by
        intro j
        rw [Function.update_of_ne (by omega), Nat.add_right_comm]
        rfl
      obtain ⟨n, rfl⟩ := Nat.exists_eq_succ_of_ne_zero (show n ≠ 0 by omega)
      rw [trimMove, if_neg more, ih (by omega) _ _ _ (by omega)]
      · refine congrArg some (funext fun x => ?_)
        by_cases here : x = dst
        · rw [here, if_neg (by omega), if_pos (by omega), Function.update_self, Nat.sub_self]
          rfl
        · by_cases inside : dst + 1 ≤ x ∧ x ≤ dst + 1 + m
          · rw [if_pos inside, if_pos (by omega), apart]
            congr 1
            omega
          · rw [if_neg inside, if_neg (by omega), Function.update_of_ne here]
      · intro j below
        rw [apart]
        exact string (j + 1) (by omega)
      · rw [apart]
        exact ends

/-- A buffer without the spaces that end a text of it. -/
def cutOff (line : Line) (first count x : Nat) : Byte :=
  if first ≤ x ∧ x < first + count then 0 else line x

namespace Stands

variable (stands : Stands line str (lead ++ mid ++ trail))
include stands

theorem lead_apply {j : Nat} (inside : j < lead.length) : line (str + j) ∈ lead := by
  rw [stands.bytes j (by simp; omega), List.append_assoc, List.getD_append _ _ _ _ inside,
    List.getD_eq_getElem _ _ inside]
  exact List.getElem_mem inside

theorem mid_apply {j : Nat} (inside : j < mid.length) :
    line (str + lead.length + j) = mid.getD j 0 := by
  rw [Nat.add_assoc, stands.bytes _ (by simp; omega), List.append_assoc,
    List.getD_append_right _ _ _ _ (by omega), Nat.add_sub_cancel_left,
    List.getD_append _ _ _ _ inside]

theorem trail_apply {j : Nat} (inside : j < trail.length) :
    line (str + lead.length + mid.length + j) ∈ trail := by
  rw [Nat.add_assoc str, Nat.add_assoc str, stands.bytes _ (by simp; omega),
    List.getD_append_right _ _ _ _ (by simp), List.length_append, Nat.add_sub_cancel_left,
    List.getD_eq_getElem _ _ inside]
  exact List.getElem_mem inside

end Stands

/-- What `trim` makes of a buffer in which a text stands between spaces. -/
theorem trim_around (stands : Stands line str (lead ++ mid ++ trail)) (nonempty : mid ≠ [])
    (leads : ∀ c ∈ lead, isSpace c = true) (trails : ∀ c ∈ trail, isSpace c = true)
    (begins : isSpace (mid.getD 0 0) = false)
    (lasts : isSpace (mid.getD (mid.length - 1) 0) = false)
    (room : (lead ++ mid ++ trail).length < lineRounds) :
    trim line str = some fun x => cutOff line (str + lead.length + mid.length) trail.length
      (if str ≤ x ∧ x ≤ str + mid.length then x + lead.length else x) := by
  have positive : 0 < mid.length := List.length_pos_iff.mpr nonempty
  have lengths : (lead ++ mid ++ trail).length = lead.length + mid.length + trail.length := by
    simp [Nat.add_assoc]
  have start : trimStart line str lineRounds = some (str + lead.length) := by
    apply trimStart_spaces _ _ (by omega)
    · intro j inside
      exact leads _ (stands.lead_apply inside)
    · have first := stands.mid_apply positive
      rw [Nat.add_zero] at first
      rw [first, begins]
  have length : strlen line (str + lead.length) = some (mid.length + trail.length) := by
    apply strlen_eq _ _ (by omega)
    · intro j inside
      rw [Nat.add_assoc]
      exact stands.ne_zero (by omega)
    · rw [← stands.ends, lengths, Nat.add_assoc, Nat.add_assoc]
  have cut : trimEnd line (str + lead.length) (str + lead.length + (mid.length + trail.length) - 1) =
      cutOff line (str + lead.length + mid.length) trail.length := by
    funext x
    rw [← Nat.add_assoc]
    apply trimEnd_apply _ _ positive
    · intro j low high
      have place : j = str + lead.length + mid.length + (j - (str + lead.length + mid.length)) := by
        omega
      rw [place]
      exact trails _ (stands.trail_apply (by omega))
    · rw [Nat.add_sub_assoc positive, stands.mid_apply (by omega), lasts]
  simp only [trim, start, length, Option.bind_eq_bind, Option.bind_some, cut]
  split
  · rename_i moved
    have below : str < str + lead.length := by omega
    rw [trimMove_apply below (m := mid.length) _ _ (by omega)]
    · refine congrArg some (funext fun x => ?_)
      split
      · congr 1
        omega
      · rfl
    · intro j inside
      rw [cutOff, if_neg (by omega), Nat.add_assoc]
      exact stands.ne_zero (by omega)
    · by_cases ended : 0 < trail.length
      · rw [cutOff, if_pos (by omega)]
      · rw [cutOff, if_neg (by omega), ← stands.ends, lengths]
        congr 1
        omega
  · rename_i still
    have none : lead.length = 0 := by omega
    refine congrArg some (funext fun x => ?_)
    rw [none]
    simp

/-- Of spaces alone the first is overwritten. -/
theorem trim_spaces (stands : Stands line str text) (spaces : ∀ c ∈ text, isSpace c = true)
    (room : text.length < lineRounds) : trim line str = some (Function.update line str 0) := by
  have ends := stands.ends
  have start : trimStart line str lineRounds = some (str + text.length) := by
    apply trimStart_spaces _ _ room
    · intro j inside
      have here := stands.bytes j inside.le
      rw [List.getD_eq_getElem _ _ inside] at here
      rw [here]
      exact spaces _ (List.getElem_mem inside)
    · rw [ends]
      rfl
  have length : strlen line (str + text.length) = some 0 :=
    strlen_eq (fun j below => absurd below (Nat.not_lt_zero j)) ends (by decide)
  have uncut : trimEnd line (str + text.length) (str + text.length + 0 - 1) = line := by
    cases last : str + text.length + 0 - 1 with
    | zero => rfl
    | succ last => exact if_neg (by omega)
  simp only [trim, start, length, Option.bind_eq_bind, Option.bind_some, uncut]
  split
  · have rounds : lineRounds = lineRounds - 1 + 1 := by decide
    rw [rounds, trimMove, ends, if_pos rfl]
  · rename_i still
    have zero : line str = 0 := by
      rw [← ends]
      congr 1
      omega
    rw [← zero, Function.update_eq_self]

/-- `trim` leaves the trimmed text, and the bytes around the string. -/
theorem trim_text (stands : Stands line str text) (room : text.length < lineRounds) :
    ∃ line', trim line str = some line' ∧ Stands line' str (trimmed text) ∧
      ∀ x, x < str ∨ str + text.length < x → line' x = line x := by
  obtain ⟨lead, trail, around, leads, trails⟩ := exists_around text
  by_cases nothing : trimmed text = []
  · have spaces : ∀ c ∈ text, isSpace c = true := by
      intro c member
      rw [around, nothing, List.append_nil] at member
      exact (List.mem_append.mp member).elim (leads c) (trails c)
    refine ⟨_, trim_spaces stands spaces room, ⟨?_, ?_⟩, ?_⟩
    · rw [nothing]
      intro c member
      exact absurd member List.not_mem_nil
    · rw [nothing]
      intro i inside
      rw [Nat.le_zero.mp inside]
      exact Function.update_self ..
    · intro x outside
      exact Function.update_of_ne (by omega) ..
  · have whole := stands
    rw [around] at whole
    have lengths : text.length = lead.length + (trimmed text).length + trail.length := by
      conv_lhs => rw [around]
      simp [Nat.add_assoc]
    refine ⟨_, trim_around whole nothing leads trails (trimmed_begins nothing)
      (trimmed_lasts nothing) (around ▸ room), ⟨?_, ?_⟩, ?_⟩
    · intro c member
      exact stands.string c (around ▸ by simp [member])
    · intro i inside
      rw [if_pos (by omega)]
      by_cases last : i < (trimmed text).length
      · rw [cutOff, if_neg (by omega), ← whole.mid_apply last]
        congr 1
        omega
      · rw [List.getD_eq_default _ _ (Nat.le_of_not_lt last)]
        by_cases ended : 0 < trail.length
        · rw [cutOff, if_pos (by omega)]
        · rw [cutOff, if_neg (by omega), ← stands.ends, lengths]
          congr 1
          omega
    · intro x outside
      rw [if_neg (by omega), cutOff, if_neg (by omega)]

/-- A text without spaces around it is left as it is. -/
theorem trim_self (stands : Stands line str text) (clean : trimmed text = text)
    (room : text.length < lineRounds) : trim line str = some line := by
  by_cases empty : text = []
  · subst empty
    exact trim_empty stands.ends
  · rw [← clean] at empty
    have begins := trimmed_begins empty
    have lasts := trimmed_lasts empty
    rw [clean] at empty begins lasts
    have alone : Stands line str ([] ++ text ++ []) := by simpa using stands
    rw [trim_around alone empty (fun c member => absurd member List.not_mem_nil)
      (fun c member => absurd member List.not_mem_nil) begins lasts (by simpa using room)]
    refine congrArg some (funext fun x => ?_)
    change cutOff line (str + 0 + text.length) 0
      (if str ≤ x ∧ x ≤ str + text.length then x else x) = line x
    rw [ite_self, cutOff, if_neg (by omega)]

/-! ## Accesses -/

/-- Read a byte between two places. -/
def readIn (lo hi : Nat) (line : Line) (x : Nat) : Option Byte :=
  if lo ≤ x ∧ x ≤ hi then some (line x) else none

/-- Write a byte between two places. -/
def writeIn (lo hi : Nat) (line : Line) (x : Nat) (c : Byte) : Option Line :=
  if lo ≤ x ∧ x ≤ hi then some (Function.update line x c) else none

/-- `trimStart`, with its accesses checked. -/
def trimStartIn (lo hi : Nat) (line : Line) (src : Nat) : Nat → Option Nat
  | 0 => none
  | n + 1 => do
      let c ← readIn lo hi line src
      if isSpace c then trimStartIn lo hi line (src + 1) n else some src

/-- `strlenLoop`, with its accesses checked. -/
def strlenIn (lo hi : Nat) (line : Line) (s : Nat) : Nat → Option Nat
  | 0 => none
  | n + 1 => do
      let c ← readIn lo hi line s
      if c = 0 then some 0 else (strlenIn lo hi line (s + 1) n).map (· + 1)

/-- `trimEnd`, with its accesses checked; the pointer before the text is only compared. -/
def trimEndIn (lo hi : Nat) (line : Line) (src : Nat) : Nat → Option Line
  | 0 => some line
  | last + 1 =>
      if last + 1 > src then do
        let c ← readIn lo hi line (last + 1)
        if isSpace c then do
          let line ← writeIn lo hi line (last + 1) 0
          trimEndIn lo hi line src last
        else some line
      else some line

/-- `trimMove`, with its accesses checked. -/
def trimMoveIn (lo hi : Nat) (line : Line) (dst src : Nat) : Nat → Option Line
  | 0 => none
  | n + 1 => do
      let c ← readIn lo hi line src
      let moved ← writeIn lo hi line dst c
      if c = 0 then some moved else trimMoveIn lo hi moved (dst + 1) (src + 1) n

/-- `trim`, with its accesses checked. -/
def trimIn (lo hi : Nat) (line : Line) (input : Nat) : Option Line := do
  let src ← trimStartIn lo hi line input lineRounds
  let length ← strlenIn lo hi line src lineRounds
  let cut ← trimEndIn lo hi line src (src + length - 1)
  if src ≠ input then trimMoveIn lo hi cut input src lineRounds else some cut

section

theorem readIn_eq (low : lo ≤ x) (high : x ≤ hi) : readIn lo hi line x = some (line x) :=
  if_pos ⟨low, high⟩

theorem writeIn_eq (low : lo ≤ x) (high : x ≤ hi) (c : Byte) :
    writeIn lo hi line x c = some (Function.update line x c) :=
  if_pos ⟨low, high⟩

/-- A place whose byte is not zero is before the terminator. -/
theorem lt_of_ne_zero (zero : line hi = 0) (high : x ≤ hi) (more : line x ≠ 0) : x < hi := by
  apply Nat.lt_of_le_of_ne high
  rintro rfl
  exact more zero

theorem trimStartIn_eq (zero : line hi = 0) (low : lo ≤ src) (high : src ≤ hi) (n : Nat) :
    trimStartIn lo hi line src n = trimStart line src n := by
  induction n generalizing src with
  | zero => rfl
  | succ n ih =>
      rw [trimStartIn, trimStart, readIn_eq low high, Option.bind_eq_bind, Option.bind_some]
      split
      · rename_i space
        have more : line src ≠ 0 := by
          intro ended
          rw [ended] at space
          exact absurd space (by decide)
        exact ih (low.trans (Nat.le_succ _)) (lt_of_ne_zero zero high more)
      · rfl

theorem trimStart_le (zero : line hi = 0) (high : src ≤ hi) {n src' : Nat}
    (found : trimStart line src n = some src') : src ≤ src' ∧ src' ≤ hi := by
  induction n generalizing src with
  | zero => cases found
  | succ n ih =>
      rw [trimStart] at found
      split at found
      · rename_i space
        have more : line src ≠ 0 := by
          intro ended
          rw [ended] at space
          exact absurd space (by decide)
        have rest := ih (lt_of_ne_zero zero high more) found
        exact ⟨(Nat.le_succ _).trans rest.1, rest.2⟩
      · cases found
        exact ⟨Nat.le_refl _, high⟩

theorem strlenIn_eq (zero : line hi = 0) (low : lo ≤ s) (high : s ≤ hi) (n : Nat) :
    strlenIn lo hi line s n = strlenLoop line s n := by
  induction n generalizing s with
  | zero => rfl
  | succ n ih =>
      rw [strlenIn, strlenLoop, readIn_eq low high, Option.bind_eq_bind, Option.bind_some]
      split
      · rfl
      · rename_i more
        rw [ih (low.trans (Nat.le_succ _)) (lt_of_ne_zero zero high more)]

theorem trimEndIn_eq (low : lo ≤ src) {last : Nat} (high : last ≤ hi) :
    trimEndIn lo hi line src last = some (trimEnd line src last) := by
  induction last generalizing line with
  | zero => rfl
  | succ last ih =>
      rw [trimEndIn, trimEnd]
      by_cases behind : last + 1 > src
      · rw [if_pos behind, readIn_eq (by omega) high, Option.bind_eq_bind, Option.bind_some]
        by_cases space : isSpace (line (last + 1)) = true
        · rw [if_pos space, if_pos ⟨behind, space⟩, writeIn_eq (by omega) high]
          exact ih (by omega)
        · rw [if_neg space, if_neg fun both => space both.2]
      · rw [if_neg behind, if_neg fun both => behind both.1]

/-- Cutting spaces off leaves zeros. -/
theorem trimEnd_zero (zero : line x = 0) (src last : Nat) : trimEnd line src last x = 0 := by
  induction last generalizing line with
  | zero => exact zero
  | succ last ih =>
      rw [trimEnd]
      split
      · apply ih
        by_cases here : x = last + 1
        · rw [here, Function.update_self]
        · rw [Function.update_of_ne here, zero]
      · exact zero

theorem trimMoveIn_eq (zero : line hi = 0) (low : lo ≤ dst) (before : dst < src) (high : src ≤ hi)
    (n : Nat) : trimMoveIn lo hi line dst src n = trimMove line dst src n := by
  induction n generalizing line dst src with
  | zero => rfl
  | succ n ih =>
      rw [trimMoveIn, trimMove, readIn_eq (by omega) high, Option.bind_eq_bind, Option.bind_some,
        writeIn_eq low (by omega), Option.bind_eq_bind, Option.bind_some]
      split
      · rfl
      · rename_i more
        apply ih _ (by omega) (by omega) (lt_of_ne_zero zero high more)
        rw [Function.update_of_ne (by omega), zero]

end

/-- No access of `trim` is outside the string. -/
theorem trimIn_eq (stands : Stands line str text) (room : text.length < lineRounds) :
    trimIn str (str + text.length) line str = trim line str := by
  have zero := stands.ends
  have inside : str ≤ str + text.length := Nat.le_add_right _ _
  unfold trimIn trim
  rw [trimStartIn_eq zero (Nat.le_refl _) inside]
  cases start : trimStart line str lineRounds with
  | none => rfl
  | some src =>
      have within := trimStart_le zero inside start
      simp only [Option.bind_eq_bind, Option.bind_some]
      rw [strlenIn_eq zero within.1 within.2]
      obtain ⟨m, short, length⟩ : ∃ m ≤ str + text.length - src, strlen line src = some m := by
        apply exists_strlen
        · rw [← zero]
          congr 1
          omega
        · omega
      have length' : strlenLoop line src lineRounds = some m := length
      rw [length', length]
      simp only [Option.bind_some]
      rw [trimEndIn_eq within.1 (by omega), Option.bind_some]
      split
      · exact trimMoveIn_eq (trimEnd_zero zero _ _) (Nat.le_refl _) (by omega) within.2 _
      · rfl

/-- `trim` strips the spaces around a string, and nothing else: its accesses are inside the string,
what it leaves is the trimmed text, and a second call changes nothing. -/
theorem trim_exact (stands : Stands line str text) (room : text.length < lineRounds) :
    ∃ line', trimIn str (str + text.length) line str = some line' ∧
      trim line str = some line' ∧ Stands line' str (trimmed text) ∧
      (∀ x, x < str ∨ str + text.length < x → line' x = line x) ∧ trim line' str = some line' := by
  obtain ⟨line', done, left, others⟩ := trim_text stands room
  refine ⟨line', by rw [trimIn_eq stands room, done], done, left, others, ?_⟩
  have shorter : (trimmed text).length ≤ text.length := by
    obtain ⟨lead, trail, around, _⟩ := exists_around text
    conv_rhs => rw [around]
    simp
    omega
  exact trim_self left (trimmed_trimmed text) (by omega)

/-- The characters of `" a b\t"` stand in their own buffer. -/
theorem trim_exact_word :
    ∃ line', trimIn 0 5 (fun x => [0x20, 0x61, 0x20, 0x62, 0x09].getD x 0) 0 = some line' ∧
      Stands line' 0 [0x61, 0x20, 0x62] := by
  have stands : Stands (fun x => [0x20, 0x61, 0x20, 0x62, 0x09].getD x 0) 0
      [0x20, 0x61, 0x20, 0x62, 0x09] := by
    refine ⟨by decide, fun i _ => ?_⟩
    rw [Nat.zero_add]
  obtain ⟨line', done, _, left, _⟩ := trim_exact stands (by decide)
  exact ⟨line', done, left⟩

end Sbrocks.Sbush
