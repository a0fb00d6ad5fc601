import Mathlib.Data.List.Infix
import Sbrocks.Sbush.Trimming

/-!
# Searching

`strstr` slides a window over a string while a counter of the characters that are
left goes down.  As for `trim`, the loops are followed with every access checked.
-/

namespace Sbrocks.Sbush

open Process (Byte)

variable {line : Line} {text pattern : Text} {s1 s2 i n lo1 hi1 lo2 hi2 : Nat}

/-! ## Functions -/

/-- `memcmp`. -/
def memcmp (line : Line) (p1 p2 : Nat) : Nat → Int
  | 0 => 0
  | n + 1 =>
      if line p1 ≠ line p2 then (line p1).toNat - (line p2).toNat
      else memcmp line (p1 + 1) (p2 + 1) n

/-- The loop of `strstr`. -/
def strstrLoop (line : Line) (s1 s2 : Nat) (l1 l2 : Word) : Nat → Option (Option Nat)
  | 0 => none
  | n + 1 =>
      if l2 ≤ l1 then
        if memcmp line s1 s2 l2.toNat = 0 then some (some s1)
        else strstrLoop line (s1 + 1) s2 (l1 - 1) l2 n
      else some none

/-- `strstr`. -/
def strstr (line : Line) (s1 s2 : Nat) : Option (Option Nat) := do
  let l2 ← strlen line s2
  if l2 = 0 then some (some s1)
  else
    let l1 ← strlen line s1
    strstrLoop line s1 s2 (BitVec.ofNat 64 l1) (BitVec.ofNat 64 l2) lineRounds

/-- `memcmp`, with its accesses checked. -/
def memcmpIn (lo1 hi1 lo2 hi2 : Nat) (line : Line) (p1 p2 : Nat) : Nat → Option Int
  | 0 => some 0
  | n + 1 => do
      let c1 ← readIn lo1 hi1 line p1
      let c2 ← readIn lo2 hi2 line p2
      if c1 ≠ c2 then some (c1.toNat - c2.toNat)
      else memcmpIn lo1 hi1 lo2 hi2 line (p1 + 1) (p2 + 1) n

/-- `strstrLoop`, with its accesses and its counter checked. -/
def strstrLoopIn (lo1 hi1 lo2 hi2 : Nat) (line : Line) (s1 s2 : Nat) (l1 l2 : Word) :
    Nat → Option (Option Nat)
  | 0 => none
  | n + 1 =>
      if l2 ≤ l1 then
        if l1 = 0 then none
        else do
          let order ← memcmpIn lo1 hi1 lo2 hi2 line s1 s2 l2.toNat
          if order = 0 then some (some s1)
          else strstrLoopIn lo1 hi1 lo2 hi2 line (s1 + 1) s2 (l1 - 1) l2 n
      else some none

/-- `strstr`, with its accesses and its counter checked. -/
def strstrIn (lo1 hi1 lo2 hi2 : Nat) (line : Line) (s1 s2 : Nat) : Option (Option Nat) := do
  let l2 ← strlenIn lo2 hi2 line s2 lineRounds
  if l2 = 0 then some (some s1)
  else
    let l1 ← strlenIn lo1 hi1 line s1 lineRounds
    strstrLoopIn lo1 hi1 lo2 hi2 line s1 s2 (BitVec.ofNat 64 l1) (BitVec.ofNat 64 l2) lineRounds

/-! ## Comparison -/

theorem memcmp_eq_zero_iff (p1 p2 n : Nat) :
    memcmp line p1 p2 n = 0 ↔ ∀ j < n, line (p1 + j) = line (p2 + j) := by
  induction n generalizing p1 p2 with
  | zero => exact ⟨fun _ j below => absurd below (Nat.not_lt_zero j), fun _ => rfl⟩
  | succ n ih =>
      rw [memcmp]
      by_cases same : line p1 = line p2
      · rw [if_neg (not_not.mpr same), ih]
        constructor
        · intro rest j below
          cases j with
          | zero => exact same
          | succ j =>
              have next := rest j (Nat.lt_of_succ_lt_succ below)
              rwa [Nat.add_right_comm, Nat.add_right_comm p2] at next
        · intro all j below
          rw [Nat.add_right_comm, Nat.add_right_comm p2]
          exact all (j + 1) (Nat.succ_lt_succ below)
      · rw [if_pos same]
        constructor
        · intro equal
          exact absurd (BitVec.eq_of_toNat_eq (by omega)) same
        · intro all
          exact absurd (all 0 (Nat.succ_pos n)) same

/-- Bytes between two places are compared without a look elsewhere. -/
theorem memcmpIn_eq (p1 p2 : Nat) (low1 : lo1 ≤ p1) (high1 : p1 + n ≤ hi1) (low2 : lo2 ≤ p2)
    (high2 : p2 + n ≤ hi2) :
    memcmpIn lo1 hi1 lo2 hi2 line p1 p2 n = some (memcmp line p1 p2 n) := by
  induction n generalizing p1 p2 with
  | zero => rfl
  | succ n ih =>
      rw [memcmpIn, memcmp, readIn_eq low1 (by omega), readIn_eq low2 (by omega)]
      simp only [Option.bind_eq_bind, Option.bind_some]
      split
      · rfl
      · exact ih _ _ (by omega) (by omega) (by omega) (by omega)

/-- The window is compared with the pattern. -/
theorem memcmp_window (whole : Stands line s1 text) (part : Stands line s2 pattern)
    (fits : i + pattern.length ≤ text.length) :
    memcmp line (s1 + i) s2 pattern.length = 0 ↔ pattern <+: text.drop i := by
  have here : ∀ j < pattern.length, line (s1 + i + j) = (text.drop i).getD j 0 := by
    intro j inside
    rw [Nat.add_assoc, whole.bytes _ (by omega), List.getD_eq_getElem _ _ (by omega),
      List.getD_eq_getElem _ _ (by simp; omega), List.getElem_drop]
  rw [memcmp_eq_zero_iff, List.prefix_iff_getElem]
  constructor
  · intro same
    refine ⟨by simp; omega, fun j inside => ?_⟩
    have equal := same j inside
    rw [here j inside, part.bytes j inside.le, List.getD_eq_getElem _ _ inside,
      List.getD_eq_getElem _ _ (by simp; omega)] at equal
    exact equal.symm
  · rintro ⟨short, same⟩ j inside
    rw [here j inside, part.bytes j inside.le, List.getD_eq_getElem _ _ inside,
      List.getD_eq_getElem _ _ (by omega), same j inside]

/-- No pattern is longer than what is left of a text. -/
theorem not_prefix_of_short (short : text.length < i + pattern.length) (some : 0 < pattern.length) :
    ¬ pattern <+: text.drop i := by
  intro occurs
  have := occurs.length_le
  rw [List.length_drop] at this
  omega

/-! ## Search -/

/-- The first place of a pattern in a text, from a place on. -/
def FirstFrom (pattern text : Text) (i : Nat) : Option Nat → Prop
  | some k => i ≤ k ∧ pattern <+: text.drop k ∧ ∀ j, i ≤ j → j < k → ¬ pattern <+: text.drop j
  | none => ∀ k, i ≤ k → ¬ pattern <+: text.drop k

/-- A place without the pattern is passed. -/
theorem FirstFrom.pass {found : Option Nat} (first : FirstFrom pattern text (i + 1) found)
    (absent : ¬ pattern <+: text.drop i) : FirstFrom pattern text i found := by
  cases found with
  | none =>
      intro k from'
      obtain rfl | later := Nat.eq_or_lt_of_le from'
      · exact absent
      · exact first k later
  | some k =>
      obtain ⟨later, occurs, before⟩ := first
      refine ⟨by omega, occurs, fun j from' below => ?_⟩
      obtain rfl | after := Nat.eq_or_lt_of_le from'
      · exact absent
      · exact before j after below

theorem left_step (more : i < text.length) :
    BitVec.ofNat 64 (text.length - i) - 1 = BitVec.ofNat 64 (text.length - (i + 1)) := by
  have one : (1 : Word).toNat = 1 := rfl
  apply BitVec.eq_of_toNat_eq
  rw [BitVec.toNat_sub, one, BitVec.toNat_ofNat, BitVec.toNat_ofNat]
  omega

section

variable (room : text.length < 2 ^ 64)
include room

theorem left_le_left_iff (short : pattern.length < 2 ^ 64) :
    BitVec.ofNat 64 pattern.length ≤ BitVec.ofNat 64 (text.length - i) ↔
      pattern.length ≤ text.length - i := by
  rw [BitVec.le_def, BitVec.toNat_ofNat, BitVec.toNat_ofNat, Nat.mod_eq_of_lt short,
    Nat.mod_eq_of_lt (by omega)]

/-- The loop finds the first place of the pattern. -/
theorem strstrLoop_finds (whole : Stands line s1 text) (part : Stands line s2 pattern)
    (some : 0 < pattern.length) (short : pattern.length < 2 ^ 64) (inside : i ≤ text.length)
    (rounds : text.length - i < n) :
    ∃ found, FirstFrom pattern text i found ∧
      strstrLoop line (s1 + i) s2 (BitVec.ofNat 64 (text.length - i))
        (BitVec.ofNat 64 pattern.length) n = Option.some (found.map (s1 + ·)) := by
  induction n generalizing i with
  | zero => exact absurd rounds (Nat.not_lt_zero _)
  | succ n ih =>
      rw [strstrLoop, BitVec.toNat_ofNat, Nat.mod_eq_of_lt short]
      by_cases fits : pattern.length ≤ text.length - i
      · rw [if_pos ((left_le_left_iff room short).mpr fits)]
        by_cases occurs : pattern <+: text.drop i
        · rw [if_pos ((memcmp_window whole part (by omega)).mpr occurs)]
          exact ⟨Option.some i, ⟨Nat.le_refl i, occurs, fun j from' below => by omega⟩, rfl⟩
        · rw [if_neg (mt (memcmp_window whole part (by omega)).mp occurs),
            left_step (by omega)]
          obtain ⟨found, first, done⟩ := ih (i := i + 1) (by omega) (by omega)
          exact ⟨found, first.pass occurs, done⟩
      · rw [if_neg (mt (left_le_left_iff room short).mp fits)]
        exact ⟨none, fun k from' => not_prefix_of_short (by omega) some, rfl⟩

/-- No access of the loop is outside the strings, and its counter stays above zero. -/
theorem strstrLoopIn_eq (some : 0 < pattern.length) (short : pattern.length < 2 ^ 64) :
    strstrLoopIn s1 (s1 + text.length) s2 (s2 + pattern.length) line (s1 + i) s2
        (BitVec.ofNat 64 (text.length - i)) (BitVec.ofNat 64 pattern.length) n =
      strstrLoop line (s1 + i) s2 (BitVec.ofNat 64 (text.length - i))
        (BitVec.ofNat 64 pattern.length) n := by
  induction n generalizing i with
  | zero => rfl
  | succ n ih =>
      rw [strstrLoopIn, strstrLoop, BitVec.toNat_ofNat, Nat.mod_eq_of_lt short]
      split
      · rename_i fits
        rw [left_le_left_iff room short] at fits
        have counter : BitVec.ofNat 64 (text.length - i) ≠ 0 := by
          intro zero
          have value := congrArg BitVec.toNat zero
          rw [BitVec.toNat_ofNat, Nat.mod_eq_of_lt (by omega)] at value
          have none : (0 : Word).toNat = 0 := rfl
          omega
        rw [if_neg counter, memcmpIn_eq _ _ (by omega) (by omega) (by omega) (by omega)]
        simp only [Option.bind_eq_bind, Option.bind_some]
        rw [left_step (by omega)]
        split
        · rfl
        · exact ih (i := i + 1)
      · rfl

end

/-- A pattern is inside a text when it is at the front of some rest of it. -/
theorem infix_iff_exists_start : pattern <:+: text ↔ ∃ i, pattern <+: text.drop i := by
  rw [List.infix_iff_prefix_suffix]
  constructor
  · rintro ⟨rest, occurs, suffix⟩
    exact ⟨_, List.suffix_iff_eq_drop.mp suffix ▸ occurs⟩
  · rintro ⟨i, occurs⟩
    exact ⟨_, occurs, List.drop_suffix i text⟩

theorem FirstFrom.eq_some_iff {found : Option Nat} (first : FirstFrom pattern text 0 found)
    (i : Nat) : found = some i ↔ pattern <+: text.drop i ∧ ∀ j < i, ¬ pattern <+: text.drop j := by
  cases found with
  | none =>
      refine ⟨fun nothing => ?_, fun found => absurd found.1 (first i (Nat.zero_le i))⟩
      cases nothing
  | some k =>
      obtain ⟨_, occurs, before⟩ := first
      constructor
      · intro same
        obtain rfl := Option.some.inj same
        exact ⟨occurs, fun j below => before j (Nat.zero_le j) below⟩
      · rintro ⟨there, earlier⟩
        obtain below | same | above := Nat.lt_trichotomy i k
        · exact absurd there (before i (Nat.zero_le i) below)
        · rw [same]
        · exact absurd occurs (earlier k above)

theorem FirstFrom.eq_none_iff {found : Option Nat} (first : FirstFrom pattern text 0 found) :
    found = none ↔ ¬ pattern <:+: text := by
  rw [infix_iff_exists_start]
  cases found with
  | none => exact ⟨fun _ ⟨i, occurs⟩ => first i (Nat.zero_le i) occurs, fun _ => rfl⟩
  | some k =>
      refine ⟨fun nothing => ?_, fun nowhere => absurd ⟨k, first.2.1⟩ nowhere⟩
      cases nothing

/-- Strings are searched without a look outside them. -/
theorem strstrIn_eq (whole : Stands line s1 text) (part : Stands line s2 pattern)
    (room : text.length < lineRounds) (short : pattern.length < lineRounds) :
    strstrIn s1 (s1 + text.length) s2 (s2 + pattern.length) line s1 s2 = strstr line s1 s2 := by
  have length1 : strlenLoop line s1 lineRounds = some text.length :=
    strlen_eq (fun j inside => whole.ne_zero inside) whole.ends room
  have length2 : strlenLoop line s2 lineRounds = some pattern.length :=
    strlen_eq (fun j inside => part.ne_zero inside) part.ends short
  unfold strstrIn strstr
  rw [strlenIn_eq whole.ends (Nat.le_refl _) (Nat.le_add_right _ _),
    strlenIn_eq part.ends (Nat.le_refl _) (Nat.le_add_right _ _)]
  simp only [strlen, length1, length2, Option.bind_eq_bind, Option.bind_some]
  by_cases empty : pattern.length = 0
  · rw [if_pos empty, if_pos empty]
  · rw [if_neg empty, if_neg empty]
    exact strstrLoopIn_eq (i := 0) room (Nat.pos_of_ne_zero empty) short

/-- `strstr` finds the first place of a string in another. -/
theorem strstr_finds (whole : Stands line s1 text) (part : Stands line s2 pattern)
    (room : text.length < lineRounds) (short : pattern.length < lineRounds) :
    ∃ found, FirstFrom pattern text 0 found ∧ strstr line s1 s2 = some (found.map (s1 + ·)) := by
  have length1 : strlen line s1 = some text.length :=
    strlen_eq (fun j inside => whole.ne_zero inside) whole.ends room
  have length2 : strlen line s2 = some pattern.length :=
    strlen_eq (fun j inside => part.ne_zero inside) part.ends short
  simp only [strstr, length1, length2, Option.bind_eq_bind, Option.bind_some]
  by_cases empty : pattern.length = 0
  · rw [if_pos empty, List.eq_nil_of_length_eq_zero empty]
    exact ⟨some 0, ⟨Nat.le_refl 0, List.nil_prefix, fun j _ below => absurd below (Nat.not_lt_zero j)⟩,
      rfl⟩
  · rw [if_neg empty]
    exact strstrLoop_finds (i := 0) room whole part (Nat.pos_of_ne_zero empty) short (Nat.zero_le _)
      room

/-- `strstr` returns the first place at which a string occurs in another, or nothing when there
is none.  Its accesses are inside the strings, and its counter does not pass zero. -/
theorem strstr_exact (whole : Stands line s1 text) (part : Stands line s2 pattern)
    (room : text.length < lineRounds) (short : pattern.length < lineRounds) :
    ∃ found : Option Nat,
      strstrIn s1 (s1 + text.length) s2 (s2 + pattern.length) line s1 s2 =
        some (found.map (s1 + ·)) ∧
      strstr line s1 s2 = some (found.map (s1 + ·)) ∧
      (∀ i, found = some i ↔ pattern <+: text.drop i ∧ ∀ j < i, ¬ pattern <+: text.drop j) ∧
      (found = none ↔ ¬ pattern <:+: text) := by
  obtain ⟨found, first, done⟩ := strstr_finds whole part room short
  exact ⟨found, (strstrIn_eq whole part room short).trans done, done, first.eq_some_iff,
    first.eq_none_iff⟩

/-- `"ab"` is found in `"aab"`, after its first character. -/
theorem strstr_exact_ab :
    strstrIn 0 3 4 6 (fun x => [0x61, 0x61, 0x62, 0x00, 0x61, 0x62].getD x 0) 0 4 =
      some (some 1) := by
  have whole : Stands (fun x => [0x61, 0x61, 0x62, 0x00, 0x61, 0x62].getD x 0) 0
      [0x61, 0x61, 0x62] := ⟨by decide, by decide⟩
  have part : Stands (fun x => [0x61, 0x61, 0x62, 0x00, 0x61, 0x62].getD x 0) 4
      [0x61, 0x62] := ⟨by decide, by decide⟩
  obtain ⟨found, done, _, first, _⟩ := strstr_exact whole part (by decide) (by decide)
  rw [(first 1).mpr (by decide)] at done
  exact done

end Sbrocks.Sbush
