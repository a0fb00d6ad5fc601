import Mathlib.Data.Nat.Find
import Sbrocks.Sbush.Searching

/-!
# Strings in memory

The shell copies strings into blocks from `malloc` and into arrays of fixed size.  A
block is the memory from its start on, so that what lies behind it can be read and
written, with the size that was asked for and a record of the places written.
-/

namespace Sbrocks.Sbush

open Process (Byte)

variable {line src : Line} {text added : Text} {str s i n count : Nat}

/-! ## Literals -/

/-- A string literal. -/
def literal (text : Text) : Line := fun x => text.getD x 0

theorem stands_literal (string : ∀ c ∈ text, c ≠ 0) : Stands (literal text) 0 text :=
  ⟨string, fun i _ => by rw [Nat.zero_add, literal]⟩

/-- Where a literal lies that is searched for in a buffer. -/
def literalAt : Nat := 2 ^ 64

/-- A buffer and a literal in one memory. -/
def beside (line : Line) (text : Text) : Line :=
  fun x => if x < literalAt then line x else text.getD (x - literalAt) 0

/-- `strstr` of a buffer and a literal. -/
def strstrLiteral (line : Line) (text : Text) : Option (Option Nat) :=
  strstr (beside line text) 0 literalAt

/-- `strcmp` of two strings, 0 if they are equal. -/
def strcmp (cs ct : Line) (s t : Nat) : Nat → Option Int
  | 0 => none
  | n + 1 =>
      if cs s ≠ ct t then some (if (cs s).toNat < (ct t).toNat then -1 else 1)
      else if cs s = 0 then some 0
      else strcmp cs ct (s + 1) (t + 1) n

/-- The string that starts at a place. -/
def stringAt (line : Line) (s : Nat) : Option Text :=
  (strlen line s).map fun len => (List.range len).map fun i => line (s + i)

/-! ## Blocks -/

/-- A block: its requested size, the memory from its start on, and the places that were
written, the last one first. -/
structure Block where
  size : Nat
  bytes : Line
  writes : List Nat

namespace Block

/-- `malloc`, with what the memory held before. -/
def malloc (size : Nat) (memory : Line) : Block := ⟨size, memory, []⟩

/-- Write a byte. -/
def store (b : Block) (i : Nat) (c : Byte) : Block :=
  { b with bytes := Function.update b.bytes i c, writes := i :: b.writes }

/-- `memset` with zero. -/
def memset (b : Block) (i : Nat) : Nat → Block
  | 0 => b
  | n + 1 => (b.store i 0).memset (i + 1) n

/-- `strncpy`. -/
def strncpy (b : Block) (i : Nat) (line : Line) (src : Nat) : Nat → Block
  | 0 => b
  | count + 1 =>
      (b.store i (line src)).strncpy (i + 1) line (if line src ≠ 0 then src + 1 else src) count

/-- The loop of `strcpy`. -/
def strcpyLoop (b : Block) (i : Nat) (line : Line) (src : Nat) : Nat → Option Block
  | 0 => none
  | n + 1 =>
      let b := b.store i (line src)
      if line src = 0 then some b else b.strcpyLoop (i + 1) line (src + 1) n

/-- `strcpy`. -/
def strcpy (b : Block) (line : Line) (src : Nat) : Option Block :=
  b.strcpyLoop 0 line src lineRounds

/-- `strcat`. -/
def strcat (b : Block) (line : Line) (src : Nat) : Option Block := do
  let len ← strlen b.bytes 0
  b.strcpyLoop len line src lineRounds

/-- Nothing was written behind the block. -/
def Inside (b : Block) : Prop := ∀ i ∈ b.writes, i < b.size

instance (b : Block) : Decidable b.Inside := inferInstanceAs (Decidable (∀ i ∈ b.writes, i < b.size))

/-- Go on with a block of fixed size.  What overwrites the memory behind it is not followed. -/
def kept (b : Block) : Option Block := if b.Inside then some b else none

end Block

/-! ## What strings say -/

namespace Stands

theorem strlen (stands : Stands line str text) (room : text.length < lineRounds) :
    strlen line str = some text.length :=
  strlen_eq (fun _ inside => stands.ne_zero inside) stands.ends room

theorem stringAt (stands : Stands line str text) (room : text.length < lineRounds) :
    stringAt line str = some text := by
  unfold Sbush.stringAt
  rw [stands.strlen room]
  refine congrArg some (List.ext_getElem (by simp) fun i small inside => ?_)
  rw [List.getElem_map, List.getElem_range, stands.bytes i inside.le, List.getD_eq_getElem _ _ inside]

/-- A byte of the string before its terminator. -/
theorem length_le (stands : Stands line str text) {m : Nat} (zero : line (str + m) = 0) :
    text.length ≤ m := by
  by_contra less
  exact stands.ne_zero (Nat.lt_of_not_le less) zero

/-- A place holds one string. -/
theorem unique (stands : Stands line str text) (other : Stands line str added) : text = added := by
  have lengths : text.length = added.length :=
    Nat.le_antisymm (stands.length_le other.ends) (other.length_le stands.ends)
  apply List.ext_getElem lengths
  intro i inside inside'
  have here := stands.bytes i inside.le
  have there := other.bytes i inside'.le
  rw [List.getD_eq_getElem _ _ inside] at here
  rw [List.getD_eq_getElem _ _ inside'] at there
  exact here.symm.trans there

/-- What follows in the string. -/
theorem drop (stands : Stands line str text) {m : Nat} (inside : m ≤ text.length) :
    Stands line (str + m) (text.drop m) where
  string c member := stands.string c (List.mem_of_mem_drop member)
  bytes i below := by
    rw [List.length_drop] at below
    rw [Nat.add_assoc, stands.bytes _ (by omega), List.getD_eq_getElem?_getD,
      List.getD_eq_getElem?_getD, List.getElem?_drop]

/-- A string is read as it was where nothing of it was changed. -/
theorem congr {line' : Line} (stands : Stands line str text)
    (same : ∀ x, str ≤ x → x ≤ str + text.length → line' x = line x) : Stands line' str text :=
  ⟨stands.string, fun i inside => by rw [same _ (by omega) (by omega), stands.bytes i inside]⟩

/-- A string behind bytes that are not zero. -/
theorem append_iff (string : ∀ c ∈ text, c ≠ 0)
    (bytes : ∀ j < text.length, line (str + j) = text.getD j 0) :
    Stands line str (text ++ added) ↔ Stands line (str + text.length) added := by
  constructor
  · intro stands
    have rest := stands.drop (m := text.length) (by simp)
    rwa [List.drop_left] at rest
  · intro rest
    refine ⟨fun c member => (List.mem_append.mp member).elim (string c) (rest.string c), ?_⟩
    intro j inside
    rw [List.length_append] at inside
    by_cases before : j < text.length
    · rw [bytes j before, List.getD_append _ _ _ _ before]
    · have here := rest.bytes (j - text.length) (by omega)
      rw [Nat.add_assoc, Nat.add_sub_cancel' (Nat.le_of_not_lt before)] at here
      rw [here, List.getD_append_right _ _ _ _ (Nat.le_of_not_lt before)]

/-- A string begins with the bytes that are not zero. -/
theorem exists_append (stands : Stands line str added) (string : ∀ c ∈ text, c ≠ 0)
    (bytes : ∀ j < text.length, line (str + j) = text.getD j 0) : ∃ rest, added = text ++ rest := by
  have longer : text.length ≤ added.length := by
    by_contra less
    have zero := stands.ends
    rw [bytes _ (Nat.lt_of_not_le less), List.getD_eq_getElem _ _ (Nat.lt_of_not_le less)] at zero
    exact string _ (List.getElem_mem _) zero
  have same : text = added.take text.length := by
    apply List.ext_getElem (by simp [longer])
    intro j inside _
    have here := bytes j inside
    rw [stands.bytes j (by omega), List.getD_eq_getElem _ _ (by omega),
      List.getD_eq_getElem _ _ inside] at here
    rw [List.getElem_take, here]
  exact ⟨added.drop text.length, by conv_rhs => rw [same, List.length_take, Nat.min_eq_left longer,
    List.take_append_drop]⟩

/-- Up to a zero there is a string. -/
theorem exists_of_zero {k : Nat} (zero : line (str + k) = 0) :
    ∃ text, Stands line str text ∧ text.length ≤ k := by
  have some : ∃ j, line (str + j) = 0 := ⟨k, zero⟩
  have least : Nat.find some ≤ k := Nat.find_min' some zero
  have size : ((List.range (Nat.find some)).map fun j => line (str + j)).length = Nat.find some := by
    rw [List.length_map, List.length_range]
  refine ⟨_, ⟨?_, fun j inside => ?_⟩, size.trans_le least⟩
  · intro c member
    rcases List.mem_map.mp member with ⟨j, below, rfl⟩
    exact Nat.find_min some (List.mem_range.mp below)
  · by_cases before : j < Nat.find some
    · rw [List.getD_eq_getElem _ _ (size.symm.subst before), List.getElem_map, List.getElem_range]
    · have last : j = Nat.find some := by omega
      rw [List.getD_eq_default _ _ (size.trans_le (Nat.le_of_not_lt before)), last]
      exact Nat.find_spec some

/-- A literal beside a buffer. -/
theorem beside (stands : Stands line 0 text) (room : text.length < literalAt) (pattern : Text) :
    Stands (beside line pattern) 0 text := by
  apply stands.congr
  intro x _ inside
  exact if_pos (by omega)

end Stands

theorem stands_beside (line : Line) (string : ∀ c ∈ text, c ≠ 0) :
    Stands (beside line text) literalAt text := by
  refine ⟨string, fun i _ => ?_⟩
  rw [beside, if_neg (by omega), Nat.add_sub_cancel_left]

/-- `strstr` finds nothing of a literal that is not in the string. -/
theorem strstrLiteral_eq (stands : Stands line 0 text) (room : text.length < literalAt)
    {pattern : Text} (string : ∀ c ∈ pattern, c ≠ 0) (short : pattern.length < literalAt) :
    ∃ found, strstrLiteral line pattern = some found ∧ (found = none ↔ ¬ pattern <:+: text) := by
  obtain ⟨found, first, done⟩ := strstr_finds (stands.beside room pattern)
    (stands_beside line string) room short
  exact ⟨_, done, Option.map_eq_none_iff.trans first.eq_none_iff⟩

/-- `strcmp` gives 0 for equal strings. -/
theorem strcmp_eq {cs ct : Line} {s t : Nat} (first : Stands cs s text) (second : Stands ct t added)
    (rounds : text.length < n) :
    ∃ order, strcmp cs ct s t n = some order ∧ (order = 0 ↔ text = added) := by
  induction n generalizing s t text added with
  | zero => exact absurd rounds (Nat.not_lt_zero _)
  | succ n ih =>
      have here := first.bytes 0 (Nat.zero_le _)
      have there := second.bytes 0 (Nat.zero_le _)
      rw [Nat.add_zero] at here there
      rw [strcmp]
      by_cases same : cs s = ct t
      · rw [if_neg (not_not.mpr same)]
        cases text with
        | nil =>
            rw [if_pos (show cs s = 0 from here)]
            refine ⟨0, rfl, iff_of_true rfl ?_⟩
            have none := second.length_le (m := 0) (same.symm.trans here)
            exact (List.eq_nil_of_length_eq_zero (Nat.le_zero.mp none)).symm
        | cons c text =>
            have more := first.ne_zero (j := 0) (Nat.succ_pos _)
            rw [Nat.add_zero] at more
            rw [if_neg more]
            cases added with
            | nil => exact absurd (same.trans there) more
            | cons d added =>
                rcases ih (first.drop (Nat.succ_pos _)) (second.drop (Nat.succ_pos _))
                  (Nat.lt_of_succ_lt_succ rounds) with ⟨order, done, equal⟩
                refine ⟨order, done, equal.trans ?_⟩
                have head : c = d := here.symm.trans (same.trans there)
                simp [head]
      · rw [if_pos same]
        refine ⟨_, rfl, iff_of_false ?_ ?_⟩
        · split <;> decide
        · rintro rfl
          exact same (here.trans there.symm)

namespace Block

/-- A part of a block was written. -/
structure Filled (b b' : Block) (i n : Nat) (value : Nat → Byte) : Prop where
  size : b'.size = b.size
  bytes : ∀ x, b'.bytes x = if i ≤ x ∧ x < i + n then value (x - i) else b.bytes x
  writes : ∀ x, x ∈ b'.writes ↔ (i ≤ x ∧ x < i + n) ∨ x ∈ b.writes

namespace Filled

variable {b b' : Block} {value : Nat → Byte}

theorem nothing (b : Block) (i : Nat) (value : Nat → Byte) : Filled b b i 0 value where
  size := rfl
  bytes x := by rw [if_neg (by omega)]
  writes x := ⟨.inr, fun written => written.resolve_left (by omega)⟩

/-- A byte, and the bytes behind it. -/
theorem store (filled : Filled (b.store i (value 0)) b' (i + 1) n fun x => value (x + 1)) :
    Filled b b' i (n + 1) value where
  size := filled.size
  bytes x := by
    rw [filled.bytes]
    by_cases first : x = i
    · rw [first, if_neg (by omega), if_pos (by omega), Nat.sub_self]
      exact Function.update_self ..
    · by_cases inside : i + 1 ≤ x ∧ x < i + 1 + n
      · rw [if_pos inside, if_pos (by omega)]
        congr 1
        omega
      · rw [if_neg inside, if_neg (by omega)]
        exact Function.update_of_ne first ..
  writes x := by
    rw [filled.writes, Block.store, List.mem_cons]
    constructor
    · rintro (inside | here | written)
      · exact .inl ⟨by omega, by omega⟩
      · exact .inl ⟨by omega, by omega⟩
      · exact .inr written
    · rintro (inside | written)
      · by_cases first : x = i
        · exact .inr (.inl first)
        · exact .inl ⟨by omega, by omega⟩
      · exact .inr (.inr written)

end Filled

theorem memset_filled (b : Block) (i n : Nat) : Filled b (b.memset i n) i n fun _ => 0 := by
  induction n generalizing b i with
  | zero => exact .nothing b i _
  | succ n ih => exact .store (ih (b.store i 0) (i + 1))

/-- `strncpy` writes as many bytes as it is told, zeros behind the string. -/
theorem strncpy_filled (b : Block) (stands : Stands line str text) :
    Filled b (b.strncpy i line str count) i count fun x => text.getD x 0 := by
  induction count generalizing b i str text with
  | zero => exact .nothing b i _
  | succ count ih =>
      rw [strncpy]
      have first := stands.bytes 0 (Nat.zero_le _)
      rw [Nat.add_zero] at first
      cases text with
      | nil =>
          rw [if_neg (by rw [first]; simp), first]
          exact .store (ih _ stands)
      | cons c text =>
          have nonzero := stands.ne_zero (j := 0) (Nat.succ_pos _)
          rw [Nat.add_zero] at nonzero
          rw [if_pos nonzero, first]
          exact .store (ih _ (stands.drop (Nat.succ_pos _)))

/-- The loop of `strcpy` writes the string with its terminator. -/
theorem strcpyLoop_filled (b : Block) (stands : Stands line str text) (rounds : text.length < n) :
    ∃ b', b.strcpyLoop i line str n = some b' ∧
      Filled b b' i (text.length + 1) fun x => text.getD x 0 := by
  induction n generalizing b i str text with
  | zero => exact absurd rounds (Nat.not_lt_zero _)
  | succ n ih =>
      have first := stands.bytes 0 (Nat.zero_le _)
      rw [Nat.add_zero] at first
      rw [strcpyLoop]
      cases text with
      | nil =>
          rw [first]
          exact ⟨_, if_pos rfl, .store (.nothing _ _ _)⟩
      | cons c text =>
          have nonzero := stands.ne_zero (j := 0) (Nat.succ_pos _)
          rw [Nat.add_zero] at nonzero
          rcases ih (b.store i (line str)) (i := i + 1) (stands.drop (Nat.succ_pos _))
            (Nat.lt_of_succ_lt_succ rounds) with ⟨b', copied, filled⟩
          refine ⟨b', (if_neg nonzero).trans copied, .store ?_⟩
          rw [first] at filled
          exact filled

namespace Filled

variable {b b' : Block} {value : Nat → Byte}

/-- What was written stands in the block. -/
theorem stands (filled : Filled b b' i (text.length + 1) fun x => text.getD x 0)
    (string : ∀ c ∈ text, c ≠ 0) : Stands b'.bytes i text :=
  ⟨string, fun j inside => by rw [filled.bytes, if_pos (by omega), Nat.add_sub_cancel_left]⟩

/-- The writes stay inside if there is room for them. -/
theorem inside_iff (filled : Filled b b' i (n + 1) value) :
    b'.Inside ↔ i + n < b.size ∧ b.Inside := by
  unfold Inside
  rw [filled.size]
  constructor
  · intro all
    exact ⟨all _ ((filled.writes _).mpr (.inl ⟨by omega, by omega⟩)),
      fun x written => all x ((filled.writes x).mpr (.inr written))⟩
  · rintro ⟨room, inside⟩ x written
    rcases (filled.writes x).mp written with here | before
    · omega
    · exact inside x before

end Filled

/-- `strcpy`. -/
theorem strcpy_stands (b : Block) (stands : Stands line str text) (room : text.length < lineRounds) :
    ∃ b', b.strcpy line str = some b' ∧ Stands b'.bytes 0 text ∧ b'.size = b.size ∧
      (b'.Inside ↔ text.length < b.size ∧ b.Inside) := by
  rcases b.strcpyLoop_filled (i := 0) stands room with ⟨b', copied, filled⟩
  have inside := filled.inside_iff
  rw [Nat.zero_add] at inside
  exact ⟨b', copied, filled.stands stands.string, filled.size, inside⟩

/-- `strcat`. -/
theorem strcat_stands {b : Block} (into : Stands b.bytes 0 text) (stands : Stands line str added)
    (room : text.length + added.length < lineRounds) :
    ∃ b', b.strcat line str = some b' ∧ Stands b'.bytes 0 (text ++ added) ∧ b'.size = b.size ∧
      (b'.Inside ↔ (text ++ added).length < b.size ∧ b.Inside) := by
  rcases b.strcpyLoop_filled (i := text.length) stands (show added.length < lineRounds by omega) with
    ⟨b', copied, filled⟩
  refine ⟨b', ?_, ⟨?_, ?_⟩, filled.size, ?_⟩
  · unfold strcat
    rw [into.strlen (by omega)]
    exact copied
  · intro c member
    exact (List.mem_append.mp member).elim (into.string c) (stands.string c)
  · intro j inside
    rw [List.length_append] at inside
    rw [Nat.zero_add, filled.bytes]
    by_cases before : j < text.length
    · have here := into.bytes j before.le
      rw [Nat.zero_add] at here
      rw [if_neg (by omega), here, List.getD_append _ _ _ _ before]
    · rw [if_pos (by omega), List.getD_append_right _ _ _ _ (by omega)]
  · rw [List.length_append]
    exact filled.inside_iff

theorem kept_of_inside {b : Block} (inside : b.Inside) : b.kept = some b := if_pos inside

theorem kept_of_not_inside {b : Block} (outside : ¬ b.Inside) : b.kept = none := if_neg outside

end Block

end Sbrocks.Sbush
