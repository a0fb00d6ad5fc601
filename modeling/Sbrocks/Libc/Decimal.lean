import Mathlib.Data.List.GetD
import Sbrocks.Libc.Numbers
import Sbrocks.Libc.Scanf

/-!
# Decimal numbers out and in

A number that was printed in decimal is read back from a line.  The kernel says of a
line of the keyboard that nothing was read, so its newline is not cut off, and counts
as a digit.
-/

namespace Sbrocks.Libc

open Sbrocks.Process

/-- `"%d"`. -/
def decimalFormat : List Byte := [chr '%', chr 'd']

/-- The decimal text of an `int`. -/
def decimalText (n : CInt) : List Byte :=
  (if n.toInt < 0 then [chr '-'] else []) ++
    (canonical 10 n.toInt.natAbs).map (digitText false)

/-! ## What is printed -/

/-- Without a width and a precision a number is its sign and its digits. -/
theorem number_decimal (num : Word) :
    number num 10 (-1) (-1) Flag.sign =
      some (signText num Flag.sign ++ digitsText num 10 Flag.sign) := by
  have printed : 10 = 8 ∨ 10 = 10 ∨ 10 = 16 := by decide
  have ten : (10 : CInt).toNat = 10 := rfl
  have few := digitsText_length printed num Flag.sign
  have sign := signText_length num Flag.sign
  have bare : bareLength num 10 (-1) Flag.sign =
      ((signText num Flag.sign).length + (digitsText num 10 Flag.sign).length : Nat) := by
    have none : (specialText 10 Flag.sign).length = 0 := rfl
    unfold bareLength
    omega
  have fits : lastRoom Flag.sign ≤ room num 10 (-1) (-1) Flag.sign := by
    have last : lastRoom Flag.sign = -2 ^ 31 + 2 := rfl
    have one : (-1 : CInt).toInt = -1 := rfl
    rw [last, room, one, bare]
    omega
  obtain ⟨text, put, shows'⟩ := shows_of_room ten printed (.inr fits)
  have length := shows'.length_eq
  obtain ⟨free, zeros, digits, laid, precise, rfl, _⟩ := shows'.laid_out
  have one : (-1 : CInt).toInt = -1 := rfl
  have plain : layout Flag.sign free zeros (signText num Flag.sign) (specialText 10 Flag.sign)
      (digitsText num 10 Flag.sign) =
        List.replicate free (chr ' ') ++ signText num Flag.sign ++ [] ++
          List.replicate zeros (chr '0') ++ digitsText num 10 Flag.sign := rfl
  rw [plain] at laid
  rw [one, bare, laid] at length
  have unpadded : free = 0 ∧ zeros = 0 := by
    simp only [List.length_append, List.length_replicate] at length
    omega
  rw [put, laid, unpadded.1, unpadded.2]
  simp

/-- What `%d` prints is the decimal text. -/
theorem vsprintf_decimal (args : Arguments) {n : CInt} (given : (args.word 0).setWidth 32 = n) :
    vsprintf decimalFormat args = some ⟨2, decimalText n, 1, []⟩ := by
  have num : integerArg none Flag.sign (args.word 0) = n.signExtend 64 := by
    rw [← given]
    rfl
  have text : signText (n.signExtend 64) Flag.sign ++ digitsText (n.signExtend 64) 10 Flag.sign =
      decimalText n := by
    have same : (n.signExtend 64).toInt = n.toInt := BitVec.toInt_signExtend_of_le (by decide)
    have signed : has Flag.sign Flag.sign = true := rfl
    have plain : has Flag.sign Flag.plus = false ∧ has Flag.sign Flag.space = false ∧
        has Flag.sign Flag.small = false := ⟨rfl, rfl, rfl⟩
    simp [signText, digitsText, magnitude, decimalText, same, signed, plain]
  have round : formatRound decimalFormat args ⟨0, [], 0, []⟩ (chr '%') =
      some ⟨1, decimalText n, 1, []⟩ := by
    change (number (integerArg none Flag.sign (args.word 0)) 10 (-1) (-1) Flag.sign >>=
      fun text => (some ⟨1, [] ++ text, 1, []⟩ : Option Scan)) = _
    rw [num, number_decimal, text]
    rfl
  change (formatRound decimalFormat args ⟨0, [], 0, []⟩ (chr '%') >>=
    fun s => formatLoop decimalFormat args s.skip 3) = _
  rw [round]
  rfl

/-! ## What is read -/

/-- Digits behind a value. -/
theorem foldl_denotes (base value : Nat) (text : List Byte) :
    text.foldl (fun value c => value * base + digitValue c) value =
      value * base ^ text.length + denotes base text := by
  induction text generalizing value with
  | nil => simp [denotes]
  | cons c text ih =>
      have first := ih (digitValue c)
      have whole : denotes base (c :: text) = digitValue c * base ^ text.length + denotes base text := by
        rw [← first, denotes, List.foldl_cons, Nat.zero_mul, Nat.zero_add]
      rw [List.foldl_cons, ih, whole, List.length_cons]
      ring

/-- A character that `atoi` takes in. -/
def atoiStep (k : CInt) (c : Byte) : CInt := (k <<< 3) + (k <<< 1) + c.signExtend 32 - 0x30

theorem atoi_eq_foldl (text : List Byte) : atoi text = text.foldl atoiStep 0 :=
  rfl

/-- Every character counts as a digit, also one whose code is below those of the digits. -/
theorem atoiStep_ofNat (value : Nat) (c : Byte) (seven : c.toNat < 128) :
    atoiStep (BitVec.ofNat 32 value) c = BitVec.ofNat 32 (value * 10 + (c.toNat + 4294967248)) := by
  have code : c.signExtend 32 = BitVec.ofNat 32 c.toNat := by
    rw [BitVec.signExtend_eq_setWidth_of_msb_false, ← BitVec.ofNat_toNat]
    rw [BitVec.msb_eq_decide]
    simpa using seven
  have zero : (0x30 : BitVec 32).toNat = 48 := rfl
  unfold atoiStep
  rw [code]
  apply BitVec.eq_of_toNat_eq
  simp only [BitVec.toNat_sub, BitVec.toNat_add, BitVec.toNat_shiftLeft, BitVec.toNat_ofNat,
    Nat.shiftLeft_eq, zero]
  omega

/-- Digits are taken in one after the other, from any value on. -/
theorem foldl_atoiStep (small : List Nat) (digits : ∀ d ∈ small, d < 10) (value : Nat) :
    (small.map (digitText false)).foldl atoiStep (BitVec.ofNat 32 value) =
      BitVec.ofNat 32 (value * 10 ^ small.length + denotes 10 (small.map (digitText false))) := by
  rw [← List.length_map (digitText false), ← foldl_denotes]
  induction small generalizing value with
  | nil => rfl
  | cons d small ih =>
      have first : d < 10 := digits d List.mem_cons_self
      have code : (digitText false d).toNat = 48 + d := by
        clear ih digits
        revert d
        decide
      have step : atoiStep (BitVec.ofNat 32 value) (digitText false d) =
          BitVec.ofNat 32 (value * 10 + digitValue (digitText false d)) := by
        rw [atoiStep_ofNat value _ (by omega), code, digitValue_digitText false d (by omega)]
        apply BitVec.eq_of_toNat_eq
        simp only [BitVec.toNat_ofNat]
        omega
      rw [List.map_cons, List.foldl_cons, List.foldl_cons, step]
      exact ih (fun d member => digits d (List.mem_cons_of_mem _ member)) _

theorem canonical_lt (value : Nat) : ∀ d ∈ canonical 10 value, d < 10 := by
  unfold canonical
  split
  · decide
  · intro d member
    exact Nat.digits_lt_base (by decide) (List.mem_reverse.mp member)

theorem denotes_canonical (value : Nat) :
    denotes 10 ((canonical 10 value).map (digitText false)) = value := by
  unfold canonical
  split
  · rename_i zero
    rw [zero]
    rfl
  · exact denotes_digits (by decide) (by decide) false value

/-- The number of digits of a number that is not zero. -/
theorem canonical_length {value : Nat} (nonzero : value ≠ 0) :
    ∃ n, (canonical 10 value).length = n + 1 ∧ 10 ^ n ≤ value ∧ value < 10 ^ (n + 1) := by
  have some := Nat.digits_ne_nil_iff_ne_zero (b := 10) |>.mpr nonzero
  unfold canonical
  rw [if_neg nonzero, List.length_reverse]
  obtain ⟨n, length⟩ := Nat.exists_eq_succ_of_ne_zero (List.length_pos_iff.mpr some).ne'
  refine ⟨n, length, ?_, ?_⟩
  · rw [← Nat.lt_digits_length_iff (by decide), length]
    exact Nat.lt_succ_self n
  · rw [← Nat.digits_length_le_iff (by decide), length]

/-- What `atoi` makes of a line with its newline. -/
def lineValue (n : CInt) : CInt := atoi (decimalText n ++ [0x0a])

/-- The newline counts as a digit, and the sign too. -/
theorem lineValue_eq (n : CInt) :
    lineValue n = BitVec.ofNat 32
      (((if n.toInt < 0 then 4294967293 else 0) * 10 ^ (canonical 10 n.toInt.natAbs).length +
        n.toInt.natAbs) * 10 + 4294967258) := by
  have digits := foldl_atoiStep (canonical 10 n.toInt.natAbs) (canonical_lt _)
  have sign : (if n.toInt < 0 then [chr '-'] else []).foldl atoiStep 0 =
      BitVec.ofNat 32 (if n.toInt < 0 then 4294967293 else 0) := by
    split <;> rfl
  unfold lineValue decimalText
  rw [atoi_eq_foldl, List.foldl_append, List.foldl_append, sign, digits, denotes_canonical]
  exact atoiStep_ofNat _ 0x0a (by decide)

/-- A factor that has an inverse is cancelled. -/
theorem mod_inverse {a b c m M : Nat} (inverse : a * b % M = 1 % M)
    (zero : (a * m + c) % M = 0) : (m + b * c) % M = 0 := by
  have multiple : b * (a * m + c) ≡ b * 0 [MOD M] := Nat.ModEq.mul_left b zero
  have one : a * b * m ≡ 1 * m [MOD M] := Nat.ModEq.mul_right m inverse
  calc (m + b * c) % M = (1 * m + b * c) % M := by rw [Nat.one_mul]
    _ = (a * b * m + b * c) % M := (one.add_right (b * c)).symm
    _ = (b * (a * m + c)) % M := by rw [Nat.mul_add, ← Nat.mul_assoc, Nat.mul_comm b a]
    _ = 0 := multiple

/-- No number with a sign is read back, whatever the number of its digits. -/
theorem negative_ne {m k : Nat} (short : k < 10) (least : 10 ^ k ≤ m) (most : m < 10 ^ (k + 1))
    (fits : m ≤ 2147483648) :
    ((4294967293 * 10 ^ (k + 1) + m) * 10 + 4294967258) % 4294967296 ≠ 4294967296 - m := by
  intro same
  have positive : 0 < m := (Nat.pow_pos (by decide)).trans_le least
  have multiple : (11 * m + (42949672930 * 10 ^ (k + 1) + 4294967258)) % 4294967296 = 0 := by
    have whole : 11 * m + (42949672930 * 10 ^ (k + 1) + 4294967258) =
        ((4294967293 * 10 ^ (k + 1) + m) * 10 + 4294967258) + m := by ring
    rw [whole, Nat.add_mod, same, Nat.mod_eq_of_lt (show m < 4294967296 by omega),
      Nat.sub_add_cancel (by omega)]
  have inverse : 11 * 3123612579 % 4294967296 = 1 % 4294967296 := by decide
  have value := mod_inverse inverse multiple
  clear same multiple inverse
  interval_cases k <;> omega

/-- A number without a sign is read back when its value wraps around to it. -/
theorem positive_eq_iff {m : Nat} (fits : m < 2147483648) :
    (m * 10 + 4294967258) % 4294967296 = m ↔ m = 1908874358 := by
  have small : m % 4294967296 = m := Nat.mod_eq_of_lt (by omega)
  have whole : 9 * m + 4294967258 = m * 10 + 4294967258 - m := by omega
  constructor
  · intro same
    have multiple : (9 * m + 4294967258) % 4294967296 = 0 := by
      rw [whole]
      apply Nat.sub_mod_eq_zero_of_mod_eq
      rw [same, small]
    have inverse : 9 * 954437177 % 4294967296 = 1 % 4294967296 := by decide
    have value := mod_inverse inverse multiple
    clear same multiple inverse small whole
    omega
  · rintro rfl
    decide

/-- The only line that is read back is one whose value wraps around to it. -/
theorem lineValue_eq_iff (n : CInt) : lineValue n = n ↔ n = 1908874358 := by
  have low := BitVec.le_toInt n
  have high := BitVec.toInt_lt (x := n)
  have unsigned := BitVec.toInt_eq_toNat_cond n
  have bound := n.isLt
  have goal : n = 1908874358 ↔ n.toNat = 1908874358 := by
    rw [← BitVec.toNat_inj]
    rfl
  rw [goal, ← BitVec.toNat_inj, lineValue_eq, BitVec.toNat_ofNat]
  by_cases negative : n.toInt < 0
  · obtain ⟨k, length, least, most⟩ := canonical_length (show n.toInt.natAbs ≠ 0 by omega)
    have short : k < 10 := by
      by_contra long
      have := Nat.pow_le_pow_right (n := 10) (by decide) (Nat.le_of_not_lt long)
      omega
    have whole : n.toNat = 4294967296 - n.toInt.natAbs := by omega
    have different : n.toNat ≠ 1908874358 := by omega
    rw [if_pos negative, length, whole] at *
    exact iff_of_false (negative_ne short least most (by omega)) different
  · have whole : n.toInt.natAbs = n.toNat := by omega
    rw [if_neg negative, whole, Nat.zero_mul, Nat.zero_add]
    exact positive_eq_iff (by omega)

/-! ## The buffer -/

variable {mem : Bytes.Memory 64} {addr : Word}

theorem add_ofNat_inj {i j : Nat} (first : i < 2 ^ 64) (second : j < 2 ^ 64)
    (same : addr + BitVec.ofNat 64 i = addr + BitVec.ofNat 64 j) : i = j := by
  have offsets := congrArg BitVec.toNat (BitVec.add_right_inj addr |>.mp same)
  rw [BitVec.toNat_ofNat, BitVec.toNat_ofNat, Nat.mod_eq_of_lt first, Nat.mod_eq_of_lt second]
    at offsets
  exact offsets

/-- Bytes stand where they were put, and the others are as before. -/
theorem putBytes_apply (bytes : List Byte) (room : bytes.length ≤ 2 ^ 64) {i : Nat}
    (inside : i < 2 ^ 64) :
    putBytes mem addr bytes (addr + BitVec.ofNat 64 i) =
      if i < bytes.length then bytes.getD i 0 else mem (addr + BitVec.ofNat 64 i) := by
  induction bytes generalizing mem addr i with
  | nil => simp [putBytes]
  | cons b bytes ih =>
      rw [List.length_cons] at room
      unfold putBytes
      cases i with
      | zero =>
          -- the first byte lies behind all the others
          have last : addr + BitVec.ofNat 64 0 = addr + 1 + BitVec.ofNat 64 (2 ^ 64 - 1) := by
            rw [Bytes.add_one_add]
            rfl
          rw [last, ih (by omega) (by omega), if_neg (by omega), ← last]
          simp
      | succ i =>
          rw [← Bytes.add_one_add, ih (by omega) (by omega), Bytes.add_one_add]
          have different : addr + BitVec.ofNat 64 (i + 1) ≠ addr := by
            intro same
            exact Nat.succ_ne_zero i (add_ofNat_inj inside (by decide) (same.trans (by simp)))
          rw [Function.update_of_ne different]
          simp

/-- A string is read up to its terminator. -/
theorem textAt_eq {text : List Byte} (string : ∀ c ∈ text, c ≠ 0) {rounds : Nat}
    (enough : text.length < rounds)
    (holds : ∀ i ≤ text.length, mem (addr + BitVec.ofNat 64 i) = text.getD i 0) :
    textAt mem addr rounds = some text := by
  induction text generalizing addr rounds with
  | nil =>
      obtain ⟨rounds, rfl⟩ := Nat.exists_eq_succ_of_ne_zero (Nat.ne_of_gt enough)
      have ends : mem addr = 0 := by simpa using holds 0 (Nat.le_refl _)
      rw [textAt, if_pos ends]
  | cons c text ih =>
      obtain ⟨rounds, rfl⟩ := Nat.exists_eq_succ_of_ne_zero (Nat.ne_of_gt (Nat.zero_lt_of_lt enough))
      have first : mem addr = c := by simpa using holds 0 (Nat.zero_le _)
      have more : c ≠ 0 := string c List.mem_cons_self
      rw [List.length_cons] at enough holds
      have further : textAt mem (addr + 1) rounds = some text := by
        apply ih (fun c member => string c (List.mem_cons_of_mem _ member)) (by omega)
        intro i inside
        rw [Bytes.add_one_add, holds (i + 1) (by omega)]
        rfl
      rw [textAt, first, if_neg more, further]
      rfl

section

variable {bytes : List Byte} {rest : List Answer}

theorem clear_answers (s : Reader) (str : Word) (len : Nat) : (s.clear str len).answers = s.answers :=
  rfl

/-- A read that the kernel says was empty. -/
theorem read_eq {s : Reader} (answers : s.answers = ⟨bytes, 0⟩ :: rest) (buf : Word) (count : Nat) :
    s.read buf count = some (⟨putBytes (s.clear buf count).mem buf bytes, rest⟩, 0) := by
  unfold Reader.read
  rw [answers]
  rfl

/-- The string in a buffer that was cleared and filled is what it was filled with, also when a
terminator was put before the buffer. -/
theorem textAt_filled (string : ∀ c ∈ bytes, c ≠ 0) {count : Nat} (fits : bytes.length < count)
    (few : count < 2 ^ 64) (s : Reader) (buf : Word) :
    textAt (Function.update (putBytes (s.clear buf count).mem buf bytes) (buf + ofInt (-1)) 0) buf
      textRounds = some bytes := by
  apply textAt_eq string (fits.trans few)
  intro i inside
  have small : i < count := Nat.lt_of_le_of_lt inside fits
  have within : i < 2 ^ 64 := small.trans few
  have before : buf + BitVec.ofNat 64 i ≠ buf + ofInt (-1) := by
    intro same
    have last : i = 2 ^ 64 - 1 := add_ofNat_inj within (by decide) same
    omega
  rw [Function.update_of_ne before, putBytes_apply bytes (fits.trans few).le within]
  split
  · rfl
  · rename_i behind
    have zero : (s.clear buf count).mem (buf + BitVec.ofNat 64 i) = 0 := by
      change putBytes s.mem buf (List.replicate count 0) _ = 0
      rw [putBytes_apply _ (by rw [List.length_replicate]; exact few.le) within,
        List.length_replicate, if_pos small, List.getD_replicate _ small]
    rw [zero, List.getD_eq_getElem?_getD, List.getElem?_eq_none (Nat.le_of_not_lt behind)]
    rfl

/-- `%d` reads the whole buffer, when the kernel says that it has read nothing: the terminator goes
before it. -/
theorem scanf_decimal {s : Reader} (answers : s.answers = ⟨bytes, 0⟩ :: rest)
    (string : ∀ c ∈ bytes, c ≠ 0) (fits : bytes.length < maxSize) (data : Word) (args : Nat → Word) :
    ∃ s', s.scanf data args decimalFormat = some (s', -1) ∧
      ∃ mem, s'.mem = Bytes.store mem (args 0) (ofInt (atoi bytes)).toNat 8 := by
  have few : maxSize < 2 ^ 64 := by
    unfold maxSize
    omega
  rw [← clear_answers s data maxSize] at answers
  have read := read_eq answers data maxSize
  have text := textAt_filled string fits few (s.clear data maxSize) data
  unfold Reader.scanf
  generalize s.clear data maxSize = s at read text
  generalize putBytes (s.clear data maxSize).mem data bytes = filled at read text
  have conversion : s.scanConversion data args (chr 'd') 0 (-1) = some
      (⟨Bytes.store (Function.update filled (data + ofInt (-1)) 0) (args 0)
        (ofInt (atoi bytes)).toNat 8, rest⟩, 1, -1, false) := by
    change (s.read data maxSize >>= _) = _
    rw [read]
    change (textAt (Function.update filled (data + ofInt (-1)) 0) data textRounds >>= _) = _
    rw [text]
    rfl
  refine ⟨⟨Bytes.store (Function.update filled (data + ofInt (-1)) 0) (args 0)
    (ofInt (atoi bytes)).toNat 8, rest⟩, ?_, _, rfl⟩
  change (s.scanConversion data args (chr 'd') 0 (-1) >>= _) = _
  rw [conversion]
  rfl

end

end Sbrocks.Libc
