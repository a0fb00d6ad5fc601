import Mathlib.Data.Nat.Digits.Lemmas
import Sbrocks.Libc.Printf

/-!
# The text of a number

What `number` writes is laid out as its flags ask, as long as the room that is left
of the field is an `int` that the padding loops can count down from: each of them
takes one more than it writes.
-/

namespace Sbrocks.Libc

open Sbrocks.Process

/-! ## What a number should look like -/

/-- The character of a digit. -/
def digitText (small : Bool) (digit : Nat) : Byte :=
  if digit < 10 then chr '0' + BitVec.ofNat 8 digit
  else (if small then chr 'a' else chr 'A') + BitVec.ofNat 8 (digit - 10)

/-- The digit of a character. -/
def digitValue (c : Byte) : Nat :=
  if c ≤ chr '9' then (c - chr '0').toNat
  else if c ≤ chr 'F' then (c - chr 'A').toNat + 10
  else (c - chr 'a').toNat + 10

/-- The number that a text of digits denotes, the first digit counting most. -/
def denotes (base : Nat) (text : List Byte) : Nat :=
  text.foldl (fun value c => value * base + digitValue c) 0

/-- The digits of a number without leading zeros; zero has one digit. -/
def canonical (base value : Nat) : List Nat :=
  if value = 0 then [0] else (Nat.digits base value).reverse

/-- The number behind the sign. -/
def magnitude (num : Word) (type : CInt) : Nat :=
  if has type Flag.sign then num.toInt.natAbs else num.toNat

/-- The sign that the flags ask for. -/
def signText (num : Word) (type : CInt) : List Byte :=
  if has type Flag.sign then
    if num.toInt < 0 then [chr '-']
    else if has type Flag.plus then [chr '+']
    else if has type Flag.space then [chr ' ']
    else []
  else []

/-- The prefix that the flags ask for. -/
def specialText (base : Nat) (type : CInt) : List Byte :=
  if has type Flag.special then
    if base = 16 then [chr '0', if has type Flag.small then chr 'x' else chr 'X']
    else if base = 8 then [chr '0']
    else []
  else []

/-- The characters of the digits that the flags ask for. -/
def digitsText (num : Word) (base : Nat) (type : CInt) : List Byte :=
  (canonical base (magnitude num type)).map (digitText (has type Flag.small))

/-- A number with its padding: behind it, or as zeros before its digits, or as spaces before it. -/
def layout (type : CInt) (room zeros : Nat) (sign special digits : List Byte) : List Byte :=
  let zeros := List.replicate zeros (chr '0')
  if has type Flag.left then
    sign ++ special ++ zeros ++ digits ++ List.replicate room (chr ' ')
  else if has type Flag.zeropad then
    sign ++ special ++ List.replicate room (chr '0') ++ zeros ++ digits
  else List.replicate room (chr ' ') ++ sign ++ special ++ zeros ++ digits

/-- The characters of a number without padding. -/
def bareLength (num : Word) (base : Nat) (precision : Int) (type : CInt) : Int :=
  (signText num type).length + (specialText base type).length +
    max precision (digitsText num base type).length

/-- A text shows a number in a field of some width as the flags ask. -/
structure Shows (num : Word) (base : Nat) (width precision : Int) (type : CInt)
    (text : List Byte) : Prop where
  /-- It fills the field, or needs more. -/
  length_eq : (text.length : Int) = max width (bareLength num base precision type)
  /-- Its parts stand in their order, and its digits denote the number. -/
  laid_out : ∃ room zeros digits,
    text = layout type room zeros (signText num type) (specialText base type) digits ∧
    zeros + digits.length = max precision digits.length ∧
    digits = digitsText num base type ∧ denotes base digits = magnitude num type

/-! ## Flags -/

/-- A flag is a bit. -/
theorem and_bit (type : CInt) (i : Nat) :
    type &&& BitVec.twoPow 32 i = if type.getLsbD i then BitVec.twoPow 32 i else 0 :=
  BitVec.and_twoPow type i

theorem has_bit (type : CInt) {i : Nat} (inside : i < 32) :
    has type (BitVec.twoPow 32 i) = type.getLsbD i := by
  have nonzero : BitVec.twoPow 32 i ≠ 0 := by
    intro zero
    have bit := congrArg (·.getLsbD i) zero
    simp [inside] at bit
  unfold has
  rw [and_bit]
  split <;> simp_all

theorem locase_eq (type : CInt) :
    (type &&& Flag.small).setWidth 8 = if has type Flag.small then (0x20 : Byte) else 0 := by
  have small : Flag.small = BitVec.twoPow 32 5 := rfl
  rw [small, has_bit type (by decide), and_bit]
  split <;> rfl

/-- Taking a flag away leaves the others. -/
theorem has_clear (type : CInt) {flag other : CInt} (apart : ~~~other &&& flag = flag) :
    has (type &&& ~~~other) flag = has type flag := by
  unfold has
  rw [BitVec.and_assoc, apart]

theorem has_cleared (type flag : CInt) : has (type &&& ~~~flag) flag = false := by
  unfold has
  rw [BitVec.and_assoc, BitVec.and_comm (~~~flag), BitVec.and_not_self]
  simp

theorem has_or (type flag other : CInt) :
    has type (flag ||| other) = (has type flag || has type other) := by
  unfold has
  rw [BitVec.and_or_distrib_left]
  simp only [ne_eq, BitVec.ofNat_eq_ofNat, BitVec.or_eq_zero_iff]
  grind

/-! ## Digits -/

theorem digitValue_digitText (small : Bool) :
    ∀ digit < 16, digitValue (digitText small digit) = digit := by
  cases small <;> decide

theorem digits_or (small : Bool) : ∀ digit < 16,
    digits[digit]?.map (· ||| (if small then 0x20 else 0)) = some (digitText small digit) := by
  cases small <;> decide

theorem denotes_append (base : Nat) (text rest : List Byte) :
    denotes base (text ++ rest) =
      rest.foldl (fun value c => value * base + digitValue c) (denotes base text) :=
  List.foldl_append

/-- The digits of a number denote it. -/
theorem denotes_digits {base : Nat} (large : 1 < base) (known : base ≤ 16) (small : Bool)
    (value : Nat) :
    denotes base ((Nat.digits base value).reverse.map (digitText small)) = value := by
  induction value using Nat.strongRecOn with
  | ind value ih =>
      by_cases zero : value = 0
      · subst zero
        simp [denotes]
      · have digit : value % base < 16 :=
          (Nat.mod_lt value (by omega)).trans_le known
        rw [Nat.digits_def' large (Nat.pos_of_ne_zero zero), List.reverse_cons, List.map_append,
          denotes_append, ih _ (Nat.div_lt_self (Nat.pos_of_ne_zero zero) large)]
        simp only [List.map_cons, List.map_nil, List.foldl_cons, List.foldl_nil,
          digitValue_digitText small _ digit]
        rw [Nat.mul_comm]
        exact Nat.div_add_mod value base

theorem denotes_digitsText (num : Word) {base : Nat} (large : 1 < base) (known : base ≤ 16)
    (type : CInt) : denotes base (digitsText num base type) = magnitude num type := by
  unfold digitsText canonical
  split
  · rename_i zero
    rw [zero]
    simp [denotes, digitValue_digitText]
  · exact denotes_digits large known _ _

/-- A number below a power of the base fits where that many digits do. -/
theorem digitLoop_eq {base : CInt} {b : Nat} (known : base.toNat = b) (large : 1 < b)
    (small : b ≤ 16) (type : CInt) :
    ∀ {room : Nat} {num : Word}, num.toNat < b ^ room →
      digitLoop base ((type &&& Flag.small).setWidth 8) num room =
        some ((Nat.digits b num.toNat).map (digitText (has type Flag.small))) := by
  have wide : (base.setWidth 64).toNat = b := by simp [known]; omega
  intro room
  induction room with
  | zero =>
      intro num below
      have zero : num = 0 := by
        apply BitVec.eq_of_toNat_eq
        simpa using below
      simp [digitLoop, zero]
  | succ room ih =>
      intro num below
      unfold digitLoop
      split
      · rename_i zero
        simp [zero]
      · rename_i nonzero
        have positive : 0 < num.toNat := by
          apply Nat.pos_of_ne_zero
          intro zero
          exact nonzero (BitVec.eq_of_toNat_eq zero)
        have shorter : (num / base.setWidth 64).toNat < b ^ room := by
          rw [BitVec.toNat_udiv, wide]
          exact Nat.div_lt_of_lt_mul (by rwa [Nat.pow_succ'] at below)
        have digit := digits_or (has type Flag.small) (num.toNat % b)
          ((Nat.mod_lt _ (by omega)).trans_le small)
        rw [Option.map_eq_some_iff] at digit
        rcases digit with ⟨c, found, text⟩
        rw [ih shorter, BitVec.toNat_umod, BitVec.toNat_udiv, wide, found, locase_eq,
          Nat.digits_def' large positive, List.map_cons, ← text]
        rfl

/-! ## The loops over the field -/

/-- A padding loop writes what its bound asks for, and takes one more. -/
theorem padLoop_eq (c : Byte) (limit size : CInt) :
    padLoop c limit size =
      (List.replicate (size.toInt - limit.toInt).toNat c,
        if limit.toInt < size.toInt then limit - 1 else size - 1) := by
  fun_induction padLoop c limit size with
  | case1 size more written size' again ih =>
      have stepped := toInt_pred more
      have room : (size.toInt - limit.toInt).toNat =
          ((size - 1).toInt - limit.toInt).toNat + 1 := by omega
      have last : (if limit.toInt < (size - 1).toInt then limit - 1 else size - 1 - 1) = limit - 1 := by
        split
        · rfl
        · have reached : size - 1 = limit := BitVec.eq_of_toInt_eq (by omega)
          rw [reached]
      rw [again, last, Prod.mk.injEq] at ih
      rw [room, List.replicate_succ, if_pos more, ih.1, ih.2]
  | case2 size done =>
      have none : (size.toInt - limit.toInt).toNat = 0 := by omega
      rw [none, if_neg done]
      rfl

/-! ## The parts of a number -/

theorem slt_zero (num : Word) : num.slt 0 = decide (num.toInt < 0) :=
  rfl

theorem takeSign_text (num : Word) (size type : CInt) :
    (takeSign num size type).1 = signText num type := by
  unfold takeSign signText
  simp only [slt_zero, decide_eq_true_eq]
  split_ifs <;> rfl

/-- The number behind the sign is the magnitude, also for the smallest one. -/
theorem takeSign_num (num : Word) (size type : CInt) :
    (takeSign num size type).2.1.toNat = magnitude num type := by
  have negative : num.toInt < 0 → (-num).toNat = num.toInt.natAbs := by
    intro below
    rw [BitVec.toNat_neg, BitVec.toInt_eq_toNat_cond] at *
    omega
  have positive : ¬num.toInt < 0 → num.toNat = num.toInt.natAbs := by
    intro above
    rw [BitVec.toInt_eq_toNat_cond] at *
    omega
  unfold takeSign magnitude
  simp only [slt_zero, decide_eq_true_eq]
  split_ifs <;> grind

theorem takeSign_size (num : Word) (size type : CInt) :
    (takeSign num size type).2.2 = size - BitVec.ofInt 32 (signText num type).length := by
  unfold takeSign signText
  simp only [slt_zero, decide_eq_true_eq]
  split_ifs <;> simp

theorem takeSign_clear (num : Word) (size type : CInt) :
    takeSign num size (type &&& ~~~Flag.zeropad) = takeSign num size type := by
  unfold takeSign
  simp only [has_clear type (show ~~~Flag.zeropad &&& Flag.sign = Flag.sign from rfl),
    has_clear type (show ~~~Flag.zeropad &&& Flag.plus = Flag.plus from rfl),
    has_clear type (show ~~~Flag.zeropad &&& Flag.space = Flag.space from rfl)]

theorem takeSpecial_clear (base size type : CInt) (locase : Byte) :
    takeSpecial base size (type &&& ~~~Flag.zeropad) locase = takeSpecial base size type locase := by
  unfold takeSpecial
  simp only [has_clear type (show ~~~Flag.zeropad &&& Flag.special = Flag.special from rfl)]

theorem takeSpecial_eq {base : CInt} {b : Nat} (known : base.toNat = b) (size type : CInt) :
    takeSpecial base size type ((type &&& Flag.small).setWidth 8) =
      (specialText b type, size - BitVec.ofInt 32 (specialText b type).length) := by
  have sixteen : base = 16 ↔ b = 16 := by
    rw [← known, ← BitVec.toNat_inj]
    rfl
  have eight : base = 8 ↔ b = 8 := by
    rw [← known, ← BitVec.toNat_inj]
    rfl
  unfold takeSpecial specialText
  rw [locase_eq]
  simp only [sixteen, eight]
  split_ifs
  all_goals simp
  decide

/-- What is left of a field behind a loop that counted it down to zero. -/
def spent (free : CInt) : CInt := if 0 < free.toInt then -1 else free - 1

/-- Padding. -/
def padding (c : Char) (free : CInt) : List Byte := List.replicate free.toInt.toNat (chr c)

/-- What the loops of `number` write when `free` is left of the field. -/
def written (type free : CInt) (zeros : Nat) (sign special digits : List Byte) : List Byte :=
  let zeros := List.replicate zeros (chr '0')
  if has type Flag.left then
    sign ++ special ++ zeros ++ digits ++ padding ' ' free
  else if has type Flag.zeropad then
    sign ++ special ++ padding '0' free ++ zeros ++ digits ++ padding ' ' (spent free)
  else
    padding ' ' free ++ sign ++ special ++ padding ' ' (spent free) ++ zeros ++ digits ++
      padding ' ' (spent (spent free))

theorem padLoop_zero (c : Char) (free : CInt) :
    padLoop (chr c) 0 free = (padding c free, spent free) := by
  have zero : (0 : CInt).toInt = 0 := rfl
  rw [padLoop_eq, zero, Int.sub_zero]
  rfl

section

variable {base : CInt} {b : Nat} (known : base.toNat = b) (printed : b = 8 ∨ b = 10 ∨ b = 16)
include known printed

/-- What `number` leaves in `tmp`. -/
theorem takeDigits_eq (num num' : Word) (type : CInt) (value : num'.toNat = magnitude num type) :
    takeDigits base ((type &&& Flag.small).setWidth 8) num' =
      some (digitsText num b type).reverse := by
  unfold takeDigits digitsText canonical
  rw [← value]
  by_cases zero : num' = 0
  · subst zero
    cases has type Flag.small <;> rfl
  · have nonzero : num'.toNat ≠ 0 := by
      intro again
      exact zero (BitVec.eq_of_toNat_eq again)
    have room : num'.toNat < b ^ tmpSize :=
      calc num'.toNat < 2 ^ 64 := num'.isLt
        _ ≤ 8 ^ tmpSize := by decide
        _ ≤ b ^ tmpSize := Nat.pow_le_pow_left (by omega) _
    rw [if_neg zero, if_neg nonzero, digitLoop_eq known (by omega) (by omega) type room,
      List.map_reverse, List.reverse_reverse]

omit known in
/-- The digits of a word are far fewer than `tmp` holds. -/
theorem digitsText_length (num : Word) (type : CInt) :
    0 < (digitsText num b type).length ∧ (digitsText num b type).length ≤ 22 := by
  have below : magnitude num type < 2 ^ 64 := by
    have := num.isLt
    unfold magnitude
    rw [BitVec.toInt_eq_toNat_cond]
    split_ifs <;> omega
  unfold digitsText canonical
  rw [List.length_map]
  split
  · decide
  · rename_i nonzero
    rw [List.length_reverse]
    refine ⟨?_, ?_⟩
    · exact List.length_pos_iff.mpr (Nat.digits_ne_nil_iff_ne_zero.mpr nonzero)
    · rw [Nat.digits_length_le_iff (by omega)]
      calc magnitude num type < 2 ^ 64 := below
        _ ≤ 8 ^ 22 := by decide
        _ ≤ b ^ 22 := Nat.pow_le_pow_left (by omega) _

omit known in
theorem digitsText_count (num : Word) (type : CInt) :
    (BitVec.ofNat 32 (digitsText num b type).length).toInt = (digitsText num b type).length := by
  have few := (digitsText_length printed num type).2
  rw [← BitVec.ofInt_natCast, BitVec.toInt_ofInt]
  exact Int.bmod_eq_of_le (by simp) (by simp; omega)

/-- The number of characters that `number` makes of the precision. -/
def shown (num : Word) (b : Nat) (precision type : CInt) : CInt :=
  let i : CInt := BitVec.ofNat 32 (digitsText num b type).length
  if precision.slt i then i else precision

/-- What `number` computes as left of the field. -/
def left (num : Word) (b : Nat) (size precision type : CInt) : CInt :=
  size - BitVec.ofInt 32 (signText num type).length - BitVec.ofInt 32 (specialText b type).length -
    shown num b precision type

theorem number_eq (num : Word) (size precision type : CInt) :
    number num base size precision type =
      some (written type (left num b size precision type)
        ((shown num b precision type).toInt - (digitsText num b type).length).toNat
        (signText num type) (specialText b type) (digitsText num b type)) := by
  have refused : (base.slt 2 || BitVec.slt 16 base) = false := by
    have : base = 8 ∨ base = 10 ∨ base = 16 := by
      rcases printed with rfl | rfl | rfl
      · exact .inl (BitVec.eq_of_toNat_eq known)
      · exact .inr (.inl (BitVec.eq_of_toNat_eq known))
      · exact .inr (.inr (BitVec.eq_of_toNat_eq known))
    rcases this with rfl | rfl | rfl <;> rfl
  have count := digitsText_count printed num type
  have special := fun size => takeSpecial_eq known size type
  have tmp := takeDigits_eq known printed num (takeSign num size type).2.1 type
    (takeSign_num num size type)
  have zeros := padLoop_eq (chr '0') (BitVec.ofNat 32 (digitsText num b type).length)
  have either : Flag.zeropad + Flag.left = Flag.zeropad ||| Flag.left := rfl
  unfold number written left shown
  simp only [refused]
  generalize (type &&& Flag.small).setWidth 8 = locase at tmp special ⊢
  -- A flag that puts the padding behind takes the zeros back.
  by_cases leftmost : has type Flag.left
  · have still : has (type &&& ~~~Flag.zeropad) Flag.left = true := by
      rw [has_clear type (show ~~~Flag.zeropad &&& Flag.left = Flag.left from rfl), leftmost]
    simp only [leftmost, either, has_or, still, takeSign_clear, takeSpecial_clear, special,
      takeSign_text, takeSign_size, tmp, padLoop_zero, zeros, count, Bool.or_true, if_true,
      Bool.false_eq_true, if_false, Option.bind_eq_bind, Option.bind_some, List.length_reverse,
      List.reverse_reverse, List.append_nil, List.nil_append]
  · cases filled : has type Flag.zeropad
    all_goals simp only [leftmost, filled, either, has_or, special,
      takeSign_text, takeSign_size, tmp, padLoop_zero, zeros, count, Bool.or_false, if_true,
      Bool.false_eq_true, if_false, Option.bind_eq_bind, Option.bind_some, List.length_reverse,
      List.reverse_reverse, List.nil_append]

end

/-! ## The room in the field -/

theorem signText_length (num : Word) (type : CInt) : (signText num type).length ≤ 1 := by
  unfold signText
  split_ifs <;> simp

theorem specialText_length (b : Nat) (type : CInt) : (specialText b type).length ≤ 2 := by
  unfold specialText
  split_ifs <;> simp

/-- What is left of a field of some width when a number stands in it. -/
def room (num : Word) (b : Nat) (size precision type : CInt) : Int :=
  size.toInt - bareLength num b precision.toInt type

/-- The least room from which the loops of the padding can count down. -/
def lastRoom (type : CInt) : Int :=
  if has type Flag.left then -2 ^ 31
  else if has type Flag.zeropad then -2 ^ 31 + 1
  else -2 ^ 31 + 2

/-- The padding that is written when a count wraps around. -/
def spill (type free : CInt) : Nat :=
  if has type Flag.left then 0
  else if has type Flag.zeropad then (spent free).toInt.toNat
  else (spent free).toInt.toNat + (spent (spent free)).toInt.toNat

theorem spent_toInt (free : CInt) :
    (spent free).toInt =
      if 0 < free.toInt then -1
      else if free.toInt = -2 ^ 31 then 2 ^ 31 - 1
      else free.toInt - 1 := by
  have low := BitVec.le_toInt free
  have high := BitVec.toInt_lt (x := free)
  unfold spent
  split
  · rfl
  · rename_i done
    have one : (1 : CInt).toInt = 1 := rfl
    rw [BitVec.toInt_sub, one, Int.bmod_def]
    split_ifs <;> omega

theorem spill_eq (type free : CInt) :
    spill type free = if free.toInt < lastRoom type then 2 ^ 31 - 1 else 0 := by
  have low := BitVec.le_toInt free
  have once := spent_toInt free
  have twice := spent_toInt (spent free)
  unfold spill lastRoom
  split_ifs at once twice ⊢ <;> omega

theorem written_length (type free : CInt) (zeros : Nat) (sign special digits : List Byte) :
    (written type free zeros sign special digits).length =
      free.toInt.toNat + spill type free + sign.length + special.length + zeros +
        digits.length := by
  unfold written spill padding
  split_ifs <;> simp <;> omega

/-- Nothing spills where the text is laid out. -/
theorem written_eq_layout {type free : CInt} (kept : spill type free = 0) (zeros : Nat)
    (sign special digits : List Byte) :
    written type free zeros sign special digits =
      layout type free.toInt.toNat zeros sign special digits := by
  unfold spill at kept
  unfold written layout padding
  split_ifs at kept ⊢
  · rfl
  · simp only [kept, List.replicate_zero, List.append_nil]
  · obtain ⟨once, twice⟩ := Nat.add_eq_zero_iff.mp kept
    simp only [once, twice, List.replicate_zero, List.append_nil]

theorem shown_toInt {b : Nat} (printed : b = 8 ∨ b = 10 ∨ b = 16) (num : Word)
    (precision type : CInt) :
    (shown num b precision type).toInt =
      max precision.toInt (digitsText num b type).length := by
  have count := digitsText_count printed num type
  unfold shown
  simp only [BitVec.slt_iff_toInt_lt, count]
  split <;> omega

/-- The room that `number` computes is the room, up to its wrapping around. -/
theorem left_toInt {b : Nat} (printed : b = 8 ∨ b = 10 ∨ b = 16) (num : Word)
    (size precision type : CInt) :
    (left num b size precision type).toInt =
      (room num b size precision type).bmod (2 ^ 32) := by
  unfold left
  rw [BitVec.toInt_sub, BitVec.toInt_sub, BitVec.toInt_sub, shown_toInt printed]
  simp only [BitVec.toInt_ofInt, Int.bmod_sub_bmod, Int.sub_bmod_bmod]
  unfold room bareLength
  congr 1
  omega

section

variable {b : Nat} (printed : b = 8 ∨ b = 10 ∨ b = 16)
include printed

/-- The computed room is the room, up to its wrapping around, and nothing spills, exactly where the
count of the padding stays inside an `int` or comes back to nothing. -/
theorem padded_iff (num : Word) (size precision type : CInt) :
    (left num b size precision type).toInt.toNat + spill type (left num b size precision type) =
        (room num b size precision type).toNat ↔
      room num b size precision type ≤ -2 ^ 32 ∨ lastRoom type ≤ room num b size precision type := by
  have computed := left_toInt printed num size precision type
  have sign := signText_length num type
  have special := specialText_length b type
  have few := digitsText_length printed num type
  have narrow := BitVec.le_toInt size
  have wide := BitVec.toInt_lt (x := size)
  have precise := BitVec.toInt_lt (x := precision)
  rw [spill_eq, computed, Int.bmod_def]
  unfold room bareLength lastRoom
  split_ifs <;> omega

theorem number_length (num : Word) (size precision type : CInt) :
    ((written type (left num b size precision type)
        ((shown num b precision type).toInt - (digitsText num b type).length).toNat
        (signText num type) (specialText b type) (digitsText num b type)).length : Int) =
      ((left num b size precision type).toInt.toNat +
        spill type (left num b size precision type) : Nat) +
        bareLength num b precision.toInt type := by
  rw [written_length, shown_toInt printed]
  unfold bareLength
  omega

end

section

variable {base : CInt} {b : Nat} (known : base.toNat = b) (printed : b = 8 ∨ b = 10 ∨ b = 16)
include known printed

/-- A number that shows has its padding. -/
theorem room_of_shows {num : Word} {size precision type : CInt} {text : List Byte}
    (put : number num base size precision type = some text)
    (shows' : Shows num b size.toInt precision.toInt type text) :
    room num b size precision type ≤ -2 ^ 32 ∨ lastRoom type ≤ room num b size precision type := by
  rw [number_eq known printed, Option.some.injEq] at put
  have length := shows'.length_eq
  rw [← put, number_length printed] at length
  rw [← padded_iff printed]
  unfold room
  omega

/-- A number with its padding shows. -/
theorem shows_of_room {num : Word} {size precision type : CInt}
    (fits : room num b size precision type ≤ -2 ^ 32 ∨
      lastRoom type ≤ room num b size precision type) :
    ∃ text, number num base size precision type = some text ∧
      Shows num b size.toInt precision.toInt type text := by
  refine ⟨_, number_eq known printed num size precision type, ?_, ?_⟩
  · have padded := (padded_iff printed num size precision type).mpr fits
    rw [number_length printed, padded]
    unfold room
    omega
  · have kept : spill type (left num b size precision type) = 0 := by
      have padded := (padded_iff printed num size precision type).mpr fits
      have few := digitsText_length printed num type
      have wide := BitVec.toInt_lt (x := size)
      unfold room bareLength at padded
      rw [spill_eq] at padded ⊢
      split at padded
      · omega
      · rename_i above
        exact if_neg above
    refine ⟨_, _, _, written_eq_layout kept _ _ _ _, ?_, rfl, ?_⟩
    · rw [shown_toInt printed]
      omega
    · exact denotes_digitsText num (by omega) (by omega) type

end

/-- `number` shows every number in every field, except for a room so far below zero that the count
of the padding wraps around. -/
theorem number_shows_iff (num : Word) {base : CInt} (printed : base = 8 ∨ base = 10 ∨ base = 16)
    (size precision type : CInt) :
    (∃ text, number num base size precision type = some text ∧
      Shows num base.toNat size.toInt precision.toInt type text) ↔
    room num base.toNat size precision type ≤ -2 ^ 32 ∨
      lastRoom type ≤ room num base.toNat size precision type := by
  have printed : base.toNat = 8 ∨ base.toNat = 10 ∨ base.toNat = 16 := by
    rcases printed with rfl | rfl | rfl <;> decide
  constructor
  · rintro ⟨text, put, shows'⟩
    exact room_of_shows rfl printed put shows'
  · exact shows_of_room rfl printed

/-- The least number in a field of twenty-four, with its sign before zeros. -/
theorem number_shows_least :
    ∃ text, number (BitVec.ofInt 64 (-2 ^ 63)) 10 24 (-1) (Flag.sign ||| Flag.zeropad) = some text ∧
      Shows (BitVec.ofInt 64 (-2 ^ 63)) 10 24 (-1) (Flag.sign ||| Flag.zeropad) text :=
  (number_shows_iff _ (by decide) _ _ _).mpr (.inr (by decide))

/-- A number with the largest precision does not show: the spaces that no width asked for take
all of an `int`. -/
theorem number_wraps_precise :
    ¬∃ text, number 5 10 (-1) 0x7fffffff Flag.sign = some text ∧
      Shows 5 10 (-1) 0x7fffffff Flag.sign text := by
  rintro ⟨text, put, shows'⟩
  have fits := room_of_shows (b := 10) rfl (by decide) put shows'
  revert fits
  decide

end Sbrocks.Libc
