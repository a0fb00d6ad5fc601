import Sbrocks.Libc.Decimal
import Sbrocks.Libc.Formats

/-!
# The language of formats

A format is a text of characters and directives.  `vsprintf` reads it as it was written: what it
prints, stores and takes from its arguments is what the parts of the format do, one after the
other.
-/

namespace Sbrocks.Libc

open Sbrocks.Process

/-! ## Directives -/

/-- The flags of a directive. -/
inductive FlagChar where
  | left
  | plus
  | space
  | special
  | zeropad

namespace FlagChar

def code : FlagChar → Byte
  | left => chr '-'
  | plus => chr '+'
  | space => chr ' '
  | special => chr '#'
  | zeropad => chr '0'

def flag : FlagChar → CInt
  | left => Flag.left
  | plus => Flag.plus
  | space => Flag.space
  | special => Flag.special
  | zeropad => Flag.zeropad

end FlagChar

/-- The decimal digits of a number in a format. -/
def numberText (n : Nat) : List Byte := (canonical 10 n).map (digitText false)

/-- A field width: none, a number, or an argument. -/
inductive Width where
  | none
  | number (n : Nat) (positive : 0 < n)
  | argument

/-- A precision: none, a dot alone, a number, or an argument. -/
inductive Precision where
  | none
  | bare
  | number (n : Nat)
  | argument

/-- The size of an argument. -/
inductive Qualifier where
  | short
  | long
  | longDouble

/-- The last letter of a directive. -/
inductive Conversion where
  | char
  | string
  | pointer
  | count
  | percent
  | octal
  | small
  | capital
  | decimal
  | integer
  | unsigned

namespace Width

def text : Width → List Byte
  | none => []
  | number n _ => numberText n
  | argument => [chr '*']

/-- The width, and the flags with it. -/
def take (args : Arguments) (flags : CInt) (s : Scan) : Width → CInt × CInt × Scan
  | none => (-1, flags, s)
  | number n _ => (BitVec.ofNat 32 n, flags, s)
  | argument =>
      let (arg, s) := s.vaArg args
      let width : CInt := arg.setWidth 32
      if width.slt 0 then (-width, flags ||| Flag.left, s) else (width, flags, s)

end Width

namespace Precision

def text : Precision → List Byte
  | none => []
  | bare => [chr '.']
  | number n => chr '.' :: numberText n
  | argument => [chr '.', chr '*']

/-- The precision, none of which is below zero. -/
def take (args : Arguments) (s : Scan) : Precision → CInt × Scan
  | none => (-1, s)
  | bare => (0, s)
  | number n => (atLeastZero (BitVec.ofNat 32 n), s)
  | argument =>
      let (arg, s) := s.vaArg args
      (atLeastZero (arg.setWidth 32), s)

end Precision

namespace Qualifier

def code : Qualifier → Byte
  | short => chr 'h'
  | long => chr 'l'
  | longDouble => chr 'L'

end Qualifier

namespace Conversion

def code : Conversion → Byte
  | char => chr 'c'
  | string => chr 's'
  | pointer => chr 'p'
  | count => chr 'n'
  | percent => chr '%'
  | octal => chr 'o'
  | small => chr 'x'
  | capital => chr 'X'
  | decimal => chr 'd'
  | integer => chr 'i'
  | unsigned => chr 'u'

/-- What a conversion writes and stores. -/
def put (args : Arguments) (s : Scan) (qualifier : Option Byte) (flags width precision : CInt) :
    Conversion → Option Scan
  | char => some (s.putChar args flags width)
  | string => some (s.putString args flags width)
  | pointer => s.putPointer args flags width precision
  | count => some (s.storeCount args qualifier)
  | percent => some (s.put [chr '%'])
  | octal => s.putInteger args qualifier 8 flags width precision
  | small => s.putInteger args qualifier 16 (flags ||| Flag.small) width precision
  | capital => s.putInteger args qualifier 16 flags width precision
  | decimal => s.putInteger args qualifier 10 (flags ||| Flag.sign) width precision
  | integer => s.putInteger args qualifier 10 (flags ||| Flag.sign) width precision
  | unsigned => s.putInteger args qualifier 10 flags width precision

end Conversion

/-- A conversion specification. -/
structure Directive where
  flags : List FlagChar
  width : Width
  precision : Precision
  qualifier : Option Qualifier
  conversion : Conversion

namespace Directive

/-- What stands behind the `%`. -/
def text (d : Directive) : List Byte :=
  d.flags.map FlagChar.code ++ d.width.text ++ d.precision.text ++
    d.qualifier.toList.map Qualifier.code ++ [d.conversion.code]

/-- What a directive does. -/
def write (args : Arguments) (d : Directive) (s : Scan) : Option Scan :=
  let flags := d.flags.foldl (fun flags c => flags ||| c.flag) 0
  let (width, flags, s) := d.width.take args flags s
  let (precision, s) := d.precision.take args s
  d.conversion.put args s (d.qualifier.map Qualifier.code) flags width precision

end Directive

/-- A part of a format: a character that stands for itself, or a directive. -/
inductive Piece where
  | char (c : Byte) (plain : c ≠ 0 ∧ c ≠ chr '%')
  | directive (d : Directive)

namespace Piece

def text : Piece → List Byte
  | char c _ => [c]
  | directive d => chr '%' :: d.text

def write (args : Arguments) (s : Scan) : Piece → Option Scan
  | char c _ => some (s.put [c])
  | directive d => d.write args s

end Piece

/-! ## Reading a format -/

section

variable {format rest : List Byte} {fmt : Nat} {c : Byte}

/-- What is still to be read of a format, with its terminator. -/
def Ahead (format : List Byte) (fmt : Nat) (rest : List Byte) : Prop :=
  (format ++ [0]).drop fmt = rest

theorem Ahead.charAt (ahead : Ahead format fmt (c :: rest)) : charAt format fmt = some c := by
  have head := congrArg (·[0]?) ahead
  rw [List.getElem?_drop] at head
  exact head

theorem Ahead.next (ahead : Ahead format fmt (c :: rest)) : Ahead format (fmt + 1) rest := by
  have tail := congrArg (List.drop 1) ahead
  rw [List.drop_drop] at tail
  exact tail

theorem Ahead.skip {text : List Byte} (ahead : Ahead format fmt (text ++ rest)) :
    Ahead format (fmt + text.length) rest := by
  have tail := congrArg (List.drop text.length) ahead
  rw [List.drop_drop, List.drop_left] at tail
  exact tail

/-! ### Digits -/

theorem isdigit_digitText : ∀ d < 10, isdigit (digitText false d) = true := by decide

theorem digit_step (value : Nat) : ∀ d < 10,
    (BitVec.ofNat 32 value * 10 + (digitText false d).signExtend 32 -
      (chr '0').signExtend 32 : CInt) = BitVec.ofNat 32 (value * 10 + d) := by
  intro d small
  have code : (digitText false d).signExtend 32 - (chr '0').signExtend 32 = BitVec.ofNat 32 d := by
    revert d
    decide
  rw [BitVec.sub_eq_add_neg, BitVec.add_assoc, ← BitVec.sub_eq_add_neg, code, BitVec.ofNat_add,
    BitVec.ofNat_mul]
  rfl

theorem skipAtoi_digits {ds : List Nat} {rounds : Nat} (value : Nat) (small : ∀ d ∈ ds, d < 10)
    (ahead : Ahead format fmt (ds.map (digitText false) ++ c :: rest)) (stop : isdigit c = false)
    (enough : ds.length < rounds) : skipAtoi format fmt (BitVec.ofNat 32 value) rounds =
      some (BitVec.ofNat 32 (ds.foldl (fun value d => value * 10 + d) value), fmt + ds.length) := by
  induction ds generalizing fmt rounds value with
  | nil =>
      obtain ⟨rounds, rfl⟩ := Nat.exists_eq_succ_of_ne_zero (Nat.ne_of_gt enough)
      rw [List.map_nil, List.nil_append] at ahead
      rw [skipAtoi, ahead.charAt, Option.bind_eq_bind, Option.bind_some, if_neg (by simp [stop])]
      rfl
  | cons d ds ih =>
      obtain ⟨rounds, rfl⟩ := Nat.exists_eq_succ_of_ne_zero (Nat.ne_zero_of_lt enough)
      have first := small d List.mem_cons_self
      have behind := ih (value * 10 + d) (fun d member => small d (List.mem_cons_of_mem _ member))
        ahead.next (Nat.lt_of_succ_lt_succ enough)
      rw [List.map_cons, List.cons_append] at ahead
      rw [skipAtoi, ahead.charAt, Option.bind_eq_bind, Option.bind_some,
        if_pos (isdigit_digitText d first), digit_step value d first, behind, List.foldl_cons,
        List.length_cons, Nat.add_right_comm, Nat.add_assoc]

theorem numberText_length (n : Nat) : (numberText n).length = (canonical 10 n).length :=
  List.length_map _

theorem foldl_canonical (n : Nat) :
    (canonical 10 n).foldl (fun value d => value * 10 + d) 0 = n := by
  have same : ∀ (ds : List Nat) (value : Nat), (∀ d ∈ ds, d < 10) →
      ds.foldl (fun value d => value * 10 + d) value =
        (ds.map (digitText false)).foldl (fun value c => value * 10 + digitValue c) value := by
    intro ds
    induction ds with
    | nil => exact fun _ _ => rfl
    | cons d ds ih =>
        intro value small
        rw [List.foldl_cons, List.map_cons, List.foldl_cons, digitValue_digitText false d
          (Nat.lt_trans (small d List.mem_cons_self) (by decide))]
        exact ih _ fun d member => small d (List.mem_cons_of_mem _ member)
  rw [same _ _ (canonical_lt n)]
  exact denotes_canonical n

/-- `skip_atoi` reads a number back. -/
theorem skipAtoi_numberText {n : Nat} (ahead : Ahead format fmt (numberText n ++ c :: rest))
    (stop : isdigit c = false) : skipAtoi format fmt 0 (formatRounds format) =
      some (BitVec.ofNat 32 n, fmt + (numberText n).length) := by
  have fits : (canonical 10 n).length < formatRounds format := by
    have whole := congrArg List.length ahead
    simp only [List.length_drop, List.length_append, numberText_length, List.length_cons,
      List.length_nil] at whole
    unfold formatRounds
    omega
  have read := skipAtoi_digits 0 (canonical_lt n) ahead stop fits
  rw [foldl_canonical, ← numberText_length] at read
  exact read

/-! ### Options -/

theorem flagOf_code (flag : FlagChar) : flagOf flag.code = some flag.flag := by
  cases flag <;> rfl

theorem flagLoop_flags {flags : List FlagChar} {first : Byte} {rounds : Nat}
    (type : CInt) (ahead : Ahead format fmt (first :: (flags.map FlagChar.code ++ c :: rest)))
    (stop : flagOf c = none) (enough : flags.length < rounds) :
    flagLoop format fmt type rounds =
      some (flags.foldl (fun type flag => type ||| flag.flag) type, fmt + 1 + flags.length) := by
  induction flags generalizing fmt first type rounds with
  | nil =>
      obtain ⟨rounds, rfl⟩ := Nat.exists_eq_succ_of_ne_zero (Nat.ne_of_gt enough)
      rw [flagLoop, ahead.next.charAt]
      simp only [Option.bind_eq_bind, Option.bind_some, stop]
      rfl
  | cons flag flags ih =>
      obtain ⟨rounds, rfl⟩ := Nat.exists_eq_succ_of_ne_zero (Nat.ne_zero_of_lt enough)
      have behind := ih (type ||| flag.flag) ahead.next (Nat.lt_of_succ_lt_succ enough)
      have found := ahead.next.charAt
      rw [flagLoop, found]
      simp only [Option.bind_eq_bind, Option.bind_some, flagOf_code]
      rw [behind, List.foldl_cons, List.length_cons]
      congr 2
      omega

theorem numberText_cons (n : Nat) :
    ∃ first ds, numberText n = first :: ds ∧ isdigit first = true := by
  unfold numberText
  cases digits : canonical 10 n with
  | nil =>
      unfold canonical at digits
      split at digits
      · cases digits
      · rename_i nonzero
        exact absurd (List.reverse_eq_nil_iff.mp digits) (Nat.digits_ne_nil_iff_ne_zero.mpr nonzero)
  | cons d ds =>
      exact ⟨_, _, rfl, isdigit_digitText d (canonical_lt n d (digits ▸ List.mem_cons_self))⟩

theorem getWidth_width (args : Arguments) (s : Scan) {width : Width} (flags : CInt)
    (ahead : Ahead format s.fmt (width.text ++ c :: rest)) (stop : isdigit c = false)
    (other : c ≠ chr '*') : getWidth format args s flags =
      some (width.take args flags { s with fmt := s.fmt + width.text.length }) := by
  cases width with
  | none =>
      rw [getWidth, ahead.charAt, Option.bind_eq_bind, Option.bind_some, if_neg (by simp [stop]),
        if_neg other]
      rfl
  | number n positive =>
      have read := skipAtoi_numberText ahead stop
      rcases numberText_cons n with ⟨first, ds, digits, digit⟩
      have start : Ahead format s.fmt (first :: (ds ++ c :: rest)) := by
        rw [← List.cons_append, ← digits]
        exact ahead
      rw [getWidth, start.charAt, Option.bind_eq_bind, Option.bind_some, if_pos digit, read]
      rfl
  | argument =>
      have star : isdigit (chr '*') = false := by decide
      rw [getWidth, ahead.charAt, Option.bind_eq_bind, Option.bind_some, if_neg (by simp [star]),
        if_pos rfl]
      by_cases negative : ((args.word s.args).setWidth 32 : CInt).slt 0
      · exact (if_pos negative).trans (congrArg some (if_pos negative).symm)
      · exact (if_neg negative).trans (congrArg some (if_neg negative).symm)

theorem getPrecision_precision (args : Arguments) (s : Scan) {precision : Precision}
    (ahead : Ahead format s.fmt (precision.text ++ c :: rest)) (stop : isdigit c = false)
    (other : c ≠ chr '*') (dot : c ≠ chr '.') : getPrecision format args s =
      some (precision.take args { s with fmt := s.fmt + precision.text.length }) := by
  cases precision with
  | none =>
      rw [getPrecision, ahead.charAt, Option.bind_eq_bind, Option.bind_some, if_neg dot]
      rfl
  | bare =>
      have behind : charAt format s.skip.fmt = some c := ahead.next.charAt
      rw [getPrecision, ahead.charAt, Option.bind_eq_bind, Option.bind_some, if_pos rfl]
      simp only [behind, Option.bind_some]
      rw [if_neg (by simp [stop]), if_neg other]
      rfl
  | number n =>
      have read := skipAtoi_numberText ahead.next stop
      rcases numberText_cons n with ⟨first, ds, digits, digit⟩
      have start : Ahead format s.skip.fmt (first :: (ds ++ c :: rest)) := by
        rw [← List.cons_append, ← digits]
        exact ahead.next
      rw [getPrecision, ahead.charAt, Option.bind_eq_bind, Option.bind_some, if_pos rfl]
      simp only [start.charAt, Option.bind_some]
      rw [if_pos digit]
      have skipped : skipAtoi format s.skip.fmt 0 (formatRounds format) = _ := read
      rw [skipped, Option.bind_eq_bind, Option.bind_some, Nat.add_assoc, Nat.add_comm 1]
      rfl
  | argument =>
      have star : isdigit (chr '*') = false := by decide
      have behind : charAt format s.skip.fmt = some (chr '*') := ahead.next.charAt
      rw [getPrecision, ahead.charAt, Option.bind_eq_bind, Option.bind_some, if_pos rfl]
      simp only [behind, Option.bind_some]
      rw [if_neg (by simp [star]), if_pos trivial]
      rfl

theorem getQualifier_qualifier (s : Scan) {qualifier : Option Qualifier}
    (ahead : Ahead format s.fmt (qualifier.toList.map Qualifier.code ++ c :: rest))
    (other : c ≠ chr 'h' ∧ c ≠ chr 'l' ∧ c ≠ chr 'L') : getQualifier format s =
      some (qualifier.map Qualifier.code,
        { s with fmt := s.fmt + (qualifier.toList.map Qualifier.code).length }) := by
  cases qualifier with
  | none =>
      rw [getQualifier, ahead.charAt, Option.bind_eq_bind, Option.bind_some,
        if_neg (not_or.mpr ⟨other.1, not_or.mpr other.2⟩)]
      rfl
  | some qualifier =>
      have known : qualifier.code = chr 'h' ∨ qualifier.code = chr 'l' ∨
          qualifier.code = chr 'L' := by
        cases qualifier <;> decide
      rw [getQualifier, ahead.charAt, Option.bind_eq_bind, Option.bind_some, if_pos known]
      rfl

theorem convertTo_conversion (args : Arguments) (s : Scan) {conversion : Conversion}
    (ahead : Ahead format s.fmt (conversion.code :: rest)) (qualifier : Option Byte)
    (flags width precision : CInt) :
    convertTo format args s qualifier flags width precision =
      conversion.put args s qualifier flags width precision := by
  rw [convertTo, ahead.charAt, Option.bind_eq_bind, Option.bind_some]
  cases conversion <;> rfl

/-! ### Directives -/

/-- The same, elsewhere in the format. -/
def Scan.moved (s : Scan) (fmt : Nat) : Scan := { s with fmt }

/-- The letters that end a directive are none of its options. -/
theorem code_other (conversion : Conversion) : flagOf conversion.code = none ∧
    isdigit conversion.code = false ∧ conversion.code ≠ chr '*' ∧ conversion.code ≠ chr '.' ∧
    conversion.code ≠ chr 'h' ∧ conversion.code ≠ chr 'l' ∧ conversion.code ≠ chr 'L' := by
  cases conversion <;> decide

theorem behindPrecision (qualifier : Option Qualifier) (conversion : Conversion)
    (rest : List Byte) :
    ∃ c tail, qualifier.toList.map Qualifier.code ++ conversion.code :: rest = c :: tail ∧
      flagOf c = none ∧ isdigit c = false ∧ c ≠ chr '*' ∧ c ≠ chr '.' := by
  cases qualifier with
  | none =>
      rcases code_other conversion with ⟨flag, digit, star, dot, _⟩
      exact ⟨_, _, rfl, flag, digit, star, dot⟩
  | some qualifier =>
      refine ⟨_, _, rfl, ?_⟩
      cases qualifier <;> decide

theorem behindWidth (precision : Precision) {text : List Byte}
    (options : ∃ c tail, text = c :: tail ∧
      flagOf c = none ∧ isdigit c = false ∧ c ≠ chr '*' ∧ c ≠ chr '.') :
    ∃ c tail, precision.text ++ text = c :: tail ∧
      flagOf c = none ∧ isdigit c = false ∧ c ≠ chr '*' := by
  have dot : flagOf (chr '.') = none ∧ isdigit (chr '.') = false ∧ chr '.' ≠ chr '*' := by decide
  cases precision with
  | none =>
      rcases options with ⟨c, tail, same, flag, digit, star, _⟩
      exact ⟨c, tail, same, flag, digit, star⟩
  | bare => exact ⟨_, _, rfl, dot⟩
  | number n => exact ⟨_, _, rfl, dot⟩
  | argument => exact ⟨_, _, rfl, dot⟩

theorem behindFlags (width : Width) {text : List Byte}
    (options : ∃ c tail, text = c :: tail ∧ flagOf c = none ∧ isdigit c = false ∧ c ≠ chr '*') :
    ∃ c tail, width.text ++ text = c :: tail ∧ flagOf c = none := by
  cases width with
  | none =>
      rcases options with ⟨c, tail, same, flag, _⟩
      exact ⟨c, tail, same, flag⟩
  | number n positive =>
      have nonzero : n ≠ 0 := Nat.ne_of_gt positive
      have nonempty := Nat.digits_ne_nil_iff_ne_zero (b := 10) |>.mpr nonzero
      have plain : ∀ d < 10, d ≠ 0 → flagOf (digitText false d) = none := by decide
      have leading := Nat.getLast_digit_ne_zero 10 nonzero
      have reversed : (Nat.digits 10 n).reverse =
          (Nat.digits 10 n).getLast nonempty :: (Nat.digits 10 n).dropLast.reverse := by
        conv_lhs => rw [← List.dropLast_append_getLast nonempty]
        rw [List.reverse_append]
        rfl
      refine ⟨digitText false ((Nat.digits 10 n).getLast nonempty),
        (Nat.digits 10 n).dropLast.reverse.map (digitText false) ++ text, ?_, ?_⟩
      · rw [Width.text, numberText, canonical, if_neg nonzero, reversed]
        rfl
      · exact plain _ (Nat.digits_lt_base (by decide) (List.getLast_mem nonempty)) leading
  | argument => exact ⟨_, _, rfl, by decide⟩

theorem Width.take_fmt (args : Arguments) (flags : CInt) (s : Scan) (width : Width) :
    (width.take args flags s).2.2.fmt = s.fmt := by
  cases width with
  | argument =>
      unfold Width.take
      dsimp only
      split <;> rfl
  | _ => rfl

theorem Precision.take_fmt (args : Arguments) (s : Scan) (precision : Precision) :
    (precision.take args s).2.fmt = s.fmt := by
  cases precision <;> rfl

/-- Options do not look at the place in the format. -/
theorem Width.take_moved (args : Arguments) (flags : CInt) (s : Scan) (width : Width) (fmt : Nat) :
    width.take args flags (s.moved fmt) =
      ((width.take args flags s).1, (width.take args flags s).2.1,
        (width.take args flags s).2.2.moved fmt) := by
  cases width with
  | argument =>
      by_cases negative : ((args.word s.args).setWidth 32 : CInt).slt 0
      · have taken : Width.argument.take args flags s = _ := if_pos negative
        rw [taken]
        exact if_pos negative
      · have taken : Width.argument.take args flags s = _ := if_neg negative
        rw [taken]
        exact if_neg negative
  | _ => rfl

theorem Precision.take_moved (args : Arguments) (s : Scan) (precision : Precision) (fmt : Nat) :
    precision.take args (s.moved fmt) =
      ((precision.take args s).1, (precision.take args s).2.moved fmt) := by
  cases precision <;> rfl

/-- A directive is read as it was written. -/
theorem convert_directive (args : Arguments) (s : Scan) (d : Directive)
    (ahead : Ahead format s.fmt (chr '%' :: (d.text ++ rest))) :
    convert format args s = d.write args (s.moved (s.fmt + d.text.length)) := by
  rcases d with ⟨flags, width, precision, qualifier, conversion⟩
  have letters := behindPrecision qualifier conversion rest
  have points := behindWidth precision letters
  rcases letters with ⟨c₃, tail₃, same₃, _, digit₃, star₃, dot₃⟩
  rcases behindFlags width points with ⟨c₁, tail₁, same₁, flag₁⟩
  rcases points with ⟨c₂, tail₂, same₂, _, digit₂, star₂⟩
  have whole : Ahead format s.fmt (chr '%' :: (flags.map FlagChar.code ++ (width.text ++
      (precision.text ++ (qualifier.toList.map Qualifier.code ++ conversion.code :: rest))))) := by
    have text := ahead
    simp only [Directive.text, List.append_assoc] at text
    exact text
  have enough : flags.length < formatRounds format := by
    have length := congrArg List.length whole
    simp only [List.length_drop, List.length_append, List.length_cons, List.length_map,
      List.length_nil] at length
    unfold formatRounds
    omega
  have flagged := flagLoop_flags 0 (same₁ ▸ whole) flag₁ enough
  have width_ahead := whole.next.skip
  rw [List.length_map] at width_ahead
  have precision_ahead := width_ahead.skip
  have qualifier_ahead := precision_ahead.skip
  have letter_ahead := qualifier_ahead.skip
  have length : s.fmt + (Directive.text ⟨flags, width, precision, qualifier, conversion⟩).length =
      s.fmt + 1 + flags.length + width.text.length + precision.text.length +
        (qualifier.toList.map Qualifier.code).length := by
    simp only [Directive.text, List.length_append, List.length_map, List.length_singleton]
    omega
  have unfolded : convert format args s =
      (flagLoop format s.fmt 0 (formatRounds format)).bind fun a =>
        (getWidth format args (s.moved a.2) a.1).bind fun w =>
          (getPrecision format args w.2.2).bind fun p =>
            (getQualifier format p.2).bind fun q =>
              convertTo format args q.2 q.1 w.2.1 w.1 p.1 := rfl
  rw [unfolded, flagged, Option.bind_some, length]
  unfold Directive.write
  dsimp only
  generalize flags.foldl (fun type flag => type ||| flag.flag) 0 = type
  generalize s.fmt + 1 + flags.length = fmt at *
  have widened : getWidth format args (s.moved fmt) type = some (width.take args type
      (s.moved (fmt + width.text.length))) :=
    getWidth_width args (s.moved fmt) type (same₂ ▸ width_ahead) digit₂ star₂
  rw [widened, Option.bind_some, Width.take_moved, Width.take_moved]
  generalize width.take args type s = w
  have precise : getPrecision format args (w.2.2.moved (fmt + width.text.length)) =
      some (precision.take args
        (w.2.2.moved (fmt + width.text.length + precision.text.length))) :=
    getPrecision_precision args _ (same₃ ▸ precision_ahead) digit₃ star₃ dot₃
  rw [precise, Option.bind_some, Precision.take_moved, Precision.take_moved]
  generalize precision.take args w.2.2 = p
  have qualified := getQualifier_qualifier
    (p.2.moved (fmt + width.text.length + precision.text.length)) qualifier_ahead
    (code_other conversion).2.2.2.2
  rw [qualified, Option.bind_some]
  exact convertTo_conversion args _ letter_ahead _ _ _ _

/-! ### Formats -/

/-- Writing is the same everywhere in a format. -/
theorem bind_put_moved (written : Option (List Byte)) (s : Scan) (fmt : Nat) :
    (written >>= fun text => some ((s.moved fmt).put text)) =
      (written >>= fun text => some (s.put text)).map (Scan.moved · fmt) := by
  cases written <;> rfl

/-- What a directive does is the same everywhere in a format. -/
theorem Directive.write_moved (args : Arguments) (d : Directive) (s : Scan) (fmt : Nat) :
    d.write args (s.moved fmt) = (d.write args s).map (Scan.moved · fmt) := by
  unfold Directive.write
  dsimp only
  rw [Width.take_moved]
  generalize d.width.take args _ s = w
  rw [Precision.take_moved]
  generalize d.precision.take args w.2.2 = p
  cases d.conversion with
  | char => rfl
  | string => rfl
  | pointer =>
      dsimp only [Conversion.put]
      unfold Scan.putPointer
      generalize (if w.1 = -1 then ((16 : CInt), w.2.1 ||| Flag.zeropad) else (w.1, w.2.1)) = field
      exact bind_put_moved _ { p.2 with args := p.2.args + 1 } fmt
  | count => rfl
  | percent => rfl
  | _ => exact bind_put_moved _ { p.2 with args := p.2.args + 1 } fmt

theorem Piece.write_moved (args : Arguments) (piece : Piece) (s : Scan) (fmt : Nat) :
    piece.write args (s.moved fmt) = (piece.write args s).map (Scan.moved · fmt) := by
  cases piece with
  | char c plain => rfl
  | directive d => exact d.write_moved args s fmt

/-- A round of `vsprintf` does what the next part of the format does. -/
theorem formatRound_piece (args : Arguments) (s : Scan) (piece : Piece)
    (ahead : Ahead format fmt (piece.text ++ rest)) : ∃ c, charAt format fmt = some c ∧ c ≠ 0 ∧
      formatRound format args (s.moved fmt) c =
        (piece.write args s).map (Scan.moved · (fmt + (piece.text.length - 1))) := by
  rw [← Piece.write_moved]
  cases piece with
  | char c plain => exact ⟨c, ahead.charAt, plain.1, if_neg plain.2⟩
  | directive d =>
      refine ⟨chr '%', ahead.charAt, by decide, ?_⟩
      exact (if_pos rfl).trans (convert_directive args (s.moved fmt) d ahead)

theorem Piece.text_length (piece : Piece) : 0 < piece.text.length := by
  cases piece <;> exact Nat.succ_pos _

theorem formatLoop_pieces (args : Arguments) (pieces : List Piece) (s s' : Scan) {rounds : Nat}
    (ahead : Ahead format fmt (pieces.flatMap Piece.text ++ [0])) (enough : pieces.length < rounds)
    (written : pieces.foldlM (Piece.write args) s = some s') :
    formatLoop format args (s.moved fmt) rounds =
      some (s'.moved (fmt + (pieces.flatMap Piece.text).length)) := by
  induction pieces generalizing s fmt rounds with
  | nil =>
      obtain ⟨rounds, rfl⟩ := Nat.exists_eq_succ_of_ne_zero (Nat.ne_of_gt enough)
      obtain rfl := Option.some.inj written
      have found : charAt format (s.moved fmt).fmt = some 0 := ahead.charAt
      rw [formatLoop, found, Option.bind_eq_bind, Option.bind_some, if_pos rfl]
      rfl
  | cons piece pieces ih =>
      obtain ⟨rounds, rfl⟩ := Nat.exists_eq_succ_of_ne_zero (Nat.ne_zero_of_lt enough)
      rcases Option.bind_eq_some_iff.mp written with ⟨s₁, first, behind⟩
      rw [List.flatMap_cons, List.append_assoc] at ahead
      rcases formatRound_piece args s piece ahead with ⟨c, found, more, round⟩
      have here : charAt format (s.moved fmt).fmt = some c := found
      have length := piece.text_length
      have skipped : (s₁.moved (fmt + (piece.text.length - 1))).skip =
          s₁.moved (fmt + piece.text.length) := by
        show s₁.moved (fmt + (piece.text.length - 1) + 1) = _
        rw [Nat.add_assoc, Nat.sub_add_cancel length]
      rw [formatLoop, here, Option.bind_eq_bind, Option.bind_some, if_neg more, round, first,
        Option.map_some, Option.bind_eq_bind, Option.bind_some, skipped,
        ih s₁ ahead.skip (Nat.lt_of_succ_lt_succ enough) behind, List.flatMap_cons,
        List.length_append, Nat.add_assoc]

/-- A directive always writes. -/
theorem Directive.write_some (args : Arguments) (d : Directive) (s : Scan) :
    ∃ s', d.write args s = some s' := by
  have integer : ∀ (s : Scan) (qualifier : Option Byte) {base : CInt}
      (flags width precision : CInt), base = 8 ∨ base = 10 ∨ base = 16 →
        ∃ s', s.putInteger args qualifier base flags width precision = some s' := by
    intro s qualifier base flags width precision printed
    rcases putInteger_fmt args s qualifier printed flags width precision with ⟨s', put, _⟩
    exact ⟨s', put⟩
  unfold Directive.write
  dsimp only
  cases d.conversion with
  | char => exact ⟨_, rfl⟩
  | string => exact ⟨_, rfl⟩
  | pointer =>
      rcases putPointer_fmt args _ _ _ _ with ⟨s', put, _⟩
      exact ⟨s', put⟩
  | count => exact ⟨_, rfl⟩
  | percent => exact ⟨_, rfl⟩
  | octal => exact integer _ _ _ _ _ (by decide)
  | small => exact integer _ _ _ _ _ (by decide)
  | capital => exact integer _ _ _ _ _ (by decide)
  | decimal => exact integer _ _ _ _ _ (by decide)
  | integer => exact integer _ _ _ _ _ (by decide)
  | unsigned => exact integer _ _ _ _ _ (by decide)

theorem Piece.writes_some (args : Arguments) (pieces : List Piece) (s : Scan) :
    ∃ s', pieces.foldlM (Piece.write args) s = some s' := by
  induction pieces generalizing s with
  | nil => exact ⟨s, rfl⟩
  | cons piece pieces ih =>
      have first : ∃ s₁, piece.write args s = some s₁ := by
        cases piece with
        | char c plain => exact ⟨_, rfl⟩
        | directive d => exact d.write_some args s
      rcases first with ⟨s₁, written⟩
      rcases ih s₁ with ⟨s', rest⟩
      exact ⟨s', Option.bind_eq_some_iff.mpr ⟨s₁, written, rest⟩⟩

end

theorem length_le_text (pieces : List Piece) :
    pieces.length ≤ (pieces.flatMap Piece.text).length := by
  induction pieces with
  | nil => exact Nat.le_refl 0
  | cons piece pieces ih =>
      have length := piece.text_length
      rw [List.flatMap_cons, List.length_append, List.length_cons]
      omega

/-- What the parts of a format do is what `vsprintf` does. -/
theorem vsprintf_written {pieces : List Piece} {args : Arguments} {s : Scan}
    (written : pieces.foldlM (Piece.write args) ⟨0, [], 0, []⟩ = some s) :
    vsprintf (pieces.flatMap Piece.text) args =
      some { s with fmt := (pieces.flatMap Piece.text).length } := by
  have enough : pieces.length < formatRounds (pieces.flatMap Piece.text) :=
    Nat.lt_of_le_of_lt (length_le_text pieces) (Nat.lt_add_of_pos_right (by decide))
  have start : Ahead (pieces.flatMap Piece.text) 0 (pieces.flatMap Piece.text ++ [0]) := rfl
  have looped := formatLoop_pieces args pieces ⟨0, [], 0, []⟩ s start enough written
  rw [Nat.zero_add] at looped
  exact looped

/-- `vsprintf` reads every format as it was written: it does what the parts do, one after the other,
and ends at the terminator. -/
theorem vsprintf_pieces (pieces : List Piece) (args : Arguments) :
    ∃ s, pieces.foldlM (Piece.write args) ⟨0, [], 0, []⟩ = some s ∧
      vsprintf (pieces.flatMap Piece.text) args =
        some { s with fmt := (pieces.flatMap Piece.text).length } := by
  rcases Piece.writes_some args pieces ⟨0, [], 0, []⟩ with ⟨s, written⟩
  exact ⟨s, written, vsprintf_written written⟩

end Sbrocks.Libc
