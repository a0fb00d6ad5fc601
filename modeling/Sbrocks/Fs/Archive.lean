import Mathlib.Data.Nat.Digits.Lemmas
import Sbrocks.Fs.Tarfs
import Sbrocks.Process.Contents

/-!
# Archives

An archive is a sequence of members, each a header of 512 bytes followed by its data in
whole blocks, and ends with a block of zeros.  The two scanners of the kernel,
`initialize_tarfs` and `find_offset_for_file`, walk it header by header and agree on
where every member begins.
-/

namespace Sbrocks.Process

open Sbrocks.Mmu

/-! ## Numbers in headers -/

/-- The character of a decimal digit. -/
def digitChar (d : Nat) : Byte := BitVec.ofNat 8 (0x30 + d)

theorem digitChar_ne_zero {d : Nat} (small : d < 10) : digitChar d ≠ 0 := by
  intro zero
  have equal := congrArg BitVec.toNat zero
  rw [digitChar, BitVec.toNat_ofNat] at equal
  simp at equal
  omega

/-- The number that digits make, the highest first. -/
def numeral (base : Nat) (digits : List Nat) : Nat := Nat.ofDigits base digits.reverse

theorem numeral_append (base : Nat) (digits : List Nat) (d : Nat) :
    numeral base (digits ++ [d]) = d + base * numeral base digits := by
  simp [numeral, Nat.ofDigits_cons]

/-- `atoi` reads decimal digits. -/
theorem atoi_eq {digits : List Nat} (small : ∀ d ∈ digits, d < 10) :
    atoi (digits.map digitChar) = BitVec.ofNat 32 (numeral 10 digits) := by
  induction digits using List.reverseRecOn with
  | nil => rfl
  | append_singleton digits d ih =>
      have here : d < 10 := small d (by simp)
      have digit : (digitChar d).signExtend 32 = BitVec.ofNat 32 (0x30 + d) := by
        clear ih small
        revert d
        decide
      rw [numeral_append, List.map_append, atoi, List.foldl_append]
      change (atoi (digits.map digitChar) <<< 3) + (atoi (digits.map digitChar) <<< 1) +
        (digitChar d).signExtend 32 - 0x30 = _
      rw [ih fun d member => small d (List.mem_append_left _ member), digit]
      have zero : (0x30 : BitVec 32).toNat = 48 := rfl
      apply BitVec.eq_of_toNat_eq
      simp only [BitVec.toNat_sub, BitVec.toNat_add, BitVec.toNat_shiftLeft, BitVec.toNat_ofNat,
        Nat.shiftLeft_eq, zero]
      omega

theorem toNat_ofNat_int {n : Nat} (positive : n < 2 ^ 31) : (BitVec.ofNat 32 n).toNat = n := by
  rw [BitVec.toNat_ofNat]
  exact Nat.mod_eq_of_lt (by omega)

theorem ofNat_sdiv_ten {n : Nat} (positive : n < 2 ^ 31) :
    (BitVec.ofNat 32 n).sdiv 10 = BitVec.ofNat 32 (n / 10) := by
  have value := toNat_ofNat_int positive
  apply BitVec.eq_of_toNat_eq
  rw [toNat_sdiv (by rwa [value]) (by decide), value, toNat_ofNat_int (by omega)]
  rfl

theorem ofNat_srem_ten {n : Nat} (positive : n < 2 ^ 31) :
    ofInt ((BitVec.ofNat 32 n).srem 10) = BitVec.ofNat 64 (n % 10) := by
  have value := toNat_ofNat_int positive
  have small : (BitVec.ofNat 32 n).srem 10 = BitVec.ofNat 32 (n % 10) := by
    apply BitVec.eq_of_toNat_eq
    rw [toNat_srem (by rwa [value]) (by decide), value, toNat_ofNat_int (by omega)]
    rfl
  have bound : n % 10 < 10 := Nat.mod_lt _ (by decide)
  rw [small]
  generalize n % 10 = d at bound
  revert bound
  revert d
  decide

/-- The loop of `octal_to_decimal` reads the decimal digits of a number as octal ones. -/
theorem octalLoop_eq {n rounds : Nat} (positive : n < 2 ^ 31) (enough : n < 10 ^ rounds)
    (power : Word) : octalLoop (BitVec.ofNat 32 n) power (rounds + 1) =
      power * BitVec.ofNat 64 (Nat.ofDigits 8 (Nat.digits 10 n)) := by
  induction rounds generalizing n power with
  | zero =>
      obtain rfl : n = 0 := by omega
      rw [octalLoop, if_pos (show BitVec.ofNat 32 0 = 0 from rfl)]
      simp
  | succ rounds ih =>
      by_cases zero : n = 0
      · subst zero
        rw [octalLoop, if_pos (show BitVec.ofNat 32 0 = 0 from rfl)]
        simp
      · have nonzero : BitVec.ofNat 32 n ≠ 0 := by
          intro equal
          have value := toNat_ofNat_int positive
          rw [equal] at value
          exact zero value.symm
        rw [octalLoop, if_neg nonzero, ofNat_sdiv_ten positive, ofNat_srem_ten positive,
          ih (by omega) (by rw [Nat.pow_succ] at enough; omega),
          Nat.digits_def' (by decide) (Nat.pos_of_ne_zero zero), Nat.ofDigits_cons]
        rw [BitVec.ofNat_add, BitVec.ofNat_mul, BitVec.mul_add, BitVec.mul_assoc, BitVec.mul_comm]
        rfl

/-- Leading zeros do not count. -/
theorem ofDigits_digits {digits : List Nat} (small : ∀ d ∈ digits, d < 10) :
    Nat.ofDigits 8 (Nat.digits 10 (Nat.ofDigits 10 digits)) = Nat.ofDigits 8 digits := by
  induction digits with
  | nil => simp
  | cons d digits ih =>
      have rest := ih fun d member => small d (List.mem_cons_of_mem _ member)
      have here := small d List.mem_cons_self
      rw [Nat.ofDigits_cons, Nat.ofDigits_cons]
      by_cases zero : d + 10 * Nat.ofDigits 10 digits = 0
      · have none : Nat.ofDigits 10 digits = 0 := by omega
        rw [none] at rest
        rw [zero, ← rest, show d = 0 from by omega]
        simp
      · rw [Nat.digits_def' (by decide) (Nat.pos_of_ne_zero zero), Nat.ofDigits_cons,
          show (d + 10 * Nat.ofDigits 10 digits) % 10 = d from by omega,
          show (d + 10 * Nat.ofDigits 10 digits) / 10 = Nat.ofDigits 10 digits from by omega, rest]

theorem octalToDecimal_eq {digits : List Nat} (small : ∀ d ∈ digits, d < 10)
    (fits : numeral 10 digits < 2 ^ 31) :
    octalToDecimal (BitVec.ofNat 32 (numeral 10 digits)) = BitVec.ofNat 64 (numeral 8 digits) := by
  have enough : numeral 10 digits < 10 ^ 10 := Nat.lt_trans fits (by decide)
  rw [octalToDecimal, octalLoop_eq fits enough, show (1 : Word) = 1#64 from rfl, BitVec.one_mul,
    numeral, numeral,
    ofDigits_digits fun d member => small d (List.mem_reverse.mp member)]

/-! ## Archives -/

/-- A member of an archive: its header, its data and the filling of the last block. -/
structure Member where
  name : List Byte
  /-- The octal digits of the size. -/
  sizeDigits : List Nat
  typeflag : Nat
  header : List Byte
  data : List Byte
  padding : List Byte
  nameNonempty : name ≠ []
  nameShort : name.length < 100
  nameText : (0 : Byte) ∉ name
  headerLength : header.length = 512
  headerName : header.take (name.length + 1) = name ++ [0]
  headerSize : (header.drop 124).take 12 = sizeDigits.map digitChar ++ [0]
  /-- The type flag is followed by an empty link name. -/
  headerType : (header.drop 156).take 2 = [digitChar typeflag, 0]
  elevenDigits : sizeDigits.length = 11
  octal : ∀ d ∈ sizeDigits, d < 8
  decimal : typeflag < 10
  /-- The size field fits in an `int` when it is read as a decimal number. -/
  fits : numeral 10 sizeDigits < 2 ^ 31
  size : data.length = numeral 8 sizeDigits
  blocks : (data.length + padding.length) % 512 = 0
  lastBlock : padding.length < 512

namespace Member

/-- The bytes of a member. -/
def bytes (member : Member) : List Byte := member.header ++ member.data ++ member.padding

/-- The bytes of an archive, which ends with a block of zeros. -/
def archive (members : List Member) : List Byte :=
  members.flatMap bytes ++ List.replicate 512 0

/-- Where the members behind the given ones begin. -/
def offsetOf (before : List Member) : Nat := (before.flatMap bytes).length

/-- The entry of a member at an offset in the archive, as it is listed. -/
def entry (member : Member) (start : Word) (offset fd : Nat) : File where
  name := rootfsName ++ member.name
  fd := BitVec.ofNat 64 fd
  addr := start + BitVec.ofNat 64 offset
  type := BitVec.ofNat 64 member.typeflag
  size := BitVec.ofNat 64 member.data.length
  offset := 0
  next := none

variable (member : Member)

theorem bytes_length : member.bytes.length = 512 + (member.data.length + member.padding.length) := by
  rw [bytes, List.length_append, List.length_append, member.headerLength, Nat.add_assoc]

theorem offsetOf_append (before : List Member) :
    offsetOf (before ++ [member]) = offsetOf before + member.bytes.length := by
  simp [offsetOf]

/-- What is read from a member's offset on. -/
theorem archive_drop (before after : List Member) (i : Nat) :
    (archive (before ++ member :: after)).drop (offsetOf before + i) =
      (member.bytes ++ archive after).drop i := by
  have split : archive (before ++ member :: after) =
      before.flatMap bytes ++ (member.bytes ++ archive after) := by
    rw [archive, archive, List.flatMap_append, List.flatMap_cons, List.append_assoc,
      List.append_assoc]
  rw [split, offsetOf, ← List.drop_drop, List.drop_left]

/-- The name is what is read at the start of a header. -/
theorem header_name : ∃ rest, member.header = member.name ++ 0 :: rest := by
  refine ⟨member.header.drop (member.name.length + 1), ?_⟩
  rw [List.append_cons, ← member.headerName, List.take_append_drop]

theorem header_size :
    ∃ rest, member.header.drop 124 = member.sizeDigits.map digitChar ++ 0 :: rest := by
  refine ⟨(member.header.drop 124).drop 12, ?_⟩
  rw [List.append_cons, ← member.headerSize, List.take_append_drop]

theorem header_type : ∃ rest, member.header.drop 156 = [digitChar member.typeflag] ++ 0 :: rest := by
  refine ⟨(member.header.drop 156).drop 2, ?_⟩
  rw [List.append_cons]
  change _ = [digitChar member.typeflag, 0] ++ _
  rw [← member.headerType, List.take_append_drop]

theorem name_ne_zero {c : Byte} (inside : c ∈ member.name) : c ≠ 0 :=
  fun zero => member.nameText (zero ▸ inside)

theorem sizeDigits_nonzero : (0 : Byte) ∉ member.sizeDigits.map digitChar := by
  intro zero
  rcases List.mem_map.mp zero with ⟨d, inside, equal⟩
  exact digitChar_ne_zero (Nat.lt_trans (member.octal d inside) (by decide)) equal

theorem data_small : member.data.length < 2 ^ 33 := by
  have small : ∀ d ∈ member.sizeDigits.reverse, d < 8 :=
    fun d inside => member.octal d (List.mem_reverse.mp inside)
  have bound := Nat.ofDigits_lt_base_pow_length (by decide) small
  rw [List.length_reverse, member.elevenDigits] at bound
  rw [member.size, numeral]
  exact bound

/-- The number in the size field. -/
theorem octalToDecimal_size :
    octalToDecimal (atoi (member.sizeDigits.map digitChar)) =
      BitVec.ofNat 64 member.data.length := by
  have small : ∀ d ∈ member.sizeDigits, d < 10 :=
    fun d inside => Nat.lt_trans (member.octal d inside) (by decide)
  rw [atoi_eq small, octalToDecimal_eq small member.fits, member.size]

theorem ofInt_typeflag :
    ofInt (atoi [digitChar member.typeflag]) = BitVec.ofNat 64 member.typeflag := by
  have small := member.decimal
  generalize member.typeflag = d at small
  revert small
  revert d
  decide

/-- The room that the scanners leave for a member. -/
theorem memberRoom_eq :
    memberRoom (BitVec.ofNat 64 member.data.length) = BitVec.ofNat 64 member.bytes.length := by
  have small := member.data_small
  have blocks := member.blocks
  have lastBlock := member.lastBlock
  have size : (BitVec.ofNat 64 member.data.length).toNat = member.data.length := by
    rw [BitVec.toNat_ofNat]
    exact Nat.mod_eq_of_lt (by omega)
  have zero : BitVec.ofNat 64 member.data.length = 0 ↔ member.data.length = 0 := by
    rw [← BitVec.toNat_inj, size]
    exact Iff.rfl
  have whole : BitVec.ofNat 64 member.data.length % 512 = 0 ↔ member.data.length % 512 = 0 := by
    rw [← BitVec.toNat_inj, BitVec.toNat_umod, size]
    exact Iff.rfl
  rw [member.bytes_length, memberRoom]
  by_cases empty : member.data.length = 0
  · rw [if_pos (zero.mpr empty), empty, show member.padding.length = 0 from by omega]
    rfl
  · rw [if_neg fun same => empty (zero.mp same)]
    by_cases full : member.data.length % 512 = 0
    · rw [if_pos (whole.mpr full), show member.padding.length = 0 from by omega,
        BitVec.ofNat_add]
      rfl
    · rw [if_neg fun same => full (whole.mp same)]
      apply BitVec.eq_of_toNat_eq
      have rest : (BitVec.ofNat 64 member.data.length % 512).toNat = member.data.length % 512 := by
        rw [BitVec.toNat_umod, size]
        rfl
      simp only [BitVec.toNat_add, BitVec.toNat_sub, BitVec.toNat_ofNat, rest, size]
      have block : (512 : Word).toNat = 512 := rfl
      rw [block]
      omega

end Member

/-! ## Names -/

namespace Kernel

variable {fault : Fault} {k : Kernel} {s : CString} {directory rest : List Byte}

theorem findSlash_eq (spells : Spells fault k s (directory ++ slash :: rest))
    (outside : slash ∉ directory) {i rounds : Nat} (bound : i ≤ directory.length)
    (enough : directory.length - i < rounds) :
    k.findSlash fault s i rounds = .next (k, directory.length) := by
  induction rounds generalizing i with
  | zero => exact absurd enough (Nat.not_lt_zero _)
  | succ rounds ih =>
      unfold findSlash
      rw [spells.char (i := i) (by simp; omega)]
      dsimp only [Flow.next_bind]
      by_cases inside : i < directory.length
      · have different : directory[i] ≠ slash :=
          fun same => outside (same ▸ List.getElem_mem inside)
        rw [List.getElem_append_left inside, if_neg different]
        exact ih inside (by omega)
      · obtain rfl : i = directory.length := by omega
        rw [List.getElem_append_right (Nat.le_refl _), if_pos (by simp)]
        rfl

/-- `change_name` takes off what comes before the first slash. -/
theorem changeName_eq (spells : Spells fault k s (directory ++ slash :: rest))
    (outside : slash ∉ directory) (nonzero : (0 : Byte) ∉ directory ++ slash :: rest)
    (short : (directory ++ slash :: rest).length < stringRounds) :
    k.changeName fault s = .next (k, rest) := by
  rw [List.length_append, List.length_cons] at short
  have listed : k.chars fault s (directory.length + 1) stringRounds =
      .next (k, (directory ++ slash :: rest).drop (directory.length + 1)) :=
    chars_eq spells nonzero (by simp) (by simp; omega)
  unfold changeName
  rw [findSlash_eq spells outside (Nat.zero_le _) (by omega)]
  dsimp only [Flow.next_bind]
  rw [listed, List.append_cons, ← List.length_singleton (a := slash), ← List.length_append,
    List.drop_left]

end Kernel

/-! ## Reading an archive -/

/-- An archive lies in memory. -/
structure Archived (roots : Word → Prop) (k : Kernel) (members : List Member)
    (places : Nat → Place) : Prop where
  span : Span roots k.m k.binaryTarfsStart (Member.archive members).length places
  stored : content k.m places (Member.archive members).length = Member.archive members

namespace Archived

open Member

variable {fault : Fault} {roots : Word → Prop} {k : Kernel} {before after : List Member}
  {member : Member} {members : List Member} {places : Nat → Place}

/-- A string inside the archive. -/
theorem spells (archived : Archived roots k members places) {offset : Nat} {text : List Byte}
    (rest : List Byte) (here : (archive members).drop offset = text ++ 0 :: rest) :
    Kernel.Spells fault k (.atAddr (k.binaryTarfsStart + BitVec.ofNat 64 offset)) text := by
  have inside : offset ≤ (archive members).length := by
    by_contra beyond
    rw [List.drop_eq_nil_of_le (by omega)] at here
    exact absurd here.symm (by simp)
  apply Kernel.spells_atAddr rest
    (archived.span.part offset ((archive members).length - offset) (by omega))
  rw [← content_drop, archived.stored, here]

theorem spells_name (archived : Archived roots k (before ++ member :: after) places) :
    Kernel.Spells fault k
      (.atAddr (k.binaryTarfsStart + BitVec.ofNat 64 (offsetOf before))) member.name := by
  rcases member.header_name with ⟨rest, named⟩
  apply archived.spells (rest ++ (member.data ++ (member.padding ++ archive after)))
  have here := member.archive_drop before after 0
  rw [Nat.add_zero, List.drop_zero] at here
  rw [here, bytes, named]
  simp only [List.append_assoc, List.cons_append]

/-- A string behind the name of a header. -/
theorem spells_header (archived : Archived roots k (before ++ member :: after) places) {i : Nat}
    (inside : i ≤ 512) {text rest : List Byte} (here : member.header.drop i = text ++ 0 :: rest) :
    Kernel.Spells fault k (.atAddr
      (k.binaryTarfsStart + BitVec.ofNat 64 (offsetOf before) + BitVec.ofNat 64 i)) text := by
  rw [add_ofNat]
  apply archived.spells (rest ++ (member.data ++ (member.padding ++ archive after)))
  rw [member.archive_drop, bytes]
  simp only [List.append_assoc]
  rw [List.drop_append_of_le_length (by rwa [member.headerLength]), here]
  simp only [List.append_assoc, List.cons_append]

theorem memberSize_eq (archived : Archived roots k (before ++ member :: after) places) :
    k.memberSize fault (k.binaryTarfsStart + BitVec.ofNat 64 (offsetOf before)) =
      .next (k, BitVec.ofNat 64 member.data.length) := by
  rcases member.header_size with ⟨rest, here⟩
  have spells : Kernel.Spells fault k (.atAddr (k.binaryTarfsStart +
      BitVec.ofNat 64 (offsetOf before) + sizeOffset)) (member.sizeDigits.map digitChar) :=
    archived.spells_header (by decide) here
  have short : (member.sizeDigits.map digitChar).length < stringRounds := by
    rw [List.length_map, member.elevenDigits]
    decide
  unfold Kernel.memberSize
  rw [Kernel.chars_eq spells member.sizeDigits_nonzero (Nat.zero_le _) short]
  dsimp only [Flow.next_bind]
  rw [List.drop_zero, member.octalToDecimal_size]
  rfl

theorem chars_typeflag (archived : Archived roots k (before ++ member :: after) places) :
    k.chars fault (.atAddr (k.binaryTarfsStart + BitVec.ofNat 64 (offsetOf before) +
      typeflagOffset)) 0 stringRounds = .next (k, [digitChar member.typeflag]) := by
  rcases member.header_type with ⟨rest, here⟩
  have spells : Kernel.Spells fault k (.atAddr (k.binaryTarfsStart +
      BitVec.ofNat 64 (offsetOf before) + typeflagOffset)) [digitChar member.typeflag] :=
    archived.spells_header (by decide) here
  apply Kernel.chars_eq spells _ (Nat.zero_le _) (show 1 < stringRounds by decide)
  rw [List.mem_singleton]
  exact (digitChar_ne_zero member.decimal).symm

/-- Behind the last member is an empty name. -/
theorem spells_end (archived : Archived roots k members places) :
    Kernel.Spells fault k
      (.atAddr (k.binaryTarfsStart + BitVec.ofNat 64 (offsetOf members))) [] := by
  apply archived.spells (List.replicate 511 0)
  rw [archive, offsetOf, List.drop_left]
  rfl

/-- One round of `find_offset_for_file`. -/
theorem findOffsetLoop_succ (archived : Archived roots k (before ++ member :: after) places)
    {fname : List Byte} (text : (0 : Byte) ∉ fname) (rounds : Nat) :
    k.findOffsetLoop fault fname (BitVec.ofNat 64 (offsetOf before)) (rounds + 1) =
      if member.name = fname then .next (k, BitVec.ofNat 64 (offsetOf before) + 512)
      else k.findOffsetLoop fault fname (BitVec.ofNat 64 (offsetOf (before ++ [member]))) rounds := by
  have spells : Kernel.Spells fault k _ member.name := archived.spells_name
  have short : member.name.length < stringRounds := Nat.lt_trans member.nameShort (by decide)
  have positive : BitVec.ofNat 64 member.name.length ≠ 0 := by
    intro zero
    have equal := congrArg BitVec.toNat zero
    rw [BitVec.toNat_ofNat, Nat.mod_eq_of_lt (Nat.lt_trans member.nameShort (by decide))] at equal
    exact member.nameNonempty (List.length_eq_zero_iff.mp equal)
  conv => lhs; unfold Kernel.findOffsetLoop
  dsimp only
  rw [Kernel.strlen_eq spells member.nameText short, Flow.next_bind]
  dsimp only
  rw [if_neg positive, archived.memberSize_eq, Flow.next_bind]
  dsimp only
  rw [Kernel.kstrcmp_eq spells (Kernel.spells_text k fname) member.nameText text short,
    Flow.next_bind]
  dsimp only
  by_cases same : member.name = fname
  · rw [if_pos same, decide_eq_true same, if_pos rfl]
    rfl
  · rw [if_neg same, decide_eq_false same, if_neg (by decide), member.memberRoom_eq,
      member.offsetOf_append, BitVec.ofNat_add]

/-- The loop of `find_offset_for_file` finds the data of a member. -/
theorem findOffsetLoop_eq {between : List Member}
    (archived : Archived roots k (before ++ (between ++ member :: after)) places)
    (distinct : ∀ other ∈ between, other.name ≠ member.name) {rounds : Nat}
    (enough : between.length < rounds) :
    k.findOffsetLoop fault member.name (BitVec.ofNat 64 (offsetOf before)) rounds =
      .next (k, BitVec.ofNat 64 (offsetOf (before ++ between)) + 512) := by
  induction between generalizing before rounds with
  | nil =>
      cases rounds with
      | zero => exact absurd enough (Nat.not_lt_zero _)
      | succ rounds =>
          rw [List.nil_append] at archived
          rw [archived.findOffsetLoop_succ member.nameText, if_pos rfl, List.append_nil]
  | cons other between ih =>
      cases rounds with
      | zero => exact absurd enough (Nat.not_lt_zero _)
      | succ rounds =>
          have rest : Archived roots k ((before ++ [other]) ++ (between ++ member :: after)) places := by
            rw [List.append_assoc]
            exact archived
          rw [List.cons_append] at archived
          rw [archived.findOffsetLoop_succ member.nameText,
            if_neg (distinct other List.mem_cons_self),
            ih rest (fun other inside => distinct other (List.mem_cons_of_mem _ inside))
              (Nat.lt_of_succ_lt_succ enough), List.append_assoc]
          rfl

/-- `find_offset_for_file` finds the data of a member by the name it is listed with. -/
theorem findOffsetForFile_eq (archived : Archived roots k (before ++ member :: after) places)
    (distinct : ∀ other ∈ before, other.name ≠ member.name) (few : before.length < stringRounds) :
    k.findOffsetForFile fault (.text (rootfsName ++ member.name)) =
      .next (k, BitVec.ofNat 64 (offsetOf before) + 512) := by
  have nonzero : (0 : Byte) ∉ rootfsName ++ member.name := by
    rw [List.mem_append, not_or]
    exact ⟨by decide, member.nameText⟩
  have short : (rootfsName ++ member.name).length < stringRounds := by
    have short := member.nameShort
    rw [List.length_append]
    exact Nat.lt_trans (show 7 + _ < 107 by omega) (by decide)
  have spells : Kernel.Spells fault k (.text (rootfsName ++ member.name)) _ :=
    Kernel.spells_text k ([0x72, 0x6f, 0x6f, 0x74, 0x66, 0x73] ++ slash :: member.name)
  have changed := Kernel.changeName_eq spells (by decide) nonzero short
  unfold Kernel.findOffsetForFile
  rw [changed]
  dsimp only [Flow.next_bind]
  rw [show (0 : Word) = BitVec.ofNat 64 (offsetOf []) from rfl]
  rw [← List.nil_append (before ++ _)] at archived
  exact archived.findOffsetLoop_eq distinct few

end Archived

end Sbrocks.Process
