import Sbrocks.Sbush.Strings

/-!
# Cutting a string at a key

`tokenizeWithKey` copies what is before the first key into a block of its own and
returns what is behind it.  It notices a key only when it has stepped forward to it,
and it trims the string while it still counts by the string as it was.
-/

namespace Sbrocks.Sbush

open Process (Byte)

variable {line : Line} {text : Text} {key : Byte} {memory : Line} {str n : Nat}

/-! ## The function -/

/-- The loop of `tokenizeWithKey`, when `count` has `n` to go: how far `srcPtr` and `count`
advance, and whether `found` is set. -/
def keyLoop (line : Line) (key : Byte) (srcPtr : Nat) : Nat → Nat × Bool
  | 0 => (0, false)
  | n + 1 =>
      if line srcPtr ≠ key then
        let (count, found) := keyLoop line key (srcPtr + 1) n
        (count + 1, line (srcPtr + 1) = key || found)
      else (0, false)

/-- `tokenizeWithKey`, with what its block held before: the string, the block if there is one
(or else `before` is not set), and the place that is returned. -/
def tokenizeWithKey (line : Line) (inputString : Nat) (key : Byte) (memory : Line) :
    Option (Line × Option Block × Option Nat) := do
  let len ← strlen line inputString
  let (count, found) := keyLoop line key inputString len
  let line ← trim line inputString
  let len ← strlen line inputString
  let before :=
    if len > 0 then
      some (((Block.malloc len memory).memset 0 len).strncpy 0 line inputString count)
    else none
  let srcPtr := inputString + count + 1
  if found then
    let line ← trim line srcPtr
    return (line, before, some srcPtr)
  else return (line, before, none)

/-! ## What is before the key and what is behind it -/

/-- The part of a text before the first key. -/
def beforeKey (key : Byte) (text : Text) : Text := text.takeWhile (· ≠ key)

/-- The part behind the first key. -/
def behindKey (key : Byte) (text : Text) : Text := (text.dropWhile (· ≠ key)).tail

theorem beforeKey_front (key : Byte) (text : Text) : beforeKey key text <+: text :=
  List.takeWhile_prefix _

theorem beforeKey_of_notMem (absent : key ∉ text) : beforeKey key text = text := by
  apply List.takeWhile_eq_self_iff.mpr
  intro c member
  simp only [decide_eq_true_eq]
  rintro rfl
  exact absent member

theorem behindKey_of_notMem (absent : key ∉ text) : behindKey key text = [] := by
  have none : text.dropWhile (· ≠ key) = [] := by
    rw [List.dropWhile_eq_nil_iff]
    intro c member
    simp only [decide_eq_true_eq]
    rintro rfl
    exact absent member
  rw [behindKey, none]
  rfl

/-- A text with the key is cut there. -/
theorem cut_at_key (present : key ∈ text) :
    text = beforeKey key text ++ key :: behindKey key text := by
  have whole := List.takeWhile_append_dropWhile (p := (· ≠ key)) (l := text)
  cases rest : text.dropWhile (· ≠ key) with
  | nil =>
      rw [List.dropWhile_eq_nil_iff] at rest
      exact absurd (rest key present) (by simp)
  | cons c tail =>
      have first := List.head_dropWhile_not (· ≠ key) (l := text) (by rw [rest]; simp)
      simp only [rest, List.head_cons, decide_eq_false_iff_not, ne_eq, not_not] at first
      rw [beforeKey, behindKey, rest, ← first]
      rw [rest, ← first] at whole
      exact whole.symm

theorem notMem_beforeKey (key : Byte) (text : Text) : key ∉ beforeKey key text := by
  intro member
  simpa using List.mem_takeWhile_imp member

@[simp]
theorem beforeKey_nil (key : Byte) : beforeKey key [] = [] := rfl

theorem beforeKey_cons_self (key : Byte) (text : Text) : beforeKey key (key :: text) = [] := by
  simp [beforeKey]

theorem beforeKey_cons {c : Byte} (other : c ≠ key) (text : Text) :
    beforeKey key (c :: text) = c :: beforeKey key text := by
  simp [beforeKey, other]

/-- The loop stops at the first key, and has found it unless it is the first character. -/
theorem keyLoop_eq (stands : Stands line str text) (nonzero : key ≠ 0) :
    keyLoop line key str text.length =
      ((beforeKey key text).length, decide (key ∈ text ∧ beforeKey key text ≠ [])) := by
  induction text generalizing str with
  | nil => simp [keyLoop]
  | cons c text ih =>
      have first := stands.bytes 0 (Nat.zero_le _)
      rw [Nat.add_zero, List.getD_cons_zero] at first
      have rest : Stands line (str + 1) text := stands.drop (Nat.succ_pos _)
      rw [List.length_cons, keyLoop, first]
      by_cases here : c = key
      · rw [if_neg (not_not.mpr here), here, beforeKey_cons_self]
        simp
      · rw [if_pos here, ih rest, beforeKey_cons here]
        have next := rest.bytes 0 (Nat.zero_le _)
        rw [Nat.add_zero] at next
        rw [next]
        refine Prod.ext rfl ?_
        cases text with
        | nil => simpa [Ne.symm here] using Ne.symm nonzero
        | cons d text =>
            by_cases there : d = key
            · simp [there]
            · simp [there, beforeKey_cons there, Ne.symm here]

/-- The block of `tokenizeWithKey`, for a string that was trimmed to `text`. -/
structure Copied (text : Text) (count : Nat) (memory : Line) (b : Block) : Prop where
  size : b.size = text.length
  bytes : ∀ x, b.bytes x =
    if x < count then text.getD x 0 else if x < text.length then 0 else memory x
  writes : ∀ x, x ∈ b.writes ↔ x < count ∨ x < text.length

theorem copied_strncpy {count : Nat} (stands : Stands line str text) (memory : Line) :
    Copied text count memory
      (((Block.malloc text.length memory).memset 0 text.length).strncpy 0 line str count) := by
  have cleared := (Block.malloc text.length memory).memset_filled 0 text.length
  have filled : Block.Filled _ (((Block.malloc text.length memory).memset 0 text.length).strncpy 0
      line str count) 0 count fun x => text.getD x 0 := Block.strncpy_filled _ stands
  refine ⟨filled.size.trans cleared.size, fun x => ?_, fun x => ?_⟩
  · rw [filled.bytes, cleared.bytes]
    simp only [Nat.zero_le, true_and, Nat.zero_add, Nat.sub_zero]
    rfl
  · rw [filled.writes, cleared.writes]
    simp [Block.malloc]

/-- What is returned for the part before the key. -/
def CopiedBefore (text : Text) (count : Nat) (memory : Line) : Option Block → Prop
  | none => text = []
  | some b => text ≠ [] ∧ Copied text count memory b

theorem trimmed_length_le (text : Text) : (trimmed text).length ≤ text.length := by
  rcases exists_around text with ⟨lead, trail, around, _⟩
  have lengths := congrArg List.length around
  simp only [List.length_append] at lengths
  omega

/-- What `tokenizeWithKey` does before it trims what is behind the key. -/
theorem tokenizeWithKey_eq (stands : Stands line str text) (nonzero : key ≠ 0)
    (room : text.length < lineRounds) (memory : Line) :
    ∃ line' before, trim line str = some line' ∧ Stands line' str (trimmed text) ∧
      CopiedBefore (trimmed text) (beforeKey key text).length memory before ∧
      tokenizeWithKey line str key memory =
        if key ∈ text ∧ beforeKey key text ≠ [] then do
          let line ← trim line' (str + (beforeKey key text).length + 1)
          return (line, before, some (str + (beforeKey key text).length + 1))
        else some (line', before, none) := by
  rcases trim_text stands room with ⟨line', done, left, _⟩
  have short := trimmed_length_le text
  obtain ⟨before, copied⟩ : ∃ before, before =
      if (trimmed text).length > 0 then
        some (((Block.malloc (trimmed text).length memory).memset 0 (trimmed text).length).strncpy 0
          line' str (beforeKey key text).length)
      else none := ⟨_, rfl⟩
  refine ⟨line', before, done, left, ?_, ?_⟩
  · rw [copied]
    by_cases empty : trimmed text = []
    · rw [empty]
      exact rfl
    · rw [if_pos (List.length_pos_iff.mpr empty)]
      exact ⟨empty, copied_strncpy left memory⟩
  · simp only [tokenizeWithKey, stands.strlen room, keyLoop_eq stands nonzero, done,
      left.strlen (Nat.lt_of_le_of_lt short room), Option.bind_eq_bind, Option.bind_some,
      decide_eq_true_eq, ← copied]
    rfl

/-! ## What is behind the key -/

/-- A text that begins with no space only loses spaces at its end. -/
theorem exists_trail (begins : isSpace (text.getD 0 0) = false) :
    ∃ trail, text = trimmed text ++ trail ∧ ∀ c ∈ trail, isSpace c = true := by
  rcases exists_around text with ⟨lead, trail, around, leads, trails⟩
  cases lead with
  | nil => exact ⟨trail, around, trails⟩
  | cons c lead =>
      rw [around] at begins
      have first := leads c List.mem_cons_self
      simp [first] at begins

theorem trimmed_ne_nil (nonempty : text ≠ []) (begins : isSpace (text.getD 0 0) = false) :
    trimmed text ≠ [] := by
  intro none
  rcases exists_trail begins with ⟨trail, around, trails⟩
  rw [none, List.nil_append] at around
  subst around
  have first := trails _ (List.getElem_mem (List.length_pos_iff.mpr nonempty))
  rw [List.getD_eq_getElem _ _ (List.length_pos_iff.mpr nonempty), first] at begins
  cases begins

/-- The rest of such a text is trimmed with it. -/
theorem Stands.trim_drop {line' : Line} (stands : Stands line str text) (nonempty : text ≠ [])
    (begins : isSpace (text.getD 0 0) = false) (room : text.length < lineRounds)
    (done : trim line str = some line') {m : Nat} (inside : m ≤ text.length) :
    Stands line' (str + m) ((trimmed text).drop m) := by
  rcases exists_trail begins with ⟨trail, around, trails⟩
  have some := trimmed_ne_nil nonempty begins
  have lengths := congrArg List.length around
  rw [List.length_append] at lengths
  have whole : Stands line str ([] ++ trimmed text ++ trail) := by rwa [List.nil_append, ← around]
  have cut := trim_around whole some (fun c member => absurd member List.not_mem_nil) trails
    (trimmed_begins some) (trimmed_lasts some) (by rwa [List.nil_append, ← around])
  rw [done] at cut
  have bytes := congrFun (Option.some.inj cut)
  refine ⟨?_, fun i below => ?_⟩
  · intro c member
    have member := List.mem_of_mem_drop member
    exact stands.string c (around ▸ List.mem_append_left _ member)
  · rw [bytes, List.length_nil, Nat.add_zero, Nat.add_zero, ite_self, cutOff]
    rw [List.length_drop] at below
    rw [List.getD_eq_getElem?_getD, List.getElem?_drop, ← List.getD_eq_getElem?_getD]
    by_cases before : m + i < (trimmed text).length
    · rw [if_neg (by omega), Nat.add_assoc, stands.bytes _ (by omega)]
      conv_lhs => rw [around]
      exact List.getD_append _ _ _ _ before
    · rw [List.getD_eq_default _ _ (Nat.le_of_not_lt before)]
      by_cases cutHere : str + m + i < str + (trimmed text).length + trail.length
      · rw [if_pos (by omega)]
      · rw [if_neg (by omega), ← stands.ends]
        congr 1
        omega

/-- The terminator stays where it is. -/
theorem Stands.trim_ends {line' : Line} (stands : Stands line str text)
    (room : text.length < lineRounds) (done : trim line str = some line') :
    line' (str + text.length) = 0 := by
  have ends := stands.ends
  rcases exists_around text with ⟨lead, trail, around, leads, trails⟩
  by_cases nothing : trimmed text = []
  · have spaces : ∀ c ∈ text, isSpace c = true := by
      intro c member
      rw [around, nothing, List.append_nil] at member
      exact (List.mem_append.mp member).elim (leads c) (trails c)
    rw [trim_spaces stands spaces room] at done
    cases done
    by_cases empty : text.length = 0
    · rw [empty, Nat.add_zero, Function.update_self]
    · rw [Function.update_of_ne (by omega), ends]
  · have lengths := congrArg List.length around
    rw [List.length_append, List.length_append] at lengths
    have whole := stands
    rw [around] at whole
    rw [trim_around whole nothing leads trails (trimmed_begins nothing) (trimmed_lasts nothing)
      (around ▸ room)] at done
    cases done
    dsimp only
    split
    · rw [cutOff, if_neg (by omega), show str + text.length + lead.length = str + text.length by omega,
        ends]
    · rw [cutOff, if_neg (by omega), ends]

/-- A text with the key in it that begins with no space and not with the key is cut in two. -/
theorem tokenizeWithKey_found (stands : Stands line str text) (nonzero : key ≠ 0)
    (room : text.length < lineRounds) (memory : Line) (begins : isSpace (text.getD 0 0) = false)
    (present : key ∈ text) (some' : beforeKey key text ≠ []) :
    ∃ line' before,
      tokenizeWithKey line str key memory =
        some (line', before, some (str + (beforeKey key text).length + 1)) ∧
      CopiedBefore (trimmed text) (beforeKey key text).length memory before ∧
      Stands line' (str + (beforeKey key text).length + 1)
        (trimmed ((trimmed text).drop ((beforeKey key text).length + 1))) := by
  rcases tokenizeWithKey_eq stands nonzero room memory with ⟨line₁, before, done, _, copied, result⟩
  have lengths := congrArg List.length (cut_at_key present)
  rw [List.length_append, List.length_cons] at lengths
  have nonempty : text ≠ [] := List.ne_nil_of_mem present
  have rest := stands.trim_drop nonempty begins room done
    (m := (beforeKey key text).length + 1) (by omega)
  rcases exists_trail begins with ⟨trail, around, _⟩
  have shorter := congrArg List.length around
  rw [List.length_append] at shorter
  rcases trim_text rest (by rw [List.length_drop]; omega) with ⟨line₂, done₂, left, _⟩
  rw [← Nat.add_assoc] at done₂ left
  refine ⟨line₂, before, ?_, copied, left⟩
  rw [result, if_pos ⟨present, some'⟩, done₂]
  rfl

/-- `tokenizeWithKey` comes back. -/
theorem tokenizeWithKey_returns (stands : Stands line str text) (nonzero : key ≠ 0)
    (room : text.length < lineRounds) (memory : Line) :
    ∃ line' before rest, tokenizeWithKey line str key memory = some (line', before, rest) ∧
      CopiedBefore (trimmed text) (beforeKey key text).length memory before := by
  rcases tokenizeWithKey_eq stands nonzero room memory with ⟨line₁, before, done, _, copied, result⟩
  by_cases found : key ∈ text ∧ beforeKey key text ≠ []
  · have lengths := congrArg List.length (cut_at_key found.1)
    rw [List.length_append, List.length_cons] at lengths
    have zero := stands.trim_ends room done
    rw [show str + text.length = str + (beforeKey key text).length + 1 +
      (behindKey key text).length by omega] at zero
    rcases Stands.exists_of_zero zero with ⟨rest, holds, short⟩
    rcases trim_text holds (by omega) with ⟨line₂, done₂, _⟩
    refine ⟨line₂, before, some (str + (beforeKey key text).length + 1), ?_, copied⟩
    rw [result, if_pos found, done₂]
    rfl
  · exact ⟨line₁, before, none, result.trans (if_neg found), copied⟩

/-- A text without the key, or that begins with it, is not cut. -/
theorem tokenizeWithKey_none (stands : Stands line str text) (nonzero : key ≠ 0)
    (room : text.length < lineRounds) (memory : Line)
    (missing : ¬ (key ∈ text ∧ beforeKey key text ≠ [])) :
    ∃ line' before, tokenizeWithKey line str key memory = some (line', before, none) ∧
      CopiedBefore (trimmed text) (beforeKey key text).length memory before := by
  rcases tokenizeWithKey_eq stands nonzero room memory with ⟨line', before, _, _, copied, result⟩
  exact ⟨line', before, result.trans (if_neg missing), copied⟩

theorem trimmed_append {trail : Text} (spaces : ∀ c ∈ trail, isSpace c = true) (text : Text) :
    trimmed (text ++ trail) = trimmed text := by
  have none : trail.dropWhile isSpace = [] := List.dropWhile_eq_nil_iff.mpr spaces
  unfold trimmed
  rw [List.dropWhile_append]
  split
  · rename_i empty
    rw [none, List.isEmpty_iff.mp empty]
  · rw [List.rdropWhile, List.reverse_append, List.dropWhile_append_of_pos, ← List.rdropWhile]
    intro c member
    exact spaces c (List.mem_reverse.mp member)

/-- What is behind the key is trimmed like the whole text. -/
theorem trimmed_behind (begins : isSpace (text.getD 0 0) = false) (present : key ∈ text) :
    trimmed ((trimmed text).drop ((beforeKey key text).length + 1)) = trimmed (behindKey key text) := by
  rcases exists_trail begins with ⟨trail, around, trails⟩
  have cut := congrArg (List.drop ((beforeKey key text).length + 1)) (cut_at_key present)
  have split := congrArg (List.drop ((beforeKey key text).length + 1)) around
  have passed : (beforeKey key text).drop ((beforeKey key text).length + 1) = [] :=
    List.drop_eq_nil_of_le (Nat.le_succ _)
  rw [List.drop_append, passed, Nat.add_sub_cancel_left] at cut
  rw [List.drop_append] at split
  rw [split] at cut
  rw [show behindKey key text = _ from cut.symm, trimmed_append]
  intro c member
  exact trails c (List.mem_of_mem_drop member)

/-! ## Splitting -/

/-- The string is split at its first key: the block holds what is before it, and what is
behind it is returned, if there is a key. -/
def Splits (line : Line) (str : Nat) (key : Byte) (memory : Line) (text : Text) : Prop :=
  ∃ line' before rest, tokenizeWithKey line str key memory = some (line', some before, rest) ∧
    Stands before.bytes 0 (beforeKey key text) ∧ (key ∉ text → rest = none) ∧
    (key ∈ text → ∃ r, rest = some r ∧ Stands line' r (behindKey key text))

/-- What can be split: there is something before the key, the text begins with no space, and
no spaces are around what is behind the key; where spaces at the end are all that is behind
the first part, or nothing is, the memory behind the block ends it. -/
structure Splittable (key : Byte) (memory : Line) (text : Text) : Prop where
  before : beforeKey key text ≠ []
  begins : isSpace (text.getD 0 0) = false
  behind : trimmed (behindKey key text) = behindKey key text
  ends : (beforeKey key text).length < (trimmed text).length ∨
    trimmed text = beforeKey key text ∧ memory (beforeKey key text).length = 0

/-- What a block says that was copied from a trimmed text. -/
theorem Copied.stands_iff {count : Nat} {b : Block} {whole part : Text}
    (copied : Copied whole count memory b) (string : ∀ c ∈ whole, c ≠ 0) (size : part.length = count)
    (front : part <+: whole ∨ whole <+: part) (nonzero : ∀ c ∈ part, c ≠ 0) :
    Stands b.bytes 0 part ↔
      count < whole.length ∨ whole = part ∧ memory count = 0 := by
  subst size
  have bytes := copied.bytes
  constructor
  · intro stands
    by_cases longer : part.length < whole.length
    · exact .inl longer
    · have last := stands.bytes _ (Nat.le_refl _)
      rw [Nat.zero_add, bytes, if_neg (Nat.lt_irrefl _), if_neg longer,
        List.getD_eq_default _ _ (Nat.le_refl _)] at last
      have lengths : ¬ whole.length < part.length := by
        intro shorter
        have here := stands.ne_zero shorter
        rw [Nat.zero_add, bytes, if_pos shorter, List.getD_eq_default _ _ (Nat.le_refl _)] at here
        exact here rfl
      have same : whole.length = part.length := by omega
      refine .inr ⟨?_, last⟩
      rcases front with prefix' | prefix'
      · exact (prefix'.eq_of_length same.symm).symm
      · exact prefix'.eq_of_length same
  · intro fits
    refine ⟨nonzero, fun i inside => ?_⟩
    rw [Nat.zero_add, bytes]
    rcases fits with longer | ⟨rfl, last⟩
    · have short : part <+: whole := by
        rcases front with prefix' | prefix'
        · exact prefix'
        · exact absurd prefix'.length_le (Nat.not_le_of_lt longer)
      rcases short with ⟨rest, rfl⟩
      by_cases before : i < part.length
      · rw [if_pos before, List.getD_append _ _ _ _ before]
      · rw [if_neg before, if_pos (by omega), List.getD_eq_default _ _ (Nat.le_of_not_lt before)]
    · by_cases before : i < whole.length
      · rw [if_pos before]
      · have here : i = whole.length := by omega
        rw [if_neg before, if_neg before, here, last, List.getD_eq_default _ _ (Nat.le_refl _)]

theorem trimmed_front (begins : isSpace (text.getD 0 0) = false) : trimmed text <+: text := by
  rcases exists_trail begins with ⟨trail, around, _⟩
  exact ⟨trail, around.symm⟩

theorem mem_of_mem_trimmed {c : Byte} (member : c ∈ trimmed text) : c ∈ text := by
  rcases exists_around text with ⟨lead, trail, around, _⟩
  rw [around]
  simp [member]

theorem beforeKey_getD (some : beforeKey key text ≠ []) :
    (beforeKey key text).getD 0 0 = text.getD 0 0 := by
  rcases beforeKey_front key text with ⟨rest, whole⟩
  conv_rhs => rw [← whole]
  exact (List.getD_append _ _ _ _ (List.length_pos_iff.mpr some)).symm

/-- The block of a text that begins with no space holds what is before the key. -/
theorem Copied.before_iff {b : Block} (stands : Stands line str text)
    (begins : isSpace (text.getD 0 0) = false)
    (copied : Copied (trimmed text) (beforeKey key text).length memory b) :
    Stands b.bytes 0 (beforeKey key text) ↔
      (beforeKey key text).length < (trimmed text).length ∨
        trimmed text = beforeKey key text ∧ memory (beforeKey key text).length = 0 := by
  apply copied.stands_iff
  · intro c member
    exact stands.string c (mem_of_mem_trimmed member)
  · rfl
  · exact List.prefix_or_prefix_of_prefix (beforeKey_front key text) (trimmed_front begins)
  · intro c member
    exact stands.string c ((beforeKey_front key text).subset member)

theorem Splits.splittable (splits : Splits line str key memory text) (stands : Stands line str text)
    (nonzero : key ≠ 0) (room : text.length < lineRounds) : Splittable key memory text := by
  rcases splits with ⟨line', b, rest, result, holds, alone, behind⟩
  rcases tokenizeWithKey_eq stands nonzero room memory with ⟨line₁, before, _, _, copied, parts⟩
  -- the block is copied from the trimmed text in any case
  have copied : CopiedBefore (trimmed text) (beforeKey key text).length memory (some b) := by
    by_cases found : key ∈ text ∧ beforeKey key text ≠ []
    · rw [result, if_pos found] at parts
      rcases Option.bind_eq_some_iff.mp parts.symm with ⟨line₂, _, same⟩
      cases same
      exact copied
    · rw [result, if_neg found] at parts
      cases parts
      exact copied
  rcases copied with ⟨nonempty, copied⟩
  have some' : beforeKey key text ≠ [] := by
    intro none
    rw [result, if_neg fun found => found.2 none] at parts
    cases parts
    by_cases present : key ∈ text
    · rcases behind present with ⟨r, impossible, _⟩
      cases impossible
    · rw [beforeKey_of_notMem present] at none
      rw [none] at nonempty
      exact nonempty rfl
  have begins : isSpace (text.getD 0 0) = false := by
    have first := holds.bytes 0 (Nat.zero_le _)
    rw [copied.bytes, if_pos (List.length_pos_iff.mpr some'), beforeKey_getD some'] at first
    rw [← first]
    exact trimmed_begins nonempty
  refine ⟨some', begins, ?_, (copied.before_iff stands begins).mp holds⟩
  by_cases present : key ∈ text
  · rcases behind present with ⟨r, rfl, left⟩
    rcases tokenizeWithKey_found stands nonzero room memory begins present some' with
      ⟨line₂, before', found, _, left'⟩
    cases result.symm.trans found
    rw [trimmed_behind begins present] at left'
    exact left'.unique left
  · rw [behindKey_of_notMem present]
    rfl

theorem Splittable.splits (fits : Splittable key memory text) (stands : Stands line str text)
    (nonzero : key ≠ 0) (room : text.length < lineRounds) : Splits line str key memory text := by
  have nonempty : text ≠ [] := by
    rintro rfl
    exact fits.before rfl
  have whole := trimmed_ne_nil nonempty fits.begins
  by_cases present : key ∈ text
  · rcases tokenizeWithKey_found stands nonzero room memory fits.begins present fits.before with
      ⟨line', before, found, copied, left⟩
    rw [trimmed_behind fits.begins present, fits.behind] at left
    cases before with
    | none => exact absurd copied whole
    | some b =>
        exact ⟨line', b, _, found, (copied.2.before_iff stands fits.begins).mpr fits.ends,
          absurd present, fun _ => ⟨_, rfl, left⟩⟩
  · rcases tokenizeWithKey_none stands nonzero room memory fun found => present found.1 with
      ⟨line', before, found, copied⟩
    cases before with
    | none => exact absurd copied whole
    | some b =>
        exact ⟨line', b, none, found, (copied.2.before_iff stands fits.begins).mpr fits.ends,
          fun _ => rfl, fun impossible => absurd impossible present⟩

/-- Exactly what can be split is split. -/
theorem splits_iff_splittable (stands : Stands line str text) (nonzero : key ≠ 0)
    (room : text.length < lineRounds) : Splits line str key memory text ↔ Splittable key memory text :=
  ⟨fun splits => splits.splittable stands nonzero room, fun fits => fits.splits stands nonzero room⟩

end Sbrocks.Sbush
