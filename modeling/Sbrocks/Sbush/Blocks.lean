import Sbrocks.Sbush.PathSearch

/-!
# The blocks of the shell

Each place where the shell copies a string asks `malloc` for one length and writes with
another.  Here the writes of these places are compared with the sizes of their blocks.
-/

namespace Sbrocks.Sbush

open Sbrocks.Process Sbrocks.Libc

variable {line : Line} {text value : Text} {str count size i n : Nat}

/-! ## The functions -/

/-- `setPath`: the first variable and the block it was put together in. -/
def setPath (envp : Block) (newval memory : Line) : Option (Block × Block) := do
  -- `trim` writes in its string alone
  let trimmedEnv ← trim envp.bytes 0
  let envLen ← strlen trimmedEnv 0
  let newLen ← strlen newval 0
  let len := envLen + newLen + 1
  let str ← ((Block.malloc len memory).memset 0 len).strcpy trimmedEnv 0
  let envp := { envp with bytes := trimmedEnv }.memset 0 1024
  let str ← str.strcat (literal [colon]) 0
  let str ← str.strcat newval 0
  let envp ← envp.strcpy str.bytes 0
  return (envp, str)

/-- The block that `parseCommand` makes of a word, when `size` bytes are left of its line. -/
def wordBlock (memory line : Line) (str count size : Nat) : Block :=
  ((Block.malloc size memory).memset 0 1024).strncpy 0 line str count

namespace Shell

/-- The block that a round of `parseCommand` makes, if it makes one. -/
def roundBlock (sh : Shell) (len : Nat) (at' : Cursor) : Option Block := do
  let line ← eraseLast sh.line at'.str
  let count := wordLength line at'.srcPtr (len - at'.i)
  let line ← trim line at'.srcPtr
  let size ← strlen line at'.srcPtr
  if size > 0 ∧ count > 0 then
    match sh.program.malloc (BitVec.ofNat 64 size) with
    | .next (p, word) =>
        some (wordBlock (fun x => p.mem (word + BitVec.ofNat 64 x)) line at'.srcPtr count size)
    | _ => none
  else none

/-- The blocks of a run of the loop of `parseCommand`. -/
def loopBlocks (sh : Shell) (len : Nat) (at' : Cursor) : Nat → List Block
  | 0 => []
  | n + 1 =>
      if at'.i < len then
        (sh.roundBlock len at').toList ++
          match sh.parseRound len at' with
          | .next (sh, at') => loopBlocks sh len at' n
          | _ => []
      else []

/-- The blocks that `parseCommand` makes. -/
def parseBlocks (sh : Shell) : List Block :=
  match strlen sh.line 0 with
  | some len => loopBlocks { sh with cmdcount := 0 } len ⟨0, 0, none, 0⟩ lineRounds
  | none => []

end Shell

/-! ## The blocks are those of the program -/

/-- A block has what the memory of the program has, from an address on. -/
def Mirrors (p : Program) (word : Word) (b : Block) : Prop :=
  ∀ x < 2 ^ 64, p.mem (word + BitVec.ofNat 64 x) = b.bytes x

theorem Mirrors.poke {p p' : Program} {word : Word} {b : Block} {c : Byte} (mirrors : Mirrors p word b)
    (inside : i < 2 ^ 64) (stored : Sbush.poke p (word + BitVec.ofNat 64 i) c = .next p') :
    Mirrors p' word (b.store i c) := by
  unfold Sbush.poke at stored
  split at stored
  · cases stored
    intro x below
    change Function.update p.mem (word + BitVec.ofNat 64 i) c (word + BitVec.ofNat 64 x) =
      Function.update b.bytes i c x
    by_cases here : x = i
    · rw [here, Function.update_self, Function.update_self]
    · rw [Function.update_of_ne here, Function.update_of_ne]
      · exact mirrors x below
      · intro same
        have values := congrArg BitVec.toNat ((BitVec.add_right_inj _).mp same)
        rw [BitVec.toNat_ofNat, BitVec.toNat_ofNat, Nat.mod_eq_of_lt below,
          Nat.mod_eq_of_lt inside] at values
        exact here values
  · cases stored

theorem add_one_ofNat (word : Word) (i : Nat) :
    word + BitVec.ofNat 64 i + 1 = word + BitVec.ofNat 64 (i + 1) := by
  rw [BitVec.ofNat_add, ← BitVec.add_assoc]
  rfl

theorem Mirrors.memset {p p' : Program} {word : Word} {b : Block} (mirrors : Mirrors p word b)
    (inside : i + n ≤ 2 ^ 64) (done : Sbush.memset p (word + BitVec.ofNat 64 i) n = .next p') :
    Mirrors p' word (b.memset i n) := by
  induction n generalizing p b i with
  | zero =>
      cases done
      exact mirrors
  | succ n ih =>
      rcases Flow.bind_eq_next done with ⟨p₁, stored, done⟩
      rw [add_one_ofNat] at done
      exact ih (mirrors.poke (by omega) stored) (by omega) done

theorem Mirrors.strncpy {p p' : Program} {word : Word} {b : Block} (mirrors : Mirrors p word b)
    (inside : i + count ≤ 2 ^ 64)
    (done : Sbush.strncpy p (word + BitVec.ofNat 64 i) line str count = .next p') :
    Mirrors p' word (b.strncpy i line str count) := by
  induction count generalizing p b i str with
  | zero =>
      cases done
      exact mirrors
  | succ count ih =>
      rcases Flow.bind_eq_next done with ⟨p₁, stored, done⟩
      rw [add_one_ofNat] at done
      exact ih (mirrors.poke (by omega) stored) (by omega) done

/-- A word that is added is in the memory of the program as in its block. -/
theorem addWord_mirrors {sh sh' : Shell} {arg arg' : Nat} {trimmedLine : Line}
    (trims : trim sh.line str = some trimmedLine) (length : strlen trimmedLine str = some size)
    (word' : size > 0 ∧ count > 0) (bound : count ≤ 2 ^ 64)
    (added : sh.addWord arg str count = .next (sh', arg')) :
    ∃ p word, sh.program.malloc (BitVec.ofNat 64 size) = .next (p, word) ∧
      sh'.commands sh.cmdcount arg = word ∧ Mirrors sh'.program word
        (wordBlock (fun x => p.mem (word + BitVec.ofNat 64 x)) trimmedLine str count size) := by
  unfold Shell.addWord at added
  rw [trims] at added
  dsimp only [Flow.ofOption_some, Flow.next_bind] at added
  rw [length] at added
  dsimp only [Flow.ofOption_some, Flow.next_bind] at added
  rw [if_pos word'] at added
  rcases Flow.bind_eq_next added with ⟨⟨p, word⟩, taken, added⟩
  dsimp only at added
  split at added
  · rcases Flow.bind_eq_next added with ⟨p₁, cleared, added⟩
    rcases Flow.bind_eq_next added with ⟨p₂, copied, added⟩
    cases added
    have here : word + BitVec.ofNat 64 0 = word := BitVec.add_zero word
    rw [← here] at cleared copied
    have start : Mirrors p word
        (Block.malloc size fun x => p.mem (word + BitVec.ofNat 64 x)) := fun x _ => rfl
    refine ⟨p, word, taken, ?_, (start.memset (by omega) cleared).strncpy (by omega) copied⟩
    simp
  · cases added

/-! ## Writes -/

namespace Block

/-- The block has room for what is written in it, and for a terminator behind its text. -/
def Sufficient (b : Block) : Prop := b.Inside ∧ ∃ x < b.size, b.bytes x = 0

end Block

/-- `strncpy` forgets no write. -/
theorem strncpy_grows (b : Block) (i : Nat) (line : Line) (src count : Nat) :
    (b.strncpy i line src count).size = b.size ∧
      ∀ x ∈ b.writes, x ∈ (b.strncpy i line src count).writes := by
  induction count generalizing b i src with
  | zero => exact ⟨rfl, fun x written => written⟩
  | succ count ih =>
      have rest := ih (b.store i (line src)) (i + 1) (if line src ≠ 0 then src + 1 else src)
      exact ⟨rest.1, fun x written => rest.2 x (List.mem_cons_of_mem _ written)⟩

theorem wordBlock_size (memory line : Line) (str count size : Nat) :
    (wordBlock memory line str count size).size = size :=
  (strncpy_grows _ 0 line str count).1.trans
    ((Block.malloc size memory).memset_filled 0 1024).size

/-- The block of a word is cleared beyond its end, unless 1024 bytes of the line are left. -/
theorem wordBlock_inside {memory : Line}
    (inside : (wordBlock memory line str count size).Inside) : 1024 ≤ size := by
  have cleared := (Block.malloc size memory).memset_filled 0 1024
  have grown := strncpy_grows ((Block.malloc size memory).memset 0 1024) 0 line str count
  have last := inside 1023 (grown.2 _ ((cleared.writes _).mpr (.inl ⟨by omega, by omega⟩)))
  rw [wordBlock_size] at last
  exact last

namespace Shell

variable {sh : Shell} {len : Nat} {at' : Cursor} {b : Block}

theorem roundBlock_inside (made : sh.roundBlock len at' = some b) (inside : b.Inside) :
    1024 ≤ b.size := by
  unfold roundBlock at made
  rcases Option.bind_eq_some_iff.mp made with ⟨line₁, _, made⟩
  rcases Option.bind_eq_some_iff.mp made with ⟨line₂, _, made⟩
  rcases Option.bind_eq_some_iff.mp made with ⟨size, _, made⟩
  split at made
  · split at made
    · cases made
      rw [wordBlock_size]
      exact wordBlock_inside inside
    · cases made
  · cases made

theorem loopBlocks_inside (member : b ∈ sh.loopBlocks len at' n) (inside : b.Inside) :
    1024 ≤ b.size := by
  induction n generalizing sh at' with
  | zero => cases member
  | succ n ih =>
      rw [loopBlocks] at member
      split at member
      · rcases List.mem_append.mp member with here | later
        · exact roundBlock_inside (Option.mem_toList.mp here) inside
        · split at later
          · exact ih later
          · cases later
      · cases member

/-- No block of a word has room for what is written, unless it has 1024 bytes. -/
theorem parseBlocks_inside (member : b ∈ sh.parseBlocks) (inside : b.Inside) : 1024 ≤ b.size := by
  unfold parseBlocks at member
  split at member
  · exact loopBlocks_inside member inside
  · cases member

end Shell

/-- The block of `tokenizeWithKey` is large enough, if it makes one. -/
def TokenSufficient (line : Line) (str : Nat) (key : Byte) (memory : Line) : Prop :=
  ∃ line' before rest, tokenizeWithKey line str key memory = some (line', before, rest) ∧
    ∀ b, before = some b → b.Sufficient

/-- It is if fewer bytes are before the key than are left of the trimmed string. -/
theorem tokenSufficient_iff {key : Byte} {memory : Line} (stands : Stands line str text)
    (nonzero : key ≠ 0) (room : text.length < lineRounds) :
    TokenSufficient line str key memory ↔
      trimmed text = [] ∨ (beforeKey key text).length < (trimmed text).length := by
  rcases tokenizeWithKey_returns stands nonzero room memory with
    ⟨line', before, rest, result, copied⟩
  have whole : TokenSufficient line str key memory ↔ ∀ b, before = some b → b.Sufficient := by
    constructor
    · rintro ⟨line₁, before₁, rest₁, result₁, sufficient⟩
      cases result.symm.trans result₁
      exact sufficient
    · exact fun sufficient => ⟨line', before, rest, result, sufficient⟩
  rw [whole]
  cases before with
  | none => exact iff_of_true (fun b impossible => by cases impossible) (.inl copied)
  | some b =>
      rcases copied with ⟨nonempty, size, bytes, writes⟩
      simp only [nonempty, false_or, Option.some.injEq, forall_eq']
      constructor
      · rintro ⟨_, x, below, zero⟩
        by_contra long
        rw [size] at below
        rw [bytes, if_pos (by omega), List.getD_eq_getElem _ _ below] at zero
        exact stands.string _ (mem_of_mem_trimmed (List.getElem_mem below)) zero
      · intro shorter
        refine ⟨fun x written => ?_, (beforeKey key text).length, by rwa [size], ?_⟩
        · rw [size]
          rcases (writes x).mp written with part | cleared <;> omega
        · rw [bytes, if_neg (Nat.lt_irrefl _), if_pos shorter]

/-- `setPath` puts the new value behind the first variable, and always writes the terminator
of its block behind the block. -/
theorem setPath_eq {envp : Block} {newval : Line} (memory : Line) (stands : Stands envp.bytes 0 text)
    (added : Stands newval 0 value) (room : text.length + value.length + 1 < lineRounds) :
    ∃ envp' b, setPath envp newval memory = some (envp', b) ∧
      Stands envp'.bytes 0 (trimmed text ++ colon :: value) ∧ ¬ b.Inside := by
  have shorter := trimmed_length_le text
  rcases trim_text stands (by omega) with ⟨line, done, left, _⟩
  obtain ⟨b, cleared⟩ : ∃ b, b = (Block.malloc ((trimmed text).length + value.length + 1) memory).memset 0
    ((trimmed text).length + value.length + 1) := ⟨_, rfl⟩
  have filled := (Block.malloc ((trimmed text).length + value.length + 1) memory).memset_filled 0
    ((trimmed text).length + value.length + 1)
  have size : b.size = (trimmed text).length + value.length + 1 := by
    rw [cleared]
    exact filled.size
  rcases Block.strcpy_stands b left (by omega) with ⟨b₁, copied₁, stands₁, size₁, _⟩
  have sign : Stands (literal [colon]) 0 [colon] := stands_literal (by decide)
  rcases Block.strcat_stands stands₁ sign (by simp; omega) with ⟨b₂, copied₂, stands₂, size₂, _⟩
  rcases Block.strcat_stands stands₂ added (by simp; omega) with ⟨b₃, copied₃, stands₃, size₃, inside₃⟩
  rw [List.append_assoc, List.singleton_append] at stands₃ inside₃
  rcases Block.strcpy_stands ({ envp with bytes := line }.memset 0 1024) stands₃
    (by simp; omega) with ⟨envp', copied₄, stands₄, _⟩
  refine ⟨envp', b₃, ?_, stands₄, fun inside => ?_⟩
  · simp only [setPath, done, left.strlen (by omega), added.strlen (by omega), Option.bind_eq_bind,
      Option.bind_some, ← cleared, copied₁, copied₂, copied₃, copied₄]
    rfl
  · have last := (inside₃.mp inside).1
    rw [size₂, size₁, size, List.length_append, List.length_cons] at last
    omega

/-- The writes of the shell: all blocks of the line, the block of the first part of a
variable, and the two blocks of `setPath`. -/
def WritesInside (sh : Shell) (envp : Block) (newval : Line) (memory : Nat → Line) : Prop :=
  (∀ b ∈ sh.parseBlocks, b.Sufficient) ∧ TokenSufficient envp.bytes 0 equals (memory 0) ∧
    ∃ envp' b, setPath envp newval (memory 1) = some (envp', b) ∧ envp'.Inside ∧ b.Inside

/-- The shell never keeps to its blocks: `setPath` writes behind its block whatever the new
value is.  `tokenizeWithKey` alone does so or leaves no room for a terminator unless bytes are
left behind the key, and `parseCommand` with each word of a line of less than 1024 bytes. -/
theorem not_writesInside {sh : Shell} {envp : Block} {newval : Line} {memory : Nat → Line}
    {text value : Text} (stands : Stands envp.bytes 0 text) (added : Stands newval 0 value)
    (room : text.length + value.length + 1 < lineRounds) :
    ¬ WritesInside sh envp newval memory ∧
    (∀ {line memory : Line} {str : Nat} {key : Byte} {text : Text}, Stands line str text → key ≠ 0 →
      text.length < lineRounds → (TokenSufficient line str key memory ↔
        trimmed text = [] ∨ (beforeKey key text).length < (trimmed text).length)) ∧
    ∀ b ∈ sh.parseBlocks, b.size < 1024 → ¬ b.Inside := by
  refine ⟨?_, fun stands nonzero room => tokenSufficient_iff stands nonzero room, ?_⟩
  · rintro ⟨_, _, envp', b, result, _, inside⟩
    rcases setPath_eq (memory 1) stands added room with ⟨_, _, result', _, outside⟩
    cases result.symm.trans result'
    exact outside inside
  · intro b member small inside
    exact absurd (Shell.parseBlocks_inside member inside) (Nat.not_le_of_lt small)

/-- `/x` is put behind `PATH=/b`. -/
theorem not_writesInside_value :
    ¬ WritesInside ⟨Program.fresh, literal [0x6C, 0x73], fun _ _ => 0, 0⟩
      ⟨1024, literal (variablePath [0x2F, 0x62]), []⟩ (literal [0x2F, 0x78]) fun _ _ => 0 :=
  (not_writesInside (stands_literal (by decide)) (stands_literal (by decide)) (by decide)).1

/-- There the block has ten bytes, and the terminator is the eleventh. -/
theorem setPath_leaves_block :
    ((setPath ⟨1024, literal (variablePath [0x2F, 0x62]), []⟩ (literal [0x2F, 0x78]) fun _ => 0).map
      fun blocks => (blocks.2.size, blocks.2.writes.head?)) = some (10, some 10) ∧
    ¬ WritesInside ⟨Program.fresh, literal [0x6C, 0x73], fun _ _ => 0, 0⟩
      ⟨1024, literal (variablePath [0x2F, 0x62]), []⟩ (literal [0x2F, 0x78]) fun _ _ => 0 := by
  refine ⟨by decide +kernel, ?_⟩
  rintro ⟨_, _, envp', b, result, _, inside⟩
  have stands : Stands (Block.mk 1024 (literal (variablePath [0x2F, 0x62])) []).bytes 0
      (variablePath [0x2F, 0x62]) := stands_literal (by decide)
  have added : Stands (literal [0x2F, 0x78]) 0 [0x2F, 0x78] := stands_literal (by decide)
  rcases setPath_eq (fun _ => 0) stands added (by decide) with ⟨_, _, result', _, outside⟩
  cases result.symm.trans result'
  exact outside inside

end Sbrocks.Sbush
