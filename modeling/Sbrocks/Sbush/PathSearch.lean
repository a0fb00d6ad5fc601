import Sbrocks.Sbush.Tokenize

/-!
# The search for a command

`getAbsolutePath` puts each directory of the variable `PATH` before a command and asks
whether the file can be opened.  The directories are cut off one after the other with
`tokenizeWithKey`, whose answer also ends the loop.
-/

namespace Sbrocks.Sbush

open Process (Byte)

variable {opens : Text → Bool} {cmd env stack path : Line} {memory : Nat → Line}
  {text value name c d : Text} {i n after : Nat}

/-! ## Functions -/

/-- `=`. -/
def equals : Byte := 0x3D

/-- `:`. -/
def colon : Byte := 0x3A

/-- `/`. -/
def slash : Byte := 0x2F

/-- `PATH`. -/
def pathName : Text := [0x50, 0x41, 0x54, 0x48]

/-- `exit`. -/
def exitName : Text := [0x65, 0x78, 0x69, 0x74]

/-- `getEnvironment`: the array `token` and the place in it that is returned. -/
def getEnvironment (key env stack memory : Line) : Option (Option (Line × Nat)) := do
  let token ← (Block.malloc maxLen stack).strcpy env 0
  let token ← token.kept
  let (line, before, res) ← tokenizeWithKey token.bytes 0 equals memory
  let before ← before
  let order ← strcmp before.bytes key 0 0 lineRounds
  return if order = 0 then res.map fun r => (line, r) else none

/-- The path that a round of the loop puts together. -/
def joinPath (cmd memory : Line) (before : Block) : Option Text := do
  let abspath ← ((Block.malloc maxLen memory).memset 0 maxLen).strcpy before.bytes 0
  let abspath ← abspath.strcat (literal [slash]) 0
  let abspath ← abspath.strcat cmd 0
  let abspath ← abspath.kept
  let line ← trim abspath.bytes 0
  stringAt line 0

/-- The loop of `getAbsolutePath`: the paths that it tried to open, and the one it returns. -/
def searchLoop (opens : Text → Bool) (cmd : Line) (memory : Nat → Line) (path : Line)
    (after : Option Nat) (i : Nat) : Nat → Option (List Text × Option Text)
  | 0 => none
  | n + 1 =>
      match after with
      | none => some ([], none)
      | some after => do
          let (path, before, after) ← tokenizeWithKey path after colon (memory (i + 1))
          let before ← before
          let abspath ← joinPath cmd (memory i) before
          if opens abspath then some ([abspath], some abspath)
          else do
            let (tried, found) ← searchLoop opens cmd memory path after (i + 2) n
            some (abspath :: tried, found)

/-- `getAbsolutePath` of a command that is searched. -/
def searchPath (opens : Text → Bool) (cmd env stack : Line) (memory : Nat → Line) :
    Option (List Text × Option Text) := do
  let found ← getEnvironment (literal pathName) env stack (memory 1)
  let (value, r) ← found
  let env_path ← ((Block.malloc maxLen (memory 0)).memset 0 maxLen).strcpy value r
  let env_path ← env_path.kept
  searchLoop opens cmd memory env_path.bytes (some 0) 2 lineRounds

/-- `getAbsolutePath`, with the files that can be opened and what the blocks held before. -/
def getAbsolutePath (opens : Text → Bool) (cmd env stack : Line) (memory : Nat → Line) :
    Option (List Text × Option Text) := do
  let order ← strcmp (literal exitName) cmd 0 0 lineRounds
  if order = 0 then
    let name ← stringAt cmd 0
    return ([], some name)
  else
    let slashed ← strstrLiteral cmd [slash]
    if slashed.isSome then
      let name ← stringAt cmd 0
      return ([], some name)
    else searchPath opens cmd env stack memory

/-! ## What the search is for -/

/-- The paths of a command: a directory of the variable that is not empty, and the command. -/
def candidates (value c : Text) : List Text :=
  ((value.splitOn colon).filter (· ≠ [])).map (· ++ slash :: c)

/-- Paths are tried in order until one can be opened. -/
def firstOpened (opens : Text → Bool) : List Text → List Text × Option Text
  | [] => ([], none)
  | name :: rest =>
      if opens name then ([name], some name)
      else (name :: (firstOpened opens rest).1, (firstOpened opens rest).2)

/-! ## Texts -/

theorem beforeKey_append {key : Byte} {a : Text} (absent : key ∉ a) (b : Text) :
    beforeKey key (a ++ key :: b) = a := by
  induction a with
  | nil => exact beforeKey_cons_self key b
  | cons c a ih =>
      rcases not_or.mp (mt List.mem_cons.mpr absent) with ⟨other, absent⟩
      rw [List.cons_append, beforeKey_cons (Ne.symm other), ih absent]

theorem behindKey_append {key : Byte} {a : Text} (absent : key ∉ a) (b : Text) :
    behindKey key (a ++ key :: b) = b := by
  have present : key ∈ a ++ key :: b := List.mem_append_right _ List.mem_cons_self
  have cut := cut_at_key present
  rw [beforeKey_append absent] at cut
  exact (List.cons.inj (List.append_cancel_left cut)).2.symm

/-- The last separator cuts a path in one way. -/
theorem join_inj {x x' y y' : Text} (absent : slash ∉ y) (absent' : slash ∉ y')
    (same : x ++ slash :: y = x' ++ slash :: y') : x = x' ∧ y = y' := by
  have reversed := congrArg List.reverse same
  simp only [List.reverse_append, List.reverse_cons, List.append_assoc, List.singleton_append]
    at reversed
  have front := congrArg (beforeKey slash) reversed
  have back := congrArg (behindKey slash) reversed
  rw [beforeKey_append (by simpa using absent), beforeKey_append (by simpa using absent')] at front
  rw [behindKey_append (by simpa using absent), behindKey_append (by simpa using absent')] at back
  exact ⟨List.reverse_inj.mp back, List.reverse_inj.mp front⟩

/-- Spaces are only cut off behind a character that is none. -/
theorem rdropWhile_append_cons {key : Byte} (plain : isSpace key = false) (x y : Text) :
    (x ++ key :: y).rdropWhile isSpace = x ++ key :: y.rdropWhile isSpace := by
  rw [List.rdropWhile, List.reverse_append, List.reverse_cons, List.append_assoc,
    List.dropWhile_append]
  split
  · rename_i empty
    have spaces := List.isEmpty_iff.mp empty
    rw [List.singleton_append, List.dropWhile_cons_of_neg (by simp [plain])]
    simp [List.rdropWhile, spaces]
  · simp [List.rdropWhile]

theorem dropWhile_of_begins (begins : isSpace (text.getD 0 0) = false) :
    text.dropWhile isSpace = text := by
  cases text with
  | nil => rfl
  | cons c text => exact List.dropWhile_cons_of_neg (by simpa using begins)

/-- A path is trimmed at the end of the command. -/
theorem trimmed_join (begins : isSpace (d.getD 0 0) = false) (c : Text) :
    trimmed (d ++ slash :: c) = d ++ slash :: c.rdropWhile isSpace := by
  have first : isSpace ((d ++ slash :: c).getD 0 0) = false := by
    cases d with
    | nil => rfl
    | cons e d => exact begins
  rw [trimmed, dropWhile_of_begins first, rdropWhile_append_cons rfl]

/-- What is behind a colon is trimmed by itself. -/
theorem trimmed_colon {front : Text} (some : front.dropWhile isSpace ≠ []) (rest : Text) :
    trimmed (front ++ colon :: rest) =
      front.dropWhile isSpace ++ colon :: rest.rdropWhile isSpace := by
  rw [trimmed, List.dropWhile_append, if_neg (by simpa using some), rdropWhile_append_cons rfl]

theorem trimmed_colon_spaces {front : Text} (none : front.dropWhile isSpace = []) (rest : Text) :
    trimmed (front ++ colon :: rest) = colon :: rest.rdropWhile isSpace := by
  rw [trimmed, List.dropWhile_append, if_pos (by simpa using none),
    List.dropWhile_cons_of_neg (by decide)]
  exact rdropWhile_append_cons rfl [] rest

theorem trimmed_rdropWhile (text : Text) : trimmed (text.rdropWhile isSpace) = trimmed text := by
  have spaces : ∀ c ∈ text.rtakeWhile isSpace, isSpace c = true :=
    fun c member => List.mem_rtakeWhile_imp member
  have whole := trimmed_append spaces (text.rdropWhile isSpace)
  rw [List.rdropWhile_append_rtakeWhile] at whole
  exact whole.symm

theorem splitOn_cons (absent : colon ∉ d) (rest : Text) :
    (d ++ colon :: rest).splitOn colon = d :: rest.splitOn colon := by
  rw [List.splitOn_append_cons_self, List.splitOn_eq_singleton absent]
  rfl

theorem candidates_cons (absent : colon ∉ d) (rest c : Text) :
    candidates (d ++ colon :: rest) c =
      (if d = [] then [] else [d ++ slash :: c]) ++ candidates rest c := by
  rw [candidates, splitOn_cons absent, List.filter_cons]
  by_cases empty : d = []
  · rw [if_neg (by simpa using empty), if_pos empty]
    rfl
  · rw [if_pos (by simpa using empty), if_neg empty]
    rfl

theorem candidates_last (absent : colon ∉ d) (c : Text) :
    candidates d c = if d = [] then [] else [d ++ slash :: c] := by
  rw [candidates, List.splitOn_eq_singleton absent]
  by_cases empty : d = []
  · rw [if_pos empty, empty]
    rfl
  · rw [if_neg empty, List.filter_cons, if_pos (by simpa using empty)]
    rfl

/-- Each path has a directory. -/
theorem mem_candidates {p : Text} (member : p ∈ candidates value c) :
    ∃ d, d ≠ [] ∧ p = d ++ slash :: c := by
  rcases List.mem_map.mp member with ⟨d, listed, rfl⟩
  exact ⟨d, by simpa using (List.mem_filter.mp listed).2, rfl⟩

/-! ## One path -/

/-- A string that was copied was there. -/
theorem strcpyLoop_some {b b' : Block} {line : Line} {s : Nat}
    (copied : b.strcpyLoop i line s n = some b') :
    ∃ text, Stands line s text ∧ text.length < n := by
  induction n generalizing b i s with
  | zero => cases copied
  | succ n ih =>
      rw [Block.strcpyLoop] at copied
      by_cases last : line s = 0
      · refine ⟨[], ⟨fun c member => absurd member List.not_mem_nil, fun j inside => ?_⟩,
          Nat.succ_pos n⟩
        rw [Nat.le_zero.mp inside, Nat.add_zero, last]
        rfl
      · simp only [if_neg last] at copied
        rcases ih copied with ⟨text, stands, short⟩
        refine ⟨line s :: text, ⟨?_, fun j inside => ?_⟩, Nat.succ_lt_succ short⟩
        · intro c member
          rcases List.mem_cons.mp member with rfl | member
          · exact last
          · exact stands.string c member
        · cases j with
          | zero => rfl
          | succ j =>
              rw [List.getD_cons_succ, ← stands.bytes j (Nat.le_of_succ_le_succ inside)]
              congr 1
              omega

theorem inside_malloc (memory : Line) (n : Nat) :
    ((Block.malloc n memory).memset 0 n).Inside := by
  have cleared := (Block.malloc n memory).memset_filled 0 n
  intro x written
  rw [cleared.size]
  rcases (cleared.writes x).mp written with inside | before
  · exact Nat.zero_add n ▸ inside.2
  · exact absurd before List.not_mem_nil

/-- A path that fits its block is the directory and the command, trimmed. -/
theorem joinPath_eq (command : Stands cmd 0 c) {b : Block} (before : Stands b.bytes 0 d)
    (stack : Line) (fits : (d ++ slash :: c).length < lineRounds) :
    joinPath cmd stack b =
      if (d ++ slash :: c).length < maxLen then some (trimmed (d ++ slash :: c)) else none := by
  have lengths : (d ++ slash :: c).length = d.length + (c.length + 1) := by simp
  rcases Block.strcpy_stands ((Block.malloc maxLen stack).memset 0 maxLen) before (by omega) with
    ⟨b₁, copied₁, stands₁, size₁, inside₁⟩
  have sign : Stands (literal [slash]) 0 [slash] := stands_literal (by decide)
  rcases Block.strcat_stands stands₁ sign (by simp; omega) with ⟨b₂, copied₂, stands₂, size₂, inside₂⟩
  rcases Block.strcat_stands stands₂ command (by simp; omega) with
    ⟨b₃, copied₃, stands₃, size₃, inside₃⟩
  have size : ((Block.malloc maxLen stack).memset 0 maxLen).size = maxLen :=
    ((Block.malloc maxLen stack).memset_filled 0 maxLen).size
  rw [List.append_assoc, List.singleton_append] at stands₃ inside₃
  rw [size₂, size₁, size] at inside₃
  simp only [joinPath, copied₁, copied₂, copied₃, Option.bind_eq_bind, Option.bind_some]
  split
  · rename_i short
    have inside : b₃.Inside := by
      refine inside₃.mpr ⟨short, inside₂.mpr ⟨?_, inside₁.mpr ⟨?_, inside_malloc stack maxLen⟩⟩⟩
      · rw [size₁, size, List.length_append, List.length_singleton]
        omega
      · rw [size]
        omega
    rw [Block.kept_of_inside inside, Option.bind_some]
    rcases trim_text stands₃ fits with ⟨line, done, left, _⟩
    rw [done, Option.bind_some]
    exact left.stringAt (Nat.lt_of_le_of_lt (trimmed_length_le _) fits)
  · rename_i long
    rw [Block.kept_of_not_inside fun inside => long (inside₃.mp inside).1]
    rfl

/-- Nothing that was written is forgotten. -/
theorem strcpyLoop_grows {b b' : Block} {line : Line} {s : Nat}
    (copied : b.strcpyLoop i line s n = some b') :
    b'.size = b.size ∧ ∀ x ∈ b.writes, x ∈ b'.writes := by
  induction n generalizing b i s with
  | zero => cases copied
  | succ n ih =>
      rw [Block.strcpyLoop] at copied
      by_cases last : line s = 0
      · simp only [if_pos last] at copied
        cases copied
        exact ⟨rfl, fun x written => List.mem_cons_of_mem _ written⟩
      · simp only [if_neg last] at copied
        rcases ih copied with ⟨size, kept⟩
        exact ⟨size, fun x written => kept x (List.mem_cons_of_mem _ written)⟩

theorem strcat_grows {b b' : Block} {line : Line} {s : Nat} (copied : b.strcat line s = some b') :
    b'.size = b.size ∧ ∀ x ∈ b.writes, x ∈ b'.writes := by
  rcases Option.bind_eq_some_iff.mp copied with ⟨len, _, copied⟩
  exact strcpyLoop_grows copied

/-- A path comes from a string in front. -/
theorem joinPath_some (command : Stands cmd 0 c) {b : Block} {stack : Line}
    (short : c.length + maxLen < lineRounds) (joined : joinPath cmd stack b = some name) :
    ∃ d, Stands b.bytes 0 d ∧ (d ++ slash :: c).length < maxLen ∧ name = trimmed (d ++ slash :: c) := by
  have whole := joined
  unfold joinPath at joined
  rcases Option.bind_eq_some_iff.mp joined with ⟨b₁, copied₁, joined⟩
  rcases Option.bind_eq_some_iff.mp joined with ⟨b₂, copied₂, joined⟩
  rcases Option.bind_eq_some_iff.mp joined with ⟨b₃, copied₃, joined⟩
  rcases Option.bind_eq_some_iff.mp joined with ⟨b₄, kept, _⟩
  rcases strcpyLoop_some copied₁ with ⟨d, before, room⟩
  rcases Block.strcpy_stands ((Block.malloc maxLen stack).memset 0 maxLen) before room with
    ⟨b₁', copied₁', _, size₁, inside₁⟩
  cases copied₁.symm.trans copied₁'
  have inside : b₃.Inside := by
    by_contra outside
    rw [Block.kept_of_not_inside outside] at kept
    cases kept
  have first : b₁.Inside := by
    intro x written
    rw [← (strcat_grows copied₂).1, ← (strcat_grows copied₃).1]
    exact inside x ((strcat_grows copied₃).2 x ((strcat_grows copied₂).2 x written))
  have small := (inside₁.mp first).1
  rw [((Block.malloc maxLen stack).memset_filled 0 maxLen).size] at small
  change d.length < maxLen at small
  rw [joinPath_eq command before stack (by rw [List.length_append, List.length_cons]; omega)] at whole
  split at whole
  · rename_i fits
    cases whole
    exact ⟨d, before, fits, rfl⟩
  · cases whole

/-! ## One round -/

theorem searchLoop_round {path' : Line} {b : Block} {after' : Option Nat}
    (cut : tokenizeWithKey path after colon (memory (i + 1)) = some (path', some b, after')) :
    searchLoop opens cmd memory path (some after) i (n + 1) =
      (joinPath cmd (memory i) b).bind fun name =>
        if opens name then some ([name], some name)
        else (searchLoop opens cmd memory path' after' (i + 2) n).map fun r => (name :: r.1, r.2) := by
  simp only [searchLoop, cut, Option.bind_eq_bind, Option.bind_some]
  refine Option.bind_congr fun name _ => ?_
  split
  · rfl
  · cases searchLoop opens cmd memory path' after' (i + 2) n <;> rfl

/-- Nothing sets `before` when nothing is left of the variable. -/
theorem searchLoop_nothing (stands : Stands path after []) :
    searchLoop opens cmd memory path (some after) i n = none := by
  cases n with
  | zero => rfl
  | succ n =>
      rcases tokenizeWithKey_none stands (show colon ≠ 0 by decide) (by decide) (memory (i + 1))
        (fun found => absurd found.1 List.not_mem_nil) with ⟨path', before, cut, copied⟩
      cases before with
      | none => simp only [searchLoop, cut, Option.bind_eq_bind, Option.bind_some, Option.bind_none]
      | some b => exact absurd rfl copied.1

/-- A directory in front of others is cut off, without the spaces in front of it. -/
theorem tokenize_front {front rest : Text} (absent : colon ∉ front)
    (some' : front.dropWhile isSpace ≠ [])
    (stands : Stands path after (trimmed (front ++ colon :: rest)))
    (room : (trimmed (front ++ colon :: rest)).length < lineRounds) (held : Line) :
    ∃ path' b r, tokenizeWithKey path after colon held = some (path', some b, some r) ∧
      Stands b.bytes 0 (front.dropWhile isSpace) ∧ Stands path' r (trimmed rest) := by
  have absent' : colon ∉ front.dropWhile isSpace :=
    fun member => absent ((List.dropWhile_suffix isSpace).subset member)
  have same := trimmed_colon some' rest
  have whole : trimmed (trimmed (front ++ colon :: rest)) = trimmed (front ++ colon :: rest) :=
    trimmed_trimmed _
  have nonempty : trimmed (front ++ colon :: rest) ≠ [] := by
    rw [same]
    simp
  have begins : isSpace ((trimmed (front ++ colon :: rest)).getD 0 0) = false :=
    trimmed_begins nonempty
  have present : colon ∈ trimmed (front ++ colon :: rest) := by
    rw [same]
    simp
  have key : beforeKey colon (trimmed (front ++ colon :: rest)) = front.dropWhile isSpace := by
    rw [same, beforeKey_append absent']
  have behind : behindKey colon (trimmed (front ++ colon :: rest)) = rest.rdropWhile isSpace := by
    rw [same, behindKey_append absent']
  rcases tokenizeWithKey_found stands (by decide) room held begins present (by rwa [key]) with
    ⟨path', before, cut, copied, left⟩
  rw [trimmed_behind begins present, behind, trimmed_rdropWhile] at left
  cases before with
  | none => exact absurd (whole.symm.trans copied) nonempty
  | some b =>
      refine ⟨path', b, _, cut, ?_, left⟩
      rw [← key]
      apply (copied.2.before_iff stands begins).mpr
      left
      rw [whole, key, same, List.length_append, List.length_cons]
      omega

/-- Of a directory of spaces, or an empty one, the block is left empty, and the rest is lost. -/
theorem tokenize_empty {front rest : Text} (none' : front.dropWhile isSpace = [])
    (stands : Stands path after (trimmed (front ++ colon :: rest)))
    (room : (trimmed (front ++ colon :: rest)).length < lineRounds) (held : Line) :
    ∃ path' b, tokenizeWithKey path after colon held = some (path', some b, none) ∧
      Stands b.bytes 0 [] := by
  have same := trimmed_colon_spaces none' rest
  have key : beforeKey colon (trimmed (front ++ colon :: rest)) = [] := by
    rw [same, beforeKey_cons_self]
  have whole : trimmed (trimmed (front ++ colon :: rest)) = trimmed (front ++ colon :: rest) :=
    trimmed_trimmed _
  have nonempty : trimmed (front ++ colon :: rest) ≠ [] := by
    rw [same]
    simp
  rcases tokenizeWithKey_none stands (by decide) room held fun found => found.2 key with
    ⟨path', before, cut, copied⟩
  cases before with
  | none => exact absurd (whole.symm.trans copied) nonempty
  | some b =>
      refine ⟨path', b, cut, ?_⟩
      rw [← key]
      apply (copied.2.before_iff stands (trimmed_begins nonempty)).mpr
      left
      rw [whole, key]
      exact List.length_pos_iff.mpr nonempty

/-- The last directory is ended by what is found behind its block. -/
theorem tokenize_last (absent : colon ∉ value) (nonempty : trimmed value ≠ [])
    (stands : Stands path after (trimmed value)) (room : (trimmed value).length < lineRounds)
    (held : Line) :
    ∃ path' b, tokenizeWithKey path after colon held = some (path', some b, none) ∧
      ∀ d, Stands b.bytes 0 d ↔ ∃ g, Stands held (trimmed value).length g ∧ d = trimmed value ++ g := by
  have missing : colon ∉ trimmed value := fun member => absent (mem_of_mem_trimmed member)
  have key := beforeKey_of_notMem missing
  rcases tokenizeWithKey_none stands (by decide) room held fun found => missing found.1 with
    ⟨path', before, cut, copied⟩
  rw [trimmed_trimmed, key] at copied
  cases before with
  | none => exact absurd copied nonempty
  | some b =>
      refine ⟨path', b, cut, fun d => ?_⟩
      have bytes : ∀ x, b.bytes x =
          if x < (trimmed value).length then (trimmed value).getD x 0 else held x := by
        intro x
        rw [copied.2.bytes]
        split <;> rfl
      have front : ∀ j < (trimmed value).length, b.bytes (0 + j) = (trimmed value).getD j 0 := by
        intro j inside
        rw [Nat.zero_add, bytes, if_pos inside]
      have behind : ∀ {g : Text}, Stands b.bytes (0 + (trimmed value).length) g ↔
          Stands held (trimmed value).length g := by
        intro g
        rw [Nat.zero_add]
        have same : ∀ x, (trimmed value).length ≤ x → b.bytes x = held x := fun x far => by
          rw [bytes, if_neg (Nat.not_lt_of_le far)]
        exact ⟨fun holds => holds.congr fun x far _ => (same x far).symm,
          fun holds => holds.congr fun x far _ => same x far⟩
      constructor
      · intro holds
        rcases holds.exists_append stands.string front with ⟨g, rfl⟩
        exact ⟨g, behind.mp ((Stands.append_iff stands.string front).mp holds), rfl⟩
      · rintro ⟨g, holds, rfl⟩
        exact (Stands.append_iff stands.string front).mpr (behind.mpr holds)

/-! ## Runs -/

/-- A directory whose path is put together as it is. -/
structure Joins (c d : Text) : Prop where
  nonempty : d ≠ []
  begins : isSpace (d.getD 0 0) = false
  short : (d ++ slash :: c).length < maxLen

/-- The memory behind a block for the last directory ends it. -/
def Ends (memory : Line) (d : Text) : Prop :=
  ∃ g, Stands memory (trimmed d).length g ∧ trimmed d ++ g = d

/-- What the loop can search, from the block on that it takes next. -/
structure Searchable (c : Text) (memory : Nat → Line) (i : Nat) (directories : List Text) : Prop where
  fits : ∀ d ∈ directories, Joins c d
  last : ∀ d, directories.getLast? = some d → Ends (memory (i + 2 * directories.length - 1)) d

theorem searchable_cons {rest : List Text} (more : rest ≠ []) :
    Searchable c memory i (d :: rest) ↔ Joins c d ∧ Searchable c memory (i + 2) rest := by
  have positive := List.length_pos_iff.mpr more
  have index : i + 2 * (d :: rest).length - 1 = i + 2 + 2 * rest.length - 1 := by
    rw [List.length_cons]
    omega
  have last : (d :: rest).getLast? = rest.getLast? := by
    cases rest with
    | nil => exact absurd rfl more
    | cons e rest => rfl
  constructor
  · rintro ⟨fits, ends⟩
    rw [index, last] at ends
    exact ⟨fits d List.mem_cons_self, fun e member => fits e (List.mem_cons_of_mem d member), ends⟩
  · rintro ⟨first, fits, ends⟩
    refine ⟨fun e member => ?_, by rw [index, last]; exact ends⟩
    rcases List.mem_cons.mp member with rfl | member
    · exact first
    · exact fits e member

theorem searchable_singleton :
    Searchable c memory i [d] ↔ Joins c d ∧ Ends (memory (i + 1)) d := by
  constructor
  · rintro ⟨fits, ends⟩
    exact ⟨fits d List.mem_cons_self, ends d rfl⟩
  · rintro ⟨fits, ends⟩
    refine ⟨fun e member => ?_, fun e last => ?_⟩
    · rw [List.mem_singleton.mp member]
      exact fits
    · cases last
      exact ends

theorem splitOn_ne_nil (value : Text) : value.splitOn colon ≠ [] := List.splitOn_ne_nil colon value

variable (command : Stands cmd 0 c) (short : c.length + maxLen < lineRounds)

include command short in
/-- What can be searched is searched in order. -/
theorem searchLoop_of_searchable (ending : c.rdropWhile isSpace = c) (room : value.length < lineRounds)
    (searchable : Searchable c memory i (value.splitOn colon))
    (stands : Stands path after (trimmed value)) (rounds : value.length + 1 < n) :
    searchLoop opens cmd memory path (some after) i n =
      some (firstOpened opens (candidates value c)) := by
  induction n generalizing value path after i with
  | zero => omega
  | succ n ih =>
      have left := Nat.lt_of_le_of_lt (trimmed_length_le value) room
      have joined : ∀ {d : Text} {b : Block} {held : Line}, Joins c d → Stands b.bytes 0 d →
          joinPath cmd held b = some (d ++ slash :: c) := by
        intro d b held fits holds
        have size := fits.short
        rw [joinPath_eq command holds held (by omega), if_pos size, trimmed_join fits.begins, ending]
      by_cases present : colon ∈ value
      · have cut := cut_at_key present
        have absent := notMem_beforeKey colon value
        obtain ⟨front, rest, same⟩ : ∃ front rest, front = beforeKey colon value ∧
          rest = behindKey colon value := ⟨_, _, rfl, rfl⟩
        rw [← same.1, ← same.2] at cut
        rw [← same.1] at absent
        clear same
        subst cut
        rw [splitOn_cons absent, searchable_cons (splitOn_ne_nil rest)] at searchable
        have fits := searchable.1
        have plain := dropWhile_of_begins fits.begins
        rcases tokenize_front absent (by rw [plain]; exact fits.nonempty) stands left (memory (i + 1)) with
          ⟨path', b, r, found, holds, stands'⟩
        rw [plain] at holds
        rw [List.length_append, List.length_cons] at rounds room
        rw [searchLoop_round found, joined fits holds, Option.bind_some, candidates_cons absent,
          if_neg fits.nonempty, List.singleton_append, firstOpened,
          ih (by omega) searchable.2 stands' (by omega)]
        split <;> rfl
      · rw [List.splitOn_eq_singleton present, searchable_singleton] at searchable
        rcases searchable with ⟨fits, g, held, whole⟩
        have nonempty := trimmed_ne_nil fits.nonempty fits.begins
        rcases tokenize_last present nonempty stands left (memory (i + 1)) with
          ⟨path', b, found, holds⟩
        have here := (holds value).mpr ⟨g, held, whole.symm⟩
        obtain ⟨n, rfl⟩ := Nat.exists_eq_succ_of_ne_zero (show n ≠ 0 by omega)
        rw [searchLoop_round found, joined fits here, Option.bind_some, candidates_last present,
          if_neg fits.nonempty, firstOpened, searchLoop]
        split <;> rfl

theorem firstOpened_never (names : List Text) :
    firstOpened (fun _ => false) names = (names, none) := by
  induction names with
  | nil => rfl
  | cons name names ih => simp [firstOpened, ih]

theorem begins_dropWhile (text : Text) : isSpace ((text.dropWhile isSpace).getD 0 0) = false := by
  by_cases empty : text.dropWhile isSpace = []
  · rw [empty]
    rfl
  · have positive := List.length_pos_iff.mpr empty
    rw [List.getD_eq_getElem _ _ positive]
    simpa using List.dropWhile_get_zero_not isSpace text positive

/-- A round that opens nothing tried a path that fits its block. -/
theorem searchLoop_tried {path' : Line} {b : Block} {after' : Option Nat} {tried : List Text}
    (cut : tokenizeWithKey path after colon (memory (i + 1)) = some (path', some b, after'))
    (result : searchLoop (fun _ => false) cmd memory path (some after) i (n + 1) = some (tried, none)) :
    ∃ name rest, joinPath cmd (memory i) b = some name ∧ tried = name :: rest ∧
      searchLoop (fun _ => false) cmd memory path' after' (i + 2) n = some (rest, none) := by
  rw [searchLoop_round cut] at result
  rcases Option.bind_eq_some_iff.mp result with ⟨name, joined, result⟩
  rw [if_neg (by simp)] at result
  rcases Option.map_eq_some_iff.mp result with ⟨⟨rest, found⟩, more, same⟩
  cases same
  exact ⟨name, rest, joined, rfl, more⟩

include command short in
/-- Only what can be searched has all its paths tried, and no others. -/
theorem searchable_of_searchLoop (plain : slash ∉ c) (room : value.length < lineRounds)
    (stands : Stands path after (trimmed value))
    (result : searchLoop (fun _ => false) cmd memory path (some after) i n =
      some (candidates value c, none)) :
    Searchable c memory i (value.splitOn colon) ∧ c.rdropWhile isSpace = c := by
  induction n generalizing value path after i with
  | zero => cases result
  | succ n ih =>
      have left := Nat.lt_of_le_of_lt (trimmed_length_le value) room
      have front := List.rdropWhile_prefix isSpace c
      have plain' : slash ∉ c.rdropWhile isSpace := fun member => plain (front.subset member)
      by_cases present : colon ∈ value
      · have cut := cut_at_key present
        have absent := notMem_beforeKey colon value
        obtain ⟨front, rest, same⟩ : ∃ front rest, front = beforeKey colon value ∧
          rest = behindKey colon value := ⟨_, _, rfl, rfl⟩
        rw [← same.1, ← same.2] at cut
        rw [← same.1] at absent
        clear same
        subst cut
        by_cases spaces : front.dropWhile isSpace = []
        · -- the path of no directory is not one of them
          rcases tokenize_empty spaces stands left (memory (i + 1)) with ⟨path', b, found, holds⟩
          rcases searchLoop_tried found result with ⟨name, tried, joined, same, _⟩
          rcases joinPath_some command short joined with ⟨d, holds', _, rfl⟩
          cases holds'.unique holds
          have member : trimmed ([] ++ slash :: c) ∈ candidates (front ++ colon :: rest) c := by
            rw [same]
            exact List.mem_cons_self
          rcases mem_candidates member with ⟨e, nonempty, shape⟩
          rw [trimmed_join rfl] at shape
          exact absurd (join_inj plain' plain shape).1.symm nonempty
        · have nonempty : front ≠ [] := by
            rintro rfl
            exact spaces rfl
          rcases tokenize_front absent spaces stands left (memory (i + 1)) with
            ⟨path', b, r, found, holds, stands'⟩
          rcases searchLoop_tried found result with ⟨name, tried, joined, same, more⟩
          rcases joinPath_some command short joined with ⟨d, holds', fits, rfl⟩
          cases holds'.unique holds
          rw [candidates_cons absent, if_neg nonempty, List.singleton_append,
            trimmed_join (begins_dropWhile front)] at same
          rcases List.cons.inj same with ⟨shape, others⟩
          rcases join_inj plain plain' shape with ⟨whole, ending⟩
          rw [← others] at more
          rw [List.length_append, List.length_cons] at room
          have searchable := (ih (by omega) stands' more).1
          rw [splitOn_cons absent, searchable_cons (splitOn_ne_nil rest)]
          rw [← whole] at fits
          exact ⟨⟨⟨nonempty, whole ▸ begins_dropWhile front, fits⟩, searchable⟩, ending.symm⟩
      · by_cases nothing : trimmed value = []
        · rw [nothing] at stands
          rw [searchLoop_nothing stands] at result
          cases result
        · have nonempty : value ≠ [] := by
            rintro rfl
            exact nothing rfl
          rcases tokenize_last present nothing stands left (memory (i + 1)) with
            ⟨path', b, found, holds⟩
          rcases searchLoop_tried found result with ⟨name, tried, joined, same, _⟩
          rcases joinPath_some command short joined with ⟨d, holds', fits, rfl⟩
          rcases (holds d).mp holds' with ⟨g, held, whole⟩
          have begins : isSpace (d.getD 0 0) = false := by
            rw [whole, List.getD_append _ _ _ _ (List.length_pos_iff.mpr nothing)]
            exact trimmed_begins nothing
          rw [candidates_last present, if_neg nonempty, trimmed_join begins] at same
          rcases join_inj plain plain' (List.cons.inj same).1 with ⟨rfl, ending⟩
          rw [List.splitOn_eq_singleton present, searchable_singleton]
          exact ⟨⟨⟨nonempty, begins, fits⟩, g, held, whole.symm⟩, ending.symm⟩

/-! ## The whole search -/

/-- The variable `PATH` with a value. -/
def variablePath (value : Text) : Text := pathName ++ equals :: value

/-- The value of the variable is returned without the spaces around it, if the array has room. -/
theorem getEnvironment_path (variable' : Stands env 0 (variablePath value)) (stack held : Line)
    (fits : (variablePath value).length < maxLen) :
    ∃ line r, getEnvironment (literal pathName) env stack held = some (some (line, r)) ∧
      Stands line r (trimmed value) := by
  have room : (variablePath value).length < lineRounds := Nat.lt_trans fits (by decide)
  have key : beforeKey equals (variablePath value) = pathName := beforeKey_append (by decide) value
  have behind : behindKey equals (variablePath value) = value := behindKey_append (by decide) value
  have begins : isSpace ((variablePath value).getD 0 0) = false := rfl
  have present : equals ∈ variablePath value := by simp [variablePath]
  rcases Block.strcpy_stands (Block.malloc maxLen stack) variable' room with
    ⟨token, copied, stands, _, inside⟩
  have kept : token.kept = some token :=
    Block.kept_of_inside (inside.mpr ⟨fits, fun x written => absurd written List.not_mem_nil⟩)
  rcases tokenizeWithKey_found stands (show equals ≠ 0 by decide) room held begins present
    (by rw [key]; decide) with ⟨line, before, cut, block, left⟩
  rw [trimmed_behind begins present, behind] at left
  have some' := trimmed_ne_nil (List.ne_nil_of_mem present) begins
  have whole : trimmed (variablePath value) = pathName ++ trimmed (equals :: value) := by
    have joined : variablePath value = pathName ++ equals :: value := rfl
    rw [joined, trimmed, dropWhile_of_begins (by rfl), rdropWhile_append_cons (by rfl), trimmed,
      List.dropWhile_cons_of_neg (by decide)]
    exact congrArg _ (rdropWhile_append_cons (by rfl) [] value).symm
  cases before with
  | none => exact absurd block some'
  | some b =>
      have longer : (beforeKey equals (variablePath value)).length <
          (trimmed (variablePath value)).length := by
        have more := trimmed_ne_nil (List.cons_ne_nil equals value) rfl
        have positive := List.length_pos_iff.mpr more
        rw [key, whole, List.length_append]
        omega
      have holds := (block.2.before_iff stands begins).mpr (.inl longer)
      rw [key] at holds
      rcases strcmp_eq holds (stands_literal (show ∀ x ∈ pathName, x ≠ 0 by decide))
        (show pathName.length < lineRounds by decide) with ⟨order, compared, equal⟩
      refine ⟨line, _, ?_, left⟩
      simp only [getEnvironment, copied, kept, cut, compared, Option.bind_eq_bind, Option.bind_some,
        if_pos (equal.mpr rfl)]
      rfl

theorem getEnvironment_long (variable' : Stands env 0 (variablePath value)) (key held : Line)
    (room : (variablePath value).length < lineRounds)
    (long : maxLen ≤ (variablePath value).length) : getEnvironment key env stack held = none := by
  rcases Block.strcpy_stands (Block.malloc maxLen stack) variable' room with
    ⟨token, copied, _, _, inside⟩
  have outside : ¬ token.Inside := fun within => absurd (inside.mp within).1 (Nat.not_lt_of_le long)
  simp only [getEnvironment, copied, Block.kept_of_not_inside outside, Option.bind_eq_bind,
    Option.bind_some, Option.bind_none]

include command short in
theorem strstrLiteral_slash :
    ∃ found, strstrLiteral cmd [slash] = some found ∧ (found = none ↔ slash ∉ c) := by
  have size : c.length < literalAt := by
    have : lineRounds = literalAt := rfl
    omega
  rcases strstrLiteral_eq command size (show ∀ x ∈ [slash], x ≠ 0 by decide)
    (show [slash].length < literalAt by decide) with ⟨found, searched, absent⟩
  refine ⟨found, searched, absent.trans (not_congr ?_)⟩
  constructor
  · intro inside
    exact inside.subset List.mem_cons_self
  · intro member
    rcases List.append_of_mem member with ⟨front, back, rfl⟩
    exact ⟨front, back, by simp⟩

section

variable (named : c ≠ exitName) (plain : slash ∉ c)

include command short named plain

/-- A command that is searched. -/
theorem getAbsolutePath_eq :
    getAbsolutePath opens cmd env stack memory = searchPath opens cmd env stack memory := by
  rcases strcmp_eq (stands_literal (show ∀ x ∈ exitName, x ≠ 0 by decide)) command
    (show exitName.length < lineRounds by decide) with ⟨order, compared, equal⟩
  have apart : order ≠ 0 := fun same => named (equal.mp same).symm
  rcases strstrLiteral_slash command short with ⟨found, searched, absent⟩
  have none : found = none := absent.mpr plain
  simp only [getAbsolutePath, compared, searched, none, apart, Option.bind_eq_bind,
    Option.bind_some, Option.isSome_none, Bool.false_eq_true, if_false]

/-- The search begins with the value of the variable. -/
theorem getAbsolutePath_begins (variable' : Stands env 0 (variablePath value))
    (fits : (variablePath value).length < maxLen) :
    ∃ path, Stands path 0 (trimmed value) ∧ ∀ opens,
      getAbsolutePath opens cmd env stack memory =
        searchLoop opens cmd memory path (some 0) 2 lineRounds := by
  rcases getEnvironment_path variable' stack (memory 1) fits with
    ⟨line, r, got, stands⟩
  have size : (variablePath value).length = value.length + 5 := by simp [variablePath, pathName]
  have smaller : (trimmed value).length < maxLen := by
    have := trimmed_length_le value
    omega
  rcases Block.strcpy_stands ((Block.malloc maxLen (memory 0)).memset 0 maxLen) stands
    (Nat.lt_trans smaller (by decide)) with ⟨path, copied, holds, _, inside⟩
  have kept : path.kept = some path := by
    refine Block.kept_of_inside (inside.mpr ⟨?_, inside_malloc _ _⟩)
    rw [((Block.malloc maxLen (memory 0)).memset_filled 0 maxLen).size]
    exact smaller
  refine ⟨path.bytes, holds, fun opens => ?_⟩
  rw [getAbsolutePath_eq command short named plain]
  simp only [searchPath, got, copied, kept, Option.bind_eq_bind, Option.bind_some]

end

/-- The search for a command: whatever can be opened, its paths are tried in order until one
can, which is returned. -/
def SearchesRight (cmd env stack : Line) (memory : Nat → Line) (value c : Text) : Prop :=
  ∀ opens, getAbsolutePath opens cmd env stack memory =
    some (firstOpened opens (candidates value c))

/-- The commands and values for which the search is right. -/
structure RightlySearched (memory : Nat → Line) (value c : Text) : Prop where
  named : c ≠ exitName
  ending : c.rdropWhile isSpace = c
  short : value.length + 5 < maxLen
  directories : Searchable c memory 2 (value.splitOn colon)

include command short in
theorem searchesRight_iff (plain : slash ∉ c) (variable' : Stands env 0 (variablePath value))
    (room : (variablePath value).length < lineRounds) :
    SearchesRight cmd env stack memory value c ↔ RightlySearched memory value c := by
  have size : (variablePath value).length = value.length + 5 := by simp [variablePath, pathName]
  constructor
  · intro right
    have never := right fun _ => false
    rw [firstOpened_never] at never
    have named : c ≠ exitName := by
      rintro rfl
      rcases strcmp_eq (stands_literal (show ∀ x ∈ exitName, x ≠ 0 by decide)) command
        (show exitName.length < lineRounds by decide) with ⟨order, compared, equal⟩
      have returned := command.stringAt (Nat.lt_of_le_of_lt (Nat.le_add_right _ _) short)
      simp only [getAbsolutePath, compared, returned, equal.mpr rfl, if_true, Option.bind_eq_bind,
        Option.bind_some] at never
      have last := congrArg (Option.map Prod.snd) never
      cases last
    have fits : (variablePath value).length < maxLen := by
      by_contra long
      rw [getAbsolutePath_eq command short named plain,
        searchPath, getEnvironment_long variable' _ _ room (Nat.le_of_not_lt long)] at never
      cases never
    rcases getAbsolutePath_begins command short named plain variable' fits with
      ⟨path, stands, begins⟩
    rw [begins] at never
    rcases searchable_of_searchLoop command short plain (by omega) stands never with
      ⟨searchable, ending⟩
    exact ⟨named, ending, size ▸ fits, searchable⟩
  · rintro ⟨named, ending, fits, searchable⟩ opens
    rcases getAbsolutePath_begins command short named plain variable' (size ▸ fits) with
      ⟨path, stands, begins⟩
    have many : value.length + 1 < lineRounds := by
      have : maxLen < lineRounds := by decide
      omega
    rw [begins]
    exact searchLoop_of_searchable command short ending (by omega) searchable stands many

/-- The search for a command is right, and a string is split at its first key, for exactly
these arguments. -/
theorem path_search_iff {cmd env stack : Line} {memory : Nat → Line} {value c : Text}
    (command : Stands cmd 0 c) (short : c.length + maxLen < lineRounds) (plain : slash ∉ c)
    (variable' : Stands env 0 (variablePath value))
    (room : (variablePath value).length < lineRounds) {line block : Line} {str : Nat} {key : Byte}
    {text : Text} (stands : Stands line str text) (nonzero : key ≠ 0)
    (room' : text.length < lineRounds) :
    (SearchesRight cmd env stack memory value c ↔ RightlySearched memory value c) ∧
      (Splits line str key block text ↔ Splittable key block text) :=
  ⟨searchesRight_iff command short plain variable' room,
    splits_iff_splittable stands nonzero room'⟩

/-- The command `ls` is searched in `/bin`, and `a:b` is split. -/
theorem path_search_iff_bin :
    SearchesRight (literal [0x6C, 0x73]) (literal (variablePath [0x2F, 0x62, 0x69, 0x6E])) (fun _ => 0)
      (fun _ _ => 0) [0x2F, 0x62, 0x69, 0x6E] [0x6C, 0x73] ∧
    Splits (literal [0x61, 0x3A, 0x62]) 0 colon (fun _ => 0) [0x61, 0x3A, 0x62] := by
  have command : Stands (literal [0x6C, 0x73]) 0 [0x6C, 0x73] := stands_literal (by decide)
  have variable' : Stands (literal (variablePath [0x2F, 0x62, 0x69, 0x6E])) 0
      (variablePath [0x2F, 0x62, 0x69, 0x6E]) := stands_literal (by decide)
  have text : Stands (literal [0x61, 0x3A, 0x62]) 0 [0x61, 0x3A, 0x62] := stands_literal (by decide)
  have exact' : (SearchesRight _ _ (fun _ => 0) (fun _ _ => 0) _ _ ↔ _) ∧
      (Splits _ 0 colon (fun _ => 0) _ ↔ _) :=
    path_search_iff command (by decide) (by decide) variable' (by decide) text (by decide) (by decide)
  refine ⟨exact'.1.mpr ⟨by decide, by decide, by decide, ?_, ?_⟩,
    exact'.2.mpr ⟨by decide, by decide, by decide, .inl (by decide)⟩⟩
  · intro d member
    rw [List.splitOn_eq_singleton (by decide), List.mem_singleton] at member
    subst member
    exact ⟨by decide, by decide, by decide⟩
  · intro d last
    rw [List.splitOn_eq_singleton (by decide)] at last
    cases last
    refine ⟨[], ⟨by simp, fun i inside => ?_⟩, by decide⟩
    rw [Nat.le_zero.mp inside]
    rfl

/-- With an empty directory in front, or a key in front, the rest is lost: `/b/ls`, which is
there, is not tried. -/
theorem path_search_leading_colon :
    getAbsolutePath (fun name => name = [0x2F, 0x62, 0x2F, 0x6C, 0x73]) (literal [0x6C, 0x73])
        (literal (variablePath [0x3A, 0x2F, 0x62])) (fun _ => 0) (fun _ _ => 0) =
      some ([[0x2F, 0x6C, 0x73]], none) ∧
    firstOpened (fun name => name = [0x2F, 0x62, 0x2F, 0x6C, 0x73])
        (candidates [0x3A, 0x2F, 0x62] [0x6C, 0x73]) =
      ([[0x2F, 0x62, 0x2F, 0x6C, 0x73]], some [0x2F, 0x62, 0x2F, 0x6C, 0x73]) ∧
    ¬ Splits (literal [0x3A, 0x62]) 0 colon (fun _ => 0) [0x3A, 0x62] := by
  refine ⟨by decide +kernel, by decide, ?_⟩
  intro splits
  have fits := splits.splittable (stands_literal (by decide)) (by decide) (by decide)
  exact fits.before (by decide)

end Sbrocks.Sbush
