import Sbrocks.Sbush.ParseCommand

/-!
# Copies of words

What `parseCommand` does to the heap: each word gets a block at its end, of which
it clears more than it asked for, and into which it copies the word.
-/

namespace Sbrocks.Sbush

open Sbrocks.Libc Sbrocks.Process

/-- A memory with a range of bytes written. -/
def written (mem : Bytes.Memory 64) (addr : Word) (content : Nat → Byte) (n : Nat) :
    Bytes.Memory 64 := fun x =>
  if addr.toNat ≤ x.toNat ∧ x.toNat < addr.toNat + n then content (x.toNat - addr.toNat) else mem x

variable {p p' : Program} {mem : Bytes.Memory 64} {addr dest x : Word} {content : Nat → Byte}
  {line : Line} {n count src m : Nat}

/-- The next address, unless the range ends here. -/
theorem following (room : addr.toNat + (n + 1) ≤ 2 ^ 64) :
    n = 0 ∨ (addr + 1).toNat = addr.toNat + 1 := by
  have one : (1 : Word).toNat = 1 := rfl
  rw [BitVec.toNat_add, one]
  omega

theorem written_zero : written mem addr content 0 = mem := by
  funext x
  exact if_neg (by omega)

/-- Writing a byte and then the rest. -/
theorem written_succ (content : Nat → Byte) (room : addr.toNat + (n + 1) ≤ 2 ^ 64) :
    written (Function.update mem addr (content 0)) (addr + 1) (fun j => content (j + 1)) n =
      written mem addr content (n + 1) := by
  rcases following room with rfl | next
  · rw [written_zero]
    funext x
    by_cases here : x = addr
    · rw [here, Function.update_self, written, if_pos (by omega), Nat.sub_self]
    · have apart : x.toNat ≠ addr.toNat := fun same => here (BitVec.eq_of_toNat_eq same)
      rw [Function.update_of_ne here, written, if_neg (by omega)]
  · funext x
    unfold written
    rw [next]
    by_cases here : x = addr
    · subst here
      rw [if_neg (by omega), if_pos (by omega), Function.update_self, Nat.sub_self]
    · have apart : x.toNat ≠ addr.toNat := fun same => here (BitVec.eq_of_toNat_eq same)
      by_cases inside : addr.toNat + 1 ≤ x.toNat ∧ x.toNat < addr.toNat + 1 + n
      · rw [if_pos inside, if_pos (by omega)]
        exact congrArg content (by omega)
      · rw [if_neg inside, if_neg (by omega), Function.update_of_ne here]

theorem written_outside (outside : x.toNat < addr.toNat ∨ addr.toNat + n ≤ x.toNat) :
    written mem addr content n x = mem x :=
  if_neg (by omega)

theorem written_inside (low : addr.toNat ≤ x.toNat) (high : x.toNat < addr.toNat + n) :
    written mem addr content n x = content (x.toNat - addr.toNat) :=
  if_pos ⟨low, high⟩

/-- `memset` within the last page of the heap. -/
theorem memset_eq (room : addr.toNat + n ≤ heapEnd p) (wrap : addr.toNat + n ≤ 2 ^ 64) :
    memset p addr n = .next { p with mem := written p.mem addr (fun _ => 0) n } := by
  induction n generalizing p addr with
  | zero =>
      rw [written_zero]
      rfl
  | succ n ih =>
      rw [memset, poke, if_pos (by omega), Flow.next_bind, ← written_succ (fun _ => 0) wrap]
      rcases following wrap with rfl | next
      · rw [written_zero]
        rfl
      · exact ih (by change _ ≤ heapEnd p; omega) (by omega)

/-- `strncpy` of a string within the last page of the heap: it is filled up with zeros. -/
theorem strncpy_eq (room : dest.toNat + count ≤ heapEnd p) (wrap : dest.toNat + count ≤ 2 ^ 64)
    (string : ∀ j < m, line (src + j) ≠ 0) (ends : line (src + m) = 0) :
    strncpy p dest line src count =
      .next { p with mem := written p.mem dest (fun j => line (src + min j m)) count } := by
  induction count generalizing p dest src m with
  | zero =>
      rw [written_zero]
      rfl
  | succ count ih =>
      rw [strncpy, poke, if_pos (by omega), Flow.next_bind,
        ← written_succ (fun j => line (src + min j m)) wrap, Nat.zero_min, Nat.add_zero]
      have rest : ∃ m', (∀ j < m', line ((if line src ≠ 0 then src + 1 else src) + j) ≠ 0) ∧
          line ((if line src ≠ 0 then src + 1 else src) + m') = 0 ∧
          (fun j => line (src + min (j + 1) m)) =
            fun j => line ((if line src ≠ 0 then src + 1 else src) + min j m') := by
        cases m with
        | zero =>
            have stays : line src = 0 := ends
            rw [if_neg (not_not.mpr stays)]
            refine ⟨0, fun j below => absurd below (Nat.not_lt_zero j), stays, ?_⟩
            funext j
            rw [Nat.min_zero, Nat.min_zero]
        | succ m =>
            have moves : line src ≠ 0 := string 0 (Nat.succ_pos m)
            rw [if_pos moves]
            refine ⟨m, fun j below => ?_, ?_, ?_⟩
            · rw [Nat.add_right_comm]
              exact string (j + 1) (Nat.succ_lt_succ below)
            · rw [Nat.add_right_comm]
              exact ends
            · funext j
              exact congrArg line (by omega)
      rcases rest with ⟨m', string', ends', same⟩
      rw [same]
      rcases following wrap with rfl | next
      · rw [written_zero]
        rfl
      · exact ih (by change _ ≤ heapEnd p; omega) (by omega) string' ends'

/-- The bytes at an address, which is not `NULL`, are a word and a final zero. -/
def Holds (p : Program) (ptr : Word) (word : List Byte) : Prop :=
  (0 < ptr.toNat ∧ ptr.toNat + word.length < 2 ^ 64) ∧
    ∀ x : Word, ptr.toNat ≤ x.toNat → x.toNat ≤ ptr.toNat + word.length →
      p.mem x = word.getD (x.toNat - ptr.toNat) 0

/-- A word is held in a block that was handed out, with its final zero. -/
def Kept (p : Program) (live : List (Word × Word)) (ptr : Word) (word : List Byte) : Prop :=
  Holds p ptr word ∧ ∃ n, (ptr, n) ∈ live ∧ word.length < n.toNat

/-- A heap whose blocks are all in use. -/
def Busy (start : Word) (p : Program) (live : List (Word × Word)) : Prop :=
  ∃ blocks, Program.HeapInv start p live blocks ∧
    ∀ b ∈ blocks, ∃ n, (b + memBlockSize, n) ∈ live

/-- The last page of the heap, once a block of some bytes is added, takes 1024 bytes. -/
def Fits (stop n : Nat) : Prop :=
  stop + 24 + n < 2 ^ 64 ∧ stop + 24 + 1024 ≤ pageEnd (stop + 24 + n)

/-- A copy of a string that begins at `src` and has `len` bytes is made in a block of its own. -/
structure Copies (start : Word) (p : Program) (live : List (Word × Word)) (line : Line)
    (src len count : Nat) (word : List Byte) (p' : Program) : Prop where
  run : ∃ p₁ p₂, p.malloc (BitVec.ofNat 64 len) = .next (p₁, p.kernel.brkEnd + memBlockSize) ∧
    memset p₁ (p.kernel.brkEnd + memBlockSize) 1024 = .next p₂ ∧
    strncpy p₂ (p.kernel.brkEnd + memBlockSize) line src count = .next p'
  stop : p'.kernel.brkEnd.toNat = p.kernel.brkEnd.toNat + 24 + len
  busy : Busy start p' ((p.kernel.brkEnd + memBlockSize, BitVec.ofNat 64 len) :: live)
  holds : Holds p' (p.kernel.brkEnd + memBlockSize) word
  kept : ∀ ptr old, Kept p live ptr old → Holds p' ptr old

theorem pageEnd_le {addr : Nat} (below : addr < 2 ^ 64) : pageEnd addr ≤ 2 ^ 64 := by
  unfold pageEnd
  omega

/-- A busy heap has nothing to reuse. -/
theorem Busy.find_none {start : Word} {live : List (Word × Word)} {blocks : List Word}
    (inv : Program.HeapInv start p live blocks)
    (busy : ∀ b ∈ blocks, ∃ n, (b + memBlockSize, n) ∈ live) (size : Word) :
    blocks.find? (p.fits size) = none := by
  apply List.find?_eq_none.mpr
  intro b listed
  rcases busy b listed with ⟨n, given⟩
  have inUse := (inv.block_of_live given).2.2.1
  rw [BitVec.add_sub_cancel] at inUse
  simp [Program.fits, inUse, used, freed]

/-- What is handed out of a heap lies apart from the headers. -/
theorem Kept.outside {start ptr : Word} {live : List (Word × Word)} {blocks : List Word}
    {word : List Byte} (inv : Program.HeapInv start p live blocks) (kept : Kept p live ptr word)
    (low : ptr.toNat ≤ x.toNat) (high : x.toNat ≤ ptr.toNat + word.length) :
    x.toNat < p.kernel.brkEnd.toNat ∧
      ∀ b ∈ blocks, x.toNat < b.toNat ∨ b.toNat + 24 ≤ x.toNat := by
  rcases kept.2 with ⟨n, given, short⟩
  have allocates := inv.allocates
  have long : n.toNat ≤ p.payload ptr := allocates.long _ given
  have inside : ptr.toNat + p.payload ptr ≤ p.kernel.brkEnd.toNat := (allocates.inside _ given).2
  constructor
  · omega
  · intro b listed
    have apart : b.toNat + 24 ≤ ptr.toNat ∨ ptr.toNat + p.payload ptr ≤ b.toNat :=
      allocates.headers _ given b listed
    omega

/-- The rule for a copy: `malloc`, `memset` and `strncpy` of a string whose first bytes are a
word, in a heap that is busy. -/
theorem Busy.copies {start : Word} {live : List (Word × Word)} {len : Nat} {word : List Byte}
    (busy : Busy start p live) (positive : 0 < len) (fits : Fits p.kernel.brkEnd.toNat len)
    (few : count ≤ 1024) (string : ∀ j < m, line (src + j) ≠ 0) (ends : line (src + m) = 0)
    (short : word.length ≤ 1023)
    (content : ∀ j ≤ word.length, (if j < count then line (src + min j m) else 0) = word.getD j 0) :
    ∃ p', Copies start p live line src len count word p' := by
  rcases busy with ⟨blocks, inv, all⟩
  rcases fits with ⟨room, page⟩
  have size : (BitVec.ofNat 64 len : Word).toNat = len := by
    rw [BitVec.toNat_ofNat]
    omega
  have nonzero : (BitVec.ofNat 64 len : Word) ≠ 0 := by
    intro zero
    have : (BitVec.ofNat 64 len : Word).toNat = 0 := congrArg BitVec.toNat zero
    omega
  have room' : p.kernel.brkEnd.toNat + 24 + (BitVec.ofNat 64 len : Word).toNat < 2 ^ 64 := by omega
  have place := @Program.payload_toNat p.kernel.brkEnd (by omega)
  rcases inv.malloc_extend nonzero (Busy.find_none inv all _) room' with
    ⟨p₁, allocated, breakAt, after, frame⟩
  have stop : p₁.kernel.brkEnd.toNat = p.kernel.brkEnd.toNat + 24 + len := by
    rw [breakAt.brkEnd_eq, Program.blockEnd_toNat room', size]
    omega
  let ptr := p.kernel.brkEnd + memBlockSize
  have here : ptr.toNat = p.kernel.brkEnd.toNat + 24 := place
  have top : ptr.toNat + 1024 ≤ heapEnd p₁ := by
    rw [heapEnd, stop, place]
    exact page
  have wrap : ptr.toNat + 1024 ≤ 2 ^ 64 := by
    have := pageEnd_le p₁.kernel.brkEnd.isLt
    unfold heapEnd at top
    omega
  let cleared := written p₁.mem ptr (fun _ => 0) 1024
  let copied := written cleared ptr (fun j => line (src + min j m)) count
  have below : ∀ x : Word, x.toNat < ptr.toNat → copied x = p₁.mem x := by
    intro x less
    exact (written_outside (.inl less)).trans (written_outside (.inl less))
  refine ⟨{ p₁ with mem := copied }, ⟨p₁, { p₁ with mem := cleared }, allocated,
    memset_eq top wrap, ?_⟩, stop, ⟨blocks ++ [p.kernel.brkEnd], ?_, ?_⟩, ⟨?_, ?_⟩, ?_⟩
  · exact strncpy_eq (Nat.le_trans (Nat.add_le_add_left few _) top) (by omega) string ends
  · refine after.frame rfl after.breakAt fun b listed => ?_
    apply Program.memBlock_congr (after.room listed)
    intro x low high
    apply below
    have before : b.toNat ≤ p.kernel.brkEnd.toNat := by
      rcases List.mem_append.mp listed with old | new
      · have := (inv.inside old).2
        omega
      · rw [List.mem_singleton.mp new]
    omega
  · intro b listed
    rcases List.mem_append.mp listed with old | new
    · rcases all b old with ⟨n, given⟩
      exact ⟨n, List.mem_cons_of_mem _ given⟩
    · rw [List.mem_singleton.mp new]
      exact ⟨_, List.mem_cons_self⟩
  · omega
  · intro x (low : ptr.toNat ≤ x.toNat) high
    change copied x = word.getD (x.toNat - ptr.toNat) 0
    rw [← content _ (by omega)]
    split
    · have inside : x.toNat < ptr.toNat + count := by omega
      exact written_inside low inside
    · have behind : ptr.toNat + count ≤ x.toNat := by omega
      have inside : x.toNat < ptr.toNat + 1024 := by omega
      exact (written_outside (.inr behind)).trans (written_inside low inside)
  · intro ptr' old kept
    refine ⟨kept.1.1, fun x low high => ?_⟩
    have outside := kept.outside inv low high
    change copied x = _
    rw [← kept.1.2 x low high, below x (by omega)]
    apply frame
    intro b listed
    rcases List.mem_append.mp listed with old | new
    · exact outside.2 b old
    · rw [List.mem_singleton.mp new]
      exact .inl outside.1

end Sbrocks.Sbush
