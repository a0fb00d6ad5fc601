import Mathlib.Data.List.Induction
import Mathlib.Data.List.Infix
import Mathlib.Data.Set.Basic
import Sbrocks.Memory.Bytes
import Sbrocks.Process.Task

/-!
# The console

`putch` moves a cursor over the text page and scrolls it.  No line is wrapped: the
call that would do it is commented out, and the column is not bounded.
-/

namespace Sbrocks.Process

/-- The text page and the cursor.  The addresses written and the ports are kept in the order in
which they were last used. -/
structure Console where
  memory : Word → Byte
  written : List Word
  ports : List (BitVec 16 × Byte)
  attrib : Word
  cursorX : Word
  cursorY : Word

/-- `vga_addr`. -/
def vgaAddr : Word := 0xFFFFFFFF800B8000

namespace Console

variable {c : Console} {ch : Byte} {n k : Nat}

/-! ## Functions -/

/-- Write a byte of the page. -/
def store (c : Console) (addr : Word) (byte : Byte) : Console :=
  { c with memory := Function.update c.memory addr byte, written := addr :: c.written }

/-- `outportb`. -/
def outportb (c : Console) (port : BitVec 16) (data : Byte) : Console :=
  { c with ports := (port, data) :: c.ports }

/-- `memcpy`. -/
def memcpy (c : Console) (s1 s2 : Word) : Nat → Console
  | 0 => c
  | n + 1 => memcpy (c.store s1 (c.memory s2)) (s1 + 1) (s2 + 1) n

/-- `memsetw`, which writes a byte for each of `count`. -/
def memsetw (c : Console) (s1 : Word) (val : BitVec 16) : Nat → Console
  | 0 => c
  | count + 1 => memsetw (c.store s1 (val.setWidth 8)) (s1 + 1) val count

/-- The address of a cell. -/
def cellAddr (y x : Word) : Word := vgaAddr + (y * 80 + x) * 2

/-- `move_csr`. -/
def moveCsr (c : Console) : Console :=
  let temp : BitVec 32 := (c.cursorY * 80 + c.cursorX).setWidth 32
  let c := c.outportb 0x3D4 14
  let c := c.outportb 0x3D5 ((temp >>> 8).setWidth 8)
  let c := c.outportb 0x3D4 15
  c.outportb 0x3D5 (temp.setWidth 8)

/-- `scroll`. -/
def scroll (c : Console) : Console :=
  let blank := c.attrib <<< 8
  if 24 ≤ c.cursorY then
    let temp := c.cursorY - 24 + 1
    let c := c.memcpy vgaAddr (vgaAddr + temp * 80 * 2) ((24 - temp) * 80 * 2).toNat
    let c := c.memsetw (vgaAddr + (24 - temp) * 80 * 2) (blank.setWidth 16) (80 * 2)
    { c with cursorY := 24 - 1 }
  else c

/-- `handle_backspace`. -/
def handleBackspace (c : Console) : Console :=
  let blank : BitVec 32 := 0x20 ||| (c.attrib <<< 8).setWidth 32
  if c.cursorX ≠ 0 then
    let c := { c with cursorX := c.cursorX - 1 }
    c.store (cellAddr c.cursorY c.cursorX) (blank.setWidth 8)
  else if c.cursorY ≠ 0 then
    let c := { c with cursorX := 80, cursorY := c.cursorY - 1 }
    let c := c.store (cellAddr c.cursorY c.cursorX) (blank.setWidth 8)
    { c with cursorX := c.cursorX - 1 }
  else c

/-- What `putch` does before it scrolls. -/
def place (c : Console) (ch : Byte) : Console :=
  if ch = 0x0A then { c with cursorX := 0, cursorY := c.cursorY + 1 }
  else if ch = 0x08 then c.handleBackspace
  else if ch = 0x09 then { c with cursorX := (c.cursorX + 8) &&& ~~~(8 - 1) }
  else if ch = 0x0D then { c with cursorX := 0 }
  else
    let dstAddr := cellAddr c.cursorY c.cursorX
    let c := c.store dstAddr ch
    let c := c.store (dstAddr + 1) (c.attrib.setWidth 8)
    { c with cursorX := c.cursorX + 1 }

/-- `putch`. -/
def putch (c : Console) (ch : Byte) : Console := (c.place ch).scroll.moveCsr

/-- `clearscreen`. -/
def clearscreen (c : Console) : Console :=
  let blank := (c.attrib <<< 8).setWidth 32
  let c := (List.range 24).foldl
    (fun c i => c.memsetw (vgaAddr + 2 * BitVec.ofNat 64 i * 80) (BitVec.setWidth 16 blank) (2 * 80)) c
  { c with cursorX := 0, cursorY := 0 }.moveCsr

/-- The characters of a text, one after the other. -/
def puts (c : Console) (str : List Byte) : Console := str.foldl putch c

/-! ## The screen -/

/-- The bytes of the rows that are not the status line. -/
def screen : Set Word := {addr | ∃ row < 24, ∃ column < 80, ∃ half < 2,
  addr = vgaAddr + BitVec.ofNat 64 ((row * 80 + column) * 2 + half)}

/-- Nothing was written beside the screen. -/
def Inside (c : Console) : Prop := ∀ addr ∈ c.written, addr ∈ screen

/-- The cursor is on the screen, and nothing was written beside it. -/
structure OnScreen (c : Console) : Prop where
  x : c.cursorX.toNat ≤ 79
  y : c.cursorY.toNat ≤ 23
  inside : c.Inside

/-- The column of the cursor leaves room for a character. -/
def HasRoom (c : Console) (ch : Byte) : Prop :=
  if ch = 0x0A ∨ ch = 0x08 ∨ ch = 0x0D then True
  else if ch = 0x09 then c.cursorX.toNat < 72
  else c.cursorX.toNat < 79

instance : Decidable (c.HasRoom ch) := by unfold HasRoom; infer_instance

theorem mem_screen (below : k < 3840) : vgaAddr + BitVec.ofNat 64 k ∈ screen := by
  refine ⟨k / 160, by omega, k % 160 / 2, by omega, k % 2, by omega, ?_⟩
  congr 2
  omega

/-- Both bytes of a cell of a row are on the screen. -/
theorem cell_mem_screen {x y : Word} (before : y.toNat * 80 + x.toNat < 1920) :
    cellAddr y x ∈ screen ∧ cellAddr y x + 1 ∈ screen := by
  have place : (y * 80 + x) * 2 = BitVec.ofNat 64 ((y.toNat * 80 + x.toNat) * 2) := by
    apply BitVec.eq_of_toNat_eq
    have eighty : (80 : Word).toNat = 80 := rfl
    have two : (2 : Word).toNat = 2 := rfl
    simp only [BitVec.toNat_add, BitVec.toNat_mul, BitVec.toNat_ofNat, eighty, two]
    omega
  rw [cellAddr, place]
  constructor
  · exact mem_screen (by omega)
  · have next := BitVec.ofNat_add (n := 64) ((y.toNat * 80 + x.toNat) * 2) 1
    rw [BitVec.add_assoc, show (1 : Word) = BitVec.ofNat 64 1 from rfl, ← next]
    exact mem_screen (by omega)

/-! ## Writes -/

/-- Only bytes from an address on are written. -/
structure Writes (c : Console) (s1 : Word) (n : Nat) (c' : Console) : Prop where
  cursorX : c'.cursorX = c.cursorX
  cursorY : c'.cursorY = c.cursorY
  written : ∀ addr ∈ c'.written, addr ∈ c.written ∨ ∃ j < n, addr = s1 + BitVec.ofNat 64 j

theorem Writes.refl (c : Console) (s1 : Word) : Writes c s1 0 c :=
  ⟨rfl, rfl, fun _ member => Or.inl member⟩

theorem Writes.store {s1 : Word} {byte : Byte} {c' : Console}
    (rest : Writes (c.store s1 byte) (s1 + 1) n c') : Writes c s1 (n + 1) c' := by
  refine ⟨rest.cursorX, rest.cursorY, fun addr member => ?_⟩
  obtain before | ⟨j, below, rfl⟩ := rest.written addr member
  · obtain rfl | earlier := List.mem_cons.mp before
    · exact Or.inr ⟨0, Nat.succ_pos n, (BitVec.add_zero addr).symm⟩
    · exact Or.inl earlier
  · exact Or.inr ⟨j + 1, Nat.succ_lt_succ below, Bytes.add_one_add s1 j⟩

theorem memcpy_writes (s1 s2 : Word) (n : Nat) : Writes c s1 n (c.memcpy s1 s2 n) := by
  induction n generalizing c s1 s2 with
  | zero => exact Writes.refl c s1
  | succ n ih => exact (ih (s1 + 1) (s2 + 1)).store

theorem memsetw_writes (s1 : Word) (val : BitVec 16) (n : Nat) :
    Writes c s1 n (c.memsetw s1 val n) := by
  induction n generalizing c s1 with
  | zero => exact Writes.refl c s1
  | succ n ih => exact (ih (s1 + 1)).store

-- Their counts are numerals, which the unifier would unroll.
attribute [irreducible] memcpy memsetw

/-- Whole rows of the screen may be written. -/
theorem Writes.inside {c' : Console} {s1 : Word} (writes : Writes c s1 n c')
    (start : s1 = vgaAddr + BitVec.ofNat 64 k) (fits : k + n ≤ 3840) (inside : c.Inside) :
    c'.Inside := by
  intro addr member
  obtain before | ⟨j, below, rfl⟩ := writes.written addr member
  · exact inside addr before
  · rw [start, BitVec.add_assoc, ← BitVec.ofNat_add]
    exact mem_screen (by omega)

/-- Only the writes count. -/
theorem Inside.congr {c' : Console} (inside : c.Inside) (same : c'.written = c.written) :
    c'.Inside := by
  unfold Inside
  rw [same]
  exact inside

theorem Inside.store (inside : c.Inside) {addr : Word} (there : addr ∈ screen) (byte : Byte) :
    (c.store addr byte).Inside := by
  intro x member
  obtain rfl | earlier := List.mem_cons.mp member
  · exact there
  · exact inside x earlier

/-! ## Steps -/

/-- The tab stop behind a column. -/
theorem tab_toNat {x : Word} (small : x.toNat < 2 ^ 63) :
    (x + 8 &&& ~~~(8 - 1 : Word)).toNat = (x.toNat / 8 + 1) * 8 := by
  have cleared : ∀ y : Word, y &&& ~~~(8 - 1 : Word) = y >>> 3 <<< 3 := by
    intro y
    have mask : ~~~(8 - 1 : Word) = BitVec.allOnes 64 <<< 3 := by decide
    apply BitVec.eq_of_getLsbD_eq
    intro i bound
    rw [mask, BitVec.getLsbD_and, BitVec.getLsbD_shiftLeft, BitVec.getLsbD_shiftLeft,
      BitVec.getLsbD_ushiftRight, BitVec.getLsbD_allOnes]
    by_cases low : i < 3
    · simp [low]
    · have back : 3 + (i - 3) = i := by omega
      have short : i - 3 < 64 := by omega
      simp [low, back, bound, short]
  have eight : (8 : Word).toNat = 8 := rfl
  rw [cleared, BitVec.toNat_shiftLeft, BitVec.toNat_ushiftRight, BitVec.toNat_add, eight,
    Nat.shiftRight_eq_div_pow, Nat.shiftLeft_eq]
  omega

theorem toNat_succ {x : Word} (small : x.toNat ≤ 79) : (x + 1).toNat = x.toNat + 1 := by
  have one : (1 : Word).toNat = 1 := rfl
  rw [BitVec.toNat_add, one]
  omega

theorem toNat_pred {x : Word} (positive : x ≠ 0) : (x - 1).toNat = x.toNat - 1 := by
  have one : (1 : Word).toNat = 1 := rfl
  have nonzero : x.toNat ≠ 0 := fun zero => positive (BitVec.eq_of_toNat_eq zero)
  rw [BitVec.toNat_sub, one]
  omega

theorem OnScreen.handleBackspace (on : c.OnScreen) : c.handleBackspace.OnScreen := by
  have x := on.x
  have y := on.y
  unfold Console.handleBackspace
  split
  · rename_i moved
    have back := toNat_pred moved
    refine ⟨?_, y, ?_⟩
    · dsimp only [store]
      omega
    · have cell := cell_mem_screen (x := c.cursorX - 1) (y := c.cursorY) (by omega)
      exact (on.inside.store cell.1 0).congr rfl
  · split
    · rename_i moved
      have back := toNat_pred moved
      have nonzero : c.cursorY.toNat ≠ 0 := fun zero => moved (BitVec.eq_of_toNat_eq zero)
      have eighty : (80 : Word).toNat = 80 := rfl
      have last : (80 - 1 : Word).toNat ≤ 79 := by decide
      refine ⟨last, ?_, ?_⟩
      · dsimp only [store]
        omega
      · have cell := cell_mem_screen (x := 80) (y := c.cursorY - 1) (by omega)
        exact (on.inside.store cell.1 0).congr rfl
    · exact on

/-- The cursor may be below the screen before it is scrolled. -/
theorem place_inside (on : c.OnScreen) (room : c.HasRoom ch) :
    (c.place ch).cursorX.toNat ≤ 79 ∧ (c.place ch).cursorY.toNat ≤ 24 ∧ (c.place ch).Inside := by
  have x := on.x
  have y := on.y
  unfold place
  unfold HasRoom at room
  split
  · have next := toNat_succ (x := c.cursorY) (by omega)
    exact ⟨Nat.zero_le _, by dsimp only; omega, on.inside⟩
  rename_i newline
  split
  · have back := on.handleBackspace
    exact ⟨back.x, Nat.le_succ_of_le back.y, back.inside⟩
  rename_i backspace
  split
  · rename_i tab
    rw [if_neg (by rw [tab]; decide), if_pos tab] at room
    have stop := tab_toNat (x := c.cursorX) (by omega)
    exact ⟨by dsimp only; omega, Nat.le_succ_of_le y, on.inside⟩
  rename_i tab
  split
  · exact ⟨Nat.zero_le _, Nat.le_succ_of_le y, on.inside⟩
  · rename_i carriage
    rw [if_neg (not_or.mpr ⟨newline, not_or.mpr ⟨backspace, carriage⟩⟩), if_neg tab] at room
    have cell := cell_mem_screen (x := c.cursorX) (y := c.cursorY) (by omega)
    have next := toNat_succ x
    refine ⟨?_, Nat.le_succ_of_le y, ((on.inside.store cell.1 0).store cell.2 0).congr rfl⟩
    dsimp only [store]
    omega

/-- Below the last row the page is moved up by a row. -/
theorem scroll_of_last (last : c.cursorY = 24) :
    c.scroll = { ((c.memcpy vgaAddr (vgaAddr + 160) 3680).memsetw (vgaAddr + BitVec.ofNat 64 3680)
      ((c.attrib <<< 8).setWidth 16) 160) with cursorY := 23 } := by
  unfold scroll
  rw [last]
  rfl

/-- Scrolling keeps the column. -/
theorem scroll_cursorX : c.scroll.cursorX = c.cursorX := by
  unfold scroll
  split
  · exact (memsetw_writes _ _ _).cursorX.trans (memcpy_writes _ _ _).cursorX
  · rfl

/-- Moving the rows up writes nothing but rows. -/
theorem rows_writes (s2 : Word) (val : BitVec 16) (inside : c.Inside) (fits : n ≤ 3680)
    (short : k ≤ 160) :
    ((c.memcpy vgaAddr s2 n).memsetw (vgaAddr + BitVec.ofNat 64 3680) val k).cursorX = c.cursorX ∧
      ((c.memcpy vgaAddr s2 n).memsetw (vgaAddr + BitVec.ofNat 64 3680) val k).Inside := by
  have copied := memcpy_writes (c := c) vgaAddr s2 n
  have moved := copied.inside (k := 0) (BitVec.add_zero _).symm (by omega) inside
  have cleared := memsetw_writes (c := c.memcpy vgaAddr s2 n) (vgaAddr + BitVec.ofNat 64 3680) val k
  exact ⟨cleared.cursorX.trans copied.cursorX, cleared.inside (k := 3680) rfl (by omega) moved⟩

/-- Scrolling writes the rows of the screen, and brings the cursor back to it. -/
theorem scroll_onScreen (x : c.cursorX.toNat ≤ 79) (y : c.cursorY.toNat ≤ 24)
    (inside : c.Inside) : c.scroll.OnScreen := by
  have twentyfour : (24 : Word).toNat = 24 := rfl
  by_cases last : c.cursorY = 24
  · obtain ⟨same, moved⟩ := rows_writes (vgaAddr + 160) ((c.attrib <<< 8).setWidth 16) inside
      (Nat.le_refl 3680) (Nat.le_refl 160)
    rw [scroll_of_last last]
    generalize (c.memcpy vgaAddr (vgaAddr + 160) 3680).memsetw (vgaAddr + BitVec.ofNat 64 3680)
      ((c.attrib <<< 8).setWidth 16) 160 = clean at same moved ⊢
    rw [← same] at x
    exact ⟨x, (by decide : (23 : Word).toNat ≤ 23), moved.congr rfl⟩
  · have above : ¬ 24 ≤ c.cursorY := by
      rw [BitVec.le_def]
      intro below
      exact last (BitVec.eq_of_toNat_eq (by omega))
    rw [scroll, if_neg above]
    rw [BitVec.le_def] at above
    exact ⟨x, by omega, inside⟩

theorem OnScreen.moveCsr (on : c.OnScreen) : c.moveCsr.OnScreen := ⟨on.x, on.y, on.inside⟩

/-- With room in the line a character keeps the cursor and the writes on the screen. -/
theorem OnScreen.putch (on : c.OnScreen) (room : c.HasRoom ch) : (c.putch ch).OnScreen := by
  obtain ⟨x, y, inside⟩ := place_inside on room
  exact (scroll_onScreen x y inside).moveCsr

/-- Without room the column leaves the screen. -/
theorem hasRoom_of_putch (on : c.OnScreen) (x : (c.putch ch).cursorX.toNat ≤ 79) :
    c.HasRoom ch := by
  have still : (c.putch ch).cursorX = (c.place ch).cursorX := scroll_cursorX
  rw [still] at x
  have before := on.x
  unfold place at x
  unfold HasRoom
  split
  · trivial
  rename_i others
  rw [not_or, not_or] at others
  rw [if_neg others.1, if_neg others.2.1] at x
  split
  · rename_i tab
    rw [if_pos tab] at x
    have stop := tab_toNat (x := c.cursorX) (by omega)
    dsimp only at x
    omega
  · rename_i plain
    rw [if_neg plain, if_neg others.2.2] at x
    have next := toNat_succ before
    dsimp only [store] at x
    omega

/-! ## Runs -/

theorem puts_concat (c : Console) (str : List Byte) (ch : Byte) :
    c.puts (str ++ [ch]) = (c.puts str).putch ch := by
  rw [puts, puts, List.foldl_append]
  rfl

/-- Clearing writes the rows of the screen. -/
theorem clearRows_inside (inside : c.Inside) (blank : BitVec 16) (rows : n ≤ 24) :
    ((List.range n).foldl (fun c i =>
      c.memsetw (vgaAddr + 2 * BitVec.ofNat 64 i * 80) blank (2 * 80)) c).Inside := by
  induction n with
  | zero => exact inside
  | succ n ih =>
      have row : vgaAddr + 2 * BitVec.ofNat 64 n * 80 = vgaAddr + BitVec.ofNat 64 (n * 160) := by
        congr 1
        apply BitVec.eq_of_toNat_eq
        have eighty : (80 : Word).toNat = 80 := rfl
        have two : (2 : Word).toNat = 2 := rfl
        simp only [BitVec.toNat_mul, BitVec.toNat_ofNat, eighty, two]
        omega
      rw [List.range_succ, List.foldl_append]
      exact (memsetw_writes _ _ _).inside row (by omega) (ih (by omega))

/-- The console as it is cleared, before any character. -/
def cleared (c : Console) : Console := { c with written := [] }.clearscreen

theorem cleared_onScreen (c : Console) : c.cleared.OnScreen := by
  have nothing : ({ c with written := [] } : Console).Inside := fun addr member => by cases member
  have rows := clearRows_inside nothing ((c.attrib <<< 8).setWidth 32 |>.setWidth 16) (Nat.le_refl 24)
  exact OnScreen.moveCsr ⟨Nat.zero_le _, Nat.zero_le _, rows.congr rfl⟩

/-- The cursor and the writes stay on the screen exactly as long as there is room for each
character, in the line that the cursor is in. -/
theorem puts_onScreen_iff (c : Console) (chars : List Byte) :
    (∀ shown, shown <+: chars → (c.cleared.puts shown).OnScreen) ↔
      ∀ shown ch, shown ++ [ch] <+: chars → (c.cleared.puts shown).HasRoom ch := by
  constructor
  · intro always shown ch reached
    have before := always shown ((List.prefix_append shown [ch]).trans reached)
    have after := always (shown ++ [ch]) reached
    rw [puts_concat] at after
    exact hasRoom_of_putch before after.x
  · intro room shown
    induction shown using List.reverseRecOn with
    | nil => exact fun _ => c.cleared_onScreen
    | append_singleton shown ch ih =>
        intro reached
        have before := ih ((List.prefix_append shown [ch]).trans reached)
        rw [puts_concat]
        exact before.putch (room shown ch reached)

/-- Letters are put side by side, whatever the column. -/
theorem puts_letters (c : Console) (n : Nat) :
    (c.cleared.puts (List.replicate n 0x61)).cursorX = BitVec.ofNat 64 n := by
  induction n with
  | zero => rfl
  | succ n ih =>
      rw [List.replicate_succ', puts_concat, BitVec.ofNat_add, ← ih]
      exact scroll_cursorX

/-- Eighty letters after the screen is cleared. -/
theorem puts_leaves_screen : ¬ ∀ (c : Console) (chars shown : List Byte), shown <+: chars →
    (c.cleared.puts shown).OnScreen := by
  intro always
  have inside := (always ⟨fun _ => 0, [], [], 3, 0, 0⟩ (List.replicate 80 0x61) _
    (List.prefix_refl _)).x
  rw [puts_letters] at inside
  exact absurd inside (by decide)

end Console

end Sbrocks.Process
