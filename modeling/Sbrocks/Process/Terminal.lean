import Mathlib.Data.List.GetD
import Sbrocks.Process.Console

/-!
# The terminal that the console shows

A terminal has rows of cells and a cursor among them.  The text page shows one, as long as
each character has room in its line, and the cursor of the display stands where the terminal
has its own.
-/

namespace Sbrocks.Process

/-- The rows above the status line, and the cursor.  A cell has a character and a colour. -/
structure Terminal where
  cell : Nat → Nat → Byte × Byte
  attrib : Byte
  x : Nat
  y : Nat
  column : x < 80
  row : y < 24

namespace Terminal

variable {T T' : Terminal} {ch : Byte}

/-! ## Functions -/

/-- A terminal without any text. -/
def blank (attrib : Byte) : Terminal :=
  ⟨fun _ _ => (0, 0), attrib, 0, 0, by decide, by decide⟩

/-- The cells, with another one in a place. -/
def write (T : Terminal) (y x : Nat) (cell : Byte × Byte) : Nat → Nat → Byte × Byte :=
  fun row column => if row = y ∧ column = x then cell else T.cell row column

/-- Below the last row the rows are moved up, and the first one is lost. -/
def newline (T : Terminal) : Terminal :=
  if below : T.y + 1 < 24 then
    { T with x := 0, y := T.y + 1, column := by decide, row := below }
  else
    { T with
      cell := fun row column => if row < 23 then T.cell (row + 1) column else (0, 0)
      x := 0
      column := by decide }

/-- At the left edge it is the character of the line's own first cell that is lost. -/
def backspace (T : Terminal) : Terminal :=
  if T.x ≠ 0 then
    { T with
      cell := T.write T.y (T.x - 1) (0x20, (T.cell T.y (T.x - 1)).2)
      x := T.x - 1
      column := Nat.lt_of_le_of_lt (Nat.sub_le _ _) T.column }
  else if T.y ≠ 0 then
    { T with
      cell := T.write T.y 0 (0x20, (T.cell T.y 0).2)
      x := 79
      y := T.y - 1
      column := by decide
      row := Nat.lt_of_le_of_lt (Nat.sub_le _ _) T.row }
  else T

/-- A character, if the line has room for it. -/
def put (T : Terminal) (ch : Byte) : Option Terminal :=
  if ch = 0x0A then some T.newline
  else if ch = 0x08 then some T.backspace
  else if ch = 0x09 then
    if room : T.x < 72 then
      some { T with x := (T.x / 8 + 1) * 8, column := by omega }
    else none
  else if ch = 0x0D then some { T with x := 0, column := by decide }
  else if room : T.x < 79 then
    some { T with cell := T.write T.y T.x (ch, T.attrib), x := T.x + 1, column := by omega }
  else none

/-- The characters of a text, one after the other. -/
def puts (T : Terminal) (str : List Byte) : Option Terminal := str.foldlM put T

end Terminal

/-! ## The page -/

namespace Console

variable {c : Console} {n k a : Nat}

/-- The address of the next byte. -/
theorem address_succ (a : Nat) :
    vgaAddr + BitVec.ofNat 64 a + 1 = vgaAddr + BitVec.ofNat 64 (a + 1) := by
  rw [BitVec.add_assoc, BitVec.ofNat_add]
  rfl

/-- A byte of the page. -/
def page (c : Console) (k : Nat) : Byte := c.memory (vgaAddr + BitVec.ofNat 64 k)

theorem page_store (here : k < 2 ^ 64) (fits : a < 2 ^ 64) (byte : Byte) :
    (c.store (vgaAddr + BitVec.ofNat 64 a) byte).page k = if k = a then byte else c.page k := by
  unfold page store
  by_cases same : k = a
  · rw [if_pos same, same]
    exact Function.update_self _ _ _
  · rw [if_neg same]
    refine Function.update_of_ne (fun equal => same ?_) _ _
    have offsets := congrArg BitVec.toNat ((BitVec.add_right_inj _).mp equal)
    rw [BitVec.toNat_ofNat, BitVec.toNat_ofNat] at offsets
    omega

theorem page_congr {c' : Console} (same : c'.memory = c.memory) (k : Nat) :
    c'.page k = c.page k := by
  unfold page
  rw [same]

/-- Bytes copied towards the front are those of before. -/
theorem memcpy_page {d : Nat} (ahead : 0 < d) (fits : a + d + n ≤ 3840) (here : k < 2 ^ 64) :
    (c.memcpy (vgaAddr + BitVec.ofNat 64 a) (vgaAddr + BitVec.ofNat 64 (a + d)) n).page k =
      if a ≤ k ∧ k < a + n then c.page (k + d) else c.page k := by
  induction n generalizing c a with
  | zero => rw [memcpy, if_neg (by omega)]
  | succ n ih =>
      have first : c.memory (vgaAddr + BitVec.ofNat 64 (a + d)) = c.page (a + d) := rfl
      have next := ih (c := c.store (vgaAddr + BitVec.ofNat 64 a) (c.page (a + d))) (a := a + 1)
        (by omega)
      rw [memcpy, first, address_succ, address_succ]
      rw [Nat.add_right_comm a 1 d] at next
      rw [next]
      by_cases inside : a + 1 ≤ k ∧ k < a + 1 + n
      · rw [if_pos inside, if_pos (by omega), page_store (by omega) (by omega), if_neg (by omega)]
      · rw [if_neg inside, page_store (by omega) (by omega)]
        by_cases start : k = a
        · rw [if_pos start, if_pos (by omega), start]
        · rw [if_neg start, if_neg (by omega)]

/-- The bytes that `memsetw` stores. -/
theorem memsetw_page (val : BitVec 16) (fits : a + n ≤ 3840) (here : k < 2 ^ 64) :
    (c.memsetw (vgaAddr + BitVec.ofNat 64 a) val n).page k =
      if a ≤ k ∧ k < a + n then val.setWidth 8 else c.page k := by
  induction n generalizing c a with
  | zero => rw [memsetw, if_neg (by omega)]
  | succ n ih =>
      rw [memsetw, address_succ, ih (by omega), page_store (by omega) (by omega)]
      by_cases inside : a + 1 ≤ k ∧ k < a + 1 + n
      · rw [if_pos inside, if_pos (by omega)]
      · by_cases start : k = a
        · rw [if_neg inside, if_pos start, if_pos (by omega)]
        · rw [if_neg inside, if_neg start, if_neg (by omega)]

theorem memcpy_attrib (s1 s2 : Word) : (c.memcpy s1 s2 n).attrib = c.attrib := by
  induction n generalizing c s1 s2 with
  | zero => rw [memcpy]
  | succ n ih =>
      rw [memcpy, ih]
      rfl

theorem memsetw_attrib (s1 : Word) (val : BitVec 16) : (c.memsetw s1 val n).attrib = c.attrib := by
  induction n generalizing c s1 with
  | zero => rw [memsetw]
  | succ n ih =>
      rw [memsetw, ih]
      rfl

theorem cellAddr_eq {x y : Word} :
    cellAddr y x = vgaAddr + BitVec.ofNat 64 ((y.toNat * 80 + x.toNat) * 2) := by
  unfold cellAddr
  congr 1
  apply BitVec.eq_of_toNat_eq
  have eighty : (80 : Word).toNat = 80 := rfl
  have two : (2 : Word).toNat = 2 := rfl
  simp only [BitVec.toNat_add, BitVec.toNat_mul, BitVec.toNat_ofNat, eighty, two]
  omega

end Console

/-! ## The cursor of the display -/

/-- The registers of the display's controller, and the selected one. -/
structure Crt where
  index : Byte
  register : Byte → Byte

namespace Crt

/-- A byte sent to a port of the controller. -/
def out (crt : Crt) (sent : BitVec 16 × Byte) : Crt :=
  if sent.1 = 0x3D4 then { crt with index := sent.2 }
  else if sent.1 = 0x3D5 then
    { crt with register := Function.update crt.register crt.index sent.2 }
  else crt

/-- The controller after all that was sent, the last byte first. -/
def after (crt : Crt) (ports : List (BitVec 16 × Byte)) : Crt :=
  ports.foldr (fun sent crt => crt.out sent) crt

/-- The place of the blinking line. -/
def cursor (crt : Crt) : Nat := (crt.register 14).toNat * 256 + (crt.register 15).toNat

/-- `move_csr` tells the controller where the cursor is. -/
theorem cursor_moveCsr (crt : Crt) {c : Console}
    (before : c.cursorY.toNat * 80 + c.cursorX.toNat < 65536) :
    (crt.after c.moveCsr.ports).cursor = c.cursorY.toNat * 80 + c.cursorX.toNat := by
  have place : ((c.cursorY * 80 + c.cursorX).setWidth 32).toNat =
      c.cursorY.toNat * 80 + c.cursorX.toNat := by
    have eighty : (80 : Word).toNat = 80 := rfl
    rw [BitVec.toNat_setWidth, BitVec.toNat_add, BitVec.toNat_mul, eighty]
    omega
  have high : (crt.after c.moveCsr.ports).register 14 =
      ((c.cursorY * 80 + c.cursorX).setWidth 32 >>> 8).setWidth 8 := rfl
  have low : (crt.after c.moveCsr.ports).register 15 =
      ((c.cursorY * 80 + c.cursorX).setWidth 32).setWidth 8 := rfl
  rw [cursor, high, low, BitVec.toNat_setWidth, BitVec.toNat_setWidth, BitVec.toNat_ushiftRight,
    place, Nat.shiftRight_eq_div_pow]
  omega

end Crt

/-! ## Steps -/

namespace Console

variable {c : Console} {T T' : Terminal} {ch : Byte}

/-- The page and the cursor are those of a terminal. -/
structure Draws (c : Console) (T : Terminal) : Prop where
  x : c.cursorX.toNat = T.x
  y : c.cursorY.toNat = T.y
  attrib : c.attrib.setWidth 8 = T.attrib
  cells : ∀ row < 24, ∀ column < 80,
    (c.page ((row * 80 + column) * 2), c.page ((row * 80 + column) * 2 + 1)) = T.cell row column

/-- The display shows a terminal, whatever it was told before. -/
structure Shows (c : Console) (T : Terminal) : Prop extends c.Draws T where
  cursor : ∀ crt : Crt, (crt.after c.ports).cursor = T.y * 80 + T.x

theorem Draws.moveCsr (draws : c.Draws T) : c.moveCsr.Shows T := by
  refine ⟨⟨draws.x, draws.y, draws.attrib, draws.cells⟩, fun crt => ?_⟩
  have column := T.column
  have row := T.row
  rw [← draws.x, ← draws.y]
  rw [← draws.x] at column
  rw [← draws.y] at row
  exact Crt.cursor_moveCsr crt (by omega)

/-- Above the last row nothing is scrolled. -/
theorem Draws.scroll (draws : c.Draws T) : c.scroll = c := by
  have row := T.row
  have twentyfour : (24 : Word).toNat = 24 := rfl
  rw [Console.scroll, if_neg]
  rw [BitVec.le_def, draws.y]
  omega

/-- Both bytes of a cell. -/
theorem Draws.write (draws : c.Draws T) {c' : Console} {y x : Nat} {cell : Byte × Byte}
    (wrote : ∀ k < 3840, c'.page k = if k = (y * 80 + x) * 2 then cell.1
      else if k = (y * 80 + x) * 2 + 1 then cell.2 else c.page k) (fits : x < 80) :
    ∀ row < 24, ∀ column < 80,
      (c'.page ((row * 80 + column) * 2), c'.page ((row * 80 + column) * 2 + 1)) =
        T.write y x cell row column := by
  intro row below column left
  rw [wrote _ (by omega), wrote _ (by omega), Terminal.write]
  by_cases same : row = y ∧ column = x
  · rw [if_pos same]
    rcases same with ⟨rfl, rfl⟩
    rw [if_pos rfl, if_neg (Nat.succ_ne_self _), if_pos rfl]
  · have apart : row * 80 + column ≠ y * 80 + x := by
      intro equal
      exact same ⟨by omega, by omega⟩
    rw [if_neg same, if_neg (by omega), if_neg (by omega), if_neg (by omega), if_neg (by omega)]
    exact draws.cells row below column left

/-- The character of a blank. -/
theorem blank_setWidth (attrib : Word) (w : Nat) :
    ((attrib <<< 8).setWidth w).setWidth 8 = (0 : Byte) := by
  apply BitVec.eq_of_getLsbD_eq
  intro i bound
  rw [BitVec.getLsbD_setWidth, BitVec.getLsbD_setWidth, BitVec.getLsbD_shiftLeft]
  simp [bound]

/-- Below the last row every row takes the bytes of the next one, and the last row loses them.
What is behind the rows stays. -/
theorem scroll_page {k : Nat} (last : c.cursorY = 24) (here : k < 2 ^ 64) :
    c.scroll.page k =
      if k < 3680 then c.page (k + 160) else if k < 3840 then 0 else c.page k := by
  have source : vgaAddr + BitVec.ofNat 64 (0 + 160) = vgaAddr + 160 := rfl
  have copied := memcpy_page (c := c) (a := 0) (n := 3680) (d := 160) (by omega) (by omega) here
  rw [show vgaAddr + BitVec.ofNat 64 0 = vgaAddr from BitVec.add_zero _, source] at copied
  have wiped := memsetw_page (c := c.memcpy vgaAddr (vgaAddr + 160) 3680) (a := 3680) (n := 160)
    ((c.attrib <<< 8).setWidth 16) (by omega) here
  have memory : c.scroll.memory = ((c.memcpy vgaAddr (vgaAddr + 160) 3680).memsetw
      (vgaAddr + BitVec.ofNat 64 3680) ((c.attrib <<< 8).setWidth 16) 160).memory :=
    (congrArg Console.memory (scroll_of_last last) :)
  rw [page_congr memory, wiped, copied, blank_setWidth]
  by_cases rows : k < 3680
  · rw [if_neg (by omega), if_pos ⟨Nat.zero_le k, by omega⟩, if_pos rows]
  · rw [if_neg rows]
    by_cases row : k < 3840
    · rw [if_pos ⟨by omega, row⟩, if_pos row]
    · rw [if_neg (by omega), if_neg (by omega), if_neg row]

theorem scroll_attrib : c.scroll.attrib = c.attrib := by
  unfold scroll
  split
  · exact (memsetw_attrib _ _).trans (memcpy_attrib _ _)
  · rfl

theorem Draws.newline (draws : c.Draws T) : (c.place 0x0A).scroll.Draws T.newline := by
  have row := T.row
  have next : (c.place 0x0A).cursorY.toNat = T.y + 1 := by
    rw [← draws.y]
    exact toNat_succ (draws.y ▸ Nat.le_of_lt (Nat.lt_of_lt_of_le row (by decide)))
  unfold Terminal.newline
  by_cases below : T.y + 1 < 24
  · rw [dif_pos below]
    have placed : (c.place 0x0A).Draws { T with
        x := 0, y := T.y + 1, column := by decide, row := below } :=
      ⟨rfl, next, draws.attrib, draws.cells⟩
    rw [placed.scroll]
    exact placed
  · rw [dif_neg below]
    have last : (c.place 0x0A).cursorY = 24 :=
      BitVec.eq_of_toNat_eq (next.trans (Nat.le_antisymm row (Nat.le_of_not_lt below)))
    refine ⟨congrArg BitVec.toNat scroll_cursorX, ?_, ?_, ?_⟩
    · have back : (c.place 0x0A).scroll.cursorY = 23 := by
        rw [scroll_of_last last]
      rw [back]
      exact Nat.le_antisymm (Nat.le_of_not_lt fun less => below (Nat.succ_lt_succ less))
        (Nat.le_of_lt_succ row)
    · rw [scroll_attrib]
      exact draws.attrib
    · intro row within column left
      rw [scroll_page last (by omega), scroll_page last (by omega)]
      dsimp only
      by_cases above : row < 23
      · have cells := draws.cells (row + 1) (by omega) column left
        have up : ((row + 1) * 80 + column) * 2 = (row * 80 + column) * 2 + 160 := by omega
        rw [if_pos (by omega), if_pos (by omega), if_pos above, ← cells, up,
          Nat.add_right_comm _ 1 160]
        rfl
      · rw [if_neg (by omega), if_pos (by omega), if_neg (by omega), if_pos (by omega),
          if_neg above]

/-- A byte stored in a cell, the colour kept. -/
theorem Draws.store (draws : c.Draws T) {c' : Console} {y x : Nat} {byte : Byte} {addr : Word}
    (memory : c'.memory = (c.store addr byte).memory)
    (there : addr = vgaAddr + BitVec.ofNat 64 ((y * 80 + x) * 2)) (down : y < 24) (left : x < 80) :
    ∀ row < 24, ∀ column < 80,
      (c'.page ((row * 80 + column) * 2), c'.page ((row * 80 + column) * 2 + 1)) =
        T.write y x (byte, (T.cell y x).2) row column := by
  apply draws.write _ left
  intro k below
  rw [page_congr memory, there, page_store (by omega) (by omega)]
  by_cases colour : k = (y * 80 + x) * 2 + 1
  · rw [if_pos colour, ← draws.cells y down x left, colour]
  · rw [if_neg colour]

/-- The cell behind the row above is the first one of the row. -/
theorem Draws.edge_eq (draws : c.Draws T) (down : c.cursorY ≠ 0) :
    cellAddr (c.cursorY - 1) 80 = vgaAddr + BitVec.ofNat 64 ((T.y * 80 + 0) * 2) := by
  have up := toNat_pred down
  have nonzero : c.cursorY.toNat ≠ 0 := fun zero => down (BitVec.eq_of_toNat_eq zero)
  have behind : (80 : Word).toNat = 80 := rfl
  have start : (c.cursorY.toNat - 1) * 80 + 80 = c.cursorY.toNat * 80 + 0 := by omega
  rw [cellAddr_eq, up, behind, start, draws.y]

theorem Draws.back_eq (draws : c.Draws T) (left : c.cursorX ≠ 0) :
    cellAddr c.cursorY (c.cursorX - 1) =
      vgaAddr + BitVec.ofNat 64 ((T.y * 80 + (T.x - 1)) * 2) := by
  rw [cellAddr_eq, toNat_pred left, draws.x, draws.y]

theorem Draws.handleBackspace (draws : c.Draws T) : c.handleBackspace.Draws T.backspace := by
  have x := draws.x
  have y := draws.y
  have column := T.column
  have row := T.row
  have zero : (0 : Word).toNat = 0 := rfl
  have space : (0x20 ||| (c.attrib <<< 8).setWidth 32 : BitVec 32).setWidth 8 = (0x20 : Byte) := by
    rw [BitVec.setWidth_or, blank_setWidth]
    rfl
  unfold Console.handleBackspace Terminal.backspace
  dsimp only
  rw [space]
  by_cases edge : c.cursorX = 0
  · have left : T.x = 0 := by rw [← x, edge, zero]
    rw [if_neg (not_not_intro edge), if_neg (not_not_intro left)]
    by_cases top : c.cursorY = 0
    · have first : T.y = 0 := by rw [← y, top, zero]
      rw [if_neg (not_not_intro top), if_neg (not_not_intro first)]
      exact draws
    · have down : T.y ≠ 0 := fun first => top (BitVec.eq_of_toNat_eq (y.trans first))
      have up := toNat_pred top
      have corner : (80 - 1 : Word).toNat = 79 := by decide
      rw [if_pos top, if_pos down]
      exact ⟨corner, up.trans (congrArg (· - 1) y), draws.attrib,
        draws.store rfl (draws.edge_eq top) row (by decide)⟩
  · have left : T.x ≠ 0 := fun first => edge (BitVec.eq_of_toNat_eq (x.trans first))
    have back := toNat_pred edge
    rw [if_pos edge, if_pos left]
    exact ⟨back.trans (congrArg (· - 1) x), y, draws.attrib,
      draws.store rfl (draws.back_eq edge) row (by omega)⟩

/-- A character other than a break is placed without scrolling. -/
theorem Draws.place (draws : c.Draws T) (room : T.put ch = some T') (line : ch ≠ 0x0A) :
    (c.place ch).Draws T' := by
  have column := T.column
  have row := T.row
  unfold Terminal.put at room
  rw [if_neg line] at room
  unfold Console.place
  rw [if_neg line]
  by_cases back : ch = 0x08
  · rw [if_pos back] at room ⊢
    obtain rfl := Option.some.inj room
    exact draws.handleBackspace
  rw [if_neg back] at room ⊢
  by_cases tab : ch = 0x09
  · rw [if_pos tab] at room ⊢
    split at room
    · obtain rfl := Option.some.inj room
      have stop := tab_toNat (x := c.cursorX) (draws.x ▸ Nat.lt_trans column (by decide))
      rw [draws.x] at stop
      exact ⟨stop, draws.y, draws.attrib, draws.cells⟩
    · cases room
  rw [if_neg tab] at room ⊢
  by_cases carriage : ch = 0x0D
  · rw [if_pos carriage] at room ⊢
    obtain rfl := Option.some.inj room
    exact ⟨rfl, draws.y, draws.attrib, draws.cells⟩
  rw [if_neg carriage] at room ⊢
  split at room
  · obtain rfl := Option.some.inj room
    have next := toNat_succ (x := c.cursorX) (draws.x ▸ Nat.le_of_lt_succ column)
    rw [draws.x] at next
    refine ⟨next, draws.y, draws.attrib, draws.write ?_ column⟩
    intro k below
    have there : cellAddr c.cursorY c.cursorX =
        vgaAddr + BitVec.ofNat 64 ((T.y * 80 + T.x) * 2) := by
      rw [cellAddr_eq, draws.x, draws.y]
    have last := page_store (c := c.store (cellAddr c.cursorY c.cursorX) ch) (k := k)
      (a := (T.y * 80 + T.x) * 2 + 1) (by omega) (by omega) (c.attrib.setWidth 8)
    rw [← address_succ, ← there] at last
    refine last.trans ?_
    by_cases colour : k = (T.y * 80 + T.x) * 2 + 1
    · rw [if_pos colour, if_neg (by omega), if_pos colour]
      exact draws.attrib
    · rw [if_neg colour, if_neg colour, there]
      exact page_store (by omega) (by omega) ch
  · cases room

/-- What `putch` does to the terminal that is shown. -/
theorem Draws.putch (draws : c.Draws T) (room : T.put ch = some T') : (c.putch ch).Shows T' := by
  suffices placed : (c.place ch).scroll.Draws T' from placed.moveCsr
  by_cases line : ch = 0x0A
  · subst line
    obtain rfl := Option.some.inj room
    exact draws.newline
  · have placed := draws.place room line
    rw [placed.scroll]
    exact placed

/-- What is behind the rows stays. -/
theorem Draws.putch_page (draws : c.Draws T) (room : T.put ch = some T') {k : Nat}
    (behind : 3840 ≤ k) (here : k < 2 ^ 64) : (c.putch ch).page k = c.page k := by
  have column := T.column
  have row := T.row
  have x := draws.x
  have y := draws.y
  suffices scrolled : (c.place ch).scroll.page k = c.page k from scrolled
  have apart : ∀ {c' : Console} {y x : Nat} {addr : Word} (byte : Byte),
      addr = vgaAddr + BitVec.ofNat 64 ((y * 80 + x) * 2) → y * 80 + x < 1920 →
        (c'.store addr byte).page k = c'.page k ∧
          (c'.store (addr + 1) byte).page k = c'.page k := by
    rintro c' y x addr byte rfl before
    rw [address_succ, page_store here (by omega), page_store here (by omega), if_neg (by omega),
      if_neg (by omega)]
    exact ⟨rfl, rfl⟩
  by_cases line : ch = 0x0A
  · subst line
    have placed : (c.place 0x0A).page k = c.page k := rfl
    by_cases last : (c.place 0x0A).cursorY = 24
    · rw [scroll_page last here, if_neg (by omega), if_neg (by omega), placed]
    · have above : ¬ (24 : Word) ≤ (c.place 0x0A).cursorY := by
        have next : (c.place 0x0A).cursorY.toNat = T.y + 1 := by
          rw [← y]
          exact toNat_succ (by omega)
        have twentyfour : (24 : Word).toNat = 24 := rfl
        rw [BitVec.le_def, next, twentyfour]
        intro below
        exact last (BitVec.eq_of_toNat_eq (by omega))
      rw [Console.scroll, if_neg above, placed]
  · rw [(draws.place room line).scroll]
    unfold Console.place
    rw [if_neg line]
    by_cases back : ch = 0x08
    · rw [if_pos back]
      unfold Console.handleBackspace
      dsimp only
      split
      · rename_i left
        exact (apart _ (draws.back_eq left) (by omega)).1
      · split
        · rename_i down
          exact (apart _ (draws.edge_eq down) (by omega)).1
        · rfl
    rw [if_neg back]
    split
    · rfl
    split
    · rfl
    · have there : cellAddr c.cursorY c.cursorX =
          vgaAddr + BitVec.ofNat 64 ((T.y * 80 + T.x) * 2) := by
        rw [cellAddr_eq, x, y]
      exact (apart _ there (by omega)).2.trans (apart _ there (by omega)).1

/-- The terminal takes a character exactly if the console has room for it. -/
theorem Draws.put_iff_hasRoom (draws : c.Draws T) :
    (∃ T', T.put ch = some T') ↔ c.HasRoom ch := by
  unfold Terminal.put HasRoom
  rw [draws.x]
  by_cases line : ch = 0x0A
  · rw [if_pos line, if_pos (.inl line)]
    exact iff_of_true ⟨_, rfl⟩ trivial
  by_cases back : ch = 0x08
  · rw [if_neg line, if_pos back, if_pos (.inr (.inl back))]
    exact iff_of_true ⟨_, rfl⟩ trivial
  rw [if_neg line, if_neg back]
  by_cases carriage : ch = 0x0D
  · have plain : ch ≠ 0x09 := by rw [carriage]; decide
    have known : ch = 0x0A ∨ ch = 0x08 ∨ ch = 0x0D := .inr (.inr carriage)
    rw [if_neg plain, if_pos carriage, if_pos known]
    exact iff_of_true ⟨_, rfl⟩ trivial
  rw [if_neg (not_or.mpr ⟨line, not_or.mpr ⟨back, carriage⟩⟩), if_neg carriage]
  by_cases tab : ch = 0x09
  · rw [if_pos tab, if_pos tab]
    by_cases room : T.x < 72
    · rw [dif_pos room]
      exact iff_of_true ⟨_, rfl⟩ room
    · rw [dif_neg room]
      exact iff_of_false nofun room
  · rw [if_neg tab, if_neg tab]
    by_cases room : T.x < 79
    · rw [dif_pos room]
      exact iff_of_true ⟨_, rfl⟩ room
    · rw [dif_neg room]
      exact iff_of_false nofun room

/-! ## Runs -/

theorem clearRows_page {n k : Nat} (blank : BitVec 16) (rows : n ≤ 24) (here : k < 2 ^ 64) :
    ((List.range n).foldl (fun c i =>
      c.memsetw (vgaAddr + 2 * BitVec.ofNat 64 i * 80) blank (2 * 80)) c).page k =
        if k < n * 160 then blank.setWidth 8 else c.page k := by
  induction n with
  | zero => rw [if_neg (by omega)]; rfl
  | succ n ih =>
      have row : vgaAddr + 2 * BitVec.ofNat 64 n * 80 = vgaAddr + BitVec.ofNat 64 (n * 160) := by
        congr 1
        apply BitVec.eq_of_toNat_eq
        have eighty : (80 : Word).toNat = 80 := rfl
        have two : (2 : Word).toNat = 2 := rfl
        simp only [BitVec.toNat_mul, BitVec.toNat_ofNat, eighty, two]
        omega
      rw [List.range_succ, List.foldl_append, List.foldl_cons, List.foldl_nil, row,
        memsetw_page blank (by omega) here, ih (by omega)]
      by_cases here : n * 160 ≤ k ∧ k < n * 160 + 2 * 80
      · rw [if_pos here, if_pos (by omega)]
      · rw [if_neg here]
        by_cases before : k < n * 160
        · rw [if_pos before, if_pos (by omega)]
        · rw [if_neg before, if_neg (by omega)]

theorem clearRows_attrib (blank : BitVec 16) (rows : List Nat) :
    (rows.foldl (fun c i =>
      c.memsetw (vgaAddr + 2 * BitVec.ofNat 64 i * 80) blank (2 * 80)) c).attrib = c.attrib := by
  induction rows generalizing c with
  | nil => rfl
  | cons row rows ih => exact ih.trans (memsetw_attrib _ _)

/-- `clearscreen` shows a terminal without any text. -/
theorem clearscreen_shows (c : Console) : c.clearscreen.Shows (.blank (c.attrib.setWidth 8)) := by
  apply Draws.moveCsr
  have narrow : ((c.attrib <<< 8).setWidth 32).setWidth 16 = (c.attrib <<< 8).setWidth 16 :=
    BitVec.setWidth_setWidth_of_le _ (by decide)
  have zero : ∀ k < 3840, c.clearscreen.page k = 0 := by
    intro k below
    refine (clearRows_page _ (Nat.le_refl 24) (by omega)).trans ?_
    rw [if_pos below, narrow]
    exact blank_setWidth _ _
  refine ⟨rfl, rfl, congrArg (BitVec.setWidth 8) (clearRows_attrib _ _), ?_⟩
  intro row below column left
  exact Prod.ext (zero _ (by omega)) (zero _ (by omega))

/-- A text that the terminal takes is shown. -/
theorem Shows.puts (shows : c.Shows T) {str : List Byte} (taken : T.puts str = some T') :
    (c.puts str).Shows T' := by
  induction str generalizing c T with
  | nil =>
      obtain rfl := Option.some.inj taken
      exact shows
  | cons ch str ih =>
      rcases Option.bind_eq_some_iff.mp taken with ⟨next, room, rest⟩
      exact ih (shows.toDraws.putch room) rest

/-- The terminal takes a text exactly if each character finds room. -/
theorem Shows.puts_iff_hasRoom (shows : c.Shows T) {str : List Byte} :
    (∃ T', T.puts str = some T') ↔
      ∀ before ch, before ++ [ch] <+: str → (c.puts before).HasRoom ch := by
  induction str generalizing c T with
  | nil =>
      refine iff_of_true ⟨T, rfl⟩ fun before ch reached => ?_
      have nonempty := List.append_ne_nil_of_right_ne_nil before (List.cons_ne_nil ch [])
      exact absurd (List.prefix_nil.mp reached) nonempty
  | cons first str ih =>
      constructor
      · rintro ⟨T', taken⟩ before ch reached
        rcases Option.bind_eq_some_iff.mp taken with ⟨next, room, rest⟩
        have follows := (ih (shows.toDraws.putch room)).mp ⟨T', rest⟩
        cases before with
        | nil =>
            obtain ⟨rfl, _⟩ := List.cons_prefix_cons.mp reached
            exact shows.toDraws.put_iff_hasRoom.mp ⟨next, room⟩
        | cons head before =>
            obtain ⟨rfl, behind⟩ := List.cons_prefix_cons.mp reached
            exact follows before ch behind
      · intro finds
        have here := finds [] first (List.cons_prefix_cons.mpr ⟨rfl, List.nil_prefix⟩)
        rcases shows.toDraws.put_iff_hasRoom.mpr here with ⟨next, room⟩
        have rest := (ih (shows.toDraws.putch room)).mpr fun before ch reached =>
          finds (first :: before) ch (List.cons_prefix_cons.mpr ⟨rfl, reached⟩)
        rcases rest with ⟨T', taken⟩
        exact ⟨T', Option.bind_eq_some_iff.mpr ⟨next, room, taken⟩⟩

/-- The console refines the terminal: on a cleared screen, the terminal takes exactly the texts
whose characters all find room in their lines, and the display then shows it. -/
theorem console_refines_terminal (c : Console) (chars : List Byte) :
    ((∃ T, (Terminal.blank (c.attrib.setWidth 8)).puts chars = some T) ↔
      ∀ before ch, before ++ [ch] <+: chars → (c.clearscreen.puts before).HasRoom ch) ∧
    ∀ T, (Terminal.blank (c.attrib.setWidth 8)).puts chars = some T →
      (c.clearscreen.puts chars).Shows T :=
  ⟨c.clearscreen_shows.puts_iff_hasRoom, fun _ taken => c.clearscreen_shows.puts taken⟩

end Console

/-! ## Lines -/

namespace Terminal

variable {T : Terminal} {lines : List (List Byte)} {last : List Byte} {ch : Byte}

/-- A character that is shown. -/
def Printable (ch : Byte) : Prop := ch ≠ 0x0A ∧ ch ≠ 0x08 ∧ ch ≠ 0x09 ∧ ch ≠ 0x0D

/-- A line that fits into a row, the cursor behind it. -/
def Fits (line : List Byte) : Prop := (∀ ch ∈ line, Printable ch) ∧ line.length ≤ 79

/-- The cells of a row with a text. -/
def glyph (attrib : Byte) (shown : List Byte) (column : Nat) : Byte × Byte :=
  match shown[column]? with
  | some ch => (ch, attrib)
  | none => (0, 0)

/-- Lines were printed, and a last one is being printed.  The newest 24 of them are on the
screen. -/
structure Reads (T : Terminal) (lines : List (List Byte)) (last : List Byte) : Prop where
  x : T.x = last.length
  y : T.y = min lines.length 23
  cells : ∀ row < 24, ∀ column < 80, T.cell row column =
    glyph T.attrib ((lines ++ [last]).getD (lines.length - 23 + row) []) column

/-- A text, with a break behind each line but the last one. -/
def text (lines : List (List Byte)) (last : List Byte) : List Byte :=
  lines.flatMap (· ++ [0x0A]) ++ last

theorem glyph_concat {attrib : Byte} {line : List Byte} {column : Nat} (ch : Byte) :
    glyph attrib (line ++ [ch]) column =
      if column = line.length then (ch, attrib) else glyph attrib line column := by
  unfold glyph
  by_cases equal : column = line.length
  · rw [if_pos equal, equal, List.getElem?_concat_length]
  · rw [if_neg equal]
    by_cases before : column < line.length
    · rw [List.getElem?_append_left before]
    · rw [List.getElem?_eq_none (Nat.le_of_not_lt before), List.getElem?_eq_none]
      rw [List.length_append, List.length_singleton]
      omega

theorem getD_concat (lines : List (List Byte)) (last : List Byte) (i : Nat) :
    (lines ++ [last]).getD i [] = if i = lines.length then last else lines.getD i [] := by
  rw [List.getD_eq_getElem?_getD, List.getD_eq_getElem?_getD]
  by_cases equal : i = lines.length
  · rw [if_pos equal, equal, List.getElem?_concat_length]
    rfl
  · rw [if_neg equal]
    by_cases before : i < lines.length
    · rw [List.getElem?_append_left before]
    · rw [List.getElem?_eq_none (Nat.le_of_not_lt before), List.getElem?_eq_none]
      rw [List.length_append, List.length_singleton]
      omega

theorem Reads.put (reads : T.Reads lines last) (printable : Printable ch)
    (fits : (last ++ [ch]).length ≤ 79) :
    ∃ T', T.put ch = some T' ∧ T'.attrib = T.attrib ∧ T'.Reads lines (last ++ [ch]) := by
  rcases printable with ⟨line, back, tab, carriage⟩
  rw [List.length_append, List.length_singleton] at fits
  have room : T.x < 79 := by
    rw [reads.x]
    omega
  have put : T.put ch = some { T with
      cell := T.write T.y T.x (ch, T.attrib), x := T.x + 1, column := by omega } := by
    rw [Terminal.put, if_neg line, if_neg back, if_neg tab, if_neg carriage, dif_pos room]
  refine ⟨_, put, rfl, ?_, reads.y, ?_⟩
  · rw [List.length_append, List.length_singleton]
    exact congrArg (· + 1) reads.x
  · intro row within column left
    have cells := reads.cells row within column left
    have y := reads.y
    rw [getD_concat] at cells ⊢
    by_cases here : row = T.y
    · rw [if_pos (by omega)] at cells ⊢
      rw [glyph_concat, ← reads.x]
      by_cases behind : column = T.x
      · rw [if_pos behind]
        exact if_pos ⟨here, behind⟩
      · rw [if_neg behind]
        exact (if_neg fun both => behind both.2).trans cells
    · rw [if_neg (by omega)] at cells ⊢
      exact (if_neg fun both => here both.1).trans cells

theorem newline_attrib : T.newline.attrib = T.attrib := by
  unfold newline
  split <;> rfl

theorem Reads.newline (reads : T.Reads lines last) : T.newline.Reads (lines ++ [last]) [] := by
  have y := reads.y
  have cells := reads.cells
  have empty : ∀ i, (lines ++ [last] ++ [[]]).getD i [] = (lines ++ [last]).getD i [] := by
    intro i
    rw [getD_concat]
    by_cases equal : i = (lines ++ [last]).length
    · rw [if_pos equal, List.getD_eq_default _ _ (Nat.le_of_eq equal.symm)]
    · rw [if_neg equal]
  have longer : (lines ++ [last]).length = lines.length + 1 := by
    rw [List.length_append, List.length_singleton]
  unfold Terminal.newline
  by_cases below : T.y + 1 < 24
  · rw [dif_pos below]
    refine ⟨rfl, by rw [longer]; dsimp only; omega, ?_⟩
    intro row within column left
    have same : (lines ++ [last]).length - 23 + row = lines.length - 23 + row := by omega
    rw [empty, same]
    exact cells row within column left
  · rw [dif_neg below]
    refine ⟨rfl, by rw [longer]; dsimp only; omega, ?_⟩
    intro row within column left
    dsimp only
    rw [empty]
    by_cases above : row < 23
    · have next : (lines ++ [last]).length - 23 + row = lines.length - 23 + (row + 1) := by omega
      rw [if_pos above, next]
      exact cells (row + 1) (Nat.succ_lt_succ above) column left
    · rw [if_neg above, List.getD_eq_default _ _ (by omega)]
      rfl

theorem puts_cons {T' T'' : Terminal} {str : List Byte} (first : T.put ch = some T')
    (rest : T'.puts str = some T'') : T.puts (ch :: str) = some T'' :=
  Option.bind_eq_some_iff.mpr ⟨T', first, rest⟩

/-- The rest of the last line. -/
theorem Reads.puts (reads : T.Reads lines last) {rest : List Byte} (fits : Fits (last ++ rest)) :
    ∃ T', T.puts rest = some T' ∧ T'.attrib = T.attrib ∧ T'.Reads lines (last ++ rest) := by
  induction rest generalizing T last with
  | nil => exact ⟨T, rfl, rfl, (List.append_nil last).symm ▸ reads⟩
  | cons ch rest ih =>
      have split : last ++ ch :: rest = last ++ [ch] ++ rest := List.append_cons last ch rest
      have short := fits.2
      rw [split, List.length_append] at short
      have printable := fits.1 ch (List.mem_append_right _ List.mem_cons_self)
      rcases reads.put printable (Nat.le_trans (Nat.le_add_right _ _) short) with
        ⟨next, put, colour, reads'⟩
      rcases ih reads' (split ▸ fits) with ⟨T', puts, colour', done⟩
      exact ⟨T', puts_cons put puts, colour'.trans colour, split ▸ done⟩

theorem puts_append {T' T'' : Terminal} {str more : List Byte} (first : T.puts str = some T')
    (second : T'.puts more = some T'') : T.puts (str ++ more) = some T'' := by
  rw [Terminal.puts, List.foldlM_append]
  exact Option.bind_eq_some_iff.mpr ⟨T', first, second⟩

/-- Whole lines, and a last one. -/
theorem Reads.text (reads : T.Reads lines []) {more : List (List Byte)}
    (fits : ∀ line ∈ more, Fits line) (last_fits : Fits last) :
    ∃ T', T.puts (text more last) = some T' ∧ T'.attrib = T.attrib ∧
      T'.Reads (lines ++ more) last := by
  induction more generalizing T lines with
  | nil =>
      rw [List.append_nil]
      exact reads.puts last_fits
  | cons line more ih =>
      have whole := fits line List.mem_cons_self
      rcases reads.puts whole with ⟨T₁, puts, colour, reads₁⟩
      have next : T₁.put 0x0A = some T₁.newline := rfl
      rw [List.nil_append] at reads₁
      rcases ih reads₁.newline fun line member => fits line (List.mem_cons_of_mem _ member) with
        ⟨T', rest, colour', done⟩
      have same : Terminal.text (line :: more) last =
          line ++ (0x0A :: Terminal.text more last) := by
        rw [Terminal.text, Terminal.text, List.flatMap_cons, List.append_assoc, List.append_assoc]
        rfl
      exact ⟨T', same ▸ puts_append puts (puts_cons next rest),
        colour'.trans (newline_attrib.trans colour), List.append_cons lines line more ▸ done⟩

/-- Nothing was printed. -/
theorem reads_blank (attrib : Byte) : (blank attrib).Reads [] [] := by
  refine ⟨rfl, rfl, fun row within column left => ?_⟩
  cases row with
  | zero => rfl
  | succ row => rfl

end Terminal

/-- After the screen is cleared and a text of short lines is printed, the display shows its last 24
lines, the cursor behind the last one. -/
theorem Console.clearscreen_puts_text (c : Console) (lines : List (List Byte)) (last : List Byte)
    (fits : ∀ line ∈ lines, Terminal.Fits line) (last_fits : Terminal.Fits last) :
    ∃ T, (c.clearscreen.puts (Terminal.text lines last)).Shows T ∧
      T.attrib = c.attrib.setWidth 8 ∧ T.Reads lines last := by
  rcases (Terminal.reads_blank (c.attrib.setWidth 8)).text fits last_fits with
    ⟨T, taken, colour, reads⟩
  exact ⟨T, c.clearscreen_shows.puts taken, colour, reads⟩

/-- Two lines, and the start of a third one. -/
theorem Console.clearscreen_puts_text_two :
    ∃ T, ((⟨fun _ => 0, [], [], 3, 0, 0⟩ : Console).clearscreen.puts
      (Terminal.text [[0x61], [0x62, 0x63]] [0x64])).Shows T ∧
      T.attrib = 3 ∧ T.Reads [[0x61], [0x62, 0x63]] [0x64] :=
  Console.clearscreen_puts_text _ [[0x61], [0x62, 0x63]] [0x64]
    (by unfold Terminal.Fits Terminal.Printable; decide)
    (by unfold Terminal.Fits Terminal.Printable; decide)

end Sbrocks.Process
