import Mathlib.Data.List.TakeWhile
import Sbrocks.Libc.Directives
import Sbrocks.Process.Clock
import Sbrocks.Process.Terminal

/-!
# The status line

When a second begins, `timer_handler` prints the time below the rows of the terminal, between the
characters of whatever is being printed.  Neither disturbs the other.  But the clock does not
wipe its line: a time that is shorter than one before it is followed by what is left of that.
-/

namespace Sbrocks.Process

open Sbrocks.Libc

/-! ## Functions -/

namespace Console

/-- The address that `puttimer` computes for a cell. -/
def timerAddr (y x : CInt) : Word := vgaAddr + ((y * 80 + x) * 2).signExtend 64

/-- The loop of `puttimer` over the colours of a row. -/
def colourRow (c : Console) (y : CInt) : Console :=
  (List.range 80).foldl (fun c i => c.store (timerAddr y (BitVec.ofNat 32 i) + 1) 0x0A) c

/-- The loop of `puttimer` over its text. -/
def putText (c : Console) (x y : CInt) : List Byte → Console
  | [] => c
  | ch :: str =>
      let dstAddr := timerAddr y x
      putText ((c.store dstAddr ch).store (dstAddr + 1) 0x0A) (x + 1) y str

/-- `puttimer`. -/
def puttimer (c : Console) (x y : CInt) (str : List Byte) : Console :=
  (c.colourRow y).putText x y str

/-- `kprintat`, with the text up to its terminator. -/
def kprintat (c : Console) (x y : CInt) (fmt : List Byte) (args : Arguments) : Option Console :=
  (vsprintf fmt args).map fun s => c.puttimer x y (s.str.takeWhile (· ≠ 0))

end Console

/-- `"Time Since Boot %d:%d:%d"`. -/
def timeFormat : List Byte := "Time Since Boot %d:%d:%d".toList.map chr

/-- The arguments that `timer_handler` prints. -/
def timeArguments (timer : Timer) : Arguments where
  word
    | 0 => timer.hh.setWidth 64
    | 1 => timer.mm.setWidth 64
    | _ => timer.ss.setWidth 64
  string _ := []

/-- What comes to the screen: a character, or a tick of the clock. -/
inductive Output where
  | char (ch : Byte)
  | tick

/-- The screen and the clock. -/
structure Display where
  console : Console
  timer : Timer

/-- What `putch` and the printing part of `timer_handler` do. -/
def Display.output (d : Display) : Output → Option Display
  | .char ch => some { d with console := d.console.putch ch }
  | .tick => do
      let timer := d.timer.tick
      if d.timer.Begins then
        let console ← d.console.kprintat 40 24 timeFormat (timeArguments timer)
        return { console, timer }
      else return { d with timer }

/-! ## What `puttimer` writes -/

namespace Console

variable {c : Console} {T : Terminal} {n k x : Nat}

theorem timerAddr_eq (small : x < 2 ^ 20) :
    timerAddr 24 (BitVec.ofNat 32 x) = vgaAddr + BitVec.ofNat 64 (3840 + 2 * x) := by
  have place : ((24 * 80 + BitVec.ofNat 32 x) * 2 : CInt).toNat = 3840 + 2 * x := by
    have row : (24 * 80 : CInt).toNat = 1920 := rfl
    have two : (2 : CInt).toNat = 2 := rfl
    rw [BitVec.toNat_mul, BitVec.toNat_add, row, two, BitVec.toNat_ofNat]
    omega
  have positive : ((24 * 80 + BitVec.ofNat 32 x) * 2 : CInt).msb = false := by
    rw [BitVec.msb_eq_decide, place]
    exact decide_eq_false (by omega)
  unfold timerAddr
  congr 1
  apply BitVec.eq_of_toNat_eq
  rw [BitVec.signExtend_eq_setWidth_of_msb_false positive, BitVec.toNat_setWidth, place,
    BitVec.toNat_ofNat]

/-- Everything but the page and what was written. -/
structure Paints (c c' : Console) : Prop where
  ports : c'.ports = c.ports
  attrib : c'.attrib = c.attrib
  cursorX : c'.cursorX = c.cursorX
  cursorY : c'.cursorY = c.cursorY

theorem Paints.trans {c' c'' : Console} (first : Paints c c') (second : Paints c' c'') :
    Paints c c'' :=
  ⟨second.ports.trans first.ports, second.attrib.trans first.attrib,
    second.cursorX.trans first.cursorX, second.cursorY.trans first.cursorY⟩

theorem store_paints (addr : Word) (byte : Byte) : Paints c (c.store addr byte) :=
  ⟨rfl, rfl, rfl, rfl⟩

theorem putText_paints (x y : CInt) (str : List Byte) : Paints c (c.putText x y str) := by
  induction str generalizing c x with
  | nil => exact ⟨rfl, rfl, rfl, rfl⟩
  | cons ch str ih =>
      exact ((store_paints _ _).trans (store_paints _ _)).trans (ih (x + 1))

theorem foldl_store_paints (addr : Nat → Word) (byte : Byte) (cells : List Nat) :
    Paints c (cells.foldl (fun c i => c.store (addr i) byte) c) := by
  induction cells generalizing c with
  | nil => exact ⟨rfl, rfl, rfl, rfl⟩
  | cons i cells ih => exact (store_paints _ _).trans ih

theorem puttimer_paints (x y : CInt) (str : List Byte) : Paints c (c.puttimer x y str) :=
  (foldl_store_paints _ _ _).trans (putText_paints x y str)

theorem colourRow_page (here : k < 2 ^ 64) : (c.colourRow 24).page k =
    if 3840 ≤ k ∧ k < 4000 ∧ k % 2 = 1 then 0x0A else c.page k := by
  have rows : ∀ n ≤ 80, ((List.range n).foldl
      (fun c i => c.store (timerAddr 24 (BitVec.ofNat 32 i) + 1) 0x0A) c).page k =
        if 3840 ≤ k ∧ k < 3840 + 2 * n ∧ k % 2 = 1 then 0x0A else c.page k := by
    intro n
    induction n with
    | zero =>
        intro _
        rw [if_neg (by omega)]
        rfl
    | succ n ih =>
        intro few
        rw [List.range_succ, List.foldl_append, List.foldl_cons, List.foldl_nil,
          timerAddr_eq (by omega), address_succ, page_store here (by omega), ih (by omega)]
        by_cases new : k = 3840 + 2 * n + 1
        · rw [if_pos new, if_pos (by omega)]
        · rw [if_neg new]
          by_cases old : 3840 ≤ k ∧ k < 3840 + 2 * n ∧ k % 2 = 1
          · rw [if_pos old, if_pos (by omega)]
          · rw [if_neg old, if_neg (by omega)]
  exact rows 80 (Nat.le_refl 80)

theorem putText_page (str : List Byte) (small : x + str.length < 2 ^ 20) (here : k < 2 ^ 64) :
    (c.putText (BitVec.ofNat 32 x) 24 str).page k =
      if 3840 + 2 * x ≤ k ∧ k < 3840 + 2 * (x + str.length) then
        if k % 2 = 1 then 0x0A else str.getD ((k - 3840) / 2 - x) 0
      else c.page k := by
  induction str generalizing c x with
  | nil =>
      rw [if_neg (by simp only [List.length_nil]; omega)]
      rfl
  | cons ch str ih =>
      rw [List.length_cons] at small ⊢
      have next : BitVec.ofNat 32 x + 1 = BitVec.ofNat 32 (x + 1) := (BitVec.ofNat_add x 1).symm
      rw [putText, next, ih (by omega), timerAddr_eq (by omega), address_succ]
      by_cases behind : 3840 + 2 * (x + 1) ≤ k ∧ k < 3840 + 2 * (x + 1 + str.length)
      · have index : (k - 3840) / 2 - x = ((k - 3840) / 2 - (x + 1)) + 1 := by omega
        have inside : 3840 + 2 * x ≤ k ∧ k < 3840 + 2 * (x + (str.length + 1)) := by omega
        rw [if_pos behind, if_pos inside, index, List.getD_cons_succ]
      · rw [if_neg behind, page_store here (by omega), page_store here (by omega)]
        by_cases colour : k = 3840 + 2 * x + 1
        · rw [if_pos colour, if_pos (by omega), if_pos (by omega)]
        · rw [if_neg colour]
          by_cases char : k = 3840 + 2 * x
          · have index : (k - 3840) / 2 - x = 0 := by omega
            rw [if_pos char, if_pos (by omega), if_neg (by omega), index, List.getD_cons_zero]
          · rw [if_neg char, if_neg (by omega)]

/-- A cell of the status line. -/
def status (c : Console) (column : Nat) : Byte × Byte :=
  (c.page (3840 + 2 * column), c.page (3840 + 2 * column + 1))

theorem puttimer_rows {str : List Byte} (short : str.length < 2 ^ 19) (row : k < 3840) :
    (c.puttimer 40 24 str).page k = c.page k := by
  have text := putText_page (c := c.colourRow 24) (x := 40) (k := k) str (by omega) (by omega)
  rw [if_neg (by omega), colourRow_page (by omega), if_neg (by omega)] at text
  exact text

theorem puttimer_status {str : List Byte} {column : Nat} (short : str.length < 2 ^ 19)
    (inside : column < 80) : (c.puttimer 40 24 str).status column =
      (if 40 ≤ column ∧ column < 40 + str.length then str.getD (column - 40) 0
        else (c.status column).1, 0x0A) := by
  have char := putText_page (c := c.colourRow 24) (x := 40) (k := 3840 + 2 * column) str
    (by omega) (by omega)
  have colour := putText_page (c := c.colourRow 24) (x := 40) (k := 3840 + 2 * column + 1) str
    (by omega) (by omega)
  rw [colourRow_page (by omega), if_neg (by omega : ¬ (3840 ≤ 3840 + 2 * column ∧
    3840 + 2 * column < 4000 ∧ (3840 + 2 * column) % 2 = 1))] at char
  rw [colourRow_page (by omega), if_pos (by omega : 3840 ≤ 3840 + 2 * column + 1 ∧
    3840 + 2 * column + 1 < 4000 ∧ (3840 + 2 * column + 1) % 2 = 1)] at colour
  refine Prod.ext (Eq.trans char ?_) (Eq.trans colour ?_)
  · dsimp only
    have index : (3840 + 2 * column - 3840) / 2 - 40 = column - 40 := by omega
    by_cases shown : 40 ≤ column ∧ column < 40 + str.length
    · rw [if_pos shown, if_pos (by omega), if_neg (by omega), index]
    · rw [if_neg shown, if_neg (by omega)]
      rfl
  · dsimp only
    rw [if_pos (by omega : (3840 + 2 * column + 1) % 2 = 1), ite_self]

/-- The clock does not touch the rows of the terminal. -/
theorem Shows.puttimer (shows : c.Shows T) {str : List Byte} (short : str.length < 2 ^ 19) :
    (c.puttimer 40 24 str).Shows T := by
  have paints := puttimer_paints (c := c) 40 24 str
  refine ⟨⟨?_, ?_, ?_, ?_⟩, ?_⟩
  · rw [paints.cursorX, shows.x]
  · rw [paints.cursorY, shows.y]
  · rw [paints.attrib, shows.attrib]
  · intro row below column left
    rw [puttimer_rows short (by omega), puttimer_rows short (by omega)]
    exact shows.cells row below column left
  · rw [paints.ports]
    exact shows.cursor

/-- Characters do not touch the status line. -/
theorem Draws.putch_status {T' : Terminal} {ch : Byte} (draws : c.Draws T)
    (room : T.put ch = some T') {column : Nat} (inside : column < 80) :
    (c.putch ch).status column = c.status column := by
  unfold status
  rw [draws.putch_page room (by omega) (by omega), draws.putch_page room (by omega) (by omega)]

theorem clearscreen_status {column : Nat} (inside : column < 80) :
    c.clearscreen.status column = c.status column := by
  have same : ∀ k, 3840 ≤ k → k < 2 ^ 64 → c.clearscreen.page k = c.page k := by
    intro k behind here
    exact (clearRows_page _ (Nat.le_refl 24) here).trans (if_neg (by omega))
  unfold status
  rw [same _ (by omega) (by omega), same _ (by omega) (by omega)]

end Console

/-! ## The text of the time -/

/-- What stands before the time. -/
def timeLabel : List Byte := "Time Since Boot ".toList.map chr

theorem timeLabel_length : timeLabel.length = 16 := by decide

theorem timeLabel_plain : ∀ c ∈ timeLabel, c ≠ 0 ∧ c ≠ chr '%' := by decide

/-- The time that the clock shows when so many seconds have gone by. -/
def timeText (seconds : Nat) : List Byte :=
  timeLabel ++ numberText (seconds / 3600 % 25) ++ [chr ':'] ++
    numberText (seconds / 60 % 60) ++ [chr ':'] ++ numberText (seconds % 60)

/-- `"%d"`. -/
def decimalDirective : Directive where
  flags := []
  width := .none
  precision := .none
  qualifier := none
  conversion := .decimal

/-- A number of time in decimal. -/
theorem decimalText_ofNat {n : Nat} (small : n < 2 ^ 31) :
    decimalText (BitVec.ofNat 32 n) = numberText n := by
  have value : (BitVec.ofNat 32 n : CInt).toInt = n := by
    rw [BitVec.toInt_eq_toNat_of_lt, BitVec.toNat_ofNat, Nat.mod_eq_of_lt (by omega)]
    rw [BitVec.toNat_ofNat]
    omega
  unfold decimalText numberText
  rw [value, if_neg (by omega), Int.natAbs_natCast, List.nil_append]

theorem number_int (arg : Word) :
    number (integerArg none Flag.sign arg) 10 (-1) (-1) Flag.sign =
      some (decimalText (arg.setWidth 32)) := by
  have same : ((arg.setWidth 32).signExtend 64).toInt = (arg.setWidth 32).toInt :=
    BitVec.toInt_signExtend_of_le (by decide)
  have num : integerArg none Flag.sign arg = (arg.setWidth 32).signExtend 64 := rfl
  have signed : has Flag.sign Flag.sign = true := rfl
  have plain : has Flag.sign Flag.plus = false ∧ has Flag.sign Flag.space = false ∧
      has Flag.sign Flag.small = false := ⟨rfl, rfl, rfl⟩
  rw [num, number_decimal]
  simp [signText, digitsText, magnitude, decimalText, same, signed, plain]

theorem decimal_write (args : Arguments) (s : Scan) {n : Nat} (small : n < 2 ^ 31)
    (given : (args.word s.args).setWidth 32 = BitVec.ofNat 32 n) :
    decimalDirective.write args s =
      some { s with str := s.str ++ numberText n, args := s.args + 1 } := by
  have flags : (0 ||| Flag.sign : CInt) = Flag.sign := by decide
  have text := number_int (args.word s.args)
  rw [given, decimalText_ofNat small] at text
  show s.putInteger args none 10 (0 ||| Flag.sign) (-1) (-1) = _
  rw [flags]
  exact congrArg (· >>= fun text => some (Scan.put { s with args := s.args + 1 } text)) text

/-- Characters that stand for themselves. -/
def literal (text : List Byte) (plain : ∀ c ∈ text, c ≠ 0 ∧ c ≠ chr '%') : List Piece :=
  text.pmap Piece.char plain

theorem literal_write (args : Arguments) (text : List Byte)
    (plain : ∀ c ∈ text, c ≠ 0 ∧ c ≠ chr '%') (s : Scan) :
    (literal text plain).foldlM (Piece.write args) s = some (s.put text) := by
  induction text generalizing s with
  | nil => exact congrArg some (by rw [Scan.put, List.append_nil])
  | cons c text ih =>
      have rest := ih (fun c member => plain c (List.mem_cons_of_mem _ member)) (s.put [c])
      have joined : (s.put [c]).put text = s.put (c :: text) := by
        unfold Scan.put
        rw [List.append_assoc]
        rfl
      rw [← joined, ← rest]
      rfl

/-- The parts of the format. -/
def timePieces : List Piece :=
  literal timeLabel timeLabel_plain ++
    [.directive decimalDirective, .char (chr ':') (by decide), .directive decimalDirective,
      .char (chr ':') (by decide), .directive decimalDirective]

theorem timePieces_text : timePieces.flatMap Piece.text = timeFormat := by decide

theorem vsprintf_time {timer : Timer} {seconds : Nat} (shows : timer.Shows seconds 25) :
    ∃ s, vsprintf timeFormat (timeArguments timer) = some s ∧ s.str = timeText seconds := by
  have argument : ∀ {word : CInt} {n : Nat}, word.toNat = n →
      (word.setWidth 64).setWidth 32 = BitVec.ofNat 32 n := by
    rintro word n rfl
    rw [BitVec.setWidth_setWidth_of_le _ (by decide), BitVec.setWidth_eq, BitVec.ofNat_toNat,
      BitVec.setWidth_eq]
  have hour := decimal_write (timeArguments timer) ⟨0, timeLabel, 0, []⟩
    (Nat.lt_trans (Nat.mod_lt _ (by decide)) (by decide)) (argument shows.hh)
  have minute := fun str => decimal_write (timeArguments timer) ⟨0, str, 1, []⟩
    (Nat.lt_trans (Nat.mod_lt _ (by decide)) (by decide)) (argument shows.mm)
  have second := fun str => decimal_write (timeArguments timer) ⟨0, str, 2, []⟩
    (Nat.lt_trans (Nat.mod_lt _ (by decide)) (by decide)) (argument shows.ss)
  generalize timeArguments timer = args at hour minute second
  have written : timePieces.foldlM (Piece.write args) ⟨0, [], 0, []⟩ =
      some ⟨0, timeText seconds, 3, []⟩ := by
    rw [timePieces, List.foldlM_append, literal_write]
    change (decimalDirective.write args ⟨0, timeLabel, 0, []⟩ >>= fun s =>
      decimalDirective.write args (s.put [chr ':']) >>= fun s =>
        decimalDirective.write args (s.put [chr ':']) >>= some) = _
    rw [hour]
    change (decimalDirective.write args ⟨0, _, 1, []⟩ >>= fun s =>
      decimalDirective.write args (s.put [chr ':']) >>= some) = _
    rw [minute]
    change (decimalDirective.write args ⟨0, _, 2, []⟩ >>= some) = _
    rw [second]
    rfl
  have read := vsprintf_written written
  rw [timePieces_text] at read
  exact ⟨_, read, rfl⟩

theorem numberText_short : ∀ n < 60, (numberText n).length ≤ 2 := by
  intro n small
  rw [numberText_length]
  by_cases zero : n = 0
  · rw [zero]
    decide
  · rcases canonical_length zero with ⟨digits, length, least, _⟩
    have few : digits < 2 := by
      by_contra many
      have hundred := Nat.pow_le_pow_right (show 0 < 10 by decide) (Nat.le_of_not_lt many)
      omega
    omega

theorem timeText_short (seconds : Nat) : (timeText seconds).length ≤ 24 := by
  have hour := numberText_short (seconds / 3600 % 25) (by omega)
  have minute := numberText_short (seconds / 60 % 60) (by omega)
  have second := numberText_short (seconds % 60) (by omega)
  simp only [timeText, List.length_append, List.length_singleton, timeLabel_length]
  omega

/-- No character of the time ends the text. -/
theorem timeText_ne_zero (seconds : Nat) : ∀ c ∈ timeText seconds, c ≠ 0 := by
  have digit_ne : ∀ d < 10, digitText false d ≠ 0 := by decide
  have numberText_ne : ∀ n, ∀ c ∈ numberText n, c ≠ 0 := by
    intro n c member
    rcases List.mem_map.mp member with ⟨d, digit, rfl⟩
    exact digit_ne d (canonical_lt n d digit)
  have colon : ∀ c ∈ [chr ':'], c ≠ 0 := by decide
  intro c member
  unfold timeText at member
  rw [List.mem_append, List.mem_append, List.mem_append, List.mem_append, List.mem_append] at member
  rcases member with ((((label | hour) | colon₁) | minute) | colon₂) | second
  · exact (timeLabel_plain c label).1
  · exact numberText_ne _ c hour
  · exact colon c colon₁
  · exact numberText_ne _ c minute
  · exact colon c colon₂
  · exact numberText_ne _ c second

/-! ## Characters and ticks -/

/-- The characters that came. -/
def chars (events : List Output) : List Byte :=
  events.filterMap fun
    | .char ch => some ch
    | .tick => none

/-- The number of ticks. -/
def ticks (events : List Output) : Nat :=
  events.countP fun
    | .char _ => false
    | .tick => true

/-- The character that the latest time long enough left in a place of the line. -/
def shownAt : Nat → Nat → Option Byte
  | 0, _ => none
  | seconds + 1, i => (timeText (seconds + 1))[i]?.or (shownAt seconds i)

/-- The status line when seconds have begun, over what was there before. -/
def statusCell (before : Byte × Byte) (seconds column : Nat) : Byte × Byte :=
  if seconds = 0 then before
  else ((if 40 ≤ column then shownAt seconds (column - 40) else none).getD before.1, 0x0A)

/-- The display shows a terminal, and the times of the clock. -/
structure Display.Shows (d : Display) (T : Terminal) (n : Nat) (before : Nat → Byte × Byte) :
    Prop where
  terminal : d.console.Shows T
  clock : d.timer.At n
  status : ∀ column < 80, d.console.status column = statusCell (before column) (secondsAt n) column

theorem Display.Shows.char {d : Display} {T T' : Terminal} {n : Nat} {before : Nat → Byte × Byte}
    (shows : d.Shows T n before) {ch : Byte} (room : T.put ch = some T') :
    ∃ d', d.output (.char ch) = some d' ∧ d'.Shows T' n before := by
  refine ⟨_, rfl, shows.terminal.toDraws.putch room, shows.clock, fun column inside => ?_⟩
  exact (shows.terminal.toDraws.putch_status room inside).trans (shows.status column inside)

/-- A new time over an old one. -/
theorem statusCell_succ (before : Byte × Byte) (seconds column : Nat) :
    (if 40 ≤ column ∧ column < 40 + (timeText (seconds + 1)).length then
        (timeText (seconds + 1)).getD (column - 40) 0
      else (statusCell before seconds column).1, 0x0A) =
        statusCell before (seconds + 1) column := by
  have old : (statusCell before seconds column).1 =
      (if 40 ≤ column then shownAt seconds (column - 40) else none).getD before.1 := by
    unfold statusCell
    split
    · rename_i zero
      rw [zero]
      split <;> rfl
    · rfl
  rw [old, statusCell, if_neg (Nat.succ_ne_zero seconds), shownAt]
  refine Prod.ext ?_ rfl
  dsimp only
  by_cases inside : 40 ≤ column
  · rw [if_pos inside, if_pos inside]
    by_cases shown : column < 40 + (timeText (seconds + 1)).length
    · have index : column - 40 < (timeText (seconds + 1)).length := by omega
      rw [if_pos ⟨inside, shown⟩, List.getD_eq_getElem?_getD, List.getElem?_eq_getElem index]
      rfl
    · rw [if_neg fun both => shown both.2, List.getElem?_eq_none (by omega)]
      rfl
  · rw [if_neg fun both => inside both.1, if_neg inside, if_neg inside]

theorem Display.output_tick (d : Display) : d.output .tick =
    if d.timer.Begins then
      (d.console.kprintat 40 24 timeFormat (timeArguments d.timer.tick)).map
        (Display.mk · d.timer.tick)
    else some ⟨d.console, d.timer.tick⟩ := by
  unfold Display.output
  dsimp only
  split
  · cases d.console.kprintat 40 24 timeFormat (timeArguments d.timer.tick) <;> rfl
  · rfl

theorem Display.Shows.tick {d : Display} {T : Terminal} {n : Nat} {before : Nat → Byte × Byte}
    (shows : d.Shows T n before) (small : n + 1 < 2 ^ 31) :
    ∃ d', d.output .tick = some d' ∧ d'.Shows T (n + 1) before := by
  have clock := shows.clock.tick small
  have begins := shows.clock.begins_iff small
  have seconds := secondsAt_succ n
  rw [d.output_tick]
  by_cases begun : d.timer.Begins
  · rw [if_pos (begins.mp begun)] at seconds
    rcases vsprintf_time clock.shows with ⟨s, printed, text⟩
    rw [seconds] at text
    have whole : s.str.takeWhile (· ≠ 0) = timeText (secondsAt n + 1) := by
      rw [text]
      exact List.takeWhile_eq_self_iff.mpr fun c member =>
        decide_eq_true (timeText_ne_zero _ c member)
    have short : (timeText (secondsAt n + 1)).length < 2 ^ 19 :=
      Nat.lt_of_le_of_lt (timeText_short _) (by decide)
    have put : d.console.kprintat 40 24 timeFormat (timeArguments d.timer.tick) =
        some (d.console.puttimer 40 24 (timeText (secondsAt n + 1))) := by
      rw [Console.kprintat, printed, Option.map_some, whole]
    have painted := shows.terminal.puttimer short
    generalize same : timeText (secondsAt n + 1) = line at short put painted
    refine ⟨⟨d.console.puttimer 40 24 line, d.timer.tick⟩, ?_, ?_⟩
    · rw [if_pos begun, put, Option.map_some]
    refine ⟨painted, clock, fun column inside => ?_⟩
    rw [Console.puttimer_status short inside, shows.status column inside, seconds, ← same]
    exact statusCell_succ _ _ _
  · rw [if_neg fun change => begun (begins.mpr change)] at seconds
    refine ⟨⟨d.console, d.timer.tick⟩, ?_, shows.terminal, clock, ?_⟩
    · rw [if_neg begun]
    · rw [seconds]
      exact shows.status

theorem Display.Shows.run {events : List Output} {d : Display} {T T' : Terminal} {n : Nat}
    {before : Nat → Byte × Byte} (shows : d.Shows T n before)
    (taken : T.puts (chars events) = some T') (few : n + ticks events < 2 ^ 31) :
    ∃ d', events.foldlM Display.output d = some d' ∧ d'.Shows T' (n + ticks events) before := by
  induction events generalizing d T n with
  | nil =>
      obtain rfl := Option.some.inj taken
      exact ⟨d, rfl, shows⟩
  | cons event events ih =>
      cases event with
      | char ch =>
          rcases Option.bind_eq_some_iff.mp taken with ⟨next, room, rest⟩
          have same : ticks (.char ch :: events) = ticks events := List.countP_cons_of_neg nofun
          rcases shows.char room with ⟨d₁, put, shows₁⟩
          rcases ih shows₁ rest (same ▸ few) with ⟨d', ran, shows'⟩
          refine ⟨d', ?_, same ▸ shows'⟩
          rw [List.foldlM_cons, put]
          exact ran
      | tick =>
          have more : ticks (.tick :: events) = ticks events + 1 := List.countP_cons_of_pos rfl
          have later : n + ticks (.tick :: events) = n + 1 + ticks events := by
            rw [more]
            omega
          rcases shows.tick (by omega) with ⟨d₁, ticked, shows₁⟩
          rcases ih shows₁ taken (later ▸ few) with ⟨d', ran, shows'⟩
          refine ⟨d', ?_, later ▸ shows'⟩
          rw [List.foldlM_cons, ticked]
          exact ran

/-- Characters and ticks come in any order: the rows show the terminal of the characters alone, and
the status line the times of the ticks alone. -/
theorem text_and_time_apart (c : Console) (events : List Output) (T : Terminal)
    (taken : (Terminal.blank (c.attrib.setWidth 8)).puts (chars events) = some T)
    (few : ticks events < 2 ^ 31) :
    ∃ d, events.foldlM Display.output ⟨c.clearscreen, .zero⟩ = some d ∧ d.console.Shows T ∧
      ∀ column < 80, d.console.status column =
        statusCell (c.status column) (secondsAt (ticks events)) column := by
  have start : Display.Shows ⟨c.clearscreen, .zero⟩ (.blank (c.attrib.setWidth 8)) 0 c.status :=
    ⟨c.clearscreen_shows, Timer.zero_at, fun _ inside => Console.clearscreen_status inside⟩
  rcases start.run taken (by rwa [Nat.zero_add]) with ⟨d, ran, shows⟩
  rw [Nat.zero_add] at shows
  exact ⟨d, ran, shows.terminal, shows.status⟩

/-- The display at boot. -/
def bootDisplay : Console := ⟨fun _ => 0, [], [], 3, 0, 0⟩

/-- A letter between two ticks. -/
theorem text_and_time_apart_letter :
    ∃ T d, [Output.tick, .char 0x61, .tick].foldlM Display.output ⟨bootDisplay.clearscreen, .zero⟩ =
      some d ∧ d.console.Shows T ∧ ∀ column < 80, d.console.status column =
        statusCell (bootDisplay.status column) (secondsAt 2) column :=
  ⟨_, text_and_time_apart bootDisplay [.tick, .char 0x61, .tick] _ rfl (by decide)⟩

/-! ## What is left of earlier times -/

theorem shownAt_eq_none_iff {seconds i : Nat} :
    shownAt seconds i = none ↔ ∀ s, 0 < s → s ≤ seconds → (timeText s).length ≤ i := by
  induction seconds with
  | zero => exact iff_of_true rfl fun s positive below => absurd positive (Nat.not_lt.mpr below)
  | succ seconds ih =>
      rw [shownAt, Option.or_eq_none_iff, List.getElem?_eq_none_iff, ih]
      constructor
      · rintro ⟨last, before⟩ s positive below
        rcases Nat.lt_or_eq_of_le below with earlier | rfl
        · exact before s positive (Nat.le_of_lt_succ earlier)
        · exact last
      · intro all
        exact ⟨all _ (Nat.succ_pos _) (Nat.le_refl _), fun s positive below =>
          all s positive (Nat.le_succ_of_le below)⟩

theorem shownAt_ne_zero {seconds i : Nat} {c : Byte} (shown : shownAt seconds i = some c) :
    c ≠ 0 := by
  induction seconds with
  | zero => cases shown
  | succ seconds ih =>
      rw [shownAt] at shown
      rcases Option.or_eq_some_iff.mp shown with here | ⟨_, before⟩
      · exact timeText_ne_zero _ c (List.mem_of_getElem? here)
      · exact ih before

/-- On a line that was blank the time of the last second stands alone exactly if no second before it
had a longer time. -/
theorem time_alone_iff (before : Nat → Byte × Byte) (blank : ∀ column < 80, (before column).1 = 0)
    (seconds : Nat) (begun : 0 < seconds) :
    (∀ column, 40 ≤ column → column < 80 → (statusCell (before column) seconds column).1 =
      (timeText seconds).getD (column - 40) 0) ↔
        ∀ s, 0 < s → s < seconds → (timeText s).length ≤ (timeText seconds).length := by
  obtain ⟨last, rfl⟩ := Nat.exists_eq_succ_of_ne_zero (Nat.ne_of_gt begun)
  have cell : ∀ column, 40 ≤ column → column < 80 →
      (statusCell (before column) (last + 1) column).1 =
        ((timeText (last + 1))[column - 40]?.or (shownAt last (column - 40))).getD 0 := by
    intro column inside bound
    rw [statusCell, if_neg (Nat.succ_ne_zero last), if_pos inside, blank column bound]
    rfl
  have short := timeText_short (last + 1)
  constructor
  · intro alone
    have rest : shownAt last (timeText (last + 1)).length = none := by
      have here := alone (40 + (timeText (last + 1)).length) (Nat.le_add_right _ _) (by omega)
      rw [cell _ (Nat.le_add_right _ _) (by omega), Nat.add_sub_cancel_left,
        List.getElem?_eq_none (Nat.le_refl _), Option.none_or,
        List.getD_eq_default _ _ (Nat.le_refl _)] at here
      cases shown : shownAt last (timeText (last + 1)).length with
      | none => rfl
      | some c =>
          rw [shown] at here
          exact absurd here (shownAt_ne_zero shown)
    intro s positive below
    exact shownAt_eq_none_iff.mp rest s positive (Nat.le_of_lt_succ below)
  · intro longest column inside bound
    rw [cell column inside bound, List.getD_eq_getElem?_getD]
    by_cases shown : column - 40 < (timeText (last + 1)).length
    · rw [List.getElem?_eq_getElem shown]
      rfl
    · have none : shownAt last (column - 40) = none :=
        shownAt_eq_none_iff.mpr fun s positive below =>
          (longest s positive (Nat.lt_succ_of_le below)).trans (Nat.le_of_not_lt shown)
      rw [List.getElem?_eq_none (Nat.le_of_not_lt shown), none]
      rfl

end Sbrocks.Process
