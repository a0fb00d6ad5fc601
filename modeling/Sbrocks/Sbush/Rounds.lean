import Mathlib.Data.List.GetD
import Sbrocks.Sbush.Lines

/-!
# The rounds over a line

At the beginning of a round the parser has read a part of the line, the words of
which are in the table, and the rest of the line is in the buffer as it was.
-/

namespace Sbrocks.Sbush

open Sbrocks.Libc Sbrocks.Process

/-- Each of some blocks that are added to the heap leaves room for 1024 bytes in its last page. -/
def FitsAll (stop : Nat) : List Nat → Prop
  | [] => True
  | n :: rest => Fits stop n ∧ FitsAll (stop + 24 + n) rest

/-- A line that ends in blanks, and whose words and signs of a pipe the parser can tell apart. -/
structure Readable (text core : Text) : Prop where
  split : ∃ n, text = core ++ List.replicate n blank
  nonzero : (0 : Byte) ∉ text
  short : text.length < maxLen
  ending : ∀ c, core.getLast? = some c → isSpace c = false
  pipes : ∀ c, [bar, c] <:+: text → c = blank
  starts : ∀ c, [blank, c] <:+: text → isSpace c = true → c = blank

/-- A word more in the last command. -/
theorem wordAt_snoc (rows : List (List Text)) (ws : List Text) (w : Text) (k j : Nat) :
    wordAt (rows ++ [ws ++ [w]]) k j =
      if k = rows.length ∧ j = ws.length then some w else wordAt (rows ++ [ws]) k j := by
  unfold wordAt
  rcases Nat.lt_trichotomy k rows.length with before | last | behind
  · rw [if_neg (by omega), List.getD_append _ _ _ _ before, List.getD_append _ _ _ _ before]
  · rw [last, List.getD_append_right _ _ _ _ (Nat.le_refl _),
      List.getD_append_right _ _ _ _ (Nat.le_refl _), Nat.sub_self, List.getD_cons_zero,
      List.getD_cons_zero]
    grind
  · rw [if_neg (by omega), List.getD_eq_default _ _ (by simp; omega),
      List.getD_eq_default _ _ (by simp; omega)]

/-- An empty command more. -/
theorem wordAt_append_nil (commands : List (List Text)) (k j : Nat) :
    wordAt (commands ++ [[]]) k j = wordAt commands k j := by
  unfold wordAt
  by_cases before : k < commands.length
  · rw [List.getD_append _ _ _ _ before]
  · rw [List.getD_append_right _ _ _ _ (by omega), List.getD_eq_default commands _ (by omega)]
    grind

/-- An entry of the table is set. -/
theorem update_entry (commands : Nat → Nat → Word) (a b : Nat) (v : Word) (k j : Nat) :
    Function.update commands a (Function.update (commands a) b v) k j =
      if k = a ∧ j = b then v else commands k j := by
  by_cases row : k = a
  · subst row
    rw [Function.update_self]
    by_cases here : j = b
    · rw [here, Function.update_self, if_pos ⟨rfl, rfl⟩]
    · rw [Function.update_of_ne here, if_neg (by omega)]
  · rw [Function.update_of_ne row, if_neg (by omega)]

/-- The rest of the line is in the buffer as it was, and what follows the line as well. -/
structure Left (old : Line) (text core front r : Text) (line : Line) : Prop where
  content : ∀ j, j < r.length → line (front.length + j) = r.getD j 0
  blanks : ∃ n, core.length + n ≤ text.length ∧ (∀ j < n, line (core.length + j) = blank) ∧
    ∀ x, core.length + n ≤ x → x ≤ text.length → line x = 0
  trimmed : front ≠ [] → ∀ x, core.length ≤ x → x ≤ text.length → line x = 0
  beyond : ∀ x, text.length < x → line x = old x

/-- The beginning of a round: `front` is read, and `r` is left of the line. -/
structure Head (sh₀ : Shell) (text core : Text) (start : Word) (front r : Text)
    (rows : List (List Text)) (ws : List Text) (live : List (Word × Word)) (sh : Shell)
    (at' : Cursor) : Prop where
  split : core = front ++ r
  read : Read front rows ws
  begins : ∀ c, r.head? = some c → isSpace c = false
  src : at'.srcPtr = front.length
  lag : at'.i + rows.length = front.length
  row : sh.cmdcount = rows.length
  arg : at'.argcount = ws.length
  erased : ∀ str, at'.str = some str → ∃ z, str ≤ z ∧ z ≤ front.length ∧ sh.line z = 0
  left : Left sh₀.line text core front r sh.line
  busy : Busy start sh.program live
  fits : FitsAll sh.program.kernel.brkEnd.toNat (wordSizes false r)
  table : ∀ k j, match wordAt (rows ++ [ws]) k j with
    | some w => Kept sh.program live (sh.commands k j) w
    | none => sh.commands k j = sh₀.commands k j

variable {sh₀ sh : Shell} {text core front r w rest : Text} {start : Word}
  {rows : List (List Text)} {ws : List Text} {live : List (Word × Word)} {at' : Cursor}
  {line₁ : Line}

namespace Head

theorem lengths (head : Head sh₀ text core start front r rows ws live sh at')
    (readable : Readable text core) :
    core.length = front.length + r.length ∧ core.length ≤ text.length ∧ text.length < 1024 := by
  rcases readable.split with ⟨n, split⟩
  have short : text.length < 1024 := readable.short
  have whole := congrArg List.length head.split
  have ended := congrArg List.length split
  rw [List.length_append] at whole ended
  omega

/-- What trimming the rest of the line gives. -/
structure Trims (text core front r : Text) (line₁ line₂ : Line) : Prop where
  trimmed : trim line₁ front.length = some line₂
  length : strlen line₂ front.length = some r.length
  string : ∀ j < r.length, line₂ (front.length + j) ≠ 0
  content : ∀ j < r.length, line₂ (front.length + j) = r.getD j 0
  ended : ∀ x, core.length ≤ x → x ≤ text.length → line₂ x = 0
  beyond : ∀ x, text.length < x → line₂ x = line₁ x

/-- The rest of the line is trimmed where it is. -/
theorem trims (head : Head sh₀ text core start front r rows ws live sh at')
    (readable : Readable text core) (more : r ≠ [])
    (same : ∀ x, front.length ≤ x → line₁ x = sh.line x) :
    ∃ line₂, Trims text core front r line₁ line₂ := by
  rcases head.left.blanks with ⟨n, within, blanks, zeros⟩
  rcases head.lengths readable with ⟨whole, _, bound⟩
  have positive : 0 < r.length := List.length_pos_of_ne_nil more
  have content : ∀ j, j < r.length → line₁ (front.length + j) = r.getD j 0 := by
    intro j below
    rw [same _ (by omega)]
    exact head.left.content j below
  have spaces : ∀ j, j < n → line₁ (front.length + (r.length + j)) = blank := by
    intro j below
    rw [same _ (by omega), ← Nat.add_assoc, ← whole]
    exact blanks j below
  have string : ∀ j < r.length + n, line₁ (front.length + j) ≠ 0 := by
    intro j below
    by_cases inside : j < r.length
    · rw [content j inside, List.getD_eq_getElem r 0 inside]
      intro zero
      have listed : (0 : Byte) ∈ r := zero ▸ List.getElem_mem inside
      rcases readable.split with ⟨m, split⟩
      apply readable.nonzero
      rw [split, head.split]
      exact List.mem_append_left _ (List.mem_append_right _ listed)
    · have place : front.length + j = front.length + (r.length + (j - r.length)) := by omega
      rw [place, spaces _ (by omega)]
      decide
  have ends : line₁ (front.length + (r.length + n)) = 0 := by
    rw [same _ (by omega), ← Nat.add_assoc, ← whole]
    exact zeros _ (Nat.le_refl _) within
  have begins : isSpace (line₁ front.length) = false := by
    have first := content 0 positive
    rw [Nat.add_zero, List.getD_eq_getElem r 0 positive] at first
    rw [first]
    exact head.begins _ (List.head?_eq_getElem? ▸ List.getElem?_eq_getElem positive)
  have last : isSpace (line₁ (front.length + r.length - 1)) = false := by
    have place : front.length + r.length - 1 = front.length + (r.length - 1) := by omega
    have inside : r.length - 1 < r.length := by omega
    rw [place, content _ inside, List.getD_eq_getElem r 0 inside]
    apply readable.ending
    rw [head.split, List.getLast?_append_of_ne_nil _ more, List.getLast?_eq_getElem?]
    exact List.getElem?_eq_getElem inside
  have room : r.length + n < lineRounds := by
    unfold lineRounds
    omega
  have spaced : ∀ j, front.length + r.length ≤ j → j < front.length + r.length + n →
      isSpace (line₁ j) = true := by
    intro j low high
    have place : j = front.length + (r.length + (j - front.length - r.length)) := by omega
    rw [place, spaces _ (by omega)]
    rfl
  have ended : ∀ x, core.length ≤ x → x ≤ text.length →
      (if front.length + r.length ≤ x ∧ x < front.length + r.length + n then 0 else line₁ x) =
        0 := by
    intro x low high
    split
    · rfl
    · rw [same x (by omega)]
      exact zeros x (by omega) high
  refine ⟨_, trim_eq string ends room begins spaced last positive, ?_, ?_, ?_, ended, ?_⟩
  · apply strlen_eq
    · intro j below
      rw [if_neg (by omega)]
      exact string j (by omega)
    · exact ended _ (by omega) (by omega)
    · omega
  · intro j below
    rw [if_neg (by omega)]
    exact string j (by omega)
  · intro j below
    rw [if_neg (by omega)]
    exact content j below
  · intro x beyond
    exact if_neg (by omega)

/-- What the entry of a word in the table gives. -/
structure Enters (sh₀ : Shell) (start : Word) (rows : List (List Text)) (ws : List Text) (w : Text)
    (whole : Prop) (sh sh₁ : Shell) (size : Nat) (live' : List (Word × Word)) : Prop where
  row : sh₁.cmdcount = sh.cmdcount
  stop : sh₁.program.kernel.brkEnd.toNat = sh.program.kernel.brkEnd.toNat + 24 + size
  busy : Busy start sh₁.program live'
  filled : Filled (rows ++ [ws ++ [w]]) sh₀.commands sh₁
  table : ¬whole → ∀ k j, match wordAt (rows ++ [ws ++ [w]]) k j with
    | some w => Kept sh₁.program live' (sh₁.commands k j) w
    | none => sh₁.commands k j = sh₀.commands k j

/-- A word that is not the last one is copied, and so is the last one. -/
theorem enters (head : Head sh₀ text core start front r rows ws live sh at')
    (readable : Readable text core) {line₂ : Line} (trims : Trims text core front r line₁ line₂)
    (split : r = w ++ rest) (nonempty : w ≠ [])
    (place : rows.length < maxCmd ∧ ws.length < maxArgCount) {count : Nat}
    (counted : count = w.length ∨ rest = [] ∧ w.length ≤ count) (few : count ≤ 1024)
    (fits : Fits sh.program.kernel.brkEnd.toNat r.length) :
    ∃ sh₁ live', Shell.addWord { sh with line := line₁ } at'.argcount at'.srcPtr count =
        .next ({ sh₁ with line := line₂ }, ws.length + 1) ∧
      Enters sh₀ start rows ws w (rest = []) sh sh₁ r.length live' := by
  have positive : 0 < w.length := List.length_pos_of_ne_nil nonempty
  have lengths : r.length = w.length + rest.length := by rw [split, List.length_append]
  rcases head.lengths readable with ⟨whole, bound, short⟩
  have ends : line₂ (front.length + r.length) = 0 := trims.ended _ (by omega) (by omega)
  have content : ∀ j ≤ w.length,
      (if j < count then line₂ (front.length + min j r.length) else 0) = w.getD j 0 := by
    intro j within
    by_cases inside : j < w.length
    · rw [if_pos (by omega), Nat.min_eq_left (by omega), trims.content j (by omega), split,
        List.getD_append _ _ _ _ inside]
    · have last : j = w.length := by omega
      rw [List.getD_eq_default _ _ (by omega)]
      split
      · rename_i more
        have empty : rest.length = 0 := by
          rcases counted with exact' | ⟨none, _⟩
          · omega
          · rw [none]
            rfl
        rw [Nat.min_eq_left (by omega), last, ← ends]
        congr 1
        omega
      · rfl
  rcases head.busy.copies (by omega) fits few trims.string ends (by omega) content with ⟨p', copies⟩
  have added : Shell.addWord { sh with line := line₁ } ws.length front.length count =
      .next (_, ws.length + 1) :=
    addWord_copied trims.trimmed trims.length ⟨by omega, by omega⟩ (by rw [head.row]; exact place)
      copies
  rw [head.arg, head.src]
  let ptr := sh.program.kernel.brkEnd + memBlockSize
  let table := Function.update sh.commands sh.cmdcount
    (Function.update (sh.commands sh.cmdcount) ws.length ptr)
  have entry : ∀ k j, table k j = if k = rows.length ∧ j = ws.length then ptr else sh.commands k j := by
    intro k j
    rw [← head.row]
    exact update_entry ..
  refine ⟨{ sh with program := p', commands := table }, _, added, rfl, copies.stop, copies.busy, ?_, ?_⟩
  · intro k j
    have old := head.table k j
    change match wordAt (rows ++ [ws ++ [w]]) k j with
      | some w => Holds p' (table k j) w
      | none => table k j = sh₀.commands k j
    rw [wordAt_snoc, entry]
    by_cases here : k = rows.length ∧ j = ws.length
    · rw [if_pos here, if_pos here]
      exact copies.holds
    · rw [if_neg here, if_neg here]
      cases entered : wordAt (rows ++ [ws]) k j with
      | none =>
          rw [entered] at old
          exact old
      | some w' =>
          rw [entered] at old
          exact copies.kept _ _ old
  · intro more k j
    have old := head.table k j
    change match wordAt (rows ++ [ws ++ [w]]) k j with
      | some w => Kept p' _ (table k j) w
      | none => table k j = sh₀.commands k j
    rw [wordAt_snoc, entry]
    by_cases here : k = rows.length ∧ j = ws.length
    · rw [if_pos here, if_pos here]
      refine ⟨copies.holds, _, List.mem_cons_self, ?_⟩
      have longer := List.length_pos_of_ne_nil more
      rw [BitVec.toNat_ofNat]
      omega
    · rw [if_neg here, if_neg here]
      cases entered : wordAt (rows ++ [ws]) k j with
      | none =>
          rw [entered] at old
          exact old
      | some w' =>
          rw [entered] at old
          rcases old.2 with ⟨n, given, room⟩
          exact ⟨copies.kept _ _ old, n, List.mem_cons_of_mem _ given, room⟩

/-- What the words and signs of a pipe up to a place of the line give. -/
structure EntersMore (sh₀ : Shell) (start : Word) (rows : List (List Text)) (ws : List Text)
    (sh sh₁ : Shell) (sizes : List Nat) (live' : List (Word × Word)) : Prop where
  row : sh₁.cmdcount = sh.cmdcount
  busy : Busy start sh₁.program live'
  fits : FitsAll sh₁.program.kernel.brkEnd.toNat sizes
  table : ∀ k j, match wordAt (rows ++ [ws]) k j with
    | some w => Kept sh₁.program live' (sh₁.commands k j) w
    | none => sh₁.commands k j = sh₀.commands k j

/-- The word before a separator, if only an empty one, is entered. -/
theorem entersMore (head : Head sh₀ text core start front r rows ws live sh at')
    (readable : Readable text core) {line₂ : Line} (trims : Trims text core front r line₁ line₂)
    (split : r = w ++ rest) (plain : ∀ c ∈ w, ¬Separates c) {c : Byte}
    (separates : rest.head? = some c ∧ Separates c)
    (place : w ≠ [] → rows.length < maxCmd ∧ ws.length < maxArgCount) :
    ∃ sh₁ live', Shell.addWord { sh with line := line₁ } at'.argcount at'.srcPtr w.length =
        .next ({ sh₁ with line := line₂ }, (ws ++ words w).length) ∧
      EntersMore sh₀ start rows (ws ++ words w) sh sh₁ (wordSizes true rest) live' := by
  have more : rest ≠ [] := by
    rintro rfl
    cases separates.1
  by_cases nonempty : w = []
  · subst nonempty
    refine ⟨sh, live, ?_, rfl, head.busy, ?_, ?_⟩
    · rw [head.arg, head.src, words_nil, List.append_nil]
      exact addWord_empty trims.trimmed trims.length (by simp)
    · have fits := head.fits
      rw [split, List.nil_append] at fits
      cases rest with
      | nil => cases separates.1
      | cons d rest =>
          cases separates.1
          rw [wordSizes_separator _ separates.2] at fits ⊢
          exact fits
    · rw [words_nil, List.append_nil]
      exact head.table
  · have blankless : blank ∉ w := fun member => plain _ member (.inl rfl)
    have fits := head.fits
    rw [split, wordSizes_word nonempty plain, ← split] at fits
    rcases head.lengths readable with ⟨whole, bound, short⟩
    have lengths : r.length = w.length + rest.length := by rw [split, List.length_append]
    rcases head.enters readable trims split nonempty (place nonempty) (.inl rfl) (by omega) fits.1
      with
      ⟨sh₁, live', added, entered⟩
    rw [words_word nonempty blankless]
    refine ⟨sh₁, live', ?_, entered.row, entered.busy, ?_, entered.table more⟩
    · rw [List.length_append]
      exact added
    · rw [entered.stop]
      exact fits.2

/-- More of the line is read, and only what was read is changed. -/
theorem Trims.left {line₂ line₃ : Line} {a r' : Text} (trims : Trims text core front r line₁ line₂)
    (whole : core.length = front.length + r.length) (within : core.length ≤ text.length)
    (split : r = a ++ r') (same : ∀ x, (front ++ a).length ≤ x → line₃ x = line₂ x)
    (beyond : ∀ x, text.length < x → line₁ x = sh₀.line x) :
    Left sh₀.line text core (front ++ a) r' line₃ := by
  have lengths : r.length = a.length + r'.length := by rw [split, List.length_append]
  have behind : (front ++ a).length = front.length + a.length := List.length_append
  have ended : ∀ x, core.length ≤ x → x ≤ text.length → line₃ x = 0 := by
    intro x low high
    rw [same x (by omega)]
    exact trims.ended x low high
  refine ⟨fun j below => ?_, ⟨0, within, fun j below => absurd below (Nat.not_lt_zero j), ended⟩,
    fun _ => ended, fun x far => ?_⟩
  · rw [same _ (by omega), behind, Nat.add_assoc, trims.content _ (by omega), split,
      List.getD_append_right _ _ _ _ (by omega), Nat.add_sub_cancel_left]
  · rw [same x (by omega), trims.beyond x far, beyond x far]

/-- How a round begins: the last word is erased, and the rest of the line is trimmed. -/
theorem opens (head : Head sh₀ text core start front r rows ws live sh at')
    (readable : Readable text core) (more : r ≠ []) :
    ∃ line₁ line₂, eraseLast sh.line at'.str = some line₁ ∧
      (∀ x, front.length ≤ x → line₁ x = sh.line x) ∧ Trims text core front r line₁ line₂ := by
  rcases head.lengths readable with ⟨whole, within, bound⟩
  have far : front.length < lineRounds := by
    unfold lineRounds
    omega
  rcases eraseLast_eq head.erased far with ⟨line₁, erased, same⟩
  rcases head.trims readable more same with ⟨line₂, trims⟩
  exact ⟨line₁, line₂, erased, same, trims⟩

/-- The bytes of the rest of the line. -/
theorem byteAt (head : Head sh₀ text core start front r rows ws live sh at')
    (same : ∀ x, front.length ≤ x → line₁ x = sh.line x) {j : Nat} {c : Byte} (here : r[j]? = some c) :
    line₁ (front.length + j) = c := by
  rcases List.getElem?_eq_some_iff.mp here with ⟨inside, content⟩
  rw [same _ (by omega), head.left.content j inside, List.getD_eq_getElem r 0 inside, content]

/-- The loop over a word stops at the separator behind it. -/
theorem counts (head : Head sh₀ text core start front r rows ws live sh at')
    (readable : Readable text core) (same : ∀ x, front.length ≤ x → line₁ x = sh.line x) {c : Byte}
    (split : r = w ++ c :: rest) (plain : ∀ d ∈ w, ¬Separates d) (separates : Separates c) :
    wordLength line₁ at'.srcPtr (text.length - at'.i) = w.length ∧
      line₁ (at'.srcPtr + w.length) = c := by
  rcases head.lengths readable with ⟨whole, within, bound⟩
  have lengths : r.length = w.length + (rest.length + 1) := by
    rw [split, List.length_append, List.length_cons]
  have lag := head.lag
  have inWord : ∀ j < w.length, r[j]? = w[j]? := by
    intro j below
    rw [split, List.getElem?_append_left below]
  have first : r[w.length]? = some c := by
    rw [split, List.getElem?_append_right (Nat.le_refl _), Nat.sub_self]
    rfl
  have stop : line₁ (at'.srcPtr + w.length) = c := by
    rw [head.src, head.byteAt same first]
  refine ⟨wordLength_eq (fun j below => ?_) (by rw [stop]; exact separates) (by omega), stop⟩
  rw [head.src, head.byteAt same (by rw [inWord j below]; exact List.getElem?_eq_getElem below)]
  exact not_or.mp (plain _ (List.getElem_mem below))

/-- A round that ends at a blank reads a word and the blanks behind it. -/
theorem blankRound (head : Head sh₀ text core start front r rows ws live sh at')
    (readable : Readable text core) {u : Nat} {r' : Text}
    (split : r = w ++ (List.replicate (u + 1) blank ++ r')) (plain : ∀ c ∈ w, ¬Separates c)
    {c : Byte} (next : r'.head? = some c) (other : c ≠ blank) (begins : isSpace c = false)
    (place : w ≠ [] → rows.length < maxCmd ∧ ws.length < maxArgCount) :
    ∃ sh' at'' live', sh.parseRound text.length at' = .next (sh', at'') ∧
      Head sh₀ text core start (front ++ (w ++ List.replicate (u + 1) blank)) r' rows
        (ws ++ words w) live' sh' at'' := by
  rcases head.lengths readable with ⟨whole, within, bound⟩
  have lengths : r.length = w.length + (u + 1) + r'.length := by
    rw [split, List.length_append, List.length_append, List.length_replicate]
    omega
  have more : r ≠ [] := by
    rintro rfl
    rw [List.length_nil] at lengths
    omega
  have lag := head.lag
  rcases head.opens readable more with ⟨line₁, line₂, erased, same, trims⟩
  rcases head.counts readable same split plain (.inl rfl) with ⟨counted, first⟩
  have unpiped : line₁ (at'.srcPtr + w.length) ≠ bar := by
    rw [first]
    decide
  rcases head.entersMore readable trims split plain (c := blank) ⟨rfl, .inl rfl⟩ place with
    ⟨sh₁, live', added, entered⟩
  have ran := parseRound_plain erased counted unpiped added
  have blanks : ∀ j < u + 1, line₂ (at'.srcPtr + w.length + j) = blank := by
    intro j below
    rw [head.src, Nat.add_assoc, trims.content _ (by omega), split,
      List.getD_append_right _ _ _ _ (by omega), Nat.add_sub_cancel_left,
      List.getD_append _ _ _ _ (by rw [List.length_replicate]; exact below),
      List.getD_replicate _ below]
  have ends : line₂ (at'.srcPtr + w.length + (u + 1)) ≠ blank := by
    cases r' with
    | nil => cases next
    | cons d r' =>
        cases next
        rw [List.length_cons] at lengths
        have place : at'.srcPtr + w.length + (u + 1) = front.length + (w.length + (u + 1)) := by
          rw [head.src, Nat.add_assoc]
        rw [place, trims.content _ (by omega), split, List.getD_append_right _ _ _ _ (by omega),
          Nat.add_sub_cancel_left, List.getD_append_right _ _ _ _ (by simp), List.length_replicate,
          Nat.sub_self]
        exact other
  have skipped := skipBlanks_eq blanks ends (n := text.length - (at'.i + w.length)) (by omega)
  dsimp only at ran
  generalize skipBlanks line₂ (at'.srcPtr + w.length) (text.length - (at'.i + w.length)) = skip
    at ran skipped
  rcases skip with ⟨line₃, k⟩
  rcases skipped with ⟨length, cleared⟩
  dsimp only at length ran cleared
  subst length
  rw [head.src] at cleared
  have passed : (front ++ (w ++ List.replicate (u + 1) blank)).length =
      front.length + w.length + (u + 1) := by
    rw [List.length_append, List.length_append, List.length_replicate, Nat.add_assoc]
  refine ⟨_, _, live', ran, ?_⟩
  exact {
    split := by rw [head.split, split]; simp
    read := by
      have parts : front ++ (w ++ List.replicate (u + 1) blank) =
          front ++ w ++ [blank] ++ List.replicate u blank := by simp [List.replicate_succ]
      rw [parts]
      exact (head.read.toBlank fun sign => plain _ sign (.inr rfl)).blanks u
    begins := fun d found => by
      rw [next] at found
      cases found
      exact begins
    src := by rw [passed, head.src]
    lag := by rw [passed]; dsimp only; omega
    row := entered.row.trans head.row
    arg := rfl
    erased := by
      rintro str ⟨⟩
      refine ⟨front.length + w.length, by rw [head.src]; omega, by omega, ?_⟩
      exact (cleared _).trans (if_pos (by omega))
    left := by
      refine trims.left whole within (by rw [split, List.append_assoc]) (fun x behind => ?_)
        fun x far => ?_
      · rw [passed] at behind
        exact (cleared x).trans (if_neg (by omega))
      · rw [same x (by omega), head.left.beyond x far]
    busy := entered.busy
    fits := by
      have fits := entered.fits
      rw [List.replicate_succ, List.cons_append, wordSizes_separator _ (.inl rfl),
        wordSizes_blanks] at fits
      exact fits
    table := entered.table }

/-- A round that ends at the sign of a pipe reads a word, the sign and the blanks behind it. -/
theorem pipeRound (head : Head sh₀ text core start front r rows ws live sh at')
    (readable : Readable text core) {u : Nat} {r' : Text}
    (split : r = w ++ bar :: (List.replicate u blank ++ r')) (plain : ∀ c ∈ w, ¬Separates c)
    (other : r'.head? ≠ some blank) (begins : ∀ c, r'.head? = some c → isSpace c = false)
    (place : w ≠ [] → rows.length < maxCmd ∧ ws.length < maxArgCount) :
    (u = 0 → r' = []) →
    ∃ sh' at'' live', sh.parseRound text.length at' = .next (sh', at'') ∧
      Head sh₀ text core start (front ++ (w ++ bar :: List.replicate u blank)) r'
        (rows ++ [ws ++ words w]) [] live' sh' at'' := by
  intro spaced
  rcases head.lengths readable with ⟨whole, within, bound⟩
  have lengths : r.length = w.length + 1 + u + r'.length := by
    rw [split, List.length_append, List.length_cons, List.length_append, List.length_replicate]
    omega
  have more : r ≠ [] := by
    rintro rfl
    rw [List.length_nil] at lengths
    omega
  have lag := head.lag
  rcases head.opens readable more with ⟨line₁, line₂, erased, same, trims⟩
  rcases head.counts readable same split plain (.inr rfl) with ⟨counted, piped⟩
  rcases head.entersMore readable trims split plain (c := bar) ⟨rfl, .inr rfl⟩ place with
    ⟨sh₁, live', added, entered⟩
  have ran := parseRound_piped erased counted piped added
  have content : ∀ j, j < u + r'.length →
      line₂ (at'.srcPtr + w.length + 1 + j) = (List.replicate u blank ++ r').getD j 0 := by
    intro j below
    have index : w.length + 1 + j - w.length = j + 1 := by omega
    rw [head.src, Nat.add_assoc, Nat.add_assoc, ← Nat.add_assoc w.length,
      trims.content _ (by omega), split, List.getD_append_right _ _ _ _ (by omega), index,
      List.getD_cons_succ]
  have blanks : ∀ j < u, line₂ (at'.srcPtr + w.length + 1 + j) = blank := by
    intro j below
    rw [content j (by omega), List.getD_append _ _ _ _ (by rw [List.length_replicate]; exact below),
      List.getD_replicate _ below]
  have ends : line₂ (at'.srcPtr + w.length + 1 + u) ≠ blank := by
    cases r' with
    | nil =>
        rw [List.length_nil] at lengths
        rw [head.src, trims.ended _ (by omega) (by omega)]
        decide
    | cons d r' =>
        rw [content u (by rw [List.length_cons]; omega),
          List.getD_append_right _ _ _ _ (by simp), List.length_replicate, Nat.sub_self]
        exact fun same => other (congrArg some same)
  have skipped := skipBlanks_eq blanks ends (n := text.length - (at'.i + w.length)) (by omega)
  dsimp only at ran
  generalize skipBlanks line₂ (at'.srcPtr + w.length + 1) (text.length - (at'.i + w.length)) = skip
    at ran skipped
  rcases skip with ⟨line₃, k⟩
  rcases skipped with ⟨length, cleared⟩
  dsimp only at length ran cleared
  subst length
  rw [head.src] at cleared
  have passed : (front ++ (w ++ bar :: List.replicate k blank)).length =
      front.length + w.length + 1 + k := by
    rw [List.length_append, List.length_append, List.length_cons, List.length_replicate]
    omega
  refine ⟨_, _, live', ran, ?_⟩
  exact {
    split := by rw [head.split, split]; simp
    read := by
      have parts : front ++ (w ++ bar :: List.replicate k blank) =
          front ++ w ++ [bar] ++ List.replicate k blank := by simp
      rw [parts]
      exact (head.read.toBar fun sign => plain _ sign (.inr rfl)).blanks k
    begins := begins
    src := by rw [passed, head.src]
    lag := by rw [passed, List.length_append, List.length_singleton]; dsimp only; omega
    row := by
      rw [List.length_append, List.length_singleton, ← head.row, ← entered.row]
    arg := rfl
    erased := by
      rintro str ⟨⟩
      refine ⟨front.length + w.length + 1, by rw [head.src]; omega, by omega, ?_⟩
      by_cases none : k = 0
      · have empty := spaced none
        rw [empty, List.length_nil] at lengths
        refine (cleared _).trans ((if_neg (by omega)).trans ?_)
        exact trims.ended _ (by omega) (by omega)
      · exact (cleared _).trans (if_pos (by omega))
    left := by
      refine trims.left whole within (by rw [split]; simp) (fun x behind => ?_) fun x far => ?_
      · rw [passed] at behind
        exact (cleared x).trans (if_neg (by omega))
      · rw [same x (by omega), head.left.beyond x far]
    busy := entered.busy
    fits := by
      have fits := entered.fits
      rw [wordSizes_separator _ (.inr rfl), wordSizes_blanks] at fits
      exact fits
    table := by
      intro k j
      rw [wordAt_append_nil]
      exact entered.table k j }

end Head

/-- Behind the line, in the bytes that the parser looks at, there is no sign of a pipe and no
word behind a blank. -/
structure Trailing (line : Line) (len pipes : Nat) : Prop where
  ends : line len = 0
  bars : ∀ x, len < x → x ≤ len + pipes → line x = bar → x = len + pipes ∧ line (x - 1) = blank
  words : ∀ x, len < x → x + 1 < len + pipes → line x = blank →
    line (x + 1) = blank ∨ line (x + 1) = 0

/-- Only what is before the rest of the line was changed. -/
theorem Left.congr {old line : Line} (left : Left old text core front r line)
    (whole : core.length = front.length + r.length)
    (same : ∀ x, front.length ≤ x → line₁ x = line x) : Left old text core front r line₁ := by
  rcases left.blanks with ⟨n, inside, blanks, zeros⟩
  refine ⟨fun j below => ?_, ⟨n, inside, fun j below => ?_, fun x low high => ?_⟩,
    fun begun x low high => ?_, fun x far => ?_⟩
  · rw [same _ (by omega), left.content j below]
  · rw [same _ (by omega), blanks j below]
  · rw [same x (by omega), zeros x low high]
  · rw [same x (by omega), left.trimmed begun x low high]
  · rw [same x (by omega), left.beyond x far]

/-- Behind the text of the line the buffer is idle. -/
theorem Left.idle {old line : Line} {pipes : Nat} (left : Left old text core front r line)
    (within : core.length ≤ text.length) (trailing : Trailing old text.length pipes) :
    Idle line core.length (text.length + pipes) := by
  rcases left.blanks with ⟨n, inside, blanks, zeros⟩
  have blankAt : ∀ x, core.length ≤ x → x < core.length + n → line x = blank := by
    intro x low high
    have place : x = core.length + (x - core.length) := by omega
    rw [place]
    exact blanks _ (by omega)
  constructor
  · intro x low high sign
    by_cases far : text.length < x
    · rw [left.beyond x far] at sign
      rcases trailing.bars x far high sign with ⟨last, before⟩
      refine ⟨last, by omega, ?_⟩
      by_cases first : x - 1 = text.length
      · rw [first, trailing.ends] at before
        cases before
      · rw [left.beyond _ (by omega)]
        exact before
    · by_cases cut : x < core.length + n
      · rw [blankAt x low cut] at sign
        cases sign
      · rw [zeros x (by omega) (by omega)] at sign
        cases sign
  · intro x low high here
    by_cases far : text.length < x
    · rw [left.beyond x far] at here
      rw [left.beyond _ (by omega)]
      exact trailing.words x far high here
    · by_cases cut : x < core.length + n
      · by_cases more : x + 1 < core.length + n
        · exact .inl (blankAt _ (by omega) more)
        · exact .inr (zeros _ (by omega) (by omega))
      · rw [zeros x (by omega) (by omega)] at here
        cases here

namespace Head

/-- The round that reads the last word of the line. -/
theorem lastRound (head : Head sh₀ text core start front w rows ws live sh at')
    (readable : Readable text core) (trailing : Trailing sh₀.line text.length rows.length)
    (plain : ∀ c ∈ w, ¬Separates c) (nonempty : w ≠ [])
    (place : rows.length < maxCmd ∧ ws.length < maxArgCount) :
    ∃ sh' at'', sh.parseRound text.length at' = .next (sh', at'') ∧
      Behind sh'.line text.length at'' ∧ at''.srcPtr = at''.i + rows.length ∧
      sh'.cmdcount = rows.length ∧ Filled (rows ++ [ws ++ [w]]) sh₀.commands sh' := by
  rcases head.lengths readable with ⟨whole, within, bound⟩
  have positive := List.length_pos_of_ne_nil nonempty
  have lag := head.lag
  rcases head.opens readable nonempty with ⟨line₁, line₂, erased, same, trims⟩
  have idle := (head.left.congr whole same).idle within trailing
  have word : ∀ x, front.length ≤ x → x < core.length → line₁ x ≠ blank ∧ line₁ x ≠ bar := by
    intro x low high
    have inside : x - front.length < w.length := by omega
    have here := head.byteAt same (List.getElem?_eq_getElem inside)
    rw [Nat.add_sub_cancel' low] at here
    rw [here]
    exact not_or.mp (plain _ (List.getElem_mem inside))
  have cut : ∀ x, core.length ≤ x → line₂ x = line₁ x ∨ line₂ x = 0 := by
    intro x low
    by_cases far : text.length < x
    · exact .inl (trims.beyond x far)
    · exact .inr (trims.ended x low (by omega))
  have scan := idle.scan (by omega) (by omega) word
  have skip := idle.skip (by omega) (by omega) word cut
  have budget : text.length + rows.length - front.length = text.length - at'.i := by omega
  rw [budget] at scan skip
  rcases wordLength_spec line₁ front.length (text.length - at'.i) with ⟨short, _, _⟩
  rw [← head.src] at scan skip short
  generalize counted : wordLength line₁ at'.srcPtr (text.length - at'.i) = c at scan skip short
  have split : w = w ++ [] := (List.append_nil w).symm
  have fits := head.fits
  rw [split, wordSizes_word nonempty plain, ← split] at fits
  have src := head.src
  have long : c = w.length ∨ ([] : Text) = [] ∧ w.length ≤ c := .inr ⟨rfl, by omega⟩
  rcases head.enters readable trims split nonempty place long (by omega) fits.1 with
    ⟨sh₁, live', added, entered⟩
  have ran := parseRound_plain erased counted scan.2 added
  rcases skipBlanks_spec line₂ (at'.srcPtr + c) (text.length - (at'.i + c)) with ⟨_, _, _, cleared⟩
  have rest : text.length - at'.i - c = text.length - (at'.i + c) := Nat.sub_sub ..
  dsimp only at skip ran
  rw [rest] at skip
  generalize skipBlanks line₂ (at'.srcPtr + c) (text.length - (at'.i + c)) = skipped
    at skip cleared ran
  rcases skipped with ⟨line₃, k⟩
  dsimp only at skip cleared ran
  have kept : ∀ x, at'.srcPtr + c + k ≤ x → line₃ x = line₂ x := by
    intro x low
    rw [cleared, if_neg (by omega)]
  have idle₂ : Idle line₂ core.length (text.length + rows.length) := by
    have left₂ := trims.left whole within split (fun x _ => rfl) fun x far =>
      (same x (by omega)).trans (head.left.beyond x far)
    exact left₂.idle within trailing
  have whereTo : at'.srcPtr + c + k + (text.length - (at'.i + c + k)) =
      text.length + rows.length ∨ text.length ≤ at'.i + c + k := by omega
  refine ⟨_, _, ran, ⟨fun more => ?_, fun more => ?_, ?_⟩, by dsimp only; omega,
    entered.row.trans head.row, entered.filled⟩
  · dsimp only at more ⊢
    rw [whereTo.resolve_right (by omega)]
    exact idle₂.later (by omega) (by omega) kept
  · dsimp only at more ⊢
    rw [kept _ (Nat.le_refl _)]
    exact skip (by omega)
  · rintro str ⟨⟩
    refine ⟨core.length, by omega, by dsimp only; omega, ?_⟩
    have zero := trims.ended core.length (Nat.le_refl _) within
    change line₃ core.length = 0
    rw [cleared]
    split
    · rfl
    · exact zero

/-- The table has room for the commands of a line. -/
def Roomy (text : Text) : Prop :=
  ∀ k ws, (commandsOf text)[k]? = some ws → k < maxCmd ∧ ws.length < maxArgCount

/-- What the loop leaves behind. -/
def Parsed (sh₀ : Shell) (text : Text) (sh' : Shell) : Prop :=
  sh'.cmdcount + 1 = (commandsOf text).length ∧ Filled (commandsOf text) sh₀.commands sh'

/-- What is left of the line, blanks included, follows what was read. -/
theorem whole (head : Head sh₀ text core start front r rows ws live sh at')
    (readable : Readable text core) : ∃ n, text = front ++ (r ++ List.replicate n blank) := by
  rcases readable.split with ⟨n, split⟩
  exact ⟨n, by rw [split, head.split, List.append_assoc]⟩

/-- The table has room for a word that is read. -/
theorem place (head : Head sh₀ text core start front r rows ws live sh at')
    (readable : Readable text core) (roomy : Roomy text) (split : r = w ++ rest)
    (plain : ∀ c ∈ w, ¬Separates c) (ends : ∀ c, rest.head? = some c → Separates c)
    (nonempty : w ≠ []) : rows.length < maxCmd ∧ ws.length < maxArgCount := by
  rcases head.whole readable with ⟨n, whole⟩
  have ends' : ∀ c, (rest ++ List.replicate n blank).head? = some c → Separates c := by
    intro c found
    cases rest with
    | nil =>
        cases n with
        | zero => cases found
        | succ n =>
            cases found
            exact .inl rfl
    | cons d rest => exact ends c found
  rcases head.read.has_word nonempty plain ends' with ⟨more, rows', commands⟩
  have text' : front ++ (w ++ (rest ++ List.replicate n blank)) = text := by
    rw [whole, split, List.append_assoc]
  rw [text'] at commands
  have row := roomy rows.length (ws ++ w :: more) (by rw [commands]; simp)
  rw [List.length_append, List.length_cons] at row
  exact ⟨row.1, by omega⟩

/-- What follows blanks in the line is a text, a sign of a pipe included. -/
theorem after_blanks (head : Head sh₀ text core start front r rows ws live sh at')
    (readable : Readable text core) {u : Nat} {a r' : Text} {c : Byte}
    (split : r = a ++ (List.replicate (u + 1) blank ++ r')) (next : r'.head? = some c)
    (other : c ≠ blank) : isSpace c = false := by
  rcases head.whole readable with ⟨n, whole⟩
  rcases r' with _ | ⟨d, r'⟩
  · cases next
  · cases next
    by_contra space
    apply other
    apply readable.starts c _ (by simpa using space)
    refine ⟨front ++ a ++ List.replicate u blank, r' ++ List.replicate n blank, ?_⟩
    rw [whole, split, List.replicate_succ']
    simp

/-- Right behind a sign of a pipe there is a blank. -/
theorem after_pipe (head : Head sh₀ text core start front r rows ws live sh at')
    (readable : Readable text core) {a r' : Text} {c : Byte} (split : r = a ++ bar :: c :: r') :
    c = blank := by
  rcases head.whole readable with ⟨n, whole⟩
  apply readable.pipes c
  refine ⟨front ++ a, r' ++ List.replicate n blank, ?_⟩
  rw [whole, split]
  simp

/-- The line does not end in a blank. -/
theorem not_blanks (head : Head sh₀ text core start front r rows ws live sh at')
    (readable : Readable text core) {u : Nat} {a : Text}
    (split : r = a ++ List.replicate (u + 1) blank) : False := by
  have last := readable.ending blank
  rw [head.split, split, List.replicate_succ', ← List.append_assoc, ← List.append_assoc,
    List.getLast?_concat] at last
  cases last rfl

/-- The commands of a line whose text is read. -/
theorem commands_eq (head : Head sh₀ text core start front w rows ws live sh at')
    (readable : Readable text core) (plain : ∀ c ∈ w, ¬Separates c) :
    commandsOf text = rows ++ [ws ++ words w] := by
  rcases head.whole readable with ⟨n, whole⟩
  have unpiped : bar ∉ w ++ List.replicate n blank := by
    intro member
    rcases List.mem_append.mp member with inWord | inBlanks
    · exact plain _ inWord (.inr rfl)
    · cases List.eq_of_mem_replicate inBlanks
  rw [whole, head.read.more unpiped, words_blanks]

/-- The loop goes on behind the line when its text is read. -/
theorem behind (head : Head sh₀ text core start front [] rows ws live sh at')
    (readable : Readable text core) (trailing : Trailing sh₀.line text.length rows.length)
    (begun : front ≠ []) : Behind sh.line text.length at' := by
  rcases head.lengths readable with ⟨whole, within, bound⟩
  rw [List.length_nil, Nat.add_zero] at whole
  have lag := head.lag
  have stop : front.length + (text.length - at'.i) = text.length + rows.length ∨
      text.length ≤ at'.i := by omega
  refine ⟨fun more => ?_, fun _ => ?_, ?_⟩
  · rw [head.src, stop.resolve_right (by omega), ← whole]
    exact head.left.idle within trailing
  · rw [head.src]
    exact head.left.trimmed begun _ (by omega) (by omega)
  · rw [head.src]
    exact head.erased

/-- The loop from the beginning of a round on. -/
theorem parseLoop (head : Head sh₀ text core start front r rows ws live sh at')
    (readable : Readable text core) (trailing : Trailing sh₀.line text.length (text.count bar))
    (roomy : Roomy text) (begun : front = [] → r ≠ []) {rounds : Nat}
    (enough : r.length + text.length < rounds) :
    ∃ sh', sh.parseLoop text.length at' rounds = .next sh' ∧ Parsed sh₀ text sh' := by
  induction rounds generalizing front r rows ws live sh at' with
  | zero => omega
  | succ rounds ih =>
      have pipes := commandsOf_length text
      rcases head.lengths readable with ⟨whole, within, bound⟩
      have lag := head.lag
      rcases exists_word r with ⟨w, rest, split, plain, ends⟩
      rcases rest with _ | ⟨c, rest⟩
      · rw [List.append_nil] at split
        subst split
        have commands := head.commands_eq readable plain
        have count : text.count bar = rows.length := by
          rw [commands, List.length_append, List.length_singleton] at pipes
          omega
        rw [count] at trailing
        by_cases nonempty : r = []
        · subst nonempty
          have behind := head.behind readable trailing fun empty => begun empty rfl
          have far : at'.srcPtr + text.length < at'.i + lineRounds := by
            rw [head.src]
            unfold lineRounds
            omega
          have enough' : text.length - at'.i < rounds + 1 := by omega
          rcases behind.parseLoop far enough' with ⟨line, looped⟩
          refine ⟨_, looped, ?_, ?_⟩
          · rw [commands, List.length_append, List.length_singleton]
            exact congrArg (· + 1) head.row
          · rw [commands, words_nil, List.append_nil]
            intro k j
            have old := head.table k j
            cases entered : wordAt (rows ++ [ws]) k j with
            | none =>
                rw [entered] at old
                exact old
            | some w' =>
                rw [entered] at old
                exact old.1
        · have positive := List.length_pos_of_ne_nil nonempty
          have room := head.place readable roomy (List.append_nil r).symm plain ends nonempty
          rcases head.lastRound readable trailing plain nonempty room with
            ⟨sh', at'', ran, behind, place, row, filled⟩
          have far : at''.srcPtr + text.length < at''.i + lineRounds := by
            rw [place]
            unfold lineRounds
            omega
          have enough' : text.length - at''.i < rounds := by omega
          rcases behind.parseLoop far enough' with ⟨line, looped⟩
          have unspaced : blank ∉ r := fun member => plain _ member (.inl rfl)
          refine ⟨{ sh' with line := line }, ?_, ?_, ?_⟩
          · rw [Shell.parseLoop, if_pos (by omega), ran, Flow.next_bind]
            exact looped
          · rw [commands, List.length_append, List.length_singleton]
            exact congrArg (· + 1) row
          · rw [commands, words_word nonempty unspaced]
            exact filled
      · have more : at'.i < text.length := by
          rw [split, List.length_append, List.length_cons] at whole
          omega
        rcases exists_blanks rest with ⟨u, r', rfl, other⟩
        have room := head.place readable roomy split plain ends
        rcases ends c rfl with rfl | rfl
        · have split' : r = w ++ (List.replicate (u + 1) blank ++ r') := by
            rw [split, List.replicate_succ, List.cons_append]
          rcases r' with _ | ⟨d, r'⟩
          · rw [List.append_nil] at split'
            exact (head.not_blanks readable split').elim
          · have other : d ≠ blank := fun same => other (congrArg some same)
            rcases head.blankRound readable split' plain rfl other
              (head.after_blanks readable split' rfl other) room with
              ⟨sh', at'', live', ran, head'⟩
            rcases ih head' (fun _ => List.cons_ne_nil d r') (by
              rw [split', List.length_append, List.length_append, List.length_replicate] at enough
              omega) with ⟨sh'', looped, parsed⟩
            refine ⟨sh'', ?_, parsed⟩
            rw [Shell.parseLoop, if_pos more, ran, Flow.next_bind]
            exact looped
        · have spaced : u = 0 → r' = [] := by
            rintro rfl
            rcases r' with _ | ⟨d, r'⟩
            · rfl
            · have blank := head.after_pipe readable split
              exact absurd (congrArg some blank) other
          have begins : ∀ d, r'.head? = some d → isSpace d = false := by
            intro d found
            cases u with
            | zero =>
                rw [spaced rfl] at found
                cases found
            | succ u =>
                have split' : r = w ++ [bar] ++ (List.replicate (u + 1) blank ++ r') := by
                  rw [split, List.append_assoc, List.singleton_append]
                apply head.after_blanks readable split' found
                rintro rfl
                exact other found
          rcases head.pipeRound readable split plain other begins room spaced with
            ⟨sh', at'', live', ran, head'⟩
          rcases ih head' (fun empty => by simp at empty) (by
            rw [split, List.length_append, List.length_cons, List.length_append] at enough
            omega) with ⟨sh'', looped, parsed⟩
          refine ⟨sh'', ?_, parsed⟩
          rw [Shell.parseLoop, if_pos more, ran, Flow.next_bind]
          exact looped

end Head

end Sbrocks.Sbush
