import Sbrocks.Sbush.Buffer
import Sbrocks.Sbush.Copies
import Sbrocks.Sbush.Words

/-!
# Lines that are parsed exactly

The parser works along the line: up to the last byte that is not a blank it reads
words and signs of a pipe, and then it goes on behind the line, one byte for each
sign of a pipe.
-/

namespace Sbrocks.Sbush

open Sbrocks.Libc Sbrocks.Process

/-- The word at a place of the commands. -/
def wordAt (commands : List (List Text)) (k j : Nat) : Option Text :=
  (commands.getD k [])[j]?

/-- The table holds the words of the commands, and is otherwise what it was. -/
def Filled (commands : List (List Text)) (old : Nat → Nat → Word) (sh : Shell) : Prop :=
  ∀ k j, match wordAt commands k j with
    | some w => Holds sh.program (sh.commands k j) w
    | none => sh.commands k j = old k j

variable {line line' : Line} {s b stop n str : Nat} {sh : Shell}

/-! ## Behind the line -/

/-- From a place on up to another one there is no sign of a pipe that the loops look at, and
no word behind a blank. -/
structure Idle (line : Line) (b stop : Nat) : Prop where
  bars : ∀ x, b ≤ x → x ≤ stop → line x = bar → x = stop ∧ b < x ∧ line (x - 1) = blank
  words : ∀ x, b ≤ x → x + 1 < stop → line x = blank → line (x + 1) = blank ∨ line (x + 1) = 0

/-- A loop over a word that ends in an idle part of the buffer does not end at a sign of a pipe. -/
theorem Idle.scan (idle : Idle line b stop) (before : s ≤ b) (within : b ≤ stop)
    (plain : ∀ x, s ≤ x → x < b → line x ≠ blank ∧ line x ≠ bar) :
    b ≤ s + wordLength line s (stop - s) ∧ line (s + wordLength line s (stop - s)) ≠ bar := by
  rcases wordLength_spec line s (stop - s) with ⟨short, passed, ends⟩
  generalize wordLength line s (stop - s) = c at short passed ends
  have far : b ≤ s + c := by
    by_contra less
    have here := plain (s + c) (by omega) (by omega)
    rcases ends with all | ends | ends
    · omega
    · exact here.1 ends
    · exact here.2 ends
  refine ⟨far, fun piped => ?_⟩
  rcases idle.bars (s + c) far (by omega) piped with ⟨last, behind, blank⟩
  have place : s + c - 1 = s + (c - 1) := by omega
  rw [place] at blank
  exact (passed (c - 1) (by omega)).1 blank

/-- Behind the blanks that follow there is a zero, unless the loops end. -/
theorem Idle.skip (idle : Idle line b stop) (before : s ≤ b) (within : b ≤ stop)
    (plain : ∀ x, s ≤ x → x < b → line x ≠ blank ∧ line x ≠ bar)
    (trimmed : ∀ x, b ≤ x → line' x = line x ∨ line' x = 0) :
    let c := wordLength line s (stop - s)
    let k := (skipBlanks line' (s + c) (stop - s - c)).2
    s + c + k < stop → line' (s + c + k) = 0 := by
  intro c k more
  rcases idle.scan before within plain with ⟨far, unpiped⟩
  rcases wordLength_spec line s (stop - s) with ⟨short, _, ends⟩
  rcases skipBlanks_spec line' (s + c) (stop - s - c) with ⟨_, blanks, stops, _⟩
  have stops : line' (s + c + k) ≠ blank := stops.resolve_left (by omega)
  cases skipped : k with
  | zero =>
      rw [skipped] at stops
      have here : line (s + c) = blank := (ends.resolve_left (by omega)).resolve_right unpiped
      rcases trimmed (s + c) far with same | zero
      · exact absurd (same.trans here) stops
      · exact zero
  | succ k' =>
      have last : line' (s + c + k') = blank := blanks k' (by omega)
      have old : line (s + c + k') = blank := by
        rcases trimmed (s + c + k') (by omega) with same | zero
        · exact same.symm.trans last
        · rw [zero] at last
          cases last
      rw [skipped] at stops
      rcases trimmed (s + c + (k' + 1)) (by omega) with same | zero
      · rw [same] at stops ⊢
        exact (idle.words _ (by omega) (by omega) old).resolve_left stops
      · exact zero

/-- A later part of an idle part, when only what is before it was changed. -/
theorem Idle.later {b' : Nat} (idle : Idle line b stop) (behind : b ≤ b') (within : b' < stop)
    (same : ∀ x, b' ≤ x → line' x = line x) : Idle line' b' stop where
  bars x low high sign := by
    rw [same x low] at sign
    rcases idle.bars x (by omega) high sign with ⟨last, _, blank⟩
    refine ⟨last, by omega, ?_⟩
    rw [same _ (by omega)]
    exact blank
  words x low high blank := by
    rw [same x low] at blank
    rw [same _ (by omega)]
    exact idle.words x (by omega) high blank

/-- The buffer where the parser is behind the words of the line. -/
structure Behind (line : Line) (len : Nat) (at' : Cursor) : Prop where
  idle : at'.i < len → Idle line at'.srcPtr (at'.srcPtr + (len - at'.i))
  here : at'.i < len → line at'.srcPtr = 0
  erased : ∀ str, at'.str = some str → ∃ z, str ≤ z ∧ z ≤ at'.srcPtr ∧ line z = 0

/-- Erasing the last word leaves what is behind its zero. -/
theorem eraseLast_eq {last : Option Nat}
    (zero : ∀ str, last = some str → ∃ z, str ≤ z ∧ z ≤ s ∧ line z = 0) (room : s < lineRounds) :
    ∃ line₁, eraseLast line last = some line₁ ∧ ∀ x, s ≤ x → line₁ x = line x := by
  cases last with
  | none => exact ⟨line, rfl, fun x _ => rfl⟩
  | some str =>
      rcases zero str rfl with ⟨z, low, high, here⟩
      have place : str + (z - str) = z := by omega
      rcases @exists_strlen line str (z - str) (by rw [place]; exact here) (by omega) with
        ⟨m, short, length⟩
      refine ⟨clear line str m, ?_, fun x behind => ?_⟩
      · rw [eraseLast, length]
        rfl
      · rw [clear_apply, if_neg (by omega)]

/-! ## The parts of a round -/

section Round

variable {at' : Cursor} {len arg count size : Nat} {sh₁ : Shell} {line₁ line₂ : Line}

/-- Nothing is copied of an empty word. -/
theorem addWord_empty (trimmed : trim sh.line str = some line₂) (length : strlen line₂ str = some size)
    (nothing : ¬(size > 0 ∧ count > 0)) :
    sh.addWord arg str count = .next ({ sh with line := line₂ }, arg) := by
  simp only [Shell.addWord, trimmed, length, Flow.ofOption_some, Flow.next_bind, if_neg nothing]
  rfl

/-- A word is copied, and its copy entered in the table. -/
theorem addWord_copied {start : Word} {live : List (Word × Word)} {p' : Program} {w : Text}
    (trimmed : trim sh.line str = some line₂) (length : strlen line₂ str = some size)
    (some : size > 0 ∧ count > 0) (place : sh.cmdcount < maxCmd ∧ arg < maxArgCount)
    (copies : Copies start sh.program live line₂ str size count w p') :
    sh.addWord arg str count = .next ({ sh with
      program := p', line := line₂,
      commands := Function.update sh.commands sh.cmdcount
        (Function.update (sh.commands sh.cmdcount) arg (sh.program.kernel.brkEnd + memBlockSize)) },
      arg + 1) := by
  rcases copies.run with ⟨p₁, p₂, allocated, cleared, copied⟩
  simp only [Shell.addWord, trimmed, length, Flow.ofOption_some, Flow.next_bind, if_pos some,
    allocated, if_pos place, cleared, copied]
  rfl

/-- A round that does not end at a sign of a pipe. -/
theorem parseRound_plain (erased : eraseLast sh.line at'.str = some line₁)
    (counted : wordLength line₁ at'.srcPtr (len - at'.i) = count)
    (unpiped : line₁ (at'.srcPtr + count) ≠ bar)
    (added : Shell.addWord { sh with line := line₁ } at'.argcount at'.srcPtr count =
      .next (sh₁, arg)) :
    let skip := skipBlanks sh₁.line (at'.srcPtr + count) (len - (at'.i + count))
    sh.parseRound len at' = .next ({ sh₁ with line := skip.1 },
      { i := at'.i + count + skip.2, srcPtr := at'.srcPtr + count + skip.2,
        str := some at'.srcPtr, argcount := arg }) := by
  simp only [Shell.parseRound, erased, Flow.ofOption_some, Flow.next_bind, counted, added,
    if_neg unpiped]
  rfl

/-- A round that ends at a sign of a pipe. -/
theorem parseRound_piped (erased : eraseLast sh.line at'.str = some line₁)
    (counted : wordLength line₁ at'.srcPtr (len - at'.i) = count)
    (piped : line₁ (at'.srcPtr + count) = bar)
    (added : Shell.addWord { sh with line := line₁ } at'.argcount at'.srcPtr count =
      .next (sh₁, arg)) :
    let skip := skipBlanks sh₁.line (at'.srcPtr + count + 1) (len - (at'.i + count))
    sh.parseRound len at' = .next ({ sh₁ with line := skip.1, cmdcount := sh₁.cmdcount + 1 },
      { i := at'.i + count + skip.2, srcPtr := at'.srcPtr + count + 1 + skip.2,
        str := some at'.srcPtr, argcount := 0 }) := by
  simp only [Shell.parseRound, erased, Flow.ofOption_some, Flow.next_bind, counted, added,
    if_pos piped]
  rfl

/-- A round behind the words changes the buffer only. -/
theorem Behind.parseRound (behind : Behind sh.line len at') (more : at'.i < len)
    (room : at'.srcPtr < lineRounds) :
    ∃ line at'', sh.parseRound len at' = .next ({ sh with line := line }, at'') ∧
      at'.i < at''.i ∧ at''.srcPtr + at'.i = at'.srcPtr + at''.i ∧ Behind line len at'' := by
  rcases eraseLast_eq behind.erased room with ⟨line₁, erased, same⟩
  have idle : Idle line₁ at'.srcPtr (at'.srcPtr + (len - at'.i)) :=
    (behind.idle more).later (Nat.le_refl _) (by omega) same
  have zero : line₁ at'.srcPtr = 0 := (same _ (Nat.le_refl _)).trans (behind.here more)
  have length : strlen line₁ at'.srcPtr = some 0 :=
    strlen_eq (fun j below => absurd below (Nat.not_lt_zero j)) zero (by decide)
  have nothing : ∀ x, at'.srcPtr ≤ x → x < at'.srcPtr → line₁ x ≠ blank ∧ line₁ x ≠ bar := by
    intro x low high
    omega
  have scan := idle.scan (Nat.le_refl _) (by omega) nothing
  have untouched : ∀ x, at'.srcPtr ≤ x → line₁ x = line₁ x ∨ line₁ x = 0 := fun x _ => .inl rfl
  have skip := idle.skip (Nat.le_refl _) (by omega) nothing untouched
  rw [Nat.add_sub_cancel_left] at scan skip
  rcases wordLength_spec line₁ at'.srcPtr (len - at'.i) with ⟨short, _, ends⟩
  generalize counted : wordLength line₁ at'.srcPtr (len - at'.i) = c at scan skip short ends
  have added : Shell.addWord { sh with line := line₁ } at'.argcount at'.srcPtr c =
      .next ({ sh with line := line₁ }, at'.argcount) :=
    addWord_empty (trim_empty zero) length (by omega)
  have ran := parseRound_plain erased counted scan.2 added
  have moves : 0 < c := by
    rcases ends with all | blank | sign
    · omega
    · by_contra none
      rw [Nat.eq_zero_of_not_pos none, Nat.add_zero, zero] at blank
      cases blank
    · exact absurd sign scan.2
  rcases skipBlanks_spec line₁ (at'.srcPtr + c) (len - (at'.i + c)) with ⟨_, _, _, cleared⟩
  have budget : len - at'.i - c = len - (at'.i + c) := Nat.sub_sub ..
  dsimp only at skip ran
  rw [budget] at skip
  generalize skipBlanks line₁ (at'.srcPtr + c) (len - (at'.i + c)) = skipped at skip cleared ran
  rcases skipped with ⟨line₃, k⟩
  dsimp only at skip cleared ran
  have kept : ∀ x, at'.srcPtr + c + k ≤ x → line₃ x = line₁ x := by
    intro x low
    rw [cleared, if_neg (by omega)]
  refine ⟨_, _, ran, by dsimp only; omega, by dsimp only; omega, ?_, ?_, ?_⟩
  · intro more'
    dsimp only at more' ⊢
    have stop : at'.srcPtr + c + k + (len - (at'.i + c + k)) = at'.srcPtr + (len - at'.i) := by omega
    rw [stop]
    exact idle.later (by omega) (by omega) kept
  · intro more'
    dsimp only at more' ⊢
    rw [kept _ (Nat.le_refl _)]
    exact skip (by omega)
  · intro str last
    cases last
    refine ⟨at'.srcPtr, Nat.le_refl _, by dsimp only; omega, ?_⟩
    rw [cleared, if_neg (by omega)]
    exact zero

/-- The loop behind the words changes the buffer only. -/
theorem Behind.parseLoop (behind : Behind sh.line len at') (far : at'.srcPtr + len < at'.i + lineRounds)
    {rounds : Nat} (enough : len - at'.i < rounds) :
    ∃ line, sh.parseLoop len at' rounds = .next { sh with line := line } := by
  induction rounds generalizing sh at' with
  | zero => omega
  | succ rounds ih =>
      rw [Shell.parseLoop]
      by_cases more : at'.i < len
      · rcases behind.parseRound more (by omega) with ⟨line, at'', ran, further, same, behind'⟩
        rcases @ih { sh with line := line } at'' behind' (by omega) (by omega) with ⟨line', looped⟩
        refine ⟨line', ?_⟩
        rw [if_pos more, ran, Flow.next_bind]
        exact looped
      · exact ⟨sh.line, if_neg more⟩

end Round

end Sbrocks.Sbush
