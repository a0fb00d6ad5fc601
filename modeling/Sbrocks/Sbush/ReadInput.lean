import Mathlib
import Sbrocks.Flow.Basic
import Sbrocks.Sbush.Words

/-!
# Reading a line

`readInput` of the shell reads its line a character at a time.  A line that ends with
a pipe goes on behind the newline.  Neither end of the buffer is looked at.
-/

namespace Sbrocks.Sbush

open Process (Byte)

/-- The variables of `readInput`, its buffer, and what it printed. -/
structure Reading where
  line : Line
  i : Int
  pipeFound : Bool
  c : Byte
  printed : List String

/-- The newline. -/
def newline : Byte := 0x0A

/-- The backspace. -/
def backspace : Byte := 0x08

namespace Reading

variable {st st' : Reading} {c : Byte} {text cs : Text}

/-! ## The function -/

/-- Write at the index.  What a byte outside the buffer is part of is not known. -/
def store (st : Reading) (byte : Byte) : Flow Reading Reading :=
  if 0 ≤ st.i ∧ st.i < maxLen then
    .next { st with line := Function.update st.line st.i.toNat byte }
  else .stuck

/-- A line that goes on is asked for. -/
def prompt (st : Reading) : Reading :=
  if st.c = newline ∧ st.pipeFound = true then { st with printed := st.printed ++ [">"] } else st

/-- What is done with a character in the buffer. -/
def enter (st : Reading) : Flow Reading Reading :=
  if st.c = backspace then
    let st := { st with i := st.i - 1 }
    st.store 0
  else if st.c ≠ newline then do
    let st ← st.store st.c
    return { st with i := st.i + 1 }
  else return st

/-- A pipe waits for its command until a character of it comes. -/
def notePipe (st : Reading) : Reading :=
  if st.c = bar then { st with pipeFound := true }
  else if st.pipeFound = true ∧ st.c ≠ blank ∧ st.c ≠ newline then { st with pipeFound := false }
  else st

/-- What is done with a character.  A second pipe makes `readInput` return 0. -/
def readChar (st : Reading) (c : Byte) : Flow Reading Reading :=
  let st := { st with c := c }
  if st.pipeFound = true ∧ c = bar then
    .left { st with
      printed := st.printed ++ ["-bash: syntax error near unexpected token | \n"] }
  else do
    let st ← st.prompt.enter
    return st.notePipe

/-- The condition of the loop. -/
def More (st : Reading) : Prop := st.c ≠ newline ∨ st.pipeFound = true

instance : Decidable st.More := by unfold More; infer_instance

/-- What `readInput` returned, its variables, and the characters that it did not read. -/
abbrev Returned := Nat × Reading × Text

/-- Behind the loop. -/
def finish (st : Reading) (rest : Text) : Flow Returned Reading :=
  match st.store 0 with
  | .next st => .left (if st.i < 1 then 0 else 1, st, rest)
  | _ => .stuck

/-- The loop, with the characters that `scanf` delivers. -/
def readLoop (st : Reading) : Text → Flow Returned Reading
  | [] => if st.More then .next st else st.finish []
  | c :: cs =>
      if st.More then
        match st.readChar c with
        | .next st => readLoop st cs
        | .left st => .left (0, st, cs)
        | .stuck => .stuck
      else st.finish (c :: cs)

end Reading

/-- `readInput`. -/
def readInput (line : Line) (cs : Text) : Flow Reading.Returned Reading :=
  Reading.readLoop { line := line, i := 0, pipeFound := false, c := blank, printed := [] } cs

namespace Reading

variable {st st' : Reading} {c : Byte} {text cs : Text}

/-! ## The line -/

/-- What is typed, added to a line: a backspace removes the last character, and a newline is no
character of the line. -/
def edit (text typed : Text) : Text :=
  typed.foldl (fun text c =>
    if c = backspace then text.dropLast else if c = newline then text else text ++ [c]) text

/-- The characters that are typed fit in the line, which has `n` of them already; `pending` tells
whether a pipe waits for its command.  Where the line ends nothing more is asked. -/
def Fits : Nat → Bool → Text → Prop
  | _, _, [] => True
  | n, pending, c :: cs =>
      if pending = true ∧ c = bar then True
      else if c = newline then pending = true → Fits n true cs
      else if c = backspace then n ≠ 0 ∧ Fits (n - 1) false cs
      else n < 1023 ∧ Fits (n + 1) (c = bar ∨ pending = true ∧ c = blank) cs

/-- The buffer holds a text, and the index is behind it. -/
structure Holds (st : Reading) (text : Text) : Prop where
  i : st.i = text.length
  bytes : ∀ j < text.length, st.line j = text.getD j 0

/-- The index is inside the buffer. -/
def InRange (st : Reading) : Prop := 0 ≤ st.i ∧ st.i ≤ 1023

/-- The index is inside the buffer, and a line that was read is the one that was typed. -/
def Kept (text typed : Text) : Flow Returned Reading → Prop
  | .next st => st.InRange
  | .left (value, st, rest) => st.InRange ∧ (st.c = newline → ∃ read, typed = read ++ rest ∧
      st.Holds (edit text read) ∧ st.line (edit text read).length = 0 ∧
      value = if (edit text read).length < 1 then 0 else 1)
  | .stuck => False

/-! ## One character -/

theorem readChar_refused (pending : st.pipeFound = true) :
    ∃ st', st.readChar bar = .left st' ∧ st'.i = st.i ∧ st'.c = bar := by
  refine ⟨_, if_pos ⟨pending, rfl⟩, rfl, rfl⟩

theorem prompt_still (st : Reading) : st.prompt.line = st.line ∧ st.prompt.i = st.i ∧
    st.prompt.c = st.c ∧ st.prompt.pipeFound = st.pipeFound := by
  unfold prompt
  split <;> exact ⟨rfl, rfl, rfl, rfl⟩

theorem notePipe_still (st : Reading) :
    st.notePipe.line = st.line ∧ st.notePipe.i = st.i ∧ st.notePipe.c = st.c := by
  unfold notePipe
  split
  · exact ⟨rfl, rfl, rfl⟩
  · split <;> exact ⟨rfl, rfl, rfl⟩

theorem notePipe_pipeFound (st : Reading) : st.notePipe.pipeFound =
    (decide (st.c = bar) || st.pipeFound && (decide (st.c = blank) || decide (st.c = newline))) := by
  unfold notePipe
  split
  · rename_i piped
    simp [piped]
  · rename_i other
    split
    · rename_i begun
      simp [other, begun.2.1, begun.2.2]
    · rename_i waits
      simp only [other, decide_false, Bool.false_or]
      cases pending : st.pipeFound with
      | false => rfl
      | true =>
          rw [pending] at waits
          by_cases space : st.c = blank
          · simp [space]
          · by_cases ended : st.c = newline
            · simp [ended]
            · exact absurd ⟨rfl, space, ended⟩ waits

theorem Holds.congr (holds : st.Holds text) (line : st'.line = st.line) (i : st'.i = st.i) :
    st'.Holds text :=
  ⟨i.trans holds.i, fun j below => (congrFun line j).trans (holds.bytes j below)⟩

theorem enter_newline (ended : st.c = newline) : st.enter = .next st := by
  have plain : ¬ st.c = backspace := by
    rw [ended]
    decide
  rw [enter, if_neg plain, if_neg (not_not.mpr ended)]
  rfl

/-- A backspace at the start of the line goes before the buffer. -/
theorem enter_backspace_nil (holds : st.Holds []) (back : st.c = backspace) :
    st.enter = .stuck := by
  have i := holds.i
  rw [enter, if_pos back]
  refine if_neg ?_
  dsimp only
  rw [i]
  simp

theorem enter_backspace (holds : st.Holds text) (back : st.c = backspace) (some : text ≠ [])
    (short : text.length ≤ 1023) : ∃ st', st.enter = .next st' ∧ st'.Holds text.dropLast ∧
      st'.c = st.c ∧ st'.pipeFound = st.pipeFound := by
  have i := holds.i
  have positive := List.length_pos_iff.mpr some
  have inside : 0 ≤ st.i - 1 ∧ st.i - 1 < maxLen := by
    rw [i]
    unfold maxLen
    omega
  rw [enter, if_pos back]
  refine ⟨_, if_pos inside, ⟨?_, ?_⟩, rfl, rfl⟩
  · rw [List.length_dropLast]
    dsimp only
    omega
  · intro j below
    rw [List.length_dropLast] at below
    have apart : j ≠ (st.i - 1).toNat := by omega
    refine (Function.update_of_ne apart _ _).trans ?_
    rw [holds.bytes j (by omega), List.getD_eq_getElem _ _ (by omega),
      List.getD_eq_getElem _ _ (by rw [List.length_dropLast]; omega), List.getElem_dropLast]

/-- Any other character is put behind the line, as long as there is a byte for it. -/
theorem enter_other (holds : st.Holds text) (other : st.c ≠ backspace) (more : st.c ≠ newline)
    (short : text.length ≤ 1023) : ∃ st', st.enter = .next st' ∧ st'.Holds (text ++ [st.c]) ∧
      st'.c = st.c ∧ st'.pipeFound = st.pipeFound := by
  have i := holds.i
  have inside : 0 ≤ st.i ∧ st.i < maxLen := by
    rw [i]
    unfold maxLen
    omega
  rw [enter, if_neg other, if_pos more, store, if_pos inside]
  refine ⟨_, rfl, ⟨?_, ?_⟩, rfl, rfl⟩
  · rw [List.length_append, List.length_singleton]
    dsimp only
    omega
  · intro j below
    rw [List.length_append, List.length_singleton] at below
    dsimp only
    by_cases last : j = text.length
    · have here : j = st.i.toNat := by omega
      rw [here, Function.update_self, ← here, last, List.getD_append_right _ _ _ _ (Nat.le_refl _),
        Nat.sub_self]
      rfl
    · have apart : j ≠ st.i.toNat := by omega
      rw [Function.update_of_ne apart, holds.bytes j (by omega),
        List.getD_append _ _ _ _ (by omega)]

/-- A character that is not refused is entered. -/
theorem readChar_eq (plain : ¬ (st.pipeFound = true ∧ c = bar)) :
    st.readChar c = ({ st with c := c } : Reading).prompt.enter >>= fun st => return st.notePipe :=
  if_neg plain

/-! ## Runs -/

theorem readLoop_nil (more : st.More) : st.readLoop [] = .next st := if_pos more

theorem readLoop_cons (more : st.More) (c : Byte) (cs : Text) :
    st.readLoop (c :: cs) = match st.readChar c with
      | .next st => readLoop st cs
      | .left st => .left (0, st, cs)
      | .stuck => .stuck :=
  if_pos more

theorem Holds.inRange (holds : st.Holds text) (short : text.length ≤ 1023) : st.InRange := by
  have i := holds.i
  exact ⟨by omega, by omega⟩

/-- Where the loop ends, the line is closed. -/
theorem kept_finish (holds : st.Holds text) (short : text.length ≤ 1023) (ended : ¬ st.More)
    (rest : Text) : Kept text rest (st.readLoop rest) := by
  have i := holds.i
  have inside : 0 ≤ st.i ∧ st.i < maxLen := by
    rw [i]
    unfold maxLen
    omega
  have closed : st.readLoop rest = st.finish rest := by
    cases rest with
    | nil => exact if_neg ended
    | cons c cs => exact if_neg ended
  rw [closed, finish, store, if_pos inside]
  refine ⟨holds.inRange short, fun _ => ⟨[], rfl, ⟨holds.i, ?_⟩, ?_, ?_⟩⟩
  · intro j below
    have apart : j ≠ st.i.toNat := by
      change j < text.length at below
      omega
    exact (Function.update_of_ne apart _ _).trans (holds.bytes j below)
  · have here : (edit text []).length = st.i.toNat := by
      change text.length = _
      omega
    rw [here]
    exact Function.update_self ..
  · change (if st.i < 1 then 0 else 1) = if text.length < 1 then 0 else 1
    have same : st.i < 1 ↔ text.length < 1 := by omega
    simp only [same]

/-- A character that was read belongs to what was typed. -/
theorem Kept.cons {c : Byte} {typed : Text} {flow : Flow Returned Reading}
    (kept : Kept (edit text [c]) typed flow) : Kept text (c :: typed) flow := by
  cases flow with
  | next st => exact kept
  | left returned =>
      obtain ⟨range, line⟩ := kept
      refine ⟨range, fun ended => ?_⟩
      obtain ⟨read, all, rest⟩ := line ended
      exact ⟨c :: read, by rw [all]; rfl, rest⟩
  | stuck => exact kept

/-- Whether a pipe waits for its command after a character. -/
def piped (pending : Bool) (c : Byte) : Bool :=
  decide (c = bar) || pending && (decide (c = blank) || decide (c = newline))

theorem edit_other (other : c ≠ backspace) (more : c ≠ newline) : edit text [c] = text ++ [c] := by
  change (if c = backspace then _ else if c = newline then _ else text ++ [c]) = _
  rw [if_neg other, if_neg more]

/-- What a character leaves that removes none before the line. -/
theorem readChar_next (holds : st.Holds text) (short : text.length ≤ 1023)
    (taken : ¬ (st.pipeFound = true ∧ c = bar)) (some : c = backspace → text ≠ []) :
    ∃ st', st.readChar c = .next st' ∧ st'.Holds (edit text [c]) ∧ st'.c = c ∧
      st'.pipeFound = piped st.pipeFound c := by
  rw [readChar_eq taken]
  obtain ⟨line, i, last, pending⟩ := prompt_still { st with c := c }
  have held : ({ st with c := c } : Reading).prompt.Holds text := holds.congr line i
  generalize ({ st with c := c } : Reading).prompt = st1 at line i last pending held ⊢
  have entered : ∃ st2, st1.enter = .next st2 ∧ st2.Holds (edit text [c]) ∧ st2.c = st1.c ∧
      st2.pipeFound = st1.pipeFound := by
    by_cases ended : c = newline
    · refine ⟨st1, enter_newline (last.trans ended), ?_, rfl, rfl⟩
      rw [ended]
      exact held
    by_cases back : c = backspace
    · have removed := enter_backspace held (last.trans back) (some back) short
      rw [back]
      exact removed
    · have added := enter_other held (fun same => back (last.symm.trans same))
        (fun same => ended (last.symm.trans same)) short
      rw [last] at added ⊢
      rw [edit_other back ended]
      exact added
  obtain ⟨st2, done, left, c2, pending2⟩ := entered
  obtain ⟨line', i', c'⟩ := st2.notePipe_still
  rw [done]
  refine ⟨_, rfl, left.congr line' i', c'.trans (c2.trans last), ?_⟩
  rw [notePipe_pipeFound, c2, last, pending2, pending]
  rfl

/-- A backspace at the start of the line. -/
theorem readChar_before (holds : st.Holds []) : st.readChar backspace = .stuck := by
  obtain ⟨line, i, last, _⟩ := prompt_still { st with c := backspace }
  have held : ({ st with c := backspace } : Reading).prompt.Holds [] := holds.congr line i
  rw [readChar_eq (fun refused => absurd refused.2 (by decide)), enter_backspace_nil held last]
  rfl

/-- What it means that a character fits. -/
theorem fits_cons_iff {pending : Bool} (short : text.length ≤ 1023)
    (taken : ¬ (pending = true ∧ c = bar)) :
    Fits text.length pending (c :: cs) ↔ (c = backspace → text ≠ []) ∧
      (edit text [c]).length ≤ 1023 ∧ (c ≠ newline ∨ piped pending c = true →
        Fits (edit text [c]).length (piped pending c) cs) := by
  rw [Fits, if_neg taken]
  by_cases ended : c = newline
  · subst ended
    have waits : piped pending newline = pending := by cases pending <;> rfl
    have same : edit text [newline] = text := rfl
    rw [if_pos rfl, waits, same]
    constructor
    · intro fits
      refine ⟨fun back => absurd back (by decide), short, fun goes => ?_⟩
      have still : pending = true := goes.resolve_left (not_not.mpr rfl)
      rw [still]
      exact fits still
    · intro fits still
      have rest := fits.2.2 (Or.inr still)
      rwa [still] at rest
  rw [if_neg ended]
  by_cases back : c = backspace
  · subst back
    have begun : piped pending backspace = false := by cases pending <;> rfl
    have same : (edit text [backspace]).length = text.length - 1 := List.length_dropLast
    rw [if_pos rfl, begun, same]
    constructor
    · rintro ⟨some, rest⟩
      exact ⟨fun _ empty => some (by rw [empty]; rfl), by omega, fun _ => rest⟩
    · rintro ⟨some, _, rest⟩
      exact ⟨fun none => some rfl (List.eq_nil_of_length_eq_zero none), rest (Or.inl (by decide))⟩
  · have waits : decide (c = bar ∨ pending = true ∧ c = blank) = piped pending c := by
      simp [piped, ended]
    rw [if_neg back, edit_other back ended, List.length_append, List.length_singleton, waits]
    constructor
    · rintro ⟨room, rest⟩
      exact ⟨fun same => absurd same back, room, fun _ => rest⟩
    · rintro ⟨_, room, rest⟩
      exact ⟨room, rest (Or.inl ended)⟩

/-- The characters fit, so the line is kept. -/
theorem kept_of_fits (holds : st.Holds text) (short : text.length ≤ 1023)
    (fits : st.More → Fits text.length st.pipeFound cs) {typed : Text} (reached : typed <+: cs) :
    Kept text typed (st.readLoop typed) := by
  by_cases more : st.More
  swap
  · exact kept_finish holds short more typed
  induction cs generalizing st text typed with
  | nil =>
      rw [List.prefix_nil.mp reached, readLoop_nil more]
      exact holds.inRange short
  | cons c cs ih =>
      cases typed with
      | nil =>
          rw [readLoop_nil more]
          exact holds.inRange short
      | cons c' typed =>
          obtain ⟨rfl, rest⟩ := List.cons_prefix_cons.mp reached
          rw [readLoop_cons more]
          by_cases refused : st.pipeFound = true ∧ c' = bar
          · obtain ⟨pending, rfl⟩ := refused
            obtain ⟨st', returned, same, last⟩ := readChar_refused pending
            rw [returned]
            refine ⟨?_, fun ended => ?_⟩
            · rw [InRange, same]
              exact holds.inRange short
            · rw [last] at ended
              cases ended
          · obtain ⟨some, short', fits'⟩ := (fits_cons_iff short refused).mp (fits more)
            obtain ⟨st', read, holds', last, pending⟩ := readChar_next holds short refused some
            rw [read]
            by_cases more' : st'.More
            · refine (ih holds' short' (fun _ => ?_) rest more').cons
              rw [More, last, pending] at more'
              rw [pending]
              exact fits' more'
            · exact (kept_finish holds' short' more' typed).cons

/-- The index is inside the buffer, wherever the reading stands. -/
def Inside : Flow Returned Reading → Prop
  | .next st => st.InRange
  | .left (_, st, _) => st.InRange
  | .stuck => False

theorem Kept.inside {typed : Text} {flow : Flow Returned Reading} (kept : Kept text typed flow) :
    Inside flow := by
  cases flow with
  | next st => exact kept
  | left returned => exact kept.1
  | stuck => exact kept

/-- The index stays inside the buffer, so the characters fit. -/
theorem fits_of_inside (holds : st.Holds text) (short : text.length ≤ 1023) (more : st.More)
    (inside : ∀ typed, typed <+: cs → Inside (st.readLoop typed)) :
    Fits text.length st.pipeFound cs := by
  induction cs generalizing st text with
  | nil => exact trivial
  | cons c cs ih =>
      by_cases refused : st.pipeFound = true ∧ c = bar
      · rw [Fits, if_pos refused]
        trivial
      have one := inside [c] (List.cons_prefix_cons.mpr ⟨rfl, List.nil_prefix⟩)
      rw [readLoop_cons more] at one
      have some : c = backspace → text ≠ [] := by
        rintro rfl rfl
        rw [readChar_before holds] at one
        exact one
      obtain ⟨st', read, holds', last, pending⟩ := readChar_next holds short refused some
      rw [fits_cons_iff short refused]
      have short' : (edit text [c]).length ≤ 1023 := by
        by_cases ended : c = newline
        · rw [ended]
          exact short
        · have more' : st'.More := Or.inl (last.symm ▸ ended)
          rw [read] at one
          dsimp only at one
          rw [readLoop_nil more'] at one
          have i := holds'.i
          have below := one.2
          omega
      refine ⟨some, short', fun goes => ?_⟩
      rw [← pending]
      refine ih holds' short' ?_ fun typed reached => ?_
      · rw [More, last, pending]
        exact goes
      · have longer := inside (c :: typed) (List.cons_prefix_cons.mpr ⟨rfl, reached⟩)
        rw [readLoop_cons more, read] at longer
        exact longer

/-- What `readInput` starts with. -/
theorem start_holds (line : Line) : Holds ⟨line, 0, false, blank, []⟩ [] :=
  ⟨rfl, fun j below => absurd below (Nat.not_lt_zero j)⟩

end Reading

/-- The index of `readInput` stays in the buffer, and a line that was read is the line that was
typed, exactly when the characters fit: no backspace comes at the start of the line, and no more
than 1023 characters are in it. -/
theorem readInput_iff (line : Line) (cs : Text) :
    (∀ typed, typed <+: cs → Reading.Kept [] typed (readInput line typed)) ↔ Reading.Fits 0 false cs := by
  have more : Reading.More ⟨line, 0, false, blank, []⟩ := Or.inl (show blank ≠ newline by decide)
  constructor
  · intro kept
    exact Reading.fits_of_inside (Reading.start_holds line) (Nat.zero_le _) more fun typed reached =>
      (kept typed reached).inside
  · intro fits typed reached
    exact Reading.kept_of_fits (Reading.start_holds line) (Nat.zero_le _) (fun _ => fits) reached

/-- A backspace before any other character. -/
theorem readInput_leaves_buffer :
    ¬ ∀ (line : Line) (cs typed : Text), typed <+: cs → Reading.Kept [] typed (readInput line typed) := by
  intro always
  have kept := always (fun _ => 0) [backspace] [backspace] (List.prefix_refl _)
  have lost : readInput (fun _ => 0) [backspace] = .stuck := by
    have more : Reading.More ⟨fun _ => 0, 0, false, blank, []⟩ := Or.inl (show blank ≠ newline by decide)
    rw [readInput, Reading.readLoop_cons more, Reading.readChar_before (Reading.start_holds _)]
  rw [lost] at kept
  exact kept

end Sbrocks.Sbush
