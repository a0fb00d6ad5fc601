import Sbrocks.Sbush.Parsing
import Sbrocks.Sbush.ReadInput
import Sbrocks.Sbush.Tokenize

/-!
# Scripts

`executeScript` reads a file byte by byte into an array and runs what it has when a
newline comes.  The loop over bytes is a loop over the lines of the file.  What
executes a command is a parameter: it may change the memory and the table of the
shell, and it need not come back.
-/

namespace Sbrocks.Sbush

open Sbrocks.Libc Sbrocks.Process

/-! ## The function -/

/-- `"#!"`. -/
def marker : Text := [0x23, 0x21]

/-- What becomes of a script. -/
inductive Ending where
  /-- The file was read to its end. -/
  | read (sh : Shell)
  /-- A command does not come back: it ended the shell, or waits for ever. -/
  | gone
  /-- A byte was written behind the array of the line, or the parser does not come back. -/
  | lost

/-- The lines that were executed, with their numbers in the file. -/
abbrev Log := List (Text × Nat)

/-- The script goes on if the shell is still there. -/
def goOn (run : Log × Ending) (rest : Shell → Log × Ending) : Log × Ending :=
  match run with
  | (log, .read sh) => (log ++ (rest sh).1, (rest sh).2)
  | stopped => stopped

/-- `cmd[i] = c`, in the array. -/
def Shell.setCmd (sh : Shell) (i : Nat) (c : Byte) : Option Shell :=
  if i < maxLen then some { sh with line := Function.update sh.line i c } else none

section

variable (executeProcess : Shell → Option Shell) (executeProcessPipe : Shell → Nat → Option Shell)

/-- What is executed for a line that was parsed. -/
def dispatch (sh : Shell) (num_args : Nat) : Ending :=
  match if num_args = 1 then executeProcess sh else executeProcessPipe sh num_args with
  | some sh => .read sh
  | none => .gone

/-- What is done with the line in the array. -/
def runLine (sh : Shell) (k : Nat) : Log × Ending :=
  match stringAt sh.line 0, strstrLiteral sh.line marker with
  | some cmd, some none =>
      match sh.parseCommand with
      | .next (sh, num_args) =>
          ([(cmd, k)], dispatch executeProcess executeProcessPipe sh num_args)
      | _ => ([], .lost)
  | some _, some (some _) => ([], .read sh)
  | _, _ => ([], .lost)

/-- The loop of `executeScript`, with the bytes that are left of the file. -/
def scriptLoop (sh : Shell) (i k : Nat) : List Byte → Log × Ending
  | [] => ([], .read sh)
  | c :: file =>
      if c ≠ newline then
        match sh.setCmd i c with
        | some sh => scriptLoop sh (i + 1) k file
        | none => ([], .lost)
      else
        match sh.setCmd i 0 with
        | some sh =>
            goOn (runLine executeProcess executeProcessPipe sh k) fun sh => scriptLoop sh 0 (k + 1) file
        | none => ([], .lost)

/-- `executeScript`. -/
def executeScript (sh : Shell) (file : List Byte) : Log × Ending :=
  scriptLoop executeProcess executeProcessPipe sh 0 0 file

/-! ## What a script says -/

/-- A line without text. -/
def Blank (l : Text) : Prop := ∀ c ∈ l, isSpace c = true

instance : DecidablePred Blank := fun l => inferInstanceAs (Decidable (∀ c ∈ l, isSpace c = true))

/-- A line that is to be executed. -/
def Worthy (l : Text) : Prop := ¬ Blank l ∧ ¬ marker <:+: l

instance : DecidablePred Worthy :=
  fun l => inferInstanceAs (Decidable (¬ Blank l ∧ ¬ marker <:+: l))

/-- The lines that are to be executed, the first one with number `k`. -/
def worthyFrom (k : Nat) (lines : List Text) : Log := (lines.zipIdx k).filter fun l => Worthy l.1

/-- The lines of a file, the last one with or without a newline. -/
def linesOf (file : List Byte) : List Text := file.splitOn newline

/-- What was executed is what is to be executed, up to a command that does not come back. -/
def Follows (k : Nat) (lines : List Text) (run : Log × Ending) : Prop :=
  run.2 ≠ .lost ∧ run.1 <+: worthyFrom k lines ∧
    ∀ sh, run.2 = .read sh → run.1 = worthyFrom k lines

/-- A script is run line by line. -/
def RunsLines (sh : Shell) (file : List Byte) : Prop :=
  Follows 0 (linesOf file) (executeScript executeProcess executeProcessPipe sh file)

/-! ## The loop over lines -/

/-- The array after more bytes of a line. -/
def Shell.stored (sh : Shell) (i : Nat) (l : Text) : Shell :=
  { sh with line := fun x => if i ≤ x ∧ x < i + l.length then l.getD (x - i) 0 else sh.line x }

/-- The shell with a line in its array. -/
def Shell.withLine (sh : Shell) (l : Text) : Shell :=
  { sh with line := fun x => if x ≤ l.length then l.getD x 0 else sh.line x }

/-- What `executeScript` does with the lines of a file. -/
def linesRun (sh : Shell) (k : Nat) : List Text → Log × Ending
  | [] => ([], .read sh)
  | [last] =>
      if last.length ≤ maxLen then ([], .read (sh.stored 0 last)) else ([], .lost)
  | l :: next :: rest =>
      if l.length < maxLen then
        goOn (runLine executeProcess executeProcessPipe (sh.withLine l) k) fun sh =>
          linesRun sh (k + 1) (next :: rest)
      else ([], .lost)

end

variable {executeProcess : Shell → Option Shell} {executeProcessPipe : Shell → Nat → Option Shell}
variable {sh : Shell} {i k : Nat} {l : Text} {lines : List Text} {file : List Byte}

theorem stored_nil (sh : Shell) (i : Nat) : sh.stored i [] = sh := by
  unfold Shell.stored
  have same : (fun x => if i ≤ x ∧ x < i + ([] : Text).length then ([] : Text).getD (x - i) 0
      else sh.line x) = sh.line := by
    funext x
    exact if_neg fun inside => Nat.not_lt.mpr inside.1 inside.2
  rw [same]

theorem stored_cons (sh : Shell) (i : Nat) (c : Byte) (l : Text) :
    Shell.stored { sh with line := Function.update sh.line i c } (i + 1) l = sh.stored i (c :: l) := by
  unfold Shell.stored
  have same : (fun x => if i + 1 ≤ x ∧ x < i + 1 + l.length then l.getD (x - (i + 1)) 0
      else Function.update sh.line i c x) =
      fun x => if i ≤ x ∧ x < i + (c :: l).length then (c :: l).getD (x - i) 0 else sh.line x := by
    funext x
    rw [List.length_cons]
    by_cases first : x = i
    · rw [first, if_neg (by omega), if_pos (by omega), Function.update_self, Nat.sub_self,
        List.getD_cons_zero]
    · by_cases inside : i + 1 ≤ x ∧ x < i + 1 + l.length
      · rw [if_pos inside, if_pos (by omega), show x - i = x - (i + 1) + 1 by omega,
          List.getD_cons_succ]
      · rw [if_neg inside, if_neg (by omega), Function.update_of_ne first]
  exact congrArg (Shell.mk sh.program · sh.commands sh.cmdcount) same

/-- The bytes before a newline are put in the array. -/
theorem scriptLoop_bytes (plain : newline ∉ l) (inside : i + l.length ≤ maxLen) :
    scriptLoop executeProcess executeProcessPipe sh i k (l ++ file) =
      scriptLoop executeProcess executeProcessPipe (sh.stored i l) (i + l.length) k file := by
  induction l generalizing sh i with
  | nil => rw [stored_nil, List.nil_append, List.length_nil, Nat.add_zero]
  | cons c l ih =>
      rw [List.length_cons] at inside
      have other : c ≠ newline := fun same => plain (same ▸ List.mem_cons_self)
      have here : sh.setCmd i c = some { sh with line := Function.update sh.line i c } :=
        if_pos (by omega)
      rw [List.cons_append, scriptLoop, if_pos other, here]
      dsimp only
      rw [ih (fun member => plain (List.mem_cons_of_mem _ member)) (by omega), stored_cons,
        List.length_cons, Nat.add_assoc, Nat.add_comm 1]

/-- Too many bytes leave the array. -/
theorem scriptLoop_overrun (plain : newline ∉ l) (below : i ≤ maxLen)
    (outside : maxLen < i + l.length) :
    scriptLoop executeProcess executeProcessPipe sh i k (l ++ file) = ([], .lost) := by
  induction l generalizing sh i with
  | nil => exact absurd below (Nat.not_le_of_lt outside)
  | cons c l ih =>
      rw [List.length_cons] at outside
      have other : c ≠ newline := fun same => plain (same ▸ List.mem_cons_self)
      rw [List.cons_append, scriptLoop, if_pos other, Shell.setCmd]
      by_cases here : i < maxLen
      · rw [if_pos here]
        exact ih (fun member => plain (List.mem_cons_of_mem _ member)) here (by omega)
      · rw [if_neg here]

theorem withLine_eq (sh : Shell) (l : Text) (inside : l.length < maxLen) :
    (sh.stored 0 l).setCmd l.length 0 = some (sh.withLine l) := by
  rw [Shell.setCmd, if_pos inside, Shell.withLine]
  have same : Function.update (sh.stored 0 l).line l.length 0 =
      fun x => if x ≤ l.length then l.getD x 0 else sh.line x := by
    funext x
    by_cases last : x = l.length
    · rw [last, Function.update_self, if_pos (Nat.le_refl _), List.getD_eq_default _ _ (Nat.le_refl _)]
    · rw [Function.update_of_ne last]
      by_cases before : x < l.length
      · rw [if_pos (by omega)]
        exact if_pos ⟨Nat.zero_le x, by omega⟩
      · rw [if_neg (by omega)]
        exact if_neg (by omega)
  exact congrArg (fun line => some (Shell.mk sh.program line sh.commands sh.cmdcount)) same

/-- A file begins with a line, and is that line or goes on behind a newline. -/
theorem linesOf_eq (file : List Byte) :
    newline ∉ file ∧ linesOf file = [file] ∨
      ∃ rest, newline ∉ beforeKey newline file ∧ file = beforeKey newline file ++ newline :: rest ∧
        linesOf file = beforeKey newline file :: linesOf rest := by
  by_cases present : newline ∈ file
  · refine .inr ⟨behindKey newline file, notMem_beforeKey _ _, cut_at_key present, ?_⟩
    conv_lhs => rw [cut_at_key present]
    rw [linesOf, List.splitOn_append_cons_self, List.splitOn_eq_singleton (notMem_beforeKey _ _)]
    rfl
  · exact .inl ⟨present, List.splitOn_eq_singleton present⟩

theorem linesOf_ne_nil (file : List Byte) : linesOf file ≠ [] := by
  rcases linesOf_eq file with ⟨_, one⟩ | ⟨rest, _, _, more⟩
  · rw [one]
    exact List.cons_ne_nil _ _
  · rw [more]
    exact List.cons_ne_nil _ _

/-- The loop over bytes is a loop over lines. -/
theorem scriptLoop_eq (sh : Shell) (k : Nat) (file : List Byte) :
    scriptLoop executeProcess executeProcessPipe sh 0 k file =
      linesRun executeProcess executeProcessPipe sh k (linesOf file) := by
  induction size : file.length using Nat.strong_induction_on generalizing sh k file with
  | _ n ih =>
  rcases linesOf_eq file with ⟨plain, one⟩ | ⟨rest, plain, split, more⟩
  · rw [one, linesRun, ← List.append_nil file]
    by_cases inside : file.length ≤ maxLen
    · rw [scriptLoop_bytes plain (by omega), if_pos (by rwa [List.append_nil]), List.append_nil]
      rfl
    · rw [scriptLoop_overrun plain (Nat.zero_le _) (by omega), if_neg (by rwa [List.append_nil])]
  · rcases List.exists_cons_of_ne_nil (linesOf_ne_nil rest) with ⟨next, later, lines⟩
    have shorter : rest.length < n := by
      rw [← size, split, List.length_append, List.length_cons]
      omega
    rw [more, lines, linesRun, ← lines]
    conv_lhs => rw [split]
    by_cases inside : (beforeKey newline file).length < maxLen
    · rw [if_pos inside, scriptLoop_bytes plain (by omega), Nat.zero_add, scriptLoop,
        if_neg (not_not.mpr rfl), withLine_eq sh _ inside]
      dsimp only
      simp only [ih _ shorter _ _ _ rfl]
    · rw [if_neg inside]
      by_cases full : (beforeKey newline file).length = maxLen
      · rw [scriptLoop_bytes plain (by omega), Nat.zero_add, scriptLoop, if_neg (not_not.mpr rfl),
          Shell.setCmd, if_neg inside]
      · exact scriptLoop_overrun plain (Nat.zero_le _) (by omega)

/-! ## When a script is run line by line -/

section

variable (executeProcess : Shell → Option Shell) (executeProcessPipe : Shell → Nat → Option Shell)

/-- A line that is treated as it says: it fits the array, and it is to be passed over, or it is
to be executed, has no zero in it, and is one from which the parser comes back. -/
def Treated (sh : Shell) (l : Text) : Prop :=
  l.length < maxLen ∧ (marker <:+: beforeKey 0 l ∨
    (0 : Byte) ∉ l ∧ ¬ Blank l ∧ ∃ parsed, (sh.withLine l).parseCommand = .next parsed)

/-- All lines that a run comes to are treated as they say.  Behind the last newline there is
nothing that is to be executed. -/
def AllTreated (sh : Shell) : List Text → Prop
  | [] => True
  | [last] => last.length ≤ maxLen ∧ ¬ Worthy last
  | l :: next :: rest => Treated sh l ∧
      ∀ log sh', runLine executeProcess executeProcessPipe (sh.withLine l) 0 = (log, .read sh') →
        AllTreated sh' (next :: rest)

end

/-- A line in the array is read up to its first zero. -/
theorem stands_withLine (sh : Shell) (l : Text) : Stands (sh.withLine l).line 0 (beforeKey 0 l) := by
  have shorter := (beforeKey_front 0 l).length_le
  refine ⟨fun c member => ne_of_mem_of_not_mem member (notMem_beforeKey 0 l), fun j inside => ?_⟩
  have stored : (sh.withLine l).line (0 + j) = l.getD j 0 := by
    rw [Nat.zero_add]
    exact if_pos (inside.trans shorter)
  rw [stored]
  by_cases present : (0 : Byte) ∈ l
  · conv_lhs => rw [cut_at_key present]
    by_cases before : j < (beforeKey 0 l).length
    · exact List.getD_append _ _ _ _ before
    · have last : j = (beforeKey 0 l).length := by omega
      rw [List.getD_append_right _ _ _ _ (by omega), List.getD_eq_default (beforeKey 0 l) _ (by omega),
        last, Nat.sub_self, List.getD_cons_zero]
  · rw [beforeKey_of_notMem present]

theorem worthyFrom_cons (k : Nat) (l : Text) (lines : List Text) :
    worthyFrom k (l :: lines) =
      if Worthy l then (l, k) :: worthyFrom (k + 1) lines else worthyFrom (k + 1) lines := by
  unfold worthyFrom
  rw [List.zipIdx_cons, List.filter_cons]
  simp only [decide_eq_true_eq]

/-- The numbers of lines grow. -/
theorem le_of_mem_worthyFrom {lines : List Text} {entry : Text × Nat}
    (member : entry ∈ worthyFrom k lines) : k ≤ entry.2 :=
  List.le_snd_of_mem_zipIdx (List.mem_of_mem_filter member)

section

variable (short : l.length < maxLen)
include short

/-- The marker is searched for in what is read of the line. -/
theorem strstrLiteral_marker (sh : Shell) :
    ∃ found, strstrLiteral (sh.withLine l).line marker = some found ∧
      (found = none ↔ ¬ marker <:+: beforeKey 0 l) ∧
      stringAt (sh.withLine l).line 0 = some (beforeKey 0 l) := by
  have shorter := (beforeKey_front 0 l).length_le
  have bound : maxLen < 2 ^ 64 := by decide
  have room : (beforeKey 0 l).length < 2 ^ 64 := by omega
  have stands := stands_withLine sh l
  have string : ∀ c ∈ marker, c ≠ 0 := by decide
  rcases strstrLiteral_eq stands room string (by decide) with ⟨found, done, absent⟩
  exact ⟨found, done, absent, stands.stringAt room⟩

/-- A line with the marker is passed over. -/
theorem runLine_marked (marked : marker <:+: beforeKey 0 l) :
    runLine executeProcess executeProcessPipe (sh.withLine l) k = ([], .read (sh.withLine l)) := by
  rcases strstrLiteral_marker short sh with ⟨found, done, absent, text⟩
  rw [runLine, text, done]
  cases found with
  | none => exact absurd marked (absent.mp rfl)
  | some place => rfl

/-- Another line is parsed, and executed if the parser comes back. -/
theorem runLine_unmarked (unmarked : ¬ marker <:+: beforeKey 0 l) :
    runLine executeProcess executeProcessPipe (sh.withLine l) k =
      match (sh.withLine l).parseCommand with
      | .next (sh, num_args) =>
          ([(beforeKey 0 l, k)], dispatch executeProcess executeProcessPipe sh num_args)
      | _ => ([], .lost) := by
  rcases strstrLiteral_marker short sh with ⟨found, done, absent, text⟩
  obtain rfl := absent.mpr unmarked
  rw [runLine, text, done]

end

variable {run : Log × Ending} {log : Log} {rest : Shell → Log × Ending}

theorem not_follows_lost : ¬ Follows k lines (log, .lost) := fun follows => follows.1 rfl

/-- A line that is passed over as it is to be. -/
theorem follows_passed (unworthy : ¬ Worthy l) :
    Follows k (l :: lines) run ↔ Follows (k + 1) lines run := by
  unfold Follows
  rw [worthyFrom_cons, if_neg unworthy]

/-- What is executed first is the first line that is to be executed. -/
theorem first_executed {cmd : Text} (front : (cmd, k) :: log <+: worthyFrom k (l :: lines)) :
    cmd = l ∧ Worthy l := by
  rw [worthyFrom_cons] at front
  by_cases worthy : Worthy l
  · rw [if_pos worthy] at front
    exact ⟨congrArg Prod.fst (List.cons_prefix_cons.mp front).1, worthy⟩
  · rw [if_neg worthy] at front
    have later := le_of_mem_worthyFrom (front.subset List.mem_cons_self)
    exact absurd later (Nat.not_succ_le_self k)

/-- A line is executed, and the script goes on if the command comes back. -/
theorem follows_executed {cmd : Text} {num_args : Nat} :
    Follows k (l :: lines)
        (goOn ([(cmd, k)], dispatch executeProcess executeProcessPipe sh num_args) rest) ↔
      (cmd = l ∧ Worthy l) ∧ ∀ sh', dispatch executeProcess executeProcessPipe sh num_args = .read sh' →
        Follows (k + 1) lines (rest sh') := by
  unfold dispatch
  generalize (if num_args = 1 then executeProcess sh else executeProcessPipe sh num_args) = back
  cases back with
  | none =>
      constructor
      · exact fun follows => ⟨first_executed follows.2.1, fun sh' read => by cases read⟩
      · rintro ⟨⟨rfl, worthy⟩, _⟩
        refine ⟨fun lost => (by cases lost), ?_, fun sh' read => by cases read⟩
        rw [worthyFrom_cons, if_pos worthy]
        exact ⟨_, rfl⟩
  | some sh' =>
      constructor
      · intro follows
        obtain ⟨rfl, worthy⟩ := first_executed follows.2.1
        refine ⟨⟨rfl, worthy⟩, ?_⟩
        rintro _ ⟨⟩
        obtain ⟨back, front, whole⟩ := follows
        rw [worthyFrom_cons, if_pos worthy] at front whole
        exact ⟨back, (List.cons_prefix_cons.mp front).2,
          fun sh read => (List.cons.inj (whole sh read)).2⟩
      · rintro ⟨⟨rfl, worthy⟩, follows⟩
        obtain ⟨back, front, whole⟩ := follows sh' rfl
        unfold Follows
        rw [worthyFrom_cons, if_pos worthy]
        exact ⟨back, List.cons_prefix_cons.mpr ⟨rfl, front⟩,
          fun sh read => congrArg (List.cons _) (whole sh read)⟩

/-- A line without the marker is executed as it is to be if it has no zero and is not blank. -/
theorem executed_iff (unmarked : ¬ marker <:+: beforeKey 0 l) :
    (beforeKey 0 l = l ∧ Worthy l) ↔ (0 : Byte) ∉ l ∧ ¬ Blank l := by
  constructor
  · rintro ⟨whole, filled, _⟩
    exact ⟨whole ▸ notMem_beforeKey 0 l, filled⟩
  · rintro ⟨nonzero, filled⟩
    have whole := beforeKey_of_notMem nonzero
    exact ⟨whole, filled, whole ▸ unmarked⟩

/-- Lines are run as they say if and only if they are treated so. -/
theorem follows_iff (sh : Shell) (k : Nat) (lines : List Text) :
    Follows k lines (linesRun executeProcess executeProcessPipe sh k lines) ↔
      AllTreated executeProcess executeProcessPipe sh lines := by
  induction lines generalizing sh k with
  | nil => exact iff_of_true ⟨fun lost => (by cases lost), List.nil_prefix, fun _ _ => rfl⟩ trivial
  | cons l lines ih =>
  cases lines with
  | nil =>
      rw [linesRun, AllTreated]
      by_cases inside : l.length ≤ maxLen
      · rw [if_pos inside]
        simp only [inside, true_and]
        by_cases worthy : Worthy l
        · refine iff_of_false (fun follows => ?_) (fun unworthy => unworthy worthy)
          have all := follows.2.2 _ rfl
          rw [worthyFrom_cons, if_pos worthy] at all
          cases all
        · refine iff_of_true ((follows_passed worthy).mpr ?_) worthy
          exact ⟨fun lost => (by cases lost), List.nil_prefix, fun _ _ => rfl⟩
      · rw [if_neg inside]
        exact iff_of_false not_follows_lost fun treated => inside treated.1
  | cons next rest =>
      rw [linesRun, AllTreated, Treated]
      by_cases short : l.length < maxLen
      · rw [if_pos short]
        by_cases marked : marker <:+: beforeKey 0 l
        · have unworthy : ¬ Worthy l := fun worthy =>
            worthy.2 (marked.trans (beforeKey_front 0 l).isInfix)
          rw [runLine_marked short marked, runLine_marked short marked, follows_passed unworthy]
          refine (ih (sh.withLine l) (k + 1)).trans ⟨fun treated => ⟨⟨short, .inl marked⟩, ?_⟩, ?_⟩
          · rintro log sh' ⟨⟩
            exact treated
          · exact fun treated => treated.2 _ _ rfl
        · rw [runLine_unmarked short marked, runLine_unmarked short marked]
          cases parsed : (sh.withLine l).parseCommand with
          | next result =>
              have right := executed_iff marked
              refine follows_executed.trans ?_
              simp only [ih, right]
              constructor
              · rintro ⟨⟨nonzero, filled⟩, all⟩
                refine ⟨⟨short, .inr ⟨nonzero, filled, result, rfl⟩⟩, fun log sh' same => ?_⟩
                exact all sh' (congrArg Prod.snd same)
              · rintro ⟨⟨_, passed | ⟨nonzero, filled, _⟩⟩, all⟩
                · exact absurd passed marked
                · exact ⟨⟨nonzero, filled⟩, fun sh' read => all _ sh' (Prod.ext rfl read)⟩
          | left state =>
              refine iff_of_false not_follows_lost ?_
              rintro ⟨⟨_, passed | ⟨_, _, result, same⟩⟩, _⟩
              · exact marked passed
              · cases same
          | stuck =>
              refine iff_of_false not_follows_lost ?_
              rintro ⟨⟨_, passed | ⟨_, _, result, same⟩⟩, _⟩
              · exact marked passed
              · cases same
      · rw [if_neg short]
        exact iff_of_false not_follows_lost fun treated => short treated.1.1

end Sbrocks.Sbush
