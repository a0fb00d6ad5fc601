import Sbrocks.Syscall.Effects

/-!
# Editing a line

What a read of the keyboard is given is the line as it was edited, as long as no backspace
is typed where nothing is pending, and the line ends before it is full.
-/

namespace Sbrocks.Process

variable {k k' : Kernel} {fault : Fault}

/-! ## The line discipline -/

/-- A backspace removes the last pending character, and any other character is appended; the
pending characters are handed over with a newline and when there are enough of them. -/
def edited (count : Nat) : List Byte → List Byte → Option (List Byte)
  | _, [] => none
  | pending, c :: cs =>
      if c = 0x08 then edited count pending.dropLast cs
      else if c = 0x0a ∨ count ≤ pending.length + 1 then some (pending ++ [c])
      else edited count (pending ++ [c]) cs

/-- Only the characters typed matter here, and how many are pending: a backspace is idle when
none is, and an even number of idle backspaces must have been typed when the line is complete.
It must be complete with a newline, or with its first character. -/
def Intact (count : Nat) : Nat → Bool → List Byte → Prop
  | _, _, [] => True
  | n, odd, c :: cs =>
      if c = 0x0a then odd = false
      else if c = 0x08 then
        if n ≠ 0 then Intact count (n - 1) odd cs
        else if odd then Intact count 0 false cs
        else 1 < count ∧ Intact count 0 true cs
      else if count ≤ n + odd.toNat + 1 then n = 0 ∧ odd = false
      else Intact count (n + 1) odd cs

/-! ## What the handler does with a line -/

namespace Kernel

/-- The pending characters. -/
def pendingLine (k : Kernel) : List Byte :=
  (List.range k.kb.i).map k.kb.a

/-- The characters that a typed one hands over. -/
def delivers (k : Kernel) (c : Byte) : Option (List Byte) :=
  if c = 0x0a then some (k.pendingLine ++ [c])
  else if c = 0x08 ∧ k.kb.i > 0 then none
  else if k.kb.count.toNat ≤ k.kb.i + 1 then some ((k.pendingLine ++ [c]).take 1)
  else none

/-- Deliver characters to the waiting task. -/
def deliverBytes (fault : Fault) (k : Kernel) (bytes : List Byte) : Flow Kernel Kernel := do
  let k := { k with kb := { k.kb with flag := false } }
  let kCr3 := k.m.cr3
  let waiting ← Flow.ofOption k.kb.waitingTask
  let k := k.writeCr3 (k.m.virtToPhy (k.task waiting).pml4e)
  let k ← k.storeBytes fault k.kb.str bytes
  let k := k.writeCr3 kCr3
  let k := { k with kb := { k.kb with i := 0, a := Function.update k.kb.a 0 0 } }
  k.wakeWaitingTask

/-- The line after a character that hands none over. -/
def editPending (k : Kernel) (c : Byte) : Kernel :=
  if c = 0x08 ∧ k.kb.i > 0 then
    { k with kb := { k.kb with a := Function.update k.kb.a k.kb.i 0, i := k.kb.i - 1 } }
  else k.putInLine c

theorem putInLine_pendingLine (k : Kernel) (c : Byte) :
    (k.putInLine c).pendingLine = k.pendingLine ++ [c] := by
  unfold pendingLine putInLine
  rw [List.range_succ, List.map_append, List.map_singleton]
  congr 1
  · apply List.map_congr_left
    intro j member
    exact Function.update_of_ne (Nat.ne_of_lt (List.mem_range.mp member)) ..
  · exact congrArg (fun last => [last]) (Function.update_self ..)

theorem pendingLine_length (k : Kernel) : k.pendingLine.length = k.kb.i := by
  rw [pendingLine, List.length_map, List.length_range]

/-- What is handed over reaches the waiting task, and what is not stays pending. -/
theorem editLine_delivers (fault : Fault) (k : Kernel) (c : Byte) :
    k.editLine fault c = match k.delivers c with
      | some bytes => (k.putInLine c).deliverBytes fault bytes
      | none => .next (k.editPending c) := by
  have line := k.putInLine_pendingLine c
  unfold editLine delivers editPending
  by_cases newline : c = 0x0a
  · rw [if_pos newline, if_pos newline]
    dsimp only
    rw [← line, ← newline]
    rfl
  · rw [if_neg newline, if_neg newline]
    by_cases back : c = 0x08 ∧ k.kb.i > 0
    · rw [if_pos back, if_pos back, if_pos back]
    · rw [if_neg back, if_neg back, if_neg back]
      have counts : (k.putInLine c).kb.count = k.kb.count ∧ (k.putInLine c).kb.i = k.kb.i + 1 :=
        ⟨rfl, rfl⟩
      dsimp only
      rw [counts.1, counts.2]
      split
      · have first : (List.range 1).map (k.putInLine c).kb.a =
            (k.pendingLine ++ [c]).take 1 := by
          rw [← line]
          show _ = ((List.range (k.kb.i + 1)).map _).take 1
          rw [← List.map_take, List.take_range]
          congr 2
        dsimp only
        rw [← first]
        rfl
      · rfl

theorem handlekey_delivers (fault : Fault) {k : Kernel} (scancode : Byte)
    (reads : k.kb.flag = true) : k.handlekey fault scancode =
    match k.delivers (k.charOf scancode) with
      | some bytes => do
          let k ← (k.putInLine (k.charOf scancode)).deliverBytes fault bytes
          return { k with kb := { k.kb with curentControl := .normalKey } }
      | none =>
          let k := k.editPending (k.charOf scancode)
          .next { k with kb := { k.kb with curentControl := .normalKey } } := by
  show (do
    let k ← (if k.kb.flag then k.editLine fault (k.charOf scancode) else .next k)
    return { k with kb := { k.kb with curentControl := .normalKey } }) = _
  rw [reads, if_pos rfl, editLine_delivers]
  cases k.delivers (k.charOf scancode) with
  | none => rfl
  | some bytes => rfl

theorem editPending_pendingLine (k : Kernel) (c : Byte) : (k.editPending c).pendingLine =
    if c = 0x08 ∧ k.kb.i > 0 then k.pendingLine.dropLast else k.pendingLine ++ [c] := by
  unfold editPending
  by_cases back : c = 0x08 ∧ k.kb.i > 0
  · rw [if_pos back, if_pos back]
    unfold pendingLine
    rw [List.dropLast_eq_take, List.length_map, List.length_range, ← List.map_take, List.take_range,
      Nat.min_eq_left (Nat.sub_le _ _)]
    apply List.map_congr_left
    intro j member
    have before : j < k.kb.i - 1 := List.mem_range.mp member
    apply Function.update_of_ne
    omega
  · rw [if_neg back, if_neg back]
    exact k.putInLine_pendingLine c

end Kernel

/-- The characters typed from a state on, and those that are handed over first.  Between the
keys the kernel does whatever leaves the line alone. -/
inductive LineTyped (fault : Fault) : Kernel → List Byte → Option (List Byte) → Prop
  | none {k : Kernel} : LineTyped fault k [] none
  | other {k k' : Kernel} {cs : List Byte} {handed : Option (List Byte)}
      (flag : k'.kb.flag = k.kb.flag) (i : k'.kb.i = k.kb.i) (a : k'.kb.a = k.kb.a)
      (count : k'.kb.count = k.kb.count) (rest : LineTyped fault k' cs handed) :
      LineTyped fault k cs handed
  | key {k k' : Kernel} (scancode : Byte) {cs : List Byte} {handed : Option (List Byte)}
      (nothing : k.delivers (k.charOf scancode) = none)
      (pressed : k.handlekey fault scancode = .next k') (rest : LineTyped fault k' cs handed) :
      LineTyped fault k (k.charOf scancode :: cs) handed
  | line {k : Kernel} (scancode : Byte) {cs bytes : List Byte}
      (delivered : k.delivers (k.charOf scancode) = some bytes) :
      LineTyped fault k (k.charOf scancode :: cs) (some bytes)

/-- A line is read: less is pending than was asked for, which is at most what a line holds. -/
structure AwaitsLine (k : Kernel) : Prop where
  flag : k.kb.flag = true
  room : k.kb.i < k.kb.count.toNat
  fits : k.kb.count.toNat ≤ 1024

/-- A backspace that was appended stands before everything else. -/
def shifted (odd : Bool) (pending : List Byte) : List Byte :=
  if odd then 0x08 :: pending else pending

theorem shifted_length (odd : Bool) (pending : List Byte) :
    (shifted odd pending).length = pending.length + odd.toNat := by
  cases odd <;> rfl

/-- What is edited ends with a character, not with a backspace. -/
theorem edited_last {count : Nat} {pending cs line : List Byte}
    (handed : edited count pending cs = some line) : ∃ front c, line = front ++ [c] ∧ c ≠ 0x08 := by
  induction cs generalizing pending with
  | nil => cases handed
  | cons c cs ih =>
      unfold edited at handed
      split at handed
      · exact ih handed
      · rename_i plain
        split at handed
        · cases handed
          exact ⟨pending, c, rfl, plain⟩
        · exact ih handed

theorem edited_ne {count : Nat} {pending cs : List Byte} :
    some [0x08] ≠ edited count pending cs := by
  intro same
  rcases edited_last same.symm with ⟨front, c, ends, plain⟩
  have last : [] ++ [0x08] = front ++ [c] := ends
  exact plain (List.singleton_inj.mp (List.append_inj_right' last rfl)).symm

/-- What a key that hands nothing over leaves. -/
theorem AwaitsLine.key {scancode : Byte} (reading : AwaitsLine k)
    (nothing : k.delivers (k.charOf scancode) = none)
    (pressed : k.handlekey fault scancode = .next k') :
    AwaitsLine k' ∧ k'.kb.count = k.kb.count ∧
      k'.pendingLine = (k.editPending (k.charOf scancode)).pendingLine ∧
      k.charOf scancode ≠ 0x0a ∧
      (k.charOf scancode = 0x08 ∧ k.kb.i > 0 ∨ k.kb.i + 1 < k.kb.count.toNat) := by
  have room := reading.room
  rw [Kernel.handlekey_delivers fault scancode reading.flag, nothing] at pressed
  cases pressed
  unfold Kernel.delivers at nothing
  split at nothing
  · cases nothing
  · rename_i plain
    split at nothing
    · rename_i back
      refine ⟨⟨?_, ?_, ?_⟩, ?_, rfl, plain, .inl back⟩
      · rw [Kernel.editPending, if_pos back]
        exact reading.flag
      · rw [Kernel.editPending, if_pos back]
        show k.kb.i - 1 < k.kb.count.toNat
        omega
      · rw [Kernel.editPending, if_pos back]
        exact reading.fits
      · rw [Kernel.editPending, if_pos back]
    · rename_i forward
      split at nothing
      · cases nothing
      · rename_i short
        refine ⟨⟨?_, ?_, ?_⟩, ?_, rfl, plain, .inr (Nat.lt_of_not_le short)⟩
        · rw [Kernel.editPending, if_neg forward]
          exact reading.flag
        · rw [Kernel.editPending, if_neg forward]
          exact Nat.lt_of_not_le short
        · rw [Kernel.editPending, if_neg forward]
          exact reading.fits
        · rw [Kernel.editPending, if_neg forward]
          rfl

/-- With a backspace that was appended or not, what is handed over is the edited line exactly
when it stays intact. -/
theorem LineTyped.intact_iff {cs : List Byte} {handed : Option (List Byte)}
    (typed : LineTyped fault k cs handed) (odd : Bool) (pending : List Byte) (reading : AwaitsLine k)
    (line : k.pendingLine = shifted odd pending) :
    handed = edited k.kb.count.toNat pending cs ↔
      Intact k.kb.count.toNat pending.length odd cs := by
  induction typed generalizing odd pending with
  | none => exact ⟨fun _ => trivial, fun _ => rfl⟩
  | @other k k' cs handed flag i a count _ ih =>
      have line' : k'.pendingLine = shifted odd pending := by
        rw [← line, Kernel.pendingLine, i, a]
        rfl
      have reading' : AwaitsLine k' :=
        ⟨flag.trans reading.flag, by rw [i, count]; exact reading.room,
          by rw [count]; exact reading.fits⟩
      rw [← count]
      exact ih odd pending reading' line'
  | @key k k' scancode cs handed nothing pressed _ ih =>
      have length : k.kb.i = pending.length + odd.toNat := by
        rw [← k.pendingLine_length, line, shifted_length]
      rcases reading.key nothing pressed with ⟨reading', count, after, plain, short⟩
      rw [Kernel.editPending_pendingLine] at after
      generalize k.charOf scancode = c at *
      rw [count] at ih
      unfold edited Intact
      rw [if_neg plain]
      by_cases back : c = 0x08
      · rw [if_pos back, if_pos back]
        cases pending with
        | nil =>
            cases odd with
            | true =>
                -- the backspace that was appended is removed
                have some : c = 0x08 ∧ k.kb.i > 0 := ⟨back, by rw [length]; decide⟩
                rw [if_pos some, line] at after
                have same := ih false [] reading' after
                simpa using same
            | false =>
                have none : ¬ (c = 0x08 ∧ k.kb.i > 0) := by
                  rw [length]
                  exact fun both => absurd both.2 (by decide)
                rw [if_neg none, line, back] at after
                have more : 1 < k.kb.count.toNat := by
                  rw [length] at short
                  exact short.resolve_left fun both => absurd both.2 (by decide)
                have same := ih true [] reading' after
                simpa [more] using same
        | cons b bs =>
            have some : c = 0x08 ∧ k.kb.i > 0 := ⟨back, by rw [length, List.length_cons]; omega⟩
            rw [if_pos some, line] at after
            have dropped : k'.pendingLine = shifted odd (b :: bs).dropLast := by
              rw [after]
              cases odd <;> rfl
            have same := ih odd (b :: bs).dropLast reading' dropped
            rw [List.length_dropLast] at same
            rw [if_pos (by simp)]
            exact same
      · rw [if_neg back, if_neg back]
        have forward : ¬ (c = 0x08 ∧ k.kb.i > 0) := fun both => back both.1
        have short := short.resolve_left forward
        rw [length] at short
        rw [if_neg forward, line] at after
        have longer : k'.pendingLine = shifted odd (pending ++ [c]) := by
          rw [after]
          cases odd <;> rfl
        have same := ih odd (pending ++ [c]) reading' longer
        rw [List.length_append, List.length_singleton] at same
        rw [if_neg (by rintro (newline | full); exacts [plain newline, by omega]),
          if_neg (by omega)]
        exact same
  | @line k scancode cs bytes delivered =>
      have length : k.kb.i = pending.length + odd.toNat := by
        rw [← k.pendingLine_length, line, shifted_length]
      generalize k.charOf scancode = c at *
      unfold Kernel.delivers at delivered
      unfold edited Intact
      by_cases newline : c = 0x0a
      · rw [if_pos newline] at delivered
        cases delivered
        rw [if_pos newline, if_neg (by rw [newline]; decide), if_pos (.inl newline), line]
        cases odd with
        | false => simp [shifted]
        | true =>
            simp only [shifted, if_true, List.cons_append, Option.some.injEq, Bool.true_eq_false,
              iff_false]
            intro same
            have lengths := congrArg List.length same
            simp at lengths
      · rw [if_neg newline] at delivered
        split at delivered
        · cases delivered
        · rename_i forward
          split at delivered
          · rename_i full
            cases delivered
            rw [line, if_neg newline]
            by_cases back : c = 0x08
            · have idle : k.kb.i = 0 := Nat.eq_zero_of_not_pos fun some => forward ⟨back, some⟩
              rw [length] at idle
              have nothing : pending = [] := List.eq_nil_of_length_eq_zero (by omega)
              have even : odd = false := by
                cases odd with
                | false => rfl
                | true => cases idle
              subst nothing even back
              have alone : k.kb.count.toNat ≤ 1 := by
                rw [length] at full
                exact full
              have different : some [0x08] ≠ edited k.kb.count.toNat [] cs :=
                edited_ne
              rw [if_pos rfl, if_pos rfl, if_neg (by simp), if_neg (by decide)]
              exact iff_of_false different fun both => absurd both.1 (by omega)
            · rw [length] at full
              rw [if_neg back, if_neg back, if_pos full]
              cases odd with
              | true =>
                  have different : some [0x08] ≠ edited k.kb.count.toNat pending (c :: cs) :=
                    edited_ne
                  rw [edited, if_neg back] at different
                  exact iff_of_false different fun both => absurd both.2 (by decide)
              | false =>
                  rw [if_pos (.inr full)]
                  cases pending with
                  | nil => exact iff_of_true rfl ⟨rfl, rfl⟩
                  | cons b bs =>
                      refine iff_of_false ?_ fun both => absurd both.1 (by simp)
                      intro same
                      have lengths := congrArg List.length (Option.some.inj same)
                      simp [shifted] at lengths
          · cases delivered

/-- What a read of the keyboard is given first is the edited line exactly when an even number of
backspaces has been typed where nothing was pending, and the line is complete with a newline or
with its first character.  Where more than one character fills it, only the first is handed
over. -/
theorem line_edited_iff {cs : List Byte} {handed : Option (List Byte)}
    (typed : LineTyped fault k cs handed) (reading : AwaitsLine k) :
    handed = edited k.kb.count.toNat k.pendingLine cs ↔
      Intact k.kb.count.toNat k.kb.i false cs := by
  rw [← k.pendingLine_length]
  exact typed.intact_iff false k.pendingLine reading rfl

/-- A read for up to so many characters, before the first is typed. -/
def awaiting (count : Word) : Kernel :=
  { Kernel.initial ⟨⟨fun _ => 0, fun _ _ => 0, []⟩, fun _ _ => 0, 0x1000, 0x1000, 0x10000⟩ 0x100 with
    kb := { curentControl := .normalKey, flag := true, i := 0, str := 0x2000, count := count,
            a := fun _ => 0, waitingTask := some 0x1000 } }

theorem reading_awaiting : AwaitsLine (awaiting 2) :=
  ⟨rfl, by decide, by decide⟩

/-- The keys `h` and return hand over the line. -/
theorem line_edited_iff_awaiting :
    ∃ handed, LineTyped (fun k _ => .left k) (awaiting 2) [0x68, 0x0a] handed ∧
      handed = edited 2 [] [0x68, 0x0a] := by
  have typed : LineTyped (fun k _ => .left k) (awaiting 2) [0x68, 0x0a] (some [0x68, 0x0a]) :=
    .key 0x23 rfl rfl (.line 0x1c rfl)
  exact ⟨_, typed, (line_edited_iff typed reading_awaiting).mpr (by simp [Intact, awaiting])⟩

/-- The keys `h` and `i` fill a line for two characters, and only the first is handed over. -/
theorem line_cut_awaiting : ¬ ∀ (fault : Fault) (k : Kernel) (cs : List Byte)
    (handed : Option (List Byte)), LineTyped fault k cs handed → AwaitsLine k →
      handed = edited k.kb.count.toNat k.pendingLine cs := by
  intro delivered
  have typed : LineTyped (fun k _ => .left k) (awaiting 2) [0x68, 0x69] (some [0x68]) :=
    .key 0x23 rfl rfl (.line 0x17 rfl)
  have wrong := delivered _ _ _ _ typed reading_awaiting
  exact absurd wrong (by decide)

end Sbrocks.Process
