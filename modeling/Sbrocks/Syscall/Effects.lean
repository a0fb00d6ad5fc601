import Sbrocks.Process.Still
import Sbrocks.Process.Keyboard
import Sbrocks.Syscall.Loading

/-!
# What the functions behind the system calls do

Files, areas, pipes, the loader and the keyboard create, block and end no task,
apart from the pieces that are left to the modules on processes.
-/

namespace Sbrocks.Process

open Sbrocks.Mmu

variable {I J : Kernel → Prop} {fault : Fault} {resting : Word → Prop} {k : Kernel}

namespace Kernel

variable (answers : fault.Heeds (Still resting) I J)

/-! ## Files -/

theorem fileWithFd_asks (k : Kernel) (fd : Word) (test : File → Bool) :
    (k.fileWithFd fd test).All (fun _ => True) fun _ => False := by
  apply Flow.All.bind (P := fun _ : Word => True) (Flow.All.ofOption fun _ _ => trivial)
  intro first _
  apply Flow.All.bind (P := fun _ : Option Word => True) (Flow.All.ofOption fun _ _ => trivial)
  intro found _
  cases found with
  | none => trivial
  | some t => trivial

theorem dopen_asks (k : Kernel) (fd : Word) : (k.dopen fd).All (fun _ => True) fun _ => False := by
  apply (fileWithFd_asks k fd _).bind
  intro found _
  cases found with
  | none => trivial
  | some t =>
      dsimp only
      split <;> trivial

theorem dreadLoop_asks (k : Kernel) (name directory : List Byte) (t : Word) (rounds : Nat) :
    (k.dreadLoop name directory t rounds).All (fun _ => True) fun _ => False := by
  induction rounds generalizing t with
  | zero => trivial
  | succ rounds ih =>
      unfold dreadLoop
      split
      · trivial
      · dsimp only
        split
        · split
          · exact ih _
          · trivial
        · trivial

theorem dread_asks (k : Kernel) (fd : Word) (name : List Byte) :
    (k.dread fd name).All (fun _ => True) fun _ => False := by
  apply (fileWithFd_asks k fd _).bind
  intro found _
  cases found with
  | none => trivial
  | some t =>
      apply Flow.All.bind (P := fun _ => True)
      · exact Flow.All.ofOption fun _ _ => trivial
      · intro length _
        exact dreadLoop_asks k _ _ _ _

theorem newFile_stills : Stills resting J k k.newFile := by
  apply Flow.All.bind (Stills.of_spaces (kmallocStruct_spaces _ _))
  rintro ⟨k₁, f⟩ quiet
  exact quiet.trans (.same rfl rfl rfl rfl rfl)

theorem fclose_stills (fd : Word) : Stills resting J k (k.fclose fd) := by
  apply Stills.query (fileWithFd_asks k fd _)
  intro found
  cases found with
  | none => exact Still.refl k
  | some t => exact Still.same rfl rfl rfl rfl rfl

theorem fseek_stills (fd offset whence : Word) : Stills resting J k (k.fseek fd offset whence) := by
  apply Stills.query (fileWithFd_asks k fd _)
  intro found
  cases found with
  | none => exact Still.refl k
  | some t => exact Still.same rfl rfl rfl rfl rfl

include answers

theorem fread_stills (inv : I k) (fd buf nbytes : Word) :
    Stills resting J k (k.fread fault fd buf nbytes) := by
  apply Stills.query (fileWithFd_asks k fd _)
  intro found
  cases found with
  | none => exact Still.refl k
  | some t =>
      apply Stills.bind answers inv (.of_touches (findOffsetForFile_touches answers.spaced.touched inv _))
      rintro ⟨k₁, offset⟩ inv₁
      apply Stills.bind answers inv₁ (.of_touches (memcpy_touches answers.spaced.touched inv₁ _ _ _))
      intro k₂ _
      exact Still.same rfl rfl rfl rfl rfl

theorem fwrite_stills (inv : I k) (fd buf nbytes : Word) :
    Stills resting J k (k.fwrite fault fd buf nbytes) := by
  apply Stills.query (fileWithFd_asks k fd _)
  intro found
  cases found with
  | none => exact Still.refl k
  | some t =>
      apply Stills.bind answers inv (.of_touches (memcpy_touches answers.spaced.touched inv _ _ _))
      intro k₁ _
      exact Still.same rfl rfl rfl rfl rfl

/-! ## Copies of pipes -/

omit answers in
theorem addPipeToTask_stills (task pipe : Word) : Stills resting J k (k.addPipeToTask task pipe) := by
  unfold addPipeToTask
  split
  · have added : Still resting k (k.modTask task fun s => { s with pipe := some pipe }) := .modTask k task rfl
    exact added.trans (.same rfl rfl rfl rfl rfl)
  · apply Stills.ofOption
    intro last _
    exact Still.same rfl rfl rfl rfl rfl

theorem copyPipes_stills (inv : I k) (task : Word) (temp : Option Word) (rounds : Nat) :
    Stills resting J k (k.copyPipes task temp rounds) := by
  induction rounds generalizing k temp with
  | zero => trivial
  | succ rounds ih =>
      cases temp with
      | none => exact Still.refl k
      | some temp =>
          apply Stills.bind answers inv newFile_stills
          rintro ⟨k₁, pipe⟩ inv₁
          have copied : Still resting k₁ (k₁.copyPipe pipe temp) := .same rfl rfl rfl rfl rfl
          apply Stills.after copied
          have inv₂ := answers.stable inv₁ copied
          apply Stills.bind answers inv₂ (addPipeToTask_stills _ _)
          intro k₃ inv₃
          exact ih inv₃ _

/-! ## Pipes -/

omit answers in
theorem isFilePipe_asks (k : Kernel) (task fd : Word) :
    (k.isFilePipe task fd).All (fun _ => True) fun _ => False := by
  apply Flow.All.bind (P := fun _ : Option Word => True) (Flow.All.ofOption fun _ _ => trivial)
  intro found _
  trivial

theorem eachPipe_stills {act : Kernel → Word → Flow Kernel Kernel}
    (acts : ∀ {k : Kernel}, I k → ∀ temp, Stills resting J k (act k temp)) (inv : I k) (fd : Word)
    (temp : Option Word) (rounds : Nat) : Stills resting J k (k.eachPipe act fd temp rounds) := by
  induction rounds generalizing k temp with
  | zero => trivial
  | succ rounds ih =>
      cases temp with
      | none => exact Still.refl k
      | some temp =>
          apply Stills.bind answers inv
          · show Stills resting J k _
            split
            · exact acts inv temp
            · exact Still.refl k
          · intro k₁ inv₁
            exact ih inv₁ _

theorem writeToPipe_stills (inv : I k) (task fd buf : Word) (nbytes : BitVec 32) :
    Stills resting J k (k.writeToPipe fault task fd buf nbytes) := by
  apply eachPipe_stills answers (fun {k} inv temp => ?_) inv
  apply Stills.bind answers inv (.of_touches (memcpy_touches answers.spaced.touched inv _ _ _))
  intro k₁ _
  exact Still.same rfl rfl rfl rfl rfl

theorem readFromPipe_stills (inv : I k) (task fd outbuf : Word) (nbytes : BitVec 32) :
    Stills resting J k (k.readFromPipe fault task fd outbuf nbytes) := by
  apply eachPipe_stills answers (fun {k} inv temp => ?_) inv
  apply Stills.bind answers inv (.of_touches (memcpy_touches answers.spaced.touched inv _ _ _))
  intro k₁ _
  exact Still.same rfl rfl rfl rfl rfl

omit answers in
theorem removePipeFromTask_stills (task fd : Word) :
    Stills resting J k (k.removePipeFromTask task fd) := by
  unfold removePipeFromTask
  split
  · exact Still.refl k
  · rename_i first _
    split
    · have dropped : Still resting k (k.modTask task fun s => { s with pipe := k.nextFile first }) :=
        .modTask k task rfl
      exact dropped
    · apply Stills.ofOption
      intro found _
      cases found with
      | none => exact Still.refl k
      | some curr =>
          apply Stills.ofOption
          intro prev _
          cases prev with
          | none => exact Still.refl k
          | some prev => exact Still.same rfl rfl rfl rfl rfl

theorem wakeUpWaitingTask_stills (inv : I k)
    (awake : ∀ t, k.pipeReadWaitQueue = some t → ¬ resting t) :
    Stills resting J k (k.wakeUpWaitingTask fault) := by
  unfold wakeUpWaitingTask
  split
  · exact Still.refl k
  · rename_i queue waiting
    have woken := Still.wake k (awake queue waiting)
    apply Stills.after woken
    have inv₁ := answers.stable inv woken
    apply Stills.bind answers inv₁ (readFromPipe_stills answers inv₁ _ _ _ _)
    intro k₂ _
    exact Still.same rfl rfl rfl rfl rfl

theorem systemPipe_stills (inv : I k) (fds : Word) : Stills resting J k (k.systemPipe fault fds) := by
  apply Stills.ofOption
  intro task _
  apply Stills.bind answers inv newFile_stills
  rintro ⟨k₁, p1⟩ inv₁
  apply Stills.bind answers inv₁ newFile_stills
  rintro ⟨k₂, p2⟩ inv₂
  apply Stills.bind answers inv₂ (.of_spaces (allocPages_spaces _ _))
  rintro ⟨k₃, addr⟩ inv₃
  dsimp only
  generalize described : (Kernel.modFile _ p2 _) = k₃'
  have quiet : Still resting k₃ k₃' := by
    subst described
    exact .same rfl rfl rfl rfl rfl
  apply Stills.after quiet
  apply Stills.bind answers (answers.stable inv₃ quiet) (addPipeToTask_stills _ _)
  intro k₄ inv₄
  apply Stills.bind answers inv₄ (addPipeToTask_stills _ _)
  intro k₅ inv₅
  apply Stills.bind answers inv₅ (.of_touches (storeBytes_touches answers.spaced.touched inv₅ _ _))
  intro k₆ inv₆
  exact .of_touches (storeBytes_touches answers.spaced.touched inv₆ _ _)

omit answers in
theorem systemDup2_stills (dstfd srcfd : Word) : Stills resting J k (k.systemDup2 dstfd srcfd) := by
  apply Stills.ofOption
  intro task _
  split
  · have redirected : Still resting k (k.modTask task fun s => { s with writeRedirectionFd := dstfd }) :=
      .modTask k task rfl
    exact redirected
  · split
    · have redirected : Still resting k (k.modTask task fun s => { s with readRedirectionFd := dstfd }) :=
        .modTask k task rfl
      exact redirected
    · exact Still.refl k

theorem systemClose_stills (inv : I k) (fd : Word) : Stills resting J k (k.systemClose fd) := by
  apply Stills.ofOption
  intro task _
  apply Stills.query (isFilePipe_asks k task fd)
  intro pipe
  cases pipe with
  | false => exact fclose_stills fd
  | true =>
      apply Stills.bind answers inv (removePipeFromTask_stills _ _)
      intro k₁ _
      have closed : Still resting k₁ (k₁.modTask task (closeRedirection fd)) := by
        apply Still.modTask
        unfold closeRedirection
        split
        · rfl
        · split <;> rfl
      exact closed

/-! ## Reading and writing -/

omit answers in
theorem puts_touches (answers : fault.Heeds Touched I J) (inv : I k) (str : Word) :
    Touches J k (k.puts fault str) := by
  apply Touches.bind answers inv (chars_touches answers inv _ _ _)
  rintro ⟨k₁, text⟩ _
  exact Touched.refl k₁

/-- Whether `system_write` wakes the task that waits for a pipe. -/
def wakesReader (k : Kernel) (fd : Word) : Prop :=
  fd = 1 ∧ ∃ task, k.currentTask = some task ∧ k.isFilePipe task fd = .next false ∧
    (k.task task).writeRedirectionFd ≠ 0

theorem systemWrite_stills (inv : I k) (fd buf nbytes : Word)
    (awake : k.wakesReader fd → ∀ t, k.pipeReadWaitQueue = some t → ¬ resting t) :
    Stills resting J k (k.systemWrite fault fd buf nbytes) := by
  apply Stills.ofOption
  intro task running
  cases asked : k.isFilePipe task fd with
  | stuck => trivial
  | left state => exact ((isFilePipe_asks k task fd).of_left asked).elim
  | next pipe =>
      cases pipe with
      | true =>
          apply Stills.bind answers inv (writeToPipe_stills answers inv _ _ _ _)
          intro k₁ _
          exact Still.refl k₁
      | false =>
          simp only [Flow.next_bind, Bool.false_eq_true, ↓reduceIte]
          split
          · rename_i stdout
            split
            · rename_i redirected
              apply Flow.All.bind (writeToPipe_stills answers inv _ _ _ _)
              intro k₁ still
              have flagged : Still resting k { k₁ with pipeWriteFlag := true } :=
                still.trans (.same rfl rfl rfl rfl rfl)
              apply Stills.after flagged
              have inv₂ := answers.stable inv flagged
              apply Stills.bind answers inv₂
              · apply wakeUpWaitingTask_stills answers inv₂
                intro t waiting
                apply awake ⟨stdout, task, running, asked, redirected⟩
                rw [← flagged.pipeReadWaitQueue]
                exact waiting
              · intro k₃ _
                exact Still.refl k₃
            · apply Stills.bind answers inv
                (.of_touches (puts_touches answers.spaced.touched inv _))
              intro k₁ _
              exact Still.refl k₁
          · split
            · apply Stills.bind answers inv
                (.of_touches (puts_touches answers.spaced.touched inv _))
              intro k₁ _
              exact Still.refl k₁
            · exact fwrite_stills answers inv _ _ _

/-! ## Files and directories -/

theorem systemOpen_stills (inv : I k) (filepath : Word) :
    Stills resting J k (k.systemOpen fault filepath) := by
  apply Stills.bind answers inv (.of_touches (fopen_touches answers.spaced.touched inv _))
  rintro ⟨k₁, fd⟩ _
  exact Still.refl k₁

theorem systemGetcwd_stills (inv : I k) (buf : Word) : Stills resting J k (k.systemGetcwd fault buf) := by
  apply Stills.bind answers inv (.of_touches (kstrcpy_touches answers.spaced.touched inv _ _))
  intro k₁ _
  exact Still.refl k₁

theorem systemChdir_stills (inv : I k) (path : Word) : Stills resting J k (k.systemChdir fault path) := by
  apply Stills.bind answers inv (.of_touches (fopen_touches answers.spaced.touched inv _))
  rintro ⟨k₁, fd⟩ inv₁
  dsimp only
  split
  · exact Still.refl k₁
  · apply Stills.bind answers inv₁ (.of_touches (chars_touches answers.spaced.touched inv₁ _ _ _))
    rintro ⟨k₂, dpath⟩ _
    exact Still.same rfl rfl rfl rfl rfl

omit answers in
theorem storeDirent_touches (answers : fault.Heeds Touched I J) (inv : I k) (dir : Word) (file : File) :
    Touches J k (k.storeDirent fault dir file) := by
  apply Touches.bind answers inv (storeLe_touches answers inv _ _)
  intro k₁ inv₁
  apply Touches.bind answers inv₁ (storeLe_touches answers inv₁ _ _)
  intro k₂ inv₂
  apply Touches.bind answers inv₂ (storeBytes_touches answers inv₂ _ _)
  intro k₃ inv₃
  exact kstrcpy_touches answers inv₃ _ _

theorem systemGetdents_stills (inv : I k) (fd buf : Word) :
    Stills resting J k (k.systemGetdents fault fd buf) := by
  apply Stills.bind answers inv (Stills.of_spaces (kmalloc_spaces _))
  rintro ⟨k₁, dir⟩ inv₁
  apply Stills.query (dopen_asks k₁ fd)
  intro found
  cases found with
  | none => exact Still.refl k₁
  | some r =>
      apply Stills.bind answers inv₁ (.of_touches (storeDirent_touches answers.spaced.touched inv₁ _ _))
      intro k₂ inv₂
      apply Stills.ofOption
      intro task _
      have loaded : Still resting k₂ (k₂.writeCr3 (k₂.m.virtToPhy (k₂.task task).pml4e)) := .setMachine k₂ _
      apply Stills.after loaded
      have inv₃ := answers.stable inv₂ loaded
      apply Stills.bind answers inv₃ (.of_touches (memcpy_touches answers.spaced.touched inv₃ _ _ _))
      intro k₄ _
      exact Still.setMachine k₄ _

theorem systemReaddir_stills (inv : I k) (addr buf : Word) :
    Stills resting J k (k.systemReaddir fault addr buf) := by
  apply Stills.bind answers inv newFile_stills
  rintro ⟨k₁, dir⟩ inv₁
  apply Stills.bind answers inv₁ (.of_touches (chars_touches answers.spaced.touched inv₁ _ _ _))
  rintro ⟨k₂, name⟩ inv₂
  apply Stills.bind answers inv₂ (.of_touches (loadLe_touches answers.spaced.touched inv₂ _ _))
  rintro ⟨k₃, fd⟩ inv₃
  have named : Still resting k₃ (k₃.modFile dir fun s => { s with name := name, fd := fd }) := .same rfl rfl rfl rfl rfl
  apply Stills.after named
  have inv₄ := answers.stable inv₃ named
  apply Stills.query (dread_asks _ fd name)
  intro found
  cases found with
  | none => exact Still.refl _
  | some r =>
      apply Stills.bind answers inv₄ (.of_touches (storeDirent_touches answers.spaced.touched inv₄ _ _))
      intro k₅ inv₅
      exact .of_touches (memcpy_touches answers.spaced.touched inv₅ _ _ _)

/-! ## Processes -/

omit answers in
theorem systemBrk_stills (endBrk : Word) : Stills resting J k (k.systemBrk endBrk) := by
  apply Stills.ofOption
  intro task _
  dsimp only
  split
  · exact Still.refl k
  · apply Stills.ofOption
    intro found _
    cases found with
    | none => exact Still.same rfl rfl rfl rfl rfl
    | some heap => exact Still.same rfl rfl rfl rfl rfl

/-! ## The keyboard -/

theorem deliverLine_stills (inv : I k) (n : Nat)
    (awake : ∀ t, k.kb.waitingTask = some t → ¬ resting t) :
    Stills resting J k (k.deliverLine fault n) := by
  have flagged : Still resting k { k with kb := { k.kb with flag := false } } :=
    .same rfl rfl rfl rfl rfl
  apply Stills.after flagged
  have inv₁ := answers.stable inv flagged
  apply Stills.ofOption
  intro waiting found
  have loaded : Still resting { k with kb := { k.kb with flag := false } }
      (({ k with kb := { k.kb with flag := false } } : Kernel).writeCr3
        (k.m.virtToPhy (k.task waiting).pml4e)) := .setMachine _ _
  apply Stills.after loaded
  have inv₂ := answers.stable inv₁ loaded
  apply Flow.All.bind (storeBytes_touches answers.spaced.touched inv₂ _ _)
  intro k₃ touched
  change Touched _ k₃ at touched
  have stored : Still resting _ k₃ := touched.spaced.still
  apply Stills.after stored
  apply Stills.ofOption
  intro waiting' found'
  have same : waiting' = waiting := by
    have kept : k₃.kb.waitingTask = k.kb.waitingTask := by rw [touched.same]; rfl
    exact Option.some.inj (found'.symm.trans (kept.trans found))
  subst same
  have restored : Still resting k₃ ({ (k₃.writeCr3 k.m.cr3) with
      kb := { k₃.kb with i := 0, a := Function.update k₃.kb.a 0 0 } }) := .same rfl rfl rfl rfl rfl
  have woken : Still resting ({ (k₃.writeCr3 k.m.cr3) with
      kb := { k₃.kb with i := 0, a := Function.update k₃.kb.a 0 0 } })
      (({ (k₃.writeCr3 k.m.cr3) with
        kb := { k₃.kb with i := 0, a := Function.update k₃.kb.a 0 0 } } : Kernel).modTask waiting'
          fun s => { s with state := .runnable }) := .wake _ (awake waiting' found)
  exact restored.trans woken

theorem editLine_stills (inv : I k) (currentChar : Byte)
    (awake : currentChar = 0x0a ∨ ¬ (currentChar = 0x08 ∧ 0 < k.kb.i) ∧
      k.kb.count.toNat ≤ k.kb.i + 1 → ∀ t, k.kb.waitingTask = some t → ¬ resting t) :
    Stills resting J k (k.editLine fault currentChar) := by
  have put : ∀ c, Still resting k (k.putInLine c) := fun _ => .same rfl rfl rfl rfl rfl
  unfold editLine
  split
  · rename_i newline
    exact Stills.after (put _) (deliverLine_stills answers (answers.stable inv (put _)) _
      (awake (.inl newline)))
  · split
    · exact Still.same rfl rfl rfl rfl rfl
    · rename_i kept
      dsimp only
      split
      · rename_i full
        exact Stills.after (put _) (deliverLine_stills answers (answers.stable inv (put _)) _
          (awake (.inr ⟨kept, full⟩)))
      · exact put _

/-- The character of a key. -/
def charOf (k : Kernel) (scancode : Byte) : Byte :=
  (if k.kb.curentControl = .shiftKey then shiftcodes else kbdus).getD scancode.toNat 0

end Kernel

/-- The key is neither released nor a modifier. -/
def types (scancode : Byte) : Bool :=
  scancode &&& 0x80 = 0 && scancode ≠ 42 && scancode ≠ 56 && scancode ≠ 29

namespace Kernel

/-- The key completes the line that is awaited. -/
def completes (k : Kernel) (scancode : Byte) : Bool :=
  types scancode && k.kb.flag && (k.charOf scancode = 0x0a ||
    !(k.charOf scancode = 0x08 && decide (0 < k.kb.i)) && decide (k.kb.count.toNat ≤ k.kb.i + 1))

theorem kbHandler_stills (answers : fault.Heeds (Still resting) I J) (inv : I k) (scancode : Byte)
    (awake : k.completes scancode = true → ∀ t, k.kb.waitingTask = some t → ¬ resting t) :
    Stills resting J k (k.kbHandler fault scancode) := by
  unfold kbHandler
  split
  · exact Still.refl k
  · rename_i pressed
    split
    · exact Still.same rfl rfl rfl rfl rfl
    · rename_i noShift
      split
      · exact Still.same rfl rfl rfl rfl rfl
      · rename_i noAlt
        split
        · exact Still.same rfl rfl rfl rfl rfl
        · rename_i noControl
          apply Stills.bind answers inv
          · show Stills resting J k _
            split
            · rename_i scanf
              apply editLine_stills answers inv
              intro line
              apply awake
              have ends : k.charOf scancode = 0x0a ∨
                  ¬ (k.charOf scancode = 0x08 ∧ 0 < k.kb.i) ∧ k.kb.count.toNat ≤ k.kb.i + 1 := line
              have flag : k.kb.flag = true := scanf
              simp only [completes, types, flag, Bool.and_eq_true, Bool.or_eq_true,
                Bool.not_eq_true', Bool.and_eq_false_iff, decide_eq_true_eq,
                decide_eq_false_iff_not]
              rw [not_and_or] at ends
              exact ⟨⟨⟨⟨⟨not_not.mp pressed, noShift⟩, noAlt⟩, noControl⟩, trivial⟩, ends⟩
            · exact Still.refl k
          · intro k₁ _
            exact Still.same rfl rfl rfl rfl rfl

end Kernel

end Sbrocks.Process
