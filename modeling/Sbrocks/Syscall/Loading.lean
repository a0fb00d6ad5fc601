import Sbrocks.Process.AddressSpace
import Sbrocks.Syscall.Calls

/-!
# What the loader, fork and execve do to memory

Names are looked up in the archive, programs are loaded, and address spaces and strings
are copied.
-/

namespace Sbrocks.Process

open Sbrocks.Mmu

namespace Kernel

variable {I J : Kernel → Prop} {fault : Fault} {k : Kernel}

section Reading

variable (answers : fault.Heeds Touched I J)

include answers

/-! ## The archive -/

theorem findSlash_touches (inv : I k) (name : CString) (i rounds : Nat) :
    Touches J k (k.findSlash fault name i rounds) := by
  induction rounds generalizing k i with
  | zero => trivial
  | succ rounds ih =>
      apply Touches.bind answers inv (char_touches answers inv name i)
      rintro ⟨k₁, c⟩ inv₁
      dsimp only
      split
      · exact Touched.refl k₁
      · exact ih inv₁ _

theorem changeName_touches (inv : I k) (name : CString) :
    Touches J k (k.changeName fault name) := by
  apply Touches.bind answers inv (findSlash_touches answers inv name _ _)
  rintro ⟨k₁, i⟩ inv₁
  exact chars_touches answers inv₁ name _ _

theorem memberSize_touches (inv : I k) (ustart : Word) :
    Touches J k (k.memberSize fault ustart) := by
  apply Touches.bind answers inv (chars_touches answers inv _ _ _)
  rintro ⟨k₁, text⟩ _
  exact Touched.refl k₁

theorem findOffsetLoop_touches (inv : I k) (fname : List Byte) (offset : Word) (rounds : Nat) :
    Touches J k (k.findOffsetLoop fault fname offset rounds) := by
  induction rounds generalizing k offset with
  | zero => trivial
  | succ rounds ih =>
      apply Touches.bind answers inv (strlen_touches answers inv _)
      rintro ⟨k₁, length⟩ inv₁
      dsimp only
      split
      · exact Touched.refl k₁
      · apply Touches.bind answers inv₁ (memberSize_touches answers inv₁ _)
        rintro ⟨k₂, size⟩ inv₂
        apply Touches.bind answers inv₂ (kstrcmp_touches answers inv₂ _ _)
        rintro ⟨k₃, matched⟩ inv₃
        dsimp only
        split
        · exact Touched.refl k₃
        · exact ih inv₃ _

theorem findOffsetForFile_touches (inv : I k) (name : CString) :
    Touches J k (k.findOffsetForFile fault name) := by
  apply Touches.bind answers inv (changeName_touches answers inv name)
  rintro ⟨k₁, fname⟩ inv₁
  exact findOffsetLoop_touches answers inv₁ fname _ _

theorem fopenLoop_touches (inv : I k) (name : CString) (t : Word) (rounds : Nat) :
    Touches J k (k.fopenLoop fault name t rounds) := by
  induction rounds generalizing k t with
  | zero => trivial
  | succ rounds ih =>
      unfold fopenLoop
      split
      · exact Touched.refl k
      · apply Touches.bind answers inv (kstrcmp_touches answers inv _ _)
        rintro ⟨k₁, same⟩ inv₁
        dsimp only
        split
        · exact Touched.refl k₁
        · exact ih inv₁ _

theorem fopen_touches (inv : I k) (name : CString) : Touches J k (k.fopen fault name) := by
  unfold fopen
  cases k.filelist with
  | none => trivial
  | some first => exact fopenLoop_touches answers inv name first _

/-! ## Program headers and arguments -/

theorem pushString_touches (inv : I k) (ustackptr str : Word) :
    Touches J k (k.pushString fault ustackptr str) := by
  apply Touches.bind answers inv (strlen_touches answers inv _)
  rintro ⟨k₁, length⟩ inv₁
  apply Touches.bind answers inv₁ (memcpy_touches answers inv₁ _ _ _)
  intro k₂ _
  exact Touched.refl k₂

theorem pushStrings_touches (inv : I k) (ustackptr : Word) (strs : List Word) :
    Touches J k (k.pushStrings fault ustackptr strs) := by
  induction strs with
  | nil => exact Touched.refl k
  | cons str rest ih =>
      apply Touches.bind answers inv ih
      rintro ⟨k₁, ptr, copies⟩ inv₁
      apply Touches.bind answers inv₁ (pushString_touches answers inv₁ ptr str)
      rintro ⟨k₂, ptr'⟩ _
      exact Touched.refl k₂

theorem pushWords_touches (inv : I k) (ustackptr : Word) (values : List Word) :
    Touches J k (k.pushWords fault ustackptr values) := by
  induction values with
  | nil => exact Touched.refl k
  | cons value rest ih =>
      apply Touches.bind answers inv ih
      rintro ⟨k₁, ptr⟩ inv₁
      apply Touches.bind answers inv₁ (storeLe_touches answers inv₁ _ _)
      intro k₂ _
      exact Touched.refl k₂

theorem loadPhdr_touches (inv : I k) (phdr : Word) : Touches J k (k.loadPhdr fault phdr) := by
  apply Touches.bind answers inv (loadLe_touches answers inv _ _)
  rintro ⟨k₁, pType⟩ inv₁
  apply Touches.bind answers inv₁ (loadLe_touches answers inv₁ _ _)
  rintro ⟨k₂, pFlags⟩ inv₂
  apply Touches.bind answers inv₂ (loadLe_touches answers inv₂ _ _)
  rintro ⟨k₃, pOffset⟩ inv₃
  apply Touches.bind answers inv₃ (loadLe_touches answers inv₃ _ _)
  rintro ⟨k₄, pVaddr⟩ inv₄
  apply Touches.bind answers inv₄ (loadLe_touches answers inv₄ _ _)
  rintro ⟨k₅, pFilesz⟩ inv₅
  apply Touches.bind answers inv₅ (loadLe_touches answers inv₅ _ _)
  rintro ⟨k₆, pMemsz⟩ _
  exact Touched.refl k₆

end Reading

variable (answers : fault.Heeds Spaced I J)

include answers

/-! ## The loader -/

theorem setupStack_spaces (inv : I k) (task : Word) (argv envp : List Word) :
    Spaces J k (k.setupStack fault task argv envp) := by
  have entered : Spaced k ((k.modMm (k.task task).mm fun s =>
      { s with stackVm := userStack - 8 }).writeCr3
        ((k.modMm (k.task task).mm fun s => { s with stackVm := userStack - 8 }).m.virtToPhy
          (k.task task).pml4e)) := .changes rfl
  apply Spaces.after entered
  have inv₀ := answers.stable inv entered
  apply Spaces.bind answers inv₀ (.of_touches (allocPagesAtVirt_touches _ _ _))
  intro k₁ inv₁
  apply Spaces.bind answers inv₁ (.of_touches (pushStrings_touches answers.touched inv₁ _ _))
  rintro ⟨k₂, ptr₂, addr1⟩ inv₂
  apply Spaces.bind answers inv₂ (.of_touches (pushStrings_touches answers.touched inv₂ _ _))
  rintro ⟨k₃, ptr₃, addr⟩ inv₃
  apply Spaces.bind answers inv₃ (.of_touches (pushWords_touches answers.touched inv₃ _ _))
  rintro ⟨k₄, ptr₄⟩ inv₄
  apply Spaces.bind answers inv₄ (.of_touches (pushWords_touches answers.touched inv₄ _ _))
  rintro ⟨k₅, ptr₅⟩ inv₅
  apply Spaces.bind answers inv₅ (.of_touches (storeLe_touches answers.touched inv₅ _ _))
  intro k₆ _
  exact Spaced.changes rfl

theorem loadSegment_spaces (inv : I k) (task elfHeader oldCr3 : Word) (ph : ProgramHeader) :
    Spaces J k (k.loadSegment fault task elfHeader oldCr3 ph) := by
  apply Spaces.bind answers inv (createVma_spaces _ _ _ _ _ _)
  rintro ⟨k₁, vma⟩ inv₁
  apply Spaces.bind answers inv₁ (addToVmaList_spaces _ _)
  intro k₂ inv₂
  have loaded : Spaced k₂ (k₂.writeCr3 (k₂.m.virtToPhy (k₂.task task).pml4e)) := .setMachine k₂ _
  apply Spaces.after loaded
  have inv₃ := answers.stable inv₂ loaded
  apply Spaces.bind answers inv₃ (.of_touches (allocPagesAtVirt_touches _ _ _))
  intro k₄ inv₄
  apply Spaces.bind answers inv₄ (.of_touches (memcpy_touches answers.touched inv₄ _ _ _))
  intro k₅ inv₅
  apply Spaces.bind answers inv₅ (.of_touches (memset_touches answers.touched inv₅ _ _ _))
  intro k₆ _
  exact Spaced.changes rfl

theorem loadSegments_spaces (inv : I k) (task elfHeader oldCr3 phentsize phdr : Word) (n : Nat) :
    Spaces J k (k.loadSegments fault task elfHeader oldCr3 phentsize phdr n) := by
  induction n generalizing k phdr with
  | zero => exact Spaced.refl k
  | succ n ih =>
      apply Spaces.bind answers inv (.of_touches (loadPhdr_touches answers.touched inv _))
      rintro ⟨k₁, ph⟩ inv₁
      apply Spaces.bind answers inv₁
      · show Spaces J k₁ _
        split
        · exact loadSegment_spaces answers inv₁ _ _ _ ph
        · exact Spaced.refl k₁
      · intro k₂ inv₂
        exact ih inv₂ _

theorem addHeapAndStack_spaces (inv : I k) (mm : Word) : Spaces J k (k.addHeapAndStack mm) := by
  have entered : Spaced k (k.modMm mm fun s => { s with brkStart := userHeap, brkEnd := userHeap }) :=
    .changes rfl
  apply Spaces.after entered
  apply Spaces.bind answers (answers.stable inv entered) (createVma_spaces _ _ _ _ _ _)
  rintro ⟨k₁, vma⟩ inv₁
  apply Spaces.bind answers inv₁ (addToVmaList_spaces _ _)
  intro k₂ inv₂
  apply Spaces.bind answers inv₂ (createVma_spaces _ _ _ _ _ _)
  rintro ⟨k₃, vma'⟩ inv₃
  apply Spaces.bind answers inv₃ (addToVmaList_spaces _ _)
  intro k₄ _
  exact Spaced.changes rfl

/-! ## Fork -/

theorem copyStackPage_spaces (inv : I k) (c p vaddr : Word) :
    Spaces J k (k.copyStackPage fault c p vaddr) := by
  unfold copyStackPage
  dsimp only
  split
  · apply Spaces.bind answers inv (allocPages_spaces _ _)
    rintro ⟨k₁, dummyVaddr⟩ inv₁
    apply Spaces.bind answers inv₁ (.of_touches (memcpy_touches answers.touched inv₁ _ _ _))
    intro k₂ inv₂
    have loaded : Spaced k₂ (k₂.writeCr3 (k₂.m.virtToPhy (k₂.task c).pml4e)) := .setMachine k₂ _
    apply Spaces.after loaded
    apply Spaces.bind answers (answers.stable inv₂ loaded) (mapVirtToPhy_spaces _ _ _)
    intro k₃ _
    exact Spaced.setMachine k₃ _
  · exact Spaced.refl k

theorem copyStackLoop_spaces (inv : I k) (c p end_ vaddr : Word) (rounds : Nat) :
    Spaces J k (k.copyStackLoop fault c p end_ vaddr rounds) := by
  induction rounds generalizing k vaddr with
  | zero => trivial
  | succ rounds ih =>
      unfold copyStackLoop
      split
      · apply Spaces.bind answers inv (copyStackPage_spaces answers inv c p vaddr)
        intro k₁ inv₁
        exact ih inv₁ _
      · exact Spaced.refl k

omit answers in
theorem sharePage_spaces (c p vaddr : Word) : Spaces J k (k.sharePage c p vaddr) := by
  have loaded : Spaced k (k.writeCr3 (k.m.virtToPhy (k.task c).pml4e)) := .setMachine k _
  apply Spaces.after loaded
  apply Flow.All.bind (mapVirtToPhy_spaces _ _ _)
  intro k₁ mapped
  exact mapped.trans (.changes rfl)

theorem shareLoop_spaces (inv : I k) (c p end_ vaddr : Word) (rounds : Nat) :
    Spaces J k (k.shareLoop c p end_ vaddr rounds) := by
  induction rounds generalizing k vaddr with
  | zero => trivial
  | succ rounds ih =>
      unfold shareLoop
      split
      · apply Spaces.bind answers inv (sharePage_spaces c p vaddr)
        intro k₁ inv₁
        exact ih inv₁ _
      · exact Spaced.refl k

theorem copyArea_spaces (inv : I k) (c p vmList : Word) :
    Spaces J k (k.copyArea fault c p vmList) := by
  apply Spaces.bind answers inv (createVma_spaces _ _ _ _ _ _)
  rintro ⟨k₁, vma⟩ inv₁
  apply Spaces.bind answers inv₁ (addToVmaList_spaces _ _)
  intro k₂ inv₂
  show Spaces J k₂ _
  split
  · exact copyStackLoop_spaces answers inv₂ _ _ _ _ _
  · exact shareLoop_spaces answers inv₂ _ _ _ _ _

theorem copyAreas_spaces (inv : I k) (c p : Word) (vmList : Option Word) (rounds : Nat) :
    Spaces J k (k.copyAreas fault c p vmList rounds) := by
  induction rounds generalizing k vmList with
  | zero => trivial
  | succ rounds ih =>
      cases vmList with
      | none => exact Spaced.refl k
      | some vma =>
          apply Spaces.bind answers inv (copyArea_spaces answers inv c p vma)
          intro k₁ inv₁
          exact ih inv₁ _

theorem setupMemory_spaces (inv : I k) (c p : Word) : Spaces J k (k.setupMemory fault c p) :=
  copyAreas_spaces answers inv c p _ _

/-! ## The arguments of execve -/

theorem copyUserString_spaces (inv : I k) (str : Word) :
    Spaces J k (k.copyUserString fault str) := by
  apply Spaces.bind answers inv (.of_touches (strlen_touches answers.touched inv _))
  rintro ⟨k₁, length⟩ inv₁
  apply Spaces.bind answers inv₁ (kmalloc_spaces _)
  rintro ⟨k₂, copy⟩ inv₂
  apply Spaces.bind answers inv₂ (.of_touches (kstrcpy_touches answers.touched inv₂ _ _))
  intro k₃ _
  exact Spaced.refl k₃

theorem copyArguments_spaces (inv : I k) (argvAddr : Word) (room : Nat) :
    Spaces J k (k.copyArguments fault argvAddr room) := by
  induction room generalizing k argvAddr with
  | zero =>
      apply Spaces.bind answers inv (.of_touches (loadLe_touches answers.touched inv _ _))
      rintro ⟨k₁, str⟩ _
      dsimp only
      split
      · exact Spaced.refl k₁
      · trivial
  | succ room ih =>
      apply Spaces.bind answers inv (.of_touches (loadLe_touches answers.touched inv _ _))
      rintro ⟨k₁, str⟩ inv₁
      dsimp only
      split
      · exact Spaced.refl k₁
      · apply Spaces.bind answers inv₁ (copyUserString_spaces answers inv₁ str)
        rintro ⟨k₂, copy⟩ inv₂
        apply Spaces.bind answers inv₂ (ih inv₂ _)
        rintro ⟨k₃, rest⟩ _
        exact Spaced.refl k₃

end Kernel

end Sbrocks.Process
