import Sbrocks.Mmu.Rights
import Sbrocks.System.SharedHalf
import Sbrocks.System.Tasks

/-!
# What becomes of a page fault

A page fault of a user program should give the page to it, for reading and for writing, or
end it.  The handler does one or the other unless the page is present, the address stands
at the beginning of a page of the stack, or the entry at the top of the tables, which is
never rewritten, withholds a right.
-/

namespace Sbrocks.Mmu.Machine

open Sbrocks.Radix

variable {m m' : Machine} {roots : Word → Prop} {virt frame : Word}

/-- The page that holds an address is mapped, and its user may read and write it. -/
structure Usable (m : Machine) (addr : Word) : Prop where
  mapped : m.translate addr ≠ none
  user : m.permits addr ptUser = true
  writable : m.permits addr ptWritableFlag = true

/-- The pages of some address spaces keep their frames. -/
def KeepsFrames (spaces : Word → Prop) (m m' : Machine) : Prop :=
  ∀ r virt frame, spaces r → walk entryFrame m.mem r (path virt) = some frame →
    walk entryFrame m'.mem r (path virt) = some frame

/-- The entry at the top of the tables is missing, or grants a right. -/
def topGrants (m : Machine) (virt flag : Word) : Bool :=
  !isPresent (m.mem m.root (pml4eOffset virt)) || hasFlag (m.mem m.root (pml4eOffset virt)) flag

theorem KeepsFrames.of_outside {home : Word} (outside : OutsideSame home roots m m') :
    KeepsFrames (fun r => roots r ∧ r ≠ home) m m' := by
  rintro r virt frame ⟨isRoot, other⟩ found
  rw [outside.walks isRoot (path_length virt) (.inl other)]
  exact found

/-- A page that was not mapped before. -/
theorem KeepsFrames.of_granted {virt frame : Word} (spaces : Spaces roots m) (loaded : roots m.root)
    (granted : Granted roots virt frame m m') (unmapped : m.translate virt = none) :
    KeepsFrames roots m m' := by
  intro r other old isRoot found
  rw [granted.walks isRoot (path_length other)]
  · exact found
  · rintro ⟨same, here⟩
    rw [translate_eq_walk, ← same] at unmapped
    have also : walk entryFrame m.mem r (path other) = none := by
      rcases here with rfl | shared
      · exact unmapped
      · have half : SharedPath kernelHalf (path other) := by
          rw [same]
          exact shared
        rw [spaces.tables.forest.walk_eq_of_shared isRoot loaded half]
        exact unmapped
    rw [also] at found
    cases found

theorem permits_congr {first second : Word} (same : path first = path second) (flag : Word) :
    m.permits first flag = m.permits second flag := by
  rw [permits, permits, same]

/-- The rights of a granted page. -/
theorem Orderly.granted_permits (orderly : Orderly roots m) {flags flag : Word}
    (flagBits : FlagBits flags) (low : flag.toNat < 4096)
    (result : m.allocPagesAtVirt virt pageSize flags = some m') :
    m'.permits virt flag = (m.topGrants virt flag && hasFlag flags flag) := by
  rcases allocPagesAtVirt_page result with ⟨m₁, page, found, mapped⟩
  have alloc : Grown roots kernelHalf m.root [] m m₁ ∧ _ := Grown.alloc orderly.spaces.tables found
  obtain ⟨grown, _, _, mem⟩ := alloc
  have root₁ : m₁.root = m.root := congrArg mmPhyToPage grown.cr3
  have isRoot : roots m₁.root := root₁ ▸ orderly.loaded
  have spaces₁ := orderly.spaces.alloc found
  have own : kernelHalf (pml4eOffset virt) → entryFrame (m₁.mem m₁.root (pml4eOffset virt)) ≠ none := by
    intro held
    rw [show pml4eOffset virt = 511 from held]
    exact spaces₁.entry isRoot
  have same := permits_mapVirtToPhy_self spaces₁.tables flagBits isRoot own
    ((orderly.clean.alloc found).cleanNext _) low mapped
  rw [root₁, mem] at same
  exact same

end Sbrocks.Mmu.Machine

namespace Sbrocks.Process

open Sbrocks.Mmu Sbrocks.Mmu.Machine Sbrocks.Radix

variable {roots : Word → Prop} {home : Word} {m m' : Machine} {k k' : Kernel} {fault : Fault}
  {t addr : Word} {r : Regs} {n : Nat}

/-- Writing to frames without tables changes no rights. -/
theorem Wrote.permits {written : Place → Prop} (wrote : Wrote roots m m' written)
    (loaded : roots m.root) {addr : Word} (mapped : m.translate addr ≠ none) (flag : Word) :
    m'.permits addr flag = m.permits addr flag := by
  rcases Passes.of_mapped mapped with ⟨e₁, e₂, e₃, e₄, passes⟩
  have walks := passes.walks
  have same : ∀ {σ : List (BitVec 9)} {node : Word}, σ.length < 4 →
      Radix.walk entryFrame m.mem m.root σ = some node → m'.mem node = m.mem node :=
    fun short reached => wrote.tables _ ⟨_, _, loaded, short, reached⟩
  have passes' : Passes m' m.root addr e₁ e₂ e₃ e₄ := by
    refine ⟨?_, ?_, ?_, ?_, passes.present⟩
    · rw [same (by decide) (walk_nil m.root)]
      exact passes.first
    · rw [same (by simp) walks.1]
      exact passes.second
    · rw [same (by simp) walks.2.1]
      exact passes.third
    · rw [same (by simp [tablePath]) walks.2.2]
      exact passes.fourth
  rw [permits_of_passes passes rfl, permits_of_passes passes' wrote.root]


/-- The task is not in the task list any more. -/
def Terminated (t : Word) (k : Kernel) : Prop :=
  ∃ T : Table Word, View k T ∧ t ∉ T.live

/-- The handler goes back to a task that can use the page, or has ended the task, and no
page of the address spaces that remain has moved. -/
def ResolvedOrFatal (roots : Word → Prop) (k : Kernel) (t addr : Word) :
    Flow Kernel (Kernel × Regs) → Prop
  | .next (k', _) => k'.currentTask = some t ∧ k'.m.root = k.m.root ∧ Usable k'.m addr ∧
      KeepsFrames roots k.m k'.m
  | .left k' => Terminated t k' ∧ KeepsFrames (fun r => roots r ∧ r ≠ k.m.root) k.m k'.m
  | .stuck => False

namespace Kernel

/-! ## The end of the task -/

/-- The end of the current task does not return, whatever would come after it. -/
theorem systemExit_eq {α : Type} : (k.systemExit fault : Flow Kernel α) =
    match (k.systemExit fault : Flow Kernel Unit) with
    | .left k' => .left k'
    | _ => .stuck := by
  unfold systemExit
  cases k.currentTask with
  | none => rfl
  | some task =>
      rw [Flow.ofOption_some, Flow.next_bind, Flow.next_bind]
      cases k.leaveParent task with
      | left _ => rfl
      | stuck => rfl
      | next k₁ =>
          rw [Flow.next_bind, Flow.next_bind]
          cases k₁.freeTaskStruct fault task with
          | left _ => rfl
          | stuck => rfl
          | next k₂ =>
              rw [Flow.next_bind, Flow.next_bind]
              dsimp only
              cases ((k₂.modTask task fun s => { s with state := .stopped }).setCurrentTask
                none).yield <;> rfl

theorem systemExit_bind {α β : Type} (rest : α → Flow Kernel β) :
    (k.systemExit fault : Flow Kernel α) >>= rest = k.systemExit fault := by
  rw [systemExit_eq (α := α), systemExit_eq (α := β)]
  cases (k.systemExit fault : Flow Kernel Unit) <;> rfl

/-- `system_exit` comes to its end. -/
def Exits (fault : Fault) (k : Kernel) : Prop :=
  (k.systemExit fault : Flow Kernel Unit) ≠ .stuck

/-- Where control is left, the current task is out of the task list, and the other address
spaces are as they were. -/
theorem systemExit_terminates (frames : Kernel → Word → Regs) (depth : Nat) {T : Table Word}
    (homed : Homed home roots k) (view : View k T) (running : k.currentTask = some t)
    {α : Type} {P : α → Prop} : (k.systemExit (kernelFault frames depth) : Flow Kernel α).All P
      fun k' => Terminated t k' ∧ KeepsFrames (fun r => roots r ∧ r ≠ home) k.m k'.m := by
  have serving : Serving anything { T with resumed := false } k :=
    ⟨_, view.remark T.dying false T.forking T.newest, .start, rfl, rfl⟩
  have ended := (kernelFault_serving (show anything.Within anything from fun _ _ allowed => allowed)
    (fun _ => trivial) frames depth).2 (P := P) serving
  have outside := systemExit_shared (P := P) (kernelFault_spares frames depth) homed
  apply (ended.and outside).mono
  · exact fun _ both => both.1
  · rintro k' ⟨⟨T', view', _, _, gone⟩, same⟩
    exact ⟨⟨T', view', gone t (view.current.trans running)⟩, .of_outside same⟩

/-! ## The page of an answer -/

/-- The page that an area gives is the page of the address, unless a fault in the stack
falls on the beginning of a page. -/
theorem path_pageFor {area : VmAreaStruct} (below : ¬ virtKernelBase ≤ addr) :
    path (pageFor area addr) = path addr ↔ area.vmaType = .heap ∨ addr.toNat % 4096 ≠ 0 := by
  have room : addr.toNat < 0xFFFFFFFF80000000 := by
    rw [BitVec.le_def] at below
    exact Nat.lt_of_not_le below
  rw [path_eq_iff, ← BitVec.toNat_inj, vpn_toNat, vpn_toNat]
  unfold pageFor
  by_cases heap : area.vmaType = .heap
  · rw [if_pos heap, alignDown_toNat, iff_true_intro (Or.inl heap), iff_true]
    omega
  · rw [if_neg heap, BitVec.toNat_sub, alignUp_toNat (by omega), or_iff_right heap]
    change (2 ^ 64 - 4096 + (addr.toNat + 4095) / 4096 * 4096) % 2 ^ 64 / 2 ^ 12 % 2 ^ 36 = _ ↔ _
    omega

/-- A fault goes back to its task with the page in place only if its answer is the page of
the address and the entry at the top grants both rights; it ends its task where no area
answers. -/
def Resolvable (fault : Fault) (k : Kernel) (t addr : Word) (r : Regs) : Prop :=
  if virtKernelBase ≤ addr then (k.saveFrame r).Exits fault
  else r.errCode &&& 1 = 0 ∧
    match k.answering t addr with
    | some (some p) => ((k.vma p).vmaType = .heap ∨ addr.toNat % 4096 ≠ 0) ∧
        k.m.topGrants addr ptUser = true ∧ k.m.topGrants addr ptWritableFlag = true
    | some none => (k.saveFrame r).Exits fault
    | none => False

/-- A fault that an area answers. -/
theorem resolvedOrFatal_answered (fault : Fault) {p : Word} (fit : Fit roots k)
    (running : k.currentTask = some t)
    (loaded : k.m.root = mmPhyToPage (k.m.virtToPhy (k.task t).pml4e)) (canonical : Canonical addr)
    (unmapped : k.m.translate addr = none) (frames : k.m.phy.HasFrames (n + 4))
    (below : ¬ virtKernelBase ≤ addr) (absent : ¬ r.errCode &&& 1 ≠ 0)
    (found : k.answering t addr = some (some p)) :
    ResolvedOrFatal roots k t addr (k.pageFaultHandler fault addr r) ↔
      ((k.vma p).vmaType = .heap ∨ addr.toNat % 4096 ≠ 0) ∧
        k.m.topGrants addr ptUser = true ∧ k.m.topGrants addr ptWritableFlag = true := by
  have canonical' : (k.vma p).vmaType = .heap → Canonical (alignDown addr) := by
    intro _
    unfold Canonical at canonical ⊢
    rw [alignDown_toNat]
    omega
  rcases pageFaultHandler_answered fault fit running found below absent canonical' frames with
    ⟨m₁, m₂, frame, r', result, handled, granted, wrote, _⟩
  have orderly : Orderly roots (k.m.writeCr3 (k.m.virtToPhy (k.task t).pml4e)) :=
    fit.settled.orderly.writeCr3 (fit.isRoot running)
  have root : (k.m.writeCr3 (k.m.virtToPhy (k.task t).pml4e)).root = k.m.root := loaded.symm
  have root₂ : m₂.root = k.m.root := wrote.root.trans (granted.root.trans root)
  have loaded₁ : roots m₁.root := granted.orderly.loaded
  have translated : m₂.translate addr = m₁.translate addr := wrote.translate loaded₁ addr
  rw [handled]
  show (_ ∧ m₂.root = k.m.root ∧ Usable m₂ addr ∧ KeepsFrames roots k.m m₂) ↔ _
  by_cases here : path (pageFor (k.vma p) addr) = path addr
  · rw [iff_true_intro ((path_pageFor below).mp here), true_and]
    have mapped : m₁.translate addr ≠ none := by
      rw [translate_eq_walk, ← here, ← translate_eq_walk, granted.translate]
      exact Option.some_ne_none frame
    have top : ∀ flag, (k.m.writeCr3 (k.m.virtToPhy (k.task t).pml4e)).topGrants
        (pageFor (k.vma p) addr) flag = k.m.topGrants addr flag := by
      intro flag
      have offset : pml4eOffset (pageFor (k.vma p) addr) = pml4eOffset addr := by
        simp only [path, tablePath, List.cons_append, List.cons.injEq] at here
        exact here.1
      unfold topGrants
      rw [root, offset]
      rfl
    have rights : ∀ flag : Word, flag.toNat < 4096 → hasFlag userFlags flag = true →
        m₂.permits addr flag = k.m.topGrants addr flag := by
      intro flag low both
      rw [wrote.permits loaded₁ mapped, ← permits_congr here,
        orderly.granted_permits flagBits_user low result, top]
      exact (congrArg _ both).trans (Bool.and_true _)
    have user := rights ptUser (by decide) (by decide)
    have writable := rights ptWritableFlag (by decide) (by decide)
    constructor
    · rintro ⟨_, _, usable, _⟩
      exact ⟨user ▸ usable.user, writable ▸ usable.writable⟩
    · rintro ⟨grantsUser, grantsWritable⟩
      refine ⟨(saveFrame_alike k r).1.currentTask.trans running, root₂, ?_, ?_⟩
      · exact ⟨translated ▸ mapped, user.trans grantsUser, writable.trans grantsWritable⟩
      · have before : (k.m.writeCr3 (k.m.virtToPhy (k.task t).pml4e)).translate
            (pageFor (k.vma p) addr) = none := by
          rw [translate_eq_walk, here, root, ← unmapped, translate_eq_walk]
          rfl
        intro s virt old isRoot walked
        rw [wrote.walk isRoot (Nat.le_of_eq (path_length virt))]
        exact KeepsFrames.of_granted orderly.spaces orderly.loaded granted before s virt old isRoot
          walked
  · have elsewhere : ¬ ((k.vma p).vmaType = .heap ∨ addr.toNat % 4096 ≠ 0) :=
      fun inside => here ((path_pageFor below).mpr inside)
    have still : m₁.translate addr = none := by
      rw [translate_eq_walk, granted.walks loaded₁ (path_length addr) fun same => here same.1.symm,
        ← unmapped, translate_eq_walk, granted.root, root]
      rfl
    constructor
    · rintro ⟨_, _, usable, _⟩
      exact absurd (translated.trans still) usable.mapped
    · rintro ⟨inside, _⟩
      exact absurd inside elsewhere

/-- A fault that ends its task. -/
theorem resolvedOrFatal_exit (frames : Kernel → Word → Regs) (depth : Nat) {T : Table Word}
    (fit : Fit roots k) (view : View k T) (running : k.currentTask = some t)
    (loaded : k.m.root = mmPhyToPage (k.m.virtToPhy (k.task t).pml4e)) :
    ResolvedOrFatal roots k t addr ((k.saveFrame r).systemExit (kernelFault frames depth)) ↔
      (k.saveFrame r).Exits (kernelFault frames depth) := by
  rcases saveFrame_alike k r with ⟨alike, same⟩
  have homed : Homed k.m.root roots k := by
    refine ⟨fit, fun {s} current => ?_⟩
    rw [running] at current
    cases current
    exact loaded.symm
  have left := systemExit_terminates (P := fun _ : Unit => False) frames depth
    (homed.relink alike same) (view.saveFrame r) (alike.currentTask.trans running)
  rw [same] at left
  unfold Exits
  rw [systemExit_eq]
  cases outcome : ((k.saveFrame r).systemExit (kernelFault frames depth) : Flow Kernel Unit) with
  | next value =>
      rw [outcome] at left
      exact left.elim
  | stuck => exact ⟨False.elim, fun stuck => absurd rfl stuck⟩
  | left k' =>
      rw [outcome] at left
      exact ⟨fun _ => by simp, fun _ => left⟩

end Kernel

/-! ## The heap and the stack of a task -/

/-- The table of the processes of a task alone. -/
def aloneTable : Table Word where
  live := [0x1000]
  free := []
  known := [0x1000]
  current := some 0x1000
  pid := 1
  proc := fun _ => (default : TaskStruct).proc
  dying := false
  forking := none
  newest := none
  resumed := false
  faults := 0

theorem heapTask_view (m : Machine) : View (heapTask m) aloneTable where
  live := ⟨rfl, rfl⟩
  free := rfl
  disjoint := fun _ _ => List.not_mem_nil
  known := rfl
  liveKnown := fun _ => id
  current := rfl
  pid := rfl
  faults := rfl
  proc := fun _ => rfl

/-- A task that runs in its own address space, without a page in the lower half. -/
theorem exists_heapTask : ∃ roots m, Fit roots (heapTask m) ∧ m.phy.HasFrames 16 ∧
    m.root = mmPhyToPage (m.virtToPhy secondRoot) ∧
    ∀ virt, pml4eOffset virt ≠ 511 → m.translate virt = none := by
  rcases exists_twoSpaces with ⟨roots, m, _, fit, frames, _, _, _, _, empty⟩
  have settled : Settled roots (m.writeCr3 (m.virtToPhy secondRoot)) :=
    fit.settled.writeCr3 (fit.isRoot (t := 0x1000) rfl)
  have alike : Alike (heapTask m) (heapTask (m.writeCr3 (m.virtToPhy secondRoot))) :=
    .setMachine _ _
  have same : (m.writeCr3 (m.virtToPhy secondRoot)).virtToPhy secondRoot = m.virtToPhy secondRoot :=
    fit.virtToPhy alike settled (.of_mem rfl) (t := 0x1000) rfl
  refine ⟨roots, m.writeCr3 (m.virtToPhy secondRoot), fit.alike alike settled (.of_mem rfl) rfl,
    frames, ?_, ?_⟩
  · rw [same]
    rfl
  · intro virt user
    rw [translate_eq_walk]
    exact empty virt user

/-- The same task, with a stack in the place of its heap. -/
def stackTask (m : Machine) : Kernel :=
  { heapTask m with
    vma := fun _ => { (default : VmAreaStruct) with
      vmaType := .stack, vmStart := 0x700000, vmEnd := 0x6F0000 } }

end Sbrocks.Process
