import Sbrocks.Mmu.GrantedPages
import Sbrocks.Process.Contents
import Sbrocks.Process.Devices
import Sbrocks.Syscall.Calls

/-!
# The shared half

All address spaces share the tables below one entry of their roots.  A page fault of a
user program is answered with a page of its heap or stack, and the end of the heap is
whatever the program last asked for.  As long as the page that answers a fault lies
outside the shared entry, no fault changes what the kernel's addresses are translated to.
-/

namespace Sbrocks.Mmu.Machine

open Sbrocks.Radix

variable {m m' m'' : Machine} {roots : Word → Prop} {virt frame : Word}

/-- The addresses of the shared entry are translated as before, under every root. -/
structure SharedSame (roots : Word → Prop) (m m' : Machine) : Prop where
  walks : ∀ {r : Word} {ρ : List (BitVec 9)}, roots r → ρ.length = 4 → SharedPath kernelHalf ρ →
    walk entryFrame m'.mem r ρ = walk entryFrame m.mem r ρ

theorem SharedSame.of_mem (same : m'.mem = m.mem) : SharedSame roots m m' :=
  ⟨fun _ _ _ => by rw [same]⟩

theorem SharedSame.trans (first : SharedSame roots m m') (second : SharedSame roots m' m'') :
    SharedSame roots m m'' :=
  ⟨fun isRoot full shared =>
    (second.walks isRoot full shared).trans (first.walks isRoot full shared)⟩

/-- The kernel's addresses have the physical addresses they had. -/
theorem SharedSame.virtToPhy (same : SharedSame roots m m') (spaces : Spaces roots m)
    (loaded : roots m.root) (loaded' : roots m'.root) (kernel : pml4eOffset virt = 511) :
    m'.virtToPhy virt = m.virtToPhy virt := by
  apply virtToPhy_congr
  rw [translate_eq_walk, translate_eq_walk, same.walks loaded' (path_length virt) kernel]
  exact spaces.tables.forest.walk_eq_of_shared loaded' loaded kernel

/-- Outside one address space, and in the shared half of all, everything is translated as
before. -/
structure OutsideSame (home : Word) (roots : Word → Prop) (m m' : Machine) : Prop where
  walks : ∀ {r : Word} {ρ : List (BitVec 9)}, roots r → ρ.length = 4 →
    r ≠ home ∨ SharedPath kernelHalf ρ → walk entryFrame m'.mem r ρ = walk entryFrame m.mem r ρ

theorem OutsideSame.of_mem {home : Word} (same : m'.mem = m.mem) : OutsideSame home roots m m' :=
  ⟨fun _ _ _ => by rw [same]⟩

theorem OutsideSame.trans {home : Word} (first : OutsideSame home roots m m')
    (second : OutsideSame home roots m' m'') : OutsideSame home roots m m'' :=
  ⟨fun isRoot full outside =>
    (second.walks isRoot full outside).trans (first.walks isRoot full outside)⟩

theorem OutsideSame.shared {home : Word} (same : OutsideSame home roots m m') :
    SharedSame roots m m' :=
  ⟨fun isRoot full shared => same.walks isRoot full (.inr shared)⟩

/-- A page outside the shared entry, in the loaded address space. -/
theorem Granted.outsideSame (granted : Granted roots virt frame m m')
    (user : pml4eOffset virt ≠ 511) : OutsideSame m.root roots m m' := by
  refine ⟨fun {r ρ} isRoot full outside => ?_⟩
  apply granted.walks isRoot full
  rintro ⟨rfl, home | shared⟩
  · exact outside.elim (fun other => other home) user
  · exact user shared

/-- The pages of user programs lie in frames that are in use and hold no table. -/
structure Settled (roots : Word → Prop) (m : Machine) : Prop where
  orderly : Orderly roots m
  leaves : ∀ {r leaf : Word} {ρ : List (BitVec 9)}, roots r → ρ.length = 4 →
    ¬ SharedPath kernelHalf ρ → walk entryFrame m.mem r ρ = some leaf →
    m.phy.inUse leaf = true ∧ ¬ IsTable entryFrame m.mem roots 4 leaf

theorem Settled.writeCr3 (settled : Settled roots m) {cr3 : Word}
    (isRoot : roots (mmPhyToPage cr3)) : Settled roots (m.writeCr3 cr3) :=
  ⟨settled.orderly.writeCr3 isRoot, settled.leaves⟩

theorem Settled.granted (settled : Settled roots m) (granted : Granted roots virt frame m m') :
    Settled roots m' := by
  refine ⟨granted.orderly, fun {r leaf ρ} isRoot full user found => ?_⟩
  by_cases here : ρ = path virt ∧ (r = m.root ∨ pml4eOffset virt = 511)
  · rw [here.1, granted.hit isRoot here.2] at found
    cases found
    exact ⟨granted.inUse, granted.notTable⟩
  · rw [granted.walks isRoot full here] at found
    rcases settled.leaves isRoot full user found with ⟨used, data⟩
    exact ⟨granted.used leaf used, granted.data used data⟩

/-- A further address space leaves the pages of user programs in order. -/
theorem Settled.newSpace {pml4e frame : Word} (settled : Settled roots m)
    (space : NewSpace roots pml4e frame m m') : Settled (fun r => r = frame ∨ roots r) m' := by
  refine ⟨space.orderly, fun {r leaf ρ} isRoot full user found => ?_⟩
  rcases isRoot with rfl | older
  · rw [space.empty full user] at found
    cases found
  · rw [space.user older full user] at found
    rcases settled.leaves older full user found with ⟨used, data⟩
    exact ⟨space.used leaf used, (space.data used data).1⟩

end Sbrocks.Mmu.Machine

namespace Sbrocks.Process

open Sbrocks.Mmu Sbrocks.Mmu.Machine Sbrocks.Radix

variable {roots : Word → Prop} {home : Word} {m m' : Machine} {k k' : Kernel} {fault : Fault}

theorem Wrote.sharedSame {written : Place → Prop} (wrote : Wrote roots m m' written) :
    SharedSame roots m m' :=
  ⟨fun isRoot full _ => wrote.walk isRoot (Nat.le_of_eq full)⟩

theorem Wrote.outsideSame {written : Place → Prop} (wrote : Wrote roots m m' written) :
    OutsideSame home roots m m' :=
  ⟨fun isRoot full _ => wrote.walk isRoot (Nat.le_of_eq full)⟩

theorem Wrote.settled {written : Place → Prop} (wrote : Wrote roots m m' written)
    (settled : Settled roots m) (used : ∀ place, written place → m.phy.inUse place.1 = true) :
    Settled roots m' := by
  refine ⟨wrote.orderly settled.orderly used, fun {r leaf ρ} isRoot full user found => ?_⟩
  rw [wrote.walk isRoot (Nat.le_of_eq full)] at found
  rw [wrote.isTable_iff, wrote.rest]
  exact settled.leaves isRoot full user found

/-! ## States that page faults leave in order -/

/-- The address spaces are in order, the current task has one of its own, and its first
area begins in the lower half. -/
structure Fit (roots : Word → Prop) (k : Kernel) : Prop where
  settled : Settled roots k.m
  kernelAddr : ∀ {t : Word}, k.currentTask = some t → pml4eOffset (k.task t).pml4e = 511
  isRoot : ∀ {t : Word}, k.currentTask = some t →
    roots (mmPhyToPage (k.m.virtToPhy (k.task t).pml4e))
  process : ∀ {t : Word}, k.currentTask = some t →
    mmPhyToPage (k.m.virtToPhy (k.task t).pml4e) ≠ k.m.kernelRoot
  low : ∀ {t p : Word}, k.currentTask = some t → (k.mm (k.task t).mm).vmaList = some p →
    (k.vma p).vmStart.toNat < 2 ^ 47

/-- The same task is current, with the same address space, and all areas begin where they
began. -/
structure Alike (k k' : Kernel) : Prop where
  currentTask : k'.currentTask = k.currentTask
  pml4e : ∀ t, (k'.task t).pml4e = (k.task t).pml4e
  mm : ∀ t, (k'.task t).mm = (k.task t).mm
  vmaList : ∀ p, (k'.mm p).vmaList = (k.mm p).vmaList
  vmStart : ∀ p, (k'.vma p).vmStart = (k.vma p).vmStart

/-- The root of the current task stays where it is. -/
theorem Fit.virtToPhy (fit : Fit roots k) (alike : Alike k k') (settled : Settled roots k'.m)
    (shared : SharedSame roots k.m k'.m) {t : Word} (running : k.currentTask = some t) :
    k'.m.virtToPhy (k'.task t).pml4e = k.m.virtToPhy (k.task t).pml4e := by
  rw [alike.pml4e]
  exact shared.virtToPhy fit.settled.orderly.spaces fit.settled.orderly.loaded
    settled.orderly.loaded (fit.kernelAddr running)

theorem Fit.alike (fit : Fit roots k) (alike : Alike k k') (settled : Settled roots k'.m)
    (shared : SharedSame roots k.m k'.m) (kCr3 : k'.m.kCr3 = k.m.kCr3) : Fit roots k' := by
  have kernelRoot : k'.m.kernelRoot = k.m.kernelRoot := congrArg mmPhyToPage kCr3
  refine ⟨settled, fun running => ?_, fun running => ?_, fun running => ?_, fun running listed => ?_⟩
  · rw [alike.pml4e]
    exact fit.kernelAddr (alike.currentTask ▸ running)
  · rw [fit.virtToPhy alike settled shared (alike.currentTask ▸ running)]
    exact fit.isRoot (alike.currentTask ▸ running)
  · rw [fit.virtToPhy alike settled shared (alike.currentTask ▸ running), kernelRoot]
    exact fit.process (alike.currentTask ▸ running)
  · rw [alike.mm, alike.vmaList] at listed
    rw [alike.vmStart]
    exact fit.low (alike.currentTask ▸ running) listed

/-- A change of the structures alone. -/
theorem Fit.relink (fit : Fit roots k) (alike : Alike k k') (same : k'.m = k.m) : Fit roots k' := by
  apply fit.alike alike
  · rw [same]
    exact fit.settled
  · exact .of_mem (congrArg Machine.mem same)
  · rw [same]

theorem Alike.refl (k : Kernel) : Alike k k :=
  ⟨rfl, fun _ => rfl, fun _ => rfl, fun _ => rfl, fun _ => rfl⟩

theorem Alike.setMachine (k : Kernel) (m : Machine) : Alike k (k.setMachine m) :=
  ⟨rfl, fun _ => rfl, fun _ => rfl, fun _ => rfl, fun _ => rfl⟩

theorem Alike.trans {k'' : Kernel} (first : Alike k k') (second : Alike k' k'') : Alike k k'' where
  currentTask := second.currentTask.trans first.currentTask
  pml4e t := (second.pml4e t).trans (first.pml4e t)
  mm t := (second.mm t).trans (first.mm t)
  vmaList p := (second.vmaList p).trans (first.vmaList p)
  vmStart p := (second.vmStart p).trans (first.vmStart p)

theorem Alike.modTask (k : Kernel) (t : Word) {change : TaskStruct → TaskStruct}
    (pml4e : (change (k.task t)).pml4e = (k.task t).pml4e)
    (mm : (change (k.task t)).mm = (k.task t).mm) : Alike k (k.modTask t change) :=
  ⟨rfl, fun _ => k.modTask_task_field TaskStruct.pml4e t _ pml4e,
    fun _ => k.modTask_task_field TaskStruct.mm t _ mm, fun _ => rfl, fun _ => rfl⟩

theorem Alike.modMm (k : Kernel) (p : Word) {change : MmStruct → MmStruct}
    (vmaList : (change (k.mm p)).vmaList = (k.mm p).vmaList) : Alike k (k.modMm p change) := by
  refine ⟨rfl, fun _ => rfl, fun _ => rfl, fun q => ?_, fun _ => rfl⟩
  by_cases here : q = p
  · rw [here]
    exact (congrArg MmStruct.vmaList (Function.update_self p _ k.mm)).trans vmaList
  · exact congrArg MmStruct.vmaList (Function.update_of_ne here _ _)

theorem Alike.modVma (k : Kernel) (p : Word) {change : VmAreaStruct → VmAreaStruct}
    (vmStart : (change (k.vma p)).vmStart = (k.vma p).vmStart) : Alike k (k.modVma p change) := by
  refine ⟨rfl, fun _ => rfl, fun _ => rfl, fun _ => rfl, fun q => ?_⟩
  by_cases here : q = p
  · rw [here]
    exact (congrArg VmAreaStruct.vmStart (Function.update_self p _ k.vma)).trans vmStart
  · exact congrArg VmAreaStruct.vmStart (Function.update_of_ne here _ _)

theorem saveFrame_alike (k : Kernel) (r : Regs) : Alike k (k.saveFrame r) ∧ (k.saveFrame r).m = k.m := by
  unfold Kernel.saveFrame
  split
  · exact ⟨.refl k, rfl⟩
  · exact ⟨.modTask k _ rfl rfl, rfl⟩

theorem saveFrame_records (k : Kernel) (r : Regs) : (k.saveFrame r).mm = k.mm ∧
    (k.saveFrame r).vma = k.vma ∧ (k.saveFrame r).vmaStructs = k.vmaStructs := by
  unfold Kernel.saveFrame
  split <;> exact ⟨rfl, rfl, rfl⟩

/-- A state in order whose current task has the given address space. -/
structure Homed (home : Word) (roots : Word → Prop) (k : Kernel) : Prop extends Fit roots k where
  home : ∀ {t : Word}, k.currentTask = some t →
    mmPhyToPage (k.m.virtToPhy (k.task t).pml4e) = home

theorem Fit.homed (fit : Fit roots k) : ∃ home, Homed home roots k := by
  cases running : k.currentTask with
  | none =>
      refine ⟨0, fit, fun {t} current => ?_⟩
      rw [running] at current
      cases current
  | some t =>
      refine ⟨mmPhyToPage (k.m.virtToPhy (k.task t).pml4e), fit, fun {s} current => ?_⟩
      rw [running] at current
      cases current
      rfl

theorem Homed.alike (fit : Homed home roots k) (alike : Alike k k') (settled : Settled roots k'.m)
    (shared : SharedSame roots k.m k'.m) (kCr3 : k'.m.kCr3 = k.m.kCr3) : Homed home roots k' := by
  refine ⟨fit.toFit.alike alike settled shared kCr3, fun running => ?_⟩
  have running' := alike.currentTask ▸ running
  rw [fit.toFit.virtToPhy alike settled shared running']
  exact fit.home running'

theorem Homed.relink (fit : Homed home roots k) (alike : Alike k k') (same : k'.m = k.m) :
    Homed home roots k' := by
  apply fit.alike alike
  · rw [same]
    exact fit.settled
  · exact .of_mem (congrArg Machine.mem same)
  · rw [same]

/-- A computation after which the state is in order again, and that does not change how
the kernel's addresses are translated, also where control leaves it. -/
def Spares (home : Word) (roots : Word → Prop) (k : Kernel) (flow : Flow Kernel Kernel) : Prop :=
  flow.All (fun k' => Homed home roots k' ∧ OutsideSame home roots k.m k'.m)
    fun k' => OutsideSame home roots k.m k'.m

/-- Loading a root changes no translation. -/
theorem Spares.of_writeCr3 {flow : Flow Kernel Kernel} {cr3 : Word}
    (spares : Spares home roots (k.writeCr3 cr3) flow) : Spares home roots k flow :=
  Flow.All.mono spares (fun _ result => ⟨result.1, ⟨result.2.walks⟩⟩) fun _ shared => ⟨shared.walks⟩

/-- Page faults that the kernel takes below the first half of the addresses. -/
def Fault.Spares (fault : Fault) (home : Word) (roots : Word → Prop) : Prop :=
  ∀ k vaddr, Homed home roots k → vaddr.toNat < 2 ^ 47 → Process.Spares home roots k (fault k vaddr)

namespace Kernel

/-! ## Memory -/

theorem touch_spares (spares : fault.Spares home roots) (fit : Homed home roots k) {virt : Word}
    (low : virt.toNat < 2 ^ 47) :
    (k.touch fault virt).All (fun result => Homed home roots result.1 ∧ OutsideSame home roots k.m result.1.m ∧
      result.1.m.translate virt = some result.2) fun k' => OutsideSame home roots k.m k'.m := by
  unfold touch
  split
  · cases found : k.m.translate virt with
    | some frame => exact ⟨fit, .of_mem rfl, found⟩
    | none =>
        apply Flow.All.bind (spares k virt fit low)
        rintro k₁ ⟨fit₁, shared₁⟩
        split
        · rename_i frame found₁
          exact ⟨fit₁, shared₁, found₁⟩
        · trivial
  · trivial

/-- A byte of a user page. -/
theorem storeByte_spares (spares : fault.Spares home roots) (fit : Homed home roots k) {virt : Word}
    (low : virt.toNat < 2 ^ 47) (byte : Byte) : Spares home roots k (k.storeByte fault virt byte) := by
  apply Flow.All.bind (touch_spares spares fit low)
  rintro ⟨k₁, frame⟩ ⟨fit₁, shared₁, found⟩
  have user : ¬ SharedPath kernelHalf (path virt) := by
    intro shared
    have entry : (pml4eOffset virt).toNat = 511 := congrArg BitVec.toNat shared
    rw [pml4eOffset_toNat] at entry
    omega
  rw [translate_eq_walk] at found
  rcases fit₁.settled.leaves fit₁.settled.orderly.loaded (path_length virt) user found with
    ⟨used, data⟩
  dsimp only at used data
  have wrote : Wrote roots k₁.m (k₁.m.setByte (frame, virt.setWidth 12) byte)
      fun place => place.1 = frame := by
    apply Wrote.setByte
    · exact data
    · rfl
  have stored : k₁.m.setEntry frame (wordOffset virt)
      (withByte (k₁.m.mem frame (wordOffset virt)) (laneOf virt) byte) =
      k₁.m.setByte (frame, virt.setWidth 12) byte := by
    rw [wordOffset_eq, laneOf_eq]
    rfl
  show Homed home roots (k₁.setMachine _) ∧ OutsideSame home roots k.m _
  rw [stored]
  have settled : Settled roots (k₁.m.setByte (frame, virt.setWidth 12) byte) := by
    apply wrote.settled fit₁.settled
    rintro place rfl
    exact used
  exact ⟨fit₁.alike (.setMachine k₁ _) settled wrote.sharedSame rfl, shared₁.trans wrote.outsideSame⟩

/-- Clearing upwards stops at the end of the lower half. -/
theorem memset_spares (spares : fault.Spares home roots) (fit : Homed home roots k) {str : Word}
    (low : str.toNat ≤ 2 ^ 47) (c : Byte) (n : Nat) : Spares home roots k (k.memset fault str c n) := by
  induction n generalizing k str with
  | zero => exact ⟨fit, .of_mem rfl⟩
  | succ n ih =>
      rcases Nat.lt_or_eq_of_le low with below | top
      · apply Flow.All.bind (storeByte_spares spares fit below c)
        rintro k₁ ⟨fit₁, shared₁⟩
        have next : (str + 1).toNat ≤ 2 ^ 47 := by
          rw [BitVec.toNat_add]
          change (str.toNat + 1) % 2 ^ 64 ≤ 2 ^ 47
          omega
        exact (ih fit₁ next).mono (fun _ result => ⟨result.1, shared₁.trans result.2⟩)
          fun _ => shared₁.trans
      · have outside : canonicalAddr str = false := by
          rw [Bool.eq_false_iff, ne_eq, canonicalAddr_iff]
          unfold Canonical
          omega
        unfold memset storeByte touch
        rw [outside]
        trivial

/-! ## The end of a task -/

theorem leaveParent_alike (task : Word) {J : Kernel → Prop} :
    (k.leaveParent task).All (fun k' => Alike k k' ∧ k'.m = k.m) J := by
  unfold leaveParent
  split
  · apply Flow.All.bind (P := fun _ => True) (Flow.All.ofOption fun _ _ => trivial)
    intro parent _
    apply Flow.All.bind (P := fun _ => True) (Flow.All.ofOption fun _ _ => trivial)
    intro parent' _
    have woken : Alike k (k.modTask parent fun s => { s with state := .runnable }) :=
      .modTask k parent rfl rfl
    have counted : Alike k ((k.modTask parent fun s => { s with state := .runnable }).modTask parent'
        fun s => { s with childCount := s.childCount - 1 }) :=
      woken.trans (.modTask _ parent' rfl rfl)
    dsimp only
    split
    · exact ⟨counted.trans (.modTask _ parent' rfl rfl), rfl⟩
    · exact ⟨counted, rfl⟩
  · exact ⟨.refl k, rfl⟩

theorem removeFromTaskList_alike (task : Word) {J : Kernel → Prop} :
    (k.removeFromTaskList task).All (fun k' => Alike k k' ∧ k'.m = k.m) J := by
  have stopped : Alike k (k.modTask task fun s => { s with state := .stopped }) :=
    .modTask k task rfl rfl
  unfold removeFromTaskList
  dsimp only
  split
  · exact ⟨stopped, rfl⟩
  · split
    · exact ⟨stopped.trans ⟨rfl, fun _ => rfl, fun _ => rfl, fun _ => rfl, fun _ => rfl⟩, rfl⟩
    · apply Flow.All.bind (P := fun _ => True) (Flow.All.ofOption fun _ _ => trivial)
      intro found _
      split
      · exact ⟨stopped, rfl⟩
      · exact ⟨stopped.trans (.modTask _ _ rfl rfl), rfl⟩

theorem kfreeLoop_mem (m : Machine) (n : Nat) (vaddr : Word) : (m.kfreeLoop n vaddr).mem = m.mem := by
  induction n generalizing m vaddr with
  | zero => rfl
  | succ n ih =>
      unfold kfreeLoop
      dsimp only
      rw [ih]
      split <;> rfl

/-- Clearing and freeing an area. -/
theorem freeArea_shared (spares : fault.Spares home roots) (fit : Homed home roots k) {task vma : Word}
    (low : (k.vma vma).vmStart.toNat < 2 ^ 47) : (k.freeArea fault task vma).All
      (fun k' => OutsideSame home roots k.m k'.m) fun k' => OutsideSame home roots k.m k'.m := by
  have cleared : ∀ n vaddr size, (do
      let k ← k.memset fault (k.vma vma).vmStart 0 n
      return k.setMachine (k.m.kfree vaddr size) : Flow Kernel Kernel).All
      (fun k' => OutsideSame home roots k.m k'.m) fun k' => OutsideSame home roots k.m k'.m := by
    intro n vaddr size
    apply Flow.All.bind (memset_spares spares fit (Nat.le_of_lt low) 0 n)
    rintro k₁ ⟨_, shared₁⟩
    exact shared₁.trans (.of_mem (kfreeLoop_mem k₁.m _ _))
  unfold freeArea
  dsimp only
  split
  · exact cleared _ _ _
  · split
    · exact cleared _ _ _
    · exact .of_mem rfl

/-- A freed area is the last of its list. -/
theorem addToFreeVmList_alone (vma : Word) {J : Kernel → Prop} : (k.addToFreeVmList vma).All
    (fun k' => k'.m = k.m ∧ k'.nextVma vma = none) J := by
  have alone : ∀ k' : Kernel, (k'.modVma vma fun s => { s with next := none }).nextVma vma = none :=
    fun k' => congrArg VmAreaStruct.next (Function.update_self vma _ k'.vma)
  unfold addToFreeVmList
  split
  · exact ⟨rfl, alone _⟩
  · apply Flow.All.bind (P := fun _ => True) (Flow.All.ofOption fun _ _ => trivial)
    intro last _
    exact ⟨rfl, alone _⟩

/-- Putting the first area on the free list cuts it off, so no further area is freed. -/
theorem freeAreas_shared (spares : fault.Spares home roots) (fit : Homed home roots k) {task : Word}
    {vma : Option Word} (low : ∀ p, vma = some p → (k.vma p).vmStart.toNat < 2 ^ 47)
    (rounds : Nat) : (k.freeAreas fault task vma rounds).All
      (fun k' => OutsideSame home roots k.m k'.m) fun k' => OutsideSame home roots k.m k'.m := by
  cases rounds with
  | zero => trivial
  | succ rounds =>
      cases vma with
      | none => exact .of_mem rfl
      | some vma =>
          apply Flow.All.bind (freeArea_shared spares fit (low vma rfl))
          intro k₁ shared₁
          dsimp only
          apply Flow.All.bind (addToFreeVmList_alone vma)
          rintro k₂ ⟨same, alone⟩
          rw [alone]
          cases rounds with
          | zero => trivial
          | succ rounds => exact shared₁.trans (.of_mem (congrArg Machine.mem same))

theorem freeTaskMmStruct_shared (spares : fault.Spares home roots) (fit : Homed home roots k) {task : Word}
    (running : k.currentTask = some task) :
    (k.freeTaskMmStruct fault (k.task task).mm task).All
      (fun k' => OutsideSame home roots k.m k'.m) fun k' => OutsideSame home roots k.m k'.m := by
  unfold freeTaskMmStruct
  dsimp only
  obtain ⟨k₁, counted⟩ : ∃ k₁, k₁ = k.modMm (k.task task).mm fun s =>
    { s with totalVmSize := 0, stackVm := 0 } := ⟨_, rfl⟩
  have alike : Alike k k₁ := by
    rw [counted]
    exact .modMm k _ rfl
  have same : k₁.m = k.m := by rw [counted]; rfl
  have fit₁ := fit.relink alike same
  rw [← counted, ← same]
  apply Flow.All.bind
  · apply freeAreas_shared spares fit₁
    intro p listed
    rw [alike.vmStart]
    exact fit.low running listed
  · intro k₂ shared₂
    exact shared₂

theorem addToFreeTaskList_mem (task : Word) {J : Kernel → Prop} :
    (k.addToFreeTaskList task).All (fun k' => k'.m = k.m) J := by
  unfold addToFreeTaskList
  split
  · rfl
  · apply Flow.All.bind (P := fun _ => True) (Flow.All.ofOption fun _ _ => trivial)
    intro last _
    rfl

theorem freeTaskStruct_shared (spares : fault.Spares home roots) (fit : Homed home roots k) {task : Word}
    (running : k.currentTask = some task) : (k.freeTaskStruct fault task).All
      (fun k' => OutsideSame home roots k.m k'.m) fun k' => OutsideSame home roots k.m k'.m := by
  have fit₁ : Homed home roots (k.writeCr3 (k.m.virtToPhy (k.task task).pml4e)) :=
    fit.alike (.setMachine k _) (fit.settled.writeCr3 (fit.isRoot running)) (.of_mem rfl) rfl
  unfold freeTaskStruct
  dsimp only
  apply Flow.All.bind (removeFromTaskList_alike task)
  rintro k₂ ⟨alike₂, same₂⟩
  have fit₂ := fit₁.relink alike₂ same₂
  have running₂ : k₂.currentTask = some task := alike₂.currentTask.trans running
  have before : OutsideSame home roots k.m k₂.m := by
    rw [same₂]
    exact .of_mem rfl
  apply Flow.All.bind ((freeTaskMmStruct_shared spares fit₂ running₂).mono
    (fun _ => before.trans) fun _ => before.trans)
  intro k₃ shared₃
  apply (addToFreeTaskList_mem task).imp
  intro k₄ same₄
  rw [same₄]
  exact shared₃.trans (.of_mem rfl)

/-! ## The scheduler -/

theorem updateTimeSlicesLoop_m (t : Option Word) (rounds : Nat) {J : Kernel → Prop} :
    (k.updateTimeSlicesLoop t rounds).All (fun k' => k'.m = k.m) J := by
  induction rounds generalizing k t with
  | zero => trivial
  | succ rounds ih =>
      cases t with
      | none => rfl
      | some t => exact ih (k := k.modTask t updateTimeSlice) _

theorem scheduleProcess_mem {J : Kernel → Prop} :
    k.scheduleProcess.All (fun k' => k'.m.mem = k.m.mem) J := by
  unfold scheduleProcess
  split
  · apply Flow.All.bind (getNextTask_only none)
    intro found _
    cases found <;> rfl
  · apply Flow.All.bind (getNextTask_only _)
    intro found _
    cases found <;> rfl

/-- Giving up the processor changes the loaded root, and nothing else in the machine. -/
theorem yield_mem {mem : Word → BitVec 9 → Word} (same : k.m.mem = mem) :
    k.yield.All (fun k' => k'.m.mem = mem) fun k' => k'.m.mem = mem := by
  have saved : (k.saveFrame default).m = k.m := by
    unfold saveFrame
    split <;> rfl
  have ticked : (k.saveFrame default).countTick.All (fun k' => k'.m = k.m)
      fun k' => k'.m.mem = mem := by
    unfold countTick
    dsimp only
    split
    · apply Flow.All.bind (updateTimeSlicesLoop_m _ _)
      intro k₁ same₁
      exact same₁.trans saved
    · exact saved
  unfold yield
  apply Flow.All.bind (P := fun result : Kernel × Regs => result.1.m.mem = mem)
  · apply Flow.All.bind ticked
    intro k₁ same₁
    apply Flow.All.bind scheduleProcess_mem
    intro k₂ same₂
    exact same₂.trans ((congrArg Machine.mem same₁).trans same)
  · rintro ⟨k₁, r⟩ same₁
    dsimp only
    split
    · exact same₁
    · exact same₁

theorem yield_shared (shared : OutsideSame home roots m k.m) :
    k.yield.All (fun k' => OutsideSame home roots m k'.m) fun k' => OutsideSame home roots m k'.m :=
  (yield_mem rfl).mono (fun _ same => shared.trans (.of_mem same))
    fun _ same => shared.trans (.of_mem same)

/-- The end of the current task. -/
theorem systemExit_shared {α : Type} {P : α → Prop} (spares : fault.Spares home roots)
    (fit : Homed home roots k) :
    (k.systemExit fault : Flow Kernel α).All P fun k' => OutsideSame home roots k.m k'.m := by
  unfold systemExit
  cases running : k.currentTask with
  | none => trivial
  | some task =>
      apply Flow.All.bind (leaveParent_alike task)
      rintro k₁ ⟨alike₁, same₁⟩
      have running₁ := alike₁.currentTask.trans running
      have shared := freeTaskStruct_shared spares (fit.relink alike₁ same₁) running₁
      rw [same₁] at shared
      apply Flow.All.bind shared
      intro k₂ shared₂
      dsimp only
      apply Flow.All.bind
      · apply yield_shared
        exact shared₂
      · intro k₃ shared₃
        exact shared₃

/-! ## Page faults -/

/-- Whether an area answers a fault at an address. -/
def answers (area : VmAreaStruct) (addr : Word) : Bool :=
  (area.vmaType == .heap && inHeap area addr) || (area.vmaType == .stack && inStack area addr)

theorem answers_eq_false {area : VmAreaStruct} {addr : Word}
    (heap : ¬ (area.vmaType = .heap ∧ inHeap area addr))
    (stack : ¬ (area.vmaType = .stack ∧ inStack area addr)) : answers area addr = false := by
  simp only [answers, Bool.or_eq_false_iff, Bool.and_eq_false_iff]
  simp only [not_and, Bool.not_eq_true] at heap stack
  constructor
  · by_cases type : area.vmaType = .heap
    · exact .inr (heap type)
    · exact .inl (by simp [type])
  · by_cases type : area.vmaType = .stack
    · exact .inr (stack type)
    · exact .inl (by simp [type])

/-- The page that an area gives for a fault at an address. -/
def pageFor (area : VmAreaStruct) (addr : Word) : Word :=
  if area.vmaType = .heap then alignDown addr else alignUp addr - 4096

/-- The first area of the current task that answers a fault at the address gives a page
outside the shared entry. -/
def Harmless (k : Kernel) (vma : Option Word) (rounds : Nat) (addr : Word) : Prop :=
  ∀ p, Chain.scan k.nextVma (fun p => answers (k.vma p) addr) rounds vma = some (some p) →
    pml4eOffset (pageFor (k.vma p) addr) ≠ 511

theorem allocPagesAtVirt_eq {virt size flags : Word}
    (result : k.m.allocPagesAtVirt virt size flags = some m') :
    k.allocPagesAtVirt virt size flags = .next (k.setMachine m') := by
  unfold allocPagesAtVirt
  rw [result]
  rfl

theorem allocPagesAtVirt_spares (fit : Homed home roots k) (loaded : k.m.root = home)
    (process : k.m.root ≠ k.m.kernelRoot) {virt : Word} (user : pml4eOffset virt ≠ 511) :
    Spares home roots k (k.allocPagesAtVirt virt pageSize userFlags) := by
  unfold allocPagesAtVirt
  apply Flow.All.bind (P := fun m' => k.m.allocPagesAtVirt virt pageSize userFlags = some m')
  · exact Flow.All.ofOption fun _ => id
  · intro m' result
    rcases fit.settled.orderly.allocPagesAtVirt flagBits_user process result with ⟨frame, granted⟩
    have outside : OutsideSame home roots k.m m' := loaded ▸ granted.outsideSame user
    exact ⟨fit.alike (.setMachine k m') (fit.settled.granted granted) outside.shared granted.kCr3,
      outside⟩

theorem memset_uncanonical {str : Word} (outside : canonicalAddr str = false) (c : Byte) (n : Nat) :
    k.memset fault str c (n + 1) = .stuck := by
  unfold memset storeByte touch
  rw [outside]
  rfl

variable (fault) in
/-- Clearing an area. -/
theorem memset_span {virt : Word} {n : Nat} {places : Nat → Place}
    (span : Span roots k.m virt n places) (loaded : roots k.m.root) (c : Byte) :
    ∃ m', k.memset fault virt c n = .next (k.setMachine m') ∧
      Wrote roots k.m m' (fun place => ∃ i < n, place = places i) ∧
      ((∀ i < n, ∀ j < n, places i = places j → i = j) →
        content m' places n = List.replicate n c) := by
  have span' : Span roots k.m virt (List.replicate n c).length places := by
    rw [List.length_replicate]
    exact span
  have stored := storeBytes_eq fault span' loaded
  rw [List.length_replicate] at stored
  rw [memset_eq]
  exact stored

variable (fault) in
/-- Clearing a granted page. -/
theorem memset_granted {virt frame : Word} (granted : Granted roots virt frame m m')
    (aligned : virt.toNat % 4096 = 0) (canonical : Canonical virt) :
    ∃ m'', (k.setMachine m').memset fault virt 0 4096 = .next (k.setMachine m'') ∧
      Wrote roots m' m'' (fun place => place.1 = frame) ∧
      content m'' (pagePlaces frame) 4096 = List.replicate 4096 0 := by
  have span : Span roots (k.setMachine m').m virt 4096 (pagePlaces frame) :=
    .page aligned canonical granted.translate granted.notTable granted.inUse
  rcases memset_span fault span granted.orderly.loaded 0 with ⟨m'', stored, wrote, cleared⟩
  refine ⟨m'', stored, wrote.mono ?_, cleared fun i below j below' same => ?_⟩
  · rintro place ⟨i, _, rfl⟩
    rfl
  · exact pagePlaces_inj (Nat.le_refl 4096) below below' same

/-- A page of the heap. -/
theorem heapPage_spares (fit : Homed home roots k) (loaded : k.m.root = home)
    (process : k.m.root ≠ k.m.kernelRoot) {virt : Word}
    (aligned : virt.toNat % 4096 = 0) (user : pml4eOffset virt ≠ 511) :
    Spares home roots k (k.allocPagesAtVirt virt pageSize userFlags >>= fun k =>
      k.memset fault virt 0 4096) := by
  cases result : k.m.allocPagesAtVirt virt pageSize userFlags with
  | none =>
      rw [allocPagesAtVirt, result, Flow.ofOption_none, Flow.stuck_bind, Flow.stuck_bind]
      exact Flow.all_stuck
  | some m' =>
      rw [allocPagesAtVirt_eq result, Flow.next_bind]
      rcases fit.settled.orderly.allocPagesAtVirt flagBits_user process result with
        ⟨frame, granted⟩
      cases accepted : canonicalAddr virt with
      | false =>
          rw [memset_uncanonical accepted 0 4095]
          exact Flow.all_stuck
      | true =>
          rcases memset_granted fault (k := k) granted aligned ((canonicalAddr_iff virt).mp accepted) with
            ⟨m'', cleared, wrote, _⟩
          rw [cleared]
          have settled : Settled roots m'' := by
            apply wrote.settled (fit.settled.granted granted)
            rintro place rfl
            exact granted.inUse
          have granted' : OutsideSame home roots k.m m' := loaded ▸ granted.outsideSame user
          have outside : OutsideSame home roots k.m m'' := granted'.trans wrote.outsideSame
          have kCr3 : m''.kCr3 = k.m.kCr3 := by
            rw [wrote.rest]
            exact granted.kCr3
          exact ⟨fit.alike (.setMachine k m'') settled outside.shared kCr3, outside⟩

/-- The first area of a task that answers a fault, if the list of its areas ends. -/
def answering (k : Kernel) (t addr : Word) : Option (Option Word) :=
  Chain.scan k.nextVma (fun p => answers (k.vma p) addr) k.vmaRounds (k.mm (k.task t).mm).vmaList

/-- A page for an area. -/
def grantPage (fault : Fault) (k : Kernel) (t addr : Word) (area : VmAreaStruct) :
    Flow Kernel Kernel := do
  let k := k.writeCr3 (k.m.virtToPhy (k.task t).pml4e)
  let k ← k.allocPagesAtVirt (pageFor area addr) pageSize userFlags
  if area.vmaType = .heap then k.memset fault (pageFor area addr) 0 4096 else .next k

theorem saveFrame_answering (k : Kernel) (t addr : Word) (r : Regs) :
    (k.saveFrame r).answering t addr = k.answering t addr := by
  have records := saveFrame_records k r
  unfold answering nextVma vmaRounds
  rw [(saveFrame_alike k r).1.mm, records.1, records.2.1, records.2.2]

theorem grantPage_heap {t addr : Word} {area : VmAreaStruct} (heap : area.vmaType = .heap) :
    k.grantPage fault t addr area = (do
      let k ← (k.writeCr3 (k.m.virtToPhy (k.task t).pml4e)).allocPagesAtVirt (alignDown addr)
        pageSize userFlags
      k.memset fault (alignDown addr) 0 4096) := by
  simp only [grantPage, pageFor, heap, if_true]

theorem grantPage_stack {t addr : Word} {area : VmAreaStruct} (stack : area.vmaType ≠ .heap) :
    k.grantPage fault t addr area = (k.writeCr3 (k.m.virtToPhy (k.task t).pml4e)).allocPagesAtVirt
      (alignUp addr - 4096) pageSize userFlags := by
  simp only [grantPage, pageFor, stack, if_false]
  cases (k.writeCr3 (k.m.virtToPhy (k.task t).pml4e)).allocPagesAtVirt (alignUp addr - 4096)
    pageSize userFlags <;> rfl

/-- The loop of `demand_paging` goes to the first area that answers. -/
theorem demandPagingLoop_eq {t addr : Word} {vma : Option Word} {rounds : Nat} :
    k.demandPagingLoop fault t addr vma rounds =
      match Chain.scan k.nextVma (fun p => answers (k.vma p) addr) rounds vma with
      | none => .stuck
      | some none => k.systemExit fault
      | some (some p) => k.grantPage fault t addr (k.vma p) := by
  induction rounds generalizing vma with
  | zero => rfl
  | succ rounds ih =>
      cases vma with
      | none => rfl
      | some p =>
          rw [Chain.scan]
          unfold demandPagingLoop
          dsimp only
          by_cases heap : (k.vma p).vmaType = .heap ∧ inHeap (k.vma p) addr
          · have first : answers (k.vma p) addr = true := by simp [answers, heap]
            rw [if_pos heap, if_pos first]
            exact (grantPage_heap heap.1).symm
          · rw [if_neg heap]
            by_cases stack : (k.vma p).vmaType = .stack ∧ inStack (k.vma p) addr
            · have first : answers (k.vma p) addr = true := by simp [answers, stack]
              have notHeap : (k.vma p).vmaType ≠ .heap := by
                rw [stack.1]
                decide
              rw [if_pos stack, if_pos first]
              exact (grantPage_stack notHeap).symm
            · have other : answers (k.vma p) addr = false := answers_eq_false heap stack
              rw [if_neg stack, if_neg (by rw [other]; decide)]
              exact ih

theorem grantPage_spares (fit : Homed home roots k) {task addr : Word}
    (running : k.currentTask = some task) {area : VmAreaStruct}
    (user : pml4eOffset (pageFor area addr) ≠ 511) :
    Spares home roots k (k.grantPage fault task addr area) := by
  have loaded : Homed home roots (k.writeCr3 (k.m.virtToPhy (k.task task).pml4e)) :=
    fit.alike (.setMachine k _) (fit.settled.writeCr3 (fit.isRoot running)) (.of_mem rfl) rfl
  have process := fit.process running
  by_cases heap : area.vmaType = .heap
  · rw [pageFor, if_pos heap] at user
    rw [grantPage_heap heap]
    apply Spares.of_writeCr3
    apply heapPage_spares loaded (fit.home running) process _ user
    rw [alignDown_toNat]
    omega
  · rw [pageFor, if_neg heap] at user
    rw [grantPage_stack heap]
    exact .of_writeCr3 (allocPagesAtVirt_spares loaded (fit.home running) process user)

theorem demandPagingLoop_spares (spares : fault.Spares home roots) (fit : Homed home roots k)
    {task addr : Word} (running : k.currentTask = some task) {vma : Option Word} {rounds : Nat}
    (harmless : k.Harmless vma rounds addr) :
    Spares home roots k (k.demandPagingLoop fault task addr vma rounds) := by
  rw [demandPagingLoop_eq]
  split
  · trivial
  · exact systemExit_shared spares fit
  · rename_i p found
    exact grantPage_spares fit running (harmless p found)

/-- Pages for the lower half lie in the lower half. -/
theorem harmless_of_low (vma : Option Word) (rounds : Nat) {addr : Word}
    (low : addr.toNat < 2 ^ 47) : k.Harmless vma rounds addr := by
  intro p found shared
  have area := Chain.scan_found found
  have entry := congrArg BitVec.toNat shared
  rw [pml4eOffset_toNat] at entry
  change _ = 511 at entry
  unfold pageFor at entry
  split at entry
  · rw [alignDown_toNat] at entry
    omega
  · rename_i notHeap
    have stack : inStack (k.vma p) addr = true := by
      simp only [answers, Bool.or_eq_true, Bool.and_eq_true, beq_iff_eq] at area
      rcases area with ⟨heap, _⟩ | ⟨_, stack⟩
      · exact absurd heap notHeap
      · exact stack
    simp only [inStack, Bool.and_eq_true, decide_eq_true_eq, BitVec.lt_def] at stack
    have up := alignUp_toNat (x := addr) (by omega)
    rw [BitVec.toNat_sub, up] at entry
    change (2 ^ 64 - 4096 + _) % 2 ^ 64 / 2 ^ 39 % 512 = 511 at entry
    omega

end Kernel

/-- Faults of the kernel itself, in the lower half. -/
theorem kernelFault_spares (frames : Kernel → Word → Regs) (depth : Nat) :
    (Kernel.kernelFault frames depth).Spares home roots := by
  induction depth with
  | zero => exact fun _ _ _ _ => trivial
  | succ depth ih =>
      intro k vaddr fit low
      obtain ⟨frame, saved⟩ : ∃ frame, frame = Kernel.kernelFrame (frames k vaddr) := ⟨_, rfl⟩
      obtain ⟨k₁, counted⟩ : ∃ k₁ : Kernel, k₁ =
        ({ k with kernelFaults := k.kernelFaults + 1 } : Kernel).saveFrame frame := ⟨_, rfl⟩
      have same : k₁.m = k.m := by
        rw [counted]
        unfold Kernel.saveFrame
        split <;> rfl
      have begun : Alike k { k with kernelFaults := k.kernelFaults + 1 } :=
        ⟨rfl, fun _ => rfl, fun _ => rfl, fun _ => rfl, fun _ => rfl⟩
      have fit₁ : Homed home roots k₁ := by
        apply fit.relink _ same
        rw [counted]
        exact begun.trans (saveFrame_alike _ frame).1
      have below : ¬ virtKernelBase ≤ vaddr := by
        rw [BitVec.le_def]
        change ¬ 0xFFFFFFFF80000000 ≤ vaddr.toNat
        omega
      have paged : Spares home roots k (k₁.demandPaging (Kernel.kernelFault frames depth) vaddr) := by
        unfold Kernel.demandPaging
        cases running : k₁.currentTask with
        | none => trivial
        | some task =>
            have all := Kernel.demandPagingLoop_spares ih fit₁ running
              (Kernel.harmless_of_low (k₁.mm (k₁.task task).mm).vmaList k₁.vmaRounds low)
            unfold Spares at all
            rw [same] at all
            exact all
      unfold Kernel.kernelFault Kernel.pageFaultHandler
      dsimp only
      rw [← saved, ← counted, if_neg below, if_neg (not_not_intro (saved ▸ kernelFrame_errCode _))]
      apply Flow.All.bind (P := fun result : Kernel × Regs =>
        Homed home roots result.1 ∧ OutsideSame home roots k.m result.1.m)
      · apply Flow.All.bind paged
        intro k₂ result
        exact result
      · rintro ⟨k₂, r⟩ result
        dsimp only
        split
        · exact result
        · trivial

/-- The page that an area gives, and what is written to it. -/
theorem Kernel.grantPage_eq (fault : Fault) (fit : Fit roots k) {t addr : Word} {n : Nat}
    (running : k.currentTask = some t) {area : VmAreaStruct}
    (canonical : area.vmaType = .heap → Canonical (alignDown addr))
    (frames : k.m.phy.HasFrames (n + 4)) : ∃ m₁ m₂ frame,
    (k.m.writeCr3 (k.m.virtToPhy (k.task t).pml4e)).allocPagesAtVirt (Kernel.pageFor area addr)
      pageSize userFlags = some m₁ ∧
    k.grantPage fault t addr area = .next (k.setMachine m₂) ∧
    Granted roots (Kernel.pageFor area addr) frame
      (k.m.writeCr3 (k.m.virtToPhy (k.task t).pml4e)) m₁ ∧
    Wrote roots m₁ m₂ (fun place => place.1 = frame) ∧
    (area.vmaType = .heap → content m₂ (pagePlaces frame) 4096 = List.replicate 4096 0) := by
  have fit₁ : Fit roots (k.writeCr3 (k.m.virtToPhy (k.task t).pml4e)) :=
    fit.alike (.setMachine k _) (fit.settled.writeCr3 (fit.isRoot running)) (.of_mem rfl) rfl
  rcases allocPagesAtVirt_isSome (m := k.m.writeCr3 (k.m.virtToPhy (k.task t).pml4e)) frames
    (Kernel.pageFor area addr) userFlags with ⟨m₁, result, _⟩
  rcases fit₁.settled.orderly.allocPagesAtVirt flagBits_user (fit.process running) result with
    ⟨frame, granted⟩
  have allocated : (k.writeCr3 (k.m.virtToPhy (k.task t).pml4e)).allocPagesAtVirt
      (Kernel.pageFor area addr) pageSize userFlags = .next (k.setMachine m₁) :=
    Kernel.allocPagesAtVirt_eq (k := k.writeCr3 _) result
  by_cases heap : area.vmaType = .heap
  · have page : Kernel.pageFor area addr = alignDown addr := if_pos heap
    rw [page] at granted allocated result
    have aligned : (alignDown addr).toNat % 4096 = 0 := by
      rw [alignDown_toNat]
      omega
    rcases Kernel.memset_granted fault (k := k) granted aligned (canonical heap) with
      ⟨m₂, cleared, wrote, zeros⟩
    refine ⟨m₁, m₂, frame, page ▸ result, ?_, page ▸ granted, wrote, fun _ => zeros⟩
    rw [Kernel.grantPage_heap heap, allocated, Flow.next_bind, cleared]
  · have page : Kernel.pageFor area addr = alignUp addr - 4096 := if_neg heap
    refine ⟨m₁, m₁, frame, result, ?_, granted, .refl m₁, fun impossible => absurd impossible heap⟩
    rw [Kernel.grantPage_stack heap, ← page, allocated]

/-- A fault on an absent page goes to the first area that answers. -/
theorem Kernel.pageFaultHandler_absent (fault : Fault) {t addr : Word} {r : Regs}
    (running : k.currentTask = some t) (below : ¬ virtKernelBase ≤ addr)
    (absent : ¬ r.errCode &&& 1 ≠ 0) : k.pageFaultHandler fault addr r =
      (match k.answering t addr with
        | none => .stuck
        | some none => (k.saveFrame r).systemExit fault
        | some (some p) => (k.saveFrame r).grantPage fault t addr (k.vma p) : Flow Kernel Kernel) >>=
      fun k' => .next (k', k'.writtenBack r) := by
  rw [← k.saveFrame_answering t addr r, ← (saveFrame_records k r).2.1]
  unfold Kernel.pageFaultHandler Kernel.demandPaging
  dsimp only
  rw [if_neg below, if_neg absent, (saveFrame_alike k r).1.currentTask.trans running,
    Flow.ofOption_some, Flow.next_bind, Kernel.demandPagingLoop_eq]
  rfl

/-- A fault that an area answers. -/
theorem Kernel.pageFaultHandler_answered (fault : Fault) (fit : Fit roots k) {t p addr : Word}
    {r : Regs} {n : Nat} (running : k.currentTask = some t)
    (found : k.answering t addr = some (some p)) (below : ¬ virtKernelBase ≤ addr)
    (absent : ¬ r.errCode &&& 1 ≠ 0)
    (canonical : (k.vma p).vmaType = .heap → Canonical (alignDown addr))
    (frames : k.m.phy.HasFrames (n + 4)) : ∃ m₁ m₂ frame r',
    (k.m.writeCr3 (k.m.virtToPhy (k.task t).pml4e)).allocPagesAtVirt
      (Kernel.pageFor (k.vma p) addr) pageSize userFlags = some m₁ ∧
    k.pageFaultHandler fault addr r = .next ((k.saveFrame r).setMachine m₂, r') ∧
    Granted roots (Kernel.pageFor (k.vma p) addr) frame
      (k.m.writeCr3 (k.m.virtToPhy (k.task t).pml4e)) m₁ ∧
    Wrote roots m₁ m₂ (fun place => place.1 = frame) ∧
    ((k.vma p).vmaType = .heap → content m₂ (pagePlaces frame) 4096 = List.replicate 4096 0) := by
  rcases saveFrame_alike k r with ⟨alike, same⟩
  have fit₁ := fit.relink alike same
  have running₁ := alike.currentTask.trans running
  rcases Kernel.grantPage_eq fault fit₁ running₁ canonical
    (same.symm ▸ frames) with ⟨m₁, m₂, frame, result, granted, rest⟩
  rw [same, alike.pml4e] at result rest
  refine ⟨m₁, m₂, frame, ((k.saveFrame r).setMachine m₂).writtenBack r, result, ?_, rest⟩
  rw [Kernel.pageFaultHandler_absent fault running below absent, found]
  dsimp only
  rw [granted]
  rfl

/-- A fault in the heap is answered with a cleared page. -/
theorem Kernel.pageFaultHandler_heap (fault : Fault) (fit : Fit roots k) {t p addr : Word} {r : Regs}
    {n : Nat}
    (running : k.currentTask = some t) (first : (k.mm (k.task t).mm).vmaList = some p)
    (heap : (k.vma p).vmaType = .heap ∧ Kernel.inHeap (k.vma p) addr)
    (below : ¬ virtKernelBase ≤ addr) (absent : ¬ r.errCode &&& 1 ≠ 0)
    (canonical : Canonical (alignDown addr)) (frames : k.m.phy.HasFrames (n + 4)) :
    ∃ m₁ m₂ frame r', k.pageFaultHandler fault addr r = .next ((k.saveFrame r).setMachine m₂, r') ∧
      Granted roots (alignDown addr) frame (k.m.writeCr3 (k.m.virtToPhy (k.task t).pml4e)) m₁ ∧
      Wrote roots m₁ m₂ (fun place => place.1 = frame) ∧
      content m₂ (pagePlaces frame) 4096 = List.replicate 4096 0 := by
  have answers : Kernel.answers (k.vma p) addr = true := by simp [Kernel.answers, heap]
  have found : k.answering t addr = some (some p) := by
    unfold Kernel.answering Kernel.vmaRounds
    rw [first, Chain.scan, if_pos answers]
  rcases Kernel.pageFaultHandler_answered fault fit running found below absent (fun _ => canonical)
    frames with ⟨m₁, m₂, frame, r', _, handled, granted, wrote, zeros⟩
  rw [Kernel.pageFor, if_pos heap.1] at granted
  exact ⟨m₁, m₂, frame, r', handled, granted, wrote, zeros heap.1⟩

/-! ## Runs -/

/-- A fault of a user program ends it, finds its page present and makes no copy of it, or
is answered outside the shared entry. -/
def Kernel.Contained (k : Kernel) (vaddr : Word) (r : Regs) : Prop :=
  virtKernelBase ≤ vaddr ∨
    if r.errCode &&& 1 ≠ 0 then
      ∀ table offset, k.m.getPteEntry vaddr = some (table, offset) →
        (isCowSet (k.m.mem table offset) && !isWritablePage (k.m.mem table offset)) = false
    else
      ∀ t, k.currentTask = some t → k.Harmless (k.mm (k.task t).mm).vmaList k.vmaRounds vaddr

/-- User programs move the ends of their heaps and take page faults.  Where a fault ends
its program, another one is dispatched; between programs the kernel loads another root.
The flag says whether a program is running. -/
inductive Faulting (frames : Kernel → Word → Regs) (roots : Word → Prop)
    (allowed : Kernel → Word → Regs → Prop) (k₀ : Kernel) : Bool → Kernel → Prop where
  | start : Faulting frames roots allowed k₀ true k₀
  | brk {k k' : Kernel} {endBrk result : Word} (run : Faulting frames roots allowed k₀ true k)
      (returned : k.systemBrk endBrk = .next (k', result)) :
      Faulting frames roots allowed k₀ true k'
  | fault {k k' : Kernel} {depth : Nat} {vaddr : Word} {r r' : Regs}
      (run : Faulting frames roots allowed k₀ true k) (allow : allowed k vaddr r)
      (returned : k.pageFaultHandler (Kernel.kernelFault frames depth) vaddr r = .next (k', r')) :
      Faulting frames roots allowed k₀ true k'
  | ended {k k' : Kernel} {depth : Nat} {vaddr : Word} {r : Regs}
      (run : Faulting frames roots allowed k₀ true k) (allow : allowed k vaddr r)
      (gone : k.pageFaultHandler (Kernel.kernelFault frames depth) vaddr r = .left k') :
      Faulting frames roots allowed k₀ false k'
  | dispatched {running : Bool} {k k' : Kernel}
      (run : Faulting frames roots allowed k₀ running k)
      (same : k'.m = { k.m with cr3 := k'.m.cr3 }) (fit : Fit roots k') :
      Faulting frames roots allowed k₀ true k'

theorem systemBrk_alike {endBrk result : Word} (returned : k.systemBrk endBrk = .next (k', result)) :
    Alike k k' ∧ k'.m = k.m := by
  unfold Kernel.systemBrk at returned
  rcases Flow.bind_eq_next returned with ⟨task, _, returned⟩
  dsimp only at returned
  split at returned
  · cases returned
    exact ⟨.refl k, rfl⟩
  · rcases Flow.bind_eq_next returned with ⟨found, _, returned⟩
    have broken : Alike k (k.modMm (k.task task).mm fun s => { s with brkEnd := endBrk }) :=
      .modMm k _ rfl
    cases found with
    | none =>
        cases returned
        exact ⟨broken, rfl⟩
    | some heap =>
        cases returned
        exact ⟨broken.trans (.modVma _ heap rfl), rfl⟩

/-- A fault that is contained. -/
theorem pageFaultHandler_spares (spares : fault.Spares home roots) (fit : Homed home roots k) {vaddr : Word}
    {r : Regs} (contained : k.Contained vaddr r) : (k.pageFaultHandler fault vaddr r).All
      (fun result => Homed home roots result.1 ∧ OutsideSame home roots k.m result.1.m)
      fun k' => OutsideSame home roots k.m k'.m := by
  rcases saveFrame_alike k r with ⟨alike, same⟩
  have fit₁ := fit.relink alike same
  unfold Kernel.pageFaultHandler
  dsimp only
  split
  · have exited := Kernel.systemExit_shared (P := fun result : Kernel × Regs =>
      Homed home roots result.1 ∧ OutsideSame home roots k.m result.1.m) spares fit₁
    rw [same] at exited
    exact exited
  · rename_i user
    have inside := contained.resolve_left user
    apply Flow.All.bind (P := fun k' => Homed home roots k' ∧ OutsideSame home roots k.m k'.m)
    · split
      · rename_i present
        rw [if_pos present] at inside
        unfold Kernel.protectionFault
        apply Flow.All.bind (P := fun found => k.m.getPteEntry vaddr = some found)
        · apply Flow.All.ofOption
          intro found result
          rwa [same] at result
        · rintro ⟨table, offset⟩ found
          have plain := inside table offset found
          rw [← same] at plain
          dsimp only
          rw [if_neg (by rw [plain]; decide)]
          exact ⟨fit₁, .of_mem (congrArg Machine.mem same)⟩
      · rename_i absent
        rw [if_neg absent] at inside
        unfold Kernel.demandPaging
        cases running : (k.saveFrame r).currentTask with
        | none => trivial
        | some task =>
            have records := saveFrame_records k r
            have harmless : (k.saveFrame r).Harmless
                ((k.saveFrame r).mm ((k.saveFrame r).task task).mm).vmaList
                (k.saveFrame r).vmaRounds vaddr := by
              unfold Kernel.Harmless Kernel.vmaRounds Kernel.nextVma
              rw [alike.mm task, records.1, records.2.1, records.2.2]
              exact inside task (alike.currentTask ▸ running)
            have all := Kernel.demandPagingLoop_spares spares fit₁ running harmless
            unfold Spares at all
            rw [same] at all
            exact all
    · intro k₂ result
      exact result

/-- Along a run, the state of a running program is in order, and the shared half is
translated as it was. -/
theorem Faulting.spared {frames : Kernel → Word → Regs} {k₀ : Kernel} {running : Bool}
    (run : Faulting frames roots Kernel.Contained k₀ running k) (fit : Fit roots k₀) :
    (running = true → Fit roots k) ∧ SharedSame roots k₀.m k.m := by
  induction run with
  | start => exact ⟨fun _ => fit, .of_mem rfl⟩
  | brk _ returned ih =>
      rcases systemBrk_alike returned with ⟨alike, same⟩
      exact ⟨fun _ => (ih.1 rfl).relink alike same, same ▸ ih.2⟩
  | fault _ allow returned ih =>
      rcases (ih.1 rfl).homed with ⟨home, homed⟩
      have spared := (pageFaultHandler_spares (kernelFault_spares frames _) homed allow).of_next
        returned
      exact ⟨fun _ => spared.1.toFit, ih.2.trans spared.2.shared⟩
  | ended _ allow gone ih =>
      rcases (ih.1 rfl).homed with ⟨home, homed⟩
      have spared := (pageFaultHandler_spares (kernelFault_spares frames _) homed allow).of_left
        gone
      exact ⟨nofun, ih.2.trans spared.shared⟩
  | dispatched _ same fit' ih =>
      exact ⟨fun _ => fit', ih.2.trans (.of_mem (by rw [same]))⟩

/-- As long as the pages that answer faults lie outside the shared entry, every address of
the kernel is translated as before, in every address space. -/
theorem faults_keep_sharedHalf {frames : Kernel → Word → Regs} {k₀ : Kernel} {running : Bool}
    (fit : Fit roots k₀) (run : Faulting frames roots Kernel.Contained k₀ running k)
    {r virt : Word} (isRoot : roots r) (shared : pml4eOffset virt = 511) :
    walk entryFrame k.m.mem r (path virt) = walk entryFrame k₀.m.mem r (path virt) :=
  (run.spared fit).2.walks isRoot (path_length virt) shared

/-! ## Two programs -/

theorem bootExample_settled :
    Settled (fun r => r ∈ [bootExample.kCr3].map mmPhyToPage) bootExample := by
  have orderly := bootExample_bootSpace.spaceInv.orderly
  refine ⟨orderly, fun {r leaf ρ} isRoot full user found => ?_⟩
  cases List.mem_singleton.mp isRoot
  cases ρ with
  | nil => cases full
  | cons i ρ =>
      rw [walk_cons, show entryFrame (bootExample.mem (mmPhyToPage bootExample.kCr3) i) = none from
        orderly.spaces.kernelOnly i user] at found
      cases found

/-- The root of a task whose table was set up last. -/
def secondRoot : Word := 0xFFFFFFFF80202000

/-- A task with an empty heap. -/
def heapTask (m : Machine) : Kernel :=
  { Kernel.initial m 0 with
    task := fun _ => { (default : TaskStruct) with mm := 0x2000, pml4e := secondRoot }
    mm := fun _ => { (default : MmStruct) with vmaList := some 0x3000 }
    vma := fun _ => { (default : VmAreaStruct) with
      vmaType := .heap, vmStart := 0x600000, vmEnd := 0x600000 }
    taskStructs := [0x1000]
    vmaStructs := [0x3000]
    taskList := some 0x1000
    currentTask := some 0x1000 }

/-- The address spaces of two programs. -/
theorem exists_twoSpaces : ∃ roots m other, Fit roots (heapTask m) ∧ m.phy.HasFrames 16 ∧
    roots other ∧ other ≠ mmPhyToPage (m.virtToPhy secondRoot) ∧ other ≠ m.kernelRoot ∧
    walk entryFrame m.mem other (path 0xFFFFFF8000000000) = none ∧
    ∀ virt, pml4eOffset virt ≠ 511 →
      walk entryFrame m.mem (mmPhyToPage (m.virtToPhy secondRoot)) (path virt) = none := by
  have settled := bootExample_settled
  rcases settled.orderly.envSetupVm_eq (n := 20) bootExample_hasFrames with
    ⟨m₁, result₁, frames₁, top₁, walks₁⟩
  rcases settled.orderly.envSetupVm result₁ with ⟨f₁, space₁⟩
  have settled₁ := settled.newSpace space₁
  rcases settled₁.orderly.envSetupVm_eq (n := 16) frames₁ with ⟨m₂, result₂, frames₂, _, walks₂⟩
  rcases settled₁.orderly.envSetupVm result₂ with ⟨f₂, space₂⟩
  have settled₂ := settled₁.newSpace space₂
  have pml4e : m₁.virtualTop = secondRoot := by
    rw [top₁]
    rfl
  have used : ∀ r, (r = f₁ ∨ r ∈ [bootExample.kCr3].map mmPhyToPage) → r ≠ f₂ := by
    rintro r isRoot rfl
    have inUse := settled₁.orderly.spaces.tables.inUse ⟨r, [], isRoot, by decide, rfl⟩
    rw [space₂.available.free] at inUse
    cases inUse
  have phy : mmPhyToPage (m₂.virtToPhy secondRoot) = f₂ := by
    have hit := space₂.reached settled₂.orderly.loaded
    rw [← translate_eq_walk, pml4e] at hit
    rw [virtToPhy_of_translate hit, mmPhyToPage_mmPageToPhy
      (PhyAlloc.Available.small space₂.available)]
  have kernelRoot : m₂.kernelRoot = mmPhyToPage bootExample.kCr3 :=
    congrArg mmPhyToPage (space₂.kCr3.trans space₁.kCr3)
  have isKernel : mmPhyToPage bootExample.kCr3 ∈ [bootExample.kCr3].map mmPhyToPage := by simp
  refine ⟨_, m₂, f₁, ⟨settled₂, ?_, ?_, ?_, ?_⟩, frames₂, .inr (.inl rfl), ?_, ?_, ?_,
    ?_⟩
  · intro t _
    show pml4eOffset secondRoot = 511
    decide
  · intro t _
    show mmPhyToPage (m₂.virtToPhy secondRoot) = f₂ ∨ _
    exact .inl phy
  · intro t _
    show mmPhyToPage (m₂.virtToPhy secondRoot) ≠ m₂.kernelRoot
    rw [phy, kernelRoot]
    exact (used _ (.inr isKernel)).symm
  · intro t p _ _
    show (0x600000 : Word).toNat < 2 ^ 47
    decide
  · rw [phy]
    exact used f₁ (.inl rfl)
  · rw [kernelRoot]
    rintro rfl
    have inUse := settled.orderly.spaces.tables.inUse ⟨_, [], isKernel, by decide, rfl⟩
    rw [space₁.available.free] at inUse
    cases inUse
  · have second : path 0xFFFFFF8000000000 ≠ path m₁.virtualTop := by
      rw [pml4e]
      decide
    have shared : SharedPath kernelHalf (path 0xFFFFFF8000000000) :=
      show pml4eOffset 0xFFFFFF8000000000 = 511 by decide
    rw [walks₂ (.inl rfl) (path_length _) second,
      settled₁.orderly.spaces.tables.forest.walk_eq_of_shared (.inl rfl) (.inr isKernel)
        shared,
      walks₁ isKernel (path_length _) (by decide)]
    decide
  · intro virt user
    rw [phy]
    exact space₂.empty (path_length virt) user

/-- The task raises the end of its heap and touches an address below it. -/
theorem heapTask_faults (allowed : Kernel → Word → Regs → Prop) (fit : Fit roots (heapTask m))
    (frames : m.phy.HasFrames 16) (endBrk addr : Word) (nonzero : endBrk ≠ 0)
    (inside : 0x600000 ≤ addr ∧ addr < endBrk + 2 * pageSize)
    (below : ¬ virtKernelBase ≤ addr) (canonical : Canonical (alignDown addr))
    (allow : ∀ k : Kernel, allowed k addr default) :
    ∃ k m₁ frame, Faulting (fun _ _ => default) roots allowed (heapTask m) true k ∧
      Granted roots (alignDown addr) frame (m.writeCr3 (m.virtToPhy secondRoot)) m₁ ∧
      Wrote roots m₁ k.m (fun place => place.1 = frame) := by
  obtain ⟨k₁, result, returned, same, running, first, type, start, end_⟩ : ∃ k₁ result,
      (heapTask m).systemBrk endBrk = .next (k₁, result) ∧ k₁.m = m ∧
      k₁.currentTask = some 0x1000 ∧ (k₁.mm (k₁.task 0x1000).mm).vmaList = some 0x3000 ∧
      (k₁.vma 0x3000).vmaType = .heap ∧ (k₁.vma 0x3000).vmStart = 0x600000 ∧
      (k₁.vma 0x3000).vmEnd = endBrk := by
    unfold Kernel.systemBrk
    rw [show (heapTask m).currentTask = some 0x1000 from rfl, Flow.ofOption_some, Flow.next_bind]
    dsimp only
    rw [if_neg nonzero]
    exact ⟨_, _, rfl, rfl, rfl, rfl, rfl, rfl, rfl⟩
  have alike := (systemBrk_alike returned).1
  have fit₁ := fit.relink alike same
  have heap : (k₁.vma 0x3000).vmaType = .heap ∧ Kernel.inHeap (k₁.vma 0x3000) addr := by
    refine ⟨type, ?_⟩
    unfold Kernel.inHeap
    rw [start, end_]
    simp only [Bool.and_eq_true, decide_eq_true_eq]
    exact inside
  have frames₁ : k₁.m.phy.HasFrames (12 + 4) := same ▸ frames
  rcases Kernel.pageFaultHandler_heap (Kernel.kernelFault (fun _ _ => default) 0)
    (r := default) fit₁ running first heap below (by decide) canonical frames₁ with
    ⟨m₁, m₂, frame, r', handled, granted, wrote, _⟩
  rw [same, alike.pml4e] at granted
  exact ⟨_, m₁, frame, (Faulting.start.brk returned).fault (allow k₁) handled, granted, wrote⟩

/-- A page of the heap in the lower half. -/
theorem faults_keep_sharedHalf_heapTask : ∃ roots m k, Fit roots (heapTask m) ∧
    Faulting (fun _ _ => default) roots Kernel.Contained (heapTask m) true k ∧
    k.m.translate 0x600000 ≠ none ∧
    ∀ r virt, roots r → pml4eOffset virt = 511 →
      walk entryFrame k.m.mem r (path virt) = walk entryFrame (heapTask m).m.mem r (path virt) := by
  rcases exists_twoSpaces with ⟨roots, m, other, fit, frames, _⟩
  have allow : ∀ k : Kernel, k.Contained 0x600000 default := by
    intro k
    refine .inr ?_
    rw [if_neg (by decide)]
    exact fun t _ => Kernel.harmless_of_low _ _ (by decide)
  rcases heapTask_faults Kernel.Contained fit frames 0x602000 0x600000 (by decide) (by decide) (by decide)
    ((canonicalAddr_iff _).mp (by decide)) allow with ⟨k, m₁, frame, run, granted, wrote⟩
  refine ⟨roots, m, k, fit, run, ?_, fun r virt isRoot shared =>
    faults_keep_sharedHalf fit run isRoot shared⟩
  rw [wrote.translate granted.orderly.loaded]
  have hit := granted.translate
  rw [show alignDown 0x600000 = (0x600000 : Word) by decide] at hit
  rw [hit]
  exact Option.some_ne_none frame

/-- A page of the heap in the shared half is mapped for the other program too. -/
theorem heapTask_maps_sharedHalf : ∃ roots m k other, Fit roots (heapTask m) ∧
    Faulting (fun _ _ => default) roots (fun _ _ _ => True) (heapTask m) true k ∧
    roots other ∧ other ≠ mmPhyToPage (m.virtToPhy secondRoot) ∧ other ≠ m.kernelRoot ∧
    pml4eOffset 0xFFFFFF8000000000 = 511 ∧
    walk entryFrame k.m.mem other (path 0xFFFFFF8000000000) ≠
      walk entryFrame (heapTask m).m.mem other (path 0xFFFFFF8000000000) := by
  rcases exists_twoSpaces with ⟨roots, m, other, fit, frames, isRoot, another, process, unmapped, _⟩
  rcases heapTask_faults (fun _ _ _ => True) fit frames 0xFFFFFF8000001000 0xFFFFFF8000000000
    (by decide) (by decide) (by decide) ((canonicalAddr_iff _).mp (by decide)) (fun _ => trivial)
    with ⟨k, m₁, frame, run, granted, wrote⟩
  refine ⟨roots, m, k, other, fit, run, isRoot, another, process, by decide, ?_⟩
  have hit := granted.hit isRoot (.inr (by decide))
  rw [show alignDown 0xFFFFFF8000000000 = (0xFFFFFF8000000000 : Word) by decide] at hit
  rw [wrote.walk isRoot (Nat.le_of_eq (path_length _)), hit]
  show some frame ≠ walk entryFrame m.mem other _
  rw [unmapped]
  exact Option.some_ne_none frame

end Sbrocks.Process
