import Sbrocks.System.Sleeping
import Sbrocks.Transition.Runs

/-!
# Runs of the process table

The kernel follows its process table: every run of the system is one of the table, event by
event.  What the moves of the table do to saved frames is therefore what the system does to
them: a system call that takes no page fault leaves the registers of its caller but for the
result, and a task that waits for its turn keeps its frame until it is dispatched.
-/

namespace Sbrocks.Process

open Sbrocks.Mmu Sbrocks.Transition

variable {frames : Kernel → Word → Regs} {depth : Nat} {k k' : Kernel} {T T' T₀ : Table Word}
  {policy : Table.Policy Word} {interrupt : Interrupt} {events : List Interrupt} {t : Word}
  {r r' : Regs}

/-- What the table does in an interrupt: the frame of the current task is saved, if the interrupt
saves it, and moves follow until it is over. -/
def Table.Handles (T : Table Word) (interrupt : Interrupt) (T' : Table Word) : Prop :=
  (interrupt.entered T).Run anything T' ∧ T'.dying = false

/-- A step of the kernel is one of its process table. -/
theorem Step.handles (stepped : Step frames depth k interrupt k') (view : View k T)
    (alive : T.dying = false) : ∃ T', T.Handles interrupt T' ∧ View k' T' := by
  rcases stepped.serves view alive (fun _ _ allowed => allowed) (fun _ => trivial)
    (admitted_anything interrupt T k) with ⟨T', view', run, alive', _⟩ | ⟨T', view', run, alive', _⟩
  · exact ⟨T', ⟨run, alive'⟩, view'⟩
  · exact ⟨T', ⟨run, alive'⟩, view'⟩

/-- Every reachable state has a process table. -/
theorem Reachable.viewed {meets : Kernel → Interrupt → Kernel → Prop}
    (reachable : Reachable frames depth meets k) : ∃ T, View k T ∧ T.dying = false := by
  induction reachable with
  | boot booted => exact ⟨_, booted.view, rfl⟩
  | step _ stepped _ ih =>
      rcases ih with ⟨T, view, alive⟩
      rcases stepped.handles view alive with ⟨T', handled, view'⟩
      exact ⟨T', view', handled.2⟩

/-- The kernel refines its process table: whatever interrupts come, the table of the booted kernel
has a run with the same interrupts to a table of the state that the kernel has come to. -/
theorem kernel_refines_table {k₀ : Kernel} {tasks : List Word} (booted : Booted k₀ tasks)
    (run : Runs (Step frames depth) k₀ events k) :
    ∃ T, Runs Table.Handles (bootTable k₀ tasks) events T ∧ View k T := by
  have simulated : ∃ T, Runs Table.Handles (bootTable k₀ tasks) events T ∧
      View k T ∧ T.dying = false := by
    apply run.simulated ⟨booted.view, rfl⟩
    rintro k T interrupt k' ⟨view, alive⟩ stepped
    rcases stepped.handles view alive with ⟨T', handled, view'⟩
    exact ⟨T', handled, view', handled.2⟩
  rcases simulated with ⟨T, followed, view, _⟩
  exact ⟨T, followed, view⟩

theorem kernel_refines_table_firstRuns :
    ∃ T, Runs Table.Handles (bootTable twoProcesses [0x1000, 0x2000])
      [.timer (callFrame 0 0 0)] T ∧ View firstRuns T := by
  have ticks : Step noFrames 0 twoProcesses (.timer (callFrame 0 0 0)) firstRuns :=
    (ticked_step (show Flow.checks _ (fun _ => true) = true by decide)).1
  exact kernel_refines_table booted_twoProcesses (.single ticks)

/-! ## Frames -/

/-- A frame that differs in the result alone. -/
def Answered (r r' : Regs) : Prop := r' = { r with rax := r'.rax }

/-- Anything but ending or killing a task, or replacing the frame of a task that runs. -/
def attending (t : Word) : Table.Policy Word where
  enter := False
  create _ := True
  fork _ := True
  exec _ := True
  kill _ s := s ≠ t
  exit _ := False
  pause _ := True

/-- A task that is listed and not being created. -/
structure Table.Settled (T : Table Word) (t : Word) : Prop where
  live : t ∈ T.live
  old : T.newest ≠ some t

/-- What a move does to the frame of a task. -/
inductive Table.FrameMove (T T' : Table Word) (t : Word) : Prop
  | kept (frame : (T'.proc t).r = (T.proc t).r)
      (runs : T'.current = some t → T.current = some t ∧ T'.faults = T.faults)
  /-- The task's own call stores its result, or the kernel faults on behalf of the task. -/
  | own (running : T.current = some t) (still : T'.current = some t)
      (frame : if T'.faults = T.faults then Answered (T.proc t).r (T'.proc t).r
        else (T'.proc t).r.cs = 0x08)
  | dispatched (running : T'.current = some t) (resumed : T'.resumed = true)
      (frame : (T'.proc t).r = Kernel.startFrame (T.proc t).r)

/-- A move neither ends nor kills a task, nor replaces its frame as a whole. -/
def Table.Spares (T : Table Word) (t : Word) : Event Word → Prop
  | .kill s => s ≠ t
  | .enter _ => T.current ≠ some t
  | .leave _ => T.current ≠ some t
  | .unlink _ => T.current ≠ some t
  | _ => True

theorem attending_spares {event : Event Word} (allowed : (attending t).Allows T event) :
    T.Spares t event := by
  cases event with
  | kill s => exact allowed
  | enter s => exact absurd allowed id
  | leave s => exact absurd allowed id
  | unlink s => exact absurd allowed id
  | _ => trivial

theorem sparing_spares {event : Event Word} (allowed : (sparing t).Allows T event)
    (off : T.current ≠ some t) : T.Spares t event := by
  cases event with
  | kill s => exact allowed
  | enter s => exact off
  | leave s => exact off
  | unlink s => exact off
  | _ => trivial

/-- A move leaves the frame of a settled task alone, unless the task runs or is dispatched. -/
theorem Table.Move.frame {event : Event Word} (moved : T.Move event T') (settled : T.Settled t)
    (spares : T.Spares t event) :
    T'.Settled t ∧ T.faults ≤ T'.faults ∧ T.FrameMove T' t := by
  rcases settled with ⟨live, old⟩
  have stays : T.current = some t → T.current = some t ∧ T.faults = T.faults :=
    fun here => ⟨here, rfl⟩
  cases moved with
  | wake same state others frame =>
      rename_i proc faults
      refine ⟨⟨live, old⟩, ?_, ?_⟩
      · rcases frame with ⟨quiet, _⟩ | ⟨more, _⟩
        · exact Nat.le_of_eq quiet.symm
        · exact Nat.le_of_lt more
      · by_cases running : T.current = some t
        · refine .own running running ?_
          rcases frame with ⟨quiet, frames⟩ | ⟨more, s, current, kernel⟩
          · rw [if_pos quiet]
            exact (frames t).symm ▸ rfl
          · rw [if_neg (Nat.ne_of_gt more)]
            obtain rfl := Option.some.inj (running.symm.trans current)
            exact kernel
        · exact .kept (others t running) fun here => absurd here running
  | enter running =>
      rename_i s r
      have other : t ≠ s := fun same => spares (same ▸ running)
      refine ⟨⟨live, old⟩, Nat.le_refl _, .kept ?_ stays⟩
      rw [Table.save, Table.modify_proc_of_ne T other]
  | save own =>
      rename_i s r
      by_cases here : t = s
      · subst here
        rcases own with ⟨running, same⟩ | created | unlisted
        · refine ⟨⟨live, old⟩, Nat.le_refl _, .own running running ?_⟩
          have quiet : (T.save t r).faults = T.faults := rfl
          rw [if_pos quiet, Table.save, Table.modify_proc_self]
          exact same
        · exact absurd created old
        · exact absurd live unlisted
      · refine ⟨⟨live, old⟩, Nat.le_refl _, .kept ?_ stays⟩
        rw [Table.save, Table.modify_proc_of_ne T here]
  | dispatch other listed alive =>
      rename_i s
      have same : (T.preempt.proc t).r = (T.proc t).r := by
        rw [Table.preempt_proc]
        split <;> rfl
      refine ⟨⟨?_, ?_⟩, ?_, ?_⟩
      · rwa [Table.dispatch, Table.modify_live, Table.preempt_eq]
      · rwa [Table.dispatch, Table.modify_newest, Table.preempt_eq]
      · rw [Table.dispatch, Table.modify_faults, Table.preempt_eq]
      · by_cases here : t = s
        · subst here
          refine .dispatched rfl rfl ?_
          rw [Table.dispatch, Table.modify_proc_self]
          exact congrArg Kernel.startFrame same
        · refine .kept ?_ fun running => absurd (Option.some.inj running).symm here
          rw [Table.dispatch, Table.modify_proc_of_ne _ here]
          exact same
  | pause running stops alive =>
      refine ⟨⟨live, old⟩, Nat.le_refl _, .kept ?_ fun runs =>
        absurd runs (Option.some_ne_none t).symm⟩
      exact Table.modify_proc_field _ Proc.r _ t rfl
  | reuse first => exact ⟨⟨live, old⟩, Nat.le_refl _, .kept rfl stays⟩
  | create unlisted unfree =>
      rename_i s listed
      have other : t ≠ s := fun same => unlisted (same ▸ live)
      refine ⟨⟨?_, fun same => other (Option.some.inj same).symm⟩, Nat.le_refl _, .kept ?_ stays⟩
      · cases listed with
        | false => exact live
        | true => exact List.mem_append_left _ live
      · rw [Table.create, Table.modify_proc_of_ne _ other]
  | adopt running created =>
      rename_i child parent
      have other : t ≠ child := fun same => old (same ▸ created)
      refine ⟨⟨live, old⟩, Nat.le_refl _, .kept ?_ stays⟩
      rw [Table.adopt, Table.modify_proc_of_ne _ other]
  | link running forking =>
      refine ⟨⟨live, old⟩, Nat.le_refl _, .kept ?_ stays⟩
      rw [Table.link, Table.modify_proc_field _ Proc.r _ _ rfl,
        Table.modify_proc_field _ Proc.r _ _ rfl]
  | exec running created =>
      refine ⟨⟨live, old⟩, Nat.le_refl _, .kept ?_ stays⟩
      dsimp only [Table.exec]
      rw [Table.modify_proc_field _ Proc.r _ _ rfl, Table.modify_proc_field _ Proc.r _ _ rfl,
        Table.modify_proc_field _ Proc.r _ _ rfl]
  | leave running child linked =>
      refine ⟨⟨live, old⟩, Nat.le_refl _, .kept ?_ stays⟩
      rw [Table.leave, Table.modify_proc_field _ Proc.r _ _ rfl]
  | unlink running =>
      rename_i s
      have other : t ≠ s := fun same => spares (same ▸ running)
      refine ⟨⟨(List.mem_erase_of_ne other).mpr live, old⟩, Nat.le_refl _, .kept ?_ stays⟩
      rw [Table.unlink, Table.modify_proc_field _ Proc.r _ _ rfl]
  | bury running unlisted freed =>
      refine ⟨⟨live, old⟩, Nat.le_refl _, .kept ?_ fun runs =>
        absurd runs (Option.some_ne_none t).symm⟩
      rw [Table.bury, Table.modify_proc_field _ Proc.r _ _ rfl]
  | kill listed =>
      have listed := (List.mem_erase_of_ne (Ne.symm spares)).mpr live
      refine ⟨⟨listed, old⟩, Nat.le_refl _, .kept ?_ stays⟩
      rw [Table.kill, Table.modify_proc_field _ Proc.r _ _ rfl]
  | discard unlisted alive =>
      refine ⟨⟨live, old⟩, Nat.le_refl _, .kept ?_ stays⟩
      rw [Table.discard, Table.modify_proc_field _ Proc.r _ _ rfl]

/-! ## The frame of a caller -/

/-- The frame of a caller, until another task is dispatched. -/
structure Table.Calling (T₀ T : Table Word) (t : Word) (r : Regs) : Prop where
  settled : T.Settled t
  faults : T₀.faults ≤ T.faults
  frame : T.faults = T₀.faults → T.resumed = false → Answered r (T.proc t).r
  faulted : T.faults ≠ T₀.faults → T.resumed = false → T.current = some t →
    (T.proc t).r.cs = 0x08

theorem Answered.trans {r'' : Regs} (first : Answered r r') (second : Answered r' r'') :
    Answered r r'' := by
  unfold Answered at *
  rw [first] at second
  exact second

theorem Answered.cs (answered : Answered r r') : r'.cs = r.cs := by
  have same : r' = { r with rax := r'.rax } := answered
  rw [same]

theorem Table.Move.calling {event : Event Word} (moved : T.Move event T')
    (calling : T₀.Calling T t r) (busy : T.resumed = false)
    (allowed : (attending t).Allows T event) : T₀.Calling T' t r := by
  rcases moved.frame calling.settled (attending_spares allowed) with ⟨settled, faults, frame⟩
  refine ⟨settled, calling.faults.trans faults, fun quiet on => ?_, fun loud on here => ?_⟩
  · have before : T.faults = T₀.faults := Nat.le_antisymm (quiet ▸ faults) calling.faults
    have answered := calling.frame before busy
    cases frame with
    | kept same _ => exact same ▸ answered
    | own running still same =>
        rw [if_pos (quiet.trans before.symm)] at same
        exact answered.trans same
    | dispatched running resumed same =>
        rw [on] at resumed
        cases resumed
  · cases frame with
    | kept same stays =>
        rcases stays here with ⟨running, quiet⟩
        exact same ▸ calling.faulted (quiet ▸ loud) busy running
    | own running still same =>
        by_cases quiet : T'.faults = T.faults
        · rw [if_pos quiet] at same
          exact same.cs.trans (calling.faulted (quiet ▸ loud) busy running)
        · rwa [if_neg quiet] at same
    | dispatched running resumed same =>
        rw [on] at resumed
        cases resumed

theorem NoSuicide.attending {r : Regs} (running : k.currentTask = some t)
    (met : NoSuicide k (.syscall r) k') : (Interrupt.syscall r).Admitted (attending t) T k := by
  refine ⟨fun _ _ _ => trivial, fun _ _ _ => trivial, fun _ _ _ => trivial, ?_, fun _ _ => trivial⟩
  rintro kill s found rfl
  rw [Kernel.getTask_saveFrame] at found
  exact met r rfl kill (found.trans (congrArg Flow.next running.symm))

/-- The caller is listed when no process killed itself. -/
theorem Reachable.current_listed (reachable : Reachable frames depth NoSuicide k) :
    ∃ T, View k T ∧ T.dying = false ∧ ∀ t, k.currentTask = some t → t ∈ T.live := by
  rcases reachable.keeps
    (fun booted => ⟨fun _ _ => List.not_mem_nil, nofun, fun _ => nofun⟩)
    (fun view alive inv stepped met => stepped.keeps .noSuicide view alive
      ⟨inv.disjoint, inv.notFree, inv.live⟩ trivial (fun _ => trivial)
      (fun inv moved allowed => moved.currentLive inv allowed) (met.admitted view))
    with ⟨T, view, alive, inv⟩
  exact ⟨T, view, alive, fun t running => inv.live alive t (view.current.trans running)⟩

theorem attending_within (t : Word) : (attending t).Within anything := by
  intro T event allowed
  cases event with
  | _ => trivial

/-- The table in which a call begins. -/
theorem Table.calling_start (running : T.current = some t) (live : t ∈ T.live) (r : Regs) :
    (T.settle.saveCurrent r).Calling (T.settle.saveCurrent r) t r := by
  have saved : T.settle.saveCurrent r = T.settle.save t r := by
    unfold Table.saveCurrent
    rw [show T.settle.current = some t from running]
  rw [saved]
  refine ⟨⟨live, nofun⟩, Nat.le_refl _, fun _ _ => ?_, fun loud => absurd rfl loud⟩
  rw [Table.save, Table.modify_proc_self]
  exact rfl

/-- What a call returns is the saved frame of its caller. -/
theorem Kernel.syscallHandler_next {fault : Fault}
    (returned : k.syscallHandler fault r = .next (k', r')) :
    ∃ t, k.currentTask = some t ∧ r' = (k'.task t).r := by
  unfold Kernel.syscallHandler at returned
  rcases Flow.bind_eq_next returned with ⟨t, found, returned⟩
  rcases Flow.bind_eq_next returned with ⟨⟨k₁, ret⟩, _, last⟩
  cases last
  exact ⟨t, Flow.ofOption_eq_next found, rfl⟩

/-- The table in which a call returns. -/
theorem syscallHandler_calling (view : View k T) (alive : T.dying = false)
    (running : k.currentTask = some t) (live : t ∈ T.live) (met : NoSuicide k (.syscall r) k')
    (returned : k.syscallHandler (Kernel.kernelFault frames depth) r = .next (k', r')) :
    ∃ T', View k' T' ∧ (T.settle.saveCurrent r).Calling T' t r ∧ T'.resumed = false ∧
      T'.current = some t := by
  have here : T.current = some t := view.current.trans running
  have entered := view.entered (.syscall r)
  have goes := (Interrupt.syscall r).goes_entered T
  have faults : (Kernel.kernelFault frames depth).Answers
      (Serving (attending t) (T.settle.saveCurrent r)) (Ended anything (T.settle.saveCurrent r)) ∧
      (Kernel.kernelFault frames depth).Exits (Serving (attending t) (T.settle.saveCurrent r))
        (Ended anything (T.settle.saveCurrent r)) :=
    kernelFault_serving (attending_within t) (fun _ => trivial) frames depth
  have handler := Kernel.syscallHandler_serves entered .start rfl (goes.dying.trans alive)
    goes.resumed id faults.1 faults.2 (kernelFault_idle frames depth) (fun serving => serving) rfl
    (met.attending (T := T) running)
  rcases handler.of_next returned with ⟨T', view', run, _, _, busy, back⟩
  have calling := run.keeps (Table.calling_start here live r) fun calling busy moved allowed =>
    moved.calling calling busy allowed
  refine ⟨T', view', calling, busy, ?_⟩
  rcases back with same | none
  · exact same.trans (goes.current.trans here)
  · have settled := calling.settled.live
    rw [none] at settled
    cases settled

/-- The first process calls `getpid` and goes on. -/
theorem returned_getpid : ∃ k' r', calling firstRuns 39 0 0 = .next (k', r') ∧
    k'.currentTask = some 0x1000 := by
  have returns : (calling firstRuns 39 0 0).returns
      (fun result => result.1.currentTask == some 0x1000) = true := by decide
  rcases Flow.returns_next returns with ⟨⟨k', r'⟩, returned, current⟩
  exact ⟨k', r', returned, eq_of_beq current⟩

/-- No process kills a task. -/
def Spared (t : Word) (k : Kernel) (interrupt : Interrupt) : Prop :=
  ∀ r, interrupt = .syscall r → r.rax = 84 → k.getTask r.rbx ≠ .next (some t)

/-- A step after which a task still waits for its turn. -/
def Waiting (frames : Kernel → Word → Regs) (depth : Nat) (t : Word) (k : Kernel)
    (interrupt : Interrupt) (k' : Kernel) : Prop :=
  Step frames depth k interrupt k' ∧ Spared t k interrupt ∧ k'.currentTask ≠ some t

theorem Spared.admitted (spared : Spared t k interrupt) : interrupt.Admitted (sparing t) T k := by
  cases interrupt with
  | syscall r =>
      refine ⟨fun _ _ _ => trivial, fun _ _ _ => trivial, fun _ _ _ => trivial, ?_,
        fun _ _ => trivial⟩
      rintro kill s found rfl
      rw [Kernel.getTask_saveFrame] at found
      exact spared r rfl kill found
  | create filename argv envp => exact fun _ _ => trivial
  | timer r => trivial
  | pageFault vaddr r => trivial
  | key scancode => trivial
  | store virt value => trivial

/-- A task waits for its turn, or was dispatched. -/
structure Table.Parked (T : Table Word) (t : Word) (r : Regs) : Prop where
  settled : T.Settled t
  frame : T.current ≠ some t ∧ (T.proc t).r = r ∨
    T.current = some t ∧ T.resumed = true ∧ (T.proc t).r = Kernel.startFrame r

theorem Table.Move.parked {event : Event Word} (moved : T.Move event T') (parked : T.Parked t r)
    (busy : T.resumed = false) (allowed : (sparing t).Allows T event) : T'.Parked t r := by
  rcases parked.frame with ⟨off, same⟩ | ⟨_, resumed, _⟩
  · rcases moved.frame parked.settled (sparing_spares allowed off) with ⟨settled, _, frame⟩
    refine ⟨settled, ?_⟩
    cases frame with
    | kept kept stays => exact .inl ⟨fun here => off (stays here).1, kept.trans same⟩
    | own running _ _ => exact absurd running off
    | dispatched running resumed started =>
        exact .inr ⟨running, resumed, started.trans (congrArg Kernel.startFrame same)⟩
  · rw [busy] at resumed
    cases resumed

/-- An interrupt does not touch a task that is not current. -/
theorem Interrupt.parked_entered (interrupt : Interrupt) (live : t ∈ T.live)
    (off : T.current ≠ some t) : (interrupt.entered T).Parked t (T.proc t).r := by
  have settled : T.settle.Parked t (T.proc t).r := ⟨⟨live, nofun⟩, .inl ⟨off, rfl⟩⟩
  have saved : ∀ r, (T.settle.saveCurrent r).Parked t (T.proc t).r := by
    intro r
    unfold Table.saveCurrent
    cases running : T.settle.current with
    | none => exact settled
    | some s =>
        have other : t ≠ s := fun same => off (same ▸ running)
        refine ⟨⟨live, nofun⟩, .inl ⟨off, ?_⟩⟩
        show ((T.settle.save s r).proc t).r = _
        rw [Table.save, Table.modify_proc_of_ne _ other]
        rfl
  cases interrupt with
  | timer r => exact saved r
  | syscall r => exact saved r
  | pageFault vaddr r => exact saved r
  | key scancode => exact settled
  | store virt value => exact settled
  | create filename argv envp => exact settled

/-- What a step does to the frame of a listed task that is not current. -/
theorem Step.parked (stepped : Step frames depth k interrupt k') (view : View k T)
    (alive : T.dying = false) (live : t ∈ T.live) (off : k.currentTask ≠ some t)
    (spared : Spared t k interrupt) :
    ∃ T', View k' T' ∧ T'.dying = false ∧ t ∈ T'.live ∧
      (k'.task t).r = if k'.currentTask = some t then Kernel.startFrame (k.task t).r
        else (k.task t).r := by
  have start := interrupt.parked_entered live (view.current ▸ off)
  have frame : (T.proc t).r = (k.task t).r := by
    rw [view.proc]
    rfl
  have done : ∀ {T'}, View k' T' → T'.dying = false → (interrupt.entered T).Run (sparing t) T' →
      ∃ T', View k' T' ∧ T'.dying = false ∧ t ∈ T'.live ∧ (k'.task t).r =
        if k'.currentTask = some t then Kernel.startFrame (k.task t).r else (k.task t).r := by
    intro T' view' alive' run
    have parked := run.keeps start fun parked busy moved allowed => moved.parked parked busy allowed
    refine ⟨T', view', alive', parked.settled.live, ?_⟩
    have frame' : (T'.proc t).r = (k'.task t).r := by
      rw [view'.proc]
      rfl
    rw [← view'.current, ← frame', ← frame]
    rcases parked.frame with ⟨away, same⟩ | ⟨running, _, started⟩
    · rw [if_neg away, same]
    · rw [if_pos running, started]
  rcases stepped.serves view alive (fun _ _ allowed => allowed) (fun _ => trivial) spared.admitted
    with ⟨T', view', run, alive', _⟩ | ⟨T', view', run, alive', _⟩
  · exact done view' alive' run
  · exact done view' alive' run

/-- A task keeps its frame while it waits, and is dispatched with it. -/
theorem View.parked (view : View k T) (alive : T.dying = false) (live : t ∈ T.live)
    (off : k.currentTask ≠ some t) (run : Runs (Waiting frames depth t) k events k') :
    (k'.task t).r = (k.task t).r ∧
    ∀ interrupt k'', Step frames depth k' interrupt k'' → Spared t k' interrupt →
      k''.currentTask = some t → (k''.task t).r = Kernel.startFrame (k.task t).r := by
  have kept : ∃ T, View k' T ∧ T.dying = false ∧ t ∈ T.live ∧ k'.currentTask ≠ some t ∧
      (k'.task t).r = (k.task t).r := by
    apply run.keeps (P := fun k' => ∃ T, View k' T ∧ T.dying = false ∧ t ∈ T.live ∧
      k'.currentTask ≠ some t ∧ (k'.task t).r = (k.task t).r) ⟨T, view, alive, live, off, rfl⟩
    rintro k₁ interrupt k₂ ⟨T, view, alive, live, off, same⟩ ⟨stepped, spared, away⟩
    rcases stepped.parked view alive live off spared with ⟨T', view', alive', live', frame⟩
    rw [if_neg away] at frame
    exact ⟨T', view', alive', live', away, frame.trans same⟩
  rcases kept with ⟨T', view', alive', live', off', same⟩
  refine ⟨same, fun interrupt k'' stepped spared here => ?_⟩
  rcases stepped.parked view' alive' live' off' spared with ⟨_, _, _, _, frame⟩
  rw [if_pos here] at frame
  rw [frame, same]

/-- A task of the list that is not current keeps its frame through every run, whatever the others
and the devices do, and goes on with it when it is dispatched, but for what `start_process`
writes. -/
theorem parked_frame (reachable : Reachable frames depth Always k)
    (listed : Chain.Member k.nextTask k.taskList t) (off : k.currentTask ≠ some t)
    (run : Runs (Waiting frames depth t) k events k') :
    (k'.task t).r = (k.task t).r ∧
    ∀ interrupt k'', Step frames depth k' interrupt k'' → Spared t k' interrupt →
      k''.currentTask = some t → (k''.task t).r = Kernel.startFrame (k.task t).r := by
  rcases reachable.viewed with ⟨T, view, alive⟩
  exact view.parked alive (view.live.member_iff.mp listed) off run

/-- The second process waits while the first one calls `getpid`. -/
theorem parked_frame_getpid : ∃ k' r', calling firstRuns 39 0 0 = .next (k', r') ∧
    (k'.task 0x2000).r = (firstRuns.task 0x2000).r := by
  have off : firstRuns.currentTask ≠ some 0x2000 := by decide
  have tasks : Chain.Linked firstRuns.nextTask firstRuns.taskList [0x1000, 0x2000] :=
    ⟨rfl, rfl, rfl⟩
  have listed : Chain.Member firstRuns.nextTask firstRuns.taskList 0x2000 :=
    tasks.member_iff.mpr (by decide)
  rcases returned_getpid with ⟨k', r', returned, current⟩
  have spared : Spared 0x2000 firstRuns (.syscall (callFrame 39 0 0)) := by
    rintro r ⟨⟩ kill
    cases kill
  have handled : Ends (calling firstRuns 39 0 0) k' := by
    rw [returned]
    exact rfl
  have waiting : Waiting noFrames 0 0x2000 firstRuns (.syscall (callFrame 39 0 0)) k' :=
    ⟨.syscall firstRuns_current rfl handled, spared, by rw [current]; decide⟩
  have kept := parked_frame (reachable_firstRuns trivial) listed off (.single waiting)
  exact ⟨k', r', returned, kept.1⟩

end Sbrocks.Process
