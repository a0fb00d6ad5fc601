import Mathlib.Data.List.Perm.Subperm
import Sbrocks.Process.Sleepers

/-!
# The clock

`timer_handler` looks at the seconds on every eighteenth tick, a hundred of which make a
second.  No second is missed that way: the clock shows them as minutes and hours, and each
of them counts the sleepers down once.
-/

namespace Sbrocks.Process

open Mmu Kernel

/-- The next tick begins a second. -/
def Timer.Begins (timer : Timer) : Prop :=
  (timer.timerTicks + 1).srem 18 = 0 ∧ timer.prevSecs ≠ (timer.timerTicks + 1).sdiv 100

instance (timer : Timer) : Decidable timer.Begins :=
  inferInstanceAs (Decidable (_ ∧ _))

/-- The timer after a tick. -/
def Timer.tick (timer : Timer) : Timer :=
  let counted := { timer with timerTicks := timer.timerTicks + 1 }
  if timer.Begins then newSecond counted (counted.timerTicks.sdiv 100) else counted

/-- The timer at boot. -/
def Timer.zero : Timer :=
  { timerTicks := 0, prevSecs := 0, hh := 0, mm := 0, ss := 0 }

/-- The ticks since boot, and those of them, the latest first, at which a second began and
`update_time_slices` was called.  Between the ticks the kernel does whatever leaves the timer
alone. -/
inductive Clocked : Nat → List Nat → Kernel → Prop
  | boot {k : Kernel} (zero : k.timer = .zero) : Clocked 0 [] k
  | other {n : Nat} {changes : List Nat} {k k' : Kernel} (clocked : Clocked n changes k)
      (timer : k'.timer = k.timer) : Clocked n changes k'
  | quiet {n : Nat} {changes : List Nat} {k k' : Kernel} {r r' : Regs}
      (clocked : Clocked n changes k) (quiet : ¬ k.timer.Begins)
      (ticked : k.timerHandler r = .next (k', r')) : Clocked (n + 1) changes k'
  | second {n : Nat} {changes : List Nat} {k k' : Kernel} {r r' : Regs}
      (clocked : Clocked n changes k) (begins : k.timer.Begins)
      (ticked : k.timerHandler r = .next (k', r')) : Clocked (n + 1) ((n + 1) :: changes) k'

/-- The seconds that have gone by when the ticks were last looked at. -/
def secondsAt (n : Nat) : Nat :=
  18 * (n / 18) / 100

/-! ## What a tick does to the timer -/

variable {k k' : Kernel} {n : Nat} {changes : List Nat}

namespace Kernel

/-- `update_time_slices` is called when a second begins, and only then. -/
theorem countTick_eq (k : Kernel) : k.countTick =
    let ticked := { k with timer := { k.timer with timerTicks := k.timer.timerTicks + 1 } }
    if k.timer.Begins then
      ticked.updateTimeSlices >>= fun k' =>
        .next { k' with timer := newSecond k'.timer (ticked.timer.timerTicks.sdiv 100) }
    else .next ticked :=
  rfl

theorem updateTimeSlicesLoop_timer (k : Kernel) (start : Option Word) (rounds : Nat) :
    (k.updateTimeSlicesLoop start rounds).All (fun k' => k'.timer = k.timer) fun _ => False := by
  induction rounds generalizing k start with
  | zero => trivial
  | succ rounds ih =>
      cases start with
      | none => rfl
      | some t => exact (ih (k.modTask t updateTimeSlice) _).imp fun _ same => same

theorem countTick_timer (k : Kernel) :
    k.countTick.All (fun k' => k'.timer = k.timer.tick) fun _ => False := by
  rw [countTick_eq]
  unfold Timer.tick
  dsimp only
  split
  · apply (updateTimeSlicesLoop_timer _ _ _).bind
    intro mid timer
    exact congrArg (newSecond · _) timer
  · rfl

theorem saveFrame_timer (k : Kernel) (r : Regs) : (k.saveFrame r).timer = k.timer := by
  unfold saveFrame
  split <;> rfl

theorem preempt_timer (k : Kernel) : k.preempt.timer = k.timer := by
  unfold preempt
  split <;> rfl

theorem timerHandler_timer (k : Kernel) (r : Regs) :
    (k.timerHandler r).All (fun result => result.1.timer = k.timer.tick) fun _ => False := by
  apply (countTick_timer (k.saveFrame r)).bind
  intro mid counted
  rw [saveFrame_timer] at counted
  apply (scheduleProcess_cases mid).bind
  intro k' scheduled
  show k'.timer = _
  rcases scheduled with rfl | ⟨task, -, rfl⟩
  · exact counted
  · exact (preempt_timer mid).trans counted

end Kernel

/-! ## The seconds and the ticks -/

/-- The time of day when so many seconds have gone by, with days of the given hours. -/
structure Timer.Shows (timer : Timer) (seconds hours : Nat) : Prop where
  ss : timer.ss.toNat = seconds % 60
  mm : timer.mm.toNat = seconds / 60 % 60
  hh : timer.hh.toNat = seconds / 3600 % hours

/-- The timer after some ticks.  Its days have twenty-five hours. -/
structure Timer.At (timer : Timer) (n : Nat) : Prop where
  timerTicks : timer.timerTicks.toNat = n
  prevSecs : timer.prevSecs.toNat = secondsAt n
  shows : timer.Shows (secondsAt n) 25

theorem secondsAt_succ (n : Nat) : secondsAt (n + 1) =
    if (n + 1) % 18 = 0 ∧ secondsAt n ≠ (n + 1) / 100 then secondsAt n + 1 else secondsAt n := by
  unfold secondsAt
  split <;> omega

namespace Timer

variable {timer : Timer}

theorem zero_at : Timer.zero.At 0 :=
  ⟨rfl, rfl, rfl, rfl, rfl⟩

theorem At.ticks (clock : timer.At n) (small : n + 1 < 2 ^ 31) :
    (timer.timerTicks + 1).toNat = n + 1 := by
  rw [BitVec.toNat_add, clock.timerTicks]
  show (n + 1) % 2 ^ 32 = _
  exact Nat.mod_eq_of_lt (by omega)

theorem At.begins_iff (clock : timer.At n) (small : n + 1 < 2 ^ 31) :
    timer.Begins ↔ (n + 1) % 18 = 0 ∧ secondsAt n ≠ (n + 1) / 100 := by
  have ticks := clock.ticks small
  have few : (timer.timerTicks + 1).toNat < 2 ^ 31 := by rwa [ticks]
  have seconds : ((timer.timerTicks + 1).sdiv 100).toNat = (n + 1) / 100 := by
    rw [toNat_sdiv few (by decide), ticks]
    rfl
  have rest : ((timer.timerTicks + 1).srem 18).toNat = (n + 1) % 18 := by
    rw [toNat_srem few (by decide), ticks]
    rfl
  unfold Begins
  rw [← BitVec.toNat_inj, rest, ne_eq, ← BitVec.toNat_inj, clock.prevSecs, seconds]
  rfl

theorem newSecond_timerTicks (timer : Timer) (secs : BitVec 32) :
    (newSecond timer secs).timerTicks = timer.timerTicks := by
  unfold newSecond
  dsimp only
  split
  · split
    · split <;> rfl
    · rfl
  · rfl

/-- A new second, from the one before. -/
theorem Shows.newSecond {s : Nat} {secs : BitVec 32} (shows : timer.Shows s 25)
    (next : secs.toNat = s + 1) : (newSecond timer secs).Shows (s + 1) 25 := by
  rcases shows with ⟨ss, mm, hh⟩
  have second : (secs % 60).toNat = (s + 1) % 60 := by
    rw [BitVec.toNat_umod, next]
    rfl
  have minute : (timer.mm + 1).toNat = s / 60 % 60 + 1 := by
    rw [BitVec.toNat_add, mm]
    show (s / 60 % 60 + 1) % 2 ^ 32 = _
    exact Nat.mod_eq_of_lt (by omega)
  have hour : (timer.hh + 1).toNat = s / 3600 % 25 + 1 := by
    rw [BitVec.toNat_add, hh]
    show (s / 3600 % 25 + 1) % 2 ^ 32 = _
    exact Nat.mod_eq_of_lt (by omega)
  unfold Kernel.newSecond
  dsimp only
  split
  · rename_i whole
    rw [← BitVec.toNat_inj, second] at whole
    change (s + 1) % 60 = 0 at whole
    split
    · rename_i sixty
      rw [← BitVec.toNat_inj, BitVec.toNat_umod, minute] at sixty
      change (s / 60 % 60 + 1) % 60 = 0 at sixty
      have minutes : 0 = (s + 1) / 60 % 60 := by omega
      split
      · rename_i past
        have past : 24 < (timer.hh + 1).toNat := past
        rw [hour] at past
        have hours : 0 = (s + 1) / 3600 % 25 := by omega
        exact ⟨second, minutes, hours⟩
      · rename_i within
        have within : ¬ 24 < (timer.hh + 1).toNat := within
        rw [hour] at within
        exact ⟨second, minutes, hour.trans (by omega)⟩
    · rename_i less
      rw [← BitVec.toNat_inj, BitVec.toNat_umod, minute] at less
      change ¬ (s / 60 % 60 + 1) % 60 = 0 at less
      exact ⟨second, minute.trans (by omega), hh.trans (by omega)⟩
  · rename_i part
    rw [← BitVec.toNat_inj, second] at part
    change ¬ (s + 1) % 60 = 0 at part
    exact ⟨second, mm.trans (by omega), hh.trans (by omega)⟩

theorem At.tick (clock : timer.At n) (small : n + 1 < 2 ^ 31) : timer.tick.At (n + 1) := by
  have ticks := clock.ticks small
  have begins := clock.begins_iff small
  have seconds := secondsAt_succ n
  unfold Timer.tick
  dsimp only
  split
  · rename_i begun
    have change := begins.mp begun
    rw [if_pos change] at seconds
    have secs : ((timer.timerTicks + 1).sdiv 100).toNat = secondsAt n + 1 := by
      rw [toNat_sdiv (by omega) (by decide), ticks, ← seconds]
      show (n + 1) / 100 = 18 * ((n + 1) / 18) / 100
      omega
    refine ⟨?_, ?_, ?_⟩
    · rw [newSecond_timerTicks]
      exact ticks
    · rw [newSecond_prevSecs, secs, seconds]
    · rw [seconds]
      have counted : Shows { timer with timerTicks := timer.timerTicks + 1 } (secondsAt n) 25 :=
        ⟨clock.shows.ss, clock.shows.mm, clock.shows.hh⟩
      exact counted.newSecond secs
  · rename_i quiet
    rw [if_neg fun begun => quiet (begins.mpr begun)] at seconds
    refine ⟨ticks, ?_, ?_⟩
    · rw [seconds]
      exact clock.prevSecs
    · rw [seconds]
      exact ⟨clock.shows.ss, clock.shows.mm, clock.shows.hh⟩

end Timer

/-! ## Runs -/

/-- What the ticks since boot have done. -/
structure Kept (n : Nat) (changes : List Nat) (timer : Timer) : Prop where
  clock : timer.At n
  /-- Each second has begun once. -/
  count : changes.length = secondsAt n
  /-- The seconds shown are those of the last change. -/
  last : changes.headD 0 / 100 = secondsAt n
  sampled : ∀ m ∈ changes, m % 18 = 0

theorem Clocked.kept (clocked : Clocked n changes k) (small : n < 2 ^ 31) :
    Kept n changes k.timer := by
  induction clocked with
  | boot zero =>
      rw [zero]
      exact ⟨Timer.zero_at, rfl, rfl, nofun⟩
  | other _ timer ih =>
      rw [timer]
      exact ih small
  | @quiet n changes k k' r r' _ quiet ticked ih =>
      have kept := ih (by omega)
      have timer : k'.timer = k.timer.tick := (timerHandler_timer k r).of_next ticked
      have still := secondsAt_succ n
      rw [if_neg fun begun => quiet ((kept.clock.begins_iff small).mpr begun)] at still
      rw [timer]
      refine ⟨kept.clock.tick small, ?_, ?_, kept.sampled⟩
      · rw [still]
        exact kept.count
      · rw [still]
        exact kept.last
  | @second n changes k k' r r' _ begins ticked ih =>
      have kept := ih (by omega)
      have timer : k'.timer = k.timer.tick := (timerHandler_timer k r).of_next ticked
      have change := (kept.clock.begins_iff small).mp begins
      have next := secondsAt_succ n
      rw [if_pos change] at next
      rw [timer]
      refine ⟨kept.clock.tick small, ?_, ?_, ?_⟩
      · rw [next, List.length_cons, kept.count]
      · show (n + 1) / 100 = 18 * ((n + 1) / 18) / 100
        omega
      · intro m member
        rcases List.mem_cons.mp member with rfl | earlier
        · exact change.1
        · exact kept.sampled m earlier

/-- Without tasks, a tick only counts. -/
theorem timerHandler_idle (k : Kernel) (r : Regs) (current : k.currentTask = none)
    (empty : k.taskList = none) :
    k.timerHandler r = .next ({ k with timer := k.timer.tick }, r) := by
  have counted : k.countTick = .next { k with timer := k.timer.tick } := by
    rw [countTick_eq]
    unfold Timer.tick updateTimeSlices taskRounds
    dsimp only
    split
    · rw [empty]
      rfl
    · rfl
  have saved : k.saveFrame r = k := by rw [saveFrame, current]
  unfold timerHandler scheduleProcess getNextTask writtenBack
  rw [saved, counted]
  simp [current, empty, Flow.pure_eq_next]

theorem clocked_idle (current : k.currentTask = none) (empty : k.taskList = none) (n : Nat) :
    ∃ changes k', Clocked n changes k' ∧ k'.currentTask = none ∧ k'.taskList = none := by
  induction n with
  | zero => exact ⟨[], { k with timer := .zero }, .boot rfl, current, empty⟩
  | succ n ih =>
      rcases ih with ⟨changes, k', clocked, current', empty'⟩
      have ticked := timerHandler_idle k' default current' empty'
      by_cases begins : k'.timer.Begins
      · exact ⟨_, _, .second clocked begins ticked, current', empty'⟩
      · exact ⟨_, _, .quiet clocked begins ticked, current', empty'⟩

/-! ## The time of day -/

/-- A count modulo twenty-five and modulo twenty-four. -/
theorem mod_25_eq_mod_24 (hours : Nat) : hours % 25 = hours % 24 ↔ hours % 600 < 24 := by
  omega

/-- The clock is right on the first day, and on the first of each twenty-five days after
which its own days begin together with those again. -/
theorem clock_right_iff (clocked : Clocked n changes k) (small : n < 2 ^ 31) :
    k.timer.Shows (changes.headD 0 / 100) 24 ↔ 18 * (n / 18) / 100 / 3600 % 600 < 24 := by
  have kept := clocked.kept small
  have shown := kept.clock.shows
  have hours := mod_25_eq_mod_24 (secondsAt n / 3600)
  change _ ↔ secondsAt n / 3600 % 600 < 24
  rw [kept.last, ← hours]
  constructor
  · intro right
    exact shown.hh.symm.trans right.hh
  · intro same
    exact ⟨shown.ss, shown.mm, shown.hh.trans same⟩

/-- A kernel without tasks. -/
def noTasks : Kernel :=
  Kernel.initial ⟨⟨fun _ => 0, fun _ _ => 0, []⟩, fun _ _ => 0, 0x1000, 0x1000, 0x10000⟩ 0x100

/-- After an hour and a half. -/
theorem clock_right_iff_noTasks : ∃ changes k, Clocked 540000 changes k ∧
    k.timer.Shows (changes.headD 0 / 100) 24 := by
  rcases clocked_idle (k := noTasks) rfl rfl 540000 with ⟨changes, k, clocked, -, -⟩
  exact ⟨changes, k, clocked, (clock_right_iff clocked (by decide)).mpr (by decide)⟩

/-- A day after boot, the clock shows the hour twenty-four. -/
theorem clock_wrong_noTasks : ¬ ∀ (n : Nat) (changes : List Nat) (k : Kernel),
    n < 2 ^ 31 → Clocked n changes k → k.timer.Shows (changes.headD 0 / 100) 24 := by
  intro right
  rcases clocked_idle (k := noTasks) rfl rfl 8640000 with ⟨changes, k, clocked, -, -⟩
  have kept := clocked.kept (by decide)
  have wrong := (right _ _ _ (by decide) clocked).hh
  rw [kept.clock.shows.hh, kept.last] at wrong
  exact absurd wrong (by decide)

/-! ## Ageing the sleepers -/

/-- With a task list that ends, ageing the sleepers comes to its end. -/
theorem updateTimeSlicesLoop_next {start : Option Word} {tasks : List Word} {rounds : Nat}
    (linked : Chain.Linked k.nextTask start tasks) (room : tasks.length < rounds) :
    ∃ k', k.updateTimeSlicesLoop start rounds = .next k' := by
  induction tasks generalizing k start rounds with
  | nil =>
      cases linked
      cases rounds with
      | zero => cases room
      | succ rounds => exact ⟨k, rfl⟩
  | cons t tasks ih =>
      rcases linked with ⟨rfl, linked⟩
      cases rounds with
      | zero => cases room
      | succ rounds =>
          have next := (modTask_updateTimeSlice_aged k t).next
          have linked' : Chain.Linked (k.modTask t updateTimeSlice).nextTask
              ((k.modTask t updateTimeSlice).nextTask t) tasks := by
            rw [show (k.modTask t updateTimeSlice).nextTask t = k.nextTask t from next t]
            exact linked.congr fun s _ => next s
          have less : tasks.length < rounds := Nat.lt_of_succ_lt_succ room
          rcases ih linked' less with ⟨k', done⟩
          exact ⟨k', done⟩

/-- The rounds suffice for a list of structures that were allocated. -/
theorem room_of_linked {tasks : List Word} (linked : Chain.Linked k.nextTask k.taskList tasks)
    (allocated : ∀ t ∈ tasks, t ∈ k.taskStructs) : tasks.length < k.taskRounds := by
  have subperm := List.subperm_of_subset linked.nodup allocated
  exact Nat.lt_succ_of_le subperm.length_le

/-- The tasks after the ticks are counted once. -/
theorem countTick_tasks {tasks : List Word} (linked : Chain.Linked k.nextTask k.taskList tasks)
    (allocated : ∀ t ∈ tasks, t ∈ k.taskStructs) :
    ∃ k', k.countTick = .next k' ∧ ∀ t, k'.task t =
      if k.timer.Begins ∧ t ∈ tasks then updateTimeSlice (k.task t) else k.task t := by
  rw [countTick_eq]
  dsimp only
  generalize described :
    ({ k with timer := { k.timer with timerTicks := k.timer.timerTicks + 1 } } : Kernel) = ticked
  have same : ticked.task = k.task := by rw [← described]
  have linked' : Chain.Linked ticked.nextTask ticked.taskList tasks := by
    rw [← described]
    exact linked
  have room : tasks.length < ticked.taskRounds := by
    rw [← described]
    exact room_of_linked linked allocated
  split
  · rename_i begins
    rcases updateTimeSlicesLoop_next linked' room with ⟨aged, done⟩
    refine ⟨_, by rw [updateTimeSlices, done]; rfl, ?_⟩
    intro t
    have task : aged.task t = _ := (updateTimeSlicesLoop_task linked').of_next done
    show aged.task t = _
    rw [task, same]
    simp [begins]
  · rename_i quiet
    refine ⟨ticked, rfl, ?_⟩
    intro t
    rw [same]
    simp [quiet]

end Sbrocks.Process
