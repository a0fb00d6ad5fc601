import Mathlib.Data.List.Nodup
import Sbrocks.Word.Basic

/-!
# The ports of a process

What a process knows of pipes: the descriptors that its input and its output are redirected to,
and the pipe ends that it has, each with its buffer.
-/

namespace Sbrocks.Process

universe u

/-- Redirections, where zero is none, and pipe ends with their buffers. -/
structure Ports (β : Type u) where
  readFd : Word
  writeFd : Word
  pipes : List (Word × β)

/-- The two descriptors of a pipe, with its buffer. -/
structure Pipe (β : Type u) where
  readEnd : Word
  writeEnd : Word
  buffer : β

namespace Ports

variable {β : Type u} (p : Ports β)

/-- Neither pipes nor redirections. -/
def none : Ports β := ⟨0, 0, []⟩

/-- `pipe`. -/
def addPipe (made : Pipe β) : Ports β :=
  { p with pipes := p.pipes ++ [(made.readEnd, made.buffer), (made.writeEnd, made.buffer)] }

/-- `dup2`: only the input and the output are redirected. -/
def dup2 (oldfd newfd : Word) : Ports β :=
  if newfd = 1 then { p with writeFd := oldfd }
  else if newfd = 0 then { p with readFd := oldfd }
  else p

/-- The descriptors are different, and below a bound. -/
structure Keyed (bound : Nat) : Prop where
  below : ∀ e ∈ p.pipes, e.1.toNat < bound
  distinct : (p.pipes.map Prod.fst).Nodup

variable {p} {bound bound' : Nat}

theorem Keyed.mono (keyed : p.Keyed bound) (more : bound ≤ bound') : p.Keyed bound' :=
  ⟨fun e member => Nat.lt_of_lt_of_le (keyed.below e member) more, keyed.distinct⟩

/-- The next two descriptors are new. -/
theorem Keyed.addPipe {made : Pipe β} (keyed : p.Keyed bound) (first : made.readEnd.toNat = bound)
    (second : made.writeEnd.toNat = bound + 1) : (p.addPipe made).Keyed (bound + 2) := by
  have apart : ∀ e ∈ p.pipes, e.1 ≠ made.readEnd ∧ e.1 ≠ made.writeEnd := by
    intro e member
    have low := keyed.below e member
    refine ⟨fun same => ?_, fun same => ?_⟩
    · rw [same] at low
      omega
    · rw [same] at low
      omega
  have different : made.readEnd ≠ made.writeEnd := by
    intro same
    rw [same] at first
    omega
  constructor
  · intro e member
    rcases List.mem_append.mp member with old | new
    · exact Nat.lt_of_lt_of_le (keyed.below e old) (Nat.le_add_right _ _)
    · rcases List.mem_pair.mp new with rfl | rfl
      · show made.readEnd.toNat < _
        omega
      · show made.writeEnd.toNat < _
        omega
  · rw [Ports.addPipe, List.map_append, List.nodup_append]
    refine ⟨keyed.distinct, by simpa using different, ?_⟩
    intro fd old fd' new
    rcases List.mem_map.mp old with ⟨e, member, rfl⟩
    rcases List.mem_pair.mp new with rfl | rfl
    · exact (apart e member).1
    · exact (apart e member).2

/-- The buffer of a descriptor is determined. -/
theorem Keyed.unique (keyed : p.Keyed bound) {fd : Word} {b b' : β} (one : (fd, b) ∈ p.pipes)
    (other : (fd, b') ∈ p.pipes) : b = b' := by
  have same := List.inj_on_of_nodup_map keyed.distinct one other rfl
  exact congrArg Prod.snd same

@[simp]
theorem dup2_pipes (oldfd newfd : Word) : (p.dup2 oldfd newfd).pipes = p.pipes := by
  unfold dup2
  split
  · rfl
  · split <;> rfl

theorem Keyed.dup2 (keyed : p.Keyed bound) (oldfd newfd : Word) :
    (p.dup2 oldfd newfd).Keyed bound := by
  constructor
  · rw [dup2_pipes]
    exact keyed.below
  · rw [dup2_pipes]
    exact keyed.distinct

end Ports

end Sbrocks.Process
