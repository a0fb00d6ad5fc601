import Sbrocks.Concurrent.Crew
import Sbrocks.Process.Ports
import Sbrocks.Sbush.Execute

/-!
# The processes of the shell

What the calls of the shell do: processes are forked, make pipes, redirect their ports and
execute programs, beside each other and beside the rest of the system.
-/

namespace Sbrocks.Sbush

open Sbrocks.Concurrent Sbrocks.Transition
open Process (Ports Pipe)

/-! ## The system of the shell -/

/-- What a process did that others can build on. -/
inductive Deed where
  | forked (parent child : Nat)
  | piped (owner : Nat) (pipe : Pipe Nat)

/-- Who did it. -/
def Deed.actor : Deed → Nat
  | forked parent _ => parent
  | piped owner _ => owner

/-- What the processes share. -/
structure Host where
  nextPid : Nat
  fdCount : Nat
  nextBuffer : Nat
  log : List Deed

/-- A process: the program that it executes in place of the shell, if any, is its image. -/
structure Worker where
  pid : Nat
  ports : Ports Nat
  image : Option (Text × List Text)

namespace Host

variable (s : Host)

/-- The child that a deed made. -/
def childOf (pid : Nat) : Deed → Option Nat
  | .forked parent child => if parent = pid then some child else none
  | .piped _ _ => none

/-- The pipe that a deed made. -/
def pipeOf (pid : Nat) : Deed → Option (Pipe Nat)
  | .forked _ _ => none
  | .piped owner pipe => if owner = pid then some pipe else none

/-- The children of a process, the oldest first. -/
def children (pid : Nat) : List Nat := s.log.filterMap (childOf pid)

/-- The pipes that a process made, the oldest first. -/
def pipes (pid : Nat) : List (Pipe Nat) := s.log.filterMap (pipeOf pid)

/-- A process is forked. -/
def fork (parent : Nat) : Host :=
  { s with nextPid := s.nextPid + 1, log := s.log ++ [.forked parent s.nextPid] }

/-- The next pipe. -/
def nextPipe : Pipe Nat where
  readEnd := BitVec.ofNat 64 s.fdCount
  writeEnd := BitVec.ofNat 64 (s.fdCount + 1)
  buffer := s.nextBuffer

/-- A pipe is made. -/
def pipe (owner : Nat) : Host :=
  { s with
    fdCount := s.fdCount + 2
    nextBuffer := s.nextBuffer + 1
    log := s.log ++ [.piped owner s.nextPipe] }

end Host

/-- What the calls do.  A file may not be executed, and a wait may end at any time. -/
inductive Acts : Host → Worker → (c : Call) → Host → Outcome Worker (Answer c) → Prop
  | fork (s : Host) (w : Worker) :
      Acts s w .fork (s.fork w.pid) (.split w s.nextPid { w with pid := s.nextPid } 0)
  | pipe (s : Host) (w : Worker) (few : s.fdCount + 2 < 2 ^ 31) :
      Acts s w .pipe (s.pipe w.pid) (.back { w with ports := w.ports.addPipe s.nextPipe }
        (s.nextPipe.readEnd, s.nextPipe.writeEnd))
  | dup2 (s : Host) (w : Worker) (oldfd newfd : Word) :
      Acts s w (.dup2 oldfd newfd) s (.back { w with ports := w.ports.dup2 oldfd newfd } ())
  | execve (s : Host) (w : Worker) (filename : Text) (argv : List Text) (envp : Text) :
      Acts s w (.execve filename argv envp) s (.gone { w with image := some (filename, argv) })
  | refused (s : Host) (w : Worker) (filename : Text) (argv : List Text) (envp : Text)
      (result : Int) : Acts s w (.execve filename argv envp) s (.back w result)
  | waitpid (s : Host) (w : Worker) (pid : Nat) : Acts s w (.waitpid pid) s (.back w ())
  | sleep (s : Host) (w : Worker) (seconds : Nat) : Acts s w (.sleep seconds) s (.back w ())
  | exit (s : Host) (w : Worker) (status : Nat) : Acts s w (.exit status) s (.gone w)
  | printf (s : Host) (w : Worker) (text : Text) : Acts s w (.printf text) s (.back w ())
  | serror (s : Host) (w : Worker) : Acts s w .serror s (.back w ())
  | cls (s : Host) (w : Worker) : Acts s w .cls s (.back w ())
  | getcwd (s : Host) (w : Worker) (buf : Option Text) : Acts s w .getcwd s (.back w buf)
  | crash (s : Host) (w : Worker) : Acts s w .crash s (.gone w)

/-- Other processes of the system may use up descriptors, pids and buffers. -/
structure Outside (s s' : Host) : Prop where
  log : s'.log = s.log
  nextPid : s.nextPid ≤ s'.nextPid
  fdCount : s.fdCount ≤ s'.fdCount
  nextBuffer : s.nextBuffer ≤ s'.nextBuffer

/-! ## What a process can rely on -/

/-- A process has a pid and descriptors of its own. -/
structure Placed (s : Host) (w : Worker) : Prop where
  pid : w.pid < s.nextPid
  two : 2 ≤ s.fdCount
  keyed : w.ports.Keyed s.fdCount
  past : ∀ d ∈ s.log, d.actor < s.nextPid

/-- Others do not act in the name of a process. -/
structure Rely (w : Worker) (s s' : Host) : Prop where
  log : s.log <+: s'.log
  children : s'.children w.pid = s.children w.pid
  pipes : s'.pipes w.pid = s.pipes w.pid

variable {s s' s'' : Host} {w w' m : Worker} {c : Call} {outcome : Outcome Worker (Answer c)}

theorem Rely.refl (w : Worker) (s : Host) : Rely w s s :=
  ⟨List.prefix_rfl, rfl, rfl⟩

theorem Rely.trans (first : Rely w s s') (second : Rely w s' s'') : Rely w s s'' :=
  ⟨first.log.trans second.log, second.children.trans first.children,
    second.pipes.trans first.pipes⟩

theorem children_fork (s : Host) (parent pid : Nat) : (s.fork parent).children pid =
    s.children pid ++ if parent = pid then [s.nextPid] else [] := by
  unfold Host.children Host.fork
  rw [List.filterMap_append]
  by_cases own : parent = pid
  · simp [Host.childOf, own]
  · simp [Host.childOf, own]

theorem pipes_fork (s : Host) (parent pid : Nat) : (s.fork parent).pipes pid = s.pipes pid := by
  unfold Host.pipes Host.fork
  rw [List.filterMap_append]
  simp [Host.pipeOf]

theorem children_pipe (s : Host) (owner pid : Nat) : (s.pipe owner).children pid = s.children pid := by
  unfold Host.children Host.pipe
  rw [List.filterMap_append]
  simp [Host.childOf]

theorem pipes_pipe (s : Host) (owner pid : Nat) : (s.pipe owner).pipes pid =
    s.pipes pid ++ if owner = pid then [s.nextPipe] else [] := by
  unfold Host.pipes Host.pipe
  rw [List.filterMap_append]
  by_cases own : owner = pid
  · simp [Host.pipeOf, own]
  · simp [Host.pipeOf, own]

theorem Acts.log (acted : Acts s w c s' outcome) : s.log <+: s'.log := by
  cases acted with
  | fork => exact List.prefix_append _ _
  | pipe few => exact List.prefix_append _ _
  | _ => exact List.prefix_rfl

theorem Acts.rely (acted : Acts s w c s' outcome) (apart : w.pid ≠ m.pid) : Rely m s s' := by
  refine ⟨acted.log, ?_, ?_⟩
  · cases acted with
    | fork => rw [children_fork, if_neg apart, List.append_nil]
    | pipe few => exact children_pipe s w.pid m.pid
    | _ => rfl
  · cases acted with
    | fork => exact pipes_fork s w.pid m.pid
    | pipe few => rw [pipes_pipe, if_neg apart, List.append_nil]
    | _ => rfl

theorem Placed.mono (placed : Placed s w) (pid : s.nextPid ≤ s'.nextPid)
    (fdCount : s.fdCount ≤ s'.fdCount) (past : ∀ d ∈ s'.log, d.actor < s'.nextPid) : Placed s' w :=
  ⟨Nat.lt_of_lt_of_le placed.pid pid, placed.two.trans fdCount, placed.keyed.mono fdCount, past⟩

theorem Acts.counts (acted : Acts s w c s' outcome) :
    s.nextPid ≤ s'.nextPid ∧ s.fdCount ≤ s'.fdCount := by
  cases acted with
  | fork => exact ⟨Nat.le_succ _, Nat.le_refl _⟩
  | pipe few => exact ⟨Nat.le_refl _, Nat.le_add_right _ _⟩
  | _ => exact ⟨Nat.le_refl _, Nat.le_refl _⟩

theorem Acts.past (placed : Placed s w) (acted : Acts s w c s' outcome) :
    ∀ d ∈ s'.log, d.actor < s'.nextPid := by
  have one : ∀ (d : Deed) (bound : Nat), s.nextPid ≤ bound → d.actor = w.pid →
      ∀ e ∈ s.log ++ [d], e.actor < bound := by
    intro d bound more own e member
    rcases List.mem_append.mp member with old | new
    · exact Nat.lt_of_lt_of_le (placed.past e old) more
    · rw [List.mem_singleton.mp new, own]
      exact Nat.lt_of_lt_of_le placed.pid more
  cases acted with
  | fork => exact one _ _ (Nat.le_succ _) rfl
  | pipe few => exact one _ _ (Nat.le_refl _) rfl
  | _ => exact placed.past

theorem nextPipe_ends (few : s.fdCount + 2 < 2 ^ 31) :
    s.nextPipe.readEnd.toNat = s.fdCount ∧ s.nextPipe.writeEnd.toNat = s.fdCount + 1 := by
  simp only [Host.nextPipe, BitVec.toNat_ofNat]
  omega

/-- A call leaves its process in place, and a new one with it. -/
theorem Acts.placed (placed : Placed s w) (acted : Acts s w c s' outcome) :
    (∀ m ∈ outcome.owns, Placed s' m) ∧ outcome.owns.Pairwise (fun l m => l.pid ≠ m.pid) := by
  have single : ∀ {m : Worker}, Placed s' m → (∀ l ∈ [m], Placed s' l) ∧
      [m].Pairwise (fun l m => l.pid ≠ m.pid) :=
    fun here => ⟨List.forall_mem_singleton.mpr here, List.pairwise_singleton _ _⟩
  have kept := placed.mono acted.counts.1 acted.counts.2 (acted.past placed)
  cases acted with
  | fork =>
      refine ⟨List.forall_mem_cons.mpr ⟨kept, List.forall_mem_singleton.mpr ?_⟩, ?_⟩
      · exact ⟨Nat.lt_succ_self _, kept.two, kept.keyed, kept.past⟩
      · refine List.pairwise_cons.mpr ⟨?_, List.pairwise_singleton _ _⟩
        exact List.forall_mem_singleton.mpr (Nat.ne_of_lt placed.pid)
  | pipe few =>
      have ends := nextPipe_ends few
      exact single ⟨kept.pid, kept.two, placed.keyed.addPipe ends.1 ends.2, kept.past⟩
  | dup2 oldfd newfd => exact single ⟨kept.pid, kept.two, kept.keyed.dup2 oldfd newfd, kept.past⟩
  | execve filename argv envp => exact single ⟨kept.pid, kept.two, kept.keyed, kept.past⟩
  | _ => exact single kept

theorem Acts.apart (acted : Acts s w c s' outcome) (placed : Placed s m) (apart : w.pid ≠ m.pid) :
    ∀ l ∈ outcome.owns, l.pid ≠ m.pid := by
  cases acted with
  | fork =>
      refine List.forall_mem_cons.mpr ⟨apart, List.forall_mem_singleton.mpr ?_⟩
      exact (Nat.ne_of_lt placed.pid).symm
  | _ => exact List.forall_mem_singleton.mpr apart

/-- Processes know each other only by what they did. -/
def discipline : Discipline Acts Outside where
  Placed := Placed
  Apart l m := l.pid ≠ m.pid
  Rely := Rely
  apart_symm apart := apart.symm
  rely_refl := Rely.refl
  rely_trans := Rely.trans
  outside_placed changed placed := placed.mono changed.nextPid changed.fdCount fun d member =>
    Nat.lt_of_lt_of_le (placed.past d (changed.log ▸ member)) changed.nextPid
  outside_rely changed :=
    ⟨changed.log ▸ List.prefix_rfl, by simp only [Host.children, changed.log],
      by simp only [Host.pipes, changed.log]⟩
  own_placed placed acted := acted.placed placed
  other placed acted known apart :=
    ⟨known.mono acted.counts.1 acted.counts.2 (acted.past placed), acted.rely apart, acted.apart known apart⟩

/-! ## One call -/

section

variable {α : Type} {post : Host → Worker → Prop} {ret : α → Host → Worker → Prop}

theorem safe_fork {next : Nat → ShellCode α}
    (each : ∀ s', Rely w s s' → Placed s' w →
      discipline.Safe post ret (s'.fork w.pid) w (next s'.nextPid) ∧
        discipline.Safe post ret (s'.fork w.pid) { w with pid := s'.nextPid } (next 0)) :
    discipline.Safe post ret s w (.call .fork next) := by
  intro s' relied placed s'' outcome acted
  cases acted with
  | fork => exact each s' relied placed

theorem safe_pipe {next : Word × Word → ShellCode α}
    (each : ∀ s', Rely w s s' → Placed s' w → s'.fdCount + 2 < 2 ^ 31 →
      discipline.Safe post ret (s'.pipe w.pid) { w with ports := w.ports.addPipe s'.nextPipe }
        (next (s'.nextPipe.readEnd, s'.nextPipe.writeEnd))) :
    discipline.Safe post ret s w (.call .pipe next) := by
  intro s' relied placed s'' outcome acted
  cases acted with
  | pipe few => exact each s' relied placed few

theorem safe_dup2 {oldfd newfd : Word} {next : Unit → ShellCode α}
    (each : ∀ s', Rely w s s' →
      discipline.Safe post ret s' { w with ports := w.ports.dup2 oldfd newfd } (next ())) :
    discipline.Safe post ret s w (.call (.dup2 oldfd newfd) next) := by
  intro s' relied _ s'' outcome acted
  cases acted with
  | dup2 => exact each s' relied

theorem safe_execve {filename : Text} {argv : List Text} {envp : Text} {next : Int → ShellCode α}
    (runs : ∀ s', Rely w s s' → post s' { w with image := some (filename, argv) })
    (each : ∀ s' result, Rely w s s' → discipline.Safe post ret s' w (next result)) :
    discipline.Safe post ret s w (.call (.execve filename argv envp) next) := by
  intro s' relied _ s'' outcome acted
  cases acted with
  | execve =>
      intro s₃ more
      exact runs s₃ (relied.trans ⟨more.log, more.children, more.pipes⟩)
  | refused => exact each s' _ relied

/-- A call that only returns. -/
theorem safe_still {next : Answer c → ShellCode α}
    (still : ∀ {s s' outcome}, Acts s w c s' outcome → s' = s ∧ ∃ answer, outcome = .back w answer)
    (each : ∀ s' answer, Rely w s s' → discipline.Safe post ret s' w (next answer)) :
    discipline.Safe post ret s w (.call c next) := by
  intro s' relied _ s'' outcome acted
  rcases still acted with ⟨rfl, answer, rfl⟩
  exact each _ answer relied

/-- A call that does not return. -/
theorem safe_leave {next : Answer c → ShellCode α}
    (leaves : ∀ {s s' outcome}, Acts s w c s' outcome → outcome = .gone w ∧ s' = s)
    (each : ∀ s', Rely w s s' → post s' w) : discipline.Safe post ret s w (.call c next) := by
  intro s' relied _ s'' outcome acted
  rcases leaves acted with ⟨rfl, same⟩
  rw [same]
  exact fun s₃ more => each s₃ (relied.trans more)

theorem safe_exit {status : Nat} (each : ∀ s', Rely w s s' → post s' w) :
    discipline.Safe post ret s w (Session.exit status) := by
  refine safe_leave (fun acted => ?_) each
  cases acted with
  | exit => exact ⟨rfl, rfl⟩

end

/-! ## Parents and children -/

/-- The crew of the shell. -/
abbrev ShellCrew := Crew Call Answer Host Worker

/-- The child that a deed made, whoever did it. -/
def Deed.child : Deed → Option Nat
  | forked _ child => some child
  | piped _ _ => none

/-- Children are younger than their parents and different from each other, and all are there. -/
structure Genealogy (root : Nat) (crew : ShellCrew) : Prop where
  older : ∀ parent child, .forked parent child ∈ crew.shared.log →
    parent < child ∧ child < crew.shared.nextPid
  distinct : (crew.shared.log.filterMap Deed.child).Nodup
  root : ∃ p ∈ crew.processes, p.own.pid = root
  present : ∀ parent child, .forked parent child ∈ crew.shared.log →
    ∃ p ∈ crew.processes, p.own.pid = child

theorem mem_children {pid child : Nat} (member : child ∈ s.children pid) :
    .forked pid child ∈ s.log := by
  rcases List.mem_filterMap.mp member with ⟨d, inside, made⟩
  cases d with
  | forked parent other =>
      change (if parent = pid then some other else none) = some child at made
      by_cases own : parent = pid
      · rw [if_pos own] at made
        rwa [own, Option.some.inj made] at inside
      · rw [if_neg own] at made
        cases made
  | piped owner pipe => cases made

theorem Genealogy.children_nodup {root : Nat} {crew : ShellCrew} (genealogy : Genealogy root crew)
    (pid : Nat) : (crew.shared.children pid).Nodup := by
  have sub : ∀ log : List Deed,
      (log.filterMap (Host.childOf pid)).Sublist (log.filterMap Deed.child) := by
    intro log
    induction log with
    | nil => exact List.Sublist.refl _
    | cons d log ih =>
        cases d with
        | piped owner pipe => exact ih
        | forked parent child =>
            by_cases own : parent = pid
            · simpa [Host.childOf, Deed.child, own] using ih
            · simpa [Host.childOf, Deed.child, own] using ih.cons child
  exact genealogy.distinct.sublist (sub _)

/-- The process that makes a call goes on, or is over, under its pid. -/
theorem Acts.still_there (acted : Acts s w c s' outcome) : ∃ l ∈ outcome.owns, l.pid = w.pid := by
  cases acted with
  | _ => exact ⟨_, List.mem_cons_self, rfl⟩

/-- A call makes a child with the next pid, or none. -/
theorem Acts.deeds (acted : Acts s w c s' outcome) :
    (s'.log = s.log ++ [.forked w.pid s.nextPid] ∧ s'.nextPid = s.nextPid + 1 ∧
      ∃ l ∈ outcome.owns, l.pid = s.nextPid) ∨
    (s'.nextPid = s.nextPid ∧
      (s'.log = s.log ∨ ∃ pipe, s'.log = s.log ++ [.piped w.pid pipe])) := by
  cases acted with
  | fork => exact .inl ⟨rfl, rfl, _, List.mem_cons_of_mem _ List.mem_cons_self, rfl⟩
  | pipe few => exact .inr ⟨rfl, .inr ⟨_, rfl⟩⟩
  | _ => exact .inr ⟨rfl, .inl rfl⟩

theorem Genealogy.step {root : Nat} {crew crew' : ShellCrew} {who : Option Worker}
    (genealogy : Genealogy root crew) (stepped : Step Acts Outside crew who crew')
    (placed : ∀ p ∈ crew.processes, Placed crew.shared p.own) : Genealogy root crew' := by
  cases stepped with
  | outside processes changed =>
      refine ⟨fun parent child made => ?_, ?_, genealogy.root, fun parent child made => ?_⟩
      · rw [changed.log] at made
        have older := genealogy.older parent child made
        exact ⟨older.1, Nat.lt_of_lt_of_le older.2 changed.nextPid⟩
      · rw [changed.log]
        exact genealogy.distinct
      · rw [changed.log] at made
        exact genealogy.present parent child made
  | @call s s' own c next outcome before after acted =>
      have here : Process.runs own (.call c next) ∈ before ++ .runs own (.call c next) :: after :=
        List.mem_append_right _ List.mem_cons_self
      have resumes : ∀ l ∈ outcome.owns, ∃ p ∈ before ++ (outcome.resume next ++ after),
          p.own = l := by
        intro l member
        rw [← Outcome.resume_owns next] at member
        rcases List.mem_map.mp member with ⟨p, inside, same⟩
        exact ⟨p, List.mem_append_right _ (List.mem_append_left _ inside), same⟩
      have stays : ∀ {pid}, (∃ p ∈ before ++ .runs own (.call c next) :: after, p.own.pid = pid) →
          ∃ p ∈ before ++ (outcome.resume next ++ after), p.own.pid = pid := by
        rintro pid ⟨p, member, rfl⟩
        rcases List.mem_append.mp member with front | behind
        · exact ⟨p, List.mem_append_left _ front, rfl⟩
        · rcases List.mem_cons.mp behind with rfl | behind
          · rcases acted.still_there with ⟨l, new, same⟩
            rcases resumes l new with ⟨p, member, rfl⟩
            exact ⟨p, member, same⟩
          · exact ⟨p, List.mem_append_right _ (List.mem_append_right _ behind), rfl⟩
      have low := (placed _ here).pid
      rcases acted.deeds with ⟨log, nextPid, l, new, young⟩ | ⟨nextPid, log | ⟨pipe, log⟩⟩
      · refine ⟨fun parent child made => ?_, ?_, stays genealogy.root, fun parent child made => ?_⟩
        · rw [log] at made
          rw [nextPid]
          rcases List.mem_append.mp made with old | latest
          · have older := genealogy.older parent child old
            exact ⟨older.1, Nat.lt_succ_of_lt older.2⟩
          · cases List.mem_singleton.mp latest
            exact ⟨low, Nat.lt_succ_self _⟩
        · rw [log, List.filterMap_append, List.nodup_append]
          refine ⟨genealogy.distinct, List.nodup_singleton _, ?_⟩
          intro child old other latest same
          rcases List.mem_filterMap.mp old with ⟨d, inside, made⟩
          cases d with
          | piped owner pipe => cases made
          | forked parent known =>
              cases made
              have older := (genealogy.older parent child inside).2
              rw [same, List.mem_singleton.mp latest] at older
              exact Nat.lt_irrefl _ older
        · rw [log] at made
          rcases List.mem_append.mp made with old | latest
          · exact stays (genealogy.present parent child old)
          · cases List.mem_singleton.mp latest
            rcases resumes l new with ⟨p, member, rfl⟩
            exact ⟨p, member, young⟩
      · exact ⟨fun parent child made => nextPid ▸ genealogy.older parent child (log ▸ made),
          log ▸ genealogy.distinct, stays genealogy.root,
          fun parent child made => stays (genealogy.present parent child (log ▸ made))⟩
      · have kept : ∀ {parent child}, Deed.forked parent child ∈ s'.log →
            .forked parent child ∈ s.log := by
          intro parent child made
          rw [log] at made
          rcases List.mem_append.mp made with old | latest
          · exact old
          · cases List.mem_singleton.mp latest
        refine ⟨fun parent child made => nextPid ▸ genealogy.older parent child (kept made), ?_,
          stays genealogy.root,
          fun parent child made => stays (genealogy.present parent child (kept made))⟩
        show (s'.log.filterMap Deed.child).Nodup
        have nothing : [Deed.piped own.pid pipe].filterMap Deed.child = [] := rfl
        rw [log, List.filterMap_append, nothing, List.append_nil]
        exact genealogy.distinct

end Sbrocks.Sbush
