import Sbrocks.Fs.Indexing
import Sbrocks.Fs.Listing
import Sbrocks.Syscall.Plumbing

/-!
# The lists of pipes

Every task has a list of pipes of its own.  Pipes are put at its end, copied to another
task's list, and taken out by their descriptors.
-/

namespace Sbrocks.Process

open Sbrocks.Mmu

/-- The lists of pipes of all tasks: they end, and none shares a pipe with another. -/
structure PipeLists (k : Kernel) (pipes : Word → List Word) : Prop where
  linked : ∀ t, Chain.Linked k.nextFile (k.task t).pipe (pipes t)
  structs : ∀ t, ∀ p ∈ pipes t, p ∈ k.fileStructs
  apart : ∀ s t p, p ∈ pipes s → p ∈ pipes t → s = t

/-- A descriptor is 0 or that of a listed pipe. -/
def Backed (k : Kernel) (nodes : List Word) (fd : Word) : Prop :=
  fd = 0 ∨ ∃ p ∈ nodes, (k.file p).fd = fd

/-- Both redirections of a task are off or lead to a pipe of the task. -/
structure Redirected (k : Kernel) (nodes : List Word) (t : Word) : Prop where
  write : Backed k nodes (k.task t).writeRedirectionFd
  read : Backed k nodes (k.task t).readRedirectionFd

/-- Every task's redirections are off or lead to pipes of its own. -/
def Watertight (k : Kernel) : Prop :=
  ∃ pipes, PipeLists k pipes ∧ ∀ t, Redirected k (pipes t) t

theorem Backed.mono {k k' : Kernel} {nodes nodes' : List Word} {fd : Word}
    (backed : Backed k nodes fd)
    (kept : ∀ p ∈ nodes, (k.file p).fd = fd → ∃ q ∈ nodes', (k'.file q).fd = fd) :
    Backed k' nodes' fd := by
  rcases backed with off | ⟨p, inside, named⟩
  · exact .inl off
  · exact .inr (kept p inside named)

variable {k k' : Kernel} {pipes : Word → List Word} {t task fd : Word}

/-- Without pipes there are no redirections to keep. -/
theorem redirected_dry {nodes : List Word} (dry : (k.task t).plumbing = .dry) :
    Redirected k nodes t :=
  ⟨.inl (congrArg Plumbing.writeRedirectionFd dry), .inl (congrArg Plumbing.readRedirectionFd dry)⟩

/-- Whether the list of pipes of a task has a descriptor. -/
theorem PipeLists.isFilePipe_eq (lists : PipeLists k pipes) (t fd : Word) :
    k.isFilePipe t fd = .next (decide (∃ p ∈ pipes t, (k.file p).fd = fd)) := by
  have linked := lists.linked t
  have room := rounds_suffice linked.nodup (lists.structs t)
  rcases linked.scan_some (fun p => (k.file p).fd == fd) room with ⟨result, scanned⟩
  have asked : k.isFilePipe t fd = .next result.isSome := by
    unfold Kernel.isFilePipe
    rw [scanned]
    rfl
  rw [asked]
  apply congrArg Flow.next
  cases result with
  | none =>
      have others := linked.scan_none scanned
      symm
      rw [Option.isSome_none, decide_eq_false_iff_not]
      rintro ⟨p, inside, named⟩
      have differs := others p inside
      rw [named, beq_self_eq_true] at differs
      cases differs
  | some p =>
      have named := Chain.scan_found scanned
      symm
      rw [Option.isSome_some, decide_eq_true_eq]
      exact ⟨p, linked.scan_mem scanned, beq_iff_eq.mp named⟩

/-! ## Tasks that lose their pipes -/

theorem PipeLists.drained (lists : PipeLists k pipes) (drained : Drained k k') :
    ∃ pipes', PipeLists k' pipes' ∧ ∀ t, ((k'.task t).plumbing = (k.task t).plumbing ∧
      pipes' t = pipes t) ∨ ((k'.task t).plumbing = .dry ∧ pipes' t = []) := by
  classical
  refine ⟨fun t => if (k'.task t).plumbing = (k.task t).plumbing then pipes t else [], ?_, ?_⟩
  · constructor
    · intro t
      split
      · rename_i kept
        rw [drained.nextFile, show (k'.task t).pipe = (k.task t).pipe from congrArg Plumbing.pipe kept]
        exact lists.linked t
      · rename_i changed
        have gone := (drained.task t).resolve_left changed
        exact congrArg Plumbing.pipe gone
    · intro t p inside
      rw [drained.fileStructs]
      split at inside
      · exact lists.structs t p inside
      · cases inside
    · intro s t p first second
      split at first
      · split at second
        · exact lists.apart s t p first second
        · cases second
      · cases first
  · intro t
    dsimp only
    split
    · rename_i kept
      exact .inl ⟨kept, rfl⟩
    · rename_i changed
      exact .inr ⟨(drained.task t).resolve_left changed, rfl⟩

theorem Redirected.kept {nodes : List Word} (redirected : Redirected k nodes t)
    (drained : Drained k k') (kept : (k'.task t).plumbing = (k.task t).plumbing) :
    Redirected k' nodes t := by
  have write : (k'.task t).writeRedirectionFd = (k.task t).writeRedirectionFd :=
    congrArg Plumbing.writeRedirectionFd kept
  have read : (k'.task t).readRedirectionFd = (k.task t).readRedirectionFd :=
    congrArg Plumbing.readRedirectionFd kept
  constructor
  · rw [write]
    exact redirected.write.mono fun p inside named => ⟨p, inside, (drained.fd p).trans named⟩
  · rw [read]
    exact redirected.read.mono fun p inside named => ⟨p, inside, (drained.fd p).trans named⟩

theorem Watertight.drained (watertight : Watertight k) (drained : Drained k k') :
    Watertight k' := by
  rcases watertight with ⟨pipes, lists, redirected⟩
  rcases lists.drained drained with ⟨pipes', lists', each⟩
  refine ⟨pipes', lists', fun t => ?_⟩
  rcases each t with ⟨kept, same⟩ | ⟨gone, _⟩
  · rw [same]
    exact (redirected t).kept drained kept
  · exact redirected_dry gone

/-! ## Operations on the lists -/

/-- The descriptors of the structures and the redirections of all tasks stay. -/
structure Relisted (k k' : Kernel) : Prop where
  fd : ∀ p ∈ k.fileStructs, (k'.file p).fd = (k.file p).fd
  write : ∀ t, (k'.task t).writeRedirectionFd = (k.task t).writeRedirectionFd
  read : ∀ t, (k'.task t).readRedirectionFd = (k.task t).readRedirectionFd
  structs : ∀ p ∈ k.fileStructs, p ∈ k'.fileStructs

theorem Relisted.trans {k'' : Kernel} (first : Relisted k k') (second : Relisted k' k'') :
    Relisted k k'' where
  fd p known := (second.fd p (first.structs p known)).trans (first.fd p known)
  write t := (second.write t).trans (first.write t)
  read t := (second.read t).trans (first.read t)
  structs p known := second.structs p (first.structs p known)

theorem Redirected.relisted {nodes nodes' : List Word} (redirected : Redirected k nodes t)
    (relisted : Relisted k k') (known : ∀ p ∈ nodes, p ∈ k.fileStructs)
    (more : ∀ p ∈ nodes, p ∈ nodes') : Redirected k' nodes' t := by
  have kept : ∀ {fd}, Backed k nodes fd → Backed k' nodes' fd := fun backed =>
    backed.mono fun p inside named =>
      ⟨p, more p inside, (relisted.fd p (known p inside)).trans named⟩
  constructor
  · rw [relisted.write t]
    exact kept redirected.write
  · rw [relisted.read t]
    exact kept redirected.read

/-- What a copy of a pipe shares with it: the descriptor, the address and the offset. -/
def Kernel.pipeEntry (k : Kernel) (p : Word) : Word × Word × Word :=
  ((k.file p).fd, (k.file p).addr, (k.file p).offset)

theorem fd_entryAt {p : Word} (same : k'.entryAt p = k.entryAt p) :
    (k'.file p).fd = (k.file p).fd := by
  have kept := congrArg File.fd same
  exact kept

theorem pipeEntry_entryAt {p : Word} (same : k'.entryAt p = k.entryAt p) :
    k'.pipeEntry p = k.pipeEntry p := by
  have kept := congrArg (fun s : File => (s.fd, s.addr, s.offset)) same
  exact kept

/-- An operation changes nothing of the files but links. -/
structure Links (k k' : Kernel) : Prop where
  entry : ∀ p, k'.entryAt p = k.entryAt p
  fdCount : k'.fdCount = k.fdCount
  fileStructs : k'.fileStructs = k.fileStructs

/-- A list without one of its pipes with a descriptor, if there is one. -/
def Dropped (k : Kernel) (fd : Word) (nodes nodes' : List Word) : Prop :=
  (nodes' = nodes ∧ ∀ p ∈ nodes, (k.file p).fd ≠ fd) ∨
    ∃ front p back, nodes = front ++ p :: back ∧ (k.file p).fd = fd ∧ nodes' = front ++ back

/-- A pipe with another descriptor stays. -/
theorem Dropped.keeps {nodes nodes' : List Word} {p : Word} (dropped : Dropped k fd nodes nodes')
    (inside : p ∈ nodes) (other : (k.file p).fd ≠ fd) : p ∈ nodes' := by
  rcases dropped with ⟨rfl, _⟩ | ⟨front, q, back, rfl, named, rfl⟩
  · exact inside
  · simp only [List.mem_append, List.mem_cons] at inside ⊢
    rcases inside with early | rfl | late
    · exact .inl early
    · exact absurd named other
    · exact .inr late

namespace PipeLists

/-- Give a task another list. -/
theorem update (lists : PipeLists k pipes) {nodes : List Word}
    (linked : Chain.Linked k'.nextFile (k'.task task).pipe nodes)
    (structs : ∀ p ∈ nodes, p ∈ k'.fileStructs) (grown : ∀ p ∈ k.fileStructs, p ∈ k'.fileStructs)
    (others : ∀ t, t ≠ task → (k'.task t).pipe = (k.task t).pipe)
    (next : ∀ t, t ≠ task → ∀ p ∈ pipes t, k'.nextFile p = k.nextFile p)
    (apart : ∀ t, t ≠ task → ∀ p ∈ nodes, p ∉ pipes t) :
    PipeLists k' (Function.update pipes task nodes) where
  linked t := by
    by_cases own : t = task
    · rw [own, Function.update_self]
      exact linked
    · rw [Function.update_of_ne own, others t own]
      exact (lists.linked t).congr (next t own)
  structs t p inside := by
    by_cases own : t = task
    · rw [own, Function.update_self] at inside
      exact structs p inside
    · rw [Function.update_of_ne own] at inside
      exact grown p (lists.structs t p inside)
  apart s t p first second := by
    by_cases mine : s = task
    · by_cases yours : t = task
      · rw [mine, yours]
      · rw [mine, Function.update_self] at first
        rw [Function.update_of_ne yours] at second
        exact absurd second (apart t yours p first)
    · rw [Function.update_of_ne mine] at first
      by_cases yours : t = task
      · rw [yours, Function.update_self] at second
        exact absurd first (apart s mine p second)
      · rw [Function.update_of_ne yours] at second
        exact lists.apart s t p first second

/-- What is outside the lists may change. -/
theorem congr (lists : PipeLists k pipes) (pipe : ∀ t, (k'.task t).pipe = (k.task t).pipe)
    (next : ∀ p ∈ k.fileStructs, k'.nextFile p = k.nextFile p)
    (grown : ∀ p ∈ k.fileStructs, p ∈ k'.fileStructs) : PipeLists k' pipes where
  linked t := by
    rw [pipe t]
    exact (lists.linked t).congr fun p inside => next p (lists.structs t p inside)
  structs t p inside := grown p (lists.structs t p inside)
  apart := lists.apart

open Kernel in
/-- `add_pipe_to_task` puts a new pipe at the end of the list. -/
theorem add (lists : PipeLists k pipes) {p : Word} (struct : p ∈ k.fileStructs)
    (fresh : ∀ t, p ∉ pipes t) (task : Word) :
    ∃ k', k.addPipeToTask task p = .next k' ∧
      PipeLists k' (Function.update pipes task (pipes task ++ [p])) ∧ Relisted k k' ∧ Links k k' ∧
      ∀ q, q ∉ pipes task → q ≠ p → k'.nextFile q = k.nextFile q := by
  have linked := lists.linked task
  have known : ∀ q ∈ pipes task ++ [p], q ∈ k.fileStructs := by
    intro q inside
    rcases List.mem_append.mp inside with own | new
    · exact lists.structs task q own
    · rw [List.mem_singleton.mp new]
      exact struct
  have elsewhere : ∀ t, t ≠ task → ∀ q ∈ pipes task ++ [p], q ∉ pipes t := by
    intro t other q inside listed
    rcases List.mem_append.mp inside with own | new
    · exact other (lists.apart t task q listed own)
    · exact fresh t (List.mem_singleton.mp new ▸ listed)
  rcases List.eq_nil_or_concat (pipes task) with nil | ⟨earlier, last, whole⟩
  · rw [nil] at linked known elsewhere ⊢
    obtain ⟨mid, here⟩ : ∃ mid, mid = k.modTask task fun s => { s with pipe := some p } := ⟨_, rfl⟩
    have file : mid.file = k.file := by rw [here]; rfl
    have next : (mid.modFile p fun s => { s with next := none }).nextFile =
        Function.update k.nextFile p none := by
      rw [nextFile_modFile]
      unfold nextFile
      rw [file]
    have links : Links k (mid.modFile p fun s => { s with next := none }) := by
      refine ⟨fun q => (entryAt_modFile_next mid p q none).trans ?_, ?_, ?_⟩
      · unfold entryAt
        rw [file]
      · show mid.fdCount = k.fdCount
        rw [here]
        rfl
      · show mid.fileStructs = k.fileStructs
        rw [here]
        rfl
    refine ⟨mid.modFile p fun s => { s with next := none }, ?_, ?_, ?_, links, ?_⟩
    · rw [here]
      unfold addPipeToTask
      rw [show (k.task task).pipe = none from linked]
    · apply lists.update
      · refine ⟨?_, ?_⟩
        · show (mid.task task).pipe = some p
          rw [here, k.modTask_task_self]
        · rw [next, Function.update_self]
          rfl
      · show ∀ q ∈ [] ++ [p], q ∈ mid.fileStructs
        rw [here]
        exact known
      · show ∀ q ∈ k.fileStructs, q ∈ mid.fileStructs
        rw [here]
        exact fun _ => id
      · intro t other
        show (mid.task t).pipe = _
        rw [here, k.modTask_task_of_ne other]
      · intro t other q inside
        rw [next, Function.update_of_ne]
        rintro rfl
        exact fresh t inside
      · exact elsewhere
    · constructor
      · intro q _
        rw [← file]
        exact fd_entryAt (entryAt_modFile_next mid p q none)
      · intro t
        show (mid.task t).writeRedirectionFd = _
        rw [here]
        exact k.modTask_task_field TaskStruct.writeRedirectionFd task t rfl
      · intro t
        show (mid.task t).readRedirectionFd = _
        rw [here]
        exact k.modTask_task_field TaskStruct.readRedirectionFd task t rfl
      · show ∀ q ∈ k.fileStructs, q ∈ mid.fileStructs
        rw [here]
        exact fun _ => id
    · intro q _ other
      rw [next, Function.update_of_ne other]
  · rw [List.concat_eq_append] at whole
    rw [whole] at linked known elsewhere ⊢
    have room := rounds_suffice (whole ▸ linked.nodup) (lists.structs task)
    rw [whole, List.length_append, List.length_singleton] at room
    rcases lastFile_eq linked (by omega) with ⟨first, head, found⟩
    obtain ⟨k', same⟩ : ∃ k', k' = (k.modFile last fun s => { s with next := some p }).modFile p
      fun s => { s with next := none } := ⟨_, rfl⟩
    have next : k'.nextFile = Function.update (Function.update k.nextFile last (some p)) p none := by
      rw [same, nextFile_modFile, nextFile_modFile]
    have links : Links k k' := by
      rw [same]
      refine ⟨fun q => ?_, rfl, rfl⟩
      rw [entryAt_modFile_next, entryAt_modFile_next]
    refine ⟨k', ?_, ?_, ?_, links, ?_⟩
    · rw [same]
      unfold addPipeToTask
      rw [head]
      dsimp only
      rw [found]
      rfl
    · apply lists.update
      · rw [next, same]
        exact linked.push (whole ▸ fresh task)
      · rw [same]
        exact known
      · rw [same]
        exact fun _ => id
      · intro t _
        rw [same]
        rfl
      · intro t other q inside
        rw [next, Function.update_of_ne, Function.update_of_ne]
        · rintro rfl
          exact elsewhere t other q (by simp) inside
        · rintro rfl
          exact fresh t inside
      · exact elsewhere
    · rw [same]
      constructor
      · intro q _
        rw [same] at links
        exact fd_entryAt (links.entry q)
      · exact fun _ => rfl
      · exact fun _ => rfl
      · exact fun _ => id
    · intro q outside other
      rw [next, Function.update_of_ne other, Function.update_of_ne]
      rintro rfl
      exact outside (by simp)

/-- `remove_pipe_from_task` drops a pipe with the descriptor, if there is one. -/
theorem remove (lists : PipeLists k pipes) (task fd : Word) :
    (k.removePipeFromTask task fd).All (fun k' => ∃ nodes,
      PipeLists k' (Function.update pipes task nodes) ∧ Relisted k k' ∧ Links k k' ∧
      Dropped k fd (pipes task) nodes) fun _ => False := by
  have linked := lists.linked task
  have unchanged : (∀ p ∈ pipes task, (k.file p).fd ≠ fd) → ∃ nodes,
      PipeLists k (Function.update pipes task nodes) ∧ Relisted k k ∧ Links k k ∧
      Dropped k fd (pipes task) nodes := by
    intro others
    refine ⟨pipes task, ?_, ⟨fun _ _ => rfl, fun _ => rfl, fun _ => rfl, fun _ => id⟩,
      ⟨fun _ => rfl, rfl, rfl⟩, .inl ⟨rfl, others⟩⟩
    rw [Function.update_eq_self]
    exact lists
  unfold Kernel.removePipeFromTask
  cases head : (k.task task).pipe with
  | none =>
      rw [head] at linked
      exact unchanged (by simp [linked.eq_nil])
  | some first =>
      rw [head] at linked
      rcases linked.eq_cons with ⟨rest, whole, behind⟩
      dsimp only
      split
      · rename_i named
        refine ⟨rest, ?_, ?_, ⟨fun _ => rfl, rfl, rfl⟩, .inr ⟨[], first, rest, whole, named, rfl⟩⟩
        · apply lists.update
          · rw [Kernel.modTask_task_self]
            exact behind
          · intro p inside
            exact lists.structs task p (by simp [whole, inside])
          · exact fun _ => id
          · intro t other
            rw [Kernel.modTask_task_of_ne k other]
          · exact fun _ _ _ _ => rfl
          · intro t other p inside listed
            exact other (lists.apart t task p listed (by simp [whole, inside]))
        · exact ⟨fun _ _ => rfl,
            fun t => k.modTask_task_field TaskStruct.writeRedirectionFd task t rfl,
            fun t => k.modTask_task_field TaskStruct.readRedirectionFd task t rfl, fun _ => id⟩
      · rename_i other
        apply Flow.All.bind (P := fun found => Chain.scan k.nextFile (fun p => (k.file p).fd == fd)
          k.fileRounds (k.nextFile first) = some found) (.ofOption fun _ found => found)
        intro found scanned
        cases found with
        | none =>
            refine unchanged fun p inside named => ?_
            rw [whole] at inside
            rcases List.mem_cons.mp inside with rfl | later
            · exact other named
            · have differs := behind.scan_none scanned p later
              rw [named, beq_self_eq_true] at differs
              cases differs
        | some curr =>
            have passes := Chain.scan_found scanned
            have named : (k.file curr).fd = fd := beq_iff_eq.mp passes
            apply Flow.All.bind (P := fun p => Chain.before k.nextFile curr k.fileRounds first =
              some p) (.ofOption fun _ found => found)
            intro p sought
            cases p with
            | none =>
                rw [whole] at linked
                exact absurd (behind.scan_mem scanned) (linked.before_none sought)
            | some prev =>
                rcases linked.before_eq sought with ⟨front, back, parts⟩
                have inside : ∀ q ∈ front ++ prev :: back, q ∈ pipes task := by
                  intro q member
                  rw [parts]
                  simp only [List.mem_append, List.mem_cons] at member ⊢
                  tauto
                have next := Kernel.nextFile_modFile k prev
                  fun s => { s with next := k.nextFile curr }
                have entry := Kernel.entryAt_modFile_next k prev
                refine ⟨front ++ prev :: back, ?_, ?_, ⟨fun q => entry q _, rfl, rfl⟩,
                  .inr ⟨front ++ [prev], curr, back, by simpa using parts, named, by simp⟩⟩
                · apply lists.update
                  · rw [next]
                    show Chain.Linked _ (k.task task).pipe _
                    rw [head]
                    rw [parts] at linked
                    exact linked.unlink
                  · exact fun q member => lists.structs task q (inside q member)
                  · exact fun _ => id
                  · exact fun _ _ => rfl
                  · intro t other q listed
                    rw [next, Function.update_of_ne]
                    rintro rfl
                    exact other (lists.apart t task q listed (by simp [parts]))
                  · intro t other q member listed
                    exact other (lists.apart t task q listed (inside q member))
                · exact ⟨fun q _ => fd_entryAt (entry q _), fun _ => rfl, fun _ => rfl, fun _ => id⟩

end PipeLists

/-! ## Copies of pipes -/

/-- A file structure is new, and nothing else about files and tasks changes. -/
structure NewFile (k k' : Kernel) (f : Word) : Prop where
  fresh : f ∉ k.fileStructs
  file : k'.file = k.file
  task : k'.task = k.task
  fileStructs : k'.fileStructs = f :: k.fileStructs

theorem Kernel.newFile_fresh {J : Kernel → Prop} (k : Kernel) :
    k.newFile.All (fun result => NewFile k result.1 result.2 ∧ result.1.fdCount = k.fdCount) J := by
  apply Flow.All.bind (P := fun (result : Kernel × Word) => result.2 ∉ k.fileStructs ∧
    result.1 = k.setMachine result.1.m)
  · apply Flow.All.bind (P := fun (result : Kernel × Word) => result.1 = k.setMachine result.1.m)
    · apply Flow.All.bind (P := fun _ => True) (.ofOption fun _ _ => trivial)
      intro result _
      rfl
    · rintro ⟨k₁, f⟩ same
      dsimp only
      split
      · trivial
      · rename_i fresh
        exact ⟨fresh, same⟩
  · rintro ⟨k₁, f⟩ ⟨fresh, same⟩
    change k₁ = _ at same
    refine ⟨⟨fresh, ?_, ?_, ?_⟩, ?_⟩
    · show k₁.file = _
      rw [same]
      rfl
    · show k₁.task = _
      rw [same]
      rfl
    · show f :: k₁.fileStructs = _
      rw [same]
      rfl
    · show k₁.fdCount = _
      rw [same]
      rfl

/-- New pipes are copies of others, one by one and in the same order. -/
structure Copied (k k' : Kernel) (rest copied : List Word) : Prop where
  entries : copied.map k'.pipeEntry = rest.map k.pipeEntry
  old : ∀ q ∈ k.fileStructs, k'.pipeEntry q = k.pipeEntry q
  fresh : ∀ q ∈ copied, q ∉ k.fileStructs ∧ q ∈ k'.fileStructs
  fdCount : k'.fdCount = k.fdCount
  structs : ∀ q ∈ k.fileStructs, q ∈ k'.fileStructs

namespace Copied

theorem refl (k : Kernel) : Copied k k [] [] :=
  ⟨rfl, fun _ _ => rfl, nofun, rfl, fun _ => id⟩

theorem trans {k'' : Kernel} {first rest more copied : List Word} (one : Copied k k' first copied)
    (two : Copied k' k'' rest more) (known : ∀ p ∈ rest, p ∈ k.fileStructs) :
    Copied k k'' (first ++ rest) (copied ++ more) where
  entries := by
    have early : copied.map k''.pipeEntry = first.map k.pipeEntry := by
      rw [← one.entries]
      exact List.map_congr_left fun q inside => two.old q (one.fresh q inside).2
    have late : more.map k''.pipeEntry = rest.map k.pipeEntry := by
      rw [two.entries]
      exact List.map_congr_left fun p inside => one.old p (known p inside)
    rw [List.map_append, List.map_append, early, late]
  old q inside := (two.old q (one.structs q inside)).trans (one.old q inside)
  fresh q inside := by
    rcases List.mem_append.mp inside with early | late
    · exact ⟨(one.fresh q early).1, two.structs q (one.fresh q early).2⟩
    · exact ⟨fun known => (two.fresh q late).1 (one.structs q known), (two.fresh q late).2⟩
  fdCount := two.fdCount.trans one.fdCount
  structs q inside := two.structs q (one.structs q inside)

/-- Every descriptor is copied. -/
theorem fd_mem {rest copied : List Word} (all : Copied k k' rest copied) {p : Word}
    (inside : p ∈ rest) : ∃ q ∈ copied, (k'.file q).fd = (k.file p).fd := by
  have entry : k.pipeEntry p ∈ copied.map k'.pipeEntry := by
    rw [all.entries]
    exact List.mem_map_of_mem inside
  rcases List.mem_map.mp entry with ⟨q, listed, same⟩
  exact ⟨q, listed, congrArg Prod.fst same⟩

end Copied

namespace PipeLists

open Kernel in
/-- The loop of fork and execve gives a task a copy of each pipe of another. -/
theorem copies {rest : List Word} {temp : Option Word} {rounds : Nat} (lists : PipeLists k pipes)
    (linked : Chain.Linked k.nextFile temp rest) (known : ∀ p ∈ rest, p ∈ k.fileStructs)
    (apart : ∀ p ∈ rest, p ∉ pipes task) :
    (k.copyPipes task temp rounds).All (fun k' => ∃ copied,
      PipeLists k' (Function.update pipes task (pipes task ++ copied)) ∧ Relisted k k' ∧
      Copied k k' rest copied) fun _ => False := by
  induction rest generalizing k temp pipes rounds with
  | nil =>
      cases linked
      cases rounds with
      | zero => trivial
      | succ rounds =>
          refine ⟨[], ?_, ⟨fun _ _ => rfl, fun _ => rfl, fun _ => rfl, fun _ => id⟩, .refl k⟩
          rw [List.append_nil, Function.update_eq_self]
          exact lists
  | cons p rest ih =>
      rcases linked with ⟨rfl, linked⟩
      cases rounds with
      | zero => trivial
      | succ rounds =>
          apply Flow.All.bind k.newFile_fresh
          rintro ⟨k₁, f⟩ ⟨new, newCount⟩
          dsimp only at new newCount
          have fresh := new.fresh
          have unlisted : ∀ t, f ∉ pipes t := fun t inside => fresh (lists.structs t f inside)
          -- the copy is written before it is added to the list
          obtain ⟨k₂, copied⟩ : ∃ k₂, k₂ = k₁.copyPipe f p := ⟨_, rfl⟩
          have structs : k₂.fileStructs = f :: k.fileStructs := by
            rw [copied]
            exact new.fileStructs
          have elsewhere : ∀ q, q ≠ f → k₂.file q = k.file q := by
            intro q other
            rw [copied, ← new.file]
            exact Function.update_of_ne other ..
          have copy : k₂.pipeEntry f = k.pipeEntry p := by
            have written : k₂.file f = { k₁.file f with
                name := (k₁.file p).name, addr := (k₁.file p).addr, fd := (k₁.file p).fd,
                size := (k₁.file p).size, offset := (k₁.file p).offset, next := none } := by
              rw [copied]
              exact Function.update_self ..
            unfold pipeEntry
            rw [written, ← new.file]
          have counted : k₂.fdCount = k.fdCount := by
            rw [copied]
            exact newCount
          have task₂ : k₂.task = k.task := by
            rw [copied]
            exact new.task
          have relisted : Relisted k k₂ := by
            refine ⟨fun q inside => ?_, fun t => by rw [task₂], fun t => by rw [task₂],
              fun q inside => ?_⟩
            · rw [elsewhere q fun equal => fresh (equal ▸ inside)]
            · rw [structs]
              exact List.mem_cons_of_mem _ inside
          have next₂ : ∀ q ∈ k.fileStructs, k₂.nextFile q = k.nextFile q := by
            intro q inside
            unfold nextFile
            rw [elsewhere q fun equal => fresh (equal ▸ inside)]
          have lists₂ : PipeLists k₂ pipes :=
            lists.congr (fun t => by rw [task₂]) next₂ relisted.structs
          rcases lists₂.add (structs ▸ List.mem_cons_self) unlisted task with
            ⟨k₃, added, lists₃, relisted₃, links₃, next₃⟩
          show ((k₁.copyPipe f p).addPipeToTask task f >>= _).All _ _
          rw [← copied, added, Flow.next_bind]
          have kept : ∀ q ∈ p :: rest, k₃.nextFile q = k.nextFile q := by
            intro q inside
            rw [next₃ q (apart q inside) fun equal => fresh (equal ▸ known q inside)]
            exact next₂ q (known q inside)
          have linked₃ : Chain.Linked k₃.nextFile (k₃.nextFile p) rest := by
            rw [kept p List.mem_cons_self]
            exact linked.congr fun q inside => kept q (List.mem_cons_of_mem _ inside)
          have both := relisted.trans relisted₃
          have apart₃ : ∀ q ∈ rest, q ∉ Function.update pipes task (pipes task ++ [f]) task := by
            intro q inside listed
            rw [Function.update_self] at listed
            rcases List.mem_append.mp listed with old | new
            · exact apart q (List.mem_cons_of_mem _ inside) old
            · rw [List.mem_singleton.mp new] at inside
              exact fresh (known f (List.mem_cons_of_mem _ inside))
          have known₃ : ∀ q ∈ rest, q ∈ k₃.fileStructs := fun q inside =>
            both.structs q (known q (List.mem_cons_of_mem _ inside))
          apply (ih lists₃ linked₃ known₃ apart₃).imp
          rintro k₄ ⟨more, lists₄, relisted₄, copied₄⟩
          rw [Function.update_self, Function.update_idem, List.append_assoc] at lists₄
          have first : Copied k k₃ [p] [f] := by
            have old : ∀ q ∈ k.fileStructs, k₃.pipeEntry q = k.pipeEntry q := by
              intro q inside
              rw [pipeEntry_entryAt (links₃.entry q)]
              unfold pipeEntry
              rw [elsewhere q fun equal => fresh (equal ▸ inside)]
            refine ⟨?_, old, ?_, links₃.fdCount.trans counted, both.structs⟩
            · simp only [List.map_cons, List.map_nil]
              rw [pipeEntry_entryAt (links₃.entry f), copy]
            · intro q inside
              rw [List.mem_singleton.mp inside]
              refine ⟨fresh, ?_⟩
              rw [links₃.fileStructs, structs]
              exact List.mem_cons_self
          exact ⟨f :: more, lists₄, both.trans relisted₄,
            first.trans copied₄ fun q inside => known q (List.mem_cons_of_mem _ inside)⟩

end PipeLists

end Sbrocks.Process
