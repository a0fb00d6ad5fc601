import Sbrocks.Syscall.Fork

/-!
# The other system calls

Each function follows its namesake in `syscall.c`.  What is printed is left out;
that a printed string is read from user memory is not.
-/

namespace Sbrocks.Process

open Sbrocks.Mmu

namespace Kernel

variable (fault : Fault)

/-! ## Pipes -/

/-- `is_file_pipe`. -/
def isFilePipe (k : Kernel) (task fd : Word) : Flow Kernel Bool := do
  let found ← Flow.ofOption
    (Chain.scan k.nextFile (fun p => (k.file p).fd == fd) k.fileRounds (k.task task).pipe)
  return found.isSome

/-- A loop over the pipes of a task that acts on those with a descriptor. -/
def eachPipe (k : Kernel) (act : Kernel → Word → Flow Kernel Kernel) (fd : Word)
    (temp : Option Word) : Nat → Flow Kernel Kernel
  | 0 => .stuck
  | rounds + 1 =>
      match temp with
      | none => .next k
      | some temp => do
          let k ← (if (k.file temp).fd = fd then act k temp else .next k)
          k.eachPipe act fd (k.nextFile temp) rounds

/-- `write_to_pipe`, whose `nbytes` is an `int`. -/
def writeToPipe (k : Kernel) (task fd buf : Word) (nbytes : BitVec 32) : Flow Kernel Kernel :=
  k.eachPipe (fun k temp => do
    let addr := (k.file temp).addr + (k.file temp).offset
    let k ← k.memcpy fault addr buf (ofInt nbytes).toNat
    return k.modFile temp fun s => { s with offset := s.offset + ofInt nbytes })
    fd (k.task task).pipe k.fileRounds

/-- `read_from_pipe`, whose `nbytes` is an `int`. -/
def readFromPipe (k : Kernel) (task fd outbuf : Word) (nbytes : BitVec 32) : Flow Kernel Kernel :=
  k.eachPipe (fun k temp => do
    let addr := (k.file temp).addr + (k.file temp).offset
    let k ← k.memcpy fault outbuf addr (ofInt nbytes).toNat
    return k.modFile temp fun s => { s with offset := s.offset + ofInt nbytes })
    fd (k.task task).pipe k.fileRounds

/-- `remove_pipe_from_task`. -/
def removePipeFromTask (k : Kernel) (task fd : Word) : Flow Kernel Kernel :=
  match (k.task task).pipe with
  | none => .next k
  | some first =>
      if (k.file first).fd = fd then
        .next (k.modTask task fun s => { s with pipe := k.nextFile first })
      else do
        let found ← Flow.ofOption
          (Chain.scan k.nextFile (fun p => (k.file p).fd == fd) k.fileRounds (k.nextFile first))
        match found with
        | none => return k
        | some curr =>
            match ← Flow.ofOption (Chain.before k.nextFile curr k.fileRounds first) with
            | none => return k
            | some prev => return k.modFile prev fun s => { s with next := k.nextFile curr }

/-- `wake_up_waiting_task`. -/
def wakeUpWaitingTask (k : Kernel) : Flow Kernel Kernel :=
  match k.pipeReadWaitQueue with
  | none => .next k
  | some queue => do
      let k := k.modTask queue fun s => { s with state := .runnable }
      let k ← k.readFromPipe fault queue (k.task queue).readRedirectionFd k.str (toInt k.count)
      return { k with pipeWriteFlag := false }

/-- `add_to_pipe_read_waiting_queue`. -/
def addToPipeReadWaitingQueue (k : Kernel) (task : Word) : Kernel :=
  let k := k.modTask task fun s => { s with state := .waiting }
  let k := k.setCurrentTask none
  { k with pipeReadWaitQueue := some task }

/-- `system_pipe`. -/
def systemPipe (k : Kernel) (fds : Word) : Flow Kernel Kernel := do
  let task ← Flow.ofOption k.currentTask
  let (k, p1) ← k.newFile
  let (k, p2) ← k.newFile
  let (k, addr) ← k.allocPages 1 userFlags
  let fd1 := ofInt k.fdCount
  let k := { k with fdCount := toInt (fd1 + 1) }
  let fd2 := ofInt k.fdCount
  let k := { k with fdCount := toInt (fd2 + 1) }
  let pipe := fun (name : List Byte) (fd : Word) (s : File) =>
    { s with name := name, addr := addr, fd := fd, size := pageSize, offset := 0, next := none }
  -- "pipe1" and "pipe2"
  let k := k.modFile p1 (pipe [0x70, 0x69, 0x70, 0x65, 0x31] fd1)
  let k := k.modFile p2 (pipe [0x70, 0x69, 0x70, 0x65, 0x32] fd2)
  let k ← k.addPipeToTask task p1
  let k ← k.addPipeToTask task p2
  let k ← k.storeBytes fault fds (leBytes (k.file p1).fd 4)
  k.storeBytes fault (fds + 4) (leBytes (k.file p2).fd 4)

/-- `system_dup2`. -/
def systemDup2 (k : Kernel) (dstfd srcfd : Word) : Flow Kernel Kernel := do
  let task ← Flow.ofOption k.currentTask
  if srcfd = 1 then return k.modTask task fun s => { s with writeRedirectionFd := dstfd }
  else if srcfd = 0 then return k.modTask task fun s => { s with readRedirectionFd := dstfd }
  else return k

/-- The redirections of a task after a pipe was closed. -/
def closeRedirection (fd : Word) (s : TaskStruct) : TaskStruct :=
  if s.writeRedirectionFd = fd then { s with writeRedirectionFd := 0 }
  else if s.readRedirectionFd = fd then { s with readRedirectionFd := 0 }
  else s

/-- `system_close`. -/
def systemClose (k : Kernel) (fd : Word) : Flow Kernel Kernel := do
  let task ← Flow.ofOption k.currentTask
  if ← k.isFilePipe task fd then
    let k ← k.removePipeFromTask task fd
    return k.modTask task (closeRedirection fd)
  else k.fclose fd

/-! ## Reading and writing -/

/-- `puts`, which reads the string. -/
def puts (k : Kernel) (str : Word) : Flow Kernel Kernel := do
  let (k, _) ← k.chars fault (.atAddr str) 0 stringRounds
  return k

/-- `system_write`. -/
def systemWrite (k : Kernel) (fd buf nbytes : Word) : Flow Kernel (Kernel × Word) := do
  let task ← Flow.ofOption k.currentTask
  if ← k.isFilePipe task fd then
    let k ← k.writeToPipe fault task fd buf (toInt nbytes)
    return (k, nbytes)
  else if fd = 1 then
    if (k.task task).writeRedirectionFd ≠ 0 then
      let k ← k.writeToPipe fault task (k.task task).writeRedirectionFd buf (toInt nbytes)
      let k := { k with pipeWriteFlag := true }
      let k ← k.wakeUpWaitingTask fault
      return (k, nbytes)
    else
      let k ← k.puts fault buf
      return (k, nbytes)
  else if fd = 2 then
    let k ← k.puts fault buf
    return (k, nbytes)
  else k.fwrite fault fd buf nbytes

/-- The branch of `system_read` that waits for the keyboard: `set_flag`,
`set_waiting_task` and `gets`. -/
def waitForKeyboard (k : Kernel) (task buf nbytes : Word) : Flow Kernel Kernel :=
  let k := k.modTask task fun s => { s with state := .waiting }
  let k := k.setCurrentTask none
  let k :=
    { k with kb := { k.kb with flag := true, waitingTask := some task, str := buf,
                               count := ofInt (toInt nbytes) } }
  k.yield

/-- `system_read`. -/
def systemRead (k : Kernel) (fd buf nbytes : Word) : Flow Kernel (Kernel × Word) := do
  let task ← Flow.ofOption k.currentTask
  if ← k.isFilePipe task fd then
    let k ← k.readFromPipe fault task fd buf (toInt nbytes)
    return (k, 0)
  else if fd = 0 then
    if (k.task task).readRedirectionFd ≠ 0 then
      if k.pipeWriteFlag then
        let k := { k with pipeWriteFlag := false }
        let k ← k.readFromPipe fault task (k.task task).readRedirectionFd buf (toInt nbytes)
        return (k, 0)
      else
        let k := { k with str := buf, count := nbytes }
        let k ← (k.addToPipeReadWaitingQueue task).yield
        return (k, 0)
    else
      let k ← k.waitForKeyboard task buf nbytes
      return (k, 0)
  else
    let (k, ret) ← k.fread fault fd buf nbytes
    return (k, ofInt ret)

/-! ## Files and directories -/

/-- `system_open`; its permissions are not used there. -/
def systemOpen (k : Kernel) (filepath : Word) : Flow Kernel (Kernel × Word) := do
  let (k, fd) ← k.fopen fault (.atAddr filepath)
  return (k, ofInt fd)

/-- `system_getcwd`; its size is not used there. -/
def systemGetcwd (k : Kernel) (buf : Word) : Flow Kernel (Kernel × Word) := do
  let k ← k.kstrcpy fault buf (.text k.cwd)
  return (k, buf)

/-- `system_chdir`. -/
def systemChdir (k : Kernel) (path : Word) : Flow Kernel (Kernel × Word) := do
  let (k, fd) ← k.fopen fault (.atAddr path)
  if fd.slt 0 then return (k, -1)
  else
    let (k, dpath) ← k.chars fault (.atAddr path) 0 stringRounds
    return ({ k with cwd := dpath }, 0)

/-- Fill a `struct dirent` from a file. -/
def storeDirent (k : Kernel) (dir : Word) (file : File) : Flow Kernel Kernel := do
  let k ← k.storeLe fault dir file.fd
  let k ← k.storeLe fault (dir + 8) file.offset
  let k ← k.storeBytes fault (dir + 16) (leBytes file.size 2)
  k.kstrcpy fault (dir + 18) (.text file.name)

/-- `sizeof(struct dirent)`. -/
def direntSize : Nat := 1048

/-- `system_getdents`; its size is not used there. -/
def systemGetdents (k : Kernel) (fd buf : Word) : Flow Kernel (Kernel × Word) := do
  let (k, dir) ← k.kmalloc (BitVec.ofNat 64 direntSize)
  match ← k.dopen fd with
  | none => return (k, -1)
  | some r =>
      let k ← k.storeDirent fault dir (k.file r)
      let kCr3 := k.m.cr3
      let task ← Flow.ofOption k.currentTask
      let k := k.writeCr3 (k.m.virtToPhy (k.task task).pml4e)
      let k ← k.memcpy fault buf dir direntSize
      return (k.writeCr3 kCr3, 0)

/-- `system_readdir`. -/
def systemReaddir (k : Kernel) (addr buf : Word) : Flow Kernel Kernel := do
  let (k, dir) ← k.newFile
  let (k, name) ← k.chars fault (.atAddr (addr + 18)) 0 stringRounds
  let (k, fd) ← k.loadLe fault addr 8
  let k := k.modFile dir fun s => { s with name := name, fd := fd }
  match ← k.dread fd name with
  | none => return k
  | some r =>
      let k ← k.storeDirent fault addr (k.file r)
      k.memcpy fault buf addr direntSize

/-! ## Processes -/

/-- `increament_heap_vma` and `system_brk`. -/
def systemBrk (k : Kernel) (endBrk : Word) : Flow Kernel (Kernel × Word) := do
  let task ← Flow.ofOption k.currentTask
  let mm := (k.task task).mm
  if endBrk = 0 then return (k, (k.mm mm).brkEnd)
  else
    let k := k.modMm mm fun s => { s with brkEnd := endBrk }
    let found ← Flow.ofOption (Chain.scan k.nextVma (fun p => (k.vma p).vmaType == .heap)
      k.vmaRounds (k.mm mm).vmaList)
    let k := match found with
      | none => k
      | some heap => k.modVma heap fun s => { s with vmEnd := endBrk }
    return (k, (k.mm mm).brkEnd)

/-- `system_waitpid`; the status is written at once, or when the call goes on. -/
def systemWaitpid (k : Kernel) (childPid status : Word) : Flow Kernel (Kernel × Word) := do
  let task ← Flow.ofOption k.currentTask
  if (k.task task).childCount = 0 then
    let k ← k.storeLe fault status (-1)
    return (k, -1)
  else
    let k := k.modTask task fun s => { s with state := .waiting, waitForChildPid := childPid }
    let k := k.setCurrentTask none
    let k ← k.yield
    let k ← k.storeLe fault status (-1)
    return (k, childPid)

/-- `system_sleep`, which never returns. -/
def systemSleep {α : Type} (k : Kernel) (sec : Word) : Flow Kernel α := do
  let task ← Flow.ofOption k.currentTask
  let k := k.modTask task fun s => { s with state := .sleep, sleepTime := sec - 1 }
  let k := k.setCurrentTask none
  let k ← k.yield
  .left k

/-- A copy of a user string in the kernel's memory. -/
def copyUserString (k : Kernel) (str : Word) : Flow Kernel (Kernel × Word) := do
  let (k, length) ← k.strlen fault (.atAddr str)
  let (k, copy) ← k.kmalloc length
  let k ← k.kstrcpy fault copy (.atAddr str)
  return (k, copy)

/-- The argument loop of `system_execve`; its array has ten entries. -/
def copyArguments (k : Kernel) (argvAddr : Word) : Nat → Flow Kernel (Kernel × List Word)
  | 0 => do
      let (k, str) ← k.loadLe fault argvAddr 8
      if str = 0 then return (k, []) else .stuck
  | room + 1 => do
      let (k, str) ← k.loadLe fault argvAddr 8
      if str = 0 then return (k, [])
      let (k, copy) ← k.copyUserString fault str
      let (k, rest) ← k.copyArguments (argvAddr + 8) room
      return (k, copy :: rest)

/-- `system_execve`: the new program gets a task of its own, and the caller goes
on. -/
def systemExecve (k : Kernel) (filename argvAddr envpAddr : Word) : Flow Kernel Kernel := do
  let (k, argv) ← k.copyArguments fault argvAddr 10
  let (k, str) ← k.loadLe fault envpAddr 8
  let (k, envp) ← k.copyUserString fault str
  let currTask ← Flow.ofOption k.currentTask
  let (k, task) ← k.readElf fault (.atAddr filename) argv [envp]
  let k := k.modTask task fun s =>
    { s with pid := (k.task currTask).pid, ppid := (k.task currTask).ppid }
  let k := k.modTask currTask fun s => { s with ppid := 0 }
  let k := k.modTask task fun s =>
    { s with parent := (k.task currTask).parent,
             writeRedirectionFd := (k.task currTask).writeRedirectionFd,
             readRedirectionFd := (k.task currTask).readRedirectionFd }
  k.copyPipes task (k.task currTask).pipe k.fileRounds

/-! ## The handler -/

/-- `switch_handler`: the result of the call. -/
def switchHandler (k : Kernel) (syscallNum firstArg secArg thirdArg : Word) :
    Flow Kernel (Kernel × Word) :=
  if syscallNum = 0 then k.systemRead fault firstArg secArg thirdArg
  else if syscallNum = 1 then k.systemWrite fault firstArg secArg thirdArg
  else if syscallNum = 2 then k.systemOpen fault firstArg
  else if syscallNum = 60 then k.systemExit fault
  else if syscallNum = 12 then k.systemBrk firstArg
  else if syscallNum = 57 then k.systemFork fault
  else if syscallNum = 39 then do
    let task ← Flow.ofOption k.currentTask
    return (k, (k.task task).pid.setWidth 64)
  else if syscallNum = 110 then do
    let task ← Flow.ofOption k.currentTask
    return (k, (k.task task).ppid.setWidth 64)
  else if syscallNum = 59 then do
    let k ← k.systemExecve fault firstArg secArg thirdArg
    return (k, 0)
  else if syscallNum = 61 then do
    let (k, _) ← k.systemWaitpid fault firstArg secArg
    return (k, 0)
  else if syscallNum = 35 then k.systemSleep firstArg
  else if syscallNum = 79 then k.systemGetcwd fault firstArg
  else if syscallNum = 80 then k.systemChdir fault firstArg
  else if syscallNum = 8 then k.fseek firstArg secArg thirdArg
  else if syscallNum = 3 then do
    let k ← k.systemClose firstArg
    return (k, 0)
  else if syscallNum = 22 then do
    let k ← k.systemPipe fault firstArg
    return (k, 0)
  else if syscallNum = 33 then do
    let k ← k.systemDup2 firstArg secArg
    return (k, 0)
  else if syscallNum = 78 then k.systemGetdents fault firstArg secArg
  else if syscallNum = 81 then do
    let k ← k.systemReaddir fault firstArg secArg
    return (k, 0)
  else if syscallNum = 84 then k.systemKill fault firstArg
  else .next (k, 0)

/-- `syscall_handler`: the state and the frame that the stub restores. -/
def syscallHandler (k : Kernel) (r : Regs) : Flow Kernel (Kernel × Regs) := do
  let task ← Flow.ofOption k.currentTask
  let k := k.saveFrame r
  let r := (k.task task).r
  let (k, ret) ← k.switchHandler fault r.rax r.rbx r.rcx r.rdx
  let k := k.modTask task fun s => { s with r := { s.r with rax := ret } }
  return (k, (k.task task).r)

end Kernel

end Sbrocks.Process
