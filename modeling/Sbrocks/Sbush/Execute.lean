import Mathlib.Data.List.Infix
import Sbrocks.Concurrent.Code
import Sbrocks.Libc.Printf
import Sbrocks.Sbush.Trimming

/-!
# What the shell asks the system for

A parsed line is executed by processes that the shell forks.  The functions here are programs
that make calls: `fork` returns to two processes, and `exit` to none.  What
`getAbsolutePath` finds and what `executeScript` does are parameters.
-/

namespace Sbrocks.Sbush

open Sbrocks.Concurrent

/-- The characters of a string. -/
def ascii (s : String) : Text := s.toList.map Libc.chr

/-- `strstr`: whether a string is in another one. -/
def occurs (pattern text : Text) : Bool := text.tails.any pattern.isPrefixOf

theorem occurs_iff (pattern text : Text) : occurs pattern text = true ↔ pattern <:+: text := by
  unfold occurs
  rw [List.any_eq_true, List.infix_iff_prefix_suffix]
  constructor
  · rintro ⟨rest, tail, starts⟩
    exact ⟨rest, List.isPrefixOf_iff_prefix.mp starts, (List.mem_tails _ _).mp tail⟩
  · rintro ⟨rest, starts, tail⟩
    exact ⟨rest, (List.mem_tails _ _).mpr tail, List.isPrefixOf_iff_prefix.mpr starts⟩

/-- The calls of the shell. -/
inductive Call where
  | fork
  | pipe
  | dup2 (oldfd newfd : Word)
  | execve (filename : Text) (argv : List Text) (envp : Text)
  | waitpid (pid : Nat)
  | sleep (seconds : Nat)
  | exit (status : Nat)
  | printf (text : Text)
  | serror
  | cls
  | getcwd
  /-- A string is read at the null pointer. -/
  | crash

/-- What a call returns. -/
@[reducible]
def Answer : Call → Type
  | .fork => Nat
  | .pipe => Word × Word
  | .execve _ _ _ => Int
  | .exit _ => Empty
  | .getcwd => Option Text
  | .crash => Empty
  | _ => Unit

/-- The programs of the shell. -/
abbrev ShellCode (α : Type) := Code Call Answer α

/-- Make a call. -/
def perform (c : Call) : ShellCode (Answer c) := Code.perform c

/-- The variables of the shell: `PS1`, `envp[0]` and the table of the parser. -/
structure Session where
  ps1 : Text
  env : Text
  commands : Nat → Nat → Option Text

namespace Session

variable {α : Type} (v : Session)

/-- `printf`. -/
def printf (text : Text) : ShellCode Unit := .perform (Call.printf text)

/-- `exit`. -/
def exit (status : Nat) : ShellCode α := .call (.exit status) (nomatch ·)

/-- A string that is read. -/
def read : Option Text → ShellCode Text
  | some text => .done text
  | none => .call .crash (nomatch ·)

/-- The words of a command, up to the first that is missing. -/
def argv (i : Nat) : List Text :=
  ((List.range maxArgCount).map (v.commands i)).takeWhile Option.isSome |>.reduceOption

/-- `commands[i][1] = NULL`. -/
def clear (i : Nat) : Session :=
  { v with commands := Function.update v.commands i (Function.update (v.commands i) 1 none) }

/-! ## Commands of the shell itself -/

/-- The words of the new prompt, from `commands[0][i]` on. -/
def promptFrom (i : Nat) : Nat → Text
  | 0 => []
  | n + 1 =>
      match v.commands 0 i with
      | some word => word ++ blank :: promptFrom (i + 1) n
      | none => []

/-- `setPath`. -/
def setPath (newval : Option Text) : ShellCode Session := do
  let newval ← read newval
  let str := trimmed v.env
  let env := str ++ ascii ":" ++ newval
  printf (ascii "In setpath " ++ newval ++ ascii "   " ++ v.env ++ ascii "\n")
  printf (ascii "str 1 " ++ str ++ ascii "\n")
  printf (ascii "str 2 " ++ env ++ ascii "\n")
  printf (ascii "str 3 " ++ env ++ ascii "\n")
  printf (ascii "new envp " ++ env ++ ascii " \n")
  return { v with env := env }

/-- `printEnvironments`. -/
def printEnvironments : ShellCode Unit := do
  printf (ascii "\n\n\n\n\n environments are \n")
  printf (v.env ++ ascii "\n")

end Session

section

open Session

variable (executeScript : Text → Session → ShellCode Session)

/-- `handleCommand`: whether the command was one of the shell itself, and its variables then. -/
def handleCommand (cmd : Text) (args : Option Text) (v : Session) : ShellCode (Bool × Session) := do
  if cmd = ascii "set" ∧ args.any (occurs (ascii "PS1")) then
    if v.commands 0 2 = none then
      printf (ascii "Usage: set PS1 <prompt string>\n")
    return (true, { v with ps1 := v.promptFrom 2 (maxArgCount - 2) })
  else if cmd = ascii "set" ∧ args.any (occurs (ascii "PATH")) then
    let v ← v.setPath (v.commands 0 2)
    return (true, v)
  else if occurs (ascii ".sbush") cmd then
    let v ← executeScript cmd v
    return (true, v)
  else if cmd = ascii "env" then
    v.printEnvironments
    return (true, v)
  else if cmd = ascii "$PATH" then
    printf (v.env ++ ascii "\n")
    return (true, v)
  else if cmd = ascii "exit" then
    printf (ascii "in exit\n")
    exit 1
  else if cmd = ascii "clear" then
    printf (ascii "clear \n")
    perform .cls
    return (true, v)
  else if cmd = ascii "pwd" then
    match ← perform .getcwd with
    | some buf => printf (buf ++ ascii "\n")
    | none => printf (ascii "getcwd() error : ")
    return (true, v)
  else if cmd = ascii "echo" then
    let word ← read (v.commands 0 1)
    printf (word ++ ascii "\n")
    return (true, v)
  else return (false, v)

variable (find : Text → Text → Option Text)

/-- `getAbsolutePath` of a word of the table. -/
def absolutePath (v : Session) (word : Option Text) : ShellCode (Option Text) := do
  let word ← read word
  return find v.env word

/-- A command in a process of its own: `execve` does not come back if it finds the program. -/
def executeFile (cmd : Text) (i : Nat) (v : Session) : ShellCode Unit := do
  let result ← (perform (.execve cmd (v.argv i) v.env) : ShellCode Int)
  if result = -1 then perform .serror

/-- `executeProcess`. -/
def executeProcess (v : Session) : ShellCode Session := do
  let name ← read (v.commands 0 0)
  let (handled, v) ← handleCommand executeScript name (v.commands 0 1) v
  if handled then return v
  match ← absolutePath find v (v.commands 0 0) with
  | none =>
      printf (name ++ ascii ": Command not found. \n")
      return v
  | some cmd =>
      let pid ← perform .fork
      if pid = 0 then
        executeFile cmd 0 v
        exit 1
      else
        if v.commands 0 1 ≠ some (ascii "&") then
          perform (.waitpid pid)
        return v.clear 0

/-- A command of a pipeline, in its own process. -/
def executeStage (i : Nat) (v : Session) : ShellCode Unit := do
  match ← absolutePath find v (v.commands i 0) with
  | none => Code.call .crash (nomatch ·)
  | some cmd =>
      let (handled, v) ← handleCommand executeScript cmd (v.commands i 1) v
      if handled = false then executeFile cmd i v
      exit 1

/-- A port is redirected, but for one descriptor. -/
def redirect (fd port none : Word) : ShellCode Unit :=
  if fd ≠ none then perform (.dup2 fd port) else pure ()

/-- The child of a round of the loop below. -/
def startStage (prev fd1 : Word) (i : Nat) (v : Session) : ShellCode Unit := do
  redirect prev 0 0
  redirect fd1 1 1
  executeStage executeScript find i v

/-- The loop that looks for the commands: whether one is missing. -/
def missingLoop (v : Session) (i : Nat) : Nat → ShellCode Bool
  | 0 => return false
  | n + 1 => do
      let word ← read (v.commands i 0)
      let found ← absolutePath find v (some word)
      if found = none then
        printf (word ++ ascii ": Command not found. \n")
      let missing ← missingLoop v (i + 1) n
      return found = none || missing

/-- The loop that starts all commands but the last: `prev` after it. -/
def pipeLoop (v : Session) (prev : Word) (i : Nat) : Nat → ShellCode Word
  | 0 => return prev
  | n + 1 => do
      let (fd0, fd1) ← perform .pipe
      let pid ← perform .fork
      if pid = 0 then startStage executeScript find prev fd1 i v
      pipeLoop v fd0 (i + 1) n

/-- The child of the function below: it starts all commands but the last, and executes that. -/
def runPipeline (n : Nat) (v : Session) : ShellCode Unit := do
  let prev ← pipeLoop executeScript find v 0 0 (n - 1)
  redirect prev 0 0
  match ← absolutePath find v (v.commands (n - 1) 0) with
  | none => Code.call .crash (nomatch ·)
  | some cmd =>
      perform (.sleep 1)
      let (handled, v) ← handleCommand executeScript cmd (v.commands (n - 1) 1) v
      if handled = false then executeFile cmd (n - 1) v
      exit 1

/-- The loop that clears the arguments. -/
def clearLoop (v : Session) (i : Nat) : Nat → Session
  | 0 => v
  | n + 1 => clearLoop (v.clear i) (i + 1) n

/-- `executeProcessPipe`. -/
def executeProcessPipe (n : Nat) (v : Session) : ShellCode Session := do
  if ← missingLoop find v 0 n then return v
  else
    let pid ← perform .fork
    if pid = 0 then runPipeline executeScript find n v
    perform (.waitpid pid)
    return clearLoop v 0 n

/-- What `main` does with a line of `num_args` commands. -/
def executeLine (num_args : Nat) (v : Session) : ShellCode Session := do
  match num_args with
  | 1 => executeProcess executeScript find v
  | 2 => executeProcessPipe executeScript find num_args v
  | 3 => executeProcessPipe executeScript find num_args v
  | _ =>
      printf (ascii "more than 2 pipes not supported \n")
      return v

end

end Sbrocks.Sbush
