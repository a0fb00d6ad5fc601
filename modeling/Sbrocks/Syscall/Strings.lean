import Sbrocks.Fs.Reached
import Sbrocks.Memory.Arrays
import Sbrocks.Mmu.KernelHeap

/-!
# Copies of user strings

The strings that a user program passes are copied into five kinds of buffers, which are
arrays with checked bounds here.  No copy checks a length: the space for an argument does
not count its final zero, and the others have a fixed size.
-/

namespace Sbrocks.Process

open Sbrocks.Mmu Sbrocks.Arrays

/-- A string of a user program: its characters, and what can be read behind its final zero. -/
structure UserString where
  text : List Byte
  behind : List Byte
  ends : (0 : Byte) ∉ text
  short : text.length < 2 ^ 64

/-- The bytes from the pointer on. -/
def UserString.bytes (s : UserString) : List Byte := s.text ++ 0 :: s.behind

/-- Why copying does not come to its end: a read of a byte that is not there, which is a page
fault, or a write outside of a buffer. -/
inductive Stop where
  | fault
  | overflow
deriving DecidableEq

/-- `*dest = c` at an index of a buffer. -/
def writeAt {α : Type} (dest : List α) (i : Nat) (c : α) : Except Stop (List α) :=
  match put dest i c with
  | some dest => .ok dest
  | none => .error .overflow

/-- The loop of `kstrcpy`. -/
def kstrcpyFrom (dest : List Byte) (i : Nat) : List Byte → Except Stop (List Byte)
  | [] => .error .fault
  | c :: src => do
      let dest ← writeAt dest i c
      if c = 0 then return dest
      kstrcpyFrom dest (i + 1) src

/-- `kstrcpy` into a buffer. -/
def kstrcpyInto (dest src : List Byte) : Except Stop (List Byte) := kstrcpyFrom dest 0 src

/-- A new array of characters. -/
def charArray (n : Nat) : List Byte := List.replicate n 0

/-- `kmalloc(strlen(s))`, which gives whole pages. -/
def kmallocFor (s : UserString) : List Byte :=
  charArray (4096 * Machine.pagesOf (BitVec.ofNat 64 s.text.length))

/-- The argument loop of `system_execve`; the pointers in `argv` stand for their buffers. -/
def copyArgv (argv : List (List Byte)) (i : Nat) :
    List UserString → Except Stop (List (List Byte))
  | [] => .ok argv
  | arg :: args => do
      let argv ← writeAt argv i (kmallocFor arg)
      let copy ← kstrcpyInto (kmallocFor arg) arg.bytes
      copyArgv (argv.set i copy) (i + 1) args

/-- The first loop of `change_name`: what follows the first slash. -/
def skipToSlash : List Byte → Except Stop (List Byte)
  | [] => .error .fault
  | c :: name => if c = slash then .ok name else skipToSlash name

/-- The second loop of `change_name`. -/
def copyName (fname : List Byte) (i : Nat) : List Byte → Except Stop (List Byte)
  | [] => .error .fault
  | c :: name => do
      if c = 0 then return fname
      let fname ← writeAt fname i c
      copyName fname (i + 1) name

/-- `change_name`, which clears `fname[1024]` first. -/
def changeNameInto (name : UserString) : Except Stop (List Byte) := do
  let name ← skipToSlash name.bytes
  copyName (charArray 1024) 0 name

/-- The buffers of `system_execve`: `argv[10]`, `envp[0]`, `fname` and `task->name`. -/
structure ExecBuffers where
  argv : List (List Byte)
  env : List Byte
  fname : List Byte
  name : List Byte

/-- The copies that `system_execve`, `find_offset_for_file` and `create_new_task` make. -/
def execveCopies (filename : UserString) (argv envp : List UserString) :
    Except Stop ExecBuffers := do
  let argv ← copyArgv (List.replicate 10 []) 0 argv
  match envp with
  | [] => .error .fault
  | first :: _ =>
      let env ← kstrcpyInto (kmallocFor first) first.bytes
      let fname ← changeNameInto filename
      let name ← kstrcpyInto (charArray 16) filename.bytes
      return ⟨argv, env, fname, name⟩

/-- What `fopen` gives for a name. -/
def openedFd (k : Kernel) (files : List Word) (name : UserString) : BitVec 32 :=
  match firstNamed k files name.text with
  | none => -1
  | some first => if (k.nextFile first).isSome then toInt (k.file first).fd else -1

/-- The copy that `system_chdir` makes into `cwd[1024]`. -/
def chdirCopies (k : Kernel) (files : List Word) (cwd : Vector Byte 1024) (path : UserString) :
    Except Stop (List Byte) :=
  if (openedFd k files path).slt 0 then .ok cwd.toList else kstrcpyInto cwd.toList path.bytes

/-- A call that is passed strings. -/
inductive StringCall where
  | execve (filename : UserString) (argv envp : List UserString)
  | open (filepath : UserString)
  | chdir (path : UserString)
  | readdir (name : UserString)

/-- A buffer that begins with the characters and a final zero. -/
def Stores (buffer text : List Byte) : Prop := text ++ [0] <+: buffer

/-- Copying keeps to its buffers, and what it gives, if no fault ends it, is as stated. -/
def Within {α : Type} (result : Except Stop α) (holds : α → Prop) : Prop :=
  match result with
  | .error stop => stop = .fault
  | .ok buffers => holds buffers

/-- Every string that the call copies is stored in its buffer with its final zero, and nothing is
written outside of a buffer. -/
def StringCall.Fits (k : Kernel) (files : List Word) (cwd : Vector Byte 1024) :
    StringCall → Prop
  | .execve filename argv envp => Within (execveCopies filename argv envp) fun buffers =>
      (∀ (i : Nat) (arg : UserString), argv[i]? = some arg →
        ∃ copy, buffers.argv[i]? = some copy ∧ Stores copy arg.text) ∧
      (∀ first ∈ envp.head?, Stores buffers.env first.text) ∧
      (∀ rest, skipToSlash filename.bytes = .ok rest →
        Stores buffers.fname (rest.takeWhile (· ≠ 0))) ∧
      Stores buffers.name filename.text
  | .open _ => True
  | .chdir path => Within (chdirCopies k files cwd path) fun buffer =>
      (openedFd k files path).slt 0 = false → Stores buffer path.text
  | .readdir name => Within (kstrcpyInto (charArray 1024) name.bytes) fun buffer =>
      Stores buffer name.text

/-- The strings are short enough, as far as they are copied. -/
def StringCall.Short (k : Kernel) (files : List Word) : StringCall → Prop
  | .execve filename argv envp =>
      argv.length ≤ 10 ∧ (∀ arg ∈ argv, arg.text.length % 4096 ≠ 0) ∧
        ∀ first ∈ envp.head?, first.text.length % 4096 ≠ 0 ∧
          ∀ rest, skipToSlash filename.bytes = .ok rest →
            if (0 : Byte) ∈ rest then
              (rest.takeWhile (· ≠ 0)).length < 1024 ∧ filename.text.length < 16
            else rest.length ≤ 1024
  | .open _ => True
  | .chdir path => (openedFd k files path).slt 0 = false → path.text.length < 1024
  | .readdir name => name.text.length < 1024

/-! ## What the loops do -/

section

variable {k : Kernel} {files : List Word} {cwd : Vector Byte 1024} {s : UserString}
  {dest text behind : List Byte} {i : Nat}

/-- The result of writing elements into a buffer. -/
def written {α : Type} (result : Option (List α)) : Except Stop (List α) :=
  match result with
  | some dest => .ok dest
  | none => .error .overflow

/-- `kstrcpy` writes the characters and the final zero. -/
theorem kstrcpyFrom_eq (ends : (0 : Byte) ∉ text) :
    kstrcpyFrom dest i (text ++ 0 :: behind) = written (putAll dest i (text ++ [0])) := by
  induction text generalizing dest i with
  | nil =>
      show writeAt dest i 0 >>= _ = written (putAll dest i [0])
      unfold writeAt
      rw [putAll]
      cases put dest i 0 with
      | none => rfl
      | some dest => rfl
  | cons c text ih =>
      have character : c ≠ 0 := fun zero => ends (zero ▸ List.mem_cons_self)
      show writeAt dest i c >>= _ = written (putAll dest i (c :: (text ++ [0])))
      unfold writeAt
      rw [putAll]
      cases put dest i c with
      | none => rfl
      | some dest =>
          show (if c = 0 then _ else _) = _
          rw [if_neg character]
          exact ih fun zero => ends (List.mem_cons_of_mem _ zero)

/-- A string fits if its final zero does. -/
theorem kstrcpyInto_eq (dest : List Byte) (s : UserString) :
    kstrcpyInto dest s.bytes =
      if s.text.length < dest.length then .ok (s.text ++ 0 :: dest.drop (s.text.length + 1))
      else .error .overflow := by
  rw [kstrcpyInto, UserString.bytes, kstrcpyFrom_eq s.ends]
  by_cases fits : s.text.length < dest.length
  · rw [if_pos fits, putAll_eq (by rw [List.length_append, List.length_singleton]; omega)]
    simp [written]
  · rw [if_neg fits, putAll_eq_none (by simp) (by
      rw [List.length_append, List.length_singleton]
      omega)]
    rfl

theorem stores_append (text rest : List Byte) : Stores (text ++ 0 :: rest) text :=
  ⟨rest, by simp⟩

/-- `change_name` writes the characters only. -/
theorem copyName_eq (ends : (0 : Byte) ∉ text) :
    copyName dest i (text ++ 0 :: behind) = written (putAll dest i text) := by
  induction text generalizing dest i with
  | nil => rfl
  | cons c text ih =>
      have character : c ≠ 0 := fun zero => ends (zero ▸ List.mem_cons_self)
      show (if c = 0 then _ else _) = written (putAll dest i (c :: text))
      rw [if_neg character, putAll]
      unfold writeAt
      cases put dest i c with
      | none => rfl
      | some dest => exact ih fun zero => ends (List.mem_cons_of_mem _ zero)

/-- Without a final zero `change_name` comes to the end of the memory, if not of its buffer. -/
theorem copyName_endless (ends : (0 : Byte) ∉ text) :
    copyName dest i text = (written (putAll dest i text) >>= fun _ => .error .fault) := by
  induction text generalizing dest i with
  | nil => rfl
  | cons c text ih =>
      have character : c ≠ 0 := fun zero => ends (zero ▸ List.mem_cons_self)
      show (if c = 0 then _ else _) = _
      rw [if_neg character, putAll]
      unfold writeAt
      cases put dest i c with
      | none => rfl
      | some dest => exact ih fun zero => ends (List.mem_cons_of_mem _ zero)

/-- The pages for an argument have room for its final zero unless the argument fills them. -/
theorem kmallocFor_room (s : UserString) :
    s.text.length < (kmallocFor s).length ↔ s.text.length % 4096 ≠ 0 := by
  have short := s.short
  have pages : Machine.pagesOf (BitVec.ofNat 64 s.text.length) =
      s.text.length / 4096 + if s.text.length % 4096 ≠ 0 then 1 else 0 := by
    have size : (BitVec.ofNat 64 s.text.length).toNat = s.text.length := by
      rw [BitVec.toNat_ofNat]
      exact Nat.mod_eq_of_lt short
    have rest : BitVec.ofNat 64 s.text.length % 4096 ≠ 0 ↔ s.text.length % 4096 ≠ 0 := by
      rw [not_iff_not, ← BitVec.toNat_inj, BitVec.toNat_umod, size]
      rfl
    rw [Machine.pagesOf, BitVec.toNat_udiv, size]
    simp only [rest]
    rfl
  rw [kmallocFor, charArray, List.length_replicate, pages]
  split <;> omega

/-- The kernel's `fopen` gives this descriptor. -/
theorem FileList.opened {fault : Fault} {path : CString} (list : FileList k files)
    (nonempty : files ≠ []) (spells : Kernel.Spells fault k path s.text) :
    k.fopen fault path = .next (k, openedFd k files s) :=
  list.fopen_eq nonempty spells s.ends

/-- These are the bytes of the block that the kernel's heap gives. -/
theorem kmallocFor_block (b : Mmu.Block) (size : b.size = BitVec.ofNat 64 s.text.length) :
    b.base.toNat + (kmallocFor s).length = b.stop := by
  rw [Block.stop, size, kmallocFor, charArray, List.length_replicate]

/-- The copy of an argument that fits. -/
def copyOf (arg : UserString) : List Byte :=
  arg.text ++ 0 :: (kmallocFor arg).drop (arg.text.length + 1)

/-- The copies of arguments that fit go into the table. -/
theorem copyArgv_eq {argv : List (List Byte)} {args : List UserString}
    (fit : ∀ arg ∈ args, arg.text.length % 4096 ≠ 0) :
    copyArgv argv i args = written (putAll argv i (args.map copyOf)) := by
  induction args generalizing argv i with
  | nil => rfl
  | cons arg args ih =>
      have room := (kmallocFor_room arg).mpr (fit arg List.mem_cons_self)
      rw [copyArgv, List.map_cons, putAll, kstrcpyInto_eq, if_pos room]
      unfold writeAt
      by_cases inside : i < argv.length
      · rw [put_of_lt inside, put_of_lt inside]
        show copyArgv ((argv.set i (kmallocFor arg)).set i (copyOf arg)) (i + 1) args =
          written (putAll (argv.set i (copyOf arg)) (i + 1) (args.map copyOf))
        rw [List.set_set]
        exact ih fun other member => fit other (List.mem_cons_of_mem _ member)
      · rw [put_of_le (Nat.le_of_not_lt inside), put_of_le (Nat.le_of_not_lt inside)]
        rfl

/-- An argument that does not fit is written behind its pages. -/
theorem copyArgv_overflow {argv : List (List Byte)} {args : List UserString}
    (long : ∃ arg ∈ args, arg.text.length % 4096 = 0) :
    copyArgv argv i args = .error .overflow := by
  induction args generalizing argv i with
  | nil =>
      rcases long with ⟨arg, member, _⟩
      cases member
  | cons arg args ih =>
      rw [copyArgv, kstrcpyInto_eq]
      unfold writeAt
      by_cases inside : i < argv.length
      · rw [put_of_lt inside]
        by_cases room : arg.text.length < (kmallocFor arg).length
        · rw [if_pos room]
          show copyArgv _ (i + 1) args = _
          apply ih
          rcases long with ⟨other, member, full⟩
          rcases List.mem_cons.mp member with rfl | later
          · exact absurd full ((kmallocFor_room other).mp room)
          · exact ⟨other, later, full⟩
        · rw [if_neg room]
          rfl
      · rw [put_of_le (Nat.le_of_not_lt inside)]
        rfl

theorem within_bind {α β : Type} (result : Except Stop α) (rest : α → Except Stop β)
    (holds : β → Prop) :
    Within (result >>= rest) holds ↔ Within result fun a => Within (rest a) holds := by
  cases result with
  | error stop => rfl
  | ok a => rfl

/-- A string is copied within its buffer if it fits. -/
theorem within_kstrcpyInto (dest : List Byte) (s : UserString) (holds : List Byte → Prop) :
    Within (kstrcpyInto dest s.bytes) holds ↔
      s.text.length < dest.length ∧ holds (s.text ++ 0 :: dest.drop (s.text.length + 1)) := by
  rw [kstrcpyInto_eq]
  by_cases fits : s.text.length < dest.length
  · rw [if_pos fits]
    exact ⟨fun held => ⟨fits, held⟩, And.right⟩
  · rw [if_neg fits]
    constructor
    · intro impossible
      cases impossible
    · rintro ⟨below, _⟩
      exact absurd below fits

/-- The arguments are copied within their buffers if they fit and there are not too many. -/
theorem within_copyArgv (args : List UserString) (holds : List (List Byte) → Prop) :
    Within (copyArgv (List.replicate 10 []) 0 args) holds ↔
      args.length ≤ 10 ∧ (∀ arg ∈ args, arg.text.length % 4096 ≠ 0) ∧
        holds (args.map copyOf ++ List.replicate (10 - args.length) []) := by
  by_cases fit : ∀ arg ∈ args, arg.text.length % 4096 ≠ 0
  · rw [copyArgv_eq fit]
    by_cases few : args.length ≤ 10
    · rw [putAll_eq (by rw [List.length_map, List.length_replicate]; omega), List.take_zero,
        List.nil_append, Nat.zero_add, List.length_map, List.drop_replicate]
      exact ⟨fun held => ⟨few, fit, held⟩, fun all => all.2.2⟩
    · rw [putAll_eq_none ?_ (by rw [List.length_map, List.length_replicate]; omega)]
      · constructor
        · intro impossible
          cases impossible
        · rintro ⟨below, _⟩
          exact absurd below few
      · intro none
        rw [List.map_eq_nil_iff] at none
        subst none
        exact few (Nat.zero_le _)
  · have long : ∃ arg ∈ args, arg.text.length % 4096 = 0 := by
      simpa using fit
    rw [copyArgv_overflow long]
    constructor
    · intro impossible
      cases impossible
    · rintro ⟨_, all, _⟩
      exact absurd all fit

theorem skipToSlash_error {bytes : List Byte} {stop : Stop}
    (missed : skipToSlash bytes = .error stop) : stop = .fault := by
  induction bytes with
  | nil =>
      cases missed
      rfl
  | cons c bytes ih =>
      rw [skipToSlash] at missed
      split at missed
      · cases missed
      · exact ih missed

/-- What stands before a final zero. -/
theorem takeWhile_append_zero {bytes : List Byte} (zero : (0 : Byte) ∈ bytes) :
    ∃ behind, bytes = bytes.takeWhile (· ≠ 0) ++ 0 :: behind ∧
      (0 : Byte) ∉ bytes.takeWhile (· ≠ 0) := by
  have clean : (0 : Byte) ∉ bytes.takeWhile (· ≠ 0) := by
    intro member
    have passes := List.all_eq_true.mp List.all_takeWhile _ member
    simp at passes
  refine ⟨(bytes.dropWhile (· ≠ 0)).tail, ?_, clean⟩
  have split := List.takeWhile_append_dropWhile (p := fun c : Byte => decide (c ≠ 0)) (l := bytes)
  cases rest : bytes.dropWhile (· ≠ 0) with
  | nil =>
      rw [rest, List.append_nil] at split
      rw [← split] at zero
      exact absurd zero clean
  | cons c behind =>
      have first := List.head?_dropWhile_not (fun c : Byte => decide (c ≠ 0)) bytes
      rw [rest] at first split
      have zero : c = 0 := by simpa using first
      subst zero
      exact split.symm

/-- What follows the slash is copied within `fname` if it is not too long. -/
theorem within_copyName (rest : List Byte) (holds : List Byte → Prop) :
    Within (copyName (charArray 1024) 0 rest) holds ↔
      if (0 : Byte) ∈ rest then (rest.takeWhile (· ≠ 0)).length ≤ 1024 ∧
        holds (rest.takeWhile (· ≠ 0) ++ charArray (1024 - (rest.takeWhile (· ≠ 0)).length))
      else rest.length ≤ 1024 := by
  have size : (charArray 1024).length = 1024 := List.length_replicate
  by_cases zero : (0 : Byte) ∈ rest
  · rcases takeWhile_append_zero zero with ⟨behind, split, clean⟩
    rw [if_pos zero]
    generalize rest.takeWhile (· ≠ 0) = text at split clean
    rw [split, copyName_eq clean]
    by_cases fits : text.length ≤ 1024
    · rw [putAll_eq (by omega), List.take_zero, List.nil_append, Nat.zero_add, charArray,
        List.drop_replicate]
      exact ⟨fun held => ⟨fits, held⟩, And.right⟩
    · rw [putAll_eq_none (by rintro rfl; exact fits (Nat.zero_le _)) (by omega)]
      constructor
      · intro impossible
        cases impossible
      · rintro ⟨below, _⟩
        exact absurd below fits
  · rw [if_neg zero, copyName_endless zero]
    by_cases fits : rest.length ≤ 1024
    · rw [putAll_eq (by omega)]
      exact ⟨fun _ => fits, fun _ => rfl⟩
    · rw [putAll_eq_none (by rintro rfl; exact fits (Nat.zero_le _)) (by omega)]
      constructor
      · intro impossible
        cases impossible
      · intro below
        exact absurd below fits

/-- The copies of the arguments are stored, in order. -/
theorem copies_stored (argv : List UserString) (rest : List (List Byte)) {arg : UserString}
    (member : argv[i]? = some arg) :
    ∃ copy, (argv.map copyOf ++ rest)[i]? = some copy ∧ Stores copy arg.text := by
  have inside : i < (argv.map copyOf).length := by
    rw [List.length_map]
    exact (List.getElem?_eq_some_iff.mp member).1
  refine ⟨copyOf arg, ?_, stores_append _ _⟩
  rw [List.getElem?_append_left inside, List.getElem?_map, member]
  rfl

/-- Behind the characters, `fname` has a zero if there is a place for it. -/
theorem stores_fname_iff (few : text.length ≤ 1024) :
    Stores (text ++ charArray (1024 - text.length)) text ↔ text.length < 1024 := by
  constructor
  · intro stored
    have longer := stored.length_le
    rw [charArray, List.length_append, List.length_append, List.length_singleton,
      List.length_replicate] at longer
    omega
  · intro less
    obtain ⟨n, room⟩ : ∃ n, 1024 - text.length = n + 1 := ⟨1023 - text.length, by omega⟩
    rw [room, charArray, List.replicate_succ]
    exact stores_append _ _

/-- The copies of `system_execve` are within their buffers. -/
theorem execve_fits_iff (filename : UserString) (argv envp : List UserString) :
    (StringCall.execve filename argv envp).Fits k files cwd ↔
      (StringCall.execve filename argv envp).Short k files := by
  unfold StringCall.Fits StringCall.Short execveCopies
  dsimp only
  rw [within_bind, within_copyArgv]
  refine and_congr_right fun few => and_congr_right fun fit => ?_
  cases envp with
  | nil =>
      constructor
      · intro _ first none
        cases none
      · exact fun _ => rfl
  | cons first others =>
      dsimp only [List.head?_cons]
      rw [within_bind, within_kstrcpyInto, kmallocFor_room]
      unfold changeNameInto
      rw [within_bind, within_bind]
      cases skipped : skipToSlash filename.bytes with
      | error stop =>
          constructor
          · rintro ⟨room, _⟩ _ same
            cases same
            exact ⟨room, fun rest impossible => by cases impossible⟩
          · intro all
            exact ⟨(all first rfl).1, skipToSlash_error skipped⟩
      | ok rest =>
          change _ ∧ Within (copyName (charArray 1024) 0 rest) _ ↔ _
          rw [within_copyName]
          simp only [within_bind, within_kstrcpyInto]
          have size : (charArray 16).length = 16 := List.length_replicate
          rw [size]
          by_cases zero : (0 : Byte) ∈ rest
          · rw [if_pos zero]
            constructor
            · rintro ⟨room, short, named, _, _, stored, _⟩ _ same
              cases same
              refine ⟨room, fun _ same => ?_⟩
              cases same
              rw [if_pos zero]
              exact ⟨(stores_fname_iff short).mp (stored rest rfl), named⟩
            · intro all
              rcases all first rfl with ⟨room, path⟩
              have lengths := path rest rfl
              rw [if_pos zero] at lengths
              have short := Nat.le_of_lt lengths.1
              refine ⟨room, short, lengths.2, fun i arg member => copies_stored argv _ member,
                ?_, ?_, stores_append _ _⟩
              · intro _ same
                cases same
                exact stores_append _ _
              · intro _ same
                cases same
                exact (stores_fname_iff short).mpr lengths.1
          · rw [if_neg zero]
            constructor
            · rintro ⟨room, short⟩ _ same
              cases same
              refine ⟨room, fun _ same => ?_⟩
              cases same
              rw [if_neg zero]
              exact short
            · intro all
              rcases all first rfl with ⟨room, path⟩
              have short := path rest rfl
              rw [if_neg zero] at short
              exact ⟨room, short⟩

/-- What a call copies is stored in its buffers exactly if it is short enough. -/
theorem fits_iff (call : StringCall) : call.Fits k files cwd ↔ call.Short k files := by
  cases call with
  | execve filename argv envp => exact execve_fits_iff filename argv envp
  | «open» filepath => exact Iff.rfl
  | chdir path =>
      unfold StringCall.Fits StringCall.Short chdirCopies
      dsimp only
      cases missing : (openedFd k files path).slt 0 with
      | true =>
          constructor
          · intro _ found
            cases found
          · intro _ found
            cases found
      | false =>
          rw [if_neg (by decide), within_kstrcpyInto, Vector.length_toList]
          constructor
          · exact fun held _ => held.1
          · exact fun short => ⟨short rfl, fun _ => stores_append _ _⟩
  | readdir name =>
      unfold StringCall.Fits StringCall.Short
      dsimp only
      rw [within_kstrcpyInto, charArray, List.length_replicate]
      exact ⟨And.left, fun short => ⟨short, stores_append _ _⟩⟩

end

/-- A string with nothing behind it. -/
def userString (text : List Byte) (ends : (0 : Byte) ∉ text) (short : text.length < 2 ^ 64) :
    UserString := ⟨text, [], ends, short⟩

/-- `"bin/abcdefghijkl"`, sixteen characters. -/
def sixteen : UserString :=
  userString [0x62, 0x69, 0x6e, 0x2f, 0x61, 0x62, 0x63, 0x64, 0x65, 0x66, 0x67, 0x68, 0x69, 0x6a,
    0x6b, 0x6c] (by decide) (by decide)

/-- `"bin/ls"`. -/
def binLs : UserString :=
  userString [0x62, 0x69, 0x6e, 0x2f, 0x6c, 0x73] (by decide) (by decide)

def emptyString : UserString := userString [] (by decide) (by decide)

/-- The final zero of a path of sixteen characters is written behind the name of the new task, and
that of an empty argument behind no page at all. -/
theorem sixteen_not_fits :
    ¬(StringCall.execve sixteen [] [binLs]).Fits sharedFile [] (Vector.replicate 1024 0) ∧
      ¬(StringCall.execve binLs [emptyString] [binLs]).Fits sharedFile []
        (Vector.replicate 1024 0) := by
  rw [execve_fits_iff, execve_fits_iff]
  constructor
  · rintro ⟨_, _, env⟩
    have path := (env binLs rfl).2
      [0x61, 0x62, 0x63, 0x64, 0x65, 0x66, 0x67, 0x68, 0x69, 0x6a, 0x6b, 0x6c, 0] rfl
    rw [if_pos (by decide)] at path
    exact Nat.lt_irrefl _ path.2
  · rintro ⟨_, args, _⟩
    exact args emptyString List.mem_cons_self rfl

end Sbrocks.Process
