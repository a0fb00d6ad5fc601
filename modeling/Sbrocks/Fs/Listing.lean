import Mathlib.Data.List.Chain
import Mathlib.Data.List.Perm.Subperm
import Sbrocks.Chain.Linked
import Sbrocks.Fs.Tarfs
import Sbrocks.Path.Forest

/-!
# Listing a directory

`ls` asks for the first entry of a directory and then, again and again, for the
entry that follows the last one.  Both answers come from comparing names with the
names that follow them in the list of files.
-/

namespace Sbrocks.Process

open Sbrocks.Mmu Sbrocks.Path

namespace Kernel

/-- The entries that `dread` gives one after the other, from a first one on. -/
def listingLoop (k : Kernel) (entry : Option Word) : Nat → Flow Kernel (List Word)
  | 0 => .stuck
  | rounds + 1 =>
      match entry with
      | none => .next []
      | some f => do
          let following ← k.dread (k.file f).fd (k.file f).name
          let rest ← k.listingLoop following rounds
          return f :: rest

/-- The entries that `dopen` and `dread` give for a directory. -/
def listing (k : Kernel) (fd : Word) : Flow Kernel (List Word) := do
  let first ← k.dopen fd
  k.listingLoop first k.fileRounds

end Kernel

variable {k : Kernel} {F R inside : Forest Word} {xs ys after : List Word} {c d e t : Word}

/-- The name of an entry. -/
def Kernel.nameOf (k : Kernel) (f : Word) : List Byte := (k.file f).name

/-- The list of files is a forest of directories in depth-first order. -/
structure Indexed (k : Kernel) (F : Forest Word) : Prop where
  linked : Chain.Linked k.nextFile k.filelist F.preorder
  structs : ∀ f ∈ F.preorder, f ∈ k.fileStructs
  named : F.Named k.nameOf slash []
  clean : ∀ f ∈ F.preorder, (0 : Byte) ∉ k.nameOf f
  distinct : (F.preorder.map k.nameOf).Nodup
  fds : (F.preorder.map fun f => (k.file f).fd).Nodup
  directory : ∀ {d inside}, F.Holds d inside → (k.file d).type = typeDirectory

/-! ## Finding a file -/

/-- Loops over distinct structures have rounds enough. -/
theorem rounds_suffice (nodup : xs.Nodup) (structs : ∀ f ∈ xs, f ∈ k.fileStructs) :
    xs.length < k.fileRounds := by
  have fits := (List.subperm_of_subset nodup structs).length_le
  unfold Kernel.fileRounds
  omega

theorem fileWithFd_eq (linked : Chain.Linked k.nextFile k.filelist (xs ++ d :: ys))
    (structs : ∀ f ∈ xs ++ d :: ys, f ∈ k.fileStructs)
    (fds : ((xs ++ d :: ys).map fun f => (k.file f).fd).Nodup) {test : File → Bool}
    (passes : test (k.file d) = true) :
    k.fileWithFd (k.file d).fd test =
      .next (if (k.nextFile d).isNone then none else some d) := by
  have room := rounds_suffice linked.nodup structs
  rw [List.length_append] at room
  have others : ∀ x ∈ xs, ((k.nextFile x).isNone ||
      (k.file x).fd == (k.file d).fd && test (k.file x)) = false := by
    intro x member
    have more := linked.next_isSome member
    have different : (k.file x).fd ≠ (k.file d).fd := by
      rw [List.map_append, List.nodup_append] at fds
      apply fds.2.2 _ (List.mem_map_of_mem member)
      simp
    simp [more, different]
  have found := linked.scan_eq others (by simp [passes]) (by omega : xs.length < k.fileRounds)
  unfold Kernel.fileWithFd
  cases head : k.filelist with
  | none =>
      rw [head] at linked
      have := linked.eq_nil
      simp at this
  | some first =>
      rw [head] at found
      dsimp only [Flow.ofOption_some, Flow.next_bind]
      rw [found]
      rfl

/-! ## What `dread` finds -/

theorem Kernel.kstrncmp_eq_true {cs ct : List Byte} (clean : (0 : Byte) ∉ ct) :
    Kernel.kstrncmp cs ct ct.length = true ↔ ct <+: cs := by
  have whole : (ct ++ [0]).take ct.length = ct := List.take_left' rfl
  unfold kstrncmp
  rw [decide_eq_true_eq, whole]
  constructor
  · intro same
    have begins : ct <+: cs ++ [0] := List.prefix_iff_eq_take.mpr same.symm
    rcases List.prefix_concat_iff.mp begins with ends | begins
    · rw [ends] at clean
      exact absurd (by simp) clean
    · exact begins
  · intro begins
    exact (List.prefix_iff_eq_take.mp (begins.trans (List.prefix_append cs [0]))).symm

/-- The scan for the last slash stops behind the directory. -/
theorem directoryLength_eq {front part tail : List Byte} (clean : slash ∉ part) {m : Nat}
    (within : m ≤ part.length) :
    Kernel.directoryLength (front ++ [slash] ++ part ++ tail) (front.length + 1 + m) =
      some (front.length + 1) := by
  induction m with
  | zero =>
      rw [Nat.add_zero, Kernel.directoryLength, if_pos]
      simp [List.getD_eq_getElem?_getD]
  | succ m ih =>
      have letter : (front ++ [slash] ++ part ++ tail).getD (front.length + 1 + m) 0 = part[m] := by
        rw [List.getD_eq_getElem?_getD, List.append_assoc, List.getElem?_append_right (by simp),
          List.getElem?_append_left (by simp; omega)]
        simp [List.getElem?_eq_getElem (show m < part.length by omega)]
      have other : part[m] ≠ slash := by
        intro same
        exact clean (same ▸ List.getElem_mem _)
      rw [← Nat.add_assoc, Kernel.directoryLength, letter, if_neg other]
      exact ih (by omega)

/-- What `dread` finds among the names that follow: the first one in the directory
that does not start with the name of the last entry. -/
def chosen (k : Kernel) (name directory : List Byte) : List Word → Option Word
  | [] => none
  | e :: rest =>
      if directory <+: k.nameOf e then
        if name <+: k.nameOf e then chosen k name directory rest else some e
      else none

theorem dreadLoop_eq {name directory : List Byte} (nameClean : (0 : Byte) ∉ name)
    (directoryClean : (0 : Byte) ∉ directory) {rounds : Nat}
    (linked : Chain.Linked k.nextFile (k.nextFile t) xs) (room : xs.length < rounds) :
    k.dreadLoop name directory t rounds = .next (chosen k name directory xs) := by
  induction xs generalizing t rounds with
  | nil =>
      cases rounds with
      | zero => omega
      | succ rounds =>
          rw [Kernel.dreadLoop, show k.nextFile t = none from linked]
          rfl
  | cons e xs ih =>
      cases rounds with
      | zero => omega
      | succ rounds =>
          rw [Kernel.dreadLoop, linked.1]
          simp only [Kernel.kstrncmp_eq_true directoryClean, Kernel.kstrncmp_eq_true nameClean]
          rw [ih linked.2 (Nat.lt_of_succ_lt_succ room), chosen]
          unfold Kernel.nameOf
          by_cases here : directory <+: (k.file e).name
          · rw [if_pos here, if_pos here]
            by_cases under : name <+: (k.file e).name
            · rw [if_pos under, if_pos under]
            · rw [if_neg under, if_neg under]
          · rw [if_neg here, if_neg here]

/-- Entries that start with the name of the last one are passed over. -/
theorem chosen_append_of_initial {name directory : List Byte} (begins : directory <+: name)
    (under : ∀ e ∈ xs, name <+: k.nameOf e) :
    chosen k name directory (xs ++ after) = chosen k name directory after := by
  induction xs with
  | nil => rfl
  | cons e xs ih =>
      have here := under e List.mem_cons_self
      rw [List.cons_append, chosen, if_pos (begins.trans here), if_pos here]
      exact ih fun x member => under x (List.mem_cons_of_mem _ member)

/-- Among siblings, `dread` finds the first one that does not start with the name of
the last entry. -/
theorem chosen_preorder {name directory : List Byte} (begins : directory <+: name)
    (named : R.Named k.nameOf slash directory)
    (apart : ∀ e ∈ after, ¬ directory <+: k.nameOf e) :
    chosen k name directory (R.preorder ++ after) =
      R.tops.find? fun e => decide (¬ name <+: k.nameOf e) := by
  induction R with
  | nil =>
      cases after with
      | nil => rfl
      | cons e after => exact if_neg (apart e List.mem_cons_self)
  | file e rest ih =>
      have here := named.base_isInitial (show e ∈ (Forest.file e rest).preorder from List.mem_cons_self)
      rw [Forest.preorder, List.cons_append, chosen, if_pos here, Forest.tops, List.find?_cons]
      split
      · rename_i under
        rw [ih named.2]
        simp [under]
      · rename_i other
        simp [other]
  | dir e contents rest _ ih =>
      have here := named.base_isInitial
        (show e ∈ (Forest.dir e contents rest).preorder from List.mem_cons_self)
      rw [Forest.preorder, List.cons_append, chosen, if_pos here, Forest.tops, List.find?_cons]
      split
      · rename_i under
        have inner : ∀ x ∈ contents.preorder, name <+: k.nameOf x := fun x member =>
          under.trans (named.2.1.base_isInitial member)
        rw [List.append_assoc, chosen_append_of_initial begins inner, ih named.2.2]
        simp [under]
      · rename_i other
        simp [other]

/-- `dread` on an entry, whose own contents come directly behind it. -/
theorem dread_eq (indexed : Indexed k F) {front part tail : List Byte}
    (same : F.preorder = xs ++ c :: (ys ++ (R.preorder ++ after)))
    (name : k.nameOf c = front ++ [slash] ++ part ++ tail) (full : part ≠ [])
    (clean : slash ∉ part) (short : tail.length ≤ 1) (under : ∀ e ∈ ys, k.nameOf c <+: k.nameOf e)
    (named : R.Named k.nameOf slash (front ++ [slash]))
    (apart : ∀ e ∈ after, ¬ front ++ [slash] <+: k.nameOf e) :
    k.dread (k.file c).fd (k.nameOf c) =
      .next (R.tops.find? fun e => decide (¬ k.nameOf c <+: k.nameOf e)) := by
  have linked := indexed.linked
  have structs := indexed.structs
  have fds := indexed.fds
  rw [same] at linked structs fds
  have behind := linked.after
  have begins : front ++ [slash] <+: k.nameOf c := ⟨part ++ tail, by rw [name]; simp⟩
  have result := (chosen_append_of_initial begins under).trans (chosen_preorder begins named apart)
  unfold Kernel.dread
  rw [fileWithFd_eq linked structs fds rfl]
  cases next : k.nextFile c with
  | none =>
      rw [next] at behind
      rw [behind.eq_nil] at result
      rw [← result]
      rfl
  | some following =>
      have nonempty := List.length_pos_of_ne_nil full
      have last : (k.nameOf c).length - 1 = front.length + 1 + (part.length + tail.length - 1) := by
        rw [name]
        simp only [List.length_append, List.length_singleton]
        omega
      have length : Kernel.directoryLength (k.nameOf c) ((k.nameOf c).length - 1) =
          some (front.length + 1) := by
        rw [last, name]
        exact directoryLength_eq clean (by omega)
      have directory : (k.nameOf c).take (front.length + 1) = front ++ [slash] := by
        rw [name, List.append_assoc, List.take_left' (by simp)]
      have member : c ∈ F.preorder := by
        rw [same]
        simp
      have cleanName := indexed.clean c member
      have room := rounds_suffice linked.nodup structs
      rw [List.length_append, List.length_cons] at room
      show Flow.ofOption (Kernel.directoryLength (k.nameOf c) ((k.nameOf c).length - 1)) >>=
        (fun length => k.dreadLoop (k.nameOf c) ((k.nameOf c).take length) c k.fileRounds) = _
      rw [length, Flow.ofOption_some, Flow.next_bind, directory, dreadLoop_eq cleanName
        (fun zero => cleanName (begins.subset zero)) behind (by omega), result]

/-! ## The whole listing -/

theorem listingLoop_head {rounds : Nat} (listed : k.listingLoop (some c) rounds = .next xs) :
    ∃ rest, xs = c :: rest := by
  cases rounds with
  | zero => cases listed
  | succ rounds =>
      rcases Flow.bind_eq_next listed with ⟨following, _, more⟩
      rcases Flow.bind_eq_next more with ⟨rest, _, done⟩
      cases done
      exact ⟨rest, rfl⟩

theorem listingLoop_none {rounds : Nat} (listed : k.listingLoop none rounds = .next xs) :
    xs = [] := by
  cases rounds with
  | zero => cases listed
  | succ rounds =>
      cases listed
      rfl

/-- No entry's name starts with the name of the entry before it. -/
def Apart (k : Kernel) (entries : List Word) : Prop :=
  entries.IsChain fun c e => ¬ k.nameOf c <+: k.nameOf e

/-- One entry of a listing. -/
theorem listingLoop_cons {rounds : Nat}
    (follows : k.dread (k.file c).fd (k.nameOf c) =
      .next (R.tops.find? fun e => decide (¬ k.nameOf c <+: k.nameOf e)))
    (ih : k.listingLoop R.tops.head? rounds = .next R.tops ↔ Apart k R.tops) :
    k.listingLoop (some c) (rounds + 1) = .next (c :: R.tops) ↔ Apart k (c :: R.tops) := by
  have step : k.listingLoop (some c) (rounds + 1) = .next (c :: R.tops) ↔
      k.listingLoop (R.tops.find? fun e => decide (¬ k.nameOf c <+: k.nameOf e)) rounds =
        .next R.tops := by
    rw [Kernel.listingLoop]
    show (k.dread (k.file c).fd (k.nameOf c) >>= _) = _ ↔ _
    rw [follows, Flow.next_bind]
    cases k.listingLoop (R.tops.find? fun e => decide (¬ k.nameOf c <+: k.nameOf e)) rounds with
    | next rest =>
        constructor
        · intro equal
          rw [(List.cons.inj (Flow.next.inj equal)).2]
        · intro equal
          rw [Flow.next.inj equal]
          rfl
    | left state => exact ⟨nofun, nofun⟩
    | stuck => exact ⟨nofun, nofun⟩
  rw [step]
  cases tops : R.tops with
  | nil =>
      rw [tops] at ih
      have alone : Apart k [] := List.IsChain.nil
      exact ⟨fun _ => List.IsChain.singleton c, fun _ => ih.mpr alone⟩
  | cons t ts =>
      rw [tops] at ih
      unfold Apart at ih ⊢
      rw [List.isChain_cons_cons]
      by_cases begins : k.nameOf c <+: k.nameOf t
      · -- the entry that follows is passed over
        constructor
        · intro listed
          exfalso
          cases found : (t :: ts).find? fun e => decide (¬ k.nameOf c <+: k.nameOf e) with
          | none =>
              rw [found] at listed
              cases listingLoop_none listed
          | some s =>
              rw [found] at listed
              rcases listingLoop_head listed with ⟨rest, heads⟩
              have passes := List.find?_some found
              rw [← (List.cons.inj heads).1] at passes
              simp [begins] at passes
        · intro both
          exact absurd begins both.1
      · rw [List.find?_cons_of_pos (by simpa using begins)]
        rw [List.head?_cons] at ih
        rw [ih]
        exact ⟨fun chain => ⟨begins, chain⟩, fun both => both.2⟩

theorem listingLoop_eq_iff (indexed : Indexed k F) {front : List Byte} {rounds : Nat}
    (same : F.preorder = xs ++ (R.preorder ++ after))
    (named : R.Named k.nameOf slash (front ++ [slash]))
    (apart : ∀ e ∈ after, ¬ front ++ [slash] <+: k.nameOf e) (room : R.tops.length < rounds) :
    k.listingLoop R.tops.head? rounds = .next R.tops ↔ Apart k R.tops := by
  induction R generalizing xs rounds with
  | nil =>
      cases rounds with
      | zero => cases room
      | succ rounds => exact ⟨fun _ => List.IsChain.nil, fun _ => rfl⟩
  | file c rest ih =>
      cases rounds with
      | zero => cases room
      | succ rounds =>
          rcases named with ⟨⟨part, full, clean, name⟩, restNamed⟩
          have here : F.preorder = xs ++ c :: ([] ++ (rest.preorder ++ after)) := by
            rw [same]
            rfl
          have name' : k.nameOf c = front ++ [slash] ++ part ++ [] := by rw [name, List.append_nil]
          have follows := dread_eq indexed here name' full clean (Nat.zero_le 1) (fun _ => nofun)
            restNamed apart
          have shifted : F.preorder = xs ++ [c] ++ (rest.preorder ++ after) := by
            rw [here]
            simp
          exact listingLoop_cons follows (ih shifted restNamed (Nat.lt_of_succ_lt_succ room))
  | dir c contents rest _ ih =>
      cases rounds with
      | zero => cases room
      | succ rounds =>
          rcases named with ⟨⟨part, full, clean, name⟩, contentsNamed, restNamed⟩
          have here : F.preorder = xs ++ c :: (contents.preorder ++ (rest.preorder ++ after)) := by
            rw [same, Forest.preorder]
            simp
          have name' : k.nameOf c = front ++ [slash] ++ part ++ [slash] := by
            rw [name, ← List.append_assoc]
          have follows := dread_eq indexed here name' full clean (Nat.le_refl 1)
            (fun e member => contentsNamed.base_isInitial member) restNamed apart
          have shifted : F.preorder =
              xs ++ c :: contents.preorder ++ (rest.preorder ++ after) := by
            rw [here]
            simp
          exact listingLoop_cons follows (ih shifted restNamed (Nat.lt_of_succ_lt_succ room))

/-- `dopen` finds the first entry of a directory. -/
theorem dopen_eq (indexed : Indexed k F) (holds : F.Holds d inside) :
    k.dopen (k.file d).fd = .next inside.tops.head? := by
  rcases indexed.named.split indexed.distinct holds with ⟨before, after, same, apart⟩
  have linked := indexed.linked
  have structs := indexed.structs
  have fds := indexed.fds
  rw [same] at linked structs fds
  have behind := linked.after
  have member : d ∈ F.preorder := by
    rw [same]
    simp
  unfold Kernel.dopen
  rw [fileWithFd_eq linked structs fds (by rw [indexed.directory holds]; rfl)]
  cases next : k.nextFile d with
  | none =>
      rw [next] at behind
      have empty := (List.append_eq_nil_iff.mp behind.eq_nil).1
      rw [← Forest.preorder_head?, empty]
      rfl
  | some following =>
      rw [next] at behind
      dsimp only [Option.isNone_some, Bool.false_eq_true, ↓reduceIte, Flow.next_bind]
      rw [if_neg Bool.false_ne_true]
      dsimp only
      rw [next]
      dsimp only
      simp only [Kernel.kstrncmp_eq_true (show (0 : Byte) ∉ (k.file d).name from
        indexed.clean d member)]
      rcases behind.eq_cons with ⟨rest, listed, _⟩
      cases entries : inside.preorder with
      | nil =>
          rw [entries, List.nil_append] at listed
          have outside := apart following (by rw [listed]; exact List.mem_cons_self)
          unfold Kernel.nameOf at outside
          rw [if_neg outside, ← Forest.preorder_head?, entries]
          rfl
      | cons e es =>
          rw [entries, List.cons_append] at listed
          have begins := (indexed.named.holds holds).1.base_isInitial
            (show e ∈ inside.preorder by rw [entries]; exact List.mem_cons_self)
          cases listed
          unfold Kernel.nameOf at begins
          rw [if_pos begins, ← Forest.preorder_head?, entries]
          rfl

/-- A directory is listed exactly if no entry's name starts with the name of the entry
before it. -/
theorem listing_eq_iff (indexed : Indexed k F) (holds : F.Holds d inside) :
    k.listing (k.file d).fd = .next inside.tops ↔ Apart k inside.tops := by
  rcases indexed.named.split indexed.distinct holds with ⟨before, after, same, apart⟩
  rcases indexed.named.holds holds with ⟨named, front, name⟩
  rw [name] at named
  have apart' : ∀ e ∈ after, ¬ front ++ [slash] <+: k.nameOf e := by
    rw [← name]
    exact apart
  have here : F.preorder = before ++ [d] ++ (inside.preorder ++ after) := by
    rw [same]
    simp
  have room := rounds_suffice indexed.linked.nodup indexed.structs
  have fewer : inside.tops.length ≤ F.preorder.length := by
    apply Nat.le_trans Forest.tops_length_le
    rw [here]
    simp only [List.length_append]
    omega
  unfold Kernel.listing
  rw [dopen_eq indexed holds, Flow.next_bind]
  exact listingLoop_eq_iff indexed here named apart' (by omega)

/-- A memory that was never written. -/
def emptyMemory : Machine where
  phy := ⟨fun _ => 0, fun _ _ => 0, []⟩
  mem _ _ := 0
  cr3 := 0
  kCr3 := 0
  virtualTop := 0

/-- The directory `rootfs/` with two files whose names are given. -/
def twoFiles (first second : List Byte) : Kernel :=
  { Kernel.initial emptyMemory 0 with
    file := fun f =>
      if f = 1 then
        { (default : File) with
          name := rootfsName, fd := 2, type := typeDirectory, next := some 2 }
      else if f = 2 then { (default : File) with name := rootfsName ++ first, fd := 3, next := some 3 }
      else { (default : File) with name := rootfsName ++ second, fd := 4 }
    fileStructs := [3, 2, 1]
    filelist := some 1 }

/-- The contents of the directory, and the directory. -/
def twoEntries : Forest Word := .file 2 (.file 3 .nil)

def oneDirectory : Forest Word := .dir 1 twoEntries .nil

theorem indexed_twoFiles {first second : List Byte} (full : first ≠ [] ∧ second ≠ [])
    (clean : slash ∉ first ∧ slash ∉ second) (zero : (0 : Byte) ∉ first ∧ (0 : Byte) ∉ second)
    (different : first ≠ second) : Indexed (twoFiles first second) oneDirectory where
  linked := ⟨rfl, rfl, rfl, rfl⟩
  structs f member := by
    simp only [oneDirectory, twoEntries, Forest.preorder, List.mem_append, List.mem_cons] at member
    simp only [twoFiles, List.mem_cons]
    grind
  named := ⟨⟨[0x72, 0x6f, 0x6f, 0x74, 0x66, 0x73], by decide, by decide, rfl⟩,
    ⟨⟨first, full.1, clean.1, rfl⟩, ⟨second, full.2, clean.2, rfl⟩, trivial⟩, trivial⟩
  clean f member := by
    have names : (0 : Byte) ∉ rootfsName := by decide
    rcases List.mem_cons.mp member with rfl | member
    · exact names
    · rcases List.mem_cons.mp member with rfl | member
      · exact fun inside => (List.mem_append.mp inside).elim names zero.1
      · rw [List.mem_singleton.mp member]
        exact fun inside => (List.mem_append.mp inside).elim names zero.2
  distinct := by
    show [rootfsName, rootfsName ++ first, rootfsName ++ second].Nodup
    simp [full, different]
  fds := by
    show ([2, 3, 4] : List Word).Nodup
    decide
  directory holds := by
    rcases holds with ⟨rfl, _⟩ | holds | holds
    · rfl
    · exact holds.elim
    · exact holds.elim

/-- A directory with the files `a` and `b` is listed. -/
theorem listing_eq_iff_twoFiles : (twoFiles [0x61] [0x62]).listing 2 = .next [2, 3] :=
  have indexed : Indexed (twoFiles [0x61] [0x62]) oneDirectory :=
    indexed_twoFiles (by decide) (by decide) (by decide) (by decide)
  (listing_eq_iff indexed (.inl ⟨rfl, rfl⟩)).mpr (by unfold Apart; decide)

/-- In a directory with the files `a` and `ab` the second one is not listed. -/
theorem listing_prefix : Indexed (twoFiles [0x61] [0x61, 0x62]) oneDirectory ∧
    oneDirectory.Holds 1 twoEntries ∧ twoEntries.tops = [2, 3] ∧
    (twoFiles [0x61] [0x61, 0x62]).listing 2 = .next [2] :=
  ⟨indexed_twoFiles (by decide) (by decide) (by decide) (by decide), .inl ⟨rfl, rfl⟩, rfl, rfl⟩

end Sbrocks.Process
