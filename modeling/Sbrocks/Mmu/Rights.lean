import Sbrocks.Mmu.PageMap

/-!
# Rights

What a page may be used for is the meet of the flags along its walk.  Mapping a page
stores the flags of the call again in the entries that it passes at the second and the
third level, which belong to the walks of other pages too.
-/

namespace Sbrocks.Mmu

open Sbrocks.Radix

/-- A flag of an entry. -/
def hasFlag (entry flag : Word) : Bool := entry &&& flag != 0

theorem alignDown_and {flag : Word} (low : flag.toNat < 4096) (entry : Word) :
    alignDown entry &&& flag = 0 := by
  apply BitVec.eq_of_getLsbD_eq
  intro i bound
  have zero : (0 : Word).getLsbD i = false := BitVec.getLsbD_zero
  rw [BitVec.getLsbD_and, zero, alignDown, BitVec.getLsbD_shiftLeft, BitVec.getLsbD_ushiftRight]
  by_cases inPage : i < 12
  · rw [decide_eq_true inPage, Bool.not_true, Bool.and_false, Bool.false_and, Bool.false_and]
  · have above : flag.getLsbD i = false := by
      apply Nat.testBit_lt_two_pow
      exact Nat.lt_of_lt_of_le low
        (Nat.pow_le_pow_right (show 0 < 2 by decide) (Nat.le_of_not_lt inPage))
    rw [above, Bool.and_false]

/-- A rewritten entry has the flags of the call. -/
theorem hasFlag_rewritten {flag : Word} (low : flag.toNat < 4096) (entry flags : Word) :
    hasFlag (alignDown entry ||| flags) flag = hasFlag flags flag := by
  have same : (alignDown entry ||| flags) &&& flag = flags &&& flag := by
    rw [BitVec.and_comm, BitVec.and_or_distrib_left, BitVec.and_comm flag (alignDown entry),
      alignDown_and low, BitVec.and_comm flag flags]
    exact BitVec.zero_or
  rw [hasFlag, hasFlag, same]

theorem hasFlag_page {flag : Word} (low : flag.toNat < 4096) (page flags : Word) :
    hasFlag (mmPageToPhy page ||| flags) flag = hasFlag flags flag := by
  have aligned : mmPageToPhy page = alignDown (mmPageToPhy page) := by
    apply BitVec.eq_of_toNat_eq
    have bound := (mmPageToPhy page).isLt
    rw [alignDown_toNat, mmPageToPhy, BitVec.toNat_mul]
    change _ = page.toNat * 4096 % 2 ^ 64 / 4096 * 4096
    have size : (page.toNat * (4096 : Word).toNat) % 2 ^ 64 = page.toNat * 4096 % 2 ^ 64 := rfl
    omega
  rw [aligned, hasFlag_rewritten low]

namespace Machine

variable {m m' : Machine} {v w : Word}

/-- The entries that a walk reads. -/
def entriesFrom (m : Machine) (table : Word) : List (BitVec 9) → List Word
  | [] => []
  | i :: ρ => m.mem table i :: m.entriesFrom (tableOf (m.mem table i)) ρ

/-- The flag stands in all entries of the walk of an address. -/
def permits (m : Machine) (virt flag : Word) : Bool :=
  (m.entriesFrom m.root (path virt)).all fun entry => hasFlag entry flag

/-- One level of the descent, seen from an entry of a walk: it is rewritten if the descent
passes it and rewrites, and kept otherwise. -/
theorem tableAt_entry {roots : Word → Prop} {shared : BitVec 9 → Prop}
    (tables : Tables m roots shared) {r table node next : Word} (isRoot : roots r)
    {ρ σ : List (BitVec 9)} {offset i : BitVec 9} {flags : Word} {refresh : Bool}
    (bound : ρ.length < 4) (bound' : σ.length < 4)
    (reached : walk entryFrame m.mem r ρ = some table)
    (reached' : walk entryFrame m.mem r σ = some node)
    (present : isPresent (m.mem node i) = true)
    (result : m.tableAt table offset flags refresh = some (m', next)) :
    m'.mem node i = if refresh = true ∧ σ = ρ ∧ i = offset then alignDown (m.mem node i) ||| flags
      else m.mem node i := by
  have same : node = table ∧ i = offset ↔ σ = ρ ∧ i = offset := by
    apply and_congr_left
    intro _
    constructor
    · rintro rfl
      exact (tables.forest.unique isRoot isRoot bound' bound reached' reached).1
    · rintro rfl
      exact Option.some.inj (reached'.symm.trans reached)
  by_cases here : node = table ∧ i = offset
  · obtain ⟨rfl, rfl⟩ := here
    unfold tableAt at result
    rw [present] at result
    simp only [Bool.not_true, Bool.false_eq_true, if_false] at result
    obtain ⟨rfl, rfl⟩ := Prod.mk.inj (Option.some.inj result)
    cases refresh with
    | false => simp
    | true =>
        rw [if_pos rfl, if_pos ⟨rfl, same.mp ⟨rfl, rfl⟩⟩, setEntry_mem, put_self]
  · rw [if_neg fun rewritten => here (same.mpr rewritten.2)]
    have elsewhere : node ≠ table ∨ i ≠ offset := by
      by_contra none
      rw [not_or, not_not, not_not] at none
      exact here none
    cases isPresent' : isPresent (m.mem table offset) with
    | false =>
        obtain ⟨allocated, page, found, rfl, _⟩ := tableAt_of_absent isPresent' result
        obtain ⟨phy, _, rfl⟩ := mmPhyAllocPage_eq_some found
        rw [setEntry_mem, put_of_ne _ elsewhere]
    | true =>
        unfold tableAt at result
        rw [isPresent'] at result
        simp only [Bool.not_true, Bool.false_eq_true, if_false] at result
        obtain ⟨rfl, rfl⟩ := Prod.mk.inj (Option.some.inj result)
        split
        · rw [setEntry_mem, put_of_ne _ elsewhere]
        · rfl

/-- The entry that a level of the descent leaves behind. -/
theorem tableAt_own {table next flags flag : Word} {offset : BitVec 9} {refresh : Bool}
    (flagBits : FlagBits flags) (low : flag.toNat < 4096)
    (result : m.tableAt table offset flags refresh = some (m', next)) :
    isPresent (m'.mem table offset) = true ∧ tableOf (m'.mem table offset) = next ∧
      hasFlag (m'.mem table offset) flag =
        if isPresent (m.mem table offset) = true ∧ refresh = false
          then hasFlag (m.mem table offset) flag else hasFlag flags flag := by
  cases present : isPresent (m.mem table offset) with
  | false =>
      obtain ⟨allocated, page, _, rfl, rfl⟩ := tableAt_of_absent present result
      rw [setEntry_mem, put_self]
      exact ⟨isPresent_or flagBits.present _, rfl, hasFlag_page low page flags⟩
  | true =>
      unfold tableAt at result
      rw [present] at result
      simp only [Bool.not_true, Bool.false_eq_true, if_false] at result
      obtain ⟨rfl, rfl⟩ := Prod.mk.inj (Option.some.inj result)
      cases refresh with
      | false => exact ⟨present, rfl, rfl⟩
      | true =>
          rw [if_pos rfl, setEntry_mem, put_self]
          exact ⟨isPresent_or flagBits.present _, rfl, hasFlag_rewritten low _ flags⟩

/-- A store into a table misses the other entries of the walks. -/
theorem setEntry_kept {roots : Word → Prop} {shared : BitVec 9 → Prop}
    (tables : Tables m roots shared) {r table node entry : Word} (isRoot : roots r)
    {ρ σ : List (BitVec 9)} {offset i : BitVec 9} (bound : ρ.length < 4) (bound' : σ.length < 4)
    (reached : walk entryFrame m.mem r ρ = some table)
    (reached' : walk entryFrame m.mem r σ = some node) (elsewhere : ¬ (σ = ρ ∧ i = offset)) :
    (m.setEntry table offset entry).mem node i = m.mem node i := by
  rw [setEntry_mem, put_apply, if_neg]
  rintro ⟨rfl, here⟩
  exact elsewhere ⟨(tables.forest.unique isRoot isRoot bound' bound reached' reached).1, here⟩

/-- The walks of two addresses have the second entry in common, and the third. -/
def SharesSecond (v w : Word) : Prop :=
  pml4eOffset v = pml4eOffset w ∧ pdpeOffset v = pdpeOffset w

def SharesThird (v w : Word) : Prop :=
  SharesSecond v w ∧ pdeOffset v = pdeOffset w

instance (v w : Word) : Decidable (SharesSecond v w) := inferInstanceAs (Decidable (_ ∧ _))

instance (v w : Word) : Decidable (SharesThird v w) := inferInstanceAs (Decidable (_ ∧ _))

/-- An entry that may be stored again with the flags of a call. -/
def refreshed (entry flags : Word) (rewritten : Prop) [Decidable rewritten] : Word :=
  if rewritten then alignDown entry ||| flags else entry

theorem tableOf_refreshed {flags : Word} (flagBits : FlagBits flags) (entry : Word)
    (rewritten : Prop) [Decidable rewritten] :
    tableOf (refreshed entry flags rewritten) = tableOf entry := by
  unfold refreshed
  split
  · rw [tableOf_or flagBits.low, tableOf_alignDown]
  · rfl

theorem hasFlag_refreshed {flag : Word} (low : flag.toNat < 4096) (entry flags : Word)
    (rewritten : Prop) [Decidable rewritten] : hasFlag (refreshed entry flags rewritten) flag =
      if rewritten then hasFlag flags flag else hasFlag entry flag := by
  unfold refreshed
  split
  · exact hasFlag_rewritten low entry flags
  · rfl

theorem isPresent_refreshed {flags : Word} (flagBits : FlagBits flags) {entry : Word}
    (present : isPresent entry = true) (rewritten : Prop) [Decidable rewritten] :
    isPresent (refreshed entry flags rewritten) = true := by
  unfold refreshed
  split
  · exact isPresent_or flagBits.present _
  · exact present

/-- The walk of an address reads these four entries, which are present. -/
structure Passes (m : Machine) (r w e₁ e₂ e₃ e₄ : Word) : Prop where
  first : m.mem r (pml4eOffset w) = e₁
  second : m.mem (tableOf e₁) (pdpeOffset w) = e₂
  third : m.mem (tableOf e₂) (pdeOffset w) = e₃
  fourth : m.mem (tableOf e₃) (pteOffset w) = e₄
  present : isPresent e₁ = true ∧ isPresent e₂ = true ∧ isPresent e₃ = true ∧ isPresent e₄ = true

namespace Passes

variable {r e₁ e₂ e₃ e₄ : Word}

theorem entriesFrom (passes : Passes m r w e₁ e₂ e₃ e₄) :
    m.entriesFrom r (path w) = [e₁, e₂, e₃, e₄] := by
  simp only [path, tablePath, List.cons_append, List.nil_append, Machine.entriesFrom, passes.first,
    passes.second, passes.third, passes.fourth]

theorem walks (passes : Passes m r w e₁ e₂ e₃ e₄) :
    walk entryFrame m.mem r [pml4eOffset w] = some (tableOf e₁) ∧
      walk entryFrame m.mem r [pml4eOffset w, pdpeOffset w] = some (tableOf e₂) ∧
      walk entryFrame m.mem r (tablePath w) = some (tableOf e₃) := by
  rcases passes.present with ⟨present₁, present₂, present₃, _⟩
  simp only [tablePath, walk_cons, walk_nil, entryFrame, passes.first, passes.second, passes.third,
    present₁, present₂, present₃, if_true, Option.bind_some, and_self]

theorem of_mapped (mapped : m.translate w ≠ none) :
    ∃ e₁ e₂ e₃ e₄, Passes m m.root w e₁ e₂ e₃ e₄ := by
  refine ⟨_, _, _, _, rfl, rfl, rfl, rfl, ?_⟩
  rw [translate_eq_walk, path, tablePath] at mapped
  simp only [List.cons_append, List.nil_append, walk_cons, entryFrame] at mapped
  split at mapped
  · rename_i present₁
    simp only [Option.bind_some] at mapped
    split at mapped
    · rename_i present₂
      simp only [Option.bind_some] at mapped
      split at mapped
      · rename_i present₃
        simp only [Option.bind_some] at mapped
        split at mapped
        · rename_i present₄
          exact ⟨present₁, present₂, present₃, present₄⟩
        · exact absurd rfl mapped
      · exact absurd rfl mapped
    · exact absurd rfl mapped
  · exact absurd rfl mapped

theorem congr {x₁ x₂ x₃ x₄ : Word} (passes : Passes m r w x₁ x₂ x₃ x₄) (first : x₁ = e₁)
    (second : x₂ = e₂) (third : x₃ = e₃) (fourth : x₄ = e₄) : Passes m r w e₁ e₂ e₃ e₄ := by
  subst first second third fourth
  exact passes

/-- One level of the descent. -/
theorem tableAt (passes : Passes m r w e₁ e₂ e₃ e₄) {roots : Word → Prop}
    {shared : BitVec 9 → Prop} (tables : Tables m roots shared) (isRoot : roots r) {flags : Word}
    (flagBits : FlagBits flags) {ρ : List (BitVec 9)} (bound : ρ.length < 4) {table next : Word}
    {offset : BitVec 9} {refresh : Bool} (reached : walk entryFrame m.mem r ρ = some table)
    (result : m.tableAt table offset flags refresh = some (m', next)) :
    Passes m' r w (refreshed e₁ flags (refresh = true ∧ [] = ρ ∧ pml4eOffset w = offset))
      (refreshed e₂ flags (refresh = true ∧ [pml4eOffset w] = ρ ∧ pdpeOffset w = offset))
      (refreshed e₃ flags
        (refresh = true ∧ [pml4eOffset w, pdpeOffset w] = ρ ∧ pdeOffset w = offset))
      (refreshed e₄ flags (refresh = true ∧ tablePath w = ρ ∧ pteOffset w = offset)) := by
  rcases passes.walks with ⟨walk₁, walk₂, walk₃⟩
  rcases passes.present with ⟨present₁, present₂, present₃, present₄⟩
  have entry : ∀ {σ : List (BitVec 9)} {node entry : Word} {i : BitVec 9}, σ.length < 4 →
      walk entryFrame m.mem r σ = some node → m.mem node i = entry → isPresent entry = true →
      m'.mem node i = refreshed entry flags (refresh = true ∧ σ = ρ ∧ i = offset) := by
    rintro σ node entry i short reached' rfl present
    exact tableAt_entry tables isRoot bound short reached reached' present result
  refine ⟨?_, ?_, ?_, ?_, ?_⟩
  · exact entry (by decide) (walk_nil r) passes.first present₁
  · rw [tableOf_refreshed flagBits]
    exact entry (by simp) walk₁ passes.second present₂
  · rw [tableOf_refreshed flagBits]
    exact entry (by simp) walk₂ passes.third present₃
  · rw [tableOf_refreshed flagBits]
    exact entry (by simp [tablePath]) walk₃ passes.fourth present₄
  · exact ⟨isPresent_refreshed flagBits present₁ _, isPresent_refreshed flagBits present₂ _,
      isPresent_refreshed flagBits present₃ _, isPresent_refreshed flagBits present₄ _⟩

end Passes

theorem refreshed_of_not {entry flags : Word} {rewritten : Prop} [Decidable rewritten]
    (kept : ¬ rewritten) : refreshed entry flags rewritten = entry :=
  if_neg kept

theorem refreshed_congr {entry flags : Word} {P Q : Prop} [Decidable P] [Decidable Q]
    (same : P ↔ Q) : refreshed entry flags P = refreshed entry flags Q :=
  if_congr same rfl rfl

/-- The last store of a mapping misses the walks of other pages. -/
theorem Passes.setEntry {roots : Word → Prop} {shared : BitVec 9 → Prop}
    (tables : Tables m roots shared) {r table entry : Word} (isRoot : roots r)
    (reached : walk entryFrame m.mem r (tablePath v) = some table) (different : vpn v ≠ vpn w)
    {e₁ e₂ e₃ e₄ : Word} (passes : Passes m r w e₁ e₂ e₃ e₄) :
    Passes (m.setEntry table (pteOffset v) entry) r w e₁ e₂ e₃ e₄ := by
  rcases passes.walks with ⟨walk₁, walk₂, walk₃⟩
  have kept : ∀ {σ : List (BitVec 9)} {node : Word} {i : BitVec 9}, σ.length < 4 →
      walk entryFrame m.mem r σ = some node → ¬ (σ = tablePath v ∧ i = pteOffset v) →
      (m.setEntry table (pteOffset v) entry).mem node i = m.mem node i :=
    fun short => setEntry_kept tables isRoot (by simp [tablePath]) short reached
  refine ⟨?_, ?_, ?_, ?_, passes.present⟩
  · rw [kept (by simp) (walk_nil r) (by simp [tablePath])]
    exact passes.first
  · rw [kept (by simp) walk₁ (by simp [tablePath])]
    exact passes.second
  · rw [kept (by simp) walk₂ (by simp [tablePath])]
    exact passes.third
  · rw [kept (by simp [tablePath]) walk₃]
    · exact passes.fourth
    · rintro ⟨tables', last⟩
      apply different
      rw [← path_eq_iff, path, path, tables', last]

/-- Mapping a page rewrites the second and the third entry of another page's walk where it
passes them, and changes no other. -/
theorem Passes.mapVirtToPhy (wellFormed : m.WellFormed) {phy flags : Word}
    (flagBits : FlagBits flags) (different : vpn v ≠ vpn w)
    (clean : m.CleanNext (m.missingTables m.root (tablePath v)))
    (result : m.mapVirtToPhy v phy flags = some m') {e₁ e₂ e₃ e₄ : Word}
    (passes : Passes m m.root w e₁ e₂ e₃ e₄) :
    Passes m' m.root w e₁ (refreshed e₂ flags (SharesSecond v w))
      (refreshed e₃ flags (SharesThird v w)) e₄ := by
  simp only [Machine.mapVirtToPhy, Option.bind_eq_bind] at result
  obtain ⟨⟨m₁, pdpetable⟩, first, rest₁⟩ := Option.bind_eq_some_iff.mp result
  obtain ⟨⟨m₂, pdetable⟩, second, rest₂⟩ := Option.bind_eq_some_iff.mp rest₁
  obtain ⟨⟨m₃, pttable⟩, third, last⟩ := Option.bind_eq_some_iff.mp rest₂
  obtain rfl := Option.some.inj last
  have spine : ∀ n, (tablePath v).take n <+: tablePath v := fun n => List.take_prefix n _
  obtain ⟨grown₁, reached₁, clean₁⟩ :=
    tableAt_grown wellFormed.tables flagBits rfl (show ([] : List (BitVec 9)).length < 3 by simp)
      (walk_nil m.root) (fun _ => False.elim) clean (spine 1) first
  obtain ⟨grown₂, reached₂, clean₂⟩ := tableAt_grown grown₁.tables flagBits rfl (by simp)
    reached₁ (fun atRoot => absurd atRoot (by simp)) clean₁ (spine 2) second
  obtain ⟨grown₃, reached₃, _⟩ := tableAt_grown grown₂.tables flagBits rfl (by simp)
    reached₂ (fun atRoot => absurd atRoot (by simp)) clean₂ (spine 3) third
  have passes₁ : Passes m₁ m.root w e₁ e₂ e₃ e₄ :=
    (passes.tableAt wellFormed.tables rfl flagBits (by decide) (walk_nil m.root) first).congr
      (refreshed_of_not (by simp)) (refreshed_of_not (by simp)) (refreshed_of_not (by simp))
      (refreshed_of_not (by simp))
  have passes₂ : Passes m₂ m.root w e₁ (refreshed e₂ flags (SharesSecond v w)) e₃ e₄ :=
    (passes₁.tableAt grown₁.tables rfl flagBits (by simp) reached₁ second).congr
      (refreshed_of_not (by simp)) (refreshed_congr (by simp [SharesSecond, eq_comm]))
      (refreshed_of_not (by simp)) (refreshed_of_not (by simp [tablePath]))
  have passes₃ : Passes m₃ m.root w e₁ (refreshed e₂ flags (SharesSecond v w))
      (refreshed e₃ flags (SharesThird v w)) e₄ :=
    (passes₂.tableAt grown₂.tables rfl flagBits (by simp) reached₂ third).congr
      (refreshed_of_not (by simp)) (refreshed_of_not (by simp))
      (refreshed_congr (by simp [SharesThird, SharesSecond, eq_comm]))
      (refreshed_of_not (by simp [tablePath]))
  exact passes₃.setEntry grown₃.tables rfl reached₃ different

theorem permits_of_passes {r e₁ e₂ e₃ e₄ : Word} (passes : Passes m r w e₁ e₂ e₃ e₄)
    (loaded : m.root = r) (flag : Word) : m.permits w flag =
      (hasFlag e₁ flag && hasFlag e₂ flag && hasFlag e₃ flag && hasFlag e₄ flag) := by
  rw [permits, loaded, passes.entriesFrom]
  simp [List.all_cons, Bool.and_assoc]

/-- The mapped page has the flags of the call, as far as the entry at the top has them. -/
theorem permits_mapVirtToPhy_self {roots : Word → Prop} {shared : BitVec 9 → Prop}
    (tables : Tables m roots shared) {page flags flag : Word} (flagBits : FlagBits flags)
    (isRoot : roots m.root)
    (own : shared (pml4eOffset v) → entryFrame (m.mem m.root (pml4eOffset v)) ≠ none)
    (clean : m.CleanNext (m.missingTables m.root (tablePath v))) (low : flag.toNat < 4096)
    (result : m.mapVirtToPhy v (mmPageToPhy page) flags = some m') :
    m'.permits v flag = ((!isPresent (m.mem m.root (pml4eOffset v)) ||
      hasFlag (m.mem m.root (pml4eOffset v)) flag) && hasFlag flags flag) := by
  have root : m'.root = m.root :=
    congrArg mmPhyToPage (mapVirtToPhy_mapped tables flagBits isRoot own clean result).cr3
  simp only [Machine.mapVirtToPhy, Option.bind_eq_bind] at result
  obtain ⟨⟨m₁, pdpetable⟩, first, rest₁⟩ := Option.bind_eq_some_iff.mp result
  obtain ⟨⟨m₂, pdetable⟩, second, rest₂⟩ := Option.bind_eq_some_iff.mp rest₁
  obtain ⟨⟨m₃, pttable⟩, third, last⟩ := Option.bind_eq_some_iff.mp rest₂
  obtain rfl := Option.some.inj last
  have spine : ∀ n, (tablePath v).take n <+: tablePath v := fun n => List.take_prefix n _
  obtain ⟨grown₁, reached₁, clean₁⟩ :=
    tableAt_grown tables flagBits isRoot (show ([] : List (BitVec 9)).length < 3 by simp)
      (walk_nil m.root) (fun _ => own) clean (spine 1) first
  obtain ⟨grown₂, reached₂, clean₂⟩ := tableAt_grown grown₁.tables flagBits isRoot (by simp)
    reached₁ (fun atRoot => absurd atRoot (by simp)) clean₁ (spine 2) second
  obtain ⟨grown₃, reached₃, _⟩ := tableAt_grown grown₂.tables flagBits isRoot (by simp)
    reached₂ (fun atRoot => absurd atRoot (by simp)) clean₂ (spine 3) third
  dsimp only at second third grown₁ grown₂ grown₃ reached₁ reached₂ reached₃
  obtain ⟨present₁, points₁, flag₁⟩ := tableAt_own flagBits low first
  obtain ⟨present₂, points₂, flag₂⟩ := tableAt_own flagBits low second
  obtain ⟨present₃, points₃, flag₃⟩ := tableAt_own flagBits low third
  -- each level keeps the entries that the levels above it left behind
  have first₂ : m₂.mem m.root (pml4eOffset v) = m₁.mem m.root (pml4eOffset v) := by
    rw [tableAt_entry grown₁.tables isRoot (by simp) (by simp) reached₁ (walk_nil m.root) present₁
      second, if_neg (by simp)]
  have first₃ : m₃.mem m.root (pml4eOffset v) = m₁.mem m.root (pml4eOffset v) := by
    rw [tableAt_entry grown₂.tables isRoot (by simp) (by simp) reached₂ (walk_nil m.root)
      (first₂ ▸ present₁) third, if_neg (by simp), first₂]
  have reached₁₂ := grown₂.kept isRoot (by simp) reached₁
  have second₃ : m₃.mem pdpetable (pdpeOffset v) = m₂.mem pdpetable (pdpeOffset v) := by
    rw [tableAt_entry grown₂.tables isRoot (by simp) (by simp) reached₂ reached₁₂ present₂ third,
      if_neg (by simp)]
  have reached₁₃ := grown₃.kept isRoot (by simp) reached₁₂
  have reached₂₃ := grown₃.kept isRoot (by simp) reached₂
  have last₁ : (m₃.setEntry pttable (pteOffset v) (mmPageToPhy page ||| flags)).mem m.root
      (pml4eOffset v) = m₁.mem m.root (pml4eOffset v) := by
    rw [setEntry_kept grown₃.tables isRoot (by simp) (by simp) reached₃ (walk_nil m.root) (by simp),
      first₃]
  have last₂ : (m₃.setEntry pttable (pteOffset v) (mmPageToPhy page ||| flags)).mem pdpetable
      (pdpeOffset v) = m₂.mem pdpetable (pdpeOffset v) := by
    rw [setEntry_kept grown₃.tables isRoot (by simp) (by simp) reached₃ reached₁₃ (by simp),
      second₃]
  have last₃ : (m₃.setEntry pttable (pteOffset v) (mmPageToPhy page ||| flags)).mem pdetable
      (pdeOffset v) = m₃.mem pdetable (pdeOffset v) :=
    setEntry_kept grown₃.tables isRoot (by simp) (by simp) reached₃ reached₂₃ (by simp)
  rw [permits, root, path, tablePath]
  simp only [List.cons_append, List.nil_append, Machine.entriesFrom, List.all_cons, List.all_nil,
    last₁, last₂, last₃, points₁, points₂, points₃, flag₁, flag₂, flag₃, setEntry_mem, put_self,
    hasFlag_page low]
  cases isPresent (m.mem m.root (pml4eOffset v)) <;>
    cases hasFlag (m.mem m.root (pml4eOffset v)) flag <;> cases hasFlag flags flag <;> simp

/-- The rights of a page. -/
def rightFlags : List Word := [ptPresentFlag, ptWritableFlag, ptUser]

theorem rightFlags_low {flag : Word} (member : flag ∈ [ptWritableFlag, ptUser]) :
    flag.toNat < 4096 := by
  simp only [List.mem_cons, List.not_mem_nil, or_false] at member
  rcases member with rfl | rfl <;> decide

/-- Where the walks part before the second level, or for either flag, writable and user: if
the entries of the walk of `w` that are not rewritten have the flag, then the call passes it
exactly if the rewritten ones have it. -/
def KeepsRights (m : Machine) (v w flags : Word) : Prop :=
  SharesSecond v w → ∀ e₁ e₂ e₃ e₄, m.entriesFrom m.root (path w) = [e₁, e₂, e₃, e₄] →
    ∀ flag ∈ [ptWritableFlag, ptUser],
      hasFlag e₁ flag = true → hasFlag e₄ flag = true →
      if SharesThird v w then hasFlag flags flag = (hasFlag e₂ flag && hasFlag e₃ flag)
      else hasFlag e₃ flag = true → hasFlag flags flag = hasFlag e₂ flag

/-- The rights of a page survive the mapping of another exactly if no flag is taken from
the entries they share, and none is given that only those lacked. -/
theorem permits_mapVirtToPhy_iff (wellFormed : m.WellFormed) {phy flags : Word}
    (flagBits : FlagBits flags) (mapped : m.translate w ≠ none) (different : vpn v ≠ vpn w)
    (clean : m.CleanNext (m.missingTables m.root (tablePath v)))
    (result : m.mapVirtToPhy v phy flags = some m') :
    (∀ flag ∈ rightFlags, m'.permits w flag = m.permits w flag) ↔ m.KeepsRights v w flags := by
  rcases Passes.of_mapped mapped with ⟨e₁, e₂, e₃, e₄, passes⟩
  have passes' := passes.mapVirtToPhy wellFormed flagBits different clean result
  have root : m'.root = m.root := congrArg mmPhyToPage
    (mapVirtToPhy_mapped wellFormed.tables flagBits rfl (fun impossible => impossible.elim) clean
      result).cr3
  have each : ∀ flag : Word, flag.toNat < 4096 → (m'.permits w flag = m.permits w flag ↔
      (SharesSecond v w → hasFlag e₁ flag = true → hasFlag e₄ flag = true →
        if SharesThird v w then hasFlag flags flag = (hasFlag e₂ flag && hasFlag e₃ flag)
        else hasFlag e₃ flag = true → hasFlag flags flag = hasFlag e₂ flag)) := by
    intro flag low
    rw [permits_of_passes passes rfl, permits_of_passes passes' root, hasFlag_refreshed low,
      hasFlag_refreshed low]
    by_cases second : SharesSecond v w
    · rw [if_pos second]
      by_cases third : SharesThird v w
      · rw [if_pos third, if_pos third]
        cases hasFlag e₁ flag <;> cases hasFlag e₄ flag <;> cases hasFlag flags flag <;>
          simp [second]
      · rw [if_neg third, if_neg third]
        cases hasFlag e₁ flag <;> cases hasFlag e₃ flag <;> cases hasFlag e₄ flag <;> simp [second]
    · rw [if_neg second, if_neg fun third : SharesThird v w => second third.1]
      simp [second]
  have present : m'.permits w ptPresentFlag = m.permits w ptPresentFlag := by
    rw [permits_of_passes passes rfl, permits_of_passes passes' root]
    rcases passes.present with ⟨present₁, present₂, present₃, present₄⟩
    rcases passes'.present with ⟨_, present₂', present₃', _⟩
    unfold isPresent at present₁ present₂ present₃ present₄ present₂' present₃'
    unfold hasFlag
    rw [present₁, present₂, present₃, present₄, present₂', present₃']
  constructor
  · intro kept second x₁ x₂ x₃ x₄ entries flag member
    rw [passes.entriesFrom] at entries
    cases entries
    exact (each flag (rightFlags_low member)).mp (kept flag (List.mem_cons_of_mem _ member)) second
  · intro keeps flag member
    rcases List.mem_cons.mp member with rfl | right
    · exact present
    · exact (each flag (rightFlags_low right)).mpr fun second => keeps second _ _ _ _ passes.entriesFrom flag right

/-- Frames 0 and 1 in use, and frames 9 and 10 for two segments of a program; the root
table in frame 1 and the available frames are empty. -/
def twoSegments : Machine where
  phy := ⟨fun group => if group = 0 then 0x603 else 0, fun _ _ => 0, []⟩
  mem := fun _ _ => 0
  cr3 := 0x1000
  kCr3 := 0x1000
  virtualTop := 0

/-- After the page of the writable segment is mapped. -/
theorem twoSegments_first : ∃ m, twoSegments.mapVirtToPhy 0x1000 0x9000 7 = some m ∧
    m.WellFormed := by
  have some : (twoSegments.mapVirtToPhy 0x1000 0x9000 7).isSome = true := by decide +kernel
  obtain ⟨m, result⟩ := Option.isSome_iff_exists.mp some
  have empty : twoSegments.WellFormed :=
    wellFormed_of_empty (fun _ => entryFrame_zero) (by decide) (by decide)
  have mapped := mapVirtToPhy_mapped empty.tables flagBits_user rfl
    (fun impossible => impossible.elim) (fun _ _ _ => entryFrame_zero) result
  have root : m.root = twoSegments.root := congrArg mmPhyToPage mapped.cr3
  refine ⟨m, result, ?_, mapped.used 0 empty.nullFrame⟩
  rw [root]
  exact mapped.tables

/-- The page of a read-only segment next to it takes the right to write from it. -/
theorem writable_segment_loses_right :
    ∃ m m' v w phy flags, WellFormed m ∧ FlagBits flags ∧ m.translate w ≠ none ∧
      vpn v ≠ vpn w ∧ m.CleanNext (m.missingTables m.root (tablePath v)) ∧
      m.mapVirtToPhy v phy flags = some m' ∧
      m.permits w ptWritableFlag = true ∧ m'.permits w ptWritableFlag = false := by
  obtain ⟨m, first, wellFormed⟩ := twoSegments_first
  have mapped : (twoSegments.mapVirtToPhy 0x1000 0x9000 7).map (fun m => m.translate 0x1000) =
      .some (.some 9) := by decide +kernel
  have complete : (twoSegments.mapVirtToPhy 0x1000 0x9000 7).map
      (fun m => m.missingTables m.root (tablePath 0x2000)) = .some 0 := by decide +kernel
  have before : (twoSegments.mapVirtToPhy 0x1000 0x9000 7).map
      (fun m => m.permits 0x1000 ptWritableFlag) = .some true := by decide +kernel
  have after : (twoSegments.mapVirtToPhy 0x1000 0x9000 7).bind (fun m =>
      (m.mapVirtToPhy 0x2000 0xA000 5).map fun m => m.permits 0x1000 ptWritableFlag) =
      .some false := by decide +kernel
  rw [first, Option.map_some, Option.some.injEq] at mapped complete before
  rw [first, Option.bind_some, Option.map_eq_some_iff] at after
  obtain ⟨m', second, lost⟩ := after
  refine ⟨m, m', 0x2000, 0x1000, 0xA000, 5, wellFormed, ⟨by decide, by decide⟩, ?_, by decide, ?_,
    second, before, lost⟩
  · rw [mapped]
    exact Option.some_ne_none 9
  · rw [complete]
    exact cleanNext_zero

/-- The page of a second writable segment keeps the rights of the first. -/
theorem permits_mapVirtToPhy_iff_writable :
    ∃ m m' : Machine, m.mapVirtToPhy 0x2000 0xA000 7 = some m' ∧
      ((∀ flag ∈ rightFlags, m'.permits 0x1000 flag = m.permits 0x1000 flag) ↔
        m.KeepsRights 0x2000 0x1000 7) := by
  obtain ⟨m, first, wellFormed⟩ := twoSegments_first
  have mapped : (twoSegments.mapVirtToPhy 0x1000 0x9000 7).map (fun m => m.translate 0x1000) =
      .some (.some 9) := by decide +kernel
  have complete : (twoSegments.mapVirtToPhy 0x1000 0x9000 7).map
      (fun m => m.missingTables m.root (tablePath 0x2000)) = .some 0 := by decide +kernel
  have after : (twoSegments.mapVirtToPhy 0x1000 0x9000 7).map (fun m =>
      (m.mapVirtToPhy 0x2000 0xA000 7).isSome) = .some true := by decide +kernel
  rw [first, Option.map_some, Option.some.injEq] at mapped complete after
  obtain ⟨m', second⟩ := Option.isSome_iff_exists.mp after
  refine ⟨m, m', second, permits_mapVirtToPhy_iff wellFormed ⟨by decide, by decide⟩ ?_ (by decide)
    ?_ second⟩
  · rw [mapped]
    exact Option.some_ne_none 9
  · rw [complete]
    exact cleanNext_zero

end Machine

end Sbrocks.Mmu
