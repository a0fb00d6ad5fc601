import Sbrocks.Libc.Heap

/-!
# Requests that cannot be met

`sbrk` adds to the break without a look at the result, and the kernel sets every break but
zero, so `malloc` hands out a block where the addresses have wrapped.
-/

namespace Sbrocks.Libc.Program

open Sbrocks.Process

variable {p p' : Program} {start stop size limit ptr : Word} {live : List (Word × Word)}
  {blocks : List Word}

/-- The payload of a block lies in the heap, and the heap below a limit. -/
structure Inside (start limit : Word) (p : Program) (size ptr : Word) : Prop where
  low : start.toNat ≤ ptr.toNat
  long : size.toNat ≤ p.payload ptr
  high : ptr.toNat + p.payload ptr ≤ p.kernel.brkEnd.toNat
  within : p.kernel.brkEnd.toNat ≤ limit.toNat

/-- The break, and the list of blocks with all of their headers, are as before. -/
structure Unchanged (p p' : Program) : Prop where
  brkEnd : p'.kernel.brkEnd = p.kernel.brkEnd
  head : p'.head = p.head
  blocks : ∀ blocks, Chain.Linked p.nextBlock (link p.head) blocks →
    ∀ b ∈ blocks, p'.memBlock b = p.memBlock b

/-- A request gives a block in the heap, or nothing and changes nothing. -/
def Clean (start limit : Word) (p p' : Program) (size ptr : Word) : Prop :=
  ptr ≠ 0 ∧ Inside start limit p' size ptr ∨ ptr = 0 ∧ Unchanged p p'

/-- A request that is met or refused: nothing is asked for, a block fits, or the break stays
below the limit; or it stands at the last address, and the request wraps to none or one. -/
def Answerable (limit : Word) (p : Program) (size : Word) : Prop :=
  size = 0 ∨ (∃ last block, p.findFreeMemBlock p.head size = some (last, block) ∧ block ≠ 0) ∨
    p.kernel.brkEnd.toNat + 24 + size.toNat ≤ limit.toNat ∨
    p.kernel.brkEnd = -1 ∧ (size + memBlockSize = 0 ∨ size + memBlockSize = 1)

/-- The break moves, unless that is asked for with zero. -/
theorem sbrk_cases (at' : p.kernel.BreakAt stop) (increment : Word) :
    ∃ k, p.sbrk increment = .next ({ p with kernel := k }, stop) ∧
      k.BreakAt (if increment = 0 ∨ stop + increment = 0 then stop else stop + increment) := by
  by_cases none : increment = 0
  · refine ⟨p.kernel, ?_, ?_⟩
    · rw [none]
      exact sbrk_zero at'
    · rw [if_pos (.inl none)]
      exact at'
  · by_cases zero : stop + increment = 0
    · refine ⟨p.kernel, ?_, ?_⟩
      · simp only [sbrk, brk, at'.systemBrk_zero, Flow.next_bind, Flow.pure_eq_next, if_neg none,
          zero]
      · rw [if_pos (.inr zero)]
        exact at'
    · rcases sbrk_move at' none zero with ⟨k, moved, after⟩
      refine ⟨k, moved, ?_⟩
      rw [if_neg (by rintro (nothing | wrapped); exacts [none nothing, zero wrapped])]
      exact after

/-- A request that no block fits asks for memory, and links what it is given. -/
theorem malloc_allocates (inv : HeapInv start p live blocks) (positive : size ≠ 0)
    (none : blocks.find? (p.fits size) = none) :
    (p.head = 0 ∧ p.malloc size = (do
      let (p, block) ← p.allocateMemory size
      if block = 0 then return (p, 0)
      else return ({ p with head := block }, block + memBlockSize))) ∨
    ∃ front last, blocks = front ++ [last] ∧ p.malloc size = (do
      let (p, block) ← p.allocateMemory size
      if block = 0 then return (p, 0)
      else return (p.setNext last block, block + memBlockSize)) := by
  rcases List.eq_nil_or_concat' blocks with rfl | ⟨front, last, rfl⟩
  · have empty : p.head = 0 := by
      by_contra more
      have linked := inv.linked
      rw [link, if_neg more] at linked
      cases linked
    refine .inl ⟨empty, ?_⟩
    rw [malloc, if_neg positive, if_pos empty]
  · have listed : last ∈ front ++ [last] := List.mem_append_right _ List.mem_cons_self
    have searched : p.findFreeMemBlock p.head size = some (last, 0) := by
      have passed : ∀ b ∈ front ++ [last], (!p.fits size b) = true := by
        intro b member
        simpa using List.find?_eq_none.mp none b member
      rw [inv.findFreeMemBlock_eq, none, List.takeWhile_eq_self_iff.mpr passed, List.getLastD_concat]
      rfl
    refine .inr ⟨front, last, rfl, ?_⟩
    rw [malloc, if_neg positive, if_neg (inv.head_ne_zero listed), searched, Flow.ofOption_some,
      Flow.next_bind]
    dsimp only
    rw [if_pos rfl]

/-- The break after a request for memory. -/
def brkAfter (p : Program) (size : Word) : Word :=
  if size + memBlockSize = 0 ∨ p.kernel.brkEnd + (size + memBlockSize) = 0 then p.kernel.brkEnd
  else p.kernel.brkEnd + (size + memBlockSize)

/-- At the last address there is no memory, though the break may move. -/
theorem malloc_last (inv : HeapInv start p live blocks) (positive : size ≠ 0)
    (none : blocks.find? (p.fits size) = none) (last : p.kernel.brkEnd = -1) :
    ∃ k, p.malloc size = .next ({ p with kernel := k }, 0) ∧ k.BreakAt (p.brkAfter size) := by
  rcases sbrk_cases inv.breakAt (size + memBlockSize) with ⟨k, moved, breakAt⟩
  have allocated : p.allocateMemory size = .next ({ p with kernel := k }, 0) := by
    simp only [allocateMemory, sbrk_zero inv.breakAt, Flow.next_bind, moved, Flow.pure_eq_next]
    exact if_pos last
  refine ⟨k, ?_, breakAt⟩
  rcases malloc_allocates inv positive none with ⟨-, requested⟩ | ⟨front, block, -, requested⟩
  · rw [requested, allocated, Flow.next_bind]
    exact if_pos rfl
  · rw [requested, allocated, Flow.next_bind]
    exact if_pos rfl

/-- Elsewhere a block is linked at the old break, wherever the break has moved. -/
theorem malloc_linked (inv : HeapInv start p live blocks) (positive : size ≠ 0)
    (none : blocks.find? (p.fits size) = none) (more : p.kernel.brkEnd ≠ -1) :
    ∃ p', p.malloc size = .next (p', p.kernel.brkEnd + memBlockSize) ∧
      p'.kernel.BreakAt (p.brkAfter size) ∧ ¬ Unchanged p p' := by
  rcases sbrk_cases inv.breakAt (size + memBlockSize) with ⟨k, moved, breakAt⟩
  have stop : start.toNat ≤ p.kernel.brkEnd.toNat := inv.tiles.le
  have valid : p.kernel.brkEnd ≠ 0 := by
    intro zero
    rw [zero] at stop
    exact inv.nonzero (BitVec.eq_of_toNat_eq (Nat.le_zero.mp stop))
  obtain ⟨p₁, written, kernel⟩ : ∃ p₁ : Program,
      p.allocateMemory size = .next (p₁, p.kernel.brkEnd) ∧ p₁.kernel = k := by
    refine ⟨((({ p with kernel := k } : Program).setSize p.kernel.brkEnd size).setNext
      p.kernel.brkEnd 0).setFree p.kernel.brkEnd used, ?_, rfl⟩
    simp only [allocateMemory, sbrk_zero inv.breakAt, Flow.next_bind, moved, Flow.pure_eq_next]
    exact if_neg more
  rcases malloc_allocates inv positive none with ⟨empty, requested⟩ | ⟨front, last, split, requested⟩
  · refine ⟨{ p₁ with head := p.kernel.brkEnd }, ?_, ?_, ?_⟩
    · rw [requested, written, Flow.next_bind]
      exact if_neg valid
    · show p₁.kernel.BreakAt _
      rw [kernel]
      exact breakAt
    · intro unchanged
      have head : p.kernel.brkEnd = p.head := unchanged.head
      exact valid (head.trans empty)
  · have listed : last ∈ blocks := by
      rw [split]
      exact List.mem_append_right _ List.mem_cons_self
    refine ⟨p₁.setNext last p.kernel.brkEnd, ?_, ?_, ?_⟩
    · rw [requested, written, Flow.next_bind]
      exact if_neg valid
    · show p₁.kernel.BreakAt _
      rw [kernel]
      exact breakAt
    · intro unchanged
      have same := unchanged.blocks blocks inv.linked last listed
      rw [memBlock_setNext (inv.room listed)] at same
      have next : p.kernel.brkEnd = (p.memBlock last).next := congrArg MemBlock.next same
      have linked := inv.linked
      rw [split] at linked
      have ends : link (p.memBlock last).next = Option.none := linked.last_none
      rw [← next, link, if_neg valid] at ends
      cases ends

/-- Where the break is after a request that the addresses have no room for. -/
theorem brkAfter_toNat (size : Word) (more : p.brkAfter size ≠ p.kernel.brkEnd) :
    (p.brkAfter size).toNat = (p.kernel.brkEnd.toNat + 24 + size.toNat) % 2 ^ 64 := by
  have header : memBlockSize.toNat = 24 := rfl
  unfold brkAfter at more ⊢
  split at more
  · exact absurd rfl more
  · rename_i moves
    rw [if_neg moves, BitVec.toNat_add, BitVec.toNat_add, header]
    omega

/-- A block beyond the limit is none of the heap. -/
theorem not_inside (positive : size ≠ 0) (low : 24 ≤ start.toNat)
    (beyond : limit.toNat < p.kernel.brkEnd.toNat + 24 + size.toNat)
    (after : p'.kernel.brkEnd = p.brkAfter size) :
    ¬ Inside start limit p' size (p.kernel.brkEnd + memBlockSize) := by
  rintro ⟨lowest, long, high, below⟩
  have header : memBlockSize.toNat = 24 := rfl
  have some : 0 < size.toNat := by
    apply Nat.pos_of_ne_zero
    intro zero
    exact positive (BitVec.eq_of_toNat_eq zero)
  have place : (p.kernel.brkEnd + memBlockSize).toNat = (p.kernel.brkEnd.toNat + 24) % 2 ^ 64 := by
    rw [BitVec.toNat_add, header]
  have small := size.isLt
  have bound := p.kernel.brkEnd.isLt
  rw [after] at high below
  by_cases stays : p.brkAfter size = p.kernel.brkEnd
  · rw [stays] at high
    omega
  · have stop := brkAfter_toNat size stays
    omega

/-- What is handed out lies in a heap that stays below the limit. -/
theorem HeapInv.inside_limit {given : Word × Word} (inv : HeapInv start p (given :: live) blocks)
    (below : p.kernel.brkEnd.toNat ≤ limit.toNat) :
    given.1 ≠ 0 ∧ Inside start limit p given.2 given.1 := by
  have allocates := inv.allocates
  have inside := allocates.inside given List.mem_cons_self
  exact ⟨inv.ptr_ne_zero List.mem_cons_self,
    inside.1, allocates.long given List.mem_cons_self, inside.2, below⟩

/-- The break stays where it is only for a request of nothing, or at the end of the addresses. -/
theorem brkAfter_last (last : p.kernel.brkEnd = -1) :
    p.brkAfter size = p.kernel.brkEnd ↔ size + memBlockSize = 0 ∨ size + memBlockSize = 1 := by
  unfold brkAfter
  rw [last]
  generalize size + memBlockSize = increment
  have one : (-1 : Word) + increment = 0 ↔ increment = 1 := by
    constructor
    · intro zero
      have moved : increment = 1 + (-1 + increment) := by rw [← BitVec.add_assoc]; simp
      rw [moved, zero]
      rfl
    · rintro rfl
      rfl
  rw [← one]
  split
  · rename_i stays
    exact iff_of_true rfl stays
  · rename_i moves
    refine iff_of_false ?_ moves
    intro same
    have none : increment = 1 + (-1 + increment) := by rw [← BitVec.add_assoc]; simp
    rw [same] at none
    exact moves (.inl none)

/-- A request that passes the limit is given a block that is not in the heap. -/
theorem malloc_unclean (inv : HeapInv start p live blocks) (positive : size ≠ 0)
    (none : blocks.find? (p.fits size) = none) (low : 24 ≤ start.toNat)
    (beyond : limit.toNat < p.kernel.brkEnd.toNat + 24 + size.toNat) (more : p.kernel.brkEnd ≠ -1) :
    ∃ p' ptr, p.malloc size = .next (p', ptr) ∧ ¬ Clean start limit p p' size ptr := by
  rcases malloc_linked inv positive none more with ⟨p', returned, breakAt, changed⟩
  refine ⟨p', _, returned, ?_⟩
  rintro (⟨-, inside⟩ | ⟨-, unchanged⟩)
  · exact not_inside positive low beyond breakAt.brkEnd_eq inside
  · exact changed unchanged

/-- In every state of a run that has met its requests cleanly, the next request is met or
refused cleanly exactly when nothing is asked for, a free block is large enough, or the new
break neither wraps nor passes the limit (or it stands at the last address and does not move). -/
theorem malloc_clean_iff (run : HeapRun userHeap p live)
    (within : p.kernel.brkEnd.toNat ≤ limit.toNat) :
    ∃ p' ptr, p.malloc size = .next (p', ptr) ∧
      (Clean userHeap limit p p' size ptr ↔ Answerable limit p size) := by
  rcases run.inv with ⟨blocks, inv⟩
  by_cases nothing : size = 0
  · refine ⟨p, 0, by rw [malloc, if_pos nothing]; rfl, ?_⟩
    exact iff_of_true (.inr ⟨rfl, rfl, rfl, fun _ _ _ _ => rfl⟩) (.inl nothing)
  · cases search : blocks.find? (p.fits size) with
    | some b =>
        have reuse := inv.malloc_reuse nothing search
        have answerable : Answerable limit p size := by
          refine .inr (.inl ⟨(blocks.takeWhile fun b => !p.fits size b).getLastD p.head, b, ?_,
            inv.ne_zero (List.mem_of_find?_eq_some search)⟩)
          rw [inv.findFreeMemBlock_eq, search]
          rfl
        exact ⟨_, _, reuse.1, iff_of_true (.inl (reuse.2.inside_limit within)) answerable⟩
    | none =>
        have unfit : ¬ ∃ last block, p.findFreeMemBlock p.head size = some (last, block) ∧
            block ≠ 0 := by
          rintro ⟨last, block, searched, found⟩
          rw [inv.findFreeMemBlock_eq, search] at searched
          cases searched
          exact found rfl
        have header : memBlockSize.toNat = 24 := rfl
        by_cases room : p.kernel.brkEnd.toNat + 24 + size.toNat ≤ limit.toNat
        · have bound := limit.isLt
          have addresses : p.kernel.brkEnd.toNat + 24 + size.toNat < 2 ^ 64 := by omega
          rcases inv.malloc_extend nothing search addresses with ⟨p', extended, breakAt, inv', -⟩
          have below : p'.kernel.brkEnd.toNat ≤ limit.toNat := by
            rw [breakAt.brkEnd_eq, blockEnd_toNat addresses]
            omega
          exact ⟨p', _, extended,
            iff_of_true (.inl (inv'.inside_limit below)) (.inr (.inr (.inl room)))⟩
        · by_cases last : p.kernel.brkEnd = -1
          · rcases malloc_last inv nothing search last with ⟨k, returned, breakAt⟩
            refine ⟨_, 0, returned, ?_⟩
            have stays : Clean userHeap limit p { p with kernel := k } size 0 ↔
                p.brkAfter size = p.kernel.brkEnd := by
              rw [← breakAt.brkEnd_eq]
              constructor
              · rintro (⟨given, -⟩ | ⟨-, unchanged⟩)
                · exact absurd rfl given
                · exact unchanged.brkEnd
              · intro same
                exact .inr ⟨rfl, same, rfl, fun _ _ _ _ => rfl⟩
            rw [stays, brkAfter_last last]
            constructor
            · exact fun moved => .inr (.inr (.inr ⟨last, moved⟩))
            · rintro (none | found | fits | ⟨-, moved⟩)
              · exact absurd none nothing
              · exact absurd found unfit
              · exact absurd fits room
              · exact moved
          · rcases malloc_unclean inv nothing search (by decide) (Nat.lt_of_not_le room) last with
              ⟨p', ptr, returned, unclean⟩
            refine ⟨p', ptr, returned, iff_of_false unclean ?_⟩
            rintro (none | found | fits | ⟨last', -⟩)
            · exact nothing none
            · exact unfit found
            · exact room fits
            · exact last last'

theorem heapRun_fresh : HeapRun userHeap fresh [] ∧ fresh.kernel.brkEnd = userHeap := by
  have breakAt : fresh.kernel.BreakAt userHeap := ⟨1, [], rfl, rfl, rfl, Nat.zero_lt_one⟩
  exact ⟨.start (by decide) breakAt rfl, breakAt.brkEnd_eq⟩

/-- A first request of ten bytes is met. -/
theorem malloc_clean_iff_fresh : ∃ p' ptr, fresh.malloc 10 = .next (p', ptr) ∧
    Clean userHeap 0x7FFFFFFFFFFF fresh p' 10 ptr := by
  rcases heapRun_fresh with ⟨run, brkEnd⟩
  have within : fresh.kernel.brkEnd.toNat ≤ (0x7FFFFFFFFFFF : Word).toNat := by
    rw [brkEnd]
    decide
  have requested : ∃ p' ptr, fresh.malloc 10 = .next (p', ptr) ∧
      (Clean userHeap 0x7FFFFFFFFFFF fresh p' 10 ptr ↔ Answerable 0x7FFFFFFFFFFF fresh 10) :=
    malloc_clean_iff run within
  rcases requested with ⟨p', ptr, returned, clean⟩
  refine ⟨p', ptr, returned, clean.mpr (.inr (.inr (.inl ?_)))⟩
  rw [brkEnd]
  decide

/-- A first request that wraps is given a block, and the break does not move. -/
theorem malloc_wraps_fresh : ¬ ∀ (p : Program) (live : List (Word × Word)) (limit size : Word),
    HeapRun userHeap p live → p.kernel.brkEnd.toNat ≤ limit.toNat →
    ∃ p' ptr, p.malloc size = .next (p', ptr) ∧ Clean userHeap limit p p' size ptr := by
  intro clean
  rcases heapRun_fresh with ⟨run, brkEnd⟩
  rcases run.inv with ⟨blocks, inv⟩
  have empty : blocks = [] := inv.linked.eq_nil
  subst empty
  have beyond : (-1 : Word).toNat < fresh.kernel.brkEnd.toNat + 24 + (-24 : Word).toNat := by
    rw [brkEnd]
    decide
  rcases malloc_unclean inv (by decide) rfl (by decide) beyond (by rw [brkEnd]; decide) with
    ⟨p', ptr, returned, unclean⟩
  rcases clean fresh [] (-1) (-24) run (by rw [brkEnd]; decide) with ⟨p'', ptr', returned', good⟩
  rw [returned] at returned'
  cases returned'
  exact unclean good

end Sbrocks.Libc.Program
