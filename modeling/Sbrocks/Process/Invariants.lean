import Sbrocks.Process.Table

/-!
# Invariants of the process table

Each invariant is kept by every move that its policy allows.
-/

namespace Sbrocks.Process

universe u

namespace Table

variable {ι : Type u} [DecidableEq ι] {T T' : Table ι} {event : Event ι} {policy : Policy ι}

/-! ## Who is running -/

/-- A running task is current. -/
def SingleRunner (T : Table ι) : Prop :=
  ∀ t ∈ T.known, (T.proc t).state = .running → T.current = some t

theorem Move.singleRunner (moved : Move T event T') (single : SingleRunner T) :
    SingleRunner T' := by
  intro s member running
  cases moved with
  | wake same state others frame =>
      apply single s member
      rcases state s with kept | woken
      · rw [← kept]
        exact running
      · rw [show _ = TaskState.runnable from woken] at running
        cases running
  | dispatch other listed alive =>
      rename_i t
      rw [Table.dispatch, modify_known, preempt_eq] at member
      simp only [Table.dispatch, modify_proc, preempt_proc] at running
      have := single s member
      show some t = some s
      grind
  | pause current stops alive =>
      have := single s member
      simp only [modify_proc] at running
      grind
  | enter current =>
      apply single s member
      simp only [Table.save, modify_proc] at running
      grind
  | save own =>
      apply single s member
      simp only [Table.save, modify_proc] at running
      grind
  | reuse first => exact single s member running
  | create notLive notFree =>
      simp only [Table.create, modify_known, modify_proc] at member running
      have old := single s
      have inserted := List.mem_insert_iff.mp member
      show T.current = some s
      split at running
      · cases running
      · grind
  | adopt current created =>
      apply single s member
      simp only [Table.adopt, modify_proc] at running
      grind
  | link current forking =>
      apply single s member
      simp only [Table.link, modify_proc] at running
      grind
  | exec current created =>
      apply single s member
      simp only [Table.exec, modify_proc] at running
      grind
  | leave current child linked =>
      apply single s member
      simp only [Table.leave, modify_proc] at running
      grind
  | unlink current =>
      apply single s member
      simp only [Table.unlink, modify_proc] at running
      grind
  | bury current notLive freed =>
      have := single s member
      simp only [Table.bury, modify_proc, Proc.cleared] at running
      grind
  | kill listed =>
      apply single s member
      simp only [Table.kill, modify_proc] at running
      grind
  | discard notLive alive =>
      apply single s member
      simp only [Table.discard, modify_proc, Proc.cleared] at running
      grind

/-! ## Who is blocked -/

/-- The current task does not wait. -/
def CurrentAwake (T : Table ι) : Prop :=
  ∀ t ∈ T.current, (T.proc t).state ≠ .waiting

theorem Move.currentAwake (moved : Move T event T') (awake : CurrentAwake T) :
    CurrentAwake T' := by
  intro s member
  cases moved with
  | wake same state others frame =>
      rcases state s with kept | woken
      · show (_ : Proc ι).state ≠ _
        rw [kept]
        exact awake s member
      · show (_ : Proc ι).state ≠ _
        rw [woken]
        exact nofun
  | dispatch other listed alive =>
      obtain rfl : _ = s := Option.some.inj member
      simp [Table.dispatch]
  | pause current stops alive => cases member
  | bury current notLive freed => cases member
  | enter current => grind [Table.save, CurrentAwake]
  | save own => grind [Table.save, CurrentAwake]
  | reuse first => exact awake s member
  | create notLive notFree =>
      have before := awake s member
      simp only [Table.create, modify_proc, Proc.fresh]
      grind
  | adopt current created =>
      have before := awake s member
      grind [Table.adopt]
  | link current forking =>
      have before := awake s member
      grind [Table.link]
  | exec current created =>
      have before := awake s member
      grind [Table.exec]
  | leave current child linked =>
      have before := awake s member
      grind [Table.leave]
  | unlink current =>
      have before := awake s member
      grind [Table.unlink]
  | kill listed =>
      have before := awake s member
      grind [Table.kill]
  | discard notLive alive =>
      have before := awake s member
      grind [Table.discard, Proc.cleared]

/-- No task blocks. -/
def Policy.noPause : Policy ι where
  enter := True
  create _ := True
  fork _ := True
  exec _ := True
  kill _ _ := True
  exit _ := True
  pause _ := False

/-- A task that does not wait only starts to wait when it blocks. -/
theorem Move.awake {t : ι} (moved : Move T event T') (awake : (T.proc t).state ≠ .waiting)
    (allowed : Policy.noPause.Allows T event) : (T'.proc t).state ≠ .waiting := by
  cases moved with
  | wake same state others frame =>
      rcases state t with kept | woken
      · show (_ : Proc ι).state ≠ _
        rw [kept]
        exact awake
      · show (_ : Proc ι).state ≠ _
        rw [woken]
        exact nofun
  | dispatch other listed alive => grind [Table.dispatch, preempt_proc]
  | pause current stops alive => exact allowed.elim
  | bury current notLive freed => grind [Table.bury, Proc.cleared]
  | enter current => grind [Table.save]
  | save own => grind [Table.save]
  | reuse first => exact awake
  | create notLive notFree => grind [Table.create, Proc.fresh]
  | adopt current created => grind [Table.adopt]
  | link current forking => grind [Table.link]
  | exec current created => grind [Table.exec]
  | leave current child linked => grind [Table.leave]
  | unlink current => grind [Table.unlink]
  | kill listed => grind [Table.kill]
  | discard notLive alive => grind [Table.discard, Proc.cleared]

/-! ## The current task is live -/

/-- The current task is live, unless it is being ended, and no free structure is
current. -/
structure CurrentLive (T : Table ι) : Prop where
  disjoint : ∀ t ∈ T.live, t ∉ T.free
  notFree : ∀ t ∈ T.current, t ∉ T.free
  live : T.dying = false → ∀ t ∈ T.current, t ∈ T.live

/-- No process kills itself. -/
def Policy.noSuicide : Policy ι where
  enter := True
  create _ := True
  fork _ := True
  exec _ := True
  kill T t := T.current ≠ some t
  exit _ := True
  pause _ := True

theorem Move.currentLive (moved : Move T event T') (inv : CurrentLive T)
    (allowed : Policy.noSuicide.Allows T event) : CurrentLive T' := by
  rcases inv with ⟨disjoint, notFree, live⟩
  cases moved with
  | wake same state others frame => exact ⟨disjoint, notFree, live⟩
  | enter current => exact ⟨disjoint, notFree, live⟩
  | save own => exact ⟨disjoint, notFree, live⟩
  | dispatch other listed alive =>
      rename_i t
      have inside := listed (live alive)
      unfold Table.dispatch
      rw [preempt_eq]
      refine ⟨disjoint, ?_, ?_⟩
      · rintro s ⟨⟩
        exact disjoint t inside
      · rintro _ s ⟨⟩
        exact inside
  | pause current stops alive => exact ⟨disjoint, nofun, fun _ => nofun⟩
  | reuse first =>
      rename_i t rest
      have kept : ∀ s, s ∉ T.free → s ∉ rest := by
        intro s absent member
        exact absent (first ▸ List.mem_cons_of_mem t member)
      exact ⟨fun s member => kept s (disjoint s member), fun s member => kept s (notFree s member),
        live⟩
  | create unlisted unfree =>
      rename_i t listed
      refine ⟨?_, notFree, ?_⟩
      · intro s member
        cases listed with
        | false => exact disjoint s member
        | true =>
            rcases List.mem_append.mp member with old | new
            · exact disjoint s old
            · rw [List.mem_singleton.mp new]
              exact unfree
      · intro alive s member
        cases listed with
        | false => exact live alive s member
        | true => exact List.mem_append_left _ (live alive s member)
  | adopt current created => exact ⟨disjoint, notFree, live⟩
  | link current forking => exact ⟨disjoint, notFree, live⟩
  | exec current created => exact ⟨disjoint, notFree, live⟩
  | leave current child linked => exact ⟨disjoint, notFree, nofun⟩
  | unlink current =>
      exact ⟨fun s member => disjoint s (List.mem_of_mem_erase member), notFree, nofun⟩
  | bury current notLive freed =>
      refine ⟨?_, nofun, fun _ => nofun⟩
      intro s member inside
      rcases freed s inside with old | this
      · exact disjoint s member old
      · exact notLive (this ▸ member)
  | kill listed =>
      refine ⟨fun s member => disjoint s (List.mem_of_mem_erase member), notFree, ?_⟩
      intro alive s member
      apply (List.mem_erase_of_ne _).mpr (live alive s member)
      rintro rfl
      exact allowed member
  | discard notLive alive =>
      refine ⟨?_, ?_, live⟩
      · intro s member inside
        rcases List.mem_append.mp inside with old | new
        · exact disjoint s member old
        · exact notLive (List.mem_singleton.mp new ▸ member)
      · intro s member inside
        rcases List.mem_append.mp inside with old | new
        · exact notFree s member old
        · exact notLive (List.mem_singleton.mp new ▸ live alive s member)

/-! ## Pids -/

/-- Live tasks have different pids, which were all given out before. -/
structure DistinctPids (T : Table ι) : Prop where
  distinct : ∀ s ∈ T.live, ∀ t ∈ T.live, (T.proc s).pid = (T.proc t).pid → s = t
  issued : ∀ t ∈ T.live, ∃ n, n < T.pid.toNat ∧ (T.proc t).pid = BitVec.ofNat 32 n
  few : T.pid.toNat ≤ 2 ^ 32

/-- No program is executed, and tasks are created while their pids are new. -/
def Policy.newPids : Policy ι where
  enter := True
  create T := T.pid.toNat < 2 ^ 32
  fork _ := True
  exec _ := False
  kill _ _ := True
  exit _ := True
  pause _ := True

omit [DecidableEq ι] in
/-- Moves that change no pid and make no task live. -/
theorem DistinctPids.fewer (inv : DistinctPids T) (pid : T'.pid = T.pid)
    (live : ∀ t ∈ T'.live, t ∈ T.live) (pids : ∀ t ∈ T'.live, (T'.proc t).pid = (T.proc t).pid) :
    DistinctPids T' where
  distinct s sLive t tLive same := by
    rw [pids s sLive, pids t tLive] at same
    exact inv.distinct s (live s sLive) t (live t tLive) same
  issued t member := by
    rw [pids t member, pid]
    exact inv.issued t (live t member)
  few := pid ▸ inv.few

theorem Move.distinctPids (moved : Move T event T') (inv : DistinctPids T)
    (allowed : Policy.newPids.Allows T event) : DistinctPids T' := by
  cases moved with
  | wake same state others frame =>
      refine inv.fewer rfl (fun _ member => member) ?_
      intro t _
      have kept := congrArg Proc.pid (same t)
      exact kept
  | dispatch other listed alive =>
      unfold Table.dispatch
      rw [preempt_eq]
      refine inv.fewer rfl (fun _ member => member) ?_
      intro t _
      grind [preempt_proc]
  | enter current => exact inv.fewer rfl (fun _ member => member) (by grind [Table.save])
  | save own => exact inv.fewer rfl (fun _ member => member) (by grind [Table.save])
  | pause current stops alive => exact inv.fewer rfl (fun _ member => member) (by grind)
  | reuse first => exact inv.fewer rfl (fun _ member => member) fun _ _ => rfl
  | create notLive notFree =>
      rename_i t listed
      have room : T.pid.toNat < 2 ^ 32 := allowed
      have next : (T.pid + 1).toNat = T.pid.toNat + 1 := by
        rw [BitVec.toNat_add, show (1 : BitVec 64).toNat = 1 from rfl]
        exact Nat.mod_eq_of_lt (by omega)
      have old : ∀ s ∈ (T.create t listed).live, s ≠ t → s ∈ T.live := by
        intro s member different
        cases listed with
        | false => exact member
        | true =>
            rcases List.mem_append.mp member with before | this
            · exact before
            · exact absurd (List.mem_singleton.mp this) different
      have fresh : ((T.create t listed).proc t).pid = T.pid.setWidth 32 := by
        simp [Table.create, Proc.fresh]
      have others : ∀ s, s ≠ t → (T.create t listed).proc s = T.proc s := by
        intro s different
        simp [Table.create, different]
      have unissued : ∀ s ∈ T.live, (T.proc s).pid ≠ T.pid.setWidth 32 := by
        intro s member same
        rcases inv.issued s member with ⟨n, below, issued⟩
        have equal := congrArg BitVec.toNat (issued.symm.trans same)
        rw [BitVec.toNat_ofNat, BitVec.toNat_setWidth, Nat.mod_eq_of_lt (by omega),
          Nat.mod_eq_of_lt room] at equal
        omega
      refine ⟨?_, ?_, ?_⟩
      · intro s sLive s' sLive' same
        by_cases here : s = t
        · by_cases there : s' = t
          · rw [here, there]
          · rw [here, fresh, others s' there] at same
            exact absurd same.symm (unissued s' (old s' sLive' there))
        · by_cases there : s' = t
          · rw [there, fresh, others s here] at same
            exact absurd same (unissued s (old s sLive here))
          · rw [others s here, others s' there] at same
            exact inv.distinct s (old s sLive here) s' (old s' sLive' there) same
      · intro s member
        show ∃ n, n < (T.pid + 1).toNat ∧ _
        rw [next]
        by_cases here : s = t
        · rw [here, fresh]
          refine ⟨T.pid.toNat, Nat.lt_succ_self _, ?_⟩
          apply BitVec.eq_of_toNat_eq
          rw [BitVec.toNat_ofNat, BitVec.toNat_setWidth]
        · rw [others s here]
          rcases inv.issued s (old s member here) with ⟨n, below, issued⟩
          exact ⟨n, Nat.lt_succ_of_lt below, issued⟩
      · show (T.pid + 1).toNat ≤ 2 ^ 32
        omega
  | adopt current created => exact inv.fewer rfl (fun _ member => member) (by grind [Table.adopt])
  | link current forking => exact inv.fewer rfl (fun _ member => member) (by grind [Table.link])
  | exec current created => exact allowed.elim
  | leave current child linked =>
      exact inv.fewer rfl (fun _ member => member) (by grind [Table.leave])
  | unlink current =>
      exact inv.fewer rfl (fun _ member => List.mem_of_mem_erase member) (by grind [Table.unlink])
  | bury current notLive freed =>
      exact inv.fewer rfl (fun _ member => member) (by grind [Table.bury, Proc.cleared])
  | kill listed =>
      exact inv.fewer rfl (fun _ member => List.mem_of_mem_erase member) (by grind [Table.kill])
  | discard notLive alive =>
      exact inv.fewer rfl (fun _ member => member) (by grind [Table.discard, Proc.cleared])

end Table

end Sbrocks.Process
