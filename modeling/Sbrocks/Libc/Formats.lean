import Sbrocks.Libc.Numbers

/-!
# Reading formats

`vsprintf` stays inside its format.  It steps over a character only after it has seen
that it is not the terminator, except where a conversion is unknown: there it steps
back before the terminator, which the end of the round makes up for.
-/

namespace Sbrocks.Libc

open Sbrocks.Process

section

variable {format : List Byte} (args : Arguments)

/-! ## Characters of the format -/

theorem charAt_inside {fmt : Nat} (inside : fmt ≤ format.length) :
    ∃ c, charAt format fmt = some c := by
  have bound : fmt < (format ++ [0]).length := by simp; omega
  exact ⟨_, List.getElem?_eq_getElem bound⟩

/-- Behind a character that is not the terminator there is more of the format. -/
theorem lt_of_charAt {fmt : Nat} {c : Byte} (found : charAt format fmt = some c) (more : c ≠ 0) :
    fmt < format.length := by
  unfold charAt at found
  by_contra outside
  rcases List.getElem?_eq_some_iff.mp found with ⟨bound, here⟩
  have last : fmt = format.length := by simp at bound; omega
  subst last
  simp at here
  exact more here.symm

theorem skipAtoi_inside {fmt rounds : Nat} (inside : fmt ≤ format.length)
    (enough : format.length < fmt + rounds) (i : CInt) :
    ∃ i' fmt', skipAtoi format fmt i rounds = some (i', fmt') ∧
      fmt ≤ fmt' ∧ fmt' ≤ format.length := by
  induction rounds generalizing fmt i with
  | zero => omega
  | succ rounds ih =>
      obtain ⟨c, found⟩ := charAt_inside inside
      unfold skipAtoi
      rw [found, Option.bind_eq_bind, Option.bind_some]
      by_cases digit : isdigit c
      · have more : c ≠ 0 := by
          rintro rfl
          revert digit
          decide
        have further := lt_of_charAt found more
        obtain ⟨i', fmt', read, low, high⟩ := ih (show fmt + 1 ≤ _ from further)
          (by omega) (i * 10 + c.signExtend 32 - (chr '0').signExtend 32)
        exact ⟨i', fmt', by rw [if_pos digit, read], by omega, high⟩
      · exact ⟨i, fmt, if_neg digit, le_rfl, inside⟩

/-- The loop over the flags ends behind the `%` that it starts at. -/
theorem flagLoop_inside {fmt rounds : Nat} (inside : fmt < format.length)
    (enough : format.length < fmt + rounds + 1) (flags : CInt) :
    ∃ flags' fmt', flagLoop format fmt flags rounds = some (flags', fmt') ∧
      fmt < fmt' ∧ fmt' ≤ format.length := by
  induction rounds generalizing fmt flags with
  | zero => omega
  | succ rounds ih =>
      obtain ⟨c, found⟩ := charAt_inside (show fmt + 1 ≤ format.length from inside)
      unfold flagLoop
      simp only [found, Option.bind_eq_bind, Option.bind_some]
      cases which : flagOf c with
      | none => exact ⟨flags, fmt + 1, rfl, by omega, inside⟩
      | some flag =>
          have more : c ≠ 0 := by
            rintro rfl
            exact absurd which (by simp [flagOf, chr])
          have further := lt_of_charAt found more
          obtain ⟨flags', fmt', read, low, high⟩ := ih further (by omega) (flags ||| flag)
          exact ⟨flags', fmt', read, by omega, high⟩

/-! ## The parts of a conversion -/

theorem formatRounds_enough (fmt : Nat) : format.length < fmt + formatRounds format := by
  unfold formatRounds
  omega

theorem getWidth_inside {s : Scan} (inside : s.fmt ≤ format.length) (flags : CInt) :
    ∃ width flags' s', getWidth format args s flags = some (width, flags', s') ∧
      s.fmt ≤ s'.fmt ∧ s'.fmt ≤ format.length := by
  obtain ⟨c, found⟩ := charAt_inside inside
  unfold getWidth
  rw [found, Option.bind_eq_bind, Option.bind_some]
  split
  · obtain ⟨width, fmt, read, low, high⟩ := skipAtoi_inside inside (formatRounds_enough s.fmt) 0
    rw [read]
    exact ⟨width, flags, _, rfl, low, high⟩
  · split
    · rename_i star
      have further := lt_of_charAt found (by rw [star]; decide)
      simp only
      split
      · exact ⟨_, _, _, rfl, Nat.le_succ _, further⟩
      · exact ⟨_, _, _, rfl, Nat.le_succ _, further⟩
    · exact ⟨_, _, _, rfl, le_rfl, inside⟩

theorem getPrecision_inside {s : Scan} (inside : s.fmt ≤ format.length) :
    ∃ precision s', getPrecision format args s = some (precision, s') ∧
      s.fmt ≤ s'.fmt ∧ s'.fmt ≤ format.length := by
  obtain ⟨c, found⟩ := charAt_inside inside
  unfold getPrecision
  rw [found, Option.bind_eq_bind, Option.bind_some]
  split
  · rename_i dot
    have behind : s.skip.fmt ≤ format.length := lt_of_charAt found (by rw [dot]; decide)
    obtain ⟨c', found'⟩ := charAt_inside behind
    simp only [found', Option.bind_some]
    split
    · obtain ⟨precision, fmt, read, low, high⟩ :=
        skipAtoi_inside behind (formatRounds_enough s.skip.fmt) 0
      rw [read]
      exact ⟨_, _, rfl, (Nat.le_succ _).trans low, high⟩
    · split
      · rename_i star
        have further := lt_of_charAt found' (by rw [star]; decide)
        exact ⟨_, _, rfl, Nat.le_add_right _ 2, further⟩
      · exact ⟨_, _, rfl, Nat.le_succ _, behind⟩
  · exact ⟨_, _, rfl, le_rfl, inside⟩

theorem getQualifier_inside {s : Scan} (inside : s.fmt ≤ format.length) :
    ∃ qualifier s', getQualifier format s = some (qualifier, s') ∧
      s.fmt ≤ s'.fmt ∧ s'.fmt ≤ format.length := by
  obtain ⟨c, found⟩ := charAt_inside inside
  unfold getQualifier
  rw [found, Option.bind_eq_bind, Option.bind_some]
  split
  · rename_i letter
    have more : c ≠ 0 := by
      rintro rfl
      exact absurd letter (by decide)
    exact ⟨_, _, rfl, Nat.le_succ _, lt_of_charAt found more⟩
  · exact ⟨_, _, rfl, le_rfl, inside⟩

/-- Numbers are printed in a base that `number` accepts. -/
theorem number_some (num : Word) {base : CInt} (printed : base = 8 ∨ base = 10 ∨ base = 16)
    (width precision flags : CInt) : ∃ text, number num base width precision flags = some text := by
  have printed : base.toNat = 8 ∨ base.toNat = 10 ∨ base.toNat = 16 := by
    rcases printed with rfl | rfl | rfl <;> decide
  exact ⟨_, number_eq rfl printed num width precision flags⟩

theorem integerOf_base {c : Byte} {flags base flags' : CInt}
    (which : integerOf c flags = some (base, flags')) : base = 8 ∨ base = 10 ∨ base = 16 := by
  unfold integerOf at which
  split_ifs at which <;> simp_all

theorem putPointer_fmt (s : Scan) (flags width precision : CInt) :
    ∃ s', s.putPointer args flags width precision = some s' ∧ s'.fmt = s.fmt := by
  unfold Scan.putPointer
  split
  all_goals
    obtain ⟨text, put⟩ := number_some (args.word s.args) (.inr (.inr rfl)) _ precision _
    exact ⟨_, congrArg (· >>= _) put, rfl⟩

theorem putInteger_fmt (s : Scan) (qualifier : Option Byte) {base : CInt}
    (printed : base = 8 ∨ base = 10 ∨ base = 16) (flags width precision : CInt) :
    ∃ s', s.putInteger args qualifier base flags width precision = some s' ∧ s'.fmt = s.fmt := by
  obtain ⟨text, put⟩ := number_some (integerArg qualifier flags (args.word s.args)) printed width
    precision flags
  exact ⟨_, congrArg (· >>= _) put, rfl⟩

/-- A conversion ends at its last character, or before the terminator. -/
theorem convertTo_inside {s : Scan} (inside : s.fmt ≤ format.length) (begun : 0 < s.fmt)
    (qualifier : Option Byte) (flags width precision : CInt) :
    ∃ s', convertTo format args s qualifier flags width precision = some s' ∧
      s.fmt ≤ s'.fmt + 1 ∧ s'.fmt < format.length := by
  obtain ⟨c, found⟩ := charAt_inside inside
  -- What a conversion does with a character other than the terminator leaves the place in the format.
  have stays : c ≠ 0 → ∀ {result : Option Scan}, (∃ s', result = some s' ∧ s'.fmt = s.fmt) →
      ∃ s', result = some s' ∧ s.fmt ≤ s'.fmt + 1 ∧ s'.fmt < format.length := by
    rintro more _ ⟨s', rfl, same⟩
    exact ⟨s', rfl, by omega, same ▸ lt_of_charAt found more⟩
  unfold convertTo
  rw [found, Option.bind_eq_bind, Option.bind_some]
  by_cases last : c = 0
  · subst last
    refine ⟨_, rfl, ?_, ?_⟩
    · change s.fmt ≤ s.fmt - 1 + 1
      omega
    · change s.fmt - 1 < format.length
      omega
  · apply stays last
    split_ifs
    · exact ⟨_, rfl, rfl⟩
    · exact ⟨_, rfl, rfl⟩
    · exact putPointer_fmt args s flags width precision
    · exact ⟨_, rfl, rfl⟩
    · exact ⟨_, rfl, rfl⟩
    · cases which : integerOf c flags with
      | none =>
          exact ⟨_, rfl, rfl⟩
      | some found => exact putInteger_fmt args s qualifier (integerOf_base which) _ width precision

/-- A conversion specification ends behind its `%`, or there when the format ends. -/
theorem convert_inside {s : Scan} (inside : s.fmt < format.length) :
    ∃ s', convert format args s = some s' ∧ s.fmt ≤ s'.fmt ∧ s'.fmt < format.length := by
  obtain ⟨flags, fmt, flagged, low, high⟩ := flagLoop_inside inside
    ((formatRounds_enough s.fmt).trans (Nat.lt_succ_self _)) 0
  obtain ⟨width, flags', s₁, widened, low₁, high₁⟩ :=
    getWidth_inside args (s := { s with fmt }) high flags
  obtain ⟨precision, s₂, precise, low₂, high₂⟩ := getPrecision_inside args high₁
  obtain ⟨qualifier, s₃, qualified, low₃, high₃⟩ := getQualifier_inside high₂
  have behind : s.fmt < s₃.fmt := low.trans_le (low₁.trans (low₂.trans low₃))
  obtain ⟨s', converted, low', high'⟩ :=
    convertTo_inside args high₃ (by omega) qualifier flags' width precision
  refine ⟨s', ?_, by omega, high'⟩
  unfold convert
  rw [flagged]
  simp only [Option.bind_eq_bind, Option.bind_some, widened, precise, qualified, converted]

/-! ## The whole format -/

theorem formatRound_inside {s : Scan} {c : Byte} (found : charAt format s.fmt = some c)
    (more : c ≠ 0) :
    ∃ s', formatRound format args s c = some s' ∧ s.fmt ≤ s'.fmt ∧ s'.fmt < format.length := by
  have inside := lt_of_charAt found more
  unfold formatRound
  split
  · exact convert_inside args inside
  · exact ⟨_, rfl, le_rfl, inside⟩

/-- The loop ends at a terminator inside the format. -/
theorem formatLoop_inside {s : Scan} {rounds : Nat} (inside : s.fmt ≤ format.length)
    (enough : format.length < s.fmt + rounds) :
    ∃ s', formatLoop format args s rounds = some s' ∧
      s'.fmt ≤ format.length ∧ charAt format s'.fmt = some 0 := by
  induction rounds generalizing s with
  | zero => omega
  | succ rounds ih =>
      obtain ⟨c, found⟩ := charAt_inside inside
      unfold formatLoop
      rw [found, Option.bind_eq_bind, Option.bind_some]
      by_cases last : c = 0
      · subst last
        exact ⟨s, if_pos rfl, inside, found⟩
      · obtain ⟨s₁, round, low, high⟩ := formatRound_inside args found last
        have behind : s₁.skip.fmt = s₁.fmt + 1 := rfl
        obtain ⟨s', looped, inside', ended⟩ := ih (s := s₁.skip) (by omega) (by omega)
        rw [if_neg last, round]
        exact ⟨s', looped, inside', ended⟩

/-- `vsprintf` returns for every format and all arguments, reads nothing behind the terminator of
the format, and ends at it. -/
theorem vsprintf_inside (format : List Byte) (args : Arguments) :
    ∃ s, vsprintf format args = some s ∧
      s.fmt ≤ format.length ∧ charAt format s.fmt = some 0 :=
  formatLoop_inside args (Nat.zero_le _) (formatRounds_enough 0)

end

end Sbrocks.Libc
