import Mathlib.Tactic.Common

/-!
# Runs of a labelled transition relation

A run takes one step for each of its events.  What every step keeps is kept by every
run, and a relation that every step of one system can follow in another one is followed
by its runs.
-/

namespace Sbrocks.Transition

universe u v w

variable {σ : Type u} {τ : Type v} {ι : Type w}

/-- The runs from a state, with their events. -/
inductive Runs (step : σ → ι → σ → Prop) (start : σ) : List ι → σ → Prop
  | start : Runs step start [] start
  | step {events : List ι} {event : ι} {s s' : σ} (before : Runs step start events s)
      (stepped : step s event s') : Runs step start (events ++ [event]) s'

namespace Runs

variable {step : σ → ι → σ → Prop} {step' : τ → ι → τ → Prop} {start s s' : σ} {start' : τ}
  {events more : List ι} {event : ι}

/-- A run of one step. -/
theorem single (stepped : step s event s') : Runs step s [event] s' :=
  .step .start stepped

/-- A run goes on with another one. -/
theorem append (first : Runs step start events s) (second : Runs step s more s') :
    Runs step start (events ++ more) s' := by
  induction second with
  | start => rwa [List.append_nil]
  | step _ stepped ih =>
      rw [← List.append_assoc]
      exact .step ih stepped

/-- What every step keeps holds after a run. -/
theorem keeps {P : σ → Prop} (run : Runs step start events s) (first : P start)
    (each : ∀ {s event s'}, P s → step s event s' → P s') : P s := by
  induction run with
  | start => exact first
  | step _ stepped ih => exact each ih stepped

/-- A relation that steps follow is followed by runs, event by event. -/
theorem simulated {R : σ → τ → Prop} (run : Runs step start events s) (related : R start start')
    (each : ∀ {s t event s'}, R s t → step s event s' → ∃ t', step' t event t' ∧ R s' t') :
    ∃ t, Runs step' start' events t ∧ R s t := by
  induction run with
  | start => exact ⟨start', .start, related⟩
  | step _ stepped ih =>
      rcases ih with ⟨t, followed, related⟩
      rcases each related stepped with ⟨t', stepped', related'⟩
      exact ⟨t', .step followed stepped', related'⟩

end Runs

end Sbrocks.Transition
