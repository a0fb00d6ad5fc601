import Sbrocks.Concurrent.Code
import Sbrocks.Transition.Runs

/-!
# Processes side by side

Processes with state of their own run beside each other over a state that they share.  In a
step one of them makes a call, or something outside changes the shared state.  A process that
is safe whatever the others do to the shared state stays safe in every interleaving, and when
it is over it has reached what was to be shown of it.
-/

namespace Sbrocks.Concurrent

open Transition

/-- What a call brings about: it returns, it returns twice, or the process is over. -/
inductive Outcome (ℓ A : Type) where
  | back (own : ℓ) (answer : A)
  | split (own : ℓ) (answer : A) (other : ℓ) (another : A)
  | gone (own : ℓ)

/-- The states of the processes after a call. -/
def Outcome.owns {ℓ A : Type} : Outcome ℓ A → List ℓ
  | back own _ => [own]
  | split own _ other _ => [own, other]
  | gone own => [own]

variable {Call : Type} {Answer : Call → Type} {σ ℓ α β : Type}

/-- A process that runs a program, or none any more. -/
inductive Process (Call : Type) (Answer : Call → Type) (ℓ : Type) where
  | runs (own : ℓ) (code : Code Call Answer Unit)
  | gone (own : ℓ)

/-- The state of a process. -/
def Process.own : Process Call Answer ℓ → ℓ
  | runs own _ => own
  | gone own => own

/-- The processes after a call. -/
def Outcome.resume {A : Type} (next : A → Code Call Answer Unit) :
    Outcome ℓ A → List (Process Call Answer ℓ)
  | back own answer => [.runs own (next answer)]
  | split own answer other another => [.runs own (next answer), .runs other (next another)]
  | gone own => [.gone own]

@[simp]
theorem Outcome.resume_owns {A : Type} (next : A → Code Call Answer Unit) (outcome : Outcome ℓ A) :
    (outcome.resume next).map Process.own = outcome.owns := by
  cases outcome with
  | back own answer => rfl
  | split own answer other another => rfl
  | gone own => rfl

/-- Processes and what they share. -/
structure Crew (Call : Type) (Answer : Call → Type) (σ ℓ : Type) where
  shared : σ
  processes : List (Process Call Answer ℓ)

/-- What calls do to the shared state and to the state of the process. -/
abbrev Acts (Call : Type) (Answer : Call → Type) (σ ℓ : Type) :=
  σ → ℓ → (c : Call) → σ → Outcome ℓ (Answer c) → Prop

/-- A step of one process, or of the world outside. -/
inductive Step (acts : Acts Call Answer σ ℓ) (outside : σ → σ → Prop) :
    Crew Call Answer σ ℓ → Option ℓ → Crew Call Answer σ ℓ → Prop
  | call {s s' : σ} {own : ℓ} {c : Call} {next : Answer c → Code Call Answer Unit}
      {outcome : Outcome ℓ (Answer c)} (before after : List (Process Call Answer ℓ))
      (acted : acts s own c s' outcome) :
      Step acts outside ⟨s, before ++ .runs own (.call c next) :: after⟩ (some own)
        ⟨s', before ++ (outcome.resume next ++ after)⟩
  | outside {s s' : σ} (processes : List (Process Call Answer ℓ)) (changed : outside s s') :
      Step acts outside ⟨s, processes⟩ none ⟨s', processes⟩

/-- What a process may rely on while others act, and how the states of processes stay apart. -/
structure Discipline (acts : Acts Call Answer σ ℓ) (outside : σ → σ → Prop) where
  /-- The state of a process fits the shared one. -/
  Placed : σ → ℓ → Prop
  /-- Two states belong to different processes. -/
  Apart : ℓ → ℓ → Prop
  /-- What others may do to the shared state. -/
  Rely : ℓ → σ → σ → Prop
  apart_symm : ∀ {l m}, Apart l m → Apart m l
  rely_refl : ∀ l s, Rely l s s
  rely_trans : ∀ {l s s' s''}, Rely l s s' → Rely l s' s'' → Rely l s s''
  outside_placed : ∀ {s s' l}, outside s s' → Placed s l → Placed s' l
  outside_rely : ∀ {s s' l}, outside s s' → Rely l s s'
  own_placed : ∀ {s l c s' outcome}, Placed s l → acts s l c s' outcome →
    (∀ m ∈ outcome.owns, Placed s' m) ∧ outcome.owns.Pairwise Apart
  other : ∀ {s l c s' outcome m}, Placed s l → acts s l c s' outcome → Placed s m → Apart l m →
    Placed s' m ∧ Rely m s s' ∧ ∀ l' ∈ outcome.owns, Apart l' m

namespace Discipline

variable {acts : Acts Call Answer σ ℓ} {outside : σ → σ → Prop} (D : Discipline acts outside)

/-- A process gets where it should, whatever the others do: with `ret` if its program returns, and
with `post` if it is over. -/
def Safe (post : σ → ℓ → Prop) (ret : α → σ → ℓ → Prop) : σ → ℓ → Code Call Answer α → Prop
  | s, l, .done value => ∀ s', D.Rely l s s' → ret value s' l
  | s, l, .call c next => ∀ s', D.Rely l s s' → D.Placed s' l → ∀ s'' outcome,
      acts s' l c s'' outcome →
      match outcome with
      | .back l' answer => Safe post ret s'' l' (next answer)
      | .split l' answer other another =>
          Safe post ret s'' l' (next answer) ∧ Safe post ret s'' other (next another)
      | .gone l' => ∀ s₃, D.Rely l' s'' s₃ → post s₃ l'

variable {D} {post : σ → ℓ → Prop} {ret : α → σ → ℓ → Prop} {s s' : σ} {l : ℓ}

/-- Others do not take safety away. -/
theorem Safe.relied {code : Code Call Answer α} (safe : D.Safe post ret s l code)
    (relied : D.Rely l s s') : D.Safe post ret s' l code := by
  cases code with
  | done value => exact fun s₂ more => safe s₂ (D.rely_trans relied more)
  | call c next => exact fun s₂ more => safe s₂ (D.rely_trans relied more)

/-- A process may be asked for less. -/
theorem Safe.mono {ret' : α → σ → ℓ → Prop} {code : Code Call Answer α}
    (safe : D.Safe post ret s l code) (less : ∀ value s l, ret value s l → ret' value s l) :
    D.Safe post ret' s l code := by
  induction code generalizing s l with
  | done value => exact fun s' relied => less value s' l (safe s' relied)
  | call c next ih =>
      intro s' relied placed s'' outcome acted
      have after := safe s' relied placed s'' outcome acted
      cases outcome with
      | back l' answer => exact ih answer after
      | split l' answer other another => exact ⟨ih answer after.1, ih another after.2⟩
      | gone l' => exact after

/-- One program after the other. -/
theorem Safe.bind {code : Code Call Answer α} {rest : α → Code Call Answer β}
    {last : β → σ → ℓ → Prop}
    (safe : D.Safe post (fun value s l => D.Safe post last s l (rest value)) s l code) :
    D.Safe post last s l (code >>= rest) := by
  induction code generalizing s l with
  | done value => exact safe s (D.rely_refl l s)
  | call c next ih =>
      intro s' relied placed s'' outcome acted
      have after := safe s' relied placed s'' outcome acted
      cases outcome with
      | back l' answer => exact ih answer after
      | split l' answer other another => exact ⟨ih answer after.1, ih another after.2⟩
      | gone l' => exact after

/-- What is known of a process of a crew. -/
def Fine (D : Discipline acts outside) (post ret : σ → ℓ → Prop) (s : σ) :
    Process Call Answer ℓ → Prop
  | .runs l code => D.Safe post (fun _ : Unit => ret) s l code
  | .gone l => ∀ s', D.Rely l s s' → post s' l

theorem Fine.relied {ret : σ → ℓ → Prop} {p : Process Call Answer ℓ} (fine : D.Fine post ret s p)
    (relied : D.Rely p.own s s') : D.Fine post ret s' p := by
  cases p with
  | runs l code => exact Safe.relied fine relied
  | gone l => exact fun s₂ more => fine s₂ (D.rely_trans relied more)

/-- Every process of a crew is safe, and they are apart from each other. -/
structure Sound (D : Discipline acts outside) (post ret : σ → ℓ → Prop)
    (crew : Crew Call Answer σ ℓ) : Prop where
  placed : ∀ p ∈ crew.processes, D.Placed crew.shared p.own
  apart : (crew.processes.map Process.own).Pairwise D.Apart
  fine : ∀ p ∈ crew.processes, D.Fine post ret crew.shared p

/-- The processes that a call leaves behind are safe. -/
theorem Safe.resumed {ret : σ → ℓ → Prop} {c : Call} {next : Answer c → Code Call Answer Unit}
    {outcome : Outcome ℓ (Answer c)} (safe : D.Safe post (fun _ => ret) s l (.call c next))
    (placed : D.Placed s l) (acted : acts s l c s' outcome) :
    ∀ p ∈ outcome.resume next, D.Fine post ret s' p := by
  have after := safe s (D.rely_refl l s) placed s' outcome acted
  cases outcome with
  | back l' answer => exact List.forall_mem_singleton.mpr after
  | split l' answer other another =>
      exact List.forall_mem_cons.mpr ⟨after.1, List.forall_mem_singleton.mpr after.2⟩
  | gone l' => exact List.forall_mem_singleton.mpr after

theorem Sound.step {ret : σ → ℓ → Prop} {crew crew' : Crew Call Answer σ ℓ} {who : Option ℓ}
    (sound : D.Sound post ret crew) (stepped : Step acts outside crew who crew') :
    D.Sound post ret crew' := by
  cases stepped with
  | outside processes changed =>
      refine ⟨fun p member => ?_, sound.apart, fun p member => ?_⟩
      · exact D.outside_placed changed (sound.placed p member)
      · exact (sound.fine p member).relied (D.outside_rely changed)
  | @call s s' own c next outcome before after acted =>
      have here : Process.runs own (.call c next) ∈ before ++ .runs own (.call c next) :: after :=
        List.mem_append_right _ List.mem_cons_self
      have placed : D.Placed s own := sound.placed _ here
      have apart := sound.apart
      rw [List.map_append, List.map_cons, List.pairwise_append, List.pairwise_cons] at apart
      rcases apart with ⟨front, ⟨behind, back⟩, between⟩
      -- what the call does to each of the others
      have others : ∀ p, p ∈ before ∨ p ∈ after → D.Placed s' p.own ∧ D.Rely p.own s s' ∧
          ∀ l' ∈ outcome.owns, D.Apart l' p.own := by
        rintro p (member | member)
        · have known := sound.placed p (List.mem_append_left _ member)
          exact D.other placed acted known
            (D.apart_symm (between _ (List.mem_map_of_mem member) own List.mem_cons_self))
        · have known := sound.placed p (List.mem_append_right _ (List.mem_cons_of_mem _ member))
          exact D.other placed acted known (behind _ (List.mem_map_of_mem member))
      rcases D.own_placed placed acted with ⟨placed', split⟩
      have fine := Safe.resumed (sound.fine _ here) placed acted
      refine ⟨fun p member => ?_, ?_, fun p member => ?_⟩
      · rcases List.mem_append.mp member with member | member
        · exact (others p (.inl member)).1
        · rcases List.mem_append.mp member with new | member
          · apply placed'
            rw [← Outcome.resume_owns next]
            exact List.mem_map_of_mem new
          · exact (others p (.inr member)).1
      · rw [List.map_append, List.map_append, Outcome.resume_owns, List.pairwise_append,
          List.pairwise_append]
        refine ⟨front, ⟨split, back, ?_⟩, ?_⟩
        · intro l' new m member
          rcases List.mem_map.mp member with ⟨p, inside, rfl⟩
          exact (others p (.inr inside)).2.2 l' new
        · intro m member l' new
          rcases List.mem_append.mp new with new | old
          · rcases List.mem_map.mp member with ⟨p, inside, rfl⟩
            exact D.apart_symm ((others p (.inl inside)).2.2 l' new)
          · exact between _ member l' (List.mem_cons_of_mem _ old)
      · rcases List.mem_append.mp member with member' | member'
        · have known := sound.fine p (List.mem_append_left _ member')
          exact known.relied (others p (.inl member')).2.1
        · rcases List.mem_append.mp member' with new | member'
          · exact fine p new
          · have known := sound.fine p (List.mem_append_right _ (List.mem_cons_of_mem _ member'))
            exact known.relied (others p (.inr member')).2.1

/-- In every interleaving, a crew that starts with one safe process stays sound. -/
theorem Safe.sound {ret : σ → ℓ → Prop} {code : Code Call Answer Unit}
    {crew : Crew Call Answer σ ℓ} {events : List (Option ℓ)} (placed : D.Placed s l)
    (safe : D.Safe post (fun _ => ret) s l code)
    (run : Runs (Step acts outside) ⟨s, [.runs l code]⟩ events crew) : D.Sound post ret crew :=
  run.keeps ⟨List.forall_mem_singleton.mpr placed, List.pairwise_singleton _ _,
    List.forall_mem_singleton.mpr safe⟩ fun sound stepped => sound.step stepped

/-- A process that is over has reached what was to be shown of it. -/
theorem Sound.gone {ret : σ → ℓ → Prop} {crew : Crew Call Answer σ ℓ}
    (sound : D.Sound post ret crew) (member : .gone l ∈ crew.processes) : post crew.shared l :=
  sound.fine _ member _ (D.rely_refl l crew.shared)

/-- So has one whose program returned. -/
theorem Sound.returned {ret : σ → ℓ → Prop} {crew : Crew Call Answer σ ℓ}
    (sound : D.Sound post ret crew) (member : .runs l (.done ()) ∈ crew.processes) :
    ret crew.shared l :=
  sound.fine _ member _ (D.rely_refl l crew.shared)

end Discipline

end Sbrocks.Concurrent
