import Mathlib.Data.List.Induction
import Mathlib.Tactic.Common

/-!
# Runs of a system, step by step

A system is given by what a step can do: `step e s s'` says that the event `e` may take the state
`s` to `s'`.  Several threads are one system, whose events say which thread has moved; a run is then
one of the ways to interleave them.

* `Run` is a run together with the events in it, and `Run.invariant` the induction over it, where
  the invariant may speak of the past.
* `Run.rank_le`: a rank that goes down bounds how often something happens.
* `Simulation.run`: if every step of a system is some steps of another one, so is every run.
* `Stuck` states are the ones where nothing happens any more by itself.
-/

set_option autoImplicit false

namespace Interleaving

variable {S E T F : Type*} {step : E → S → S → Prop} {start s s' s'' : S} {es es' : List E}

/-! ## Runs -/

/-- The events `es` may lead from `start` to a state. -/
inductive Run (step : E → S → S → Prop) (start : S) : List E → S → Prop
  /-- Nothing has happened yet. -/
  | start : Run step start [] start
  /-- One more event. -/
  | next {es : List E} {e : E} {s s' : S} (run : Run step start es s) (one : step e s s') :
      Run step start (es ++ [e]) s'

/-- **The rule for invariants**: what holds at the start, and is kept by every step behind a run,
holds behind every run. -/
theorem Run.invariant {I : List E → S → Prop} (run : Run step start es s) (hstart : I [] start)
    (hnext : ∀ es e s s', Run step start es s → I es s → step e s s' → I (es ++ [e]) s') :
    I es s := by
  induction run with
  | start => exact hstart
  | next run one ih => exact hnext _ _ _ _ run ih one

/-- An invariant of the state that every step keeps is kept by every run. -/
theorem Run.keeps {I : S → Prop} (run : Run step start es s) (hstart : I start)
    (hnext : ∀ e s s', I s → step e s s' → I s') : I s :=
  run.invariant (I := fun _ s ↦ I s) hstart fun _ e s s' _ h one ↦ hnext e s s' h one

theorem Run.one {e : E} (h : step e s s') : Run step s [e] s' := Run.start.next h

theorem Run.append (run : Run step s es s') (run' : Run step s' es' s'') :
    Run step s (es ++ es') s'' := by
  induction run' with
  | start => rwa [List.append_nil]
  | next _ one ih =>
    rw [← List.append_assoc]
    exact ih.next one

theorem run_append_singleton {e : E} :
    Run step s (es ++ [e]) s'' ↔ ∃ s', Run step s es s' ∧ step e s' s'' := by
  constructor
  · intro h
    generalize hes : es ++ [e] = all at h
    cases h with
    | start => simp at hes
    | next run one =>
      obtain ⟨rfl, he⟩ := List.append_inj' hes rfl
      rw [List.singleton_inj.mp he]
      exact ⟨_, run, one⟩
  · rintro ⟨s', run, one⟩
    exact run.next one

/-- A run can be taken apart anywhere. -/
theorem run_append : Run step s (es ++ es') s'' ↔ ∃ s', Run step s es s' ∧ Run step s' es' s'' := by
  constructor
  · intro h
    induction es' using List.reverseRecOn generalizing s'' with
    | nil => exact ⟨s'', by rwa [List.append_nil] at h, .start⟩
    | append_singleton es' e ih =>
      rw [← List.append_assoc, run_append_singleton] at h
      obtain ⟨s₁, run, one⟩ := h
      obtain ⟨s', hleft, hright⟩ := ih run
      exact ⟨s', hleft, hright.next one⟩
  · rintro ⟨s', run, run'⟩
    exact run.append run'

/-! ## Progress -/

/-- **The rule for progress**: if no event raises a rank and those of a kind lower it, then there
are no more events of the kind than the rank at the start allows for. -/
theorem Run.rank_le {I : S → Prop} (run : Run step start es s) (rank : S → ℕ) (kind : E → Bool)
    (hstart : I start)
    (hnext : ∀ e s s', e ∈ es → I s → step e s s' →
      I s' ∧ rank s' + (if kind e then 1 else 0) ≤ rank s) :
    I s ∧ rank s + es.countP kind ≤ rank start := by
  induction run with
  | start => exact ⟨hstart, Nat.le_refl _⟩
  | next run one ih =>
    obtain ⟨hI, hle⟩ := ih fun e s s' he ↦ hnext e s s' (List.mem_append_left _ he)
    obtain ⟨hI', hone⟩ := hnext _ _ _ (List.mem_append_right _ List.mem_cons_self) hI one
    refine ⟨hI', ?_⟩
    rw [List.countP_append, List.countP_singleton]
    omega

/-! ## Simulations -/

/-- Every step of one system is a run of another one, of the events that `view` names. -/
structure Simulation (step : E → S → S → Prop) (spec : F → T → T → Prop) (view : E → List F)
    (R : S → T → Prop) : Prop where
  /-- The other system can follow. -/
  follow : ∀ {e s s' t}, R s t → step e s s' → ∃ t', Run spec t (view e) t' ∧ R s' t'

/-- **The rule for simulations**: the other system can follow every run. -/
theorem Simulation.run {spec : F → T → T → Prop} {view : E → List F} {R : S → T → Prop} {t : T}
    (sim : Simulation step spec view R) (hstart : R start t) (run : Run step start es s) :
    ∃ t', Run spec t (es.flatMap view) t' ∧ R s t' := by
  induction run with
  | start => exact ⟨t, .start, hstart⟩
  | next _ one ih =>
    obtain ⟨t', hrun, hR⟩ := ih
    obtain ⟨t'', hrun', hR'⟩ := sim.follow hR one
    refine ⟨t'', ?_, hR'⟩
    rw [List.flatMap_append, List.flatMap_singleton]
    exact hrun.append hrun'

/-! ## States that are stuck -/

/-- None of the events of a kind can happen. -/
def Stuck (step : E → S → S → Prop) (kind : E → Prop) (s : S) : Prop :=
  ∀ e s', kind e → ¬ step e s s'

end Interleaving
