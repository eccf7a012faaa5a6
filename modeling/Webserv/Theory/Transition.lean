/-
Webserv/Theory/Transition.lean

Labelled transition systems given by a partial step function.

The label of a step holds what the environment contributes to it.  `Reachable` asks
every step of a run for a condition on the state and the label, so a result for the runs
whose steps all meet a condition is one about the states reachable under it.
-/
import Mathlib.Logic.Basic
import Mathlib.Data.Option.Basic

namespace Transition

variable {σ ι : Type*}

/-- The states reached from a state in `init` by steps that all meet `P`. -/
inductive Reachable (step : σ → ι → Option σ) (P : σ → ι → Prop) (init : σ → Prop) : σ → Prop
  | start {s : σ} (h : init s) : Reachable step P init s
  | next {s t : σ} {l : ι} (h : Reachable step P init s) (hl : P s l) (hst : step s l = some t) :
      Reachable step P init t

variable {step : σ → ι → Option σ} {P : σ → ι → Prop} {init : σ → Prop}

/-- **The rule of invariants.** -/
theorem Reachable.invariant {I : σ → Prop} {s : σ} (h : Reachable step P init s)
    (hinit : ∀ s, init s → I s)
    (hstep : ∀ s l t, I s → P s l → step s l = some t → I t) : I s := by
  induction h with
  | start h => exact hinit _ h
  | next _ hl hst ih => exact hstep _ _ _ ih hl hst

/-- An invariant may use one that is known already. -/
theorem Reachable.invariant_under {I J : σ → Prop} {s : σ} (h : Reachable step P init s)
    (hJ : ∀ s, Reachable step P init s → J s) (hinit : ∀ s, init s → I s)
    (hstep : ∀ s l t, J s → J t → I s → P s l → step s l = some t → I t) : I s := by
  induction h with
  | start h => exact hinit _ h
  | next h hl hst ih => exact hstep _ _ _ (hJ _ h) (hJ _ (.next h hl hst)) ih hl hst

theorem Reachable.imp {Q : σ → ι → Prop} {s : σ} (h : Reachable step P init s)
    (himp : ∀ s l, P s l → Q s l) : Reachable step Q init s := by
  induction h with
  | start h => exact .start h
  | next _ hl hst ih => exact .next ih (himp _ _ hl) hst

/-- A run that goes on from where another one has come to. -/
theorem Reachable.later {Q : σ → ι → Prop} {s t : σ} (h : Reachable step P init s)
    (hlater : Reachable step Q (· = s) t) (himp : ∀ s l, Q s l → P s l) : Reachable step P init t := by
  induction hlater with
  | start heq => exact heq ▸ h
  | next _ hl hst ih => exact .next ih (himp _ _ hl) hst

/-! ### Runs that are given -/

/-- The steps with these labels, one after the other. -/
def run (step : σ → ι → Option σ) : σ → List ι → Option σ
  | s, [] => some s
  | s, l :: ls => (step s l).bind fun t => run step t ls

/-- Every step of a given run meets a condition. -/
def Along (step : σ → ι → Option σ) (C : σ → ι → Prop) : σ → List ι → Prop
  | _, [] => True
  | s, l :: ls => C s l ∧ ∀ t ∈ step s l, Along step C t ls

instance decidableAlong {C : σ → ι → Prop} [∀ s l, Decidable (C s l)] :
    ∀ s ls, Decidable (Along step C s ls)
  | _, [] => .isTrue trivial
  | s, l :: ls =>
      haveI : DecidablePred fun t => Along step C t ls := fun t => decidableAlong t ls
      inferInstanceAs (Decidable (C s l ∧ ∀ t ∈ step s l, Along step C t ls))

/-- What a given run reaches is reachable, if its steps meet the condition. -/
theorem Reachable.run_along {s t : σ} {ls : List ι} (h : Reachable step P init s)
    (hP : Along step P s ls) (hrun : run step s ls = some t) : Reachable step P init t := by
  induction ls generalizing s with
  | nil =>
      cases hrun
      exact h
  | cons l ls ih =>
      obtain ⟨u, hu, hrest⟩ := Option.bind_eq_some_iff.mp hrun
      exact ih (.next h hP.1 hu) (hP.2 u hu) hrest

theorem along_true (step : σ → ι → Option σ) (s : σ) (ls : List ι) :
    Along step (fun _ _ => True) s ls := by
  induction ls generalizing s with
  | nil => exact trivial
  | cons l ls ih => exact ⟨trivial, fun t _ => ih t⟩

/-- What a given run reaches is reachable. -/
theorem Reachable.run {s t : σ} {ls : List ι} (h : Reachable step (fun _ _ => True) init s)
    (hrun : run step s ls = some t) : Reachable step (fun _ _ => True) init t :=
  h.run_along (along_true step s ls) hrun

/-- **A property that a step may only lose**, and loses exactly if it does not meet `P`, holds
behind a run exactly if every step meets `P`. -/
theorem run_iff {C : σ → ι → Prop} {J Q : σ → Prop} {s t : σ} {ls : List ι} (hJ : J s)
    (hrun : run step s ls = some t) (hC : Along step C s ls)
    (hstep : ∀ s l t, J s → C s l → step s l = some t → J t ∧ (Q t ↔ Q s ∧ P s l)) :
    Q t ↔ Q s ∧ Along step P s ls := by
  induction ls generalizing s with
  | nil =>
      cases hrun
      exact (and_iff_left trivial).symm
  | cons l ls ih =>
      obtain ⟨u, hu, hrest⟩ := Option.bind_eq_some_iff.mp hrun
      obtain ⟨hJu, hQ⟩ := hstep s l u hJ hC.1 hu
      rw [ih hJu hrest (hC.2 u hu), hQ, and_assoc]
      refine and_congr_right fun _ => and_congr_right fun _ => ?_
      constructor
      · intro hall v hv
        have : some u = some v := hu.symm.trans hv
        cases this
        exact hall
      · exact fun hall => hall u hu

end Transition
