/-
Webserv/Theory/Loops.lean

Loops without a counter.

A `while (true)` calls its round again with what the round before has left, until a round leaves
the loop or throws (`Loop.Ends`).  Where every round that goes on lowers a measure, the loop ends
from every state, after at most one round more than the measure.  A function that recurses on
fuel and does a round for each unit of it (`Loop.Implements`) then computes what the loop does,
with whatever fuel exceeds the measure.

What all rounds do to the state, the loop does (`Steps`): a preorder between the state before and
the state behind, and a set of exceptions.
-/
import Webserv.Theory.ExceptState

namespace EStateM

variable {ε σ α β : Type}

/-! ### What a program does to the state -/

/-- From `s`, `x` leads to a state that is related to `s`, and throws nothing but `E`. -/
def StepsFrom (R : σ → σ → Prop) (E : ε → Prop) (s : σ) (x : EStateM ε σ α) : Prop :=
  R s (x.run s).state ∧ ∀ e t, x.run s = .error e t → E e

/-- `StepsFrom` every state. -/
def Steps (R : σ → σ → Prop) (E : ε → Prop) (x : EStateM ε σ α) : Prop :=
  ∀ s, StepsFrom R E s x

variable {R : σ → σ → Prop} {E : ε → Prop} {x y : EStateM ε σ α} {k : α → EStateM ε σ β}

theorem StepsFrom.bind [IsTrans σ R] {s : σ} (hx : StepsFrom R E s x)
    (hk : ∀ a, Steps R E (k a)) : StepsFrom R E s (x >>= k) := by
  obtain ⟨hstate, hthrown⟩ := hx
  rw [StepsFrom, EStateM.run_bind]
  rcases h : x.run s with ⟨a, t⟩ | ⟨e, t⟩
  · rw [h] at hstate
    exact ⟨trans_of R hstate (hk a t).1, (hk a t).2⟩
  · rw [h] at hstate
    refine ⟨hstate, fun e' t' heq => ?_⟩
    cases heq
    exact hthrown e t h

namespace Steps

theorem bind [IsTrans σ R] (hx : Steps R E x) (hk : ∀ a, Steps R E (k a)) :
    Steps R E (x >>= k) := fun s => (hx s).bind hk

/-- A continuation that depends on the state it is called in. -/
theorem get_bind {k : σ → EStateM ε σ β} (hk : ∀ s, StepsFrom R E s (k s)) :
    Steps R E (get >>= k) := hk

theorem tryCatch [IsTrans σ R] {E' : ε → Prop} {h : ε → EStateM ε σ α} (hx : Steps R E x)
    (hh : ∀ e, E e → Steps R E' (h e)) : Steps R E' (tryCatch x h) := by
  intro s
  obtain ⟨hstate, hthrown⟩ := hx s
  rw [StepsFrom, run_tryCatch_any]
  rcases hrun : x.run s with ⟨a, t⟩ | ⟨e, t⟩
  · rw [hrun] at hstate
    exact ⟨hstate, nofun⟩
  · rw [hrun] at hstate
    obtain ⟨hstate', hthrown'⟩ := hh e (hthrown e t hrun) t
    exact ⟨trans_of R hstate hstate', hthrown'⟩

theorem ite {c : Prop} [Decidable c] (hx : Steps R E x) (hy : Steps R E y) :
    Steps R E (if c then x else y) := by
  split
  · exact hx
  · exact hy

theorem modify {f : σ → σ} (hf : ∀ s, R s (f s)) :
    Steps R E (modify f : EStateM ε σ PUnit) := fun s => ⟨hf s, nofun⟩

variable [Std.Refl R]

theorem pure (a : α) : Steps R E (pure a : EStateM ε σ α) := fun s => ⟨refl_of R s, nofun⟩

theorem get : Steps R E (get : EStateM ε σ σ) := fun s => ⟨refl_of R s, nofun⟩

theorem throw {e : ε} (he : E e) : Steps R E (throw e : EStateM ε σ α) := by
  refine fun s => ⟨refl_of R s, fun e' t h => ?_⟩
  cases h
  exact he

end Steps

/-! ### Loops -/

namespace Loop

/-- The loop over `round`, started with `a` in `s`, ends with `r` after `n` rounds. -/
inductive Ends (round : α → EStateM ε σ (α ⊕ β)) : Nat → α → σ → Result ε σ β → Prop
  | leave {a : α} {s t : σ} {b : β} (h : (round a).run s = .ok (.inr b) t) :
      Ends round 1 a s (.ok b t)
  | throw {a : α} {s t : σ} {e : ε} (h : (round a).run s = .error e t) :
      Ends round 1 a s (.error e t)
  | again {n : Nat} {a a' : α} {s t : σ} {r : Result ε σ β}
      (h : (round a).run s = .ok (.inl a') t) (hends : Ends round n a' t r) :
      Ends round (n + 1) a s r

/-- `loop` does a round for each unit of its fuel. -/
def Implements (loop : Nat → α → EStateM ε σ β) (round : α → EStateM ε σ (α ⊕ β)) : Prop :=
  ∀ n a s, (loop (n + 1) a).run s =
    match (round a).run s with
    | .ok (.inl a') t => (loop n a').run t
    | .ok (.inr b) t => .ok b t
    | .error e t => .error e t

variable {round : α → EStateM ε σ (α ⊕ β)} {loop : Nat → α → EStateM ε σ β}

/-- **A loop whose rounds lower a measure ends.** -/
theorem exists_ends (μ : α → σ → Nat)
    (hlower : ∀ a s a' t, (round a).run s = .ok (.inl a') t → μ a' t < μ a s) (a : α) (s : σ) :
    ∃ n r, n ≤ μ a s + 1 ∧ Ends round n a s r := by
  induction hm : μ a s using Nat.strong_induction_on generalizing a s with
  | _ m ih =>
      subst hm
      rcases h : (round a).run s with ⟨a' | b, t⟩ | ⟨e, t⟩
      · have hlt := hlower a s a' t h
        obtain ⟨n, r, hn, hends⟩ := ih _ hlt a' t rfl
        exact ⟨n + 1, r, by omega, .again h hends⟩
      · exact ⟨1, .ok b t, by omega, .leave h⟩
      · exact ⟨1, .error e t, by omega, .throw h⟩

/-- Fuel for all rounds is fuel enough. -/
theorem Ends.run_eq (hloop : Implements loop round) {n m : Nat} {a : α} {s : σ} {r : Result ε σ β}
    (h : Ends round n a s r) (hm : n ≤ m) : (loop m a).run s = r := by
  induction h generalizing m with
  | leave h =>
      obtain ⟨m, rfl⟩ := Nat.exists_eq_add_of_le' hm
      rw [hloop, h]
  | throw h =>
      obtain ⟨m, rfl⟩ := Nat.exists_eq_add_of_le' hm
      rw [hloop, h]
  | @again n a a' s t r h hends ih =>
      obtain ⟨m, rfl⟩ := Nat.exists_eq_add_of_le' (Nat.le_of_add_left_le hm)
      rw [hloop, h]
      exact ih (Nat.le_of_add_le_add_right hm)

/-- What every round does, the loop does. -/
theorem Ends.steps [IsTrans σ R] (hround : ∀ a, Steps R E (round a)) {n : Nat} {a : α} {s : σ}
    {r : Result ε σ β} (h : Ends round n a s r) : R s r.state ∧ ∀ e t, r = .error e t → E e := by
  induction h with
  | @leave a s t b h =>
      have hstate := (hround a s).1
      rw [h] at hstate
      exact ⟨hstate, nofun⟩
  | @throw a s t e h =>
      have hsteps := hround a s
      rw [StepsFrom, h] at hsteps
      refine ⟨hsteps.1, fun e' t' heq => ?_⟩
      cases heq
      exact hsteps.2 e t rfl
  | @again n a a' s t r h hends ih =>
      have hstate := (hround a s).1
      rw [h] at hstate
      exact ⟨trans_of R hstate ih.1, ih.2⟩

/-- **The rule of the loop**, for a function on fuel. -/
theorem Implements.steps [IsTrans σ R] (hloop : Implements loop round)
    (hround : ∀ a, Steps R E (round a)) (μ : α → σ → Nat)
    (hlower : ∀ a s a' t, (round a).run s = .ok (.inl a') t → μ a' t < μ a s) {m : Nat} {a : α}
    {s : σ} (hm : μ a s < m) : StepsFrom R E s (loop m a) := by
  obtain ⟨n, r, hn, hends⟩ := exists_ends μ hlower a s
  rw [StepsFrom, hends.run_eq hloop (by omega)]
  exact hends.steps hround

end Loop

end EStateM
