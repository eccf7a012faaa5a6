/-
Webserv/Theory/ExceptState.lean

Running `EStateM` programs.  The exception monad in which the state survives an
exception is the one C++ member functions live in: what a function has assigned
before it throws stays assigned.  Core has the `run` lemmas of the primitive
operations; here are those of the control structure.
-/
import Mathlib

namespace EStateM

variable {ε σ α β : Type}

@[simp] theorem run_ite {c : Prop} [Decidable c] (x y : EStateM ε σ α) (s : σ) :
    EStateM.run (if c then x else y) s = if c then x.run s else y.run s := by
  split <;> rfl

@[simp] theorem run_throw_any (e : ε) (s : σ) :
    EStateM.run (throw e : EStateM ε σ α) s = .error e s := rfl

@[simp] theorem run_tryCatch_any (x : EStateM ε σ α) (h : ε → EStateM ε σ α) (s : σ) :
    EStateM.run (tryCatch x h) s =
      match x.run s with
      | .ok a s => .ok a s
      | .error e s => (h e).run s := by
  show EStateM.tryCatch x h s = _
  unfold EStateM.tryCatch EStateM.run
  cases x s <;> rfl

/-- The error or the final state, as a caller sees them who ignores the value. -/
def Result.toExcept : EStateM.Result ε σ α → Except ε σ
  | .ok _ s => .ok s
  | .error e _ => .error e

/-- The state in either case. -/
def Result.state : EStateM.Result ε σ α → σ
  | .ok _ s => s
  | .error _ s => s

@[simp] theorem Result.toExcept_ok (a : α) (s : σ) :
    (Result.ok a s : EStateM.Result ε σ α).toExcept = .ok s := rfl

@[simp] theorem Result.toExcept_error (e : ε) (s : σ) :
    (Result.error e s : EStateM.Result ε σ α).toExcept = .error e := rfl

@[simp] theorem Result.state_ok (a : α) (s : σ) :
    (Result.ok a s : EStateM.Result ε σ α).state = s := rfl

@[simp] theorem Result.state_error (e : ε) (s : σ) :
    (Result.error e s : EStateM.Result ε σ α).state = s := rfl

/-- The program has returned, in a state with `P`. -/
def Result.Returned (P : σ → Prop) (r : EStateM.Result ε σ α) : Prop :=
  ∃ a s, r = .ok a s ∧ P s

instance {P : σ → Prop} [DecidablePred P] :
    ∀ r : EStateM.Result ε σ α, Decidable (r.Returned P)
  | .ok a s =>
      decidable_of_iff (P s) ⟨fun h => ⟨a, s, rfl, h⟩, fun ⟨_, _, heq, h⟩ => by cases heq; exact h⟩
  | .error _ _ => isFalse fun ⟨_, _, heq, _⟩ => by cases heq

/-- The program has thrown an exception with `P`. -/
def Result.Threw (P : ε → Prop) (r : EStateM.Result ε σ α) : Prop :=
  ∃ e s, r = .error e s ∧ P e

instance {P : ε → Prop} [DecidablePred P] : ∀ r : EStateM.Result ε σ α, Decidable (r.Threw P)
  | .ok _ _ => isFalse fun ⟨_, _, heq, _⟩ => by cases heq
  | .error e s =>
      decidable_of_iff (P e) ⟨fun h => ⟨e, s, rfl, h⟩, fun ⟨_, _, heq, h⟩ => by cases heq; exact h⟩

/-- Change the value and the state. -/
def Result.bimap {τ β : Type} (f : α → β) (g : σ → τ) :
    EStateM.Result ε σ α → EStateM.Result ε τ β
  | .ok a s => .ok (f a) (g s)
  | .error e s => .error e (g s)

@[simp] theorem Result.bimap_ok {τ β : Type} (f : α → β) (g : σ → τ) (a : α) (s : σ) :
    (Result.ok a s : EStateM.Result ε σ α).bimap f g = .ok (f a) (g s) := rfl

@[simp] theorem Result.bimap_error {τ β : Type} (f : α → β) (g : σ → τ) (e : ε) (s : σ) :
    (Result.error e s : EStateM.Result ε σ α).bimap f g = .error e (g s) := rfl

/-! ### Triples -/

/-- From a state in `P`, the program ends in `Q` with its value, or in `E` with its
exception. -/
def Triple (P : σ → Prop) (x : EStateM ε σ α) (Q : α → σ → Prop) (E : ε → σ → Prop) : Prop :=
  ∀ s, P s →
    match x.run s with
    | .ok a t => Q a t
    | .error e t => E e t

variable {P P' M : σ → Prop} {Q Q' : α → σ → Prop} {E E' : ε → σ → Prop}
variable {x : EStateM ε σ α} {R : β → σ → Prop} {k : α → EStateM ε σ β}

theorem Triple.of_ok (h : Triple P x Q E) {s t : σ} {a : α} (hs : P s) (hx : x.run s = .ok a t) :
    Q a t := by
  have hres := h s hs
  rwa [hx] at hres

theorem Triple.of_error (h : Triple P x Q E) {s t : σ} {e : ε} (hs : P s)
    (hx : x.run s = .error e t) : E e t := by
  have hres := h s hs
  rwa [hx] at hres

theorem Triple.imp (h : Triple P x Q E) (hP : ∀ s, P' s → P s) (hQ : ∀ a s, Q a s → Q' a s)
    (hE : ∀ e s, E e s → E' e s) : Triple P' x Q' E' := by
  intro s hs
  have hres := h s (hP s hs)
  rcases hx : x.run s with ⟨a, t⟩ | ⟨e, t⟩
  · rw [hx] at hres
    exact hQ a t hres
  · rw [hx] at hres
    exact hE e t hres

/-- What two triples say, together. -/
theorem Triple.both (h : Triple P x Q E) (h' : Triple P' x Q' E') :
    Triple (fun s => P s ∧ P' s) x (fun a s => Q a s ∧ Q' a s) fun e s => E e s ∧ E' e s := by
  rintro s ⟨hs, hs'⟩
  have hres := h s hs
  have hres' := h' s hs'
  rcases hx : x.run s with ⟨a, t⟩ | ⟨e, t⟩
  · rw [hx] at hres hres'
    exact ⟨hres, hres'⟩
  · rw [hx] at hres hres'
    exact ⟨hres, hres'⟩

theorem Triple.and (h : Triple P x Q E) (h' : Triple P x Q' E') :
    Triple P x (fun a s => Q a s ∧ Q' a s) fun e s => E e s ∧ E' e s :=
  (h.both h').imp (fun _ hs => ⟨hs, hs⟩) (fun _ _ h => h) fun _ _ h => h

theorem Triple.pure {a : α} (h : ∀ s, P s → Q a s) : Triple P (pure a : EStateM ε σ α) Q E :=
  fun s hs => h s hs

theorem Triple.throw {e : ε} (h : ∀ s, P s → E e s) : Triple P (throw e : EStateM ε σ α) Q E :=
  fun s hs => h s hs

theorem Triple.update {Q : PUnit → σ → Prop} {f : σ → σ} (h : ∀ s, P s → Q ⟨⟩ (f s)) :
    Triple P (modify f : EStateM ε σ PUnit) Q E := fun s hs => h s hs

/-- **Sequencing.** -/
theorem Triple.bind (hx : Triple P x Q E) (hk : ∀ a, Triple (Q a) (k a) R E) :
    Triple P (x >>= k) R E := by
  intro s hs
  have hres := hx s hs
  rw [EStateM.run_bind]
  rcases h : x.run s with ⟨a, t⟩ | ⟨e, t⟩
  · rw [h] at hres
    exact hk a t hres
  · rw [h] at hres
    exact hres

theorem Triple.pure_bind {a : α} (hk : Triple P (k a) R E) :
    Triple P ((Pure.pure a : EStateM ε σ α) >>= k) R E := fun s hs => hk s hs

theorem Triple.throw_bind {e : ε} (h : ∀ s, P s → E e s) :
    Triple P ((MonadExcept.throw e : EStateM ε σ α) >>= k) R E := fun s hs => h s hs

/-- Behind `get` the state is known. -/
theorem Triple.get_bind {k : σ → EStateM ε σ β} (hk : ∀ s, P s → Triple (· = s) (k s) R E) :
    Triple P (get >>= k) R E := fun s hs => hk s hs s rfl

theorem Triple.update_bind {f : σ → σ} {k : PUnit → EStateM ε σ β}
    (hk : Triple M (k ⟨⟩) R E) (hf : ∀ s, P s → M (f s)) :
    Triple P ((modify f : EStateM ε σ PUnit) >>= k) R E := fun s hs => hk (f s) (hf s hs)

theorem Triple.ite {c : Prop} [Decidable c] {y : EStateM ε σ α} (hx : c → Triple P x Q E)
    (hy : ¬ c → Triple P y Q E) : Triple P (if c then x else y) Q E := by
  split
  · exact hx ‹c›
  · exact hy ‹¬ c›

/-- What a handler catches it may turn into another exception. -/
theorem Triple.tryCatch {h : ε → EStateM ε σ α} {E' : ε → σ → Prop} (hx : Triple P x Q E)
    (hh : ∀ e, Triple (E e) (h e) Q E') : Triple P (tryCatch x h) Q E' := by
  intro s hs
  have hres := hx s hs
  rw [run_tryCatch_any]
  rcases hrun : x.run s with ⟨a, t⟩ | ⟨e, t⟩
  · rw [hrun] at hres
    exact hres
  · rw [hrun] at hres
    exact hh e t hres

end EStateM
