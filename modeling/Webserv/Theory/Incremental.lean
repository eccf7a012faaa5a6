/-
Webserv/Theory/Incremental.lean

Incremental consumers: a deterministic step function over a state that holds the
input received so far, together with an operation `extend` that appends input.

A step either makes progress, waits for more input, finishes, or fails.  The two
laws asked of a consumer say that progress and failure are *stable*: what a step
does with the input it has, it does with more input too.  Nothing is asked of
waiting (more input may change that) nor of finishing (more input may be in
excess).  From the laws follows that a run can be interrupted wherever it waits
(`Runs.extend_waiting`), hence that the result does not depend on how the input
is cut into pieces (`forM_push_eq`), as long as no piece follows the one that
finishes.

The laws are only asked of `Sound` states.
-/
import Webserv.Theory.ExceptState

namespace Incremental

variable {σ α ε : Type}

/-- What one step does with the input it has. -/
inductive Move (σ ε : Type)
  | next (s : σ)
  | wait
  | done (s : σ)
  | fail (e : ε) (s : σ)

/-- How a run ends. -/
inductive Outcome (σ ε : Type)
  | waiting (s : σ)
  | finished (s : σ)
  | failed (e : ε) (s : σ)

/-- What a caller sees. -/
def Outcome.result : Outcome σ ε → EStateM.Result ε σ Unit
  | .waiting s => .ok () s
  | .finished s => .ok () s
  | .failed e s => .error e s

/-- An incremental consumer of a stream of `α`. -/
structure Consumer (σ α ε : Type) where
  step : σ → Move σ ε
  extend : σ → List α → σ
  Sound : σ → Prop
  extend_nil : ∀ s, extend s [] = s
  extend_append : ∀ s xs ys, extend (extend s xs) ys = extend s (xs ++ ys)
  sound_of_append : ∀ {s xs ys}, Sound s → Sound (extend s (xs ++ ys)) → Sound (extend s xs)
  sound_next : ∀ {s t}, Sound s → step s = .next t → Sound t
  step_next : ∀ {s t xs}, Sound s → Sound (extend s xs) → step s = .next t →
    step (extend s xs) = .next (extend t xs)
  step_fail : ∀ {s e t xs}, Sound s → Sound (extend s xs) → step s = .fail e t →
    step (extend s xs) = .fail e (extend t xs)

/-- `Runs C s o`: stepping from `s` ends with `o`. -/
inductive Runs (C : Consumer σ α ε) : σ → Outcome σ ε → Prop
  | wait {s} : C.step s = .wait → Runs C s (.waiting s)
  | done {s t} : C.step s = .done t → Runs C s (.finished t)
  | fail {s e t} : C.step s = .fail e t → Runs C s (.failed e t)
  | next {s t o} : C.step s = .next t → Runs C t o → Runs C s o

variable {C : Consumer σ α ε}

/-! ### Runs -/

theorem Runs.of_next {s t : σ} {o : Outcome σ ε} (hst : C.step s = .next t)
    (h : Runs C s o) : Runs C t o := by
  cases h with
  | wait h => rw [h] at hst; cases hst
  | done h => rw [h] at hst; cases hst
  | fail h => rw [h] at hst; cases hst
  | next h hrest => rw [h] at hst; cases hst; exact hrest

theorem Runs.det {s : σ} {o o' : Outcome σ ε} (h : Runs C s o) (h' : Runs C s o') :
    o = o' := by
  induction h with
  | wait h =>
      cases h' with
      | wait => rfl
      | done h' => rw [h] at h'; cases h'
      | fail h' => rw [h] at h'; cases h'
      | next h' => rw [h] at h'; cases h'
  | done h =>
      cases h' with
      | wait h' => rw [h] at h'; cases h'
      | done h' => rw [h] at h'; cases h'; rfl
      | fail h' => rw [h] at h'; cases h'
      | next h' => rw [h] at h'; cases h'
  | fail h =>
      cases h' with
      | wait h' => rw [h] at h'; cases h'
      | done h' => rw [h] at h'; cases h'
      | fail h' => rw [h] at h'; cases h'; rfl
      | next h' => rw [h] at h'; cases h'
  | next h _ ih => exact ih (h'.of_next h)

/-- **A failure stays one** when more input follows. -/
theorem Runs.extend_failed {s t : σ} {e : ε} {xs : List α} (hs : C.Sound s)
    (hx : C.Sound (C.extend s xs)) (h : Runs C s (.failed e t)) :
    Runs C (C.extend s xs) (.failed e (C.extend t xs)) := by
  generalize ho : Outcome.failed e t = o at h
  induction h with
  | wait => cases ho
  | done => cases ho
  | fail h => cases ho; exact .fail (C.step_fail hs hx h)
  | next h _ ih =>
      have hnext := C.step_next hs hx h
      exact .next hnext (ih (C.sound_next hs h) (C.sound_next hx hnext) ho)

/-- **A waiting run can be resumed**: from where it waits, more input leads to
what it would have led to from the start. -/
theorem Runs.extend_waiting {s t : σ} {xs : List α} {o : Outcome σ ε} (hs : C.Sound s)
    (hx : C.Sound (C.extend s xs)) (h : Runs C s (.waiting t)) :
    Runs C (C.extend s xs) o ↔ Runs C (C.extend t xs) o := by
  generalize ho : Outcome.waiting (ε := ε) t = o' at h
  induction h with
  | wait => cases ho; exact Iff.rfl
  | done => cases ho
  | fail => cases ho
  | next h _ ih =>
      have hnext := C.step_next hs hx h
      have ih := ih (C.sound_next hs h) (C.sound_next hx hnext) ho
      exact ⟨fun hr => ih.mp (hr.of_next hnext), fun hr => .next hnext (ih.mpr hr)⟩

/-- Where a sound run waits is sound, also with the input that follows. -/
theorem Runs.sound_waiting {s t : σ} {xs : List α} (hs : C.Sound s)
    (hx : C.Sound (C.extend s xs)) (h : Runs C s (.waiting t)) :
    C.Sound t ∧ C.Sound (C.extend t xs) := by
  generalize ho : Outcome.waiting (ε := ε) t = o at h
  induction h with
  | wait => cases ho; exact ⟨hs, hx⟩
  | done => cases ho
  | fail => cases ho
  | next h _ ih =>
      exact ih (C.sound_next hs h) (C.sound_next hx (C.step_next hs hx h)) ho

/-- **Input behind the end.**  If the states the run passes through are in `P`, and
what finishes there ends in `Q` with more input, then so does the whole run. -/
theorem Runs.extend_finished {P : σ → Prop} {Q : Outcome σ ε → Prop} {s t : σ} {xs : List α}
    (hs : C.Sound s) (hx : C.Sound (C.extend s xs)) (h : Runs C s (.finished t)) (hP : P s)
    (hnext : ∀ s t, P s → C.step s = .next t → P t)
    (hdone : ∀ s t, C.Sound s → P s → C.step s = .done t → ∃ o, Q o ∧ Runs C (C.extend s xs) o) :
    ∃ o, Q o ∧ Runs C (C.extend s xs) o := by
  generalize ho : Outcome.finished (ε := ε) t = o at h
  induction h with
  | wait => cases ho
  | done h => exact hdone _ _ hs hP h
  | fail => cases ho
  | next h _ ih =>
      have hstep := C.step_next hs hx h
      obtain ⟨o, hQ, hrest⟩ := ih (C.sound_next hs h) (C.sound_next hx hstep) (hnext _ _ hP h) ho
      exact ⟨o, hQ, .next hstep hrest⟩

/-- **Invariants.**  What every step keeps, whatever it does, holds of the state
a run ends in. -/
theorem Runs.invariant {P : σ → Prop} {s : σ} {o : Outcome σ ε} (h : Runs C s o)
    (hs : P s) (hnext : ∀ s t, P s → C.step s = .next t → P t)
    (hdone : ∀ s t, P s → C.step s = .done t → P t)
    (hfail : ∀ s e t, P s → C.step s = .fail e t → P t) : P o.result.state := by
  induction h with
  | wait => exact hs
  | done h => exact hdone _ _ hs h
  | fail h => exact hfail _ _ _ hs h
  | next h _ ih => exact ih (hnext _ _ hs h)

/-- **Transport.**  As long as `P` holds, `C` and `C'` make the same moves. -/
theorem Runs.congr {C' : Consumer σ α ε} {P : σ → Prop} {s : σ} {o : Outcome σ ε}
    (h : Runs C s o) (hs : P s) (hstep : ∀ s, P s → C'.step s = C.step s)
    (hnext : ∀ s t, P s → C.step s = .next t → P t) : Runs C' s o := by
  induction h with
  | wait h => exact .wait ((hstep _ hs).trans h)
  | done h => exact .done ((hstep _ hs).trans h)
  | fail h => exact .fail ((hstep _ hs).trans h)
  | next h _ ih => exact .next ((hstep _ hs).trans h) (ih (hnext _ _ hs h))

/-! ### Feeding pieces -/

/-- `push` appends a piece and runs the steps of `C`. -/
def Implements (C : Consumer σ α ε) (push : List α → EStateM ε σ Unit) : Prop :=
  ∀ s xs, C.Sound s → C.Sound (C.extend s xs) →
    ∃ o, Runs C (C.extend s xs) o ∧ (push xs).run s = o.result

theorem Implements.run_eq {push : List α → EStateM ε σ Unit} (h : Implements C push)
    {s : σ} {xs : List α} (hs : C.Sound s) (hx : C.Sound (C.extend s xs))
    {o : Outcome σ ε} (ho : Runs C (C.extend s xs) o) : (push xs).run s = o.result := by
  obtain ⟨o', ho', hrun⟩ := h s xs hs hx
  rw [hrun, ho.det ho']

theorem forM_append_singleton {push : List α → EStateM ε σ Unit} (ps : List (List α))
    (q : List α) (s : σ) :
    ((ps ++ [q]).forM push).run s =
      match (ps.forM push).run s with
      | .ok _ t => (push q).run t
      | .error e t => .error e t := by
  induction ps generalizing s with
  | nil =>
      show ((push q) >>= fun _ => pure ()).run s = (push q).run s
      rw [EStateM.run_bind]
      cases h : (push q).run s <;> rfl
  | cons p ps ih =>
      show (push p >>= fun _ => (ps ++ [q]).forM push).run s = _
      rw [EStateM.run_bind]
      show _ = match (push p >>= fun _ => ps.forM push).run s with
        | .ok _ t => (push q).run t
        | .error e t => .error e t
      rw [EStateM.run_bind]
      rcases (push p).run s with ⟨-, t⟩ | ⟨e, t⟩
      · exact ih t
      · rfl

/-- **Segmentation independence.**  From a sound state that waits, pushing pieces
one after the other, up to the first error, gives what pushing their
concatenation gives, provided no piece is pushed after the consumer has finished. -/
theorem forM_push_eq {push : List α → EStateM ε σ Unit} (himp : Implements C push) {s : σ}
    (hs : C.Sound s) (hwait : C.step s = .wait) (pieces : List (List α))
    (hx : C.Sound (C.extend s pieces.flatten))
    (hlast : ∀ ps q qs, pieces = ps ++ q :: qs →
      ∀ t, ¬ Runs C (C.extend s ps.flatten) (.finished t)) :
    ((pieces.forM push).run s).toExcept = ((push pieces.flatten).run s).toExcept := by
  induction pieces using List.reverseRecOn with
  | nil =>
      have hrun : Runs C (C.extend s []) (.waiting s) := by
        rw [C.extend_nil]; exact .wait hwait
      rw [List.flatten_nil] at hx ⊢
      rw [himp.run_eq hs hx hrun]
      rfl
  | append_singleton ps q ih =>
      have hflat : (ps ++ [q]).flatten = ps.flatten ++ q := by simp
      rw [hflat] at hx ⊢
      have hps : C.Sound (C.extend s ps.flatten) := C.sound_of_append hs hx
      have ih := ih hps fun as b bs heq => hlast as b (bs ++ [q]) (by rw [heq]; simp)
      obtain ⟨o, hruns, hrun⟩ := himp s ps.flatten hs hps
      have hx' : C.Sound (C.extend (C.extend s ps.flatten) q) := by rwa [C.extend_append]
      rw [forM_append_singleton]
      rw [hrun] at ih
      cases o with
      | finished t => exact absurd hruns (hlast ps q [] rfl t)
      | failed e t =>
          -- the error has occurred before `q` is reached, and does not depend on it
          have hfail := hruns.extend_failed hps hx'
          rw [C.extend_append] at hfail
          rw [himp.run_eq hs hx hfail]
          rcases hf : (ps.forM push).run s with ⟨u, t'⟩ | ⟨e', t'⟩
          · rw [hf] at ih; cases ih
          · rw [hf] at ih; cases ih; rfl
      | waiting t =>
          obtain ⟨ht, htx⟩ := hruns.sound_waiting hps hx'
          obtain ⟨o', hruns', hrun'⟩ := himp t q ht htx
          have hall := (hruns.extend_waiting hps hx').mpr hruns'
          rw [C.extend_append] at hall
          rw [himp.run_eq hs hx hall, ← hrun']
          rcases hf : (ps.forM push).run s with ⟨u, t'⟩ | ⟨e', t'⟩
          · rw [hf] at ih; cases ih; rfl
          · rw [hf] at ih; cases ih

/-- What feeding pieces gives, from how the run on all of them ends. -/
def Feeds (E : ε → Prop) (o : Outcome σ ε) (r : EStateM.Result ε σ Unit) : Prop :=
  match o with
  | .waiting t => r = .ok () t
  | .finished t => r = .ok () t ∨ ∃ e u, r = .error e u ∧ E e
  | .failed _ _ => ∃ e u, r = .error e u ∧ E e

/-- **Feeding a consumer that refuses input in excess.**  However the input is cut into
pieces, they are taken if the run on all of it waits, and refused if that run fails. -/
theorem forM_push_feeds {push : List α → EStateM ε σ Unit} (himp : Implements C push) {s : σ}
    {E : ε → Prop} (hs : C.Sound s) (hwait : C.step s = .wait)
    (hE : ∀ {xs e t}, Runs C (C.extend s xs) (.failed e t) → E e)
    (hexcess : ∀ {xs ys t}, C.Sound (C.extend s (xs ++ ys)) → ys ≠ [] →
      Runs C (C.extend s xs) (.finished t) → ∃ e u, Runs C (C.extend s (xs ++ ys)) (.failed e u))
    (hclosed : ∀ {xs ys t}, C.Sound (C.extend s (xs ++ ys)) →
      Runs C (C.extend s xs) (.finished t) → ∃ e u, (push ys).run t = .error e u ∧ E e)
    (pieces : List (List α)) (hx : C.Sound (C.extend s pieces.flatten)) {o : Outcome σ ε}
    (ho : Runs C (C.extend s pieces.flatten) o) : Feeds E o ((pieces.forM push).run s) := by
  induction pieces using List.reverseRecOn generalizing o with
  | nil =>
      rw [List.flatten_nil, C.extend_nil] at ho
      rw [ho.det (.wait hwait)]
      rfl
  | append_singleton ps q ih =>
      have hflat : (ps ++ [q]).flatten = ps.flatten ++ q := by simp
      rw [hflat] at hx ho
      have hps : C.Sound (C.extend s ps.flatten) := C.sound_of_append hs hx
      have hx' : C.Sound (C.extend (C.extend s ps.flatten) q) := by rwa [C.extend_append]
      obtain ⟨o', ho', -⟩ := himp s ps.flatten hs hps
      have ih := ih hps ho'
      rw [forM_append_singleton]
      cases o' with
      | waiting t =>
          -- the run goes on where it waits
          obtain ⟨ht, htx⟩ := ho'.sound_waiting hps hx'
          have hgo : Runs C (C.extend t q) o := by
            rw [← C.extend_append] at ho
            exact (ho'.extend_waiting hps hx').mp ho
          rw [show (ps.forM push).run s = .ok () t from ih]
          dsimp only
          rw [himp.run_eq ht htx hgo]
          cases o with
          | waiting u => rfl
          | finished u => exact .inl rfl
          | failed e u => exact ⟨e, u, rfl, hE ho⟩
      | finished t =>
          have herror : ∃ e u, (match (ps.forM push).run s with
              | .ok _ t => (push q).run t
              | .error e t => .error e t) = .error e u ∧ E e := by
            obtain hok | ⟨e, u, herr, he⟩ := ih
            · rw [hok]
              exact hclosed hx ho'
            · rw [herr]
              exact ⟨e, u, rfl, he⟩
          by_cases hq : q = []
          · subst hq
            rw [List.append_nil] at ho
            rw [ho.det ho']
            exact .inr herror
          · obtain ⟨e, u, hfail⟩ := hexcess hx hq ho'
            rw [ho.det hfail]
            exact herror
      | failed e t =>
          have hfail := ho'.extend_failed hps hx'
          rw [C.extend_append] at hfail
          rw [ho.det hfail]
          obtain ⟨e', u, herr, he⟩ := ih
          rw [herr]
          exact ⟨e', u, rfl, he⟩

/-- **Pieces that are all taken.**  A consumer that takes nothing behind its end takes the
pieces exactly if the run on all of them waits or finishes, and those on fewer of them wait. -/
theorem forM_push_ok_iff {push : List α → EStateM ε σ Unit} (himp : Implements C push) {s : σ}
    (hs : C.Sound s) (hwait : C.step s = .wait)
    (hclosed : ∀ {xs ys t}, C.Sound (C.extend s (xs ++ ys)) →
      Runs C (C.extend s xs) (.finished t) → ∃ e u, (push ys).run t = .error e u)
    (pieces : List (List α)) (hx : C.Sound (C.extend s pieces.flatten)) {t : σ} :
    (pieces.forM push).run s = .ok () t ↔
      (∃ o, Runs C (C.extend s pieces.flatten) o ∧ o.result = .ok () t) ∧
        ∀ ps, ps <+: pieces → ps ≠ pieces → ∃ u, Runs C (C.extend s ps.flatten) (.waiting u) := by
  induction pieces using List.reverseRecOn generalizing t with
  | nil =>
      have hrun : Runs C (C.extend s []) (.waiting s) := by
        rw [C.extend_nil]
        exact .wait hwait
      rw [List.flatten_nil]
      constructor
      · intro h
        cases h
        exact ⟨⟨_, hrun, rfl⟩, fun ps hps hne => absurd (List.prefix_nil.mp hps) hne⟩
      · rintro ⟨⟨o, ho, hresult⟩, -⟩
        rw [ho.det hrun] at hresult
        exact hresult
  | append_singleton ps q ih =>
      have hflat : (ps ++ [q]).flatten = ps.flatten ++ q := by simp
      rw [hflat] at hx ⊢
      have hps : C.Sound (C.extend s ps.flatten) := C.sound_of_append hs hx
      have hx' : C.Sound (C.extend (C.extend s ps.flatten) q) := by rwa [C.extend_append]
      rw [forM_append_singleton]
      constructor
      · intro h
        rcases hfirst : (ps.forM push).run s with ⟨⟨⟩, v⟩ | ⟨e, v⟩
        · rw [hfirst] at h
          have h : (push q).run v = .ok () t := h
          obtain ⟨⟨o, ho, hresult⟩, hearlier⟩ := (ih hps).mp hfirst
          rcases o with u | u | ⟨e, u⟩
          · cases hresult
            -- the run goes on where it waits
            obtain ⟨hv, hvx⟩ := ho.sound_waiting hps hx'
            obtain ⟨o, hgo, hpush⟩ := himp v q hv hvx
            have hall := (ho.extend_waiting hps hx').mpr hgo
            rw [C.extend_append] at hall
            refine ⟨⟨o, hall, hpush.symm.trans h⟩, fun as has hne => ?_⟩
            obtain rfl | has := List.prefix_concat_iff.mp has
            · exact absurd rfl hne
            · by_cases heq : as = ps
              · rw [heq]
                exact ⟨v, ho⟩
              · exact hearlier as has heq
          · cases hresult
            obtain ⟨e, u, herr⟩ := hclosed hx ho
            rw [herr] at h
            cases h
          · cases hresult
        · rw [hfirst] at h
          cases h
      · rintro ⟨⟨o, ho, hresult⟩, hearlier⟩
        have hne : ps ≠ ps ++ [q] := fun h => by simp at h
        obtain ⟨u, hu⟩ := hearlier ps (List.prefix_append _ _) hne
        have hfirst : (ps.forM push).run s = .ok () u :=
          (ih hps).mpr ⟨⟨_, hu, rfl⟩, fun as has has' => hearlier as (has.trans (List.prefix_append _ _))
            fun h => by
              have hlen := has.length_le
              rw [h, List.length_append] at hlen
              simp at hlen⟩
        rw [hfirst]
        rw [← C.extend_append] at ho
        obtain ⟨hu', hux⟩ := hu.sound_waiting hps hx'
        exact (himp.run_eq hu' hux ((hu.extend_waiting hps hx').mp ho)).trans hresult

end Incremental
