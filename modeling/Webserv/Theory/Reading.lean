/-
Webserv/Theory/Reading.lean

Languages that ask a predicate about some of their tokens, and the state machine that
finds these tokens.

A grammar with a parameter `W` (what counts as a word at certain places) gives a
language for every `W`.  A reader walks over a list of tokens and takes out those that
stand at the places in question, without regard to `W`.  Where the two belong together
(`Reads`), a list that the grammar derives with one `W` is derived with another exactly
if the tokens taken out allow it.
-/
import Mathlib.Computability.Language

open scoped Computability

variable {α σ : Type*}

/-- The one-token lists with `P`. -/
def Language.only (P : α → Prop) : Language α := {w | ∃ a, w = [a] ∧ P a}

/-- A walk over a list that takes some of its elements out. -/
structure Reader (α σ : Type*) where
  next : σ → α → σ
  takes : σ → α → Bool

namespace Reader

variable (r : Reader α σ)

/-- The place behind a list. -/
def run (s : σ) (w : List α) : σ := w.foldl r.next s

/-- The elements that are taken out. -/
def taken : σ → List α → List α
  | _, [] => []
  | s, a :: w => if r.takes s a then a :: taken (r.next s a) w else taken (r.next s a) w

theorem run_append (s : σ) (u v : List α) : r.run s (u ++ v) = r.run (r.run s u) v :=
  List.foldl_append

theorem taken_append (s : σ) (u v : List α) :
    r.taken s (u ++ v) = r.taken s u ++ r.taken (r.run s u) v := by
  induction u generalizing s with
  | nil => rfl
  | cons a u ih =>
      show (if r.takes s a then a :: r.taken (r.next s a) (u ++ v)
        else r.taken (r.next s a) (u ++ v)) =
        (if r.takes s a then a :: r.taken (r.next s a) u else r.taken (r.next s a) u) ++
          r.taken (r.run (r.next s a) u) v
      rw [ih]
      split <;> rfl

/-- Reading a list of `L W` leads from `s` to `t`, and what is taken out on the way is what
`W` is asked about. -/
structure Reads (s t : σ) (L : (α → Prop) → Language α) : Prop where
  run : ∀ W, ∀ w ∈ L W, r.run s w = t
  taken : ∀ W, ∀ w ∈ L W, ∀ a ∈ r.taken s w, W a
  change : ∀ W V, ∀ w ∈ L W, (∀ a ∈ r.taken s w, V a) → w ∈ L V

variable {r} {s t t' : σ} {L M : (α → Prop) → Language α}

namespace Reads

/-- **Derivable with another predicate.** -/
theorem mem_iff (h : r.Reads s t L) {W V : α → Prop} {w : List α} (hw : w ∈ L W) :
    w ∈ L V ↔ ∀ a ∈ r.taken s w, V a :=
  ⟨h.taken V w, h.change W V w hw⟩

/-- A token that `W` is not asked about. -/
theorem only {P : α → Prop} (h : ∀ a, P a → r.next s a = t ∧ r.takes s a = false) :
    r.Reads s t fun _ => Language.only P where
  run W w hw := by
    obtain ⟨a, rfl, ha⟩ := hw
    exact (h a ha).1
  taken W w hw b hb := by
    obtain ⟨a, rfl, ha⟩ := hw
    rw [Reader.taken, (h a ha).2] at hb
    cases hb
  change W V w hw _ := hw

/-- A token that `W` is asked about. -/
theorem asked {P : α → Prop} (h : ∀ a, P a → r.next s a = t ∧ r.takes s a = true) :
    r.Reads s t fun W => Language.only fun a => P a ∧ W a where
  run W w hw := by
    obtain ⟨a, rfl, ha, -⟩ := hw
    exact (h a ha).1
  taken W w hw b hb := by
    obtain ⟨a, rfl, ha, hW⟩ := hw
    rw [Reader.taken, if_pos (h a ha).2] at hb
    obtain rfl := List.mem_singleton.mp hb
    exact hW
  change W V w hw hV := by
    obtain ⟨a, rfl, ha, -⟩ := hw
    rw [Reader.taken, if_pos (h a ha).2] at hV
    exact ⟨a, rfl, ha, hV a (List.mem_singleton_self a)⟩

/-- One after the other. -/
theorem mul (hL : r.Reads s t L) (hM : r.Reads t t' M) :
    r.Reads s t' fun W => L W * M W where
  run W w hw := by
    obtain ⟨u, hu, v, hv, rfl⟩ := Language.mem_mul.mp hw
    rw [r.run_append, hL.run W u hu, hM.run W v hv]
  taken W w hw a ha := by
    obtain ⟨u, hu, v, hv, rfl⟩ := Language.mem_mul.mp hw
    rw [r.taken_append, hL.run W u hu] at ha
    obtain ha | ha := List.mem_append.mp ha
    · exact hL.taken W u hu a ha
    · exact hM.taken W v hv a ha
  change W V w hw hV := by
    obtain ⟨u, hu, v, hv, rfl⟩ := Language.mem_mul.mp hw
    rw [r.taken_append, hL.run W u hu] at hV
    obtain ⟨hVu, hVv⟩ := List.forall_mem_append.mp hV
    exact Language.append_mem_mul (hL.change W V u hu hVu) (hM.change W V v hv hVv)

/-- One or the other. -/
theorem add (hL : r.Reads s t L) (hM : r.Reads s t M) :
    r.Reads s t fun W => L W + M W where
  run W w hw := hw.elim (hL.run W w) (hM.run W w)
  taken W w hw := hw.elim (hL.taken W w) (hM.taken W w)
  change W V w hw hV := by
    obtain hw | hw := hw
    · exact .inl (hL.change W V w hw hV)
    · exact .inr (hM.change W V w hw hV)

/-- Any number of times, where the place is the same again. -/
theorem kstar (hL : r.Reads s s L) : r.Reads s s fun W => (L W)∗ := by
  -- the induction is on the number of times
  have hlist : ∀ (W : α → Prop) (ws : List (List α)), (∀ w ∈ ws, w ∈ L W) →
      r.run s ws.flatten = s ∧ (∀ a ∈ r.taken s ws.flatten, W a) ∧
        ∀ V, (∀ a ∈ r.taken s ws.flatten, V a) → ∀ w ∈ ws, w ∈ L V := by
    intro W ws hws
    induction ws with
    | nil => exact ⟨rfl, fun a ha => absurd ha List.not_mem_nil, fun V _ w hw => absurd hw List.not_mem_nil⟩
    | cons w ws ih =>
        obtain ⟨hw, hws⟩ := List.forall_mem_cons.mp hws
        obtain ⟨hrun, htaken, hchange⟩ := ih hws
        rw [List.flatten_cons, r.run_append, r.taken_append, hL.run W w hw]
        refine ⟨hrun, ?_, fun V hV => ?_⟩
        · exact List.forall_mem_append.mpr ⟨hL.taken W w hw, htaken⟩
        · obtain ⟨hVw, hVws⟩ := List.forall_mem_append.mp hV
          exact List.forall_mem_cons.mpr ⟨hL.change W V w hw hVw, hchange V hVws⟩
  constructor
  · intro W w hw
    obtain ⟨ws, rfl, hws⟩ := Language.mem_kstar.mp hw
    exact (hlist W ws hws).1
  · intro W w hw
    obtain ⟨ws, rfl, hws⟩ := Language.mem_kstar.mp hw
    exact (hlist W ws hws).2.1
  · intro W V w hw hV
    obtain ⟨ws, rfl, hws⟩ := Language.mem_kstar.mp hw
    exact Language.join_mem_kstar ((hlist W ws hws).2.2 V hV)

end Reads

end Reader
