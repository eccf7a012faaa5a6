/-
Webserv/Theory/Store.lean

A store of values under keys, and what those who use it are told.

An operation is what a user has been told: what a key had, that a value has been put
under a key, that a key has been removed, or that a key has been damaged.  Somebody who
keeps the last thing said of a key knows what it has, up to the next damage: that is what
a store is for, and `History.known` proves it of every history.
-/
import Mathlib.Logic.Function.Basic
import Mathlib.Tactic.SplitIfs
import Webserv.Theory.Transition

namespace Store

variable {κ ν : Type*}

/-- What a user has been told. -/
inductive Op (κ ν : Type*)
  | get (k : κ) (v : Option ν)
  | put (k : κ) (v : ν)
  | delete (k : κ)
  | damage (k : κ)
  | other
  deriving DecidableEq

variable [DecidableEq κ]

/-- What may be told of a store `s`, if `t` is the store behind it. -/
def Op.Between (s : κ → Option ν) (t : κ → Option ν) : Op κ ν → Prop
  | .get k v => s k = v ∧ t = s
  | .put k v => t = Function.update s k (some v)
  | .delete k => s k ≠ none ∧ t = Function.update s k none
  | .damage k => ∀ k' ≠ k, t k' = s k'
  | .other => t = s

/-- What is known of the key `k` behind an operation: nothing, or what it has. -/
def Op.tell (k : κ) (known : Option (Option ν)) : Op κ ν → Option (Option ν)
  | .get k' v => if k' = k then some v else known
  | .put k' v => if k' = k then some (some v) else known
  | .delete k' => if k' = k then some none else known
  | .damage k' => if k' = k then none else known
  | .other => known

/-- **What is known of a key**: what was said of it last. -/
def known (k : κ) (first : Option (Option ν)) (ops : List (Op κ ν)) : Option (Option ν) :=
  ops.foldl (Op.tell k) first

/-- **A history of a store** that ends with `t`. -/
def History (t : κ → Option ν) : (κ → Option ν) → List (Op κ ν) → Prop
  | s, [] => t = s
  | s, op :: ops => ∃ u, op.Between s u ∧ History t u ops

variable {s t : κ → Option ν} {k : κ}

/-- What is known is true, and it stays true. -/
theorem Op.Between.tell {op : Op κ ν} (h : op.Between s t) {first : Option (Option ν)}
    (hfirst : ∀ x ∈ first, s k = x) : ∀ x ∈ op.tell k first, t k = x := by
  have hkeep : t k = s k → ∀ x ∈ first, t k = x := fun heq x hx => heq.trans (hfirst x hx)
  cases op with
  | get k' v =>
      obtain ⟨hget, rfl⟩ := h
      show ∀ x ∈ (if k' = k then some v else first), t k = x
      split_ifs with hk
      · rintro x ⟨⟩
        rw [← hk]
        exact hget
      · exact hkeep rfl
  | put k' v =>
      obtain rfl : t = Function.update s k' (some v) := h
      show ∀ x ∈ (if k' = k then some (some v) else first), _ = x
      split_ifs with hk
      · rintro x ⟨⟩
        rw [hk]
        exact Function.update_self _ _ _
      · exact hkeep (Function.update_of_ne (Ne.symm hk) _ _)
  | delete k' =>
      obtain ⟨-, rfl⟩ := h
      show ∀ x ∈ (if k' = k then some none else first), _ = x
      split_ifs with hk
      · rintro x ⟨⟩
        rw [hk]
        exact Function.update_self _ _ _
      · exact hkeep (Function.update_of_ne (Ne.symm hk) _ _)
  | damage k' =>
      show ∀ x ∈ (if k' = k then none else first), t k = x
      split_ifs with hk
      · exact fun x hx => absurd hx (Option.not_mem_none x)
      · exact hkeep (h k (Ne.symm hk))
  | other =>
      obtain rfl : t = s := h
      exact hfirst

/-- **What is known at the end is what the store has.** -/
theorem History.known {ops : List (Op κ ν)} (h : History t s ops) {first : Option (Option ν)}
    (hfirst : ∀ x ∈ first, s k = x) : ∀ x ∈ Store.known k first ops, t k = x := by
  induction ops generalizing s first with
  | nil =>
      obtain rfl : t = s := h
      exact hfirst
  | cons op ops ih =>
      obtain ⟨u, hop, hrest⟩ := h
      exact ih hrest (hop.tell hfirst)

theorem History.append {ops ops' : List (Op κ ν)} :
    History t s (ops ++ ops') ↔ ∃ u, History u s ops ∧ History t u ops' := by
  induction ops generalizing s with
  | nil => exact ⟨fun h => ⟨s, rfl, h⟩, fun ⟨_, hu, h⟩ => hu ▸ h⟩
  | cons op ops ih =>
      constructor
      · rintro ⟨v, hop, hrest⟩
        obtain ⟨u, hu, hend⟩ := ih.mp hrest
        exact ⟨u, ⟨v, hop, hu⟩, hend⟩
      · rintro ⟨u, ⟨v, hop, hu⟩, hend⟩
        exact ⟨v, hop, ih.mpr ⟨u, hu, hend⟩⟩

/-- **What is read is what is known.** -/
theorem History.read {before after : List (Op κ ν)} {v : Option ν}
    (h : History t s (before ++ .get k v :: after)) {first : Option (Option ν)}
    (hfirst : ∀ x ∈ first, s k = x) : ∀ x ∈ Store.known k first before, v = x := by
  obtain ⟨u, hbefore, w, ⟨hget, -⟩, -⟩ := History.append.mp h
  intro x hx
  rw [← hget]
  exact hbefore.known hfirst x hx

/-! ### Implementations -/

/-- **A system that keeps a store**: what each of its calls tells may be told of what the system
shows before it and behind it. -/
theorem History.of_calls {σ γ : Type*} {call : σ → γ → σ} {tells : γ → Op κ ν}
    {shows : σ → κ → Option ν} {Meets : σ → γ → Prop}
    (hcall : ∀ s c, Meets s c → (tells c).Between (shows s) (shows (call s c)))
    {s : σ} {calls : List γ} (h : Transition.Along (fun s c => some (call s c)) Meets s calls) :
    History (shows (calls.foldl call s)) (shows s) (calls.map tells) := by
  induction calls generalizing s with
  | nil => exact rfl
  | cons c cs ih => exact ⟨shows (call s c), hcall s c h.1, ih (h.2 _ rfl)⟩

end Store
