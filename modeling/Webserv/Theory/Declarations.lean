/-
Webserv/Theory/Declarations.lean

Declarations that are carried out in their order, some of them once at most.

A declaration with a key is allowed if there has been none with this key before; one without a
key, as often as one likes.  A list of them goes through exactly if no key comes twice and none
has been there from the start.  Where the text of a declaration tells where it ends, the text of
a list tells what the list is.
-/
import Mathlib.Data.List.Nodup

/-- Declarations `ι` that change a state `σ`, and the keys of those that may be given once. -/
structure Declarations (κ ι σ : Type*) where
  key : ι → Option κ
  isSet : κ → σ → Bool
  apply : ι → σ → σ
  isSet_apply : ∀ k x s, isSet k (apply x s) = true ↔ key x = some k ∨ isSet k s = true

namespace Declarations

variable {κ ι σ : Type*} (D : Declarations κ ι σ)

/-- Carry out the declarations, one after the other. -/
def applyAll (s : σ) (l : List ι) : σ := l.foldl (fun s x => D.apply x s) s

/-- The key of the declaration has not been given. -/
def Allows (s : σ) (x : ι) : Prop := ∀ k ∈ D.key x, D.isSet k s = false

/-- No key comes twice, and none that has been given. -/
structure Fresh (s : σ) (l : List ι) : Prop where
  nodup : (l.filterMap D.key).Nodup
  allowed : ∀ x ∈ l, D.Allows s x

variable {D} {s : σ} {l : List ι} {x y : ι}

theorem fresh_nil : D.Fresh s [] :=
  ⟨List.nodup_nil, fun _ hx => absurd hx List.not_mem_nil⟩

theorem allows_apply : D.Allows (D.apply x s) y ↔ D.Allows s y ∧ ∀ k ∈ D.key y, D.key x ≠ some k := by
  have hset : ∀ k, D.isSet k (D.apply x s) = false ↔ D.isSet k s = false ∧ D.key x ≠ some k := by
    intro k
    rw [← Bool.not_eq_true, D.isSet_apply, not_or, Bool.not_eq_true, and_comm]
  constructor
  · intro h
    exact ⟨fun k hk => ((hset k).mp (h k hk)).1, fun k hk => ((hset k).mp (h k hk)).2⟩
  · rintro ⟨h, hne⟩ k hk
    exact (hset k).mpr ⟨h k hk, hne k hk⟩

/-- **One declaration after the other.** -/
theorem fresh_cons : D.Fresh s (x :: l) ↔ D.Allows s x ∧ D.Fresh (D.apply x s) l := by
  have hnodup : ((x :: l).filterMap D.key).Nodup ↔
      (∀ y ∈ l, ∀ k ∈ D.key y, D.key x ≠ some k) ∧ (l.filterMap D.key).Nodup := by
    rcases hkey : D.key x with - | k
    · rw [List.filterMap_cons_none hkey]
      exact (and_iff_right fun y _ k' _ h => Option.some_ne_none _ h.symm).symm
    · rw [List.filterMap_cons_some hkey, List.nodup_cons]
      refine and_congr_left fun _ => ?_
      constructor
      · rintro hk y hy k' hk' h
        cases h
        exact hk (List.mem_filterMap.mpr ⟨y, hy, hk'⟩)
      · intro hne hk
        obtain ⟨y, hy, hk⟩ := List.mem_filterMap.mp hk
        exact hne y hy k hk rfl
  constructor
  · intro h
    obtain ⟨hne, hrest⟩ := hnodup.mp h.nodup
    obtain ⟨hx, hl⟩ := List.forall_mem_cons.mp h.allowed
    exact ⟨hx, hrest, fun y hy => allows_apply.mpr ⟨hl y hy, hne y hy⟩⟩
  · rintro ⟨hx, h⟩
    have hl : ∀ y ∈ l, D.Allows s y ∧ ∀ k ∈ D.key y, D.key x ≠ some k :=
      fun y hy => allows_apply.mp (h.allowed y hy)
    exact ⟨hnodup.mpr ⟨fun y hy => (hl y hy).2, h.nodup⟩,
      List.forall_mem_cons.mpr ⟨hx, fun y hy => (hl y hy).1⟩⟩

/-- **The text of a list** tells what the list is, and where it ends. -/
theorem flatMap_append_inj {α : Type*} {text : ι → List α} {P : ι → Prop} {e e' : List α}
    (hinj : ∀ x y, P x → P y → ∀ w w', text x ++ w = text y ++ w' → x = y ∧ w = w')
    (hend : ∀ x, P x → ∀ w, text x ++ w ≠ e) (hend' : ∀ x, P x → ∀ w, text x ++ w ≠ e')
    {l l' : List ι} (hl : ∀ x ∈ l, P x) (hl' : ∀ x ∈ l', P x)
    (h : l.flatMap text ++ e = l'.flatMap text ++ e') : l = l' ∧ e = e' := by
  induction l generalizing l' with
  | nil =>
      cases l' with
      | nil => exact ⟨rfl, h⟩
      | cons y l' =>
          rw [List.flatMap_cons, List.append_assoc] at h
          exact absurd h.symm (hend y (hl' y List.mem_cons_self) _)
  | cons x l ih =>
      obtain ⟨hx, hxs⟩ := List.forall_mem_cons.mp hl
      cases l' with
      | nil =>
          rw [List.flatMap_cons, List.append_assoc] at h
          exact absurd h (hend' x hx _)
      | cons y l' =>
          obtain ⟨hy, hys⟩ := List.forall_mem_cons.mp hl'
          rw [List.flatMap_cons, List.flatMap_cons, List.append_assoc, List.append_assoc] at h
          obtain ⟨rfl, hrest⟩ := hinj x y hx hy _ _ h
          obtain ⟨rfl, he⟩ := ih hxs hys hrest
          exact ⟨rfl, he⟩

end Declarations
