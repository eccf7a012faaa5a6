/-
Webserv/Theory/Settings.lean

Settings that are given once, in any order.

A statement sets the setting of its key, which remembers that it has been set, and
leaves the other settings alone.  Statements with different keys may then be carried
out in any order.
-/
import Mathlib.Data.List.Perm.Basic
import Mathlib.Data.List.Nodup

/-- Statements `ι` that set one setting each, of those a state `σ` has. -/
structure Settings (κ ι σ : Type*) where
  key : ι → κ
  isSet : κ → σ → Bool
  set : ι → σ → σ
  isSet_set : ∀ k x s, isSet k (set x s) = true ↔ k = key x ∨ isSet k s = true
  set_comm : ∀ x y s, key x ≠ key y → set x (set y s) = set y (set x s)

namespace Settings

variable {κ ι σ : Type*} (S : Settings κ ι σ)

/-- Carry out the statements, one after the other. -/
def setAll (s : σ) (l : List ι) : σ := l.foldl (fun s x => S.set x s) s

/-- No setting is given twice, and none that has been set. -/
structure Fresh (s : σ) (l : List ι) : Prop where
  nodup : (l.map S.key).Nodup
  unset : ∀ x ∈ l, S.isSet (S.key x) s = false

variable {S} {s : σ} {l l' : List ι}

theorem fresh_nil : S.Fresh s [] :=
  ⟨List.nodup_nil, fun _ hx => absurd hx List.not_mem_nil⟩

theorem isSet_set_eq_false {k : κ} {x : ι} :
    S.isSet k (S.set x s) = false ↔ k ≠ S.key x ∧ S.isSet k s = false := by
  rw [← Bool.not_eq_true, S.isSet_set, not_or, Bool.not_eq_true]

/-- **One statement after the other.** -/
theorem fresh_cons {x : ι} :
    S.Fresh s (x :: l) ↔ S.isSet (S.key x) s = false ∧ S.Fresh (S.set x s) l := by
  constructor
  · intro h
    obtain ⟨hx, hnodup⟩ := List.nodup_cons.mp h.nodup
    obtain ⟨hunset, hrest⟩ := List.forall_mem_cons.mp h.unset
    refine ⟨hunset, hnodup, fun y hy => isSet_set_eq_false.mpr ⟨?_, hrest y hy⟩⟩
    intro hkey
    exact hx (hkey ▸ List.mem_map_of_mem hy)
  · rintro ⟨hunset, h⟩
    refine ⟨List.nodup_cons.mpr ⟨?_, h.nodup⟩, List.forall_mem_cons.mpr ⟨hunset, ?_⟩⟩
    · intro hx
      obtain ⟨y, hy, hkey⟩ := List.mem_map.mp hx
      exact (isSet_set_eq_false.mp (h.unset y hy)).1 hkey
    · exact fun y hy => (isSet_set_eq_false.mp (h.unset y hy)).2

theorem Fresh.perm (h : S.Fresh s l) (hp : l'.Perm l) : S.Fresh s l' :=
  ⟨(hp.map S.key).nodup_iff.mpr h.nodup, fun x hx => h.unset x (hp.subset hx)⟩

/-- **The order makes no difference.** -/
theorem Fresh.setAll_perm (h : S.Fresh s l) (hp : l'.Perm l) : S.setAll s l' = S.setAll s l := by
  apply List.Perm.foldl_eq' hp
  intro x hx y hy t
  by_cases hkey : S.key x = S.key y
  · -- of two statements with one key there is only one
    have hxy := List.inj_on_of_nodup_map h.nodup (hp.subset hx) (hp.subset hy) hkey
    rw [hxy]
  · exact S.set_comm y x t (Ne.symm hkey)

end Settings
