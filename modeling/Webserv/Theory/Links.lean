/-
Webserv/Theory/Links.lean

Two pointers that point at each other.

An object may point at another one, its child, and a child at its owner.  The pointers are
consistent if each is the inverse of the other.  Then an object can go if what points at it
is told to forget it.
-/
import Mathlib.Logic.Function.Basic
import Mathlib.Data.Option.Basic
import Mathlib.Tactic.SplitIfs

namespace Links

variable {α : Type*} {child owner : α → Option α} {a b : α}

/-- **Each pointer is the inverse of the other.** -/
def Linked (child owner : α → Option α) : Prop := ∀ a b, child a = some b ↔ owner b = some a

/-- A pointer without the object `a`. -/
def forget [DecidableEq α] (a : α) (next : α → Option α) (x : α) : Option α :=
  if x = a ∨ next x = some a then none else next x

namespace Linked

theorem empty : Linked (fun _ : α => none) (fun _ : α => none) := by
  intro a b
  constructor
  · rintro ⟨⟩
  · rintro ⟨⟩

/-- Nothing points at an object without an owner. -/
theorem child_ne (h : Linked child owner) (ha : owner a = none) (x : α) :
    child x ≠ some a := by
  intro hx
  rw [(h x a).mp hx] at ha
  cases ha

theorem owner_ne (h : Linked child owner) (ha : child a = none) (x : α) :
    owner x ≠ some a := by
  intro hx
  rw [(h a x).mpr hx] at ha
  cases ha

section Changes

variable [DecidableEq α]

/-- Two objects that point at nothing are linked. -/
theorem link (h : Linked child owner) (ha : child a = none) (hb : owner b = none) :
    Linked (Function.update child a (some b)) (Function.update owner b (some a)) := by
  intro x y
  by_cases hx : x = a
  · subst hx
    by_cases hy : y = b
    · subst hy
      simp
    · rw [Function.update_self, Function.update_of_ne hy, Option.some.injEq]
      exact ⟨fun heq => absurd heq.symm hy, fun howner => absurd howner (h.owner_ne ha y)⟩
  · rw [Function.update_of_ne hx]
    by_cases hy : y = b
    · subst hy
      rw [Function.update_self, Option.some.injEq]
      exact ⟨fun hchild => absurd hchild (h.child_ne hb x), fun heq => absurd heq.symm hx⟩
    · rw [Function.update_of_ne hy]
      exact h x y

theorem forget_eq_some {next : α → Option α} {x y : α} :
    forget a next x = some y ↔ x ≠ a ∧ y ≠ a ∧ next x = some y := by
  rw [forget]
  split_ifs with hgone
  · constructor
    · rintro ⟨⟩
    · rintro ⟨hx, hy, hnext⟩
      obtain heq | hnext' := hgone
      · exact absurd heq hx
      · exact absurd (Option.some.inj (hnext.symm.trans hnext')) hy
  · rw [not_or] at hgone
    refine ⟨fun hnext => ⟨hgone.1, ?_, hnext⟩, fun hnext => hnext.2.2⟩
    rintro rfl
    exact hgone.2 hnext

/-- **An object goes**, and is forgotten by both sides. -/
theorem drop (h : Linked child owner) (a : α) : Linked (forget a child) (forget a owner) := by
  intro x y
  rw [forget_eq_some, forget_eq_some, h x y, and_left_comm]

end Changes

end Linked

end Links
