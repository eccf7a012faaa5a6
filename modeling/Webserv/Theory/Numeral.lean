/-
Webserv/Theory/Numeral.lean

Positional numerals, most significant digit first: the value a scanner computes
by `n ↦ n * base + digit` over the digits, started from what it has read before.
-/
import Mathlib

namespace Numeral

variable {α : Type*} (base : Nat) (digit : α → Nat)

/-- The value of `ds` read on from the value `n`. -/
def valueFrom (n : Nat) (ds : List α) : Nat := ds.foldl (fun n d => n * base + digit d) n

/-- The value of the numeral `ds`. -/
def value (ds : List α) : Nat := valueFrom base digit 0 ds

@[simp] theorem valueFrom_nil (n : Nat) : valueFrom base digit n [] = n := rfl

@[simp] theorem valueFrom_cons (n : Nat) (d : α) (ds : List α) :
    valueFrom base digit n (d :: ds) = valueFrom base digit (n * base + digit d) ds := rfl

@[simp] theorem value_nil : value base digit ([] : List α) = 0 := rfl

theorem valueFrom_append (n : Nat) (ds es : List α) :
    valueFrom base digit n (ds ++ es) = valueFrom base digit (valueFrom base digit n ds) es :=
  List.foldl_append

variable {base}

/-- Reading on never makes the value smaller. -/
theorem le_valueFrom (hbase : 0 < base) (n : Nat) (ds : List α) :
    n ≤ valueFrom base digit n ds := by
  induction ds generalizing n with
  | nil => exact le_rfl
  | cons d ds ih =>
      calc n ≤ n * base := Nat.le_mul_of_pos_right n hbase
        _ ≤ n * base + digit d := Nat.le_add_right _ _
        _ ≤ valueFrom base digit (n * base + digit d) ds := ih _

/-- The value is 0 exactly if every digit is. -/
theorem valueFrom_eq_zero_iff (hbase : 0 < base) (n : Nat) (ds : List α) :
    valueFrom base digit n ds = 0 ↔ n = 0 ∧ ∀ d ∈ ds, digit d = 0 := by
  induction ds generalizing n with
  | nil => simp
  | cons d ds ih =>
      rw [valueFrom_cons, ih]
      constructor
      · rintro ⟨h, hds⟩
        have hn : n * base = 0 := by omega
        have hn : n = 0 := (Nat.mul_eq_zero.mp hn).resolve_right (by omega)
        exact ⟨hn, List.forall_mem_cons.mpr ⟨by omega, hds⟩⟩
      · rintro ⟨rfl, h⟩
        obtain ⟨hd, hds⟩ := List.forall_mem_cons.mp h
        exact ⟨by omega, hds⟩

theorem value_eq_zero_iff (hbase : 0 < base) (ds : List α) :
    value base digit ds = 0 ↔ ∀ d ∈ ds, digit d = 0 := by
  rw [value, valueFrom_eq_zero_iff digit hbase]
  exact ⟨And.right, fun h => ⟨rfl, h⟩⟩

/-- A numeral of `k` digits is below the `k`-th power of its base. -/
theorem valueFrom_lt (n : Nat) {ds : List α} (h : ∀ d ∈ ds, digit d < base) :
    valueFrom base digit n ds < (n + 1) * base ^ ds.length := by
  induction ds generalizing n with
  | nil => simp
  | cons d ds ih =>
      obtain ⟨hd, hds⟩ := List.forall_mem_cons.mp h
      calc valueFrom base digit (n * base + digit d) ds
        _ < (n * base + digit d + 1) * base ^ ds.length := ih _ hds
        _ ≤ ((n + 1) * base) * base ^ ds.length := by
            apply Nat.mul_le_mul_right
            rw [Nat.add_mul]
            omega
        _ = (n + 1) * base ^ (ds.length + 1) := by rw [Nat.pow_succ']; ac_rfl

end Numeral
