/-
Webserv/Theory/Substring.lean

First occurrence of a pattern in a list, and how it behaves when the list
grows at its end: an occurrence that is already complete stays the first one.
-/
import Mathlib

namespace Substring

variable {α : Type*} [DecidableEq α]

/-- The position of the first occurrence of `pat`, if there is one. -/
def find (pat : List α) : List α → Option Nat
  | [] => if pat = [] then some 0 else none
  | c :: cs => if pat <+: c :: cs then some 0 else (find pat cs).map (· + 1)

/-- `pat` occurs in `s` at position `i`. -/
def OccursAt (pat s : List α) (i : Nat) : Prop := pat <+: s.drop i

omit [DecidableEq α] in
theorem occursAt_zero {pat s : List α} : OccursAt pat s 0 ↔ pat <+: s := Iff.rfl

omit [DecidableEq α] in
theorem OccursAt.le_length {pat s : List α} {i : Nat} (h : OccursAt pat s i) (hp : pat ≠ []) :
    i + pat.length ≤ s.length := by
  have hlen := h.length_le
  have hpos := List.length_pos_iff.mpr hp
  rw [List.length_drop] at hlen
  omega

omit [DecidableEq α] in
/-- An occurrence that lies inside `s` is one in every extension of `s`, and conversely. -/
theorem occursAt_append {pat s t : List α} {i : Nat} (h : i + pat.length ≤ s.length) :
    OccursAt pat (s ++ t) i ↔ OccursAt pat s i := by
  have hi : i ≤ s.length := by omega
  unfold OccursAt
  rw [List.drop_append_of_le_length hi]
  constructor
  · intro hp
    rw [List.prefix_iff_eq_take] at hp ⊢
    rwa [List.take_append_of_le_length (by rw [List.length_drop]; omega)] at hp
  · exact fun hp => hp.trans (List.prefix_append _ _)

theorem find_eq_some_iff {pat s : List α} (hp : pat ≠ []) {i : Nat} :
    find pat s = some i ↔ OccursAt pat s i ∧ ∀ j < i, ¬ OccursAt pat s j := by
  induction s generalizing i with
  | nil =>
      simp only [find, if_neg hp, reduceCtorEq, false_iff, not_and]
      intro h
      simp [OccursAt, hp] at h
  | cons c cs ih =>
      by_cases h0 : pat <+: c :: cs
      · simp only [find, if_pos h0, Option.some.injEq]
        constructor
        · rintro rfl
          exact ⟨h0, by simp⟩
        · rintro ⟨-, hfirst⟩
          by_contra hne
          exact hfirst 0 (by omega) h0
      · simp only [find, if_neg h0, Option.map_eq_some_iff]
        constructor
        · rintro ⟨k, hk, rfl⟩
          obtain ⟨hocc, hfirst⟩ := ih.mp hk
          refine ⟨hocc, fun j hj => ?_⟩
          rcases j with - | j
          · exact h0
          · exact hfirst j (by omega)
        · rintro ⟨hocc, hfirst⟩
          rcases i with - | i
          · exact absurd hocc h0
          · exact ⟨i, ih.mpr ⟨hocc, fun j hj => hfirst (j + 1) (by omega)⟩, rfl⟩

theorem find_eq_none_iff {pat s : List α} (hp : pat ≠ []) :
    find pat s = none ↔ ∀ i, ¬ OccursAt pat s i := by
  induction s with
  | nil => simp [find, hp, OccursAt]
  | cons c cs ih =>
      by_cases h0 : pat <+: c :: cs
      · simp only [find, if_pos h0, reduceCtorEq, false_iff, not_forall, not_not]
        exact ⟨0, h0⟩
      · simp only [find, if_neg h0, Option.map_eq_none_iff, ih]
        constructor
        · intro h i
          rcases i with - | i
          · exact h0
          · exact h i
        · exact fun h i => h (i + 1)

/-- **Stability.** A first occurrence stays the first one when the list grows. -/
theorem find_append {pat s : List α} (hp : pat ≠ []) {i : Nat} (h : find pat s = some i)
    (t : List α) : find pat (s ++ t) = some i := by
  obtain ⟨hocc, hfirst⟩ := (find_eq_some_iff hp).mp h
  have hlen := hocc.le_length hp
  refine (find_eq_some_iff hp).mpr ⟨(occursAt_append hlen).mpr hocc, fun j hj hj' => ?_⟩
  exact hfirst j hj ((occursAt_append (by omega)).mp hj')

theorem find_le_length {pat s : List α} (hp : pat ≠ []) {i : Nat} (h : find pat s = some i) :
    i + pat.length ≤ s.length :=
  ((find_eq_some_iff hp).mp h).1.le_length hp

/-- The list, cut right behind the first occurrence. -/
theorem find_split {pat s : List α} (hp : pat ≠ []) {i : Nat} (h : find pat s = some i) :
    s = s.take i ++ pat ++ s.drop (i + pat.length) := by
  obtain ⟨hocc, -⟩ := (find_eq_some_iff hp).mp h
  obtain ⟨rest, hrest⟩ := hocc
  have hdrop : s.drop (i + pat.length) = rest := by
    rw [← List.drop_drop, ← hrest, List.drop_left]
  rw [hdrop, List.append_assoc, hrest, List.take_append_drop]

/-- A first occurrence is one. -/
theorem find_occursAt {pat s : List α} (hp : pat ≠ []) {i : Nat} (h : find pat s = some i) :
    OccursAt pat s i := ((find_eq_some_iff hp).mp h).1

theorem find_eq_none_iff_infix {pat s : List α} (hp : pat ≠ []) :
    find pat s = none ↔ ¬ pat <:+: s := by
  rw [find_eq_none_iff hp, ← not_exists, not_iff_not]
  constructor
  · rintro ⟨i, hocc⟩
    exact List.IsInfix.trans hocc.isInfix (List.drop_suffix i s).isInfix
  · rintro ⟨a, b, rfl⟩
    refine ⟨a.length, ?_⟩
    rw [OccursAt, List.append_assoc, List.drop_left]
    exact List.prefix_append pat b

theorem find_cons_of_not_prefix {d : α} {pat s : List α} (h : ¬ pat <+: d :: s) :
    find pat (d :: s) = (find pat s).map (· + 1) := by
  rw [find, if_neg h]

theorem find_cons_of_ne {c d : α} {pat s : List α} (h : c ≠ d) :
    find (c :: pat) (d :: s) = (find (c :: pat) s).map (· + 1) := by
  rw [find, if_neg fun hp => h (List.cons_prefix_cons.mp hp).1]

/-- A part without the first element of the pattern is skipped. -/
theorem find_append_of_notMem {c : α} {pat l s : List α} (h : c ∉ l) :
    find (c :: pat) (l ++ s) = (find (c :: pat) s).map (· + l.length) := by
  induction l with
  | nil => simp
  | cons d l ih =>
      have hd : c ≠ d := fun hd => h (by simp [hd])
      rw [List.cons_append, find_cons_of_ne hd, ih fun hl => h (List.mem_cons_of_mem _ hl),
        Option.map_map]
      rfl

/-- No first occurrence begins in `a` when `s` follows. -/
def Skips (pat a s : List α) : Prop := find pat (a ++ s) = (find pat s).map (· + a.length)

theorem Skips.append {pat a b s : List α} (ha : Skips pat a (b ++ s)) (hb : Skips pat b s) :
    Skips pat (a ++ b) s := by
  rw [Skips, List.append_assoc, ha, hb, Option.map_map, List.length_append]
  congr 1
  funext n
  show n + b.length + a.length = n + (a.length + b.length)
  omega

theorem skips_of_notMem {c : α} {pat a : List α} (h : c ∉ a) (s : List α) :
    Skips (c :: pat) a s := find_append_of_notMem h

/-- One element is skipped, if the pattern does not begin with it. -/
theorem skips_singleton {pat s : List α} {d : α} (h : ¬ pat <+: d :: s) : Skips pat [d] s :=
  find_cons_of_not_prefix h

omit [DecidableEq α] in
/-- Two lists that agree up to the first `c` of each. -/
theorem append_cons_inj {c : α} {a b x y : List α} (ha : c ∉ a) (hb : c ∉ b)
    (h : a ++ c :: x = b ++ c :: y) : a = b ∧ x = y := by
  induction a generalizing b with
  | nil =>
      rcases b with - | ⟨d, b⟩
      · exact ⟨rfl, (List.cons.inj h).2⟩
      · exact absurd (by simp [← (List.cons.inj h).1]) hb
  | cons d a ih =>
      rcases b with - | ⟨e, b⟩
      · exact absurd (by simp [(List.cons.inj h).1]) ha
      · obtain ⟨rfl, htail⟩ := List.cons.inj h
        obtain ⟨rfl, rfl⟩ := ih (fun hm => ha (List.mem_cons_of_mem _ hm))
          (fun hm => hb (List.mem_cons_of_mem _ hm)) htail
        exact ⟨rfl, rfl⟩

/-! ### The last occurrence -/

/-- The last occurrence of `pat` in `s` at `i` or before it. -/
def rfind (pat s : List α) : Nat → Option Nat
  | 0 => if pat <+: s then some 0 else none
  | i + 1 => if pat <+: s.drop (i + 1) then some (i + 1) else rfind pat s i

theorem rfind_eq_some_iff {pat s : List α} {n i : Nat} :
    rfind pat s n = some i ↔
      i ≤ n ∧ OccursAt pat s i ∧ ∀ j, i < j → j ≤ n → ¬ OccursAt pat s j := by
  induction n with
  | zero =>
      rw [rfind]
      constructor
      · intro h
        split_ifs at h with hocc
        cases h
        exact ⟨le_rfl, hocc, fun j hj hle => by omega⟩
      · rintro ⟨hle, hocc, -⟩
        obtain rfl : i = 0 := by omega
        exact if_pos hocc
  | succ n ih =>
      rw [rfind]
      by_cases hocc : pat <+: s.drop (n + 1)
      · rw [if_pos hocc]
        constructor
        · rintro h
          cases h
          exact ⟨le_rfl, hocc, fun j hj hle => by omega⟩
        · rintro ⟨hle, -, hlast⟩
          by_contra hne
          have hne : i ≠ n + 1 := fun h => hne (by rw [h])
          exact hlast (n + 1) (by omega) le_rfl hocc
      · rw [if_neg hocc, ih]
        constructor
        · rintro ⟨hle, hi, hlast⟩
          refine ⟨by omega, hi, fun j hj hle' => ?_⟩
          rcases Nat.lt_or_ge n j with hlt | hge
          · obtain rfl : j = n + 1 := by omega
            exact hocc
          · exact hlast j hj hge
        · rintro ⟨hle, hi, hlast⟩
          have hne : i ≠ n + 1 := by
            rintro rfl
            exact hocc hi
          exact ⟨by omega, hi, fun j hj hle' => hlast j hj (by omega)⟩

theorem rfind_eq_none_iff {pat s : List α} {n : Nat} :
    rfind pat s n = none ↔ ∀ j, j ≤ n → ¬ OccursAt pat s j := by
  induction n with
  | zero =>
      rw [rfind]
      constructor
      · intro h j hj hocc
        obtain rfl : j = 0 := by omega
        rw [if_pos (occursAt_zero.mp hocc)] at h
        cases h
      · intro h
        exact if_neg (h 0 le_rfl)
  | succ n ih =>
      rw [rfind]
      by_cases hocc : pat <+: s.drop (n + 1)
      · rw [if_pos hocc]
        exact ⟨nofun, fun h => absurd hocc (h (n + 1) le_rfl)⟩
      · rw [if_neg hocc, ih]
        constructor
        · intro h j hj hj'
          rcases Nat.lt_or_ge n j with hlt | hge
          · obtain rfl : j = n + 1 := by omega
            exact hocc hj'
          · exact h j hge hj'
        · exact fun h j hj => h j (by omega)

end Substring
