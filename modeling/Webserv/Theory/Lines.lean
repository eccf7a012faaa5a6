/-
Webserv/Theory/Lines.lean

Texts of lines over an arbitrary alphabet, with a line end of two characters `a`, `b`.

A block of non-empty lines is ended by an empty one.  If no line has an `a`, the first
`a b a b` of the text is the end of the block, and cutting the block at every `a b` gives
the lines back, whatever stands behind it.
-/
import Webserv.Theory.Substring

namespace Lines

open Substring

variable {α : Type*} [DecidableEq α]

/-- The text before and behind the first occurrence of `pat`. -/
def cut (pat s : List α) : Option (List α × List α) :=
  (find pat s).map fun i => (s.take i, s.drop (i + pat.length))

theorem cut_of_find {pat x y : List α} (h : find pat (x ++ pat ++ y) = some x.length) :
    cut pat (x ++ pat ++ y) = some (x, y) := by
  rw [cut, h, Option.map_some, ← List.length_append, List.drop_left, List.append_assoc,
    List.take_left]

/-- The first occurrence is behind a text without the first character of the pattern. -/
theorem cut_append_of_notMem {c : α} {pat x : List α} (h : c ∉ x) (y : List α) :
    cut (c :: pat) (x ++ (c :: pat) ++ y) = some (x, y) := by
  apply cut_of_find
  rw [List.append_assoc, find_append_of_notMem h]
  simp [find]

variable (a b : α)

/-- The pieces of `cur ++ s` between line ends. -/
def linesFrom (cur : List α) : List α → List (List α)
  | [] => [cur]
  | [c] => [cur ++ [c]]
  | c :: d :: s =>
      if c = a ∧ d = b then cur :: linesFrom [] s else linesFrom (cur ++ [c]) (d :: s)

/-- The lines of a text, which stand between line ends. -/
def lines (s : List α) : List (List α) := linesFrom a b [] s

/-- Every line with its end. -/
def ended (ls : List (List α)) : List α := (ls.map (· ++ [a, b])).flatten

omit [DecidableEq α] in
theorem ended_cons (l : List α) (ls : List (List α)) :
    ended a b (l :: ls) = l ++ a :: b :: ended a b ls := by
  simp [ended]

omit [DecidableEq α] in
theorem ended_eq_intercalate {ls : List (List α)} (h : ls ≠ []) :
    ended a b ls = [a, b].intercalate ls ++ [a, b] := by
  induction ls with
  | nil => exact absurd rfl h
  | cons l ls ih =>
      rcases ls with - | ⟨l', ls⟩
      · simp [ended]
      · rw [ended_cons, ih (List.cons_ne_nil _ _), List.intercalate_cons_cons]
        simp

variable {a b}

theorem linesFrom_of_notMem {s : List α} (h : a ∉ s) (cur : List α) :
    linesFrom a b cur s = [cur ++ s] := by
  induction s generalizing cur with
  | nil => rw [linesFrom, List.append_nil]
  | cons c s ih =>
      have hc : c ≠ a := fun hc => h (hc ▸ List.mem_cons_self)
      rcases s with - | ⟨d, s⟩
      · rfl
      · rw [linesFrom, if_neg fun hcd => hc hcd.1, ih fun hs => h (List.mem_cons_of_mem _ hs)]
        simp

theorem linesFrom_append {l : List α} (h : a ∉ l) (cur s : List α) :
    linesFrom a b cur (l ++ a :: b :: s) = (cur ++ l) :: lines a b s := by
  induction l generalizing cur with
  | nil => rw [List.nil_append, linesFrom, if_pos ⟨rfl, rfl⟩, List.append_nil, lines]
  | cons c l ih =>
      have hc : c ≠ a := fun hc => h (hc ▸ List.mem_cons_self)
      have hrest := ih (fun hl => h (List.mem_cons_of_mem _ hl)) (cur ++ [c])
      obtain ⟨d, t, hdt⟩ : ∃ d t, l ++ a :: b :: s = d :: t := by
        rcases l with - | ⟨d, l⟩
        · exact ⟨a, b :: s, rfl⟩
        · exact ⟨d, l ++ a :: b :: s, rfl⟩
      rw [List.cons_append, hdt, linesFrom, if_neg fun hcd => hc hcd.1, ← hdt, hrest]
      simp

/-- **Lines are read back.** -/
theorem lines_intercalate {ls : List (List α)} (hne : ls ≠ []) (h : ∀ l ∈ ls, a ∉ l) :
    lines a b ([a, b].intercalate ls) = ls := by
  induction ls with
  | nil => exact absurd rfl hne
  | cons l ls ih =>
      obtain ⟨hl, hls⟩ := List.forall_mem_cons.mp h
      rcases ls with - | ⟨l', ls⟩
      · rw [List.intercalate_singleton, lines, linesFrom_of_notMem hl, List.nil_append]
      · have htext : [a, b].intercalate (l :: l' :: ls) =
            l ++ a :: b :: [a, b].intercalate (l' :: ls) := by
          rw [List.intercalate_cons_cons, List.append_assoc]
          rfl
        rw [htext, lines, linesFrom_append hl, ih (List.cons_ne_nil _ _) hls, List.nil_append]

/-- No empty line begins with a line that is followed by another. -/
theorem skips_line {l : List α} (hl : a ∉ l) {c : α} (hc : c ≠ a) (hab : a ≠ b) (s : List α) :
    Skips [a, b, a, b] (l ++ [a, b]) (c :: s) := by
  refine (skips_of_notMem hl _).append ?_
  refine Skips.append (a := [a]) (b := [b]) (skips_singleton fun h => ?_) (skips_singleton fun h => ?_)
  · have h := (List.cons_prefix_cons.mp (List.cons_prefix_cons.mp h).2).2
    exact hc (List.cons_prefix_cons.mp h).1.symm
  · exact hab (List.cons_prefix_cons.mp h).1

/-- **The first empty line** ends the block. -/
theorem cut_ended {ls : List (List α)} (hne : ls ≠ []) (h : ∀ l ∈ ls, l ≠ [] ∧ a ∉ l)
    (hab : a ≠ b) (s : List α) :
    cut [a, b, a, b] (ended a b ls ++ a :: b :: s) = some ([a, b].intercalate ls, s) := by
  have hfind : find [a, b, a, b] (ended a b ls ++ a :: b :: s) =
      some ([a, b].intercalate ls).length := by
    induction ls with
    | nil => exact absurd rfl hne
    | cons l ls ih =>
        obtain ⟨⟨-, hl⟩, hls⟩ := List.forall_mem_cons.mp h
        rcases ls with - | ⟨l', ls⟩
        · rw [ended_cons, List.intercalate_singleton, List.append_assoc, find_append_of_notMem hl]
          simp [find, ended]
        · obtain ⟨c, cs, rfl⟩ := List.exists_cons_of_ne_nil (hls l' List.mem_cons_self).1
          have hc : c ≠ a := fun hc => (hls _ List.mem_cons_self).2 (hc ▸ List.mem_cons_self)
          have hnext : ended a b ((c :: cs) :: ls) ++ a :: b :: s = c :: (cs ++ a :: b ::
              (ended a b ls ++ a :: b :: s)) := by
            rw [ended_cons]
            simp
          have hskip := skips_line hl hc hab (cs ++ a :: b :: (ended a b ls ++ a :: b :: s))
          rw [Skips, ← hnext, ih (List.cons_ne_nil _ _) hls] at hskip
          rw [ended_cons, List.intercalate_cons_cons, List.length_append, Nat.add_comm]
          simpa using hskip
  have htext : ended a b ls ++ a :: b :: s = [a, b].intercalate ls ++ [a, b, a, b] ++ s := by
    rw [ended_eq_intercalate a b hne]
    simp
  rw [htext] at hfind ⊢
  exact cut_of_find hfind

end Lines
