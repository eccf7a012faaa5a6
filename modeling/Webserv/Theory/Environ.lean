/-
Webserv/Theory/Environ.lean

An environment as a list of strings `NAME=value`, and what `getenv` reads from it.

A string ends at its first NUL, and its name at its first separator.  Where the names are distinct
and hold neither, and no value holds a NUL, a program reads exactly the values it was given, and
no value can pass for another variable.
-/
import Mathlib.Data.List.Nodup
import Webserv.Theory.Substring

namespace Environ

section Variables

variable {α : Type*} (nul sep : α)

/-- Variables that can be told apart. -/
structure Clean (vars : List (List α × Option (List α))) : Prop where
  ne : nul ≠ sep
  distinct : (vars.map Prod.fst).Nodup
  name_sep : ∀ v ∈ vars, sep ∉ v.1
  name_nul : ∀ v ∈ vars, nul ∉ v.1
  value_nul : ∀ v ∈ vars, ∀ value ∈ v.2, nul ∉ value

variable {nul sep} {vars : List (List α × Option (List α))}

theorem Clean.tail {v : List α × Option (List α)} (h : Clean nul sep (v :: vars)) :
    Clean nul sep vars where
  ne := h.ne
  distinct := (List.nodup_cons.mp h.distinct).2
  name_sep w hw := h.name_sep w (List.mem_cons_of_mem v hw)
  name_nul w hw := h.name_nul w (List.mem_cons_of_mem v hw)
  value_nul w hw := h.value_nul w (List.mem_cons_of_mem v hw)

end Variables

variable {α : Type*} [DecidableEq α] (nul sep : α)

/-- A string, as a program sees it. -/
def cString (s : List α) : List α := s.takeWhile (· ≠ nul)

/-- The value in a string, if it is one of the variable `name`. -/
def valueOf (name s : List α) : Option (List α) :=
  if name ++ [sep] <+: s then some (s.drop (name.length + 1)) else none

/-- `getenv`: the value in the first string of the variable `name`. -/
def getenv (env : List (List α)) (name : List α) : Option (List α) :=
  env.findSome? fun s => valueOf sep name (cString nul s)

/-- The strings of some variables; one without a value is left out. -/
def strings (vars : List (List α × Option (List α))) : List (List α) :=
  vars.filterMap fun v => v.2.map (v.1 ++ sep :: ·)

variable {nul sep} {vars : List (List α × Option (List α))} {name key value : List α}

theorem cString_eq {s : List α} (h : nul ∉ s) : cString nul s = s := by
  apply List.takeWhile_eq_self_iff.mpr
  intro c hc
  exact decide_eq_true fun heq => h (heq ▸ hc)

theorem valueOf_entry (hname : sep ∉ name) (hkey : sep ∉ key) :
    valueOf sep name (key ++ sep :: value) = if key = name then some value else none := by
  rw [valueOf]
  by_cases heq : key = name
  · subst heq
    have hbegins : key ++ [sep] <+: key ++ sep :: value := ⟨value, by simp⟩
    rw [if_pos hbegins, if_pos rfl, List.append_cons, List.drop_left' (by simp)]
  · rw [if_neg heq, if_neg]
    rintro ⟨rest, hrest⟩
    rw [List.append_assoc] at hrest
    exact heq (Substring.append_cons_inj hname hkey hrest).1.symm

/-- **A program reads what it was given.** -/
theorem getenv_strings (h : Clean nul sep vars) (hname : sep ∉ name) :
    getenv nul sep (strings sep vars) name = some value ↔ (name, some value) ∈ vars := by
  induction vars with
  | nil =>
      constructor
      · intro hnone
        cases hnone
      · exact fun hmem => absurd hmem List.not_mem_nil
  | cons v vars ih =>
      obtain ⟨key, content⟩ := v
      have hother : key = name → (name, some value) ∉ vars := by
        rintro rfl hmem
        exact (List.nodup_cons.mp h.distinct).1 (List.mem_map.mpr ⟨_, hmem, rfl⟩)
      rcases content with - | content
      · -- without a value there is no string
        have hstrings : strings sep ((key, none) :: vars) = strings sep vars := rfl
        rw [hstrings, ih h.tail, List.mem_cons]
        refine (or_iff_right fun heq => ?_).symm
        cases (Prod.mk.inj heq).2
      · have hstrings : strings sep ((key, some content) :: vars) =
            (key ++ sep :: content) :: strings sep vars := rfl
        have hsep : sep ∉ key := h.name_sep _ List.mem_cons_self
        rw [hstrings, List.mem_cons, Prod.mk.injEq, Option.some.injEq, getenv, List.findSome?_cons]
        have hclean : nul ∉ key ++ sep :: content := by
          rw [List.mem_append, List.mem_cons]
          rintro (hmem | heq | hmem)
          · exact h.name_nul _ List.mem_cons_self hmem
          · exact h.ne heq
          · exact h.value_nul _ List.mem_cons_self content rfl hmem
        rw [cString_eq hclean, valueOf_entry hname hsep]
        by_cases heq : key = name
        · rw [if_pos heq, or_iff_left (hother heq), and_iff_right heq.symm, eq_comm]
          exact Option.some_inj
        · rw [if_neg heq, or_iff_right fun hboth => heq hboth.1.symm]
          exact ih h.tail

end Environ
