/-
Webserv/Theory/Ownership.lean

Resources behind names, and the slots that own them.

A system hands out names, and may hand out the same name again once it has been closed;
so what a name stands for is a resource with a number of its own.  A slot that adopts a
name owns the resource behind it.  What slots do is made of three moves: adopt a name,
hand a name over to an empty slot, release the name.  `Linear` is the invariant of these.
-/
import Mathlib.Data.List.Nodup
import Mathlib.Logic.Function.Basic

namespace Ownership

/-- A resource: every open gives a new one. -/
abbrev Resource := Nat

/-- What the names of a system stand for, and what its calls of `close` have closed:
a resource, or nothing if the name was not open. -/
structure System (Name : Type*) where
  resource : Name → Option Resource := fun _ => none
  next : Resource := 0
  closed : List (Option Resource) := []

/-- Slots, the names they hold, and the resources that slots have adopted. -/
structure Table (Slot Name : Type*) where
  system : System Name := {}
  holds : Slot → Option Name := fun _ => none
  adopted : List Resource := []

variable {Slot Name : Type*} [DecidableEq Slot] [DecidableEq Name]

/-! ### The moves -/

/-- The system hands out a name. -/
def System.issue (y : System Name) (n : Name) : System Name :=
  { y with resource := Function.update y.resource n (some y.next), next := y.next + 1 }

/-- A name is closed. -/
def System.close (y : System Name) (n : Name) : System Name :=
  { y with resource := Function.update y.resource n none, closed := y.closed ++ [y.resource n] }

namespace Table

/-- The name stands for a resource that no slot has adopted. -/
def Fresh (t : Table Slot Name) (n : Name) : Prop :=
  ∃ r, t.system.resource n = some r ∧ r ∉ t.adopted

/-- A slot is given a name, or emptied. -/
def put (t : Table Slot Name) (x : Slot) (n : Option Name) : Table Slot Name :=
  { t with holds := Function.update t.holds x n }

omit [DecidableEq Name] in
@[simp] theorem put_put (t : Table Slot Name) (x : Slot) (n m : Option Name) :
    (t.put x n).put x m = t.put x m := by
  simp only [put, Function.update_idem]

omit [DecidableEq Name] in
theorem put_self (t : Table Slot Name) (x : Slot) : t.put x (t.holds x) = t := by
  simp only [put, Function.update_eq_self]

/-- A slot adopts a name. -/
def adopt (t : Table Slot Name) (x : Slot) (n : Name) : Table Slot Name :=
  { t.put x (some n) with adopted := (t.system.resource n).toList ++ t.adopted }

/-- A slot takes what another one holds. -/
def move (t : Table Slot Name) (x y : Slot) : Table Slot Name :=
  (t.put x (t.holds y)).put y none

/-- A slot closes what it holds. -/
def release (t : Table Slot Name) (x : Slot) : Table Slot Name :=
  { t with system := (t.holds x).elim t.system t.system.close }.put x none

theorem release_holds (t : Table Slot Name) (x : Slot) : (t.release x).holds x = none :=
  Function.update_self _ _ _

/-! ### The invariant -/

/-- Every adopted resource is owned by one slot, or has been closed once. -/
structure Linear (t : Table Slot Name) : Prop where
  holder_unique : ∀ {x y n}, t.holds x = some n → t.holds y = some n → x = y
  owns : ∀ {x n}, t.holds x = some n → ∃ r ∈ t.adopted, t.system.resource n = some r
  owned : ∀ {n r}, t.system.resource n = some r → r ∈ t.adopted → ∃ x, t.holds x = some n
  name_unique : ∀ {n m r}, t.system.resource n = some r → t.system.resource m = some r → n = m
  resource_lt : ∀ {n r}, t.system.resource n = some r → r < t.system.next
  adopted_lt : ∀ {r}, r ∈ t.adopted → r < t.system.next
  closed_lt : ∀ {r}, some r ∈ t.system.closed → r < t.system.next
  none_notMem : none ∉ t.system.closed
  closed_nodup : t.system.closed.Nodup
  closed_gone : ∀ {n r}, t.system.resource n = some r → some r ∉ t.system.closed
  accounted : ∀ {r}, r ∈ t.adopted → (∃ n, t.system.resource n = some r) ∨ some r ∈ t.system.closed

variable {t : Table Slot Name} {x y : Slot} {n : Name}

omit [DecidableEq Slot] [DecidableEq Name] in
theorem Linear.start : Linear ({} : Table Slot Name) := by
  constructor <;> simp

omit [DecidableEq Slot] in
theorem Linear.issue (h : t.Linear) (hn : t.system.resource n = none) :
    Linear { t with system := t.system.issue n } := by
  have hresource : ∀ {m r}, Function.update t.system.resource n (some t.system.next) m = some r →
      m = n ∧ r = t.system.next ∨ m ≠ n ∧ t.system.resource m = some r := by
    intro m r hm
    by_cases hmn : m = n
    · rw [hmn, Function.update_self] at hm
      exact .inl ⟨hmn, (Option.some.inj hm).symm⟩
    · rw [Function.update_of_ne hmn] at hm
      exact .inr ⟨hmn, hm⟩
  -- what was open stays so
  have hkeeps : ∀ {m r}, t.system.resource m = some r →
      Function.update t.system.resource n (some t.system.next) m = some r := by
    intro m r hm
    rw [Function.update_of_ne, hm]
    rintro rfl
    rw [hn] at hm
    cases hm
  refine ⟨h.holder_unique, ?_, ?_, ?_, ?_, fun hr => Nat.lt_succ_of_lt (h.adopted_lt hr),
    fun hr => Nat.lt_succ_of_lt (h.closed_lt hr), h.none_notMem, h.closed_nodup, ?_, ?_⟩
  · intro x m hx
    obtain ⟨r, hr, hm⟩ := h.owns hx
    exact ⟨r, hr, hkeeps hm⟩
  · intro m r hm hr
    obtain ⟨rfl, rfl⟩ | ⟨-, hm⟩ := hresource hm
    · exact absurd (h.adopted_lt hr) (Nat.lt_irrefl _)
    · exact h.owned hm hr
  · intro m m' r hm hm'
    obtain ⟨rfl, rfl⟩ | ⟨-, hm⟩ := hresource hm
    · obtain ⟨rfl, -⟩ | ⟨-, hm'⟩ := hresource hm'
      · rfl
      · exact absurd (h.resource_lt hm') (Nat.lt_irrefl _)
    · obtain ⟨-, rfl⟩ | ⟨-, hm'⟩ := hresource hm'
      · exact absurd (h.resource_lt hm) (Nat.lt_irrefl _)
      · exact h.name_unique hm hm'
  · intro m r hm
    obtain ⟨-, rfl⟩ | ⟨-, hm⟩ := hresource hm
    · exact Nat.lt_succ_self _
    · exact Nat.lt_succ_of_lt (h.resource_lt hm)
  · intro m r hm hclosed
    obtain ⟨-, rfl⟩ | ⟨-, hm⟩ := hresource hm
    · exact absurd (h.closed_lt hclosed) (Nat.lt_irrefl _)
    · exact h.closed_gone hm hclosed
  · intro r hr
    refine (h.accounted hr).imp_left ?_
    rintro ⟨m, hm⟩
    exact ⟨m, hkeeps hm⟩

omit [DecidableEq Slot] in
/-- A name that is closed, by the slot that holds it or before a slot has adopted it. -/
theorem Linear.close {holds : Slot → Option Name} {r : Resource} (h : t.Linear)
    (hn : t.system.resource n = some r)
    (hholds : ∀ {x m}, holds x = some m ↔ t.holds x = some m ∧ m ≠ n) :
    Linear { t with system := t.system.close n, holds := holds } := by
  have hresource : ∀ {m s}, Function.update t.system.resource n none m = some s →
      m ≠ n ∧ t.system.resource m = some s := by
    intro m s hm
    by_cases hmn : m = n
    · rw [hmn, Function.update_self] at hm
      cases hm
    · rw [Function.update_of_ne hmn] at hm
      exact ⟨hmn, hm⟩
  -- the name is looked up when it is closed, so that what was behind it goes into the record
  have hclosed : ∀ {s}, some s ∈ t.system.closed ++ [t.system.resource n] ↔
      some s ∈ t.system.closed ∨ s = r := by
    intro s
    rw [List.mem_append, List.mem_singleton, hn, Option.some.injEq]
  refine ⟨fun hx hy => h.holder_unique (hholds.mp hx).1 (hholds.mp hy).1, ?_, ?_, ?_, ?_,
    h.adopted_lt, ?_, ?_, ?_, ?_, ?_⟩
  · intro x m hx
    obtain ⟨hx, hmn⟩ := hholds.mp hx
    obtain ⟨s, hs, hm⟩ := h.owns hx
    exact ⟨s, hs, (Function.update_of_ne hmn _ _).trans hm⟩
  · intro m s hm hs
    obtain ⟨hmn, hm⟩ := hresource hm
    obtain ⟨x, hx⟩ := h.owned hm hs
    exact ⟨x, hholds.mpr ⟨hx, hmn⟩⟩
  · exact fun hm hm' => h.name_unique (hresource hm).2 (hresource hm').2
  · exact fun hm => h.resource_lt (hresource hm).2
  · intro s hs
    obtain hs | rfl := hclosed.mp hs
    · exact h.closed_lt hs
    · exact h.resource_lt hn
  · show none ∉ t.system.closed ++ [t.system.resource n]
    rw [List.mem_append, List.mem_singleton, hn]
    rintro (hnone | hnone)
    · exact h.none_notMem hnone
    · cases hnone
  · show (t.system.closed ++ [t.system.resource n]).Nodup
    rw [hn]
    rw [← List.concat_eq_append]
    exact h.closed_nodup.concat (h.closed_gone hn)
  · intro m s hm hs
    obtain ⟨hmn, hm⟩ := hresource hm
    obtain hs | rfl := hclosed.mp hs
    · exact h.closed_gone hm hs
    · exact hmn (h.name_unique hm hn)
  · intro s hs
    obtain ⟨m, hm⟩ | hgone := h.accounted hs
    · by_cases hmn : m = n
      · subst hmn
        exact .inr (hclosed.mpr (.inr (Option.some.inj (hm.symm.trans hn))))
      · exact .inl ⟨m, (Function.update_of_ne hmn _ _).trans hm⟩
    · exact .inr (hclosed.mpr (.inl hgone))

omit [DecidableEq Name] in
theorem Linear.adopt (h : t.Linear) (hx : t.holds x = none) (hn : t.Fresh n) :
    (t.adopt x n).Linear := by
  obtain ⟨r, hr, hfresh⟩ := hn
  -- a holder would be one of a resource adopted before
  have hfree : ∀ {y}, t.holds y ≠ some n := by
    intro y hy
    obtain ⟨s, hs, hsn⟩ := h.owns hy
    rw [hr] at hsn
    exact hfresh (Option.some.inj hsn ▸ hs)
  have hadopted : ∀ {s}, s ∈ (t.system.resource n).toList ++ t.adopted ↔ s = r ∨ s ∈ t.adopted := by
    intro s
    rw [hr, List.mem_append, Option.toList_some, List.mem_singleton]
  have hholds : ∀ {y m}, Function.update t.holds x (some n) y = some m →
      y = x ∧ m = n ∨ t.holds y = some m := by
    intro y m hy
    by_cases hyx : y = x
    · rw [hyx, Function.update_self] at hy
      exact .inl ⟨hyx, (Option.some.inj hy).symm⟩
    · rw [Function.update_of_ne hyx] at hy
      exact .inr hy
  refine ⟨?_, ?_, ?_, h.name_unique, h.resource_lt, ?_, h.closed_lt, h.none_notMem, h.closed_nodup,
    h.closed_gone, ?_⟩
  · intro y z m hy hz
    obtain ⟨hyx, hmn⟩ | hy' := hholds hy
    · obtain ⟨hzx, -⟩ | hz' := hholds hz
      · rw [hyx, hzx]
      · rw [hmn] at hz'
        exact absurd hz' hfree
    · obtain ⟨-, hmn⟩ | hz' := hholds hz
      · rw [hmn] at hy'
        exact absurd hy' hfree
      · exact h.holder_unique hy' hz'
  · intro y m hy
    obtain ⟨-, rfl⟩ | hy := hholds hy
    · exact ⟨r, hadopted.mpr (.inl rfl), hr⟩
    · obtain ⟨s, hs, hm⟩ := h.owns hy
      exact ⟨s, hadopted.mpr (.inr hs), hm⟩
  · intro m s hm hs
    obtain rfl | hs := hadopted.mp hs
    · obtain rfl := h.name_unique hm hr
      exact ⟨x, Function.update_self _ _ _⟩
    · obtain ⟨y, hy⟩ := h.owned hm hs
      refine ⟨y, (Function.update_of_ne ?_ _ _).trans hy⟩
      rintro rfl
      rw [hx] at hy
      cases hy
  · intro s hs
    obtain rfl | hs := hadopted.mp hs
    · exact h.resource_lt hr
    · exact h.adopted_lt hs
  · intro s hs
    obtain rfl | hs := hadopted.mp hs
    · exact .inl ⟨n, hr⟩
    · exact h.accounted hs

omit [DecidableEq Name] in
theorem Linear.move (h : t.Linear) (hx : t.holds x = none) (hxy : x ≠ y) :
    (t.move x y).Linear := by
  have hholds : ∀ {z m}, (t.move x y).holds z = some m ↔
      z = x ∧ t.holds y = some m ∨ z ≠ y ∧ t.holds z = some m := by
    intro z m
    show Function.update (Function.update t.holds x (t.holds y)) y none z = some m ↔ _
    by_cases hzy : z = y
    · subst hzy
      rw [Function.update_self]
      simp [Ne.symm hxy]
    · rw [Function.update_of_ne hzy]
      by_cases hzx : z = x
      · subst hzx
        rw [Function.update_self, hx]
        simp
      · rw [Function.update_of_ne hzx]
        simp [hzx, hzy]
  refine ⟨?_, ?_, ?_, h.name_unique, h.resource_lt, h.adopted_lt, h.closed_lt, h.none_notMem,
    h.closed_nodup, h.closed_gone, h.accounted⟩
  · intro z w m hz hw
    obtain ⟨hzx, hz'⟩ | ⟨hzy, hz'⟩ := hholds.mp hz
    · obtain ⟨hwx, -⟩ | ⟨hwy, hw'⟩ := hholds.mp hw
      · rw [hzx, hwx]
      · exact absurd (h.holder_unique hw' hz') hwy
    · obtain ⟨-, hw'⟩ | ⟨-, hw'⟩ := hholds.mp hw
      · exact absurd (h.holder_unique hz' hw') hzy
      · exact h.holder_unique hz' hw'
  · intro z m hz
    obtain ⟨-, hz⟩ | ⟨-, hz⟩ := hholds.mp hz
    · exact h.owns hz
    · exact h.owns hz
  · intro m s hm hs
    obtain ⟨z, hz⟩ := h.owned hm hs
    by_cases hzy : z = y
    · subst hzy
      exact ⟨x, hholds.mpr (.inl ⟨rfl, hz⟩)⟩
    · exact ⟨z, hholds.mpr (.inr ⟨hzy, hz⟩)⟩

theorem Linear.release (h : t.Linear) (x : Slot) : (t.release x).Linear := by
  rcases hx : t.holds x with - | n
  · have hsame : t.release x = t := by
      rw [Table.release, hx, Option.elim_none, ← hx]
      exact t.put_self x
    rw [hsame]
    exact h
  · obtain ⟨r, -, hr⟩ := h.owns hx
    rw [Table.release, hx, Option.elim_some]
    refine h.close hr fun {z m} => ?_
    by_cases hzx : z = x
    · subst hzx
      rw [Function.update_self, hx]
      simp [eq_comm]
    · rw [Function.update_of_ne hzx]
      refine ⟨fun hz => ⟨hz, ?_⟩, And.left⟩
      rintro rfl
      exact hzx (h.holder_unique hz hx)

/-- A fresh name stays so when a slot closes its own. -/
theorem Linear.fresh_release (h : t.Linear) (hn : t.Fresh n) (x : Slot) :
    (t.release x).Fresh n := by
  obtain ⟨r, hr, hfresh⟩ := hn
  refine ⟨r, ?_, hfresh⟩
  rw [← hr, Table.release]
  rcases hx : t.holds x with - | m
  · rfl
  · refine Function.update_of_ne ?_ _ _
    rintro rfl
    obtain ⟨s, hs, hsn⟩ := h.owns hx
    rw [hr] at hsn
    exact hfresh (Option.some.inj hsn ▸ hs)

omit [DecidableEq Slot] [DecidableEq Name] in
/-- **Once no slot holds anything**, every adopted resource has been closed exactly once. -/
theorem Linear.count_closed (h : t.Linear) (hempty : ∀ x, t.holds x = none) {r : Resource}
    (hr : r ∈ t.adopted) : t.system.closed.count (some r) = 1 := by
  apply List.count_eq_one_of_mem h.closed_nodup
  refine (h.accounted hr).resolve_left ?_
  rintro ⟨n, hn⟩
  obtain ⟨x, hx⟩ := h.owned hn hr
  rw [hempty x] at hx
  cases hx

end Table

end Ownership
