/-
Webserv/Fd.lean

`lib::type::Fd`: an object that owns a descriptor.

Copying an `Fd` empties the original, through a `const_cast`.  The state here is a process
with any number of these objects.  The system may hand out the number of a descriptor again
that has been closed, so the theorem counts what is behind the numbers: every open gives a
resource of its own.
-/
import Webserv.Theory.Ownership
import Webserv.Theory.Transition

namespace Webserv

open Transition (Reachable)
open Ownership (Table Resource)

/-! ### The objects -/

/-- The address of an `Fd` object. -/
abbrev FdAddress := Nat

/-- A process, as far as its `Fd` objects go.  `objects` gives the `fd_` of each object that
lives; `adopted` says which resources have been given to an object, and is read by no function. -/
structure FdProcess where
  objects : FdAddress → Option Int := fun _ => none
  system : Ownership.System Int := {}
  adopted : List Resource := []

namespace FdProcess

/-- `close(fd)`. -/
def close (w : FdProcess) (fd : Int) : FdProcess := { w with system := w.system.close fd }

/-- An assignment to `fd_`. -/
def setFd (w : FdProcess) (x : FdAddress) (fd : Int) : FdProcess :=
  { w with objects := Function.update w.objects x (some fd) }

/-- `GetFd`. -/
def getFd (w : FdProcess) (x : FdAddress) : Int := (w.objects x).getD (-1)

/-- `if (fd_ != -1) close(fd_);` -/
def closeOwn (w : FdProcess) (x : FdAddress) : FdProcess :=
  if w.getFd x ≠ -1 then w.close (w.getFd x) else w

/-- `Fd::Reset(new_fd)`; the default of `new_fd` is -1. -/
def reset (w : FdProcess) (x : FdAddress) (newFd : Int) : FdProcess :=
  (w.closeOwn x).setFd x newFd

/-- `Fd::Fd(int fd)`, and `Fd::Fd()` for -1. -/
def construct (w : FdProcess) (x : FdAddress) (fd : Int) : FdProcess := w.setFd x fd

/-- `Fd::Fd(const Fd& other)`. -/
def copyConstruct (w : FdProcess) (x other : FdAddress) : FdProcess :=
  (w.setFd x (w.getFd other)).setFd other (-1)

/-- `Fd::operator=`. -/
def assign (w : FdProcess) (x other : FdAddress) : FdProcess :=
  if x ≠ other then ((w.closeOwn x).setFd x (w.getFd other)).setFd other (-1) else w

/-- `Fd::~Fd`. -/
def destroy (w : FdProcess) (x : FdAddress) : FdProcess :=
  let w := w.reset x (-1)
  { w with objects := Function.update w.objects x none }

/-- The resource behind a descriptor now belongs to an object. -/
def noteAdopted (w : FdProcess) (fd : Int) : FdProcess :=
  { w with adopted := (w.system.resource fd).toList ++ w.adopted }

/-! ### Operations -/

/-- A descriptor that the system has given, and no object has had. -/
def Fresh (w : FdProcess) (fd : Int) : Prop := ∃ r ∈ w.system.resource fd, r ∉ w.adopted

instance (w : FdProcess) (fd : Int) : Decidable (w.Fresh fd) := by
  unfold Fresh
  infer_instance

end FdProcess

/-- What happens to the objects, and the calls of the program that open a descriptor or close
one that no object has. -/
inductive FdOp
  | opens (fd : Int)
  | closes (fd : Int)
  | construct (x : FdAddress) (fd : Int)
  | copyConstruct (x other : FdAddress)
  | assign (x other : FdAddress)
  | reset (x : FdAddress) (newFd : Int)
  | destroy (x : FdAddress)
  deriving DecidableEq, Repr

/-- An operation.  An object is constructed where none lives, all else is done to one that
lives; a descriptor comes straight from the system, or is -1. -/
def FdProcess.step (w : FdProcess) : FdOp → Option FdProcess
  | .opens fd =>
      if 0 ≤ fd ∧ w.system.resource fd = none then
        some { w with system := w.system.issue fd }
      else none
  | .closes fd => if w.Fresh fd then some (w.close fd) else none
  | .construct x fd =>
      if w.objects x = none ∧ (fd = -1 ∨ w.Fresh fd) then some ((w.construct x fd).noteAdopted fd)
      else none
  | .copyConstruct x other =>
      if w.objects x = none ∧ (w.objects other).isSome then some (w.copyConstruct x other) else none
  | .assign x other =>
      if (w.objects x).isSome ∧ (w.objects other).isSome then some (w.assign x other) else none
  | .reset x newFd =>
      if (w.objects x).isSome ∧ (newFd = -1 ∨ w.Fresh newFd) then
        some ((w.reset x newFd).noteAdopted newFd)
      else none
  | .destroy x => if (w.objects x).isSome then some (w.destroy x) else none

/-! ### The objects as slots -/

/-- The descriptor that a value of `fd_` stands for. -/
def held (fd : Int) : Option Int := if fd = -1 then none else some fd

/-- The objects as the slots of a table. -/
def FdProcess.table (w : FdProcess) : Table FdAddress Int where
  system := w.system
  holds x := (w.objects x).bind held
  adopted := w.adopted

namespace FdProcess

variable {w w' : FdProcess} {x other : FdAddress} {fd : Int}

theorem held_of_ne (h : fd ≠ -1) : held fd = some fd := if_neg h

theorem held_eq_some {fd' : Int} : held fd = some fd' ↔ fd = fd' ∧ fd' ≠ -1 := by
  rw [held]
  split_ifs with hneg
  · subst hneg
    constructor
    · intro h
      cases h
    · rintro ⟨rfl, hne⟩
      exact absurd rfl hne
  · rw [Option.some.injEq]
    constructor
    · rintro rfl
      exact ⟨rfl, hneg⟩
    · exact And.left

theorem table_holds_eq_some : w.table.holds x = some fd ↔ w.objects x = some fd ∧ fd ≠ -1 := by
  rw [table, Option.bind_eq_some_iff]
  constructor
  · rintro ⟨fd', hx, hfd⟩
    obtain ⟨rfl, hne⟩ := held_eq_some.mp hfd
    exact ⟨hx, hne⟩
  · rintro ⟨hx, hne⟩
    exact ⟨fd, hx, held_of_ne hne⟩

theorem table_holds_of_alive (hx : (w.objects x).isSome) : w.table.holds x = held (w.getFd x) := by
  obtain ⟨fd, hfd⟩ := Option.isSome_iff_exists.mp hx
  have hholds : w.table.holds x = (w.objects x).bind held := rfl
  rw [hholds, getFd, hfd]
  rfl

theorem table_holds_of_dead (hx : w.objects x = none) : w.table.holds x = none :=
  congrArg (Option.bind · held) hx

/-! ### Every operation as moves of the table -/

/-- The objects with one that is assigned to. -/
theorem update_bind_held (objects : FdAddress → Option Int) (x : FdAddress) (o : Option Int) :
    (fun y => (Function.update objects x o y).bind held) =
      Function.update (fun y => (objects y).bind held) x (o.bind held) := by
  funext y
  by_cases hyx : y = x
  · subst hyx
    rw [Function.update_self, Function.update_self]
  · rw [Function.update_of_ne hyx, Function.update_of_ne hyx]

theorem setFd_table : (w.setFd x fd).table = w.table.put x (held fd) := by
  show Table.mk _ _ _ = Table.mk _ _ _
  rw [setFd, update_bind_held]
  rfl

/-- The `close` before an assignment to `fd_`. -/
theorem closeOwn_table (hx : (w.objects x).isSome) :
    (w.closeOwn x).table.put x none = w.table.release x := by
  rw [closeOwn, Table.release, table_holds_of_alive hx, held]
  by_cases hneg : w.getFd x = -1
  · rw [if_neg (not_not.mpr hneg), if_pos hneg]
    rfl
  · rw [if_pos hneg, if_neg hneg]
    rfl

theorem closeOwn_objects : (w.closeOwn x).objects = w.objects := by
  rw [closeOwn]
  split_ifs
  · rfl
  · rfl

theorem reset_table (hx : (w.objects x).isSome) :
    (w.reset x fd).table = (w.table.release x).put x (held fd) := by
  rw [reset, setFd_table, ← closeOwn_table hx, Table.put_put]

theorem reset_none_table (hx : (w.objects x).isSome) :
    (w.reset x (-1)).table = w.table.release x := by
  rw [reset_table hx, ← closeOwn_table hx, Table.put_put]
  rfl

theorem destroy_table (hx : (w.objects x).isSome) : (w.destroy x).table = w.table.release x := by
  rw [← reset_none_table hx]
  show Table.mk (w.reset x (-1)).system
    (fun y => (Function.update (w.reset x (-1)).objects x none y).bind held)
    (w.reset x (-1)).adopted = _
  -- an object that holds nothing is as good as none
  have hnone : (none : Option Int).bind held = (w.reset x (-1)).table.holds x := by
    rw [table_holds_of_alive]
    all_goals simp [reset, setFd, getFd, held]
  rw [update_bind_held, hnone]
  exact Table.put_self (w.reset x (-1)).table x

theorem reset_adopt_table (hx : (w.objects x).isSome) (hfd : fd ≠ -1) :
    ((w.reset x fd).noteAdopted fd).table = (w.table.release x).adopt x fd := by
  have hreset := @reset_table w x fd hx
  rw [held_of_ne hfd] at hreset
  rw [Table.adopt, ← hreset, ← closeOwn_table hx]
  rfl

theorem construct_table (hfd : fd ≠ -1) :
    ((w.construct x fd).noteAdopted fd).table = w.table.adopt x fd := by
  rw [Table.adopt, ← held_of_ne hfd, ← setFd_table]
  rfl

/-- The copy of a descriptor, and the `const_cast` behind it. -/
theorem move_table (hother : (w.objects other).isSome) :
    ((w.setFd x (w.getFd other)).setFd other (-1)).table = w.table.move x other := by
  rw [setFd_table, setFd_table, Table.move, table_holds_of_alive hother]
  rfl

theorem assign_table (hx : (w.objects x).isSome) (hother : (w.objects other).isSome)
    (hne : x ≠ other) : (w.assign x other).table = (w.table.release x).move x other := by
  have hobjects : (w.closeOwn x).objects = w.objects := closeOwn_objects
  have hfd : (w.closeOwn x).getFd other = w.getFd other := by
    rw [getFd, hobjects]
    rfl
  have hholds : (w.closeOwn x).table.holds other = (w.table.release x).holds other := by
    rw [← closeOwn_table hx]
    exact (Function.update_of_ne hne.symm _ _).symm
  rw [assign, if_pos hne, ← hfd, move_table (by rw [hobjects]; exact hother), Table.move,
    Table.move, hholds, ← closeOwn_table hx, Table.put_put]

/-! ### The invariant -/

/-- The objects own what they hold, and descriptors are no negative numbers. -/
structure Owned (w : FdProcess) : Prop where
  linear : w.table.Linear
  nonneg : ∀ {fd r}, w.system.resource fd = some r → 0 ≤ fd

/-- Nothing has happened yet. -/
def Start (w : FdProcess) : Prop := w = {}

theorem Owned.start (h : Start w) : Owned w := by
  subst h
  refine ⟨Table.Linear.start, fun hr => ?_⟩
  cases hr

theorem Owned.resource_neg (h : Owned w) : w.system.resource (-1) = none := by
  rcases hr : w.system.resource (-1) with - | r
  · rfl
  · have hle := h.nonneg hr
    omega

theorem Owned.ne_of_fresh (h : Owned w) (hfd : w.Fresh fd) : fd ≠ -1 := by
  rintro rfl
  obtain ⟨r, hr, -⟩ := hfd
  rw [h.resource_neg] at hr
  cases hr

theorem Owned.nonneg_close (h : Owned w) (own : Int) {fd : Int} {r : Resource}
    (hr : (w.close own).system.resource fd = some r) : 0 ≤ fd := by
  have hr : Function.update w.system.resource own none fd = some r := hr
  by_cases hfd : fd = own
  · rw [hfd, Function.update_self] at hr
    cases hr
  · rw [Function.update_of_ne hfd] at hr
    exact h.nonneg hr

theorem Owned.nonneg_closeOwn (h : Owned w) (x : FdAddress) {fd : Int} {r : Resource}
    (hr : (w.closeOwn x).system.resource fd = some r) : 0 ≤ fd := by
  rw [closeOwn] at hr
  split_ifs at hr
  · exact h.nonneg_close _ hr
  · exact h.nonneg hr

/-- **Every operation keeps the invariant.** -/
theorem Owned.step {op : FdOp} (h : Owned w) (hst : w.step op = some w') : Owned w' := by
  have hneg := h.resource_neg
  -- `noteAdopted` notes nothing for -1
  have hnote : ∀ u : FdProcess, u.system.resource (-1) = none → u.noteAdopted (-1) = u := by
    intro u hu
    rw [noteAdopted, hu]
    rfl
  cases op with
  | opens fd =>
      simp only [FdProcess.step] at hst
      split_ifs at hst with hc
      cases hst
      refine ⟨h.linear.issue hc.2, fun {fd' r} hr => ?_⟩
      by_cases hfd : fd' = fd
      · rw [hfd]
        exact hc.1
      · exact h.nonneg ((Function.update_of_ne hfd _ _).symm.trans hr)
  | closes fd =>
      simp only [FdProcess.step] at hst
      split_ifs at hst with hfresh
      cases hst
      obtain ⟨r, hr, hnew⟩ := hfresh
      refine ⟨h.linear.close hr fun {x m} => ?_, h.nonneg_close fd⟩
      -- no object holds the descriptor
      refine ⟨fun hx => ⟨hx, ?_⟩, And.left⟩
      rintro rfl
      obtain ⟨s, hs, hsm⟩ := h.linear.owns hx
      have hrs : r = s := Option.some.inj (hr.symm.trans hsm)
      exact hnew (hrs ▸ hs)
  | construct x fd =>
      simp only [FdProcess.step] at hst
      split_ifs at hst with hc
      cases hst
      obtain ⟨hx, rfl | hfresh⟩ := hc
      · rw [hnote (w.construct x (-1)) hneg]
        refine ⟨?_, h.nonneg⟩
        have hput := @setFd_table w x (-1)
        have hnone : w.table.holds x = held (-1) := table_holds_of_dead hx
        rw [← hnone, Table.put_self] at hput
        rw [construct, hput]
        exact h.linear
      · refine ⟨?_, h.nonneg⟩
        rw [construct_table (h.ne_of_fresh hfresh)]
        exact h.linear.adopt (table_holds_of_dead hx) hfresh
  | copyConstruct x other =>
      simp only [FdProcess.step] at hst
      split_ifs at hst with hc
      cases hst
      obtain ⟨hx, hother⟩ := hc
      refine ⟨?_, h.nonneg⟩
      rw [copyConstruct, move_table hother]
      refine h.linear.move (table_holds_of_dead hx) ?_
      rintro rfl
      rw [hx] at hother
      cases hother
  | assign x other =>
      simp only [FdProcess.step] at hst
      split_ifs at hst with hc
      cases hst
      by_cases hne : x = other
      · rw [assign, if_neg (not_not.mpr hne)]
        exact h
      · refine ⟨?_, ?_⟩
        · rw [assign_table hc.1 hc.2 hne]
          exact (h.linear.release x).move (Table.release_holds _ x) hne
        · rw [assign, if_pos hne]
          exact h.nonneg_closeOwn x
  | reset x newFd =>
      simp only [FdProcess.step] at hst
      split_ifs at hst with hc
      cases hst
      have hreset : ∀ {fd r}, (w.reset x newFd).system.resource fd = some r → 0 ≤ fd :=
        h.nonneg_closeOwn x
      obtain ⟨hx, rfl | hfresh⟩ := hc
      · rw [hnote]
        · refine ⟨?_, hreset⟩
          rw [reset_none_table hx]
          exact h.linear.release x
        · rcases hr : (w.reset x (-1)).system.resource (-1) with - | r
          · rfl
          · exact absurd (hreset hr) (by decide)
      · refine ⟨?_, hreset⟩
        rw [reset_adopt_table hx (h.ne_of_fresh hfresh)]
        exact (h.linear.release x).adopt (Table.release_holds _ x)
          (h.linear.fresh_release hfresh x)
  | destroy x =>
      simp only [FdProcess.step] at hst
      split_ifs at hst with hx
      cases hst
      refine ⟨?_, h.nonneg_closeOwn x⟩
      rw [destroy_table hx]
      exact h.linear.release x

end FdProcess

/-! ### Whole runs -/

/-- The states that sequences of operations reach. -/
abbrev FdProcess.Reached : FdProcess → Prop :=
  Reachable FdProcess.step (fun _ _ => True) FdProcess.Start

theorem FdProcess.Reached.owned {w : FdProcess} (h : w.Reached) : w.Owned :=
  h.invariant (fun _ => Owned.start) fun _ _ _ hi _ hst => hi.step hst

/-- **Descriptors have one owner.**  No two objects hold the same descriptor, an object holds
what it has adopted and is still open, no call of `close` fails and none closes a resource a
second time; and once all objects are gone, all they have adopted has been closed once. -/
theorem fd_owned {w : FdProcess} (h : w.Reached) :
    (∀ x y fd, fd ≠ -1 → w.objects x = some fd → w.objects y = some fd → x = y) ∧
      (∀ x fd, fd ≠ -1 → w.objects x = some fd → ∃ r ∈ w.adopted, w.system.resource fd = some r) ∧
      (none ∉ w.system.closed ∧ w.system.closed.Nodup) ∧
      ((∀ x, w.objects x = none) → ∀ r ∈ w.adopted, w.system.closed.count (some r) = 1) := by
  have hlinear := h.owned.linear
  refine ⟨fun x y fd hfd hx hy => ?_, fun x fd hfd hx => ?_,
    ⟨hlinear.none_notMem, hlinear.closed_nodup⟩, fun hdead r hr => ?_⟩
  · exact hlinear.holder_unique (FdProcess.table_holds_eq_some.mpr ⟨hx, hfd⟩)
      (FdProcess.table_holds_eq_some.mpr ⟨hy, hfd⟩)
  · exact hlinear.owns (FdProcess.table_holds_eq_some.mpr ⟨hx, hfd⟩)
  · exact hlinear.count_closed (fun x => FdProcess.table_holds_of_dead (hdead x)) hr

/-- `accept`, and the copies on the way into a socket: the parameter of the constructor, and
the member.  Then the socket dies, and the system gives the same number again. -/
def acceptedAndClosed : List FdOp :=
  [.opens 5, .construct 0 5, .copyConstruct 1 0, .copyConstruct 2 1, .destroy 1, .destroy 0,
    .destroy 2, .opens 5, .construct 3 5, .construct 4 (-1), .assign 4 3, .assign 4 4]

theorem fd_owned_acceptedAndClosed :
    ∃ w, Transition.run FdProcess.step {} acceptedAndClosed = some w ∧ w.objects 4 = some 5 ∧
      (∀ x y fd, fd ≠ -1 → w.objects x = some fd → w.objects y = some fd → x = y) ∧
      (∀ x fd, fd ≠ -1 → w.objects x = some fd → ∃ r ∈ w.adopted, w.system.resource fd = some r) ∧
      (none ∉ w.system.closed ∧ w.system.closed.Nodup) ∧
      ((∀ x, w.objects x = none) → ∀ r ∈ w.adopted, w.system.closed.count (some r) = 1) := by
  have hsome : ((Transition.run FdProcess.step {} acceptedAndClosed).bind (·.objects 4)) =
      some 5 := by decide
  obtain ⟨w, hrun, hw⟩ := Option.bind_eq_some_iff.mp hsome
  exact ⟨w, hrun, hw, fd_owned (Reachable.run (.start rfl) hrun)⟩

end Webserv
