/-
Webserv/Theory/Epoll.lean

Descriptors, open files and an epoll set, as a process sees them.

An `open` makes a new file with one descriptor.  A `fork` gives another process a copy
of every descriptor; what such a process holds is the set of its files.  A registration
belongs to a descriptor and its file.  It goes when it is removed, or when no process
refers to the file any more: closing the descriptor alone does not remove it.
-/
import Mathlib.Data.List.Nodup
import Mathlib.Data.List.Lookmap

namespace Epoll

/-- An open file. -/
abbrev File := Nat

/-- A registration in the epoll set. -/
structure Registration (Fd Ptr Ev : Type) where
  fd : Fd
  file : File
  ptr : Ptr
  events : Ev
  deriving DecidableEq, Repr

/-- The process, the files that other processes hold, and the epoll set. -/
structure Kernel (Fd Proc Ptr Ev : Type) where
  fds : List (Fd × File) := []
  held : List (Proc × File) := []
  epoll : List (Registration Fd Ptr Ev) := []
  nextFile : File := 0

namespace Kernel

variable {Fd Proc Ptr Ev : Type} [DecidableEq Fd] [DecidableEq Proc]
variable {k : Kernel Fd Proc Ptr Ev} {fd fd' : Fd} {f : File} {p : Proc} {ptr : Ptr} {ev : Ev}

/-! ### Operations -/

/-- The descriptor is open. -/
def IsOpen (k : Kernel Fd Proc Ptr Ev) (fd : Fd) : Prop := fd ∈ k.fds.map Prod.fst

instance (k : Kernel Fd Proc Ptr Ev) (fd : Fd) : Decidable (k.IsOpen fd) :=
  inferInstanceAs (Decidable (_ ∈ _))

/-- Some process refers to the file. -/
def Refers (k : Kernel Fd Proc Ptr Ev) (f : File) : Prop :=
  f ∈ k.fds.map Prod.snd ∨ f ∈ k.held.map Prod.snd

instance (k : Kernel Fd Proc Ptr Ev) (f : File) : Decidable (k.Refers f) :=
  inferInstanceAs (Decidable (_ ∨ _))

/-- The registrations of files that nothing refers to are removed. -/
def prune (k : Kernel Fd Proc Ptr Ev) : Kernel Fd Proc Ptr Ev :=
  { k with epoll := k.epoll.filter fun r => k.Refers r.file }

/-- A new file is opened. -/
def openFd (k : Kernel Fd Proc Ptr Ev) (fd : Fd) : Kernel Fd Proc Ptr Ev :=
  { k with fds := (fd, k.nextFile) :: k.fds, nextFile := k.nextFile + 1 }

/-- `close`. -/
def close (k : Kernel Fd Proc Ptr Ev) (fd : Fd) : Kernel Fd Proc Ptr Ev :=
  prune { k with fds := k.fds.filter fun d => d.1 ≠ fd }

/-- `fork`, of the process itself. -/
def fork (k : Kernel Fd Proc Ptr Ev) (p : Proc) : Kernel Fd Proc Ptr Ev :=
  { k with held := k.fds.map (fun d => (p, d.2)) ++ k.held }

/-- Another process, `p`, has forked `q`. -/
def inherit (k : Kernel Fd Proc Ptr Ev) (p q : Proc) : Kernel Fd Proc Ptr Ev :=
  { k with held := (k.held.filter fun h => h.1 = p).map (fun h => (q, h.2)) ++ k.held }

/-- Another process closes its descriptors of a file. -/
def release (k : Kernel Fd Proc Ptr Ev) (p : Proc) (f : File) : Kernel Fd Proc Ptr Ev :=
  prune { k with held := k.held.filter fun h => ¬ (h.1 = p ∧ h.2 = f) }

/-- Another process ends. -/
def exit (k : Kernel Fd Proc Ptr Ev) (p : Proc) : Kernel Fd Proc Ptr Ev :=
  prune { k with held := k.held.filter fun h => h.1 ≠ p }

/-- The registration is that of an open descriptor. -/
def IsCurrent (k : Kernel Fd Proc Ptr Ev) (r : Registration Fd Ptr Ev) : Prop :=
  (r.fd, r.file) ∈ k.fds

instance (k : Kernel Fd Proc Ptr Ev) (r : Registration Fd Ptr Ev) : Decidable (k.IsCurrent r) :=
  inferInstanceAs (Decidable (_ ∈ _))

/-- The registration that `epoll_ctl` finds for a descriptor. -/
def Finds (k : Kernel Fd Proc Ptr Ev) (fd : Fd) (r : Registration Fd Ptr Ev) : Prop :=
  r.fd = fd ∧ k.IsCurrent r

instance (k : Kernel Fd Proc Ptr Ev) (fd : Fd) (r : Registration Fd Ptr Ev) :
    Decidable (k.Finds fd r) :=
  inferInstanceAs (Decidable (_ ∧ _))

/-- The descriptor is registered. -/
def IsRegistered (k : Kernel Fd Proc Ptr Ev) (fd : Fd) : Prop := ∃ r ∈ k.epoll, k.Finds fd r

instance (k : Kernel Fd Proc Ptr Ev) (fd : Fd) : Decidable (k.IsRegistered fd) :=
  inferInstanceAs (Decidable (∃ r ∈ k.epoll, k.Finds fd r))

/-- `EPOLL_CTL_ADD`, of an open descriptor that is not registered. -/
def ctlAdd (k : Kernel Fd Proc Ptr Ev) (fd : Fd) (ptr : Ptr) (ev : Ev) : Kernel Fd Proc Ptr Ev :=
  { k with
    epoll := (k.fds.filter fun d => d.1 = fd).map (fun d => ⟨fd, d.2, ptr, ev⟩) ++ k.epoll }

/-- `EPOLL_CTL_MOD`. -/
def ctlMod (k : Kernel Fd Proc Ptr Ev) (fd : Fd) (ptr : Ptr) (ev : Ev) : Kernel Fd Proc Ptr Ev :=
  { k with
    epoll := k.epoll.map fun r => if k.Finds fd r then { r with ptr := ptr, events := ev } else r }

/-- `EPOLL_CTL_DEL`. -/
def ctlDel (k : Kernel Fd Proc Ptr Ev) (fd : Fd) : Kernel Fd Proc Ptr Ev :=
  { k with epoll := k.epoll.filter fun r => ¬ k.Finds fd r }

/-! ### Descriptors -/

omit [DecidableEq Fd] [DecidableEq Proc] in
@[simp] theorem isOpen_openFd : (k.openFd fd).IsOpen fd' ↔ fd' = fd ∨ k.IsOpen fd' := by
  simp [IsOpen, openFd]

omit [DecidableEq Proc] in
@[simp] theorem isOpen_close : (k.close fd).IsOpen fd' ↔ k.IsOpen fd' ∧ fd' ≠ fd := by
  simp [IsOpen, close, prune, and_comm]

omit [DecidableEq Fd] in
@[simp] theorem isOpen_exit : (k.exit p).IsOpen fd ↔ k.IsOpen fd := Iff.rfl

omit [DecidableEq Proc] in
@[simp] theorem isOpen_ctlAdd : (k.ctlAdd fd ptr ev).IsOpen fd' ↔ k.IsOpen fd' := Iff.rfl

omit [DecidableEq Fd] [DecidableEq Proc] in
/-- Calls that open and close nothing. -/
theorem isOpen_congr {k' : Kernel Fd Proc Ptr Ev} (h : k'.fds = k.fds) :
    k'.IsOpen fd ↔ k.IsOpen fd := by
  rw [IsOpen, IsOpen, h]

end Kernel

end Epoll
