/-
Webserv/Theory/Watching.lean

Which calls leave a descriptor in the epoll set.

A registration is lost by `EPOLL_CTL_DEL`, or with the last reference to its file.  As long
as its own descriptor is open and is not the one that a call is about, it stays what it is.
-/
import Webserv.Theory.Epoll

namespace Epoll.Kernel

variable {Fd Proc Ptr Ev : Type} {k k' : Kernel Fd Proc Ptr Ev} {fd fd' : Fd} {f : File}
  {p q : Proc} {ptr ptr' : Ptr} {ev ev' : Ev}

/-- The epoll set holds the open descriptor `fd`, with this pointer and these events. -/
def Watches (k : Kernel Fd Proc Ptr Ev) (fd : Fd) (ptr : Ptr) (ev : Ev) : Prop :=
  ∃ r ∈ k.epoll, k.Finds fd r ∧ r.ptr = ptr ∧ r.events = ev

/-- A registration of another descriptor is not found. -/
theorem Finds.ne {r : Registration Fd Ptr Ev} (h : k.Finds fd r) (hne : fd ≠ fd') :
    ¬ k.Finds fd' r := fun h' => hne (h.1.symm.trans h'.1)

namespace Watches

theorem isRegistered (h : k.Watches fd ptr ev) : k.IsRegistered fd := by
  obtain ⟨r, hr, hfinds, -⟩ := h
  exact ⟨r, hr, hfinds⟩

theorem isOpen (h : k.Watches fd ptr ev) : k.IsOpen fd := by
  obtain ⟨r, -, ⟨rfl, hcurrent⟩, -⟩ := h
  exact List.mem_map.mpr ⟨_, hcurrent, rfl⟩

/-- The descriptor keeps its file, and the registration is still there. -/
theorem of_subset (h : k.Watches fd ptr ev) (hfds : ∀ f, (fd, f) ∈ k.fds → (fd, f) ∈ k'.fds)
    (hepoll : k.epoll ⊆ k'.epoll) : k'.Watches fd ptr ev := by
  obtain ⟨r, hr, ⟨rfl, hcurrent⟩, hptr, hevents⟩ := h
  exact ⟨r, hepoll hr, ⟨rfl, hfds r.file hcurrent⟩, hptr, hevents⟩

/-! ### Files and processes -/

theorem openFd (h : k.Watches fd ptr ev) (fd' : Fd) : (k.openFd fd').Watches fd ptr ev :=
  h.of_subset (fun _ hf => List.mem_cons_of_mem _ hf) fun _ hr => hr

theorem fork (h : k.Watches fd ptr ev) (p : Proc) : (k.fork p).Watches fd ptr ev :=
  h.of_subset (fun _ hf => hf) fun _ hr => hr

/-- The descriptor itself refers to the file. -/
theorem prune (h : k.Watches fd ptr ev) (hfds : ∀ f, (fd, f) ∈ k.fds → (fd, f) ∈ k'.fds)
    (hepoll : k.epoll ⊆ k'.epoll) : k'.prune.Watches fd ptr ev := by
  obtain ⟨r, hr, ⟨rfl, hcurrent⟩, hptr, hevents⟩ := h
  have hcurrent : (r.fd, r.file) ∈ k'.fds := hfds r.file hcurrent
  have hrefers : k'.Refers r.file := .inl (List.mem_map.mpr ⟨_, hcurrent, rfl⟩)
  exact ⟨r, List.mem_filter.mpr ⟨hepoll hr, decide_eq_true hrefers⟩, ⟨rfl, hcurrent⟩, hptr, hevents⟩

section Calls

variable [DecidableEq Fd]

theorem close (h : k.Watches fd ptr ev) (hne : fd ≠ fd') : (k.close fd').Watches fd ptr ev := by
  refine h.prune (fun f hf => ?_) fun _ hr => hr
  exact List.mem_filter.mpr ⟨hf, decide_eq_true hne⟩

/-! ### `epoll_ctl` -/

theorem ctlAdd (h : k.Watches fd ptr ev) : (k.ctlAdd fd' ptr' ev').Watches fd ptr ev :=
  h.of_subset (fun _ hf => hf) fun _ hr => List.mem_append_right _ hr

/-- Behind `EPOLL_CTL_ADD` an open descriptor is in the epoll set. -/
theorem of_ctlAdd (h : k.IsOpen fd) : (k.ctlAdd fd ptr ev).Watches fd ptr ev := by
  obtain ⟨⟨_, f⟩, hf, rfl⟩ := List.mem_map.mp h
  refine ⟨⟨_, f, ptr, ev⟩, List.mem_append_left _ ?_, ⟨rfl, hf⟩, rfl, rfl⟩
  exact List.mem_map.mpr ⟨_, List.mem_filter.mpr ⟨hf, decide_eq_true rfl⟩, rfl⟩

theorem ctlMod (h : k.Watches fd ptr ev) (hne : fd ≠ fd') :
    (k.ctlMod fd' ptr' ev').Watches fd ptr ev := by
  obtain ⟨r, hr, hfinds, hptr, hevents⟩ := h
  refine ⟨r, List.mem_map.mpr ⟨r, hr, ?_⟩, hfinds, hptr, hevents⟩
  rw [if_neg (hfinds.ne hne)]

/-- Behind `EPOLL_CTL_MOD` a registered descriptor has the new events. -/
theorem of_ctlMod (h : k.IsRegistered fd) : (k.ctlMod fd ptr ev).Watches fd ptr ev := by
  obtain ⟨r, hr, hfinds⟩ := h
  refine ⟨{ r with ptr := ptr, events := ev }, List.mem_map.mpr ⟨r, hr, ?_⟩, hfinds, rfl, rfl⟩
  rw [if_pos hfinds]

theorem ctlDel (h : k.Watches fd ptr ev) (hne : fd ≠ fd') : (k.ctlDel fd').Watches fd ptr ev := by
  obtain ⟨r, hr, hfinds, hptr, hevents⟩ := h
  exact ⟨r, List.mem_filter.mpr ⟨hr, decide_eq_true (hfinds.ne hne)⟩, hfinds, hptr, hevents⟩

end Calls

section Processes

variable [DecidableEq Proc]

theorem inherit (h : k.Watches fd ptr ev) (p q : Proc) : (k.inherit p q).Watches fd ptr ev :=
  h.of_subset (fun _ hf => hf) fun _ hr => hr

theorem release (h : k.Watches fd ptr ev) (p : Proc) (f : File) :
    (k.release p f).Watches fd ptr ev := h.prune (fun _ hf => hf) fun _ hr => hr

theorem exit (h : k.Watches fd ptr ev) (p : Proc) : (k.exit p).Watches fd ptr ev :=
  h.prune (fun _ hf => hf) fun _ hr => hr

end Processes

end Watches

end Epoll.Kernel
