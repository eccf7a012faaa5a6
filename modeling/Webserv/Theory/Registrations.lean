/-
Webserv/Theory/Registrations.lean

Which registrations of an epoll set are those of live objects.

`fdOf` tells the descriptor of every object that is alive.  A registration of an open
descriptor is that of the object that has it; the other registrations belong to files that
another process still holds, and their objects are gone.
-/
import Mathlib.Data.List.Perm.Basic
import Mathlib.Logic.Function.Basic
import Mathlib.Order.Defs.LinearOrder
import Webserv.Theory.Epoll

namespace Epoll

variable {Fd Proc Ptr Ev : Type}

/-- The open descriptors have one file each, and no file is a new one. -/
structure Kernel.Sound (k : Kernel Fd Proc Ptr Ev) : Prop where
  fds_nodup : (k.fds.map Prod.fst).Nodup
  files_nodup : (k.fds.map Prod.snd).Nodup
  refers_lt : ∀ f, k.Refers f → f < k.nextFile
  refers : ∀ r ∈ k.epoll, k.Refers r.file

/-- **The registrations**, where `fdOf` are the descriptors of the objects. -/
structure Registered (k : Kernel Fd Proc Ptr Ev) (fdOf : Ptr → Option Fd) : Prop extends
    k.Sound where
  ptrs_nodup : (k.epoll.map Registration.ptr).Nodup
  current : ∀ r ∈ k.epoll, k.IsCurrent r → fdOf r.ptr = some r.fd
  live : ∀ r ∈ k.epoll, ∀ fd, fdOf r.ptr = some fd → k.IsCurrent r
  /-- the file of a registration has no other descriptor -/
  fd_eq : ∀ r ∈ k.epoll, ∀ fd, (fd, r.file) ∈ k.fds → fd = r.fd

variable {k k' : Kernel Fd Proc Ptr Ev} {fdOf : Ptr → Option Fd} {fd : Fd} {p q : Proc}
  {ptr : Ptr} {ev : Ev}

/-! ### Files -/

theorem IsCurrent.refers {r : Registration Fd Ptr Ev} (h : k.IsCurrent r) : k.Refers r.file :=
  .inl (List.mem_map.mpr ⟨_, h, rfl⟩)

/-- A kernel with the same descriptors, whose other processes hold no new file. -/
theorem Kernel.Sound.prune (h : k.Sound) (hfds : k'.fds = k.fds) (hnext : k'.nextFile = k.nextFile)
    (hheld : k'.held.map Prod.snd ⊆ k.held.map Prod.snd) : k'.prune.Sound where
  fds_nodup := by
    show (k'.fds.map Prod.fst).Nodup
    rw [hfds]
    exact h.fds_nodup
  files_nodup := by
    show (k'.fds.map Prod.snd).Nodup
    rw [hfds]
    exact h.files_nodup
  refers_lt := by
    intro f hf
    show f < k'.nextFile
    rw [hnext]
    refine h.refers_lt f (Or.imp (fun hf => ?_) (fun hf => hheld hf) hf)
    rw [← hfds]
    exact hf
  refers := by
    intro r hr
    exact of_decide_eq_true (List.mem_filter.mp hr).2

/-- The registrations of such a kernel. -/
theorem Registered.prune (h : Registered k fdOf) (hfds : k'.fds = k.fds)
    (hnext : k'.nextFile = k.nextFile) (hheld : k'.held.map Prod.snd ⊆ k.held.map Prod.snd)
    (hepoll : k'.epoll = k.epoll) : Registered k'.prune fdOf where
  toSound := h.toSound.prune hfds hnext hheld
  ptrs_nodup := by
    have hsub : k'.prune.epoll.Sublist k.epoll := by
      rw [← hepoll]
      exact List.filter_sublist
    exact (hsub.map _).nodup h.ptrs_nodup
  current := by
    intro r hr hcurrent
    have hr := (List.mem_filter.mp hr).1
    rw [hepoll] at hr
    have hcurrent : (r.fd, r.file) ∈ k'.fds := hcurrent
    rw [hfds] at hcurrent
    exact h.current r hr hcurrent
  live := by
    intro r hr fd hfd
    have hr := (List.mem_filter.mp hr).1
    rw [hepoll] at hr
    show (r.fd, r.file) ∈ k'.fds
    rw [hfds]
    exact h.live r hr fd hfd
  fd_eq := by
    intro r hr fd hfd
    have hr := (List.mem_filter.mp hr).1
    rw [hepoll] at hr
    have hfd : (fd, r.file) ∈ k'.fds := hfd
    rw [hfds] at hfd
    exact h.fd_eq r hr fd hfd

/-- More processes hold files that are there. -/
theorem Registered.hold {held : List (Proc × File)} (h : Registered k fdOf)
    (hheld : ∀ f ∈ held.map Prod.snd, k.Refers f) :
    Registered { k with held := held ++ k.held } fdOf where
  fds_nodup := h.fds_nodup
  files_nodup := h.files_nodup
  refers_lt := by
    intro f hf
    obtain hf | hf := hf
    · exact h.refers_lt f (.inl hf)
    · rw [List.map_append] at hf
      obtain hf | hf := List.mem_append.mp hf
      · exact h.refers_lt f (hheld f hf)
      · exact h.refers_lt f (.inr hf)
  refers := by
    intro r hr
    refine (h.refers r hr).imp id fun hf => ?_
    rw [List.map_append]
    exact List.mem_append_right _ hf
  ptrs_nodup := h.ptrs_nodup
  current := h.current
  live := h.live
  fd_eq := h.fd_eq

theorem Registered.fork (h : Registered k fdOf) (p : Proc) : Registered (k.fork p) fdOf := by
  apply h.hold
  intro f hf
  rw [List.map_map] at hf
  exact .inl hf

section Processes

variable [DecidableEq Proc]

/-- Other processes close files. -/
theorem Registered.release (h : Registered k fdOf) (p : Proc) (f : File) :
    Registered (k.release p f) fdOf :=
  h.prune rfl rfl (List.map_subset _ List.filter_sublist.subset) rfl

theorem Registered.exit (h : Registered k fdOf) (p : Proc) : Registered (k.exit p) fdOf :=
  h.prune rfl rfl (List.map_subset _ List.filter_sublist.subset) rfl

theorem Registered.inherit (h : Registered k fdOf) (p q : Proc) :
    Registered (k.inherit p q) fdOf := by
  apply h.hold
  intro f hf
  rw [List.map_map] at hf
  obtain ⟨d, hd, rfl⟩ := List.mem_map.mp hf
  exact .inr (List.mem_map.mpr ⟨d, (List.mem_filter.mp hd).1, rfl⟩)

end Processes

/-! ### Descriptors -/

/-- A descriptor that is not open gets a new file. -/
theorem Registered.openFd (h : Registered k fdOf) (hfd : ¬ k.IsOpen fd) :
    Registered (k.openFd fd) fdOf := by
  have hnew : ∀ r ∈ k.epoll, (k.openFd fd).IsCurrent r → k.IsCurrent r := by
    intro r hr hcurrent
    obtain heq | hcurrent := List.mem_cons.mp hcurrent
    · -- the new file has no registration
      have hlt := h.refers_lt _ (h.refers r hr)
      rw [(Prod.mk.inj heq).2] at hlt
      exact absurd hlt (Nat.lt_irrefl _)
    · exact hcurrent
  have hrefers : ∀ f, (k.openFd fd).Refers f ↔ f = k.nextFile ∨ k.Refers f := by
    intro f
    rw [Kernel.Refers, Kernel.Refers, Kernel.openFd, List.map_cons, List.mem_cons, or_assoc]
  refine ⟨⟨?_, ?_, ?_, ?_⟩, h.ptrs_nodup, ?_, ?_, ?_⟩
  · exact List.nodup_cons.mpr ⟨hfd, h.fds_nodup⟩
  · refine List.nodup_cons.mpr ⟨fun hmem => ?_, h.files_nodup⟩
    exact Nat.lt_irrefl _ (h.refers_lt _ (.inl hmem))
  · intro f hf
    show f < k.nextFile + 1
    obtain rfl | hf := (hrefers f).mp hf
    · exact Nat.lt_succ_self _
    · exact Nat.lt_succ_of_lt (h.refers_lt f hf)
  · exact fun r hr => (hrefers _).mpr (.inr (h.refers r hr))
  · exact fun r hr hcurrent => h.current r hr (hnew r hr hcurrent)
  · exact fun r hr fd' hfd' => List.mem_cons_of_mem _ (h.live r hr fd' hfd')
  · intro r hr fd' hfd'
    obtain heq | hfd' := List.mem_cons.mp hfd'
    · have hlt := h.refers_lt _ (h.refers r hr)
      rw [(Prod.mk.inj heq).2] at hlt
      exact absurd hlt (Nat.lt_irrefl _)
    · exact h.fd_eq r hr fd' hfd'

/-! ### Objects -/

/-- An object that has no registration yet. -/
theorem Registered.insert [DecidableEq Ptr] (h : Registered k fdOf)
    (hptr : ∀ r ∈ k.epoll, r.ptr ≠ ptr) (fd : Option Fd) :
    Registered k (Function.update fdOf ptr fd) where
  toSound := h.toSound
  ptrs_nodup := h.ptrs_nodup
  current := by
    intro r hr hcurrent
    rw [Function.update_of_ne (hptr r hr)]
    exact h.current r hr hcurrent
  live := by
    intro r hr fd' hfd'
    rw [Function.update_of_ne (hptr r hr)] at hfd'
    exact h.live r hr fd' hfd'
  fd_eq := h.fd_eq

/-- A registration of a descriptor that has been closed is of a file that another process holds. -/
theorem Registered.held (h : Registered k fdOf) {r : Registration Fd Ptr Ev} (hr : r ∈ k.epoll)
    (hclosed : ¬ k.IsCurrent r) : r.file ∈ k.held.map Prod.snd := by
  refine (h.refers r hr).resolve_left fun hopen => hclosed ?_
  obtain ⟨⟨fd', f⟩, hd, rfl⟩ := List.mem_map.mp hopen
  obtain rfl : fd' = r.fd := h.fd_eq r hr fd' hd
  exact hd

/-! ### Closing -/

variable [DecidableEq Fd]

theorem isCurrent_close {r : Registration Fd Ptr Ev} :
    (k.close fd).IsCurrent r ↔ k.IsCurrent r ∧ r.fd ≠ fd := by
  show (r.fd, r.file) ∈ k.fds.filter _ ↔ _
  rw [List.mem_filter, decide_eq_true_iff]
  rfl

/-- A descriptor is closed; `fdOf'` are the descriptors that are left. -/
theorem Registered.close {fdOf' : Ptr → Option Fd} (h : Registered k fdOf)
    (hfdOf : ∀ ptr, fdOf' ptr = if fdOf ptr = some fd then none else fdOf ptr) :
    Registered (k.close fd) fdOf' := by
  have hepoll : ∀ r ∈ (k.close fd).epoll, r ∈ k.epoll := fun r hr => (List.mem_filter.mp hr).1
  refine ⟨⟨?_, ?_, ?_, ?_⟩, ?_, ?_, ?_, ?_⟩
  · exact (List.filter_sublist.map _).nodup h.fds_nodup
  · exact (List.filter_sublist.map _).nodup h.files_nodup
  · intro f hf
    refine h.refers_lt f (hf.imp (fun hf => ?_) id)
    exact (List.filter_sublist.map _).subset hf
  · exact fun r hr => of_decide_eq_true (List.mem_filter.mp hr).2
  · exact (List.filter_sublist.map _).nodup h.ptrs_nodup
  · intro r hr hcurrent
    obtain ⟨hcurrent, hne⟩ := isCurrent_close.mp hcurrent
    have hold := h.current r (hepoll r hr) hcurrent
    rw [hfdOf, hold, if_neg]
    exact fun heq => hne (Option.some.inj heq)
  · intro r hr fd' hfd'
    rw [hfdOf] at hfd'
    split_ifs at hfd' with hclosed
    have hcurrent := h.live r (hepoll r hr) fd' hfd'
    refine isCurrent_close.mpr ⟨hcurrent, ?_⟩
    rintro rfl
    exact hclosed (h.current r (hepoll r hr) hcurrent)
  · intro r hr fd' hfd'
    exact h.fd_eq r (hepoll r hr) fd' (List.mem_filter.mp hfd').1

/-- A descriptor that is nobody's is closed. -/
theorem Registered.close_other (h : Registered k fdOf) (hfd : ∀ ptr, fdOf ptr ≠ some fd) :
    Registered (k.close fd) fdOf :=
  h.close fun ptr => (if_neg (hfd ptr)).symm

/-- An object whose descriptor is closed has no registration, if nothing else holds the file. -/
theorem Registered.ptr_close (h : Registered k fdOf) (hfd : fdOf ptr = some fd)
    (hheld : ∀ f, (fd, f) ∈ k.fds → f ∉ k.held.map Prod.snd) {r : Registration Fd Ptr Ev}
    (hr : r ∈ (k.close fd).epoll) : r.ptr ≠ ptr := by
  rintro rfl
  obtain ⟨hr, hrefers⟩ := List.mem_filter.mp hr
  have hcurrent := h.live r hr fd hfd
  obtain rfl : r.fd = fd := Option.some.inj ((h.current r hr hcurrent).symm.trans hfd)
  obtain hopen | hother := of_decide_eq_true hrefers
  · -- a file has one descriptor only
    obtain ⟨d, hd, hfile⟩ := List.mem_map.mp hopen
    obtain ⟨hd, hne⟩ := List.mem_filter.mp hd
    have hsame := List.inj_on_of_nodup_map h.files_nodup hd hcurrent hfile
    rw [hsame] at hne
    exact of_decide_eq_true hne rfl
  · exact hheld r.file hcurrent hother

/-! ### `epoll_ctl` -/

/-- The registrations that `EPOLL_CTL_ADD` makes: one, if the descriptor is open. -/
theorem Kernel.Sound.ctlAdd_epoll (h : k.Sound) : ∃ new : List (Registration Fd Ptr Ev),
    (k.ctlAdd fd ptr ev).epoll = new ++ k.epoll ∧ new.length ≤ 1 ∧
      ∀ r ∈ new, r.fd = fd ∧ k.IsCurrent r ∧ r.ptr = ptr ∧ r.events = ev := by
  refine ⟨_, rfl, ?_, ?_⟩
  · have hall : (k.fds.filter fun d => d.1 = fd).map Prod.fst =
        List.replicate (k.fds.filter fun d => d.1 = fd).length fd := by
      rw [List.eq_replicate_iff, List.length_map]
      refine ⟨rfl, fun fd' hfd' => ?_⟩
      obtain ⟨d, hd, rfl⟩ := List.mem_map.mp hfd'
      exact of_decide_eq_true (List.mem_filter.mp hd).2
    have hnodup := (List.filter_sublist (p := fun d => d.1 = fd).map Prod.fst).nodup h.fds_nodup
    rw [hall, List.nodup_replicate] at hnodup
    rw [List.length_map]
    exact hnodup
  · intro r hr
    obtain ⟨d, hd, rfl⟩ := List.mem_map.mp hr
    obtain ⟨hmem, hfd⟩ := List.mem_filter.mp hd
    refine ⟨rfl, ?_, rfl, rfl⟩
    show (fd, d.2) ∈ k.fds
    rw [← of_decide_eq_true hfd]
    exact hmem

theorem Registered.ctlAdd (h : Registered k fdOf) (hfd : fdOf ptr = some fd)
    (hptr : ∀ r ∈ k.epoll, r.ptr ≠ ptr) : Registered (k.ctlAdd fd ptr ev) fdOf := by
  obtain ⟨new, hepoll, hlen, hnew⟩ := @Kernel.Sound.ctlAdd_epoll _ _ _ _ k fd ptr ev _ h.toSound
  have hmem : ∀ r ∈ (k.ctlAdd fd ptr ev).epoll, r ∈ new ∨ r ∈ k.epoll := by
    intro r hr
    rw [hepoll] at hr
    exact List.mem_append.mp hr
  refine ⟨⟨h.fds_nodup, h.files_nodup, h.refers_lt, ?_⟩, ?_, ?_, ?_, ?_⟩
  · intro r hr
    obtain hr | hr := hmem r hr
    · exact IsCurrent.refers (hnew r hr).2.1
    · exact h.refers r hr
  · rw [hepoll, List.map_append, List.nodup_append]
    refine ⟨?_, h.ptrs_nodup, ?_⟩
    · rcases new with - | ⟨r, - | ⟨r', rs⟩⟩
      · exact List.nodup_nil
      · exact List.nodup_singleton _
      · exact absurd hlen (by simp)
    · intro p hp q hq
      obtain ⟨r, hr, rfl⟩ := List.mem_map.mp hp
      obtain ⟨r', hr', rfl⟩ := List.mem_map.mp hq
      rw [(hnew r hr).2.2.1]
      exact (hptr r' hr').symm
  · intro r hr hcurrent
    obtain hr | hr := hmem r hr
    · rw [(hnew r hr).2.2.1, (hnew r hr).1]
      exact hfd
    · exact h.current r hr hcurrent
  · intro r hr fd' hfd'
    obtain hr | hr := hmem r hr
    · exact (hnew r hr).2.1
    · exact h.live r hr fd' hfd'
  · intro r hr fd' hfd'
    obtain hr | hr := hmem r hr
    · -- the new registration is of an open descriptor, and no other has its file
      have hcurrent : (r.fd, r.file) ∈ k.fds := (hnew r hr).2.1
      exact congrArg Prod.fst (List.inj_on_of_nodup_map h.files_nodup hfd' hcurrent rfl)
    · exact h.fd_eq r hr fd' hfd'

theorem Registered.ctlDel (h : Registered k fdOf) (fd : Fd) : Registered (k.ctlDel fd) fdOf := by
  have hmem : ∀ r ∈ (k.ctlDel fd).epoll, r ∈ k.epoll := fun r hr => (List.mem_filter.mp hr).1
  refine ⟨⟨h.fds_nodup, h.files_nodup, h.refers_lt, ?_⟩, ?_, ?_, ?_, ?_⟩
  · exact fun r hr => h.refers r (hmem r hr)
  · exact (List.filter_sublist.map _).nodup h.ptrs_nodup
  · exact fun r hr => h.current r (hmem r hr)
  · exact fun r hr => h.live r (hmem r hr)
  · exact fun r hr => h.fd_eq r (hmem r hr)

/-- Behind `EPOLL_CTL_DEL` an object has no registration. -/
theorem Registered.ptr_ctlDel (h : Registered k fdOf) (hfd : fdOf ptr = some fd)
    {r : Registration Fd Ptr Ev} (hr : r ∈ (k.ctlDel fd).epoll) : r.ptr ≠ ptr := by
  rintro rfl
  obtain ⟨hr, hfinds⟩ := List.mem_filter.mp hr
  have hcurrent := h.live r hr fd hfd
  have hfd' := (h.current r hr hcurrent).symm.trans hfd
  exact of_decide_eq_true hfinds ⟨Option.some.inj hfd', hcurrent⟩

/-- An object changes its own registration: nothing but the events. -/
theorem Registered.ctlMod_epoll (h : Registered k fdOf) (hptr : ∀ p, fdOf p = some fd → p = ptr) :
    (k.ctlMod fd ptr ev).epoll =
      k.epoll.map fun r => if k.Finds fd r then { r with events := ev } else r := by
  apply List.map_congr_left
  intro r hr
  by_cases hfinds : k.Finds fd r
  · have hown : r.ptr = ptr := hptr _ (hfinds.1 ▸ h.current r hr hfinds.2)
    rw [if_pos hfinds, if_pos hfinds, ← hown]
  · rw [if_neg hfinds, if_neg hfinds]

theorem Registered.ctlMod (h : Registered k fdOf) (hptr : ∀ p, fdOf p = some fd → p = ptr) :
    Registered (k.ctlMod fd ptr ev) fdOf := by
  have hepoll := @Registered.ctlMod_epoll _ _ _ _ k fdOf fd ptr ev _ h hptr
  -- only the interest of a registration changes
  have hmem : ∀ r ∈ (k.ctlMod fd ptr ev).epoll,
      ∃ r' ∈ k.epoll, r.fd = r'.fd ∧ r.file = r'.file ∧ r.ptr = r'.ptr := by
    intro r hr
    rw [hepoll] at hr
    obtain ⟨r', hr', rfl⟩ := List.mem_map.mp hr
    refine ⟨r', hr', ?_⟩
    split_ifs
    · exact ⟨rfl, rfl, rfl⟩
    · exact ⟨rfl, rfl, rfl⟩
  have hcurrent : ∀ r r' : Registration Fd Ptr Ev, r.fd = r'.fd → r.file = r'.file →
      ((k.ctlMod fd ptr ev).IsCurrent r ↔ k.IsCurrent r') := by
    intro r r' hfd hfile
    show (r.fd, r.file) ∈ k.fds ↔ (r'.fd, r'.file) ∈ k.fds
    rw [hfd, hfile]
  refine ⟨⟨h.fds_nodup, h.files_nodup, h.refers_lt, ?_⟩, ?_, ?_, ?_, ?_⟩
  · intro r hr
    obtain ⟨r', hr', -, hfile, -⟩ := hmem r hr
    rw [hfile]
    exact h.refers r' hr'
  · have hptrs : (k.ctlMod fd ptr ev).epoll.map Registration.ptr = k.epoll.map Registration.ptr := by
      rw [hepoll, List.map_map]
      apply List.map_congr_left
      intro r _
      rw [Function.comp_apply]
      split_ifs
      · rfl
      · rfl
    rw [hptrs]
    exact h.ptrs_nodup
  · intro r hr hc
    obtain ⟨r', hr', hfd, hfile, hp⟩ := hmem r hr
    rw [hp, hfd]
    exact h.current r' hr' ((hcurrent r r' hfd hfile).mp hc)
  · intro r hr fd' hfd'
    obtain ⟨r', hr', hfd, hfile, hp⟩ := hmem r hr
    rw [hp] at hfd'
    exact (hcurrent r r' hfd hfile).mpr (h.live r' hr' fd' hfd')
  · intro r hr fd' hfd'
    obtain ⟨r', hr', hfd, hfile, -⟩ := hmem r hr
    rw [hfd]
    rw [hfile] at hfd'
    exact h.fd_eq r' hr' fd' hfd'

/-! ### Events -/

/-- Registrations go, or are changed to the events `ev`. -/
def Kernel.Quiets (ev : Ev) (k k' : Kernel Fd Proc Ptr Ev) : Prop :=
  ∀ r' ∈ k'.epoll, ∃ r ∈ k.epoll, r.ptr = r'.ptr ∧ (r'.events = r.events ∨ r'.events = ev)

namespace Kernel.Quiets

omit [DecidableEq Fd]

variable {k'' : Kernel Fd Proc Ptr Ev}

theorem of_subset (h : k'.epoll ⊆ k.epoll) : Quiets ev k k' :=
  fun r hr => ⟨r, h hr, rfl, .inl rfl⟩

theorem refl (ev : Ev) (k : Kernel Fd Proc Ptr Ev) : Quiets ev k k := .of_subset fun _ h => h

theorem trans (h : Quiets ev k k') (h' : Quiets ev k' k'') : Quiets ev k k'' := by
  intro r'' hr''
  obtain ⟨r', hr', hptr', hevents'⟩ := h' r'' hr''
  obtain ⟨r, hr, hptr, hevents⟩ := h r' hr'
  refine ⟨r, hr, hptr.trans hptr', ?_⟩
  obtain heq | heq := hevents'
  · rw [heq]
    exact hevents
  · exact .inr heq

end Kernel.Quiets

theorem Registered.quiets_ctlMod (h : Registered k fdOf) (hptr : ∀ p, fdOf p = some fd → p = ptr) :
    k.Quiets ev (k.ctlMod fd ptr ev) := by
  intro r' hr'
  rw [@Registered.ctlMod_epoll _ _ _ _ k fdOf fd ptr ev _ h hptr] at hr'
  obtain ⟨r, hr, rfl⟩ := List.mem_map.mp hr'
  refine ⟨r, hr, ?_⟩
  split_ifs
  · exact ⟨rfl, .inr rfl⟩
  · exact ⟨rfl, .inl rfl⟩

/-- Behind `EPOLL_CTL_MOD` an object has these events. -/
theorem Registered.events_ctlMod (h : Registered k fdOf) (hfd : fdOf ptr = some fd)
    (hptr : ∀ p, fdOf p = some fd → p = ptr) {r : Registration Fd Ptr Ev}
    (hr : r ∈ (k.ctlMod fd ptr ev).epoll) (hown : r.ptr = ptr) : r.events = ev := by
  rw [@Registered.ctlMod_epoll _ _ _ _ k fdOf fd ptr ev _ h hptr] at hr
  obtain ⟨r', hr', rfl⟩ := List.mem_map.mp hr
  by_cases hfinds : k.Finds fd r'
  · rw [if_pos hfinds]
  · rw [if_neg hfinds] at hown
    rw [← hown] at hfd
    have hcurrent := h.live r' hr' fd hfd
    have hfd' := (h.current r' hr' hcurrent).symm.trans hfd
    exact absurd ⟨Option.some.inj hfd', hcurrent⟩ hfinds

end Epoll
