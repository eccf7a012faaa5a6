/-
Webserv/Dangling.lean

Whom the pointers of the epoll set belong to.

A registration outlives its descriptor if another process holds the open file.  Nearly every
way out of the table calls `EPOLL_CTL_DEL` before the socket is deleted; a sweep that finds
a CGI socket does not, and a program started meanwhile has a copy of its descriptor.
-/
import Webserv.Registrations

namespace Webserv

open Epoll (Registered)

/-- The object is alive, and its entry is in the table. -/
def World.IsLive (w : World) (id : SocketId) : Prop :=
  ∃ s, w.heap id = some s ∧ w.sockets[s.getFd]? = some id

/-- **Pointers are those of live sockets**: those of the epoll set, while the loop runs, and
those of the events that are still to be handled. -/
structure PointersLive (w : World) : Prop where
  registered : w.control ≠ .ended → ∀ r ∈ w.kernel.epoll, w.IsLive r.ptr
  reported : ∀ e ∈ w.control.events, w.IsLive e.1

/-- The CGI socket that the next visit of a sweep removes, with its descriptor. -/
def World.dropped (w : World) : Label → Option (Fd × CgiSocket)
  | .visit _ _ =>
      match w.control with
      | .sweeping now ((fd, id) :: _) =>
          match w.heap id with
          | some (.cgi g) =>
              if (Socket.cgi g).isTimeout (now - kRequestTimeout) then some (fd, g) else none
          | _ => none
      | _ => none
  | _ => none

/-- No process but its own program holds the file of a CGI socket. -/
def HeldByOwn (k : Kernel) (fd : Fd) (g : CgiSocket) : Prop :=
  ∀ d ∈ k.fds, d.1 = fd → ∀ h ∈ k.held, h.2 = d.2 → g.pid = some h.1

instance (k : Kernel) (fd : Fd) (g : CgiSocket) : Decidable (HeldByOwn k fd g) :=
  inferInstanceAs (Decidable (∀ d ∈ _, _ → ∀ h ∈ _, _))

/-- A CGI socket that is timed out is not held by another process. -/
def NoInheritor (w : World) (l : Label) : Prop := ∀ e ∈ w.dropped l, HeldByOwn w.kernel e.1 e.2

instance (w : World) (l : Label) : Decidable (NoInheritor w l) :=
  inferInstanceAs (Decidable (∀ e ∈ _, _))

section Steps

variable {w w' : World} {id : SocketId} {fd : Fd}

/-- A program has ended, and nothing holds the file any more. -/
theorem cgi_remove_tidies {g : CgiSocket} (hw : Listed w) (hg : w.heap id = some (.cgi g))
    (hfd : w.fdOf id = some fd) (hheld : HeldByOwn w.kernel fd g) : Tidies w (w.remove id fd) := by
  have hsame : fd = g.fd := by
    rw [World.fdOf, hg] at hfd
    exact (Option.some.inj hfd).symm
  have hkernel : (w.remove id fd).kernel = ((w.erase fd).reap (.cgi g)).kernel.close fd := by
    rw [World.remove, delete_kernel (show (w.erase fd).heap id = some (.cgi g) from hg), hsame]
    rfl
  have hreap : Registered ((w.erase fd).reap (.cgi g)).kernel w.fdOf :=
    (@reap_registered (w.erase fd) w.fdOf hw.registered (.cgi g)).1
  have hnone : ∀ f, (fd, f) ∈ ((w.erase fd).reap (.cgi g)).kernel.fds →
      f ∉ ((w.erase fd).reap (.cgi g)).kernel.held.map Prod.snd := by
    intro f hf hmem
    obtain ⟨⟨p, f'⟩, hh, rfl⟩ := List.mem_map.mp hmem
    rw [World.reap] at hf hh
    rcases hpid : g.pid with - | pid
    · rw [hpid] at hf hh
      have hown := hheld _ hf rfl _ hh rfl
      rw [hpid] at hown
      cases hown
    · rw [hpid] at hf hh
      -- its own program is killed
      obtain ⟨hh, hne⟩ := List.mem_filter.mp hh
      have hown := hheld _ hf rfl _ hh rfl
      rw [hpid] at hown
      cases hown
      exact of_decide_eq_true hne rfl
  intro r' hr' hdead
  have hgone : r'.ptr ≠ id := by
    rw [hkernel] at hr'
    exact hreap.ptr_close hfd hnone hr'
  obtain hnew | ⟨r, hr, hptr, -⟩ := (hw.remove hfd).2.regs r' hr'
  · have hlt := (hw.remove hfd).1.ptr_lt r' hr'
    rw [remove_nextId] at hlt
    exact absurd hlt hnew.not_gt
  · refine ⟨r, hr, hptr, ?_⟩
    rw [remove_fdOf hfd, if_neg hgone, ← hptr] at hdead
    exact hdead

/-- **A visit** leaves no registration of a socket it removes. -/
theorem visit_tidies {now : Int} {entries : List (Fd × SocketId)} {s : Socket}
    {sends : List (Option Nat)} {date : Option Bytes} (hw : Listed w) (hs : w.heap id = some s)
    (hfd : w.fdOf id = some fd) (hc : w.control = .sweeping now ((fd, id) :: entries))
    (hl : NoInheritor w (.visit sends date)) : Tidies w (w.visit now fd id s sends date) := by
  by_cases hout : s.isTimeout (now - kRequestTimeout) = true
  · rw [World.visit, if_pos hout]
    dsimp only
    rw [delete_erase]
    have hsame : SameObjects w (w.note (.expired id now)) := note_same rfl
    have hheld : ∀ g, s = .cgi g → HeldByOwn (w.note (.expired id now)).kernel fd g := by
      rintro g rfl
      apply hl (fd, g)
      rw [World.dropped, hc]
      dsimp only
      rw [hs]
      exact if_pos hout
    obtain ⟨hnote, -⟩ := hw.of_kernel hsame rfl
    have htidies : Tidies w (w.note (.expired id now)) := .same hsame (.refl _ _)
    have hs1 : (w.note (.expired id now)).heap id = some s := hs
    have hfd1 : (w.note (.expired id now)).fdOf id = some fd := hfd
    generalize w.note (.expired id now) = w1 at hnote htidies hheld hs1 hfd1
    cases s with
    | server s => cases hout
    | cgi g => exact htidies.trans (cgi_remove_tidies hnote hs1 hfd1 (hheld g rfl))
    | client c =>
        obtain ⟨hdone, hquiets, hput, hgone⟩ :=
          @handleTimeout_listed w1 _ id c sends date hnote hs1 rfl
        have hremoved := hdone.remove_tidies ((hput.fdOf id).trans hfd1) hgone
        exact htidies.trans ((Tidies.same hput hquiets).trans hremoved)
  · rw [World.visit, if_neg hout]
    exact .same .refl (.refl _ _)

/-- **A step** leaves no registration of a socket it removes, unless another process holds
the file. -/
theorem turned_tidies {l : Label} (hloop : LoopInv w) (hw : w.control ≠ .ended → Listed w)
    (hl : NoInheritor w l) (h : World.Turned w l w') (hended : w'.control ≠ .ended) :
    Tidies w w' := by
  have hgo : ∀ {control : Control}, w.control = control → control ≠ .ended → Listed w := by
    rintro control rfl hne
    exact hw hne
  have hcontrol : ∀ w1 : World, ∀ control : Control, Tidies w1 { w1 with control := control } :=
    fun w1 control => .same (.of_eq rfl rfl rfl rfl) (.refl _ _)
  cases h with
  | openFails => exact absurd rfl hended
  | opens hc hfd => exact (opened_listed (hgo hc Control.noConfusion) hfd).2.2
  | unregistered => exact absurd rfl hended
  | sweeps => exact hcontrol w _
  | @visits now fd id entries s sends date hc hs =>
      have hfd : w.fdOf id = some fd := by
        apply hloop.entries
        rw [hc]
        exact List.mem_cons_self
      exact (visit_tidies (hgo hc Control.noConfusion) hs hfd hc hl).trans (hcontrol _ _)
  | waits => exact hcontrol w _
  | reports => exact hcontrol w _
  | @handles time id events rest s l w1 hc hs h =>
      have hsame : SameObjects w (w.note (.dispatched id time)) := note_same rfl
      obtain ⟨hnote, -⟩ := (hgo hc Control.noConfusion).of_kernel hsame rfl
      have hserved := handles_listed hnote hs h
      exact (Tidies.same hsame (.refl _ _)).trans (hserved.tidies.trans (hcontrol w1 _))
  | clears => exact absurd rfl hended
  | forks => exact .same (.of_eq rfl rfl rfl rfl) (.of_subset fun _ h => h)
  | closes =>
      exact .same (.of_eq rfl rfl rfl rfl) (.of_subset List.filter_sublist.subset)
  | exits pid => exact .same (.of_eq rfl rfl rfl rfl) (exit_quiets _ pid)

/-! ### Events -/

/-- The pointers are those of objects that are alive. -/
structure Tidy (w : World) : Prop where
  registered : w.control ≠ .ended → ∀ r ∈ w.kernel.epoll, w.fdOf r.ptr ≠ none
  reported : ∀ e ∈ w.control.events, w.fdOf e.1 ≠ none

theorem Tidy.of_nil (hreg : w.control ≠ .ended → ∀ r ∈ w.kernel.epoll, w.fdOf r.ptr ≠ none)
    (hevents : w.control.events = []) : Tidy w := by
  refine ⟨hreg, fun e he => ?_⟩
  rw [hevents] at he
  exact absurd he List.not_mem_nil

/-- The events behind a step are those of other sockets than the one whose event it was. -/
theorem turned_tidy {l : Label} (hloop : LoopInv w) (hw : EpollInv w) (ht : Tidy w)
    (hl : NoInheritor w l) (h : World.Turned w l w') : Tidy w' := by
  have hreg : w'.control ≠ .ended → ∀ r ∈ w'.kernel.epoll, w'.fdOf r.ptr ≠ none := by
    intro hended r' hr' hdead
    obtain ⟨r, hr, -, hdead⟩ := turned_tidies hloop hw.listed hl h hended r' hr' hdead
    refine ht.registered (fun hcontrol => ?_) r hr hdead
    exact hended (turned_ended h hcontrol)
  cases h with
  | openFails => exact .of_nil hreg rfl
  | opens => exact .of_nil hreg (Control.events_starting _)
  | unregistered => exact .of_nil hreg rfl
  | sweeps => exact .of_nil hreg (Control.events_sweeping _ _)
  | visits => exact .of_nil hreg (Control.events_sweeping _ _)
  | waits => exact .of_nil hreg rfl
  | @reports reported hc hr =>
      refine ⟨hreg, fun e he => ?_⟩
      have he : e ∈ (World.nextTurn .handling Control.top
          (reported.map fun e => (e.1.ptr, e.2))).events := he
      rw [Control.events_handling] at he
      obtain ⟨e', he', rfl⟩ := List.mem_map.mp he
      refine ht.registered ?_ e'.1 (hr.2.2 e' he').1
      rw [hc]
      exact Control.noConfusion
  | @handles time id events rest s l w1 hc hs h =>
      refine ⟨hreg, fun e he => ?_⟩
      have he : e ∈ (World.nextTurn .handling Control.top rest).events := he
      rw [Control.events_handling] at he
      have hold : e ∈ w.control.events := by
        rw [hc]
        exact List.mem_cons_of_mem _ he
      have hne : e.1 ≠ id := hw.reported.head hc e he
      have hsame : SameObjects w (w.note (.dispatched id time)) := note_same rfl
      have hlisted : Listed w := hw.listed (by rw [hc]; exact Control.noConfusion)
      have hkeeps := (handles_listed (hlisted.of_kernel hsame rfl).1 hs h).others
      have hfd : w1.fdOf e.1 = w.fdOf e.1 := hkeeps e.1 hne (hw.reported.lt e hold)
      show w1.fdOf e.1 ≠ none
      rw [hfd]
      exact ht.reported e hold
  | clears => exact .of_nil hreg rfl
  | forks => exact ⟨hreg, ht.reported⟩
  | closes => exact ⟨hreg, ht.reported⟩
  | exits => exact ⟨hreg, ht.reported⟩

theorem Tidy.live (ht : Tidy w) (hw : EpollInv w) : PointersLive w := by
  have hlive : w.control ≠ .ended → ∀ id, w.fdOf id ≠ none → w.IsLive id := by
    intro hended id hne
    obtain ⟨fd, hfd⟩ := Option.ne_none_iff_exists'.mp hne
    obtain ⟨s, hs, hsfd⟩ := Option.map_eq_some_iff.mp hfd
    exact ⟨s, hs, ((hw.listed hended).entry _ _).mpr (hsfd ▸ hfd)⟩
  refine ⟨fun hended r hr => hlive hended _ (ht.registered hended r hr), fun e he => ?_⟩
  refine hlive (fun hended => ?_) _ (ht.reported e he)
  rw [hended] at he
  exact absurd he List.not_mem_nil

theorem reachable_tidy (h : Transition.Reachable World.step NoInheritor World.IsStart w) :
    Tidy w := by
  apply h.invariant_under (fun w hw => (⟨reachable_runInv hw, reachable_epollInv hw⟩ :
    RunInv w ∧ EpollInv w))
  · intro w hw
    have hevents : w.control.events = [] := by
      obtain ⟨configs, open_, clock, rfl⟩ := hw
      exact Control.events_starting configs
    refine .of_nil (fun hended r hr => ?_) hevents
    have hlt := ((start_epollInv hw).listed hended).ptr_lt r hr
    obtain ⟨configs, open_, clock, rfl⟩ := hw
    exact absurd hlt (Nat.not_lt_zero _)
  · intro w l w' hw _ ht hl hst
    obtain ⟨w1, hturn, rfl⟩ := World.step_cases hst
    obtain ⟨hreg, hrep⟩ := turned_tidy hw.1.toLoopInv hw.2 ht hl hturn
    exact ⟨hreg, hrep⟩

/-- **In every run whose sweeps find no CGI socket that another process holds**, no pointer is
that of a socket that has gone. -/
theorem pointersLive (h : Transition.Reachable World.step NoInheritor World.IsStart w) :
    PointersLive w := (reachable_tidy h).live (reachable_epollInv h)

end Steps

/-! ### Two programs -/

/-- While the program of one connection runs, that of another is started; then the first one is
timed out. -/
def inheritRun : List Label :=
  [.openServer (some 4) 0 true, .checkTimeout 0, .visit [] none,
    .epollWait (some [(⟨4, 1, 0, EPOLLIN⟩, EPOLLIN)]), .serverEvent 0 ⟨some (5, 0), none, 0⟩ true,
    .checkTimeout 0, .visit [] none, .visit [] none,
    .epollWait (some [(⟨5, 2, 1, EPOLLIN⟩, EPOLLIN)]),
    .clientEvent 0 ⟨0, some (bytes "GET /a.py HTTP/1.1\r\nHost: a\r\n\r\n"), sampleSys,
      some .other, false, none, none, none⟩ true,
    .checkTimeout 5, .visit [] none, .visit [] none, .visit [] none,
    .epollWait (some [(⟨4, 1, 0, EPOLLIN⟩, EPOLLIN)]), .serverEvent 5 ⟨some (7, 0), none, 5⟩ true,
    .checkTimeout 5, .visit [] none, .visit [] none, .visit [] none, .visit [] none,
    .epollWait (some [(⟨7, 5, 3, EPOLLIN⟩, EPOLLIN)]),
    .clientEvent 5 ⟨5, some (bytes "GET /a.py HTTP/1.1\r\nHost: a\r\n\r\n"),
      { sampleSys with socketpair := some (8, 9), fork := some 101, now := 5 },
      some .other, false, none, none, none⟩ true,
    .checkTimeout 11, .visit [] none, .visit [] none, .visit [] none, .visit [] none, .visit [] none,
    .epollWait (some [(⟨6, 3, 2, EPOLLIN⟩, EPOLLIN)])]

/-- The run up to where the first program is timed out. -/
theorem pointersLive_inheritRun : ∃ w,
    Transition.run World.step (World.start [sampleConfig] [3] 0) (inheritRun.take 26) = some w ∧
      w.kernel.epoll.length = 4 ∧ PointersLive w := by
  have hrun : (Transition.run World.step (World.start [sampleConfig] [3] 0)
      (inheritRun.take 26)).map (fun w => w.kernel.epoll.length) = some 4 := by
    decide +kernel
  have halong : Transition.Along World.step NoInheritor (World.start [sampleConfig] [3] 0)
      (inheritRun.take 26) := by
    decide +kernel
  obtain ⟨w, hw, hlength⟩ := Option.map_eq_some_iff.mp hrun
  exact ⟨w, hw, hlength, pointersLive (.run_along (.start ⟨_, _, _, rfl⟩) halong hw)⟩

/-- The event is for the first program's socket, which has gone. -/
theorem pointersLive_fails : ¬ ∀ w, World.Reachable w → PointersLive w := by
  intro h
  have hrun : (Transition.run World.step (World.start [sampleConfig] [3] 0) inheritRun).map
      (fun w => (w.control.events, (w.heap 2).isSome)) = some ([(2, EPOLLIN)], false) := by
    decide +kernel
  obtain ⟨w, hw, hlog⟩ := Option.map_eq_some_iff.mp hrun
  obtain ⟨hevents, hdead⟩ := Prod.mk.inj hlog
  have hreach : World.Reachable w := .run (.start ⟨_, _, _, rfl⟩) hw
  obtain ⟨s, hs, -⟩ := (h w hreach).reported (2, EPOLLIN)
    (hevents ▸ List.mem_singleton_self (2, EPOLLIN))
  rw [hs] at hdead
  cases hdead

end Webserv
