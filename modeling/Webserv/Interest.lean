/-
Webserv/Interest.lean

What a connection still listens to.

An `EPOLL_CTL_MOD` to `EPOLLOUT` is for good: from then on no `EPOLLIN` is reported for the
connection, and none is waiting to be handled.
-/
import Webserv.Registrations

namespace Webserv

/-- While the loop runs, the connection `id` waits to send, and no input of it is still to be
handled. -/
def Deaf (w : World) (id : SocketId) : Prop :=
  w.control ≠ .ended →
    WaitsOut w.kernel id ∧ ∀ e ∈ w.control.events, e.1 = id → e.2.epollIn = false

variable {w w' : World} {l : Label} {id : SocketId} {events : Events}
  {rest : List (SocketId × Events)}

theorem Deaf.setClock (h : Deaf w id) (clock : Int) : Deaf { w with clock := clock } id := h

/-- What is reported of a connection that waits to send is no input. -/
theorem reports_deaf {reported : List (Registration × Events)} (h : WaitsOut w.kernel id)
    (hr : MayReport w.kernel reported) : Deaf { w with
      control := World.nextTurn .handling .top (reported.map fun e => (e.1.ptr, e.2)) } id := by
  refine fun _ => ⟨h, fun e he hown => ?_⟩
  have he : e ∈ (World.nextTurn .handling Control.top
      (reported.map fun e => (e.1.ptr, e.2))).events := he
  rw [Control.events_handling] at he
  obtain ⟨e', he', rfl⟩ := List.mem_map.mp he
  obtain ⟨hreg, hin, -⟩ := hr.2.2 e' he'
  rw [h e'.1 hreg hown] at hin
  rcases hevent : e'.2.epollIn with - | -
  · rfl
  · cases hin hevent

/-- **No step** makes the connection listen again. -/
theorem Deaf.turned (h : Deaf w id) (hloop : LoopInv w) (hw : EpollInv w) (hlt : id < w.nextId)
    (hturn : World.Turned w l w') : Deaf w' id := by
  intro hended
  obtain ⟨hout, hevents⟩ := h fun hold => hended (turned_ended hturn hold)
  have hout' := hout.continues (turned_listed hloop hw.listed hturn hended).2 hlt
  obtain hnil | hsuffix | ⟨reported, hc, hr, rfl⟩ := turned_events hturn
  · refine ⟨hout', fun e he => ?_⟩
    rw [hnil] at he
    exact absurd he List.not_mem_nil
  · exact ⟨hout', fun e he => hevents e (hsuffix.subset he)⟩
  · exact reports_deaf hout hr hended

/-- A connection that may send is deaf. -/
theorem EpollInv.deaf_of_out (hw : EpollInv w) (hc : w.control = .handling ((id, events) :: rest))
    (hout : events.epollOut = true) : Deaf w id ∧ events.epollIn = false := by
  have hmem : (id, events) ∈ w.control.events := by
    rw [hc]
    exact List.mem_cons_self
  have hin : events.epollIn = false := by
    rcases hevent : events.epollIn with - | -
    · rfl
    · have hno := hw.reported.one _ hmem hevent
      rw [hout] at hno
      cases hno
  refine ⟨fun _ => ⟨hw.reported.out _ hmem hout, fun e he hown => ?_⟩, hin⟩
  rw [hc] at he
  obtain rfl | he := List.mem_cons.mp he
  · exact hin
  · exact absurd hown (hw.reported.head hc e he)

/-- A deaf connection gets no input. -/
theorem Deaf.epollIn (h : Deaf w id) (hc : w.control = .handling ((id, events) :: rest)) :
    events.epollIn = false := by
  refine (h ?_).2 (id, events) ?_ rfl
  · rw [hc]
    exact Control.noConfusion
  · rw [hc]
    exact List.mem_cons_self

end Webserv
