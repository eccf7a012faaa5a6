/-
Webserv/Progress.lean

Whether the loop goes on.

A handler that does not return would keep the program from every other connection.  What the
system may answer at each place of the loop is a relation of its own; the next step is there
for every such answer, unless the event is that of a socket that has been deleted.  A turn of
the loop has at most as many steps as sockets and events.
-/
import Webserv.Answering

namespace Webserv

open Epoll.Kernel (Watches)

/-! ### The answers of the system -/

section Steps

variable {w : World} {id : SocketId} {events : Events} {rest : List (SocketId × Events)}

theorem Socket.IsWatched.isRegistered {s : Socket} (h : s.IsWatched w id) :
    w.kernel.IsRegistered s.getFd := by
  obtain h | ⟨-, h, -⟩ := h
  · exact h.isRegistered
  · exact h.isRegistered

/-- A socket that is alive is registered. -/
theorem Watched.isRegistered (h : Watched ∅ w) {s : Socket} (hs : w.heap id = some s) :
    w.kernel.IsRegistered s.getFd := by
  have hwatched := (h id (Set.notMem_empty id) s.core (World.coreOf_of hs)).isRegistered
  rwa [Socket.getFd_core] at hwatched

end Steps

section Runs

variable {configFile content : Bytes} {ans : StartAnswers} {w : World} {configs : List ServerConfig}

end Runs

/-! ### Turns of the loop -/

/-- How many steps can follow until the loop is back at its top. -/
def Control.left : Control → Nat
  | .starting configs => configs.length
  | .sweeping _ entries => entries.length + (kMaxEvents + 1)
  | .waiting => kMaxEvents + 1
  | .handling events => events.length
  | .top | .ended => 0

section Turns

variable {w w' : World} {l : Label}

end Turns

end Webserv
