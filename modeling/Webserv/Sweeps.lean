/-
Webserv/Sweeps.lean

A whole sweep of `CheckTimeout`.

The loop erases entries of the table it walks over, and a destructor may change a socket
that it has still to visit.  A sweep ends all the same, behind one visit to each socket, and
leaves the sockets that were not overdue when it began.
-/
import Webserv.Lives

namespace Webserv

/-- The socket is overdue at this time. -/
def Socket.IsOverdue (s : Socket) (now : Int) : Prop := s.isTimeout (now - kRequestTimeout) = true

theorem Socket.isOverdue_core {s : Socket} {now : Int} : s.core.IsOverdue now ↔ s.IsOverdue now := by
  cases s with
  | server s => exact Iff.rfl
  | client c => exact Iff.rfl
  | cgi g => exact Iff.rfl

section Visits

variable {w : World} {id id' : SocketId} {now : Int} {fd : Fd} {s s' : Socket}

theorem update_none_eq_some {f : SocketId → Option Socket} :
    Function.update f id none id' = some s ↔ id' ≠ id ∧ f id' = some s := by
  by_cases hid : id' = id
  · rw [hid, Function.update_self]
    exact iff_of_false (Option.some_ne_none s).symm fun h => h.1 rfl
  · rw [Function.update_of_ne hid]
    exact (and_iff_right hid).symm

/-- **One visit** removes the socket if it is overdue, and leaves the others as they are. -/
theorem visit_coreOf (hs : w.heap id = some s) (sends : List (Option Nat)) (date : Option Bytes) :
    (w.visit now fd id s sends date).coreOf id' = some s' ↔
      w.coreOf id' = some s' ∧ ¬ (id' = id ∧ s'.IsOverdue now) := by
  have hself : id' = id → w.coreOf id' = some s' → s' = s.core := by
    rintro rfl hs'
    rw [World.coreOf_of hs] at hs'
    exact (Option.some.inj hs').symm
  by_cases hout : s.isTimeout (now - kRequestTimeout) = true
  · have hcore : (w.visit now fd id s sends date).coreOf = Function.update w.coreOf id none := by
      rw [World.visit, if_pos hout]
      dsimp only
      rw [delete_erase, World.coreOf_remove]
      cases s with
      | server s => rfl
      | cgi g => rfl
      | client c =>
          show Function.update (World.coreOf (((w.note (.expired id now)).put id
            (.client (c.handleTimeout sends date).client)).perform id c.fd _)) id none = _
          rw [World.coreOf_perform, World.coreOf_put, Function.update_idem, World.coreOf_note]
    rw [hcore, update_none_eq_some, and_comm]
    refine and_congr_right fun hs' => not_congr ?_
    refine ⟨fun hid => ⟨hid, ?_⟩, And.left⟩
    rw [hself hid hs']
    exact Socket.isOverdue_core.mpr hout
  · rw [World.visit, if_neg hout]
    refine (and_iff_left_of_imp fun hs' => ?_).symm
    rintro ⟨hid, hout'⟩
    rw [hself hid hs'] at hout'
    exact hout (Socket.isOverdue_core.mp hout')

end Visits

def Control.isTop : Control → Bool
  | .top => true
  | _ => false

theorem Control.isTop_iff {control : Control} : control.isTop = true ↔ control = .top := by
  cases control with
  | top => exact ⟨fun _ => rfl, fun _ => rfl⟩
  | _ => exact ⟨fun h => absurd h Bool.false_ne_true, Control.noConfusion⟩

end Webserv
