/-
Webserv/Objects.lean

The objects, but for the links between them, and the log.

Only a destructor writes to another object, and only to its link; so the `core` of an
object is what its own handlers have made of it.
-/
import Webserv.LoopSteps

namespace Webserv

/-- The object, but for its link to another one. -/
def Socket.core : Socket → Socket
  | .server s => .server s
  | .client c => .client { c with cgiSocket := none }
  | .cgi g => .cgi { g with owner := none }

@[simp] theorem Socket.base_core (s : Socket) : s.core.base = s.base := by
  cases s with
  | server => rfl
  | client => rfl
  | cgi => rfl

@[simp] theorem Socket.core_onSetOwner (s : Socket) (owner : Option SocketId) :
    (s.onSetOwner owner).core = s.core := by
  cases s with
  | server => rfl
  | client => rfl
  | cgi => rfl

@[simp] theorem Socket.core_removeCgiSocket (s : Socket) (sock : SocketId) :
    (s.removeCgiSocket sock).core = s.core := by
  cases s with
  | server => rfl
  | client c =>
      rw [Socket.removeCgiSocket, ClientSocket.removeCgiSocket]
      split_ifs
      · rfl
      · rfl
  | cgi => rfl

namespace World

variable {w : World} {id id' : SocketId} {fd : Fd} {s : Socket}

/-- The objects that are alive, but for their links. -/
def coreOf (w : World) (id : SocketId) : Option Socket := (w.heap id).map Socket.core

theorem coreOf_eq_none : w.coreOf id = none ↔ w.heap id = none := Option.map_eq_none_iff

theorem coreOf_of (hs : w.heap id = some s) : w.coreOf id = some s.core := by
  rw [coreOf, hs]
  rfl

/-! ### Operations on one object -/

@[simp] theorem coreOf_note (w : World) (entry : Entry) : (w.note entry).coreOf = w.coreOf := rfl

@[simp] theorem log_note (w : World) (entry : Entry) : (w.note entry).log = w.log ++ [entry] := rfl

@[simp] theorem coreOf_put (w : World) (id : SocketId) (s : Socket) :
    (w.put id s).coreOf = Function.update w.coreOf id (some s.core) := by
  funext id'
  by_cases hid : id' = id
  · subst hid
    simp [coreOf, put]
  · simp [coreOf, put, hid]

@[simp] theorem log_put (w : World) (id : SocketId) (s : Socket) : (w.put id s).log = w.log := rfl

theorem coreOf_call (w : World) (id : SocketId) {f : Socket → Socket}
    (hf : ∀ s, (f s).core = s.core) : (w.call id f).coreOf = w.coreOf := by
  funext id'
  by_cases hid : id' = id
  · subst hid
    simp [coreOf, call, Function.comp_def, hf]
  · simp [coreOf, call, hid]

@[simp] theorem coreOf_perform (w : World) (id : SocketId) (fd : Fd) (actions : List Action) :
    (w.perform id fd actions).coreOf = w.coreOf := rfl

@[simp] theorem log_perform (w : World) (id : SocketId) (fd : Fd) (actions : List Action) :
    (w.perform id fd actions).log = w.log ++ actions.map (.acted id) := rfl

/-! ### Deleting -/

theorem unlink_objects (w : World) (id : SocketId) (s : Socket) :
    (w.unlink id s).coreOf = w.coreOf ∧ (w.unlink id s).log = w.log := by
  cases s with
  | server => exact ⟨rfl, rfl⟩
  | client c =>
      rw [unlink]
      rcases c.cgiSocket with - | g
      · exact ⟨rfl, rfl⟩
      · exact ⟨coreOf_call w g fun s => s.core_onSetOwner none, rfl⟩
  | cgi g =>
      rw [unlink]
      rcases g.owner with - | owner
      · exact ⟨rfl, rfl⟩
      · exact ⟨coreOf_call w owner fun s => s.core_removeCgiSocket id, rfl⟩

theorem reap_objects (w : World) (s : Socket) :
    (w.reap s).coreOf = w.coreOf ∧ (w.reap s).log = w.log := by
  cases s with
  | server => exact ⟨rfl, rfl⟩
  | client => exact ⟨rfl, rfl⟩
  | cgi g =>
      rw [reap]
      rcases g.pid with - | pid
      · exact ⟨rfl, rfl⟩
      · exact ⟨rfl, rfl⟩

theorem delete_objects (w : World) (id : SocketId) :
    (w.delete id).coreOf = Function.update w.coreOf id none ∧
      (w.delete id).log = w.log ++ [.deleted id] := by
  rw [delete]
  rcases hs : w.heap id with - | s
  · refine ⟨?_, rfl⟩
    -- a second `delete` finds nothing
    rw [coreOf_note, Function.update_eq_self_iff.mpr]
    exact (coreOf_eq_none.mpr hs).symm
  · obtain ⟨hcore, hlog⟩ := unlink_objects w id s
    obtain ⟨hcore', hlog'⟩ := reap_objects (w.unlink id s) s
    refine ⟨?_, ?_⟩
    · rw [← hcore, ← hcore']
      funext id'
      by_cases hid : id' = id
      · subst hid
        simp [coreOf]
      · simp [coreOf, hid]
    · show ((w.unlink id s).reap s).log ++ _ = _
      rw [hlog', hlog]

@[simp] theorem coreOf_delete (w : World) (id : SocketId) :
    (w.delete id).coreOf = Function.update w.coreOf id none := (delete_objects w id).1

@[simp] theorem log_delete (w : World) (id : SocketId) :
    (w.delete id).log = w.log ++ [.deleted id] := (delete_objects w id).2

@[simp] theorem nextId_delete (w : World) (id : SocketId) : (w.delete id).nextId = w.nextId := by
  have hunlink : ∀ s, (w.unlink id s).nextId = w.nextId := by
    intro s
    cases s with
    | server => rfl
    | client c =>
        rw [unlink]
        cases c.cgiSocket with
        | none => rfl
        | some => rfl
    | cgi g =>
        rw [unlink]
        cases g.owner with
        | none => rfl
        | some => rfl
  have hreap : ∀ (w : World) s, (w.reap s).nextId = w.nextId := by
    intro w s
    cases s with
    | server => rfl
    | client => rfl
    | cgi g =>
        rw [reap]
        cases g.pid with
        | none => rfl
        | some => rfl
  rw [delete]
  rcases w.heap id with - | s
  · rfl
  · exact (hreap _ s).trans (hunlink s)

@[simp] theorem coreOf_erase (w : World) (fd : Fd) : (w.erase fd).coreOf = w.coreOf := rfl

@[simp] theorem log_erase (w : World) (fd : Fd) : (w.erase fd).log = w.log := rfl

@[simp] theorem coreOf_remove (w : World) (id : SocketId) (fd : Fd) :
    (w.remove id fd).coreOf = Function.update w.coreOf id none := coreOf_delete _ _

@[simp] theorem log_remove (w : World) (id : SocketId) (fd : Fd) :
    (w.remove id fd).log = w.log ++ [.deleted id] := log_delete _ _

/-- `ClearResources` does nothing but delete. -/
theorem clearResources_objects (w : World) :
    (∃ ids : List SocketId, w.clearResources.log = w.log ++ ids.map .deleted) ∧
      ∀ id s, w.clearResources.coreOf id = some s → w.coreOf id = some s := by
  have hfold : ∀ (entries : List (Fd × SocketId)) (w : World),
      (∃ ids : List SocketId, (entries.foldl (fun w entry => w.delete entry.2) w).log =
        w.log ++ ids.map .deleted) ∧
      ∀ id s, (entries.foldl (fun w entry => w.delete entry.2) w).coreOf id = some s →
        w.coreOf id = some s := by
    intro entries
    induction entries with
    | nil => exact fun w => ⟨⟨[], (List.append_nil _).symm⟩, fun _ _ h => h⟩
    | cons entry entries ih =>
        intro w
        obtain ⟨⟨ids, hlog⟩, hcore⟩ := ih (w.delete entry.2)
        rw [log_delete] at hlog
        refine ⟨⟨entry.2 :: ids, ?_⟩, fun id s h => ?_⟩
        · rw [List.foldl_cons, hlog]
          simp
        · have := hcore id s h
          rw [coreOf_delete] at this
          by_cases hid : id = entry.2
          · rw [hid, Function.update_self] at this
            cases this
          · rwa [Function.update_of_ne hid] at this
  exact hfold w.sockets.toList w

theorem nextId_clearResources (w : World) : w.clearResources.nextId = w.nextId := by
  have hfold : ∀ (entries : List (Fd × SocketId)) (w : World),
      (entries.foldl (fun w entry => w.delete entry.2) w).nextId = w.nextId := by
    intro entries
    induction entries with
    | nil => exact fun w => rfl
    | cons entry entries ih =>
        intro w
        rw [List.foldl_cons, ih, nextId_delete]
  exact hfold w.sockets.toList w

/-! ### New sockets -/

@[simp] theorem coreOf_insert (w : World) (s : Socket) :
    (w.insert s).coreOf = Function.update w.coreOf w.nextId (some s.core) :=
  coreOf_put w w.nextId s

@[simp] theorem log_insert (w : World) (s : Socket) :
    (w.insert s).log = w.log ++ [.created w.nextId s.base.lastActivityTime,
      .inserted s.getFd w.nextId w.sockets[s.getFd]?] := rfl

@[simp] theorem coreOf_register (w : World) (id : SocketId) (fd : Fd) :
    (w.register id fd).coreOf = w.coreOf := rfl

@[simp] theorem log_register (w : World) (id : SocketId) (fd : Fd) :
    (w.register id fd).log = w.log := rfl

theorem coreOf_addSocket (w : World) (s : Socket) (epollAdd : Bool) :
    (w.addSocket s epollAdd).coreOf =
      Function.update w.coreOf w.nextId (if epollAdd then some s.core else none) := by
  rw [addSocket]
  cases epollAdd with
  | true => exact coreOf_insert w s
  | false =>
      show (((w.insert s).erase s.getFd).delete w.nextId).coreOf = _
      rw [coreOf_delete, coreOf_erase, coreOf_insert, Function.update_idem]
      rfl

/-- The entries of a new socket. -/
def addedEntries (w : World) (s : Socket) (epollAdd : Bool) : List Entry :=
  [.created w.nextId s.base.lastActivityTime, .inserted s.getFd w.nextId w.sockets[s.getFd]?] ++
    if epollAdd then [] else [.deleted w.nextId]

theorem log_addSocket (w : World) (s : Socket) (epollAdd : Bool) :
    (w.addSocket s epollAdd).log = w.log ++ w.addedEntries s epollAdd := by
  rw [addSocket, addedEntries]
  cases epollAdd with
  | true => exact log_insert w s
  | false =>
      show (((w.insert s).erase s.getFd).delete w.nextId).log = _
      rw [log_delete, log_erase, log_insert, List.append_assoc]
      rfl

theorem acted_not_mem_addedEntries {w : World} {s : Socket} {epollAdd : Bool} {id : SocketId}
    {action : Action} : Entry.acted id action ∉ w.addedEntries s epollAdd := by
  intro hmem
  rw [addedEntries] at hmem
  split_ifs at hmem
  · simp at hmem
  · simp at hmem

end World

end Webserv
