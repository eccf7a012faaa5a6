/-
Webserv/SocketTable.lean

The table of the sockets, and the lives of the objects.

The descriptor of a socket that is alive is open, and a descriptor that the system gives
is not, so a new socket never finds an entry under its key.
-/
import Webserv.LoopSteps

namespace Webserv

/-! ### What the log tells about objects -/

/-- The objects that have been created, in their order. -/
def createdIds (log : List Entry) : List SocketId :=
  log.filterMap fun entry =>
    match entry with
    | .created id _ => some id
    | _ => none

/-- The objects that have been deleted, in their order. -/
def deletedIds (log : List Entry) : List SocketId :=
  log.filterMap fun entry =>
    match entry with
    | .deleted id => some id
    | _ => none

/-- The entry is on the life of an object, or on the table. -/
def Entry.isLife : Entry → Bool
  | .created _ _ | .inserted _ _ _ | .deleted _ => true
  | _ => false

/-- The descriptor of a socket that is alive. -/
def World.fdOf (w : World) (id : SocketId) : Option Fd := (w.heap id).map Socket.getFd

/-- The table holds the sockets that are alive, each under its descriptor. -/
structure Table (w : World) : Prop where
  entry : ∀ fd id, w.sockets[fd]? = some id ↔ w.fdOf id = some fd
  opened : ∀ id fd, w.fdOf id = some fd → w.kernel.IsOpen fd
  fresh : ∀ id, w.nextId ≤ id → w.heap id = none

/-- Every object is created once, deleted at most once, and alive in between. -/
structure Lifetimes (w : World) : Prop where
  created : createdIds w.log = List.range w.nextId
  deleted_nodup : (deletedIds w.log).Nodup
  deleted_iff : ∀ id, id ∈ deletedIds w.log ↔ id < w.nextId ∧ w.heap id = none
  inserted : ∀ fd id previous, Entry.inserted fd id previous ∈ w.log → previous = none

/-- The invariant of the table. -/
structure TableInv (w : World) : Prop extends Table w, Lifetimes w

/-! ### Changes that keep the objects -/

/-- The same objects are alive, with the same descriptors. -/
structure SameObjects (w w' : World) : Prop where
  sockets : w'.sockets = w.sockets
  nextId : w'.nextId = w.nextId
  fdOf : ∀ id, w'.fdOf id = w.fdOf id
  log : ∃ entries, w'.log = w.log ++ entries ∧ ∀ entry ∈ entries, entry.isLife = false

namespace SameObjects

variable {w w' w'' : World}

theorem of_eq (hsockets : w'.sockets = w.sockets) (hnext : w'.nextId = w.nextId)
    (hheap : w'.heap = w.heap) (hlog : w'.log = w.log) : SameObjects w w' := by
  refine ⟨hsockets, hnext, fun id => ?_, [], ?_, ?_⟩
  · rw [World.fdOf, World.fdOf, hheap]
  · rw [hlog, List.append_nil]
  · intro entry hentry
    cases hentry

theorem refl : SameObjects w w := .of_eq rfl rfl rfl rfl

theorem trans (h : SameObjects w w') (h' : SameObjects w' w'') : SameObjects w w'' := by
  obtain ⟨entries, hlog, hlife⟩ := h.log
  obtain ⟨entries', hlog', hlife'⟩ := h'.log
  refine ⟨h'.sockets.trans h.sockets, h'.nextId.trans h.nextId,
    fun id => (h'.fdOf id).trans (h.fdOf id), entries ++ entries', ?_, ?_⟩
  · rw [hlog', hlog, List.append_assoc]
  · intro entry hentry
    exact (List.mem_append.mp hentry).elim (hlife entry) (hlife' entry)

theorem heap_eq_none (h : SameObjects w w') (id : SocketId) :
    w'.heap id = none ↔ w.heap id = none := by
  have hfd := h.fdOf id
  rw [World.fdOf, World.fdOf] at hfd
  rw [← Option.map_eq_none_iff (f := Socket.getFd), hfd, Option.map_eq_none_iff]

theorem createdIds_eq (h : SameObjects w w') : createdIds w'.log = createdIds w.log := by
  obtain ⟨entries, hlog, hlife⟩ := h.log
  have hnone : createdIds entries = [] := by
    rw [createdIds, List.filterMap_eq_nil_iff]
    intro entry hentry
    have := hlife entry hentry
    cases entry with
    | created => cases this
    | _ => rfl
  rw [hlog, createdIds, List.filterMap_append]
  exact (congrArg _ hnone).trans (List.append_nil _)

theorem deletedIds_eq (h : SameObjects w w') : deletedIds w'.log = deletedIds w.log := by
  obtain ⟨entries, hlog, hlife⟩ := h.log
  have hnone : deletedIds entries = [] := by
    rw [deletedIds, List.filterMap_eq_nil_iff]
    intro entry hentry
    have := hlife entry hentry
    cases entry with
    | deleted => cases this
    | _ => rfl
  rw [hlog, deletedIds, List.filterMap_append]
  exact (congrArg _ hnone).trans (List.append_nil _)

theorem inserted_mem (h : SameObjects w w') {fd : Fd} {id : SocketId} {previous : Option SocketId}
    (hmem : Entry.inserted fd id previous ∈ w'.log) : Entry.inserted fd id previous ∈ w.log := by
  obtain ⟨entries, hlog, hlife⟩ := h.log
  rw [hlog] at hmem
  obtain hmem | hmem := List.mem_append.mp hmem
  · exact hmem
  · have := hlife _ hmem
    cases this

/-- **The invariant is kept**, if the descriptors of the objects stay open. -/
theorem tableInv (h : SameObjects w w') (hw : TableInv w)
    (hopen : ∀ id fd, w.fdOf id = some fd → w'.kernel.IsOpen fd) : TableInv w' := by
  refine ⟨⟨?_, ?_, ?_⟩, ⟨?_, ?_, ?_, ?_⟩⟩
  · intro fd id
    rw [h.sockets, h.fdOf]
    exact hw.entry fd id
  · intro id fd hfd
    rw [h.fdOf] at hfd
    exact hopen id fd hfd
  · intro id hid
    rw [h.nextId] at hid
    exact (h.heap_eq_none id).mpr (hw.fresh id hid)
  · rw [h.createdIds_eq, h.nextId]
    exact hw.created
  · rw [h.deletedIds_eq]
    exact hw.deleted_nodup
  · intro id
    rw [h.deletedIds_eq, h.nextId, h.heap_eq_none]
    exact hw.deleted_iff id
  · exact fun fd id previous hmem => hw.inserted fd id previous (h.inserted_mem hmem)

end SameObjects

/-- An object changes, but not its descriptor. -/
theorem put_same {w : World} {id : SocketId} {s s' : Socket} (hs : w.heap id = some s)
    (hfd : s'.getFd = s.getFd) : SameObjects w (w.put id s') := by
  refine ⟨rfl, rfl, fun id' => ?_, [], (List.append_nil _).symm, fun _ h => absurd h List.not_mem_nil⟩
  by_cases hid : id' = id
  · subst hid
    simp [World.fdOf, World.put, hs, hfd]
  · simp [World.fdOf, World.put, hid]

theorem call_same {w : World} {id : SocketId} {f : Socket → Socket}
    (hf : ∀ s, (f s).getFd = s.getFd) : SameObjects w (w.call id f) := by
  refine ⟨rfl, rfl, fun id' => ?_, [], (List.append_nil _).symm, fun _ h => absurd h List.not_mem_nil⟩
  by_cases hid : id' = id
  · subst hid
    simp [World.fdOf, World.call, Function.comp_def, hf]
  · simp [World.fdOf, World.call, hid]

theorem note_same {w : World} {entry : Entry} (h : entry.isLife = false) :
    SameObjects w (w.note entry) := by
  refine ⟨rfl, rfl, fun _ => rfl, [entry], rfl, fun entry' hmem => ?_⟩
  rw [List.mem_singleton.mp hmem]
  exact h

theorem perform_same {w : World} (id : SocketId) (fd : Fd) (actions : List Action) :
    SameObjects w (w.perform id fd actions) := by
  refine ⟨rfl, rfl, fun _ => rfl, _, rfl, fun entry hmem => ?_⟩
  obtain ⟨action, -, rfl⟩ := List.mem_map.mp hmem
  rfl

theorem unlink_same {w : World} {id : SocketId} {s : Socket} : SameObjects w (w.unlink id s) := by
  cases s with
  | server s => exact .refl
  | client c =>
      rw [World.unlink]
      cases c.cgiSocket with
      | none => exact .refl
      | some g =>
          apply call_same
          intro s
          cases s with
          | server => rfl
          | client => rfl
          | cgi => rfl
  | cgi g =>
      rw [World.unlink]
      cases g.owner with
      | none => exact .refl
      | some owner =>
          apply call_same
          intro s
          cases s with
          | server => rfl
          | client c =>
              rw [Socket.removeCgiSocket, ClientSocket.removeCgiSocket]
              split_ifs
              · rfl
              · rfl
          | cgi => rfl

theorem reap_same {w : World} {s : Socket} : SameObjects w (w.reap s) := by
  cases s with
  | server s => exact .refl
  | client c => exact .refl
  | cgi g =>
      rw [World.reap]
      cases g.pid with
      | none => exact .refl
      | some pid => exact .of_eq rfl rfl rfl rfl

/-! ### Deleting -/

theorem unlink_kernel (w : World) (id : SocketId) (s : Socket) :
    (w.unlink id s).kernel = w.kernel := by
  cases s with
  | server s => rfl
  | client c =>
      rw [World.unlink]
      cases c.cgiSocket with
      | none => rfl
      | some g => rfl
  | cgi g =>
      rw [World.unlink]
      cases g.owner with
      | none => rfl
      | some owner => rfl

theorem reap_isOpen (w : World) (s : Socket) (fd : Fd) :
    (w.reap s).kernel.IsOpen fd ↔ w.kernel.IsOpen fd := by
  cases s with
  | server s => exact Iff.rfl
  | client c => exact Iff.rfl
  | cgi g =>
      rw [World.reap]
      cases g.pid with
      | none => exact Iff.rfl
      | some pid => exact Epoll.Kernel.isOpen_exit

/-- The table has no part in `delete`. -/
theorem delete_setSockets (w : World) (m : Std.ExtTreeMap Fd SocketId compare) (id : SocketId) :
    (w.setSockets m).delete id = (w.delete id).setSockets m := by
  have hheap : (w.setSockets m).heap id = w.heap id := rfl
  rw [World.delete, World.delete, hheap]
  rcases w.heap id with - | s
  · rfl
  · cases s with
    | server s => rfl
    | client c =>
        simp only [World.unlink, World.reap]
        rcases c.cgiSocket with - | g
        · rfl
        · rfl
    | cgi g =>
        simp only [World.unlink, World.reap]
        rcases g.owner with - | owner
        · rcases g.pid with - | pid
          · rfl
          · rfl
        · rcases g.pid with - | pid
          · rfl
          · rfl

theorem sockets_delete (w : World) (id : SocketId) : (w.delete id).sockets = w.sockets := by
  have h := congrArg World.sockets (delete_setSockets w w.sockets id)
  exact h

/-- In `CheckTimeout` the entry goes behind the object. -/
theorem delete_erase (w : World) (id : SocketId) (fd : Fd) :
    (w.delete id).erase fd = w.remove id fd := by
  rw [World.remove, World.erase, World.erase, delete_setSockets, sockets_delete]

/-- What `delete` leaves of the objects. -/
theorem delete_spec {w : World} {id : SocketId} {s : Socket} (hs : w.heap id = some s) :
    ∃ w1, SameObjects w w1 ∧ (∀ fd, w1.kernel.IsOpen fd ↔ w.kernel.IsOpen fd) ∧
      w.delete id = { w1 with
        heap := Function.update w1.heap id none
        kernel := w1.kernel.close s.getFd
        log := w1.log ++ [.deleted id] } := by
  refine ⟨(w.unlink id s).reap s, unlink_same.trans reap_same, ?_, ?_⟩
  · intro fd
    rw [reap_isOpen, unlink_kernel]
  · rw [World.delete, hs]

theorem delete_fdOf {w : World} {id : SocketId} {s : Socket} (hs : w.heap id = some s)
    (id' : SocketId) : (w.delete id).fdOf id' = if id' = id then none else w.fdOf id' := by
  obtain ⟨w1, hsame, -, hdelete⟩ := delete_spec hs
  have hheap : (w.delete id).heap = Function.update w1.heap id none := by rw [hdelete]
  rw [World.fdOf, hheap]
  by_cases hne : id' = id
  · rw [if_pos hne, hne, Function.update_self]
    rfl
  · rw [if_neg hne, Function.update_of_ne hne]
    exact hsame.fdOf id'

theorem fdOf_eq_none {w : World} {id : SocketId} : w.fdOf id = none ↔ w.heap id = none :=
  Option.map_eq_none_iff

theorem TableInv.lt {w : World} (hw : TableInv w) {id : SocketId} {s : Socket}
    (hs : w.heap id = some s) : id < w.nextId := by
  by_contra hge
  rw [hw.fresh id (not_lt.mp hge)] at hs
  cases hs

/-- **A socket and its entry are removed.** -/
theorem remove_tableInv {w : World} {id : SocketId} {fd : Fd} (hw : TableInv w)
    (hfd : w.fdOf id = some fd) : TableInv (w.remove id fd) := by
  obtain ⟨s, hs, rfl⟩ := Option.map_eq_some_iff.mp hfd
  -- the descriptor has one entry, which is that of the deleted object
  have hentry : w.sockets[s.getFd]? = some id := (hw.entry _ _).mpr hfd
  have hfdOf := delete_fdOf hs
  obtain ⟨w1, hsame, hopen, hdelete⟩ := delete_spec hs
  have hheap : ∀ id', (w.delete id).heap id' = none ↔ id' = id ∨ w.heap id' = none := by
    intro id'
    rw [← fdOf_eq_none, hfdOf, ← fdOf_eq_none]
    split_ifs with hne
    · simp [hne]
    · simp [hne]
  have hlog : (w.delete id).log = w1.log ++ [.deleted id] := by rw [hdelete]
  have hdeleted : deletedIds (w.delete id).log = deletedIds w.log ++ [id] := by
    rw [hlog, ← hsame.deletedIds_eq, deletedIds, List.filterMap_append]
    rfl
  have hcreated : createdIds (w.delete id).log = createdIds w.log := by
    rw [hlog, ← hsame.createdIds_eq, createdIds, List.filterMap_append]
    exact List.append_nil _
  have hnext : (w.delete id).nextId = w.nextId := by
    rw [hdelete]
    exact hsame.nextId
  rw [← delete_erase]
  -- entries, open descriptors and fresh addresses, then what the log says of all of them
  refine ⟨⟨?_, ?_, ?_⟩, ⟨?_, ?_, ?_, ?_⟩⟩
  · intro fd id'
    have hlookup : ((w.delete id).erase s.getFd).sockets = w.sockets.erase s.getFd := by
      rw [World.erase, sockets_delete]
      rfl
    show _ ↔ (w.delete id).fdOf id' = some fd
    rw [hlookup, Std.ExtTreeMap.getElem?_erase, hfdOf]
    simp only [Nat.compare_eq_eq]
    split_ifs with hkey hne hne
    · simp
    · simp only [false_iff]
      intro hfd'
      rw [← hkey] at hfd'
      have := (hw.entry _ _).mpr hfd'
      rw [hentry] at this
      exact hne (Option.some.inj this).symm
    · simp only [iff_false]
      intro hlook
      rw [hne, hw.entry, hfd] at hlook
      exact hkey (Option.some.inj hlook)
    · exact hw.entry fd id'
  · intro id' fd hfd'
    have hfd' : (w.delete id).fdOf id' = some fd := hfd'
    rw [hfdOf] at hfd'
    split_ifs at hfd' with hne
    have hkernel : ((w.delete id).erase s.getFd).kernel = w1.kernel.close s.getFd := by
      show (w.delete id).kernel = _
      rw [hdelete]
    rw [hkernel, Epoll.Kernel.isOpen_close, hopen]
    refine ⟨hw.opened id' fd hfd', ?_⟩
    rintro rfl
    have := (hw.entry _ _).mpr hfd'
    rw [hentry] at this
    exact hne (Option.some.inj this).symm
  · intro id' hid'
    have hid' : w.nextId ≤ id' := hnext ▸ hid'
    exact (hheap id').mpr (.inr (hw.fresh id' hid'))
  · show createdIds (w.delete id).log = List.range (w.delete id).nextId
    rw [hcreated, hnext]
    exact hw.created
  · show (deletedIds (w.delete id).log).Nodup
    rw [hdeleted, List.nodup_append]
    refine ⟨hw.deleted_nodup, List.nodup_singleton _, ?_⟩
    intro a ha b hb hab
    rw [List.mem_singleton] at hb
    subst hb hab
    rw [hw.deleted_iff, hs] at ha
    cases ha.2
  · intro id'
    show id' ∈ deletedIds (w.delete id).log ↔ id' < (w.delete id).nextId ∧ (w.delete id).heap id' = none
    rw [hdeleted, hnext, hheap, List.mem_append, List.mem_singleton, hw.deleted_iff]
    constructor
    · rintro (⟨hlt, hnone⟩ | rfl)
      · exact ⟨hlt, .inr hnone⟩
      · exact ⟨hw.lt hs, .inl rfl⟩
    · rintro ⟨hlt, rfl | hnone⟩
      · exact .inr rfl
      · exact .inl ⟨hlt, hnone⟩
  · intro fd id' previous hmem
    have hmem : Entry.inserted fd id' previous ∈ (w.delete id).log := hmem
    rw [hlog] at hmem
    obtain hmem | hmem := List.mem_append.mp hmem
    · exact hw.inserted fd id' previous (hsame.inserted_mem hmem)
    · cases List.mem_singleton.mp hmem

/-! ### New sockets -/

theorem insert_fdOf (w : World) (s : Socket) (id : SocketId) :
    (w.insert s).fdOf id = if id = w.nextId then some s.getFd else w.fdOf id := by
  have hheap : (w.insert s).heap = Function.update w.heap w.nextId (some s) := rfl
  rw [World.fdOf, hheap]
  by_cases hid : id = w.nextId
  · rw [if_pos hid, hid, Function.update_self]
    rfl
  · rw [if_neg hid, Function.update_of_ne hid]
    rfl

/-- **A new socket** with a descriptor of its own. -/
theorem insert_tableInv {w : World} {s : Socket} (hw : TableInv w)
    (hopen : w.kernel.IsOpen s.getFd) (hnew : ∀ id, w.fdOf id ≠ some s.getFd) :
    TableInv (w.insert s) := by
  have hfdOf := insert_fdOf w s
  -- no live object has the descriptor, so the insertion overwrites nothing
  have hfree : w.sockets[s.getFd]? = none := by
    rcases hlook : w.sockets[s.getFd]? with - | id
    · rfl
    · exact absurd ((hw.entry _ _).mp hlook) (hnew id)
  have hlog : (w.insert s).log =
      w.log ++ [.created w.nextId s.base.lastActivityTime,
        .inserted s.getFd w.nextId w.sockets[s.getFd]?] := rfl
  have hdeleted : deletedIds (w.insert s).log = deletedIds w.log := by
    rw [hlog, deletedIds, List.filterMap_append]
    exact List.append_nil _
  have hnone : w.fdOf w.nextId = none := fdOf_eq_none.mpr (hw.fresh _ le_rfl)
  refine ⟨⟨?_, ?_, ?_⟩, ⟨?_, ?_, ?_, ?_⟩⟩
  · intro fd id
    have hlookup : (w.insert s).sockets = w.sockets.insert s.getFd w.nextId := rfl
    rw [hlookup, Std.ExtTreeMap.getElem?_insert, hfdOf]
    simp only [Nat.compare_eq_eq]
    by_cases hfd : s.getFd = fd
    · rw [if_pos hfd]
      split_ifs with hid
      · simp [hid, hfd]
      · constructor
        · intro h
          exact absurd (Option.some.inj h).symm hid
        · intro h
          rw [← hfd] at h
          exact absurd h (hnew id)
    · rw [if_neg hfd]
      split_ifs with hid
      · rw [hw.entry, hid, hnone]
        simp [hfd]
      · exact hw.entry fd id
  · intro id fd hfd
    rw [hfdOf] at hfd
    split_ifs at hfd
    · cases hfd
      exact hopen
    · exact hw.opened id fd hfd
  · intro id hid
    -- an address that is fresh behind the insertion was fresh before it
    have hlt : w.nextId < id := hid
    rw [← fdOf_eq_none, hfdOf, if_neg hlt.ne', fdOf_eq_none]
    exact hw.fresh id hlt.le
  · rw [hlog, createdIds, List.filterMap_append]
    have hcreated : createdIds w.log = List.range w.nextId := hw.created
    rw [createdIds] at hcreated
    rw [hcreated]
    exact List.range_succ.symm
  · rw [hdeleted]
    exact hw.deleted_nodup
  · intro id
    have hnext : (w.insert s).nextId = w.nextId + 1 := rfl
    rw [hdeleted, hw.deleted_iff, hnext, ← fdOf_eq_none, ← fdOf_eq_none, hfdOf]
    split_ifs with hid
    · rw [hid]
      simp
    · constructor
      · exact fun h => ⟨Nat.lt_succ_of_lt h.1, h.2⟩
      · exact fun h => ⟨Nat.lt_of_le_of_ne (Nat.le_of_lt_succ h.1) hid, h.2⟩
  · intro fd id previous hmem
    rw [hlog] at hmem
    obtain hmem | hmem := List.mem_append.mp hmem
    · exact hw.inserted fd id previous hmem
    · obtain hmem | hmem := List.mem_cons.mp hmem
      · cases hmem
      · cases List.mem_singleton.mp hmem
        exact hfree

/-- Whether or not it can be registered, the table is right. -/
theorem addSocket_tableInv {w : World} {s : Socket} (hw : TableInv w) (hopen : w.kernel.IsOpen s.getFd)
    (hnew : ∀ id, w.fdOf id ≠ some s.getFd) (epollAdd : Bool) :
    TableInv (w.addSocket s epollAdd) := by
  have hinsert := insert_tableInv hw hopen hnew
  rw [World.addSocket]
  split_ifs
  · have hsame : SameObjects (w.insert s) ((w.insert s).register w.nextId s.getFd) :=
      .of_eq rfl rfl rfl rfl
    exact hsame.tableInv hinsert fun id fd hfd => hinsert.opened id fd hfd
  · apply remove_tableInv hinsert
    rw [insert_fdOf, if_pos rfl]

/-- The sockets there were are still there. -/
theorem addSocket_fdOf {w : World} {s : Socket} {epollAdd : Bool} {id : SocketId} (hid : id ≠ w.nextId) :
    (w.addSocket s epollAdd).fdOf id = w.fdOf id := by
  have hinsert : (w.insert s).fdOf id = w.fdOf id := by rw [insert_fdOf, if_neg hid]
  rw [World.addSocket]
  split_ifs
  · exact hinsert
  · have hself : ((w.insert s).erase s.getFd).heap w.nextId = some s := Function.update_self _ _ _
    show (((w.insert s).erase s.getFd).delete w.nextId).fdOf id = _
    rw [delete_fdOf hself, if_neg hid]
    exact hinsert

/-! ### The end -/

/-- The entries that are still to be deleted, in front of the end. -/
structure Remaining (entries : List (Fd × SocketId)) (w : World) : Prop extends TableInv w where
  mem : ∀ fd id, (fd, id) ∈ entries ↔ w.fdOf id = some fd
  nodup : (entries.map Prod.fst).Nodup

/-- Deleting is removing, but for the table. -/
theorem foldl_delete_eq (entries : List (Fd × SocketId)) (w : World)
    (m : Std.ExtTreeMap Fd SocketId compare) :
    (entries.foldl (fun w entry => w.delete entry.2) w).setSockets m =
      (entries.foldl (fun w entry => w.remove entry.2 entry.1) w).setSockets m := by
  have hset : ∀ (entries : List (Fd × SocketId)) (w : World)
      (m : Std.ExtTreeMap Fd SocketId compare),
      entries.foldl (fun w entry => w.delete entry.2) (w.setSockets m) =
        (entries.foldl (fun w entry => w.delete entry.2) w).setSockets m := by
    intro entries
    induction entries with
    | nil => exact fun w m => rfl
    | cons entry entries ih =>
        intro w m
        rw [List.foldl_cons, List.foldl_cons, delete_setSockets, ih]
  induction entries generalizing w with
  | nil => rfl
  | cons entry entries ih =>
      rw [List.foldl_cons, List.foldl_cons, ← ih, World.remove, World.erase, delete_setSockets,
        hset]
      rfl

/-- **The final `ClearResources`** leaves no object. -/
theorem foldl_remove_tableInv {entries : List (Fd × SocketId)} {w : World}
    (hw : Remaining entries w) :
    Remaining [] (entries.foldl (fun w entry => w.remove entry.2 entry.1) w) := by
  induction entries generalizing w with
  | nil => exact hw
  | cons entry entries ih =>
      obtain ⟨fd, id⟩ := entry
      have hfd : w.fdOf id = some fd := (hw.mem fd id).mp List.mem_cons_self
      obtain ⟨s, hs, hsfd⟩ := Option.map_eq_some_iff.mp hfd
      have hnodup := hw.nodup
      rw [List.map_cons, List.nodup_cons] at hnodup
      rw [List.foldl_cons]
      apply ih
      refine ⟨?_, ?_, hnodup.2⟩
      · exact remove_tableInv hw.toTableInv hfd
      · intro fd' id'
        have hfdOf : (w.remove id fd).fdOf id' = if id' = id then none else w.fdOf id' := by
          rw [← delete_erase]
          exact delete_fdOf hs id'
        rw [hfdOf]
        split_ifs with hid
        · simp only [iff_false]
          intro hmem
          have hboth := (hw.mem fd' id').mp (List.mem_cons_of_mem _ hmem)
          rw [hid, hfd] at hboth
          cases hboth
          exact hnodup.1 (List.mem_map.mpr ⟨_, hmem, rfl⟩)
        · rw [← hw.mem, List.mem_cons]
          simp [hid]

/-- The entries of the table are those of the sockets that are alive. -/
theorem TableInv.remaining {w : World} (hw : TableInv w) : Remaining w.sockets.toList w := by
  refine ⟨hw, ?_, ?_⟩
  · intro fd id
    rw [Std.ExtTreeMap.mem_toList_iff_getElem?_eq_some]
    exact hw.entry fd id
  · have hkeys := w.sockets.distinct_keys_toList
    rw [List.Nodup, List.pairwise_map]
    refine hkeys.imp ?_
    intro a b hab heq
    apply hab
    rw [heq]
    exact Nat.compare_eq_eq.mpr rfl

theorem clearResources_tableInv {w : World} (hw : TableInv w) :
    TableInv w.clearResources ∧ ∀ id, w.clearResources.heap id = none := by
  have hstart := hw.remaining
  have hend := foldl_remove_tableInv hstart
  generalize hw' : w.sockets.toList.foldl (fun w entry => w.remove entry.2 entry.1) w = w' at hend
  have hclear : w.clearResources = { w'.setSockets ∅ with control := .ended } := by
    rw [World.clearResources, foldl_delete_eq, hw']
  have hnone : ∀ id, w'.heap id = none := by
    intro id
    rw [← fdOf_eq_none]
    rcases hfd : w'.fdOf id with - | fd
    · rfl
    · exact absurd ((hend.mem fd id).mpr hfd) List.not_mem_nil
  rw [hclear]
  refine ⟨⟨⟨?_, ?_, ?_⟩, ⟨hend.created, hend.deleted_nodup, hend.deleted_iff, hend.inserted⟩⟩, hnone⟩
  · intro fd id
    show (∅ : Std.ExtTreeMap Fd SocketId compare)[fd]? = some id ↔ (w'.heap id).map Socket.getFd = some fd
    rw [hnone]
    simp
  · exact hend.opened
  · exact hend.fresh

/-! ### The descriptors of a handler -/

theorem perform_isOpen {id : SocketId} {fd fd' : Fd} {k : Kernel} {a : Action}
    (hopen : k.IsOpen fd') (ha : a ≠ .close fd') : (a.perform id fd k).IsOpen fd' := by
  cases a with
  | socketpair fd0 fd1 =>
      rw [Action.perform, Epoll.Kernel.isOpen_openFd, Epoll.Kernel.isOpen_openFd]
      exact .inr (.inr hopen)
  | close fd1 =>
      rw [Action.perform, Epoll.Kernel.isOpen_close]
      refine ⟨hopen, ?_⟩
      rintro rfl
      exact ha rfl
  | _ => exact hopen

/-- A descriptor that is not closed stays open. -/
theorem performs_isOpen {id : SocketId} {fd fd' : Fd} {actions : List Action} {k : Kernel}
    (hopen : k.IsOpen fd') (hclose : Action.close fd' ∉ actions) :
    (actions.foldl (Action.perform id fd) k).IsOpen fd' := by
  induction actions generalizing k with
  | nil => exact hopen
  | cons a actions ih =>
      rw [List.mem_cons, not_or] at hclose
      exact ih (perform_isOpen hopen (Ne.symm hclose.1)) hclose.2

section Client

variable {c : ClientSocket} {id newId : SocketId} {events : Events} {ans : ClientSocket.Answers}
  {h : ClientSocket.Handled} {k : Kernel}

/-- A connection closes nothing that was open before. -/
theorem handleEvent_isOpen (hfit : World.ClientAnswersFit k c.fd ans)
    (hh : c.handleEvent id newId events ans = some h) {fd : Fd} (hopen : k.IsOpen fd) :
    (h.actions.foldl (Action.perform id c.fd) k).IsOpen fd := by
  apply performs_isOpen hopen
  intro hmem
  obtain ⟨pair, hpair, hfd⟩ := ClientSocket.handleEvent_closes hh hmem
  obtain ⟨hfresh0, hfresh1, -⟩ := hfit.1 pair hpair
  obtain rfl | rfl := hfd
  · exact hfresh0 hopen
  · exact hfresh1 hopen

/-- The descriptor of a new CGI socket is open, and new. -/
theorem handleEvent_new_isOpen (hfit : World.ClientAnswersFit k c.fd ans)
    (hh : c.handleEvent id newId events ans = some h) {g : CgiSocket} (hg : h.newSocket = some g) :
    ¬ k.IsOpen g.fd ∧ (h.actions.foldl (Action.perform id c.fd) k).IsOpen g.fd := by
  obtain ⟨fd1, before, after, hpair, hactions, hclose⟩ := ClientSocket.handleEvent_newSocket hh hg
  obtain ⟨hfresh, -, hne⟩ := hfit.1 _ hpair
  refine ⟨hfresh, ?_⟩
  rw [hactions, List.foldl_append, List.foldl_cons]
  apply performs_isOpen
  · rw [Action.perform, Epoll.Kernel.isOpen_openFd, Epoll.Kernel.isOpen_openFd]
    exact .inr (.inl rfl)
  · intro hmem
    exact hne (hclose _ hmem)

end Client

/-! ### Steps -/

section Steps

variable {w w' : World} {id : SocketId} {events : Events}

theorem TableInv.fdOf_ne_of_closed (hw : TableInv w) {fd : Fd} (hfd : ¬ w.kernel.IsOpen fd)
    (id : SocketId) : w.fdOf id ≠ some fd := fun h => hfd (hw.opened id fd h)

/-- A state with another kernel, in which the same descriptors are open. -/
theorem TableInv.setKernel (hw : TableInv w) {k : Kernel}
    (hopen : ∀ fd, w.kernel.IsOpen fd → k.IsOpen fd) : TableInv { w with kernel := k } := by
  have hsame : SameObjects w { w with kernel := k } := .of_eq rfl rfl rfl rfl
  exact hsame.tableInv hw fun id fd hfd => hopen fd (hw.opened id fd hfd)

theorem TableInv.note (hw : TableInv w) {entry : Entry} (hentry : entry.isLife = false) :
    TableInv (w.note entry) := (note_same hentry).tableInv hw hw.opened

theorem serverTurn_tableInv {s : ServerSocket} {ans : ServerSocket.Answers} {epollAdd : Bool}
    (hw : TableInv w) (h : World.ServerTurn w s ans epollAdd w') : TableInv w' := by
  cases h with
  | nothing => exact hw
  | @closed fd hfd =>
      apply hw.setKernel
      intro fd' hopen
      rw [Epoll.Kernel.isOpen_close, Epoll.Kernel.isOpen_openFd]
      refine ⟨.inr hopen, ?_⟩
      rintro rfl
      exact hfd hopen
  | @accepts fd ip hfd =>
      have hopened : TableInv { w with kernel := w.kernel.openFd fd } := by
        apply hw.setKernel
        intro fd' hopen
        rw [Epoll.Kernel.isOpen_openFd]
        exact .inr hopen
      apply addSocket_tableInv hopened
      · exact Epoll.Kernel.isOpen_openFd.mpr (.inl rfl)
      · exact hw.fdOf_ne_of_closed hfd

theorem clientEvent_tableInv {c : ClientSocket} {ans : ClientSocket.Answers} {epollAdd : Bool}
    (hw : TableInv w) (hc : w.heap id = some (.client c))
    (h : w.clientEvent id c events ans epollAdd = some w') : TableInv w' := by
  obtain ⟨hd, hfit, hhd, rfl⟩ := World.clientEvent_cases h
  obtain ⟨hfd, -, -⟩ := ClientSocket.handleEvent_base hhd
  -- the handler has changed no descriptor
  have hput : SameObjects w (w.put id (.client hd.client)) := put_same hc hfd
  have hsame := hput.trans (perform_same id c.fd hd.actions)
  have hdone := hsame.tableInv hw fun id fd hid => handleEvent_isOpen hfit hhd (hw.opened id fd hid)
  have hself : w.fdOf id = some c.fd := by
    rw [World.fdOf, hc]
    rfl
  rw [World.clientHandled]
  generalize hw1 : (w.put id (.client hd.client)).perform id c.fd hd.actions = w1 at hsame hdone
  have hadd : TableInv (w1.addNewSocket hd.newSocket epollAdd) ∧
      (w1.addNewSocket hd.newSocket epollAdd).fdOf id = some c.fd := by
    rcases hnew : hd.newSocket with - | g
    · exact ⟨hdone, (hsame.fdOf id).trans hself⟩
    · obtain ⟨hclosed, hopen⟩ := handleEvent_new_isOpen hfit hhd hnew
      constructor
      · refine addSocket_tableInv hdone ?_ ?_ epollAdd
        · rw [← hw1]
          exact hopen
        · intro id' hid'
          rw [hsame.fdOf] at hid'
          exact hw.fdOf_ne_of_closed hclosed id' hid'
      · have hne : id ≠ w1.nextId := by
          rw [hsame.nextId]
          exact (hw.lt hc).ne
        exact (addSocket_fdOf hne).trans ((hsame.fdOf id).trans hself)
  split_ifs
  · exact remove_tableInv hadd.1 hadd.2
  · exact hadd.1

theorem cgiHandled_tableInv {g : CgiSocket} {ans : CgiSocket.Answers} {h : CgiSocket.Handled}
    (hw : TableInv w) (hg : w.heap id = some (.cgi g)) (hcases : World.CgiCases g events ans h) :
    TableInv (w.cgiHandled id g.fd h) ∧ SameObjects w (w.cgiHandled id g.fd h) := by
  obtain ⟨hfd, -, -, hactions⟩ := hcases.base
  have hput : SameObjects w (w.put id (.cgi h.cgi)) := put_same hg hfd
  have hsame := hput.trans (perform_same id g.fd h.actions)
  have hdone := hsame.tableInv hw fun id' fd hid => performs_isOpen (hw.opened id' fd hid) fun hmem => by
    cases hactions _ hmem
  rw [World.cgiHandled]
  rcases h.reaped with - | pid
  · exact ⟨hdone, hsame⟩
  · exact ⟨hdone.setKernel fun fd hopen => hopen, hsame.trans (.of_eq rfl rfl rfl rfl)⟩

theorem notify_tableInv {fd : Fd} {g : CgiSocket} {exitedZero : Bool}
    {ans : ClientSocket.CgiAnswers} {owner : SocketId} {c : ClientSocket} (hw : TableInv w)
    (hc : w.heap owner = some (.client c)) :
    TableInv (w.notify id fd (World.outcomeOf g exitedZero) ans owner c) ∧
      SameObjects w (w.notify id fd (World.outcomeOf g exitedZero) ans owner c) := by
  obtain ⟨res, -, hres⟩ := World.notify_eq w id fd g exitedZero ans owner c
  have hover : TableInv (w.handedOver id owner (World.outcomeOf g exitedZero)) ∧
      SameObjects w (w.handedOver id owner (World.outcomeOf g exitedZero)) ∧
      (w.handedOver id owner (World.outcomeOf g exitedZero)).heap = w.heap := by
    cases exitedZero with
    | false => exact ⟨hw, .refl, rfl⟩
    | true => exact ⟨hw.note rfl, note_same rfl, rfl⟩
  obtain ⟨hw1, hsame, hheap⟩ := hover
  rw [hres]
  generalize w.handedOver id owner (World.outcomeOf g exitedZero) = w1 at hw1 hsame hheap
  have hc1 : w1.heap owner = some (.client c) := by rw [hheap, hc]
  have hput : SameObjects w1 (w1.put owner (.client (c.answer res ans).client)) := put_same hc1 rfl
  have hall := hput.trans
    (perform_same owner c.fd (c.answer res ans).actions)
  refine ⟨hall.tableInv hw1 fun id' fd' hid => ?_, hsame.trans hall⟩
  apply performs_isOpen (hw1.opened id' fd' hid)
  rw [ClientSocket.answer]
  dsimp only
  split_ifs
  · simp
  · simp

theorem cgiEvent_tableInv {g : CgiSocket} {ans : CgiSocket.Answers}
    {owner : ClientSocket.CgiAnswers} (hw : TableInv w) (hg : w.heap id = some (.cgi g))
    (h : w.cgiEvent id g events ans owner = some w') : TableInv w' := by
  obtain ⟨hd, w1, -, hcases, hpass, rfl⟩ := World.cgiEvent_cases h
  obtain ⟨hdone, hsame⟩ := cgiHandled_tableInv hw hg hcases
  have hself : w.fdOf id = some g.fd := by
    rw [World.fdOf, hg]
    rfl
  have hpassed : TableInv w1 ∧ w1.fdOf id = some g.fd := by
    rw [← hsame.fdOf] at hself
    cases hcases with
    | ends hend hreg howner =>
        obtain ⟨c, hc, -, rfl⟩ := World.passOn_cases hpass
        obtain ⟨hnotify, hsame'⟩ := notify_tableInv hdone hc
        exact ⟨hnotify, (hsame'.fdOf id).trans hself⟩
    | _ =>
        cases hpass
        exact ⟨hdone, hself⟩
  split_ifs
  · exact remove_tableInv hpassed.1 hpassed.2
  · exact hpassed.1

/-! ### Sweeps -/

/-- The entries that `CheckTimeout` has still to visit. -/
def Control.entries : Control → List (Fd × SocketId)
  | .sweeping _ entries => entries
  | _ => []

@[simp] theorem Control.entries_sweeping (now : Int) (entries : List (Fd × SocketId)) :
    (World.nextTurn (Control.sweeping now) .waiting entries).entries = entries := by
  cases entries with
  | nil => rfl
  | cons entry entries => rfl

@[simp] theorem Control.entries_handling (events : List (SocketId × Events)) :
    (World.nextTurn Control.handling .top events).entries = [] := by
  cases events with
  | nil => rfl
  | cons event events => rfl

@[simp] theorem Control.entries_starting (configs : List ServerConfig) :
    (World.nextTurn Control.starting .top configs).entries = [] := by
  cases configs with
  | nil => rfl
  | cons config configs => rfl

/-- **The invariant of the loop**: the table is right, the entries that a sweep has still to
visit are those of sockets that are alive, and the end leaves no object. -/
structure LoopInv (w : World) : Prop extends TableInv w where
  entries : ∀ fd id, (fd, id) ∈ w.control.entries → w.fdOf id = some fd
  entries_nodup : (w.control.entries.map Prod.fst).Nodup
  ended : w.control = .ended → ∀ id, w.heap id = none

theorem remove_fdOf {fd : Fd} (hfd : w.fdOf id = some fd) (id' : SocketId) :
    (w.remove id fd).fdOf id' = if id' = id then none else w.fdOf id' := by
  obtain ⟨s, hs, -⟩ := Option.map_eq_some_iff.mp hfd
  rw [← delete_erase]
  exact delete_fdOf hs id'

/-- What `CheckTimeout` does behind `IsTimeout`. -/
theorem visit_eq {now : Int} {fd : Fd} {s : Socket} {sends : List (Option Nat)}
    {date : Option Bytes} (hw : TableInv w) (hs : w.heap id = some s)
    (hout : s.isTimeout (now - kRequestTimeout) = true) :
    ∃ w1, SameObjects w w1 ∧ TableInv w1 ∧ w.visit now fd id s sends date = w1.remove id fd := by
  have hnote : TableInv (w.note (.expired id now)) := hw.note rfl
  have hsame : SameObjects w (w.note (.expired id now)) := note_same rfl
  have hs1 : (w.note (.expired id now)).heap id = some s := hs
  rw [World.visit, if_pos hout]
  dsimp only
  rw [delete_erase]
  generalize w.note (.expired id now) = w1 at hnote hsame hs1
  cases s with
  | server s => exact ⟨w1, hsame, hnote, rfl⟩
  | cgi g => exact ⟨w1, hsame, hnote, rfl⟩
  | client c =>
      have htail := ClientSocket.handleTimeout_tail c sends date
      obtain ⟨tail, hactions, htail'⟩ := htail.actions
      have hput : SameObjects w1 (w1.put id (.client (c.handleTimeout sends date).client)) :=
        put_same hs1 htail.base.1
      have hall := hput.trans (perform_same id c.fd (c.handleTimeout sends date).actions)
      refine ⟨_, hsame.trans hall, ?_, rfl⟩
      refine hall.tableInv hnote fun id' fd' hid => performs_isOpen (hnote.opened id' fd' hid) ?_
      rw [hactions]
      exact ClientSocket.close_not_isTail htail'

theorem visit_tableInv {now : Int} {fd : Fd} {s : Socket} {sends : List (Option Nat)}
    {date : Option Bytes} (hw : TableInv w) (hs : w.heap id = some s) (hfd : w.fdOf id = some fd) :
    TableInv (w.visit now fd id s sends date) ∧
      ∀ id', id' ≠ id → (w.visit now fd id s sends date).fdOf id' = w.fdOf id' := by
  by_cases hout : s.isTimeout (now - kRequestTimeout) = true
  · obtain ⟨w1, hsame, hw1, hvisit⟩ := @visit_eq w id now fd s sends date hw hs hout
    have hfd1 : w1.fdOf id = some fd := (hsame.fdOf id).trans hfd
    rw [hvisit]
    refine ⟨remove_tableInv hw1 hfd1, fun id' hid' => ?_⟩
    rw [remove_fdOf hfd1, if_neg hid']
    exact hsame.fdOf id'
  · rw [World.visit, if_neg hout]
    exact ⟨hw, fun _ _ => rfl⟩

/-! ### Runs -/

/-- A state whose loop is elsewhere. -/
theorem TableInv.setControl (hw : TableInv w) (control : Control) :
    TableInv { w with control := control } := by
  have hsame : SameObjects w { w with control := control } := .of_eq rfl rfl rfl rfl
  exact hsame.tableInv hw hw.opened

/-- The invariant, behind a step that is not in a sweep. -/
theorem TableInv.loopInv (hw : TableInv w) (hentries : w.control.entries = [])
    (hended : w.control = .ended → ∀ id, w.heap id = none) : LoopInv w := by
  refine ⟨hw, ?_, ?_, hended⟩
  · intro fd id hmem
    rw [hentries] at hmem
    cases hmem
  · rw [hentries]
    exact List.nodup_nil

theorem opened_tableInv {config : ServerConfig} {configs : List ServerConfig} {fd : Fd} {now : Int}
    (hw : TableInv w) (hfd : ¬ w.kernel.IsOpen fd) :
    TableInv (w.opened config configs fd now) := by
  have hopened : TableInv { w with kernel := w.kernel.openFd fd } := by
    apply hw.setKernel
    intro fd' hopen
    exact Epoll.Kernel.isOpen_openFd.mpr (.inr hopen)
  apply insert_tableInv (hopened.setControl (World.nextTurn .starting .top configs))
  · exact Epoll.Kernel.isOpen_openFd.mpr (.inl rfl)
  · exact hw.fdOf_ne_of_closed hfd

theorem clearResources_loopInv (hw : TableInv w) : LoopInv w.clearResources := by
  obtain ⟨hclear, hnone⟩ := clearResources_tableInv hw
  exact hclear.loopInv rfl fun _ => hnone

theorem nextTurn_ne_ended {α : Type} {again : List α → Control} {done : Control} {xs : List α}
    (hagain : ∀ xs, again xs ≠ .ended) (hdone : done ≠ .ended) :
    World.nextTurn again done xs ≠ .ended := by
  cases xs with
  | nil => exact hdone
  | cons x xs => exact hagain _

/-- Other processes have no part in the table. -/
theorem LoopInv.setKernel (hw : LoopInv w) {k : Kernel}
    (hopen : ∀ fd, w.kernel.IsOpen fd → k.IsOpen fd) : LoopInv { w with kernel := k } :=
  ⟨hw.toTableInv.setKernel hopen, hw.entries, hw.entries_nodup, hw.ended⟩

theorem handles_tableInv {w1 : World} {time : Int} {s : Socket} {l : Label} (hw : TableInv w)
    (hs : w.heap id = some s) (h : World.Handles w id events w1 time s l) : TableInv w1 := by
  cases h with
  | server h => exact serverTurn_tableInv hw h
  | client h => exact clientEvent_tableInv hw hs h
  | cgi h => exact cgiEvent_tableInv hw hs h

theorem turned_loopInv {l : Label} (hw : LoopInv w) (h : World.Turned w l w') : LoopInv w' := by
  cases h with
  | openFails => exact clearResources_loopInv hw.toTableInv
  | @opens config configs fd now hc hfd =>
      have hopened := @opened_tableInv w config configs fd now hw.toTableInv hfd
      have hsame : SameObjects (w.opened config configs fd now)
          ((w.opened config configs fd now).register w.nextId fd) := .of_eq rfl rfl rfl rfl
      refine (hsame.tableInv hopened hopened.opened).loopInv (Control.entries_starting configs) ?_
      intro hended
      exact absurd hended (nextTurn_ne_ended (fun _ => Control.noConfusion) Control.noConfusion)
  | unregistered hc hfd => exact clearResources_loopInv (opened_tableInv hw.toTableInv hfd)
  | @sweeps now hc =>
      have hremaining := hw.toTableInv.remaining
      refine ⟨hw.toTableInv.setControl _, ?_, ?_, ?_⟩
      · intro fd id hmem
        rw [Control.entries_sweeping] at hmem
        exact (hremaining.mem fd id).mp hmem
      · rw [Control.entries_sweeping]
        exact hremaining.nodup
      · intro hended
        exact absurd hended (nextTurn_ne_ended (fun _ => Control.noConfusion) Control.noConfusion)
  | @visits now fd id entries s sends date hc hs =>
      have hentries : w.control.entries = (fd, id) :: entries := by
        rw [hc]
        rfl
      have hfd : w.fdOf id = some fd := by
        apply hw.entries
        rw [hentries]
        exact List.mem_cons_self
      have hnodup := hw.entries_nodup
      rw [hentries, List.map_cons, List.nodup_cons] at hnodup
      obtain ⟨hvisit, hothers⟩ := @visit_tableInv w id now fd s sends date hw.toTableInv hs hfd
      refine ⟨hvisit.setControl _, ?_, ?_, ?_⟩
      · intro fd' id' hmem
        rw [Control.entries_sweeping] at hmem
        have hfd' : w.fdOf id' = some fd' := by
          apply hw.entries
          rw [hentries]
          exact List.mem_cons_of_mem _ hmem
        refine (hothers id' ?_).trans hfd'
        -- a descriptor is visited once
        rintro rfl
        rw [hfd] at hfd'
        cases hfd'
        exact hnodup.1 (List.mem_map.mpr ⟨_, hmem, rfl⟩)
      · rw [Control.entries_sweeping]
        exact hnodup.2
      · intro hended
        exact absurd hended (nextTurn_ne_ended (fun _ => Control.noConfusion) Control.noConfusion)
  | waits hc => exact (hw.toTableInv.setControl .top).loopInv rfl Control.noConfusion
  | reports hc hr =>
      apply (hw.toTableInv.setControl _).loopInv (Control.entries_handling _)
      intro hended
      exact absurd hended (nextTurn_ne_ended (fun _ => Control.noConfusion) Control.noConfusion)
  | @handles time id events rest s l w1 hc hs h =>
      have hnote : TableInv (w.note (.dispatched id time)) := hw.toTableInv.note rfl
      apply ((handles_tableInv hnote hs h).setControl _).loopInv (Control.entries_handling _)
      intro hended
      exact absurd hended (nextTurn_ne_ended (fun _ => Control.noConfusion) Control.noConfusion)
  | clears => exact clearResources_loopInv hw.toTableInv
  | forks pid child => exact hw.setKernel fun fd hopen => hopen
  | closes pid file => exact hw.setKernel fun fd hopen => hopen
  | exits pid => exact hw.setKernel fun fd hopen => hopen

theorem step_loopInv {l : Label} (hw : LoopInv w) (h : w.step l = some w') : LoopInv w' := by
  obtain ⟨w1, hturn, rfl⟩ := World.step_cases h
  have hinv := turned_loopInv hw hturn
  have hsame : SameObjects w1 { w1 with clock := l.times.getLast?.getD w.clock } :=
    .of_eq rfl rfl rfl rfl
  exact ⟨hsame.tableInv hinv.toTableInv hinv.opened, hinv.entries, hinv.entries_nodup, hinv.ended⟩

theorem start_loopInv (hw : World.IsStart w) : LoopInv w := by
  obtain ⟨configs, open_, clock, rfl⟩ := hw
  have htable : TableInv (World.start configs open_ clock) := by
    refine ⟨⟨?_, ?_, ?_⟩, ⟨rfl, List.nodup_nil, ?_, ?_⟩⟩
    · intro fd id
      show (∅ : Std.ExtTreeMap Fd SocketId compare)[fd]? = some id ↔ none = some fd
      simp
    · intro id fd hfd
      cases hfd
    · exact fun _ _ => rfl
    · intro id
      show id ∈ [] ↔ id < 0 ∧ _
      simp
    · intro fd id previous hmem
      cases hmem
  apply htable.loopInv (Control.entries_starting configs)
  intro hended
  exact absurd hended (nextTurn_ne_ended (fun _ => Control.noConfusion) Control.noConfusion)

end Steps

/-- **The table in every state of every run.** -/
theorem reachable_loopInv {w : World} (h : w.Reachable) : LoopInv w :=
  h.invariant (fun _ => start_loopInv) fun _ _ _ hw _ hstep => step_loopInv hw hstep

/-! ### The table and the lives of the objects -/

/-- **The socket table.**  Between any two steps `sockets_` holds the sockets that are alive,
each under its own descriptor; no insertion finds an entry; an object is deleted at most
once, and by the end every object that was created has been deleted. -/
theorem socketTable {w : World} (h : w.Reachable) :
    (∀ fd id, w.sockets[fd]? = some id ↔ ∃ s, w.heap id = some s ∧ s.getFd = fd) ∧
      (∀ fd id previous, Entry.inserted fd id previous ∈ w.log → previous = none) ∧
      (createdIds w.log).Nodup ∧ (deletedIds w.log).Nodup ∧
      (∀ id, (w.heap id).isSome ↔ id ∈ createdIds w.log ∧ id ∉ deletedIds w.log) ∧
      (∀ id, id ∈ deletedIds w.log → id ∈ createdIds w.log) ∧
      (w.control = .ended → (deletedIds w.log).Perm (createdIds w.log)) := by
  have hw := reachable_loopInv h
  have hmem : ∀ id, id ∈ createdIds w.log ↔ id < w.nextId := by
    intro id
    rw [hw.created]
    exact List.mem_range
  have hcreated : (createdIds w.log).Nodup := by
    rw [hw.created]
    exact List.nodup_range
  refine ⟨?_, hw.inserted, hcreated, hw.deleted_nodup, ?_, ?_, ?_⟩
  · intro fd id
    rw [hw.entry]
    exact Option.map_eq_some_iff
  · intro id
    rw [hmem, hw.deleted_iff, Option.isSome_iff_ne_none]
    constructor
    · intro halive
      refine ⟨?_, fun hdead => halive hdead.2⟩
      by_contra hge
      exact halive (hw.fresh id (not_lt.mp hge))
    · exact fun hlive hnone => hlive.2 ⟨hlive.1, hnone⟩
  · intro id hid
    rw [hmem]
    exact ((hw.deleted_iff id).mp hid).1
  · intro hended
    rw [List.perm_ext_iff_of_nodup hw.deleted_nodup hcreated]
    intro id
    rw [hw.deleted_iff, hmem]
    exact and_iff_left (hw.ended hended id)

/-- The program is at its end. -/
def Control.isEnded : Control → Bool
  | .ended => true
  | _ => false

theorem Control.isEnded_iff {control : Control} : control.isEnded = true ↔ control = .ended := by
  cases control with
  | ended => exact ⟨fun _ => rfl, fun _ => rfl⟩
  | _ => exact ⟨fun h => absurd h Bool.false_ne_true, Control.noConfusion⟩

/-- A connection is timed out, and the next one gets its descriptor. -/
def reuseRun : List Label :=
  [.openServer (some 4) 0 true, .checkTimeout 0, .visit [] none,
    .epollWait (some [(⟨4, 1, 0, EPOLLIN⟩, EPOLLIN)]), .serverEvent 0 ⟨some (5, 0), none, 0⟩ true,
    .checkTimeout 11, .visit [] none, .visit [some 9] none,
    .epollWait (some [(⟨4, 1, 0, EPOLLIN⟩, EPOLLIN)]), .serverEvent 11 ⟨some (5, 0), none, 11⟩ true,
    .clearResources]

theorem socketTable_reuseRun :
    ∃ w, World.Reachable w ∧ createdIds w.log = [0, 1, 2] ∧
      (deletedIds w.log).Perm (createdIds w.log) := by
  have hrun : (Transition.run World.step (World.start [{}] [3] 0) reuseRun).map
      (fun w => (createdIds w.log, w.control.isEnded)) = some ([0, 1, 2], true) := by
    decide
  obtain ⟨w, hw, hlog⟩ := Option.map_eq_some_iff.mp hrun
  obtain ⟨hcreated, hended⟩ := Prod.mk.inj hlog
  have hreach : World.Reachable w := .run (.start ⟨_, _, _, rfl⟩) hw
  obtain ⟨-, -, -, -, -, -, hperm⟩ := socketTable hreach
  exact ⟨w, hreach, hcreated, hperm (Control.isEnded_iff.mp hended)⟩

end Webserv
