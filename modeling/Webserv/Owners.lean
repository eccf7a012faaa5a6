/-
Webserv/Owners.lean

`cgi_socket_` and `owner_`.

A connection points at the CGI socket of its request, and this one at the connection.  The
pointers are set together and removed by whichever of the two destructors comes first.
-/
import Webserv.CgiInput
import Webserv.Theory.Links

namespace Webserv

open Links (Linked)

namespace World

/-- `cgi_socket_`, of a connection that is alive. -/
def childOf (w : World) (id : SocketId) : Option SocketId := (w.heap id).bind Socket.cgiSocket

/-- `owner_`, of a CGI socket that is alive. -/
def ownerOf (w : World) (id : SocketId) : Option SocketId := (w.heap id).bind Socket.owner

/-- The pointers of the connections and those of the CGI sockets. -/
abbrev IsLinked (w : World) : Prop := Linked w.childOf w.ownerOf

variable {w w' : World} {id : SocketId} {s : Socket}

theorem childOf_of (hs : w.heap id = some s) : w.childOf id = s.cgiSocket := by
  rw [childOf, hs]
  rfl

theorem ownerOf_of (hs : w.heap id = some s) : w.ownerOf id = s.owner := by
  rw [ownerOf, hs]
  rfl

theorem childOf_dead (hs : w.heap id = none) : w.childOf id = none := by
  rw [childOf, hs]
  rfl

theorem ownerOf_dead (hs : w.heap id = none) : w.ownerOf id = none := by
  rw [ownerOf, hs]
  rfl

theorem childOf_put (w : World) (id : SocketId) (s : Socket) :
    (w.put id s).childOf = Function.update w.childOf id s.cgiSocket := by
  funext x
  by_cases hx : x = id
  · subst hx
    simp [childOf, put]
  · simp [childOf, put, hx]

theorem ownerOf_put (w : World) (id : SocketId) (s : Socket) :
    (w.put id s).ownerOf = Function.update w.ownerOf id s.owner := by
  funext x
  by_cases hx : x = id
  · subst hx
    simp [ownerOf, put]
  · simp [ownerOf, put, hx]

end World

/-! ### Changes that link nothing -/

/-- The pointers are consistent, and there is no new one. -/
structure Unlinks (w w' : World) : Prop where
  linked : w'.IsLinked
  old : ∀ c g, w'.childOf c = some g → w.childOf c = some g

section Changes

variable {w w' w'' : World} {id : SocketId} {s s' : Socket}

namespace Unlinks

theorem refl (h : w.IsLinked) : Unlinks w w := ⟨h, fun _ _ hchild => hchild⟩

theorem trans (h : Unlinks w w') (h' : Unlinks w' w'') : Unlinks w w'' :=
  ⟨h'.linked, fun c g hchild => h.old c g (h'.old c g hchild)⟩

/-- The same pointers. -/
theorem of_eq (h : w.IsLinked) (hchild : w'.childOf = w.childOf) (howner : w'.ownerOf = w.ownerOf) :
    Unlinks w w' := by
  refine ⟨?_, fun c g hc => ?_⟩
  · rw [World.IsLinked, hchild, howner]
    exact h
  · rw [← hchild]
    exact hc

theorem of_heap (h : w.IsLinked) (hheap : w'.heap = w.heap) : Unlinks w w' := by
  apply of_eq h
  · funext c
    rw [World.childOf, World.childOf, hheap]
  · funext c
    rw [World.ownerOf, World.ownerOf, hheap]

/-- The socket has changed, but not what it points at. -/
theorem put (h : w.IsLinked) (hs : w.heap id = some s) (hchild : s'.cgiSocket = s.cgiSocket)
    (howner : s'.owner = s.owner) : Unlinks w (w.put id s') := by
  apply of_eq h
  · rw [World.childOf_put, hchild, Function.update_eq_self_iff]
    exact (World.childOf_of hs).symm
  · rw [World.ownerOf_put, howner, Function.update_eq_self_iff]
    exact (World.ownerOf_of hs).symm

/-- A new socket that points at nothing. -/
theorem insert (h : w.IsLinked) (hfresh : w.heap w.nextId = none) (hchild : s.cgiSocket = none)
    (howner : s.owner = none) : Unlinks w (w.insert s) := by
  apply of_eq h
  · show (w.put w.nextId s).childOf = _
    rw [World.childOf_put, hchild, Function.update_eq_self_iff]
    exact (World.childOf_dead hfresh).symm
  · show (w.put w.nextId s).ownerOf = _
    rw [World.ownerOf_put, howner, Function.update_eq_self_iff]
    exact (World.ownerOf_dead hfresh).symm

end Unlinks

/-! ### Deleting -/

theorem heap_reap (w : World) (s : Socket) : (w.reap s).heap = w.heap := by
  cases s with
  | server => rfl
  | client => rfl
  | cgi g =>
      rw [World.reap]
      rcases g.pid with - | pid
      · rfl
      · rfl

/-- The object goes, and the other one is told. -/
theorem delete_heap (hs : w.heap id = some s) :
    (w.delete id).heap = Function.update (w.unlink id s).heap id none := by
  rw [World.delete, hs]
  show Function.update ((w.unlink id s).reap s).heap id none = _
  rw [heap_reap]

/-- Whom a destructor calls. -/
theorem unlink_heap (w : World) (id : SocketId) (s : Socket) (x : SocketId) :
    (w.unlink id s).heap x =
      if s.cgiSocket = some x then (w.heap x).map (Socket.onSetOwner none)
      else if s.owner = some x then (w.heap x).map (Socket.removeCgiSocket id)
      else w.heap x := by
  have hcall : ∀ (y : SocketId) (f : Socket → Socket),
      (w.call y f).heap x = if some y = some x then (w.heap x).map f else w.heap x := by
    intro y f
    by_cases hy : y = x
    · subst hy
      rw [if_pos rfl]
      exact Function.update_self _ _ _
    · rw [if_neg fun heq => hy (Option.some.inj heq)]
      exact Function.update_of_ne (Ne.symm hy) _ _
  cases s with
  | server s => rfl
  | client c =>
      rw [World.unlink]
      show _ = if c.cgiSocket = some x then _ else w.heap x
      rcases c.cgiSocket with - | g
      · rfl
      · exact hcall g _
  | cgi g =>
      rw [World.unlink]
      show _ = if g.owner = some x then _ else w.heap x
      rcases g.owner with - | owner
      · rfl
      · exact hcall owner _

@[simp] theorem Socket.cgiSocket_onSetOwner (s : Socket) (owner : Option SocketId) :
    (s.onSetOwner owner).cgiSocket = s.cgiSocket := by
  cases s with
  | server | client | cgi => rfl

@[simp] theorem Socket.owner_onSetOwner_none (s : Socket) : (s.onSetOwner none).owner = none := by
  cases s with
  | server | client | cgi => rfl

@[simp] theorem Socket.owner_removeCgiSocket (s : Socket) (sock : SocketId) :
    (s.removeCgiSocket sock).owner = s.owner := by
  cases s with
  | server | client | cgi => rfl

theorem Socket.cgiSocket_removeCgiSocket {sock : SocketId} (h : s.cgiSocket = some sock) :
    (s.removeCgiSocket sock).cgiSocket = none := by
  cases s with
  | server => cases h
  | cgi => cases h
  | client c =>
      have hc : c.cgiSocket = some sock := h
      show (c.removeCgiSocket sock).cgiSocket = none
      rw [ClientSocket.removeCgiSocket, if_pos hc]

theorem Socket.owner_of_cgiSocket {g : SocketId} (h : s.cgiSocket = some g) : s.owner = none := by
  cases s with
  | server | client => rfl
  | cgi => cases h

/-- **The destructor has the other object forget this one.** -/
theorem unlink_pointers (h : w.IsLinked) (hs : w.heap id = some s) {x : SocketId} (hx : x ≠ id) :
    ((w.unlink id s).heap x).bind Socket.cgiSocket = Links.forget id w.childOf x ∧
      ((w.unlink id s).heap x).bind Socket.owner = Links.forget id w.ownerOf x := by
  have hchild : w.childOf x = some id ↔ s.owner = some x := by
    rw [h, World.ownerOf_of hs]
  have howner : w.ownerOf x = some id ↔ s.cgiSocket = some x := by
    rw [← h, World.childOf_of hs]
  have hforget : Links.forget id w.childOf x = (if s.owner = some x then none else w.childOf x) ∧
      Links.forget id w.ownerOf x = if s.cgiSocket = some x then none else w.ownerOf x := by
    constructor
    · exact if_congr ((or_iff_right hx).trans hchild) rfl rfl
    · exact if_congr ((or_iff_right hx).trans howner) rfl rfl
  rw [unlink_heap, hforget.1, hforget.2]
  split_ifs with hg hc hc
  · rw [Socket.owner_of_cgiSocket hg] at hc
    cases hc
  · -- `OnSetOwner`
    rw [World.childOf]
    rcases w.heap x with - | t
    · exact ⟨rfl, rfl⟩
    · exact ⟨t.cgiSocket_onSetOwner none, t.owner_onSetOwner_none⟩
  · -- `RemoveCgiSocket`
    have hpoints := hchild.mpr hc
    rw [World.childOf] at hpoints
    rw [World.ownerOf]
    rcases ht : w.heap x with - | t
    · exact ⟨rfl, rfl⟩
    · rw [ht] at hpoints
      exact ⟨Socket.cgiSocket_removeCgiSocket hpoints, t.owner_removeCgiSocket id⟩
  · exact ⟨rfl, rfl⟩

/-- **An object is deleted.** -/
theorem Unlinks.delete (h : w.IsLinked) (id : SocketId) : Unlinks w (w.delete id) := by
  rcases hs : w.heap id with - | s
  · apply of_heap h
    rw [World.delete, hs]
    rfl
  · have hself : ∀ {β : Type} (f : Socket → Option β), ((w.delete id).heap id).bind f = none := by
      intro β f
      rw [delete_heap hs, Function.update_self]
      rfl
    have hother : ∀ {x : SocketId}, x ≠ id → (w.delete id).heap x = (w.unlink id s).heap x := by
      intro x hx
      rw [delete_heap hs, Function.update_of_ne hx]
    have hchild : (w.delete id).childOf = Links.forget id w.childOf := by
      funext x
      by_cases hx : x = id
      · rw [hx, Links.forget, if_pos (.inl rfl)]
        exact hself _
      · rw [World.childOf, hother hx]
        exact (unlink_pointers h hs hx).1
    have howner : (w.delete id).ownerOf = Links.forget id w.ownerOf := by
      funext x
      by_cases hx : x = id
      · rw [hx, Links.forget, if_pos (.inl rfl)]
        exact hself _
      · rw [World.ownerOf, hother hx]
        exact (unlink_pointers h hs hx).2
    refine ⟨?_, fun c g hc => ?_⟩
    · rw [World.IsLinked, hchild, howner]
      exact h.drop id
    · rw [hchild, Linked.forget_eq_some] at hc
      exact hc.2.2

theorem Unlinks.remove (h : w.IsLinked) (id : SocketId) (fd : Fd) : Unlinks w (w.remove id fd) := by
  have herase : Unlinks w (w.erase fd) := .of_heap h rfl
  exact herase.trans (.delete herase.linked id)

/-- A new socket that points at nothing is registered, or it is deleted. -/
theorem Unlinks.addSocket (h : w.IsLinked) (hfresh : w.heap w.nextId = none)
    (hchild : s.cgiSocket = none) (howner : s.owner = none) (epollAdd : Bool) :
    Unlinks w (w.addSocket s epollAdd) := by
  have hinsert := Unlinks.insert h hfresh hchild howner
  rw [World.addSocket]
  cases epollAdd with
  | true => exact hinsert.trans (.of_heap hinsert.linked rfl)
  | false => exact hinsert.trans (.remove hinsert.linked w.nextId s.getFd)

/-! ### Events -/

theorem serverTurn_unlinks {s : ServerSocket} {ans : ServerSocket.Answers} {epollAdd : Bool}
    (h : w.IsLinked) (hw : TableInv w) (hturn : World.ServerTurn w s ans epollAdd w') :
    Unlinks w w' := by
  cases hturn with
  | nothing => exact .refl h
  | closed => exact .of_heap h rfl
  | @accepts fd ip hfd =>
      have hopen : Unlinks w { w with kernel := w.kernel.openFd fd } := .of_heap h rfl
      exact hopen.trans (.addSocket hopen.linked (hw.fresh _ le_rfl) rfl rfl epollAdd)

/-- What an event for a connection makes of its pointer. -/
theorem handleEvent_child {c : ClientSocket} {newId : SocketId} {events : Events}
    {ans : ClientSocket.Answers} {hd : ClientSocket.Handled}
    (hh : c.handleEvent id newId events ans = some hd) :
    (hd.newSocket = none ∧ hd.client.cgiSocket = c.cgiSocket) ∨
      ∃ g, hd.newSocket = some g ∧ g.owner = some id ∧ hd.client.cgiSocket = some newId ∧
        c.req.state ≠ .kDone ∧ .adopt newId ∈ hd.actions := by
  obtain ⟨h1, hreads, htail⟩ := ClientSocket.handleEvent_reads hh
  obtain ⟨buffer, hclient⟩ := htail.client
  obtain ⟨tail, hactions, -⟩ := htail.actions
  have hchild : hd.client.cgiSocket = h1.client.cgiSocket := by rw [hclient]
  rw [hchild, htail.newSocket, hactions]
  cases hreads with
  | idle => exact .inl ⟨rfl, rfl⟩
  | received => exact .inl ⟨rfl, rfl⟩
  | answered => exact .inl ⟨rfl, rfl⟩
  | started hdata hparse =>
      refine .inr ⟨_, rfl, rfl, rfl, not_done_of_parse hparse, ?_⟩
      exact List.mem_append_left _ (List.mem_append_right _ (List.mem_singleton_self _))

/-- A request starts a program: the two objects point at each other. -/
theorem link_linked {c c' : ClientSocket} {g : CgiSocket} (h : w.IsLinked)
    (hfresh : w.heap w.nextId = none) (hc : w.heap id = some (.client c)) (hnone : c.cgiSocket = none)
    (hchild : c'.cgiSocket = some w.nextId) (howner : g.owner = some id) :
    ((w.put id (.client c')).insert (.cgi g)).IsLinked := by
  have hself : w.childOf id = none := by
    rw [World.childOf_of hc]
    exact hnone
  have hnew : w.ownerOf w.nextId = none := World.ownerOf_dead hfresh
  have hchildOf : ((w.put id (.client c')).insert (.cgi g)).childOf =
      Function.update w.childOf id (some w.nextId) := by
    show ((w.put id (.client c')).put w.nextId (.cgi g)).childOf = _
    have hne : w.nextId ≠ id := by
      rintro heq
      rw [heq, hc] at hfresh
      cases hfresh
    rw [World.childOf_put, Function.update_eq_self_iff.mpr]
    · rw [World.childOf_put]
      exact congrArg _ hchild
    · rw [World.childOf_put, Function.update_of_ne hne]
      exact (World.childOf_dead hfresh).symm
  have hownerOf : ((w.put id (.client c')).insert (.cgi g)).ownerOf =
      Function.update w.ownerOf w.nextId (some id) := by
    show ((w.put id (.client c')).put w.nextId (.cgi g)).ownerOf = _
    rw [World.ownerOf_put, World.ownerOf_put]
    show Function.update (Function.update w.ownerOf id none) w.nextId g.owner = _
    have hsame : Function.update w.ownerOf id none = w.ownerOf := by
      rw [Function.update_eq_self_iff]
      exact (World.ownerOf_of hc).symm
    rw [howner, hsame]
  rw [World.IsLinked, hchildOf, hownerOf]
  exact h.link hself hnew

/-- What a step may do to the pointers: a new one is that of a socket that has been adopted. -/
structure Relinks (id : SocketId) (acts : List Action) (w w' : World) : Prop where
  linked : w'.IsLinked
  old : ∀ c g, w'.childOf c = some g → w.childOf c = some g ∨ c = id ∧ .adopt g ∈ acts

theorem Unlinks.relinks {acts : List Action} (h : Unlinks w w') : Relinks id acts w w' :=
  ⟨h.linked, fun c g hchild => .inl (h.old c g hchild)⟩

theorem Relinks.unlinks {acts : List Action} (h : Relinks id acts w w') (h' : Unlinks w' w'') :
    Relinks id acts w w'' := ⟨h'.linked, fun c g hchild => h.old c g (h'.old c g hchild)⟩

/-- **An event for a connection.**  A request that is done has been handled, so a connection
with a CGI socket gets no second one. -/
theorem clientHandled_relinks {c : ClientSocket} {events : Events} {ans : ClientSocket.Answers}
    {hd : ClientSocket.Handled} (h : w.IsLinked) (hw : TableInv w)
    (hc : w.heap id = some (.client c)) (hdone : c.req.state ≠ .kDone → c.cgiSocket = none)
    (hhd : c.handleEvent id w.nextId events ans = some hd) (epollAdd : Bool) :
    Relinks id hd.actions w (w.clientHandled id c.fd hd epollAdd) := by
  have hfresh : w.heap w.nextId = none := hw.fresh _ le_rfl
  have hadd : Relinks id hd.actions w
      (((w.put id (.client hd.client)).perform id c.fd hd.actions).addNewSocket hd.newSocket
        epollAdd) := by
    -- either nothing is started, or the new pair of pointers is set in one step
    obtain ⟨hnew, hchild⟩ | ⟨g, hnew, howner, hchild, hstate, hadopt⟩ := handleEvent_child hhd
    · rw [hnew]
      have hput : Unlinks w (w.put id (.client hd.client)) := .put h hc hchild rfl
      have hperform : Unlinks w ((w.put id (.client hd.client)).perform id c.fd hd.actions) :=
        hput.trans (.of_heap hput.linked rfl)
      exact hperform.relinks
    · rw [hnew]
      have hlinked := link_linked h hfresh hc (hdone hstate) hchild howner
      have hold : ∀ x g', ((w.put id (.client hd.client)).insert (.cgi g)).childOf x = some g' →
          w.childOf x = some g' ∨ x = id ∧ .adopt g' ∈ hd.actions := by
        intro x g' hx
        by_cases hid : x = id
        · -- the new pointer
          refine .inr ⟨hid, ?_⟩
          have hself : ((w.put id (.client hd.client)).insert (.cgi g)).childOf id =
              some w.nextId := by
            have hne : id ≠ w.nextId := (hw.lt hc).ne
            show ((w.put id (.client hd.client)).put w.nextId (.cgi g)).childOf id = _
            rw [World.childOf_put, Function.update_of_ne hne, World.childOf_put,
              Function.update_self]
            exact hchild
          rw [hid, hself] at hx
          cases hx
          exact hadopt
        · have hx : ((w.put id (.client hd.client)).put w.nextId (.cgi g)).childOf x = some g' := hx
          rw [World.childOf_put] at hx
          by_cases hnext : x = w.nextId
          · rw [hnext, Function.update_self] at hx
            cases hx
          · rw [Function.update_of_ne hnext, World.childOf_put, Function.update_of_ne hid] at hx
            exact .inl hx
      have hinsert : Relinks id hd.actions w ((w.put id (.client hd.client)).insert (.cgi g)) :=
        ⟨hlinked, hold⟩
      have hperform : Relinks id hd.actions w
          (((w.put id (.client hd.client)).perform id c.fd hd.actions).insert (.cgi g)) :=
        hinsert.unlinks (.of_heap hlinked rfl)
      cases epollAdd with
      | true => exact hperform.unlinks (.of_heap hperform.linked rfl)
      | false => exact hperform.unlinks (.remove hperform.linked w.nextId g.fd)
  rw [World.clientHandled]
  split_ifs
  · exact hadd.unlinks (.remove hadd.linked id c.fd)
  · exact hadd

theorem cgiHandled_unlinks {g : CgiSocket} {events : Events} {ans : CgiSocket.Answers}
    {h : CgiSocket.Handled} (hlinked : w.IsLinked) (hg : w.heap id = some (.cgi g))
    (hcases : World.CgiCases g events ans h) : Unlinks w (w.cgiHandled id g.fd h) := by
  have hput : Unlinks w (w.put id (.cgi h.cgi)) := .put hlinked hg rfl hcases.base.2.2.1
  refine hput.trans (.of_heap hput.linked ?_)
  rw [World.cgiHandled]
  rcases h.reaped with - | pid
  · rfl
  · rfl

theorem notify_unlinks {fd : Fd} {g : CgiSocket} {exitedZero : Bool} {ans : ClientSocket.CgiAnswers}
    {owner : SocketId} {c : ClientSocket} (h : w.IsLinked) (hc : w.heap owner = some (.client c)) :
    Unlinks w (w.notify id fd (World.outcomeOf g exitedZero) ans owner c) := by
  obtain ⟨res, -, hres⟩ := World.notify_eq w id fd g exitedZero ans owner c
  have hover : Unlinks w (w.handedOver id owner (World.outcomeOf g exitedZero)) := by
    apply Unlinks.of_heap h
    cases exitedZero with
    | false => rfl
    | true => rfl
  have hc' : (w.handedOver id owner (World.outcomeOf g exitedZero)).heap owner =
      some (.client c) := by
    cases exitedZero with
    | false => exact hc
    | true => exact hc
  rw [hres]
  have hput : Unlinks (w.handedOver id owner (World.outcomeOf g exitedZero))
      ((w.handedOver id owner (World.outcomeOf g exitedZero)).put owner
        (.client (c.answer res ans).client)) := .put hover.linked hc' rfl rfl
  exact (hover.trans hput).trans (.of_heap hput.linked rfl)

theorem cgiEvent_unlinks {g : CgiSocket} {events : Events} {ans : CgiSocket.Answers}
    {owner : ClientSocket.CgiAnswers} (h : w.IsLinked) (hg : w.heap id = some (.cgi g))
    (hevent : w.cgiEvent id g events ans owner = some w') : Unlinks w w' := by
  obtain ⟨hd, w1, -, hcases, hpass, rfl⟩ := World.cgiEvent_cases hevent
  have hdone := cgiHandled_unlinks h hg hcases
  have hpassed : Unlinks w w1 := by
    cases hcases with
    | ends hend hreg howner =>
        obtain ⟨c, hc, -, rfl⟩ := World.passOn_cases hpass
        exact hdone.trans (notify_unlinks hdone.linked hc)
    | _ =>
        cases hpass
        exact hdone
  split_ifs
  · exact hpassed.trans (.remove hpassed.linked id g.fd)
  · exact hpassed

/-! ### Sweeps -/

theorem visit_unlinks {now : Int} {fd : Fd} {sends : List (Option Nat)} {date : Option Bytes}
    (h : w.IsLinked) (hs : w.heap id = some s) : Unlinks w (w.visit now fd id s sends date) := by
  by_cases hout : s.isTimeout (now - kRequestTimeout) = true
  · have hnote : Unlinks w (w.note (.expired id now)) := .of_heap h rfl
    rw [World.visit, if_pos hout]
    dsimp only
    rw [delete_erase]
    cases s with
    | server s => exact hnote.trans (.remove hnote.linked id fd)
    | cgi g => exact hnote.trans (.remove hnote.linked id fd)
    | client c =>
        have hclient : (c.handleTimeout sends date).client.cgiSocket = c.cgiSocket := by
          obtain ⟨res, -, hres⟩ := ClientSocket.handleTimeout_eq c sends date
          rw [hres]
        have hput : Unlinks (w.note (.expired id now))
            ((w.note (.expired id now)).put id (.client (c.handleTimeout sends date).client)) :=
          .put hnote.linked hs hclient rfl
        have hperform := hput.trans (.of_heap hput.linked
          (rfl : (((w.note (.expired id now)).put id
            (.client (c.handleTimeout sends date).client)).perform id c.fd
              (c.handleTimeout sends date).actions).heap = _))
        exact (hnote.trans hperform).trans (.remove hperform.linked id fd)
  · rw [World.visit, if_neg hout]
    exact .refl h

/-! ### What is handed over -/

/-- The CGI sockets whose output has been handed over, with whom it was given to. -/
def handovers (log : List Entry) : List (SocketId × SocketId) :=
  log.filterMap fun
    | .acted g (.handOver owner _) => some (g, owner)
    | _ => none

theorem mem_handovers {log : List Entry} {g owner : SocketId} :
    (g, owner) ∈ handovers log ↔ ∃ output, Entry.acted g (.handOver owner output) ∈ log := by
  rw [handovers, List.mem_filterMap]
  constructor
  · rintro ⟨entry, hmem, hentry⟩
    cases entry with
    | acted g' action =>
        cases action with
        | handOver owner' output =>
            cases hentry
            exact ⟨output, hmem⟩
        | _ => cases hentry
    | _ => cases hentry
  · rintro ⟨output, hmem⟩
    exact ⟨_, hmem, rfl⟩

theorem handovers_append (log log' : List Entry) :
    handovers (log ++ log') = handovers log ++ handovers log' := List.filterMap_append

theorem handovers_of_none {log : List Entry}
    (h : ∀ g owner output, Entry.acted g (.handOver owner output) ∉ log) : handovers log = [] := by
  rw [List.eq_nil_iff_forall_not_mem]
  rintro ⟨g, owner⟩ hmem
  obtain ⟨output, hentry⟩ := mem_handovers.mp hmem
  exact h g owner output hentry

theorem handovers_acted {actions : List Action}
    (h : ∀ owner output, Action.handOver owner output ∉ actions) (id : SocketId) :
    handovers (actions.map (.acted id)) = [] := by
  apply handovers_of_none
  intro g owner output hmem
  obtain ⟨a, ha, hentry⟩ := List.mem_map.mp hmem
  cases hentry
  exact h owner output ha

theorem handovers_add {log log' : List Entry} (hlog : w'.log = log ++ log')
    (h : handovers log' = []) : handovers w'.log = handovers log := by
  rw [hlog, handovers_append, h, List.append_nil]

/-- A connection hands nothing over. -/
theorem handOver_not_mem {c : ClientSocket} {newId : SocketId} {events : Events}
    {ans : ClientSocket.Answers} {hd : ClientSocket.Handled}
    (hh : c.handleEvent id newId events ans = some hd) (owner : SocketId) (output : Bytes) :
    Action.handOver owner output ∉ hd.actions := by
  obtain ⟨h1, hreads, htail⟩ := ClientSocket.handleEvent_reads hh
  obtain ⟨tail, hactions, htail'⟩ := htail.actions
  have hrun : ∀ {sys : Sys} {config : ServerConfig} {req : HttpRequest} {result : ExecResult}
      {actions : List Action}, RequestHandler.run sys config req = (result, actions) →
        Action.handOver owner output ∉ actions := by
    intro sys config req result actions hrun hmem
    have heffect := requestHandler_isEffect sys config req (.handOver owner output)
    rw [hrun] at heffect
    cases heffect hmem
  rw [hactions, List.mem_append, not_or]
  refine ⟨?_, fun hmem => by cases htail' _ hmem⟩
  cases hreads with
  | idle => exact List.not_mem_nil
  | received =>
      intro hmem
      cases List.mem_singleton.mp hmem
  | answered hdata hparse hstate hrequest =>
      rintro (- | ⟨-, - | ⟨-, hmem⟩⟩)
      exact hrun hrequest hmem
  | started hdata hparse hstate hrequest =>
      intro hmem
      obtain hmem | hmem := List.mem_append.mp hmem
      · obtain - | ⟨-, - | ⟨-, hmem⟩⟩ := hmem
        exact hrun hrequest hmem
      · cases List.mem_singleton.mp hmem

theorem serverTurn_handovers {s : ServerSocket} {ans : ServerSocket.Answers} {epollAdd : Bool}
    (hturn : World.ServerTurn w s ans epollAdd w') : handovers w'.log = handovers w.log := by
  cases hturn with
  | nothing => rfl
  | closed => rfl
  | accepts =>
      refine handovers_add (World.log_addSocket _ _ epollAdd) (handovers_of_none fun _ _ _ => ?_)
      exact World.acted_not_mem_addedEntries

theorem clientHandled_handovers {c : ClientSocket} {newId : SocketId} {events : Events}
    {ans : ClientSocket.Answers} {hd : ClientSocket.Handled}
    (hhd : c.handleEvent id newId events ans = some hd) (fd : Fd) (epollAdd : Bool) :
    handovers (w.clientHandled id fd hd epollAdd).log = handovers w.log := by
  obtain ⟨after, hlog, hafter⟩ := clientHandled_log w id fd hd epollAdd
  apply handovers_add hlog
  rw [handovers_append, handovers_acted (handOver_not_mem hhd),
    handovers_of_none fun g owner output => hafter g (.handOver owner output), List.append_nil]

theorem notify_handovers (w : World) (id : SocketId) (fd : Fd) (g : CgiSocket) (exitedZero : Bool)
    (ans : ClientSocket.CgiAnswers) (owner : SocketId) (c : ClientSocket) :
    handovers (w.notify id fd (World.outcomeOf g exitedZero) ans owner c).log =
      handovers w.log ++ if exitedZero then [(id, owner)] else [] := by
  obtain ⟨res, -, hres⟩ := World.notify_eq w id fd g exitedZero ans owner c
  have hanswer : handovers ((c.answer res ans).actions.map (.acted owner)) = [] := by
    apply handovers_acted
    intro target output hmem
    rw [ClientSocket.answer] at hmem
    dsimp only at hmem
    split_ifs at hmem
    · cases List.mem_singleton.mp hmem
    · cases hmem
  rw [hres, handovers_add (World.log_perform _ _ _ _) hanswer, World.log_put]
  cases exitedZero with
  | false => exact (List.append_nil _).symm
  | true => exact handovers_append _ _

/-- **The output of a program** is handed over at its end, to the owner of its socket. -/
theorem cgiEvent_handovers {g : CgiSocket} {events : Events} {ans : CgiSocket.Answers}
    {owner : ClientSocket.CgiAnswers} (hg : w.heap id = some (.cgi g))
    (hevent : w.cgiEvent id g events ans owner = some w') :
    handovers w'.log = handovers w.log ∨ ∃ target, handovers w'.log = handovers w.log ++ [(id, target)] ∧
      w.ownerOf id = some target ∧ w'.heap id = none := by
  obtain ⟨hd, w1, -, hcases, hpass, rfl⟩ := World.cgiEvent_cases hevent
  have hacts : handovers (hd.actions.map (.acted id)) = [] := by
    apply handovers_acted
    intro target output hmem
    cases hcases.base.2.2.2 _ hmem
  have hdone : handovers (w.cgiHandled id g.fd hd).log = handovers w.log :=
    handovers_add (cgiHandled_objects w id g.fd hd).1 hacts
  have hremove : ∀ w : World, handovers (w.remove id g.fd).log = handovers w.log :=
    fun w => handovers_add (World.log_remove w id g.fd) rfl
  cases hcases with
  | @ends target hend hreg howner =>
      obtain ⟨c, hc, -, rfl⟩ := World.passOn_cases hpass
      rw [if_pos rfl, hremove, notify_handovers, hdone]
      cases ans.exitedZero with
      | false => exact .inl (List.append_nil _)
      | true =>
          refine .inr ⟨target, rfl, (World.ownerOf_of hg).trans howner, ?_⟩
          rw [← World.coreOf_eq_none, World.coreOf_remove, Function.update_self]
  | _ =>
      cases hpass
      refine .inl ?_
      split_ifs
      all_goals first | exact (hremove _).trans hdone | exact hdone

theorem visit_handovers {now : Int} {fd : Fd} {sends : List (Option Nat)} {date : Option Bytes} :
    handovers (w.visit now fd id s sends date).log = handovers w.log := by
  by_cases hout : s.isTimeout (now - kRequestTimeout) = true
  · have hremove : ∀ w : World, handovers (w.remove id fd).log = handovers w.log :=
      fun w => handovers_add (World.log_remove w id fd) rfl
    have hnote : handovers (w.note (.expired id now)).log = handovers w.log :=
      handovers_add (World.log_note w _) rfl
    rw [World.visit, if_pos hout]
    dsimp only
    rw [delete_erase, hremove]
    cases s with
    | server s => exact hnote
    | cgi g => exact hnote
    | client c =>
        obtain ⟨tail, hactions, htail⟩ := (ClientSocket.handleTimeout_tail c sends date).actions
        refine (handovers_add (World.log_perform _ _ _ _) (handovers_acted ?_ id)).trans hnote
        intro owner output hmem
        rw [hactions, List.nil_append] at hmem
        cases htail _ hmem
  · rw [World.visit, if_neg hout]

theorem clearResources_handovers (w : World) : handovers w.clearResources.log = handovers w.log := by
  obtain ⟨⟨ids, hlog⟩, -⟩ := World.clearResources_objects w
  apply handovers_add hlog
  apply handovers_of_none
  intro g owner output hmem
  obtain ⟨_, -, hentry⟩ := List.mem_map.mp hmem
  cases hentry

/-! ### Steps -/

/-- **What is known of the pointers**: they are consistent, a CGI socket is that of the one
connection that has adopted it, and what has handed its output over is gone. -/
structure LinkInv (w : World) : Prop where
  linked : w.IsLinked
  adopted : ∀ c g, w.childOf c = some g → .adopt g ∈ actionsOf w.log c
  adopter : ∀ c c' g, .adopt g ∈ actionsOf w.log c → .adopt g ∈ actionsOf w.log c' → c' = c
  once : ((handovers w.log).map Prod.fst).Nodup
  passed : ∀ g owner, (g, owner) ∈ handovers w.log →
    g < w.nextId ∧ w.heap g = none ∧ .adopt g ∈ actionsOf w.log owner

/-- A connection whose request is not done has no CGI socket. -/
theorem LinkInv.no_child {w : World} (h : LinkInv w)
    (hrec : ∀ id, Recorded (actionsOf w.log id) (w.coreOf id)) {id : SocketId} {c : ClientSocket}
    (hc : w.heap id = some (.client c)) (hstate : c.req.state ≠ .kDone) : c.cgiSocket = none := by
  by_contra hne
  obtain ⟨g, hg⟩ := Option.ne_none_iff_exists'.mp hne
  have hadopted := h.adopted id g ((World.childOf_of hc).trans hg)
  have hrecorded := hrec id
  rw [World.coreOf_of hc] at hrecorded
  exact (hrecorded.noHandler _ rfl hstate).adopt_not_mem hadopted

/-- The pointers behind a step: a new one is that of the connection whose event it was. -/
theorem turned_relinks {l : Label} (hlink : w.IsLinked) (hw : LoopInv w)
    (hdone : ∀ id c, w.heap id = some (.client c) → c.req.state ≠ .kDone → c.cgiSocket = none)
    (h : World.Turned w l w') :
    Unlinks w w' ∨ ∃ id acts, Relinks id acts w w' ∧ ∀ a ∈ acts, a ∈ actionsOf w'.log id := by
  have hcontrol : ∀ (w1 : World) (control : Control), w1.IsLinked →
      Unlinks w1 { w1 with control := control } := fun w1 control h1 => .of_heap h1 rfl
  -- where everything is deleted no pointer is left
  have hclear : ∀ w1 : World, TableInv w1 → Unlinks w w1.clearResources := by
    intro w1 hw1
    have hnone := (clearResources_tableInv hw1).2
    have hchild : w1.clearResources.childOf = fun _ => none :=
      funext fun id => World.childOf_dead (hnone id)
    have howner : w1.clearResources.ownerOf = fun _ => none :=
      funext fun id => World.ownerOf_dead (hnone id)
    refine ⟨?_, fun c g hc => ?_⟩
    · rw [World.IsLinked, hchild, howner]
      exact .empty
    · rw [hchild] at hc
      cases hc
  have hopened : ∀ (config : ServerConfig) (configs : List ServerConfig) (fd : Fd) (now : Int),
      Unlinks w (w.opened config configs fd now) := by
    intro config configs fd now
    have hopen : Unlinks w { w with
        kernel := w.kernel.openFd fd
        control := World.nextTurn .starting .top configs } := .of_heap hlink rfl
    exact hopen.trans (.insert hopen.linked (hw.fresh _ le_rfl) rfl rfl)
  cases h with
  | openFails => exact .inl (hclear w hw.toTableInv)
  | @opens config configs fd now =>
      have hnew := hopened config configs fd now
      exact .inl (hnew.trans (.of_heap hnew.linked rfl))
  | unregistered hc hfd => exact .inl (hclear _ (opened_tableInv hw.toTableInv hfd))
  | sweeps => exact .inl (hcontrol w _ hlink)
  | @visits now fd id entries s sends date hc hs =>
      have hvisit := @visit_unlinks w id s now fd sends date hlink hs
      exact .inl (hvisit.trans (hcontrol _ _ hvisit.linked))
  | waits => exact .inl (hcontrol w _ hlink)
  | reports => exact .inl (hcontrol w _ hlink)
  | @handles time id events rest s l w1 hc hs h =>
      have hnote : Unlinks w (w.note (.dispatched id time)) := .of_heap hlink rfl
      have htable : TableInv (w.note (.dispatched id time)) := hw.toTableInv.note rfl
      cases h with
      | server h =>
          have hturn := serverTurn_unlinks hnote.linked htable h
          exact .inl ((hnote.trans hturn).trans (hcontrol _ _ hturn.linked))
      -- only a connection can start a program
      | @client c ans epollAdd h =>
          obtain ⟨hd, -, hhd, rfl⟩ := World.clientEvent_cases h
          have hevent := clientHandled_relinks hnote.linked htable hs (hdone id c hs) hhd epollAdd
          obtain ⟨after, hlog, hafter⟩ :=
            clientHandled_log (w.note (.dispatched id time)) id c.fd hd epollAdd
          refine .inr ⟨id, hd.actions, ⟨?_, hevent.old⟩, fun a ha => ?_⟩
          · exact (hcontrol _ _ hevent.linked).linked
          · have hacts := actionsOf_did hlog hafter id
            rw [if_pos rfl] at hacts
            show a ∈ actionsOf ((w.note (.dispatched id time)).clientHandled id c.fd hd epollAdd).log id
            rw [hacts]
            exact List.mem_append_right _ ha
      | cgi h =>
          have hevent := cgiEvent_unlinks hnote.linked hs h
          exact .inl ((hnote.trans hevent).trans (hcontrol _ _ hevent.linked))
  | clears => exact .inl (hclear w hw.toTableInv)
  | forks | closes | exits => exact .inl (.of_heap hlink rfl)

/-- What a step hands over. -/
theorem turned_handovers {l : Label} (h : World.Turned w l w') :
    handovers w'.log = handovers w.log ∨ ∃ g owner,
      handovers w'.log = handovers w.log ++ [(g, owner)] ∧ w.ownerOf g = some owner ∧
        w'.heap g = none := by
  have hopened : ∀ (config : ServerConfig) (configs : List ServerConfig) (fd : Fd) (now : Int),
      handovers (w.opened config configs fd now).log = handovers w.log :=
    fun config configs fd now => handovers_add (World.log_insert _ _) rfl
  cases h with
  | openFails => exact .inl (clearResources_handovers w)
  | opens => exact .inl (hopened _ _ _ _)
  | unregistered => exact .inl ((clearResources_handovers _).trans (hopened _ _ _ _))
  | visits => exact .inl visit_handovers
  | @handles time id events rest s l w1 hc hs h =>
      have hnote : handovers (w.note (.dispatched id time)).log = handovers w.log :=
        handovers_add (World.log_note w _) rfl
      have hs1 : (w.note (.dispatched id time)).heap id = some s := hs
      cases h with
      | server h => exact .inl ((serverTurn_handovers h).trans hnote)
      | client h =>
          obtain ⟨hd, -, hhd, rfl⟩ := World.clientEvent_cases h
          exact .inl ((clientHandled_handovers hhd _ _).trans hnote)
      | cgi h =>
          obtain hsame | ⟨target, hlog, howner, hdead⟩ := cgiEvent_handovers hs1 h
          · exact .inl (hsame.trans hnote)
          · rw [hnote] at hlog
            exact .inr ⟨id, target, hlog, howner, hdead⟩
  | clears => exact .inl (clearResources_handovers w)
  | sweeps | waits | reports | forks | closes | exits => exact .inl rfl

/-- What is gone does not come back. -/
theorem Life.stays_dead {l : Label} {acts acts' : List Action} {s' : Option Socket}
    (hlife : Life w l id acts none acts' s') (hid : id < w.nextId) : s' = none := by
  generalize hnone : (none : Option Socket) = before at hlife
  cases hlife with
  | same => rfl
  | gone => exact hnone
  | opened hnew | accepted hnew | started hnew => exact absurd hnew hid.ne
  | event | answered | expired | printed | ended => cases hnone

theorem turned_linkInv {l : Label} (hw : RunInv w) (hold : AdoptsOld w)
    (hrec : ∀ id, Recorded (actionsOf w.log id) (w.coreOf id)) (hlink : LinkInv w)
    (h : World.Turned w l w') : LinkInv w' := by
  have hlives := turned_lives hw.toLoopInv hw.silent h
  have hgrows : ∀ id, ∃ extra, actionsOf w'.log id = actionsOf w.log id ++ extra ∧
      (NoHandler extra ∨ ∃ e hd, CompletesAt w l id e hd ∧ extra = hd.actions) :=
    fun id => (hlives id).grows
  have hkeeps : ∀ id, ∀ a ∈ actionsOf w.log id, a ∈ actionsOf w'.log id := by
    intro id a ha
    obtain ⟨extra, hacts, -⟩ := hgrows id
    rw [hacts]
    exact List.mem_append_left _ ha
  -- a request that is not done has not been handled
  have hdone : ∀ id c, w.heap id = some (.client c) → c.req.state ≠ .kDone → c.cgiSocket = none :=
    fun id c hc hstate => hlink.no_child hrec hc hstate
  have hnew : ∀ c g, .adopt g ∈ actionsOf w'.log c → .adopt g ∈ actionsOf w.log c ∨
      g = w.nextId ∧ ∃ events rest, w.control = .handling ((c, events) :: rest) := by
    intro c g hmem
    obtain ⟨extra, hacts, hextra⟩ := hgrows c
    rw [hacts] at hmem
    obtain hmem | hmem := List.mem_append.mp hmem
    · exact .inl hmem
    · obtain hno | ⟨e, hd, he, rfl⟩ := hextra
      · cases hno _ hmem
      · obtain ⟨new, -, hid⟩ := Option.map_eq_some_iff.mp (he.served.adopt_mem.mp hmem)
        obtain ⟨events, rest, hcontrol, -⟩ := he.event
        exact .inr ⟨hid.symm, events, rest, hcontrol⟩
  have hrelinks := turned_relinks hlink.linked hw.toLoopInv hdone h
  refine ⟨?_, fun c g hc => ?_, fun c c' g hc hc' => ?_, ?_, fun g owner hmem => ?_⟩
  · obtain hunlinks | ⟨id, acts, hrelinks, -⟩ := hrelinks
    · exact hunlinks.linked
    · exact hrelinks.linked
  · obtain hunlinks | ⟨id, acts, hrelinks, hacts⟩ := hrelinks
    · exact hkeeps c _ (hlink.adopted c g (hunlinks.old c g hc))
    · obtain hchild | ⟨rfl, hadopt⟩ := hrelinks.old c g hc
      · exact hkeeps c _ (hlink.adopted c g hchild)
      · exact hacts _ hadopt
  · obtain hc | ⟨hg, events, rest, hcontrol⟩ := hnew c g hc
    · obtain hc' | ⟨hg, -⟩ := hnew c' g hc'
      · exact hlink.adopter c c' g hc hc'
      · exact absurd (hold c g hc) hg.not_lt
    · obtain hc' | ⟨-, events', rest', hcontrol'⟩ := hnew c' g hc'
      · exact absurd (hold c' g hc') hg.not_lt
      · rw [hcontrol] at hcontrol'
        cases hcontrol'
        rfl
  · obtain hsame | ⟨g, owner, hover, howner, -⟩ := turned_handovers h
    · rw [hsame]
      exact hlink.once
    · rw [hover, List.map_append, List.nodup_append']
      refine ⟨hlink.once, List.nodup_singleton _, ?_⟩
      intro g' hold' hnew'
      obtain rfl := List.mem_singleton.mp hnew'
      obtain ⟨⟨g', owner'⟩, hmem, rfl⟩ := List.mem_map.mp hold'
      rw [World.ownerOf_dead (hlink.passed g' owner' hmem).2.1] at howner
      cases howner
  · obtain ⟨hlt, hdead, hadopt⟩ : g < w.nextId ∧ w'.heap g = none ∧
        .adopt g ∈ actionsOf w.log owner := by
      obtain hsame | ⟨g', owner', hover, howner, hdead⟩ := turned_handovers h
      · rw [hsame] at hmem
        obtain ⟨hlt, hdead, hadopt⟩ := hlink.passed g owner hmem
        have hlife := hlives g
        rw [World.Lives, World.coreOf_eq_none.mpr hdead] at hlife
        exact ⟨hlt, World.coreOf_eq_none.mp (hlife.stays_dead hlt), hadopt⟩
      · rw [hover] at hmem
        obtain hmem | hmem := List.mem_append.mp hmem
        · obtain ⟨hlt, hdead, hadopt⟩ := hlink.passed g owner hmem
          have hlife := hlives g
          rw [World.Lives, World.coreOf_eq_none.mpr hdead] at hlife
          exact ⟨hlt, World.coreOf_eq_none.mp (hlife.stays_dead hlt), hadopt⟩
        · cases List.mem_singleton.mp hmem
          have hchild := (hlink.linked owner g).mpr howner
          obtain ⟨s, hs, -⟩ := Option.bind_eq_some_iff.mp howner
          exact ⟨hw.lt hs, hdead, hlink.adopted owner g hchild⟩
    exact ⟨hlt.trans_le (turned_nextId h), hdead, hkeeps owner _ hadopt⟩

theorem reachable_linkInv {P : World → Label → Prop}
    (h : Transition.Reachable World.step P World.IsStart w) : LinkInv w := by
  refine (h.invariant_under (I := fun w => AdoptsOld w ∧ LinkInv w)
    (J := fun w => RunInv w ∧ ∀ id, Recorded (actionsOf w.log id) (w.coreOf id)) ?_ ?_ ?_).2
  · exact fun w hw => ⟨reachable_runInv hw, reachable_recorded hw⟩
  · rintro w ⟨configs, open_, clock, rfl⟩
    refine ⟨?_, Linked.empty, ?_, ?_, List.nodup_nil, ?_⟩
    · rintro id g ⟨⟩
    · rintro c g ⟨⟩
    · rintro c c' g ⟨⟩
    · rintro g owner ⟨⟩
  · intro w l w' hw _ hI hl hst
    refine ⟨step_adoptsOld hw.1 hI.1 hst, ?_⟩
    obtain ⟨w1, hturn, rfl⟩ := World.step_cases hst
    obtain ⟨hlinked, hadopted, hadopter, honce, hpassed⟩ :=
      turned_linkInv hw.1 hI.1 hw.2 hI.2 hturn
    exact ⟨hlinked, hadopted, hadopter, honce, hpassed⟩

end Changes

/-- **Owner and child.**  A connection points at a CGI socket exactly if this one is alive and
points back; its owner is a connection that is alive; and the output of a program is handed
over at most once, to the one connection whose request has started it. -/
theorem owners {w : World} (h : World.Reachable w) :
    (∀ c g, (∃ s, w.heap c = some (.client s) ∧ s.cgiSocket = some g) ↔
      ∃ t, w.heap g = some (.cgi t) ∧ t.owner = some c) ∧
    (∀ g t c, w.heap g = some (.cgi t) → t.owner = some c → ∃ s, w.heap c = some (.client s)) ∧
    ((handovers w.log).map Prod.fst).Nodup ∧
    ∀ g owner output, Entry.acted g (.handOver owner output) ∈ w.log →
      ∀ c, .adopt g ∈ actionsOf w.log c ↔ c = owner := by
  have hlink := reachable_linkInv h
  -- the pointers as the objects have them
  have hchild : ∀ c g, w.childOf c = some g ↔
      ∃ s, w.heap c = some (.client s) ∧ s.cgiSocket = some g := by
    intro c g
    rw [World.childOf, Option.bind_eq_some_iff]
    constructor
    · rintro ⟨s, hs, hg⟩
      cases s with
      | client s => exact ⟨s, hs, hg⟩
      | server | cgi => cases hg
    · rintro ⟨s, hs, hg⟩
      exact ⟨.client s, hs, hg⟩
  have howner : ∀ g c, w.ownerOf g = some c ↔
      ∃ t, w.heap g = some (.cgi t) ∧ t.owner = some c := by
    intro g c
    rw [World.ownerOf, Option.bind_eq_some_iff]
    constructor
    · rintro ⟨t, ht, hc⟩
      cases t with
      | cgi t => exact ⟨t, ht, hc⟩
      | server | client => cases hc
    · rintro ⟨t, ht, hc⟩
      exact ⟨.cgi t, ht, hc⟩
  have hlinked : ∀ c g, (∃ s, w.heap c = some (.client s) ∧ s.cgiSocket = some g) ↔
      ∃ t, w.heap g = some (.cgi t) ∧ t.owner = some c := by
    intro c g
    rw [← hchild, ← howner]
    exact hlink.linked c g
  refine ⟨hlinked, fun g t c ht hc => ?_, hlink.once, fun g owner output hmem c => ?_⟩
  · obtain ⟨s, hs, -⟩ := (hlinked c g).mpr ⟨t, ht, hc⟩
    exact ⟨s, hs⟩
  · obtain ⟨-, -, hadopt⟩ := hlink.passed g owner (mem_handovers.mpr ⟨output, hmem⟩)
    constructor
    · exact fun hc => hlink.adopter owner c g hadopt hc
    · rintro rfl
      exact hadopt

/-- A program is started, prints, and ends. -/
def printRun : List Label :=
  [.openServer (some 4) 0 true, .checkTimeout 0, .visit [] none,
    .epollWait (some [(⟨4, 1, 0, EPOLLIN⟩, EPOLLIN)]), .serverEvent 0 ⟨some (5, 0), none, 0⟩ true,
    .checkTimeout 0, .visit [] none, .visit [] none,
    .epollWait (some [(⟨5, 2, 1, EPOLLIN⟩, EPOLLIN)]),
    .clientEvent 0 ⟨0, some (bytes "GET /a.py HTTP/1.1\r\nHost: a\r\n\r\n"), sampleSys,
      some .other, false, none, none, none⟩ true,
    .checkTimeout 0, .visit [] none, .visit [] none, .visit [] none,
    .epollWait (some [(⟨6, 3, 2, EPOLLIN⟩, EPOLLIN)]),
    .cgiEvent 0 ⟨some (bytes "Content-Type: a\n\nb"), false, true⟩ ⟨0, none, true⟩,
    .checkTimeout 0, .visit [] none, .visit [] none, .visit [] none,
    .epollWait (some [(⟨6, 3, 2, EPOLLIN⟩, EPOLLIN)]),
    .cgiEvent 0 ⟨some [], true, true⟩ ⟨0, none, true⟩]

theorem owners_printRun : ∃ w,
    Transition.run World.step (World.start [sampleConfig] [3] 0) printRun = some w ∧
      handovers w.log = [(2, 1)] ∧ ∀ c, .adopt 2 ∈ actionsOf w.log c ↔ c = 1 := by
  have hrun : (Transition.run World.step (World.start [sampleConfig] [3] 0) printRun).map
      (fun w => handovers w.log) = some [(2, 1)] := by
    decide +kernel
  obtain ⟨w, hw, hlog⟩ := Option.map_eq_some_iff.mp hrun
  have hreach : World.Reachable w := .run (.start ⟨_, _, _, rfl⟩) hw
  obtain ⟨output, hover⟩ := mem_handovers.mp (hlog ▸ List.mem_singleton_self (2, 1))
  exact ⟨w, hw, hlog, (owners hreach).2.2.2 2 1 output hover⟩

end Webserv
