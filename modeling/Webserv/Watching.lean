/-
Webserv/Watching.lean

The table and the epoll set hold the same sockets, and what is left of deleted ones.

Between `socket` or `accept` and `EPOLL_CTL_ADD`, and between `EPOLL_CTL_DEL` and `delete`, a
socket is in one of them only; no step ends there.  A registration is left over where a socket is
deleted while another process still holds its file.
-/
import Webserv.Dangling
import Webserv.Theory.Watching

namespace Webserv

open Epoll.Kernel (Watches)

/-! ### Sockets -/

/-- The socket is a connection. -/
def Socket.isClient : Socket → Bool
  | .client _ => true
  | _ => false

@[simp] theorem Socket.isClient_core (s : Socket) : s.core.isClient = s.isClient := by
  cases s with
  | server => rfl
  | client => rfl
  | cgi => rfl

@[simp] theorem Socket.getFd_core (s : Socket) : s.core.getFd = s.getFd := by
  rw [Socket.getFd, Socket.base_core]
  rfl

/-- `EPOLL_CTL_MOD` has told the connection to send. -/
def IsTold (log : List Entry) (id : SocketId) : Prop := .acted id (.epollMod EPOLLOUT) ∈ log

/-- The socket is in the epoll set, and waits for input; a connection that has been told to
may wait to send. -/
def Socket.IsWatched (s : Socket) (w : World) (id : SocketId) : Prop :=
  w.kernel.Watches s.getFd id EPOLLIN ∨
    s.isClient = true ∧ w.kernel.Watches s.getFd id EPOLLOUT ∧ IsTold w.log id

/-- The sockets that are alive, but for those in `X`, are in the epoll set. -/
def Watched (X : Set SocketId) (w : World) : Prop :=
  ∀ id ∉ X, ∀ s, w.coreOf id = some s → s.IsWatched w id

/-! ### `EPOLL_CTL_DEL` of a connection -/

namespace ClientSocket

variable {self newId : SocketId} {events : Events} {ans : Answers} {c : ClientSocket}

theorem InOutcome.keeps {r : EStateM.Result Exception Handled Unit}
    (hr : InOutcome self newId ans { client := c } r) : .epollDel ∉ r.state.actions := by
  cases hr with
  | closed => exact List.not_mem_nil
  | refused => exact fun hmem => by cases List.mem_singleton.mp hmem
  | waits => exact fun hmem => by cases List.mem_singleton.mp hmem
  | answered hdata hparse hstate hrun hnew hactions =>
      intro hmem
      obtain hmem | hmem := List.mem_append.mp hmem
      · exact ran_not_tail rfl (noProgram_not_tail hactions rfl) hmem
      · cases List.mem_singleton.mp hmem
  | unanswered hdata hparse hstate hrun hnew hactions =>
      exact ran_not_tail rfl (noProgram_not_tail hactions rfl)
  | started =>
      intro hmem
      obtain hmem | hmem := List.mem_append.mp hmem
      · exact ran_not_tail rfl (started_not_tail rfl) hmem
      · cases List.mem_singleton.mp hmem

theorem OutOutcome.keeps {h : Handled} {r : EStateM.Result Exception Handled Unit}
    (hr : OutOutcome ans h r) (hdel : .epollDel ∉ h.actions) : .epollDel ∉ r.state.actions := by
  have hsent : ∀ data, .epollDel ∉ (h.did (.send data)).actions := by
    intro data hmem
    obtain hmem | hmem := List.mem_append.mp hmem
    · exact hdel hmem
    · cases List.mem_singleton.mp hmem
  cases hr with
  | idle => exact hdel
  | failed => exact hdel
  | partly => exact hsent _
  | wholly => exact hsent _

/-- **A connection that has removed its registration** is to be removed. -/
theorem handleEvent_keeps {h : Handled} (hh : c.handleEvent self newId events ans = some h)
    (hremove : h.removeSocket = false) : .epollDel ∉ h.actions := by
  have hevents : .epollDel ∉
      ((handleEvents self newId events ans).run { client := c.touch ans.now }).state.actions := by
    have hin : .epollDel ∉ ((if events.epollIn then handleEpollIn self newId ans else pure ()).run
        { client := c.touch ans.now }).state.actions := by
      split_ifs
      · exact (handleEpollIn_outcome self newId ans _).keeps
      · exact List.not_mem_nil
    rw [handleEvents_eq, EStateM.run_bind]
    rcases hrun : (if events.epollIn then handleEpollIn self newId ans else pure ()).run
        { client := c.touch ans.now } with ⟨u, h2⟩ | ⟨e, h2⟩
    · rw [hrun] at hin
      dsimp only
      split_ifs
      · exact (handleEpollOut_outcome ans h2).keeps hin
      · exact hin
    · rw [hrun] at hin
      exact hin
  have hcaught := handleEvent_caught hh
  generalize (handleEvents self newId events ans).run _ = r at hevents hcaught
  cases hcaught with
  | returned => exact hevents
  | @refused status res hres h2 =>
      rw [refuse] at hremove ⊢
      dsimp only at hremove ⊢
      split_ifs at hremove ⊢
      intro hmem
      obtain hmem | hmem := List.mem_append.mp hmem
      · exact hevents hmem
      · cases List.mem_singleton.mp hmem
  | closed => cases hremove

end ClientSocket

section States

variable {w w' : World} {id : SocketId} {fd fd' : Fd} {s s' : Socket} {X : Set SocketId}
  {k k' : Kernel} {ptr : SocketId} {ev : Events}

theorem Socket.IsWatched.imp (h : s.IsWatched w id)
    (hk : ∀ ev, w.kernel.Watches s.getFd id ev → w'.kernel.Watches s.getFd id ev)
    (hlog : w.log ⊆ w'.log) : s.IsWatched w' id :=
  Or.imp (hk _) (And.imp_right (And.imp (hk _) fun htold => hlog htold)) h

theorem Socket.IsWatched.of_eq (h : s.IsWatched w id) (hfd : s'.getFd = s.getFd)
    (hclass : s'.isClient = s.isClient) : s'.IsWatched w id := by
  rw [Socket.IsWatched, hfd, hclass]
  exact h

theorem fdOf_of_core (hs : w.coreOf id = some s) : w.fdOf id = some s.getFd := by
  obtain ⟨t, ht, rfl⟩ := Option.map_eq_some_iff.mp hs
  rw [World.fdOf, ht, Socket.getFd_core]
  rfl

theorem TableInv.getFd_ne (hw : TableInv w) (hfd : w.fdOf id = some fd) {id' : SocketId}
    (hne : id' ≠ id) (hs : w.coreOf id' = some s) : s.getFd ≠ fd := by
  rintro rfl
  exact hne (hw.fdOf_inj hfd (fdOf_of_core hs))

/-- The calls keep every socket that is alive in the epoll set. -/
theorem Watched.imp (h : Watched X w) (hcore : w'.coreOf = w.coreOf)
    (hk : ∀ id s ev, w.coreOf id = some s → w.kernel.Watches s.getFd id ev →
      w'.kernel.Watches s.getFd id ev) (hlog : w.log ⊆ w'.log) : Watched X w' := by
  intro id hid s hs
  rw [hcore] at hs
  exact (h id hid s hs).imp (fun ev => hk id s ev hs) hlog

/-- Nothing but the log, the place in the program and the links. -/
theorem Watched.of_eq (h : Watched X w) (hcore : w'.coreOf = w.coreOf)
    (hkernel : w'.kernel = w.kernel) (hlog : w.log ⊆ w'.log) : Watched X w' := by
  refine h.imp hcore (fun id s ev _ hwatch => ?_) hlog
  rw [hkernel]
  exact hwatch

theorem Watched.note (h : Watched X w) (entry : Entry) : Watched X (w.note entry) :=
  h.of_eq rfl rfl (List.subset_append_left _ _)

theorem Watched.exit (h : Watched X w) (pid : Pid) :
    Watched X { w with kernel := w.kernel.exit pid } :=
  h.imp rfl (fun _ _ _ _ hwatch => hwatch.exit pid) (List.Subset.refl _)

theorem Watched.weaken (h : Watched X w) (id : SocketId) : Watched (insert id X) w :=
  fun id' hid' => h id' fun hmem => hid' (Set.mem_insert_of_mem _ hmem)

theorem Watched.put (h : Watched X w) (hs : w.heap id = some s) (hfd : s'.getFd = s.getFd)
    (hclass : s'.isClient = s.isClient) : Watched X (w.put id s') := by
  intro id' hid t ht
  rw [World.coreOf_put] at ht
  by_cases hself : id' = id
  · subst hself
    rw [Function.update_self] at ht
    cases ht
    refine (h id' hid s.core (World.coreOf_of hs)).of_eq ?_ ?_
    · rw [Socket.getFd_core, Socket.getFd_core, hfd]
    · rw [Socket.isClient_core, Socket.isClient_core, hclass]
  · rw [Function.update_of_ne hself] at ht
    exact h id' hid t ht

/-! ### The actions of a handler -/

/-- Another descriptor is only lost if it is closed. -/
theorem performs_watches {actions : List Action} (h : k.Watches fd' ptr ev) (hne : fd' ≠ fd)
    (hclose : .close fd' ∉ actions) : (actions.foldl (Action.perform id fd) k).Watches fd' ptr ev := by
  induction actions generalizing k with
  | nil => exact h
  | cons a actions ih =>
      rw [List.mem_cons, not_or] at hclose
      refine ih ?_ hclose.2
      cases a with
      | socketpair fd0 fd1 => exact (h.openFd fd0).openFd fd1
      | fork pid => exact h.fork pid
      | close fd1 =>
          apply h.close
          rintro rfl
          exact hclose.1 rfl
      | epollMod interest => exact h.ctlMod hne
      | epollDel => exact h.ctlDel hne
      | _ => exact h

/-- The own descriptor of a handler that removes no registration. -/
theorem performs_own {actions : List Action} {told : Prop}
    (h : k.Watches fd id EPOLLIN ∨ k.Watches fd id EPOLLOUT ∧ told)
    (hclose : .close fd ∉ actions) (hdel : .epollDel ∉ actions)
    (hmod : ∀ interest, .epollMod interest ∈ actions → interest = EPOLLOUT ∧ told) :
    (actions.foldl (Action.perform id fd) k).Watches fd id EPOLLIN ∨
      (actions.foldl (Action.perform id fd) k).Watches fd id EPOLLOUT ∧ told := by
  induction actions generalizing k with
  | nil => exact h
  | cons a actions ih =>
      rw [List.mem_cons, not_or] at hclose hdel
      refine ih ?_ hclose.2 hdel.2 fun interest hmem => hmod interest (List.mem_cons_of_mem _ hmem)
      cases a with
      | socketpair fd0 fd1 =>
          exact h.imp (fun h => (h.openFd fd0).openFd fd1) (And.imp_left fun h => (h.openFd fd0).openFd fd1)
      | fork pid => exact h.imp (fun h => h.fork pid) (And.imp_left fun h => h.fork pid)
      | close fd1 =>
          have hne : fd ≠ fd1 := by
            rintro rfl
            exact hclose.1 rfl
          exact h.imp (fun h => h.close hne) (And.imp_left fun h => h.close hne)
      | epollMod interest =>
          obtain ⟨rfl, htold⟩ := hmod interest List.mem_cons_self
          exact .inr ⟨.of_ctlMod (h.elim Watches.isRegistered fun h => h.1.isRegistered), htold⟩
      | epollDel => exact absurd rfl hdel.1
      | _ => exact h

/-- **A handler** may lose the registration of its own socket only. -/
theorem Watched.perform (hw : TableInv w) (hfd : w.fdOf id = some fd) (h : Watched X w)
    {actions : List Action} (hclose : ∀ fd, w.kernel.IsOpen fd → .close fd ∉ actions) :
    Watched (insert id X) (w.perform id fd actions) := by
  intro id' hid s hs
  rw [Set.mem_insert_iff, not_or] at hid
  have hs : w.coreOf id' = some s := hs
  refine (h id' hid.2 s hs).imp (fun ev hwatch => ?_) (List.subset_append_left _ _)
  exact performs_watches hwatch (hw.getFd_ne hfd hid.1 hs) (hclose _ hwatch.isOpen)

/-- A connection that removes no registration stays in the epoll set. -/
theorem Watched.perform_own {c : ClientSocket} (hw : TableInv w) (hc : w.heap id = some (.client c))
    (h : Watched X w) {actions : List Action} (hclose : ∀ fd, w.kernel.IsOpen fd → .close fd ∉ actions)
    (hdel : .epollDel ∉ actions)
    (hmod : ∀ interest, .epollMod interest ∈ actions → interest = EPOLLOUT) :
    Watched X (w.perform id c.fd actions) := by
  have hfd : w.fdOf id = some c.fd := by
    rw [World.fdOf, hc]
    rfl
  intro id' hid s hs
  by_cases hself : id' = id
  · subst hself
    have hs : w.coreOf id' = some s := hs
    rw [World.coreOf_of hc] at hs
    cases hs
    have hold : w.log ⊆ (w.perform id' c.fd actions).log := List.subset_append_left _ _
    have hown := (h id' hid _ (World.coreOf_of hc)).imp_right fun hout =>
      (⟨hout.2.1, hold hout.2.2⟩ : _ ∧ IsTold (w.perform id' c.fd actions).log id')
    refine (performs_own hown (hclose c.fd (hw.opened id' c.fd hfd)) hdel fun interest hmem => ?_).imp_right
      fun hout => ⟨rfl, hout⟩
    obtain rfl := hmod interest hmem
    exact ⟨rfl, List.mem_append_right _ (List.mem_map_of_mem hmem)⟩
  · refine h.perform hw hfd hclose id' ?_ s hs
    rw [Set.mem_insert_iff, not_or]
    exact ⟨hself, hid⟩

/-! ### Sockets that come and go -/

theorem delete_watches (hs : w.heap id = some s) (hne : fd ≠ s.getFd)
    (h : w.kernel.Watches fd ptr ev) : (w.delete id).kernel.Watches fd ptr ev := by
  rw [delete_kernel hs]
  refine Watches.close ?_ hne
  cases s with
  | server => exact h
  | client => exact h
  | cgi g =>
      rw [World.reap]
      rcases g.pid with - | pid
      · exact h
      · exact h.exit pid

/-- The socket that is removed need not be in the epoll set. -/
theorem Watched.remove (hw : TableInv w) (hfd : w.fdOf id = some fd) (h : Watched (insert id X) w) :
    Watched X (w.remove id fd) := by
  obtain ⟨s, hs, rfl⟩ := Option.map_eq_some_iff.mp hfd
  intro id' hid t ht
  rw [World.coreOf_remove] at ht
  by_cases hself : id' = id
  · rw [hself, Function.update_self] at ht
    cases ht
  · rw [Function.update_of_ne hself] at ht
    have hmem : id' ∉ insert id X := by
      rw [Set.mem_insert_iff, not_or]
      exact ⟨hself, hid⟩
    refine (h id' hmem t ht).imp (fun ev hwatch => ?_) ?_
    · exact delete_watches (w := w.erase s.getFd) hs (hw.getFd_ne hfd hself ht) hwatch
    · rw [World.log_remove]
      exact List.subset_append_left _ _

/-- **A new socket** is in the epoll set, or it is removed. -/
theorem Watched.addSocket (hw : TableInv w) (hopen : w.kernel.IsOpen s.getFd)
    (hnew : ∀ id, w.fdOf id ≠ some s.getFd) (h : Watched X w) (epollAdd : Bool) :
    Watched X (w.addSocket s epollAdd) := by
  have hinsert : Watched (insert w.nextId X) (w.insert s) := by
    intro id hid t ht
    rw [Set.mem_insert_iff, not_or] at hid
    rw [World.coreOf_insert, Function.update_of_ne hid.1] at ht
    exact (h id hid.2 t ht).imp (fun _ hwatch => hwatch) (List.subset_append_left _ _)
  rw [World.addSocket]
  split_ifs
  · intro id hid t ht
    rw [World.coreOf_register, World.coreOf_insert] at ht
    by_cases hself : id = w.nextId
    · rw [hself, Function.update_self] at ht
      cases ht
      rw [hself]
      refine .inl ?_
      rw [Socket.getFd_core]
      exact Watches.of_ctlAdd (k := w.kernel) hopen
    · rw [Function.update_of_ne hself] at ht
      exact (h id hid t ht).imp (fun ev hwatch => hwatch.ctlAdd) (List.subset_append_left _ _)
  · refine Watched.remove (insert_tableInv hw hopen hnew) ?_ hinsert
    rw [insert_fdOf, if_pos rfl]

/-! ### Events -/

theorem serverTurn_watched {s : ServerSocket} {ans : ServerSocket.Answers} {epollAdd : Bool}
    (hw : TableInv w) (h : Watched X w) (hturn : World.ServerTurn w s ans epollAdd w') :
    Watched X w' := by
  cases hturn with
  | nothing => exact h
  | @closed fd hfd =>
      refine h.imp rfl (fun id s ev _ hwatch => (hwatch.openFd fd).close ?_) (List.Subset.refl _)
      rintro rfl
      exact hfd hwatch.isOpen
  | @accepts fd ip hfd =>
      have hopened : TableInv { w with kernel := w.kernel.openFd fd } := by
        apply hw.setKernel
        intro fd' hopen
        exact Epoll.Kernel.isOpen_openFd.mpr (.inr hopen)
      have hkernel : Watched X { w with kernel := w.kernel.openFd fd } :=
        h.imp rfl (fun id s ev _ hwatch => hwatch.openFd fd) (List.Subset.refl _)
      have hnew : ∀ id, w.fdOf id ≠ some (Socket.client (World.accepted s fd ip ans.now)).getFd :=
        hw.fdOf_ne_of_closed hfd
      exact hkernel.addSocket hopened (Epoll.Kernel.isOpen_openFd.mpr (.inl rfl)) hnew epollAdd

/-- The CGI socket of a request, if there is one. -/
theorem addNewSocket_watched {new : Option CgiSocket} (hw : TableInv w) (hid : id ≠ w.nextId)
    (hopen : ∀ g ∈ new, w.kernel.IsOpen g.fd) (hnew : ∀ g ∈ new, ∀ id, w.fdOf id ≠ some g.fd)
    (epollAdd : Bool) :
    TableInv (w.addNewSocket new epollAdd) ∧ (w.addNewSocket new epollAdd).fdOf id = w.fdOf id ∧
      ∀ X, Watched X w → Watched X (w.addNewSocket new epollAdd) := by
  rcases new with - | g
  · exact ⟨hw, rfl, fun X h => h⟩
  · have hopen := hopen g rfl
    have hnew := hnew g rfl
    exact ⟨addSocket_tableInv (s := .cgi g) hw hopen hnew epollAdd, addSocket_fdOf hid,
      fun X h => h.addSocket (s := .cgi g) hw hopen hnew epollAdd⟩

theorem clientEvent_watched {c : ClientSocket} {events : Events} {ans : ClientSocket.Answers}
    {epollAdd : Bool} (hw : TableInv w) (hc : w.heap id = some (.client c)) (h : Watched X w)
    (hturn : w.clientEvent id c events ans epollAdd = some w') : Watched X w' := by
  obtain ⟨hd, hfit, hhd, rfl⟩ := World.clientEvent_cases hturn
  obtain ⟨hfd, -, -⟩ := ClientSocket.handleEvent_base hhd
  have hself : w.fdOf id = some c.fd := by
    rw [World.fdOf, hc]
    rfl
  have hput : SameObjects w (w.put id (.client hd.client)) := put_same hc hfd
  have hputInv := hput.tableInv hw hw.opened
  have hsame := hput.trans (perform_same id c.fd hd.actions)
  have hdone := hsame.tableInv hw fun id fd hid => handleEvent_isOpen hfit hhd (hw.opened id fd hid)
  -- the descriptors that it closes are new ones
  have hclose : ∀ fd, w.kernel.IsOpen fd → .close fd ∉ hd.actions := by
    intro fd hopen hmem
    obtain ⟨pair, hpair, heq⟩ := ClientSocket.handleEvent_closes hhd hmem
    obtain ⟨hfresh0, hfresh1, -⟩ := hfit.1 pair hpair
    obtain rfl | rfl := heq
    · exact hfresh0 hopen
    · exact hfresh1 hopen
  have hwatched : Watched X (w.put id (.client hd.client)) := h.put hc hfd rfl
  have hbut := hwatched.perform hputInv ((hput.fdOf id).trans hself) hclose
  have hown : hd.removeSocket = false →
      Watched X ((w.put id (.client hd.client)).perform id c.fd hd.actions) := by
    intro hremove
    have hperform := @Watched.perform_own (w.put id (.client hd.client)) id X hd.client hputInv
      (Function.update_self _ _ _) hwatched hd.actions hclose
      (ClientSocket.handleEvent_keeps hhd hremove) (ClientSocket.handleEvent_waitsToSend hhd)
    rw [hfd] at hperform
    exact hperform
  have hadd : ∀ g ∈ hd.newSocket,
      ((w.put id (.client hd.client)).perform id c.fd hd.actions).kernel.IsOpen g.fd ∧
        ∀ id', ((w.put id (.client hd.client)).perform id c.fd hd.actions).fdOf id' ≠ some g.fd := by
    intro g hnew
    obtain ⟨hclosed, hopen⟩ := handleEvent_new_isOpen hfit hhd hnew
    refine ⟨hopen, fun id' hid' => ?_⟩
    rw [hsame.fdOf] at hid'
    exact hw.fdOf_ne_of_closed hclosed id' hid'
  rw [World.clientHandled]
  generalize (w.put id (.client hd.client)).perform id c.fd hd.actions = w1 at hsame hdone hbut hown hadd
  have hid : id ≠ w1.nextId := by
    rw [hsame.nextId]
    exact (hw.lt hc).ne
  obtain ⟨hadded, hfd', hkeeps⟩ := addNewSocket_watched hdone hid (fun g hg => (hadd g hg).1)
    (fun g hg => (hadd g hg).2) epollAdd
  split_ifs with hremove
  · exact (hkeeps _ hbut).remove hadded (hfd'.trans ((hsame.fdOf id).trans hself))
  · exact hkeeps _ (hown (Bool.eq_false_of_not_eq_true hremove))

/-- What a CGI socket does by itself. -/
theorem cgiHandled_watched {g : CgiSocket} {events : Events} {ans : CgiSocket.Answers}
    {hd : CgiSocket.Handled} (hw : TableInv w) (hg : w.heap id = some (.cgi g))
    (hcases : World.CgiCases g events ans hd) (h : Watched X w) :
    Watched (insert id X) (w.cgiHandled id g.fd hd) ∧
      (hd.removeSocket = false → Watched X (w.cgiHandled id g.fd hd)) := by
  obtain ⟨hfd, -, -, hactions⟩ := hcases.base
  have hself : w.fdOf id = some g.fd := by
    rw [World.fdOf, hg]
    rfl
  have hput : SameObjects w (w.put id (.cgi hd.cgi)) := put_same hg hfd
  have hwatched : Watched X (w.put id (.cgi hd.cgi)) := h.put hg hfd rfl
  have hclose : ∀ fd, (w.put id (.cgi hd.cgi)).kernel.IsOpen fd → .close fd ∉ hd.actions :=
    fun fd _ hmem => by cases hactions _ hmem
  have hbut := hwatched.perform (hput.tableInv hw hw.opened) ((hput.fdOf id).trans hself) hclose
  have hquiet : hd.removeSocket = false → hd.actions = [] := by
    intro hremove
    cases hcases with
    | nothing => rfl
    | reads => rfl
    | overflows => cases hremove
    | unregistered => cases hremove
    | orphan => cases hremove
    | ends => cases hremove
  have hown : hd.removeSocket = false →
      Watched X ((w.put id (.cgi hd.cgi)).perform id g.fd hd.actions) := by
    intro hremove
    rw [hquiet hremove]
    exact hwatched.of_eq rfl rfl (List.subset_append_left _ _)
  rw [World.cgiHandled]
  rcases hd.reaped with - | pid
  · exact ⟨hbut, hown⟩
  · exact ⟨hbut.exit pid, fun hremove => (hown hremove).exit pid⟩

/-- The owner is told, and then waits to send. -/
theorem notify_watched {g : CgiSocket} {exitedZero : Bool} {ans : ClientSocket.CgiAnswers}
    {owner : SocketId} {c : ClientSocket} (hw : TableInv w) (hc : w.heap owner = some (.client c))
    (h : Watched X w) : Watched X (w.notify id fd (World.outcomeOf g exitedZero) ans owner c) := by
  obtain ⟨res, -, hres⟩ := World.notify_eq w id fd g exitedZero ans owner c
  have hover : TableInv (w.handedOver id owner (World.outcomeOf g exitedZero)) ∧
      Watched X (w.handedOver id owner (World.outcomeOf g exitedZero)) ∧
      (w.handedOver id owner (World.outcomeOf g exitedZero)).heap = w.heap := by
    cases exitedZero with
    | false => exact ⟨hw, h, rfl⟩
    | true => exact ⟨hw.note rfl, h.note _, rfl⟩
  obtain ⟨hw1, h1, hheap⟩ := hover
  rw [hres]
  generalize w.handedOver id owner (World.outcomeOf g exitedZero) = w1 at hw1 h1 hheap
  have hc1 : w1.heap owner = some (.client c) := by rw [hheap, hc]
  have hacts : ∀ a ∈ (c.answer res ans).actions, a = .epollMod EPOLLOUT := by
    intro a ha
    rw [ClientSocket.answer] at ha
    dsimp only at ha
    split_ifs at ha
    · exact List.mem_singleton.mp ha
    · exact absurd ha List.not_mem_nil
  have hput : SameObjects w1 (w1.put owner (.client (c.answer res ans).client)) := put_same hc1 rfl
  refine Watched.perform_own (c := (c.answer res ans).client) (hput.tableInv hw1 hw1.opened)
    (Function.update_self _ _ _) (h1.put hc1 rfl rfl) ?_ ?_ ?_
  · exact fun fd _ hmem => by cases hacts _ hmem
  · exact fun hmem => by cases hacts _ hmem
  · exact fun interest hmem => Action.epollMod.inj (hacts _ hmem)

theorem cgiEvent_watched {g : CgiSocket} {events : Events} {ans : CgiSocket.Answers}
    {owner : ClientSocket.CgiAnswers} (hw : TableInv w) (hg : w.heap id = some (.cgi g))
    (h : Watched X w) (hturn : w.cgiEvent id g events ans owner = some w') : Watched X w' := by
  obtain ⟨hd, w1, -, hcases, hpass, rfl⟩ := World.cgiEvent_cases hturn
  obtain ⟨hdone, hsame⟩ := cgiHandled_tableInv hw hg hcases
  obtain ⟨hbut, hown⟩ := cgiHandled_watched hw hg hcases h
  have hself : (w.cgiHandled id g.fd hd).fdOf id = some g.fd := by
    rw [hsame.fdOf, World.fdOf, hg]
    rfl
  cases hcases with
  | ends hend hreg howner =>
      obtain ⟨c, hc, -, rfl⟩ := World.passOn_cases hpass
      obtain ⟨hnotify, hsame'⟩ := notify_tableInv hdone hc
      exact (notify_watched hdone hc hbut).remove hnotify ((hsame'.fdOf id).trans hself)
  | nothing =>
      cases hpass
      exact hown rfl
  | reads =>
      cases hpass
      exact hown rfl
  | _ =>
      cases hpass
      exact hbut.remove hdone hself

/-! ### Steps -/

theorem visit_watched {now : Int} {sends : List (Option Nat)} {date : Option Bytes}
    (hw : TableInv w) (hs : w.heap id = some s) (hfd : w.fdOf id = some fd) (h : Watched X w) :
    Watched X (w.visit now fd id s sends date) := by
  by_cases hout : s.isTimeout (now - kRequestTimeout) = true
  · rw [World.visit, if_pos hout]
    dsimp only
    rw [delete_erase]
    have hnote : TableInv (w.note (.expired id now)) := hw.note rfl
    have hs1 : (w.note (.expired id now)).heap id = some s := hs
    have hfd1 : (w.note (.expired id now)).fdOf id = some fd := hfd
    have h1 : Watched X (w.note (.expired id now)) := h.note _
    generalize w.note (.expired id now) = w1 at hnote hs1 hfd1 h1
    cases s with
    | server s => exact (h1.weaken id).remove hnote hfd1
    | cgi g => exact (h1.weaken id).remove hnote hfd1
    | client c =>
        have htail := ClientSocket.handleTimeout_tail c sends date
        obtain ⟨tail, hactions, htail'⟩ := htail.actions
        have hclose : ∀ fd, .close fd ∉ (c.handleTimeout sends date).actions := by
          intro fd
          rw [hactions]
          exact ClientSocket.close_not_isTail htail'
        have hput : SameObjects w1 (w1.put id (.client (c.handleTimeout sends date).client)) :=
          put_same hs1 htail.base.1
        have hputInv := hput.tableInv hnote hnote.opened
        have hall := hput.trans (perform_same id c.fd (c.handleTimeout sends date).actions)
        have hself : (w1.put id (.client (c.handleTimeout sends date).client)).fdOf id = some c.fd := by
          rw [hput.fdOf, World.fdOf, hs1]
          rfl
        have hwatched : Watched X (w1.put id (.client (c.handleTimeout sends date).client)) :=
          h1.put hs1 htail.base.1 rfl
        refine Watched.remove (hall.tableInv hnote fun id' fd' hid => ?_) ((hall.fdOf id).trans hfd1) ?_
        · exact performs_isOpen (hnote.opened id' fd' hid) (hclose fd')
        · exact hwatched.perform hputInv hself fun fd _ => hclose fd
  · rw [World.visit, if_neg hout]
    exact h

theorem opened_watched {config : ServerConfig} {configs : List ServerConfig} {now : Int}
    (hw : TableInv w) (hfd : ¬ w.kernel.IsOpen fd) (h : Watched X w) :
    Watched X ((w.opened config configs fd now).register w.nextId fd) := by
  have hopened : TableInv { w with
      kernel := w.kernel.openFd fd
      control := World.nextTurn .starting .top configs } := by
    refine TableInv.setControl (w := { w with kernel := w.kernel.openFd fd }) ?_ _
    apply hw.setKernel
    intro fd' hopen
    exact Epoll.Kernel.isOpen_openFd.mpr (.inr hopen)
  have hkernel : Watched X { w with
      kernel := w.kernel.openFd fd
      control := World.nextTurn .starting .top configs } :=
    h.imp rfl (fun id s ev _ hwatch => hwatch.openFd fd) (List.Subset.refl _)
  exact hkernel.addSocket (s := .server ⟨{ fd := fd, lastActivityTime := now }, config⟩) hopened
    (Epoll.Kernel.isOpen_openFd.mpr (.inl rfl)) (hw.fdOf_ne_of_closed hfd) true

/-- **No step** loses a socket that lives on. -/
theorem turned_watched {l : Label} (hloop : LoopInv w) (h : Watched X w) (hturn : World.Turned w l w') :
    Watched X w' := by
  have hcleared : ∀ {w : World}, TableInv w → Watched X w.clearResources := by
    intro w hw id _ s hs
    rw [World.coreOf_eq_none.mpr ((clearResources_tableInv hw).2 id)] at hs
    cases hs
  cases hturn with
  | openFails => exact hcleared hloop.toTableInv
  | opens hc hfd => exact opened_watched hloop.toTableInv hfd h
  | unregistered hc hfd => exact hcleared (opened_tableInv hloop.toTableInv hfd)
  | sweeps => exact h.of_eq rfl rfl (List.Subset.refl _)
  | @visits now fd id entries s sends date hc hs =>
      have hfd : w.fdOf id = some fd := by
        apply hloop.entries
        rw [hc]
        exact List.mem_cons_self
      exact (visit_watched hloop.toTableInv hs hfd h).of_eq rfl rfl (List.Subset.refl _)
  | waits | reports => exact h.of_eq rfl rfl (List.Subset.refl _)
  | @handles time id events rest s l w1 hc hs hh =>
      have hnote : TableInv (w.note (.dispatched id time)) := hloop.toTableInv.note rfl
      have h1 : Watched X (w.note (.dispatched id time)) := h.note _
      have hs1 : (w.note (.dispatched id time)).heap id = some s := hs
      have hw1 : Watched X w1 := by
        cases hh with
        | server hh => exact serverTurn_watched hnote h1 hh
        | client hh => exact clientEvent_watched hnote hs1 h1 hh
        | cgi hh => exact cgiEvent_watched hnote hs1 h1 hh
      exact hw1.of_eq rfl rfl (List.Subset.refl _)
  | clears => exact hcleared hloop.toTableInv
  | forks pid child =>
      exact h.imp rfl (fun _ _ _ _ hwatch => hwatch.inherit pid child) (List.Subset.refl _)
  | closes pid file =>
      exact h.imp rfl (fun _ _ _ _ hwatch => hwatch.release pid file) (List.Subset.refl _)
  | exits pid => exact h.exit pid

end States

theorem reachable_watched {P : World → Label → Prop} {w : World}
    (h : Transition.Reachable World.step P World.IsStart w) : Watched ∅ w := by
  apply h.invariant_under (fun _ => reachable_runInv)
  · rintro w ⟨configs, open_, clock, rfl⟩ id _ s hs
    cases hs
  · intro w l w' hw _ hwatched _ hst
    obtain ⟨w1, hturn, rfl⟩ := World.step_cases hst
    exact (turned_watched hw.toLoopInv hwatched hturn).of_eq rfl rfl (List.Subset.refl _)

/-- **The table and the epoll set agree**, while the loop runs.  A descriptor is a key of
`sockets_` exactly if it is registered with the address of its socket, and no address is
registered twice.  A registration is that of an entry of the table, and waits for input, or it
is that of a connection and waits to send; or its socket has been deleted, and another process
holds the open file. -/
theorem watched_iff {w : World} (h : w.Reachable) (hended : w.control ≠ .ended) :
    (∀ fd id, w.sockets[fd]? = some id ↔
        w.heap id ≠ none ∧ ∃ r ∈ w.kernel.epoll, r.fd = fd ∧ r.ptr = id) ∧
      (w.kernel.epoll.map Epoll.Registration.ptr).Nodup ∧
      ∀ r ∈ w.kernel.epoll,
        (w.sockets[r.fd]? = some r.ptr ∧
            (r.events = EPOLLIN ∨ r.events = EPOLLOUT ∧ ∃ c, w.heap r.ptr = some (.client c))) ∨
          (w.heap r.ptr = none ∧ r.file ∈ w.kernel.held.map Prod.snd) := by
  have hlisted := (reachable_epollInv h).listed hended
  have hreg := hlisted.registered
  -- a socket that is alive has one registration, and it is of its descriptor
  have hown : ∀ fd id, w.fdOf id = some fd → ∃ r ∈ w.kernel.epoll, r.fd = fd ∧ r.ptr = id ∧
      (r.events = EPOLLIN ∨ r.events = EPOLLOUT ∧ ∃ c, w.heap id = some (.client c)) := by
    intro fd id hfd
    obtain ⟨s, hs, rfl⟩ := Option.map_eq_some_iff.mp hfd
    have hwatch := reachable_watched h id (Set.notMem_empty id) s.core (World.coreOf_of hs)
    rw [Socket.IsWatched, Socket.getFd_core, Socket.isClient_core] at hwatch
    obtain ⟨r, hr, ⟨hrfd, -⟩, hptr, hin⟩ | ⟨hclient, ⟨r, hr, ⟨hrfd, -⟩, hptr, hout⟩, -⟩ := hwatch
    · exact ⟨r, hr, hrfd, hptr, .inl hin⟩
    · refine ⟨r, hr, hrfd, hptr, .inr ⟨hout, ?_⟩⟩
      cases s with
      | client c => exact ⟨c, hs⟩
      | server => cases hclient
      | cgi => cases hclient
  have hlive : ∀ r ∈ w.kernel.epoll, w.heap r.ptr ≠ none → w.fdOf r.ptr = some r.fd := by
    intro r hr hne
    obtain ⟨s, hs⟩ := Option.ne_none_iff_exists'.mp hne
    have hfd : w.fdOf r.ptr = some s.getFd := by
      rw [World.fdOf, hs]
      rfl
    exact hreg.current r hr (hreg.live r hr _ hfd)
  refine ⟨fun fd id => ?_, hreg.ptrs_nodup, fun r hr => ?_⟩
  · rw [hlisted.entry]
    constructor
    · intro hfd
      obtain ⟨r, hr, hrfd, hptr, -⟩ := hown fd id hfd
      refine ⟨fun hnone => ?_, r, hr, hrfd, hptr⟩
      rw [World.fdOf, hnone] at hfd
      cases hfd
    · rintro ⟨hne, r, hr, rfl, rfl⟩
      exact hlive r hr hne
  · by_cases hdead : w.heap r.ptr = none
    · refine .inr ⟨hdead, hreg.held hr fun hcurrent => ?_⟩
      have hfd := hreg.current r hr hcurrent
      rw [World.fdOf, hdead] at hfd
      cases hfd
    · have hfd := hlive r hr hdead
      obtain ⟨r', hr', -, hptr, hevents⟩ := hown r.fd r.ptr hfd
      obtain rfl : r' = r := List.inj_on_of_nodup_map hreg.ptrs_nodup hr' hr hptr
      exact .inl ⟨(hlisted.entry _ _).mpr hfd, hevents⟩

/-- Two connections, one of which has been timed out together with its CGI socket; the program
of the other one holds the file of that. -/
theorem watched_iff_inheritRun : ∃ w,
    Transition.run World.step (World.start [sampleConfig] [3] 0) inheritRun = some w ∧
      w.sockets.toList = [(4, 0), (7, 3), (8, 4)] ∧
      w.kernel.epoll.map Epoll.Registration.ptr = [4, 3, 2, 0] ∧
      (∀ fd id, w.sockets[fd]? = some id ↔
        w.heap id ≠ none ∧ ∃ r ∈ w.kernel.epoll, r.fd = fd ∧ r.ptr = id) ∧
      (w.kernel.epoll.map Epoll.Registration.ptr).Nodup ∧
      ∀ r ∈ w.kernel.epoll,
        (w.sockets[r.fd]? = some r.ptr ∧
            (r.events = EPOLLIN ∨ r.events = EPOLLOUT ∧ ∃ c, w.heap r.ptr = some (.client c))) ∨
          (w.heap r.ptr = none ∧ r.file ∈ w.kernel.held.map Prod.snd) := by
  have hrun : (Transition.run World.step (World.start [sampleConfig] [3] 0) inheritRun).map
      (fun w => (w.sockets.toList, w.kernel.epoll.map Epoll.Registration.ptr, w.control.isEnded)) =
        some ([(4, 0), (7, 3), (8, 4)], [4, 3, 2, 0], false) := by
    decide +kernel
  obtain ⟨w, hw, hstate⟩ := Option.map_eq_some_iff.mp hrun
  obtain ⟨htable, hstate⟩ := Prod.mk.inj hstate
  obtain ⟨hptrs, hended⟩ := Prod.mk.inj hstate
  have hreach : World.Reachable w := .run (.start ⟨_, _, _, rfl⟩) hw
  refine ⟨w, hw, htable, hptrs, watched_iff hreach fun h => ?_⟩
  rw [Control.isEnded_iff.mpr h] at hended
  cases hended

end Webserv
