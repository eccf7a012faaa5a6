/-
Webserv/Registrations.lean

The epoll set along a run.

A registration of an open descriptor is that of the socket that has it, and it waits for
input until the socket has something to send; from then on it waits for that only.
-/
import Webserv.Lives
import Webserv.Theory.Registrations

namespace Webserv

open Epoll (Registered)
open Epoll.Kernel (Quiets)

/-! ### The actions of a handler -/

/-- The action opens, closes or hands on no descriptor. -/
def Action.keepsFiles : Action → Bool
  | .socketpair _ _ | .fork _ | .close _ => false
  | _ => true

theorem keepsFiles_of_isTail {a : Action} (h : a.isTail = true) : a.keepsFiles = true := by
  cases a with
  | socketpair => cases h
  | fork => cases h
  | close => cases h
  | _ => rfl

section Actions

variable {k : Kernel} {fdOf : SocketId → Option Fd} {id : SocketId} {fd : Fd}

/-- The registrations of `id` wait to send. -/
def WaitsOut (k : Kernel) (id : SocketId) : Prop := ∀ r ∈ k.epoll, r.ptr = id → r.events = EPOLLOUT

theorem WaitsOut.quiets {k' : Kernel} (h : WaitsOut k id) (hq : k.Quiets EPOLLOUT k') :
    WaitsOut k' id := by
  intro r' hr' hptr'
  obtain ⟨r, hr, hptr, heq | heq⟩ := hq r' hr'
  · exact heq.trans (h r hr (hptr.trans hptr'))
  · exact heq

/-- What a list of actions may do to the epoll set, on behalf of `id`. -/
structure Performed (fdOf : SocketId → Option Fd) (id : SocketId) (actions : List Action)
    (k k' : Kernel) : Prop where
  registered : Registered k' fdOf
  quiets : k.Quiets EPOLLOUT k'
  waitsOut : .epollMod EPOLLOUT ∈ actions → WaitsOut k' id
  gone : .epollDel ∈ actions.getLast? → ∀ r ∈ k'.epoll, r.ptr ≠ id

theorem performs_registered {actions : List Action} (h : Registered k fdOf)
    (hself : fdOf id = some fd) (hown : ∀ p, fdOf p = some fd → p = id)
    (hkeeps : ∀ a ∈ actions, a.keepsFiles = true)
    (hmod : ∀ interest, .epollMod interest ∈ actions → interest = EPOLLOUT) :
    Performed fdOf id actions k (actions.foldl (Action.perform id fd) k) := by
  induction actions generalizing k with
  | nil =>
      exact ⟨h, .refl _ _, fun hmem => absurd hmem List.not_mem_nil,
        fun hlast => absurd hlast (Option.not_mem_none _)⟩
  | cons a actions ih =>
      have hrest : ∀ b ∈ actions, b.keepsFiles = true := fun b hb => hkeeps b (List.mem_cons_of_mem _ hb)
      have hmods : ∀ interest, .epollMod interest ∈ actions → interest = EPOLLOUT :=
        fun interest hb => hmod interest (List.mem_cons_of_mem _ hb)
      have hone : Registered (a.perform id fd k) fdOf ∧ k.Quiets EPOLLOUT (a.perform id fd k) ∧
          (a = .epollMod EPOLLOUT → WaitsOut (a.perform id fd k) id) ∧
          (a = .epollDel → ∀ r ∈ (a.perform id fd k).epoll, r.ptr ≠ id) := by
        have ha := hkeeps a List.mem_cons_self
        cases a with
        | epollMod interest =>
            obtain rfl := hmod interest List.mem_cons_self
            exact ⟨h.ctlMod hown, h.quiets_ctlMod hown,
              fun _ r hr hptr => h.events_ctlMod hself hown hr hptr, Action.noConfusion⟩
        | epollDel =>
            exact ⟨h.ctlDel fd, .of_subset List.filter_sublist.subset, Action.noConfusion,
              fun _ r hr => h.ptr_ctlDel hself hr⟩
        | socketpair => cases ha
        | fork => cases ha
        | close => cases ha
        | _ => exact ⟨h, .refl _ _, Action.noConfusion, Action.noConfusion⟩
      have hall := ih hone.1 hrest hmods
      refine ⟨hall.registered, hone.2.1.trans hall.quiets, fun hmem => ?_, fun hlast => ?_⟩
      · obtain heq | hmem := List.mem_cons.mp hmem
        · exact (hone.2.2.1 heq.symm).quiets hall.quiets
        · exact hall.waitsOut hmem
      · rcases actions with - | ⟨b, actions⟩
        · exact hone.2.2.2 (Option.some.inj hlast)
        · exact hall.gone hlast

/-- The calls around the start of a program. -/
theorem openPair_registered {fd0 fd1 : Fd} (h : Registered k fdOf)
    (hfresh : World.PairIsFresh k (fd0, fd1)) : Registered ((k.openFd fd0).openFd fd1) fdOf := by
  refine (h.openFd hfresh.1).openFd ?_
  rw [Epoll.Kernel.isOpen_openFd, not_or]
  exact ⟨Ne.symm hfresh.2.2, hfresh.2.1⟩

theorem openPair_quiets (k : Kernel) (fd0 fd1 : Fd) :
    k.Quiets EPOLLOUT ((k.openFd fd0).openFd fd1) := .of_subset fun _ h => h

theorem close_quiets (k : Kernel) (fd : Fd) : k.Quiets EPOLLOUT (k.close fd) :=
  .of_subset List.filter_sublist.subset

/-- What `RequestHandler::Run` does, if it leaves no new socket. -/
theorem noProgram_registered {sys : Sys} {actions : List Action} (h : Registered k fdOf)
    (hopen : ∀ p fd, fdOf p = some fd → k.IsOpen fd)
    (hfresh : ∀ pair ∈ sys.socketpair, World.PairIsFresh k pair) (hrun : NoProgram sys actions) :
    Registered (actions.foldl (Action.perform id fd) k) fdOf ∧
      k.Quiets EPOLLOUT (actions.foldl (Action.perform id fd) k) := by
  -- nobody has a descriptor of the pair
  have hother : ∀ {fd' : Fd}, ¬ k.IsOpen fd' → ∀ p, fdOf p ≠ some fd' :=
    fun hclosed p hp => hclosed (hopen p _ hp)
  cases hrun with
  | files hfiles hone =>
      have hsame : actions.foldl (Action.perform id fd) k = k := by
        clear hone
        induction actions with
        | nil => rfl
        | cons a actions ih =>
            have ha := hfiles a List.mem_cons_self
            rw [List.foldl_cons]
            cases a with
            | readFile | writeFile | removeFile => exact ih fun b hb => hfiles b (List.mem_cons_of_mem _ hb)
            | _ => cases ha
      rw [hsame]
      exact ⟨h, .refl _ _⟩
  | noFork hpair =>
      have hpair := hfresh _ hpair
      have hopened := openPair_registered h hpair
      refine ⟨(hopened.close_other (hother hpair.2.1)).close_other (hother hpair.1), ?_⟩
      exact (openPair_quiets k _ _).trans ((close_quiets _ _).trans (close_quiets _ _))
  | @noSocket fd0 fd1 pid path envp hpair =>
      have hpair := hfresh _ hpair
      have hopened := (openPair_registered h hpair).fork pid
      have hquiets : k.Quiets EPOLLOUT (((k.openFd fd0).openFd fd1).fork pid) :=
        openPair_quiets k fd0 fd1
      refine ⟨(hopened.close_other (hother hpair.2.1)).close_other (hother hpair.1), ?_⟩
      exact hquiets.trans ((close_quiets _ fd1).trans (close_quiets _ fd0))

/-- **What an event for a connection does to the epoll set.** -/
theorem handleEvent_registered {c : ClientSocket} {newId : SocketId} {events : Events}
    {ans : ClientSocket.Answers} {hd : ClientSocket.Handled} (h : Registered k fdOf)
    (hopen : ∀ p fd, fdOf p = some fd → k.IsOpen fd) (hself : fdOf id = some c.fd)
    (hown : ∀ p, fdOf p = some c.fd → p = id) (hfit : World.ClientAnswersFit k c.fd ans)
    (hh : c.handleEvent id newId events ans = some hd) :
    Performed fdOf id hd.actions k (hd.actions.foldl (Action.perform id c.fd) k) := by
  have hmod := ClientSocket.handleEvent_waitsToSend hh
  -- first what reading does, then the `epoll_ctl` calls behind it
  obtain ⟨h1, hreads, htail⟩ := ClientSocket.handleEvent_reads hh
  obtain ⟨tail, hactions, htail⟩ := htail.actions
  have hkeeps : ∀ a ∈ tail, a.keepsFiles = true := fun a ha => keepsFiles_of_isTail (htail a ha)
  have hread : Registered (h1.actions.foldl (Action.perform id c.fd) k) fdOf ∧
      k.Quiets EPOLLOUT (h1.actions.foldl (Action.perform id c.fd) k) := by
    cases hreads with
    | idle => exact ⟨h, .refl _ _⟩
    | received => exact ⟨h, .refl _ _⟩
    | @answered data req result actions text hdata hparse hstate hrun hnew hprogram =>
        have hdone := @noProgram_registered k fdOf id c.fd ans.sys actions h hopen hfit.1 hprogram
        exact hdone
    | @started data req fd0 fd1 pid path envp text hdata hparse hstate hrun hpair =>
        have hpair := hfit.1 _ hpair
        have hclosed : ∀ p, fdOf p ≠ some fd1 := fun p hp => hpair.2.1 (hopen p fd1 hp)
        have hstart := ((openPair_registered h hpair).fork pid).close_other hclosed
        -- the two ends are opened, and that of the program is closed again
        have hsame : (([.socketpair fd0 fd1, .fork pid, .execve path envp, .close fd1] ++
            cgiInput ans.sys req ++ [.adopt newId] : List Action).foldl (Action.perform id c.fd) k) =
            (((k.openFd fd0).openFd fd1).fork pid).close fd1 := by
          rw [cgiInput]
          split_ifs
          · rfl
          · rfl
        have hacts : ((ClientSocket.Handled.ran { client := c.touch ans.now } data req
            ([.socketpair fd0 fd1, .fork pid, .execve path envp, .close fd1] ++ cgiInput ans.sys req)
            text).adopt id newId
              { fd := fd0, lastActivityTime := ans.sys.now, pid := some pid }).actions.foldl
                (Action.perform id c.fd) k = (((k.openFd fd0).openFd fd1).fork pid).close fd1 := hsame
        rw [hacts]
        exact ⟨hstart, (openPair_quiets k fd0 fd1).trans (close_quiets _ fd1)⟩
  have hmods : ∀ interest, .epollMod interest ∈ tail → interest = EPOLLOUT := by
    intro interest hmem
    apply hmod
    rw [hactions]
    exact List.mem_append_right _ hmem
  have htailed := performs_registered hread.1 hself hown hkeeps hmods
  rw [hactions, List.foldl_append]
  refine ⟨htailed.registered, hread.2.trans htailed.quiets, fun hmem => htailed.waitsOut ?_,
    fun hlast => htailed.gone ?_⟩
  · exact (List.mem_append.mp hmem).resolve_left (hreads.not_tail rfl)
  · -- reading ends with no such call
    rcases List.eq_nil_or_concat tail with rfl | ⟨init, a, rfl⟩
    · rw [List.append_nil] at hlast
      exact absurd (List.mem_of_mem_getLast? hlast) (hreads.not_tail rfl)
    · rw [List.concat_eq_append, ← List.append_assoc, List.getLast?_concat] at hlast
      rw [List.concat_eq_append, List.getLast?_concat]
      exact hlast

end Actions

/-! ### The epoll set of a state -/

/-- The registrations are those of the sockets, and wait for one thing each. -/
structure Listed (w : World) : Prop extends TableInv w where
  registered : Registered w.kernel w.fdOf
  ptr_lt : ∀ r ∈ w.kernel.epoll, r.ptr < w.nextId
  interest : ∀ r ∈ w.kernel.epoll, r.events = EPOLLIN ∨ r.events = EPOLLOUT

/-- From one state to another, the registrations of the sockets there were wait for what they
waited for, or to send. -/
structure Continues (w w' : World) : Prop where
  nextId_le : w.nextId ≤ w'.nextId
  regs : ∀ r' ∈ w'.kernel.epoll, w.nextId ≤ r'.ptr ∨
    ∃ r ∈ w.kernel.epoll, r.ptr = r'.ptr ∧ (r'.events = r.events ∨ r'.events = EPOLLOUT)

/-- A registration whose socket has gone has been one before. -/
def Tidies (w w' : World) : Prop :=
  ∀ r' ∈ w'.kernel.epoll, w'.fdOf r'.ptr = none →
    ∃ r ∈ w.kernel.epoll, r.ptr = r'.ptr ∧ w.fdOf r.ptr = none

section States

variable {w w' w'' : World} {id : SocketId} {fd : Fd}

theorem TableInv.fdOf_inj (hw : TableInv w) {id' : SocketId} (h : w.fdOf id = some fd)
    (h' : w.fdOf id' = some fd) : id' = id := by
  rw [← hw.entry] at h h'
  exact Option.some.inj (h'.symm.trans h)

namespace Continues

theorem of_quiets (hnext : w'.nextId = w.nextId) (h : w.kernel.Quiets EPOLLOUT w'.kernel) :
    Continues w w' := ⟨hnext.ge, fun r hr => .inr (h r hr)⟩

theorem refl (w : World) : Continues w w := .of_quiets rfl (.refl _ _)

theorem trans (h : Continues w w') (h' : Continues w' w'') : Continues w w'' := by
  refine ⟨h.nextId_le.trans h'.nextId_le, fun r'' hr'' => ?_⟩
  obtain hnew | ⟨r', hr', hptr', hevents'⟩ := h'.regs r'' hr''
  · exact .inl (h.nextId_le.trans hnew)
  · obtain hnew | ⟨r, hr, hptr, hevents⟩ := h.regs r' hr'
    · exact .inl (hptr' ▸ hnew)
    · refine .inr ⟨r, hr, hptr.trans hptr', ?_⟩
      obtain heq | heq := hevents'
      · rw [heq]
        exact hevents
      · exact .inr heq

end Continues

theorem Tidies.trans (h : Tidies w w') (h' : Tidies w' w'') : Tidies w w'' := by
  intro r'' hr'' hnone''
  obtain ⟨r', hr', hptr', hnone'⟩ := h' r'' hr'' hnone''
  obtain ⟨r, hr, hptr, hnone⟩ := h r' hr' hnone'
  exact ⟨r, hr, hptr.trans hptr', hnone⟩

/-- The sockets are the same. -/
theorem Tidies.same (hsame : SameObjects w w') (h : w.kernel.Quiets EPOLLOUT w'.kernel) :
    Tidies w w' := by
  intro r' hr' hnone
  obtain ⟨r, hr, hptr, -⟩ := h r' hr'
  refine ⟨r, hr, hptr, ?_⟩
  rw [hptr, ← hsame.fdOf]
  exact hnone

theorem WaitsOut.continues (h : WaitsOut w.kernel id) (hc : Continues w w') (hlt : id < w.nextId) :
    WaitsOut w'.kernel id := by
  intro r' hr' hptr'
  obtain hnew | ⟨r, hr, hptr, heq | heq⟩ := hc.regs r' hr'
  · rw [hptr'] at hnew
    exact absurd hlt hnew.not_gt
  · exact heq.trans (h r hr (hptr.trans hptr'))
  · exact heq

/-- The objects are the same, and the kernel is another. -/
theorem Listed.same (hw : Listed w) (hsame : SameObjects w w') (hw' : TableInv w')
    (hreg : Registered w'.kernel w.fdOf) (hquiets : w.kernel.Quiets EPOLLOUT w'.kernel) :
    Listed w' ∧ Continues w w' := by
  have hfdOf : w'.fdOf = w.fdOf := funext hsame.fdOf
  refine ⟨⟨hw', ?_, ?_, ?_⟩, .of_quiets hsame.nextId hquiets⟩
  · rw [hfdOf]
    exact hreg
  · intro r' hr'
    obtain ⟨r, hr, hptr, -⟩ := hquiets r' hr'
    rw [← hptr, hsame.nextId]
    exact hw.ptr_lt r hr
  · intro r' hr'
    obtain ⟨r, hr, -, heq | heq⟩ := hquiets r' hr'
    · rw [heq]
      exact hw.interest r hr
    · exact .inr heq

/-- Nothing but the log, the place in the program, and the insides of objects. -/
theorem Listed.of_kernel (hw : Listed w) (hsame : SameObjects w w') (hk : w'.kernel = w.kernel) :
    Listed w' ∧ Continues w w' := by
  refine hw.same hsame (hsame.tableInv hw.toTableInv fun id fd hfd => ?_) ?_ ?_
  · rw [hk]
    exact hw.opened id fd hfd
  · rw [hk]
    exact hw.registered
  · rw [hk]
    exact .refl _ _

/-- Another process. -/
theorem Listed.setKernel (hw : Listed w) {k : Kernel} (hfds : k.fds = w.kernel.fds)
    (hreg : Registered k w.fdOf) (hquiets : w.kernel.Quiets EPOLLOUT k) :
    Listed { w with kernel := k } ∧ Continues w { w with kernel := k } := by
  have hsame : SameObjects w { w with kernel := k } := .of_eq rfl rfl rfl rfl
  refine hw.same hsame (hw.toTableInv.setKernel fun fd hopen => ?_) hreg hquiets
  exact (Epoll.Kernel.isOpen_congr hfds).mpr hopen

theorem exit_quiets (k : Kernel) (pid : Pid) : k.Quiets EPOLLOUT (k.exit pid) :=
  .of_subset List.filter_sublist.subset

/-! ### Sockets that go -/

/-- The kernel that `delete` closes the descriptor in. -/
theorem delete_kernel {s : Socket} (hs : w.heap id = some s) :
    (w.delete id).kernel = (w.reap s).kernel.close s.getFd := by
  have hreap : ((w.unlink id s).reap s).kernel = (w.reap s).kernel := by
    cases s with
    | server s => rfl
    | client c => exact unlink_kernel w id (.client c)
    | cgi g =>
        have hunlink := unlink_kernel w id (.cgi g)
        rw [World.reap, World.reap]
        rcases g.pid with - | pid
        · exact hunlink
        · show (w.unlink id (.cgi g)).kernel.exit pid = w.kernel.exit pid
          rw [hunlink]
  rw [World.delete, hs]
  show ((w.unlink id s).reap s).kernel.close s.getFd = _
  rw [hreap]

theorem reap_registered {fdOf : SocketId → Option Fd} (h : Registered w.kernel fdOf) (s : Socket) :
    Registered (w.reap s).kernel fdOf ∧ w.kernel.Quiets EPOLLOUT (w.reap s).kernel := by
  cases s with
  | server s => exact ⟨h, .refl _ _⟩
  | client c => exact ⟨h, .refl _ _⟩
  | cgi g =>
      rw [World.reap]
      rcases g.pid with - | pid
      · exact ⟨h, .refl _ _⟩
      · exact ⟨h.exit pid, exit_quiets _ pid⟩

/-- **A socket is removed**, and its registration is no longer current. -/
theorem Listed.remove (hw : Listed w) (hfd : w.fdOf id = some fd) :
    Listed (w.remove id fd) ∧ Continues w (w.remove id fd) := by
  obtain ⟨s, hs, hsfd⟩ := Option.map_eq_some_iff.mp hfd
  have hkernel : (w.remove id fd).kernel = (w.reap s).kernel.close fd := by
    rw [World.remove, delete_kernel (show (w.erase fd).heap id = some s from hs), hsfd]
    cases s with
    | server s => rfl
    | client c => rfl
    | cgi g =>
        rw [World.reap, World.reap]
        rcases g.pid with - | pid
        · rfl
        · rfl
  obtain ⟨hreap, hquiets⟩ := reap_registered hw.registered s
  have hclose : Registered (w.remove id fd).kernel (w.remove id fd).fdOf := by
    rw [hkernel]
    refine hreap.close fun id' => ?_
    rw [remove_fdOf hfd]
    by_cases hid : id' = id
    · rw [if_pos hid, hid, if_pos hfd]
    · rw [if_neg hid, if_neg]
      exact fun hfd' => hid (hw.fdOf_inj hfd hfd')
  have hquiets : w.kernel.Quiets EPOLLOUT (w.remove id fd).kernel := by
    rw [hkernel]
    exact hquiets.trans (close_quiets _ fd)
  have hnext : (w.remove id fd).nextId = w.nextId := remove_nextId w id fd
  refine ⟨⟨remove_tableInv hw.toTableInv hfd, hclose, ?_, ?_⟩, .of_quiets hnext hquiets⟩
  · intro r' hr'
    obtain ⟨r, hr, hptr, -⟩ := hquiets r' hr'
    rw [← hptr, hnext]
    exact hw.ptr_lt r hr
  · intro r' hr'
    obtain ⟨r, hr, -, heq | heq⟩ := hquiets r' hr'
    · rw [heq]
      exact hw.interest r hr
    · exact .inr heq

/-- A socket is removed behind its registration. -/
theorem Listed.remove_tidies (hw : Listed w) (hfd : w.fdOf id = some fd)
    (hgone : ∀ r ∈ w.kernel.epoll, r.ptr ≠ id) : Tidies w (w.remove id fd) := by
  intro r' hr' hnone
  obtain hnew | ⟨r, hr, hptr, -⟩ := (hw.remove hfd).2.regs r' hr'
  · -- there is no new registration
    have hlt := (hw.remove hfd).1.ptr_lt r' hr'
    rw [remove_nextId] at hlt
    exact absurd hlt hnew.not_gt
  · refine ⟨r, hr, hptr, ?_⟩
    rw [remove_fdOf hfd, ← hptr, if_neg (hgone r hr)] at hnone
    exact hnone

/-! ### Sockets that are made -/

theorem Listed.insert (hw : Listed w) {s : Socket} (hopen : w.kernel.IsOpen s.getFd)
    (hnew : ∀ id, w.fdOf id ≠ some s.getFd) : Listed (w.insert s) ∧ Continues w (w.insert s) := by
  have hptr : ∀ r ∈ w.kernel.epoll, r.ptr ≠ w.nextId := fun r hr => (hw.ptr_lt r hr).ne
  have hfdOf : (w.insert s).fdOf = Function.update w.fdOf w.nextId (some s.getFd) := by
    funext id
    rw [insert_fdOf, Function.update_apply]
  refine ⟨⟨insert_tableInv hw.toTableInv hopen hnew, ?_, ?_, hw.interest⟩, Nat.le_succ _, ?_⟩
  · rw [hfdOf]
    exact hw.registered.insert hptr _
  · exact fun r hr => Nat.lt_succ_of_lt (hw.ptr_lt r hr)
  · exact fun r hr => .inr ⟨r, hr, rfl, .inl rfl⟩

theorem Listed.register (hw : Listed w) (hfd : w.fdOf id = some fd)
    (hptr : ∀ r ∈ w.kernel.epoll, r.ptr ≠ id) : Listed (w.register id fd) := by
  obtain ⟨new, hepoll, -, hnew⟩ :=
    @Epoll.Kernel.Sound.ctlAdd_epoll _ _ _ _ w.kernel fd id EPOLLIN _ hw.registered.toSound
  have hmem : ∀ r ∈ (w.register id fd).kernel.epoll,
      r.ptr = id ∧ r.events = EPOLLIN ∨ r ∈ w.kernel.epoll := by
    intro r hr
    have hr : r ∈ (w.kernel.ctlAdd fd id EPOLLIN).epoll := hr
    rw [hepoll] at hr
    exact (List.mem_append.mp hr).imp_left fun hr => (hnew r hr).2.2
  have hsame : SameObjects w (w.register id fd) := .of_eq rfl rfl rfl rfl
  refine ⟨hsame.tableInv hw.toTableInv hw.opened, hw.registered.ctlAdd hfd hptr, ?_, ?_⟩
  · intro r hr
    obtain ⟨rfl, -⟩ | hr := hmem r hr
    · obtain ⟨s, hs, -⟩ := Option.map_eq_some_iff.mp hfd
      exact hw.toTableInv.lt hs
    · exact hw.ptr_lt r hr
  · intro r hr
    obtain ⟨-, hevents⟩ | hr := hmem r hr
    · exact .inl hevents
    · exact hw.interest r hr

/-- **A new socket** is registered, or it is removed. -/
theorem Listed.addSocket (hw : Listed w) {s : Socket} (hopen : w.kernel.IsOpen s.getFd)
    (hnew : ∀ id, w.fdOf id ≠ some s.getFd) (epollAdd : Bool) :
    Listed (w.addSocket s epollAdd) ∧ Continues w (w.addSocket s epollAdd) ∧
      Tidies w (w.addSocket s epollAdd) := by
  obtain ⟨hinsert, hcont⟩ := hw.insert hopen hnew
  have hself : (w.insert s).fdOf w.nextId = some s.getFd := by rw [insert_fdOf, if_pos rfl]
  have hptr : ∀ r ∈ w.kernel.epoll, r.ptr ≠ w.nextId := fun r hr => (hw.ptr_lt r hr).ne
  have htidies : Tidies w (w.insert s) := by
    intro r hr hnone
    refine ⟨r, hr, rfl, ?_⟩
    rw [insert_fdOf, if_neg (hptr r hr)] at hnone
    exact hnone
  rw [World.addSocket]
  split_ifs
  · have hregs : ∀ r ∈ ((w.insert s).register w.nextId s.getFd).kernel.epoll,
        r.ptr = w.nextId ∨ r ∈ w.kernel.epoll := by
      intro r hr
      obtain ⟨new, hepoll, -, hnew⟩ := @Epoll.Kernel.Sound.ctlAdd_epoll _ _ _ _ w.kernel s.getFd
        w.nextId EPOLLIN _ hw.registered.toSound
      have hr : r ∈ (w.kernel.ctlAdd s.getFd w.nextId EPOLLIN).epoll := hr
      rw [hepoll] at hr
      exact (List.mem_append.mp hr).imp_left fun hr => (hnew r hr).2.2.1
    refine ⟨hinsert.register hself hptr, ⟨Nat.le_succ _, fun r hr => ?_⟩, fun r hr hnone => ?_⟩
    · exact (hregs r hr).imp Eq.ge fun hr => ⟨r, hr, rfl, .inl rfl⟩
    · obtain hown | hr := hregs r hr
      · have hsome : ((w.insert s).register w.nextId s.getFd).fdOf r.ptr = some s.getFd := by
          rw [hown]
          exact hself
        rw [hsome] at hnone
        cases hnone
      · exact htidies r hr hnone
  · obtain ⟨hremove, hcont'⟩ := hinsert.remove hself
    exact ⟨hremove, hcont.trans hcont', htidies.trans (hinsert.remove_tidies hself hptr)⟩

/-! ### Events -/

/-- The other sockets keep their descriptors. -/
def KeepsOthers (id : SocketId) (w w' : World) : Prop :=
  ∀ id', id' ≠ id → id' < w.nextId → w'.fdOf id' = w.fdOf id'

theorem SameObjects.keepsOthers (h : SameObjects w w') : KeepsOthers id w w' :=
  fun id' _ _ => h.fdOf id'

theorem KeepsOthers.trans (h : KeepsOthers id w w') (h' : KeepsOthers id w' w'')
    (hnext : w.nextId ≤ w'.nextId) : KeepsOthers id w w'' :=
  fun id' hne hlt => (h' id' hne (hlt.trans_le hnext)).trans (h id' hne hlt)

theorem remove_keepsOthers (hfd : w.fdOf id = some fd) : KeepsOthers id w (w.remove id fd) := by
  intro id' hne _
  rw [remove_fdOf hfd, if_neg hne]

/-- **What an event for the socket `id` makes of the epoll set.** -/
structure Attended (id : SocketId) (w w' : World) : Prop where
  listed : Listed w'
  continues : Continues w w'
  others : KeepsOthers id w w'
  tidies : Tidies w w'

theorem serverTurn_listed {s : ServerSocket} {ans : ServerSocket.Answers} {epollAdd : Bool}
    (hw : Listed w) (h : World.ServerTurn w s ans epollAdd w') : Attended id w w' := by
  cases h with
  | nothing => exact ⟨hw, .refl w, fun _ _ _ => rfl, .same .refl (.refl _ _)⟩
  | @closed fd hfd =>
      have hopened := hw.registered.openFd hfd
      have hother : ∀ p, w.fdOf p ≠ some fd := hw.fdOf_ne_of_closed hfd
      have hquiets : w.kernel.Quiets EPOLLOUT ((w.kernel.openFd fd).close fd) :=
        close_quiets (w.kernel.openFd fd) fd
      have hsame : SameObjects w { w with kernel := (w.kernel.openFd fd).close fd } :=
        .of_eq rfl rfl rfl rfl
      obtain ⟨hlisted, hcont⟩ := hw.same hsame (serverTurn_tableInv hw.toTableInv
        (@World.ServerTurn.closed w s ans epollAdd fd hfd)) (hopened.close_other hother) hquiets
      exact ⟨hlisted, hcont, hsame.keepsOthers, .same hsame hquiets⟩
  | @accepts fd ip hfd =>
      have hsame : SameObjects w { w with kernel := w.kernel.openFd fd } := .of_eq rfl rfl rfl rfl
      have hopened : TableInv { w with kernel := w.kernel.openFd fd } := by
        apply hw.toTableInv.setKernel
        intro fd' hopen
        exact Epoll.Kernel.isOpen_openFd.mpr (.inr hopen)
      have hquiets : w.kernel.Quiets EPOLLOUT (w.kernel.openFd fd) := .of_subset fun _ h => h
      obtain ⟨hlisted, hcont⟩ := hw.same hsame hopened (hw.registered.openFd hfd) hquiets
      obtain ⟨hadded, hcont', htidies⟩ := hlisted.addSocket
        (s := .client (World.accepted s fd ip ans.now)) (Epoll.Kernel.isOpen_openFd.mpr (.inl rfl))
        (hw.fdOf_ne_of_closed hfd) epollAdd
      refine ⟨hadded, hcont.trans hcont', fun id' _ hlt => ?_,
        (Tidies.same hsame hquiets).trans htidies⟩
      have hadd : (World.addSocket { w with kernel := w.kernel.openFd fd }
          (.client (World.accepted s fd ip ans.now)) epollAdd).fdOf id' = _ := addSocket_fdOf hlt.ne
      exact hadd.trans (hsame.fdOf id')

theorem clientHandled_listed {c : ClientSocket} {events : Events} {ans : ClientSocket.Answers}
    {hd : ClientSocket.Handled} (hw : Listed w) (hc : w.heap id = some (.client c))
    (hfit : World.ClientAnswersFit w.kernel c.fd ans)
    (hhd : c.handleEvent id w.nextId events ans = some hd) (epollAdd : Bool) :
    Attended id w (w.clientHandled id c.fd hd epollAdd) ∧
      (.epollMod EPOLLOUT ∈ hd.actions →
        WaitsOut (w.clientHandled id c.fd hd epollAdd).kernel id) := by
  have hself : w.fdOf id = some c.fd := by
    rw [World.fdOf, hc]
    rfl
  have hown : ∀ p, w.fdOf p = some c.fd → p = id := fun p hp => hw.fdOf_inj hself hp
  have hperformed := handleEvent_registered hw.registered hw.opened hself hown hfit hhd
  have hput : SameObjects w (w.put id (.client hd.client)) :=
    put_same hc (ClientSocket.handleEvent_base hhd).1
  have hsame := hput.trans (perform_same id c.fd hd.actions)
  have htable := hsame.tableInv hw.toTableInv fun id fd hid =>
    handleEvent_isOpen hfit hhd (hw.opened id fd hid)
  obtain ⟨hdone, hcont⟩ := hw.same hsame htable hperformed.registered hperformed.quiets
  have hfd1 := (hsame.fdOf id).trans hself
  have hout := hperformed.waitsOut
  have hgone := hperformed.gone
  have htidies := Tidies.same hsame hperformed.quiets
  rw [World.clientHandled]
  generalize hw1 :
    (w.put id (.client hd.client)).perform id c.fd hd.actions = w1 at hsame hdone hcont hfd1 htidies
  have hout : .epollMod EPOLLOUT ∈ hd.actions → WaitsOut w1.kernel id := by
    rw [← hw1]
    exact hout
  have hgone : .epollDel ∈ hd.actions.getLast? → ∀ r ∈ w1.kernel.epoll, r.ptr ≠ id := by
    rw [← hw1]
    exact hgone
  -- a program that has been started is a new object behind the descriptors of this step
  have hadd : Listed (w1.addNewSocket hd.newSocket epollAdd) ∧
      Continues w1 (w1.addNewSocket hd.newSocket epollAdd) ∧
      (w1.addNewSocket hd.newSocket epollAdd).fdOf id = some c.fd ∧
      KeepsOthers id w (w1.addNewSocket hd.newSocket epollAdd) ∧
      Tidies w1 (w1.addNewSocket hd.newSocket epollAdd) := by
    rcases hnew : hd.newSocket with - | g
    · exact ⟨hdone, .refl w1, hfd1, hsame.keepsOthers, .same .refl (.refl _ _)⟩
    · obtain ⟨hclosed, hopen⟩ := handleEvent_new_isOpen hfit hhd hnew
      have hopen : w1.kernel.IsOpen g.fd := by
        rw [← hw1]
        exact hopen
      have hother : ∀ p, w1.fdOf p ≠ some g.fd := by
        intro p hp
        rw [hsame.fdOf] at hp
        exact hw.fdOf_ne_of_closed hclosed p hp
      obtain ⟨hadded, hcont', htidies'⟩ := hdone.addSocket (s := .cgi g) hopen hother epollAdd
      have hkeeps : ∀ id', id' < w.nextId → (w1.addSocket (.cgi g) epollAdd).fdOf id' = w.fdOf id' := by
        intro id' hlt
        rw [← hsame.nextId] at hlt
        exact (addSocket_fdOf hlt.ne).trans (hsame.fdOf id')
      exact ⟨hadded, hcont', (hkeeps id (hw.lt hc)).trans hself, fun id' _ hlt => hkeeps id' hlt,
        htidies'⟩
  obtain ⟨hlisted, hcont', hfd', hkeeps, htidies'⟩ := hadd
  have hlt : id < w1.nextId := by
    rw [hsame.nextId]
    exact hw.lt hc
  -- the connection is deleted last, behind its `EPOLL_CTL_DEL`
  split_ifs with hremove
  · obtain ⟨hremoved, hcont''⟩ := hlisted.remove hfd'
    obtain ⟨before, hlast⟩ := ClientSocket.handleEvent_removes hhd hremove
    have hgone' : ∀ r ∈ (w1.addNewSocket hd.newSocket epollAdd).kernel.epoll, r.ptr ≠ id := by
      intro r hr hown
      obtain hnew | ⟨r', hr', hptr, -⟩ := hcont'.regs r hr
      · rw [hown] at hnew
        exact absurd hlt hnew.not_gt
      · refine hgone ?_ r' hr' (hptr.trans hown)
        rw [hlast, List.getLast?_concat]
        exact Option.mem_some_self _
    refine ⟨⟨hremoved, hcont.trans (hcont'.trans hcont''), ?_, ?_⟩, fun hmem => ?_⟩
    · exact hkeeps.trans (remove_keepsOthers hfd') (hcont.trans hcont').nextId_le
    · exact htidies.trans (htidies'.trans (hlisted.remove_tidies hfd' hgone'))
    · exact (hout hmem).continues (hcont'.trans hcont'') hlt
  · exact ⟨⟨hlisted, hcont.trans hcont', hkeeps, htidies.trans htidies'⟩,
      fun hmem => (hout hmem).continues hcont' hlt⟩

theorem cgiHandled_listed {g : CgiSocket} {events : Events} {ans : CgiSocket.Answers}
    {h : CgiSocket.Handled} (hw : Listed w) (hg : w.heap id = some (.cgi g))
    (hcases : World.CgiCases g events ans h) :
    Listed (w.cgiHandled id g.fd h) ∧ w.kernel.Quiets EPOLLOUT (w.cgiHandled id g.fd h).kernel ∧
      SameObjects w (w.cgiHandled id g.fd h) ∧
      (h.removeSocket = true → ∀ r ∈ (w.cgiHandled id g.fd h).kernel.epoll, r.ptr ≠ id) := by
  have hself : w.fdOf id = some g.fd := by
    rw [World.fdOf, hg]
    rfl
  obtain ⟨htable, hsame⟩ := cgiHandled_tableInv hw.toTableInv hg hcases
  have hacts := hcases.base.2.2.2
  obtain ⟨hreg, hquiets, -, hgone⟩ := @performs_registered w.kernel w.fdOf id g.fd h.actions hw.registered
    hself (fun p hp => hw.fdOf_inj hself hp) (fun a ha => by rw [hacts a ha]; rfl)
    (fun interest hmem => by cases hacts _ hmem)
  have hlast : h.removeSocket = true → .epollDel ∈ h.actions.getLast? := by
    intro hremove
    cases hcases with
    | nothing => cases hremove
    | reads => cases hremove
    | overflows => rfl
    | unregistered => rfl
    | orphan => rfl
    | ends => rfl
  have hkernel : Registered (w.cgiHandled id g.fd h).kernel w.fdOf ∧
      w.kernel.Quiets EPOLLOUT (w.cgiHandled id g.fd h).kernel ∧
      (w.cgiHandled id g.fd h).kernel.epoll ⊆
        (h.actions.foldl (Action.perform id g.fd) w.kernel).epoll := by
    rw [World.cgiHandled]
    rcases h.reaped with - | pid
    · exact ⟨hreg, hquiets, fun _ h => h⟩
    · exact ⟨hreg.exit pid, hquiets.trans (exit_quiets _ pid), List.filter_sublist.subset⟩
  obtain ⟨hlisted, -⟩ := hw.same hsame htable hkernel.1 hkernel.2.1
  exact ⟨hlisted, hkernel.2.1, hsame, fun hremove r hr => hgone (hlast hremove) r (hkernel.2.2 hr)⟩

theorem notify_listed {fd : Fd} {g : CgiSocket} {exitedZero : Bool} {ans : ClientSocket.CgiAnswers}
    {owner : SocketId} {c : ClientSocket} (hw : Listed w) (hc : w.heap owner = some (.client c)) :
    Listed (w.notify id fd (World.outcomeOf g exitedZero) ans owner c) ∧
      w.kernel.Quiets EPOLLOUT (w.notify id fd (World.outcomeOf g exitedZero) ans owner c).kernel ∧
      SameObjects w (w.notify id fd (World.outcomeOf g exitedZero) ans owner c) := by
  obtain ⟨htable, hsame⟩ := @notify_tableInv w id fd g exitedZero ans owner c hw.toTableInv hc
  obtain ⟨res, -, hres⟩ := World.notify_eq w id fd g exitedZero ans owner c
  have hself : w.fdOf owner = some c.fd := by
    rw [World.fdOf, hc]
    rfl
  have hkernel : (w.notify id fd (World.outcomeOf g exitedZero) ans owner c).kernel =
      (c.answer res ans).actions.foldl (Action.perform owner c.fd) w.kernel := by
    rw [hres]
    cases exitedZero with
    | false => rfl
    | true => rfl
  have hacts : ∀ a ∈ (c.answer res ans).actions, a = .epollMod EPOLLOUT := by
    intro a ha
    rw [ClientSocket.answer] at ha
    dsimp only at ha
    split_ifs at ha
    · exact List.mem_singleton.mp ha
    · exact absurd ha List.not_mem_nil
  obtain ⟨hreg, hquiets, -⟩ := @performs_registered w.kernel w.fdOf owner c.fd
    (c.answer res ans).actions hw.registered hself (fun p hp => hw.fdOf_inj hself hp) (fun a ha => by rw [hacts a ha]; rfl)
    (fun interest hmem => (Action.epollMod.inj (hacts _ hmem)))
  rw [← hkernel] at hreg hquiets
  obtain ⟨hlisted, -⟩ := hw.same hsame htable hreg hquiets
  exact ⟨hlisted, hquiets, hsame⟩

theorem cgiEvent_listed {g : CgiSocket} {events : Events} {ans : CgiSocket.Answers}
    {owner : ClientSocket.CgiAnswers} (hw : Listed w) (hg : w.heap id = some (.cgi g))
    (h : w.cgiEvent id g events ans owner = some w') : Attended id w w' := by
  obtain ⟨hd, w1, -, hcases, hpass, rfl⟩ := World.cgiEvent_cases h
  obtain ⟨hdone, hquiets, hsame, hgone⟩ := cgiHandled_listed hw hg hcases
  have hself : w.fdOf id = some g.fd := by
    rw [World.fdOf, hg]
    rfl
  have hpassed : Listed w1 ∧ (w.cgiHandled id g.fd hd).kernel.Quiets EPOLLOUT w1.kernel ∧
      SameObjects w w1 := by
    cases hcases with
    | ends hend hreg howner =>
        obtain ⟨c, hc, -, rfl⟩ := World.passOn_cases hpass
        obtain ⟨hlisted, hquiets', hsame'⟩ := notify_listed hdone hc
        exact ⟨hlisted, hquiets', hsame.trans hsame'⟩
    | _ =>
        cases hpass
        exact ⟨hdone, .refl _ _, hsame⟩
  obtain ⟨hlisted, hquiets', hsame'⟩ := hpassed
  have hall := hquiets.trans hquiets'
  have hcont : Continues w w1 := .of_quiets hsame'.nextId hall
  split_ifs with hremove
  · have hfd := (hsame'.fdOf id).trans hself
    obtain ⟨hremoved, hcont'⟩ := hlisted.remove hfd
    refine ⟨hremoved, hcont.trans hcont', ?_, ?_⟩
    · exact hsame'.keepsOthers.trans (remove_keepsOthers hfd) hcont.nextId_le
    · refine (Tidies.same hsame' hall).trans (hlisted.remove_tidies hfd fun r hr hown => ?_)
      -- telling the owner registers nothing
      obtain ⟨r', hr', hptr, -⟩ := hquiets' r hr
      exact hgone hremove r' hr' (hptr.trans hown)
  · exact ⟨hlisted, hcont, hsame'.keepsOthers, .same hsame' hall⟩

/-- **An event** changes no other socket's descriptor. -/
theorem handles_listed {w1 : World} {events : Events} {time : Int} {s : Socket} {l : Label}
    (hw : Listed w) (hs : w.heap id = some s) (h : World.Handles w id events w1 time s l) :
    Attended id w w1 := by
  cases h with
  | server h => exact serverTurn_listed hw h
  | client h =>
      obtain ⟨hd, hfit, hhd, rfl⟩ := World.clientEvent_cases h
      exact (clientHandled_listed hw hs hfit hhd _).1
  | cgi h => exact cgiEvent_listed hw hs h

/-! ### Steps -/

/-- What `HandleTimeout` of a connection does: it is deregistered. -/
theorem handleTimeout_listed {c : ClientSocket} {sends : List (Option Nat)} {date : Option Bytes}
    (hw : Listed w) (hc : w.heap id = some (.client c))
    (hw' : w' = (w.put id (.client (c.handleTimeout sends date).client)).perform id c.fd
      (c.handleTimeout sends date).actions) :
    Listed w' ∧ w.kernel.Quiets EPOLLOUT w'.kernel ∧ SameObjects w w' ∧
      ∀ r ∈ w'.kernel.epoll, r.ptr ≠ id := by
  subst hw'
  have htail := ClientSocket.handleTimeout_tail c sends date
  obtain ⟨tail, hactions, htail'⟩ := htail.actions
  rw [List.nil_append] at hactions
  have hself : w.fdOf id = some c.fd := by
    rw [World.fdOf, hc]
    rfl
  have hput : SameObjects w (w.put id (.client (c.handleTimeout sends date).client)) :=
    put_same hc htail.base.1
  have hall := hput.trans (perform_same id c.fd (c.handleTimeout sends date).actions)
  have htable := hall.tableInv hw.toTableInv fun id' fd' hid => by
    refine performs_isOpen (hw.opened id' fd' hid) ?_
    rw [hactions]
    exact ClientSocket.close_not_isTail htail'
  obtain ⟨hreg, hquiets, -, hgone⟩ := @performs_registered w.kernel w.fdOf id c.fd
    (c.handleTimeout sends date).actions hw.registered hself (fun p hp => hw.fdOf_inj hself hp)
    (fun a ha => keepsFiles_of_isTail (htail' a (hactions ▸ ha)))
    (fun interest hmem => absurd hmem (ClientSocket.handleTimeout_not_mod c sends date interest))
  refine ⟨(hw.same hall htable hreg hquiets).1, hquiets, hall, hgone ?_⟩
  obtain ⟨res, -, hres⟩ := ClientSocket.handleTimeout_eq c sends date
  rw [hres]
  show _ ∈ (_ ++ [Action.epollDel]).getLast?
  rw [List.getLast?_concat]
  exact Option.mem_some_self _

theorem visit_listed {now : Int} {s : Socket} {sends : List (Option Nat)} {date : Option Bytes}
    (hw : Listed w) (hs : w.heap id = some s) (hfd : w.fdOf id = some fd) :
    Listed (w.visit now fd id s sends date) ∧ Continues w (w.visit now fd id s sends date) := by
  by_cases hout : s.isTimeout (now - kRequestTimeout) = true
  · rw [World.visit, if_pos hout]
    dsimp only
    rw [delete_erase]
    obtain ⟨hnote, hcont⟩ := hw.of_kernel (note_same rfl : SameObjects w (w.note (.expired id now))) rfl
    have hs1 : (w.note (.expired id now)).heap id = some s := hs
    have hfd1 : (w.note (.expired id now)).fdOf id = some fd := hfd
    generalize w.note (.expired id now) = w1 at hnote hcont hs1 hfd1
    cases s with
    | server s =>
        obtain ⟨hremoved, hcont'⟩ := hnote.remove hfd1
        exact ⟨hremoved, hcont.trans hcont'⟩
    | cgi g =>
        obtain ⟨hremoved, hcont'⟩ := hnote.remove hfd1
        exact ⟨hremoved, hcont.trans hcont'⟩
    | client c =>
        obtain ⟨hdone, hquiets, hsame, -⟩ := @handleTimeout_listed w1 _ id c sends date hnote hs1 rfl
        obtain ⟨hremoved, hcont'⟩ := hdone.remove ((hsame.fdOf id).trans hfd1)
        exact ⟨hremoved, hcont.trans ((Continues.of_quiets hsame.nextId hquiets).trans hcont')⟩
  · rw [World.visit, if_neg hout]
    exact ⟨hw, .refl w⟩

theorem opened_listed {config : ServerConfig} {configs : List ServerConfig} {now : Int}
    (hw : Listed w) (hfd : ¬ w.kernel.IsOpen fd) :
    Listed ((w.opened config configs fd now).register w.nextId fd) ∧
      Continues w ((w.opened config configs fd now).register w.nextId fd) ∧
      Tidies w ((w.opened config configs fd now).register w.nextId fd) := by
  have hquiets : w.kernel.Quiets EPOLLOUT (w.kernel.openFd fd) := .of_subset fun _ h => h
  have hsame : SameObjects w { w with
      kernel := w.kernel.openFd fd
      control := World.nextTurn .starting .top configs } := .of_eq rfl rfl rfl rfl
  have htable := hsame.tableInv hw.toTableInv fun id fd' hid =>
    Epoll.Kernel.isOpen_openFd.mpr (.inr (hw.opened id fd' hid))
  obtain ⟨hopened, hcont⟩ := hw.same hsame htable (hw.registered.openFd hfd) hquiets
  obtain ⟨hadded, hcont', htidies⟩ := hopened.addSocket
    (s := .server ⟨{ fd := fd, lastActivityTime := now }, config⟩)
    (Epoll.Kernel.isOpen_openFd.mpr (.inl rfl)) (hw.fdOf_ne_of_closed hfd) true
  exact ⟨hadded, hcont.trans hcont', (Tidies.same hsame hquiets).trans htidies⟩

/-- **A step** that is not the last one. -/
theorem turned_listed {l : Label} (hloop : LoopInv w) (hw : w.control ≠ .ended → Listed w)
    (h : World.Turned w l w') (hended : w'.control ≠ .ended) : Listed w' ∧ Continues w w' := by
  -- in every control state but the last
  have hgo : ∀ {control : Control}, w.control = control → control ≠ .ended → Listed w := by
    rintro control rfl hne
    exact hw hne
  have hcontrol : ∀ control : Control, Listed w → Listed { w with control := control } ∧
      Continues w { w with control := control } :=
    fun control hlisted => hlisted.of_kernel (.of_eq rfl rfl rfl rfl) rfl
  cases h with
  | openFails => exact absurd rfl hended
  | opens hc hfd =>
      obtain ⟨hlisted, hcont, -⟩ := opened_listed (hgo hc Control.noConfusion) hfd
      exact ⟨hlisted, hcont⟩
  | unregistered => exact absurd rfl hended
  | sweeps hc => exact hcontrol _ (hgo hc Control.noConfusion)
  | @visits now fd id entries s sends date hc hs =>
      have hfd : w.fdOf id = some fd := by
        apply hloop.entries
        rw [hc]
        exact List.mem_cons_self
      obtain ⟨hvisit, hcont⟩ := @visit_listed w id fd now s sends date
        (hgo hc Control.noConfusion) hs hfd
      have hsame : SameObjects (w.visit now fd id s sends date)
          { w.visit now fd id s sends date with
            control := World.nextTurn (.sweeping now) .waiting entries } := .of_eq rfl rfl rfl rfl
      obtain ⟨hlisted, hcont'⟩ := hvisit.of_kernel hsame rfl
      exact ⟨hlisted, hcont.trans hcont'⟩
  | waits hc => exact hcontrol _ (hgo hc Control.noConfusion)
  | reports hc hr => exact hcontrol _ (hgo hc Control.noConfusion)
  | @handles time id events rest s l w1 hc hs h =>
      obtain ⟨hnote, hcont⟩ := (hgo hc Control.noConfusion).of_kernel
        (note_same rfl : SameObjects w (w.note (.dispatched id time))) rfl
      have hs1 : (w.note (.dispatched id time)).heap id = some s := hs
      have hserved := handles_listed hnote hs1 h
      have hsame : SameObjects w1 { w1 with control := World.nextTurn .handling .top rest } :=
        .of_eq rfl rfl rfl rfl
      obtain ⟨hlisted, hcont'⟩ := hserved.listed.of_kernel hsame rfl
      exact ⟨hlisted, hcont.trans (hserved.continues.trans hcont')⟩
  | clears => exact absurd rfl hended
  | forks pid child =>
      have hlisted := hw hended
      exact hlisted.setKernel rfl (hlisted.registered.inherit pid child) (.of_subset fun _ h => h)
  | closes pid file =>
      have hlisted := hw hended
      exact hlisted.setKernel rfl (hlisted.registered.release pid file)
        (.of_subset List.filter_sublist.subset)
  | exits pid =>
      have hlisted := hw hended
      exact hlisted.setKernel rfl (hlisted.registered.exit pid) (exit_quiets _ pid)

end States

/-! ### Events that have been reported -/

/-- The events that are still to be handled. -/
def Control.events : Control → List (SocketId × Events)
  | .handling events => events
  | _ => []

@[simp] theorem Control.events_handling (events : List (SocketId × Events)) :
    (World.nextTurn Control.handling .top events).events = events := by
  cases events with
  | nil => rfl
  | cons event events => rfl

@[simp] theorem Control.events_starting (configs : List ServerConfig) :
    (World.nextTurn Control.starting .top configs).events = [] := by
  cases configs with
  | nil => rfl
  | cons config configs => rfl

@[simp] theorem Control.events_sweeping (now : Int) (entries : List (Fd × SocketId)) :
    (World.nextTurn (Control.sweeping now) .waiting entries).events = [] := by
  cases entries with
  | nil => rfl
  | cons entry entries => rfl

/-- **The events that are still to be handled**: one of a socket, and of one kind; a socket
that is reported for output still waits to send. -/
structure Reported (w : World) : Prop where
  nodup : (w.control.events.map Prod.fst).Nodup
  lt : ∀ e ∈ w.control.events, e.1 < w.nextId
  one : ∀ e ∈ w.control.events, e.2.epollIn = true → e.2.epollOut = false
  out : ∀ e ∈ w.control.events, e.2.epollOut = true → WaitsOut w.kernel e.1

/-- The invariant of the epoll set. -/
structure EpollInv (w : World) : Prop where
  listed : w.control ≠ .ended → Listed w
  reported : Reported w

section Runs

variable {w w' : World} {l : Label} {id : SocketId}

theorem Reported.of_nil (h : w.control.events = []) : Reported w := by
  refine ⟨?_, ?_, ?_, ?_⟩
  · rw [h]
    exact List.nodup_nil
  all_goals
    intro e he
    rw [h] at he
    exact absurd he List.not_mem_nil

/-- Events are handled one after the other. -/
theorem Reported.suffix (hr : Reported w) (h : w'.control.events <:+ w.control.events)
    (hcont : Continues w w') : Reported w' := by
  refine ⟨?_, ?_, ?_, ?_⟩
  · exact (h.sublist.map _).nodup hr.nodup
  · exact fun e he => (hr.lt e (h.subset he)).trans_le hcont.nextId_le
  · exact fun e he => hr.one e (h.subset he)
  · exact fun e he hout => (hr.out e (h.subset he) hout).continues hcont (hr.lt e (h.subset he))

/-- The event at the head is the only one of its socket. -/
theorem Reported.head (hw : Reported w) {events : Events} {rest : List (SocketId × Events)}
    (hc : w.control = .handling ((id, events) :: rest)) :
    ∀ e ∈ rest, e.1 ≠ id := by
  have hnodup := hw.nodup
  rw [hc] at hnodup
  rintro e he rfl
  exact (List.nodup_cons.mp hnodup).1 (List.mem_map.mpr ⟨e, he, rfl⟩)

/-- What `epoll_wait` reports. -/
theorem Listed.reports (hw : Listed w) {reported : List (Registration × Events)}
    (hr : MayReport w.kernel reported) : Reported { w with
      control := World.nextTurn .handling .top (reported.map fun e => (e.1.ptr, e.2)) } := by
  obtain ⟨-, hnodup, hmem⟩ := hr
  have hevents : ∀ {e}, e ∈ (World.nextTurn .handling Control.top
      (reported.map fun e => (e.1.ptr, e.2))).events →
        ∃ e' ∈ reported, e = (e'.1.ptr, e'.2) := by
    intro e he
    rw [Control.events_handling] at he
    obtain ⟨e', he', rfl⟩ := List.mem_map.mp he
    exact ⟨e', he', rfl⟩
  -- two registrations of one object are the same one
  have hptr : ∀ r ∈ w.kernel.epoll, ∀ r' ∈ w.kernel.epoll, r.ptr = r'.ptr → r = r' :=
    fun r hr r' hr' heq => List.inj_on_of_nodup_map hw.registered.ptrs_nodup hr hr' heq
  refine ⟨?_, ?_, ?_, ?_⟩
  · show ((World.nextTurn .handling Control.top _).events.map Prod.fst).Nodup
    rw [Control.events_handling, List.map_map]
    have hfst : reported.map (Prod.fst ∘ fun e => (e.1.ptr, e.2)) =
        (reported.map Prod.fst).map Epoll.Registration.ptr := by
      rw [List.map_map]
      rfl
    rw [hfst]
    refine hnodup.map_on fun r hr r' hr' heq => ?_
    obtain ⟨e, he, rfl⟩ := List.mem_map.mp hr
    obtain ⟨e', he', rfl⟩ := List.mem_map.mp hr'
    exact hptr _ (hmem e he).1 _ (hmem e' he').1 heq
  · intro e he
    obtain ⟨e', he', rfl⟩ := hevents he
    exact hw.ptr_lt _ (hmem e' he').1
  · intro e he hin
    obtain ⟨e', he', rfl⟩ := hevents he
    obtain ⟨hreg, hin', hout'⟩ := hmem e' he'
    have hin := hin' hin
    rcases hout : e'.2.epollOut with - | -
    · rfl
    · have hout := hout' hout
      -- an interest is either `EPOLLIN` or `EPOLLOUT`, so no event has both
      obtain heq | heq := hw.interest _ hreg
      · rw [heq] at hout
        cases hout
      · rw [heq] at hin
        cases hin
  · intro e he hout r hr hown
    obtain ⟨e', he', rfl⟩ := hevents he
    obtain ⟨hreg, -, hout'⟩ := hmem e' he'
    have hr : r ∈ w.kernel.epoll := hr
    obtain rfl := hptr r hr e'.1 hreg hown
    obtain heq | heq := hw.interest _ hr
    · have hout := hout' hout
      rw [heq] at hout
      cases hout
    · exact heq

/-- Which events are left behind a step. -/
theorem turned_events (h : World.Turned w l w') :
    w'.control.events = [] ∨ w'.control.events <:+ w.control.events ∨
      ∃ reported, w.control = .waiting ∧ MayReport w.kernel reported ∧
        w' = { w with
          control := World.nextTurn .handling .top (reported.map fun e => (e.1.ptr, e.2)) } := by
  cases h with
  | openFails => exact .inl rfl
  | opens => exact .inl (Control.events_starting _)
  | unregistered => exact .inl rfl
  | sweeps => exact .inl (Control.events_sweeping _ _)
  | visits => exact .inl (Control.events_sweeping _ _)
  | waits => exact .inl rfl
  | @reports reported hc hr => exact .inr (.inr ⟨reported, hc, hr, rfl⟩)
  | @handles time id events rest s l w1 hc hs h =>
      refine .inr (.inl ?_)
      show (World.nextTurn Control.handling .top rest).events <:+ w.control.events
      rw [Control.events_handling, hc]
      exact List.suffix_cons _ _
  | clears => exact .inl rfl
  | forks => exact .inr (.inl (List.suffix_refl _))
  | closes => exact .inr (.inl (List.suffix_refl _))
  | exits => exact .inr (.inl (List.suffix_refl _))

/-- The end is final. -/
theorem turned_ended (h : World.Turned w l w') (hended : w.control = .ended) :
    w'.control = .ended := by
  cases h with
  | openFails | unregistered | clears => rfl
  | forks | closes | exits => exact hended
  | opens hc | sweeps hc | visits hc | waits hc | reports hc | handles hc =>
      rw [hended] at hc
      cases hc

theorem turned_epollInv (hloop : LoopInv w) (hw : EpollInv w) (h : World.Turned w l w') :
    EpollInv w' := by
  have hlisted := turned_listed hloop hw.listed h
  refine ⟨fun hended => (hlisted hended).1, ?_⟩
  by_cases hended : w'.control = .ended
  · apply Reported.of_nil
    rw [hended]
    rfl
  · obtain hnil | hsuffix | ⟨reported, hc, hr, rfl⟩ := turned_events h
    · exact .of_nil hnil
    · exact hw.reported.suffix hsuffix (hlisted hended).2
    · apply Listed.reports _ hr
      apply hw.listed
      rw [hc]
      exact Control.noConfusion

/-- The clock has no part in it. -/
theorem EpollInv.setClock (hw : EpollInv w) (clock : Int) : EpollInv { w with clock := clock } := by
  refine ⟨fun hended => ?_, ⟨hw.reported.nodup, hw.reported.lt, hw.reported.one, hw.reported.out⟩⟩
  have hsame : SameObjects w { w with clock := clock } := .of_eq rfl rfl rfl rfl
  exact ((hw.listed hended).of_kernel hsame rfl).1

theorem start_epollInv (hw : World.IsStart w) : EpollInv w := by
  have htable := (start_runInv hw).toTableInv
  obtain ⟨configs, open_, clock, rfl⟩ := hw
  have hkernel : ∀ (fds : List Fd) (k : Kernel), (∀ fd ∈ fds, ¬ k.IsOpen fd) → fds.Nodup →
      k.epoll = [] → Registered k (fun _ => none) →
      (fds.foldl Epoll.Kernel.openFd k).epoll = [] ∧
        Registered (fds.foldl Epoll.Kernel.openFd k) (fun _ => none) := by
    intro fds
    induction fds with
    | nil => exact fun k _ _ hepoll hk => ⟨hepoll, hk⟩
    | cons fd fds ih =>
        intro k hclosed hnodup hepoll hk
        obtain ⟨hfd, hnodup⟩ := List.nodup_cons.mp hnodup
        refine ih (k.openFd fd) (fun fd' hfd' hopen => ?_) hnodup hepoll
          (hk.openFd (hclosed fd List.mem_cons_self))
        obtain rfl | hopen := Epoll.Kernel.isOpen_openFd.mp hopen
        · exact hfd hfd'
        · exact hclosed fd' (List.mem_cons_of_mem _ hfd') hopen
  have hempty : Registered ({} : Kernel) (fun _ : SocketId => none) := by
    refine ⟨⟨List.nodup_nil, List.nodup_nil, ?_, ?_⟩, List.nodup_nil, ?_, ?_, ?_⟩
    · rintro f (hf | hf)
      · exact absurd hf List.not_mem_nil
      · exact absurd hf List.not_mem_nil
    all_goals
      intro r hr
      exact absurd hr List.not_mem_nil
  obtain ⟨hepoll, hreg⟩ := hkernel open_.dedup {} (fun fd _ hopen => absurd hopen List.not_mem_nil)
    (List.nodup_dedup _) rfl hempty
  refine ⟨fun _ => ⟨htable, hreg, ?_, ?_⟩, .of_nil (Control.events_starting configs)⟩
  · intro r hr
    have hr : r ∈ (open_.dedup.foldl Epoll.Kernel.openFd {}).epoll := hr
    rw [hepoll] at hr
    exact absurd hr List.not_mem_nil
  · intro r hr
    have hr : r ∈ (open_.dedup.foldl Epoll.Kernel.openFd {}).epoll := hr
    rw [hepoll] at hr
    exact absurd hr List.not_mem_nil

/-- **The epoll set in every state of every run.** -/
theorem reachable_epollInv {P : World → Label → Prop}
    (h : Transition.Reachable World.step P World.IsStart w) : EpollInv w := by
  apply h.invariant_under (fun _ => reachable_runInv) (fun _ => start_epollInv)
  intro w l w' hw _ hepoll _ hst
  obtain ⟨w1, hturn, rfl⟩ := World.step_cases hst
  exact (turned_epollInv hw.toLoopInv hepoll hturn).setClock _

end Runs

end Webserv
