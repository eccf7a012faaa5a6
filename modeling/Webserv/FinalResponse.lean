/-
Webserv/FinalResponse.lean

What a connection whose request is done waits for, along a run.

Once it has been told to send, it holds the rest of its final response: that of its own run of
the request handler, the page for input that `Parse` has refused, or what is made of the end of
its own program.
-/
import Webserv.Answering

namespace Webserv

/-! ### The final response -/

/-- **The final response** of the connection `id` with this request: what its own run of the
request handler has given, the page of the error with which `Parse` has refused its input, or
what is made of the end of the program that it has started. -/
inductive FinalResponse (log : List Entry) (id : SocketId) (config : ServerConfig)
    (req : HttpRequest) : Bytes → Prop
  | handled (sys : Sys) (date : Option Bytes)
      (hran : .runHandler req :: (RequestHandler.run sys config req).2 <:+: actionsOf log id)
      (hsync : (RequestHandler.run sys config req).1.isAsync = false) :
      FinalResponse log id config req
        ((RequestHandler.run sys config req).1.response.toHttpString date)
  | refused {data : Bytes} {before : HttpRequest} {status : Status} (date : Option Bytes)
      (hdata : .recv data ∈ actionsOf log id)
      (hparse : (HttpRequest.parse data).run before = .error (.responseStatus status) req) :
      FinalResponse log id config req (errorPage status date)
  | ended {g : SocketId} (t : CgiSocket) (exitedZero : Bool) (date : Option Bytes)
      (hadopt : .adopt g ∈ actionsOf log id)
      (hover : exitedZero = true → .handOver id t.readBuffer ∈ actionsOf log g) :
      FinalResponse log id config req (t.reply exitedZero date)

theorem FinalResponse.mono {log log' : List Entry} {id : SocketId} {config : ServerConfig} {req : HttpRequest}
    {text : Bytes} (h : FinalResponse log id config req text)
    (hlog : ∀ id, actionsOf log id <+: actionsOf log' id) : FinalResponse log' id config req text := by
  cases h with
  | handled sys date hran hsync => exact .handled sys date (hran.trans (hlog id).isInfix) hsync
  | refused date hdata hparse => exact .refused date ((hlog id).subset hdata) hparse
  | @ended g t exitedZero date hadopt hover =>
      exact .ended t exitedZero date ((hlog id).subset hadopt) fun h => (hlog g).subset (hover h)

/-- **The buffer holds the rest of the final response.** -/
def HoldsFinal (log : List Entry) (id : SocketId) (c : ClientSocket) : Prop :=
  ∃ text, FinalResponse log id c.config c.req text ∧ c.writeBuffer <:+ text

theorem HoldsFinal.mono {log log' : List Entry} {id : SocketId} {c : ClientSocket} (h : HoldsFinal log id c)
    (hlog : ∀ id, actionsOf log id <+: actionsOf log' id) : HoldsFinal log' id c := by
  obtain ⟨text, hfinal, hsuffix⟩ := h
  exact ⟨text, hfinal.mono hlog, hsuffix⟩

/-- **A connection that has been told to send** and whose request is done has its final response;
one whose request is not done hears nothing more. -/
structure ToldInv (w : World) (id : SocketId) : Prop where
  holds : ∀ c, w.coreOf id = some (.client c) → c.req.state = .kDone → IsTold w.log id →
    HoldsFinal w.log id c
  deaf : ∀ c, w.coreOf id = some (.client c) → c.req.state ≠ .kDone → IsTold w.log id → Deaf w id

section Steps

variable {w w' : World} {id : SocketId} {l : Label} {c : ClientSocket}

/-- **What an input makes of the buffer**, if it does not start a program. -/
theorem ClientSocket.handleEvent_final {newId : SocketId} {events : Events}
    {ans : ClientSocket.Answers} {hd : ClientSocket.Handled} {log : List Entry}
    (hh : c.handleEvent id newId events ans = some hd) (hmod : ans.epollMod = none)
    (hin : events.epollIn = true) (hout : events.epollOut = false) (hkept : hd.removeSocket = false)
    (hdone : hd.client.req.state = .kDone) (hacts : hd.actions <:+: actionsOf log id) :
    HoldsFinal log id hd.client ∨ c.req.state ≠ .kDone ∧ .epollMod EPOLLOUT ∉ hd.actions := by
  have hcaught := handleEvent_caught hh
  have hr := handleEvents_in id newId ans hin hout { client := c.touch ans.now }
  generalize (handleEvents id newId events ans).run { client := c.touch ans.now } = r at hr hcaught
  cases hcaught with
  | closed => cases hkept
  -- an exception of the parser: the error page is the last thing in the buffer
  | @refused status res hres h2 =>
      generalize hr' : EStateM.Result.error (Exception.responseStatus status) h2 = r' at hr
      cases hr with
      | closed | waits | answered | started => cases hr'
      | unanswered hdata hparse hstate hrun hnew hactions hmod' =>
          rw [hmod] at hmod'
          cases hmod'
      | @refused data req e hdata hparse =>
          cases hr'
          have hrecv : Action.recv data ∈ (refuse (((⟨c.touch ans.now, [], none, false⟩ :
              Handled).did (.recv data)).setReq req) res ans).actions := by
            rw [refuse]
            dsimp only
            split_ifs
            · exact List.mem_cons_self
            · exact List.mem_cons_self
          refine .inl ⟨errorPage status ans.dateError, ?_, ?_⟩
          · have hreq : (refuse (((⟨c.touch ans.now, [], none, false⟩ :
                Handled).did (.recv data)).setReq req) res ans).client.req = req := by
              rw [refuse]
              dsimp only
              split_ifs
              · rfl
              · rfl
            rw [hreq]
            exact .refused _ (hacts.subset hrecv) hparse
          · rw [errorPage_eq hres, refuse]
            dsimp only
            split_ifs
            · exact List.suffix_refl _
            · exact List.suffix_refl _
  | returned =>
      cases hr with
      | waits hdata hparse hstate => exact absurd hdone hstate
      | @answered data req result actions hdata hparse hstate hrun hnew =>
          -- no new socket, so the handler has answered at once
          have hsync : result.isAsync = false := by
            have hrun' := requestHandler_outcome ans.sys c.config req
            have hrun : RequestHandler.run ans.sys c.config req = (result, actions) := hrun
            rw [hrun] at hrun'
            cases hrun' with
            | answered hnew' hasync => exact hasync
            | started => cases hnew
          have hfinal := @FinalResponse.handled log id c.config req ans.sys ans.date
          have hrun : RequestHandler.run ans.sys c.config req = (result, actions) := hrun
          rw [hrun] at hfinal
          have hwithin : Action.runHandler req :: actions <:+:
              [Action.recv data] ++ (Action.runHandler req :: actions) ++ [.epollMod EPOLLOUT] :=
            List.infix_append _ _ _
          exact .inl ⟨_, hfinal (hwithin.trans hacts) hsync, List.suffix_refl _⟩
      | started hdata hparse =>
          refine .inr ⟨not_done_of_parse hparse, fun hmem => ?_⟩
          obtain hmem | hmem := List.mem_append.mp hmem
          · exact ran_not_tail rfl (started_not_tail rfl) hmem
          · cases List.mem_singleton.mp hmem

/-- A connection that hears nothing keeps its request, and sends from the front of the buffer. -/
theorem ClientSocket.handleEvent_keepsReq {newId : SocketId} {events : Events}
    {ans : ClientSocket.Answers} {hd : ClientSocket.Handled} (hin : events.epollIn = false)
    (hh : c.handleEvent id newId events ans = some hd) :
    hd.client.req = c.req ∧ hd.client.config = c.config ∧ hd.client.writeBuffer <:+ c.writeBuffer := by
  refine ⟨?_, (handleEvent_base hh).2.2, _, handleEvent_sends_out hin hh⟩
  obtain ⟨h1, hreads, htail⟩ := handleEvent_readsOn hh
  obtain ⟨buffer, hclient⟩ := htail.client
  rw [hclient]
  obtain rfl | ⟨hin', -⟩ := hreads
  · rfl
  · rw [hin] at hin'
    cases hin'

/-- So it keeps its final response. -/
theorem HoldsFinal.handleEvent {newId : SocketId} {events : Events} {ans : ClientSocket.Answers}
    {hd : ClientSocket.Handled} {log : List Entry} (h : HoldsFinal log id c) (hin : events.epollIn = false)
    (hh : c.handleEvent id newId events ans = some hd) : HoldsFinal log id hd.client := by
  obtain ⟨text, hfinal, hsuffix⟩ := h
  obtain ⟨hreq, hconfig, hsends⟩ := ClientSocket.handleEvent_keepsReq hin hh
  refine ⟨text, ?_, hsends.trans hsuffix⟩
  rw [hconfig, hreq]
  exact hfinal

/-- A connection that may send has been told to. -/
theorem Watched.told {events : Events} (hwatched : Watched ∅ w) (hepoll : EpollInv w)
    (hmem : (id, events) ∈ w.control.events) (hout : events.epollOut = true)
    (hc : w.heap id = some (.client c)) : IsTold w.log id := by
  obtain ⟨r, hr, -, hptr, hin⟩ | ⟨-, -, htold⟩ :=
    hwatched id (Set.notMem_empty id) _ (World.coreOf_of hc)
  · rw [hepoll.reported.out _ hmem hout r hr hptr] at hin
    cases hin
  · exact htold

/-- **The steps of a connection** keep its final response. -/
theorem turned_toldInv (hw : RunInv w) (hepoll : EpollInv w) (hlink : LinkInv w)
    (hrec : ∀ id, Recorded (actionsOf w.log id) (w.coreOf id)) (hwatched : Watched ∅ w)
    (hl : Orderly w l) (hturn : World.Turned w l w') (h : ToldInv w id) : ToldInv w' id := by
  have hlives := turned_lives hw.toLoopInv hw.silent hturn
  have hlog : ∀ id, actionsOf w.log id <+: actionsOf w'.log id := fun id => by
    obtain ⟨extra, hacts, -⟩ := (hlives id).grows
    rw [hacts]
    exact List.prefix_append _ _
  have htold : ∀ log, IsTold log id ↔ Action.epollMod EPOLLOUT ∈ actionsOf log id :=
    fun log => mem_actionsOf.symm
  have hdeaf : ∀ {c}, w.coreOf id = some (.client c) → Deaf w id → Deaf w' id := fun hc hdeaf => by
    obtain ⟨s, hs, -⟩ := Option.map_eq_some_iff.mp hc
    exact hdeaf.turned hw.toLoopInv hepoll (hw.lt hs) hturn
  -- it is enough to look at the connection that is left
  suffices hall : ∀ c, w'.coreOf id = some (.client c) → IsTold w'.log id →
      (c.req.state = .kDone → HoldsFinal w'.log id c) ∧ (c.req.state ≠ .kDone → Deaf w' id) from
    ⟨fun c hc hdone ht => (hall c hc ht).1 hdone, fun c hc hdone ht => (hall c hc ht).2 hdone⟩
  intro c' hc' ht
  rw [htold] at ht
  have hlife := hlives id
  rw [World.Lives] at hlife
  generalize hs : w.coreOf id = s at hlife
  generalize hs' : w'.coreOf id = s' at hlife hc'
  generalize hacts : actionsOf w.log id = acts at hlife
  generalize hacts' : actionsOf w'.log id = acts' at hlife ht
  have hold : .epollMod EPOLLOUT ∈ acts → IsTold w.log id := fun hmem => by
    rw [htold, hacts]
    exact hmem
  cases hlife with
  | gone | opened | started | expired | printed | ended => cases hc'
  | accepted => exact absurd ht List.not_mem_nil
  | same =>
      rw [hc'] at hs
      refine ⟨fun hdone => ?_, fun hdone => hdeaf hs (h.deaf c' hs hdone (hold ht))⟩
      exact (h.holds c' hs hdone (hold ht)).mono hlog
  | @event acts c events rest time ans epollAdd hd hc hlabel hheap hh =>
      split_ifs at hc' with hremove
      cases hc'
      obtain ⟨hmod, -, -⟩ := ctlSucceeds_client (hlabel ▸ hl.ctl)
      have hmem : (id, events) ∈ w.control.events := by
        rw [hc]
        exact List.mem_cons_self
      refine ⟨fun hdone => ?_, fun hdone => ?_⟩
      · rcases hin : events.epollIn with - | -
        · -- it sends, and has been told to
          have hout : events.epollOut = true := by
            have hhears := hl.events
            rw [hlabel, World.hearsOrSends, hc] at hhears
            have hhears : (events.epollIn || events.epollOut) = true := hhears
            rw [hin] at hhears
            exact hhears
          have hstate : c.req.state = .kDone := by
            rw [← (ClientSocket.handleEvent_keepsReq hin hh).1]
            exact hdone
          have hfinal : HoldsFinal w.log id c :=
            h.holds { c with cgiSocket := none } hs hstate (hwatched.told hepoll hmem hout hheap)
          exact (hfinal.handleEvent hin hh).mono hlog
        · have hout : events.epollOut = false := by
            rcases hout : events.epollOut with - | -
            · rfl
            · exact absurd hout (Bool.eq_false_iff.mp (hepoll.reported.one _ hmem hin))
          have hwithin : hd.actions <:+: actionsOf w'.log id := by
            rw [hacts']
            exact (List.suffix_append _ _).isInfix
          obtain hfinal | ⟨hnot, hno⟩ := ClientSocket.handleEvent_final hh hmod hin hout
            (Bool.eq_false_iff.mpr hremove) hdone hwithin
          · exact hfinal
          · -- a connection that has been told to send hears no input
            have hmem := (List.mem_append.mp ht).resolve_right hno
            rw [(h.deaf _ hs hnot (hold hmem)).epollIn hc] at hin
            cases hin
      · by_cases hmod' : .epollMod EPOLLOUT ∈ hd.actions
        · exact turned_deaf hepoll hturn hlabel hc hheap hh hmod'
        · have hmem := (List.mem_append.mp ht).resolve_right hmod'
          have hnot : c.req.state ≠ .kDone := fun hstate => by
            obtain ⟨-, -, hkeeps⟩ | ⟨hcompleted, -⟩ := handleEvent_history hh
            · exact hdone (hkeeps hstate)
            · exact (not_done_of_completed hcompleted).1 hstate
          exact hdeaf hs (h.deaf _ hs hnot (hold hmem))
  | @answered acts c g t events rest time ans cans hc hlabel hg howner hend hreg hheap res hres =>
      cases hc'
      have hchild : w.childOf id = some g := (hlink.linked id g).mpr ((World.ownerOf_of hg).trans howner)
      refine ⟨fun hdone => ?_, fun hdone => ?_⟩
      · refine ⟨t.reply ans.exitedZero cans.date,
          @FinalResponse.ended _ _ _ _ g t ans.exitedZero cans.date ?_ ?_, ?_⟩
        · exact (hlog id).subset (hlink.adopted id g hchild)
        · exact turned_handsOver hturn hlabel hc hg howner hend hreg
        · rw [← hres.2]
          exact List.suffix_refl _
      · have hnone : c.cgiSocket = none := hlink.no_child hrec hheap hdone
        rw [World.childOf_of hheap] at hchild
        rw [show (Socket.client c).cgiSocket = none from hnone] at hchild
        cases hchild

end Steps

/-! ### Runs -/

theorem Attends.setClock {w : World} {id : SocketId} {c : ClientSocket} (h : Attends w id c)
    (clock : Int) : Attends { w with clock := clock } id c := by
  cases h with
  | sends h => exact .sends h
  | program hchild htime hle => exact .program hchild htime hle
  | overdue hc hmem hout => exact .overdue hc hmem hout

/-- What is known already of a state of a run. -/
structure Known (w : World) : Prop where
  run : RunInv w
  epoll : EpollInv w
  link : LinkInv w
  recorded : ∀ id, Recorded (actionsOf w.log id) (w.coreOf id)
  watched : Watched ∅ w

theorem reachable_noneForgotten {w : World}
    (h : Transition.Reachable World.step Orderly World.IsStart w) :
    Swept w ∧ NoneForgotten w ∧ ∀ id, ToldInv w id := by
  apply h.invariant_under (J := Known) fun w hw => ⟨reachable_runInv hw, reachable_epollInv hw,
    reachable_linkInv hw, reachable_recorded hw, reachable_watched hw⟩
  · rintro w ⟨configs, open_, clock, rfl⟩
    refine ⟨fun _ _ _ id s hs => ?_, fun id c hc => ?_, fun id => ⟨fun c hc => ?_, fun c hc => ?_⟩⟩
    · cases hs
    · cases hc
    · cases hc
    · cases hc
  · intro w l w' hw _ hI hl hst
    obtain ⟨hswept, hnone, htold⟩ := hI
    obtain ⟨w1, hturn, rfl⟩ := World.step_cases hst
    have hnone' := turned_noneForgotten hw.run hw.epoll hw.link.linked
      (fun id c hc hstate => hw.link.no_child hw.recorded hc hstate) hswept hl hturn hnone
    have hswept' : Swept w1 := turned_swept hw.run.toLoopInv hswept hturn
    refine ⟨hswept', fun id c hc hstate => ?_, fun id => ?_⟩
    · obtain ⟨hbuffer, hattends⟩ := hnone' id c hc hstate
      exact ⟨hbuffer, hattends.setClock _⟩
    · have htold' := turned_toldInv hw.run hw.epoll hw.link hw.recorded hw.watched hl hturn (htold id)
      exact ⟨htold'.holds, htold'.deaf⟩

/-- **What a connection whose request is done waits for**: to send its final response, for the
end of its program, or for the sweep that is to remove it. -/
inductive Waits (w : World) (id : SocketId) (c : ClientSocket) : Prop
  | output (hbuffer : c.writeBuffer ≠ []) (hfinal : HoldsFinal w.log id c)
      (hwatch : w.kernel.Watches c.fd id EPOLLOUT)
  | program {g : SocketId} {t : CgiSocket} (hchild : c.cgiSocket = some g)
      (hg : w.heap g = some (.cgi t)) (hentry : w.sockets[t.fd]? = some g)
      (hwatch : w.kernel.Watches t.fd g EPOLLIN)
  | sweep {now : Int} {entries : List (Fd × SocketId)} (hc : w.control = .sweeping now entries)
      (hmem : (c.fd, id) ∈ entries) (hout : (Socket.client c).IsOverdue now)

theorem reachable_waits {w : World} (h : Transition.Reachable World.step Orderly World.IsStart w)
    {id : SocketId} {c : ClientSocket} (hc : w.heap id = some (.client c))
    (hdone : c.req.state = .kDone) : Waits w id c := by
  obtain ⟨-, hnone, htold⟩ := reachable_noneForgotten h
  have hcore := coreOf_client hc
  obtain ⟨hbuffer, hattends⟩ := hnone id _ hcore hdone
  have hloop := (reachable_runInv h).toLoopInv
  have hwatched := reachable_watched h
  -- who attends to it says what it waits for
  cases hattends with
  | sends hsends =>
      have hended : w.control ≠ .ended := fun hended => by
        rw [hloop.ended hended id] at hc
        cases hc
      -- it is registered for one of the two; for input it would not be sending
      obtain hin | ⟨-, hout, ht⟩ := hwatched id (Set.notMem_empty id) _ hcore
      · obtain ⟨r, hr, -, hptr, hev⟩ := hin
        rw [hsends hended r hr hptr] at hev
        cases hev
      · have hfinal : HoldsFinal w.log id c :=
          (htold id).holds { c with cgiSocket := none } hcore hdone ht
        exact .output hbuffer hfinal hout
  | @program g time hchild htime hle =>
      obtain ⟨s, hs, hstime⟩ := Option.bind_eq_some_iff.mp htime
      cases s with
      | server => cases hstime
      | client => cases hstime
      | cgi t =>
          refine .program ((World.childOf_of hc).symm.trans hchild) hs ?_ ?_
          · refine (hloop.entry t.fd g).mpr ?_
            rw [World.fdOf, hs]
            rfl
          · have hwatch := hwatched g (Set.notMem_empty g) _ (World.coreOf_of hs)
            exact hwatch.resolve_right fun hclient => Bool.false_ne_true hclient.1
  | @overdue now entries hsweep hmem hout =>
      refine .sweep hsweep ?_ hout
      obtain ⟨⟨fd, id'⟩, hentry, hid⟩ := List.mem_map.mp hmem
      obtain rfl : id' = id := hid
      have hfd : w.fdOf id' = some fd := by
        apply hloop.entries
        rw [hsweep]
        exact hentry
      rw [World.fdOf, hc] at hfd
      cases hfd
      exact hentry

/-- **No accepted request is stranded.**  In every run in which the calls of `epoll_ctl` succeed
and the clock does not go back, behind a sweep and between two events, a connection whose
request is done holds the rest of its final response and is registered for output, or it has a
CGI socket that is alive and in the table. -/
theorem noneStranded {w : World} (h : Transition.Reachable World.step Orderly World.IsStart w)
    (hswept : ∀ now entries, w.control ≠ .sweeping now entries) {id : SocketId} {c : ClientSocket}
    (hc : w.heap id = some (.client c)) (hdone : c.req.state = .kDone) :
    (c.writeBuffer ≠ [] ∧ HoldsFinal w.log id c ∧ w.kernel.Watches c.fd id EPOLLOUT) ∨
      ∃ g t, c.cgiSocket = some g ∧ w.heap g = some (.cgi t) ∧ w.sockets[t.fd]? = some g := by
  cases reachable_waits h hc hdone with
  | output hbuffer hfinal hwatch => exact .inl ⟨hbuffer, hfinal, hwatch⟩
  | program hchild hg hentry => exact .inr ⟨_, _, hchild, hg, hentry⟩
  | sweep hsweep => exact absurd hsweep (hswept _ _)

/-- **No request is forgotten.**  In every state of such a run, also within a sweep, a connection
whose request is done holds the rest of its final response and is registered for output, or has
a CGI socket that is in the table and watched; or it is overdue and the sweep that is under way
has still to visit it. -/
theorem noneForgotten {w : World} (h : Transition.Reachable World.step Orderly World.IsStart w)
    {id : SocketId} {c : ClientSocket} (hc : w.heap id = some (.client c))
    (hdone : c.req.state = .kDone) :
    (c.writeBuffer ≠ [] ∧ HoldsFinal w.log id c ∧ w.kernel.Watches c.fd id EPOLLOUT) ∨
      (∃ g t, c.cgiSocket = some g ∧ w.heap g = some (.cgi t) ∧ w.sockets[t.fd]? = some g ∧
        w.kernel.Watches t.fd g EPOLLIN) ∨
      ∃ now entries, w.control = .sweeping now entries ∧ (c.fd, id) ∈ entries ∧
        (Socket.client c).IsOverdue now := by
  cases reachable_waits h hc hdone with
  | output hbuffer hfinal hwatch => exact .inl ⟨hbuffer, hfinal, hwatch⟩
  | program hchild hg hentry hwatch => exact .inr (.inl ⟨_, _, hchild, hg, hentry, hwatch⟩)
  | sweep hsweep hmem hout => exact .inr (.inr ⟨_, _, hsweep, hmem, hout⟩)

/-- The request of a connection is done. -/
def Socket.isDone : Socket → Bool
  | .client c => c.req.state = .kDone
  | _ => false

/-- A request starts a program, and the next sweep finds nothing that is overdue. -/
def waitRun : List Label :=
  [.openServer (some 4) 0 true, .checkTimeout 0, .visit [] none,
    .epollWait (some [(⟨4, 1, 0, EPOLLIN⟩, EPOLLIN)]), .serverEvent 0 ⟨some (5, 0), none, 0⟩ true,
    .checkTimeout 0, .visit [] none, .visit [] none,
    .epollWait (some [(⟨5, 2, 1, EPOLLIN⟩, EPOLLIN)]),
    .clientEvent 0 ⟨0, some (bytes "GET /a.py HTTP/1.1\r\nHost: a\r\n\r\n"), sampleSys, none, true,
      none, none, none⟩ true,
    .checkTimeout 9, .visit [] none, .visit [] none, .visit [] none]

theorem noneForgotten_waitRun : ∃ w c,
    Transition.run World.step (World.start [sampleConfig] [3] 0) waitRun = some w ∧
      w.heap 1 = some (.client c) ∧ c.cgiSocket = some 2 ∧
      ((c.writeBuffer ≠ [] ∧ HoldsFinal w.log 1 c ∧ w.kernel.Watches c.fd 1 EPOLLOUT) ∨
        (∃ g t, c.cgiSocket = some g ∧ w.heap g = some (.cgi t) ∧ w.sockets[t.fd]? = some g ∧
          w.kernel.Watches t.fd g EPOLLIN) ∨
        ∃ now entries, w.control = .sweeping now entries ∧ (c.fd, 1) ∈ entries ∧
          (Socket.client c).IsOverdue now) := by
  have hrun : (Transition.run World.step (World.start [sampleConfig] [3] 0) waitRun).bind
      (fun w => (w.heap 1).map fun s => (s.cgiSocket, s.isDone)) = some (some 2, true) := by
    decide +kernel
  have halong : Transition.Along World.step Orderly (World.start [sampleConfig] [3] 0) waitRun := by
    decide +kernel
  obtain ⟨w, hw, hstate⟩ := Option.bind_eq_some_iff.mp hrun
  obtain ⟨s, hheap, hfound⟩ := Option.map_eq_some_iff.mp hstate
  obtain ⟨hchild, hdone⟩ := Prod.mk.inj hfound
  cases s with
  | server => cases hdone
  | cgi => cases hdone
  | client c =>
      have hreach : Transition.Reachable World.step Orderly World.IsStart w :=
        .run_along (.start ⟨_, _, _, rfl⟩) halong hw
      exact ⟨w, c, hw, hheap, hchild, noneForgotten hreach hheap (of_decide_eq_true hdone)⟩

/-- The program prints what is no response, and ends. -/
def garbageRun : List Label :=
  waitRun ++ [.epollWait (some [(⟨6, 3, 2, EPOLLIN⟩, EPOLLIN)]),
    .cgiEvent 9 ⟨some (bytes "garbage"), false, true⟩ ⟨9, none, true⟩,
    .checkTimeout 9, .visit [] none, .visit [] none, .visit [] none,
    .epollWait (some [(⟨6, 3, 2, EPOLLIN⟩, EPOLLIN)]),
    .cgiEvent 9 ⟨some [], true, true⟩ ⟨9, none, true⟩]

theorem noneStranded_garbageRun : ∃ w c,
    Transition.run World.step (World.start [sampleConfig] [3] 0) garbageRun = some w ∧
      w.control = .top ∧ w.heap 1 = some (.client c) ∧ c.cgiSocket = none ∧
      ((c.writeBuffer ≠ [] ∧ HoldsFinal w.log 1 c ∧ w.kernel.Watches c.fd 1 EPOLLOUT) ∨
        ∃ g t, c.cgiSocket = some g ∧ w.heap g = some (.cgi t) ∧ w.sockets[t.fd]? = some g) := by
  have hrun : (Transition.run World.step (World.start [sampleConfig] [3] 0) garbageRun).bind
      (fun w => (w.heap 1).map fun s => (w.control.isTop, s.cgiSocket, s.isDone)) =
        some (true, none, true) := by
    decide +kernel
  have halong : Transition.Along World.step Orderly (World.start [sampleConfig] [3] 0) garbageRun := by
    decide +kernel
  obtain ⟨w, hw, hstate⟩ := Option.bind_eq_some_iff.mp hrun
  obtain ⟨s, hheap, hfound⟩ := Option.map_eq_some_iff.mp hstate
  obtain ⟨htop, hfound⟩ := Prod.mk.inj hfound
  obtain ⟨hchild, hdone⟩ := Prod.mk.inj hfound
  have htop : w.control = .top := Control.isTop_iff.mp htop
  cases s with
  | server => cases hdone
  | cgi => cases hdone
  | client c =>
      have hreach : Transition.Reachable World.step Orderly World.IsStart w :=
        .run_along (.start ⟨_, _, _, rfl⟩) halong hw
      refine ⟨w, c, hw, htop, hheap, hchild, noneStranded hreach ?_ hheap (of_decide_eq_true hdone)⟩
      rw [htop]
      exact fun _ _ => Control.noConfusion

end Webserv
