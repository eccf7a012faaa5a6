/-
Webserv/Replies.lean

What a connection sends is the reply to what it has been given.

A reply is put into `write_buffer_` by the event that completes or refuses the request, or by
the end of the program that it has started.  From then on the connection hears nothing, and no
program is left that could replace the reply; so whatever the rest of the run is, what has been
sent is the beginning of this reply, or the page of a timeout that found nothing sent.
-/
import Webserv.Answering
import Webserv.Owners
import Webserv.Responses
import Webserv.SideEffects
import Webserv.StaticPost

namespace Webserv

/-! ### Settled replies -/

/-- **What has been sent begins the reply**, and a connection that is there has the rest in its
buffer.  One that has been timed out may have sent the page of that instead. -/
structure Begun (text : Bytes) (acts : List Action) (s : Option Socket) : Prop where
  begins : sentBytes acts <+: text ∨
    s = none ∧ ∃ date, sentBytes acts <+: errorPage .kRequestTimeout date
  rest : ∀ t, s = some t → ∃ c, t = .client c ∧ sentBytes acts ++ c.writeBuffer = text

/-- **The reply of the connection `id` is settled**: it hears nothing more, and the CGI socket
that it has adopted, if any, has gone. -/
structure Settled (text : Bytes) (id : SocketId) (w : World) : Prop where
  lt : id < w.nextId
  begun : Begun text (actionsOf w.log id) (w.coreOf id)
  deaf : w.coreOf id ≠ none → Deaf w id
  adopted : ∀ g, .adopt g ∈ actionsOf w.log id → g < w.nextId ∧ w.heap g = none

section Steps

variable {w w' : World} {l : Label} {id : SocketId} {acts acts' : List Action}
  {s s' : Option Socket} {text : Bytes}

/-- A connection that is timed out sends the page of that, or nothing. -/
theorem handleTimeout_page (c : ClientSocket) (sends : List (Option Nat)) (date : Option Bytes) :
    sentBytes (c.handleTimeout sends date).actions <+: errorPage .kRequestTimeout date := by
  obtain ⟨res, hres, -⟩ := errorResponse_ok .kRequestTimeout
  rw [ClientSocket.handleTimeout, hres, errorPage_eq hres]
  dsimp only
  have hdel : sentBytes [.epollDel] = [] := rfl
  rw [sentBytes_append, hdel, List.append_nil]
  exact ⟨_, sentBytes_sendAll sends _⟩

/-- **A step in the life of a connection** whose reply is settled. -/
theorem Life.begun (hlife : Life w l id acts s acts' s') (hlt : id < w.nextId)
    (hl : ∀ id' ∈ w.replaced l, id' = id → sentBytes acts = []) (hdeaf : s ≠ none → Deaf w id)
    (howner : ∀ g t, w.heap g = some (.cgi t) → t.owner ≠ some id) (h : Begun text acts s) :
    Begun text acts' s' := by
  cases hlife with
  | same => exact h
  | gone => exact ⟨h.begins.imp_right fun hpage => ⟨rfl, hpage.2⟩, fun _ ht => (by cases ht)⟩
  | opened hid | accepted hid | started hid => exact absurd hid hlt.ne
  | @event acts c events rest time ans epollAdd hd hc hl' hs hh =>
      obtain ⟨c', hc', hwhole⟩ := h.rest _ rfl
      cases hc'
      have hwhole : sentBytes acts ++ c.writeBuffer = text := hwhole
      -- it is deaf, so the event can only send from the buffer
      have hsends := ClientSocket.handleEvent_sends_out
        ((hdeaf (Option.some_ne_none _)).epollIn hc) hh
      have hwhole' : sentBytes (acts ++ hd.actions) ++ hd.client.writeBuffer = text := by
        rw [sentBytes_append, List.append_assoc, hsends, hwhole]
      refine ⟨.inl ⟨_, hwhole'⟩, fun t ht => ?_⟩
      split_ifs at ht
      cases ht
      exact ⟨_, rfl, hwhole'⟩
  -- no program of this connection is left to answer it
  | @answered acts c g t events rest time ans cans hc hl' hg howner' => exact absurd howner' (howner g t hg)
  | @expired acts c now fd entries sends date hc hl' hs hout =>
      obtain ⟨c', hc', hwhole⟩ := h.rest _ rfl
      cases hc'
      refine ⟨?_, fun _ ht => (by cases ht)⟩
      rw [sentBytes_append]
      rcases haccepts : accepts sends with - | -
      · rw [(handleTimeout_sends c sends date).2 haccepts, List.append_nil]
        exact .inl ⟨_, hwhole⟩
      · -- a timeout that sends has found nothing sent
        have hnone : sentBytes acts = [] := by
          refine hl id ?_ rfl
          rw [hl', World.replaced, hc]
          dsimp only
          rw [hs]
          exact if_pos ⟨hout, haccepts⟩
        rw [hnone]
        exact .inr ⟨rfl, date, handleTimeout_page c sends date⟩
  | printed =>
      obtain ⟨c, hc, -⟩ := h.rest _ rfl
      cases hc
  | ended g =>
      obtain ⟨c, hc, -⟩ := h.rest _ rfl
      cases hc

/-- **No step unsettles a reply.** -/
theorem Settled.step (hloop : RunInv w) (hepoll : EpollInv w) (hlink : LinkInv w)
    (hl : NothingSent w l) (hst : w.step l = some w') (h : Settled text id w) :
    Settled text id w' := by
  have hlives := (step_lives hloop hst).2
  obtain ⟨w1, hturn, rfl⟩ := World.step_cases hst
  have hnext := turned_nextId hturn
  have hdead : ∀ {g : SocketId}, g < w.nextId → w.heap g = none → w1.heap g = none := by
    intro g hg hnone
    have hlife := hlives g
    rw [World.Lives, World.coreOf_eq_none.mpr hnone] at hlife
    exact World.coreOf_eq_none.mp (hlife.stays_dead hg)
  -- its program is gone, so nothing points to it
  have howner : ∀ g t, w.heap g = some (.cgi t) → t.owner ≠ some id := by
    intro g t hg ht
    have hchild : w.childOf id = some g := (hlink.linked id g).mpr ((World.ownerOf_of hg).trans ht)
    rw [(h.adopted g (hlink.adopted id g hchild)).2] at hg
    cases hg
  refine ⟨h.lt.trans_le hnext, ?_, fun hne => ?_, fun g hadopt => ?_⟩
  · exact (hlives id).begun h.lt (fun id' hid heq => heq ▸ hl id' hid) h.deaf howner h.begun
  · have hold : w.coreOf id ≠ none := fun hnone =>
      hne (World.coreOf_eq_none.mpr (hdead h.lt (World.coreOf_eq_none.mp hnone)))
    exact ((h.deaf hold).turned hloop.toLoopInv hepoll h.lt hturn).setClock _
  · obtain ⟨extra, hacts, hextra⟩ := (hlives id).grows
    have hold : .adopt g ∈ actionsOf w.log id := by
      have hadopt : .adopt g ∈ actionsOf w1.log id := hadopt
      have hacts : actionsOf w1.log id = actionsOf w.log id ++ extra := hacts
      rw [hacts] at hadopt
      refine (List.mem_append.mp hadopt).resolve_right fun hmem => ?_
      obtain hno | ⟨e, hd, he, rfl⟩ := hextra
      · exact hno.adopt_not_mem hmem
      · -- a connection that is deaf completes no request
        obtain ⟨events, rest, hcontrol, hcompleted, -⟩ := he.event
        have hin : events.epollIn = true := by
          rw [ClientSocket.completed] at hcompleted
          by_contra hin
          rw [if_neg hin] at hcompleted
          cases hcompleted
        have hcore : w.coreOf id ≠ none := by
          rw [World.coreOf_of he.heap]
          exact Option.some_ne_none _
        rw [(h.deaf hcore).epollIn hcontrol] at hin
        cases hin
    obtain ⟨hlt, hnone⟩ := h.adopted g hold
    exact ⟨hlt.trans_le hnext, hdead hlt hnone⟩

/-- **A settled reply is settled for good.** -/
theorem Settled.later (h : Settled text id w) (hw : World.Reachable w)
    (hlater : Transition.Reachable World.step NothingSent (· = w) w') : Settled text id w' := by
  apply hlater.invariant_under (fun w' hw' => hw.later hw' fun _ _ _ => trivial)
  · rintro _ rfl
    exact h
  · intro w l w' hw _ h hl hst
    exact h.step (reachable_runInv hw) (reachable_epollInv hw) (reachable_linkInv hw) hl hst

end Steps

/-! ### The reply to an input -/

/-- What has been sent while a connection still listens: nothing. -/
def Quiet (w : World) (id : SocketId) : Prop :=
  w.coreOf id ≠ none → sentBytes (actionsOf w.log id) ≠ [] → Deaf w id

section Quiet

variable {w w' : World} {l : Label} {id : SocketId} {acts acts' : List Action}
  {s s' : Option Socket}

theorem Life.quiet (hlife : Life w l id acts s acts' s') (hw : EpollInv w)
    (h : s ≠ none → sentBytes acts ≠ [] → Deaf w id) (hs' : s' ≠ none)
    (hsent : sentBytes acts' ≠ []) : s ≠ none ∧ Deaf w id := by
  cases hlife with
  | same => exact ⟨hs', h hs' hsent⟩
  | gone | expired | ended => exact absurd rfl hs'
  | opened | accepted | started => exact absurd rfl hsent
  | @event acts c events rest time ans epollAdd hd hc hl hs hh =>
      refine ⟨Option.some_ne_none _, ?_⟩
      rcases hout : events.epollOut with - | -
      · rw [sentBytes_append, (ClientSocket.handleEvent_sends_in hout hh).1, List.append_nil] at hsent
        exact h (Option.some_ne_none _) hsent
      · exact (hw.deaf_of_out hc hout).1
  | @answered acts c g t events rest time ans cans =>
      rw [sentBytes_append, sentBytes_answer, List.append_nil] at hsent
      exact ⟨Option.some_ne_none _, h (Option.some_ne_none _) hsent⟩
  | printed hwrite hacts =>
      rw [sentBytes_append, sentBytes_of_isCgi hacts, List.append_nil] at hsent
      exact ⟨Option.some_ne_none _, h (Option.some_ne_none _) hsent⟩

/-- **A connection that still listens has sent nothing.** -/
theorem reachable_quiet (h : World.Reachable w) (id : SocketId) : Quiet w id := by
  apply h.invariant_under (I := (Quiet · id)) (fun w hw => (⟨reachable_runInv hw,
    reachable_epollInv hw⟩ : RunInv w ∧ EpollInv w))
  · rintro w ⟨configs, open_, clock, rfl⟩ _ hsent
    exact absurd rfl hsent
  · intro w l w' hw _ h _ hst hne hsent
    have hlives := (step_lives hw.1 hst).2 id
    obtain ⟨w1, hturn, rfl⟩ := World.step_cases hst
    obtain ⟨hne, hdeaf⟩ := hlives.quiet hw.2 h hne hsent
    obtain ⟨s, hs⟩ := Option.ne_none_iff_exists'.mp fun hnone => hne (World.coreOf_eq_none.mpr hnone)
    exact (hdeaf.turned hw.1.toLoopInv hw.2 (hw.1.lt hs) hturn).setClock _

end Quiet

/-- **The reply to an input**, if there is one and `EPOLL_CTL_MOD` succeeds: the response to a
request that is complete and has started no program, or the page of the error with which `Parse`
refuses the input before the request is complete. -/
def ClientSocket.reply (c : ClientSocket) (ans : ClientSocket.Answers) : Option Bytes :=
  match ans.recv with
  | none | some [] => none
  | some (b :: bs) =>
      match (HttpRequest.parse ((b :: bs).take kBufferSize)).run c.req with
      | .ok _ req =>
          let result := (RequestHandler.run ans.sys c.config req).1
          if req.state = .kDone ∧ result.isAsync = false ∧ ans.epollMod = none then
            some (result.response.toHttpString ans.date)
          else none
      | .error (.responseStatus status) _ =>
          if c.req.state ≠ .kDone ∧ ans.epollModError = true then
            some (errorPage status ans.dateError)
          else none
      | .error _ _ => none

/-- Where a reply comes from. -/
inductive ClientSocket.Replies (c : ClientSocket) (ans : ClientSocket.Answers) : Bytes → Prop
  | answered {data : Bytes} {req : HttpRequest} (hdata : ans.Gives data)
      (hparse : (HttpRequest.parse data).run c.req = .ok () req) (hstate : req.state = .kDone)
      (hsync : (RequestHandler.run ans.sys c.config req).1.isAsync = false)
      (hmod : ans.epollMod = none) :
      c.Replies ans ((RequestHandler.run ans.sys c.config req).1.response.toHttpString ans.date)
  | refused {data : Bytes} {req : HttpRequest} {status : Status} (hopen : c.req.state ≠ .kDone)
      (hdata : ans.Gives data)
      (hparse : (HttpRequest.parse data).run c.req = .error (.responseStatus status) req)
      (hmod : ans.epollModError = true) : c.Replies ans (errorPage status ans.dateError)

section Input

variable {w w' : World} {l : Label} {id newId : SocketId} {events : Events} {c : ClientSocket}
  {ans : ClientSocket.Answers} {hd : ClientSocket.Handled} {text : Bytes}

theorem ClientSocket.reply_cases (h : c.reply ans = some text) : c.Replies ans text := by
  rw [reply] at h
  rcases hrecv : ans.recv with - | - | ⟨b, bs⟩
  · rw [hrecv] at h
    cases h
  · rw [hrecv] at h
    cases h
  rw [hrecv] at h
  dsimp only at h
  have hdata : ans.Gives ((b :: bs).take kBufferSize) := ⟨b, bs, hrecv, rfl⟩
  rcases hparse : (HttpRequest.parse ((b :: bs).take kBufferSize)).run c.req with
    ⟨u, req⟩ | ⟨e, req⟩
  · rw [hparse] at h
    dsimp only at h
    split_ifs at h with hcond
    cases h
    exact .answered hdata hparse hcond.1 hcond.2.1 hcond.2.2
  · rw [hparse] at h
    cases e with
    | responseStatus status =>
        dsimp only at h
        split_ifs at h with hcond
        cases h
        exact .refused hcond.1 hdata hparse hcond.2
    | _ => cases h

/-- `HandleEpollIn`, for what `recv` has given. -/
theorem handleEpollIn_gives {data : Bytes} (hdata : ans.Gives data) (h : ClientSocket.Handled) :
    (ClientSocket.handleEpollIn id newId ans).run h =
      match (HttpRequest.parse data).run h.client.req with
      | .error e req => .error e ((h.did (.recv data)).setReq req)
      | .ok _ req =>
          if req.state = .kDone then
            (ClientSocket.respond id newId ans).run ((h.did (.recv data)).setReq req)
          else .ok () ((h.did (.recv data)).setReq req) := by
  obtain ⟨b, bs, hrecv, rfl⟩ := hdata
  rw [ClientSocket.handleEpollIn, hrecv]
  dsimp only
  simp only [EStateM.run_bind, EStateM.run_modify, EStateM.run_get]
  have hreq : (h.did (.recv ((b :: bs).take kBufferSize))).client.req = h.client.req := rfl
  rw [hreq]
  rcases (HttpRequest.parse ((b :: bs).take kBufferSize)).run h.client.req with ⟨u, req⟩ | ⟨e, req⟩
  · dsimp only
    simp only [EStateM.run_bind, EStateM.run_modify]
    split_ifs
    · rfl
    · rfl
  · rfl

/-- `HandleEpollIn` behind a run that has started no program. -/
theorem respond_sync (h : ClientSocket.Handled)
    (hsync : (RequestHandler.run ans.sys h.client.config h.client.req).1.isAsync = false)
    (hmod : ans.epollMod = none) :
    (ClientSocket.respond id newId ans).run h = .ok () (({ h with
      actions := h.actions ++ Action.runHandler h.client.req ::
        (RequestHandler.run ans.sys h.client.config h.client.req).2 }.setWriteBuffer
        ((RequestHandler.run ans.sys h.client.config h.client.req).1.response.toHttpString ans.date)).did
          (.epollMod EPOLLOUT)) := by
  rw [ClientSocket.respond]
  simp only [EStateM.run_bind, EStateM.run_get, EStateM.run_set, EStateM.run_modify, hsync, hmod]
  rfl

/-- What the handler leaves of a reply. -/
theorem ClientSocket.Replies.handled (h : c.Replies ans text) (hin : events.epollIn = true)
    (hout : events.epollOut = false) (hh : c.handleEvent id newId events ans = some hd) :
    hd.removeSocket = false ∧ hd.client.writeBuffer = text ∧ .epollMod EPOLLOUT ∈ hd.actions ∧
      ∀ g, .adopt g ∉ hd.actions := by
  have hevents : handleEvents id newId events ans = handleEpollIn id newId ans := by
    rw [handleEvents_eq, hin, hout]
    exact bind_pure _
  have hmem (actions : List Action) : Action.epollMod EPOLLOUT ∈ actions ++ [Action.epollMod EPOLLOUT] :=
    List.mem_append_right actions (List.mem_singleton_self (Action.epollMod EPOLLOUT))
  rw [handleEvent, hevents] at hh
  cases h with
  | @answered data req hdata hparse hstate hsync hmod =>
      -- the parser comes to the end of the request, and the handler answers at once
      have hrun : (handleEpollIn id newId ans).run { client := c.touch ans.now } =
          (respond id newId ans).run
            ((Handled.did { client := c.touch ans.now } (.recv data)).setReq req) := by
        rw [handleEpollIn_gives hdata]
        have hparse : (HttpRequest.parse data).run (c.touch ans.now).req = .ok () req := hparse
        dsimp only
        rw [hparse]
        exact if_pos hstate
      have hrespond := @respond_sync id newId ans
        ((Handled.did { client := c.touch ans.now } (.recv data)).setReq req) hsync hmod
      rw [hrun, hrespond] at hh
      dsimp only at hh
      obtain rfl := Option.some.inj hh
      refine ⟨rfl, rfl, hmem _, fun g hg => ?_⟩
      obtain hg | hg := List.mem_append.mp hg
      · obtain hg | hg := List.mem_append.mp hg
        · cases List.mem_singleton.mp hg
        · obtain hg | hg := List.mem_cons.mp hg
          · cases hg
          · cases requestHandler_isEffect _ _ _ _ hg
      · cases List.mem_singleton.mp hg
  | @refused data req status hopen hdata hparse hmod =>
      have hrun : (handleEpollIn id newId ans).run { client := c.touch ans.now } =
          .error (.responseStatus status)
            ((Handled.did { client := c.touch ans.now } (.recv data)).setReq req) := by
        rw [handleEpollIn_gives hdata]
        have hparse : (HttpRequest.parse data).run (c.touch ans.now).req =
            .error (.responseStatus status) req := hparse
        dsimp only
        rw [hparse]
      obtain ⟨res, hres, -⟩ := errorResponse_ok status
      rw [hrun] at hh
      dsimp only at hh
      rw [hres] at hh
      dsimp only at hh
      rw [refuse, hmod] at hh
      cases hh
      refine ⟨rfl, (errorPage_eq hres).symm, hmem _, fun g hg => ?_⟩
      obtain hg | hg := List.mem_append.mp hg
      · cases List.mem_singleton.mp hg
      · cases List.mem_singleton.mp hg

theorem ClientSocket.Replies.not_done (h : c.Replies ans text) : c.req.state ≠ .kDone := by
  cases h with
  | answered hdata hparse => exact not_done_of_parse hparse
  | refused hopen => exact hopen

/-- **An input that is replied to** settles the reply. -/
theorem input_settles {rest : List (SocketId × Events)} {time : Int} {epollAdd : Bool}
    (h : World.Reachable w) (hc : w.control = .handling ((id, events) :: rest))
    (hs : w.heap id = some (.client c)) (hin : events.epollIn = true)
    (hreply : c.reply ans = some text)
    (hst : w.step (.clientEvent time ans epollAdd) = some w') : Settled text id w' := by
  have hreply := ClientSocket.reply_cases hreply
  have hloop := reachable_runInv h
  have hepoll := reachable_epollInv h
  -- it waits for input still, so it is not asked to write
  have hout : events.epollOut = false := by
    rcases hevent : events.epollOut with - | -
    · rfl
    · rw [(hepoll.deaf_of_out hc hevent).2] at hin
      cases hin
  obtain ⟨w1, hturn, rfl⟩ := World.step_cases hst
  have hturned := hturn
  have hnext := turned_nextId hturn
  cases hturn with
  | @handles _ id' events' rest' s _ w1 hc' hs' hevent =>
      rw [hc] at hc'
      cases hc'
      rw [hs] at hs'
      cases hs'
      cases hevent with
      | client hevent =>
          obtain ⟨hd, -, hhd, rfl⟩ := World.clientEvent_cases hevent
          obtain ⟨hremove, hbuffer, hmod, hadopt⟩ := hreply.handled hin hout hhd
          obtain ⟨after, hlog, hafter⟩ :=
            clientHandled_log (w.note (.dispatched id time)) id c.fd hd epollAdd
          have hacts : actionsOf ((w.note (.dispatched id time)).clientHandled id c.fd hd
              epollAdd).log id = actionsOf w.log id ++ hd.actions := by
            rw [actionsOf_did hlog hafter, if_pos rfl, World.log_note, actionsOf_append]
            exact congrArg (· ++ hd.actions) (List.append_nil _)
          have hcore : ((w.note (.dispatched id time)).clientHandled id c.fd hd epollAdd).coreOf id =
              some (Socket.client hd.client).core := by
            have hself := (@clientHandled_core (w.note (.dispatched id time)) id c.fd hd epollAdd
              (hloop.lt hs).ne).1
            rw [hself, hremove]
            rfl
          have hcoreOld : w.coreOf id = some (Socket.client c).core := World.coreOf_of hs
          -- who has sent anything hears nothing any more
          have hnone : sentBytes (actionsOf w.log id) = [] := by
            by_contra hne
            have hdeaf := reachable_quiet h id (by rw [hcoreOld]; exact Option.some_ne_none _) hne
            rw [hdeaf.epollIn hc] at hin
            cases hin
          have hsent : sentBytes (actionsOf w.log id ++ hd.actions) = [] := by
            rw [sentBytes_append, hnone, (ClientSocket.handleEvent_sends_in hout hhd).1]
            rfl
          -- the request is not complete before this event, so no handler has run
          have hno : NoHandler (actionsOf w.log id) := by
            have hrecorded := reachable_recorded h id
            rw [hcoreOld] at hrecorded
            exact hrecorded.noHandler _ rfl hreply.not_done
          refine ⟨(hloop.lt hs).trans_le hnext, ⟨?_, fun t ht => ?_⟩, fun _ => ?_, fun g hg => ?_⟩
          · refine .inl ?_
            show sentBytes (actionsOf ((w.note (.dispatched id time)).clientHandled id c.fd hd
              epollAdd).log id) <+: text
            rw [hacts, hsent]
            exact List.nil_prefix
          · have ht : ((w.note (.dispatched id time)).clientHandled id c.fd hd epollAdd).coreOf id =
                some t := ht
            rw [hcore] at ht
            cases ht
            refine ⟨_, rfl, ?_⟩
            show sentBytes (actionsOf ((w.note (.dispatched id time)).clientHandled id c.fd hd
              epollAdd).log id) ++ hd.client.writeBuffer = text
            rw [hacts, hsent, hbuffer]
            rfl
          · exact (turned_deaf hepoll hturned rfl hc hs hhd hmod).setClock _
          · have hg : .adopt g ∈ actionsOf ((w.note (.dispatched id time)).clientHandled id c.fd hd
              epollAdd).log id := hg
            rw [hacts] at hg
            obtain hg | hg := List.mem_append.mp hg
            · exact absurd hg hno.adopt_not_mem
            · exact absurd hg (hadopt g)

end Input

/-! ### The reply to the end of a program -/

section Program

variable {w w' : World} {id gid : SocketId} {events : Events} {g : CgiSocket}
  {ans : CgiSocket.Answers} {cans : ClientSocket.CgiAnswers}

/-- What is handed over concerns the CGI socket only. -/
theorem handedOver_objects (w : World) (gid owner : SocketId) (outcome : CgiOutcome) :
    (w.handedOver gid owner outcome).coreOf = w.coreOf ∧ ∀ id, id ≠ gid →
      actionsOf (w.handedOver gid owner outcome).log id = actionsOf w.log id := by
  cases outcome with
  | error => exact ⟨rfl, fun _ _ => rfl⟩
  | finished output =>
      refine ⟨rfl, fun id hne => ?_⟩
      have hlog : (w.handedOver gid owner (.finished output)).log =
          w.log ++ [Action.handOver owner output].map (.acted gid) := rfl
      rw [hlog, actionsOf_append, actionsOf_acted, if_neg (Ne.symm hne), List.append_nil]

/-- What is left of the owner behind the end of its program. -/
theorem told_objects {fd fd' : Fd} {c : ClientSocket} {acts : List Action} {hd : CgiSocket.Handled}
    {outcome : CgiOutcome} (hne : id ≠ gid)
    (hw' : w' = ((((w.cgiHandled gid fd hd).handedOver gid id outcome).put id
      (.client c)).perform id fd' acts).remove gid fd) :
    w'.coreOf gid = none ∧ w'.coreOf id = some (Socket.client c).core ∧
      actionsOf w'.log id = actionsOf w.log id ++ acts := by
  obtain ⟨hcore, hacts⟩ := handedOver_objects (w.cgiHandled gid fd hd) gid id outcome
  have hdel : actionsOf [Entry.deleted gid] id = [] := rfl
  subst hw'
  refine ⟨?_, ?_, ?_⟩
  · rw [World.coreOf_remove, Function.update_self]
  · rw [World.coreOf_remove, Function.update_of_ne hne, World.coreOf_perform, World.coreOf_put,
      Function.update_self]
  · rw [World.log_remove, actionsOf_append, hdel, List.append_nil, World.log_perform,
      World.log_put, actionsOf_append, actionsOf_acted, if_pos rfl, hacts id hne,
      (cgiHandled_objects w gid fd hd).1, actionsOf_append, actionsOf_acted, if_neg hne.symm,
      List.append_nil]

/-- **A program that ends** settles the reply of its owner, if this one has sent nothing and no
input of it waits in the same batch. -/
theorem program_settles {rest : List (SocketId × Events)} {time : Int} (h : World.Reachable w)
    (hc : w.control = .handling ((gid, events) :: rest)) (hg : w.heap gid = some (.cgi g))
    (howner : g.owner = some id) (hend : World.CgiEnds events ans) (hreg : ans.registered = true)
    (hmod : cans.epollMod = true) (hsent : sentBytes (actionsOf w.log id) = [])
    (hquiet : ∀ e ∈ rest, e.1 = id → e.2.epollIn = false)
    (hst : w.step (.cgiEvent time ans cans) = some w') :
    Settled (g.reply ans.exitedZero cans.date) id w' := by
  have hloop := reachable_runInv h
  have hepoll := reachable_epollInv h
  have hlink := reachable_linkInv h
  have hadopted : .adopt gid ∈ actionsOf w.log id :=
    hlink.adopted id gid ((hlink.linked id gid).mpr ((World.ownerOf_of hg).trans howner))
  obtain ⟨w1, hturn, rfl⟩ := World.step_cases hst
  have hnext := turned_nextId hturn
  cases hturn with
  | @handles _ id' events' rest' s _ w1 hc' hs' hevent =>
      rw [hc] at hc'
      cases hc'
      rw [hg] at hs'
      cases hs'
      cases hevent with
      | cgi hevent =>
          have hnote : SameObjects w (w.note (.dispatched gid time)) := note_same rfl
          have hlisted : Listed (w.note (.dispatched gid time)) := by
            refine ((hepoll.listed ?_).of_kernel hnote rfl).1
            rw [hc]
            exact Control.noConfusion
          have hg1 : (w.note (.dispatched gid time)).heap gid = some (.cgi g) := hg
          obtain ⟨hd, c, hcases, hclient, rfl⟩ := cgiEvent_ends hend hreg howner hevent
          -- the program is a socket of its own beside the connection
          have hne : id ≠ gid := by
            rintro rfl
            rw [(cgiHandled_objects _ id g.fd hd).2, Function.update_self] at hclient
            cases hclient
          obtain ⟨res, ⟨-, hres⟩, hnotify⟩ := World.notify_eq
            ((w.note (.dispatched gid time)).cgiHandled gid g.fd hd) gid g.fd g ans.exitedZero cans id c
          generalize hw2 : (((w.note (.dispatched gid time)).cgiHandled gid g.fd hd).notify gid g.fd
            (World.outcomeOf g ans.exitedZero) cans id c).remove gid g.fd = w2 at hevent hnext ⊢
          rw [hnotify] at hw2
          obtain ⟨hgone, hcore, hacts⟩ := told_objects hne hw2.symm
          have hout := cgiEvent_tells hlisted hg1 howner hevent hreg hmod
            (by rw [hend.2]; exact g.readBuffer_le) (World.coreOf_eq_none.mp hgone)
          have hold : actionsOf (w.note (.dispatched gid time)).log id = actionsOf w.log id := by
            rw [World.log_note, actionsOf_append]
            exact List.append_nil _
          rw [hold] at hacts
          -- the answer fills the buffer and sends nothing
          have hnone : sentBytes (actionsOf w.log id ++ (c.answer res cans).actions) = [] := by
            rw [sentBytes_append, hsent, sentBytes_answer]
            rfl
          have hlt : id < w.nextId := by
            have hclient' : (w.note (.dispatched gid time)).heap id = some (.client c) := by
              rw [(cgiHandled_objects _ gid g.fd hd).2, Function.update_of_ne hne] at hclient
              exact hclient
            exact hloop.lt hclient'
          refine ⟨hlt.trans_le hnext, ⟨.inl ?_, fun t ht => ?_⟩, fun _ _ => ⟨hout, fun e he hown => ?_⟩,
            fun g' hg' => ?_⟩
          · show sentBytes (actionsOf w2.log id) <+: _
            rw [hacts, hnone]
            exact List.nil_prefix
          · have ht : w2.coreOf id = some t := ht
            rw [hcore] at ht
            cases ht
            refine ⟨_, rfl, ?_⟩
            show sentBytes (actionsOf w2.log id) ++ res.toHttpString cans.date = _
            rw [hacts, hnone, hres]
            rfl
          · have he : e ∈ (World.nextTurn .handling Control.top rest).events := he
            rw [Control.events_handling] at he
            exact hquiet e he hown
          · -- the one program that the connection has started
            have hg' : .adopt g' ∈ actionsOf w2.log id := hg'
            rw [hacts] at hg'
            have hg' : .adopt g' ∈ actionsOf w.log id := (List.mem_append.mp hg').resolve_right
              fun hmem => (noHandler_answer c res cans).adopt_not_mem hmem
            obtain hno | ⟨sys, config, req, cgi, hserved⟩ := (reachable_recorded h id).history
            · exact absurd hadopted hno.adopt_not_mem
            · have hsame : some gid = some g' :=
                (hserved.adopt_mem.mp hadopted).symm.trans (hserved.adopt_mem.mp hg')
              cases hsame
              exact ⟨(hloop.lt hg).trans_le hnext, World.coreOf_eq_none.mp hgone⟩

end Program

/-! ### Runs -/

section Runs

variable {w w' : World} {id : SocketId} {text : Bytes}

/-- What a connection sends whose reply is settled. -/
theorem Settled.sends (h : Settled text id w) :
    (sentBytes (actionsOf w.log id) <+: text ∨ w.heap id = none ∧ ∃ date,
      sentBytes (actionsOf w.log id) <+: errorPage .kRequestTimeout date) ∧
    ∀ c, w.heap id = some (.client c) → sentBytes (actionsOf w.log id) ++ c.writeBuffer = text := by
  refine ⟨h.begun.begins.imp_right fun ⟨hnone, hpage⟩ => ⟨World.coreOf_eq_none.mp hnone, hpage⟩, ?_⟩
  intro c hc
  obtain ⟨c', hc', hwhole⟩ := h.begun.rest _ (coreOf_client hc)
  cases hc'
  exact hwhole

/-- **A connection sends the reply to its own input.**  When an input has completed a request that
starts no program, or has been refused, then whatever the rest of the run is, what the connection
has sent is the beginning of the response to it; only a timeout that finds nothing sent may
send its own page instead. -/
theorem sendsReply {events : Events} {rest : List (SocketId × Events)} {c : ClientSocket} {time : Int}
    {ans : ClientSocket.Answers} {epollAdd : Bool} {w1 : World} (h : World.Reachable w)
    (hc : w.control = .handling ((id, events) :: rest)) (hs : w.heap id = some (.client c))
    (hin : events.epollIn = true) (hreply : c.reply ans = some text)
    (hst : w.step (.clientEvent time ans epollAdd) = some w1)
    (hlater : Transition.Reachable World.step NothingSent (· = w1) w') :
    (sentBytes (actionsOf w'.log id) <+: text ∨ w'.heap id = none ∧ ∃ date,
      sentBytes (actionsOf w'.log id) <+: errorPage .kRequestTimeout date) ∧
    ∀ c', w'.heap id = some (.client c') → sentBytes (actionsOf w'.log id) ++ c'.writeBuffer = text :=
  ((input_settles h hc hs hin hreply hst).later (.next h trivial hst) hlater).sends

/-- **A connection sends what its own program has printed.**  When the program that it has started
has ended, and nothing has been sent and no further input is waiting, then whatever the rest of
the run is, what it has sent is the beginning of the response that is read from the output. -/
theorem sendsOutput {gid : SocketId} {events : Events} {rest : List (SocketId × Events)} {g : CgiSocket}
    {time : Int} {ans : CgiSocket.Answers} {cans : ClientSocket.CgiAnswers} {w1 : World}
    (h : World.Reachable w) (hc : w.control = .handling ((gid, events) :: rest))
    (hg : w.heap gid = some (.cgi g)) (howner : g.owner = some id)
    (hend : World.CgiEnds events ans) (hreg : ans.registered = true) (hmod : cans.epollMod = true)
    (hsent : sentBytes (actionsOf w.log id) = [])
    (hquiet : ∀ e ∈ rest, e.1 = id → e.2.epollIn = false)
    (hst : w.step (.cgiEvent time ans cans) = some w1)
    (hlater : Transition.Reachable World.step NothingSent (· = w1) w') :
    .adopt gid ∈ actionsOf w.log id ∧
    (sentBytes (actionsOf w'.log id) <+: g.reply ans.exitedZero cans.date ∨
      w'.heap id = none ∧ ∃ date,
        sentBytes (actionsOf w'.log id) <+: errorPage .kRequestTimeout date) ∧
    ∀ c', w'.heap id = some (.client c') →
      sentBytes (actionsOf w'.log id) ++ c'.writeBuffer = g.reply ans.exitedZero cans.date := by
  have hlink := reachable_linkInv h
  have hadopted : .adopt gid ∈ actionsOf w.log id :=
    hlink.adopted id gid ((hlink.linked id gid).mpr ((World.ownerOf_of hg).trans howner))
  have hsettled := program_settles h hc hg howner hend hreg hmod hsent hquiet hst
  exact ⟨hadopted, (hsettled.later (.next h trivial hst) hlater).sends⟩

end Runs

/-! ### Two runs -/

/-- The reply to an input for this socket. -/
def Socket.replyTo (ans : ClientSocket.Answers) : Socket → Option Bytes
  | .client c => c.reply ans
  | _ => none

/-- A client asks for a file, -/
def fileRun : List Label :=
  [.openServer (some 4) 0 true, .checkTimeout 0, .visit [] none,
    .epollWait (some [(⟨4, 1, 0, EPOLLIN⟩, EPOLLIN)]), .serverEvent 0 ⟨some (5, 0), none, 0⟩ true,
    .checkTimeout 0, .visit [] none, .visit [] none,
    .epollWait (some [(⟨5, 2, 1, EPOLLIN⟩, EPOLLIN)])]

/-- with this request, -/
def fileInput : ClientSocket.Answers :=
  ⟨0, some (bytes "GET /a HTTP/1.1\r\nHost: a\r\n\r\n"), sampleSys, none, true, none, none, none⟩

/-- and nine bytes of the response are sent. -/
def fileOutput : List Label :=
  [.checkTimeout 0, .visit [] none, .visit [] none,
    .epollWait (some [(⟨5, 2, 1, EPOLLOUT⟩, EPOLLOUT)]),
    .clientEvent 0 ⟨0, none, sampleSys, none, true, some 9, none, none⟩ true]

/-- The bytes that are sent are the first ones of the response. -/
theorem sendsReply_fileRun : ∃ w w1 w' : World,
    Transition.run World.step (World.start [uploadConfig] [3] 0) fileRun = some w ∧
      w.step (.clientEvent 0 fileInput true) = some w1 ∧
      Transition.run World.step w1 fileOutput = some w' ∧
      sentBytes (actionsOf w'.log 1) = bytes "HTTP/1.1 " ∧
      (sentBytes (actionsOf w'.log 1) <+: bytes
          "HTTP/1.1 200 OK\r\ncontent-length: 0\r\ncontent-type: application/octet-stream\r\n\r\n" ∨
        w'.heap 1 = none ∧ ∃ date,
          sentBytes (actionsOf w'.log 1) <+: errorPage .kRequestTimeout date) := by
  have hstate : (Transition.run World.step (World.start [uploadConfig] [3] 0) fileRun).map
      (fun w => (w.control.events, (w.heap 1).bind (Socket.replyTo fileInput))) =
        some ([(1, EPOLLIN)], some (bytes
          "HTTP/1.1 200 OK\r\ncontent-length: 0\r\ncontent-type: application/octet-stream\r\n\r\n")) := by
    decide +kernel
  have hnext : ((Transition.run World.step (World.start [uploadConfig] [3] 0) fileRun).bind fun w =>
      w.step (.clientEvent 0 fileInput true)).map
        (fun w1 => (decide (Transition.Along World.step NothingSent w1 fileOutput),
          (Transition.run World.step w1 fileOutput).map fun w => sentBytes (actionsOf w.log 1))) =
        some (true, some (bytes "HTTP/1.1 ")) := by
    decide +kernel
  obtain ⟨w, hw, hpair⟩ := Option.map_eq_some_iff.mp hstate
  obtain ⟨hevents, hreply⟩ := Prod.mk.inj hpair
  obtain ⟨s, hs, hreply⟩ := Option.bind_eq_some_iff.mp hreply
  rw [hw, Option.bind_some] at hnext
  obtain ⟨w1, hst, hpair⟩ := Option.map_eq_some_iff.mp hnext
  obtain ⟨halong, hrest⟩ := Prod.mk.inj hpair
  obtain ⟨w', hw', hsent⟩ := Option.map_eq_some_iff.mp hrest
  have hcontrol : w.control = .handling [(1, EPOLLIN)] := by
    rcases hc : w.control with _ | _ | _ | _ | events | _
    all_goals rw [hc] at hevents
    all_goals cases hevents
    rfl
  cases s with
  | server => cases hreply
  | cgi => cases hreply
  | client c =>
      have hreply : c.reply fileInput = some (bytes
          "HTTP/1.1 200 OK\r\ncontent-length: 0\r\ncontent-type: application/octet-stream\r\n\r\n") :=
        hreply
      have hsends := sendsReply (.run (.start ⟨_, _, _, rfl⟩) hw) hcontrol hs rfl hreply hst
        (.run_along (.start rfl) (of_decide_eq_true halong) hw')
      exact ⟨w, w1, w', hw, hst, hw', hsent, hsends.1⟩

/-- The nine bytes of what the program of `printRun` has printed. -/
def printOutput : List Label :=
  [.checkTimeout 0, .visit [] none, .visit [] none,
    .epollWait (some [(⟨5, 2, 1, EPOLLOUT⟩, EPOLLOUT)]),
    .clientEvent 0 ⟨0, none, sampleSys, none, true, some 9, none, none⟩ true]

/-- What the owner of this socket sends when its program has ended well. -/
def Socket.printed : Socket → Option (Option SocketId × Bytes)
  | .cgi g => some (g.owner, g.reply true none)
  | _ => none

theorem sendsOutput_printRun : ∃ w w1 w' : World,
    Transition.run World.step (World.start [sampleConfig] [3] 0) (printRun.take 21) = some w ∧
      w.step (.cgiEvent 0 ⟨some [], true, true⟩ ⟨0, none, true⟩) = some w1 ∧
      Transition.run World.step w1 printOutput = some w' ∧
      sentBytes (actionsOf w'.log 1) = bytes "HTTP/1.1 " ∧
      (sentBytes (actionsOf w'.log 1) <+: bytes
          "HTTP/1.1 200 OK\r\ncontent-length: 1\r\ncontent-type: a\r\n\r\nb" ∨
        w'.heap 1 = none ∧ ∃ date,
          sentBytes (actionsOf w'.log 1) <+: errorPage .kRequestTimeout date) := by
  have hstate : (Transition.run World.step (World.start [sampleConfig] [3] 0) (printRun.take 21)).map
      (fun w => (w.control.events, (w.heap 2).bind Socket.printed, sentBytes (actionsOf w.log 1))) =
        some ([(2, EPOLLIN)], some (some 1, bytes
          "HTTP/1.1 200 OK\r\ncontent-length: 1\r\ncontent-type: a\r\n\r\nb"), []) := by
    decide +kernel
  have hnext : ((Transition.run World.step (World.start [sampleConfig] [3] 0)
      (printRun.take 21)).bind fun w => w.step (.cgiEvent 0 ⟨some [], true, true⟩ ⟨0, none, true⟩)).map
        (fun w1 => (decide (Transition.Along World.step NothingSent w1 printOutput),
          (Transition.run World.step w1 printOutput).map fun w => sentBytes (actionsOf w.log 1))) =
        some (true, some (bytes "HTTP/1.1 ")) := by
    decide +kernel
  obtain ⟨w, hw, hpair⟩ := Option.map_eq_some_iff.mp hstate
  obtain ⟨hevents, hpair⟩ := Prod.mk.inj hpair
  obtain ⟨hprinted, hnone⟩ := Prod.mk.inj hpair
  obtain ⟨s, hs, hprinted⟩ := Option.bind_eq_some_iff.mp hprinted
  rw [hw, Option.bind_some] at hnext
  obtain ⟨w1, hst, hpair⟩ := Option.map_eq_some_iff.mp hnext
  obtain ⟨halong, hrest⟩ := Prod.mk.inj hpair
  obtain ⟨w', hw', hsent⟩ := Option.map_eq_some_iff.mp hrest
  have hcontrol : w.control = .handling [(2, EPOLLIN)] := by
    rcases hc : w.control with _ | _ | _ | _ | events | _
    all_goals rw [hc] at hevents
    all_goals cases hevents
    rfl
  cases s with
  | server => cases hprinted
  | client => cases hprinted
  | cgi g =>
      obtain ⟨howner, hreply⟩ := Prod.mk.inj (Option.some.inj hprinted)
      have hreply : g.reply true none = bytes
          "HTTP/1.1 200 OK\r\ncontent-length: 1\r\ncontent-type: a\r\n\r\nb" := hreply
      have hsends := sendsOutput (.run (.start ⟨_, _, _, rfl⟩) hw) hcontrol hs howner ⟨rfl, rfl⟩ rfl rfl
        hnone (fun e he => absurd he List.not_mem_nil) hst
        (.run_along (.start rfl) (of_decide_eq_true halong) hw')
      rw [hreply] at hsends
      exact ⟨w, w1, w', hw, hst, hw', hsent, hsends.2.1⟩

end Webserv
