/-
Webserv/Responses.lean

What a connection sends is one response.

Only an `EPOLLOUT` sends, and from then on the connection hears nothing more.  Two writers
of `write_buffer_` do not ask what has been sent: a sweep that times the connection out, and
the end of its CGI program.
-/
import Webserv.Interest

namespace Webserv

/-- The bytes that an action sends. -/
def Action.sent : Action → Bytes
  | .send data => data
  | _ => []

/-- The bytes that a list of actions sends. -/
def sentBytes (acts : List Action) : Bytes := acts.flatMap Action.sent

/-- The text of a response. -/
def IsResponse (text : Bytes) : Prop :=
  ∃ (res : HttpResponse) (date : Option Bytes), res.HasVersion ∧ text = res.toHttpString date

/-- **What a connection sends is one response**: what any has sent begins one, and if a
connection has sent something, its `write_buffer_` is the rest. -/
structure SendsOne (w : World) : Prop where
  begins : ∀ id, ∃ text, IsResponse text ∧ sentBytes (actionsOf w.log id) <+: text
  rest : ∀ id c, w.heap id = some (.client c) → sentBytes (actionsOf w.log id) ≠ [] →
    IsResponse (sentBytes (actionsOf w.log id) ++ c.writeBuffer)

/-- From one state to another, the response of a connection that has sent a part of it stays the
same. -/
def KeepsRest (w w' : World) : Prop :=
  ∀ id c c', w.heap id = some (.client c) → w'.heap id = some (.client c') →
    sentBytes (actionsOf w.log id) ≠ [] →
    sentBytes (actionsOf w'.log id) ++ c'.writeBuffer = sentBytes (actionsOf w.log id) ++ c.writeBuffer

/-- The first `send` accepts something. -/
def accepts : List (Option Nat) → Bool
  | some (_ + 1) :: _ => true
  | _ => false

instance (events : Events) (ans : CgiSocket.Answers) : Decidable (World.CgiEnds events ans) :=
  inferInstanceAs (Decidable (_ ∧ _))

/-- The connection whose response is replaced from outside: it is timed out, and can send,
or its CGI program has ended. -/
def World.replaced (w : World) : Label → Option SocketId
  | .visit sends _ =>
      match w.control with
      | .sweeping now ((_, id) :: _) =>
          match w.heap id with
          | some (.client c) =>
              if c.isTimeout (now - kRequestTimeout) = true ∧ accepts sends = true then some id
              else none
          | _ => none
      | _ => none
  | .cgiEvent _ ans _ =>
      match w.control with
      | .handling ((id, events) :: _) =>
          match w.heap id with
          | some (.cgi g) =>
              if World.CgiEnds events ans ∧ ans.registered = true then g.owner else none
          | _ => none
      | _ => none
  | _ => none

/-- A response that is replaced has not been sent, not even in part. -/
def NothingSent (w : World) (l : Label) : Prop :=
  ∀ id ∈ w.replaced l, sentBytes (actionsOf w.log id) = []

instance (w : World) (l : Label) : Decidable (NothingSent w l) :=
  inferInstanceAs (Decidable (∀ id ∈ _, _))

/-! ### Actions -/

theorem sentBytes_append (acts acts' : List Action) :
    sentBytes (acts ++ acts') = sentBytes acts ++ sentBytes acts' := List.flatMap_append

theorem sentBytes_of_not_mem {acts : List Action} (h : ∀ data, .send data ∉ acts) :
    sentBytes acts = [] := by
  rw [sentBytes, List.flatMap_eq_nil_iff]
  intro a ha
  cases a with
  | send data => exact absurd ha (h data)
  | _ => rfl

theorem sentBytes_of_isCgi {acts : List Action} (h : ∀ a ∈ acts, a.isCgi = true) :
    sentBytes acts = [] := by
  apply sentBytes_of_not_mem
  intro data hmem
  cases h _ hmem

theorem sentBytes_answer (c : ClientSocket) (res : HttpResponse) (ans : ClientSocket.CgiAnswers) :
    sentBytes (c.answer res ans).actions = [] := by
  rw [ClientSocket.answer]
  dsimp only
  split_ifs
  · rfl
  · rfl

/-- What is sent and what is left. -/
theorem sentBytes_sendAll (sends : List (Option Nat)) (buffer : Bytes) :
    sentBytes (sendAll sends buffer).2 ++ (sendAll sends buffer).1 = buffer := by
  fun_induction sendAll sends buffer with
  | case1 | case2 | case3 => rfl
  | case4 n answers buffer hgo rest actions heq ih =>
      rw [heq] at ih
      have hcons : sentBytes (.send (buffer.take n) :: actions) =
          buffer.take n ++ sentBytes actions := List.flatMap_cons
      rw [hcons, List.append_assoc, ih, List.take_append_drop]

theorem sendAll_of_not_accepts {sends : List (Option Nat)} (h : accepts sends = false)
    (buffer : Bytes) : (sendAll sends buffer).2 = [] := by
  rcases sends with - | ⟨- | - | n, sends⟩
  · rfl
  · rfl
  · rw [sendAll, if_pos (.inr rfl)]
  · cases h

/-- A connection that is timed out sends the beginning of a response, or nothing. -/
theorem handleTimeout_sends (c : ClientSocket) (sends : List (Option Nat)) (date : Option Bytes) :
    (∃ text, IsResponse text ∧ sentBytes (c.handleTimeout sends date).actions <+: text) ∧
      (accepts sends = false → sentBytes (c.handleTimeout sends date).actions = []) := by
  obtain ⟨res, hversion, hres⟩ := ClientSocket.handleTimeout_eq c sends date
  have hsent : sentBytes (c.handleTimeout sends date).actions =
      sentBytes (sendAll sends (res.toHttpString date)).2 := by
    rw [hres, sentBytes_append]
    exact List.append_nil _
  rw [hsent]
  refine ⟨⟨_, ⟨res, date, hversion, rfl⟩, _, sentBytes_sendAll sends _⟩, fun h => ?_⟩
  rw [sendAll_of_not_accepts h]
  rfl

/-! ### The request handler -/

/-- The result of the program, if it returns one. -/
abbrev Returns {α : Type} (Q : α → Prop) (x : HandlerM α) : Prop :=
  EStateM.Triple (fun _ => True) x (fun a _ => Q a) fun _ _ => True

section Handler

variable {α : Type} {Q : α → Prop} {sys : Sys} {req : HttpRequest}

/-- What comes first does not matter. -/
theorem returns_after {β : Type} (x : HandlerM β) {k : β → HandlerM α} (h : ∀ b, Returns Q (k b)) :
    Returns Q (x >>= k) := by
  have hx : Returns (fun _ => True) x := by
    intro s _
    rcases x.run s with - | -
    · trivial
    · trivial
  exact hx.bind h

theorem returns_addHeader {res : HttpResponse} {key value : Bytes} {k : HttpResponse → HandlerM α}
    (hres : res.HasVersion) (h : ∀ res', res'.HasVersion → Returns Q (k res')) :
    Returns Q (addHeader res key value >>= k) := by
  have hx : Returns HttpResponse.HasVersion (Webserv.addHeader res key value) := by
    rw [Webserv.addHeader]
    rcases hadd : res.addHeader key value with e | res'
    · exact .throw fun _ _ => trivial
    · exact .pure fun _ _ => hres.addHeader hadd
  exact hx.bind fun res' s hres' => h res' hres' s trivial

/-- The response of the result has the version. -/
def ExecResult.HasVersion (result : ExecResult) : Prop := result.response.HasVersion

theorem returns_response {res : HttpResponse} (h : res.HasVersion) :
    Returns ExecResult.HasVersion (pure { response := res }) := .pure fun _ _ => h

theorem returns_fail (status : Status) : Returns Q (failHandler status) := .throw fun _ _ => trivial

theorem cgiRun_returns (cgi : CgiExecutor) : Returns ExecResult.HasVersion (cgi.run sys) := by
  rw [CgiExecutor.run]
  refine .ite (fun _ => returns_response rfl) fun _ => ?_
  rcases sys.socketpair with - | ⟨fd0, fd1⟩
  · exact returns_fail _
  · apply returns_after
    intro _
    rcases sys.fork with - | pid
    · exact returns_after _ fun _ => returns_after _ fun _ => returns_fail _
    · refine returns_after _ fun _ => returns_after _ fun _ => returns_after _ fun _ => ?_
      rcases CgiSocket.construct fd0 pid sys.fcntl sys.now with e | g
      · exact returns_after _ fun _ => .throw fun _ _ => trivial
      · refine .ite (fun _ => returns_after _ fun _ => ?_) fun _ => ?_
        · exact .pure fun _ _ => rfl
        · exact .pure fun _ _ => rfl

theorem rejectDirectory_returns : Returns ExecResult.HasVersion rejectDirectory :=
  returns_addHeader rfl fun _ h => returns_addHeader h fun _ h => returns_response h.ensureDefaultErrorContent

theorem handleMethod_returns (loc : Location) (path : Bytes) :
    Returns ExecResult.HasVersion (handleMethod sys req loc path) := by
  rw [handleMethod]
  cases req.method with
  | kGet =>
      refine returns_after _ fun path => .ite (fun _ => cgiRun_returns _) fun _ => returns_after _ fun _ => ?_
      exact returns_addHeader rfl fun res h => returns_response h
  | kPost =>
      refine .ite (fun _ => rejectDirectory_returns) fun _ => .ite (fun _ => rejectDirectory_returns)
        fun _ => .ite (fun _ => cgiRun_returns _) fun _ => returns_after _ fun _ => ?_
      exact .ite (fun _ => returns_fail _) fun _ => .ite (fun _ => returns_fail _)
        fun _ => returns_addHeader rfl fun _ h => returns_response h
  | kDelete =>
      refine returns_after _ fun _ => returns_after _ fun _ => ?_
      rcases sys.remove path with - | errno
      · exact returns_addHeader rfl fun _ h => returns_response h
      · exact returns_fail _
  | kNone | kHead | kUnknownMethod => exact returns_response rfl

/-- **Every response** of the request handler. -/
theorem requestHandler_hasVersion {conf : ServerConfig} {result : ExecResult}
    {actions : List Action} (hrun : RequestHandler.run sys conf req = (result, actions)) :
    result.response.HasVersion := by
  have hreturns : Returns ExecResult.HasVersion (handleRequest sys conf req) := by
    refine returns_after _ fun m => .ite (fun _ => ?_) fun _ => .ite (fun _ => ?_) fun _ =>
      handleMethod_returns _ _
    · rw [redirectTo]
      exact returns_addHeader rfl fun _ h => returns_response h
    · exact returns_addHeader rfl fun _ h => returns_addHeader h fun _ h => returns_addHeader h fun _ h =>
        returns_response h.ensureDefaultErrorContent
  have hres := hreturns [] trivial
  rw [RequestHandler.run] at hrun
  rcases h : (handleRequest sys conf req).run [] with ⟨result', actions'⟩ | ⟨e, actions'⟩
  · rw [h] at hres hrun
    cases hrun
    exact hres
  · rw [h] at hrun
    cases hrun
    cases e with
    | _ => rfl

end Handler

/-! ### Events -/

namespace ClientSocket

variable {c : ClientSocket} {self newId : SocketId} {events : Events} {ans : Answers}
  {hd : Handled} {r : EStateM.Result Exception Handled Unit}

/-- Reading sends nothing; a response is put into the buffer as a whole. -/
theorem InOutcome.sends (hr : InOutcome self newId ans { client := c } r) :
    (∀ data, .send data ∉ r.state.actions) ∧
      (r.state.client.writeBuffer = c.writeBuffer ∨ IsResponse r.state.client.writeBuffer) := by
  cases hr with
  | closed => exact ⟨fun data => List.not_mem_nil, .inl rfl⟩
  | refused | waits =>
      refine ⟨fun data hmem => ?_, .inl rfl⟩
      cases List.mem_singleton.mp hmem
  | answered hdata hparse hstate hrun hnew hactions =>
      refine ⟨fun data hmem => ?_, .inr ⟨_, _, requestHandler_hasVersion hrun, rfl⟩⟩
      obtain hmem | hmem := List.mem_append.mp hmem
      · exact ran_not_tail rfl (noProgram_not_tail hactions rfl) hmem
      · cases List.mem_singleton.mp hmem
  | unanswered hdata hparse hstate hrun hnew hactions =>
      exact ⟨fun data => ran_not_tail rfl (noProgram_not_tail hactions rfl),
        .inr ⟨_, _, requestHandler_hasVersion hrun, rfl⟩⟩
  | started =>
      refine ⟨fun data hmem => ?_, .inr ⟨.ofStatus .kOk, _, rfl, rfl⟩⟩
      obtain hmem | hmem := List.mem_append.mp hmem
      · exact ran_not_tail rfl (started_not_tail rfl) hmem
      · cases List.mem_singleton.mp hmem

/-- Writing sends from the front of the buffer. -/
theorem OutOutcome.sends (hr : OutOutcome ans { client := c } r) :
    sentBytes r.state.actions ++ r.state.client.writeBuffer = c.writeBuffer := by
  cases hr with
  | idle => rfl
  | failed => rfl
  | @partly n hn =>
      have hone : sentBytes [.send (c.writeBuffer.take n)] = c.writeBuffer.take n :=
        List.append_nil _
      show sentBytes [.send (c.writeBuffer.take n)] ++ c.writeBuffer.drop n = c.writeBuffer
      rw [hone, List.take_append_drop]
  | wholly =>
      show (c.writeBuffer ++ []) ++ [] = c.writeBuffer
      rw [List.append_nil, List.append_nil]

/-- **An event without `EPOLLOUT`.** -/
theorem handleEvent_sends_in (hout : events.epollOut = false)
    (hh : c.handleEvent self newId events ans = some hd) :
    sentBytes hd.actions = [] ∧
      (hd.removeSocket = false →
        hd.client.writeBuffer = c.writeBuffer ∨ IsResponse hd.client.writeBuffer) := by
  have hsends : (∀ data, .send data ∉ ((handleEvents self newId events ans).run
      { client := c.touch ans.now }).state.actions) ∧
      (((handleEvents self newId events ans).run
        { client := c.touch ans.now }).state.client.writeBuffer = c.writeBuffer ∨
      IsResponse ((handleEvents self newId events ans).run
        { client := c.touch ans.now }).state.client.writeBuffer) := by
    rcases hin : events.epollIn with - | -
    · rw [handleEvents_eq, hin, hout]
      exact ⟨fun data => List.not_mem_nil, .inl rfl⟩
    · exact (handleEvents_in self newId ans hin hout _).sends
  have hcaught := handleEvent_caught hh
  generalize (handleEvents self newId events ans).run { client := c.touch ans.now } = r at hsends hcaught
  obtain ⟨hacts, hbuffer⟩ := hsends
  have hdid : ∀ action : Action, action.sent = [] →
      sentBytes (r.state.actions ++ [action]) = [] := by
    intro action haction
    rw [sentBytes_append, sentBytes_of_not_mem hacts]
    exact (List.append_nil _).trans haction
  cases hcaught with
  | returned => exact ⟨sentBytes_of_not_mem hacts, fun _ => hbuffer⟩
  | @refused status res hres h2 =>
      rw [refuse]
      dsimp only
      split_ifs
      · exact ⟨hdid _ rfl, fun _ => .inr ⟨res, _, errorResponse_hasVersion hres, rfl⟩⟩
      · refine ⟨hdid _ rfl, fun hkept => ?_⟩
        cases hkept
  | closed he h2 =>
      refine ⟨hdid _ rfl, fun hkept => ?_⟩
      cases hkept

/-- **An event without `EPOLLIN`**: what is sent and what is left is what there was. -/
theorem handleEvent_sends_out (hin : events.epollIn = false)
    (hh : c.handleEvent self newId events ans = some hd) :
    sentBytes hd.actions ++ hd.client.writeBuffer = c.writeBuffer := by
  have hcaught := handleEvent_caught hh
  have hsends : sentBytes ((handleEvents self newId events ans).run
      { client := c.touch ans.now }).state.actions ++ ((handleEvents self newId events ans).run
        { client := c.touch ans.now }).state.client.writeBuffer = c.writeBuffer ∧
      ∀ status h, (handleEvents self newId events ans).run { client := c.touch ans.now } ≠
        .error (.responseStatus status) h := by
    rcases hout : events.epollOut with - | -
    · rw [handleEvents_eq, hin, hout]
      refine ⟨rfl, fun _ _ heq => ?_⟩
      cases heq
    · have hwrites := handleEvents_out self newId ans hin hout { client := c.touch ans.now }
      generalize (handleEvents self newId events ans).run { client := c.touch ans.now } = r at hwrites
      refine ⟨hwrites.sends, fun status h heq => ?_⟩
      rw [heq] at hwrites
      cases hwrites
  generalize (handleEvents self newId events ans).run { client := c.touch ans.now } = r at hsends hcaught
  obtain ⟨hsends, hnone⟩ := hsends
  cases hcaught with
  | returned => exact hsends
  | refused status hres h2 => exact absurd rfl (hnone status h2)
  | closed he h2 =>
      show sentBytes (h2.actions ++ [.epollDel]) ++ h2.client.writeBuffer = c.writeBuffer
      have hdel : sentBytes [.epollDel] = [] := rfl
      rw [sentBytes_append, hdel, List.append_nil]
      exact hsends

end ClientSocket

/-! ### Lives -/

/-- **What the socket `id` has sent**: the beginning of a response.  A connection that has sent
something is deaf, and has the rest in its buffer. -/
structure Sending (w : World) (id : SocketId) (sent : Bytes) (s : Option Socket) : Prop where
  begins : ∃ text, IsResponse text ∧ sent <+: text
  whole : ∀ c, s = some (.client c) →
    sent = [] ∧ c.writeBuffer = [] ∨ IsResponse (sent ++ c.writeBuffer)
  deaf : ∀ c, s = some (.client c) → sent ≠ [] → Deaf w id

theorem exists_isResponse : ∃ text, IsResponse text := ⟨_, {}, none, rfl, rfl⟩

section Steps

variable {w w' : World} {l : Label} {id : SocketId} {acts acts' : List Action}
  {s s' : Option Socket} {sent : Bytes}

theorem Sending.of_nil
    (h : ∀ c, s = some (.client c) → c.writeBuffer = [] ∨ IsResponse c.writeBuffer) :
    Sending w id [] s := by
  obtain ⟨text, htext⟩ := exists_isResponse
  exact ⟨⟨text, htext, List.nil_prefix⟩, fun c hc => (h c hc).imp_left fun hnil => ⟨rfl, hnil⟩,
    fun _ _ hne => absurd rfl hne⟩

/-- A socket that has gone. -/
theorem Sending.gone (h : ∃ text, IsResponse text ∧ sent <+: text) (hs : ∀ c, s ≠ some (.client c)) :
    Sending w id sent s :=
  ⟨h, fun c hc => absurd hc (hs c), fun c hc => absurd hc (hs c)⟩

/-- A connection that is still there. -/
theorem Sending.whole_begins {c : ClientSocket}
    (h : sent = [] ∧ c.writeBuffer = [] ∨ IsResponse (sent ++ c.writeBuffer)) :
    ∃ text, IsResponse text ∧ sent <+: text := by
  obtain ⟨rfl, -⟩ | hwhole := h
  · obtain ⟨text, htext⟩ := exists_isResponse
    exact ⟨text, htext, List.nil_prefix⟩
  · exact ⟨_, hwhole, List.prefix_append _ _⟩

theorem Sending.world (h : Sending w id sent s) (hdeaf : s ≠ none → Deaf w id → Deaf w' id) :
    Sending w' id sent s := by
  refine ⟨h.begins, h.whole, fun c hc hne => hdeaf ?_ (h.deaf c hc hne)⟩
  rw [hc]
  exact Option.some_ne_none _

/-- The end of a program replaces the response of its owner. -/
theorem replaced_cgi {g : SocketId} {t : CgiSocket} {events : Events}
    {rest : List (SocketId × Events)} {time : Int} {ans : CgiSocket.Answers}
    {cans : ClientSocket.CgiAnswers} (hc : w.control = .handling ((g, events) :: rest))
    (hl : l = .cgiEvent time ans cans) (hg : w.heap g = some (.cgi t)) (howner : t.owner = some id)
    (hend : World.CgiEnds events ans) (hreg : ans.registered = true) : w.replaced l = some id := by
  rw [hl, World.replaced, hc]
  dsimp only
  rw [hg]
  dsimp only
  rw [if_pos ⟨hend, hreg⟩]
  exact howner

/-- **A step in the life of a connection.**  What it has sent stays the beginning of one
response, if nothing else is put in its place. -/
theorem Life.sending (hlife : Life w l id acts s acts' s') (hw : EpollInv w)
    (hl : ∀ id' ∈ w.replaced l, id' = id → sentBytes acts = [])
    (hdeaf : s ≠ none → Deaf w id → Deaf w' id) (h : Sending w id (sentBytes acts) s) :
    Sending w' id (sentBytes acts') s' := by
  cases hlife with
  | same => exact h.world hdeaf
  | gone => exact .gone h.begins fun _ hc => (by cases hc)
  | opened => exact .of_nil fun _ hc => (by cases hc)
  | accepted =>
      refine .of_nil fun c hc => .inl ?_
      cases hc
      rfl
  | started => exact .of_nil fun _ hc => (by cases hc)
  | @event acts c events rest time ans epollAdd hd hc hl hs hh =>
      -- what is sent and what is buffered make up one response, or nothing is there
      have hwhole : sentBytes acts = [] ∧ c.writeBuffer = [] ∨
          IsResponse (sentBytes acts ++ c.writeBuffer) :=
        h.whole { c with cgiSocket := none } rfl
      have hkept : ∀ c', (if hd.removeSocket then none else some (Socket.client hd.client).core) =
          some (.client c') → hd.removeSocket = false ∧ c'.writeBuffer = hd.client.writeBuffer := by
        intro c' hc'
        split_ifs at hc' with hremove
        cases hc'
        exact ⟨Bool.eq_false_iff.mpr hremove, rfl⟩
      rw [sentBytes_append]
      rcases hin : events.epollIn with - | -
      · -- nothing is read, and what is sent comes from the buffer
        have hsends := ClientSocket.handleEvent_sends_out hin hh
        have hwhole' : sentBytes acts ++ sentBytes hd.actions = [] ∧ hd.client.writeBuffer = [] ∨
            IsResponse (sentBytes acts ++ sentBytes hd.actions ++ hd.client.writeBuffer) := by
          rw [List.append_assoc, hsends]
          refine hwhole.imp_left fun ⟨hnone, hnil⟩ => ?_
          rw [hnil, List.append_eq_nil_iff] at hsends
          rw [hnone, hsends.1, hsends.2]
          exact ⟨rfl, rfl⟩
        refine ⟨Sending.whole_begins hwhole', fun c' hc' => ?_, fun c' hc' hne => ?_⟩
        · rw [(hkept c' hc').2]
          exact hwhole'
        · refine hdeaf (Option.some_ne_none _) ?_
          rcases hout : events.epollOut with - | -
          · rw [(ClientSocket.handleEvent_sends_in hout hh).1, List.append_nil] at hne
            exact h.deaf _ rfl hne
          · exact (hw.deaf_of_out hc hout).1
      · -- a connection that hears something has sent nothing
        have hout : events.epollOut = false := by
          rcases hevent : events.epollOut with - | -
          · rfl
          · rw [(hw.deaf_of_out hc hevent).2] at hin
            cases hin
        have hnone : sentBytes acts = [] := by
          by_contra hne
          rw [(h.deaf _ rfl hne).epollIn hc] at hin
          cases hin
        obtain ⟨hsends, hbuffer⟩ := ClientSocket.handleEvent_sends_in hout hh
        rw [hnone, List.nil_append] at hwhole ⊢
        rw [hsends]
        refine .of_nil fun c' hc' => ?_
        obtain ⟨hremove, hsame⟩ := hkept c' hc'
        rw [hsame]
        obtain heq | hresponse := hbuffer hremove
        · rw [heq]
          exact hwhole.imp_left And.right
        · exact .inr hresponse
  | @answered acts c g t events rest time ans cans hc hl' hg howner hend hreg hs res hres =>
      -- the buffer is replaced by the answer, which the condition on the step allows
      have hnone : sentBytes acts = [] := hl id (replaced_cgi hc hl' hg howner hend hreg) rfl
      rw [sentBytes_append, hnone, sentBytes_answer]
      refine .of_nil fun c' hc' => .inr ?_
      cases hc'
      exact ⟨res, cans.date, hres.1, rfl⟩
  | @expired acts c now fd entries sends date hc hl' hs hout =>
      obtain ⟨hbegins, hrefused⟩ := handleTimeout_sends c sends date
      rw [sentBytes_append]
      refine .gone ?_ fun _ hc' => (by cases hc')
      -- either the 408 is not sent at all, or the condition says that nothing was before it
      rcases haccepts : accepts sends with - | -
      · rw [hrefused haccepts, List.append_nil]
        exact h.begins
      · have hnone : sentBytes acts = [] := by
          refine hl id ?_ rfl
          rw [hl', World.replaced, hc]
          dsimp only
          rw [hs]
          exact if_pos ⟨hout, haccepts⟩
        rw [hnone]
        exact hbegins
  | printed hwrite hacts =>
      rw [sentBytes_append, sentBytes_of_isCgi hacts, List.append_nil]
      exact .gone h.begins fun _ hc => (by cases hc)
  | ended g hacts =>
      rw [sentBytes_append, sentBytes_of_isCgi hacts, List.append_nil]
      exact .gone h.begins fun _ hc => (by cases hc)

/-- The response of a connection that stays is the same. -/
theorem Life.keeps (hlife : Life w l id acts s acts' s')
    (hl : ∀ id' ∈ w.replaced l, id' = id → sentBytes acts = []) (hdeaf : Deaf w id)
    (hne : sentBytes acts ≠ []) {c c' : ClientSocket} (hs : s = some (.client c))
    (hs' : s' = some (.client c')) :
    sentBytes acts' ++ c'.writeBuffer = sentBytes acts ++ c.writeBuffer := by
  cases hlife with
  | same =>
      rw [hs] at hs'
      cases hs'
      rfl
  | gone => cases hs'
  | opened | accepted | started => cases hs
  | @event acts c1 events rest time ans epollAdd hd hc hl' hs1 hh =>
      cases hs
      split_ifs at hs' with hremove
      cases hs'
      rw [sentBytes_append, List.append_assoc]
      have hsends := ClientSocket.handleEvent_sends_out (hdeaf.epollIn hc) hh
      exact congrArg (sentBytes acts ++ ·) hsends
  | answered hc hl' hg howner hend hreg =>
      exact absurd (hl id (replaced_cgi hc hl' hg howner hend hreg) rfl) hne
  | expired => cases hs'
  | printed => cases hs
  | ended => cases hs'

end Steps

section Runs

variable {w w' : World} {l : Label}

theorem step_sending (hw : RunInv w) (hepoll : EpollInv w) (hl : NothingSent w l)
    (hst : w.step l = some w') {id : SocketId}
    (h : Sending w id (sentBytes (actionsOf w.log id)) (w.coreOf id)) :
    Sending w' id (sentBytes (actionsOf w'.log id)) (w'.coreOf id) := by
  have hlife := (step_lives hw hst).2 id
  obtain ⟨w1, hturn, rfl⟩ := World.step_cases hst
  refine hlife.sending hepoll (fun id' hid heq => heq ▸ hl id' hid) (fun hne hdeaf => ?_) h
  obtain ⟨s, hs⟩ := Option.ne_none_iff_exists'.mp fun hnone => hne (World.coreOf_eq_none.mpr hnone)
  exact (hdeaf.turned hw.toLoopInv hepoll (hw.lt hs) hturn).setClock _

theorem reachable_sending (h : Transition.Reachable World.step NothingSent World.IsStart w)
    (id : SocketId) : Sending w id (sentBytes (actionsOf w.log id)) (w.coreOf id) := by
  revert id
  apply h.invariant_under (fun w hw => (⟨reachable_runInv hw, reachable_epollInv hw⟩ :
    RunInv w ∧ EpollInv w))
  · intro w hw id
    obtain ⟨configs, open_, clock, rfl⟩ := hw
    exact .of_nil fun _ hc => (by cases hc)
  · exact fun w l w' hw _ h hl hst id => step_sending hw.1 hw.2 hl hst (h id)

theorem coreOf_client {id : SocketId} {c : ClientSocket} (hc : w.heap id = some (.client c)) :
    w.coreOf id = some (.client { c with cgiSocket := none }) := World.coreOf_of hc

/-- **In every run in which no response is replaced that has been sent in part**, a connection
sends one response, and no step puts another one in its place. -/
theorem sendsOne (h : Transition.Reachable World.step NothingSent World.IsStart w) :
    SendsOne w ∧ ∀ l w', NothingSent w l → w.step l = some w' → KeepsRest w w' := by
  refine ⟨⟨fun id => (reachable_sending h id).begins, fun id c hc hne => ?_⟩, ?_⟩
  · obtain ⟨hnone, -⟩ | hwhole := (reachable_sending h id).whole _ (coreOf_client hc)
    · exact absurd hnone hne
    · exact hwhole
  · intro l w' hl hst id c c' hc hc' hne
    have hlife := (step_lives (reachable_runInv h) hst).2 id
    have hdeaf := (reachable_sending h id).deaf _ (coreOf_client hc) hne
    have hkeeps := hlife.keeps (fun id' hid heq => heq ▸ hl id' hid) hdeaf hne (coreOf_client hc)
      (coreOf_client hc')
    exact hkeeps

end Runs

/-! ### A response sent in part -/

/-- A request is refused, the first byte of the response is sent, and the connection is timed
out. -/
def partRun : List Label :=
  [.openServer (some 4) 0 true, .checkTimeout 0, .visit [] none,
    .epollWait (some [(⟨4, 1, 0, EPOLLIN⟩, EPOLLIN)]), .serverEvent 0 ⟨some (5, 0), none, 0⟩ true,
    .checkTimeout 0, .visit [] none, .visit [] none,
    .epollWait (some [(⟨5, 2, 1, EPOLLIN⟩, EPOLLIN)]),
    .clientEvent 0 ⟨0, some (bytes "GET / HTTP/1.1\r\n\r\n"), sampleSys, none, true, none, none,
      none⟩ true,
    .checkTimeout 0, .visit [] none, .visit [] none,
    .epollWait (some [(⟨5, 2, 1, EPOLLOUT⟩, EPOLLOUT)]),
    .clientEvent 0 ⟨0, none, sampleSys, none, true, some 1, none, none⟩ true,
    .checkTimeout 11, .visit [] none, .visit [some 1] none]

/-- The run up to where the connection is timed out. -/
theorem sendsOne_partRun : ∃ w,
    Transition.run World.step (World.start [sampleConfig] [3] 0) (partRun.take 17) = some w ∧
      sentBytes (actionsOf w.log 1) = bytes "H" ∧ SendsOne w := by
  have hrun : (Transition.run World.step (World.start [sampleConfig] [3] 0)
      (partRun.take 17)).map (fun w => sentBytes (actionsOf w.log 1)) = some (bytes "H") := by
    decide +kernel
  have halong : Transition.Along World.step NothingSent (World.start [sampleConfig] [3] 0)
      (partRun.take 17) := by
    decide +kernel
  obtain ⟨w, hw, hsent⟩ := Option.map_eq_some_iff.mp hrun
  exact ⟨w, hw, hsent, (sendsOne (.run_along (.start ⟨_, _, _, rfl⟩) halong hw)).1⟩

/-- The first byte of one response, and the first byte of another one. -/
theorem sendsOne_fails : ¬ ∀ w, World.Reachable w → SendsOne w := by
  intro h
  have hrun : (Transition.run World.step (World.start [sampleConfig] [3] 0) partRun).map
      (fun w => sentBytes (actionsOf w.log 1)) = some (bytes "HH") := by
    decide +kernel
  obtain ⟨w, hw, hsent⟩ := Option.map_eq_some_iff.mp hrun
  obtain ⟨text, ⟨res, date, hversion, rfl⟩, hprefix⟩ :=
    (h w (.run (.start ⟨_, _, _, rfl⟩) hw)).begins 1
  have htake := List.prefix_iff_eq_take.mp hprefix
  rw [hsent, HttpResponse.toHttpString, hversion] at htake
  exact absurd htake (by simp [bytes])

end Webserv
