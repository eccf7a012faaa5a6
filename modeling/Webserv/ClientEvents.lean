/-
Webserv/ClientEvents.lean

What one event does to a `ClientSocket`.

`InOutcome` and `OutOutcome` say what the two parts of `HandleEvent` can do, guards
included; every later statement about a connection is derived from them.
-/
import Webserv.ClientSocket
import Webserv.Effects

namespace Webserv

namespace ClientSocket

/-! ### The two parts -/

/-- The state behind `RequestHandler::Run`. -/
def Handled.ran (h : Handled) (data : Bytes) (req : HttpRequest) (actions : List Action)
    (text : Bytes) : Handled :=
  { (h.setReq req).setWriteBuffer text with
    actions := h.actions ++ .recv data :: .runHandler req :: actions }

/-- The bytes that `recv` has given. -/
def Answers.Gives (ans : Answers) (data : Bytes) : Prop :=
  ∃ c cs, ans.recv = some (c :: cs) ∧ data = (c :: cs).take kBufferSize

/-- **What `HandleEpollIn` can do.** -/
inductive InOutcome (self newId : SocketId) (ans : Answers) (h : Handled) :
    EStateM.Result Exception Handled Unit → Prop
  | closed : InOutcome self newId ans h (.error .connectionClosed h)
  | refused {data : Bytes} {req : HttpRequest} {e : Exception} (hdata : ans.Gives data)
      (hparse : (HttpRequest.parse data).run h.client.req = .error e req) :
      InOutcome self newId ans h (.error e ((h.did (.recv data)).setReq req))
  | waits {data : Bytes} {req : HttpRequest} (hdata : ans.Gives data)
      (hparse : (HttpRequest.parse data).run h.client.req = .ok () req)
      (hstate : req.state ≠ .kDone) :
      InOutcome self newId ans h (.ok () ((h.did (.recv data)).setReq req))
  | answered {data : Bytes} {req : HttpRequest} {result : ExecResult} {actions : List Action}
      (hdata : ans.Gives data)
      (hparse : (HttpRequest.parse data).run h.client.req = .ok () req)
      (hstate : req.state = .kDone)
      (hrun : RequestHandler.run ans.sys h.client.config req = (result, actions))
      (hnew : result.newSocket = none) (hactions : NoProgram ans.sys actions)
      (hmod : ans.epollMod = none) :
      InOutcome self newId ans h
        (.ok () ((h.ran data req actions (result.response.toHttpString ans.date)).did
          (.epollMod EPOLLOUT)))
  | unanswered {data : Bytes} {req : HttpRequest} {result : ExecResult} {actions : List Action}
      {errno : Errno} (hdata : ans.Gives data)
      (hparse : (HttpRequest.parse data).run h.client.req = .ok () req)
      (hstate : req.state = .kDone)
      (hrun : RequestHandler.run ans.sys h.client.config req = (result, actions))
      (hnew : result.newSocket = none) (hactions : NoProgram ans.sys actions)
      (hmod : ans.epollMod = some errno) :
      InOutcome self newId ans h
        (.error (.responseStatus (mapErrnoToHttpStatus errno))
          (h.ran data req actions (result.response.toHttpString ans.date)))
  | started {data : Bytes} {req : HttpRequest} {fd0 fd1 : Fd} {pid : Pid} {path : Bytes}
      {envp : List Bytes} (hdata : ans.Gives data)
      (hparse : (HttpRequest.parse data).run h.client.req = .ok () req)
      (hstate : req.state = .kDone)
      (hrun : RequestHandler.run ans.sys h.client.config req =
        (.ofSocket { fd := fd0, lastActivityTime := ans.sys.now, pid := some pid },
          [.socketpair fd0 fd1, .fork pid, .execve path envp, .close fd1] ++ cgiInput ans.sys req))
      (hpair : ans.sys.socketpair = some (fd0, fd1)) (hfork : ans.sys.fork = some pid) :
      InOutcome self newId ans h
        (.ok () ((h.ran data req
            ([.socketpair fd0 fd1, .fork pid, .execve path envp, .close fd1] ++ cgiInput ans.sys req)
            ((HttpResponse.ofStatus .kOk).toHttpString ans.date)).adopt self newId
          { fd := fd0, lastActivityTime := ans.sys.now, pid := some pid }))

/-- **What `HandleEpollOut` can do.** -/
inductive OutOutcome (ans : Answers) (h : Handled) : EStateM.Result Exception Handled Unit → Prop
  | idle (hbuffer : h.client.writeBuffer = []) : OutOutcome ans h (.ok () h)
  | failed (hbuffer : h.client.writeBuffer ≠ []) : OutOutcome ans h (.error .connectionClosed h)
  | partly {n : Nat} (hn : n < h.client.writeBuffer.length) :
      OutOutcome ans h (.ok () ((h.did (.send (h.client.writeBuffer.take n))).setWriteBuffer
        (h.client.writeBuffer.drop n)))
  | wholly : OutOutcome ans h (.error .connectionClosed
      ((h.did (.send h.client.writeBuffer)).setWriteBuffer []))

theorem ran_eq (h : Handled) (data : Bytes) (req : HttpRequest) (actions : List Action)
    (text : Bytes) :
    (({ (h.did (.recv data)).setReq req with
      actions := ((h.did (.recv data)).setReq req).actions ++
        .runHandler ((h.did (.recv data)).setReq req).client.req :: actions } : Handled).setWriteBuffer
      text) = h.ran data req actions text := by
  simp [Handled.ran, Handled.setWriteBuffer, Handled.setReq, Handled.did]

theorem handleEpollIn_outcome (self newId : SocketId) (ans : Answers) (h : Handled) :
    InOutcome self newId ans h ((handleEpollIn self newId ans).run h) := by
  rw [handleEpollIn]
  rcases hrecv : ans.recv with - | - | ⟨c, cs⟩
  · exact .closed
  · exact .closed
  · have hdata : ans.Gives ((c :: cs).take kBufferSize) := ⟨c, cs, hrecv, rfl⟩
    simp only [EStateM.run_bind, EStateM.run_modify, EStateM.run_get]
    have hreq : (h.did (.recv ((c :: cs).take kBufferSize))).client.req = h.client.req := rfl
    rw [hreq]
    rcases hparse : (HttpRequest.parse ((c :: cs).take kBufferSize)).run h.client.req with
      ⟨u, req⟩ | ⟨e, req⟩
    · dsimp only
      simp only [EStateM.run_bind, EStateM.run_modify]
      by_cases hstate : req.state = .kDone
      · rw [if_pos hstate, respond]
        have hout := requestHandler_outcome ans.sys h.client.config req
        generalize hresult : RequestHandler.run ans.sys h.client.config req = run at hout
        obtain ⟨result, actions⟩ := run
        have hrun : RequestHandler.run ans.sys
            ((h.did (.recv ((c :: cs).take kBufferSize))).setReq req).client.config
            ((h.did (.recv ((c :: cs).take kBufferSize))).setReq req).client.req =
            (result, actions) := hresult
        simp only [EStateM.run_bind, EStateM.run_get, hrun, EStateM.run_set, EStateM.run_modify]
        rw [ran_eq]
        cases hout with
        | answered hnew hasync hactions =>
            rw [hasync, if_neg Bool.false_ne_true]
            rcases hmod : ans.epollMod with - | errno
            · exact .answered hdata hparse hstate hresult hnew hactions hmod
            · exact .unanswered hdata hparse hstate hresult hnew hactions hmod
        | started hpair hfork => exact .started hdata hparse hstate hresult hpair hfork
      · rw [if_neg hstate]
        exact .waits hdata hparse hstate
    · exact .refused hdata hparse

theorem handleEpollOut_outcome (ans : Answers) (h : Handled) :
    OutOutcome ans h ((handleEpollOut ans).run h) := by
  rw [handleEpollOut]
  simp only [EStateM.run_bind, EStateM.run_get]
  by_cases hbuffer : h.client.writeBuffer = []
  · rw [if_pos hbuffer]
    exact .idle hbuffer
  · rw [if_neg hbuffer]
    rcases ans.send with - | n
    · exact .failed hbuffer
    · simp only [EStateM.run_bind, EStateM.run_modify]
      by_cases hn : n < h.client.writeBuffer.length
      · rw [if_pos hn]
        exact .partly hn
      · rw [if_neg hn, List.take_of_length_le (not_lt.mp hn), List.drop_of_length_le (not_lt.mp hn)]
        exact .wholly

end ClientSocket

/-- The page of an error, as it is sent. -/
def errorPage (status : Status) (date : Option Bytes) : Bytes :=
  match errorResponse status with
  | .ok res => res.toHttpString date
  | .error _ => []

theorem errorPage_eq {status : Status} {res : HttpResponse} {date : Option Bytes}
    (h : errorResponse status = .ok res) : errorPage status date = res.toHttpString date := by
  rw [errorPage, h]

theorem errorResponse_hasVersion {status : Status} {res : HttpResponse}
    (h : errorResponse status = .ok res) : res.HasVersion := by
  obtain ⟨res', hres', hversion⟩ := errorResponse_ok status
  rw [h] at hres'
  cases hres'
  exact hversion

/-- A call that sends, or changes the registration. -/
def Action.isTail : Action → Bool
  | .send _ | .epollMod _ | .epollDel => true
  | _ => false

namespace ClientSocket

/-! ### Events of any kind -/

/-- What reading may leave, whatever it returns. -/
inductive Reads (self newId : SocketId) (ans : Answers) (h : Handled) : Handled → Prop
  | idle : Reads self newId ans h h
  | received {data : Bytes} {req : HttpRequest} (hdata : ans.Gives data)
      (hparse : ((HttpRequest.parse data).run h.client.req).state = req)
      (hstate : (HttpRequest.parse data).run h.client.req = .ok () req → req.state ≠ .kDone) :
      Reads self newId ans h ((h.did (.recv data)).setReq req)
  | answered {data : Bytes} {req : HttpRequest} {result : ExecResult} {actions : List Action}
      {text : Bytes} (hdata : ans.Gives data)
      (hparse : (HttpRequest.parse data).run h.client.req = .ok () req)
      (hstate : req.state = .kDone)
      (hrun : RequestHandler.run ans.sys h.client.config req = (result, actions))
      (hnew : result.newSocket = none) (hactions : NoProgram ans.sys actions) :
      Reads self newId ans h (h.ran data req actions text)
  | started {data : Bytes} {req : HttpRequest} {fd0 fd1 : Fd} {pid : Pid} {path : Bytes}
      {envp : List Bytes} {text : Bytes} (hdata : ans.Gives data)
      (hparse : (HttpRequest.parse data).run h.client.req = .ok () req)
      (hstate : req.state = .kDone)
      (hrun : RequestHandler.run ans.sys h.client.config req =
        (.ofSocket { fd := fd0, lastActivityTime := ans.sys.now, pid := some pid },
          [.socketpair fd0 fd1, .fork pid, .execve path envp, .close fd1] ++ cgiInput ans.sys req))
      (hpair : ans.sys.socketpair = some (fd0, fd1)) :
      Reads self newId ans h
        ((h.ran data req
            ([.socketpair fd0 fd1, .fork pid, .execve path envp, .close fd1] ++ cgiInput ans.sys req)
            text).adopt self newId
          { fd := fd0, lastActivityTime := ans.sys.now, pid := some pid })

/-- What is done behind the reading: the response is sent, or replaced by another one. -/
structure Tail (h h' : Handled) : Prop where
  client : ∃ buffer, h'.client = { h.client with writeBuffer := buffer }
  newSocket : h'.newSocket = h.newSocket
  actions : ∃ tail, h'.actions = h.actions ++ tail ∧ ∀ a ∈ tail, a.isTail = true

namespace Tail

variable {h h' h'' : Handled}

theorem refl : Tail h h := by
  refine ⟨⟨_, rfl⟩, rfl, [], (List.append_nil _).symm, ?_⟩
  intro a ha
  cases ha

theorem trans (ht : Tail h h') (ht' : Tail h' h'') : Tail h h'' := by
  obtain ⟨buffer', hclient'⟩ := ht'.client
  obtain ⟨buffer, hclient⟩ := ht.client
  obtain ⟨tail, hactions, htail⟩ := ht.actions
  obtain ⟨tail', hactions', htail'⟩ := ht'.actions
  refine ⟨⟨buffer', ?_⟩, ht'.newSocket.trans ht.newSocket, tail ++ tail', ?_, ?_⟩
  · rw [hclient', hclient]
  · rw [hactions', hactions, List.append_assoc]
  · intro a ha
    exact (List.mem_append.mp ha).elim (htail a) (htail' a)

theorem did {action : Action} (ha : action.isTail = true) : Tail h (h.did action) := by
  refine ⟨⟨_, rfl⟩, rfl, [action], rfl, ?_⟩
  intro a hmem
  rw [List.mem_singleton.mp hmem]
  exact ha

theorem setWriteBuffer (text : Bytes) : Tail h (h.setWriteBuffer text) := by
  refine ⟨⟨text, rfl⟩, rfl, [], (List.append_nil _).symm, ?_⟩
  intro a ha
  cases ha

theorem removes : Tail h { h with removeSocket := true } := by
  refine ⟨⟨_, rfl⟩, rfl, [], (List.append_nil _).symm, ?_⟩
  intro a ha
  cases ha

end Tail

/-- The state behind a part of the handler, returned or thrown. -/
theorem InOutcome.reads {self newId : SocketId} {ans : Answers} {h : Handled}
    {r : EStateM.Result Exception Handled Unit} (hr : InOutcome self newId ans h r) :
    ∃ h1, Reads self newId ans h h1 ∧ Tail h1 r.state := by
  cases hr with
  | closed => exact ⟨h, .idle, .refl⟩
  | refused hdata hparse =>
      refine ⟨_, .received hdata (by rw [hparse]; rfl) fun hok => ?_, .refl⟩
      rw [hparse] at hok
      cases hok
  | waits hdata hparse hstate =>
      exact ⟨_, .received hdata (by rw [hparse]; rfl) fun _ => hstate, .refl⟩
  | answered hdata hparse hstate hrun hnew hactions =>
      exact ⟨_, .answered hdata hparse hstate hrun hnew hactions, .did rfl⟩
  | unanswered hdata hparse hstate hrun hnew hactions =>
      exact ⟨_, .answered hdata hparse hstate hrun hnew hactions, .refl⟩
  | started hdata hparse hstate hrun hpair =>
      exact ⟨_, .started hdata hparse hstate hrun hpair, .refl⟩

theorem OutOutcome.tail {ans : Answers} {h : Handled} {r : EStateM.Result Exception Handled Unit}
    (hr : OutOutcome ans h r) : Tail h r.state := by
  cases hr with
  | idle => exact .refl
  | failed => exact .refl
  | partly => exact (Tail.did rfl).trans (.setWriteBuffer _)
  | wholly => exact (Tail.did rfl).trans (.setWriteBuffer _)

theorem handleEvents_eq (self newId : SocketId) (events : Events) (ans : Answers) :
    handleEvents self newId events ans =
      (if events.epollIn then handleEpollIn self newId ans else pure ()) >>= fun _ =>
        if events.epollOut then handleEpollOut ans else pure () := by
  rw [handleEvents]
  split_ifs
  · rfl
  · rfl
  · rfl
  · rfl

/-- The state behind the reading: as it was, or what an `EPOLLIN` leaves. -/
def ReadsOn (self newId : SocketId) (events : Events) (ans : Answers) (h h1 : Handled) : Prop :=
  h1 = h ∨ events.epollIn = true ∧ Reads self newId ans h h1

theorem ReadsOn.reads {self newId : SocketId} {events : Events} {ans : Answers} {h h1 : Handled}
    (hr : ReadsOn self newId events ans h h1) : Reads self newId ans h h1 := by
  obtain rfl | ⟨-, hreads⟩ := hr
  · exact .idle
  · exact hreads

theorem handleEvents_reads (self newId : SocketId) (events : Events) (ans : Answers) (h : Handled) :
    ∃ h1, ReadsOn self newId events ans h h1 ∧
      Tail h1 ((handleEvents self newId events ans).run h).state := by
  have hin : ∃ h1, ReadsOn self newId events ans h h1 ∧
      Tail h1 ((if events.epollIn then handleEpollIn self newId ans else pure ()).run h).state := by
    by_cases hevent : events.epollIn = true
    · rw [if_pos hevent]
      obtain ⟨h1, hreads, htail⟩ := (handleEpollIn_outcome self newId ans h).reads
      exact ⟨h1, .inr ⟨hevent, hreads⟩, htail⟩
    · rw [if_neg hevent]
      exact ⟨h, .inl rfl, .refl⟩
  obtain ⟨h1, hreads, htail⟩ := hin
  refine ⟨h1, hreads, ?_⟩
  rw [handleEvents_eq, EStateM.run_bind]
  rcases hrun : (if events.epollIn then handleEpollIn self newId ans else pure ()).run h with
    ⟨u, h2⟩ | ⟨e, h2⟩
  · rw [hrun] at htail
    refine htail.trans ?_
    dsimp only
    by_cases hevent : events.epollOut = true
    · rw [if_pos hevent]
      exact (handleEpollOut_outcome ans h2).tail
    · rw [if_neg hevent]
      exact .refl
  · rw [hrun] at htail
    exact htail

theorem handleEvents_in (self newId : SocketId) {events : Events} (ans : Answers)
    (hin : events.epollIn = true) (hout : events.epollOut = false) (h : Handled) :
    InOutcome self newId ans h ((handleEvents self newId events ans).run h) := by
  have heq : handleEvents self newId events ans = handleEpollIn self newId ans := by
    rw [handleEvents_eq, hin, hout]
    exact bind_pure _
  rw [heq]
  exact handleEpollIn_outcome self newId ans h

theorem handleEvents_out (self newId : SocketId) {events : Events} (ans : Answers)
    (hin : events.epollIn = false) (hout : events.epollOut = true) (h : Handled) :
    OutOutcome ans h ((handleEvents self newId events ans).run h) := by
  have heq : handleEvents self newId events ans = handleEpollOut ans := by
    rw [handleEvents_eq, hin, hout]
    exact pure_bind _ _
  rw [heq]
  exact handleEpollOut_outcome ans h

/-! ### Exceptions -/

/-- **What the handlers of `HandleEvent` make of what the `try` leaves.** -/
inductive Caught (ans : Answers) : EStateM.Result Exception Handled Unit → Handled → Prop
  | returned (h : Handled) : Caught ans (.ok () h) h
  | refused (status : Status) {res : HttpResponse} (hres : errorResponse status = .ok res)
      (h : Handled) :
      Caught ans (.error (.responseStatus status) h) (refuse h res ans)
  | closed {e : Exception} (he : ∀ status, e ≠ .responseStatus status) (h : Handled) :
      Caught ans (.error e h) { h.did .epollDel with removeSocket := true }

theorem handleEvent_caught {c : ClientSocket} {self newId : SocketId} {events : Events}
    {ans : Answers} {h : Handled} (hh : c.handleEvent self newId events ans = some h) :
    Caught ans ((handleEvents self newId events ans).run { client := c.touch ans.now }) h := by
  rw [handleEvent] at hh
  rcases hrun : (handleEvents self newId events ans).run { client := c.touch ans.now } with
    ⟨u, h2⟩ | ⟨e, h2⟩
  · rw [hrun] at hh
    cases hh
    exact .returned _
  · rw [hrun] at hh
    cases e with
    | responseStatus status =>
        obtain ⟨res, hres, -⟩ := errorResponse_ok status
        simp only [hres] at hh
        cases hh
        exact .refused status hres _
    | diverges => cases hh
    | connectionClosed => cases hh; exact .closed (fun _ => Exception.noConfusion) _
    | badOptionalAccess => cases hh; exact .closed (fun _ => Exception.noConfusion) _
    | invalidHeader => cases hh; exact .closed (fun _ => Exception.noConfusion) _
    | outOfRange => cases hh; exact .closed (fun _ => Exception.noConfusion) _
    | lengthError => cases hh; exact .closed (fun _ => Exception.noConfusion) _

theorem refuse_tail (h : Handled) (res : HttpResponse) (ans : Answers) : Tail h (refuse h res ans) := by
  rw [refuse]
  refine (Tail.setWriteBuffer (res.toHttpString ans.dateError)).trans ?_
  dsimp only
  split_ifs
  · exact .did rfl
  · exact (Tail.did rfl).trans .removes

theorem Caught.tail {ans : Answers} {r : EStateM.Result Exception Handled Unit} {h : Handled}
    (hr : Caught ans r h) : Tail r.state h := by
  cases hr with
  | returned => exact .refl
  | refused status hres h => exact refuse_tail h _ ans
  | closed he h => exact (Tail.did rfl).trans .removes

/-- **What an event does**, whatever is reported. -/
theorem handleEvent_readsOn {c : ClientSocket} {self newId : SocketId} {events : Events}
    {ans : Answers} {h : Handled} (hh : c.handleEvent self newId events ans = some h) :
    ∃ h1, ReadsOn self newId events ans { client := c.touch ans.now } h1 ∧ Tail h1 h := by
  obtain ⟨h1, hreads, htail⟩ := handleEvents_reads self newId events ans { client := c.touch ans.now }
  exact ⟨h1, hreads, htail.trans (handleEvent_caught hh).tail⟩

theorem handleEvent_reads {c : ClientSocket} {self newId : SocketId} {events : Events}
    {ans : Answers} {h : Handled} (hh : c.handleEvent self newId events ans = some h) :
    ∃ h1, Reads self newId ans { client := c.touch ans.now } h1 ∧ Tail h1 h := by
  obtain ⟨h1, hreads, htail⟩ := handleEvent_readsOn hh
  exact ⟨h1, hreads.reads, htail⟩

/-! ### What is opened and closed -/

variable {self newId : SocketId} {events : Events} {ans : Answers} {c : ClientSocket}
  {h h0 h1 : Handled}

theorem Reads.base (hr : Reads self newId ans h0 h1) :
    h1.client.fd = h0.client.fd ∧ h1.client.lastActivityTime = h0.client.lastActivityTime ∧
      h1.client.config = h0.client.config := by
  cases hr with
  | idle => exact ⟨rfl, rfl, rfl⟩
  | received => exact ⟨rfl, rfl, rfl⟩
  | answered => exact ⟨rfl, rfl, rfl⟩
  | started => exact ⟨rfl, rfl, rfl⟩

theorem Tail.base (ht : Tail h0 h1) :
    h1.client.fd = h0.client.fd ∧ h1.client.lastActivityTime = h0.client.lastActivityTime ∧
      h1.client.config = h0.client.config := by
  obtain ⟨buffer, hclient⟩ := ht.client
  rw [hclient]
  exact ⟨rfl, rfl, rfl⟩

theorem handleEvent_base (hh : c.handleEvent self newId events ans = some h) :
    h.client.fd = c.fd ∧ h.client.lastActivityTime = ans.now ∧ h.client.config = c.config := by
  obtain ⟨h1, hreads, htail⟩ := handleEvent_reads hh
  obtain ⟨hfd, htime, hconfig⟩ := hreads.base
  obtain ⟨hfd', htime', hconfig'⟩ := htail.base
  exact ⟨hfd'.trans hfd, htime'.trans htime, hconfig'.trans hconfig⟩

theorem close_not_isTail {fd : Fd} {tail : List Action} (htail : ∀ a ∈ tail, a.isTail = true) :
    Action.close fd ∉ tail := by
  intro hmem
  cases htail _ hmem

theorem close_not_mem_cgiInput {sys : Sys} {req : HttpRequest} {fd : Fd} :
    Action.close fd ∉ cgiInput sys req := by
  intro hmem
  rw [cgiInput] at hmem
  split_ifs at hmem
  · cases List.mem_singleton.mp hmem
  · cases hmem

theorem noProgram_close_mem {sys : Sys} {actions : List Action} {fd : Fd}
    (hrun : NoProgram sys actions) (hmem : Action.close fd ∈ actions) :
    ∃ pair, sys.socketpair = some pair ∧ (fd = pair.1 ∨ fd = pair.2) := by
  cases hrun with
  | files hfiles => cases hfiles _ hmem
  | noFork hpair =>
      refine ⟨_, hpair, ?_⟩
      simpa [or_comm] using hmem
  | noSocket hpair =>
      refine ⟨_, hpair, ?_⟩
      simpa [or_comm] using hmem

/-- What an event closes is one of the two descriptors that it has been given. -/
theorem handleEvent_closes (hh : c.handleEvent self newId events ans = some h) {fd : Fd}
    (hmem : Action.close fd ∈ h.actions) :
    ∃ pair, ans.sys.socketpair = some pair ∧ (fd = pair.1 ∨ fd = pair.2) := by
  obtain ⟨h1, hreads, htail⟩ := handleEvent_reads hh
  obtain ⟨tail, hactions, htail⟩ := htail.actions
  rw [hactions, List.mem_append, or_iff_left (close_not_isTail htail)] at hmem
  cases hreads with
  | idle => cases hmem
  | received => cases List.mem_singleton.mp hmem
  | answered hdata hparse hstate hrun hnew hprogram =>
      have hmem : Action.close fd ∈ _ :: _ :: _ := hmem
      obtain hmem | hmem := List.mem_cons.mp hmem
      · cases hmem
      · obtain hmem | hmem := List.mem_cons.mp hmem
        · cases hmem
        · exact noProgram_close_mem hprogram hmem
  | started hdata hparse hstate hrun hpair =>
      refine ⟨_, hpair, .inr ?_⟩
      simpa [Handled.adopt, Handled.ran, close_not_mem_cgiInput] using hmem

/-- A new socket has the first of the two, and what comes later closes the other one only. -/
theorem handleEvent_newSocket (hh : c.handleEvent self newId events ans = some h) {g : CgiSocket}
    (hg : h.newSocket = some g) :
    ∃ fd1 before after, ans.sys.socketpair = some (g.fd, fd1) ∧
      h.actions = before ++ .socketpair g.fd fd1 :: after ∧
      ∀ fd, Action.close fd ∈ after → fd = fd1 := by
  obtain ⟨h1, hreads, htail⟩ := handleEvent_reads hh
  obtain ⟨tail, hactions, htail'⟩ := htail.actions
  rw [htail.newSocket] at hg
  cases hreads with
  | idle => cases hg
  | received => cases hg
  | answered => cases hg
  | @started data req fd0 fd1 pid path envp text hdata hparse hstate hrun hpair =>
      cases hg
      refine ⟨fd1, [.recv data, .runHandler req],
        [.fork pid, .execve path envp, .close fd1] ++ cgiInput ans.sys req ++ [.adopt newId] ++ tail,
        hpair, ?_, ?_⟩
      · rw [hactions]
        simp [Handled.adopt, Handled.ran, CgiSocket.onSetOwner]
      · intro fd hmem
        simpa [close_not_isTail htail', close_not_mem_cgiInput] using hmem

theorem handleEvent_new_buffers (hh : c.handleEvent self newId events ans = some h)
    {g : CgiSocket} (hg : h.newSocket = some g) : g.readBuffer = [] ∧ g.writeBuffer = [] := by
  obtain ⟨h1, hreads, htail⟩ := handleEvent_reads hh
  rw [htail.newSocket] at hg
  cases hreads with
  | idle => cases hg
  | received => cases hg
  | answered => cases hg
  | started =>
      cases hg
      exact ⟨rfl, rfl⟩

/-! ### Registrations -/

theorem noProgram_not_tail {sys : Sys} {actions : List Action} (hrun : NoProgram sys actions)
    {a : Action} (ha : a.isTail = true) : a ∉ actions := by
  intro hmem
  cases hrun with
  | files hfiles =>
      have hfile := hfiles a hmem
      cases a with
      | readFile | writeFile | removeFile => cases ha
      | _ => cases hfile
  | noFork =>
      simp only [List.mem_cons, List.not_mem_nil, or_false] at hmem
      obtain rfl | rfl | rfl := hmem
      all_goals cases ha
  | noSocket =>
      simp only [List.mem_cons, List.not_mem_nil, or_false] at hmem
      obtain rfl | rfl | rfl | rfl | rfl := hmem
      all_goals cases ha

theorem started_not_tail {sys : Sys} {req : HttpRequest} {fd0 fd1 : Fd} {pid : Pid} {path : Bytes}
    {envp : List Bytes} {a : Action} (ha : a.isTail = true) :
    a ∉ [.socketpair fd0 fd1, .fork pid, .execve path envp, .close fd1] ++ cgiInput sys req := by
  intro hmem
  obtain hmem | hmem := List.mem_append.mp hmem
  · simp only [List.mem_cons, List.not_mem_nil, or_false] at hmem
    obtain rfl | rfl | rfl | rfl := hmem
    all_goals cases ha
  · rw [cgiInput] at hmem
    split_ifs at hmem
    · cases List.mem_singleton.mp hmem
      cases ha
    · cases hmem

theorem ran_not_tail {data text : Bytes} {req : HttpRequest} {actions : List Action} {a : Action}
    (ha : a.isTail = true) (h : a ∉ actions) :
    a ∉ (Handled.ran { client := c } data req actions text).actions := by
  intro hmem
  have hmem : a ∈ .recv data :: .runHandler req :: actions := hmem
  obtain rfl | rfl | hmem := List.mem_cons.mp hmem |>.imp_right List.mem_cons.mp
  · cases ha
  · cases ha
  · exact h hmem

/-- What reading leaves has changed no registration. -/
theorem Reads.not_tail (hr : Reads self newId ans { client := c } h1) {a : Action}
    (ha : a.isTail = true) : a ∉ h1.actions := by
  cases hr with
  | idle => exact List.not_mem_nil
  | received =>
      intro hmem
      cases List.mem_singleton.mp hmem
      cases ha
  | answered hdata hparse hstate hrun hnew hprogram =>
      exact ran_not_tail ha (noProgram_not_tail hprogram ha)
  | started =>
      intro hmem
      obtain hmem | hmem := List.mem_append.mp hmem
      · exact ran_not_tail ha (started_not_tail ha) hmem
      · cases List.mem_singleton.mp hmem
        cases ha

/-- A registration is only changed to `EPOLLOUT`. -/
def Handled.WaitsToSend (h : Handled) : Prop :=
  ∀ interest, .epollMod interest ∈ h.actions → interest = EPOLLOUT

namespace Handled.WaitsToSend

variable {h : Handled}

theorem append {acts : List Action} {h' : Handled} (hw : h.WaitsToSend)
    (hactions : h'.actions = h.actions ++ acts)
    (hacts : ∀ interest, .epollMod interest ∈ acts → interest = EPOLLOUT) : h'.WaitsToSend := by
  intro interest hmem
  rw [hactions] at hmem
  exact (List.mem_append.mp hmem).elim (hw interest) (hacts interest)

theorem did {action : Action} (hw : h.WaitsToSend)
    (haction : ∀ interest, action = .epollMod interest → interest = EPOLLOUT) :
    (h.did action).WaitsToSend :=
  hw.append rfl fun interest hmem => haction interest (List.mem_singleton.mp hmem).symm

theorem ran {data text : Bytes} {req : HttpRequest} {actions : List Action} (hw : h.WaitsToSend)
    (hactions : ∀ interest, .epollMod interest ∉ actions) :
    (h.ran data req actions text).WaitsToSend := by
  refine hw.append rfl fun interest hmem => ?_
  obtain hmem | hmem := List.mem_cons.mp hmem
  · cases hmem
  · obtain hmem | hmem := List.mem_cons.mp hmem
    · cases hmem
    · exact absurd hmem (hactions interest)

end Handled.WaitsToSend

theorem InOutcome.waitsToSend {self newId : SocketId} {ans : Answers} {h : Handled}
    {r : EStateM.Result Exception Handled Unit} (hr : InOutcome self newId ans h r)
    (hw : h.WaitsToSend) : r.state.WaitsToSend := by
  cases hr with
  | closed => exact hw
  | refused => exact hw.did fun _ => Action.noConfusion
  | waits => exact hw.did fun _ => Action.noConfusion
  | answered hdata hparse hstate hrun hnew hactions hmod =>
      refine (hw.ran fun _ => noProgram_not_tail hactions rfl).did fun interest heq => ?_
      cases heq
      rfl
  | unanswered hdata hparse hstate hrun hnew hactions hmod =>
      exact hw.ran fun _ => noProgram_not_tail hactions rfl
  | started =>
      refine Handled.WaitsToSend.append (hw.ran fun _ => started_not_tail rfl) rfl ?_
      intro interest hmem
      cases List.mem_singleton.mp hmem

theorem OutOutcome.waitsToSend {ans : Answers} {h : Handled}
    {r : EStateM.Result Exception Handled Unit} (hr : OutOutcome ans h r) (hw : h.WaitsToSend) :
    r.state.WaitsToSend := by
  cases hr with
  | idle => exact hw
  | failed => exact hw
  | partly => exact hw.did fun _ => Action.noConfusion
  | wholly => exact hw.did fun _ => Action.noConfusion

theorem handleEvents_waitsToSend {self newId : SocketId} {events : Events} {ans : Answers}
    (hw : h.WaitsToSend) : ((handleEvents self newId events ans).run h).state.WaitsToSend := by
  have hin : ((if events.epollIn then handleEpollIn self newId ans else pure ()).run
      h).state.WaitsToSend := by
    split_ifs
    · exact (handleEpollIn_outcome self newId ans h).waitsToSend hw
    · exact hw
  rw [handleEvents_eq, EStateM.run_bind]
  rcases hrun : (if events.epollIn then handleEpollIn self newId ans else pure ()).run h with
    ⟨u, h2⟩ | ⟨e, h2⟩
  · rw [hrun] at hin
    dsimp only
    split_ifs
    · exact (handleEpollOut_outcome ans h2).waitsToSend hin
    · exact hin
  · rw [hrun] at hin
    exact hin

theorem handleEpollIn_keeps (self newId : SocketId) (ans : Answers) (h : Handled) :
    ((handleEpollIn self newId ans).run h).state.removeSocket = h.removeSocket := by
  have hout := handleEpollIn_outcome self newId ans h
  generalize (handleEpollIn self newId ans).run h = r at hout
  cases hout with
  | closed => rfl
  | refused => rfl
  | waits => rfl
  | answered => rfl
  | unanswered => rfl
  | started => rfl

theorem handleEpollOut_keeps (ans : Answers) (h : Handled) :
    ((handleEpollOut ans).run h).state.removeSocket = h.removeSocket := by
  have hout := handleEpollOut_outcome ans h
  generalize (handleEpollOut ans).run h = r at hout
  cases hout with
  | idle => rfl
  | failed => rfl
  | partly => rfl
  | wholly => rfl

theorem handleEvents_keeps (self newId : SocketId) (events : Events) (ans : Answers) (h : Handled) :
    ((handleEvents self newId events ans).run h).state.removeSocket = h.removeSocket := by
  have hin : ((if events.epollIn then handleEpollIn self newId ans else pure ()).run
      h).state.removeSocket = h.removeSocket := by
    split_ifs
    · exact handleEpollIn_keeps self newId ans h
    · rfl
  rw [handleEvents_eq, EStateM.run_bind]
  rcases hrun : (if events.epollIn then handleEpollIn self newId ans else pure ()).run h with
    ⟨u, h2⟩ | ⟨e, h2⟩
  · rw [hrun] at hin
    dsimp only
    split_ifs
    · exact (handleEpollOut_keeps ans h2).trans hin
    · exact hin
  · rw [hrun] at hin
    exact hin

/-- Before a connection is removed, its registration is. -/
theorem handleEvent_removes (hh : c.handleEvent self newId events ans = some h)
    (hremove : h.removeSocket = true) : ∃ before, h.actions = before ++ [.epollDel] := by
  have hkeeps := handleEvents_keeps self newId events ans { client := c.touch ans.now }
  have hcaught := handleEvent_caught hh
  generalize (handleEvents self newId events ans).run _ = r at hkeeps hcaught
  cases hcaught with
  | returned =>
      have hfalse : h.removeSocket = false := hkeeps
      rw [hfalse] at hremove
      cases hremove
  | @refused status res hres h2 =>
      have hfalse : h2.removeSocket = false := hkeeps
      rw [refuse] at hremove ⊢
      dsimp only at hremove ⊢
      split_ifs at hremove ⊢
      · have hsame : h2.removeSocket = true := hremove
        rw [hfalse] at hsame
        cases hsame
      · exact ⟨h2.actions, rfl⟩
  | closed he h2 => exact ⟨h2.actions, rfl⟩

theorem handleEvent_waitsToSend (hh : c.handleEvent self newId events ans = some h) :
    h.WaitsToSend := by
  have hnew : Handled.WaitsToSend { client := c.touch ans.now } := by
    intro interest hmem
    cases hmem
  have hevents := @handleEvents_waitsToSend _ self newId events ans hnew
  have hcaught := handleEvent_caught hh
  generalize (handleEvents self newId events ans).run _ = r at hevents hcaught
  cases hcaught with
  | returned => exact hevents
  | @refused status res hres h2 =>
      have hbuffer : Handled.WaitsToSend (h2.setWriteBuffer (res.toHttpString ans.dateError)) := hevents
      rw [refuse]
      dsimp only
      split_ifs
      · refine hbuffer.did fun interest heq => ?_
        cases heq
        rfl
      · exact hbuffer.did fun _ => Action.noConfusion
  | closed he h2 =>
      exact Handled.WaitsToSend.did (h := h2) hevents fun _ => Action.noConfusion

/-! ### Timeouts -/

theorem sendAll_sends (sends : List (Option Nat)) (buffer : Bytes) :
    ∀ a ∈ (sendAll sends buffer).2, ∃ data, a = .send data := by
  fun_induction sendAll sends buffer with
  | case1 | case2 | case3 =>
      intro a ha
      cases ha
  | case4 n answers buffer hgo rest actions heq ih =>
      rw [heq] at ih
      intro a ha
      obtain rfl | ha := List.mem_cons.mp ha
      · exact ⟨_, rfl⟩
      · exact ih a ha

/-- What a connection that is timed out has done. -/
theorem handleTimeout_eq (c : ClientSocket) (sends : List (Option Nat)) (date : Option Bytes) :
    ∃ res : HttpResponse, res.HasVersion ∧ c.handleTimeout sends date =
      { client := { c with writeBuffer := (sendAll sends (res.toHttpString date)).1 }
        actions := (sendAll sends (res.toHttpString date)).2 ++ [.epollDel] } := by
  obtain ⟨res, hres, hversion⟩ := errorResponse_ok .kRequestTimeout
  refine ⟨res, hversion, ?_⟩
  rw [handleTimeout, hres]

theorem handleTimeout_tail (c : ClientSocket) (sends : List (Option Nat)) (date : Option Bytes) :
    Tail { client := c } (c.handleTimeout sends date) := by
  obtain ⟨res, -, hres⟩ := handleTimeout_eq c sends date
  rw [hres]
  refine ⟨⟨_, rfl⟩, rfl, _, (List.nil_append _).symm, ?_⟩
  intro a ha
  obtain ha | ha := List.mem_append.mp ha
  · obtain ⟨data, rfl⟩ := sendAll_sends _ _ a ha
    rfl
  · rw [List.mem_singleton.mp ha]
    rfl

theorem handleTimeout_not_mod (c : ClientSocket) (sends : List (Option Nat)) (date : Option Bytes)
    (interest : Events) : .epollMod interest ∉ (c.handleTimeout sends date).actions := by
  obtain ⟨res, -, hres⟩ := handleTimeout_eq c sends date
  rw [hres, List.mem_append, not_or]
  constructor
  · intro hmem
    obtain ⟨data, heq⟩ := sendAll_sends _ _ _ hmem
    cases heq
  · simp

end ClientSocket

end Webserv
