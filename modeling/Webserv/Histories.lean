/-
Webserv/Histories.lean

What one connection does in its life.

The request handler runs at most once for a connection: behind a request that is done,
`Parse` throws, whatever it is given.
-/
import Webserv.Lives
import Webserv.HttpRequest.Trailing

namespace Webserv

/-! ### Histories -/

/-- An action that is no part of a run of the request handler. -/
def Action.isPlain : Action → Bool
  | .recv _ | .send _ | .epollMod _ | .epollDel | .handOver _ _ => true
  | _ => false

/-- No run of the request handler. -/
def NoHandler (acts : List Action) : Prop := ∀ a ∈ acts, a.isPlain = true

theorem NoHandler.nil : NoHandler [] := fun _ h => absurd h List.not_mem_nil

theorem NoHandler.append {acts acts' : List Action} (h : NoHandler acts) (h' : NoHandler acts') :
    NoHandler (acts ++ acts') := fun a ha => (List.mem_append.mp ha).elim (h a) (h' a)

theorem NoHandler.cons {a : Action} {acts : List Action} (ha : a.isPlain = true) (h : NoHandler acts) :
    NoHandler (a :: acts) := by
  intro b hb
  obtain rfl | hb := List.mem_cons.mp hb
  · exact ha
  · exact h b hb

theorem noHandler_of_isTail {acts : List Action} (h : ∀ a ∈ acts, a.isTail = true) : NoHandler acts := by
  intro a ha
  have htail := h a ha
  cases a with
  | send | epollMod | epollDel => rfl
  | _ => cases htail

theorem noHandler_of_isCgi {acts : List Action} (h : ∀ a ∈ acts, a.isCgi = true) : NoHandler acts := by
  intro a ha
  have hcgi := h a ha
  cases a with
  | handOver | epollDel => rfl
  | _ => cases hcgi

/-- **One run of the request handler**, on `req`, and the new socket that it has left. -/
structure Served (acts : List Action) (sys : Sys) (config : ServerConfig) (req : HttpRequest)
    (cgi : Option SocketId) : Prop where
  shape : ∃ before after, NoHandler before ∧ NoHandler after ∧
    acts = before ++ (.runHandler req :: (RequestHandler.run sys config req).2 ++
      (cgi.map .adopt).toList ++ after)
  cgi_isSome : cgi.isSome = (RequestHandler.run sys config req).1.newSocket.isSome
  done : req.state = .kDone

theorem Served.append {acts acts' : List Action} {sys : Sys} {config : ServerConfig}
    {req : HttpRequest} {cgi : Option SocketId} (h : Served acts sys config req cgi)
    (h' : NoHandler acts') : Served (acts ++ acts') sys config req cgi := by
  obtain ⟨before, after, hbefore, hafter, rfl⟩ := h.shape
  refine ⟨⟨before, after ++ acts', hbefore, hafter.append h', ?_⟩, h.cgi_isSome, h.done⟩
  simp only [List.append_assoc, List.cons_append]

theorem Served.after {acts acts' : List Action} {sys : Sys} {config : ServerConfig}
    {req : HttpRequest} {cgi : Option SocketId} (h : Served acts sys config req cgi)
    (h' : NoHandler acts') : Served (acts' ++ acts) sys config req cgi := by
  obtain ⟨before, after, hbefore, hafter, rfl⟩ := h.shape
  refine ⟨⟨acts' ++ before, after, h'.append hbefore, hafter, ?_⟩, h.cgi_isSome, h.done⟩
  simp only [List.append_assoc]

/-- What a run of the request handler does. -/
def Action.isEffect : Action → Bool
  | .readFile _ | .writeFile _ _ _ | .removeFile _ => true
  | .socketpair _ _ | .fork _ | .execve _ _ | .close _ | .writeCgi _ _ => true
  | _ => false

theorem requestHandler_isEffect (sys : Sys) (config : ServerConfig) (req : HttpRequest) :
    ∀ a ∈ (RequestHandler.run sys config req).2, a.isEffect = true := by
  have hout := requestHandler_outcome sys config req
  generalize RequestHandler.run sys config req = run at hout
  obtain ⟨result, actions⟩ := run
  show ∀ a ∈ actions, a.isEffect = true
  intro a ha
  -- a handler answers at once, or starts a program
  cases hout with
  | answered hnew hasync hactions =>
      cases hactions with
      | files hfiles =>
          have hfile := hfiles a ha
          cases a with
          | readFile | writeFile | removeFile => rfl
          | _ => cases hfile
      | noFork =>
          simp only [List.mem_cons, List.not_mem_nil, or_false] at ha
          obtain rfl | rfl | rfl := ha
          · rfl
          · rfl
          · rfl
      | noSocket =>
          simp only [List.mem_cons, List.not_mem_nil, or_false] at ha
          obtain rfl | rfl | rfl | rfl | rfl := ha
          · rfl
          · rfl
          · rfl
          · rfl
          · rfl
  | @started fd0 fd1 pid path envp hpair hfork =>
      have ha : a ∈ [Action.socketpair fd0 fd1, .fork pid, .execve path envp, .close fd1] ++
          cgiInput sys req := ha
      rw [cgiInput] at ha
      obtain ha | ha := List.mem_append.mp ha
      · simp only [List.mem_cons, List.not_mem_nil, or_false] at ha
        obtain rfl | rfl | rfl | rfl := ha
        · rfl
        · rfl
        · rfl
        · rfl
      · split_ifs at ha
        · rw [List.mem_singleton.mp ha]
          rfl
        · cases ha

section Members

variable {acts : List Action} {sys : Sys} {config : ServerConfig} {req req' : HttpRequest}
  {cgi : Option SocketId} {g : SocketId}

theorem NoHandler.adopt_not_mem (h : NoHandler acts) : Action.adopt g ∉ acts := by
  intro hmem
  cases h _ hmem

theorem NoHandler.runHandler_not_mem (h : NoHandler acts) : Action.runHandler req ∉ acts := by
  intro hmem
  cases h _ hmem

theorem Served.adopt_mem (h : Served acts sys config req cgi) :
    Action.adopt g ∈ acts ↔ cgi = some g := by
  obtain ⟨before, after, hbefore, hafter, rfl⟩ := h.shape
  have hrun : Action.adopt g ∉ (RequestHandler.run sys config req).2 := by
    intro hmem
    cases requestHandler_isEffect sys config req _ hmem
  simp [hbefore.adopt_not_mem, hafter.adopt_not_mem, hrun]

theorem Served.runHandler_mem (h : Served acts sys config req cgi) :
    Action.runHandler req' ∈ acts ↔ req' = req := by
  obtain ⟨before, after, hbefore, hafter, rfl⟩ := h.shape
  have hrun : Action.runHandler req' ∉ (RequestHandler.run sys config req).2 := by
    intro hmem
    cases requestHandler_isEffect sys config req _ hmem
  simp [hbefore.runHandler_not_mem, hafter.runHandler_not_mem, hrun]

end Members

/-- The request handler has run at most once, and not at all if the request of the
connection is not done. -/
structure Recorded (acts : List Action) (s : Option Socket) : Prop where
  history : NoHandler acts ∨ ∃ sys config req cgi, Served acts sys config req cgi
  noHandler : ∀ c, s = some (.client c) → c.req.state ≠ .kDone → NoHandler acts
  unwritten : ∀ g, s = some (.cgi g) → g.writeBuffer = []

/-- A run of the request handler behind a piece of the request. -/
theorem served_of_run {sys : Sys} {config : ServerConfig} {req : HttpRequest} {data : Bytes}
    {result : ExecResult} {actions : List Action} {cgi : Option SocketId}
    (hrun : RequestHandler.run sys config req = (result, actions))
    (hcgi : cgi.isSome = result.newSocket.isSome) (hstate : req.state = .kDone) :
    Served (.recv data :: .runHandler req :: actions ++ (cgi.map .adopt).toList) sys config req
      cgi := by
  refine ⟨⟨[.recv data], [], .cons rfl .nil, .nil, ?_⟩, ?_, hstate⟩
  · rw [hrun, List.append_nil]
    rfl
  · rw [hrun]
    exact hcgi

/-- The request that an event completes, if it does. -/
def ClientSocket.completed (c : ClientSocket) (events : Events) (ans : ClientSocket.Answers) :
    Option HttpRequest :=
  if events.epollIn then
    match ans.recv with
    | some (b :: bs) =>
        match (HttpRequest.parse ((b :: bs).take kBufferSize)).run c.req with
        | .ok _ req => if req.state = .kDone then some req else none
        | .error _ _ => none
    | _ => none
  else none

theorem completed_of {c : ClientSocket} {events : Events} {ans : ClientSocket.Answers}
    {data : Bytes} {req : HttpRequest} (hin : events.epollIn = true) (hdata : ans.Gives data)
    (hparse : (HttpRequest.parse data).run c.req = .ok () req) (hstate : req.state = .kDone) :
    c.completed events ans = some req := by
  obtain ⟨b, bs, hrecv, rfl⟩ := hdata
  rw [ClientSocket.completed, if_pos hin, hrecv]
  dsimp only
  rw [hparse]
  exact if_pos hstate

theorem not_done_of_completed {c : ClientSocket} {events : Events} {ans : ClientSocket.Answers}
    {req : HttpRequest} (h : c.completed events ans = some req) :
    c.req.state ≠ .kDone ∧ req.state = .kDone := by
  rw [ClientSocket.completed] at h
  by_cases hin : events.epollIn = true
  · rw [if_pos hin] at h
    rcases hrecv : ans.recv with - | - | ⟨b, bs⟩
    · rw [hrecv] at h
      cases h
    · rw [hrecv] at h
      cases h
    · rw [hrecv] at h
      dsimp only at h
      rcases hparse : (HttpRequest.parse ((b :: bs).take kBufferSize)).run c.req with
        ⟨u, t⟩ | ⟨e, t⟩
      · rw [hparse] at h
        dsimp only at h
        split_ifs at h with hstate
        cases h
        exact ⟨not_done_of_parse hparse, hstate⟩
      · rw [hparse] at h
        cases h
  · rw [if_neg hin] at h
    cases h

/-- What the reading of an event adds. -/
theorem reads_history {self newId : SocketId} {events : Events} {ans : ClientSocket.Answers}
    {c : ClientSocket} {h1 : ClientSocket.Handled} (hin : events.epollIn = true)
    (hr : ClientSocket.Reads self newId ans { client := c } h1) :
    (NoHandler h1.actions ∧ h1.newSocket = none ∧
        (c.req.state = .kDone → h1.client.req.state = .kDone)) ∨
      (c.completed events ans = some h1.client.req ∧
        Served h1.actions ans.sys c.config h1.client.req (h1.newSocket.map fun _ => newId)) := by
  cases hr with
  | idle => exact .inl ⟨.nil, rfl, fun h => h⟩
  | @received data req hdata hparse hstate =>
      refine .inl ⟨.cons rfl .nil, rfl, fun hdone => ?_⟩
      obtain ⟨e, t, hrun, ht⟩ := parse_behind_done hdone data
      rw [hrun] at hparse
      rw [← hparse]
      exact ht
  | @answered data req result actions text hdata hparse hstate hrun hnew hactions =>
      refine .inr ⟨completed_of hin hdata hparse hstate, ?_⟩
      have hserved := @served_of_run ans.sys c.config req data result actions none hrun
        (by rw [hnew]; rfl) hstate
      rw [Option.map_none, Option.toList_none, List.append_nil] at hserved
      exact hserved
  | @started data req fd0 fd1 pid path envp text hdata hparse hstate hrun hpair =>
      refine .inr ⟨completed_of hin hdata hparse hstate, ?_⟩
      exact @served_of_run ans.sys c.config req data _ _ (some newId) hrun rfl hstate

theorem handleEvent_history {c : ClientSocket} {self newId : SocketId} {events : Events}
    {ans : ClientSocket.Answers} {hd : ClientSocket.Handled}
    (hh : c.handleEvent self newId events ans = some hd) :
    (NoHandler hd.actions ∧ hd.newSocket = none ∧
        (c.req.state = .kDone → hd.client.req.state = .kDone)) ∨
      (c.completed events ans = some hd.client.req ∧
        Served hd.actions ans.sys c.config hd.client.req (hd.newSocket.map fun _ => newId)) := by
  obtain ⟨h1, hreads, htail⟩ := ClientSocket.handleEvent_readsOn hh
  obtain ⟨buffer, hclient⟩ := htail.client
  obtain ⟨tail, hactions, htail'⟩ := htail.actions
  have hplain : NoHandler tail := noHandler_of_isTail htail'
  have hreq : hd.client.req = h1.client.req := by rw [hclient]
  rw [hreq, hactions, htail.newSocket]
  obtain rfl | ⟨hin, hreads⟩ := hreads
  · exact .inl ⟨hplain, rfl, fun h => h⟩
  · obtain ⟨hno, hnew, hdone⟩ | ⟨hcompleted, hserved⟩ := reads_history hin hreads
    · exact .inl ⟨hno.append hplain, hnew, hdone⟩
    · exact .inr ⟨hcompleted, hserved.append hplain⟩

theorem noHandler_answer (c : ClientSocket) (res : HttpResponse) (ans : ClientSocket.CgiAnswers) :
    NoHandler (c.answer res ans).actions := by
  rw [ClientSocket.answer]
  dsimp only
  split_ifs
  · exact .cons rfl .nil
  · exact .nil

/-! ### Lives -/

variable {w w' : World} {l : Label} {id : SocketId} {acts acts' : List Action} {s s' : Option Socket}

/-- More of what is no run of the handler. -/
theorem Recorded.append (h : Recorded acts s) (h' : NoHandler acts')
    (hno : ∀ c, s' = some (.client c) → c.req.state ≠ .kDone → NoHandler acts)
    (hwrite : ∀ g, s' = some (.cgi g) → g.writeBuffer = []) : Recorded (acts ++ acts') s' := by
  refine ⟨?_, fun c hc hstate => (hno c hc hstate).append h', hwrite⟩
  obtain hacts | ⟨sys, config, req, cgi, hserved⟩ := h.history
  · exact .inl (hacts.append h')
  · exact .inr ⟨sys, config, req, cgi, hserved.append h'⟩

theorem recorded_start (_ : SocketId) : Recorded [] none where
  history := .inl .nil
  noHandler := fun _ _ _ => .nil
  unwritten := fun _ h => by cases h

theorem Life.recorded (hlife : Life w l id acts s acts' s') (h : Recorded acts s) :
    Recorded acts' s' := by
  cases hlife with
  | same => exact h
  | gone => exact ⟨h.history, fun _ hc => (by cases hc), fun _ hc => (by cases hc)⟩
  | opened => exact ⟨.inl .nil, fun _ _ _ => .nil, fun _ hc => (by cases hc)⟩
  | accepted => exact ⟨.inl .nil, fun _ _ _ => .nil, fun _ hc => (by cases hc)⟩
  | started hid hl hread hwrite =>
      refine ⟨.inl .nil, fun _ _ _ => .nil, fun g hg => ?_⟩
      cases hg
      exact hwrite
  | @event acts c events rest time ans epollAdd hd hc hl hs hh =>
      have hwrite : ∀ g, (if hd.removeSocket then none else some (Socket.client hd.client).core) =
          some (.cgi g) → g.writeBuffer = [] := by
        intro g hg
        split_ifs at hg
        cases hg
      have hclient : ∀ c', (if hd.removeSocket then none
          else some (Socket.client hd.client).core) = some (.client c') →
          c'.req = hd.client.req := by
        intro c' hc'
        split_ifs at hc'
        cases hc'
        rfl
      obtain ⟨hno, -, hdone⟩ | ⟨hcompleted, hserved⟩ := handleEvent_history hh
      · refine h.append hno (fun c' hc' hstate => h.noHandler _ rfl fun hold => hstate ?_) hwrite
        rw [hclient c' hc']
        exact hdone hold
      · obtain ⟨hstate, hdone⟩ := not_done_of_completed hcompleted
        refine ⟨.inr ⟨_, _, _, _, hserved.after (h.noHandler _ rfl hstate)⟩, ?_, hwrite⟩
        intro c' hc' hstate'
        rw [hclient c' hc'] at hstate'
        exact absurd hdone hstate'
  | @answered acts c g t events rest time ans cans hc hl hg howner hend hreg hs res hres =>
      refine h.append (noHandler_answer c res cans) (fun c' hc' hstate => h.noHandler _ rfl ?_) fun _ hc' => (by cases hc')
      cases hc'
      exact hstate
  | @expired acts c now fd entries sends date hc hl hs hout =>
      obtain ⟨tail, hactions, htail⟩ := (ClientSocket.handleTimeout_tail c sends date).actions
      rw [hactions, List.nil_append]
      exact h.append (noHandler_of_isTail htail) (fun _ hc' => (by cases hc')) fun _ hc' =>
        (by cases hc')
  | @printed acts acts' g g' hwrite hacts =>
      refine h.append (noHandler_of_isCgi hacts) (fun _ hc' => (by cases hc')) fun g hg => ?_
      cases hg
      have hold : g.writeBuffer = [] := h.unwritten { g with owner := none } rfl
      exact hwrite.trans hold
  | ended g hacts =>
      exact h.append (noHandler_of_isCgi hacts) (fun _ hc' => (by cases hc')) fun _ hc' =>
        (by cases hc')

/-- **Every history** has one run of the request handler, or none. -/
theorem reachable_recorded {P : World → Label → Prop}
    (h : Transition.Reachable World.step P World.IsStart w) (id : SocketId) :
    Recorded (actionsOf w.log id) (w.coreOf id) :=
  (life_invariant recorded_start (fun _ _ _ _ _ _ _ _ _ hlife h => hlife.recorded h) h).2 id

end Webserv
