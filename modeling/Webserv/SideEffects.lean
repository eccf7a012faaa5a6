/-
Webserv/SideEffects.lean

When the request handler runs, and what one connection can do to the system.

A connection that still hears its client is between two calls of `Parse`, or its request is
done and every further call throws.  So the handler runs once at most, behind the last byte
of the request; a file that is written or removed, or a program that is started, is one of
that run.
-/
import Webserv.ConfigNumbers
import Webserv.Histories
import Webserv.HttpRequest.Whole
import Webserv.Interest
import Webserv.Listening

namespace Webserv

/-! ### Runs of the handler -/

/-- The bytes that an action receives. -/
def Action.received : Action → Bytes
  | .recv data => data
  | _ => []

/-- What a connection has received. -/
def receivedBytes (acts : List Action) : Bytes := acts.flatMap Action.received

/-- The runs of the request handler: what had been received, and the request. -/
def handlerRuns : Bytes → List Action → List (Bytes × HttpRequest)
  | _, [] => []
  | received, .recv data :: acts => handlerRuns (received ++ data) acts
  | received, .runHandler req :: acts => (received, req) :: handlerRuns received acts
  | received, _ :: acts => handlerRuns received acts

/-- The action changes a file, or starts a program. -/
def Action.isSideEffect : Action → Bool
  | .writeFile _ _ _ | .removeFile _ | .fork _ => true
  | _ => false

theorem receivedBytes_append (acts acts' : List Action) :
    receivedBytes (acts ++ acts') = receivedBytes acts ++ receivedBytes acts' := List.flatMap_append

theorem handlerRuns_append (received : Bytes) (acts acts' : List Action) :
    handlerRuns received (acts ++ acts') =
      handlerRuns received acts ++ handlerRuns (received ++ receivedBytes acts) acts' := by
  induction acts generalizing received with
  | nil =>
      rw [List.nil_append, handlerRuns, List.nil_append]
      exact congrArg (handlerRuns · acts') (List.append_nil _).symm
  | cons a acts ih =>
      rw [List.cons_append]
      cases a with
      | recv data =>
          rw [handlerRuns, handlerRuns, ih, List.append_assoc]
          rfl
      | runHandler req =>
          rw [handlerRuns, handlerRuns, ih, List.cons_append]
          rfl
      | _ => exact ih received

theorem handlerRuns_of_not_mem {received : Bytes} {acts : List Action}
    (h : ∀ req, .runHandler req ∉ acts) : handlerRuns received acts = [] := by
  induction acts generalizing received with
  | nil => rfl
  | cons a acts ih =>
      have hacts : ∀ req, .runHandler req ∉ acts := fun req hmem => h req (List.mem_cons_of_mem _ hmem)
      cases a with
      | runHandler req => exact absurd List.mem_cons_self (h req)
      | recv data => exact ih hacts
      | _ => exact ih hacts

theorem receivedBytes_of_not_mem {acts : List Action} (h : ∀ data, .recv data ∉ acts) :
    receivedBytes acts = [] := by
  apply List.flatMap_eq_nil_iff.mpr
  intro a ha
  cases a with
  | recv data => exact absurd ha (h data)
  | _ => rfl

theorem NoHandler.runs_nil {acts : List Action} (h : NoHandler acts) (received : Bytes) :
    handlerRuns received acts = [] := handlerRuns_of_not_mem fun _ => h.runHandler_not_mem

theorem receivedBytes_of_isTail {acts : List Action} (h : ∀ a ∈ acts, a.isTail = true) :
    receivedBytes acts = [] := receivedBytes_of_not_mem fun _ hmem => by cases h _ hmem

/-! ### One run -/

/-- What a run of the handler does is neither a reading nor another run. -/
theorem handlerRuns_of_isEffect {acts : List Action} (h : ∀ a ∈ acts, a.isEffect = true)
    (received : Bytes) : handlerRuns received acts = [] ∧ receivedBytes acts = [] :=
  ⟨handlerRuns_of_not_mem fun _ hmem => (by cases h _ hmem),
    receivedBytes_of_not_mem fun _ hmem => (by cases h _ hmem)⟩

/-- The run of a history that has one. -/
theorem Served.one_run {acts : List Action} {sys : Sys} {config : ServerConfig}
    {req : HttpRequest} {cgi : Option SocketId} (h : Served acts sys config req cgi)
    (received : Bytes) : ∃ data, handlerRuns received acts = [(data, req)] := by
  obtain ⟨before, after, hbefore, hafter, rfl⟩ := h.shape
  have hrun : ∀ r, handlerRuns r (RequestHandler.run sys config req).2 = [] := fun r =>
    (handlerRuns_of_isEffect (requestHandler_isEffect sys config req) r).1
  have hadopt : ∀ r, handlerRuns r (cgi.map Action.adopt).toList = [] := fun r =>
    handlerRuns_of_not_mem fun _ hmem => (by rcases cgi with - | g <;> simp at hmem)
  refine ⟨received ++ receivedBytes before, ?_⟩
  rw [handlerRuns_append, hbefore.runs_nil, List.nil_append, List.cons_append, List.cons_append,
    handlerRuns, handlerRuns_append, handlerRuns_append, hrun, hadopt, hafter.runs_nil]
  rfl

theorem NoHandler.sideEffects {acts : List Action} (h : NoHandler acts) :
    acts.countP Action.isSideEffect = 0 := by
  apply List.countP_eq_zero.mpr
  intro a ha
  have hplain := h a ha
  cases a with
  | recv | send | epollMod | epollDel | handOver => exact Bool.false_ne_true
  | _ => cases hplain

theorem requestHandler_sideEffects (sys : Sys) (config : ServerConfig) (req : HttpRequest) :
    (RequestHandler.run sys config req).2.countP Action.isSideEffect ≤ 1 := by
  have hout := requestHandler_outcome sys config req
  generalize RequestHandler.run sys config req = run at hout
  obtain ⟨result, actions⟩ := run
  cases hout with
  | answered hnew hasync hactions =>
      cases hactions with
      | files hfiles hone => exact List.countP_le_length.trans hone
      | noFork => exact Nat.zero_le _
      | noSocket => exact le_rfl
  | started =>
      rw [cgiInput]
      split_ifs
      · exact le_rfl
      · exact le_rfl

/-- Every side effect of a history is one of its run, of which there is one at most. -/
theorem Served.sideEffects {acts : List Action} {sys : Sys} {config : ServerConfig}
    {req : HttpRequest} {cgi : Option SocketId} (h : Served acts sys config req cgi) :
    acts.countP Action.isSideEffect ≤ 1 := by
  obtain ⟨before, after, hbefore, hafter, rfl⟩ := h.shape
  have hadopt : (cgi.map Action.adopt).toList.countP Action.isSideEffect = 0 := by
    rcases cgi with - | g
    · rfl
    · rfl
  rw [List.countP_append, List.countP_append, List.cons_append, List.countP_cons_of_neg
    (show ¬ Action.isSideEffect (.runHandler req) = true from Bool.false_ne_true),
    List.countP_append, hadopt, hbefore.sideEffects, hafter.sideEffects]
  have hone := requestHandler_sideEffects sys config req
  omega

/-- Behind a run of the handler there is one. -/
theorem handlerRuns_le {acts acts' : List Action} (h : acts <+: acts') (received : Bytes) :
    handlerRuns received acts <+: handlerRuns received acts' := by
  obtain ⟨rest, rfl⟩ := h
  rw [handlerRuns_append]
  exact List.prefix_append _ _

/-- **A history** runs the handler once at most, and no side effect comes before it. -/
theorem Recorded.once {acts : List Action} {s : Option Socket} (h : Recorded acts s) :
    (handlerRuns [] acts).length ≤ 1 ∧
      ∀ done, done <+: acts → done.countP Action.isSideEffect ≤ (handlerRuns [] done).length := by
  obtain hno | ⟨sys, config, req, cgi, hserved⟩ := h.history
  · rw [hno.runs_nil]
    refine ⟨Nat.zero_le _, fun done hdone => ?_⟩
    have hdone' : NoHandler done := fun a ha => hno a (hdone.subset ha)
    rw [hdone'.sideEffects]
    exact Nat.zero_le _
  · obtain ⟨data, hruns⟩ := hserved.one_run []
    refine ⟨by rw [hruns]; exact le_rfl, fun done hdone => ?_⟩
    have hcount : done.countP Action.isSideEffect ≤ 1 :=
      (hdone.sublist.countP_le).trans hserved.sideEffects
    obtain ⟨before, after, hbefore, -, rfl⟩ := hserved.shape
    have hrun : before ++ [.runHandler req] <+: before ++ (.runHandler req ::
        (RequestHandler.run sys config req).2 ++ (cgi.map Action.adopt).toList ++ after) := by
      refine ⟨(RequestHandler.run sys config req).2 ++ (cgi.map Action.adopt).toList ++ after, ?_⟩
      simp only [List.append_assoc, List.cons_append, List.nil_append]
    have hbehind : before ++ [.runHandler req] <+: done →
        done.countP Action.isSideEffect ≤ (handlerRuns [] done).length := by
      intro hbegins
      have hle := (handlerRuns_le hbegins []).length_le
      rw [handlerRuns_append, hbefore.runs_nil] at hle
      exact hcount.trans hle
    -- the part ends before the run, or behind it
    obtain hshort | hlong := List.prefix_or_prefix_of_prefix hdone hrun
    · obtain rfl | hshort := List.prefix_concat_iff.mp hshort
      · exact hbehind (List.prefix_refl _)
      · have hdone' : NoHandler done := fun a ha => hbefore a (hshort.subset ha)
        rw [hdone'.sideEffects]
        exact Nat.zero_le _
    · exact hbehind hlong

/-! ### One event -/

section Event

variable {c : ClientSocket} {self newId : SocketId} {events : Events} {ans : ClientSocket.Answers}
  {hd : ClientSocket.Handled}

/-- **An input that leaves the connection listening** has been parsed. -/
theorem ClientSocket.handleEvent_parses (hin : events.epollIn = true) (hout : events.epollOut = false)
    (hh : c.handleEvent self newId events ans = some hd) :
    hd.removeSocket = true ∨ .epollMod EPOLLOUT ∈ hd.actions ∨
      (HttpRequest.parse (receivedBytes hd.actions)).run c.req = .ok () hd.client.req := by
  have hr := handleEvents_in self newId ans hin hout { client := c.touch ans.now }
  have hcaught := handleEvent_caught hh
  generalize (handleEvents self newId events ans).run { client := c.touch ans.now } = r at hr hcaught
  cases hcaught with
  | @refused status res hres h2 =>
      rw [refuse]
      dsimp only
      split_ifs
      · exact .inr (.inl (List.mem_append_right _ (List.mem_singleton.mpr rfl)))
      · exact .inl rfl
  | closed => exact .inl rfl
  | returned =>
      cases hr with
      | waits hdata hparse =>
          refine .inr (.inr ?_)
          have hone : ∀ data, receivedBytes [.recv data] = data := fun data => List.append_nil _
          show (HttpRequest.parse (receivedBytes [.recv _])).run c.req = _
          rw [hone]
          exact hparse
      | answered =>
          exact .inr (.inl (List.mem_append_right _ (List.mem_singleton.mpr rfl)))
      | @started data req fd0 fd1 pid path envp hdata hparse hstate hrun =>
          refine .inr (.inr ?_)
          -- starting a program receives nothing from the client
          have hactions : receivedBytes ([.socketpair fd0 fd1, .fork pid, .execve path envp,
              .close fd1] ++ cgiInput ans.sys req) = [] := by
            refine (handlerRuns_of_isEffect (fun a ha => ?_) []).2
            have hrun' : RequestHandler.run ans.sys c.config req = _ := hrun
            have hmem : a ∈ (RequestHandler.run ans.sys c.config req).2 := by
              rw [hrun']
              exact ha
            exact requestHandler_isEffect _ _ _ a hmem
          have hreceived : receivedBytes (((Handled.ran { client := c.touch ans.now } data req
              ([.socketpair fd0 fd1, .fork pid, .execve path envp, .close fd1] ++
                cgiInput ans.sys req) ((HttpResponse.ofStatus .kOk).toHttpString ans.date)).adopt
              self newId { fd := fd0, lastActivityTime := ans.sys.now, pid := some pid }).actions) =
              data := by
            show receivedBytes ((.recv data :: .runHandler req ::
              ([.socketpair fd0 fd1, .fork pid, .execve path envp, .close fd1] ++
                cgiInput ans.sys req)) ++ [.adopt newId]) = data
            rw [receivedBytes_append]
            show data ++ receivedBytes _ ++ receivedBytes [.adopt newId] = data
            rw [hactions, List.append_nil]
            exact List.append_nil _
          rw [hreceived]
          exact hparse

/-- **A run of the handler** is behind an input that completes the request. -/
theorem ClientSocket.handleEvent_runs (hh : c.handleEvent self newId events ans = some hd)
    {received : Bytes} {e : Bytes × HttpRequest} (he : e ∈ handlerRuns received hd.actions) :
    events.epollIn = true ∧ ∃ data, e.1 = received ++ data ∧
      (HttpRequest.parse data).run c.req = .ok () e.2 ∧ e.2.state = .kDone := by
  obtain ⟨h1, hreads, htail⟩ := handleEvent_readsOn hh
  obtain ⟨tail, hactions, htail'⟩ := htail.actions
  rw [hactions, handlerRuns_append, (noHandler_of_isTail htail').runs_nil, List.append_nil] at he
  obtain rfl | ⟨hin, hreads⟩ := hreads
  · cases he
  · refine ⟨hin, ?_⟩
    cases hreads with
    | idle => cases he
    | received => cases he
    | @answered data req result actions text hdata hparse hstate hrun =>
        have heffect : ∀ a ∈ actions, a.isEffect = true := by
          have hactions := requestHandler_isEffect ans.sys c.config req
          have hrun : RequestHandler.run ans.sys c.config req = (result, actions) := hrun
          rw [hrun] at hactions
          exact hactions
        have he : e ∈ (received ++ data, req) :: handlerRuns (received ++ data) actions := he
        rw [(handlerRuns_of_isEffect heffect _).1] at he
        obtain rfl := List.mem_singleton.mp he
        exact ⟨data, rfl, hparse, hstate⟩
    | @started data req fd0 fd1 pid path envp text hdata hparse hstate hrun =>
        have hrun : RequestHandler.run ans.sys c.config req = _ := hrun
        have heffect := requestHandler_isEffect ans.sys c.config req
        rw [hrun] at heffect
        have hone : ∀ r, handlerRuns r [.adopt newId] = [] := fun r => rfl
        have he : e ∈ handlerRuns received ((.recv data :: .runHandler req ::
          ([.socketpair fd0 fd1, .fork pid, .execve path envp, .close fd1] ++
            cgiInput ans.sys req)) ++ [.adopt newId]) := he
        rw [handlerRuns_append, hone, List.append_nil] at he
        have he : e ∈ (received ++ data, req) :: handlerRuns (received ++ data) _ := he
        rw [(handlerRuns_of_isEffect heffect _).1] at he
        obtain rfl := List.mem_singleton.mp he
        exact ⟨data, rfl, hparse, hstate⟩

end Event

/-- **A connection that has been told to send** hears nothing more. -/
theorem turned_deaf {w w' : World} {l : Label} {id : SocketId} {c : ClientSocket} {events : Events}
    {rest : List (SocketId × Events)} {time : Int} {ans : ClientSocket.Answers} {epollAdd : Bool}
    {hd : ClientSocket.Handled} (hw : EpollInv w) (hturn : World.Turned w l w')
    (hl : l = .clientEvent time ans epollAdd) (hc : w.control = .handling ((id, events) :: rest))
    (hs : w.heap id = some (.client c)) (hh : c.handleEvent id w.nextId events ans = some hd)
    (hmod : .epollMod EPOLLOUT ∈ hd.actions) : Deaf w' id := by
  have hlisted : Listed w := by
    apply hw.listed
    rw [hc]
    exact Control.noConfusion
  have hhead := hw.reported.head hc
  subst hl
  cases hturn with
  | @handles _ id' events' rest' s _ w1 hc' hs' h =>
      rw [hc] at hc'
      cases hc'
      rw [hs] at hs'
      cases hs'
      cases h with
      | client h =>
          obtain ⟨hd', hfit, hhd', rfl⟩ := World.clientEvent_cases h
          have hhd : c.handleEvent id w.nextId events ans = some hd' := hhd'
          rw [hh] at hhd
          cases hhd
          obtain ⟨hnote, -⟩ := hlisted.of_kernel
            (note_same rfl : SameObjects w (w.note (.dispatched id time))) rfl
          obtain ⟨-, hout⟩ := clientHandled_listed hnote hs hfit hhd' epollAdd
          refine fun _ => ⟨hout hmod, fun e he hown => ?_⟩
          have he : e ∈ (World.nextTurn .handling .top rest).events := he
          rw [Control.events_handling] at he
          exact absurd hown (hhead e he)

/-! ### Lives -/

/-- **How requests are read**: what they are between two calls of `Parse`, and in the end. -/
structure ReadsRequests (Part : Nat → Bytes → HttpRequest → Prop) (Whole : Bytes → HttpRequest → Prop) :
    Prop where
  fresh : ∀ {limit : Nat}, NoWrap limit → ∀ ip : UInt32,
    Part limit [] { HttpRequest.fresh limit with clientIp := ipv4ToString ip }
  parse : ∀ {limit : Nat} {received data : Bytes} {r t : HttpRequest}, NoWrap limit →
    Part limit received r → (HttpRequest.parse data).run r = .ok () t →
    Whole (received ++ data) t ∨ Part limit (received ++ data) t
  part_not_done : ∀ {limit : Nat} {received : Bytes} {r : HttpRequest}, Part limit received r →
    r.state ≠ .kDone
  whole_done : ∀ {received : Bytes} {r : HttpRequest}, Whole received r → r.state = .kDone

theorem partway_reads : ReadsRequests Partway WholeRequest where
  fresh hlimit ip := .fresh hlimit (ipv4ToString ip)
  parse hlimit hpart hrun := hpart.parse hlimit hrun
  part_not_done hpart := hpart.not_done
  whole_done hwhole := hwhole.done

/-- **What the socket `id` has been given**: its handler has run on whole requests, and a
connection that still listens is between two calls of `Parse`. -/
structure Fed (Part : Nat → Bytes → HttpRequest → Prop) (Whole : Bytes → HttpRequest → Prop) (w : World)
    (id : SocketId) (acts : List Action) (s : Option Socket) : Prop where
  whole : ∀ e ∈ handlerRuns [] acts, Whole e.1 e.2
  client : ∀ c, s = some (.client c) → c.req.state = .kDone ∨ Deaf w id ∨
    Part (toSize c.config.maxBodySize) (receivedBytes acts) c.req

section Steps

variable {Part : Nat → Bytes → HttpRequest → Prop} {Whole : Bytes → HttpRequest → Prop}
  {w w' : World} {l : Label} {id : SocketId} {acts acts' : List Action} {s s' : Option Socket}

/-- A socket that is no connection. -/
theorem Fed.of_whole (h : ∀ e ∈ handlerRuns [] acts, Whole e.1 e.2)
    (hs : ∀ c, s ≠ some (.client c)) : Fed Part Whole w id acts s := ⟨h, fun c hc => absurd hc (hs c)⟩

/-- More of what neither reads nor runs the handler. -/
theorem Fed.whole_append (h : ∀ e ∈ handlerRuns [] acts, Whole e.1 e.2)
    (hno : NoHandler acts') : ∀ e ∈ handlerRuns [] (acts ++ acts'), Whole e.1 e.2 := by
  rw [handlerRuns_append, hno.runs_nil, List.append_nil]
  exact h

/-- **A step in the life of a connection.** -/
theorem Life.fed (hreads : ReadsRequests Part Whole) (hlife : Life w l id acts s acts' s') (hw : EpollInv w)
    (hturn : World.Turned w l w') (hdeaf : s ≠ none → Deaf w id → Deaf w' id)
    (hlimit : ∀ c, s = some (.client c) ∨ s' = some (.client c) →
      NoWrap (toSize c.config.maxBodySize)) (h : Fed Part Whole w id acts s) :
    Fed Part Whole w' id acts' s' := by
  cases hlife with
  | same =>
      refine ⟨h.whole, fun c hc => ?_⟩
      refine (h.client c hc).imp_right (Or.imp_left (hdeaf ?_))
      rw [hc]
      exact Option.some_ne_none _
  | gone => exact .of_whole h.whole fun _ hc => (by cases hc)
  | opened | started => exact .of_whole (fun _ he => absurd he List.not_mem_nil) fun _ hc => (by cases hc)
  | accepted hid s fd ip now =>
      refine ⟨fun _ he => absurd he List.not_mem_nil, fun c hc => .inr (.inr ?_)⟩
      have hwrap := hlimit c (.inr hc)
      cases hc
      exact hreads.fresh hwrap ip
  | @event acts c events rest time ans epollAdd hd hc hl hs hh =>
      have hold : c.req.state = .kDone ∨ Deaf w id ∨
          Part (toSize c.config.maxBodySize) (receivedBytes acts) c.req :=
        h.client { c with cgiSocket := none } rfl
      -- a connection that hears something and is not done
      have hpart : events.epollIn = true → c.req.state ≠ .kDone →
          Part (toSize c.config.maxBodySize) (receivedBytes acts) c.req := by
        intro hin hstate
        refine (hold.resolve_left hstate).resolve_left fun hdeaf => ?_
        rw [hdeaf.epollIn hc] at hin
        cases hin
      have hparse : ∀ {data : Bytes} {req : HttpRequest}, events.epollIn = true →
          (HttpRequest.parse data).run c.req = .ok () req →
          Whole (receivedBytes acts ++ data) req ∨
            Part (toSize c.config.maxBodySize) (receivedBytes acts ++ data) req :=
        fun hin hrun => hreads.parse (hlimit { c with cgiSocket := none } (.inl rfl))
          (hpart hin (not_done_of_parse hrun)) hrun
      refine ⟨fun e he => ?_, fun c' hc' => ?_⟩
      · rw [handlerRuns_append, List.mem_append, List.nil_append] at he
        obtain he | he := he
        · exact h.whole e he
        · obtain ⟨hin, data, hreceived, hrun, hdone⟩ := ClientSocket.handleEvent_runs hh he
          rw [hreceived]
          exact (hparse hin hrun).resolve_right fun hpart => hreads.part_not_done hpart hdone
      · split_ifs at hc' with hremove
        cases hc'
        show hd.client.req.state = .kDone ∨ Deaf w' id ∨
          Part (toSize hd.client.config.maxBodySize) (receivedBytes (acts ++ hd.actions)) hd.client.req
        rw [receivedBytes_append, (ClientSocket.handleEvent_base hh).2.2]
        rcases hin : events.epollIn with - | -
        · -- nothing is read
          obtain ⟨h1, hreads, htail⟩ := ClientSocket.handleEvent_readsOn hh
          obtain rfl | ⟨hin', -⟩ := hreads
          · obtain ⟨buffer, hclient⟩ := htail.client
            obtain ⟨tail, hactions, htail'⟩ := htail.actions
            have hreq : hd.client.req = c.req := by
              rw [hclient]
              rfl
            have hnone : receivedBytes hd.actions = [] := by
              rw [hactions]
              exact receivedBytes_of_isTail htail'
            rw [hreq, hnone, List.append_nil]
            exact hold.imp_right (Or.imp_left (hdeaf (Option.some_ne_none _)))
          · rw [hin] at hin'
            cases hin'
        · have hout : events.epollOut = false := by
            rcases hevent : events.epollOut with - | -
            · rfl
            · rw [(hw.deaf_of_out hc hevent).2] at hin
              cases hin
          obtain hremoved | hmod | hrun := ClientSocket.handleEvent_parses hin hout hh
          · exact absurd hremoved hremove
          · exact .inr (.inl (turned_deaf hw hturn hl hc hs hh hmod))
          · exact (hparse hin hrun).elim (fun hwhole => .inl (hreads.whole_done hwhole)) fun hpart => .inr (.inr hpart)
  | @answered acts c g t events rest time ans cans hc hl hg howner hend hreg hs res hres =>
      have hnone : receivedBytes (c.answer res cans).actions = [] := by
        rw [ClientSocket.answer]
        dsimp only
        split_ifs
        · rfl
        · rfl
      refine ⟨Fed.whole_append h.whole (noHandler_answer c res cans), fun c' hc' => ?_⟩
      cases hc'
      have hold : c.req.state = .kDone ∨ Deaf w id ∨
          Part (toSize c.config.maxBodySize) (receivedBytes acts) c.req :=
        h.client { c with cgiSocket := none } rfl
      rw [receivedBytes_append, hnone, List.append_nil]
      exact hold.imp_right (Or.imp_left (hdeaf (Option.some_ne_none _)))
  | @expired acts c now fd entries sends date hc hl hs hout =>
      obtain ⟨tail, hactions, htail⟩ := (ClientSocket.handleTimeout_tail c sends date).actions
      rw [hactions, List.nil_append]
      exact .of_whole (Fed.whole_append h.whole (noHandler_of_isTail htail)) fun _ hc' => (by cases hc')
  | printed hwrite hacts =>
      exact .of_whole (Fed.whole_append h.whole (noHandler_of_isCgi hacts)) fun _ hc' => (by cases hc')
  | ended g hacts =>
      exact .of_whole (Fed.whole_append h.whole (noHandler_of_isCgi hacts)) fun _ hc' => (by cases hc')

end Steps

/-! ### Limits of the file -/

theorem ReadsBlock.maxBody {cwd : Option Bytes} {p q : ConfigParser} {config config' : ServerConfig}
    {ds : List Directive} (h : ReadsBlock (parseServerDirective cwd) p config ds q config')
    (hold : 0 ≤ config.maxBodySize ∧ config.maxBodySize ≤ 100000000) :
    0 ≤ config'.maxBodySize ∧ config'.maxBodySize ≤ 100000000 := by
  induction h with
  | nil => exact hold
  | cons hkeyword hrun htaken h ih =>
      apply ih
      cases parseServerDirective_effect hrun htaken with
      | maxBody hunset hmin hmax => exact ⟨hmin, hmax⟩
      | listen | serverName | errorPage | location => exact hold

/-- The limit of a file that is accepted wraps nowhere. -/
theorem parse_noWrap {cwd : Option Bytes} {content : Bytes} {configs : List ServerConfig}
    (h : ConfigParser.parse cwd content = .ok configs) {config : ServerConfig}
    (hconfig : config ∈ configs) : NoWrap (toSize config.maxBodySize) := by
  obtain ⟨bs, hbs, rfl⟩ := parse_iff.mp h
  obtain ⟨b, hb, rfl⟩ := List.mem_map.mp hconfig
  obtain ⟨p1, q1, hblock⟩ := hbs.mem b hb
  obtain ⟨hmin, hmax⟩ := hblock.maxBody ⟨le_rfl, by decide⟩
  have hsize := toSize_eq hmin (by unfold sizeMod; omega)
  unfold NoWrap stringMaxSize
  omega

/-! ### Runs -/

section Runs

variable {configFile content : Bytes} {ans : StartAnswers} {w : World} {configs : List ServerConfig}

theorem runsFrom_noWrap (hload : loadFileOrThrowRuntime configFile ans.file = .ok content)
    (hparse : ConfigParser.parse ans.cwd content = .ok configs) (h : w.RunsFrom configFile ans)
    {id : SocketId} {c : ClientSocket} (hc : w.coreOf id = some (.client c)) :
    NoWrap (toSize c.config.maxBodySize) := by
  have hrole : w.roleOf id = some (.client c.config) := by
    rw [World.roleOf, hc]
    rfl
  have hmem := (runsFrom_listens hload hparse h).clients id c.config hrole
  exact parse_noWrap hparse (List.mem_of_find?_eq_some (mem_portConfigs.mp hmem))

theorem runsFrom_fed {Part : Nat → Bytes → HttpRequest → Prop} {Whole : Bytes → HttpRequest → Prop}
    (hreads : ReadsRequests Part Whole) (hload : loadFileOrThrowRuntime configFile ans.file = .ok content)
    (hparse : ConfigParser.parse ans.cwd content = .ok configs) (h : w.RunsFrom configFile ans)
    (id : SocketId) : Fed Part Whole w id (actionsOf w.log id) (w.coreOf id) := by
  revert id
  apply h.invariant_under (fun w hw => hw)
  · intro w hw id
    obtain ⟨_, _, _, -, -, rfl⟩ := construct_eq_ok hw
    exact .of_whole (fun _ he => absurd he List.not_mem_nil) fun _ hc => (by cases hc)
  · intro w l w' hw _ hfed _ hst id
    have hreach := World.RunsFrom.reachable hw
    have hloop := reachable_runInv hreach
    have hepoll := reachable_epollInv hreach
    have hlife := (step_lives hloop hst).2 id
    have hw' : w'.RunsFrom configFile ans := .next hw trivial hst
    obtain ⟨w1, hturn, rfl⟩ := World.step_cases hst
    have hdeaf : w.coreOf id ≠ none → Deaf w id → Deaf w1 id := fun hne hdeaf => by
      obtain ⟨s, hs⟩ := Option.ne_none_iff_exists'.mp fun hnone => hne (World.coreOf_eq_none.mpr hnone)
      exact hdeaf.turned hloop.toLoopInv hepoll (hloop.lt hs) hturn
    have hlimit : ∀ c, w.coreOf id = some (.client c) ∨ w1.coreOf id = some (.client c) →
        NoWrap (toSize c.config.maxBodySize) := fun c hc =>
      hc.elim (runsFrom_noWrap hload hparse hw) (runsFrom_noWrap hload hparse hw')
    have hfed' : Fed Part Whole w1 id (actionsOf w1.log id) (w1.coreOf id) :=
      hlife.fed hreads hepoll hturn hdeaf hlimit (hfed id)
    exact ⟨hfed'.whole, hfed'.client⟩

/-- **Side effects at most once.**  In every run of the program, whatever a connection is given and
however it ends, the request handler runs once at most, on a request that is done and whose head
and body have been received as a whole; so it changes one file or starts one program at most. -/
theorem sideEffects_once (h : w.RunsFrom configFile ans) (id : SocketId) :
    (handlerRuns [] (actionsOf w.log id)).length ≤ 1 ∧
      (∀ e ∈ handlerRuns [] (actionsOf w.log id), e.2.state = .kDone ∧ WholeRequest e.1 e.2) ∧
      (actionsOf w.log id).countP Action.isSideEffect ≤ 1 := by
  obtain ⟨honce, heffects⟩ := (reachable_recorded h.reachable id).once
  obtain ⟨content, configs, hload, hparse⟩ := h.loads
  have hwhole := (runsFrom_fed partway_reads hload hparse h id).whole
  exact ⟨honce, fun e he => ⟨(hwhole e he).done, hwhole e he⟩,
    (heffects _ (List.prefix_refl _)).trans honce⟩

/-- **Side effects are those of the run.**  At no time has a connection had more of them than runs
of the handler, and all that it does besides reading and replying is what `Run` does with its
request and the answers of the system. -/
theorem oneRun_wholeRequest (h : w.RunsFrom configFile ans) (id : SocketId) :
    (handlerRuns [] (actionsOf w.log id)).length ≤ 1 ∧
      (∀ e ∈ handlerRuns [] (actionsOf w.log id), WholeRequest e.1 e.2) ∧
      (∀ done, done <+: actionsOf w.log id →
        done.countP Action.isSideEffect ≤ (handlerRuns [] done).length) ∧
      (NoHandler (actionsOf w.log id) ∨ ∃ sys config cgi, ∃ e ∈ handlerRuns [] (actionsOf w.log id),
        Served (actionsOf w.log id) sys config e.2 cgi) := by
  have hrecorded := reachable_recorded h.reachable id
  obtain ⟨honce, heffects⟩ := hrecorded.once
  obtain ⟨content, configs, hload, hparse⟩ := h.loads
  refine ⟨honce, (runsFrom_fed partway_reads hload hparse h id).whole, heffects, ?_⟩
  obtain hno | ⟨sys, config, req, cgi, hserved⟩ := hrecorded.history
  · exact .inl hno
  · obtain ⟨data, hruns⟩ := hserved.one_run []
    refine .inr ⟨sys, config, cgi, (data, req), ?_, hserved⟩
    rw [hruns]
    exact List.mem_singleton.mpr rfl

end Runs

/-- A file with one block, whose clients may store two bytes. -/
def storing : StartAnswers where
  file := ⟨some .regular, some (bytes
    "server \x7b client_max_body_size 2; location / \x7b root /srv; \x7d \x7d")⟩
  cwd := none
  epollCreate := .ok 3
  open_ := [0, 1, 2]
  clock := 0

/-- A connection stores them, and gives the second one on its own. -/
def storeRun : List Label :=
  [.openServer (some 4) 0 true, .checkTimeout 0, .visit [] none,
    .epollWait (some [(⟨4, 4, 0, EPOLLIN⟩, EPOLLIN)]), .serverEvent 0 ⟨some (5, 0), none, 0⟩ true,
    .checkTimeout 0, .visit [] none, .visit [] none,
    .epollWait (some [(⟨5, 5, 1, EPOLLIN⟩, EPOLLIN)]),
    .clientEvent 0 ⟨0, some (bytes "POST /x HTTP/1.1\r\nHost: a\r\nContent-Length: 2\r\n\r\na"),
      sampleSys, none, true, none, none, none⟩ true,
    .checkTimeout 0, .visit [] none, .visit [] none,
    .epollWait (some [(⟨5, 5, 1, EPOLLIN⟩, EPOLLIN)]),
    .clientEvent 0 ⟨0, some (bytes "b"), sampleSys, none, true, none, none, none⟩ true]

theorem sideEffects_once_storeRun : ∃ w : World,
    (actionsOf w.log 1).countP Action.isSideEffect = 1 ∧
      (handlerRuns [] (actionsOf w.log 1)).length ≤ 1 ∧
      (∀ e ∈ handlerRuns [] (actionsOf w.log 1), e.2.state = .kDone ∧ WholeRequest e.1 e.2) ∧
      (actionsOf w.log 1).countP Action.isSideEffect ≤ 1 := by
  have hrun : ((construct [] storing).toOption.bind fun w => Transition.run World.step w storeRun).map
      (fun w => (actionsOf w.log 1).countP Action.isSideEffect) = some 1 := by
    decide +kernel
  obtain ⟨w, hw, hcount⟩ := Option.map_eq_some_iff.mp hrun
  obtain ⟨-, -, -, -, hreach⟩ := runsFrom_of_run hw
  exact ⟨w, hcount, sideEffects_once hreach 1⟩

theorem oneRun_wholeRequest_storeRun : ∃ w : World,
    (handlerRuns [] (actionsOf w.log 1)).map (fun e => e.2.body) = [bytes "ab"] ∧
      (handlerRuns [] (actionsOf w.log 1)).length ≤ 1 ∧
      (∀ e ∈ handlerRuns [] (actionsOf w.log 1), WholeRequest e.1 e.2) ∧
      (∀ done, done <+: actionsOf w.log 1 →
        done.countP Action.isSideEffect ≤ (handlerRuns [] done).length) ∧
      (NoHandler (actionsOf w.log 1) ∨ ∃ sys config cgi, ∃ e ∈ handlerRuns [] (actionsOf w.log 1),
        Served (actionsOf w.log 1) sys config e.2 cgi) := by
  have hrun : ((construct [] storing).toOption.bind fun w => Transition.run World.step w storeRun).map
      (fun w => (handlerRuns [] (actionsOf w.log 1)).map (fun e => e.2.body)) = some [bytes "ab"] := by
    decide +kernel
  obtain ⟨w, hw, hbodies⟩ := Option.map_eq_some_iff.mp hrun
  obtain ⟨-, -, -, -, hreach⟩ := runsFrom_of_run hw
  exact ⟨w, hbodies, oneRun_wholeRequest hreach 1⟩

end Webserv
