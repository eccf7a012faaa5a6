/-
Webserv/CgiInput.lean

The body of a request, on its way to a CGI program.

`CgiExecutor::Run` writes to a socket that does not block, once, and keeps nothing: what
`write` does not take is lost.
-/
import Webserv.Histories

namespace Webserv

/-! ### Completed requests -/

/-- A request that an event completes, with the connection and what the system answers. -/
structure Completion where
  client : ClientSocket
  req : HttpRequest
  ans : ClientSocket.Answers
  /-- a new socket can be registered -/
  epollAdd : Bool

/-- The request starts a CGI program. -/
def Completion.Starts (e : Completion) : Prop :=
  (RequestHandler.run e.ans.sys e.client.config e.req).1.newSocket.isSome = true

instance (e : Completion) : Decidable e.Starts := inferInstanceAs (Decidable (_ = true))

/-- The request that a step completes, if it does. -/
def World.completion (w : World) : Label → Option Completion
  | .clientEvent _ ans epollAdd =>
      match w.control with
      | .handling ((id, events) :: _) =>
          match w.heap id with
          | some (.client c) => (c.completed events ans).map fun req => ⟨c, req, ans, epollAdd⟩
          | _ => none
      | _ => none
  | _ => none

/-- The step completes this request, of the connection `id`, and leaves this. -/
structure CompletesAt (w : World) (l : Label) (id : SocketId) (e : Completion)
    (hd : ClientSocket.Handled) : Prop where
  label : ∃ time, l = .clientEvent time e.ans e.epollAdd
  event : ∃ events rest, w.control = .handling ((id, events) :: rest) ∧
    e.client.completed events e.ans = some e.req ∧
    e.client.handleEvent id w.nextId events e.ans = some hd
  heap : w.heap id = some (.client e.client)
  served : Served hd.actions e.ans.sys e.client.config e.req (hd.newSocket.map fun _ => w.nextId)

theorem CompletesAt.completion_eq {w : World} {l : Label} {id : SocketId} {e : Completion}
    {hd : ClientSocket.Handled} (h : CompletesAt w l id e hd) : w.completion l = some e := by
  obtain ⟨time, rfl⟩ := h.label
  obtain ⟨events, rest, hcontrol, hreq, -⟩ := h.event
  rw [World.completion, hcontrol]
  dsimp only
  rw [h.heap]
  dsimp only
  rw [hreq]
  rfl

/-! ### Steps in a history -/

section Steps

variable {w w' : World} {l : Label} {id : SocketId} {acts acts' : List Action} {s s' : Option Socket}

/-- **What a step adds to a history**: no run of the request handler, or the run for the
request that the step completes. -/
theorem Life.grows (hlife : Life w l id acts s acts' s') :
    ∃ extra, acts' = acts ++ extra ∧
      (NoHandler extra ∨ ∃ e hd, CompletesAt w l id e hd ∧ extra = hd.actions) := by
  cases hlife with
  | same | gone | opened | accepted | started =>
      exact ⟨[], (List.append_nil _).symm, .inl .nil⟩
  | @event _ c events rest time ans epollAdd hd hc hl hs hh =>
      refine ⟨hd.actions, rfl, ?_⟩
      obtain ⟨hno, -, -⟩ | ⟨hcompleted, hserved⟩ := handleEvent_history hh
      · exact .inl hno
      · refine .inr ⟨⟨c, hd.client.req, ans, epollAdd⟩, hd, ⟨⟨time, hl⟩, ?_, hs, hserved⟩, rfl⟩
        exact ⟨events, rest, hc, hcompleted, hh⟩
  | @answered _ c g t events rest time ans cans hc hl hg howner hend hreg hs res hres =>
      exact ⟨_, rfl, .inl (noHandler_answer c res cans)⟩
  | @expired _ c now fd entries sends date hc hl hs hout =>
      obtain ⟨tail, hactions, htail⟩ := (ClientSocket.handleTimeout_tail c sends date).actions
      rw [hactions, List.nil_append]
      exact ⟨tail, rfl, .inl (noHandler_of_isTail htail)⟩
  | printed hwrite hacts => exact ⟨_, rfl, .inl (noHandler_of_isCgi hacts)⟩
  | ended g hacts => exact ⟨_, rfl, .inl (noHandler_of_isCgi hacts)⟩

/-- A CGI socket that is there behind a step was there, or has been registered. -/
theorem Life.cgi_before {g' : CgiSocket} (hlife : Life w l id acts s acts' (some (.cgi g'))) :
    (∃ g, s = some (.cgi g)) ∨
      id = w.nextId ∧ ∃ time ans, l = .clientEvent time ans true := by
  generalize hs' : some (Socket.cgi g') = s' at hlife
  cases hlife with
  | same => exact .inl ⟨g', hs'.symm⟩
  | gone => cases hs'
  | opened => cases hs'
  | accepted => cases hs'
  | started hid hl => exact .inr ⟨hid, _, _, hl⟩
  | event =>
      split_ifs at hs'
      cases hs'
  | answered => cases hs'
  | expired => cases hs'
  | printed => exact .inl ⟨_, rfl⟩
  | ended => cases hs'

/-- A new socket takes an address. -/
theorem turned_nextId_lt {e : Completion} {hd : ClientSocket.Handled} (he : CompletesAt w l id e hd)
    (hnew : hd.newSocket.isSome = true) (h : World.Turned w l w') : w.nextId < w'.nextId := by
  obtain ⟨time, hl⟩ := he.label
  obtain ⟨events, rest, hcontrol, -, hh⟩ := he.event
  cases h with
  | @handles time' id' events' rest' s l w1 hc hs hev =>
      rw [hcontrol] at hc
      cases hc
      rw [he.heap] at hs
      cases hs
      subst hl
      cases hev with
      | client hev =>
          obtain ⟨hd', -, hhd', rfl⟩ := World.clientEvent_cases hev
          have hsame : some hd' = some hd := hhd'.symm.trans hh
          cases hsame
          have hlt : (w.note (.dispatched id time)).nextId <
              ((w.note (.dispatched id time)).clientHandled id e.client.fd hd e.epollAdd).nextId :=
            clientHandled_nextId_lt hnew
          exact hlt
  | _ => cases hl

/-- A CGI socket that has been given to a connection has its address. -/
def AdoptsOld (w : World) : Prop := ∀ id g, Action.adopt g ∈ actionsOf w.log id → g < w.nextId

theorem step_adoptsOld (hw : RunInv w) (hold : AdoptsOld w) (h : w.step l = some w') :
    AdoptsOld w' := by
  intro id g hmem
  obtain ⟨w1, hturn, rfl⟩ := World.step_cases h
  have hlife : w.Lives l w1 id := turned_lives hw.toLoopInv hw.silent hturn id
  obtain ⟨extra, hacts, hextra⟩ := hlife.grows
  have hmem : Action.adopt g ∈ actionsOf w1.log id := hmem
  show g < w1.nextId
  rw [hacts] at hmem
  obtain hmem | hmem := List.mem_append.mp hmem
  · exact (hold id g hmem).trans_le (turned_nextId hturn)
  · obtain hno | ⟨e, hd, he, rfl⟩ := hextra
    · cases hno _ hmem
    · obtain ⟨new, hnew, rfl⟩ := Option.map_eq_some_iff.mp (he.served.adopt_mem.mp hmem)
      exact turned_nextId_lt he (by rw [hnew]; rfl) hturn

/-! ### The body of a request -/

/-- The bytes that a CGI program has been given. -/
def written (acts : List Action) : Bytes :=
  acts.flatMap fun
    | .writeCgi data accepted => data.take accepted
    | _ => []

theorem NoHandler.written_eq (h : NoHandler acts) : written acts = [] := by
  rw [written, List.flatMap_eq_nil_iff]
  intro a ha
  have hplain := h a ha
  cases a with
  | writeCgi => cases hplain
  | _ => rfl

theorem written_append (acts acts' : List Action) :
    written (acts ++ acts') = written acts ++ written acts' := List.flatMap_append

/-- What the program of a request has been given. -/
theorem Served.written_eq {sys : Sys} {config : ServerConfig} {req : HttpRequest}
    {cgi : Option SocketId} (h : Served acts sys config req cgi) (hcgi : cgi.isSome = true)
    (hpost : req.method = .kPost) : written acts = req.body.take (sys.write.getD 0) := by
  obtain ⟨before, after, hbefore, hafter, rfl⟩ := h.shape
  rw [h.cgi_isSome] at hcgi
  have hout := requestHandler_outcome sys config req
  have hrun : written (RequestHandler.run sys config req).2 =
      req.body.take (sys.write.getD 0) := by
    generalize hresult : RequestHandler.run sys config req = run at hout hcgi
    obtain ⟨result, actions⟩ := run
    cases hout with
    | answered hnew =>
        dsimp only at hcgi
        rw [hnew] at hcgi
        cases hcgi
    | started hpair hfork =>
        have hinput : cgiInput sys req =
            [.writeCgi req.body (min req.body.length (sys.write.getD 0))] := if_pos hpost
        rw [hinput]
        show req.body.take (min req.body.length (sys.write.getD 0)) ++ [] = _
        rw [List.append_nil, Nat.min_comm, ← List.take_take, List.take_length]
  have hadopt : written ((cgi.map Action.adopt).toList) = [] := by
    rcases cgi with - | g
    · rfl
    · rfl
  have hhandler : written [Action.runHandler req] = [] := rfl
  rw [written_append, hbefore.written_eq, List.nil_append, written_append, hafter.written_eq,
    List.append_nil, written_append, hadopt, List.append_nil, ← List.singleton_append, written_append,
    hhandler, hrun, List.nil_append]

/-- **No byte is dropped**: what the program of a `POST` has been given, and what its socket
keeps, are the body. -/
def Lossless (w : World) : Prop :=
  ∀ g s id req, w.heap g = some (.cgi s) → Entry.acted id (.adopt g) ∈ w.log →
    Entry.acted id (.runHandler req) ∈ w.log → req.method = .kPost →
    written (actionsOf w.log id) ++ s.writeBuffer = req.body

/-- `write` takes the whole body of a `POST` that starts a program. -/
def WritesAll (w : World) (l : Label) : Prop :=
  ∀ e ∈ w.completion l, e.Starts → e.epollAdd = true → e.req.method = .kPost →
    e.req.body.length ≤ e.ans.sys.write.getD 0

instance (w : World) (l : Label) : Decidable (WritesAll w l) :=
  inferInstanceAs (Decidable (∀ e ∈ _, _))

theorem step_lossless (hw : RunInv w) (hold : AdoptsOld w)
    (hrec : ∀ id, Recorded (actionsOf w.log id) (w.coreOf id)) (hloss : Lossless w)
    (hl : WritesAll w l) (h : w.step l = some w') : Lossless w' := by
  intro g s id req hg hadopt hrun hpost
  have hlives := (step_lives hw h).2
  obtain ⟨extra, hacts, hextra⟩ := (hlives id).grows
  have hlife := hlives g
  -- what the hand-over could not write is kept nowhere
  have hkeeps : s.writeBuffer = [] := by
    have hrecorded := hlife.recorded (hrec g)
    rw [World.coreOf_of hg] at hrecorded
    exact hrecorded.unwritten { s with owner := none } rfl
  rw [World.Lives, World.coreOf_of hg] at hlife
  have hbefore := @Life.cgi_before w l g _ _ _ { s with owner := none } hlife
  have hadopt := mem_actionsOf.mpr hadopt
  have hrun := mem_actionsOf.mpr hrun
  rw [hkeeps, List.append_nil, hacts]
  rw [hacts] at hadopt hrun
  obtain hno | ⟨e, hd, he, rfl⟩ := hextra
  · -- nothing that matters has happened to the connection
    have hadopt := (List.mem_append.mp hadopt).resolve_right hno.adopt_not_mem
    have hrun := (List.mem_append.mp hrun).resolve_right hno.runHandler_not_mem
    rw [written_append, hno.written_eq, List.append_nil]
    obtain ⟨t, ht⟩ | ⟨hnew, -⟩ := hbefore
    · obtain ⟨s0, hs0, hcore⟩ := Option.map_eq_some_iff.mp ht
      cases s0 with
      | cgi t0 =>
          have hempty : t0.writeBuffer = [] :=
            (World.coreOf_of hs0 ▸ hrec g).unwritten { t0 with owner := none } rfl
          have hall := hloss g t0 id req hs0 (mem_actionsOf.mp hadopt) (mem_actionsOf.mp hrun) hpost
          rw [hempty, List.append_nil] at hall
          exact hall
      | server => cases hcore
      | client => cases hcore
    · exact absurd (hold id g hadopt) (by rw [hnew]; exact lt_irrefl _)
  · -- the request of this connection has just been completed
    obtain ⟨events, rest, hcontrol, hcompleted, hh⟩ := he.event
    obtain ⟨hstate, hdone⟩ := not_done_of_completed hcompleted
    have hno : NoHandler (actionsOf w.log id) := by
      have hrecorded := hrec id
      rw [World.coreOf_of he.heap] at hrecorded
      exact hrecorded.noHandler { e.client with cgiSocket := none } rfl hstate
    have hadopt := (List.mem_append.mp hadopt).resolve_left hno.adopt_not_mem
    have hrun := (List.mem_append.mp hrun).resolve_left hno.runHandler_not_mem
    obtain ⟨new, hnew, hid⟩ := Option.map_eq_some_iff.mp (he.served.adopt_mem.mp hadopt)
    have hreq : req = e.req := he.served.runHandler_mem.mp hrun
    subst hreq
    have hstarts : e.Starts := by
      rw [Completion.Starts, ← he.served.cgi_isSome, hnew]
      rfl
    have hadd : e.epollAdd = true := by
      obtain ⟨t, ht⟩ | ⟨-, time, ans, hclient⟩ := hbefore
      · rw [← hid, World.coreOf_eq_none.mpr (hw.fresh _ le_rfl)] at ht
        cases ht
      · obtain ⟨time', hclient'⟩ := he.label
        rw [hclient'] at hclient
        injection hclient
    have hall := hl e he.completion_eq hstarts hadd hpost
    rw [written_append, hno.written_eq, List.nil_append,
      he.served.written_eq (by rw [hnew]; rfl) hpost]
    exact List.take_of_length_le hall

/-- **In every run whose `write`s take all they are given** no byte is dropped. -/
theorem lossless {w : World} (h : Transition.Reachable World.step WritesAll World.IsStart w) :
    Lossless w := by
  refine (h.invariant_under (I := fun w => AdoptsOld w ∧ Lossless w)
    (J := fun w => RunInv w ∧ ∀ id, Recorded (actionsOf w.log id) (w.coreOf id)) ?_ ?_ ?_).2
  · intro w hw
    exact ⟨reachable_runInv hw, reachable_recorded hw⟩
  · intro w hw
    obtain ⟨configs, open_, clock, rfl⟩ := hw
    refine ⟨fun _ _ hmem => ?_, fun _ _ _ _ hg => ?_⟩
    · cases hmem
    · cases hg
  · intro w l w' hw _ hI hl hst
    exact ⟨step_adoptsOld hw.1 hI.1 hst, step_lossless hw.1 hI.1 hw.2 hI.2 hl hst⟩

end Steps

/-! ### A request -/

/-- A `POST` starts a program, and `write` answers this. -/
def postRun (write : Option Nat) : List Label :=
  [.openServer (some 4) 0 true, .checkTimeout 0, .visit [] none,
    .epollWait (some [(⟨4, 1, 0, EPOLLIN⟩, EPOLLIN)]), .serverEvent 0 ⟨some (5, 0), none, 0⟩ true,
    .checkTimeout 0, .visit [] none, .visit [] none,
    .epollWait (some [(⟨5, 2, 1, EPOLLIN⟩, EPOLLIN)]),
    .clientEvent 0 ⟨0, some (bytes "POST /a.py HTTP/1.1\r\nHost: a\r\nContent-Length: 3\r\n\r\nabc"),
      { sampleSys with write := write }, some .other, false, none, none, none⟩ true]

/-- The bodies of the `POST`s that the request handler has been given. -/
def posted (acts : List Action) : List Bytes :=
  acts.filterMap fun
    | .runHandler req => if req.method = .kPost then some req.body else none
    | _ => none

theorem mem_posted {acts : List Action} {body : Bytes} (h : body ∈ posted acts) :
    ∃ req, Action.runHandler req ∈ acts ∧ req.method = .kPost ∧ req.body = body := by
  obtain ⟨action, hmem, haction⟩ := List.mem_filterMap.mp h
  cases action with
  | runHandler req =>
      dsimp only at haction
      split_ifs at haction with hpost
      cases haction
      exact ⟨req, hmem, hpost, rfl⟩
  | _ => cases haction

/-- A server that takes small bodies. -/
def postConfig : ServerConfig := { sampleConfig with maxBodySize := 10 }

/-- The sockets of programs that a connection has been given. -/
def adopted (acts : List Action) : List SocketId :=
  acts.filterMap fun
    | .adopt g => some g
    | _ => none

theorem mem_adopted {acts : List Action} {g : SocketId} (h : g ∈ adopted acts) :
    Action.adopt g ∈ acts := by
  obtain ⟨action, hmem, haction⟩ := List.mem_filterMap.mp h
  cases action with
  | adopt g' =>
      cases haction
      exact hmem
  | _ => cases haction

/-- What the socket of a program keeps. -/
def kept (w : World) (g : SocketId) : Option Bytes :=
  (w.heap g).bind fun
    | .cgi s => some s.writeBuffer
    | _ => none

theorem kept_eq {w : World} {g : SocketId} {data : Bytes} (h : kept w g = some data) :
    ∃ s, w.heap g = some (.cgi s) ∧ s.writeBuffer = data := by
  obtain ⟨s, hs, hdata⟩ := Option.bind_eq_some_iff.mp h
  cases s with
  | cgi s =>
      cases hdata
      exact ⟨s, hs, rfl⟩
  | _ => cases hdata

/-- The run, when `write` takes this much of the three bytes. -/
theorem postRun_outcome {write : Option Nat} {accepted : Bytes}
    (h : (Transition.run World.step (World.start [postConfig] [3] 0) (postRun write)).map (fun w =>
      (kept w 2, adopted (actionsOf w.log 1), posted (actionsOf w.log 1),
        written (actionsOf w.log 1))) = some (some [], [2], [bytes "abc"], accepted)) :
    ∃ w, Transition.run World.step (World.start [postConfig] [3] 0) (postRun write) = some w ∧
      written (actionsOf w.log 1) = accepted ∧ (Lossless w → accepted = bytes "abc") := by
  obtain ⟨w, hrun, hlog⟩ := Option.map_eq_some_iff.mp h
  simp only [Prod.mk.injEq] at hlog
  obtain ⟨hkept, hadopted, hposted, hwritten⟩ := hlog
  refine ⟨w, hrun, hwritten, fun hloss => ?_⟩
  obtain ⟨g, hg, hkeeps⟩ := kept_eq hkept
  have hadopt : Action.adopt 2 ∈ actionsOf w.log 1 :=
    mem_adopted (by rw [hadopted]; exact List.mem_singleton_self 2)
  obtain ⟨req, hhandled, hpost, hbody⟩ := mem_posted (hposted ▸ List.mem_singleton_self (bytes "abc"))
  have hall := hloss 2 g 1 req hg (mem_actionsOf.mp hadopt) (mem_actionsOf.mp hhandled) hpost
  rw [hkeeps, List.append_nil, hbody, hwritten] at hall
  exact hall

theorem lossless_postRun :
    ∃ w, Transition.run World.step (World.start [postConfig] [3] 0) (postRun (some 3)) = some w ∧
      written (actionsOf w.log 1) = bytes "abc" ∧ Lossless w := by
  obtain ⟨w, hrun, hwritten, -⟩ := @postRun_outcome (some 3) (bytes "abc") (by decide +kernel)
  have halong : Transition.Along World.step WritesAll (World.start [postConfig] [3] 0)
      (postRun (some 3)) := by
    decide +kernel
  exact ⟨w, hrun, hwritten, lossless (.run_along (.start ⟨_, _, _, rfl⟩) halong hrun)⟩

/-- Two of the three bytes are lost. -/
theorem lossless_fails : ¬ ∀ w, World.Reachable w → Lossless w := by
  intro h
  obtain ⟨w, hrun, -, hall⟩ := @postRun_outcome (some 1) (bytes "a") (by decide +kernel)
  have hreach : World.Reachable w := .run (.start ⟨_, _, _, rfl⟩) hrun
  exact absurd (hall (h w hreach)) (by decide)

end Webserv
