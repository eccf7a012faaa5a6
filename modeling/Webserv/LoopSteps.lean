/-
Webserv/LoopSteps.lean

What one step of the event loop can do.

A result about runs is proved from the cases here: no later module opens the step function.
-/
import Webserv.EventLoop
import Webserv.ClientEvents
import Webserv.CgiFraming

namespace Webserv

/-! ### Texts -/

/-- What the owner of a program sends when it has ended. -/
def CgiSocket.reply (g : CgiSocket) (exitedZero : Bool) (date : Option Bytes) : Bytes :=
  if exitedZero then
    match parseCgiResponse g.readBuffer with
    | .ok res => res.toHttpString date
    | .error _ => errorPage .kInternalServerError date
  else (HttpResponse.ofStatus .kInternalServerError).toHttpString date

namespace World

variable {w w' : World} {id : SocketId} {events : Events}

/-! ### Events of servers -/

/-- The connection that `ServerSocket::HandleEvent` makes. -/
def accepted (s : ServerSocket) (fd : Fd) (ip : UInt32) (now : Int) : ClientSocket where
  fd := fd
  lastActivityTime := now
  config := s.config
  req := { HttpRequest.fresh (toSize s.config.maxBodySize) with clientIp := ipv4ToString ip }

/-- What an event for a server can do. -/
inductive ServerTurn (w : World) (s : ServerSocket) (ans : ServerSocket.Answers)
    (epollAdd : Bool) : World → Prop
  | nothing : ServerTurn w s ans epollAdd w
  | closed {fd : Fd} (hfd : ¬ w.kernel.IsOpen fd) :
      ServerTurn w s ans epollAdd { w with kernel := (w.kernel.openFd fd).close fd }
  | accepts {fd : Fd} {ip : UInt32} (hfd : ¬ w.kernel.IsOpen fd) :
      ServerTurn w s ans epollAdd
        (addSocket { w with kernel := w.kernel.openFd fd } (.client (accepted s fd ip ans.now)) epollAdd)

theorem serverEvent_cases {s : ServerSocket} {ans : ServerSocket.Answers} {epollAdd : Bool}
    (h : w.serverEvent s events ans epollAdd = some w') : ServerTurn w s ans epollAdd w' := by
  rw [serverEvent, ServerSocket.handleEvent] at h
  by_cases hin : events.epollIn = true
  · rw [if_pos hin] at h
    rcases haccept : ans.accept with - | ⟨fd, ip⟩
    · rw [haccept] at h
      cases h
      exact .nothing
    · rw [haccept] at h
      dsimp only at h
      rcases hfcntl : ans.fcntl with - | errno
      · rw [hfcntl] at h
        dsimp only [ClientSocket.construct, ASocket.construct, Except.map, Except.toOption] at h
        split_ifs at h with hfd
        cases h
        exact .accepts hfd
      · rw [hfcntl] at h
        dsimp only [ClientSocket.construct, ASocket.construct, Except.map, Except.toOption] at h
        split_ifs at h with hfd
        cases h
        exact .closed hfd
  · rw [if_neg hin] at h
    cases h
    exact .nothing

/-! ### Events of connections -/

theorem clientEvent_cases {c : ClientSocket} {ans : ClientSocket.Answers} {epollAdd : Bool}
    (h : w.clientEvent id c events ans epollAdd = some w') :
    ∃ hd, ClientAnswersFit w.kernel c.fd ans ∧ c.handleEvent id w.nextId events ans = some hd ∧
      w' = w.clientHandled id c.fd hd epollAdd := by
  rw [clientEvent] at h
  split_ifs at h with hfit
  obtain ⟨hd, hhd, hw⟩ := Option.map_eq_some_iff.mp h
  exact ⟨hd, hfit, hhd, hw.symm⟩

/-! ### Events of CGI programs -/

/-- What a CGI program has left to its owner. -/
def outcomeOf (g : CgiSocket) (exitedZero : Bool) : CgiOutcome :=
  if exitedZero then .finished g.readBuffer else .error

/-- The bytes that `read` has given. -/
def CgiGives (ans : CgiSocket.Answers) (data : Bytes) : Prop :=
  ∃ c cs, ans.read = some (c :: cs) ∧ data = (c :: cs).take kBufferSize

/-- The event is the end of the output. -/
def CgiEnds (events : Events) (ans : CgiSocket.Answers) : Prop :=
  events.epollIn = true ∧ ans.read.getD [] = []

/-- What the handler of a CGI socket can do. -/
inductive CgiCases (g : CgiSocket) (events : Events) (ans : CgiSocket.Answers) :
    CgiSocket.Handled → Prop
  | nothing : CgiCases g events ans { cgi := g }
  | reads {data : Bytes} (hdata : data.length ≤ kBufferSize)
      (hle : (g.readBuffer ++ data).length ≤ stringMaxSize) :
      CgiCases g events ans { cgi := { g with
        readBuffer := g.readBuffer ++ data
        readBuffer_le := hle } }
  | overflows {data : Bytes} (hin : events.epollIn = true) (hdata : CgiGives ans data)
      (hlt : stringMaxSize < (g.readBuffer ++ data).length) :
      CgiCases g events ans { cgi := g, actions := [.epollDel], removeSocket := true }
  | unregistered (hend : CgiEnds events ans) (hreg : ans.registered = false) :
      CgiCases g events ans
        { cgi := { g with pid := none }, actions := [.epollDel, .epollDel], reaped := g.pid
          removeSocket := true }
  | orphan (hend : CgiEnds events ans) (hreg : ans.registered = true) (howner : g.owner = none) :
      CgiCases g events ans
        { cgi := { g with pid := none }, actions := [.epollDel], reaped := g.pid
          removeSocket := true }
  | ends {target : SocketId} (hend : CgiEnds events ans) (hreg : ans.registered = true)
      (howner : g.owner = some target) :
      CgiCases g events ans
        { cgi := { g with pid := none }, actions := [.epollDel], reaped := g.pid
          notify := some (target, outcomeOf g ans.exitedZero)
          removeSocket := true }

theorem finish_cases (g : CgiSocket) {ans : CgiSocket.Answers} (hend : CgiEnds events ans) :
    CgiCases g events ans (g.finish ans) := by
  rcases hreg : ans.registered with - | -
  · have hfinish : g.finish ans =
        { cgi := { g with pid := none }, actions := [.epollDel, .epollDel], reaped := g.pid
          removeSocket := true } := by
      simp only [CgiSocket.finish, hreg]
      rfl
    rw [hfinish]
    exact .unregistered hend hreg
  · have hfinish : g.finish ans =
        { cgi := { g with pid := none }, actions := [.epollDel], reaped := g.pid
          notify := g.owner.map fun owner => (owner, outcomeOf g ans.exitedZero)
          removeSocket := true } := by
      simp only [CgiSocket.finish, hreg]
      rfl
    rcases howner : g.owner with - | target
    · have hnotify : g.owner.map (fun owner => (owner, outcomeOf g ans.exitedZero)) = none := by
        rw [howner]
        rfl
      rw [hfinish, hnotify]
      exact .orphan hend hreg howner
    · have hnotify : g.owner.map (fun owner => (owner, outcomeOf g ans.exitedZero)) =
          some (target, outcomeOf g ans.exitedZero) := by
        rw [howner]
        rfl
      rw [hfinish, hnotify]
      exact .ends hend hreg howner

theorem cgiSocket_cases (g : CgiSocket) (events : Events) (ans : CgiSocket.Answers) :
    CgiCases g events ans (g.handleEvent events ans) := by
  rw [CgiSocket.handleEvent]
  by_cases hin : events.epollIn = true
  · rw [if_pos hin]
    rcases hread : ans.read with - | - | ⟨b, bs⟩
    · exact finish_cases g ⟨hin, by rw [hread]; rfl⟩
    · exact finish_cases g ⟨hin, by rw [hread]; rfl⟩
    · have hdata : ((b :: bs).take kBufferSize).length ≤ kBufferSize := List.length_take_le _ _
      show CgiCases g events ans (g.append ((b :: bs).take kBufferSize))
      rw [CgiSocket.append]
      split_ifs with hle
      · exact .reads hdata (by rw [List.length_append]; exact hle)
      · exact .overflows hin ⟨b, bs, hread, rfl⟩ (by rw [List.length_append]; exact not_le.mp hle)
  · rw [if_neg hin]
    exact .nothing

/-- The handler changes nothing that tells the socket from another one. -/
theorem CgiCases.base {g : CgiSocket} {ans : CgiSocket.Answers} {h : CgiSocket.Handled}
    (hcases : CgiCases g events ans h) :
    h.cgi.fd = g.fd ∧ h.cgi.lastActivityTime = g.lastActivityTime ∧ h.cgi.owner = g.owner ∧
      ∀ a ∈ h.actions, a = .epollDel := by
  cases hcases with
  | nothing => simp
  | reads => simp
  | overflows => simp
  | unregistered => simp
  | orphan => simp
  | ends => simp

theorem cgiEvent_cases {g : CgiSocket} {ans : CgiSocket.Answers} {owner : ClientSocket.CgiAnswers}
    (h : w.cgiEvent id g events ans owner = some w') :
    ∃ hd w1, (ans.registered = true → w.kernel.IsRegistered g.fd) ∧ CgiCases g events ans hd ∧
      (w.cgiHandled id g.fd hd).passOn id g.fd owner hd.notify = some w1 ∧
      w' = if hd.removeSocket then w1.remove id g.fd else w1 := by
  rw [cgiEvent] at h
  split_ifs at h with hreg
  obtain ⟨w1, hpass, hw⟩ := Option.map_eq_some_iff.mp h
  exact ⟨_, w1, hreg, cgiSocket_cases g events ans, hpass, hw.symm⟩

theorem passOn_cases {fd : Fd} {ans : ClientSocket.CgiAnswers} {target : SocketId}
    {outcome : CgiOutcome} (h : w.passOn id fd ans (some (target, outcome)) = some w') :
    ∃ c, w.heap target = some (.client c) ∧ (ans.epollMod = true → w.kernel.IsRegistered c.fd) ∧
      w' = w.notify id fd outcome ans target c := by
  rw [passOn] at h
  rcases hs : w.heap target with - | (s | c | g)
  · rw [hs] at h
    cases h
  · rw [hs] at h
    cases h
  · rw [hs] at h
    dsimp only at h
    split_ifs at h with hmod
    cases h
    exact ⟨c, rfl, hmod, rfl⟩
  · rw [hs] at h
    cases h

/-- The output, on its way to the owner. -/
def handedOver (w : World) (id owner : SocketId) : CgiOutcome → World
  | .error => w
  | .finished output => w.note (.acted id (.handOver owner output))

/-- No exception leaves `OnCgiExecutionFinished`. -/
theorem onCgiExecutionFinished_answers (c : ClientSocket) {output : Bytes}
    (hlen : output.length ≤ stringMaxSize) (ans : ClientSocket.CgiAnswers) :
    ∃ res, res.HasVersion ∧ c.onCgiExecutionFinished output ans = some (c.answer res ans) ∧
      ∀ g : CgiSocket, g.readBuffer = output → res.toHttpString ans.date = g.reply true ans.date := by
  rw [ClientSocket.onCgiExecutionFinished]
  rcases hparse : parseCgiResponse output with e | res
  · obtain ⟨status, rfl⟩ := parseCgiResponse_throws hlen e hparse
    obtain ⟨page, hpage, hversion⟩ := errorResponse_ok .kInternalServerError
    rw [hpage]
    refine ⟨page, hversion, rfl, ?_⟩
    rintro g rfl
    rw [CgiSocket.reply, if_pos rfl, hparse]
    exact (errorPage_eq hpage).symm
  · obtain ⟨-, -, -, -, -, -, hprint, -⟩ := parseCgiResponse_members hlen hparse
    refine ⟨res, hprint.version_eq, rfl, ?_⟩
    rintro g rfl
    rw [CgiSocket.reply, if_pos rfl, hparse]

/-- **Whatever the program has left**, its owner gets a response. -/
theorem notify_eq (w : World) (id : SocketId) (fd : Fd) (g : CgiSocket) (exitedZero : Bool)
    (ans : ClientSocket.CgiAnswers) (owner : SocketId) (c : ClientSocket) :
    ∃ res : HttpResponse, (res.HasVersion ∧ res.toHttpString ans.date = g.reply exitedZero ans.date) ∧
      w.notify id fd (outcomeOf g exitedZero) ans owner c =
        ((w.handedOver id owner (outcomeOf g exitedZero)).put owner
          (.client (c.answer res ans).client)).perform owner c.fd (c.answer res ans).actions := by
  cases exitedZero with
  | false => exact ⟨.ofStatus .kInternalServerError, ⟨rfl, rfl⟩, rfl⟩
  | true =>
      obtain ⟨res, hversion, hres, htext⟩ := onCgiExecutionFinished_answers c g.readBuffer_le ans
      refine ⟨res, ⟨hversion, htext g rfl⟩, ?_⟩
      show w.notify id fd (.finished g.readBuffer) ans owner c = _
      rw [World.notify, hres]
      rfl

/-! ### Steps -/

/-- The constructor, behind a socket that it has opened. -/
def opened (w : World) (config : ServerConfig) (configs : List ServerConfig) (fd : Fd)
    (now : Int) : World :=
  { w with
    kernel := w.kernel.openFd fd
    control := nextTurn .starting .top configs }.insert
      (.server ⟨{ fd := fd, lastActivityTime := now }, config⟩)

/-- The event of a step for the socket `id`, by the class of the socket. -/
inductive Handles (w : World) (id : SocketId) (events : Events) (w' : World) :
    Int → Socket → Label → Prop
  | server {time : Int} {s : ServerSocket} {ans : ServerSocket.Answers} {epollAdd : Bool}
      (h : ServerTurn w s ans epollAdd w') :
      Handles w id events w' time (.server s) (.serverEvent time ans epollAdd)
  | client {time : Int} {c : ClientSocket} {ans : ClientSocket.Answers} {epollAdd : Bool}
      (h : w.clientEvent id c events ans epollAdd = some w') :
      Handles w id events w' time (.client c) (.clientEvent time ans epollAdd)
  | cgi {time : Int} {g : CgiSocket} {ans : CgiSocket.Answers} {owner : ClientSocket.CgiAnswers}
      (h : w.cgiEvent id g events ans owner = some w') :
      Handles w id events w' time (.cgi g) (.cgiEvent time ans owner)

/-- **What a step can do**, but for the clock. -/
inductive Turned (w : World) : Label → World → Prop
  | openFails {config : ServerConfig} {configs : List ServerConfig} {now : Int} {epollAdd : Bool}
      (hc : w.control = .starting (config :: configs)) :
      Turned w (.openServer none now epollAdd) w.clearResources
  | opens {config : ServerConfig} {configs : List ServerConfig} {fd : Fd} {now : Int}
      (hc : w.control = .starting (config :: configs)) (hfd : ¬ w.kernel.IsOpen fd) :
      Turned w (.openServer (some fd) now true)
        ((w.opened config configs fd now).register w.nextId fd)
  | unregistered {config : ServerConfig} {configs : List ServerConfig} {fd : Fd} {now : Int}
      (hc : w.control = .starting (config :: configs)) (hfd : ¬ w.kernel.IsOpen fd) :
      Turned w (.openServer (some fd) now false) (w.opened config configs fd now).clearResources
  | sweeps {now : Int} (hc : w.control = .top) :
      Turned w (.checkTimeout now)
        { w with control := nextTurn (.sweeping now) .waiting w.sockets.toList }
  | visits {now : Int} {fd : Fd} {id : SocketId} {entries : List (Fd × SocketId)} {s : Socket}
      {sends : List (Option Nat)} {date : Option Bytes}
      (hc : w.control = .sweeping now ((fd, id) :: entries)) (hs : w.heap id = some s) :
      Turned w (.visit sends date)
        { w.visit now fd id s sends date with control := nextTurn (.sweeping now) .waiting entries }
  | waits (hc : w.control = .waiting) : Turned w (.epollWait none) { w with control := .top }
  | reports {reported : List (Registration × Events)} (hc : w.control = .waiting)
      (hr : MayReport w.kernel reported) :
      Turned w (.epollWait (some reported))
        { w with control := nextTurn .handling .top (reported.map fun e => (e.1.ptr, e.2)) }
  | handles {time : Int} {id : SocketId} {events : Events} {rest : List (SocketId × Events)}
      {s : Socket} {l : Label} {w1 : World} (hc : w.control = .handling ((id, events) :: rest))
      (hs : w.heap id = some s) (h : Handles (w.note (.dispatched id time)) id events w1 time s l) :
      Turned w l { w1 with control := nextTurn .handling .top rest }
  | clears (hc : w.control ≠ .ended) : Turned w .clearResources w.clearResources
  | forks (pid child : Pid) :
      Turned w (.processForks pid child) { w with kernel := w.kernel.inherit pid child }
  | closes (pid : Pid) (file : Epoll.File) :
      Turned w (.processCloses pid file) { w with kernel := w.kernel.release pid file }
  | exits (pid : Pid) : Turned w (.processExits pid) { w with kernel := w.kernel.exit pid }

theorem handle_cases {time : Int} {turn : World → SocketId → Socket → Events → Option World}
    (h : w.handle time turn = some w') :
    ∃ id events rest s w1, w.control = .handling ((id, events) :: rest) ∧ w.heap id = some s ∧
      turn (w.note (.dispatched id time)) id s events = some w1 ∧
      w' = { w1 with control := nextTurn .handling .top rest } := by
  rw [handle] at h
  rcases hc : w.control with _ | _ | _ | _ | (_ | ⟨⟨id, events⟩, rest⟩) | _
  all_goals rw [hc] at h
  · cases h
  · cases h
  · cases h
  · cases h
  · cases h
  · dsimp only at h
    rcases hs : w.heap id with - | s
    · rw [hs] at h
      cases h
    · rw [hs] at h
      obtain ⟨w1, hw1, hw'⟩ := Option.map_eq_some_iff.mp h
      exact ⟨id, events, rest, s, w1, rfl, hs, hw1, hw'.symm⟩
  · cases h

theorem turn_cases {l : Label} (h : w.turn l = some w') : Turned w l w' := by
  cases l with
  | openServer fd now epollAdd =>
      -- each call is answered in its own control state only; in any other `turn` gives nothing
      rw [turn] at h
      rcases hc : w.control with (_ | ⟨config, configs⟩) | _ | _ | _ | _ | _
      all_goals rw [hc] at h
      all_goals try cases h
      dsimp only [openServer] at h
      -- without a socket `runServer` throws, else it depends on `epoll_ctl`
      rcases fd with - | fd
      · cases h
        exact .openFails hc
      · dsimp only at h
        split_ifs at h with hfd hadd
        · cases h
          rw [hadd]
          exact .opens hc hfd
        · cases h
          rw [Bool.not_eq_true] at hadd
          rw [hadd]
          exact .unregistered hc hfd
  | checkTimeout now =>
      rw [turn] at h
      rcases hc : w.control with _ | _ | _ | _ | _ | _
      all_goals rw [hc] at h
      all_goals cases h
      exact .sweeps hc
  | visit sends date =>
      rw [turn] at h
      rcases hc : w.control with _ | _ | ⟨now, _ | ⟨⟨fd, id⟩, entries⟩⟩ | _ | _ | _
      all_goals rw [hc] at h
      all_goals try cases h
      dsimp only at h
      rcases hs : w.heap id with - | s
      · rw [hs] at h
        cases h
      · rw [hs] at h
        cases h
        exact .visits hc hs
  | epollWait reported =>
      rcases reported with - | reported
      · rw [turn] at h
        rcases hc : w.control with _ | _ | _ | _ | _ | _
        all_goals rw [hc] at h
        all_goals cases h
        exact .waits hc
      · rw [turn] at h
        rcases hc : w.control with _ | _ | _ | _ | _ | _
        all_goals rw [hc] at h
        all_goals try cases h
        dsimp only at h
        split_ifs at h with hr
        cases h
        exact .reports hc hr
  | serverEvent time ans epollAdd =>
      rw [turn] at h
      -- an event goes to the object behind the pointer, which must be of the kind the answer is for
      obtain ⟨id, events, rest, s, w1, hc, hs, hturn, rfl⟩ := handle_cases h
      cases s with
      | server s => exact .handles hc hs (.server (serverEvent_cases hturn))
      | client c => cases hturn
      | cgi g => cases hturn
  | clientEvent time ans epollAdd =>
      rw [turn] at h
      obtain ⟨id, events, rest, s, w1, hc, hs, hturn, rfl⟩ := handle_cases h
      cases s with
      | server s => cases hturn
      | client c => exact .handles hc hs (.client hturn)
      | cgi g => cases hturn
  | cgiEvent time ans owner =>
      rw [turn] at h
      obtain ⟨id, events, rest, s, w1, hc, hs, hturn, rfl⟩ := handle_cases h
      cases s with
      | server s => cases hturn
      | client c => cases hturn
      | cgi g => exact .handles hc hs (.cgi hturn)
  | clearResources =>
      rw [turn] at h
      rcases hc : w.control with _ | _ | _ | _ | _ | _
      all_goals rw [hc] at h
      all_goals cases h
      all_goals
        apply Turned.clears
        rw [hc]
        intro hended
        cases hended
  | processForks pid child =>
      cases h
      exact .forks pid child
  | processCloses pid file =>
      cases h
      exact .closes pid file
  | processExits pid =>
      cases h
      exact .exits pid

/-- A step is a turn, and the clock is read. -/
theorem step_cases {l : Label} (h : w.step l = some w') :
    ∃ w1, Turned w l w1 ∧ w' = { w1 with clock := l.times.getLast?.getD w.clock } := by
  obtain ⟨w1, hturn, hw'⟩ := Option.map_eq_some_iff.mp h
  exact ⟨w1, turn_cases hturn, hw'.symm⟩

end World

end Webserv
