/-
Webserv/EventLoop.lean

`Webserv`: the table of the sockets and the loop around `epoll_wait`.

A state holds the objects of the program, the part of the system they work on (open
descriptors, what other processes hold, the epoll set), and where the loop is.  A step is
one turn of a loop of the source; its label holds the answers of the system.  The log
and the clock are there for statements only, no function of the program reads them.

A pointer that `epoll_wait` gives back may be that of a socket that has been deleted; no
step says what the program then does.
-/
import Webserv.ClientSocket
import Webserv.Theory.Epoll
import Webserv.Theory.Transition

namespace Webserv

/-! ### Sockets -/

/-- An object of a class derived from `ASocket`. -/
inductive Socket
  | server (s : ServerSocket)
  | client (c : ClientSocket)
  | cgi (g : CgiSocket)

namespace Socket

/-- The base object. -/
def base : Socket → ASocket
  | server s => s.toASocket
  | client c => c.toASocket
  | cgi g => g.toASocket

/-- `GetFd`. -/
def getFd (s : Socket) : Fd := s.base.fd

/-- `IsTimeout`: a `ServerSocket` has its own. -/
def isTimeout (s : Socket) (thresholdTime : Int) : Bool :=
  match s with
  | server _ => false
  | _ => s.base.isTimeout thresholdTime

/-- `cgi_socket_`. -/
def cgiSocket : Socket → Option SocketId
  | client c => c.cgiSocket
  | _ => none

/-- `owner_`. -/
def owner : Socket → Option SocketId
  | cgi g => g.owner
  | _ => none

/-- `OnSetOwner`: only a `CgiSocket` does something. -/
def onSetOwner (owner : Option SocketId) : Socket → Socket
  | cgi g => cgi (g.onSetOwner owner)
  | s => s

/-- `RemoveCgiSocket`, on what `owner_` points to. -/
def removeCgiSocket (sock : SocketId) : Socket → Socket
  | client c => client (c.removeCgiSocket sock)
  | s => s

end Socket

/-! ### States -/

/-- `kRequestTimeout`. -/
def kRequestTimeout : Int := 10

/-- `kMaxEvents`. -/
def kMaxEvents : Nat := 10

/-- What the program works on. -/
abbrev Kernel := Epoll.Kernel Fd Pid SocketId Events

/-- A registration in the epoll set. -/
abbrev Registration := Epoll.Registration Fd SocketId Events

/-- Where the program is. -/
inductive Control
  /-- in the constructor, with these servers still to be opened -/
  | starting (configs : List ServerConfig)
  /-- at the top of the loop of `Run` -/
  | top
  /-- in `CheckTimeout`, in front of these entries -/
  | sweeping (now : Int) (entries : List (Fd × SocketId))
  /-- behind `CheckTimeout` -/
  | waiting
  /-- in the loop over the events that were reported -/
  | handling (events : List (SocketId × Events))
  /-- behind `ClearResources` -/
  | ended

/-- What is recorded of a run. -/
inductive Entry
  /-- the object is constructed at this time -/
  | created (id : SocketId) (time : Int)
  /-- `sockets_[fd] = id`, with what was there before -/
  | inserted (fd : Fd) (id : SocketId) (previous : Option SocketId)
  | deleted (id : SocketId)
  /-- `HandleEvent` is called at this time -/
  | dispatched (id : SocketId) (time : Int)
  /-- `CheckTimeout`, at this time, removes the socket -/
  | expired (id : SocketId) (time : Int)
  | acted (id : SocketId) (action : Action)

/-- A state of the program and of the system. -/
structure World where
  control : Control
  /-- `sockets_` -/
  sockets : Std.ExtTreeMap Fd SocketId compare := ∅
  /-- the objects that are alive -/
  heap : SocketId → Option Socket := fun _ => none
  /-- the address of the next object -/
  nextId : SocketId := 0
  kernel : Kernel
  clock : Int
  log : List Entry := []

/-- The calls of the system in a list of actions, by the socket `id` with the descriptor
`fd`. -/
def Action.perform (id : SocketId) (fd : Fd) (k : Kernel) : Action → Kernel
  | .socketpair fd0 fd1 => (k.openFd fd0).openFd fd1
  | .fork pid => k.fork pid
  | .close fd => k.close fd
  | .epollMod interest => k.ctlMod fd id interest
  | .epollDel => k.ctlDel fd
  | _ => k

namespace World

/-- The loop over what is left. -/
def nextTurn {α : Type} (again : List α → Control) (done : Control) : List α → Control
  | [] => done
  | x :: xs => again (x :: xs)

/-- One more entry in the log. -/
def note (w : World) (entry : Entry) : World := { w with log := w.log ++ [entry] }

/-- An object has changed. -/
def put (w : World) (id : SocketId) (s : Socket) : World :=
  { w with heap := Function.update w.heap id (some s) }

/-- A call on the object at an address. -/
def call (w : World) (id : SocketId) (f : Socket → Socket) : World :=
  { w with heap := Function.update w.heap id ((w.heap id).map f) }

/-- The socket `id` has done something. -/
def perform (w : World) (id : SocketId) (fd : Fd) (actions : List Action) : World :=
  { w with
    kernel := actions.foldl (Action.perform id fd) w.kernel
    log := w.log ++ actions.map (.acted id) }

/-! ### Deleting -/

/-- The calls that a destructor makes to other objects. -/
def unlink (w : World) (id : SocketId) : Socket → World
  | .server _ => w
  | .client c =>
      match c.cgiSocket with
      | some g => w.call g (·.onSetOwner none)
      | none => w
  | .cgi g =>
      match g.owner with
      | some owner => w.call owner (·.removeCgiSocket id)
      | none => w

/-- `~CgiSocket` ends the program that still runs. -/
def reap (w : World) : Socket → World
  | .cgi g =>
      match g.pid with
      | some pid => { w with kernel := w.kernel.exit pid }
      | none => w
  | _ => w

/-- `delete`. -/
def delete (w : World) (id : SocketId) : World :=
  match w.heap id with
  -- a second `delete` of one object, which never happens, would be logged
  | none => w.note (.deleted id)
  | some s =>
      let w := (w.unlink id s).reap s
      { w with
        heap := Function.update w.heap id none
        kernel := w.kernel.close s.getFd
        log := w.log ++ [.deleted id] }

/-- Another table. -/
def setSockets (w : World) (sockets : Std.ExtTreeMap Fd SocketId compare) : World :=
  { w with sockets := sockets }

/-- `sockets_.erase(fd)`. -/
def erase (w : World) (fd : Fd) : World := w.setSockets (w.sockets.erase fd)

/-- `ClearResources`. -/
def clearResources (w : World) : World :=
  let w := w.sockets.toList.foldl (fun w entry => w.delete entry.2) w
  { w.setSockets ∅ with control := .ended }

/-! ### New sockets -/

/-- A new object, and its entry in the table. -/
def insert (w : World) (s : Socket) : World :=
  { w with
    heap := Function.update w.heap w.nextId (some s)
    nextId := w.nextId + 1
    sockets := w.sockets.insert s.getFd w.nextId
    log := w.log ++
      [.created w.nextId s.base.lastActivityTime,
        .inserted s.getFd w.nextId w.sockets[s.getFd]?] }

/-- `EPOLL_CTL_ADD` of a new socket. -/
def register (w : World) (id : SocketId) (fd : Fd) : World :=
  { w with kernel := w.kernel.ctlAdd fd id EPOLLIN }

/-- `Run`, for the `new_socket` of an event. -/
def addSocket (w : World) (s : Socket) (epollAdd : Bool) : World :=
  let id := w.nextId
  if epollAdd then (w.insert s).register id s.getFd
  else ((w.insert s).erase s.getFd).delete id

/-- `Run`, for the result of an event that may have a `new_socket`. -/
def addNewSocket (w : World) (new : Option CgiSocket) (epollAdd : Bool) : World :=
  new.elim w fun g => w.addSocket (.cgi g) epollAdd

/-- `Run`, for the `remove_socket` of an event. -/
def remove (w : World) (id : SocketId) (fd : Fd) : World := (w.erase fd).delete id

/-! ### Events -/

/-- An event for a `ServerSocket`. -/
def serverEvent (w : World) (s : ServerSocket) (events : Events) (ans : ServerSocket.Answers)
    (epollAdd : Bool) : Option World :=
  let h := s.handleEvent events ans
  match h.accepted, h.newSocket with
  | none, _ => some w
  | some fd, none =>
      -- the constructor has thrown, and the descriptor is closed
      if w.kernel.IsOpen fd then none
      else some { w with kernel := (w.kernel.openFd fd).close fd }
  | some fd, some c =>
      if w.kernel.IsOpen fd then none
      else some (addSocket { w with kernel := w.kernel.openFd fd } (.client c) epollAdd)

/-- `socketpair` gives two descriptors that are not open. -/
def PairIsFresh (k : Kernel) (pair : Fd × Fd) : Prop :=
  ¬ k.IsOpen pair.1 ∧ ¬ k.IsOpen pair.2 ∧ pair.1 ≠ pair.2

instance (k : Kernel) (pair : Fd × Fd) : Decidable (PairIsFresh k pair) :=
  inferInstanceAs (Decidable (_ ∧ _ ∧ _))

/-- The system can give these answers. -/
def ClientAnswersFit (k : Kernel) (fd : Fd) (ans : ClientSocket.Answers) : Prop :=
  (∀ pair ∈ ans.sys.socketpair, PairIsFresh k pair) ∧
    (ans.epollMod = none ∨ ans.epollModError = true → k.IsRegistered fd)

instance (k : Kernel) (fd : Fd) (ans : ClientSocket.Answers) :
    Decidable (ClientAnswersFit k fd ans) :=
  inferInstanceAs (Decidable (_ ∧ (_ → _)))

/-- What a connection has done, and what `Run` makes of its result. -/
def clientHandled (w : World) (id : SocketId) (fd : Fd) (h : ClientSocket.Handled)
    (epollAdd : Bool) : World :=
  let w := ((w.put id (.client h.client)).perform id fd h.actions).addNewSocket h.newSocket epollAdd
  if h.removeSocket then w.remove id fd else w

/-- An event for a `ClientSocket`. -/
def clientEvent (w : World) (id : SocketId) (c : ClientSocket) (events : Events)
    (ans : ClientSocket.Answers) (epollAdd : Bool) : Option World :=
  if ClientAnswersFit w.kernel c.fd ans then
    (c.handleEvent id w.nextId events ans).map fun h => w.clientHandled id c.fd h epollAdd
  else none

/-- The call of a CGI socket to its owner, and the handler of what the owner throws. -/
def notify (w : World) (id : SocketId) (fd : Fd) (outcome : CgiOutcome)
    (ans : ClientSocket.CgiAnswers) (owner : SocketId) (c : ClientSocket) : World :=
  match outcome with
  | .error =>
      let h := c.onCgiExecutionError ans
      (w.put owner (.client h.client)).perform owner c.fd h.actions
  | .finished output =>
      let w := w.note (.acted id (.handOver owner output))
      match c.onCgiExecutionFinished output ans with
      | some h => (w.put owner (.client h.client)).perform owner c.fd h.actions
      | none => (w.put owner (.client (c.touch ans.now))).perform id fd [.epollDel]

/-- The call of a CGI socket to its owner, if it makes one. -/
def passOn (w : World) (id : SocketId) (fd : Fd) (ans : ClientSocket.CgiAnswers) :
    Option (SocketId × CgiOutcome) → Option World
  | none => some w
  | some (owner, outcome) =>
      match w.heap owner with
      | some (.client c) =>
          if ans.epollMod = true → w.kernel.IsRegistered c.fd then
            some (w.notify id fd outcome ans owner c)
          else none
      | _ => none

/-- What a CGI socket has done by itself. -/
def cgiHandled (w : World) (id : SocketId) (fd : Fd) (h : CgiSocket.Handled) : World :=
  let w := (w.put id (.cgi h.cgi)).perform id fd h.actions
  h.reaped.elim w fun pid => { w with kernel := w.kernel.exit pid }

/-- An event for a `CgiSocket`. -/
def cgiEvent (w : World) (id : SocketId) (g : CgiSocket) (events : Events)
    (ans : CgiSocket.Answers) (owner : ClientSocket.CgiAnswers) : Option World :=
  if ans.registered = true → w.kernel.IsRegistered g.fd then
    let h := g.handleEvent events ans
    ((w.cgiHandled id g.fd h).passOn id g.fd owner h.notify).map fun w =>
      if h.removeSocket then w.remove id g.fd else w
  else none

/-! ### Timeouts -/

/-- `CheckTimeout`, for an entry of the table. -/
def visit (w : World) (now : Int) (fd : Fd) (id : SocketId) (s : Socket)
    (sends : List (Option Nat)) (date : Option Bytes) : World :=
  if s.isTimeout (now - kRequestTimeout) then
    let w := w.note (.expired id now)
    let w :=
      match s with
      | .client c =>
          let h := c.handleTimeout sends date
          (w.put id (.client h.client)).perform id c.fd h.actions
      | _ => w
    -- the iterator is still good: the entry goes behind the object
    (w.delete id).erase fd
  else w

end World

/-! ### Steps -/

/-- A step, with what the system contributes to it. -/
inductive Label
  /-- a server is opened in the constructor; `fd` is `none` if that throws -/
  | openServer (fd : Option Fd) (now : Int) (epollAdd : Bool)
  | checkTimeout (now : Int)
  /-- the next entry in `CheckTimeout` -/
  | visit (sends : List (Option Nat)) (date : Option Bytes)
  /-- `epoll_wait`, or its failure -/
  | epollWait (reported : Option (List (Registration × Events)))
  | serverEvent (time : Int) (ans : ServerSocket.Answers) (epollAdd : Bool)
  | clientEvent (time : Int) (ans : ClientSocket.Answers) (epollAdd : Bool)
  | cgiEvent (time : Int) (ans : CgiSocket.Answers) (owner : ClientSocket.CgiAnswers)
  | clearResources
  /-- another process forks, closes a file, or ends -/
  | processForks (pid child : Pid)
  | processCloses (pid : Pid) (file : Epoll.File)
  | processExits (pid : Pid)

/-- The readings of the clock in a step. -/
def Label.times : Label → List Int
  | .openServer _ now _ => [now]
  | .checkTimeout now => [now]
  | .serverEvent time ans _ => [time, ans.now]
  | .clientEvent time ans _ => [time, ans.now, ans.sys.now]
  | .cgiEvent time _ owner => [time, owner.now]
  | _ => []

/-- What `epoll_wait` may report: registered events of registrations, each at most once. -/
def MayReport (k : Kernel) (reported : List (Registration × Events)) : Prop :=
  reported.length ≤ kMaxEvents ∧ (reported.map Prod.fst).Nodup ∧
    ∀ e ∈ reported, e.1 ∈ k.epoll ∧
      (e.2.epollIn = true → e.1.events.epollIn = true) ∧
      (e.2.epollOut = true → e.1.events.epollOut = true)

instance (k : Kernel) (reported : List (Registration × Events)) :
    Decidable (MayReport k reported) :=
  inferInstanceAs (Decidable (_ ∧ _ ∧ _))

namespace World

/-- The constructor, for one server. -/
def openServer (w : World) (config : ServerConfig) (configs : List ServerConfig)
    (fd : Option Fd) (now : Int) (epollAdd : Bool) : Option World :=
  match fd with
  | none => some w.clearResources
  | some fd =>
      if w.kernel.IsOpen fd then none
      else
        let id := w.nextId
        let w := { w with
          kernel := w.kernel.openFd fd
          control := nextTurn .starting .top configs }
        let w := w.insert (.server ⟨{ fd := fd, lastActivityTime := now }, config⟩)
        if epollAdd then some (w.register id fd) else some w.clearResources

/-- The next event. -/
def handle (w : World) (time : Int) (turn : World → SocketId → Socket → Events → Option World) :
    Option World :=
  match w.control with
  | .handling ((id, events) :: rest) =>
      match w.heap id with
      | some s =>
          (turn (w.note (.dispatched id time)) id s events).map fun w =>
            { w with control := nextTurn .handling .top rest }
      | none => none
  | _ => none

/-- One step, but for the clock. -/
def turn (w : World) : Label → Option World
  | .openServer fd now epollAdd =>
      match w.control with
      | .starting (config :: configs) => w.openServer config configs fd now epollAdd
      | _ => none
  | .checkTimeout now =>
      match w.control with
      | .top => some { w with control := nextTurn (.sweeping now) .waiting w.sockets.toList }
      | _ => none
  | .visit sends date =>
      match w.control with
      | .sweeping now ((fd, id) :: entries) =>
          match w.heap id with
          | some s =>
              some { w.visit now fd id s sends date with
                control := nextTurn (.sweeping now) .waiting entries }
          | none => none
      | _ => none
  | .epollWait none =>
      match w.control with
      | .waiting => some { w with control := .top }
      | _ => none
  | .epollWait (some reported) =>
      match w.control with
      | .waiting =>
          if MayReport w.kernel reported then
            some { w with
              control := nextTurn .handling .top (reported.map fun e => (e.1.ptr, e.2)) }
          else none
      | _ => none
  | .serverEvent time ans epollAdd =>
      w.handle time fun w _ s events =>
        match s with
        | .server s => w.serverEvent s events ans epollAdd
        | _ => none
  | .clientEvent time ans epollAdd =>
      w.handle time fun w id s events =>
        match s with
        | .client c => w.clientEvent id c events ans epollAdd
        | _ => none
  | .cgiEvent time ans owner =>
      w.handle time fun w id s events =>
        match s with
        | .cgi g => w.cgiEvent id g events ans owner
        | _ => none
  | .clearResources =>
      match w.control with
      | .ended => none
      | _ => some w.clearResources
  | .processForks pid child => some { w with kernel := w.kernel.inherit pid child }
  | .processCloses pid file => some { w with kernel := w.kernel.release pid file }
  | .processExits pid => some { w with kernel := w.kernel.exit pid }

/-- One step. -/
def step (w : World) (l : Label) : Option World :=
  (w.turn l).map fun w' => { w' with clock := l.times.getLast?.getD w.clock }

/-- The state before the first server is opened, with these descriptors open. -/
def start (configs : List ServerConfig) (open_ : List Fd) (clock : Int) : World where
  control := nextTurn .starting .top configs
  kernel := open_.dedup.foldl Epoll.Kernel.openFd {}
  clock := clock

/-- A state at the start of the program. -/
def IsStart (w : World) : Prop := ∃ configs open_ clock, w = start configs open_ clock

/-- A state of some run. -/
abbrev Reachable (w : World) : Prop :=
  Transition.Reachable step (fun _ _ => True) IsStart w

end World

end Webserv
