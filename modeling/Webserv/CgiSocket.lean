/-
Webserv/CgiSocket.lean

`ASocket` and `CgiSocket`: the server's end of the socket pair to a CGI program.

A handler works on its own object.  What it asks of its owner comes back as a
value, and the event loop passes it on.
-/
import Webserv.System

namespace Webserv

/-! ### Sockets -/

/-- An empty buffer is a string. -/
theorem nil_fits : ([] : Bytes).length ≤ stringMaxSize := by decide

/-- `ASocket`. -/
structure ASocket where
  fd : Fd
  /-- `last_activity_time_`, in seconds -/
  lastActivityTime : Int
  readBuffer : Bytes := []
  writeBuffer : Bytes := []
  readBuffer_le : readBuffer.length ≤ stringMaxSize := by exact nil_fits

/-- `ASocket::UpdateLastActivity`. -/
def ASocket.updateLastActivity (s : ASocket) (now : Int) : ASocket :=
  { s with lastActivityTime := now }

/-- `ASocket::IsTimeout`. -/
def ASocket.isTimeout (s : ASocket) (thresholdTime : Int) : Bool :=
  s.lastActivityTime < thresholdTime

/-- `ASocket(fd)`.  `fcntl` is the error of a call that `SetNonBlocking` makes. -/
def ASocket.construct (fd : Fd) (fcntl : Option Errno) (now : Int) : Except Exception ASocket :=
  match fcntl with
  | some errno => .error (.responseStatus (mapErrnoToHttpStatus errno))
  | none => .ok { fd := fd, lastActivityTime := now }

/-- `kBufferSize`, of `ClientSocket` and of `CgiSocket`. -/
def kBufferSize : Nat := 1024

/-- `CgiSocket`. -/
structure CgiSocket extends ASocket where
  /-- `pid_`, `none` for -1 -/
  pid : Option Pid
  /-- `owner_` -/
  owner : Option SocketId := none

/-- `CgiSocket(fd, pid)`. -/
def CgiSocket.construct (fd : Fd) (pid : Pid) (fcntl : Option Errno) (now : Int) :
    Except Exception CgiSocket :=
  (ASocket.construct fd fcntl now).map fun s => { toASocket := s, pid := some pid }

/-- `OnSetOwner`. -/
def CgiSocket.onSetOwner (g : CgiSocket) (owner : Option SocketId) : CgiSocket :=
  { g with owner := owner }

/-! ### Events -/

/-- The call `HandleEvent` makes to its owner. -/
inductive CgiOutcome
  | finished (output : Bytes)
  | error
  deriving DecidableEq, Repr

/-- The answers of the system to one `CgiSocket::HandleEvent`. -/
structure CgiSocket.Answers where
  /-- what `read` finds; `none` for -1 -/
  read : Option Bytes
  /-- the program has exited with 0 -/
  exitedZero : Bool
  /-- the descriptor is registered, so that `EPOLL_CTL_DEL` succeeds -/
  registered : Bool

/-- What `CgiSocket::HandleEvent` leaves. -/
structure CgiSocket.Handled where
  cgi : CgiSocket
  actions : List Action := []
  /-- the process that `waitpid` has reaped -/
  reaped : Option Pid := none
  /-- the call to the owner -/
  notify : Option (SocketId × CgiOutcome) := none
  removeSocket : Bool := false

/-- `read_buffer_.append(buf, n)`, and what the handler makes of a failure. -/
def CgiSocket.append (g : CgiSocket) (data : Bytes) : CgiSocket.Handled :=
  if h : g.readBuffer.length + data.length ≤ stringMaxSize then
    { cgi := { g with
        readBuffer := g.readBuffer ++ data
        readBuffer_le := by rw [List.length_append]; exact h } }
  else { cgi := g, actions := [.epollDel], removeSocket := true }

/-- The branch of `HandleEvent` for the end of the output. -/
def CgiSocket.finish (g : CgiSocket) (ans : CgiSocket.Answers) : CgiSocket.Handled :=
  { cgi := { g with pid := none }
    -- if the first call fails, the handler makes another
    actions := if ans.registered then [.epollDel] else [.epollDel, .epollDel]
    reaped := g.pid
    notify :=
      if ans.registered then
        g.owner.map fun owner =>
          (owner, if ans.exitedZero then .finished g.readBuffer else .error)
      else none
    removeSocket := true }

/-- `CgiSocket::HandleEvent`. -/
def CgiSocket.handleEvent (g : CgiSocket) (events : Events) (ans : CgiSocket.Answers) :
    CgiSocket.Handled :=
  if events.epollIn then
    match ans.read with
    | some (c :: cs) => g.append ((c :: cs).take kBufferSize)
    -- nothing to read, or an error: the program has ended
    | _ => g.finish ans
  else { cgi := g }

end Webserv
