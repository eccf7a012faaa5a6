/-
Webserv/System.lean

The system calls of the program: what they are given, and what they answer.

The answers to the calls of one handler are an argument of its model (`Sys`, `Answers`
in later modules), so a statement for all of them is one for every behaviour of
the system.  What the handler does comes back as the list of its `Action`s, in the
order of the calls.
-/
import Webserv.HttpResponse

namespace Webserv

/-! ### Names of the system -/

/-- A file descriptor. -/
abbrev Fd := Nat

/-- A process. -/
abbrev Pid := Nat

/-- The address of a socket object.  Every object has its own. -/
abbrev SocketId := Nat

/-- `errno`, as far as the program tells its values apart. -/
inductive Errno
  | ENOENT | ENOTDIR | EACCES | EPERM | EISDIR | other
  deriving DecidableEq, Repr

/-- `lib::utils::MapErrnoToHttpStatus`. -/
def mapErrnoToHttpStatus : Errno → Status
  | .ENOENT | .ENOTDIR => .kNotFound
  | .EACCES | .EPERM => .kForbidden
  | .EISDIR => .kBadRequest
  | .other => .kInternalServerError

/-- The events a descriptor is registered for, or that are reported for it:
`EPOLLIN` and `EPOLLOUT`.  No handler looks at another. -/
structure Events where
  epollIn : Bool
  epollOut : Bool
  deriving DecidableEq, Repr

/-- `EPOLLIN`. -/
def EPOLLIN : Events := ⟨true, false⟩

/-- `EPOLLOUT`. -/
def EPOLLOUT : Events := ⟨false, true⟩

/-! ### Files -/

/-- `st_mode`, as far as the program tells its values apart. -/
inductive FileKind
  | regular | directory | other
  deriving DecidableEq, Repr

/-- What becomes of an `std::ofstream` that is opened, written to once and
destroyed.  Its last bytes may still be lost when it is destroyed, unnoticed. -/
structure OfstreamResult where
  /-- the file was opened, and so truncated -/
  opened : Bool
  /-- the stream is good behind `write` -/
  good : Bool
  /-- the bytes of the data that the file holds in the end -/
  stored : Nat
  deriving DecidableEq, Repr

/-! ### Actions -/

/-- What a handler does that others can see. -/
inductive Action
  /-- `recv` has given these bytes -/
  | recv (data : Bytes)
  /-- `send` has accepted these bytes -/
  | send (data : Bytes)
  /-- `RequestHandler::Run` is called -/
  | runHandler (req : HttpRequest)
  /-- a file is opened for reading -/
  | readFile (path : Bytes)
  /-- a file is opened for writing, and written to -/
  | writeFile (path data : Bytes) (result : OfstreamResult)
  /-- `std::remove` -/
  | removeFile (path : Bytes)
  /-- `socketpair` has succeeded -/
  | socketpair (fd0 fd1 : Fd)
  /-- `fork` has succeeded -/
  | fork (pid : Pid)
  /-- `execve`, in the process that was forked -/
  | execve (path : Bytes) (envp : List Bytes)
  /-- `close` -/
  | close (fd : Fd)
  /-- `write` to a CGI program has accepted this many bytes of the data -/
  | writeCgi (data : Bytes) (accepted : Nat)
  /-- `EPOLL_CTL_MOD` has succeeded, on the handler's own descriptor -/
  | epollMod (interest : Events)
  /-- `EPOLL_CTL_DEL`, on the handler's own descriptor -/
  | epollDel
  /-- a new socket is given to its owner -/
  | adopt (cgi : SocketId)
  /-- the output of a CGI program is given to its owner -/
  | handOver (owner : SocketId) (output : Bytes)

/-- The path of a read, a write, a removal or the start of a program. -/
def Action.target : Action → Option Bytes
  | .readFile path | .writeFile path _ _ | .removeFile path | .execve path _ => some path
  | _ => none

/-- The paths that a list of actions reads, writes, removes or starts. -/
def targets (actions : List Action) : List Bytes := actions.filterMap Action.target

@[simp] theorem targets_nil : targets [] = [] := rfl

@[simp] theorem targets_append (as bs : List Action) :
    targets (as ++ bs) = targets as ++ targets bs := List.filterMap_append

end Webserv
