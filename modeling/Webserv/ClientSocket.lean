/-
Webserv/ClientSocket.lean

`ClientSocket` and `ServerSocket`: a connection, and the socket that accepts it.

A handler works on its own object and on the `SocketResult` it returns; both are the
state of its model, with what it has done so far.  `res_` is only kept from one
statement to the next and is left out, as are the traces on `std::cerr`.
-/
import Webserv.RequestHandler
import Webserv.CgiResponseParser
import Webserv.HttpRequest.Body

namespace Webserv

/-! ### Connections -/

/-- `ClientSocket`. -/
structure ClientSocket extends ASocket where
  /-- `config_`, a reference to the server's -/
  config : ServerConfig
  req : HttpRequest
  /-- `cgi_socket_` -/
  cgiSocket : Option SocketId := none

/-- `ClientSocket(fd, config, client_ip)`. -/
def ClientSocket.construct (fd : Fd) (config : ServerConfig) (clientIp : Bytes)
    (fcntl : Option Errno) (now : Int) : Except Exception ClientSocket :=
  (ASocket.construct fd fcntl now).map fun s =>
    { toASocket := s
      config := config
      req := { HttpRequest.fresh (toSize config.maxBodySize) with clientIp := clientIp } }

/-- `ASocket::UpdateLastActivity`, on a connection. -/
def ClientSocket.touch (c : ClientSocket) (now : Int) : ClientSocket :=
  { c with toASocket := c.updateLastActivity now }

/-- `RemoveCgiSocket`. -/
def ClientSocket.removeCgiSocket (c : ClientSocket) (sock : SocketId) : ClientSocket :=
  if c.cgiSocket = some sock then { c with cgiSocket := none } else c

/-- The answers of the system to one `ClientSocket::HandleEvent`. -/
structure ClientSocket.Answers where
  /-- `std::time` -/
  now : Int
  /-- what `recv` finds; `none` for -1 -/
  recv : Option Bytes
  /-- the calls of `RequestHandler::Run` -/
  sys : Sys
  /-- `EPOLL_CTL_MOD` in `HandleEpollIn`: the error, if it fails -/
  epollMod : Option Errno
  /-- `EPOLL_CTL_MOD` in the handler of an exception succeeds -/
  epollModError : Bool
  /-- how much `send` accepts; `none` for -1 -/
  send : Option Nat
  /-- the date of a response -/
  date : Option Bytes
  /-- the date of an error page -/
  dateError : Option Bytes

/-- A connection, its `SocketResult`, and what has been done. -/
structure ClientSocket.Handled where
  client : ClientSocket
  actions : List Action := []
  newSocket : Option CgiSocket := none
  removeSocket : Bool := false

namespace ClientSocket.Handled

/-- One more action. -/
def did (h : Handled) (action : Action) : Handled := { h with actions := h.actions ++ [action] }

/-- `req_` after a call of `Parse`. -/
def setReq (h : Handled) (req : HttpRequest) : Handled :=
  { h with client := { h.client with req := req } }

/-- `write_buffer_ = text`. -/
def setWriteBuffer (h : Handled) (text : Bytes) : Handled :=
  { h with client := { h.client with writeBuffer := text } }

/-- The new `CgiSocket` of a request, at the address `newId`, and its owner. -/
def adopt (h : Handled) (self newId : SocketId) (g : CgiSocket) : Handled :=
  { h with
    client := { h.client with cgiSocket := some newId }
    newSocket := some (g.onSetOwner (some self))
    actions := h.actions ++ [.adopt newId] }

end ClientSocket.Handled

/-- A member function of `ClientSocket`. -/
abbrev ClientM := EStateM Exception ClientSocket.Handled

/-! ### Reading -/

/-- `HandleEpollIn` behind `Parse`, for a request that is done.  The text of a response that
is replaced before anyone looks at it is left out. -/
def ClientSocket.respond (self newId : SocketId) (ans : Answers) : ClientM Unit := do
  let h ← get
  -- the handler has a copy of the request, which makes no difference: `RequestHandler.run_copyConstruct`
  let (result, actions) := RequestHandler.run ans.sys h.client.config h.client.req
  set ({ h with actions := h.actions ++ .runHandler h.client.req :: actions } : Handled)
  modify (·.setWriteBuffer (result.response.toHttpString ans.date))
  if result.isAsync then
    match result.newSocket with
    | some g => modify (·.adopt self newId g)
    -- a result that is asynchronous always has a socket
    | none => return
  else
    match ans.epollMod with
    | some errno => throw (.responseStatus (mapErrnoToHttpStatus errno))
    | none => modify (·.did (.epollMod EPOLLOUT))

/-- `HandleEpollIn`. -/
def ClientSocket.handleEpollIn (self newId : SocketId) (ans : Answers) : ClientM Unit := do
  match ans.recv with
  -- the end of the input, or an error
  | none | some [] => throw .connectionClosed
  | some (c :: cs) =>
      let data := (c :: cs).take kBufferSize
      modify (·.did (.recv data))
      match (HttpRequest.parse data).run (← get).client.req with
      | .error e req =>
          modify (·.setReq req)
          throw e
      | .ok _ req =>
          modify (·.setReq req)
          if req.state = .kDone then respond self newId ans else return

/-! ### Writing -/

/-- `HandleEpollOut`. -/
def ClientSocket.handleEpollOut (ans : Answers) : ClientM Unit := do
  let buffer := (← get).client.writeBuffer
  if buffer = [] then return
  else
    match ans.send with
    | none => throw .connectionClosed
    | some n =>
        modify (·.did (.send (buffer.take n)))
        modify (·.setWriteBuffer (buffer.drop n))
        -- a response that has been sent closes the connection, as an exception
        if n < buffer.length then return else throw .connectionClosed

/-- `HttpResponse(status)` with the headers and the page of an error. -/
def errorResponse (status : Status) : Except Exception HttpResponse := do
  let res ← (HttpResponse.ofStatus status).addHeader (bytes "Connection") (bytes "close")
  let res ← res.addHeader (bytes "Content-Type") (bytes "text/html")
  return res.ensureDefaultErrorContent

/-- The headers of an error page can be added. -/
theorem errorResponse_ok (status : Status) :
    ∃ res, errorResponse status = .ok res ∧ res.HasVersion := by
  refine ⟨_, rfl, ?_⟩
  apply HttpResponse.HasVersion.ensureDefaultErrorContent
  rfl

/-! ### Events -/

/-- The statements inside the `try` of `HandleEvent`. -/
def ClientSocket.handleEvents (self newId : SocketId) (events : Events) (ans : Answers) :
    ClientM Unit := do
  if events.epollIn then handleEpollIn self newId ans
  if events.epollOut then handleEpollOut ans

/-- The handler of a `ResponseStatusException`. -/
def ClientSocket.refuse (h : Handled) (res : HttpResponse) (ans : Answers) : Handled :=
  let h := h.setWriteBuffer (res.toHttpString ans.dateError)
  if ans.epollModError then h.did (.epollMod EPOLLOUT)
  -- without `EPOLLOUT` it would never send
  else { h.did .epollDel with removeSocket := true }

/-- `HandleEvent`, if it returns: a `Parse` that goes on for ever does not, and no other
exception leaves it. -/
def ClientSocket.handleEvent (c : ClientSocket) (self newId : SocketId) (events : Events)
    (ans : Answers) : Option Handled :=
  match (handleEvents self newId events ans).run { client := c.touch ans.now } with
  | .ok _ h => some h
  | .error (.responseStatus status) h =>
      match errorResponse status with
      | .ok res => some (refuse h res ans)
      | .error _ => none
  -- no state behind a call that never returns
  | .error .diverges _ => none
  | .error _ h => some { h.did .epollDel with removeSocket := true }

/-- The loop of `HandleTimeout`, for the answers of `send`: what is left, and what is sent. -/
def sendAll : List (Option Nat) → Bytes → Bytes × List Action
  | [], buffer => (buffer, [])
  | none :: _, buffer => (buffer, [])
  | some n :: answers, buffer =>
      -- `send` has nothing left to do, or does nothing
      if buffer = [] ∨ n = 0 then (buffer, [])
      else
        let (rest, actions) := sendAll answers (buffer.drop n)
        (rest, .send (buffer.take n) :: actions)

/-- `HandleTimeout`. -/
def ClientSocket.handleTimeout (c : ClientSocket) (sends : List (Option Nat))
    (date : Option Bytes) : Handled :=
  match errorResponse .kRequestTimeout with
  | .ok res =>
      let (rest, actions) := sendAll sends (res.toHttpString date)
      { client := { c with writeBuffer := rest }, actions := actions ++ [.epollDel] }
  -- the page has no header that `addHeader` refuses: `errorResponse_ok`
  | .error _ => { client := c }

/-! ### CGI programs -/

/-- The answers of the system to one call of a CGI socket. -/
structure ClientSocket.CgiAnswers where
  /-- `std::time` -/
  now : Int
  /-- the date of the response -/
  date : Option Bytes
  /-- `EPOLL_CTL_MOD` succeeds -/
  epollMod : Bool

/-- The end of both functions: the response waits for `EPOLLOUT`. -/
def ClientSocket.answer (c : ClientSocket) (res : HttpResponse) (ans : CgiAnswers) : Handled where
  client := { c.touch ans.now with writeBuffer := res.toHttpString ans.date }
  actions := if ans.epollMod then [.epollMod EPOLLOUT] else []

/-- `OnCgiExecutionFinished`; `none` if an exception leaves it. -/
def ClientSocket.onCgiExecutionFinished (c : ClientSocket) (cgiOutput : Bytes)
    (ans : CgiAnswers) : Option Handled :=
  match parseCgiResponse cgiOutput with
  | .ok res => some (c.answer res ans)
  | .error (.responseStatus _) =>
      match errorResponse .kInternalServerError with
      | .ok res => some (c.answer res ans)
      | .error _ => none
  | .error _ => none

/-- `OnCgiExecutionError`. -/
def ClientSocket.onCgiExecutionError (c : ClientSocket) (ans : CgiAnswers) : Handled :=
  c.answer (.ofStatus .kInternalServerError) ans

/-! ### Accepting -/

/-- `ServerSocket`. -/
structure ServerSocket extends ASocket where
  config : ServerConfig

/-- `Ipv4ToString`, of an address in host order. -/
def ipv4ToString (ip : UInt32) : Bytes :=
  natToString ((ip >>> 24) &&& 0xFF).toNat ++ [DOT] ++
    natToString ((ip >>> 16) &&& 0xFF).toNat ++ [DOT] ++
    natToString ((ip >>> 8) &&& 0xFF).toNat ++ [DOT] ++ natToString (ip &&& 0xFF).toNat

/-- The answers of the system to one `ServerSocket::HandleEvent`. -/
structure ServerSocket.Answers where
  /-- `accept`: a descriptor and the address of the client; `none` for -1 -/
  accept : Option (Fd × UInt32)
  /-- `fcntl`, in `SetNonBlocking` -/
  fcntl : Option Errno
  /-- `std::time` -/
  now : Int

/-- What `ServerSocket::HandleEvent` leaves: the descriptor that was accepted, and the
connection, if its constructor has not thrown. -/
structure ServerSocket.Handled where
  accepted : Option Fd := none
  newSocket : Option ClientSocket := none

/-- `ServerSocket::HandleEvent`. -/
def ServerSocket.handleEvent (s : ServerSocket) (events : Events) (ans : Answers) : Handled :=
  if events.epollIn then
    match ans.accept with
    | none => {}
    | some (fd, ip) =>
        { accepted := some fd
          newSocket :=
            (ClientSocket.construct fd s.config (ipv4ToString ip) ans.fcntl ans.now).toOption }
  else {}

end Webserv
