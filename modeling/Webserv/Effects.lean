/-
Webserv/Effects.lean

What one `RequestHandler::Run` does to the system.

A run that starts no program touches one file at most, or fails between `socketpair` and
the new socket; a run that starts one makes the same calls every time.  Each function of
the handler has one lemma that says with which actions it ends.
-/
import Webserv.Routes
import Webserv.Theory.ExceptState

namespace Webserv

open EStateM (Triple)

/-! ### Outcomes -/

/-- The action is on a file. -/
def Action.isFile : Action → Bool
  | .readFile _ | .writeFile _ _ _ | .removeFile _ => true
  | _ => false

/-- The actions of a run that leaves no new socket. -/
inductive NoProgram (sys : Sys) : List Action → Prop
  | files {actions : List Action} (h : ∀ a ∈ actions, a.isFile = true)
      (hone : actions.length ≤ 1) : NoProgram sys actions
  | noFork {fd0 fd1 : Fd} (h : sys.socketpair = some (fd0, fd1)) :
      NoProgram sys [.socketpair fd0 fd1, .close fd1, .close fd0]
  | noSocket {fd0 fd1 : Fd} {pid : Pid} {path : Bytes} {envp : List Bytes}
      (h : sys.socketpair = some (fd0, fd1)) :
      NoProgram sys
        [.socketpair fd0 fd1, .fork pid, .execve path envp, .close fd1, .close fd0]

/-- What the program is given: the body of a `POST`. -/
def cgiInput (sys : Sys) (req : HttpRequest) : List Action :=
  if req.method = .kPost then [.writeCgi req.body (min req.body.length (sys.write.getD 0))] else []

/-- The result of a run, and its actions. -/
inductive RunOutcome (sys : Sys) (req : HttpRequest) : ExecResult → List Action → Prop
  | answered {result : ExecResult} {actions : List Action} (hnew : result.newSocket = none)
      (hasync : result.isAsync = false) (h : NoProgram sys actions) :
      RunOutcome sys req result actions
  | started {fd0 fd1 : Fd} {pid : Pid} {path : Bytes} {envp : List Bytes}
      (hpair : sys.socketpair = some (fd0, fd1)) (hfork : sys.fork = some pid) :
      RunOutcome sys req
        (.ofSocket { fd := fd0, lastActivityTime := sys.now, pid := some pid })
        ([.socketpair fd0 fd1, .fork pid, .execve path envp, .close fd1] ++ cgiInput sys req)

/-- From the start of a run, the function ends in `O` with its value or its exception. -/
abbrev Ends {α : Type} (x : HandlerM α) (O : Except Exception α → List Action → Prop) : Prop :=
  Triple (· = []) x (fun a => O (.ok a)) fun e => O (.error e)

/-- A response, and no new socket. -/
def Answered (r : Except Exception ExecResult) : Prop :=
  ∀ result, r = .ok result → result.newSocket = none ∧ result.isAsync = false

variable {sys : Sys} {conf : ServerConfig} {req : HttpRequest} {loc : Location} {path : Bytes}
variable {α : Type}

theorem answered_ok (res : HttpResponse) : Answered (.ok { response := res }) := by
  rintro result ⟨⟩
  exact ⟨rfl, rfl⟩

theorem answered_error (e : Exception) : Answered (.error e) := fun _ h => by cases h

/-! ### The environment of a program -/

theorem methodToString_post {m : Method} : methodToString m = bytes "POST" ↔ m = .kPost := by
  cases m
  all_goals decide +kernel

/-- `REQUEST_METHOD` is that of the request. -/
theorem metaVars_method (req : HttpRequest) (loc : Location) (pathInfo : Option Bytes) :
    (initializeMetaVars req loc pathInfo)[bytes "REQUEST_METHOD"]? =
      some (some (methodToString req.method)) :=
  (initializeMetaVars_getElem? req loc pathInfo).2.2.1

/-! ### Programs -/

/-- What a program is given behind its start. -/
def CgiExecutor.input (cgi : CgiExecutor) (sys : Sys) : List Action :=
  if cgi.metaVars[bytes "REQUEST_METHOD"]? = some (some (bytes "POST")) then
    [.writeCgi cgi.body (min cgi.body.length (sys.write.getD 0))]
  else []

/-- What `CgiExecutor::Run` ends with. -/
inductive ProgramEnds (sys : Sys) (cgi : CgiExecutor) :
    Except Exception ExecResult → List Action → Prop
  | refused {r : Except Exception ExecResult} (h : Answered r) : ProgramEnds sys cgi r []
  | noFork {e : Exception} {fd0 fd1 : Fd} (hpair : sys.socketpair = some (fd0, fd1)) :
      ProgramEnds sys cgi (.error e) [.socketpair fd0 fd1, .close fd1, .close fd0]
  | noSocket {e : Exception} {fd0 fd1 : Fd} {pid : Pid}
      (hpair : sys.socketpair = some (fd0, fd1)) (hfork : sys.fork = some pid) :
      ProgramEnds sys cgi (.error e)
        [.socketpair fd0 fd1, .fork pid, .execve cgi.scriptPath cgi.getMetaVars, .close fd1,
          .close fd0]
  | started {fd0 fd1 : Fd} {pid : Pid} (hpair : sys.socketpair = some (fd0, fd1))
      (hfork : sys.fork = some pid) :
      ProgramEnds sys cgi
        (.ok (.ofSocket { fd := fd0, lastActivityTime := sys.now, pid := some pid }))
        ([.socketpair fd0 fd1, .fork pid, .execve cgi.scriptPath cgi.getMetaVars, .close fd1] ++
          cgi.input sys)

/-- **What a program is started with.** -/
theorem cgiRun_ends (cgi : CgiExecutor) : Ends (cgi.run sys) (ProgramEnds sys cgi) := by
  rw [CgiExecutor.run]
  refine .ite (fun _ => .pure ?_) fun _ => ?_
  · intro s hs
    rw [hs]
    exact .refused (answered_ok _)
  rcases hpair : sys.socketpair with - | ⟨fd0, fd1⟩
  · apply Triple.throw
    intro s hs
    rw [hs]
    exact .refused (answered_error _)
  apply Triple.update_bind (M := (· = [.socketpair fd0 fd1]))
  swap
  · intro s hs
    rw [hs]
    rfl
  rcases hfork : sys.fork with - | pid
  · intro s hs
    rw [hs]
    exact .noFork hpair
  dsimp only
  rcases hnew : CgiSocket.construct fd0 pid sys.fcntl sys.now with e | g
  · intro s hs
    rw [hs]
    exact .noSocket hpair hfork
  -- the parent has the socket, and writes to it
  have hg : g = { fd := fd0, lastActivityTime := sys.now, pid := some pid } := by
    rcases hfcntl : sys.fcntl with - | errno
    · rw [hfcntl] at hnew
      cases hnew
      rfl
    · rw [hfcntl] at hnew
      cases hnew
  have hstarted := @ProgramEnds.started sys cgi fd0 fd1 pid hpair hfork
  rw [CgiExecutor.input] at hstarted
  intro s hs
  rw [hs, hg]
  split_ifs at hstarted with hpost
  · simp only [if_pos hpost]
    exact hstarted
  · simp only [if_neg hpost]
    exact hstarted

theorem construct_input (sys : Sys) (req : HttpRequest) (loc : Location) (path : Bytes) :
    (CgiExecutor.construct req loc path).input sys = cgiInput sys req := by
  have hmethod : (CgiExecutor.construct req loc path).metaVars[bytes "REQUEST_METHOD"]? =
      some (some (methodToString req.method)) := metaVars_method req loc _
  have hpost : (some (some (methodToString req.method)) : Option (Option Bytes)) =
      some (some (bytes "POST")) ↔ req.method = .kPost := by
    rw [Option.some.injEq, Option.some.injEq, methodToString_post]
  rw [CgiExecutor.input, hmethod, cgiInput]
  simp only [hpost]
  rfl

/-! ### Files -/

/-- A call says that there is nothing at the path, or no directory above it. -/
def Lacks (sys : Sys) (path : Bytes) : Prop :=
  ∃ errno, mapErrnoToHttpStatus errno = .kNotFound ∧
    (sys.stat path = .error errno ∨ sys.access path = some errno ∨
      sys.ifstream path = .error errno ∨ sys.stat (dirname path) = .error errno ∨
      sys.access (dirname path) = some errno ∨ sys.remove path = some errno)

/-- A run that ends with this exception answers with an error, and with `404` only if there is
nothing at the path. -/
def Refuses (sys : Sys) (path : Bytes) (e : Exception) : Prop :=
  ∃ status, e = .responseStatus status ∧ status ≠ .kOk ∧ (status = .kNotFound → Lacks sys path)

theorem mapErrno_ne_ok (errno : Errno) : mapErrnoToHttpStatus errno ≠ .kOk := by
  cases errno
  all_goals decide

/-- The errors of a call on the path. -/
theorem refuses_of_errno {errno : Errno}
    (h : mapErrnoToHttpStatus errno = .kNotFound → Lacks sys path) :
    Refuses sys path (.responseStatus (mapErrnoToHttpStatus errno)) :=
  ⟨_, rfl, mapErrno_ne_ok errno, h⟩

/-- The function only looks at the path, and refuses it if it throws. -/
abbrev Checks (sys : Sys) (path : Bytes) (x : HandlerM α) (Q : α → Prop) : Prop :=
  Triple (· = []) x (fun a s => s = [] ∧ Q a) fun e s => s = [] ∧ Refuses sys path e

theorem failErrno_refuses {P : List Action → Prop} {Q : α → List Action → Prop} {errno : Errno}
    (h : mapErrnoToHttpStatus errno = .kNotFound → Lacks sys path) :
    Triple P (failErrno errno : HandlerM α) Q fun e s => P s ∧ Refuses sys path e :=
  .throw fun _ hs => ⟨hs, refuses_of_errno h⟩

theorem ensureRegularFile_checks (path : Bytes) :
    Checks sys path (ensureRegularFile sys path) fun _ => sys.stat path = .ok .regular := by
  have hforbidden : ∀ s : List Action, s = [] →
      s = [] ∧ Refuses sys path (.responseStatus .kForbidden) := fun s hs =>
    ⟨hs, .kForbidden, rfl, by decide, fun h => by cases h⟩
  rw [ensureRegularFile]
  rcases hstat : sys.stat path with errno | kind
  · exact failErrno_refuses fun h => ⟨errno, h, .inl hstat⟩
  · cases kind with
    | regular => exact .pure fun s hs => ⟨hs, rfl⟩
    | directory => exact .throw hforbidden
    | other => exact .throw hforbidden

theorem ensureAccess_checks {target : Bytes}
    (h : ∀ errno, sys.access target = some errno → mapErrnoToHttpStatus errno = .kNotFound →
      Lacks sys path) :
    Checks sys path (ensureAccess sys target) fun _ => True := by
  rw [ensureAccess]
  rcases haccess : sys.access target with - | errno
  · exact .pure fun s hs => ⟨hs, trivial⟩
  · exact failErrno_refuses (h errno haccess)

theorem breaksLine_mimeType (path : Bytes) : breaksLine (detectMimeTypeFromPath path) = false := by
  unfold detectMimeTypeFromPath
  generalize (if path.contains DOT then toLowerAscii (path.rtakeWhile (· ≠ DOT)) else []) = extension
  dsimp only
  split_ifs
  all_goals rfl

/-- **A read**: the response has what the file holds. -/
theorem serveFile_spec (path : Bytes) :
    Triple (· = []) (serveFile sys path)
      (fun result s => s = [.readFile path] ∧ Answered (.ok result) ∧
        result.response.statusCode = Status.kOk.code ∧
        sys.ifstream path = .ok result.response.body)
      fun e s => (s = [] ∨ s = [.readFile path]) ∧ Refuses sys path e := by
  have hread : Triple (· = []) (readFileToStringOrThrow sys path)
      (fun body s => s = [.readFile path] ∧ sys.ifstream path = .ok body)
      fun e s => (s = [] ∨ s = [.readFile path]) ∧ Refuses sys path e := by
    have hopen : Triple (fun s => s = [] ∧ True) (act (.readFile path))
        (fun _ s => s = [.readFile path])
        fun e s => (s = [] ∨ s = [.readFile path]) ∧ Refuses sys path e := by
      apply Triple.update
      rintro s ⟨rfl, -⟩
      rfl
    refine ((ensureRegularFile_checks path).imp (fun _ hs => hs) (fun _ _ h => h.1)
      fun _ _ h => ⟨.inl h.1, h.2⟩).bind fun _ => ?_
    refine ((ensureAccess_checks fun errno h hnot => ⟨errno, hnot, .inr (.inl h)⟩).imp
      (fun _ hs => hs) (fun _ _ h => h) fun _ _ h => ⟨.inl h.1, h.2⟩).bind fun _ => ?_
    refine hopen.bind fun _ => ?_
    rcases hcontent : sys.ifstream path with errno | content
    · exact (failErrno_refuses fun h => ⟨errno, h, .inr (.inr (.inl hcontent))⟩).imp
        (fun _ hs => hs) (fun _ _ h => h) fun _ _ h => ⟨.inr h.1, h.2⟩
    · exact .pure fun s hs => ⟨hs, rfl⟩
  refine hread.bind fun body => ?_
  have hadd : addHeader {} (bytes "Content-Type") (detectMimeTypeFromPath path) =
      pure
        { headers := Std.ExtTreeMap.insert ∅ (toLowerAscii (bytes "Content-Type"))
            (detectMimeTypeFromPath path) } := by
    rw [addHeader, HttpResponse.addHeader, breaksLine_mimeType]
    rfl
  rw [hadd]
  exact .pure_bind (.pure fun s hs => ⟨hs.1, answered_ok _, rfl, hs.2⟩)

/-- **A removal**: the file was there. -/
theorem handleDelete_spec (path : Bytes) :
    Triple (· = []) (handleDelete sys path)
      (fun result s => s = [.removeFile path] ∧ Answered (.ok result) ∧ sys.remove path = none ∧
        sys.stat path = .ok .regular ∧ result.response.statusCode = Status.kOk.code)
      fun e s => (s = [] ∨ s = [.removeFile path] ∧ sys.remove path ≠ none) ∧
        Refuses sys path e := by
  have hcheck : Checks sys path (checkDeletableRegularFileOrThrow sys path)
      fun _ => sys.stat path = .ok .regular := by
    refine (ensureRegularFile_checks path).bind fun _ => ?_
    rcases hparent : sys.stat (dirname path) with errno | kind
    · exact (failErrno_refuses fun h => ⟨errno, h, .inr (.inr (.inr (.inl hparent)))⟩).imp
        (fun s hs => hs.1) (fun _ _ h => h) fun _ _ h => h
    · rintro s ⟨rfl, hstat⟩
      exact ((ensureAccess_checks fun errno h hnot =>
        ⟨errno, hnot, .inr (.inr (.inr (.inr (.inl h))))⟩).imp (fun _ hs => hs)
          (fun _ _ h => ⟨h.1, hstat⟩) fun _ _ h => h) [] rfl
  have hremove : Triple (fun s => s = [] ∧ sys.stat path = .ok .regular) (act (.removeFile path))
      (fun _ s => s = [.removeFile path] ∧ sys.stat path = .ok .regular)
      fun e s => (s = [] ∨ s = [.removeFile path] ∧ sys.remove path ≠ none) ∧
        Refuses sys path e := by
    apply Triple.update
    rintro s ⟨rfl, hstat⟩
    exact ⟨rfl, hstat⟩
  refine (hcheck.imp (fun _ hs => hs) (fun _ _ h => h) fun _ _ h => ⟨.inl h.1, h.2⟩).bind
    fun _ => hremove.bind fun _ => ?_
  rcases hgone : sys.remove path with - | errno
  · exact .pure_bind (.pure fun s hs => ⟨hs.1, answered_ok _, rfl, hs.2, rfl⟩)
  · exact (failErrno_refuses fun h => ⟨errno, h, .inr (.inr (.inr (.inr (.inr hgone))))⟩).imp
      (fun _ hs => hs.1) (fun _ _ h => h)
      fun _ _ h => ⟨.inr ⟨h.1, Option.some_ne_none errno⟩, h.2⟩

/-- The one write of an upload. -/
def upload (sys : Sys) (req : HttpRequest) (path : Bytes) : List Action :=
  [.writeFile path req.body (sys.ofstream path req.body)]

/-- The upload throws, or answers `201`. -/
theorem storeBody_run (sys : Sys) (req : HttpRequest) (path : Bytes) :
    (storeBody sys req path).run [] =
      if (sys.ofstream path req.body).opened = false then
        .error (.responseStatus .kForbidden) (upload sys req path)
      else if (sys.ofstream path req.body).good = false then
        .error (.responseStatus .kInternalServerError) (upload sys req path)
      else if breaksLine req.uri = true then .error .invalidHeader (upload sys req path)
      else
        .ok
          { response :=
              { HttpResponse.ofStatus .kCreated with
                headers := Std.ExtTreeMap.insert ∅ (toLowerAscii (bytes "Location")) req.uri } }
          (upload sys req path) := by
  rcases hopened : (sys.ofstream path req.body).opened with - | -
  · simp only [storeBody, hopened]
    rfl
  rcases hgood : (sys.ofstream path req.body).good with - | -
  · simp only [storeBody, hopened, hgood]
    rfl
  rcases hbreaks : breaksLine req.uri with - | -
  · simp only [storeBody, hopened, hgood, addHeader, HttpResponse.addHeader, hbreaks]
    rfl
  · simp only [storeBody, hopened, hgood, addHeader, HttpResponse.addHeader, hbreaks]
    rfl

/-- The one file of a run. -/
def OnFile (path : Bytes) (s : List Action) : Prop :=
  s = [] ∨ ∃ a : Action, s = [a] ∧ a.isFile = true ∧ a.target = some path

/-- **What is done to a file.** -/
theorem handleFile_ends (path : Bytes) :
    Ends (handleFile sys req path) fun r s => Answered r ∧ OnFile path s := by
  rw [handleFile]
  cases req.method with
  | kGet =>
      refine (serveFile_spec path).imp (fun _ hs => hs) ?_ ?_
      · exact fun result s h => ⟨h.2.1, .inr ⟨_, h.1, rfl, rfl⟩⟩
      · exact fun e s h => ⟨answered_error e, h.1.imp_right fun hs => ⟨_, hs, rfl, rfl⟩⟩
  | kPost =>
      rintro s rfl
      have hupload : OnFile path (upload sys req path) := .inr ⟨_, rfl, rfl, rfl⟩
      have hrun := storeBody_run sys req path
      split_ifs at hrun
      · rw [hrun]
        exact ⟨answered_error _, hupload⟩
      · rw [hrun]
        exact ⟨answered_error _, hupload⟩
      · rw [hrun]
        exact ⟨answered_error _, hupload⟩
      · rw [hrun]
        exact ⟨answered_ok _, hupload⟩
  | kDelete =>
      refine (handleDelete_spec path).imp (fun _ hs => hs) ?_ ?_
      · exact fun result s h => ⟨h.2.1, .inr ⟨_, h.1, rfl, rfl⟩⟩
      · exact fun e s h => ⟨answered_error e, h.1.imp_right fun hs => ⟨_, hs.1, rfl, rfl⟩⟩
  | kNone => exact .pure fun s hs => ⟨answered_ok _, .inl hs⟩
  | kHead => exact .pure fun s hs => ⟨answered_ok _, .inl hs⟩
  | kUnknownMethod => exact .pure fun s hs => ⟨answered_ok _, .inl hs⟩

/-! ### The request handler -/

/-- The function answers, or throws, without looking at the system's state. -/
abbrev AnswersItself (x : HandlerM ExecResult) : Prop := Ends x fun r s => s = [] ∧ Answered r

theorem pure_answers (res : HttpResponse) : AnswersItself (pure { response := res }) :=
  .pure fun _ hs => ⟨hs, answered_ok res⟩

theorem throw_answers {e : Exception} {k : α → HandlerM ExecResult} :
    AnswersItself (callHandler (.error e) >>= k) :=
  Triple.throw_bind fun _ hs => ⟨hs, answered_error e⟩

theorem call_bind_answers {e : Except Exception α} {k : α → HandlerM ExecResult}
    (hk : ∀ a, AnswersItself (k a)) : AnswersItself (callHandler e >>= k) := by
  cases e with
  | ok a => exact Triple.pure_bind (hk a)
  | error e => exact throw_answers

theorem rejectDirectory_answers : AnswersItself rejectDirectory :=
  call_bind_answers fun _ => call_bind_answers fun _ => pure_answers _

theorem redirectTo_answers (loc : Location) : AnswersItself (redirectTo loc) :=
  call_bind_answers fun _ => pure_answers _

theorem rejectMethod_answers (loc : Location) : AnswersItself (rejectMethod loc) :=
  call_bind_answers fun _ => call_bind_answers fun _ => call_bind_answers fun _ => pure_answers _

/-- Without a file and a program, `Run` answers itself. -/
theorem handleRequest_answers (hover : handedOver sys conf req = none)
    (hserved : servedFile sys conf req = none) : AnswersItself (handleRequest sys conf req) := by
  rw [handleRequest]
  rcases hroute : prepareRoutingContext conf req with e | ⟨m, path⟩
  · exact throw_answers
  -- the redirect and the method are looked at before the file
  refine Triple.pure_bind (.ite (fun _ => redirectTo_answers m.loc) fun hredirect => .ite
    (fun _ => rejectMethod_answers m.loc) fun hmethods => ?_)
  rw [Bool.not_eq_true] at hredirect hmethods
  have hrouted : Routed conf req m path := ⟨hroute, hredirect, hmethods⟩
  rw [hrouted.handedOver_eq] at hover
  rw [hrouted.servedFile_eq] at hserved
  rw [handleMethod]
  cases hmethod : req.method with
  | kGet =>
      rw [hmethod] at hover hserved
      dsimp only at hover hserved ⊢
      rw [handleGet]
      rcases hpath : appendIndexFileIfDirectoryOrThrow sys req m.loc path with e | p
      · exact throw_answers
      · rw [hpath] at hover hserved
        dsimp only at hover hserved
        split_ifs at hserved with hcgi
        rw [if_pos hcgi] at hover
        cases hover
  | kPost =>
      rw [hmethod] at hover hserved
      dsimp only at hover hserved ⊢
      rw [handlePost]
      refine .ite (fun _ => rejectDirectory_answers) fun hslash => .ite
        (fun _ => rejectDirectory_answers) fun hdirectory => ?_
      rw [Bool.not_eq_true] at hslash hdirectory
      rw [refusesUpload, hslash, hdirectory, Bool.or_false] at hover hserved
      cases hcgi : m.loc.cgiEnabled with
      | true =>
          rw [hcgi] at hover
          cases hover
      | false =>
          rw [hcgi] at hserved
          cases hserved
  | kDelete =>
      rw [hmethod] at hserved
      cases hserved
  | kNone => exact pure_answers _
  | kHead => exact pure_answers _
  | kUnknownMethod => exact pure_answers _

/-- What a run of the handler ends with. -/
inductive HandlerEnds (sys : Sys) (conf : ServerConfig) (req : HttpRequest) :
    Except Exception ExecResult → List Action → Prop
  | answers {r : Except Exception ExecResult} (h : Answered r) : HandlerEnds sys conf req r []
  | file {r : Except Exception ExecResult} {path : Bytes} {action : Action}
      (hserved : servedFile sys conf req = some path) (h : Answered r)
      (hfile : action.isFile = true) (htarget : action.target = some path) :
      HandlerEnds sys conf req r [action]
  | program {r : Except Exception ExecResult} {loc : Location} {path : Bytes}
      {actions : List Action} (hover : handedOver sys conf req = some (loc, path))
      (h : ProgramEnds sys (CgiExecutor.construct req loc path) r actions) :
      HandlerEnds sys conf req r actions

theorem handleRequest_ends (sys : Sys) (conf : ServerConfig) (req : HttpRequest) :
    Ends (handleRequest sys conf req) (HandlerEnds sys conf req) := by
  rcases hover : handedOver sys conf req with - | ⟨loc, path⟩
  · rcases hserved : servedFile sys conf req with - | path
    · refine (handleRequest_answers hover hserved).imp (fun _ hs => hs) ?_ ?_
      · rintro result s ⟨rfl, h⟩
        exact .answers h
      · rintro e s ⟨rfl, h⟩
        exact .answers h
    · have hfile : ∀ r s, Answered r ∧ OnFile path s → HandlerEnds sys conf req r s := by
        rintro r s ⟨h, rfl | ⟨action, rfl, haction, htarget⟩⟩
        · exact .answers h
        · exact .file hserved h haction htarget
      obtain ⟨m, base, -, -, hrun⟩ := servedFile_some hserved
      rw [hrun]
      exact (handleFile_ends path).imp (fun _ hs => hs) (fun result => hfile (.ok result))
        fun e => hfile (.error e)
  · rw [handleRequest_handedOver hover]
    exact (cgiRun_ends _).imp (fun _ hs => hs) (fun _ _ h => .program hover h)
      fun _ _ h => .program hover h

/-- The result of `Run`, from what the statements inside its `try` end with. -/
def ExecResult.ofOutcome : Except Exception ExecResult → ExecResult
  | .ok result => result
  | .error e => .ofException e


theorem requestHandler_ends (sys : Sys) (conf : ServerConfig) (req : HttpRequest) :
    ∃ r, HandlerEnds sys conf req r (RequestHandler.run sys conf req).2 ∧
      (RequestHandler.run sys conf req).1 = ExecResult.ofOutcome r := by
  have hres := handleRequest_ends sys conf req [] rfl
  rw [RequestHandler.run]
  rcases h : (handleRequest sys conf req).run [] with ⟨result, actions⟩ | ⟨e, actions⟩
  · rw [h] at hres
    exact ⟨_, hres, rfl⟩
  · rw [h] at hres
    exact ⟨_, hres, rfl⟩

/-- An exception is answered, too. -/
theorem answered_result {r : Except Exception ExecResult} (h : Answered r) :
    (ExecResult.ofOutcome r).newSocket = none ∧
      (ExecResult.ofOutcome r).isAsync = false := by
  cases r with
  | ok result => exact h result rfl
  | error e =>
      cases e with
      | responseStatus status => exact ⟨rfl, rfl⟩
      | connectionClosed => exact ⟨rfl, rfl⟩
      | badOptionalAccess => exact ⟨rfl, rfl⟩
      | invalidHeader => exact ⟨rfl, rfl⟩
      | outOfRange => exact ⟨rfl, rfl⟩
      | lengthError => exact ⟨rfl, rfl⟩
      | diverges => exact ⟨rfl, rfl⟩

/-- **What one run does.** -/
theorem requestHandler_outcome (sys : Sys) (conf : ServerConfig) (req : HttpRequest) :
    RunOutcome sys req (RequestHandler.run sys conf req).1 (RequestHandler.run sys conf req).2 := by
  obtain ⟨r, hends, hresult⟩ := requestHandler_ends sys conf req
  rw [hresult]
  have hanswered : ∀ {r actions}, Answered r → NoProgram sys actions →
      RunOutcome sys req (ExecResult.ofOutcome r) actions :=
    fun h hno => .answered (answered_result h).1 (answered_result h).2 hno
  have hnothing : NoProgram sys [] :=
    .files (fun _ ha => absurd ha List.not_mem_nil) (Nat.zero_le _)
  generalize (RequestHandler.run sys conf req).2 = actions at hends
  cases hends with
  | answers h => exact hanswered h hnothing
  | file hserved h hfile htarget =>
      exact hanswered h (.files (List.forall_mem_singleton.mpr hfile) le_rfl)
  | program hover h =>
      cases h with
      | refused h => exact hanswered h hnothing
      | noFork hpair => exact hanswered (answered_error _) (.noFork hpair)
      | noSocket hpair hfork => exact hanswered (answered_error _) (.noSocket hpair)
      | started hpair hfork =>
          rw [construct_input]
          exact .started hpair hfork

end Webserv
