/-
Webserv/FileStore.lean

The files of the static locations, as a store.

One run of the request handler reads a file, writes one or removes one, and its answer
tells which.  Where the system answers for the files as they are, the answers of all runs,
one after the other, are a history of a store (`Webserv.Theory.Store`): a `GET` answers
with what was put there last.  An upload that fails behind `open` leaves a file damaged,
and its `500` is what tells of it; behind a `201` nothing tells of data that were lost in
the buffer of the stream.
-/
import Webserv.Confinement
import Webserv.StaticPost
import Webserv.Theory.Store

namespace Webserv

open EStateM (Triple)
open Store (Op History)

/-! ### Files -/

/-- What the file at each path holds. -/
abbrev Files := Bytes → Option Bytes

/-- The files behind an action. -/
def Action.onFiles (sys : Sys) (files : Files) : Action → Files
  | .writeFile path data result =>
      if result.opened = true then Function.update files path (some (data.take result.stored))
      else files
  | .removeFile path =>
      match sys.remove path with
      | none => Function.update files path none
      | some _ => files
  | _ => files

/-- The files behind all of them. -/
def onFiles (sys : Sys) (files : Files) (actions : List Action) : Files :=
  actions.foldl (Action.onFiles sys) files

/-- **The system answers for the files as they are.** -/
structure Truthful (files : Files) (sys : Sys) : Prop where
  regular : ∀ path, sys.stat path = .ok .regular → files path ≠ none
  lacks : ∀ path, Lacks sys path → files path = none
  read : ∀ path content, sys.ifstream path = .ok content → files path = some content

/-! ### Answers -/

/-- What a response tells of the file that its request is about.  Behind a `201` the data may
have been lost in the buffer of the stream. -/
def toldOf (sys : Sys) (req : HttpRequest) (path : Bytes) (res : HttpResponse) : Op Bytes Bytes :=
  match req.method with
  | .kGet =>
      if res.statusCode = Status.kOk.code then .get path (some res.body)
      else if res.statusCode = Status.kNotFound.code then .get path none
      else .other
  | .kPost =>
      if res.statusCode = Status.kCreated.code then
        if req.body.length ≤ (sys.ofstream path req.body).stored then .put path req.body
        else .damage path
      else if res.statusCode = Status.kInternalServerError.code then .damage path
      else .other
  | .kDelete =>
      if res.statusCode = Status.kOk.code then .delete path
      else if res.statusCode = Status.kNotFound.code then .get path none
      else .other
  | _ => .other

/-- One run of the request handler: what it is given. -/
structure Call where
  sys : Sys
  conf : ServerConfig
  req : HttpRequest

/-- What the answer of a run tells. -/
def Call.told (c : Call) : Op Bytes Bytes :=
  match servedFile c.sys c.conf c.req with
  | none => .other
  | some path => toldOf c.sys c.req path (RequestHandler.run c.sys c.conf c.req).1.response

/-- The files behind a run. -/
def Call.onFiles (files : Files) (c : Call) : Files :=
  Webserv.onFiles c.sys files (RequestHandler.run c.sys c.conf c.req).2

/-! ### What touches no file -/

/-- The actions leave the files as they are. -/
def Untouched (sys : Sys) (actions : List Action) : Prop :=
  ∀ files, onFiles sys files actions = files

variable {sys : Sys} {conf : ServerConfig} {req : HttpRequest} {path : Bytes} {α : Type}

theorem untouched_nil : Untouched sys [] := fun _ => rfl

/-- What a program does to files is its own. -/
theorem ProgramEnds.untouched {cgi : CgiExecutor} {r : Except Exception ExecResult}
    {actions : List Action} (h : ProgramEnds sys cgi r actions) : Untouched sys actions := by
  cases h with
  | refused h => exact untouched_nil
  | noFork hpair => exact fun _ => rfl
  | noSocket hpair hfork => exact fun _ => rfl
  | started hpair hfork =>
      rw [CgiExecutor.input]
      split_ifs
      · exact fun _ => rfl
      · exact fun _ => rfl

/-- **A run that is about no file** changes none. -/
theorem untouched_of_none (h : servedFile sys conf req = none) :
    Untouched sys (RequestHandler.run sys conf req).2 := by
  obtain ⟨r, hends, -⟩ := requestHandler_ends sys conf req
  generalize (RequestHandler.run sys conf req).2 = actions at hends
  cases hends with
  | answers h => exact untouched_nil
  | file hserved =>
      rw [h] at hserved
      cases hserved
  | program hover h => exact h.untouched

/-! ### One run -/

theorem run_spec {x : HandlerM ExecResult} {Q : ExecResult → List Action → Prop}
    {E : Exception → List Action → Prop} (hrun : handleRequest sys conf req = x)
    (h : Triple (· = []) x Q E) :
    Q (RequestHandler.run sys conf req).1 (RequestHandler.run sys conf req).2 ∨
      ∃ e, (RequestHandler.run sys conf req).1 = .ofException e ∧
        E e (RequestHandler.run sys conf req).2 := by
  have hres := h [] rfl
  rw [RequestHandler.run, hrun]
  rcases hx : x.run [] with ⟨result, actions⟩ | ⟨e, actions⟩
  · rw [hx] at hres
    exact .inl hres
  · rw [hx] at hres
    exact .inr ⟨e, rfl, hres⟩

variable {files : Files}

/-- A refusal tells nothing, or that there is nothing. -/
theorem Refuses.between {e : Exception} (h : Refuses sys path e) (htruth : Truthful files sys)
    (hmethod : req.method = .kGet ∨ req.method = .kDelete) :
    (toldOf sys req path (ExecResult.ofException e).response).Between files files := by
  obtain ⟨status, rfl, hok, hlacks⟩ := h
  have hcode : ∀ status' : Status, status.code = status'.code → status = status' := by
    intro status' heq
    cases status
    all_goals cases status'
    all_goals first | rfl | cases heq
  have htold : toldOf sys req path (ExecResult.ofException (.responseStatus status)).response =
      if status.code = Status.kNotFound.code then .get path none else .other := by
    have hne : ¬ status.code = Status.kOk.code := fun heq => hok (hcode _ heq)
    rcases hmethod with hmethod | hmethod
    · rw [toldOf, hmethod]
      exact if_neg hne
    · rw [toldOf, hmethod]
      exact if_neg hne
  rw [htold]
  split_ifs with hnot
  · exact ⟨htruth.lacks path (hlacks (hcode _ hnot)), rfl⟩
  · exact rfl

/-- The files behind an upload. -/
theorem onFiles_upload (req : HttpRequest) (path : Bytes) :
    onFiles sys files (upload sys req path) =
      if (sys.ofstream path req.body).opened = true then
        Function.update files path (some (req.body.take (sys.ofstream path req.body).stored))
      else files := rfl

/-- **An upload**: it is told of, or nothing is opened, or the file is damaged. -/
theorem storeBody_between (hmethod : req.method = .kPost)
    (hrun : handleRequest sys conf req = storeBody sys req path) :
    (toldOf sys req path (RequestHandler.run sys conf req).1.response).Between files
      (onFiles sys files (RequestHandler.run sys conf req).2) := by
  have hdamage : ∀ k ≠ path, onFiles sys files (upload sys req path) k = files k := by
    intro k hk
    rw [onFiles_upload]
    split_ifs
    · exact Function.update_of_ne hk _ _
    · rfl
  have hstore := storeBody_run sys req path
  split_ifs at hstore with hopened hgood hbreaks
  · rw [RequestHandler.run, hrun, hstore, toldOf, hmethod]
    show onFiles sys files (upload sys req path) = files
    rw [onFiles_upload, if_neg (by simp [hopened])]
  · rw [RequestHandler.run, hrun, hstore, toldOf, hmethod]
    exact hdamage
  · rw [RequestHandler.run, hrun, hstore, toldOf, hmethod]
    exact hdamage
  · rw [RequestHandler.run, hrun, hstore, toldOf, hmethod]
    rw [Bool.not_eq_false] at hopened
    dsimp only
    rw [if_pos (show (HttpResponse.ofStatus .kCreated).statusCode = Status.kCreated.code from rfl)]
    split_ifs with hstored
    · show onFiles sys files (upload sys req path) = Function.update files path (some req.body)
      rw [onFiles_upload, if_pos hopened, List.take_of_length_le hstored]
    · exact hdamage

/-- **One run keeps the store.** -/
theorem Call.between {c : Call} (htruth : Truthful files c.sys) :
    c.told.Between files (c.onFiles files) := by
  obtain ⟨sys, conf, req⟩ := c
  rw [Call.told, Call.onFiles]
  dsimp only at htruth ⊢
  rcases hpath : servedFile sys conf req with - | path
  · exact untouched_of_none hpath files
  obtain ⟨m, base, -, -, hrun⟩ := servedFile_some hpath
  dsimp only
  rw [handleFile] at hrun
  -- by the method: a read, a store, a removal, or nothing
  cases hmethod : req.method with
  | kGet =>
      rw [hmethod] at hrun
      obtain ⟨hactions, -, hstatus, hbody⟩ | ⟨e, he, hactions, hrefuses⟩ :=
        run_spec hrun (serveFile_spec path)
      · rw [hactions, toldOf, hmethod]
        dsimp only
        rw [if_pos hstatus]
        exact ⟨htruth.read path _ hbody, rfl⟩
      · -- an error comes before the file is changed
        have hlooks : Webserv.onFiles sys files (RequestHandler.run sys conf req).2 = files := by
          obtain hnil | hread := hactions
          · rw [hnil]
            rfl
          · rw [hread]
            rfl
        rw [hlooks, he]
        exact hrefuses.between htruth (.inl hmethod)
  | kPost =>
      rw [hmethod] at hrun
      exact storeBody_between hmethod hrun
  | kDelete =>
      rw [hmethod] at hrun
      obtain ⟨hactions, -, hgone, hregular, hstatus⟩ | ⟨e, he, hactions, hrefuses⟩ :=
        run_spec hrun (handleDelete_spec path)
      · rw [hactions, toldOf, hmethod]
        dsimp only
        rw [if_pos hstatus, Webserv.onFiles, List.foldl_cons, List.foldl_nil, Action.onFiles, hgone]
        exact ⟨htruth.regular path hregular, rfl⟩
      · have hlooks : Webserv.onFiles sys files (RequestHandler.run sys conf req).2 = files := by
          obtain hnil | ⟨hremove, hgone⟩ := hactions
          · rw [hnil]
            rfl
          · obtain ⟨errno, herrno⟩ := Option.ne_none_iff_exists'.mp hgone
            rw [hremove, Webserv.onFiles, List.foldl_cons, List.foldl_nil, Action.onFiles, herrno]
        rw [hlooks, he]
        exact hrefuses.between htruth (.inr hmethod)
  | kNone =>
      rw [hmethod] at hrun
      rw [toldOf, hmethod, RequestHandler.run, hrun]
      rfl
  | kHead =>
      rw [hmethod] at hrun
      rw [toldOf, hmethod, RequestHandler.run, hrun]
      rfl
  | kUnknownMethod =>
      rw [hmethod] at hrun
      rw [toldOf, hmethod, RequestHandler.run, hrun]
      rfl

/-! ### All runs -/

/-- The runs, one after the other, on a system that answers for the files as they are. -/
def Serves (files : Files) (calls : List Call) : Prop :=
  Transition.Along (fun files (c : Call) => some (c.onFiles files)) (fun files c => Truthful files c.sys)
    files calls

/-- The files behind all runs. -/
def filesAfter (files : Files) (calls : List Call) : Files :=
  calls.foldl (fun files c => c.onFiles files) files

/-- The answers are a history of a store. -/
theorem Serves.history {calls : List Call} (h : Serves files calls) :
    History (filesAfter files calls) files (calls.map Call.told) :=
  @History.of_calls _ _ _ Files Call (fun files c => c.onFiles files) Call.told id
    (fun files c => Truthful files c.sys) (fun _ _ htruth => Call.between htruth) files calls h

end Webserv
