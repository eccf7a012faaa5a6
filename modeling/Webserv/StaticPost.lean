/-
Webserv/StaticPost.lean

An upload, and what its file holds afterwards.

`HandlePost` opens the file itself, which truncates it, and asks the stream only behind
`write`, when the data may still be in the buffer.  So a `500` leaves what the disk took
in the place of the old content, and a `201` does not mean that the data arrived.
-/
import Webserv.Effects

namespace Webserv

/-! ### The stream -/

/-- The calls below one `std::ofstream`: `open`, and the bytes that the file takes
before a `write` fails. -/
structure FileCalls where
  openOk : Bool
  room : Nat

/-- What comes of them.  Data shorter than `threshold` stay in the buffer and are written by the
destructor, which reports nothing; longer data are written at once. -/
def FileCalls.result (calls : FileCalls) (threshold : Nat) (data : Bytes) : OfstreamResult where
  opened := calls.openOk
  good := data.length < threshold || data.length ≤ calls.room
  stored := min data.length calls.room

/-! ### The file -/

/-- What the file at `path` holds behind an action, if it has held `content`.  Of the
actions of a `POST` only a write changes a file. -/
def Action.contentAfter (path : Bytes) (content : Option Bytes) : Action → Option Bytes
  | .writeFile target data result =>
      if target = path ∧ result.opened = true then some (data.take result.stored) else content
  | _ => content

/-- What the file at `path` holds behind all of them. -/
def contentAfter (path : Bytes) (content : Option Bytes) (actions : List Action) :
    Option Bytes :=
  actions.foldl (Action.contentAfter path) content

/-! ### Static uploads -/

/-- A `POST` for a location that serves files, with its path. -/
structure StaticPost (conf : ServerConfig) (req : HttpRequest) (m : LocationMatch)
    (path : Bytes) : Prop where
  routed : prepareRoutingContext conf req = .ok (m, path)
  post : req.method = .kPost
  noRedirect : m.loc.hasRedirect = false
  allowed : (m.loc.hasAllowedMethods && !m.loc.isMethodAllowed req.method) = false
  noCgi : m.loc.cgiEnabled = false

/-- All or nothing: with `201` the file holds the body, else what it has held. -/
def AllOrNothing (sys : Sys) (conf : ServerConfig) (req : HttpRequest) (path : Bytes)
    (content : Option Bytes) : Prop :=
  contentAfter path content (RequestHandler.run sys conf req).2 =
    if (RequestHandler.run sys conf req).1.response.statusCode = Status.kCreated.code then
      some req.body
    else content

instance (sys : Sys) (conf : ServerConfig) (req : HttpRequest) (path : Bytes)
    (content : Option Bytes) : Decidable (AllOrNothing sys conf req path content) :=
  inferInstanceAs (Decidable (_ = _))

theorem rejectDirectory_run :
    ∃ result, rejectDirectory.run [] = .ok result [] ∧ result.response.statusCode = 405 :=
  ⟨_, rfl, rfl⟩

variable {sys : Sys} {conf : ServerConfig} {req : HttpRequest} {m : LocationMatch}
variable {path : Bytes}

theorem StaticPost.handleRequest_eq (h : StaticPost conf req m path) :
    handleRequest sys conf req = handlePost sys req m.loc path := by
  rw [handleRequest_eq_handleMethod h.routed h.noRedirect h.allowed, handleMethod, h.post]

theorem StaticPost.run_refused (h : StaticPost conf req m path)
    (hrefused : refusesUpload sys req path = true) :
    (RequestHandler.run sys conf req).1.response.statusCode = 405 ∧
      (RequestHandler.run sys conf req).2 = [] := by
  obtain ⟨result, hrun, hstatus⟩ := rejectDirectory_run
  have hpost : handlePost sys req m.loc path = rejectDirectory := by
    rw [refusesUpload, Bool.or_eq_true] at hrefused
    rw [handlePost]
    split
    · rfl
    · rw [if_pos (hrefused.resolve_left ‹_›)]
  rw [RequestHandler.run, h.handleRequest_eq, hpost, hrun]
  exact ⟨hstatus, rfl⟩

/-- What is answered behind the upload. -/
theorem StaticPost.run_store (h : StaticPost conf req m path)
    (haccepted : refusesUpload sys req path = false) :
    (RequestHandler.run sys conf req).2 = upload sys req path ∧
      ((RequestHandler.run sys conf req).1.response.statusCode = Status.kCreated.code ↔
        (sys.ofstream path req.body).opened = true ∧
          (sys.ofstream path req.body).good = true ∧ breaksLine req.uri = false) := by
  rw [refusesUpload, Bool.or_eq_false_iff] at haccepted
  obtain ⟨hslash, hdir⟩ := haccepted
  have hpost : handlePost sys req m.loc path = storeBody sys req path := by
    rw [handlePost, hslash, hdir, h.noCgi]
    rfl
  have herror : ∀ e : Exception, e = .responseStatus .kForbidden ∨
      e = .responseStatus .kInternalServerError ∨ e = .invalidHeader →
      (ExecResult.ofException e).response.statusCode ≠ Status.kCreated.code := by
    rintro e (rfl | rfl | rfl)
    · decide
    · decide
    · decide
  rw [RequestHandler.run, h.handleRequest_eq, hpost, storeBody_run]
  split_ifs with hopened hgood hbreaks
  · exact ⟨rfl, iff_of_false (herror _ (.inl rfl)) (by simp [hopened])⟩
  · exact ⟨rfl, iff_of_false (herror _ (.inr (.inl rfl))) (by simp [hgood])⟩
  · exact ⟨rfl, iff_of_false (herror _ (.inr (.inr rfl))) (by simp [hbreaks])⟩
  · rw [Bool.not_eq_false] at hopened hgood
    rw [Bool.not_eq_true] at hbreaks
    exact ⟨rfl, iff_of_true rfl ⟨hopened, hgood, hbreaks⟩⟩

/-! ### All or nothing -/

/-- The condition: nothing is opened; or the upload is answered with `201` and no byte of
the body is lost; or it fails, and what the file holds is what it has held. -/
def Keeps (result : OfstreamResult) (req : HttpRequest) (content : Option Bytes) : Prop :=
  result.opened = false ∨
    if result.good = true ∧ breaksLine req.uri = false then req.body.length ≤ result.stored
    else content = some (req.body.take result.stored)

instance (result : OfstreamResult) (req : HttpRequest) (content : Option Bytes) :
    Decidable (Keeps result req content) :=
  inferInstanceAs (Decidable (_ ∨ _))

/-- **A static upload is all or nothing** exactly if the path is refused, or the calls
below the stream meet the condition. -/
theorem staticPost_iff (h : StaticPost conf req m path) (content : Option Bytes) :
    AllOrNothing sys conf req path content ↔
      refusesUpload sys req path = true ∨ Keeps (sys.ofstream path req.body) req content := by
  rcases hrefused : refusesUpload sys req path with - | -
  · obtain ⟨hactions, hstatus⟩ := h.run_store hrefused
    have hafter : contentAfter path content (RequestHandler.run sys conf req).2 =
        if (sys.ofstream path req.body).opened = true then
          some (req.body.take (sys.ofstream path req.body).stored)
        else content := by
      rw [hactions]
      simp [upload, contentAfter, Action.contentAfter]
    rw [AllOrNothing, hafter, or_iff_right Bool.false_ne_true, Keeps]
    simp only [hstatus]
    by_cases hopened : (sys.ofstream path req.body).opened = true
    · simp only [hopened, if_true, true_and, reduceCtorEq, false_or]
      split_ifs
      · rw [Option.some.injEq, List.take_eq_self_iff]
      · exact eq_comm
    · have hclosed : (sys.ofstream path req.body).opened = false := Bool.not_eq_true _ ▸ hopened
      simp [hclosed]
  · obtain ⟨hstatus, hactions⟩ := h.run_refused hrefused
    rw [AllOrNothing, hactions, if_neg (by rw [hstatus]; decide)]
    exact iff_of_true rfl (.inl rfl)

/-- The condition, for a stream with a buffer: if the data stay in it, every byte has to
arrive; if not, a `500` has to leave what was there. -/
theorem keeps_result_iff (calls : FileCalls) (threshold : Nat) (content : Option Bytes)
    (huri : breaksLine req.uri = false) :
    Keeps (calls.result threshold req.body) req content ↔
      calls.openOk = false ∨ req.body.length ≤ calls.room ∨
        threshold ≤ req.body.length ∧ content = some (req.body.take calls.room) := by
  simp only [Keeps, FileCalls.result, huri, and_true, Bool.or_eq_true, decide_eq_true_eq]
  refine or_congr_right ?_
  split_ifs with hgood
  · rw [Nat.le_min, and_iff_right le_rfl]
    constructor
    · exact .inl
    · rintro (hroom | ⟨hlong, -⟩)
      · exact hroom
      · exact hgood.resolve_left (not_lt.mpr hlong)
  · rw [not_or, not_lt, not_le] at hgood
    rw [min_eq_right hgood.2.le, or_iff_right (by omega), and_iff_right hgood.1]

/-- A server of the files in `/srv`. -/
def uploadConfig : ServerConfig where
  locations := [{ name := bytes "/", root := bytes "/srv" }]

/-- `POST /a`. -/
def uploadRequest : HttpRequest := { method := .kPost, uri := bytes "/a", body := bytes "new" }

/-- A system in which only an open file can fail; libstdc++ writes 1024 bytes and more at once. -/
def uploadSys (calls : FileCalls) : Sys :=
  { sampleSys with ofstream := fun _ data => calls.result 1024 data }

/-- Where the request goes. -/
def uploadMatch : LocationMatch where
  loc := { name := bytes "/", root := bytes "/srv" }
  remainder := bytes "/a"

theorem uploadRequest_static :
    StaticPost uploadConfig uploadRequest uploadMatch (bytes "/srv/a") where
  routed := by decide
  post := rfl
  noRedirect := rfl
  allowed := rfl
  noCgi := rfl

/-- With room for the body. -/
theorem staticPost_uploaded :
    AllOrNothing (uploadSys ⟨true, 3⟩) uploadConfig uploadRequest (bytes "/srv/a")
      (some (bytes "old")) :=
  (staticPost_iff uploadRequest_static _).mpr
    (.inr ((keeps_result_iff _ _ _ (by decide)).mpr (.inr (.inl (by decide)))))

/-- The disk is full: `201`, and an empty file. -/
theorem staticPost_lost :
    ¬ ∀ (sys : Sys) (conf : ServerConfig) (req : HttpRequest) (m : LocationMatch) (path : Bytes)
      (content : Option Bytes), StaticPost conf req m path →
        AllOrNothing sys conf req path content := by
  intro h
  have hlost := h (uploadSys ⟨true, 0⟩) uploadConfig uploadRequest uploadMatch (bytes "/srv/a")
    (some (bytes "old")) uploadRequest_static
  revert hlost
  decide

end Webserv
