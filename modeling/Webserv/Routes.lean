/-
Webserv/Routes.lean

Where a request goes.

`Run` answers some requests itself: those that are not routed, are redirected, use a method
that the location does not allow, or ask for a directory in vain.  The others are about a
file (`servedFile`) or hand a path to a program (`handedOver`).
-/
import Webserv.RequestHandler

namespace Webserv

/-! ### Routes -/

variable {sys : Sys} {conf : ServerConfig} {req : HttpRequest} {loc : Location} {path : Bytes}

/-- What a request that no redirect and no list of methods answers is dispatched with. -/
structure Routed (conf : ServerConfig) (req : HttpRequest) (m : LocationMatch) (path : Bytes) :
    Prop where
  routed : prepareRoutingContext conf req = .ok (m, path)
  redirect : m.loc.hasRedirect = false
  methods : (m.loc.hasAllowedMethods && !m.loc.isMethodAllowed req.method) = false

theorem prepareRoutingContext_eq_ok {m : LocationMatch}
    (h : prepareRoutingContext conf req = .ok (m, path)) :
    conf.findLocationForUri req.uri = .ok m ∧ resolveFilesystemPath m = .ok path := by
  rw [prepareRoutingContext] at h
  rcases hfind : conf.findLocationForUri req.uri with e | m'
  · rw [hfind] at h
    cases h
  · rw [hfind] at h
    rcases hpath : resolveFilesystemPath m' with e | path'
    · simp only [bind, Except.bind, hpath] at h
      cases h
    · simp only [bind, Except.bind, hpath] at h
      cases h
      exact ⟨rfl, hpath⟩

theorem Routed.handleRequest_eq {m : LocationMatch} (h : Routed conf req m path) :
    handleRequest sys conf req = handleMethod sys req m.loc path :=
  handleRequest_eq_handleMethod h.routed h.redirect h.methods

/-- The path is refused before anything is opened. -/
def refusesUpload (sys : Sys) (req : HttpRequest) (path : Bytes) : Bool :=
  endsWithSlash req.uri || sys.isDirectory path

/-- The location and the path with which `HandleGet` or `HandlePost` builds a
`CgiExecutor`, if the request comes so far. -/
def handedOver (sys : Sys) (conf : ServerConfig) (req : HttpRequest) : Option (Location × Bytes) :=
  match prepareRoutingContext conf req with
  | .error _ => none
  | .ok (m, filesystemPath) =>
      if m.loc.hasRedirect || (m.loc.hasAllowedMethods && !m.loc.isMethodAllowed req.method) ||
          !m.loc.cgiEnabled then none
      else
        match req.method with
        | .kGet =>
            match appendIndexFileIfDirectoryOrThrow sys req m.loc filesystemPath with
            | .error _ => none
            | .ok path => some (m.loc, path)
        | .kPost =>
            if endsWithSlash req.uri || sys.isDirectory filesystemPath then none
            else some (m.loc, filesystemPath)
        | _ => none

/-- The file that a request is about, if neither a redirect nor the methods of its location nor a
program answers it. -/
def servedFile (sys : Sys) (conf : ServerConfig) (req : HttpRequest) : Option Bytes :=
  match prepareRoutingContext conf req with
  | .error _ => none
  | .ok (m, path) =>
      if m.loc.hasRedirect || (m.loc.hasAllowedMethods && !m.loc.isMethodAllowed req.method) then
        none
      else
        match req.method with
        | .kGet =>
            match appendIndexFileIfDirectoryOrThrow sys req m.loc path with
            | .error _ => none
            | .ok path => if m.loc.cgiEnabled then none else some path
        | .kPost => if refusesUpload sys req path || m.loc.cgiEnabled then none else some path
        | .kDelete => some path
        | _ => none

theorem Routed.handedOver_eq {m : LocationMatch} (h : Routed conf req m path) :
    handedOver sys conf req =
      if m.loc.cgiEnabled then
        match req.method with
        | .kGet =>
            match appendIndexFileIfDirectoryOrThrow sys req m.loc path with
            | .error _ => none
            | .ok p => some (m.loc, p)
        | .kPost => if refusesUpload sys req path then none else some (m.loc, path)
        | _ => none
      else none := by
  rw [handedOver, h.routed]
  dsimp only
  rw [h.redirect, h.methods]
  cases m.loc.cgiEnabled
  · rfl
  · rfl

theorem Routed.servedFile_eq {m : LocationMatch} (h : Routed conf req m path) :
    servedFile sys conf req =
      match req.method with
      | .kGet =>
          match appendIndexFileIfDirectoryOrThrow sys req m.loc path with
          | .error _ => none
          | .ok p => if m.loc.cgiEnabled then none else some p
      | .kPost => if refusesUpload sys req path || m.loc.cgiEnabled then none else some path
      | .kDelete => some path
      | _ => none := by
  rw [servedFile, h.routed]
  dsimp only
  rw [h.redirect, h.methods]
  rfl

/-- A request that is not routed is answered by `Run` itself. -/
theorem not_routed (h : ∀ m path, ¬ Routed conf req m path) :
    handedOver sys conf req = none ∧ servedFile sys conf req = none := by
  rcases hroute : prepareRoutingContext conf req with e | ⟨m, path⟩
  · rw [handedOver, servedFile, hroute]
    exact ⟨rfl, rfl⟩
  · have hanswers : (m.loc.hasRedirect ||
        (m.loc.hasAllowedMethods && !m.loc.isMethodAllowed req.method)) = true := by
      by_contra hno
      rw [Bool.or_eq_true, not_or, Bool.not_eq_true, Bool.not_eq_true] at hno
      exact h m path ⟨hroute, hno.1, hno.2⟩
    rw [handedOver, servedFile, hroute]
    dsimp only
    rw [hanswers]
    exact ⟨rfl, rfl⟩

/-! ### Programs -/

/-- **What is handed over** is the path of a file or of an index file, or for `POST` the
path itself. -/
theorem handedOver_some (h : handedOver sys conf req = some (loc, path)) :
    ∃ m base, Routed conf req m base ∧ m.loc = loc ∧ loc.cgiEnabled = true ∧
      ((req.method = .kGet ∧ appendIndexFileIfDirectoryOrThrow sys req loc base = .ok path) ∨
        (req.method = .kPost ∧ refusesUpload sys req base = false ∧ path = base)) := by
  by_cases hrouted : ∃ m base, Routed conf req m base
  swap
  · rw [( not_routed fun m base hr => hrouted ⟨m, base, hr⟩).1] at h
    cases h
  obtain ⟨m, base, hrouted⟩ := hrouted
  rw [hrouted.handedOver_eq] at h
  by_cases hcgi : m.loc.cgiEnabled = true
  swap
  · rw [if_neg hcgi] at h
    cases h
  rw [if_pos hcgi] at h
  refine ⟨m, base, hrouted, ?_⟩
  -- only `GET` and `POST` come to a program
  cases hreq : req.method with
  | kGet =>
      rw [hreq] at h
      rcases hpath : appendIndexFileIfDirectoryOrThrow sys req m.loc base with e | p
      · rw [hpath] at h
        cases h
      · rw [hpath] at h
        obtain ⟨rfl, rfl⟩ := Prod.mk.inj (Option.some.inj h)
        exact ⟨rfl, hcgi, .inl ⟨rfl, hpath⟩⟩
  | kPost =>
      rw [hreq] at h
      dsimp only at h
      split_ifs at h with hrefuses
      obtain ⟨rfl, rfl⟩ := Prod.mk.inj (Option.some.inj h)
      exact ⟨rfl, hcgi, .inr ⟨rfl, Bool.eq_false_of_not_eq_true hrefuses, rfl⟩⟩
  | kNone =>
      rw [hreq] at h
      cases h
  | kHead =>
      rw [hreq] at h
      cases h
  | kDelete =>
      rw [hreq] at h
      cases h
  | kUnknownMethod =>
      rw [hreq] at h
      cases h

/-- What is handed over is run. -/
theorem handleRequest_handedOver (h : handedOver sys conf req = some (loc, path)) :
    handleRequest sys conf req = (CgiExecutor.construct req loc path).run sys := by
  obtain ⟨m, base, hrouted, rfl, hcgi, hmethod⟩ := handedOver_some h
  rw [hrouted.handleRequest_eq, handleMethod]
  obtain ⟨hget, hpath⟩ | ⟨hpost, hrefuses, rfl⟩ := hmethod
  · rw [hget]
    dsimp only
    rw [handleGet, hpath, hcgi]
    rfl
  · rw [refusesUpload, Bool.or_eq_false_iff] at hrefuses
    rw [hpost]
    dsimp only
    rw [handlePost, hrefuses.1, hrefuses.2, hcgi]
    rfl

/-! ### Files -/

/-- A static file is read. -/
def serveFile (sys : Sys) (path : Bytes) : HandlerM ExecResult := do
  let body ← readFileToStringOrThrow sys path
  let res ← addHeader {} (bytes "Content-Type") (detectMimeTypeFromPath path)
  return { response := (res.setBody body).setStatus Status.kOk.code }

/-- What is done to the file that a request is about. -/
def handleFile (sys : Sys) (req : HttpRequest) (path : Bytes) : HandlerM ExecResult :=
  match req.method with
  | .kGet => serveFile sys path
  | .kPost => storeBody sys req path
  | .kDelete => handleDelete sys path
  | _ => return { response := .ofStatus .kNotImplemented }

/-- **What is served** is the file of the route, for `GET` with the index file of a
directory. -/
theorem servedFile_some (h : servedFile sys conf req = some path) :
    ∃ m base, Routed conf req m base ∧
      (appendIndexFileIfDirectoryOrThrow sys req m.loc base = .ok path ∨ path = base) ∧
      handleRequest sys conf req = handleFile sys req path := by
  by_cases hrouted : ∃ m base, Routed conf req m base
  swap
  · rw [( not_routed fun m base hr => hrouted ⟨m, base, hr⟩).2] at h
    cases h
  obtain ⟨m, base, hrouted⟩ := hrouted
  rw [hrouted.servedFile_eq] at h
  refine ⟨m, base, hrouted, ?_⟩
  rw [hrouted.handleRequest_eq, handleMethod, handleFile]
  -- only `GET`, `POST` and `DELETE` come to a file
  cases hreq : req.method with
  | kGet =>
      rw [hreq] at h
      dsimp only at h ⊢
      rcases hpath : appendIndexFileIfDirectoryOrThrow sys req m.loc base with e | p
      · rw [hpath] at h
        cases h
      · rw [hpath] at h
        dsimp only at h
        split_ifs at h with hcgi
        obtain rfl := Option.some.inj h
        rw [handleGet, hpath, Bool.eq_false_of_not_eq_true hcgi]
        exact ⟨.inl rfl, rfl⟩
  | kPost =>
      rw [hreq] at h
      dsimp only at h ⊢
      split_ifs at h with hrefuses
      obtain rfl := Option.some.inj h
      rw [refusesUpload, Bool.or_eq_true, Bool.or_eq_true, not_or, not_or] at hrefuses
      obtain ⟨⟨hslash, hdirectory⟩, hcgi⟩ := hrefuses
      rw [handlePost, if_neg hslash, if_neg hdirectory, if_neg hcgi]
      exact ⟨.inr rfl, rfl⟩
  | kDelete =>
      rw [hreq] at h
      obtain rfl := Option.some.inj h
      exact ⟨.inr rfl, rfl⟩
  | kNone =>
      rw [hreq] at h
      cases h
  | kHead =>
      rw [hreq] at h
      cases h
  | kUnknownMethod =>
      rw [hreq] at h
      cases h

end Webserv
