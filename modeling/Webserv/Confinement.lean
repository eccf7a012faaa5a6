/-
Webserv/Confinement.lean

Which files and programs a request can reach.

Every path that a handler uses has passed `ValidateAndNormalizePath`, but for one: the
path of a program is cut once more, by `CreatePathInfo`, and what is left over is not
compared with the root.  It can end above the root.
-/
import Webserv.Effects
import Webserv.ScriptName
import Webserv.Serving

namespace Webserv

open Segments
open EStateM (Triple)

variable {path ext : Bytes} {extensions : List Bytes} {pos : Nat}

/-! ### Below the root -/

/-- The path is the root or lies below it, and has no dot segment. -/
def IsBelow (root path : Bytes) : Prop :=
  splitPathSegments root <+: splitPathSegments path ∧
    ∀ s ∈ splitPathSegments path, s ≠ dot ∧ s ≠ dotdot

theorem validateAndNormalizePath_isBelow {root p : Bytes}
    (h : validateAndNormalizePath path root = .ok p) : IsBelow root p := by
  obtain ⟨hnormal, hbelow⟩ := validateAndNormalizePath_confines.1 _ _ _ h
  exact ⟨hbelow, hnormal.no_dots⟩

/-- A part of a path below the root, cut at a slash, is below the root exactly if no name of
the root has been cut off. -/
theorem isBelow_cut_iff {root exe info : Bytes} (hinfo : info = [] ∨ info.head? = some SLASH)
    (hbelow : IsBelow root (exe ++ info)) (hunder : isPathUnderDocumentRoot (exe ++ info) root = true) :
    IsBelow root exe ↔ splitPathSegments (root.drop exe.length) = [] := by
  have hexe : exe ++ [SLASH] <+: exe ++ info ++ [SLASH] := by
    rcases hinfo with rfl | hhead
    · rw [List.append_nil]
    · obtain ⟨rest, rfl⟩ := List.head?_eq_some_iff.mp hhead
      exact ⟨rest ++ [SLASH], by simp⟩
  have hdots : ∀ s ∈ splitPathSegments exe, s ≠ dot ∧ s ≠ dotdot :=
    fun s hs => hbelow.2 s ((isPrefix_split hexe).subset hs)
  rw [IsBelow, and_iff_left hdots]
  obtain rfl | ⟨-, hroot⟩ := isPathUnderDocumentRoot_iff.mp hunder
  · -- nothing is above the root of all
    have hdrop : splitPathSegments ([SLASH].drop exe.length) = [] := by
      cases exe with
      | nil => rfl
      | cons c cs => rw [List.length_cons, List.drop_succ_cons, List.drop_nil]; rfl
    exact iff_of_true List.nil_prefix hdrop
  · rcases Nat.le_total root.length exe.length with hle | hle
    · have hdrop : root.drop exe.length = [] := List.drop_eq_nil_of_le hle
      have hprefix : root ++ [SLASH] <+: exe ++ [SLASH] := by
        refine List.prefix_of_prefix_length_le hroot hexe ?_
        rw [List.length_append, List.length_append]
        exact Nat.add_le_add_right hle 1
      rw [hdrop]
      exact iff_of_true (isPrefix_split hprefix) rfl
    · have hprefix : exe ++ [SLASH] <+: root ++ [SLASH] := by
        refine List.prefix_of_prefix_length_le hexe hroot ?_
        rw [List.length_append, List.length_append]
        exact Nat.add_le_add_right hle 1
      -- what is cut off begins with a slash
      obtain ⟨more, hroot, hmore⟩ : ∃ more, root = exe ++ more ∧ (more = [] ∨ more.head? = some SLASH) := by
        obtain ⟨⟨more, rfl⟩, hnext⟩ := append_slash_prefix_iff.mp hprefix
        refine ⟨more, rfl, ?_⟩
        obtain hlen | hnext := hnext
        · exact .inl (by simpa using hlen)
        · exact .inr (by simpa [List.getElem?_append_right, List.head?_eq_getElem?] using hnext)
      have hsplit : splitPathSegments root = splitPathSegments exe ++ splitPathSegments more := by
        rw [hroot]
        obtain rfl | hhead := hmore
        · rw [List.append_nil]
          exact (List.append_nil _).symm
        · obtain ⟨rest, rfl⟩ := List.head?_eq_some_iff.mp hhead
          simp only [splitPathSegments, split_append_sep, split_sep]
      rw [hsplit, hroot, List.drop_left]
      constructor
      · rintro ⟨rest, hrest⟩
        rw [List.append_assoc, List.append_right_eq_self] at hrest
        exact (List.append_eq_nil_iff.mp hrest).1
      · intro hnil
        rw [hnil, List.append_nil]

/-! ### The paths of a run -/

/-- Every path that is used is one of these. -/
def Uses (P : Bytes → Prop) (actions : List Action) : Prop := ∀ path ∈ targets actions, P path

variable {P : Bytes → Prop} {sys : Sys} {conf : ServerConfig} {req : HttpRequest} {path : Bytes}

/-- A program that is started uses the path of its script. -/
theorem ProgramEnds.targets_eq {cgi : CgiExecutor} {r : Except Exception ExecResult}
    {actions : List Action} (h : ProgramEnds sys cgi r actions) :
    targets actions = [] ∨ sys.socketpair.isSome = true ∧ sys.fork.isSome = true ∧
      targets actions = [cgi.scriptPath] := by
  cases h with
  | refused h => exact .inl rfl
  | noFork hpair => exact .inl rfl
  | noSocket hpair hfork =>
      exact .inr ⟨by rw [hpair]; rfl, by rw [hfork]; rfl, rfl⟩
  | started hpair hfork =>
      refine .inr ⟨by rw [hpair]; rfl, by rw [hfork]; rfl, ?_⟩
      rw [targets_append, CgiExecutor.input]
      split_ifs
      · rfl
      · rfl

/-! ### Routes -/

/-- The root and the path have been compared. -/
def IsValidated (root path : Bytes) : Prop :=
  IsBelow root path ∧ isPathUnderDocumentRoot path root = true

theorem isValidated_of_ok {root p : Bytes} (h : validateAndNormalizePath path root = .ok p) :
    IsValidated root p :=
  ⟨validateAndNormalizePath_isBelow h, (validateAndNormalizePath_eq_ok.mp h).2.2.2.2⟩

theorem Routed.isValidated {m : LocationMatch} (h : Routed conf req m path) :
    IsValidated m.loc.root path := isValidated_of_ok h.validated.2.2

theorem appendIndexFile_isValidated {loc : Location} {p : Bytes}
    (h : appendIndexFileIfDirectoryOrThrow sys req loc path = .ok p) : IsValidated loc.root p := by
  rw [appendIndexFileIfDirectoryOrThrow] at h
  split_ifs at h
  · exact isValidated_of_ok h
  · exact isValidated_of_ok h
  · exact isValidated_of_ok h

/-- A path that is handed over has been compared with the root. -/
theorem handedOver_isValidated {loc : Location} (h : handedOver sys conf req = some (loc, path)) :
    IsValidated loc.root path ∧ ∃ m p, Routed conf req m p ∧ m.loc = loc := by
  obtain ⟨m, p, hrouted, rfl, -, ⟨-, hpath⟩ | ⟨-, -, rfl⟩⟩ := handedOver_some h
  · exact ⟨appendIndexFile_isValidated hpath, m, p, hrouted, rfl⟩
  · exact ⟨hrouted.isValidated, m, path, hrouted, rfl⟩

/-- A file that is served has been compared with the root. -/
theorem servedFile_isValidated (h : servedFile sys conf req = some path) :
    ∃ m p, Routed conf req m p ∧ IsValidated m.loc.root path := by
  obtain ⟨m, p, hrouted, hpath | rfl, -⟩ := servedFile_some h
  · exact ⟨m, p, hrouted, appendIndexFile_isValidated hpath⟩
  · exact ⟨m, path, hrouted, hrouted.isValidated⟩

/-- A path below the root, or what is left over of the path of a program. -/
def IsReached (sys : Sys) (conf : ServerConfig) (req : HttpRequest) (loc : Location) (p : Bytes) :
    Prop :=
  IsBelow loc.root p ∨ sys.socketpair.isSome = true ∧ sys.fork.isSome = true ∧
    ∃ path, handedOver sys conf req = some (loc, path) ∧
      p = (CgiExecutor.construct req loc path).scriptPath

/-! ### Confinement -/

/-- A location answers without looking at a file. -/
def IsRefused (req : HttpRequest) (loc : Location) : Prop :=
  loc.hasRedirect = true ∨ loc.hasAllowedMethods = true ∧ loc.isMethodAllowed req.method = false

/-- A run does nothing where no location is matched or the location refuses; elsewhere it
uses one path at most, below the root of the location. -/
structure Confined (sys : Sys) (conf : ServerConfig) (req : HttpRequest) : Prop where
  unmatched : ∀ e, conf.findLocationForUri req.uri = .error e →
    (RequestHandler.run sys conf req).2 = []
  refused : ∀ m, conf.findLocationForUri req.uri = .ok m → IsRefused req m.loc →
    (RequestHandler.run sys conf req).2 = []
  once : (targets (RequestHandler.run sys conf req).2).length ≤ 1
  below : ∀ m, conf.findLocationForUri req.uri = .ok m →
    ∀ path ∈ targets (RequestHandler.run sys conf req).2, IsBelow m.loc.root path

/-- A program is started, and the chosen place of its script is in the root, with a name of
the root behind it. -/
def CutsRoot (sys : Sys) (conf : ServerConfig) (req : HttpRequest) : Prop :=
  sys.socketpair.isSome = true ∧ sys.fork.isSome = true ∧
    ∃ loc path, handedOver sys conf req = some (loc, path) ∧
      ∃ ext pos, IsChosen loc.cgiAllowedExtensions path ext pos ∧
        splitPathSegments (loc.root.drop (pos + ext.length)) ≠ []

theorem requestHandler_actions (sys : Sys) (conf : ServerConfig) (req : HttpRequest) :
    (RequestHandler.run sys conf req).2 = ((handleRequest sys conf req).run []).state := by
  rw [RequestHandler.run]
  rcases (handleRequest sys conf req).run [] with ⟨result, actions⟩ | ⟨e, actions⟩
  · rfl
  · rfl

/-- A run uses one path at most. -/
theorem RunOutcome.targets_le {result : ExecResult} {actions : List Action}
    (h : RunOutcome sys req result actions) : (targets actions).length ≤ 1 := by
  cases h with
  | answered hnew hasync h =>
      cases h with
      | files h hone => exact (List.length_filterMap_le _ _).trans hone
      | noFork h => exact Nat.zero_le _
      | noSocket h => exact le_rfl
  | started hpair hfork =>
      rw [targets_append, cgiInput]
      split_ifs
      · exact le_rfl
      · exact le_rfl

/-- Either a run does nothing, or its location allows the request. -/
theorem requestHandler_cases (sys : Sys) (conf : ServerConfig) (req : HttpRequest) :
    (RequestHandler.run sys conf req).2 = [] ∨
      ∃ m path, Routed conf req m path ∧
        Uses (IsReached sys conf req m.loc) (RequestHandler.run sys conf req).2 := by
  obtain ⟨r, hends, -⟩ := requestHandler_ends sys conf req
  generalize (RequestHandler.run sys conf req).2 = actions at hends
  cases hends with
  | answers h => exact .inl rfl
  | file hserved h hfile htarget =>
      obtain ⟨m, p, hrouted, hvalid⟩ := servedFile_isValidated hserved
      refine .inr ⟨m, p, hrouted, fun target hmem => .inl ?_⟩
      rw [targets, List.filterMap_cons, htarget, List.filterMap_nil] at hmem
      rw [List.mem_singleton.mp hmem]
      exact hvalid.1
  | program hover h =>
      obtain ⟨-, m, p, hrouted, rfl⟩ := handedOver_isValidated hover
      refine .inr ⟨m, p, hrouted, fun target hmem => ?_⟩
      obtain hnil | ⟨hpair, hfork, hone⟩ := h.targets_eq
      · rw [hnil] at hmem
        exact absurd hmem List.not_mem_nil
      · rw [hone] at hmem
        exact .inr ⟨hpair, hfork, _, hover, List.mem_singleton.mp hmem⟩

/-- What is left over of the path of a program lies below the root exactly if the chosen
place leaves no name of the root behind it. -/
theorem scriptPath_isBelow_iff {loc : Location} (h : IsValidated loc.root path) :
    IsBelow loc.root (CgiExecutor.construct req loc path).scriptPath ↔
      ∀ ext pos, IsChosen loc.cgiAllowedExtensions path ext pos →
        splitPathSegments (loc.root.drop (pos + ext.length)) = [] := by
  obtain ⟨hnone, hexe⟩ | ⟨ext, pos, hchosen, info, hexe, hsplit⟩ := construct_scriptPath req loc path
  · rw [hexe]
    exact iff_of_true h.1 fun ext pos hchosen => absurd hchosen (hnone ext pos)
  · have hlen : (path.take (pos + ext.length)).length = pos + ext.length := by
      rw [List.length_take, min_eq_left]
      exact hchosen.1.2.1.1.le_length hchosen.1.1
    have hpath := hsplit.1
    have hcut := isBelow_cut_iff hsplit.2.2 (hpath ▸ h.1) (hpath ▸ h.2)
    rw [hlen] at hcut
    rw [hexe, hcut]
    refine ⟨fun hnil ext' pos' hchosen' => ?_, fun hall => hall ext pos hchosen⟩
    obtain ⟨rfl, rfl⟩ := hchosen.unique hchosen'
    exact hnil

/-- **Confinement.**  A run is confined exactly if no program is started whose script is cut
inside the root. -/
theorem confined_iff (sys : Sys) (conf : ServerConfig) (req : HttpRequest) :
    Confined sys conf req ↔ ¬ CutsRoot sys conf req := by
  constructor
  · rintro h ⟨hpair, hfork, loc, path, hover, ext, pos, hchosen, hname⟩
    obtain ⟨hvalid, m, p, hrouted, rfl⟩ := handedOver_isValidated hover
    obtain ⟨fds, hfds⟩ := Option.isSome_iff_exists.mp hpair
    obtain ⟨pid, hpid⟩ := Option.isSome_iff_exists.mp hfork
    -- the extension that cuts the root is one of the allowed ones, so the program is started
    have hallowed : isScriptExtensionAllowed (CgiExecutor.construct req m.loc path).scriptPath
        m.loc.cgiAllowedExtensions = true := by
      obtain ⟨hnone, -⟩ | ⟨ext', pos', hchosen', info, hexe, hsplit⟩ :=
        construct_scriptPath req m.loc path
      · exact absurd hchosen (hnone ext pos)
      · rw [hexe]
        exact hsplit.allowed
    obtain ⟨rest, hstate, -⟩ := @dispatch_starts path sys req m.loc fds pid hfds hpid hallowed
    have htarget : (CgiExecutor.construct req m.loc path).scriptPath ∈
        targets (RequestHandler.run sys conf req).2 := by
      rw [requestHandler_actions, handleRequest_handedOver hover]
      show _ ∈ targets (dispatch sys req m.loc path).state
      rw [hstate, targets_append]
      exact List.mem_append_left _ List.mem_cons_self
    have hbelow := h.below m (prepareRoutingContext_eq_ok hrouted.routed).1 _ htarget
    exact hname ((scriptPath_isBelow_iff hvalid).mp hbelow ext pos hchosen)
  · intro hcut
    have hcases := requestHandler_cases sys conf req
    refine ⟨fun e he => ?_, fun m hm hrefused => ?_,
      (requestHandler_outcome sys conf req).targets_le, fun m hm p hp => ?_⟩
    · obtain hnil | ⟨m, path, hrouted, -⟩ := hcases
      · exact hnil
      · rw [(prepareRoutingContext_eq_ok hrouted.routed).1] at he
        cases he
    · obtain hnil | ⟨m', path, hrouted, -⟩ := hcases
      · exact hnil
      · rw [(prepareRoutingContext_eq_ok hrouted.routed).1] at hm
        obtain rfl := Except.ok.inj hm
        obtain hredirect | ⟨hhas, hmethod⟩ := hrefused
        · rw [hrouted.redirect] at hredirect
          cases hredirect
        · have hmethods := hrouted.methods
          rw [hhas, hmethod] at hmethods
          cases hmethods
    · obtain hnil | ⟨m', path, hrouted, huses⟩ := hcases
      · rw [hnil] at hp
        exact absurd hp List.not_mem_nil
      · rw [(prepareRoutingContext_eq_ok hrouted.routed).1] at hm
        obtain rfl := Except.ok.inj hm
        obtain hbelow | ⟨hpair, hfork, path', hover, rfl⟩ := huses p hp
        · -- a file that is read, stored or removed lies below the root in any case
          exact hbelow
        · refine (scriptPath_isBelow_iff (handedOver_isValidated hover).1).mpr ?_
          intro ext pos hchosen
          by_contra hname
          exact hcut ⟨hpair, hfork, m'.loc, path', hover, ext, pos, hchosen, hname⟩

/-- What is read from `location / { root /srv/app.py/www; cgi on; cgi_allowed_extensions .py; }`. -/
def appLocation : Location where
  root := bytes "/srv/app.py/www"
  cgiEnabled := true
  cgiAllowedExtensions := [bytes ".py"]
  hasRoot := true
  hasCgiEnabled := true
  hasCgiAllowedExtensions := true

/-- `GET /x` runs `/srv/app.py`. -/
theorem confined_fails :
    ¬ ∀ (cwd : Option Bytes) (content : Bytes) (configs : List ServerConfig) (conf : ServerConfig)
      (sys : Sys) (req : HttpRequest), ConfigParser.parse cwd content = .ok configs →
        conf ∈ configs → Confined sys conf req := by
  intro h
  have hlocs : (ConfigParser.parse none (bytes
      "server \x7b location / \x7b root /srv/app.py/www; cgi on; cgi_allowed_extensions .py; \x7d \x7d")).toOption.map
        (List.map ServerConfig.locations) = some [[appLocation]] := by
    decide +kernel
  obtain ⟨configs, hparse, hlocs⟩ := Option.map_eq_some_iff.mp hlocs
  obtain ⟨conf, rfl, hconf⟩ := List.map_eq_singleton_iff.mp hlocs
  have hparse : ConfigParser.parse none (bytes
      "server \x7b location / \x7b root /srv/app.py/www; cgi on; cgi_allowed_extensions .py; \x7d \x7d") =
        .ok [conf] := by
    revert hparse
    rcases ConfigParser.parse none (bytes
      "server \x7b location / \x7b root /srv/app.py/www; cgi on; cgi_allowed_extensions .py; \x7d \x7d") with e | cs
    · exact fun h => by cases h
    · exact fun h => congrArg Except.ok (Option.some.inj h)
  have hmatch : conf.findLocationForUri (bytes "/x") = .ok ⟨appLocation, bytes "/x"⟩ := by
    rw [findLocationForUri_eq, hconf]
    decide +kernel
  have hroute : prepareRoutingContext conf (getRequest (bytes "/x")) =
      .ok (⟨appLocation, bytes "/x"⟩, bytes "/srv/app.py/www/x") := by
    rw [prepareRoutingContext]
    show (conf.findLocationForUri (bytes "/x") >>= _) = _
    rw [hmatch]
    decide +kernel
  have hover : handedOver sampleSys conf (getRequest (bytes "/x")) =
      some (appLocation, bytes "/srv/app.py/www/x") := by
    rw [handedOver, hroute]
    decide +kernel
  have hrun : Executed sampleSys (getRequest (bytes "/x")) appLocation (bytes "/srv/app.py/www/x")
      (bytes "/srv/app.py") _ :=
    (executed_iff rfl rfl).mpr ⟨by decide +kernel, by decide +kernel, rfl⟩
  have htarget : bytes "/srv/app.py" ∈
      targets (RequestHandler.run sampleSys conf (getRequest (bytes "/x"))).2 := by
    rw [requestHandler_actions, handleRequest_handedOver hover]
    exact List.mem_filterMap.mpr ⟨_, hrun, rfl⟩
  have hbelow := (h none _ _ conf sampleSys (getRequest (bytes "/x")) hparse
    List.mem_cons_self).below _ hmatch _ htarget
  exact absurd hbelow.1 (by decide +kernel)

end Webserv
