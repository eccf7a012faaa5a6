/-
Webserv/Environment.lean

The environment of a program, as the program reads it.

Whatever a client sends, what a request that is done holds is printable, and so are the paths that
the configuration gives: no string of the environment ends early, and none holds a line break.
So `getenv` reads each variable as `InitializeMetaVars` has set it, and nothing else.
-/
import Webserv.Answering
import Webserv.Confinement
import Webserv.HttpRequest.Format
import Webserv.Listening
import Webserv.SideEffects
import Webserv.Theory.Environ

namespace Webserv

open EStateM (Triple)
open Incremental

/-! ### Printable requests -/

/-- No control character and no byte beyond ASCII. -/
def IsPrintable (s : Bytes) : Prop := ∀ c ∈ s, isValidHeaderChar c = true

instance (s : Bytes) : Decidable (IsPrintable s) :=
  decidable_of_iff (s.all isValidHeaderChar = true) List.all_eq_true

/-- **What a request tells a program is printable.** -/
structure HttpRequest.Spelled (r : HttpRequest) : Prop where
  uri : IsPrintable r.uri
  queryString : IsPrintable r.queryString
  version : IsPrintable r.version
  headers : ∀ (key value : Bytes), r.headers[key]? = some value → IsPrintable value
  hostName : IsPrintable r.hostName
  clientIp : IsPrintable r.clientIp

section Requests

variable {r t : HttpRequest} {limit : Nat} {received : Bytes}

theorem IsPrintable.nil : IsPrintable [] := fun _ hc => absurd hc List.not_mem_nil

theorem IsPrintable.append {s u : Bytes} (h : IsPrintable s) (h' : IsPrintable u) :
    IsPrintable (s ++ u) := fun c hc => (List.mem_append.mp hc).elim (h c) (h' c)

theorem IsPrintable.of_subset {s u : Bytes} (h : IsPrintable u) (hsub : s ⊆ u) : IsPrintable s :=
  fun c hc => h c (hsub hc)

theorem isPrintable_of_visible {s : Bytes} (h : ∀ c ∈ s, isVisibleAscii c = true) : IsPrintable s := by
  intro c hc
  have hvisible := h c hc
  simp only [isVisibleAscii, isValidHeaderChar, Bool.and_eq_true, decide_eq_true_eq, UInt8.le_iff_toNat_le,
    UInt8.reduceToNat] at hvisible ⊢
  omega

theorem natToString_printable (n : Nat) : IsPrintable (natToString n) := by
  intro c hc
  obtain ⟨hlo, hhi⟩ := isDigit_iff.mp (isDigit_natToString hc)
  simp only [isValidHeaderChar, Bool.and_eq_true, decide_eq_true_eq, UInt8.le_iff_toNat_le,
    UInt8.reduceToNat]
  omega

theorem fieldValue_printable {fields : List HeaderField} {key value : Bytes}
    (h : fieldValue fields key = some value) : IsPrintable value := by
  obtain ⟨f, -, rfl⟩ := Option.map_eq_some_iff.mp h
  exact f.value_char

theorem Spelled.afterHead {h : RequestHead} {rest : Bytes} (hr : r.Spelled) (hnew : r.headers = ∅)
    (hdistinct : DistinctNames h.fields) : (r.afterHead h rest).Spelled where
  uri := isPrintable_of_visible fun c hc => (h.requestLine.path_char c hc).1
  queryString := by
    show IsPrintable (h.requestLine.query.elim r.queryString id)
    rcases hquery : h.requestLine.query with - | q
    · exact hr.queryString
    · exact isPrintable_of_visible fun c hc => (h.requestLine.query_char q hquery c hc).1
  version := by
    show IsPrintable h.requestLine.version
    obtain hversion | hversion := h.requestLine.version_known
    · rw [hversion]
      decide +kernel
    · rw [hversion]
      decide +kernel
  headers key value hvalue := by
    have hvalue : (r.afterLines h).headers[key]? = some value := hvalue
    rw [afterLines_getElem? hdistinct hnew] at hvalue
    exact fieldValue_printable hvalue
  hostName := by
    show IsPrintable (h.host.takeWhile (· ≠ COLON))
    refine IsPrintable.of_subset (u := h.host) ?_ (List.takeWhile_prefix _).subset
    rw [RequestHead.host]
    rcases hhost : fieldValue h.fields (bytes "host") with - | v
    · exact .nil
    · exact fieldValue_printable hhost
  clientIp := hr.clientIp

/-- A step of the parser keeps a request printable. -/
theorem HttpRequest.Spelled.next (hpart : Partway limit received r) (hst : r.step = .next t)
    (h : r.Spelled) : t.Spelled := by
  obtain ⟨hstate, hmove⟩ | ⟨hstate, -, -, hmove⟩ := step_next hst
  · obtain ⟨hnew, -, -⟩ := hpart.header hstate
    obtain ⟨head, rest, haccepted, -, rfl⟩ := (headerStep_eq_next_iff hnew).mp hmove
    exact Spelled.afterHead h hnew haccepted.distinct
  · obtain ⟨_, _, -, -, -, rfl⟩ | ⟨_, -, -, -, -, rfl⟩ := chunkStep_next hmove
    · exact ⟨h.uri, h.queryString, h.version, h.headers, h.hostName, h.clientIp⟩
    · exact ⟨h.uri, h.queryString, h.version, h.headers, h.hostName, h.clientIp⟩

theorem HttpRequest.Spelled.done (hst : r.step = .done t) (h : r.Spelled) : t.Spelled := by
  unfold HttpRequest.step at hst
  rcases hstate : r.state with - | - | -
  · rw [hstate] at hst
    exact absurd hst headerStep_done
  · simp only [hstate] at hst
    split_ifs at hst with hbody hneg
    · cases hst
      exact ⟨h.uri, h.queryString, h.version, h.headers, h.hostName, h.clientIp⟩
    · simp only [contentLengthStep] at hst
      split_ifs at hst with hlimit h0 hwait
      · cases hst
        exact ⟨h.uri, h.queryString, h.version, h.headers, h.hostName, h.clientIp⟩
      · cases hst
        exact ⟨h.uri, h.queryString, h.version, h.headers, h.hostName, h.clientIp⟩
    · rw [chunkStep_eq_done hst]
      exact ⟨h.uri, h.queryString, h.version, h.headers, h.hostName, h.clientIp⟩
  · rw [hstate] at hst
    cases hst

/-- A request of a client, before it has been sent anything. -/
theorem HttpRequest.Spelled.fresh (ip : UInt32) :
    HttpRequest.Spelled { HttpRequest.fresh limit with clientIp := ipv4ToString ip } where
  uri := .nil
  queryString := .nil
  version := .nil
  headers key value hvalue := by
    have hnone : (∅ : Std.ExtTreeMap Bytes Bytes compare)[key]? = some value := hvalue
    rw [Std.ExtTreeMap.getElem?_empty] at hnone
    cases hnone
  hostName := .nil
  clientIp := by
    have hdot : IsPrintable [DOT] := by decide +kernel
    exact ((((((natToString_printable _).append hdot).append (natToString_printable _)).append
      hdot).append (natToString_printable _)).append hdot).append (natToString_printable _)

/-- A run of the parser, as far as it waits or finishes. -/
theorem HttpRequest.Spelled.runs {o : Outcome HttpRequest Exception} (hlimit : NoWrap limit)
    (hpart : Partway limit received r) (hruns : Runs requestConsumer r o) (h : r.Spelled) :
    (∀ t, o = .waiting t → t.Spelled) ∧ ∀ t, o = .finished t → t.Spelled := by
  induction hruns with
  | wait =>
      refine ⟨fun t ho => ?_, fun t ho => ?_⟩
      · cases ho
        exact h
      · cases ho
  | done hst =>
      refine ⟨fun t ho => ?_, fun t ho => ?_⟩
      · cases ho
      · cases ho
        exact h.done hst
  | fail =>
      refine ⟨fun t ho => ?_, fun t ho => ?_⟩
      · cases ho
      · cases ho
  | next hst _ ih => exact ih (hpart.next hlimit hst) (h.next hpart hst)

/-- A call of `Parse` that returns. -/
theorem HttpRequest.Spelled.parse {data : Bytes} (h : r.Spelled) (hlimit : NoWrap limit)
    (hpart : Partway limit received r) (hrun : (HttpRequest.parse data).run r = .ok () t) :
    WholeRequest (received ++ data) t ∧ t.Spelled ∨
      Partway limit (received ++ data) t ∧ t.Spelled := by
  have hspelled : t.Spelled := by
    by_cases hfits : r.buffer.length + data.length ≤ stringMaxSize
    · have hreceive := hpart.receive hlimit hfits
      have hr : (r.receive data).Spelled :=
        ⟨h.uri, h.queryString, h.version, h.headers, h.hostName, h.clientIp⟩
      obtain ⟨o, ho, hresult⟩ := parse_implements r data hpart.toRequestSound hreceive.toRequestSound
      obtain ⟨hwaiting, hfinished⟩ := hr.runs hlimit hreceive ho
      rw [hrun] at hresult
      rcases o with s | s | ⟨e, s⟩
      · cases hresult
        exact hwaiting t rfl
      · cases hresult
        exact hfinished t rfl
      · cases hresult
    · rw [parse_tooLong hfits] at hrun
      cases hrun
  exact (hpart.parse hlimit hrun).imp (⟨·, hspelled⟩) (⟨·, hspelled⟩)

end Requests

/-! ### Programs that are started -/

/-- Every program that is started is one of these. -/
def Executes (P : Bytes → List Bytes → Prop) (actions : List Action) : Prop :=
  ∀ exe envp, .execve exe envp ∈ actions → P exe envp

section Programs

variable {P : Bytes → List Bytes → Prop} {α : Type} {sys : Sys} {conf : ServerConfig}
  {req : HttpRequest} {path : Bytes}

theorem executes_nil : Executes P [] := fun _ _ h => absurd h List.not_mem_nil

/-- The one program that `CgiExecutor::Run` starts. -/
theorem ProgramEnds.executes {cgi : CgiExecutor} {r : Except Exception ExecResult}
    {actions : List Action} (h : ProgramEnds sys cgi r actions) :
    Executes (fun exe envp => exe = cgi.scriptPath ∧ envp = cgi.getMetaVars) actions := by
  intro exe envp hmem
  cases h with
  | refused h => cases hmem
  | noFork hpair => simp at hmem
  | noSocket hpair hfork => simpa using hmem
  | started hpair hfork =>
      rw [CgiExecutor.input] at hmem
      split_ifs at hmem
      · simpa using hmem
      · simpa using hmem

/-- **How a program comes to be started**: the location of the URI runs programs, and the path of
the script has been compared with its root. -/
structure Dispatched (conf : ServerConfig) (req : HttpRequest) (m : LocationMatch)
    (path exe : Bytes) (envp : List Bytes) : Prop where
  location : conf.findLocationForUri req.uri = .ok m
  enabled : m.loc.cgiEnabled = true
  validated : ∃ text, validateAndNormalizePath text m.loc.root = .ok path
  exe_eq : exe = (CgiExecutor.construct req m.loc path).scriptPath
  envp_eq : envp = (CgiExecutor.construct req m.loc path).getMetaVars

/-- The program is one that a route leads to. -/
def IsDispatched (conf : ServerConfig) (req : HttpRequest) (exe : Bytes) (envp : List Bytes) : Prop :=
  ∃ m path, Dispatched conf req m path exe envp

theorem appendIndexFile_validated {loc : Location} {p : Bytes}
    (h : appendIndexFileIfDirectoryOrThrow sys req loc path = .ok p) :
    ∃ text, validateAndNormalizePath text loc.root = .ok p := by
  rw [appendIndexFileIfDirectoryOrThrow] at h
  split_ifs at h
  · exact ⟨_, h⟩
  · exact ⟨_, h⟩
  · exact ⟨_, h⟩

/-- **The program of a run** is one that a route leads to. -/
theorem requestHandler_executes (sys : Sys) (conf : ServerConfig) (req : HttpRequest) :
    Executes (IsDispatched conf req) (RequestHandler.run sys conf req).2 := by
  obtain ⟨r, hends, -⟩ := requestHandler_ends sys conf req
  generalize (RequestHandler.run sys conf req).2 = actions at hends
  cases hends with
  | answers h => exact executes_nil
  | file hserved h hfile htarget =>
      intro exe envp hmem
      rw [← List.mem_singleton.mp hmem] at hfile
      cases hfile
  | program hover h =>
      intro exe envp hmem
      obtain ⟨hexe, henvp⟩ := h.executes exe envp hmem
      obtain ⟨m, base, hrouted, rfl, hcgi, hpath⟩ := handedOver_some hover
      refine ⟨m, _, hrouted.validated.1, hcgi, ?_, hexe, henvp⟩
      obtain ⟨-, hpath⟩ | ⟨-, -, rfl⟩ := hpath
      · exact appendIndexFile_validated hpath
      · exact ⟨_, hrouted.validated.2.2⟩

end Programs

/-! ### The environment of a program -/

/-- `'='`. -/
abbrev EQUALS : Byte := 61

/-- `'\0'`, where a C string ends. -/
abbrev NUL : Byte := 0

section MetaVars

variable {req : HttpRequest} {loc : Location} {pathInfo : Option Bytes}

theorem IsPrintable.no_nul {s : Bytes} (h : IsPrintable s) : NUL ∉ s := by
  intro hmem
  have hnul : isValidHeaderChar NUL = false := rfl
  rw [h NUL hmem] at hnul
  cases hnul

theorem methodToString_printable (m : Method) : IsPrintable (methodToString m) := by
  cases m
  all_goals decide +kernel

theorem getFirstToken_printable {s token : Bytes} {c : Byte} (hs : IsPrintable s)
    (h : getFirstToken s c = some token) : IsPrintable token := by
  rw [getFirstToken] at h
  split_ifs at h
  obtain rfl := Option.some.inj h
  exact hs.of_subset (List.takeWhile_prefix _).subset

/-- The path of a script and the root that it lies below are printable. -/
theorem validated_printable {text root path : Bytes} (h : validateAndNormalizePath text root = .ok path) :
    IsPrintable path ∧ IsPrintable root := by
  obtain ⟨hsafe, -, -, hpath, hunder⟩ := validateAndNormalizePath_eq_ok.mp h
  have hprintable : IsPrintable path := by
    rw [hpath]
    exact (canonicalPath_normalized _ hsafe).printable
  refine ⟨hprintable, ?_⟩
  have hslash : IsPrintable [SLASH] := by decide +kernel
  obtain rfl | ⟨-, hbegins⟩ := isPathUnderDocumentRoot_iff.mp hunder
  · exact hslash
  · have hsub : root ⊆ path ++ [SLASH] := fun c hc =>
      hbegins.subset (List.mem_append_left [SLASH] hc)
    exact (hprintable.append hslash).of_subset hsub

theorem createPathInfo_printable {path info : Bytes} {extensions : List Bytes} (hpath : IsPrintable path)
    (h : createPathInfo path extensions = some info) : IsPrintable info := by
  obtain ⟨-, -, rfl⟩ := Option.map_eq_some_iff.mp h
  exact hpath.of_subset (List.drop_subset _ _)

/-- The variables have names of their own, and no value could end early. -/
theorem exists_metaVars (hr : req.Spelled) (hroot : IsPrintable loc.root)
    (hinfo : ∀ info ∈ pathInfo, IsPrintable info) :
    ∃ vars, initializeMetaVars req loc pathInfo = .ofList vars compare ∧
      vars.Pairwise (fun a b => ¬ compare a.1 b.1 = .eq) ∧
      (∀ v ∈ vars, IsPrintable v.1 ∧ EQUALS ∉ v.1) ∧
      ∀ v ∈ vars, ∀ value ∈ v.2, IsPrintable value := by
  have hheader : ∀ key value, value ∈ req.headers[key]? → IsPrintable value := hr.headers
  have hsome : ∀ {s : Bytes}, IsPrintable s → ∀ value ∈ some s, IsPrintable value := by
    rintro s hs value ⟨⟩
    exact hs
  have hnone : ∀ value ∈ (none : Option Bytes), IsPrintable value := by
    rintro value ⟨⟩
  refine ⟨_, rfl, ?_, ?_, ?_⟩
  · rw [← List.pairwise_map (f := Prod.fst) (R := fun a b => ¬ compare a b = .eq)]
    simp only [List.map_cons, List.map_nil]
    decide +kernel
  · apply @List.forall_mem_map _ _ Prod.fst _ (fun name => IsPrintable name ∧ EQUALS ∉ name) |>.mp
    simp only [List.map_cons, List.map_nil]
    decide +kernel
  · simp only [List.forall_mem_cons]
    refine ⟨?_, hheader _, hheader _, hsome (by decide +kernel), hinfo, ?_, hsome hr.queryString, hinfo,
      hsome hr.clientIp, hsome hr.clientIp, hnone, hnone, hsome (methodToString_printable _), ?_,
      hsome hr.hostName, hsome (natToString_printable _), hsome hr.version,
      hsome (by decide +kernel), fun v hv => absurd hv List.not_mem_nil⟩
    · -- `AUTH_TYPE`
      intro value hvalue
      obtain ⟨auth, hauth, htoken⟩ := Option.bind_eq_some_iff.mp hvalue
      exact getFirstToken_printable (hr.headers _ _ hauth) htoken
    · -- `PATH_TRANSLATED`
      intro value hvalue
      obtain ⟨info, hpath, rfl⟩ := Option.map_eq_some_iff.mp hvalue
      exact hroot.append (hinfo info hpath)
    · -- `SCRIPT_NAME`
      rcases pathInfo with - | info
      · exact hsome hr.uri
      · exact hsome (hr.uri.of_subset (List.take_subset _ _))

/-- What a map has been made of is what it holds. -/
theorem mem_toList_ofList {vars : List (Bytes × Option Bytes)}
    (hdistinct : vars.Pairwise fun a b => ¬ compare a.1 b.1 = .eq) (v : Bytes × Option Bytes) :
    v ∈ (Std.ExtTreeMap.ofList vars compare).toList ↔ v ∈ vars := by
  obtain ⟨key, value⟩ := v
  have hheld : ∀ value, (key, value) ∈ vars →
      (Std.ExtTreeMap.ofList vars compare)[key]? = some value := fun value hmem =>
    Std.ExtTreeMap.getElem?_ofList_of_mem (k := key) (by simp) hdistinct hmem
  rw [Std.ExtTreeMap.mem_toList_iff_getElem?_eq_some]
  refine ⟨fun hvalue => ?_, hheld value⟩
  have hkey : key ∈ Std.ExtTreeMap.ofList vars compare := by
    rw [Std.ExtTreeMap.mem_iff_isSome_getElem?, hvalue]
    rfl
  obtain ⟨v, hv, hname⟩ := List.mem_map.mp (List.contains_iff_mem.mp (Std.ExtTreeMap.mem_ofList.mp hkey))
  have hmem : (key, v.2) ∈ vars := hname ▸ hv
  have hsame := hheld v.2 hmem
  rw [hvalue] at hsame
  rw [Option.some.inj hsame]
  exact hmem

theorem getMetaVars_eq (cgi : CgiExecutor) :
    cgi.getMetaVars = Environ.strings EQUALS cgi.metaVars.toList := by
  have hentry : (fun v : Bytes × Option Bytes => v.2.map fun value => v.1 ++ bytes "=" ++ value) =
      fun v => v.2.map (v.1 ++ EQUALS :: ·) := by
    funext v
    congr 1
    funext value
    exact List.append_assoc _ _ _
  exact congrArg (List.filterMap · cgi.metaVars.toList) hentry

/-- **The variables can be told apart**, and none holds a line break. -/
theorem metaVars_clean (hr : req.Spelled) (hroot : IsPrintable loc.root)
    (hinfo : ∀ info ∈ pathInfo, IsPrintable info) :
    Environ.Clean NUL EQUALS (initializeMetaVars req loc pathInfo).toList ∧
      ∀ s ∈ Environ.strings EQUALS (initializeMetaVars req loc pathInfo).toList, IsPrintable s := by
  obtain ⟨vars, hvars, hdistinct, hnames, hvalues⟩ := exists_metaVars hr hroot hinfo
  have hmem : ∀ v, v ∈ (initializeMetaVars req loc pathInfo).toList → v ∈ vars := by
    intro v hv
    rw [hvars] at hv
    exact (mem_toList_ofList hdistinct v).mp hv
  constructor
  · refine ⟨by decide, ?_, fun v hv => (hnames v (hmem v hv)).2,
      fun v hv => (hnames v (hmem v hv)).1.no_nul,
      fun v hv value hvalue => (hvalues v (hmem v hv) value hvalue).no_nul⟩
    have hkeys := @Std.ExtTreeMap.distinct_keys_toList _ _ _ (initializeMetaVars req loc pathInfo) _
    refine List.pairwise_map.mpr (hkeys.imp fun hne heq => hne ?_)
    rw [heq]
    exact Std.ReflCmp.compare_self
  · intro s hs
    obtain ⟨v, hv, hentry⟩ := List.mem_filterMap.mp hs
    obtain ⟨value, hvalue, rfl⟩ := Option.map_eq_some_iff.mp hentry
    have hequals : IsPrintable [EQUALS] := by decide +kernel
    exact (hnames v (hmem v hv)).1.append (hequals.append (hvalues v (hmem v hv) value hvalue))

end MetaVars

/-- What a program reads from the environment of a script at `path`. -/
def readsOf (req : HttpRequest) (loc : Location) (path name : Bytes) : Option Bytes :=
  (initializeMetaVars req loc (createPathInfo path loc.cgiAllowedExtensions))[name]?.join

/-- **A program reads its variables**, whatever the request is. -/
theorem Dispatched.reads {conf : ServerConfig} {req : HttpRequest} {m : LocationMatch}
    {path exe : Bytes} {envp : List Bytes} (h : Dispatched conf req m path exe envp)
    (hr : req.Spelled) :
    (∀ s ∈ envp, IsPrintable s) ∧ ∀ name, EQUALS ∉ name →
      Environ.getenv NUL EQUALS envp name = readsOf req m.loc path name := by
  obtain ⟨text, hvalid⟩ := h.validated
  obtain ⟨hpath, hroot⟩ := validated_printable hvalid
  obtain ⟨hclean, hstrings⟩ := metaVars_clean hr hroot
    fun info hinfo => @createPathInfo_printable path info m.loc.cgiAllowedExtensions hpath hinfo
  have henvp : envp = Environ.strings EQUALS (initializeMetaVars req m.loc
      (createPathInfo path m.loc.cgiAllowedExtensions)).toList := by
    rw [h.envp_eq, getMetaVars_eq]
    rfl
  rw [henvp]
  refine ⟨hstrings, fun name hname => ?_⟩
  ext value
  rw [Environ.getenv_strings hclean hname,
    Std.ExtTreeMap.mem_toList_iff_getElem?_eq_some, readsOf]
  exact Option.join_eq_some_iff.symm

/-! ### Runs -/

/-- Every program of a history is one that a run of its handler has started, for a block of the
file. -/
def Launched (configs : List ServerConfig) (acts : List Action) : Prop :=
  Executes (fun exe envp => ∃ e ∈ handlerRuns [] acts, ∃ config ∈ configs,
    IsDispatched config e.2 exe envp) acts

section Histories

variable {configs : List ServerConfig} {acts acts' : List Action}

theorem launched_nil : Launched configs [] := executes_nil

theorem NoHandler.execve_not_mem (h : NoHandler acts) (exe : Bytes) (envp : List Bytes) :
    Action.execve exe envp ∉ acts := by
  intro hmem
  cases h _ hmem

/-- A history that goes on. -/
theorem Launched.append (h : Launched configs acts)
    (h' : Executes (fun exe envp => ∃ e ∈ handlerRuns (receivedBytes acts) acts', ∃ config ∈ configs,
      IsDispatched config e.2 exe envp) acts') : Launched configs (acts ++ acts') := by
  intro exe envp hmem
  rw [handlerRuns_append]
  obtain hmem | hmem := List.mem_append.mp hmem
  · obtain ⟨e, he, hlaunch⟩ := h exe envp hmem
    exact ⟨e, List.mem_append_left _ he, hlaunch⟩
  · obtain ⟨e, he, hlaunch⟩ := h' exe envp hmem
    exact ⟨e, List.mem_append_right _ he, hlaunch⟩

theorem Launched.noHandler (h : Launched configs acts) (h' : NoHandler acts') :
    Launched configs (acts ++ acts') :=
  h.append fun exe envp hmem => absurd hmem (h'.execve_not_mem exe envp)

end Histories

/-- **A program is started** by the run of the handler in the same event. -/
theorem ClientSocket.handleEvent_executes {c : ClientSocket} {self newId : SocketId} {events : Events}
    {ans : ClientSocket.Answers} {hd : ClientSocket.Handled}
    (hh : c.handleEvent self newId events ans = some hd) (received : Bytes) :
    Executes (fun exe envp => ∃ e ∈ handlerRuns received hd.actions,
      IsDispatched c.config e.2 exe envp) hd.actions := by
  intro exe envp hmem
  -- only reading the request can start a program; what follows it cannot
  obtain ⟨h1, hreads, htail⟩ := handleEvent_readsOn hh
  obtain ⟨tail, hactions, htail'⟩ := htail.actions
  have hno := noHandler_of_isTail htail'
  rw [hactions, handlerRuns_append, hno.runs_nil, List.append_nil]
  rw [hactions] at hmem
  have hmem := (List.mem_append.mp hmem).resolve_right (hno.execve_not_mem exe envp)
  obtain rfl | ⟨-, hreads⟩ := hreads
  · cases hmem
  · cases hreads with
    | idle => cases hmem
    | received =>
        have hmem : Action.execve exe envp ∈ [Action.recv _] := hmem
        cases List.mem_singleton.mp hmem
    | @answered data req result actions text hdata hparse hstate hrun =>
        have hlaunch := requestHandler_executes ans.sys c.config req exe envp
        have hrun : RequestHandler.run ans.sys c.config req = (result, actions) := hrun
        rw [hrun] at hlaunch
        have hmem : Action.execve exe envp ∈ .recv data :: .runHandler req :: actions := hmem
        refine ⟨(received ++ data, req), List.mem_cons_self, hlaunch ?_⟩
        rcases List.mem_cons.mp hmem with heq | hmem
        · cases heq
        · exact (List.mem_cons.mp hmem).resolve_left Action.noConfusion
    | @started data req fd0 fd1 pid path envp' text hdata hparse hstate hrun =>
        have hlaunch := requestHandler_executes ans.sys c.config req exe envp
        have hrun : RequestHandler.run ans.sys c.config req = _ := hrun
        rw [hrun] at hlaunch
        have hmem : Action.execve exe envp ∈ (.recv data :: .runHandler req ::
          ([.socketpair fd0 fd1, .fork pid, .execve path envp', .close fd1] ++
            cgiInput ans.sys req)) ++ [.adopt newId] := hmem
        refine ⟨(received ++ data, req), ?_, hlaunch ?_⟩
        · show _ ∈ handlerRuns received ((.recv data :: .runHandler req :: _) ++ [.adopt newId])
          rw [handlerRuns_append]
          exact List.mem_append_left _ List.mem_cons_self
        · rcases List.mem_append.mp hmem with hmem | hmem
          · rcases List.mem_cons.mp hmem with heq | hmem
            · cases heq
            · exact (List.mem_cons.mp hmem).resolve_left Action.noConfusion
          · cases List.mem_singleton.mp hmem

/-- A step in the life of a connection. -/
theorem Life.launched {w : World} {l : Label} {id : SocketId} {acts acts' : List Action}
    {s s' : Option Socket} {configs : List ServerConfig} (hlife : Life w l id acts s acts' s')
    (hconfig : ∀ c, s = some (.client c) → c.config ∈ configs) (h : Launched configs acts) :
    Launched configs acts' := by
  cases hlife with
  | same | gone | opened | accepted | started => exact h
  | @event acts c events rest time ans epollAdd hd hc hl hs hh =>
      refine h.append fun exe envp hmem => ?_
      obtain ⟨e, he, hlaunch⟩ := ClientSocket.handleEvent_executes hh (receivedBytes acts) exe envp hmem
      exact ⟨e, he, c.config, hconfig { c with cgiSocket := none } rfl, hlaunch⟩
  | @answered acts c g t events rest time ans cans hc hl hg howner hend hreg hs res hres =>
      exact h.noHandler (noHandler_answer c res cans)
  | @expired acts c now fd entries sends date hc hl hs hout =>
      obtain ⟨tail, hactions, htail⟩ := (ClientSocket.handleTimeout_tail c sends date).actions
      rw [hactions, List.nil_append]
      exact h.noHandler (noHandler_of_isTail htail)
  | printed hwrite hacts => exact h.noHandler (noHandler_of_isCgi hacts)
  | ended g hacts => exact h.noHandler (noHandler_of_isCgi hacts)

/-- A request between two calls of `Parse`, of which what it holds is printable. -/
theorem spelled_reads :
    ReadsRequests (fun limit received r => Partway limit received r ∧ r.Spelled)
      fun received r => WholeRequest received r ∧ r.Spelled where
  fresh hlimit ip := ⟨.fresh hlimit (ipv4ToString ip), .fresh ip⟩
  parse hlimit hpart hrun := hpart.2.parse hlimit hpart.1 hrun
  part_not_done hpart := hpart.1.not_done
  whole_done hwhole := hwhole.1.done

section Environments

variable {configFile content : Bytes} {ans : StartAnswers} {w : World} {configs : List ServerConfig}

theorem runsFrom_launched (hload : loadFileOrThrowRuntime configFile ans.file = .ok content)
    (hparse : ConfigParser.parse ans.cwd content = .ok configs) (h : w.RunsFrom configFile ans)
    (id : SocketId) : Launched configs (actionsOf w.log id) := by
  revert id
  apply h.invariant_under (fun w hw => hw)
  · intro w hw id
    obtain ⟨_, _, _, -, -, rfl⟩ := construct_eq_ok hw
    exact launched_nil
  · intro w l w' hw _ hlaunched _ hst id
    have hlife := (step_lives (reachable_runInv (World.RunsFrom.reachable hw)) hst).2 id
    refine hlife.launched (fun c hc => ?_) (hlaunched id)
    have hrole : w.roleOf id = some (.client c.config) := by
      rw [World.roleOf, hc]
      rfl
    have hmem := (runsFrom_listens hload hparse hw).clients id c.config hrole
    exact List.mem_of_find?_eq_some (mem_portConfigs.mp hmem)

/-- **The environment of a program.**  In every run of the program, whatever a connection is sent,
each program that it starts has been started by the run of its handler on a whole request, for a
block of the file and a location of it that runs programs; and `getenv` reads in it the variables
of this request and of nothing else. -/
theorem environment (hload : loadFileOrThrowRuntime configFile ans.file = .ok content)
    (hparse : ConfigParser.parse ans.cwd content = .ok configs) (h : w.RunsFrom configFile ans)
    (id : SocketId) (exe : Bytes) (envp : List Bytes) (hexe : .execve exe envp ∈ actionsOf w.log id) :
    ∃ e ∈ handlerRuns [] (actionsOf w.log id), WholeRequest e.1 e.2 ∧
      ∃ config ∈ configs, ∃ m path, Dispatched config e.2 m path exe envp ∧
        (∀ s ∈ envp, IsPrintable s) ∧ ∀ name, EQUALS ∉ name →
          Environ.getenv NUL EQUALS envp name = readsOf e.2 m.loc path name := by
  obtain ⟨e, he, config, hconfig, m, path, hlaunch⟩ := runsFrom_launched hload hparse h id exe envp hexe
  obtain ⟨hwhole, hspelled⟩ := (runsFrom_fed spelled_reads hload hparse h id).whole e he
  exact ⟨e, he, hwhole, config, hconfig, m, path, hlaunch, hlaunch.reads hspelled⟩

end Environments

/-- A file with one block, whose scripts end in `.py`. -/
def scripting : StartAnswers where
  file := ⟨some .regular, some (bytes
    "server \x7b location / \x7b root /srv; cgi on; cgi_allowed_extensions .py; \x7d \x7d")⟩
  cwd := none
  epollCreate := .ok 3
  open_ := [0, 1, 2]
  clock := 0

/-- A connection asks for one of them, and its query has the form of a variable. -/
def scriptRun : List Label :=
  [.openServer (some 4) 0 true, .checkTimeout 0, .visit [] none,
    .epollWait (some [(⟨4, 4, 0, EPOLLIN⟩, EPOLLIN)]), .serverEvent 0 ⟨some (5, 0), none, 0⟩ true,
    .checkTimeout 0, .visit [] none, .visit [] none,
    .epollWait (some [(⟨5, 5, 1, EPOLLIN⟩, EPOLLIN)]),
    .clientEvent 0 ⟨0, some (bytes "GET /a.py/b?PATH_INFO=c HTTP/1.1\r\nHost: a\r\n\r\n"),
      sampleSys, some .other, false, none, none, none⟩ true]

/-- The program that an action starts, with its environment. -/
def Action.program : Action → Option (Bytes × List Bytes)
  | .execve exe envp => some (exe, envp)
  | _ => none

theorem environment_scriptRun : ∃ (w : World) (configs : List ServerConfig) (exe : Bytes)
    (envp : List Bytes), .execve exe envp ∈ actionsOf w.log 1 ∧
      Environ.getenv NUL EQUALS envp (bytes "PATH_INFO") = some (bytes "/b") ∧
      ∃ e ∈ handlerRuns [] (actionsOf w.log 1), WholeRequest e.1 e.2 ∧
        ∃ config ∈ configs, ∃ m path, Dispatched config e.2 m path exe envp ∧
          (∀ s ∈ envp, IsPrintable s) ∧ ∀ name, EQUALS ∉ name →
            Environ.getenv NUL EQUALS envp name = readsOf e.2 m.loc path name := by
  have hrun : ((construct [] scripting).toOption.bind fun w => Transition.run World.step w scriptRun).map
      (fun w => ((actionsOf w.log 1).findSome? Action.program).map
        fun p => Environ.getenv NUL EQUALS p.2 (bytes "PATH_INFO")) = some (some (some (bytes "/b"))) := by
    decide +kernel
  obtain ⟨w, hw, hstate⟩ := Option.map_eq_some_iff.mp hrun
  obtain ⟨⟨exe, envp⟩, hprogram, hinfo⟩ := Option.map_eq_some_iff.mp hstate
  have hexe : .execve exe envp ∈ actionsOf w.log 1 := by
    obtain ⟨a, ha, hstarts⟩ := List.exists_of_findSome?_eq_some hprogram
    cases a with
    | execve =>
        cases hstarts
        exact ha
    | _ => cases hstarts
  obtain ⟨content, configs, hload, hparse, hreach⟩ := runsFrom_of_run hw
  exact ⟨w, configs, exe, envp, hexe, hinfo, environment hload hparse hreach 1 exe envp hexe⟩

end Webserv
