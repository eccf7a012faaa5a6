/-
Webserv/ScriptSplit.lean

Which paths run a program, and where they are cut.

`CreatePathInfo` looks for the extensions from the end of the path, and a place counts
only with a name in front of it.  `IsScriptExtensionAllowed` then compares the end of
what is left over, without that condition: they disagree on a path such as `"/.py"`.
-/
import Webserv.CgiExecutor
import Webserv.Theory.Substring

namespace Webserv

open Substring

/-! ### Splits -/

/-- `path` is a script and what follows it: the script's name has an allowed extension
with something other than a slash in front. -/
def IsScriptSplit (extensions : List Bytes) (path exe info : Bytes) : Prop :=
  path = exe ++ info ∧
    (∃ ext ∈ extensions, ∃ stem, exe = stem ++ ext ∧ stem.getLast? ≠ some SLASH) ∧
    (info = [] ∨ info.head? = some SLASH)

/-- The extension occurs at `pos`, as the end of a script. -/
def ScriptAt (path ext : Bytes) (pos : Nat) : Prop :=
  OccursAt ext path pos ∧ isScriptAt path ext pos = true

variable {path ext : Bytes} {extensions : List Bytes}

theorem isScriptAt_append (stem ext info : Bytes) :
    isScriptAt (stem ++ ext ++ info) ext stem.length = true ↔
      (info = [] ∨ info.head? = some SLASH) ∧ stem.getLast? ≠ some SLASH := by
  have hend : (stem.length + ext.length == (stem ++ ext ++ info).length) = true ↔ info = [] := by
    rw [beq_iff_eq, List.length_append, List.length_append, ← List.length_eq_zero_iff]
    omega
  have hnext : (stem ++ ext ++ info)[stem.length + ext.length]? = info.head? := by
    rw [List.getElem?_append_right (by rw [List.length_append]), List.length_append,
      Nat.sub_self, List.head?_eq_getElem?]
  have hlast : (stem.length == 0 || (stem ++ ext ++ info)[stem.length - 1]? != some SLASH) = true ↔
      stem.getLast? ≠ some SLASH := by
    rcases List.eq_nil_or_concat stem with rfl | ⟨stem, c, rfl⟩
    · simp
    · simp
  rw [isScriptAt, Bool.and_eq_true, hlast, Bool.or_eq_true, hend, hnext, beq_iff_eq]

theorem scriptAt_append (stem ext info : Bytes) :
    ScriptAt (stem ++ ext ++ info) ext stem.length ↔
      (info = [] ∨ info.head? = some SLASH) ∧ stem.getLast? ≠ some SLASH := by
  rw [ScriptAt, isScriptAt_append, and_iff_right]
  exact ⟨info, by rw [List.append_assoc, List.drop_left]⟩

/-- A place in the path is a cut of it. -/
theorem ScriptAt.cut {pos : Nat} (h : ScriptAt path ext pos) (hext : ext ≠ []) :
    ∃ stem info, path = stem ++ ext ++ info ∧ stem.length = pos := by
  have hle := h.1.le_length hext
  obtain ⟨info, hinfo⟩ := h.1
  refine ⟨path.take pos, info, ?_, ?_⟩
  · rw [List.append_assoc, hinfo, List.take_append_drop]
  · rw [List.length_take]
    omega

/-! ### The search -/

theorem findScript_scriptAt {fuel : Nat} {start : Option Nat} {pos : Nat}
    (hstart : ∀ i, start = some i → OccursAt ext path i) (h : findScript path ext fuel start = some pos) :
    ScriptAt path ext pos := by
  induction fuel generalizing start with
  | zero => cases h
  | succ fuel ih =>
      rcases start with - | i
      · cases h
      · rw [findScript] at h
        split_ifs at h with hat hzero
        · obtain rfl := Option.some.inj h
          exact ⟨hstart i rfl, hat⟩
        · exact ih (fun j hj => (rfind_eq_some_iff.mp hj).2.1) h

/-- The search misses no place at `n` or before it. -/
theorem findScript_complete {fuel n : Nat} (hfuel : n < fuel)
    (h : findScript path ext fuel (rfind ext path n) = none) {pos : Nat} (hpos : pos ≤ n) :
    ¬ ScriptAt path ext pos := by
  induction fuel generalizing n with
  | zero => omega
  | succ fuel ih =>
      rcases hfind : rfind ext path n with - | i
      · exact fun hat => rfind_eq_none_iff.mp hfind pos hpos hat.1
      · obtain ⟨hle, -, hlast⟩ := rfind_eq_some_iff.mp hfind
        rw [hfind, findScript] at h
        rcases Nat.lt_or_ge i pos with hlt | hge
        · exact fun hat => hlast pos hlt hpos hat.1
        · split_ifs at h with hat hzero
          · obtain rfl : pos = i := by omega
            exact fun hat' => hat hat'.2
          · obtain hlt | rfl := Nat.lt_or_eq_of_le hge
            · exact ih (by omega) h (by omega)
            · exact fun hat' => hat hat'.2

theorem scriptPos_scriptAt {pos : Nat} (h : scriptPos path ext = some pos) :
    ScriptAt path ext pos :=
  findScript_scriptAt (fun _ hi => (rfind_eq_some_iff.mp hi).2.1) h

theorem scriptPos_complete (hext : ext ≠ []) (h : scriptPos path ext = none) (pos : Nat) :
    ¬ ScriptAt path ext pos := by
  intro hat
  have hle := hat.1.le_length hext
  exact findScript_complete (Nat.lt_succ_self _) h (by omega) hat

/-- What the loop over the extensions has found is a place of one of them. -/
theorem findFirstScript_some {found : Option (Nat × Nat)} {pos len : Nat}
    (hfound : ∀ p, found = some p → ∃ ext ∈ extensions, ext ≠ [] ∧ p.2 = ext.length ∧
      ScriptAt path ext p.1) {exts : List Bytes} (hsub : exts ⊆ extensions)
    (h : findFirstScript path exts found = some (pos, len)) :
    ∃ ext ∈ extensions, ext ≠ [] ∧ len = ext.length ∧ ScriptAt path ext pos := by
  induction exts generalizing found with
  | nil => exact hfound _ h
  | cons ext exts ih =>
      have hexts : exts ⊆ extensions := fun e he => hsub (List.mem_cons_of_mem _ he)
      rw [findFirstScript] at h
      split_ifs at h with hnil
      · exact ih hfound hexts h
      · rcases hpos : scriptPos path ext with - | p
        · rw [hpos] at h
          exact ih hfound hexts h
        · simp only [hpos] at h
          split_ifs at h
          · refine ih (fun q hq => ?_) hexts h
            obtain rfl := Option.some.inj hq
            exact ⟨ext, hsub List.mem_cons_self, hnil, rfl, scriptPos_scriptAt hpos⟩
          · exact ih hfound hexts h

/-- If it finds nothing, there is nothing. -/
theorem findFirstScript_none {found : Option (Nat × Nat)} {exts : List Bytes}
    (h : findFirstScript path exts found = none) :
    found = none ∧ ∀ ext ∈ exts, ext ≠ [] → scriptPos path ext = none := by
  induction exts generalizing found with
  | nil => exact ⟨h, fun _ he => absurd he List.not_mem_nil⟩
  | cons ext exts ih =>
      rw [findFirstScript] at h
      split_ifs at h with hnil
      · obtain ⟨hfound, hrest⟩ := ih h
        refine ⟨hfound, List.forall_mem_cons.mpr ⟨fun hne => absurd hnil hne, hrest⟩⟩
      · rcases hpos : scriptPos path ext with - | p
        · rw [hpos] at h
          obtain ⟨hfound, hrest⟩ := ih h
          exact ⟨hfound, List.forall_mem_cons.mpr ⟨fun _ => hpos, hrest⟩⟩
        · simp only [hpos] at h
          split_ifs at h with hall
          · cases (ih h).1
          · rw [(ih h).1] at hall
            exact absurd rfl hall

/-- **`CreatePathInfo`** finds a split, if there is one. -/
theorem createPathInfo_some {info : Bytes} (h : createPathInfo path extensions = some info) :
    ∃ exe, IsScriptSplit extensions path exe info ∧ exe = path.take (path.length - info.length) := by
  obtain ⟨⟨pos, len⟩, hfirst, rfl⟩ := Option.map_eq_some_iff.mp h
  obtain ⟨ext, hmem, hne, rfl, hat⟩ :=
    findFirstScript_some (fun p hp => by cases hp) (List.Subset.refl _) hfirst
  obtain ⟨stem, info, rfl, rfl⟩ := hat.cut hne
  obtain ⟨hinfo, hstem⟩ := (scriptAt_append stem ext info).mp hat
  have hdrop : (stem ++ ext ++ info).drop (stem.length + ext.length) = info := by
    rw [← List.length_append, List.drop_left]
  dsimp only
  rw [hdrop]
  refine ⟨stem ++ ext, ⟨rfl, ⟨ext, hmem, stem, rfl, hstem⟩, hinfo⟩, ?_⟩
  rw [List.length_append, Nat.add_sub_cancel, List.take_left]

theorem createPathInfo_none (hexts : ∀ ext ∈ extensions, ext ≠ [])
    (h : createPathInfo path extensions = none) (exe info : Bytes) :
    ¬ IsScriptSplit extensions path exe info := by
  rintro ⟨rfl, ⟨ext, hmem, stem, rfl, hstem⟩, hinfo⟩
  have hnone := (findFirstScript_none (Option.map_eq_none_iff.mp h)).2 ext hmem (hexts ext hmem)
  exact scriptPos_complete (hexts ext hmem) hnone _ ((scriptAt_append stem ext info).mpr ⟨hinfo, hstem⟩)

/-! ### The dispatch -/

theorem isScriptExtensionAllowed_iff :
    isScriptExtensionAllowed path extensions = true ↔ ∃ ext ∈ extensions, ext <:+ path := by
  simp [isScriptExtensionAllowed]

theorem IsScriptSplit.allowed {exe info : Bytes} (h : IsScriptSplit extensions path exe info) :
    isScriptExtensionAllowed exe extensions = true := by
  obtain ⟨-, ⟨ext, hmem, stem, rfl, -⟩, -⟩ := h
  exact isScriptExtensionAllowed_iff.mpr ⟨ext, hmem, stem, rfl⟩

/-- Without a split, an allowed extension at the end of the path is a name of its own. -/
theorem allowed_of_noSplit (hnone : ∀ exe info, ¬ IsScriptSplit extensions path exe info) :
    isScriptExtensionAllowed path extensions = true ↔ ∃ ext ∈ extensions, SLASH :: ext <:+ path := by
  rw [isScriptExtensionAllowed_iff]
  refine exists_congr fun ext => and_congr_right fun hmem => ?_
  constructor
  · rintro ⟨stem, rfl⟩
    by_cases hstem : stem.getLast? = some SLASH
    · obtain ⟨stem, rfl⟩ := List.getLast?_eq_some_iff.mp hstem
      exact ⟨stem, by simp⟩
    · exact absurd ⟨(List.append_nil _).symm, ⟨ext, hmem, stem, rfl, hstem⟩, .inl rfl⟩
        (hnone (stem ++ ext) [])
  · exact fun h => (List.suffix_cons SLASH ext).trans h

/-- `CgiExecutor(req, loc, path).Run()`. -/
def dispatch (sys : Sys) (req : HttpRequest) (loc : Location) (path : Bytes) :
    EStateM.Result Exception (List Action) ExecResult :=
  ((CgiExecutor.construct req loc path).run sys).run []

/-- The program `exe` has been started. -/
def Executed (sys : Sys) (req : HttpRequest) (loc : Location) (path exe : Bytes)
    (envp : List Bytes) : Prop :=
  .execve exe envp ∈ (dispatch sys req loc path).state

/-- A program is started for the paths that have a split, and it is one of the path's;
the others are forbidden. -/
structure DispatchAgrees (sys : Sys) (req : HttpRequest) (loc : Location) (path : Bytes) :
    Prop where
  starts : (∃ exe envp, Executed sys req loc path exe envp) ↔
    ∃ exe info, IsScriptSplit loc.cgiAllowedExtensions path exe info
  split : ∀ exe envp, Executed sys req loc path exe envp →
    envp = (CgiExecutor.construct req loc path).getMetaVars ∧
      ∃ info, IsScriptSplit loc.cgiAllowedExtensions path exe info ∧
        (CgiExecutor.construct req loc path).metaVars[bytes "PATH_INFO"]? = some (some info)
  refuses : (¬ ∃ exe envp, Executed sys req loc path exe envp) →
    dispatch sys req loc path = .ok { response := .ofStatus .kForbidden } []

variable {sys : Sys} {req : HttpRequest} {loc : Location} {fds : Fd × Fd} {pid : Pid}

theorem dispatch_refuses (h : isScriptExtensionAllowed
      (CgiExecutor.construct req loc path).scriptPath loc.cgiAllowedExtensions = false) :
    dispatch sys req loc path = .ok { response := .ofStatus .kForbidden } [] := by
  have hloc : (CgiExecutor.construct req loc path).loc = loc := rfl
  rw [dispatch, CgiExecutor.run, hloc, h]
  rfl

/-- The calls of a start, up to those behind `execve`. -/
theorem dispatch_starts (hpair : sys.socketpair = some fds) (hfork : sys.fork = some pid)
    (h : isScriptExtensionAllowed (CgiExecutor.construct req loc path).scriptPath
      loc.cgiAllowedExtensions = true) :
    ∃ rest, (dispatch sys req loc path).state =
        [.socketpair fds.1 fds.2, .fork pid,
          .execve (CgiExecutor.construct req loc path).scriptPath
            (CgiExecutor.construct req loc path).getMetaVars] ++ rest ∧
      ∀ exe envp, .execve exe envp ∉ rest := by
  have hloc : (CgiExecutor.construct req loc path).loc = loc := rfl
  obtain ⟨fd0, fd1⟩ := fds
  rw [dispatch, CgiExecutor.run, hloc, h]
  simp only [hpair, hfork]
  rcases hnew : CgiSocket.construct fd0 pid sys.fcntl sys.now with e | g
  · exact ⟨[.close fd1, .close fd0], rfl, by simp⟩
  · by_cases hpost : (CgiExecutor.construct req loc path).metaVars[bytes "REQUEST_METHOD"]? =
        some (some (bytes "POST"))
    · simp only [if_pos hpost]
      exact ⟨[.close fd1, .writeCgi _ _], rfl, by simp⟩
    · simp only [if_neg hpost]
      exact ⟨[.close fd1], rfl, by simp⟩

/-- With a socket pair and a process, the suffix test decides. -/
theorem executed_iff (hpair : sys.socketpair = some fds) (hfork : sys.fork = some pid)
    {exe : Bytes} {envp : List Bytes} :
    Executed sys req loc path exe envp ↔
      isScriptExtensionAllowed (CgiExecutor.construct req loc path).scriptPath
          loc.cgiAllowedExtensions = true ∧
        exe = (CgiExecutor.construct req loc path).scriptPath ∧
        envp = (CgiExecutor.construct req loc path).getMetaVars := by
  rcases h : isScriptExtensionAllowed (CgiExecutor.construct req loc path).scriptPath
    loc.cgiAllowedExtensions with - | -
  · rw [Executed, dispatch_refuses h]
    simp
  · obtain ⟨rest, hstate, hrest⟩ := @dispatch_starts path sys req loc fds pid hpair hfork h
    rw [Executed, hstate, List.mem_append, or_iff_left (hrest exe envp)]
    simp

theorem construct_scriptPath_none (h : createPathInfo path loc.cgiAllowedExtensions = none) :
    (CgiExecutor.construct req loc path).scriptPath = path := by
  rw [CgiExecutor.construct, h]

theorem construct_scriptPath_some {info : Bytes}
    (h : createPathInfo path loc.cgiAllowedExtensions = some info) :
    (CgiExecutor.construct req loc path).scriptPath = path.take (path.length - info.length) := by
  rw [CgiExecutor.construct, h]

theorem construct_pathInfo (req : HttpRequest) (loc : Location) (path : Bytes) :
    (CgiExecutor.construct req loc path).metaVars[bytes "PATH_INFO"]? =
      some (createPathInfo path loc.cgiAllowedExtensions) :=
  (initializeMetaVars_getElem? req loc _).2.1

/-- **Dispatch and splitter agree** on a path exactly if it has a split, or does not end
with a bare extension. -/
theorem dispatchAgrees_iff (hpair : sys.socketpair = some fds) (hfork : sys.fork = some pid)
    (hexts : ∀ ext ∈ loc.cgiAllowedExtensions, ext ≠ []) :
    DispatchAgrees sys req loc path ↔
      (∃ exe info, IsScriptSplit loc.cgiAllowedExtensions path exe info) ∨
        ∀ ext ∈ loc.cgiAllowedExtensions, ¬ SLASH :: ext <:+ path := by
  rcases hinfo : createPathInfo path loc.cgiAllowedExtensions with - | info
  · -- the whole path is tested
    have hscript := @construct_scriptPath_none path req loc hinfo
    have hnone := createPathInfo_none hexts hinfo
    have hbare := allowed_of_noSplit hnone
    constructor
    · intro h
      refine .inr fun ext hmem hsuffix => ?_
      have hallowed := hbare.mpr ⟨ext, hmem, hsuffix⟩
      rw [← hscript] at hallowed
      obtain ⟨exe, info, hsplit⟩ := h.starts.mp
        ⟨_, _, (executed_iff hpair hfork).mpr ⟨hallowed, rfl, rfl⟩⟩
      exact hnone exe info hsplit
    · rintro (⟨exe, info, hsplit⟩ | hproper)
      · exact absurd hsplit (hnone exe info)
      · -- the last name of the path is no extension alone, so the program is refused
        have hrefused : isScriptExtensionAllowed (CgiExecutor.construct req loc path).scriptPath
            loc.cgiAllowedExtensions = false := by
          rw [hscript, ← Bool.not_eq_true, hbare]
          rintro ⟨ext, hmem, hsuffix⟩
          exact hproper ext hmem hsuffix
        have hno : ∀ exe envp, ¬ Executed sys req loc path exe envp := by
          intro exe envp h
          rw [((executed_iff hpair hfork).mp h).1] at hrefused
          cases hrefused
        refine ⟨iff_of_false ?_ ?_, fun exe envp h => absurd h (hno exe envp),
          fun _ => dispatch_refuses hrefused⟩
        · rintro ⟨exe, envp, h⟩
          exact hno exe envp h
        · rintro ⟨exe, info, h⟩
          exact hnone exe info h
  · obtain ⟨exe, hsplit, hexe⟩ := createPathInfo_some hinfo
    have hscript := @construct_scriptPath_some path req loc info hinfo
    rw [← hexe] at hscript
    -- the path is split, and the name in front ends with the extension
    have hallowed := hsplit.allowed
    rw [← hscript] at hallowed
    have hstarts : Executed sys req loc path exe (CgiExecutor.construct req loc path).getMetaVars :=
      (executed_iff hpair hfork).mpr ⟨hallowed, hscript.symm, rfl⟩
    refine iff_of_true ⟨?_, ?_, ?_⟩ (.inl ⟨exe, info, hsplit⟩)
    · exact iff_of_true ⟨_, _, hstarts⟩ ⟨exe, info, hsplit⟩
    · intro exe' envp h
      obtain ⟨-, hexe', henvp⟩ := (executed_iff hpair hfork).mp h
      rw [hscript] at hexe'
      subst hexe'
      exact ⟨henvp, info, hsplit, by rw [construct_pathInfo, hinfo]⟩
    · exact fun h => absurd ⟨_, _, hstarts⟩ h

/-- `.py` programs. -/
def scriptLocation : Location := { cgiEnabled := true, cgiAllowedExtensions := [bytes ".py"] }

theorem dispatchAgrees_iff_python :
    DispatchAgrees sampleSys {} scriptLocation (bytes "/srv/a.py/x") :=
  (dispatchAgrees_iff rfl rfl (by decide)).mpr (.inr (by decide))

/-- `/srv/.py` is no script, and is run. -/
theorem dispatchAgrees_fails :
    ¬ ∀ (sys : Sys) (req : HttpRequest) (loc : Location) (path : Bytes), path.head? = some SLASH →
      (∀ ext ∈ loc.cgiAllowedExtensions, ext ≠ [] ∧ SLASH ∉ ext) → sys.socketpair.isSome = true →
        sys.fork.isSome = true → DispatchAgrees sys req loc path := by
  intro h
  have hagrees := h sampleSys {} scriptLocation (bytes "/srv/.py") (by decide) (by decide)
    rfl rfl
  have hinfo : createPathInfo (bytes "/srv/.py") scriptLocation.cgiAllowedExtensions = none := by
    decide
  have hexecuted : Executed sampleSys {} scriptLocation (bytes "/srv/.py") _ _ :=
    (executed_iff rfl rfl).mpr ⟨by decide, rfl, rfl⟩
  obtain ⟨-, info, -, hpathInfo⟩ := hagrees.split _ _ hexecuted
  rw [construct_pathInfo, hinfo] at hpathInfo
  cases Option.some.inj hpathInfo

/-! ### The place of a script -/

/-- The last place at which the extension is the end of a script. -/
def IsLastScript (path ext : Bytes) (pos : Nat) : Prop :=
  ext ≠ [] ∧ ScriptAt path ext pos ∧ ∀ p, ScriptAt path ext p → p ≤ pos

/-- Of the last places of all extensions this is the first one, and of those that have it,
`ext` is the first in the list. -/
def IsChosen (extensions : List Bytes) (path ext : Bytes) (pos : Nat) : Prop :=
  IsLastScript path ext pos ∧ ∃ before behind, extensions = before ++ ext :: behind ∧
    (∀ e ∈ before, ∀ p, IsLastScript path e p → pos < p) ∧
    ∀ e ∈ behind, ∀ p, IsLastScript path e p → pos ≤ p

variable {pos : Nat}

/-- The search, from the end, stops at the last place. -/
theorem findScript_last {fuel n : Nat} (h : findScript path ext fuel (Substring.rfind ext path n) = some pos)
    {p : Nat} (hp : p ≤ n) (hat : ScriptAt path ext p) : p ≤ pos := by
  induction fuel generalizing n with
  | zero => cases h
  | succ fuel ih =>
      rcases hfind : Substring.rfind ext path n with - | i
      · exact absurd hat.1 (Substring.rfind_eq_none_iff.mp hfind p hp)
      · obtain ⟨-, -, hlast⟩ := Substring.rfind_eq_some_iff.mp hfind
        have hpi : p ≤ i := not_lt.mp fun hlt => hlast p hlt hp hat.1
        rw [hfind, findScript] at h
        split_ifs at h with hi hzero
        · rw [← Option.some.inj h]
          exact hpi
        · obtain hlt | rfl := Nat.lt_or_eq_of_le hpi
          · exact ih h (Nat.le_sub_one_of_lt hlt)
          · exact absurd hat.2 hi

theorem scriptPos_eq_some (hext : ext ≠ []) :
    scriptPos path ext = some pos ↔ IsLastScript path ext pos := by
  have hlast : ∀ {pos}, scriptPos path ext = some pos → IsLastScript path ext pos := by
    intro pos h
    refine ⟨hext, scriptPos_scriptAt h, fun p hat => findScript_last h ?_ hat⟩
    have hle := hat.1.le_length hext
    omega
  refine ⟨hlast, fun h => ?_⟩
  rcases hpos : scriptPos path ext with - | p
  · exact absurd h.2.1 (scriptPos_complete hext hpos pos)
  · have hp := hlast hpos
    rw [le_antisymm (h.2.2 p hp.2.1) (hp.2.2 pos h.2.1)]

/-- One turn of the loop over the extensions. -/
theorem findFirstScript_cons (path ext : Bytes) (exts : List Bytes) (found : Option (Nat × Nat)) :
    (findFirstScript path (ext :: exts) found = findFirstScript path exts found ∧
        ∀ p, IsLastScript path ext p → ∃ q ∈ found, q.1 ≤ p) ∨
      ∃ p, IsLastScript path ext p ∧ (∀ q ∈ found, p < q.1) ∧
        findFirstScript path (ext :: exts) found =
          findFirstScript path exts (some (p, ext.length)) := by
  rw [findFirstScript]
  by_cases hnil : ext = []
  · rw [if_pos hnil]
    exact .inl ⟨rfl, fun p hp => absurd hnil hp.1⟩
  · rw [if_neg hnil]
    rcases hpos : scriptPos path ext with - | p
    · refine .inl ⟨rfl, fun p hp => ?_⟩
      rw [(scriptPos_eq_some hnil).mpr hp] at hpos
      cases hpos
    · have hlast := (scriptPos_eq_some hnil).mp hpos
      dsimp only
      rcases found with - | ⟨minPos, len⟩
      · exact .inr ⟨p, hlast, fun q hq => absurd hq (Option.not_mem_none q), rfl⟩
      · by_cases hlt : p < minPos
        · refine .inr ⟨p, hlast, fun q hq => ?_, if_pos (decide_eq_true hlt)⟩
          rw [← Option.mem_some.mp hq]
          exact hlt
        · refine .inl ⟨if_neg (by simpa using hlt), fun p' hp' => ⟨_, rfl, ?_⟩⟩
          rw [le_antisymm (hlast.2.2 p' hp'.2.1) (hp'.2.2 p hlast.2.1)]
          exact not_lt.mp hlt

/-- What the loop over the extensions leaves is what it was given, or chosen. -/
theorem findFirstScript_chosen (path : Bytes) (exts : List Bytes) (found : Option (Nat × Nat)) :
    (findFirstScript path exts found = found ∧
        ∀ e ∈ exts, ∀ p, IsLastScript path e p → ∃ q ∈ found, q.1 ≤ p) ∨
      ∃ ext pos, IsChosen exts path ext pos ∧ (∀ q ∈ found, pos < q.1) ∧
        findFirstScript path exts found = some (pos, ext.length) := by
  induction exts generalizing found with
  | nil => exact .inl ⟨rfl, fun e he => absurd he List.not_mem_nil⟩
  | cons e exts ih =>
      obtain ⟨hnext, hkept⟩ | ⟨p, hlast, hlt, hnext⟩ := findFirstScript_cons path e exts found
      · rw [hnext]
        obtain ⟨hfound, hrest⟩ | ⟨ext, pos, ⟨hext, before, behind, rfl, hbefore, hbehind⟩, hbelow, hres⟩ :=
          ih found
        · exact .inl ⟨hfound, List.forall_mem_cons.mpr ⟨hkept, hrest⟩⟩
        · refine .inr ⟨ext, pos, ⟨hext, e :: before, behind, rfl, ?_, hbehind⟩, hbelow, hres⟩
          refine List.forall_mem_cons.mpr ⟨fun p hp => ?_, hbefore⟩
          obtain ⟨q, hq, hle⟩ := hkept p hp
          exact (hbelow q hq).trans_le hle
      · rw [hnext]
        obtain ⟨hfound, hrest⟩ | ⟨ext, pos, ⟨hext, before, behind, rfl, hbefore, hbehind⟩, hbelow, hres⟩ :=
          ih (some (p, e.length))
        · refine .inr ⟨e, p, ⟨hlast, [], exts, rfl, ?_, fun e' he' p' hp' => ?_⟩, hlt, hfound⟩
          · exact fun e' he' => absurd he' List.not_mem_nil
          · obtain ⟨q, hq, hle⟩ := hrest e' he' p' hp'
            rw [← Option.mem_some.mp hq] at hle
            exact hle
        · have hpos : pos < p := hbelow _ rfl
          refine .inr ⟨ext, pos, ⟨hext, e :: before, behind, rfl, ?_, hbehind⟩, ?_, hres⟩
          · refine List.forall_mem_cons.mpr ⟨fun p' hp' => ?_, hbefore⟩
            exact hpos.trans_le (hp'.2.2 p hlast.2.1)
          · exact fun q hq => hpos.trans (hlt q hq)

/-- Only one is chosen. -/
theorem IsChosen.unique {ext' : Bytes} {pos' : Nat} (h : IsChosen extensions path ext pos)
    (h' : IsChosen extensions path ext' pos') : ext = ext' ∧ pos = pos' := by
  obtain ⟨hlast, before, behind, rfl, hbefore, hbehind⟩ := h
  obtain ⟨hlast', before', behind', heq, hbefore', hbehind'⟩ := h'
  obtain ⟨more, rfl, hmore⟩ | ⟨more, rfl, hmore⟩ := List.append_eq_append_iff.mp heq
  · rcases more with - | ⟨e, more⟩
    · obtain ⟨rfl, -⟩ := List.cons.inj hmore
      exact ⟨rfl, le_antisymm (hlast'.2.2 pos hlast.2.1) (hlast.2.2 pos' hlast'.2.1)⟩
    · -- the first one stands in front of the second
      obtain ⟨rfl, rfl⟩ := List.cons.inj hmore
      have hle := hbehind ext' (by simp) pos' hlast'
      exact absurd (hbefore' ext (by simp) pos hlast) hle.not_gt
  · rcases more with - | ⟨e, more⟩
    · obtain ⟨rfl, -⟩ := List.cons.inj hmore
      exact ⟨rfl, le_antisymm (hlast'.2.2 pos hlast.2.1) (hlast.2.2 pos' hlast'.2.1)⟩
    · obtain ⟨rfl, rfl⟩ := List.cons.inj hmore
      have hle := hbehind' ext (by simp) pos hlast
      exact absurd (hbefore ext' (by simp) pos' hlast') hle.not_gt

/-- **What `CreatePathInfo` gives** stands behind the chosen extension. -/
theorem createPathInfo_chosen (path : Bytes) (extensions : List Bytes) :
    ((∀ ext pos, ¬ IsChosen extensions path ext pos) ∧ createPathInfo path extensions = none) ∨
      ∃ ext pos, IsChosen extensions path ext pos ∧
        createPathInfo path extensions = some (path.drop (pos + ext.length)) := by
  obtain ⟨hnone, hkept⟩ | ⟨ext, pos, hchosen, -, hsome⟩ :=
    findFirstScript_chosen path extensions none
  · refine .inl ⟨fun ext pos hchosen => ?_, by rw [createPathInfo, hnone]; rfl⟩
    obtain ⟨hlast, before, behind, hexts, -⟩ := hchosen
    obtain ⟨q, hq, -⟩ := hkept ext (by rw [hexts]; simp) pos hlast
    exact Option.not_mem_none q hq
  · refine .inr ⟨ext, pos, hchosen, ?_⟩
    rw [createPathInfo, hsome]
    rfl

/-- **Where the path is cut**: behind the chosen extension. -/
theorem construct_scriptPath (req : HttpRequest) (loc : Location) (path : Bytes) :
    ((∀ ext pos, ¬ IsChosen loc.cgiAllowedExtensions path ext pos) ∧
        (CgiExecutor.construct req loc path).scriptPath = path) ∨
      ∃ ext pos, IsChosen loc.cgiAllowedExtensions path ext pos ∧
        ∃ info, (CgiExecutor.construct req loc path).scriptPath = path.take (pos + ext.length) ∧
          IsScriptSplit loc.cgiAllowedExtensions path (path.take (pos + ext.length)) info := by
  obtain ⟨hno, hnone⟩ | ⟨ext, pos, hchosen, hinfo⟩ :=
    createPathInfo_chosen path loc.cgiAllowedExtensions
  · exact .inl ⟨hno, construct_scriptPath_none hnone⟩
  · obtain ⟨exe, hsplit, hexe⟩ := createPathInfo_some hinfo
    have htake : exe = path.take (pos + ext.length) :=
      List.append_cancel_right (hsplit.1.symm.trans (List.take_append_drop _ _).symm)
    rw [htake] at hsplit hexe
    exact .inr ⟨ext, pos, hchosen, _, by rw [construct_scriptPath_some hinfo, hexe], hsplit⟩

end Webserv
