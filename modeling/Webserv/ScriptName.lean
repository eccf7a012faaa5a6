/-
Webserv/ScriptName.lean

`SCRIPT_NAME` and `PATH_INFO`, against the URI.

`PATH_INFO` is cut from the path that the handler has made of the URI; `SCRIPT_NAME` is
the URI without as many characters as `PATH_INFO` has.  The two give the URI back where
the last pieces of the URI, as many as there are names behind the script, have come
through the making of the path as they were (`ComesThrough`).
-/
import Webserv.ProgramPath
import Webserv.ScriptSplit

namespace Webserv

open Segments

variable {sys : Sys} {conf : ServerConfig} {req : HttpRequest} {loc : Location} {path : Bytes}

/-! ### The URI from its parts -/

/-- `SCRIPT_NAME` followed by `PATH_INFO` is the URI, and no longer than it. -/
def Reconstructs (req : HttpRequest) (loc : Location) (path info : Bytes) : Prop :=
  ∃ name, (CgiExecutor.construct req loc path).metaVars[bytes "SCRIPT_NAME"]? = some (some name) ∧
    name ++ info = req.uri ∧ subSize req.uri.length info.length = req.uri.length - info.length

theorem construct_scriptName {info : Bytes}
    (hinfo : createPathInfo path loc.cgiAllowedExtensions = some info) :
    (CgiExecutor.construct req loc path).metaVars[bytes "SCRIPT_NAME"]? =
      some (some (req.uri.take (subSize req.uri.length info.length))) := by
  rw [CgiExecutor.construct, (initializeMetaVars_getElem? req loc _).2.2.2, hinfo]

theorem reconstructs_iff_suffix {info : Bytes} (hlen : req.uri.length < sizeMod)
    (hinfo : createPathInfo path loc.cgiAllowedExtensions = some info) :
    Reconstructs req loc path info ↔ info <:+ req.uri := by
  rw [Reconstructs, construct_scriptName hinfo]
  constructor
  · rintro ⟨name, -, huri, -⟩
    exact ⟨name, huri⟩
  · rintro ⟨name, huri⟩
    have hle : info.length ≤ req.uri.length := by
      rw [← huri, List.length_append]
      exact Nat.le_add_left _ _
    have hsub := subSize_of_le hle hlen
    refine ⟨_, rfl, ?_, hsub⟩
    have hname : req.uri.length - info.length = name.length := by
      rw [← huri, List.length_append, Nat.add_sub_cancel]
    rw [hsub, hname]
    nth_rewrite 1 [← huri]
    rw [List.take_left, huri]

/-! ### What comes through -/

/-- The number of names that stand in a path behind the place `cut`. -/
def namesBehind (path : Bytes) (cut : Nat) : Nat :=
  (splitPathSegments path).length - (splitPathSegments (path.take cut)).length

/-- The last `d` pieces of the URI come through: each is a name, and no slash is left
behind them; the index file leaves them in their place; and where they begin in front of
the rest, the end of the root spells the end of the location's name. -/
structure ComesThrough (sys : Sys) (req : HttpRequest) (m : LocationMatch) (d : Nat) : Prop where
  names : ∀ s ∈ (uriPieces req.uri).rtake d, s ≠ [] ∧ s ≠ dot ∧ s ≠ dotdot
  slash : directoryIndex sys req m = [] → restPieces req.uri m.loc ≠ []
  index : d ≤ (restPieces req.uri m.loc).length →
    (resolve dot dotdot (splitPathSegments (m.loc.root ++ m.remainder) ++
        directoryIndex sys req m)).rtake d =
      (resolve dot dotdot (splitPathSegments (m.loc.root ++ m.remainder))).rtake d
  root : (restPieces req.uri m.loc).length < d →
    (resolve dot dotdot (splitPathSegments m.loc.root ++ restPieces req.uri m.loc ++
        directoryIndex sys req m)).rtake d =
      (namePieces m.loc ++ restPieces req.uri m.loc).rtake d

/-- What has been resolved ends as the pieces do exactly if the last ones come through. -/
theorem rtake_resolve_iff {start name rest index : List Bytes} {d : Nat}
    (hproper : ∀ s ∈ resolve dot dotdot (start ++ rest.filter (· ≠ []) ++ index), s ≠ []) :
    (resolve dot dotdot (start ++ rest.filter (· ≠ []) ++ index)).rtake d =
        (name ++ rest).rtake d ↔
      (∀ s ∈ (name ++ rest).rtake d, s ≠ [] ∧ s ≠ dot ∧ s ≠ dotdot) ∧
      (d ≤ rest.length →
        (resolve dot dotdot (start ++ rest.filter (· ≠ []) ++ index)).rtake d =
          (resolve dot dotdot (start ++ rest.filter (· ≠ []))).rtake d) ∧
      (rest.length < d →
        (resolve dot dotdot (start ++ rest ++ index)).rtake d = (name ++ rest).rtake d) := by
  have hend : d ≤ rest.length → (name ++ rest).rtake d = rest.rtake d := by
    intro hd
    rw [List.rtake, List.length_append, Nat.add_sub_assoc hd, List.drop_length_add_append,
      List.rtake]
  -- behind the name, the pieces stand at the end of what they are resolved to
  have hrest : d ≤ rest.length →
      (∀ s ∈ (name ++ rest).rtake d, s ≠ [] ∧ s ≠ dot ∧ s ≠ dotdot) →
      (resolve dot dotdot (start ++ rest.filter (· ≠ []))).rtake d = (name ++ rest).rtake d := by
    intro hd hnames
    rw [hend hd] at hnames ⊢
    exact rtake_resolve_filter hd hnames start
  -- if they begin in front of it, none of the rest is empty
  have hroot : rest.length < d →
      (∀ s ∈ (name ++ rest).rtake d, s ≠ [] ∧ s ≠ dot ∧ s ≠ dotdot) →
      rest.filter (· ≠ []) = rest := by
    intro hd hnames
    refine List.filter_eq_self.mpr fun s hs => decide_eq_true (hnames s ?_).1
    rw [List.rtake, List.length_append, List.drop_append_of_le_length (by omega)]
    exact List.mem_append_right _ hs
  constructor
  · intro h
    have hnames : ∀ s ∈ (name ++ rest).rtake d, s ≠ [] ∧ s ≠ dot ∧ s ≠ dotdot := by
      intro s hs
      rw [← h] at hs
      have hmem := List.mem_of_mem_drop hs
      exact ⟨hproper s hmem, (mem_resolve hmem).2⟩
    refine ⟨hnames, fun hd => h.trans (hrest hd hnames).symm, fun hd => ?_⟩
    rw [hroot hd hnames] at h
    exact h
  · rintro ⟨hnames, hindex, hname⟩
    rcases Nat.lt_or_ge rest.length d with hd | hd
    · rw [hroot hd hnames]
      exact hname hd
    · exact (hindex hd).trans (hrest hd hnames)

/-! ### Where the path is cut -/

theorem UriAccepted.length_lt {uri : Bytes} (h : UriAccepted uri) : uri.length < sizeMod := by
  obtain ⟨p, rest, r, r', hrun, rfl⟩ := h
  obtain ⟨t, hshort, -, rfl⟩ := consumeUri_isTarget hrun
  rw [Target.length_text] at hshort
  have hmax : kMaxUriSize - 1 < sizeMod := by decide
  exact lt_of_le_of_lt ((Nat.le_add_right _ _).trans hshort) hmax

/-- What stands behind the chosen extension. -/
theorem IsChosen.cut {extensions : List Bytes} {ext : Bytes} {pos : Nat}
    (h : IsChosen extensions path ext pos) :
    0 < pos + ext.length ∧ pos + ext.length ≤ path.length ∧
      (path.drop (pos + ext.length) = [] ∨ (path.drop (pos + ext.length)).head? = some SLASH) := by
  obtain ⟨⟨hne, hat, -⟩, -⟩ := h
  obtain ⟨stem, info, rfl, rfl⟩ := hat.cut hne
  have hpos : 0 < ext.length := List.length_pos_of_ne_nil hne
  have hdrop : (stem ++ ext ++ info).drop (stem.length + ext.length) = info := by
    rw [← List.length_append, List.drop_left]
  refine ⟨Nat.add_pos_right _ hpos, ?_, ?_⟩
  · rw [List.length_append, List.length_append]
    exact Nat.le_add_right _ _
  · rw [hdrop]
    exact ((scriptAt_append stem ext info).mp hat).1

theorem suffix_iff_rtake {segs all : List Bytes} {d : Nat} (h : d ≤ all.length) :
    all.rtake d <:+ segs ↔ all.rtake d = segs.rtake d := by
  have hlen : (all.rtake d).length = d := by
    rw [List.rtake, List.length_drop]
    exact Nat.sub_sub_self h
  rw [List.suffix_iff_eq_drop, hlen]
  rfl

/-- What follows a cut of a path of segments ends the URI if its names do. -/
theorem suffix_uri_iff {segs : List Bytes} {uri exe info : Bytes}
    (hsegs : ∀ s ∈ segs, IsSegment SLASH s) (hjoin : join SLASH segs = exe ++ info)
    (hinfo : info = [] ∨ info.head? = some SLASH) :
    info <:+ uri ↔ segs.rtake (segs.length - (splitPathSegments exe).length) =
      (uriPieces uri).rtake (segs.length - (splitPathSegments exe).length) := by
  have hnames : ∀ s ∈ (pieces SLASH info).tail, SLASH ∉ s :=
    fun s hs => notMem_of_mem_pieces (List.mem_of_mem_tail hs)
  have hsuffix := join_suffix_iff hnames uri
  rw [join_tail_pieces hinfo, tail_pieces_eq_rtake hsegs hjoin hinfo] at hsuffix
  rw [hsuffix]
  exact suffix_iff_rtake (Nat.sub_le _ _)

/-- A rest that ends with a slash does not end the URI. -/
theorem not_suffix_of_endsWithSlash {uri info : Bytes} (hlast : endsWithSlash uri = false)
    (hne : info ≠ []) (hinfo : endsWithSlash info = true) : ¬ info <:+ uri := by
  rintro ⟨t, rfl⟩
  rw [endsWithSlash, List.getLast?_append_of_ne_nil _ hne, ← endsWithSlash, hinfo] at hlast
  cases hlast

theorem endsWithSlash_canonicalPath (segs : List Bytes) :
    endsWithSlash (canonicalPath segs true) = true := by
  by_cases hnil : segs = []
  · rw [hnil]
    rfl
  · rw [canonicalPath, if_neg hnil, if_pos rfl, endsWithSlash, List.getLast?_concat]
    rfl

theorem endsWithSlash_drop {n : Nat} (hn : n < path.length) :
    endsWithSlash (path.drop n) = endsWithSlash path := by
  have hne : path.drop n ≠ [] := fun hnil => hn.not_ge (List.drop_eq_nil_iff.mp hnil)
  nth_rewrite 2 [← List.take_append_drop n path]
  rw [endsWithSlash, endsWithSlash, List.getLast?_append_of_ne_nil _ hne]

/-- **What comes through**, for a path without a slash at its end. -/
theorem comesThrough_iff {m : LocationMatch} {d : Nat} (huri : req.uri.head? = some SLASH)
    (hm : Matches req.uri m.loc) (hkey : m.loc.key.head? = some SLASH)
    (hrem : m.remainder = remainderOf (trimTrailingSlashExceptRoot req.uri) m.loc.key)
    (hslash : directoryIndex sys req m = [] → restPieces req.uri m.loc ≠ [])
    (hproper : ∀ s ∈ resolve dot dotdot (splitPathSegments (m.loc.root ++ m.remainder) ++
      directoryIndex sys req m), s ≠ []) :
    (resolve dot dotdot (splitPathSegments (m.loc.root ++ m.remainder) ++
        directoryIndex sys req m)).rtake d = (uriPieces req.uri).rtake d ↔
      ComesThrough sys req m d := by
  have hsplit : splitPathSegments (m.loc.root ++ m.remainder) =
      splitPathSegments m.loc.root ++ (restPieces req.uri m.loc).filter (· ≠ []) := by
    obtain ⟨t, ht⟩ := List.head?_eq_some_iff.mp (remainderOf_spec huri hm).1
    rw [filter_restPieces huri hm hkey, hrem, ht]
    simp only [splitPathSegments, split_append_sep, split_sep]
  have huriPieces := uriPieces_eq huri hm
  rw [hsplit] at hproper ⊢
  rw [huriPieces, rtake_resolve_iff hproper]
  constructor
  · rintro ⟨hnames, hindex, hroot⟩
    refine ⟨?_, hslash, ?_, hroot⟩
    · rw [huriPieces]
      exact hnames
    · rw [hsplit]
      exact hindex
  · intro h
    refine ⟨?_, ?_, h.root⟩
    · rw [← huriPieces]
      exact h.names
    · rw [← hsplit]
      exact h.index

/-- **`SCRIPT_NAME` and `PATH_INFO` give the URI back** exactly if nothing stands behind the
script, or as many pieces of the URI come through as there are names behind it. -/
theorem reconstructs_iff (hconf : LocationsParsed conf) (huri : UriAccepted req.uri)
    (h : handedOver sys conf req = some (loc, path)) {info : Bytes}
    (hinfo : (CgiExecutor.construct req loc path).metaVars[bytes "PATH_INFO"]? =
      some (some info)) :
    handleRequest sys conf req = (CgiExecutor.construct req loc path).run sys ∧
      ∃ m ext pos, conf.findLocationForUri req.uri = .ok m ∧ m.loc = loc ∧
        splitPathSegments path = resolve dot dotdot
          (splitPathSegments (loc.root ++ m.remainder) ++ directoryIndex sys req m) ∧
        IsChosen loc.cgiAllowedExtensions path ext pos ∧
        (Reconstructs req loc path info ↔ pos + ext.length = path.length ∨
          ComesThrough sys req m (namesBehind path (pos + ext.length))) := by
  rw [construct_pathInfo, Option.some.injEq] at hinfo
  obtain ⟨m, hmatch, rfl, hpath, hlast, hindex⟩ := handedOver_path hconf huri h
  obtain ⟨-, hnone⟩ | ⟨ext, pos, hchosen, hcut⟩ :=
    createPathInfo_chosen path m.loc.cgiAllowedExtensions
  · rw [hnone] at hinfo
    cases hinfo
  rw [hinfo, Option.some.injEq] at hcut
  obtain ⟨hpos, hle, hhead⟩ := hchosen.cut
  have hsegs : ∀ s ∈ resolve dot dotdot (splitPathSegments (m.loc.root ++ m.remainder) ++
      directoryIndex sys req m), IsSegment SLASH s := by
    intro s hs
    obtain hs | hs := List.mem_append.mp (mem_resolve hs).1
    · exact isSegment_of_mem_split hs
    · exact hindex s hs
  have hsplit : splitPathSegments path = resolve dot dotdot
      (splitPathSegments (m.loc.root ++ m.remainder) ++ directoryIndex sys req m) := by
    nth_rewrite 1 [hpath]
    exact splitPathSegments_canonicalPath hsegs _
  refine ⟨handleRequest_handedOver h, m, ext, pos, hmatch, rfl, hsplit, hchosen, ?_⟩
  -- from here on: when the names behind the extension end the URI
  rw [reconstructs_iff_suffix huri.length_lt hinfo]
  by_cases hend : pos + ext.length = path.length
  · rw [hend, List.drop_length] at hcut
    rw [hcut]
    exact iff_of_true List.nil_suffix (.inl hend)
  rw [or_iff_right hend]
  have hlt : pos + ext.length < path.length := lt_of_le_of_ne hle hend
  have hpos' : ∀ loc ∈ conf.locations, 0 < loc.key.length := by
    intro loc hloc
    exact key_length_pos (hconf.names.1 loc hloc).valid
  obtain ⟨hmem, hm, hrem⟩ := findLocationForUri_matches hpos' hmatch
  have hslash := endsWithSlash_remainderOf huri.visible.1 hm
  rw [← hrem] at hslash
  by_cases hclosed : directoryIndex sys req m = [] ∧ endsWithSlash m.remainder = true
  · -- a slash is left at the end of the path, and the URI has none
    obtain ⟨hno, hremSlash⟩ := hclosed
    rw [hno, hremSlash, decide_eq_true rfl, Bool.true_and] at hpath
    refine iff_of_false ?_ fun hthrough => hthrough.slash hno ((hslash (hlast hno)).mp hremSlash)
    refine not_suffix_of_endsWithSlash (hlast hno) ?_ ?_
    · rw [hcut]
      exact fun hnil => hlt.not_ge (List.drop_eq_nil_iff.mp hnil)
    · rw [hcut, endsWithSlash_drop hlt, hpath]
      exact endsWithSlash_canonicalPath _
  · have hopen : (decide (directoryIndex sys req m = []) && endsWithSlash m.remainder) = false := by
      rw [← Bool.not_eq_true, Bool.and_eq_true, decide_eq_true_iff]
      exact hclosed
    have hjoin : join SLASH (resolve dot dotdot (splitPathSegments (m.loc.root ++ m.remainder) ++
        directoryIndex sys req m)) = path.take (pos + ext.length) ++ info := by
      rw [hcut, List.take_append_drop]
      rw [hopen, canonicalPath] at hpath
      by_cases hnil : resolve dot dotdot (splitPathSegments (m.loc.root ++ m.remainder) ++
          directoryIndex sys req m) = []
      · -- the path is the root, and nothing stands behind it
        rw [if_pos hnil] at hpath
        rw [hpath] at hlt
        exact absurd hlt (Nat.not_lt_of_ge hpos)
      · rw [if_neg hnil, if_neg Bool.false_ne_true, List.append_nil] at hpath
        exact hpath.symm
    rw [suffix_uri_iff hsegs hjoin (hcut ▸ hhead), namesBehind, hsplit]
    refine comesThrough_iff huri.visible.1 hm ?_ hrem ?_ fun s hs => (hsegs s hs).1
    · exact key_head (hconf.names.1 m.loc hmem)
    · exact fun hno hrest => hclosed ⟨hno, (hslash (hlast hno)).mpr hrest⟩

/-- `GET` of this URI. -/
def getRequest (uri : Bytes) : HttpRequest := { method := .kGet, uri := uri }

/-- What is read from `location /app { root /srv; cgi on; cgi_allowed_extensions .py; }`. -/
def srvLocation : Location where
  name := bytes "/app"
  root := bytes "/srv"
  cgiEnabled := true
  cgiAllowedExtensions := [bytes ".py"]
  hasRoot := true
  hasCgiEnabled := true
  hasCgiAllowedExtensions := true

theorem exists_srv : ∃ config, LocationsParsed config ∧ config.locations = [srvLocation] :=
  @exists_parsed (bytes "/app \x7b root /srv; cgi on; cgi_allowed_extensions .py; \x7d")
    [srvLocation] (by decide +kernel)

/-- The path of a `GET` in this location. -/
theorem handedOver_srv {config : ServerConfig} {uri rest path : Bytes}
    (hlocs : config.locations = [srvLocation])
    (hmatch : ({ locations := [srvLocation] } : ServerConfig).findLocationForUri uri =
      .ok ⟨srvLocation, rest⟩)
    (hpath : resolveFilesystemPath ⟨srvLocation, rest⟩ = .ok path)
    (hindex : appendIndexFileIfDirectoryOrThrow sampleSys (getRequest uri) srvLocation path =
      .ok path) :
    config.findLocationForUri uri = .ok ⟨srvLocation, rest⟩ ∧
      handedOver sampleSys config (getRequest uri) = some (srvLocation, path) := by
  have hfind : config.findLocationForUri uri = .ok ⟨srvLocation, rest⟩ := by
    rw [← hmatch, findLocationForUri_eq, findLocationForUri_eq, hlocs]
  have hroute : prepareRoutingContext config (getRequest uri) = .ok (⟨srvLocation, rest⟩, path) := by
    rw [prepareRoutingContext]
    show (config.findLocationForUri uri >>= _) = _
    rw [hfind]
    show (resolveFilesystemPath ⟨srvLocation, rest⟩ >>= _) = _
    rw [hpath]
    rfl
  refine ⟨hfind, ?_⟩
  rw [handedOver, hroute]
  dsimp only
  rw [hindex]
  rfl

/-- `/app/a.py/x`: the name is `/app/a.py`. -/
theorem reconstructs_iff_python :
    Reconstructs (getRequest (bytes "/app/a.py/x")) srvLocation (bytes "/srv/a.py/x")
      (bytes "/x") := by
  obtain ⟨config, hconfig, hlocs⟩ := exists_srv
  obtain ⟨hfind, hover⟩ := @handedOver_srv config (bytes "/app/a.py/x") (bytes "/a.py/x")
    (bytes "/srv/a.py/x") hlocs (by decide +kernel) (by decide +kernel) (by decide +kernel)
  obtain ⟨-, m, ext, pos, hmatch, -, -, hchosen, hiff⟩ := @reconstructs_iff sampleSys config
    (getRequest (bytes "/app/a.py/x")) srvLocation (bytes "/srv/a.py/x") hconfig
    (@uriAccepted_of_run (bytes "/app/a.py/x") (bytes "/app/a.py/x ") (by decide +kernel)) hover
    (bytes "/x") (by decide +kernel)
  have hm : m = ⟨srvLocation, bytes "/a.py/x"⟩ := Except.ok.inj (hmatch.symm.trans hfind)
  have hpython : IsChosen srvLocation.cgiAllowedExtensions (bytes "/srv/a.py/x") (bytes ".py") 6 :=
    ⟨(scriptPos_eq_some (by decide)).mp (by decide +kernel), [], [], rfl,
      fun e he => absurd he List.not_mem_nil, fun e he => absurd he List.not_mem_nil⟩
  obtain ⟨rfl, rfl⟩ := hchosen.unique hpython
  rw [hiff, hm]
  exact .inr ⟨by decide +kernel, by decide +kernel, fun _ => by decide +kernel,
    fun hlt => absurd hlt (by decide +kernel)⟩

/-- `/app/a.py/x//y`: the name is `/app/a.py/`. -/
theorem reconstructs_fails :
    ¬ ∀ (sys : Sys) (conf : ServerConfig) (req : HttpRequest) (loc : Location) (path info : Bytes),
      LocationsParsed conf → UriAccepted req.uri → handedOver sys conf req = some (loc, path) →
        (CgiExecutor.construct req loc path).metaVars[bytes "PATH_INFO"]? = some (some info) →
          Reconstructs req loc path info := by
  intro h
  obtain ⟨config, hconfig, hlocs⟩ := exists_srv
  obtain ⟨-, hover⟩ := @handedOver_srv config (bytes "/app/a.py/x//y") (bytes "/a.py/x//y")
    (bytes "/srv/a.py/x/y") hlocs (by decide +kernel) (by decide +kernel) (by decide +kernel)
  obtain ⟨name, hname, huri, -⟩ := h sampleSys config (getRequest (bytes "/app/a.py/x//y"))
    srvLocation (bytes "/srv/a.py/x/y") (bytes "/x/y") hconfig
    (@uriAccepted_of_run (bytes "/app/a.py/x//y") (bytes "/app/a.py/x//y ") (by decide +kernel))
    hover (by decide +kernel)
  have hcut : (CgiExecutor.construct (getRequest (bytes "/app/a.py/x//y")) srvLocation
      (bytes "/srv/a.py/x/y")).metaVars[bytes "SCRIPT_NAME"]? = some (some (bytes "/app/a.py/")) := by
    decide +kernel
  rw [hcut] at hname
  obtain rfl := Option.some.inj (Option.some.inj hname)
  exact absurd huri (by decide +kernel)

end Webserv
