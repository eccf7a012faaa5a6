/-
Webserv/Serving.lean

Which configured roots and index files are served.

`ParseRoot` keeps an absolute root as it is written, and `IsPathUnderDocumentRoot`
compares that text with a path that has been normalised.  For a root in canonical form
the comparison succeeds for every URI without dot segments: the path is the root
followed by what the URI has behind the name of the location.
-/
import Webserv.Respelling
import Webserv.RequestHandler
import Webserv.HttpRequest.Target

namespace Webserv

open Segments

/-! ### Paths without dot segments -/

/-- Below a canonical root, a path without dot segments is returned with its segments. -/
theorem validateAndNormalizePath_names {path root : Bytes} (hroot : CanonicalRoot root)
    (hhead : path.head? = some SLASH) (hsafe : ∀ c ∈ path, isValidHeaderChar c = true)
    (hnames : ∀ s ∈ splitPathSegments path, s ≠ dot ∧ s ≠ dotdot)
    (hbelow : splitPathSegments root <+: splitPathSegments path) :
    validateAndNormalizePath path root =
      .ok (canonicalPath (splitPathSegments path) (endsWithSlash path)) := by
  obtain ⟨hstays, hresolve⟩ := resolve_names hnames
  rw [validateAndNormalizePath_confines.2 path root hroot, hresolve]
  exact ⟨hhead, hsafe, hstays, hbelow, rfl⟩

theorem split_canonicalPath_split (path : Bytes) (slash : Bool) :
    splitPathSegments (canonicalPath (splitPathSegments path) slash) = splitPathSegments path :=
  splitPathSegments_canonicalPath (fun _ hs => isSegment_of_mem_split hs) slash

/-! ### What a URI has behind a name -/

theorem mem_trim {uri : Bytes} {c : Byte} (h : c ∈ trimTrailingSlashExceptRoot uri) : c ∈ uri := by
  cases uri with
  | nil => exact h
  | cons d ds =>
      obtain rfl | h := List.mem_cons.mp h
      · exact List.mem_cons_self
      · exact List.mem_cons_of_mem _ ((List.rdropWhile_prefix _ ds).subset h)

theorem mem_remainderOf {uriKey bestKey : Bytes} {c : Byte} (h : c ∈ remainderOf uriKey bestKey) :
    c = SLASH ∨ c ∈ uriKey := by
  have hdrop : ∀ {c}, c ∈ uriKey.drop bestKey.length → c ∈ uriKey := List.mem_of_mem_drop
  rw [remainderOf] at h
  dsimp only at h
  split_ifs at h with hlen hnil hhead hhead
  · exact .inl (List.mem_singleton.mp h)
  · exact .inl ((List.mem_cons.mp h).elim id List.mem_singleton.mp)
  · exact .inl (List.mem_singleton.mp h)
  · exact (List.mem_cons.mp h).imp_right hdrop
  · exact .inr (hdrop h)

/-- A match is of a location of the configuration. -/
theorem findLocationForUri_matches {config : ServerConfig} {uri : Bytes} {m : LocationMatch}
    (hpos : ∀ loc ∈ config.locations, 0 < loc.key.length)
    (h : config.findLocationForUri uri = .ok m) :
    m.loc ∈ config.locations ∧ Matches uri m.loc ∧
      m.remainder = remainderOf (trimTrailingSlashExceptRoot uri) m.loc.key := by
  rw [findLocationForUri_eq] at h
  rcases hbest : ServerConfig.findBest (trimTrailingSlashExceptRoot uri) config.locations none 0 with
    - | loc
  · rw [hbest] at h
    cases h
  · rw [hbest] at h
    cases h
    obtain ⟨hmem, hmatch, -⟩ := findBest_isLongest hpos hbest
    exact ⟨hmem, hmatch, rfl⟩

/-- **What is matched** is a location of the configuration and the rest of the URI. -/
theorem findLocationForUri_eq_ok {config : ServerConfig} {uri : Bytes} {m : LocationMatch}
    (hpos : ∀ loc ∈ config.locations, 0 < loc.key.length) (huri : uri.head? = some SLASH)
    (h : config.findLocationForUri uri = .ok m) :
    m.loc ∈ config.locations ∧ m.remainder.head? = some SLASH ∧
      (∀ s ∈ splitPathSegments m.remainder, s ∈ splitPathSegments uri) ∧
      ∀ c ∈ m.remainder, c = SLASH ∨ c ∈ uri := by
  obtain ⟨hmem, hmatch, hrem⟩ := findLocationForUri_matches hpos h
  obtain ⟨hhead, hsplit⟩ := remainderOf_spec huri hmatch
  rw [split_trim huri, ← hrem] at hsplit
  rw [← hrem] at hhead
  refine ⟨hmem, hhead, ?_, ?_⟩
  · intro s hs
    rw [hsplit]
    exact List.mem_append_right _ hs
  · intro c hc
    rw [hrem] at hc
    exact (mem_remainderOf hc).imp_right mem_trim

/-! ### Index files -/

theorem isSafeIndexFilename_spec {name : Bytes} (h : isSafeIndexFilename name = true) :
    IsSegment SLASH name ∧ ∀ c ∈ name, isValidHeaderChar c = true := by
  rw [isSafeIndexFilename] at h
  split_ifs at h with hnil hup hslash
  have hslash : SLASH ∉ name := by simpa using hslash
  refine ⟨⟨hnil, hslash⟩, fun c hc => ?_⟩
  have hchar := List.all_eq_true.mp h c hc
  rw [Bool.and_eq_true] at hchar
  exact isValidHeaderChar_of_visible hchar.1

/-- With or without its slash, a directory is followed by one. -/
theorem directory_slash (base : Bytes) : ∃ dir,
    (if endsWithSlash base then base else base ++ [SLASH]) = dir ++ [SLASH] ∧
      splitPathSegments dir = splitPathSegments base := by
  by_cases hslash : endsWithSlash base = true
  · rw [if_pos hslash]
    obtain ⟨dir, rfl⟩ := List.getLast?_eq_some_iff.mp (beq_iff_eq.mp hslash)
    exact ⟨dir, rfl, (split_append_slashes dir 1).symm⟩
  · rw [if_neg hslash]
    exact ⟨base, rfl, rfl⟩

/-- The path of the index file, in a directory below a canonical root. -/
theorem validateAndNormalizePath_index {base root index : Bytes} (hroot : CanonicalRoot root)
    (hbase : Normalized base) (hbelow : splitPathSegments root <+: splitPathSegments base)
    (hindex : isSafeIndexFilename index = true) (hname : index ≠ dot ∧ index ≠ dotdot) :
    ∃ q, validateAndNormalizePath
        ((if endsWithSlash base then base else base ++ [SLASH]) ++ index) root = .ok q ∧
      splitPathSegments q = splitPathSegments base ++ [index] := by
  obtain ⟨hsegment, hsafe⟩ := isSafeIndexFilename_spec hindex
  -- with one slash in between, whether the path had one or not
  obtain ⟨dir, hdir, hsplit⟩ := directory_slash base
  have hpath : splitPathSegments (dir ++ [SLASH] ++ index) = splitPathSegments base ++ [index] := by
    rw [List.append_assoc, List.singleton_append, splitPathSegments, split_append_sep,
      split_segment hsegment, ← hsplit, splitPathSegments]
  have hchars : ∀ c ∈ dir ++ [SLASH], c ∈ base ∨ c = SLASH := by
    intro c hc
    rw [← hdir] at hc
    split_ifs at hc
    · exact .inl hc
    · exact (List.mem_append.mp hc).imp_right List.mem_singleton.mp
  have hhead : (dir ++ [SLASH] ++ index).head? = some SLASH := by
    obtain ⟨cs, hcs⟩ := List.head?_eq_some_iff.mp hbase.absolute
    rw [← hdir, hcs]
    split_ifs
    · rfl
    · rfl
  rw [hdir]
  refine ⟨_, validateAndNormalizePath_names hroot hhead ?_ ?_ ?_, ?_⟩
  · intro c hc
    obtain hc | hc := List.mem_append.mp hc
    · obtain hc | rfl := hchars c hc
      · exact hbase.printable c hc
      · decide
    · exact hsafe c hc
  · intro s hs
    rw [hpath] at hs
    obtain hs | hs := List.mem_append.mp hs
    · exact hbase.no_dots s hs
    · rw [List.mem_singleton.mp hs]
      exact hname
  · rw [hpath]
    exact hbelow.trans (List.prefix_append _ _)
  · rw [split_canonicalPath_split, hpath]

/-! ### Serving -/

/-- The path of a request below the root of its location. -/
theorem resolveFilesystemPath_below {m : LocationMatch} (hroot : CanonicalRoot m.loc.root)
    (hsafe : ∀ c ∈ m.loc.root, isValidHeaderChar c = true) (hredirect : m.loc.hasRedirect = false)
    (hhead : m.remainder.head? = some SLASH)
    (hnames : ∀ s ∈ splitPathSegments m.remainder, s ≠ dot ∧ s ≠ dotdot)
    (hchars : ∀ c ∈ m.remainder, isValidHeaderChar c = true) :
    ∃ p, resolveFilesystemPath m = .ok p ∧
      splitPathSegments p = splitPathSegments m.loc.root ++ splitPathSegments m.remainder := by
  obtain ⟨rest, hrest⟩ := List.head?_eq_some_iff.mp hhead
  have hsplit : splitPathSegments (m.loc.root ++ m.remainder) =
      splitPathSegments m.loc.root ++ splitPathSegments m.remainder := by
    rw [hrest]
    simp only [splitPathSegments, split_append_sep, split_sep]
  have habsolute : (m.loc.root ++ m.remainder).head? = some SLASH := by
    obtain ⟨cs, hcs⟩ := List.head?_eq_some_iff.mp hroot.absolute
    rw [hcs]
    rfl
  rw [resolveFilesystemPath, hredirect, if_neg (by decide)]
  refine ⟨_, validateAndNormalizePath_names hroot habsolute ?_ ?_ ?_, ?_⟩
  · intro c hc
    obtain hc | hc := List.mem_append.mp hc
    · exact hsafe c hc
    · exact hchars c hc
  · intro s hs
    rw [hsplit] at hs
    obtain hs | hs := List.mem_append.mp hs
    · exact hroot.no_dots s hs
    · exact hnames s hs
  · rw [hsplit]
    exact List.prefix_append _ _
  · rw [split_canonicalPath_split, hsplit]

theorem UriAccepted.visible {uri : Bytes} (h : UriAccepted uri) :
    uri.head? = some SLASH ∧ ∀ c ∈ uri, isVisibleAscii c = true := by
  obtain ⟨req, rest, r, r', hrun, rfl⟩ := h
  obtain ⟨t, -, -, rfl⟩ := consumeUri_isTarget hrun
  exact ⟨t.path_absolute, fun c hc => (t.path_char c hc).1⟩

/-- **Serving.**  A location that redirects names no file.  Below a root in canonical form the
path of a URI without dot segments is the root followed by the rest of the URI, and the index
file of a directory is in it. -/
theorem resolveFilesystemPath_serves {config : ServerConfig} {req : HttpRequest} {m : LocationMatch}
    (hconfig : LocationsParsed config) (huri : UriAccepted req.uri)
    (hnames : ∀ s ∈ splitPathSegments req.uri, s ≠ dot ∧ s ≠ dotdot)
    (hmatch : config.findLocationForUri req.uri = .ok m) (hroot : m.loc.hasRoot = true) :
    (m.loc.hasRedirect = true → resolveFilesystemPath m = .ok []) ∧
      (m.loc.hasRedirect = false → CanonicalRoot m.loc.root →
        ∃ p, resolveFilesystemPath m = .ok p ∧
          splitPathSegments p = resolve dot dotdot (splitPathSegments m.loc.root) ++
            splitPathSegments m.remainder ∧
          (m.loc.hasIndexDirective = true → m.loc.indexFile ≠ dot ∧ m.loc.indexFile ≠ dotdot →
            endsWithSlash req.uri = true → ∀ sys, ∃ q,
              appendIndexFileIfDirectoryOrThrow sys req m.loc p = .ok q ∧
              splitPathSegments q = splitPathSegments p ++ [m.loc.indexFile])) := by
  obtain ⟨hslash, hvisible⟩ := huri.visible
  have hpos : ∀ loc ∈ config.locations, 0 < loc.key.length := by
    intro loc hloc
    exact key_length_pos (hconfig.names.1 loc hloc).valid
  obtain ⟨hmem, hhead, hsegs, hchars⟩ := findLocationForUri_eq_ok hpos hslash hmatch
  obtain ⟨cwd, name, hchecked, -⟩ := hconfig.mem m.loc hmem
  constructor
  · intro hredirect
    rw [resolveFilesystemPath, hredirect]
    rfl
  · intro hredirect hcanonical
    have hsafe : ∀ c ∈ m.loc.root, isValidHeaderChar c = true := by
      obtain ⟨token, -, hsafe⟩ := hchecked.root hroot
      rw [requireAbsoluteSafePathOrThrow] at hsafe
      split_ifs at hsafe with habsolute hunsafe
      simpa using hunsafe
    -- what is left of the URI is made of its own characters, and a slash at most
    have hremainder : ∀ c ∈ m.remainder, isValidHeaderChar c = true := by
      intro c hc
      obtain rfl | hc := hchars c hc
      · decide
      · exact isValidHeaderChar_of_visible (hvisible c hc)
    obtain ⟨p, hp, hsplit⟩ := resolveFilesystemPath_below hcanonical hsafe hredirect hhead
      (fun s hs => hnames s (hsegs s hs)) hremainder
    rw [(resolve_names hcanonical.no_dots).2]
    refine ⟨p, hp, hsplit, fun hindex hname hdirectory sys => ?_⟩
    have hsafename := hchecked.index.resolve_left fun hno => by
      rw [hindex] at hno
      cases hno.1
    obtain ⟨hsegment, -⟩ := isSafeIndexFilename_spec hsafename
    have hvalid : validateAndNormalizePath (m.loc.root ++ m.remainder) m.loc.root = .ok p := by
      rw [resolveFilesystemPath, hredirect, if_neg (by decide)] at hp
      exact hp
    obtain ⟨hnormal, hbelow⟩ := validateAndNormalizePath_confines.1 _ _ _ hvalid
    rw [appendIndexFileIfDirectoryOrThrow, hdirectory, Bool.true_or, if_pos rfl, if_neg hsegment.1]
    exact validateAndNormalizePath_index hcanonical hnormal hbelow hsafename hname

theorem exists_parsed {content : Bytes} {locs : List Location}
    (h : ((parseLocation none {}).run' { content := content }).map ServerConfig.locations = some locs) :
    ∃ config, LocationsParsed config ∧ config.locations = locs := by
  rcases hrun : (parseLocation none {}).run { content := content } with ⟨config, q⟩ | ⟨e, q⟩
  · rw [EStateM.run', hrun] at h
    exact ⟨config, .parsed (.none rfl) hrun, Option.some.inj h⟩
  · rw [EStateM.run', hrun] at h
    cases h

theorem uriAccepted_of_run {uri req : Bytes}
    (h : ((consumeUri req).run {}).Returned fun r => r.uri = uri) : UriAccepted uri := by
  obtain ⟨rest, r, hrun, huri⟩ := h
  exact ⟨req, rest, {}, r, hrun, huri⟩

/-- What is read from `location / { root /www; index index.html; }`. -/
def wwwLocation : Location :=
  { root := bytes "/www", indexFile := bytes "index.html", hasRoot := true,
    hasIndexDirective := true }

/-- `/sub/` in the document root `/www`. -/
theorem resolveFilesystemPath_serves_www :
    ∃ p, resolveFilesystemPath ⟨wwwLocation, bytes "/sub"⟩ = .ok p ∧
      splitPathSegments p = resolve dot dotdot (splitPathSegments (bytes "/www")) ++
        splitPathSegments (bytes "/sub") ∧
      ∀ sys, ∃ q, appendIndexFileIfDirectoryOrThrow sys { uri := bytes "/sub/" } wwwLocation p =
          .ok q ∧ splitPathSegments q = splitPathSegments p ++ [bytes "index.html"] := by
  obtain ⟨config, hconfig, hlocs⟩ :=
    @exists_parsed (bytes "/ \x7b root /www; index index.html; \x7d") [wwwLocation] (by decide +kernel)
  have hmatch : config.findLocationForUri (bytes "/sub/") = .ok ⟨wwwLocation, bytes "/sub"⟩ := by
    rw [findLocationForUri_eq, hlocs]
    decide +kernel
  have huri : UriAccepted (bytes "/sub/") :=
    @uriAccepted_of_run (bytes "/sub/") (bytes "/sub/ ") (by decide +kernel)
  have hroot : CanonicalRoot wwwLocation.root :=
    ⟨by decide +kernel, by decide +kernel, by decide +kernel, by decide +kernel⟩
  obtain ⟨p, hp, hsplit, hindex⟩ := (@resolveFilesystemPath_serves config { uri := bytes "/sub/" } _
    hconfig huri (by decide +kernel) hmatch rfl).2 rfl hroot
  exact ⟨p, hp, hsplit, hindex rfl (by decide +kernel) (by decide +kernel)⟩

/-- The location `/` of a configuration with the root `/www` redirects. -/
theorem resolveFilesystemPath_serves_fails :
    ¬ ∀ (config : ServerConfig) (req : HttpRequest) (m : LocationMatch), LocationsParsed config →
      UriAccepted req.uri → (∀ s ∈ splitPathSegments req.uri, s ≠ dot ∧ s ≠ dotdot) →
      config.findLocationForUri req.uri = .ok m → m.loc.hasRoot = true →
      ∃ p, resolveFilesystemPath m = .ok p ∧
        splitPathSegments p = resolve dot dotdot (splitPathSegments m.loc.root) ++
          splitPathSegments m.remainder ∧
        (m.loc.hasIndexDirective = true → endsWithSlash req.uri = true → ∀ sys, ∃ q,
          appendIndexFileIfDirectoryOrThrow sys req m.loc p = .ok q ∧
          splitPathSegments q = splitPathSegments p ++ [m.loc.indexFile]) := by
  intro h
  obtain ⟨config, hconfig, hlocs⟩ := @exists_parsed
    (bytes "/ \x7b root /www; redirect /new; \x7d")
    [{ root := bytes "/www", redirect := bytes "/new", hasRoot := true, hasRedirect := true }]
    (by decide +kernel)
  have hmatch : config.findLocationForUri (bytes "/") = .ok
      ⟨{ root := bytes "/www", redirect := bytes "/new", hasRoot := true, hasRedirect := true },
        [SLASH]⟩ := by
    rw [findLocationForUri_eq, hlocs]
    decide +kernel
  have huri : UriAccepted (bytes "/") :=
    @uriAccepted_of_run (bytes "/") (bytes "/ ") (by decide +kernel)
  obtain ⟨p, hp, hsplit, -⟩ :=
    h config { uri := bytes "/" } _ hconfig huri (by decide +kernel) hmatch rfl
  cases hp
  exact absurd hsplit (by decide +kernel)

end Webserv
