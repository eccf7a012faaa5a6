/-
Webserv/Respelling.lean

How far the spelling of a URI decides its location.

The URI is compared with the names of the locations as it is, but for slashes at its
end.  A name has no empty segment, none with `..` and no white space, brace or
semicolon, so what counts are the leading segments of the URI up to the first one that
no name can have (`leadingSegments`).  Dots and empty segments are resolved later, on the
path in the file system; a URI with such segments may well be sent to another location
than the path it stands for.
-/
import Webserv.Routing
import Webserv.ConfigLocation

namespace Webserv

open Segments

/-! ### Names -/

/-- A segment that the name of a location can have. -/
def isNameSegment (s : Bytes) : Bool :=
  s != [] && (Substring.find dotdot s).isNone && s.all fun c => !isConfigSpace c && !isSpecialLetter c

/-- The segments of a URI up to the first one that no location name can have. -/
def leadingSegments (uri : Bytes) : List Bytes := (pieces SLASH (uri.drop 1)).takeWhile isNameSegment

/-- The key of a name with these segments. -/
def keyOf (segs : List Bytes) : Bytes := canonicalPath segs false

/-- Empty pieces at the end are not looked at. -/
theorem takeWhile_append_nils (l : List Bytes) (n : Nat) :
    (l ++ List.replicate n []).takeWhile isNameSegment = l.takeWhile isNameSegment := by
  induction l with
  | nil =>
      cases n with
      | zero => rfl
      | succ n => rfl
  | cons s l ih =>
      rw [List.cons_append, List.takeWhile_cons, List.takeWhile_cons, ih]

theorem pieces_append_slashes (s : Bytes) (n : Nat) :
    pieces SLASH (s ++ List.replicate n SLASH) = pieces SLASH s ++ List.replicate n [] := by
  induction n with
  | zero => rw [List.replicate_zero, List.append_nil, List.replicate_zero, List.append_nil]
  | succ n ih =>
      have hlast : s ++ List.replicate (n + 1) SLASH = (s ++ List.replicate n SLASH) ++ SLASH :: [] := by
        rw [List.replicate_succ', List.append_assoc]
      rw [hlast, pieces_append_sep, ih, List.replicate_succ', List.append_assoc]
      rfl

/-- Slashes at the end make no difference. -/
theorem leadingSegments_trim {uri : Bytes} (huri : uri.head? = some SLASH) :
    leadingSegments (trimTrailingSlashExceptRoot uri) = leadingSegments uri := by
  obtain ⟨cs, rfl⟩ := List.head?_eq_some_iff.mp huri
  obtain ⟨k, n, rfl, -, htrim⟩ := trim_cons cs
  rw [htrim, leadingSegments, leadingSegments]
  show (pieces SLASH k).takeWhile _ = (pieces SLASH (k ++ List.replicate n SLASH)).takeWhile _
  rw [pieces_append_slashes, takeWhile_append_nils]

theorem isSegment_of_isNameSegment {s : Bytes} {uri : Bytes} (h : s ∈ leadingSegments uri) :
    IsSegment SLASH s ∧ isNameSegment s = true := by
  have hname := List.mem_takeWhile_imp h
  have hpiece := (List.takeWhile_sublist _).subset h
  refine ⟨⟨?_, notMem_of_mem_pieces hpiece⟩, hname⟩
  rintro rfl
  cases hname

/-- **The key of a name** is made of its leading segments. -/
theorem key_eq {loc : Location} (h : IsLocationName loc.name) :
    loc.key = keyOf (leadingSegments loc.name) := by
  have hvalid := h.valid
  rw [isValidLocationName, Bool.and_eq_true, Bool.and_eq_true, beq_iff_eq] at hvalid
  obtain ⟨⟨hhead, hdots⟩, hslashes⟩ := hvalid
  rw [← leadingSegments_trim hhead]
  obtain ⟨cs, hcs⟩ := List.head?_eq_some_iff.mp hhead
  obtain ⟨k, n, hk, hlast, htrim⟩ := trim_cons cs
  rw [Location.key, hcs, htrim]
  rw [hcs, hk] at hslashes hdots
  rcases hnil : k with - | ⟨c, k'⟩
  · rfl
  · rw [← hnil]
    have hne : k ≠ [] := by
      rw [hnil]
      exact List.cons_ne_nil c k'
    -- the pieces of the name are its segments, and every one can be in a name
    have hempty : NoEmpty SLASH (SLASH :: k) := by
      intro hin
      rw [Option.isNone_iff_eq_none, Substring.find_eq_none_iff_infix (by decide)] at hslashes
      exact hslashes (hin.trans ⟨[], List.replicate n SLASH, by simp⟩)
    have hjoin := join_split hempty hne hlast
    have hsegs : ∀ s ∈ split SLASH k, IsSegment SLASH s := fun s hs => isSegment_of_mem_split hs
    have hall : ∀ s ∈ split SLASH k, isNameSegment s = true := by
      intro s hs
      rw [isNameSegment, Bool.and_eq_true, Bool.and_eq_true, bne_iff_ne, List.all_eq_true]
      refine ⟨⟨(hsegs s hs).1, ?_⟩, fun c hc => ?_⟩
      · rw [Option.isNone_iff_eq_none, Substring.find_eq_none_iff_infix (by decide)] at hdots ⊢
        exact fun hin => hdots ((hin.trans (infix_of_mem_split hs)).trans
          ⟨[SLASH], List.replicate n SLASH, by simp⟩)
      · have hmem : c ∈ loc.name := by
          rw [hcs, hk]
          exact List.mem_cons_of_mem _ (List.mem_append_left _ (mem_of_mem_split hs hc))
        have htoken := h.token c hmem
        rw [htoken.1, htoken.2]
        rfl
    have hpieces := pieces_of_join (fun s hs => (hsegs s hs).2) hjoin
    have hne' : split SLASH k ≠ [] := by
      intro hnil
      rw [hnil] at hjoin
      cases hjoin
    rw [leadingSegments, List.drop_one, List.tail_cons, hpieces, List.takeWhile_eq_self_iff.mpr hall,
      keyOf, canonicalPath, if_neg hne', hjoin]
    exact (List.append_nil _).symm

theorem join_ne_root {segs : List Bytes} (hne : segs ≠ []) (h : ∀ s ∈ segs, s ≠ []) :
    join SLASH segs ≠ [SLASH] := by
  obtain ⟨s, segs, rfl⟩ := List.exists_cons_of_ne_nil hne
  intro hjoin
  have hnil := (List.append_eq_nil_iff.mp (List.cons.inj hjoin).2).1
  exact h s List.mem_cons_self hnil

/-- **Matching is the prefix order on leading segments.** -/
theorem matches_iff {uri : Bytes} {loc : Location} (huri : uri.head? = some SLASH)
    (hname : IsLocationName loc.name) :
    Matches uri loc ↔ leadingSegments loc.name <+: leadingSegments uri := by
  rw [← leadingSegments_trim huri]
  obtain ⟨k, hk⟩ := List.head?_eq_some_iff.mp (trim_head huri)
  have hsegs : ∀ s ∈ leadingSegments loc.name, IsSegment SLASH s ∧ isNameSegment s = true :=
    fun s hs => isSegment_of_isNameSegment hs
  rw [Matches, key_eq hname, hk]
  generalize leadingSegments loc.name = segs at hsegs ⊢
  by_cases hne : segs = []
  · rw [hne]
    exact iff_of_true (.inl rfl) List.nil_prefix
  · have hroot := join_ne_root hne fun s hs => (hsegs s hs).1.1
    have hkey : keyOf segs = join SLASH segs := by
      rw [keyOf, canonicalPath, if_neg hne]
      exact List.append_nil _
    rw [hkey]
    have hbelow : (join SLASH segs = [SLASH] ∨ join SLASH segs = SLASH :: k ∨
        join SLASH segs ++ [SLASH] <+: SLASH :: k) ↔
        join SLASH segs ++ [SLASH] <+: SLASH :: k ++ [SLASH] := by
      rw [append_slash_prefix_iff, append_slash_prefix]
      constructor
      · rintro (h | h | ⟨hpre, hslash⟩)
        · exact absurd h hroot
        · rw [h]
          exact ⟨List.prefix_rfl, .inl rfl⟩
        · exact ⟨hpre, .inr hslash⟩
      · rintro ⟨hpre, hlen | hslash⟩
        · exact .inr (.inl (hpre.eq_of_length hlen.symm))
        · exact .inr (.inr ⟨hpre, hslash⟩)
    have hleading : leadingSegments (SLASH :: k) = (pieces SLASH k).takeWhile isNameSegment := rfl
    rw [hbelow, hleading, ← join_pieces k, join_below_iff (fun s hs => (hsegs s hs).1.2)
      fun s hs => notMem_of_mem_pieces hs]
    -- names have name segments only
    constructor
    · rintro ⟨rest, hrest⟩
      rw [← hrest, List.takeWhile_append_of_pos fun s hs => (hsegs s hs).2]
      exact List.prefix_append _ _
    · intro h
      exact h.trans (List.takeWhile_prefix _)

/-! ### Names from segments -/

theorem exists_cons_join {segs : List Bytes} (hne : segs ≠ []) :
    ∃ t, join SLASH segs = SLASH :: t := by
  obtain ⟨s, segs, rfl⟩ := List.exists_cons_of_ne_nil hne
  exact ⟨_, rfl⟩

/-- Segments of names make a name. -/
theorem isLocationName_join {segs : List Bytes} (hne : segs ≠ [])
    (h : ∀ s ∈ segs, IsSegment SLASH s ∧ isNameSegment s = true) :
    IsLocationName (join SLASH segs) := by
  obtain ⟨t, ht⟩ := exists_cons_join hne
  have hname : ∀ s ∈ segs, NoEmpty DOT s ∧
      ∀ c ∈ s, isConfigSpace c = false ∧ isSpecialLetter c = false := by
    intro s hs
    have hseg := (h s hs).2
    rw [isNameSegment, Bool.and_eq_true, Bool.and_eq_true, Option.isNone_iff_eq_none,
      Substring.find_eq_none_iff_infix (by decide), List.all_eq_true] at hseg
    refine ⟨hseg.1.2, fun c hc => ?_⟩
    have hp := hseg.2 c hc
    rw [Bool.and_eq_true, Bool.not_eq_true', Bool.not_eq_true'] at hp
    exact hp
  have hdots : NoEmpty DOT (join SLASH segs) := by
    clear ht hne h
    induction segs with
    | nil =>
        intro hin
        exact absurd hin.length_le (by decide)
    | cons s segs ih =>
        obtain ⟨hs, hsegs⟩ := List.forall_mem_cons.mp hname
        rw [join_cons]
        refine noEmpty_cons (noEmpty_append hs.1 (ih hsegs) ?_) fun hc => absurd hc (by decide)
        cases segs with
        | nil => exact (by decide : ([] : Bytes).head? ≠ some DOT)
        | cons s' segs => exact fun hhead => absurd (Option.some.inj hhead) (by decide)
  have hslashes : NoEmpty SLASH (join SLASH segs) := fun hin =>
    noEmpty_join (fun s hs => (h s hs).1) (hin.trans ⟨[], [SLASH], rfl⟩)
  constructor
  · rw [isValidLocationName, Bool.and_eq_true, Bool.and_eq_true, beq_iff_eq,
      Option.isNone_iff_eq_none, Option.isNone_iff_eq_none,
      Substring.find_eq_none_iff_infix (by decide), Substring.find_eq_none_iff_infix (by decide)]
    exact ⟨⟨by rw [ht]; rfl, hdots⟩, hslashes⟩
  · intro c hc
    obtain rfl | ⟨s, hs, hcs⟩ := mem_join hc
    · exact ⟨by decide, by decide⟩
    · exact (hname s hs).2 c hcs

theorem leadingSegments_join {segs : List Bytes} (hne : segs ≠ [])
    (h : ∀ s ∈ segs, IsSegment SLASH s ∧ isNameSegment s = true) :
    leadingSegments (join SLASH segs) = segs := by
  obtain ⟨t, ht⟩ := exists_cons_join hne
  rw [ht, leadingSegments, List.drop_one, List.tail_cons,
    pieces_of_join (fun s hs => (h s hs).1.2) ht, List.takeWhile_eq_self_iff]
  exact fun s hs => (h s hs).2

/-! ### Configurations -/

/-- Configurations whose locations were accepted by `ParseLocation`. -/
inductive LocationsParsed : ServerConfig → Prop
  | none {config : ServerConfig} (h : config.locations = []) : LocationsParsed config
  | parsed {cwd : Option Bytes} {config config' : ServerConfig} {p q : ConfigParser}
      (h : LocationsParsed config) (hrun : (parseLocation cwd config).run p = .ok config' q) :
      LocationsParsed config'

/-- Every location has been checked. -/
theorem LocationsParsed.mem {config : ServerConfig} (h : LocationsParsed config) :
    ∀ loc ∈ config.locations, ∃ cwd name, loc.Checked cwd name ∧ IsLocationName name := by
  induction h with
  | none h =>
      rw [h]
      exact fun loc hloc => absurd hloc List.not_mem_nil
  | parsed h hrun ih =>
      obtain ⟨loc, name, hloc, hname, hadd⟩ := parseLocation_yields _ _ _ _ _ hrun
      obtain ⟨-, rfl⟩ := addLocation_eq_ok.mp hadd
      intro l hl
      obtain hl | hl := List.mem_append.mp hl
      · exact ih l hl
      · rw [List.mem_singleton.mp hl]
        exact ⟨_, name, hloc, hname⟩

theorem LocationsParsed.names {config : ServerConfig} (h : LocationsParsed config) :
    (∀ loc ∈ config.locations, IsLocationName loc.name) ∧
      (config.locations.map Location.key).Nodup := by
  constructor
  · intro loc hloc
    obtain ⟨cwd, name, hchecked, hname⟩ := h.mem loc hloc
    rw [hchecked.name_eq]
    exact hname
  · induction h with
    | none h =>
        rw [h]
        exact List.nodup_nil
    | parsed h hrun ih =>
        obtain ⟨loc, name, -, -, hadd⟩ := parseLocation_yields _ _ _ _ _ hrun
        obtain ⟨hnew, rfl⟩ := addLocation_eq_ok.mp hadd
        rw [List.map_append, List.nodup_append]
        refine ⟨ih, List.nodup_singleton _, fun a ha b hb hab => hnew ?_⟩
        rw [← List.mem_singleton.mp hb, ← hab]
        exact ha

theorem tokenize_at {p : ConfigParser} {s : Bytes} (hs : p.content.drop p.currentPos = s)
    (hne : s ≠ []) :
    tokenize.run p = .ok (firstToken s) { p with
      currentPos := p.currentPos + (s.takeWhile isConfigSpace).length + (firstToken s).length } := by
  have hend : ¬ p.currentPos ≥ p.content.length := by
    intro hle
    rw [List.drop_of_length_le hle] at hs
    exact hne hs.symm
  simp only [tokenize, EStateM.run_bind, EStateM.run_get, if_neg hend, hs]
  rfl

theorem firstToken_append {name t : Bytes} {c : Byte} (hne : name ≠ [])
    (h : ∀ c ∈ name, isConfigSpace c = false ∧ isSpecialLetter c = false)
    (hc : isConfigSpace c = true) :
    firstToken (name ++ c :: t) = name ∧ (name ++ c :: t).takeWhile isConfigSpace = [] := by
  obtain ⟨d, ds, rfl⟩ := List.exists_cons_of_ne_nil hne
  obtain ⟨hspace, hspecial⟩ := h d List.mem_cons_self
  have hword : ∀ e ∈ d :: ds, (!isConfigSpace e && !isSpecialLetter e) = true := by
    intro e he
    rw [(h e he).1, (h e he).2]
    rfl
  constructor
  · rw [firstToken, List.cons_append, List.dropWhile_cons_of_neg (by rw [hspace]; decide)]
    dsimp only
    rw [if_neg (by rw [hspecial]; decide), ← List.cons_append, List.takeWhile_append_of_pos hword,
      List.takeWhile_cons_of_neg (by rw [hc]; simp), List.append_nil]
  · rw [List.cons_append, List.takeWhile_cons_of_neg (by rw [hspace]; decide)]

/-- **A location without directives** is accepted under any name. -/
theorem parseLocation_empty (config : ServerConfig) {name : Bytes} (hname : IsLocationName name)
    (hnew : ({ name := name } : Location).key ∉ config.locations.map Location.key) :
    ∃ q, (parseLocation none config).run { content := name ++ bytes " \x7b\x7d" } =
      .ok { config with locations := config.locations ++ [{ name := name }] } q := by
  have hne : name ≠ [] := (isWord_of_validName hname.valid).1
  have hcontent : name ++ bytes " \x7b\x7d" ≠ [] := by
    intro hnil
    exact hne (List.append_eq_nil_iff.mp hnil).1
  obtain ⟨hfirst, hspace⟩ : firstToken (name ++ bytes " \x7b\x7d") = name ∧
      (name ++ bytes " \x7b\x7d").takeWhile isConfigSpace = [] :=
    firstToken_append (c := SP) (t := bytes "\x7b\x7d") hne hname.token rfl
  have hopen : (name ++ bytes " \x7b\x7d").drop name.length = bytes " \x7b\x7d" := List.drop_left
  have hclose : (name ++ bytes " \x7b\x7d").drop (name.length + 2) = bytes "\x7d" := by
    rw [← List.drop_drop, hopen]
    rfl
  -- the three tokens
  have h1 : tokenize.run { content := name ++ bytes " \x7b\x7d" } =
      .ok name { content := name ++ bytes " \x7b\x7d", currentPos := name.length } := by
    have hrun := tokenize_at (p := { content := name ++ bytes " \x7b\x7d" }) List.drop_zero hcontent
    rw [hfirst, hspace] at hrun
    rw [hrun]
    simp
  have h2 : tokenize.run { content := name ++ bytes " \x7b\x7d", currentPos := name.length } =
      .ok (bytes "\x7b") { content := name ++ bytes " \x7b\x7d", currentPos := name.length + 2 } :=
    tokenize_at (p := ⟨_, name.length, []⟩) hopen (by decide)
  have h3 : tokenize.run { content := name ++ bytes " \x7b\x7d", currentPos := name.length + 2 } =
      .ok (bytes "\x7d") { content := name ++ bytes " \x7b\x7d", currentPos := name.length + 3 } :=
    tokenize_at (p := ⟨_, name.length + 2, []⟩) hclose (by decide)
  refine ⟨{ content := name ++ bytes " \x7b\x7d", currentPos := name.length + 3 }, ?_⟩
  simp only [parseLocation, EStateM.run_bind, h1, h2, hname.valid, Bool.not_true, EStateM.run_ite,
    EStateM.run_get, ConfigParser.fuel, parseLocationBody, h3]
  rw [if_neg (by decide), if_neg (by decide), if_pos trivial]
  simp only [EStateM.run_pure, addLocation_eq_ok.mpr ⟨hnew, rfl⟩]
  rfl

/-! ### The locations of two spellings -/

theorem findBest_congr {u v : Bytes} {locs : List Location}
    (h : ∀ loc ∈ locs, isPathPrefix u loc.key = isPathPrefix v loc.key) (best : Option Location)
    (n : Nat) : ServerConfig.findBest u locs best n = ServerConfig.findBest v locs best n := by
  induction locs generalizing best n with
  | nil => rfl
  | cons loc locs ih =>
      obtain ⟨hloc, hlocs⟩ := List.forall_mem_cons.mp h
      have hkey : isPathPrefix u (trimTrailingSlashExceptRoot loc.name) =
        isPathPrefix v (trimTrailingSlashExceptRoot loc.name) := hloc
      simp only [ServerConfig.findBest, hkey, ih hlocs]

/-- The URIs select the same location, or none. -/
def SameLocation (config : ServerConfig) (u v : Bytes) : Prop :=
  (config.findLocationForUri u).map LocationMatch.loc =
    (config.findLocationForUri v).map LocationMatch.loc

theorem sameLocation_of_leadingSegments {config : ServerConfig} (hconfig : LocationsParsed config)
    {u v : Bytes} (hu : u.head? = some SLASH) (hv : v.head? = some SLASH)
    (h : leadingSegments u = leadingSegments v) : SameLocation config u v := by
  have hbest : ServerConfig.findBest (trimTrailingSlashExceptRoot u) config.locations none 0 =
      ServerConfig.findBest (trimTrailingSlashExceptRoot v) config.locations none 0 := by
    apply findBest_congr
    intro loc hloc
    have hname := hconfig.names.1 loc hloc
    rw [Bool.eq_iff_iff, isPathPrefix_iff, isPathPrefix_iff, matches_iff hu hname,
      matches_iff hv hname, h]
  rw [SameLocation, findLocationForUri_eq, findLocationForUri_eq, hbest]
  rcases ServerConfig.findBest (trimTrailingSlashExceptRoot v) config.locations none 0 with - | loc
  · rfl
  · rfl

/-- A configuration of one location tells the leading segments of URIs. -/
theorem leadingSegments_prefix {u v : Bytes} (hu : u.head? = some SLASH)
    (hv : v.head? = some SLASH) (h : ∀ config, LocationsParsed config → SameLocation config u v) :
    leadingSegments u <+: leadingSegments v := by
  by_cases hne : leadingSegments u = []
  · rw [hne]
    exact List.nil_prefix
  · have hsegs : ∀ s ∈ leadingSegments u, IsSegment SLASH s ∧ isNameSegment s = true :=
      fun s hs => isSegment_of_isNameSegment hs
    have hname := isLocationName_join hne hsegs
    have hleading := leadingSegments_join hne hsegs
    generalize hjoin : join SLASH (leadingSegments u) = name at hname hleading
    obtain ⟨q, hrun⟩ := parseLocation_empty {} hname List.not_mem_nil
    have hsame := h _ (.parsed (.none rfl) hrun)
    have hmatch : Matches u { name := name } := by
      rw [matches_iff hu hname, hleading]
    rw [← hleading]
    by_contra hnot
    have hmatch' : ¬ Matches v { name := name } := fun hm => hnot ((matches_iff hv hname).mp hm)
    have hpos : ∀ loc ∈ [({ name := name } : Location)], 0 < loc.key.length := by
      intro loc hloc
      rw [List.mem_singleton.mp hloc]
      exact key_length_pos hname.valid
    rw [SameLocation, findLocationForUri_eq, findLocationForUri_eq] at hsame
    have hnone : ServerConfig.findBest (trimTrailingSlashExceptRoot v) [{ name := name }] none 0 =
        none := by
      rw [findBest_eq_none hpos]
      intro loc hloc
      rw [List.mem_singleton.mp hloc]
      exact hmatch'
    rcases hbest : ServerConfig.findBest (trimTrailingSlashExceptRoot u) [{ name := name }] none 0
      with - | loc
    · exact (findBest_eq_none hpos).mp hbest _ (List.mem_singleton_self _) hmatch
    · have hbest' : ServerConfig.findBest (trimTrailingSlashExceptRoot u)
          (({} : ServerConfig).locations ++ [{ name := name }]) none 0 = some loc := hbest
      have hnone' : ServerConfig.findBest (trimTrailingSlashExceptRoot v)
          (({} : ServerConfig).locations ++ [{ name := name }]) none 0 = none := hnone
      rw [hbest', hnone'] at hsame
      cases hsame

/-! ### Normal forms -/

/-- Both URIs have a normal form, and these are equal up to a slash at the end. -/
def SameNormalForm (u v : Bytes) : Prop :=
  ∃ p q, normalizePathBySegments u = .ok p ∧ normalizePathBySegments v = .ok q ∧
    (p = q ∨ p = q ++ [SLASH] ∨ q = p ++ [SLASH])

/-- No segment is empty, but for slashes at the end, and none is `.` or `..`. -/
structure IsPlain (uri : Bytes) : Prop where
  no_empty : NoEmpty SLASH (trimTrailingSlashExceptRoot uri)
  no_dots : ∀ s ∈ splitPathSegments uri, s ≠ dot ∧ s ≠ dotdot

theorem SameNormalForm.segments_eq {u v : Bytes} (h : SameNormalForm u v) :
    u.head? = some SLASH ∧ v.head? = some SLASH ∧
      resolve dot dotdot (splitPathSegments u) = resolve dot dotdot (splitPathSegments v) := by
  obtain ⟨p, q, hp, hq, hpq⟩ := h
  obtain ⟨hu, -, rfl⟩ := normalizePathBySegments_eq_ok.mp hp
  obtain ⟨hv, -, rfl⟩ := normalizePathBySegments_eq_ok.mp hq
  refine ⟨hu, hv, ?_⟩
  have hslash : ∀ s : Bytes, splitPathSegments (s ++ [SLASH]) = splitPathSegments s :=
    fun s => split_append_slashes s 1
  have hsplit : splitPathSegments (canonicalPath (resolve dot dotdot (splitPathSegments u))
      (endsWithSlash u)) = splitPathSegments (canonicalPath
        (resolve dot dotdot (splitPathSegments v)) (endsWithSlash v)) := by
    obtain h | h | h := hpq
    · rw [h]
    · rw [h, hslash]
    · rw [h, hslash]
  rw [splitPathSegments_canonicalPath fun s hs => isSegment_resolve hs,
    splitPathSegments_canonicalPath fun s hs => isSegment_resolve hs] at hsplit
  exact hsplit

theorem IsPlain.trim_eq {uri : Bytes} (huri : uri.head? = some SLASH) (h : IsPlain uri) :
    trimTrailingSlashExceptRoot uri =
      canonicalPath (resolve dot dotdot (splitPathSegments uri)) false := by
  obtain ⟨cs, rfl⟩ := List.head?_eq_some_iff.mp huri
  obtain ⟨k, n, -, hlast, htrim⟩ := trim_cons cs
  have hroot : CanonicalRoot (trimTrailingSlashExceptRoot (SLASH :: cs)) := by
    refine ⟨trim_head huri, h.no_empty, ?_, ?_⟩
    · rw [split_trim huri]
      exact h.no_dots
    · rw [htrim]
      by_cases hk : k = []
      · exact .inl (by rw [hk])
      · right
        rw [endsWithSlash, List.getLast?_cons_of_ne_nil hk]
        simpa using hlast
  have heq := hroot.eq_canonicalPath
  rw [split_trim huri] at heq
  rw [(resolve_names h.no_dots).2]
  exact heq

/-- **Spellings of a path and its location.**  Two spellings select the same location in every
configuration exactly if their leading segments are the same; and if they differ in slashes at
the end only, these are. -/
theorem findLocationForUri_respelled {u v : Bytes} (h : SameNormalForm u v) :
    ((∀ config, LocationsParsed config → SameLocation config u v) ↔
        leadingSegments u = leadingSegments v) ∧
      (IsPlain u → IsPlain v → ∀ config, LocationsParsed config → SameLocation config u v) := by
  obtain ⟨hu, hv, hsegs⟩ := h.segments_eq
  constructor
  · constructor
    · intro hsame
      have hpre := leadingSegments_prefix hu hv hsame
      have hpre' := leadingSegments_prefix hv hu fun config hconfig => (hsame config hconfig).symm
      exact hpre.eq_of_length (le_antisymm hpre.length_le hpre'.length_le)
    · exact fun hleading config hconfig => sameLocation_of_leadingSegments hconfig hu hv hleading
  · intro hpu hpv config hconfig
    apply sameLocation_of_leadingSegments hconfig hu hv
    rw [← leadingSegments_trim hu, ← leadingSegments_trim hv, hpu.trim_eq hu, hpv.trim_eq hv, hsegs]

/-- With and without a slash at the end. -/
theorem findLocationForUri_respelled_slash :
    ((∀ config, LocationsParsed config → SameLocation config (bytes "/img/") (bytes "/img")) ↔
        leadingSegments (bytes "/img/") = leadingSegments (bytes "/img")) ∧
      (IsPlain (bytes "/img/") → IsPlain (bytes "/img") →
        ∀ config, LocationsParsed config → SameLocation config (bytes "/img/") (bytes "/img")) :=
  findLocationForUri_respelled ⟨bytes "/img/", bytes "/img", by decide +kernel, by decide +kernel,
    .inr (.inl rfl)⟩

/-- A URI as `ConsumeUri` accepts it. -/
def UriAccepted (uri : Bytes) : Prop :=
  ∃ req rest r r', (consumeUri req).run r = .ok rest r' ∧ r'.uri = uri

/-- Two slashes in front lead past the location `/admin`. -/
theorem findLocationForUri_respelled_fails :
    ¬ ∀ (config : ServerConfig) (u v : Bytes), LocationsParsed config → UriAccepted u →
      UriAccepted v → SameNormalForm u v → SameLocation config u v := by
  intro h
  have hname : ∀ name, name = bytes "/" ∨ name = bytes "/admin" → IsLocationName name := by
    rintro name (rfl | rfl)
    · exact ⟨by decide +kernel, by decide +kernel⟩
    · exact ⟨by decide +kernel, by decide +kernel⟩
  obtain ⟨q, hroot⟩ := parseLocation_empty {} (hname _ (.inl rfl)) List.not_mem_nil
  obtain ⟨q', hadmin⟩ := parseLocation_empty
    { locations := [] ++ [{ name := bytes "/" }] } (hname _ (.inr rfl))
    (by decide +kernel)
  have haccepted : ∀ (uri req : Bytes), ((consumeUri req).run {}).Returned (fun r => r.uri = uri) →
      UriAccepted uri := by
    rintro uri req ⟨rest, r', hrun, huri⟩
    exact ⟨req, rest, {}, r', hrun, huri⟩
  have hsame := h _ (bytes "/admin") (bytes "//admin") (.parsed (.parsed (.none rfl) hroot) hadmin)
    (haccepted _ (bytes "/admin ") (by decide +kernel))
    (haccepted _ (bytes "//admin ") (by decide +kernel))
    ⟨bytes "/admin", bytes "/admin", by decide +kernel, by decide +kernel, .inl rfl⟩
  have hnames := congrArg (fun r : Except Exception Location => r.toOption.map Location.name) hsame
  exact absurd hnames (by decide +kernel)

end Webserv
