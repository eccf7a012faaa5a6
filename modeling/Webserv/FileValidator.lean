/-
Webserv/FileValidator.lean

`FileValidator`: normalisation of absolute paths, and containment in a document
root.

The source splits a path at its slashes, runs a stack machine over the segments
and joins the stack again; containment is then a comparison of strings with a
boundary character.  The results say what that means for segments.
-/
import Webserv.Http
import Webserv.Theory.Segments

namespace Webserv

open Segments

/-! ### The class -/

/-- `"."`. -/
abbrev dot : Bytes := [46]

/-- `".."`. -/
abbrev dotdot : Bytes := [46, 46]

/-- `FileValidator::ContainsUnsafeChars`. -/
def containsUnsafeChars (path : Bytes) : Bool := path.any fun c => !isValidHeaderChar c

/-- `FileValidator::SplitPathSegments`. -/
def splitPathSegments (path : Bytes) : List Bytes := split SLASH path

/-- The loop of `NormalizePathBySegments` over the segments. -/
def normalizeSegments : List Bytes → List Bytes → Except Exception (List Bytes)
  | stack, [] => .ok stack
  | stack, segment :: segments =>
      if segment = dot then normalizeSegments stack segments
      else if segment = dotdot then
        if stack = [] then .error (.responseStatus .kBadRequest)
        else normalizeSegments stack.dropLast segments
      else normalizeSegments (stack ++ [segment]) segments

/-- `rebuilt_path` before the trailing slash. -/
def rebuildPath (stack : List Bytes) : Bytes := SLASH :: [SLASH].intercalate stack

/-- `path[path.size() - 1] == '/'`, for a path that may be empty. -/
def endsWithSlash (path : Bytes) : Bool := path.getLast? == some SLASH

/-- `FileValidator::NormalizePathBySegments`. -/
def normalizePathBySegments (path : Bytes) : Except Exception Bytes :=
  if path.head? ≠ some SLASH then .error (.responseStatus .kBadRequest)
  else do
    let stack ← normalizeSegments [] (splitPathSegments path)
    let rebuiltPath := rebuildPath stack
    if endsWithSlash path && !endsWithSlash rebuiltPath then .ok (rebuiltPath ++ [SLASH])
    else .ok rebuiltPath

/-- `FileValidator::IsPathUnderDocumentRoot`. -/
def isPathUnderDocumentRoot (path documentRoot : Bytes) : Bool :=
  if documentRoot = [] then false
  else if documentRoot = [SLASH] then true
  else if path.length < documentRoot.length then false
  else if path.take documentRoot.length ≠ documentRoot then false
  else if path.length = documentRoot.length then true
  else path[documentRoot.length]? == some SLASH

/-- `FileValidator::ValidateAndNormalizePath`. -/
def validateAndNormalizePath (path documentRoot : Bytes) : Except Exception Bytes :=
  if containsUnsafeChars path then .error (.responseStatus .kBadRequest)
  else do
    let normalizedPath ← normalizePathBySegments path
    if !isPathUnderDocumentRoot normalizedPath documentRoot then
      .error (.responseStatus .kNotFound)
    else .ok normalizedPath

/-! ### The stack machine -/

/-- The stack machine succeeds exactly on a path that never leaves the root, and
resolves it. -/
theorem normalizeSegments_eq_ok {stack segments result : List Bytes} :
    normalizeSegments stack segments = .ok result ↔
      StaysBelow dot dotdot stack.length segments ∧
        result = segments.foldl (move dot dotdot) stack := by
  induction segments generalizing stack with
  | nil =>
      have hnil : StaysBelow dot dotdot stack.length [] := staysBelow_nil _
      simp [normalizeSegments, hnil, eq_comm]
  | cons s segments ih =>
      rw [staysBelow_cons (by decide), List.foldl_cons, normalizeSegments]
      by_cases hdot : s = dot
      · have hmove : move dot dotdot stack s = stack := if_pos hdot
        rw [if_pos hdot, if_pos hdot, ih, hmove]
      · by_cases hup : s = dotdot
        · have hmove : move dot dotdot stack s = stack.dropLast := by
            rw [move, if_neg hdot, if_pos hup]
          rw [if_neg hdot, if_pos hup, if_neg hdot, if_pos hup, hmove]
          by_cases hstack : stack = []
          · simp [hstack]
          · rw [if_neg hstack, ih, List.length_dropLast]
            simp [hstack]
        · have hmove : move dot dotdot stack s = stack ++ [s] := by
            rw [move, if_neg hdot, if_neg hup]
          rw [if_neg hdot, if_neg hup, if_neg hdot, if_neg hup, ih, hmove, List.length_append]
          rfl

/-! ### Rebuilding -/

/-- The path with the segments `segs`, and with a slash at its end if `slash`. -/
def canonicalPath (segs : List Bytes) (slash : Bool) : Bytes :=
  if segs = [] then [SLASH] else join SLASH segs ++ if slash then [SLASH] else []

theorem rebuildPath_cons (s : Bytes) (segs : List Bytes) :
    rebuildPath (s :: segs) = join SLASH (s :: segs) := by
  induction segs generalizing s with
  | nil => simp [rebuildPath, List.intercalate]
  | cons t segs ih =>
      have hjoin : [SLASH].intercalate (s :: t :: segs) = s ++ rebuildPath (t :: segs) := by
        simp [rebuildPath, List.intercalate]
      rw [rebuildPath, hjoin, ih t]
      rfl

theorem endsWithSlash_join {segs : List Bytes} (h : ∀ s ∈ segs, IsSegment SLASH s)
    (hne : segs ≠ []) : endsWithSlash (join SLASH segs) = false := by
  obtain ⟨init, s, rfl⟩ := (List.eq_nil_or_concat segs).resolve_left hne
  obtain ⟨hs, hmem⟩ := h s (by simp)
  obtain ⟨t, c, rfl⟩ := (List.eq_nil_or_concat s).resolve_left hs
  have hc : c ≠ SLASH := fun hc => hmem (by simp [hc])
  have hlast : join SLASH (init ++ [t ++ [c]]) = (join SLASH init ++ SLASH :: t) ++ [c] := by
    rw [join_append]
    simp
  simp only [List.concat_eq_append]
  rw [hlast, endsWithSlash, List.getLast?_append]
  simp [hc]

theorem rebuildPath_eq {segs : List Bytes} (h : ∀ s ∈ segs, IsSegment SLASH s) (slash : Bool) :
    (if slash && !endsWithSlash (rebuildPath segs) then rebuildPath segs ++ [SLASH]
      else rebuildPath segs) = canonicalPath segs slash := by
  rcases segs with - | ⟨s, segs⟩
  · have hslash : endsWithSlash (rebuildPath []) = true := rfl
    rw [hslash, Bool.not_true, Bool.and_false]
    rfl
  · rw [rebuildPath_cons, endsWithSlash_join h (by simp), canonicalPath,
      if_neg (show ¬ s :: segs = [] by simp)]
    cases slash <;> simp

theorem isSegment_resolve {path s : Bytes}
    (h : s ∈ resolve dot dotdot (splitPathSegments path)) : IsSegment SLASH s :=
  isSegment_of_mem_split (mem_resolve h).1

theorem normalizePathBySegments_eq_ok {path p : Bytes} :
    normalizePathBySegments path = .ok p ↔
      path.head? = some SLASH ∧ StaysBelow dot dotdot 0 (splitPathSegments path) ∧
        p = canonicalPath (resolve dot dotdot (splitPathSegments path)) (endsWithSlash path) := by
  unfold normalizePathBySegments
  by_cases hhead : path.head? = some SLASH
  · rw [if_neg (not_not.mpr hhead)]
    rcases hstack : normalizeSegments [] (splitPathSegments path) with e | stack
    · have hfail : ¬ StaysBelow dot dotdot 0 (splitPathSegments path) := fun h => by
        have hok := normalizeSegments_eq_ok.mpr (show StaysBelow dot dotdot [].length _ ∧ _ from
          ⟨h, rfl⟩)
        rw [hok] at hstack
        cases hstack
      simp [bind, Except.bind, hfail]
    · obtain ⟨hbelow, rfl⟩ := normalizeSegments_eq_ok.mp hstack
      have hrebuild := rebuildPath_eq (fun s hs => @isSegment_resolve path s hs)
        (endsWithSlash path)
      have hbelow : StaysBelow dot dotdot 0 (splitPathSegments path) := hbelow
      simp only [bind, Except.bind, hhead, hbelow, true_and]
      rw [← hrebuild]
      show _ = _ ↔ p = _
      rw [resolve]
      split_ifs <;> simp [eq_comm]
  · simp [hhead]

/-! ### Containment -/

theorem append_slash_prefix_iff {path root : Bytes} :
    root ++ [SLASH] <+: path ++ [SLASH] ↔
      root <+: path ∧ (path.length = root.length ∨ path[root.length]? = some SLASH) := by
  constructor
  · rintro ⟨rest, hrest⟩
    rcases List.eq_nil_or_concat rest with rfl | ⟨rest, c, rfl⟩
    · have hroot : root = path := by simpa using hrest
      exact ⟨hroot ▸ List.prefix_rfl, .inl (by rw [hroot])⟩
    · have hsplit : (root ++ SLASH :: rest) ++ [c] = path ++ [SLASH] := by
        rw [← hrest]
        simp
      have hpath : root ++ SLASH :: rest = path := (List.append_inj' hsplit rfl).1
      refine ⟨⟨_, hpath⟩, .inr ?_⟩
      rw [← hpath]
      simp
  · rintro ⟨⟨rest, rfl⟩, hlen | hslash⟩
    · have hrest : rest = [] := by simpa using hlen
      simp [hrest]
    · rcases rest with - | ⟨c, rest⟩
      · simp
      · have hc : c = SLASH := by simpa using hslash
        exact ⟨rest ++ [SLASH], by simp [hc]⟩

theorem isPathUnderDocumentRoot_iff {path root : Bytes} :
    isPathUnderDocumentRoot path root = true ↔
      root = [SLASH] ∨ root ≠ [] ∧ root ++ [SLASH] <+: path ++ [SLASH] := by
  rw [append_slash_prefix_iff, isPathUnderDocumentRoot]
  by_cases hnil : root = []
  · simp [hnil]
  · by_cases hslash : root = [SLASH]
    · simp [hslash]
    · simp only [hslash, hnil, if_false, false_or, not_false_eq_true, ne_eq, true_and,
        List.prefix_iff_eq_take]
      by_cases hlen : path.length < root.length
      · rw [if_pos hlen]
        have htake : ¬ root = path.take root.length := fun h => by
          have := congrArg List.length h
          rw [List.length_take] at this
          omega
        simp [htake]
      · rw [if_neg hlen]
        by_cases htake : path.take root.length = root
        · simp [htake]
        · have htake' : ¬ root = path.take root.length := fun h => htake h.symm
          simp [htake, htake']

/-! ### What is accepted -/

/-- A path as the validator returns it. -/
structure Normalized (p : Bytes) : Prop where
  absolute : p.head? = some SLASH
  printable : ∀ c ∈ p, isValidHeaderChar c = true
  no_empty : ¬ [SLASH, SLASH] <:+: p
  no_dots : ∀ s ∈ splitPathSegments p, s ≠ dot ∧ s ≠ dotdot

/-- A document root in canonical form: absolute, without empty, `.` or `..`
segments, and without a slash at its end unless it is `"/"`. -/
structure CanonicalRoot (root : Bytes) : Prop where
  absolute : root.head? = some SLASH
  no_empty : ¬ [SLASH, SLASH] <:+: root
  no_dots : ∀ s ∈ splitPathSegments root, s ≠ dot ∧ s ≠ dotdot
  no_trailing : root = [SLASH] ∨ endsWithSlash root = false

theorem splitPathSegments_canonicalPath {segs : List Bytes} (h : ∀ s ∈ segs, IsSegment SLASH s)
    (slash : Bool) : splitPathSegments (canonicalPath segs slash) = segs := by
  unfold splitPathSegments canonicalPath
  split_ifs with hnil hslash
  · rw [hnil]
    rfl
  · have hjoin := split_join_append h []
    simpa using hjoin
  · rw [List.append_nil, split_join h]

theorem CanonicalRoot.eq_canonicalPath {root : Bytes} (h : CanonicalRoot root) :
    root = canonicalPath (splitPathSegments root) false := by
  rcases h.no_trailing with rfl | hlast
  · rfl
  · obtain ⟨s, rfl⟩ : ∃ s, root = SLASH :: s := by
      obtain ⟨c, s, rfl⟩ := List.exists_cons_of_ne_nil (l := root) (by
        rintro rfl
        exact nomatch h.absolute)
      exact ⟨s, by rw [Option.some.inj h.absolute]⟩
    have hs : s ≠ [] := by
      rintro rfl
      exact nomatch hlast
    have hlast' : s.getLast? ≠ some SLASH := by
      rw [endsWithSlash, List.getLast?_cons_of_ne_nil hs] at hlast
      simpa using hlast
    have hjoin := @join_split _ _ SLASH _ h.no_empty hs hlast'
    have hsplit : splitPathSegments (SLASH :: s) = split SLASH s := split_sep _ _
    rw [hsplit, canonicalPath, hjoin]
    have hne : ¬ split SLASH s = [] := fun hnil => by
      rw [hnil] at hjoin
      exact nomatch hjoin
    rw [if_neg hne]
    simp

theorem canonicalPath_prefix {segs : List Bytes} (hne : segs ≠ []) (slash : Bool) :
    join SLASH segs <+: canonicalPath segs slash ∧
      canonicalPath segs slash <+: join SLASH segs ++ [SLASH] := by
  rw [canonicalPath, if_neg hne]
  cases slash
  · simp
  · simp

theorem canonicalPath_normalized {path : Bytes} (slash : Bool)
    (hsafe : ∀ c ∈ path, isValidHeaderChar c = true) :
    Normalized (canonicalPath (resolve dot dotdot (splitPathSegments path)) slash) := by
  have hseg : ∀ s ∈ resolve dot dotdot (splitPathSegments path), IsSegment SLASH s :=
    fun s hs => isSegment_resolve hs
  have hdots : ∀ s ∈ splitPathSegments
      (canonicalPath (resolve dot dotdot (splitPathSegments path)) slash),
      s ≠ dot ∧ s ≠ dotdot := by
    rw [splitPathSegments_canonicalPath hseg]
    exact fun s hs => (mem_resolve hs).2
  by_cases hnil : resolve dot dotdot (splitPathSegments path) = []
  · rw [hnil] at hdots ⊢
    rw [show canonicalPath [] slash = [SLASH] from rfl] at hdots ⊢
    exact ⟨rfl, List.forall_mem_singleton.mpr (by decide),
      fun h => absurd h.length_le (by decide), hdots⟩
  · obtain ⟨hpre, hsub⟩ := canonicalPath_prefix hnil slash
    refine ⟨?_, fun c hc => ?_, fun h => noEmpty_join hseg (h.trans hsub.isInfix), hdots⟩
    · obtain ⟨s, segs, hsegs⟩ := List.exists_cons_of_ne_nil hnil
      rw [hsegs] at hpre ⊢
      obtain ⟨rest, hrest⟩ := hpre
      rw [← hrest]
      rfl
    · rcases List.mem_append.mp (hsub.subset hc) with hc | hc
      · rcases mem_join hc with rfl | ⟨s, hs, hcs⟩
        · decide
        · exact hsafe c (mem_of_mem_split (mem_resolve hs).1 hcs)
      · obtain rfl := List.mem_singleton.mp hc
        decide

/-- What the validator returns, in terms of segments. -/
theorem validateAndNormalizePath_eq_ok {path root p : Bytes} :
    validateAndNormalizePath path root = .ok p ↔
      (∀ c ∈ path, isValidHeaderChar c = true) ∧ path.head? = some SLASH ∧
        StaysBelow dot dotdot 0 (splitPathSegments path) ∧
        p = canonicalPath (resolve dot dotdot (splitPathSegments path)) (endsWithSlash path) ∧
        isPathUnderDocumentRoot p root = true := by
  have hcontains : containsUnsafeChars path = true ↔ ¬ ∀ c ∈ path, isValidHeaderChar c = true := by
    simp [containsUnsafeChars]
  rw [validateAndNormalizePath]
  -- the three checks in their order: characters, dots, root
  by_cases hsafe : ∀ c ∈ path, isValidHeaderChar c = true
  · rw [if_neg (by rw [hcontains]; exact not_not.mpr hsafe)]
    rcases hnorm : normalizePathBySegments path with e | q
    · have hfail : ∀ p, ¬ normalizePathBySegments path = .ok p := fun p h => by
        rw [h] at hnorm
        cases hnorm
      constructor
      · intro h
        cases h
      · rintro ⟨-, hhead, hbelow, hp, -⟩
        exact absurd (normalizePathBySegments_eq_ok.mpr ⟨hhead, hbelow, hp⟩) (hfail p)
    · obtain ⟨hhead, hbelow, rfl⟩ := normalizePathBySegments_eq_ok.mp hnorm
      simp only [bind, Except.bind]
      by_cases hunder : isPathUnderDocumentRoot (canonicalPath
          (resolve dot dotdot (splitPathSegments path)) (endsWithSlash path)) root = true
      · rw [if_neg (by rw [hunder]; decide)]
        constructor
        · intro h
          cases h
          exact ⟨hsafe, hhead, hbelow, rfl, hunder⟩
        · rintro ⟨-, -, -, rfl, -⟩
          rfl
      · rw [if_pos (by simpa using hunder)]
        constructor
        · intro h
          cases h
        · rintro ⟨-, -, -, rfl, hunder'⟩
          exact absurd hunder' hunder
  · rw [if_pos (hcontains.mpr hsafe)]
    constructor
    · intro h
      cases h
    · intro h
      exact absurd h.1 hsafe

theorem isPathUnderDocumentRoot_segments {path root : Bytes}
    (h : isPathUnderDocumentRoot path root = true) :
    splitPathSegments root <+: splitPathSegments path := by
  rcases isPathUnderDocumentRoot_iff.mp h with rfl | ⟨-, hbelow⟩
  · exact List.nil_prefix
  · exact isPrefix_split hbelow

theorem isPathUnderDocumentRoot_canonical {segs : List Bytes} {root : Bytes}
    (hroot : CanonicalRoot root) (slash : Bool)
    (h : splitPathSegments root <+: segs) :
    isPathUnderDocumentRoot (canonicalPath segs slash) root = true := by
  rw [isPathUnderDocumentRoot_iff]
  by_cases hnil : splitPathSegments root = []
  · left
    rw [hroot.eq_canonicalPath, hnil]
    rfl
  · right
    have hne : segs ≠ [] := fun h' => hnil (by rw [h'] at h; exact List.prefix_nil.mp h)
    have hjoin : root = join SLASH (splitPathSegments root) := by
      have heq := hroot.eq_canonicalPath
      rwa [canonicalPath, if_neg hnil, if_neg (by decide), List.append_nil] at heq
    refine ⟨?_, ?_⟩
    · rintro rfl
      exact hnil rfl
    · have hpre := @join_mono _ SLASH _ _ h
      rw [← hjoin] at hpre
      have hpath : canonicalPath segs slash ++ [SLASH] =
          join SLASH segs ++ [SLASH] ++ if slash then [SLASH] else [] := by
        rw [canonicalPath, if_neg hne]
        cases slash <;> simp
      rw [hpath]
      exact hpre.trans (List.prefix_append _ _)

/-- **Document-root confinement.**  What the validator returns is canonical and
lies below the root; and below a canonical root it returns every path that does. -/
theorem validateAndNormalizePath_confines :
    (∀ path root p, validateAndNormalizePath path root = .ok p →
      Normalized p ∧ splitPathSegments root <+: splitPathSegments p) ∧
    ∀ path root, CanonicalRoot root → ∀ p,
      validateAndNormalizePath path root = .ok p ↔
        path.head? = some SLASH ∧ (∀ c ∈ path, isValidHeaderChar c = true) ∧
          StaysBelow dot dotdot 0 (splitPathSegments path) ∧
          splitPathSegments root <+: resolve dot dotdot (splitPathSegments path) ∧
          p = canonicalPath (resolve dot dotdot (splitPathSegments path)) (endsWithSlash path) := by
  constructor
  · intro path root p h
    obtain ⟨hsafe, -, -, rfl, hunder⟩ := validateAndNormalizePath_eq_ok.mp h
    exact ⟨canonicalPath_normalized _ hsafe, isPathUnderDocumentRoot_segments hunder⟩
  · intro path root hroot p
    rw [validateAndNormalizePath_eq_ok]
    constructor
    · rintro ⟨hsafe, hhead, hbelow, rfl, hunder⟩
      have hsegs := isPathUnderDocumentRoot_segments hunder
      rw [splitPathSegments_canonicalPath fun s hs => isSegment_resolve hs] at hsegs
      exact ⟨hhead, hsafe, hbelow, hsegs, rfl⟩
    · rintro ⟨hhead, hsafe, hbelow, hsegs, rfl⟩
      exact ⟨hsafe, hhead, hbelow, rfl, isPathUnderDocumentRoot_canonical hroot _ hsegs⟩

/-- `/www/a/../b/` below `/www`. -/
theorem validateAndNormalizePath_confines_www :
    Normalized (bytes "/www/b/") ∧
      splitPathSegments (bytes "/www") <+: splitPathSegments (bytes "/www/b/") :=
  validateAndNormalizePath_confines.1 (bytes "/www/a/../b/") (bytes "/www") (bytes "/www/b/")
    (by decide +kernel)

/-! ### Normalising twice -/

/-- The stack machine goes on where it has stopped. -/
theorem normalizeSegments_append (stack segs segs' : List Bytes) :
    normalizeSegments stack (segs ++ segs') =
      normalizeSegments stack segs >>= fun stack => normalizeSegments stack segs' := by
  induction segs generalizing stack with
  | nil => rfl
  | cons s segs ih =>
      rw [List.cons_append, normalizeSegments, normalizeSegments]
      split_ifs
      · exact ih _
      · rfl
      · exact ih _
      · exact ih _

/-- Names are pushed. -/
theorem normalizeSegments_names {segs : List Bytes} (h : ∀ s ∈ segs, s ≠ dot ∧ s ≠ dotdot)
    (stack : List Bytes) : normalizeSegments stack segs = .ok (stack ++ segs) := by
  induction segs generalizing stack with
  | nil => rw [List.append_nil, normalizeSegments]
  | cons s segs ih =>
      obtain ⟨⟨hdot, hup⟩, hsegs⟩ := List.forall_mem_cons.mp h
      rw [normalizeSegments, if_neg hdot, if_neg hup, ih hsegs, List.append_assoc]
      rfl

theorem endsWithSlash_append_slash (s q : Bytes) :
    endsWithSlash (s ++ SLASH :: q) = endsWithSlash (SLASH :: q) := by
  rw [endsWithSlash, endsWithSlash, List.getLast?_append_of_ne_nil _ (List.cons_ne_nil _ _)]

/-- **Behind a slash** the result depends on the stack and on what follows. -/
theorem normalizePathBySegments_append {p n : Bytes} (h : normalizePathBySegments p = .ok n)
    (q : Bytes) : normalizePathBySegments (p ++ SLASH :: q) =
      normalizeSegments (resolve dot dotdot (splitPathSegments p)) (splitPathSegments q) >>=
        fun stack =>
          if endsWithSlash (SLASH :: q) && !endsWithSlash (rebuildPath stack) then
            .ok (rebuildPath stack ++ [SLASH])
          else .ok (rebuildPath stack) := by
  obtain ⟨hhead, hbelow, -⟩ := normalizePathBySegments_eq_ok.mp h
  have hstack : normalizeSegments [] (splitPathSegments p) =
      .ok (resolve dot dotdot (splitPathSegments p)) :=
    normalizeSegments_eq_ok.mpr ⟨hbelow, rfl⟩
  obtain ⟨cs, rfl⟩ := List.head?_eq_some_iff.mp hhead
  have hsplit : splitPathSegments (SLASH :: cs ++ SLASH :: q) =
      splitPathSegments (SLASH :: cs) ++ splitPathSegments q := split_append_sep _ _ _
  have habsolute : ¬ (SLASH :: cs ++ SLASH :: q).head? ≠ some SLASH := not_not_intro rfl
  rw [normalizePathBySegments, if_neg habsolute, hsplit, normalizeSegments_append, hstack,
    endsWithSlash_append_slash]
  rfl

theorem resolve_names {segs : List Bytes} (h : ∀ s ∈ segs, s ≠ dot ∧ s ≠ dotdot) :
    StaysBelow dot dotdot 0 segs ∧ resolve dot dotdot segs = segs := by
  obtain ⟨hbelow, hresolve⟩ := normalizeSegments_eq_ok.mp (normalizeSegments_names h [])
  exact ⟨hbelow, hresolve.symm⟩

theorem canonicalPath_endsWithSlash {segs : List Bytes} (h : ∀ s ∈ segs, IsSegment SLASH s)
    (slash : Bool) :
    canonicalPath segs (endsWithSlash (canonicalPath segs slash)) = canonicalPath segs slash := by
  by_cases hnil : segs = []
  · rw [hnil]
    rfl
  · congr 1
    rw [canonicalPath, if_neg hnil]
    cases slash with
    | false =>
        rw [if_neg (by decide), List.append_nil]
        exact endsWithSlash_join h hnil
    | true =>
        rw [if_pos rfl, endsWithSlash, List.getLast?_concat]
        rfl

/-- A normal form stays as it is. -/
theorem normalizePathBySegments_idem {p n : Bytes} (h : normalizePathBySegments p = .ok n) :
    normalizePathBySegments n = .ok n ∧
      resolve dot dotdot (splitPathSegments n) = resolve dot dotdot (splitPathSegments p) := by
  obtain ⟨-, -, rfl⟩ := normalizePathBySegments_eq_ok.mp h
  have hsegs : ∀ s ∈ resolve dot dotdot (splitPathSegments p), IsSegment SLASH s :=
    fun s hs => isSegment_resolve hs
  have hsplit := splitPathSegments_canonicalPath hsegs (endsWithSlash p)
  obtain ⟨hbelow, hresolve⟩ := resolve_names fun s
    (hs : s ∈ resolve dot dotdot (splitPathSegments p)) => (mem_resolve hs).2
  rw [normalizePathBySegments_eq_ok, hsplit, hresolve, canonicalPath_endsWithSlash hsegs]
  refine ⟨⟨?_, hbelow, rfl⟩, rfl⟩
  by_cases hnil : resolve dot dotdot (splitPathSegments p) = []
  · rw [hnil]
    rfl
  · obtain ⟨s, segs, hcons⟩ := List.exists_cons_of_ne_nil hnil
    obtain ⟨rest, hrest⟩ := ( canonicalPath_prefix hnil (endsWithSlash p)).1
    rw [← hrest, hcons]
    rfl

/-- **Normalising composes**: a path may be normalised before something is appended. -/
theorem normalizePathBySegments_composes {p n : Bytes} (h : normalizePathBySegments p = .ok n) :
    (∀ q, normalizePathBySegments (p ++ SLASH :: q) = normalizePathBySegments (n ++ SLASH :: q)) ∧
      normalizePathBySegments n = .ok n ∧
      ∀ root root' q, validateAndNormalizePath p root = .ok n →
        validateAndNormalizePath (p ++ SLASH :: q) root' =
          validateAndNormalizePath (n ++ SLASH :: q) root' := by
  obtain ⟨hidem, hresolve⟩ := normalizePathBySegments_idem h
  have hcompose : ∀ q, normalizePathBySegments (p ++ SLASH :: q) =
      normalizePathBySegments (n ++ SLASH :: q) := by
    intro q
    rw [normalizePathBySegments_append h, normalizePathBySegments_append hidem, hresolve]
  refine ⟨hcompose, hidem, fun root root' q hvalid => ?_⟩
  -- the characters of the normal form have been checked with those of the path
  obtain ⟨hp, -, -, hn, -⟩ := validateAndNormalizePath_eq_ok.mp hvalid
  have hn : ∀ c ∈ n, isValidHeaderChar c = true := by
    rw [hn]
    exact (canonicalPath_normalized _ hp).printable
  have hsafe : ∀ s : Bytes, (∀ c ∈ s, isValidHeaderChar c = true) →
      containsUnsafeChars (s ++ SLASH :: q) = containsUnsafeChars (SLASH :: q) := by
    intro s hs
    rw [containsUnsafeChars, List.any_append, containsUnsafeChars]
    have hnone : (s.any fun c => !isValidHeaderChar c) = false := by
      rw [List.any_eq_false]
      intro c hc
      rw [hs c hc]
      decide
    rw [hnone, Bool.false_or]
  rw [validateAndNormalizePath, validateAndNormalizePath, hsafe p hp, hsafe n hn, hcompose]

/-- `/a/./b/` and `../c`. -/
theorem normalizePathBySegments_composes_up :
    normalizePathBySegments (bytes "/a/./b/" ++ SLASH :: bytes "../c") =
        normalizePathBySegments (bytes "/a/b/" ++ SLASH :: bytes "../c") ∧
      normalizePathBySegments (bytes "/a/b/") = .ok (bytes "/a/b/") :=
  have h := normalizePathBySegments_composes (p := bytes "/a/./b/") (n := bytes "/a/b/")
    (by decide +kernel)
  ⟨h.1 _, h.2.1⟩

end Webserv
