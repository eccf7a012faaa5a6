/-
Webserv/ProgramPath.lean

The path that a program is handed, in terms of the URI, the root and the index file.

`HandleGet` and `HandlePost` build a `CgiExecutor` from a path that has been made of the
URI: the name of the location is taken away, the root put in front, slashes collapsed, `.`
and `..` resolved, a last slash trimmed, the index file of a directory appended.  The
pieces of the URI behind the name, the empty ones left out, are what the path is resolved
from.
-/
import Webserv.Routes
import Webserv.Serving

namespace Webserv

open Segments

variable {sys : Sys} {conf : ServerConfig} {req : HttpRequest} {loc : Location} {path : Bytes}

/-! ### The pieces of a URI -/

/-- The pieces of a URI, the empty ones too. -/
def uriPieces (uri : Bytes) : List Bytes := (pieces SLASH uri).tail

/-- The pieces of a URI that are the name of the location. -/
def namePieces (loc : Location) : List Bytes :=
  if loc.key = [SLASH] then [] else uriPieces loc.key

/-- The pieces of a URI behind the name of the location. -/
def restPieces (uri : Bytes) (loc : Location) : List Bytes :=
  (uriPieces uri).drop (namePieces loc).length

theorem filter_uriPieces {uri : Bytes} (huri : uri.head? = some SLASH) :
    (uriPieces uri).filter (· ≠ []) = splitPathSegments uri := by
  obtain ⟨cs, rfl⟩ := List.head?_eq_some_iff.mp huri
  rw [uriPieces, pieces_sep, List.tail_cons, filter_pieces, splitPathSegments, split_sep]

/-- A URI is the key and what stands behind it, if that is not the root. -/
theorem Matches.append_key {uri : Bytes} {loc : Location} (huri : uri.head? = some SLASH)
    (h : Matches uri loc) (hkey : loc.key ≠ [SLASH]) :
    uri = loc.key ∨ ∃ t, uri = loc.key ++ SLASH :: t := by
  obtain ⟨cs, rfl⟩ := List.head?_eq_some_iff.mp huri
  obtain ⟨k, n, rfl, -, htrim⟩ := trim_cons cs
  have hsplit : SLASH :: (k ++ List.replicate n SLASH) =
      trimTrailingSlashExceptRoot (SLASH :: (k ++ List.replicate n SLASH)) ++
        List.replicate n SLASH := by
    rw [htrim, List.cons_append]
  obtain hroot | hsame | ⟨t, ht⟩ := h
  · exact absurd hroot hkey
  · rw [hsplit, hsame]
    cases n with
    | zero => exact .inl (List.append_nil _)
    | succ n => exact .inr ⟨List.replicate n SLASH, rfl⟩
  · rw [hsplit, ← ht, List.append_assoc, List.append_assoc]
    exact .inr ⟨_, rfl⟩

/-- **The pieces of the URI** are those of the name and the rest. -/
theorem uriPieces_eq {uri : Bytes} {loc : Location} (huri : uri.head? = some SLASH)
    (h : Matches uri loc) : uriPieces uri = namePieces loc ++ restPieces uri loc := by
  suffices hpre : namePieces loc <+: uriPieces uri by
    rw [restPieces]
    nth_rewrite 1 [List.prefix_iff_eq_append.mp hpre]
    rfl
  rw [namePieces]
  split_ifs with hkey
  · exact List.nil_prefix
  · obtain hsame | ⟨t, ht⟩ := h.append_key huri hkey
    · rw [hsame]
    · rw [ht, uriPieces, uriPieces, pieces_append_sep,
        List.tail_append_of_ne_nil (pieces_ne_nil _)]
      exact List.prefix_append _ _

/-- The rest of the URI that is resolved has the pieces behind the name. -/
theorem filter_restPieces {uri : Bytes} {loc : Location} (huri : uri.head? = some SLASH)
    (h : Matches uri loc) (hkey : loc.key.head? = some SLASH) :
    (restPieces uri loc).filter (· ≠ []) =
      splitPathSegments (remainderOf (trimTrailingSlashExceptRoot uri) loc.key) := by
  have hname : (namePieces loc).filter (· ≠ []) = splitPathSegments loc.key := by
    rw [namePieces]
    split_ifs with hroot
    · rw [hroot]
      rfl
    · exact filter_uriPieces hkey
  have hsplit := (remainderOf_spec huri h).2
  rw [split_trim huri, ← filter_uriPieces huri, uriPieces_eq huri h, List.filter_append, hname] at hsplit
  exact List.append_cancel_left hsplit

theorem key_head {loc : Location} (h : IsLocationName loc.name) : loc.key.head? = some SLASH := by
  have hvalid := h.valid
  rw [isValidLocationName, Bool.and_eq_true, Bool.and_eq_true, beq_iff_eq] at hvalid
  exact trim_head hvalid.1.1

theorem trim_eq_self {uri : Bytes} (huri : uri.head? = some SLASH)
    (hlast : endsWithSlash uri = false) : trimTrailingSlashExceptRoot uri = uri := by
  obtain ⟨cs, rfl⟩ := List.head?_eq_some_iff.mp huri
  obtain ⟨k, n, rfl, -, htrim⟩ := trim_cons cs
  cases n with
  | zero => rw [htrim, List.replicate_zero, List.append_nil]
  | succ n =>
      rw [List.replicate_succ', ← List.append_assoc, ← List.cons_append, endsWithSlash,
        List.getLast?_concat] at hlast
      cases hlast

/-- A slash is left at the end where the URI is the name of the location. -/
theorem endsWithSlash_remainderOf {uri : Bytes} {loc : Location} (huri : uri.head? = some SLASH)
    (h : Matches uri loc) (hlast : endsWithSlash uri = false) :
    endsWithSlash (remainderOf (trimTrailingSlashExceptRoot uri) loc.key) = true ↔
      restPieces uri loc = [] := by
  have hpre := h.key_isPrefix huri
  rw [trim_eq_self huri hlast] at hpre ⊢
  rw [remainderOf]
  by_cases hlen : uri.length = loc.key.length
  · have hsame : loc.key = uri := hpre.eq_of_length hlen.symm
    have hroot : loc.key ≠ [SLASH] := by
      rintro hroot
      rw [← hsame, hroot] at hlast
      cases hlast
    rw [if_pos hlen]
    refine iff_of_true rfl ?_
    rw [restPieces, namePieces, if_neg hroot, hsame, List.drop_length]
  · rw [if_neg hlen]
    refine iff_of_false ?_ ?_
    · obtain ⟨t, ht⟩ := hpre
      have hdrop : uri.drop loc.key.length = t := by
        rw [← ht, List.drop_left]
      have ht' : t ≠ [] := by
        rintro rfl
        rw [← ht, List.append_nil] at hlen
        exact hlen rfl
      have hend : endsWithSlash t = false := by
        rw [← hlast, ← ht, endsWithSlash, endsWithSlash, List.getLast?_append_of_ne_nil _ ht']
      dsimp only
      rw [hdrop, if_neg ht']
      split_ifs
      · rw [endsWithSlash, List.getLast?_cons_of_ne_nil ht', ← endsWithSlash, hend]
        exact Bool.false_ne_true
      · rw [hend]
        exact Bool.false_ne_true
    · rw [restPieces, namePieces]
      split_ifs with hroot
      · obtain ⟨cs, rfl⟩ := List.head?_eq_some_iff.mp huri
        rw [uriPieces, pieces_sep]
        exact pieces_ne_nil cs
      · obtain hsame | ⟨t, ht⟩ := h.append_key huri hroot
        · exact absurd (congrArg List.length hsame) hlen
        · rw [ht, uriPieces, uriPieces, pieces_append_sep,
            List.tail_append_of_ne_nil (pieces_ne_nil _), List.drop_left]
          exact pieces_ne_nil t

/-! ### The path -/

/-- The index file that `HandleGet` appends, if the request is for a directory. -/
def directoryIndex (sys : Sys) (req : HttpRequest) (m : LocationMatch) : List Bytes :=
  match req.method, resolveFilesystemPath m with
  | .kGet, .ok base =>
      if endsWithSlash req.uri || sys.isDirectory base then [m.loc.indexFile] else []
  | _, _ => []

/-- A path that has been normalised is returned as it is. -/
theorem validateAndNormalizePath_again {path root p q : Bytes}
    (hp : validateAndNormalizePath path root = .ok p)
    (hq : validateAndNormalizePath p root = .ok q) : q = p := by
  obtain ⟨-, hhead, hbelow, hpath, -⟩ := validateAndNormalizePath_eq_ok.mp hp
  obtain ⟨-, hhead', hbelow', hpath', -⟩ := validateAndNormalizePath_eq_ok.mp hq
  have hidem := (normalizePathBySegments_idem
    (normalizePathBySegments_eq_ok.mpr ⟨hhead, hbelow, hpath⟩)).1
  rw [normalizePathBySegments_eq_ok.mpr ⟨hhead', hbelow', hpath'⟩] at hidem
  exact Except.ok.inj hidem

/-- The path of an index file, from that of its directory. -/
theorem validateAndNormalizePath_append {path root base p index : Bytes}
    (hbase : validateAndNormalizePath path root = .ok base) (hindex : IsSegment SLASH index)
    (hp : validateAndNormalizePath
      ((if endsWithSlash base then base else base ++ [SLASH]) ++ index) root = .ok p) :
    p = canonicalPath (resolve dot dotdot (splitPathSegments path ++ [index])) false := by
  obtain ⟨-, -, -, hpath, -⟩ := validateAndNormalizePath_eq_ok.mp hbase
  obtain ⟨-, -, -, hp, -⟩ := validateAndNormalizePath_eq_ok.mp hp
  have hsplit : splitPathSegments base = resolve dot dotdot (splitPathSegments path) := by
    rw [hpath, splitPathSegments_canonicalPath fun s hs => isSegment_resolve hs]
  obtain ⟨dir, hdir, hdirsplit⟩ := directory_slash base
  have hsegs : splitPathSegments (dir ++ [SLASH] ++ index) =
      resolve dot dotdot (splitPathSegments path) ++ [index] := by
    rw [List.append_assoc, List.singleton_append, splitPathSegments, split_append_sep,
      split_segment hindex, ← hsplit, ← hdirsplit, splitPathSegments]
  have hend : endsWithSlash (dir ++ [SLASH] ++ index) = false := by
    rw [endsWithSlash, List.getLast?_append_of_ne_nil _ hindex.1, Bool.eq_false_iff, ne_eq,
      beq_iff_eq]
    exact fun h => hindex.2 (List.mem_of_getLast? h)
  rw [hp, hdir, hsegs, hend, resolve_resolve_append]

theorem Routed.validated {m : LocationMatch} (h : Routed conf req m path) :
    conf.findLocationForUri req.uri = .ok m ∧ resolveFilesystemPath m = .ok path ∧
      validateAndNormalizePath (m.loc.root ++ m.remainder) m.loc.root = .ok path := by
  obtain ⟨hmatch, hpath⟩ := prepareRoutingContext_eq_ok h.routed
  refine ⟨hmatch, hpath, ?_⟩
  rw [resolveFilesystemPath, h.redirect, if_neg (by decide)] at hpath
  exact hpath

/-- Whether an index file is appended, and how. -/
theorem handedOver_index (h : handedOver sys conf req = some (loc, path)) :
    ∃ m base, conf.findLocationForUri req.uri = .ok m ∧ m.loc = loc ∧
      validateAndNormalizePath (loc.root ++ m.remainder) loc.root = .ok base ∧
      ((directoryIndex sys req m = [] ∧ path = base ∧ endsWithSlash req.uri = false) ∨
        (directoryIndex sys req m = [loc.indexFile] ∧ loc.indexFile ≠ [] ∧
          validateAndNormalizePath
            ((if endsWithSlash base then base else base ++ [SLASH]) ++ loc.indexFile) loc.root =
              .ok path)) := by
  obtain ⟨m, base, hrouted, rfl, -, hmethod⟩ := handedOver_some h
  obtain ⟨hmatch, hbase, hvalid⟩ := hrouted.validated
  refine ⟨m, base, hmatch, rfl, hvalid, ?_⟩
  rw [directoryIndex, hbase]
  obtain ⟨hget, hpath⟩ | ⟨hpost, hrefuses, rfl⟩ := hmethod
  · rw [hget]
    rw [appendIndexFileIfDirectoryOrThrow] at hpath
    by_cases hdirectory : (endsWithSlash req.uri || sys.isDirectory base) = true
    · rw [if_pos hdirectory] at hpath
      by_cases hnone : m.loc.indexFile = []
      · rw [if_pos hnone] at hpath
        cases hpath
      · rw [if_neg hnone] at hpath
        exact .inr ⟨if_pos hdirectory, hnone, hpath⟩
    · rw [if_neg hdirectory] at hpath
      refine .inl ⟨if_neg hdirectory, validateAndNormalizePath_again hvalid hpath, ?_⟩
      rw [Bool.or_eq_true, not_or, Bool.not_eq_true] at hdirectory
      exact hdirectory.1
  · rw [refusesUpload, Bool.or_eq_false_iff] at hrefuses
    rw [hpost]
    exact .inl ⟨rfl, rfl, hrefuses.1⟩

/-- **The path of a program** is resolved from the root, the rest of the URI and the index
file. -/
theorem handedOver_path (hconf : LocationsParsed conf) (huri : UriAccepted req.uri)
    (h : handedOver sys conf req = some (loc, path)) :
    ∃ m, conf.findLocationForUri req.uri = .ok m ∧ m.loc = loc ∧
      path = canonicalPath (resolve dot dotdot (splitPathSegments (loc.root ++ m.remainder) ++
          directoryIndex sys req m))
        (decide (directoryIndex sys req m = []) && endsWithSlash m.remainder) ∧
      (directoryIndex sys req m = [] → endsWithSlash req.uri = false) ∧
      ∀ index ∈ directoryIndex sys req m, IsSegment SLASH index := by
  obtain ⟨m, base, hmatch, rfl, hvalid, hbase⟩ := handedOver_index h
  have hpos : ∀ loc ∈ conf.locations, 0 < loc.key.length := by
    intro loc hloc
    exact key_length_pos (hconf.names.1 loc hloc).valid
  obtain ⟨hmem, hhead, -, -⟩ := findLocationForUri_eq_ok hpos huri.visible.1 hmatch
  refine ⟨m, hmatch, rfl, ?_⟩
  obtain ⟨hno, rfl, hlast⟩ | ⟨hindex, hne, hpath⟩ := hbase
  · obtain ⟨-, -, -, hpath, -⟩ := validateAndNormalizePath_eq_ok.mp hvalid
    refine ⟨?_, fun _ => hlast, ?_⟩
    · obtain ⟨t, ht⟩ := List.head?_eq_some_iff.mp hhead
      rw [hno, List.append_nil, decide_eq_true rfl, Bool.true_and, hpath, ht,
        endsWithSlash_append_slash]
    · rw [hno]
      exact fun index hmem => absurd hmem List.not_mem_nil
  · obtain ⟨cwd, name, hchecked, -⟩ := hconf.mem m.loc hmem
    have hsegment : IsSegment SLASH m.loc.indexFile := by
      obtain ⟨-, hnil⟩ | hsafe := hchecked.index
      · exact absurd hnil hne
      · exact (isSafeIndexFilename_spec hsafe).1
    refine ⟨?_, ?_, ?_⟩
    · rw [hindex]
      exact validateAndNormalizePath_append hvalid hsegment hpath
    · rw [hindex]
      exact fun hnil => absurd hnil (List.cons_ne_nil _ _)
    · rw [hindex]
      exact List.forall_mem_singleton.mpr hsegment

end Webserv
