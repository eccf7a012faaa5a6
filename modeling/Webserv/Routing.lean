/-
Webserv/Routing.lean

Which location `FindLocationForUri` selects.

The loop keeps the longest match so far; it is the `argmax` of the lengths of the
names over the locations that match.  All matching names are beginnings of the URI, so
the longest one is unique as soon as `AddLocation` has let no name in twice, and the
order of the locations plays no part.
-/
import Webserv.ConfigParser

namespace Webserv

open Segments

/-! ### Keys -/

/-- The name of a location, without slashes at its end. -/
def Location.key (loc : Location) : Bytes := trimTrailingSlashExceptRoot loc.name

/-- What is trimmed are slashes. -/
theorem trim_cons (cs : Bytes) : ∃ k n, cs = k ++ List.replicate n SLASH ∧
    k.getLast? ≠ some SLASH ∧ trimTrailingSlashExceptRoot (SLASH :: cs) = SLASH :: k := by
  refine ⟨cs.rdropWhile (· = SLASH), (cs.rtakeWhile (· = SLASH)).length, ?_, ?_, rfl⟩
  · have hslashes : cs.rtakeWhile (· = SLASH) =
        List.replicate (cs.rtakeWhile (· = SLASH)).length SLASH := by
      rw [List.eq_replicate_iff]
      refine ⟨rfl, fun c hc => ?_⟩
      have hp := List.mem_rtakeWhile_imp hc
      simpa using hp
    rw [← hslashes, List.rdropWhile_append_rtakeWhile]
  · intro hlast
    have hne : cs.rdropWhile (· = SLASH) ≠ [] := by
      intro hnil
      rw [hnil] at hlast
      cases hlast
    apply List.rdropWhile_last_not _ _ hne
    rw [List.getLast?_eq_some_getLast hne] at hlast
    simpa using hlast

/-- Slashes at the end make no difference. -/
theorem trim_append_slashes (cs : Bytes) (n : Nat) :
    trimTrailingSlashExceptRoot (SLASH :: cs ++ List.replicate n SLASH) =
      trimTrailingSlashExceptRoot (SLASH :: cs) := by
  show SLASH :: (cs ++ List.replicate n SLASH).rdropWhile _ = SLASH :: cs.rdropWhile _
  congr 1
  induction n with
  | zero => rw [List.replicate_zero, List.append_nil]
  | succ n ih =>
      rw [List.replicate_succ', ← List.append_assoc, List.rdropWhile_concat_pos, ih]
      exact decide_eq_true rfl

theorem split_append_slashes (s : Bytes) (n : Nat) :
    splitPathSegments (s ++ List.replicate n SLASH) = splitPathSegments s := by
  induction n with
  | zero => rw [List.replicate_zero, List.append_nil]
  | succ n ih =>
      rw [List.replicate_succ', ← List.append_assoc, splitPathSegments, split_append_sep, split_nil,
        List.append_nil]
      exact ih

theorem split_trim {uri : Bytes} (h : uri.head? = some SLASH) :
    splitPathSegments (trimTrailingSlashExceptRoot uri) = splitPathSegments uri := by
  obtain ⟨cs, rfl⟩ := List.head?_eq_some_iff.mp h
  obtain ⟨k, n, rfl, -, htrim⟩ := trim_cons cs
  rw [htrim, ← List.cons_append, split_append_slashes]

theorem trim_head {uri : Bytes} (h : uri.head? = some SLASH) :
    (trimTrailingSlashExceptRoot uri).head? = some SLASH := by
  obtain ⟨cs, rfl⟩ := List.head?_eq_some_iff.mp h
  rfl

/-! ### Matching -/

/-- The location matches: its name is the root, or the URI, or the URI continues it behind a
slash. -/
def Matches (uri : Bytes) (loc : Location) : Prop :=
  loc.key = [SLASH] ∨ loc.key = trimTrailingSlashExceptRoot uri ∨
    loc.key ++ [SLASH] <+: trimTrailingSlashExceptRoot uri

theorem append_slash_prefix {a b : Bytes} :
    a ++ [SLASH] <+: b ↔ a <+: b ∧ b[a.length]? = some SLASH := by
  constructor
  · rintro ⟨rest, rfl⟩
    constructor
    · exact ⟨SLASH :: rest, by simp⟩
    · simp
  · rintro ⟨⟨rest, rfl⟩, hslash⟩
    rcases rest with - | ⟨c, rest⟩
    · simp at hslash
    · have hc : c = SLASH := by simpa using hslash
      exact ⟨rest, by simp [hc]⟩

theorem isPathPrefix_iff (uri : Bytes) (loc : Location) :
    isPathPrefix (trimTrailingSlashExceptRoot uri) loc.key = true ↔ Matches uri loc := by
  rw [Matches, append_slash_prefix, List.prefix_iff_eq_take, isPathPrefix]
  split_ifs with hroot hshort htake hlen
  · exact iff_of_true rfl (.inl hroot)
  · refine iff_of_false (by simp) ?_
    rintro (h | h | ⟨h, -⟩)
    · exact hroot h
    · rw [h] at hshort
      exact absurd hshort (lt_irrefl _)
    · have hle := congrArg List.length h
      rw [List.length_take] at hle
      omega
  · refine iff_of_false (by simp) ?_
    rintro (h | h | ⟨h, -⟩)
    · exact hroot h
    · rw [h, List.take_length] at htake
      exact htake rfl
    · exact htake h.symm
  · refine iff_of_true rfl (.inr (.inl ?_))
    rw [ne_eq, not_not] at htake
    rw [← htake, ← hlen, List.take_length]
  · rw [ne_eq, not_not] at htake
    rw [beq_iff_eq]
    constructor
    · exact fun h => .inr (.inr ⟨htake.symm, h⟩)
    · rintro (h | h | ⟨-, h⟩)
      · exact absurd h hroot
      · rw [h] at hlen
        exact absurd rfl hlen
      · exact h

instance (uri : Bytes) : DecidablePred (Matches uri) := fun loc =>
  decidable_of_iff _ (isPathPrefix_iff uri loc)

/-- What matches is a beginning of the URI. -/
theorem Matches.key_isPrefix {uri : Bytes} {loc : Location} (h : Matches uri loc)
    (huri : uri.head? = some SLASH) : loc.key <+: trimTrailingSlashExceptRoot uri := by
  obtain h | h | h := h
  · obtain ⟨cs, hcs⟩ := List.head?_eq_some_iff.mp (trim_head huri)
    rw [h, hcs]
    exact ⟨cs, rfl⟩
  · rw [h]
  · exact ( append_slash_prefix.mp h).1

/-! ### The longest match -/

/-- No other location that matches has a longer name. -/
def IsLongest (uri : Bytes) (locs : List Location) (loc : Location) : Prop :=
  loc ∈ locs ∧ Matches uri loc ∧
    ∀ other ∈ locs, Matches uri other → other.key.length ≤ loc.key.length

/-- **The loop** computes an `argmax`. -/
theorem findBest_eq {uri : Bytes} {locs : List Location} (hpos : ∀ loc ∈ locs, 0 < loc.key.length)
    (best : Option Location) :
    ServerConfig.findBest (trimTrailingSlashExceptRoot uri) locs best
        (best.elim 0 fun loc => loc.key.length) =
      (locs.filter (Matches uri ·)).foldl
        (List.argAux fun a b => b.key.length < a.key.length) best := by
  induction locs generalizing best with
  | nil => rfl
  | cons loc locs ih =>
      obtain ⟨hloc, hlocs⟩ := List.forall_mem_cons.mp hpos
      have ih := ih hlocs
      have hkey : trimTrailingSlashExceptRoot loc.name = loc.key := rfl
      simp only [ServerConfig.findBest, hkey]
      by_cases hm : Matches uri loc
      · rw [List.filter_cons_of_pos (by simpa using hm), List.foldl_cons,
          (isPathPrefix_iff uri loc).mpr hm]
        cases best with
        | none =>
            rw [if_pos ⟨rfl, hloc⟩]
            exact ih (some loc)
        | some b =>
            by_cases hlt : b.key.length < loc.key.length
            · rw [if_pos ⟨rfl, hlt⟩]
              have hstep : List.argAux (fun a b : Location => b.key.length < a.key.length) (some b)
                  loc = some loc := if_pos hlt
              rw [hstep]
              exact ih (some loc)
            · rw [if_neg fun h => hlt h.2]
              have hstep : List.argAux (fun a b : Location => b.key.length < a.key.length) (some b)
                  loc = some b := if_neg hlt
              rw [hstep]
              exact ih (some b)
      · rw [List.filter_cons_of_neg (by simpa using hm),
          if_neg fun h => hm ((isPathPrefix_iff uri loc).mp h.1)]
        exact ih best

theorem findBest_eq_argmax {uri : Bytes} {locs : List Location}
    (hpos : ∀ loc ∈ locs, 0 < loc.key.length) :
    ServerConfig.findBest (trimTrailingSlashExceptRoot uri) locs none 0 =
      (locs.filter (Matches uri ·)).argmax fun loc => loc.key.length :=
  findBest_eq hpos none

theorem findBest_eq_none {uri : Bytes} {locs : List Location}
    (hpos : ∀ loc ∈ locs, 0 < loc.key.length) :
    ServerConfig.findBest (trimTrailingSlashExceptRoot uri) locs none 0 = none ↔
      ∀ loc ∈ locs, ¬ Matches uri loc := by
  rw [findBest_eq_argmax hpos, List.argmax_eq_none, List.filter_eq_nil_iff]
  simp only [decide_eq_true_eq]

theorem findBest_isLongest {uri : Bytes} {locs : List Location} {loc : Location}
    (hpos : ∀ loc ∈ locs, 0 < loc.key.length)
    (h : ServerConfig.findBest (trimTrailingSlashExceptRoot uri) locs none 0 = some loc) :
    IsLongest uri locs loc := by
  rw [findBest_eq_argmax hpos] at h
  have hmem := List.argmax_mem h
  rw [List.mem_filter, decide_eq_true_eq] at hmem
  refine ⟨hmem.1, hmem.2, fun other hother hm => ?_⟩
  apply List.le_of_mem_argmax _ h
  exact List.mem_filter.mpr ⟨hother, decide_eq_true hm⟩

/-- **The longest match is unique** where no name occurs twice. -/
theorem IsLongest.unique {uri : Bytes} {locs : List Location} {a b : Location}
    (huri : uri.head? = some SLASH) (hdistinct : (locs.map Location.key).Nodup)
    (ha : IsLongest uri locs a) (hb : IsLongest uri locs b) : a = b := by
  have hlen : a.key.length = b.key.length :=
    le_antisymm (hb.2.2 a ha.1 ha.2.1) (ha.2.2 b hb.1 hb.2.1)
  have hkey : a.key = b.key := by
    have hpa := List.prefix_iff_eq_take.mp (ha.2.1.key_isPrefix huri)
    have hpb := List.prefix_iff_eq_take.mp (hb.2.1.key_isPrefix huri)
    rw [hpa, hpb, hlen]
  exact List.inj_on_of_nodup_map hdistinct ha.1 hb.1 hkey

/-! ### Adding locations -/

/-- Calls of `AddLocation`, one after the other. -/
def addLocations (config : ServerConfig) (locs : List Location) : Except ConfigError ServerConfig :=
  locs.foldlM ServerConfig.addLocation config

theorem addLocation_eq_ok {config config' : ServerConfig} {loc : Location} :
    config.addLocation loc = .ok config' ↔
      loc.key ∉ config.locations.map Location.key ∧
        config' = { config with locations := config.locations ++ [loc] } := by
  have hany : (config.locations.any fun l =>
      trimTrailingSlashExceptRoot l.name = trimTrailingSlashExceptRoot loc.name) = true ↔
      loc.key ∈ config.locations.map Location.key := by
    simp [Location.key]
  rw [ServerConfig.addLocation]
  split_ifs with hdup
  · exact iff_of_false (fun h => by cases h) fun h => h.1 (hany.mp hdup)
  · constructor
    · intro h
      cases h
      exact ⟨fun hmem => hdup (hany.mpr hmem), rfl⟩
    · rintro ⟨-, rfl⟩
      rfl

/-- **`AddLocation` keeps the names apart.** -/
theorem addLocations_eq_ok {config config' : ServerConfig} {locs : List Location}
    (hconfig : (config.locations.map Location.key).Nodup) :
    addLocations config locs = .ok config' ↔
      ((config.locations ++ locs).map Location.key).Nodup ∧
        config' = { config with locations := config.locations ++ locs } := by
  induction locs generalizing config with
  | nil =>
      rw [List.append_nil]
      constructor
      · intro h
        cases h
        exact ⟨hconfig, rfl⟩
      · rintro ⟨-, rfl⟩
        rfl
  | cons loc locs ih =>
      have hcons : config.locations ++ loc :: locs = config.locations ++ [loc] ++ locs := by simp
      show (config.addLocation loc >>= fun config => addLocations config locs) = .ok config' ↔ _
      rcases hadd : config.addLocation loc with e | config1
      · refine iff_of_false (fun h => by cases h) fun h => ?_
        have hnew : loc.key ∉ config.locations.map Location.key := by
          intro hmem
          have hnodup := h.1
          rw [List.map_append, List.map_cons, List.nodup_append] at hnodup
          exact hnodup.2.2 _ hmem _ List.mem_cons_self rfl
        rw [addLocation_eq_ok.mpr ⟨hnew, rfl⟩] at hadd
        cases hadd
      · obtain ⟨hnew, rfl⟩ := addLocation_eq_ok.mp hadd
        have hnodup : ((config.locations ++ [loc]).map Location.key).Nodup := by
          rw [List.map_append, List.nodup_append]
          refine ⟨hconfig, List.nodup_singleton _, fun a ha b hb hab => hnew ?_⟩
          rw [← List.mem_singleton.mp hb, ← hab]
          exact ha
        rw [hcons]
        exact ih hnodup

/-! ### The selected location -/

theorem key_length_pos {loc : Location} (h : isValidLocationName loc.name = true) :
    0 < loc.key.length := by
  rw [isValidLocationName, Bool.and_eq_true, Bool.and_eq_true, beq_iff_eq] at h
  obtain ⟨cs, hcs⟩ := List.head?_eq_some_iff.mp h.1.1
  rw [Location.key, hcs]
  exact Nat.succ_pos _

/-- The remainder for a key of the URI and the key of the best location. -/
def remainderOf (uriKey bestKey : Bytes) : Bytes :=
  if uriKey.length = bestKey.length then [SLASH]
  else
    let remainder := uriKey.drop bestKey.length
    let remainder := if remainder = [] then [SLASH] else remainder
    if remainder.head? ≠ some SLASH then SLASH :: remainder else remainder

/-- What `FindLocationForUri` makes of what the loop has found. -/
theorem findLocationForUri_eq (config : ServerConfig) (uri : Bytes) :
    config.findLocationForUri uri =
      match ServerConfig.findBest (trimTrailingSlashExceptRoot uri) config.locations none 0 with
      | none => .error (.responseStatus .kNotFound)
      | some loc => .ok ⟨loc, remainderOf (trimTrailingSlashExceptRoot uri) loc.key⟩ := by
  rw [ServerConfig.findLocationForUri]
  rcases ServerConfig.findBest (trimTrailingSlashExceptRoot uri) config.locations none 0 with - | loc
  · rfl
  · by_cases hlen : (trimTrailingSlashExceptRoot uri).length =
        (trimTrailingSlashExceptRoot loc.name).length
    · simp only [remainderOf, Location.key, hlen, if_true]
    · simp only [remainderOf, Location.key, hlen, if_false]
      congr

/-- **The remainder** is what the URI has behind the name. -/
theorem remainderOf_spec {uri : Bytes} {loc : Location} (huri : uri.head? = some SLASH)
    (hm : Matches uri loc) :
    (remainderOf (trimTrailingSlashExceptRoot uri) loc.key).head? = some SLASH ∧
      splitPathSegments (trimTrailingSlashExceptRoot uri) = splitPathSegments loc.key ++
        splitPathSegments (remainderOf (trimTrailingSlashExceptRoot uri) loc.key) := by
  have hslash : ∀ s : Bytes, splitPathSegments (SLASH :: s) = splitPathSegments s :=
    fun s => split_sep _ _
  by_cases hlen : (trimTrailingSlashExceptRoot uri).length = loc.key.length
  · -- the URI is the name
    have hsame : trimTrailingSlashExceptRoot uri = loc.key := by
      have hpre := List.prefix_iff_eq_take.mp (hm.key_isPrefix huri)
      rw [hpre, ← hlen, List.take_length]
    rw [remainderOf, if_pos hlen, hsame]
    exact ⟨rfl, (List.append_nil _).symm⟩
  · have hempty : (trimTrailingSlashExceptRoot uri).drop loc.key.length ≠ [] := by
      intro hnil
      rw [List.drop_eq_nil_iff] at hnil
      exact hlen (le_antisymm hnil (hm.key_isPrefix huri).length_le)
    rw [remainderOf, if_neg hlen]
    dsimp only
    rw [if_neg hempty]
    obtain hkey | hsame | hbelow := hm
    · -- below the root there may be no slash
      obtain ⟨k, hk⟩ := List.head?_eq_some_iff.mp (trim_head huri)
      have hdrop : (SLASH :: k).drop [SLASH].length = k := rfl
      have hroot : splitPathSegments [SLASH] = [] := rfl
      rw [hkey, hk, hslash, hdrop, hroot, List.nil_append]
      by_cases hhead : k.head? = some SLASH
      · rw [if_neg (not_not_intro hhead)]
        exact ⟨hhead, rfl⟩
      · rw [if_pos hhead]
        exact ⟨rfl, (hslash k).symm⟩
    · exact absurd (by rw [hsame]) hlen
    · obtain ⟨rest, hrest⟩ := hbelow
      have hkey : trimTrailingSlashExceptRoot uri = loc.key ++ SLASH :: rest := by
        rw [← hrest, List.append_assoc]
        rfl
      have hdrop : (loc.key ++ SLASH :: rest).drop loc.key.length = SLASH :: rest := List.drop_left
      have hhead : ¬ (SLASH :: rest).head? ≠ some SLASH := not_not_intro rfl
      rw [hkey, hdrop, if_neg hhead, hslash, splitPathSegments, split_append_sep]
      exact ⟨rfl, rfl⟩

/-- The result depends on the set of the locations only. -/
theorem findLocationForUri_congr {config config' : ServerConfig} {uri : Bytes}
    (huri : uri.head? = some SLASH) (hpos : ∀ loc ∈ config.locations, 0 < loc.key.length)
    (hdistinct : (config.locations.map Location.key).Nodup)
    (hmem : ∀ loc, loc ∈ config'.locations ↔ loc ∈ config.locations) :
    config'.findLocationForUri uri = config.findLocationForUri uri := by
  have hpos' : ∀ loc ∈ config'.locations, 0 < loc.key.length :=
    fun loc hloc => hpos loc ((hmem loc).mp hloc)
  rw [findLocationForUri_eq, findLocationForUri_eq]
  rcases hbest : ServerConfig.findBest (trimTrailingSlashExceptRoot uri) config.locations none 0 with
    - | loc
  · have hnone : ServerConfig.findBest (trimTrailingSlashExceptRoot uri) config'.locations none 0 =
        none := by
      rw [findBest_eq_none hpos']
      intro loc hloc
      exact (findBest_eq_none hpos).mp hbest loc ((hmem loc).mp hloc)
    rw [hnone]
  · have hlongest := findBest_isLongest hpos hbest
    rcases hbest' : ServerConfig.findBest (trimTrailingSlashExceptRoot uri) config'.locations none 0
      with - | loc'
    · have hnone := (findBest_eq_none hpos').mp hbest' loc ((hmem loc).mpr hlongest.1)
      exact absurd hlongest.2.1 hnone
    · obtain ⟨hmem', hm', hmax'⟩ := findBest_isLongest hpos' hbest'
      have hlongest' : IsLongest uri config.locations loc' :=
        ⟨(hmem loc').mp hmem', hm', fun other hother => hmax' other ((hmem other).mpr hother)⟩
      rw [hlongest'.unique huri hdistinct hlongest]

/-- **Routing**: the location with the longest matching name, in whatever order the locations
were declared and whatever slashes the URI has at its end. -/
theorem findLocationForUri_longest {config config' : ServerConfig} {locs : List Location}
    (hconfig : config.locations = []) (hadd : addLocations config locs = .ok config')
    (hnames : ∀ loc ∈ locs, isValidLocationName loc.name = true) {uri : Bytes}
    (huri : uri.head? = some SLASH) :
    ((config'.findLocationForUri uri = .error (.responseStatus .kNotFound) ∧
          ∀ loc ∈ locs, ¬ Matches uri loc) ∨
      ∃ m, config'.findLocationForUri uri = .ok m ∧ IsLongest uri locs m.loc ∧
        (∀ loc, IsLongest uri locs loc → loc = m.loc) ∧ m.remainder.head? = some SLASH ∧
        splitPathSegments uri = splitPathSegments m.loc.name ++ splitPathSegments m.remainder) ∧
      (∀ locs', locs'.Perm locs → ∃ config'', addLocations config locs' = .ok config'' ∧
        config''.findLocationForUri uri = config'.findLocationForUri uri) ∧
      ∀ n, config'.findLocationForUri (uri ++ List.replicate n SLASH) =
        config'.findLocationForUri uri := by
  obtain ⟨hdistinct, rfl⟩ := (addLocations_eq_ok (by rw [hconfig]; exact List.nodup_nil)).mp hadd
  rw [hconfig, List.nil_append] at hdistinct ⊢
  have hpos : ∀ loc ∈ locs, 0 < loc.key.length := fun loc hloc => key_length_pos (hnames loc hloc)
  refine ⟨?_, fun locs' hperm => ?_, fun n => ?_⟩
  · rw [findLocationForUri_eq]
    rcases hbest : ServerConfig.findBest (trimTrailingSlashExceptRoot uri) locs none 0 with - | loc
    · exact .inl ⟨rfl, (findBest_eq_none hpos).mp hbest⟩
    · have hlongest := findBest_isLongest hpos hbest
      obtain ⟨hhead, hsplit⟩ := remainderOf_spec huri hlongest.2.1
      have hname : loc.name.head? = some SLASH := by
        have hvalid := hnames loc hlongest.1
        rw [isValidLocationName, Bool.and_eq_true, Bool.and_eq_true, beq_iff_eq] at hvalid
        exact hvalid.1.1
      have hkey : splitPathSegments loc.key = splitPathSegments loc.name := split_trim hname
      rw [split_trim huri, hkey] at hsplit
      exact .inr ⟨_, rfl, hlongest, fun other hother => hother.unique huri hdistinct hlongest,
        hhead, hsplit⟩
  · have hdistinct' : (([] ++ locs').map Location.key).Nodup :=
      (hperm.map Location.key).nodup_iff.mpr hdistinct
    refine ⟨{ config with locations := locs' }, ?_, ?_⟩
    · rw [addLocations_eq_ok (by rw [hconfig]; exact List.nodup_nil), hconfig]
      exact ⟨hdistinct', rfl⟩
    · exact findLocationForUri_congr huri hpos hdistinct fun loc => hperm.mem_iff
  · obtain ⟨cs, rfl⟩ := List.head?_eq_some_iff.mp huri
    rw [findLocationForUri_eq, findLocationForUri_eq, trim_append_slashes]

/-- Two locations and a URI with slashes at its end. -/
theorem findLocationForUri_longest_images :
    ((({ locations := [{ name := bytes "/" }, { name := bytes "/images/" }] } :
            ServerConfig).findLocationForUri (bytes "/images/cat//") =
          .error (.responseStatus .kNotFound) ∧
        ∀ loc ∈ [{ name := bytes "/" }, { name := bytes "/images/" }],
          ¬ Matches (bytes "/images/cat//") loc) ∨
      ∃ m, ({ locations := [{ name := bytes "/" }, { name := bytes "/images/" }] } :
            ServerConfig).findLocationForUri (bytes "/images/cat//") = .ok m ∧
        IsLongest (bytes "/images/cat//") [{ name := bytes "/" }, { name := bytes "/images/" }] m.loc ∧
        (∀ loc, IsLongest (bytes "/images/cat//")
          [{ name := bytes "/" }, { name := bytes "/images/" }] loc → loc = m.loc) ∧
        m.remainder.head? = some SLASH ∧
        splitPathSegments (bytes "/images/cat//") =
          splitPathSegments m.loc.name ++ splitPathSegments m.remainder) :=
  (@findLocationForUri_longest {} _ _ rfl rfl (by decide) _ (by decide)).1

end Webserv
