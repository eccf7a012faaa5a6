/-
Webserv/ConfigNumbers.lean

The numbers of the configuration file.

A port is a string of digits before it is converted.  A body size and an error code are
whatever `std::atoi` makes of a token: it skips white space, takes a sign, ignores what
stands behind the digits and reads modulo 2^32, and only its result is checked.
-/
import Webserv.ConfigFile
import Webserv.LocationBlock
import Webserv.HttpRequest.NumericField

namespace Webserv

/-! ### Numerals -/

/-- A numeral whose value fits into an `int`. -/
def IsIntNumeral (t : Bytes) : Prop := ∃ n, IsNumeral t n ∧ n < 2 ^ 31

theorem atoi_numeral {t : Bytes} {n : Nat} (h : IsNumeral t n) (hn : n < 2 ^ 31) :
    atoi t = n := by
  obtain ⟨-, hdigits, rfl⟩ := h
  rw [atoi, scanInteger_digits hdigits]
  show ((decimalVal t : Int) + 2 ^ 31) % 2 ^ 32 - 2 ^ 31 = decimalVal t
  omega

theorem strToUnsignedShort_numeral {t : Bytes} {n : Nat} (h : IsNumeral t n) (hn : n ≤ 65535) :
    strToUnsignedShort t = some n := by
  obtain ⟨hne, hdigits, rfl⟩ := h
  obtain ⟨d, ds, rfl⟩ := List.exists_cons_of_ne_nil hne
  simp only [strToUnsignedShort, scanInteger_digits hdigits, if_pos hn]

/-- **A port is a numeral.** -/
theorem isValidPortNumber_numeral {t : Bytes} (h : isValidPortNumber t = true) :
    ∃ n, IsNumeral t n ∧ 1 ≤ n ∧ n ≤ 65535 ∧ strToUnsignedShort t = some n := by
  rw [isValidPortNumber] at h
  split_ifs at h with hlen hdigits
  rw [not_or] at hlen
  rw [Bool.not_eq_true', Bool.not_eq_false, List.all_eq_true] at hdigits
  have hnumeral : IsNumeral t (decimalVal t) := ⟨hlen.1, hdigits, rfl⟩
  -- five digits do not reach 2^31
  have hsmall : decimalVal t < 2 ^ 31 := by
    have hdigit : ∀ c ∈ t, digitVal c < 10 := by
      intro c hc
      have hbound := isDigit_iff.mp (hdigits c hc)
      rw [digitVal]
      omega
    have hlt := Numeral.valueFrom_lt digitVal 0 hdigit
    have hpow : 10 ^ t.length ≤ 10 ^ 5 := Nat.pow_le_pow_right (by omega) (by omega)
    exact hlt.trans (by omega)
  rw [Bool.and_eq_true, decide_eq_true_iff, decide_eq_true_iff, atoi_numeral hnumeral hsmall] at h
  have hle : decimalVal t ≤ 65535 := by omega
  exact ⟨_, hnumeral, by omega, hle, strToUnsignedShort_numeral hnumeral hle⟩

/-! ### Directives of a server -/

/-- The port in the argument of `listen`, if there is one. -/
def portToken (t : Bytes) : Option Bytes :=
  if t.contains COLON then some ((t.dropWhile (· ≠ COLON)).drop 1)
  else if isAllDigits t then some t
  else none

/-- What a directive does to its server. -/
inductive ServerEffect : Directive → ServerConfig → ServerConfig → Prop
  | listen {config : ServerConfig} {t host : Bytes} {port : Nat}
      (hunset : config.hasListen = false)
      (hport : ∀ s, portToken t = some s → IsNumeral s port ∧ 1 ≤ port ∧ port ≤ 65535) :
      ServerEffect ⟨bytes "listen", [t, bytes ";"]⟩ config
        { config with host := host, port := port, hasListen := true }
  | serverName {config : ServerConfig} {t : Bytes} :
      ServerEffect ⟨bytes "server_name", [t, bytes ";"]⟩ config
        { config with serverName := t, hasServerName := true }
  | maxBody {config : ServerConfig} {t : Bytes} (hunset : config.hasMaxBody = false)
      (hmin : 0 ≤ atoi t) (hmax : atoi t ≤ 100000000) :
      ServerEffect ⟨bytes "client_max_body_size", [t, bytes ";"]⟩ config
        { config with maxBodySize := atoi t, hasMaxBody := true }
  | errorPage {config : ServerConfig} {t path absolute : Bytes} (hmin : 400 ≤ atoi t)
      (hmax : atoi t ≤ 599) :
      ServerEffect ⟨bytes "error_page", [t, path, bytes ";"]⟩ config
        (config.setErrorPage (atoi t) absolute)
  | location {config : ServerConfig} {taken : List Bytes} {loc : Location} :
      ServerEffect ⟨bytes "location", taken⟩ config
        { config with locations := config.locations ++ [loc] }

variable {config config' : ServerConfig} {p q : ConfigParser} {w : List Bytes}

theorem parseServerName_effect (h : (parseServerName config).run p = .ok config' q)
    (hw : p.rest = w ++ q.rest) : ServerEffect ⟨bytes "server_name", w⟩ config config' := by
  have hparses : Parses (parseServerName config) _ := .argument .throw fun t ht =>
    .check (.call_bind fun c => .semicolon)
  obtain ⟨t, -, ⟨-, c, hset, rfl⟩, hp⟩ := (hparses p config' q.rest).mp ⟨q, h, rfl⟩
  have htaken : w = [t, bytes ";"] := List.append_cancel_right (hw.symm.trans hp)
  rw [ServerConfig.setServerName] at hset
  split_ifs at hset
  · cases hset
  · cases hset
    rw [htaken]
    exact .serverName

theorem parseMaxBody_effect (h : (parseMaxBody config).run p = .ok config' q)
    (hw : p.rest = w ++ q.rest) :
    ServerEffect ⟨bytes "client_max_body_size", w⟩ config config' := by
  have hparses : Parses (parseMaxBody config) _ := .argument .throw fun t ht =>
    .check (.check (.call_bind fun c => .semicolon))
  obtain ⟨t, -, ⟨-, hrange, c, hset, rfl⟩, hp⟩ := (hparses p config' q.rest).mp ⟨q, h, rfl⟩
  have htaken : w = [t, bytes ";"] := List.append_cancel_right (hw.symm.trans hp)
  rw [not_or] at hrange
  rw [ServerConfig.setMaxBodySize] at hset
  split_ifs at hset with hflag
  · cases hset
  · cases hset
    rw [htaken]
    exact .maxBody (Bool.eq_false_of_not_eq_true hflag) (Int.not_lt.mp hrange.1)
      (Int.not_lt.mp hrange.2)

theorem parseErrorPage_effect (h : (parseErrorPage config).run p = .ok config' q)
    (hw : p.rest = w ++ q.rest) : ServerEffect ⟨bytes "error_page", w⟩ config config' := by
  have hparses : Parses (parseErrorPage config) _ := .token .throw fun t ht =>
    .check (.check (.argument .throw fun path hpath => .check (.check .semicolon)))
  obtain ⟨t, v, -, hp, -, hrange, path, -, ⟨-, -, rfl⟩, rfl⟩ :=
    (hparses p config' q.rest).mp ⟨q, h, rfl⟩
  have htaken : w = [t, path, bytes ";"] := List.append_cancel_right (hw.symm.trans hp)
  rw [not_or] at hrange
  rw [htaken]
  exact .errorPage (Int.not_lt.mp hrange.1) (Int.not_lt.mp hrange.2)

theorem setListen_ok {host : Bytes} {port : Nat} :
    config.setListen host port = .ok config' ↔ config.hasListen = false ∧
      config' = { config with host := host, port := port, hasListen := true } := by
  rw [ServerConfig.setListen]
  cases config.hasListen with
  | true =>
      refine iff_of_false (fun h => ?_) fun h => Bool.noConfusion h.1
      cases h
  | false =>
      constructor
      · intro h
        cases h
        exact ⟨rfl, rfl⟩
      · rintro ⟨-, rfl⟩
        rfl

theorem parseListen_effect (h : (parseListen config).run p = .ok config' q)
    (hw : p.rest = w ++ q.rest) : ServerEffect ⟨bytes "listen", w⟩ config config' := by
  have hparses : Parses (parseListen config) _ := .token .throw fun t ht => .check
    (.ite (fun hcolon => .check (.check (.expect (c := id) .call))) fun hcolon =>
      .expect (c := id) (.ite (fun hdigits => .check .call) fun hdigits => .check .call))
  obtain ⟨t, v, -, hp, -, hcase⟩ := (hparses p config' q.rest).mp ⟨q, h, rfl⟩
  by_cases hcolon : t.contains COLON = true
  · -- a host and a port
    simp only [if_pos hcolon] at hcase
    obtain ⟨-, hport, v', rfl, hset, rfl⟩ := hcase
    rw [Bool.not_eq_true', Bool.not_eq_false] at hport
    obtain ⟨n, hnumeral, hmin, hmax, hvalue⟩ := isValidPortNumber_numeral hport
    rw [portValue, hvalue] at hset
    obtain ⟨hunset, rfl⟩ := setListen_ok.mp hset
    rw [List.append_cancel_right (hw.symm.trans hp : w ++ q.rest = [t, bytes ";"] ++ q.rest)]
    refine .listen hunset fun s hs => ?_
    rw [portToken, if_pos hcolon] at hs
    cases hs
    exact ⟨hnumeral, hmin, hmax⟩
  · simp only [if_neg hcolon] at hcase
    obtain ⟨v', rfl, hcase⟩ := hcase
    by_cases hdigits : isAllDigits t = true
    · -- a port only
      simp only [if_pos hdigits] at hcase
      obtain ⟨hport, hset, rfl⟩ := hcase
      rw [Bool.not_eq_true', Bool.not_eq_false] at hport
      obtain ⟨n, hnumeral, hmin, hmax, hvalue⟩ := isValidPortNumber_numeral hport
      rw [portValue, hvalue] at hset
      obtain ⟨hunset, rfl⟩ := setListen_ok.mp hset
      rw [List.append_cancel_right (hw.symm.trans hp : w ++ q.rest = [t, bytes ";"] ++ q.rest)]
      refine .listen hunset fun s hs => ?_
      rw [portToken, if_neg hcolon, if_pos hdigits] at hs
      cases hs
      exact ⟨hnumeral, hmin, hmax⟩
    · -- a host only
      simp only [if_neg hdigits] at hcase
      obtain ⟨-, hset, rfl⟩ := hcase
      obtain ⟨hunset, rfl⟩ := setListen_ok.mp hset
      rw [List.append_cancel_right (hw.symm.trans hp : w ++ q.rest = [t, bytes ";"] ++ q.rest)]
      refine .listen hunset fun s hs => ?_
      rw [portToken, if_neg hcolon, if_neg hdigits] at hs
      cases hs

/-- **The `switch` of `ParseServer`.** -/
theorem parseServerDirective_effect {cwd : Option Bytes} {d : Directive}
    (h : (parseServerDirective cwd d.keyword config).run p = .ok config' q)
    (hw : p.rest = d.taken ++ q.rest) : ServerEffect d config config' := by
  obtain ⟨keyword, taken⟩ := d
  rw [parseServerDirective] at h
  split at h
  · rename_i hkind
    obtain rfl := keyword_eq "listen" hkind (by decide) (by decide +kernel)
    exact parseListen_effect h hw
  · rename_i hkind
    obtain rfl := keyword_eq "server_name" hkind (by decide) (by decide +kernel)
    exact parseServerName_effect h hw
  · rename_i hkind
    obtain rfl := keyword_eq "client_max_body_size" hkind (by decide) (by decide +kernel)
    exact parseMaxBody_effect h hw
  · rename_i hkind
    obtain rfl := keyword_eq "error_page" hkind (by decide) (by decide +kernel)
    exact parseErrorPage_effect h hw
  · rename_i hkind
    obtain rfl := keyword_eq "location" hkind (by decide) (by decide +kernel)
    obtain ⟨name, stmts, loc, -, -, hadd⟩ := parseLocation_iff.mp h
    obtain ⟨-, rfl⟩ := addLocation_eq_ok.mp hadd
    exact .location
  · cases h

/-! ### Blocks of servers -/

/-- A field that is set once, and kept by the other directives. -/
theorem ReadsBlock.once {cwd : Option Bytes} (keyword : Bytes) (flag : ServerConfig → Bool)
    (P : Directive → ServerConfig → Prop)
    (hset : ∀ d x y, ServerEffect d x y → d.keyword = keyword →
      flag x = false ∧ flag y = true ∧ P d y)
    (hkeep : ∀ d x y, ServerEffect d x y → d.keyword ≠ keyword →
      flag y = flag x ∧ ∀ d', P d' x → P d' y) {ds : List Directive}
    (h : ReadsBlock (parseServerDirective cwd) p config ds q config') :
    (flag config = true → ∀ d', P d' config → P d' config') ∧
      ∀ d ∈ ds, d.keyword = keyword → P d config' := by
  induction h with
  | nil => exact ⟨fun _ d' hd' => hd', fun d hd => absurd hd List.not_mem_nil⟩
  | @cons _ _ _ _ x y z d ds hkeyword hrun htaken h ih =>
      have heffect := parseServerDirective_effect hrun htaken
      by_cases hd : d.keyword = keyword
      · obtain ⟨hx, hy, hP⟩ := hset d x y heffect hd
        refine ⟨fun hx' => ?_, List.forall_mem_cons.mpr ⟨fun _ => ih.1 hy d hP, ih.2⟩⟩
        rw [hx] at hx'
        cases hx'
      · obtain ⟨hflag, hP⟩ := hkeep d x y heffect hd
        refine ⟨fun hx d' hd' => ih.1 (hflag.trans hx) d' (hP d' hd'),
          List.forall_mem_cons.mpr ⟨fun h => absurd h hd, ih.2⟩⟩

theorem mem_setErrorPage {code code' : Int} {path : Bytes} :
    code' ∈ (config.setErrorPage code path).errors ↔ code' = code ∨ code' ∈ config.errors := by
  rw [ServerConfig.setErrorPage, Std.ExtTreeMap.mem_insert, Std.LawfulEqCmp.compare_eq_iff_eq,
    eq_comm]

theorem ServerEffect.errors {d : Directive} (h : ServerEffect d config config') :
    (∃ t w, d = ⟨bytes "error_page", t :: w⟩ ∧ (400 ≤ atoi t ∧ atoi t ≤ 599) ∧
      ∀ code, code ∈ config'.errors ↔ code = atoi t ∨ code ∈ config.errors) ∨
    d.keyword ≠ bytes "error_page" ∧ config'.errors = config.errors := by
  cases h with
  | @errorPage _ t path _ hmin hmax =>
      exact .inl ⟨t, [path, bytes ";"], rfl, ⟨hmin, hmax⟩, fun code => mem_setErrorPage⟩
  | listen | serverName | maxBody | location =>
      refine .inr ⟨?_, rfl⟩
      dsimp only
      decide +kernel

/-- **The codes that have a page.** -/
theorem ReadsBlock.errors {cwd : Option Bytes} {ds : List Directive}
    (h : ReadsBlock (parseServerDirective cwd) p config ds q config') :
    (∀ code, code ∈ config'.errors ↔ code ∈ config.errors ∨
      ∃ t w, Directive.mk (bytes "error_page") (t :: w) ∈ ds ∧ code = atoi t) ∧
    ∀ t w, Directive.mk (bytes "error_page") (t :: w) ∈ ds → 400 ≤ atoi t ∧ atoi t ≤ 599 := by
  -- on the statements of the block
  induction h with
  | nil =>
      constructor
      · intro code
        refine (or_iff_left ?_).symm
        rintro ⟨t, w, hmem, -⟩
        exact absurd hmem List.not_mem_nil
      · exact fun t w hmem => absurd hmem List.not_mem_nil
  | @cons _ _ _ _ x y z d ds hkeyword hrun htaken h ih =>
      obtain ⟨hcodes, hrange⟩ := ih
      obtain ⟨t, w, rfl, ht, hy⟩ | ⟨hkey, hy⟩ := (parseServerDirective_effect hrun htaken).errors
      · constructor
        · intro code
          rw [hcodes, hy]
          constructor
          · rintro ((hcode | hx) | ⟨t', w', hmem, hcode⟩)
            · exact .inr ⟨t, w, List.mem_cons_self, hcode⟩
            · exact .inl hx
            · exact .inr ⟨t', w', List.mem_cons_of_mem _ hmem, hcode⟩
          · rintro (hx | ⟨t', w', hmem, hcode⟩)
            · exact .inl (.inr hx)
            · obtain heq | hmem := List.mem_cons.mp hmem
              · cases heq
                exact .inl (.inl hcode)
              · exact .inr ⟨t', w', hmem, hcode⟩
        · intro t' w' hmem
          obtain heq | hmem := List.mem_cons.mp hmem
          · cases heq
            exact ht
          · exact hrange t' w' hmem
      · -- another directive
        have hmem : ∀ t w, Directive.mk (bytes "error_page") (t :: w) ∈ d :: ds ↔
            Directive.mk (bytes "error_page") (t :: w) ∈ ds := by
          intro t w
          rw [List.mem_cons, or_iff_right]
          rintro rfl
          exact hkey rfl
        simp only [hmem, ← hy]
        exact ⟨hcodes, hrange⟩

/-- The numbers in a block mean what they say. -/
structure NumbersMean (b : ServerBlock) : Prop where
  maxBody : ∀ t w, Directive.mk (bytes "client_max_body_size") (t :: w) ∈ b.directives →
    ∃ n, IsNumeral t n ∧ n ≤ 100000000 ∧ b.config.maxBodySize = n
  errorPage : ∀ t w, Directive.mk (bytes "error_page") (t :: w) ∈ b.directives →
    ∃ n : Nat, IsNumeral t n ∧ 400 ≤ n ∧ n ≤ 599 ∧ (n : Int) ∈ b.config.errors
  errors : ∀ code ∈ b.config.errors, ∃ t w n, Directive.mk (bytes "error_page") (t :: w) ∈
    b.directives ∧ IsNumeral t n ∧ code = n
  listen : ∀ t w s, Directive.mk (bytes "listen") (t :: w) ∈ b.directives →
    portToken t = some s → ∃ n, IsNumeral s n ∧ 1 ≤ n ∧ n ≤ 65535 ∧ b.config.port = n

/-- The tokens that `std::atoi` reads are numerals, and fit into an `int`. -/
def NumeralsGiven (b : ServerBlock) : Prop :=
  ∀ d ∈ b.directives,
    d.keyword = bytes "client_max_body_size" ∨ d.keyword = bytes "error_page" →
    ∀ t ∈ d.taken.head?, IsIntNumeral t

section Block

variable {cwd : Option Bytes} {b : ServerBlock}

theorem maxBody_stored (h : ReadsBlock (parseServerDirective cwd) p {} b.directives q b.config)
    {t : Bytes} (hmem : Directive.mk (bytes "client_max_body_size") (t :: w) ∈ b.directives) :
    0 ≤ atoi t ∧ atoi t ≤ 100000000 ∧ b.config.maxBodySize = atoi t := by
  refine (ReadsBlock.once (bytes "client_max_body_size") ServerConfig.hasMaxBody
    (fun d z => ∀ t w, d.taken = t :: w →
      0 ≤ atoi t ∧ atoi t ≤ 100000000 ∧ z.maxBodySize = atoi t) ?_ ?_ h).2 _ hmem rfl t w rfl
  · intro d x y heffect hkey
    cases heffect with
    | maxBody hunset hmin hmax =>
        refine ⟨hunset, rfl, fun t' w' ht => ?_⟩
        cases ht
        exact ⟨hmin, hmax, rfl⟩
    | listen | serverName | errorPage | location =>
        dsimp only at hkey
        exact absurd hkey (by decide +kernel)
  · intro d x y heffect hkey
    cases heffect with
    | maxBody => exact absurd rfl hkey
    | listen | serverName | errorPage | location => exact ⟨rfl, fun d' hd' => hd'⟩

theorem listen_stored (h : ReadsBlock (parseServerDirective cwd) p {} b.directives q b.config)
    {t s : Bytes} (hmem : Directive.mk (bytes "listen") (t :: w) ∈ b.directives)
    (hs : portToken t = some s) :
    IsNumeral s b.config.port ∧ 1 ≤ b.config.port ∧ b.config.port ≤ 65535 := by
  refine (ReadsBlock.once (bytes "listen") ServerConfig.hasListen
    (fun d z => ∀ t w s, d.taken = t :: w → portToken t = some s →
      IsNumeral s z.port ∧ 1 ≤ z.port ∧ z.port ≤ 65535) ?_ ?_ h).2 _ hmem rfl t w s rfl hs
  · intro d x y heffect hkey
    cases heffect with
    | listen hunset hport =>
        refine ⟨hunset, rfl, fun t' w' s' ht hs' => ?_⟩
        cases ht
        exact hport s' hs'
    | maxBody | serverName | errorPage | location =>
        dsimp only at hkey
        exact absurd hkey (by decide +kernel)
  · intro d x y heffect hkey
    cases heffect with
    | listen => exact absurd rfl hkey
    | maxBody | serverName | errorPage | location => exact ⟨rfl, fun d' hd' => hd'⟩

theorem numbersMean_iff
    (h : ReadsBlock (parseServerDirective cwd) p {} b.directives q b.config) :
    NumbersMean b ↔ NumeralsGiven b := by
  obtain ⟨hcodes, hrange⟩ := h.errors
  constructor
  · rintro hmean ⟨keyword, taken⟩ hd hkey t ht
    obtain ⟨w, rfl⟩ := List.head?_eq_some_iff.mp ht
    obtain rfl | rfl := hkey
    · obtain ⟨n, hn, hmax, -⟩ := hmean.maxBody t w hd
      exact ⟨n, hn, by omega⟩
    · obtain ⟨n, hn, -, hmax, -⟩ := hmean.errorPage t w hd
      exact ⟨n, hn, by omega⟩
  · intro hgiven
    have hcode : ∀ t w, Directive.mk (bytes "error_page") (t :: w) ∈ b.directives →
        ∃ n : Nat, IsNumeral t n ∧ atoi t = n := by
      intro t w hd
      obtain ⟨n, hn, hlt⟩ := hgiven _ hd (.inr rfl) t rfl
      exact ⟨n, hn, atoi_numeral hn hlt⟩
    constructor
    · intro t w hd
      obtain ⟨n, hn, hlt⟩ := hgiven _ hd (.inl rfl) t rfl
      obtain ⟨-, hmax, hstored⟩ := maxBody_stored h hd
      rw [atoi_numeral hn hlt] at hmax hstored
      exact ⟨n, hn, by omega, hstored⟩
    · intro t w hd
      obtain ⟨n, hn, hvalue⟩ := hcode t w hd
      have hmem : atoi t ∈ b.config.errors := (hcodes _).mpr (.inr ⟨t, w, hd, rfl⟩)
      have hbounds := hrange t w hd
      rw [hvalue] at hmem hbounds
      exact ⟨n, hn, by omega, by omega, hmem⟩
    · intro code hcode'
      obtain hempty | ⟨t, w, hd, rfl⟩ := (hcodes code).mp hcode'
      · exact absurd hempty Std.ExtTreeMap.not_mem_empty
      · obtain ⟨n, hn, hvalue⟩ := hcode t w hd
        exact ⟨t, w, n, hd, hn, hvalue⟩
    · intro t w s hd hs
      obtain ⟨hn, hmin, hmax⟩ := listen_stored h hd hs
      exact ⟨_, hn, hmin, hmax, rfl⟩

end Block

/-- The blocks of a file. -/
theorem ReadsFile.mem {cwd : Option Bytes} {bs : List ServerBlock} (h : ReadsFile cwd p bs) :
    ∀ b ∈ bs, ∃ p1 q1, ReadsBlock (parseServerDirective cwd) p1 {} b.directives q1 b.config := by
  induction h with
  | nil hend => exact fun b hb => absurd hb List.not_mem_nil
  | cons hserver hopen hblock hclose h ih =>
      exact List.forall_mem_cons.mpr ⟨⟨_, _, hblock⟩, ih⟩

/-- **The numbers of a file that is accepted** mean what they say exactly if those read with
`std::atoi` are numerals that fit into an `int`. -/
theorem parse_numbers_iff {cwd : Option Bytes} {content : Bytes} {configs : List ServerConfig}
    (h : ConfigParser.parse cwd content = .ok configs) :
    ∃ bs, ReadsFile cwd { content := content } bs ∧ configs = bs.map ServerBlock.config ∧
      ((∀ b ∈ bs, NumbersMean b) ↔ ∀ b ∈ bs, NumeralsGiven b) := by
  obtain ⟨bs, hbs, hconfigs⟩ := parse_iff.mp h
  refine ⟨bs, hbs, hconfigs, forall₂_congr fun b hb => ?_⟩
  obtain ⟨p1, q1, hblock⟩ := hbs.mem b hb
  exact numbersMean_iff hblock

/-- A file whose numbers are numerals. -/
theorem parse_numbers_iff_numerals :
    ∃ configs, ConfigParser.parse none
        (bytes "server \x7b client_max_body_size 100; error_page 404 /e; \x7d") = .ok configs ∧
      ∃ bs,
        ReadsFile none
          ⟨bytes "server \x7b client_max_body_size 100; error_page 404 /e; \x7d", 0, []⟩ bs ∧
        configs = bs.map ServerBlock.config ∧
        ((∀ b ∈ bs, NumbersMean b) ↔ ∀ b ∈ bs, NumeralsGiven b) := by
  have hok : (ConfigParser.parse none
      (bytes "server \x7b client_max_body_size 100; error_page 404 /e; \x7d")).isOk = true := by
    decide +kernel
  rcases h : ConfigParser.parse none
      (bytes "server \x7b client_max_body_size 100; error_page 404 /e; \x7d") with e | configs
  · rw [h] at hok
    cases hok
  · exact ⟨configs, rfl, parse_numbers_iff h⟩

/-- A body size of `10M` is taken as 10. -/
theorem parse_numbers_fails :
    ¬ ∀ (cwd : Option Bytes) (content : Bytes) (configs : List ServerConfig),
      ConfigParser.parse cwd content = .ok configs →
      ∀ bs, ReadsFile cwd { content := content } bs → ∀ b ∈ bs, NumbersMean b := by
  intro hmean
  have hok : (ConfigParser.parse none
      (bytes "server \x7b client_max_body_size 10M; \x7d")).isOk = true := by
    decide +kernel
  rcases hparse : ConfigParser.parse none
      (bytes "server \x7b client_max_body_size 10M; \x7d") with e | configs
  · rw [hparse] at hok
    cases hok
  · obtain ⟨bs, hbs, -⟩ := parse_iff.mp hparse
    have hall := hmean none _ configs hparse bs hbs
    have hrest : ConfigParser.rest
        { content := bytes "server \x7b client_max_body_size 10M; \x7d" } =
        [bytes "server", bytes "\x7b", bytes "client_max_body_size", bytes "10M", bytes ";",
          bytes "\x7d"] := by
      decide +kernel
    cases hbs with
    | nil hend =>
        obtain ⟨-, q, hrun, -⟩ := tokenize_cons hrest
        rw [hrun] at hend
        cases hend
    | @cons _ p1 p2 p3 q b bs hserver hopen hblock hclose h =>
        have hp1 := List.cons.inj ((rest_of_tokenize hserver (by decide)).symm.trans hrest)
        have hp2 := List.cons.inj ((rest_of_tokenize hopen (by decide)).symm.trans hp1.2)
        obtain ⟨directives, config⟩ := b
        dsimp only at hblock
        cases hblock with
        | nil =>
            have hp3 := (rest_of_tokenize hclose (by decide)).symm.trans hp2.2
            exact absurd (List.cons.inj hp3).1 (by decide +kernel)
        | @cons _ p4 p5 _ _ y _ d ds hkeyword hrun htaken h =>
            have heffect := parseServerDirective_effect hrun htaken
            obtain ⟨-, q0, hrun0, hq0⟩ := tokenize_cons hp2.2
            rw [hrun0] at hkeyword
            obtain ⟨hkey, rfl⟩ := EStateM.Result.ok.inj hkeyword
            rw [hq0] at htaken
            cases heffect with
            | maxBody hunset hmin hmax =>
                obtain ⟨n, ⟨-, hdigits, -⟩, -⟩ :=
                  (hall _ List.mem_cons_self).maxBody _ _ List.mem_cons_self
                rw [← (List.cons.inj htaken).1] at hdigits
                exact absurd hdigits (by decide +kernel)
            | listen | serverName | errorPage | location =>
                dsimp only at hkey
                exact absurd hkey (by decide +kernel)

end Webserv
