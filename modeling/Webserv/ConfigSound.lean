/-
Webserv/ConfigSound.lean

What `ConfigParser::Parse` accepts.

Each function of the parser takes its tokens from the front of those that are left.
`Takes` says what these tokens are, and has one rule for each construct of the
functions; the two loops over directives are inductions on their fuel.
-/
import Webserv.ConfigGrammar
import Webserv.Theory.ExceptState

namespace Webserv

open Language (only)
open scoped Computability

/-! ### What a function takes -/

/-- The tokens that are left. -/
def ConfigParser.rest (p : ConfigParser) : List Bytes := tokens (p.content.drop p.currentPos)

theorem dropWhile_of_firstToken_nil {s : Bytes} (h : firstToken s = []) :
    s.dropWhile isConfigSpace = [] := by
  rcases hdrop : s.dropWhile isConfigSpace with - | ⟨c, cs⟩
  · rfl
  · -- what is no white space begins a token
    have hc : isConfigSpace c = false := by
      have hne : s.dropWhile isConfigSpace ≠ [] := by
        rw [hdrop]
        exact List.cons_ne_nil c cs
      have hhead := List.head_dropWhile_not isConfigSpace hne
      simp only [hdrop, List.head_cons] at hhead
      exact hhead
    rw [firstToken, hdrop] at h
    dsimp only at h
    split_ifs at h with hspecial
    rw [List.takeWhile_cons, if_pos (by simp [hc, hspecial])] at h
    cases h

theorem tokens_afterToken (s : Bytes) : tokens (afterToken s) = (tokens s).tail := by
  rw [tokens_eq s]
  split_ifs with h
  · have hall : s.takeWhile isConfigSpace = s := by
      have happend := List.takeWhile_append_dropWhile (p := isConfigSpace) (l := s)
      rw [dropWhile_of_firstToken_nil h, List.append_nil] at happend
      exact happend
    rw [afterToken, h, hall, List.drop_of_length_le (Nat.le_add_right _ _)]
    rfl
  · rfl

/-- **`Tokenize`** takes the first of them; the empty token says that there is none. -/
theorem tokenize_run (p : ConfigParser) :
    ∃ t q, tokenize.run p = .ok t q ∧
      (t = [] ∧ p.rest = [] ∧ q.rest = [] ∨ t ≠ [] ∧ p.rest = t :: q.rest) := by
  by_cases hend : p.currentPos ≥ p.content.length
  · have hdrop : p.content.drop p.currentPos = [] := List.drop_of_length_le hend
    have hrest : p.rest = [] := by
      rw [ConfigParser.rest, hdrop]
      rfl
    refine ⟨[], p, ?_, .inl ⟨rfl, hrest, hrest⟩⟩
    simp only [tokenize, EStateM.run_bind, EStateM.run_get, if_pos hend]
    rfl
  · refine ⟨_, _, by simp only [tokenize, EStateM.run_bind, EStateM.run_get, if_neg hend]; rfl, ?_⟩
    have htail := tokens_afterToken (p.content.drop p.currentPos)
    rw [afterToken, List.drop_drop, ← Nat.add_assoc] at htail
    have hfirst := tokens_eq (p.content.drop p.currentPos)
    show (_ ∧ tokens _ = [] ∧ tokens _ = []) ∨ (_ ∧ tokens _ = _ :: tokens _)
    rw [htail, hfirst]
    split_ifs with h
    · exact .inl ⟨h, rfl, rfl⟩
    · exact .inr ⟨h, rfl⟩

/-- What `x` takes, when it returns, are tokens of `L`. -/
def Takes {τ : Type} (x : ConfigM τ) (L : Language Bytes) : Prop :=
  ∀ p a q, x.run p = .ok a q → ∃ w ∈ L, p.rest = w ++ q.rest

/-- As `Takes`, but `x` may also run into the end of the text. -/
def TakesOrEnds {τ : Type} (x : ConfigM τ) (L : Language Bytes) : Prop :=
  ∀ p a q, x.run p = .ok a q → q.rest = [] ∨ ∃ w ∈ L, p.rest = w ++ q.rest

namespace Takes

variable {τ υ : Type} {x y : ConfigM τ} {L M : Language Bytes}

theorem orEnds (h : Takes x L) : TakesOrEnds x L := fun p a q hrun => .inr (h p a q hrun)

theorem mono (h : Takes x L) (hle : ∀ w ∈ L, w ∈ M) : Takes x M := by
  intro p a q hrun
  obtain ⟨w, hw, hrest⟩ := h p a q hrun
  exact ⟨w, hle w hw, hrest⟩

theorem throw {e : ConfigError} : Takes (MonadExcept.throw e : ConfigM τ) L := by
  intro p a q hrun
  cases hrun

theorem pure {a : τ} : Takes (Pure.pure a : ConfigM τ) 1 := by
  intro p a q hrun
  cases hrun
  exact ⟨[], rfl, rfl⟩

theorem ite {c : Prop} [Decidable c] (hx : c → Takes x L) (hy : ¬ c → Takes y L) :
    Takes (if c then x else y) L := by
  split
  · exact hx ‹c›
  · exact hy ‹¬ c›

theorem bind {k : τ → ConfigM υ} (hx : Takes x L) (hk : ∀ a, Takes (k a) M) :
    Takes (x >>= k) (L * M) := by
  intro p b q hrun
  rw [EStateM.run_bind] at hrun
  rcases h : x.run p with ⟨a, p1⟩ | ⟨e, p1⟩
  · rw [h] at hrun
    obtain ⟨u, hu, hrest⟩ := hx p a p1 h
    obtain ⟨v, hv, hrest'⟩ := hk a p1 b q hrun
    exact ⟨u ++ v, Language.append_mem_mul hu hv, by rw [hrest, hrest', List.append_assoc]⟩
  · rw [h] at hrun
    cases hrun

/-- Behind a function that touches no member. -/
theorem call_bind {e : Except ConfigError τ} {k : τ → ConfigM υ} (hk : ∀ a, Takes (k a) L) :
    Takes (callConfig e >>= k) L := by
  cases e with
  | ok a => exact hk a
  | error e => exact throw

theorem call {e : Except ConfigError τ} : Takes (callConfig e) 1 := by
  cases e with
  | ok a => exact pure
  | error e => exact throw

theorem get_bind {k : ConfigParser → ConfigM υ} (hk : ∀ p, Takes (k p) L) :
    Takes (get >>= k) L := fun p a q hrun => hk p p a q hrun

theorem bind_reject {k : τ → ConfigM υ} (hk : ∀ a, Takes (k a) 0) : Takes (x >>= k) 0 := by
  intro p b q hrun
  rw [EStateM.run_bind] at hrun
  rcases h : x.run p with ⟨a, p1⟩ | ⟨e, p1⟩
  · rw [h] at hrun
    obtain ⟨w, hw, -⟩ := hk a p1 b q hrun
    cases hw
  · rw [h] at hrun
    cases hrun

/-- **Behind a token**, which decides what comes next. -/
theorem tokenize_cases {k : Bytes → ConfigM υ} (hnil : Takes (k []) 0)
    (hcons : ∀ t, t ≠ [] → Takes (k t) (L.leftQuotient [t])) : Takes (tokenize >>= k) L := by
  intro p a q hrun
  obtain ⟨t, p1, htoken, hcase⟩ := tokenize_run p
  rw [EStateM.run_bind, htoken] at hrun
  obtain ⟨rfl, -, -⟩ | ⟨hne, hfirst⟩ := hcase
  · obtain ⟨w, hw, -⟩ := hnil p1 a q hrun
    cases hw
  · obtain ⟨w, hw, hrest⟩ := hcons t hne p1 a q hrun
    exact ⟨t :: w, hw, by rw [hfirst, hrest]; rfl⟩

/-- Behind a token that has to have `P`. -/
theorem tokenize_bind {P : Bytes → Prop} {k : Bytes → ConfigM υ} (hnil : ¬ P [])
    (hreject : ∀ t, ¬ P t → Takes (k t) 0) (hk : ∀ t, P t → Takes (k t) L) :
    Takes (tokenize >>= k) (only P * L) := by
  refine tokenize_cases (hreject [] hnil) fun t _ => ?_
  by_cases ht : P t
  · have hfirst : [t] ∈ only P := ⟨t, rfl, ht⟩
    exact (hk t ht).mono fun w hw => Language.append_mem_mul hfirst hw
  · apply (hreject t ht).mono
    intro w hw
    cases hw

/-- Behind a token that has to be this one. -/
theorem expect {text message : String} {c : Bytes → Bytes} (htext : bytes text ≠ [])
    (hx : Takes x L) :
    Takes (do let t ← tokenize
              if t ≠ bytes text then throwRuntime message (c t) else x) (token text * L) := by
  apply tokenize_bind
  · exact htext.symm
  · intro t ht
    rw [if_pos ht]
    exact throw
  · rintro t rfl
    rw [if_neg (not_not_intro rfl)]
    exact hx

/-- The semicolon behind the arguments. -/
theorem semicolon {name : String} {a : υ} :
    Takes (do consumeExpectedSemicolon name; return a) (token ";") := by
  have hexpect : Takes (consumeExpectedSemicolon name) (token ";" * 1) :=
    expect (by decide) (pure (a := ()))
  have hsemi := hexpect.bind fun _ => pure (a := a)
  rw [mul_one, mul_one] at hsemi
  exact hsemi

end Takes

/-! ### Directives -/

/-- Any token will do. -/
abbrev anyToken : Bytes → Prop := fun _ => True

theorem not_isWord {t : Bytes} (ht : ¬ IsWord t) :
    t = [] ∨ t = bytes "\x7b" ∨ t = bytes "\x7d" ∨ t = bytes ";" := by
  unfold IsWord at ht
  tauto

/-- What a check on a token does not let through, is a word. -/
theorem isWord_of (check : Bytes → Bool) (hnil : check [] = false)
    (hopen : check (bytes "\x7b") = false) (hclose : check (bytes "\x7d") = false)
    (hsemi : check (bytes ";") = false) {t : Bytes} (h : check t = true) : IsWord t := by
  by_contra ht
  obtain rfl | rfl | rfl | rfl := not_isWord ht
  · rw [hnil] at h
    cases h
  · rw [hopen] at h
    cases h
  · rw [hclose] at h
    cases h
  · rw [hsemi] at h
    cases h

/-- An argument that is not looked at. -/
theorem argument_takes {τ : Type} {message : String} {c : Bytes → Bytes} {k : Bytes → ConfigM τ}
    {L : Language Bytes} (hk : ∀ t, Takes (k t) L) :
    Takes (do let t ← tokenize
              if t = [] then throwRuntime message (c t) else k t) (argument anyToken * L) := by
  apply Takes.tokenize_bind
  · exact fun h => h.1 rfl
  · intro t ht
    refine .ite (fun _ => .throw) fun hne => ?_
    exact absurd ⟨hne, trivial⟩ ht
  · exact fun t _ => .ite (fun _ => .throw) fun _ => hk t

/-- An argument that is a word. -/
theorem word_takes {τ : Type} {k : Bytes → ConfigM τ} {L : Language Bytes}
    (hreject : ∀ t, ¬ IsWord t → Takes (k t) 0) (hk : ∀ t, Takes (k t) L) :
    Takes (tokenize >>= k) (word * L) :=
  Takes.tokenize_bind (fun h => h.1 rfl) hreject fun t _ => hk t

theorem parseRedirect_takes (location : Location) :
    Takes (parseRedirect location) (argument anyToken * token ";") :=
  argument_takes fun _ => .call_bind fun _ => .semicolon

theorem parseServerName_takes (config : ServerConfig) :
    Takes (parseServerName config) (argument anyToken * token ";") :=
  argument_takes fun _ => .call_bind fun _ => .semicolon

theorem parseMaxBody_takes (config : ServerConfig) :
    Takes (parseMaxBody config) (argument anyToken * token ";") := by
  apply argument_takes
  intro t
  exact .ite (fun _ => .throw) fun _ => .call_bind fun _ => .semicolon

theorem parseRoot_takes (cwd : Option Bytes) (location : Location) :
    Takes (parseRoot cwd location) (argument anyToken * token ";") := by
  apply argument_takes (c := fun _ => [])
  intro t
  exact .call_bind fun _ => .call_bind fun _ => .call_bind fun _ => .semicolon

theorem parseCgi_takes (location : Location) :
    Takes (parseCgi location) (word * token ";") := by
  refine word_takes (fun t ht => .ite (fun _ => .throw) fun _ => ?_) fun t =>
    .ite (fun _ => .throw) fun _ => .call_bind fun _ => .semicolon
  -- the setter wants an `on` or an `off`
  have hoff : t ≠ bytes "on" ∧ t ≠ bytes "off" := by
    constructor
    · rintro rfl
      exact ht (by decide)
    · rintro rfl
      exact ht (by decide)
  rw [Location.setCgiEnabled, if_pos hoff]
  split_ifs
  · exact .throw
  · exact .throw

theorem parseAutoIndex_takes (location : Location) :
    Takes (parseAutoIndex location) (word * token ";") := by
  refine word_takes (fun t ht => .ite (fun _ => .throw) fun _ => .ite (fun _ => .throw) ?_)
    fun t => .ite (fun _ => .throw) fun _ => .ite (fun _ => .throw) fun _ =>
      .call_bind fun _ => .semicolon
  intro hon
  refine absurd ⟨?_, ?_⟩ hon
  · rintro rfl
    exact ht (by decide)
  · rintro rfl
    exact ht (by decide)

theorem parseIndex_takes (location : Location) :
    Takes (parseIndex location) (word * token ";") := by
  refine word_takes (fun t ht => .ite (fun _ => .throw) fun _ => .ite (fun _ => .throw) ?_)
    fun t => .ite (fun _ => .throw) fun _ => .ite (fun _ => .throw) fun _ =>
      .call_bind fun _ => .semicolon
  intro hsafe
  rw [Bool.not_eq_true', Bool.not_eq_false] at hsafe
  refine absurd (isWord_of isSafeIndexFilename ?_ ?_ ?_ ?_ hsafe) ht
  all_goals decide

theorem requireAbsolute_reject {t : Bytes} (ht : ¬ IsWord t) (label : String) :
    ∃ e, requireAbsoluteSafePathOrThrow t label = .error e := by
  have hhead : t.head? ≠ some SLASH := by
    obtain rfl | rfl | rfl | rfl := not_isWord ht <;> decide
  exact ⟨_, if_pos hhead⟩

theorem parseUploadPath_takes (location : Location) :
    Takes (parseUploadPath location) (word * token ";") := by
  refine word_takes (fun t ht => .ite (fun _ => .throw) fun _ => ?_)
    fun t => .ite (fun _ => .throw) fun _ => .call_bind fun _ => .call_bind fun _ => .semicolon
  obtain ⟨e, he⟩ := requireAbsolute_reject ht "Upload path"
  rw [he]
  exact .throw

/-! ### Lists of arguments -/

theorem kstar_append {L M : Language Bytes} {u w : List Bytes} (hu : u ∈ L) (hw : w ∈ L∗ * M) :
    u ++ w ∈ L∗ * M := by
  obtain ⟨x, hx, y, hy, rfl⟩ := Language.mem_mul.mp hw
  have hle : L * L∗ ≤ L∗ := mul_kstar_le_kstar
  have hstar : u ++ x ∈ L∗ := hle (Language.append_mem_mul hu hx)
  rw [← List.append_assoc]
  exact Language.append_mem_mul hstar hy

theorem kstar_nil {L M : Language Bytes} {w : List Bytes} (hw : w ∈ M) : w ∈ L∗ * M :=
  Language.append_mem_mul (Language.nil_mem_kstar L) hw

/-- The loop of `ParseMethods`, in which the flag says whether there was a method. -/
theorem parseMethodList_takes (fuel : Nat) (location : Location) :
    Takes (parseMethodList fuel location false) (word∗ * token ";") ∧
      Takes (parseMethodList fuel location true) (word * (word∗ * token ";")) := by
  -- on the fuel, for both values of the flag at once, since a method clears it
  induction fuel generalizing location with
  | zero => exact ⟨.throw, .throw⟩
  | succ fuel ih =>
      have hmethod : ∀ (N : Language Bytes),
          (∀ t w, IsWord t → w ∈ word∗ * token ";" → t :: w ∈ N) → ∀ (t : Bytes),
          t ≠ bytes ";" → Takes
            (if t = bytes "GET" then parseMethodList fuel (location.addAllowedMethod .kGet) false
              else if t = bytes "POST" then
                parseMethodList fuel (location.addAllowedMethod .kPost) false
              else if t = bytes "DELETE" then
                parseMethodList fuel (location.addAllowedMethod .kDelete) false
              else throwRuntime "Invalid method in allowed_methods: " t) (N.leftQuotient [t]) := by
        intro N hN t hsemi
        refine .ite ?_ fun _ => .ite ?_ fun _ => .ite ?_ fun _ => .throw
        · rintro rfl
          exact (ih _).1.mono fun w hw => hN _ w (by decide) hw
        · rintro rfl
          exact (ih _).1.mono fun w hw => hN _ w (by decide) hw
        · rintro rfl
          exact (ih _).1.mono fun w hw => hN _ w (by decide) hw
      constructor
      · apply Takes.tokenize_cases
        · exact .throw
        · intro t _
          refine .ite ?_ (hmethod _ (fun t w ht hw => ?_) t)
          swap
          · have hfirst : [t] ∈ word := ⟨t, rfl, ht⟩
            exact kstar_append hfirst hw
          rintro rfl
          apply Takes.pure.mono
          rintro w rfl
          have hsemi : [bytes ";"] ∈ token ";" := ⟨_, rfl, rfl⟩
          exact kstar_nil hsemi
      · apply Takes.tokenize_cases
        · exact .throw
        · intro t _
          refine .ite (fun _ => .throw) (hmethod _ (fun t w ht hw => ?_) t)
          have hfirst : [t] ∈ word := ⟨t, rfl, ht⟩
          have happend := Language.append_mem_mul hfirst hw
          exact happend

theorem parseMethods_takes (location : Location) :
    Takes (parseMethods location) (word * word∗ * token ";") := by
  rw [mul_assoc]
  exact .ite (fun _ => .throw) fun _ => .get_bind fun p => (parseMethodList_takes _ _).2

/-- The loop of `ParseCgiAllowedExtensions`: the end of the text ends it, too. -/
theorem parseExtensionList_ok {fuel : Nat} {location a : Location} {t : Bytes} {p q : ConfigParser}
    (ht : t = [] → p.rest = []) (h : (parseExtensionList fuel location t).run p = .ok a q) :
    q.rest = [] ∨ (t = bytes ";" ∧ p.rest = q.rest) ∨
      (t ≠ [] ∧ t ≠ bytes ";") ∧
        ∃ w ∈ (listArgument anyToken)∗ * token ";", p.rest = w ++ q.rest := by
  induction fuel generalizing location t p with
  | zero => cases h
  | succ fuel ih =>
      simp only [parseExtensionList, EStateM.run_ite] at h
      split_ifs at h with hend
      · cases h
        obtain hnil | hsemi := hend
        · exact .inl (ht hnil)
        · exact .inr (.inl ⟨hsemi, rfl⟩)
      · rw [not_or] at hend
        obtain ⟨t1, p1, htoken, hcase⟩ := tokenize_run p
        rw [EStateM.run_bind, htoken] at h
        have hnil : t1 = [] → p1.rest = [] := by
          intro hnil
          obtain ⟨-, -, hrest⟩ | ⟨hne, -⟩ := hcase
          · exact hrest
          · exact absurd hnil hne
        obtain hq | ⟨hsemi, hq⟩ | ⟨harg, w, hw, hq⟩ := ih hnil h
        · exact .inl hq
        · refine .inr (.inr ⟨hend, [t1], kstar_nil ⟨t1, rfl, hsemi⟩, ?_⟩)
          obtain ⟨rfl, -, -⟩ | ⟨-, hfirst⟩ := hcase
          · exact absurd hsemi (by decide)
          · rw [hfirst, hq]
            rfl
        · have hfirst : [t1] ∈ listArgument anyToken := ⟨t1, rfl, harg, trivial⟩
          refine .inr (.inr ⟨hend, t1 :: w, kstar_append hfirst hw, ?_⟩)
          obtain ⟨rfl, -, -⟩ | ⟨-, hrest⟩ := hcase
          · exact absurd rfl harg.1
          · rw [hrest, hq]
            rfl

theorem parseCgiAllowedExtensions_takes (location : Location) :
    TakesOrEnds (parseCgiAllowedExtensions location)
      (listArgument anyToken * (listArgument anyToken)∗ * token ";") := by
  intro p a q h
  rw [parseCgiAllowedExtensions] at h
  split_ifs at h with hdup
  · cases h
  · obtain ⟨t, p1, htoken, hcase⟩ := tokenize_run p
    rw [EStateM.run_bind, htoken] at h
    dsimp only at h
    split_ifs at h with hend
    · cases h
    · rw [not_or] at hend
      obtain ⟨rfl, -, -⟩ | ⟨hne, hfirst⟩ := hcase
      · exact absurd rfl hend.1
      · obtain hq | ⟨hsemi, -⟩ | ⟨harg, w, hw, hq⟩ :=
          parseExtensionList_ok (fun h => absurd h hne) h
        · exact .inl hq
        · exact absurd hsemi hend.2
        · have harg : [t] ∈ listArgument anyToken := ⟨t, rfl, harg, trivial⟩
          rw [mul_assoc]
          refine .inr ⟨_, Language.append_mem_mul harg hw, ?_⟩
          rw [hfirst, hq]
          rfl

/-! ### Locations -/

theorem mem_tokenTable {t : Bytes} {kind : TokenType} (h : toTokenType t = kind)
    (hkind : kind ≠ .kTokenUnknown) : (t, kind) ∈ tokenTable := by
  rw [toTokenType] at h
  rcases hlookup : tokenTable.lookup t with - | k
  · rw [hlookup] at h
    exact absurd h.symm hkind
  · rw [hlookup] at h
    obtain rfl : k = kind := h
    obtain ⟨l, r, hsplit, -⟩ := List.lookup_eq_some_iff.mp hlookup
    rw [hsplit]
    simp

theorem keyword_eq {t : Bytes} {kind : TokenType} (keyword : String)
    (h : toTokenType t = kind) (hkind : kind ≠ .kTokenUnknown)
    (htable : ∀ entry ∈ tokenTable, entry.2 = kind → entry.1 = bytes keyword) : t = bytes keyword :=
  htable _ (mem_tokenTable h hkind) rfl

/-- What a `switch` reads behind its token, of a directive with this keyword. -/
theorem TakesOrEnds.behind_keyword {τ : Type} {x : ConfigM τ} {keyword : String}
    {L N : Language Bytes} (hx : TakesOrEnds x (L * token ";"))
    (hN : ∀ w, w ∈ directive keyword L → w ∈ N) :
    TakesOrEnds x (N.leftQuotient [bytes keyword]) := by
  intro p a q hrun
  obtain hq | ⟨w, hw, hrest⟩ := hx p a q hrun
  · exact .inl hq
  · have hkey : [bytes keyword] ∈ token keyword := ⟨bytes keyword, rfl, rfl⟩
    exact .inr ⟨w, hN _ (Language.append_mem_mul hkey hw), hrest⟩

theorem parseLocationDirective_takes (cwd : Option Bytes) (t : Bytes) (location : Location) :
    TakesOrEnds (parseLocationDirective cwd t location)
      ((locationDirective anyToken).leftQuotient [t]) := by
  rw [parseLocationDirective]
  split
  · rename_i h
    obtain rfl := keyword_eq "allowed_methods" h (by decide) (by decide)
    exact (parseMethods_takes location).orEnds.behind_keyword fun w hw => by
      simp only [locationDirective, Language.mem_add, hw, true_or]
  · rename_i h
    obtain rfl := keyword_eq "root" h (by decide) (by decide)
    exact (parseRoot_takes cwd location).orEnds.behind_keyword fun w hw => by
      simp only [locationDirective, Language.mem_add, hw, true_or, or_true]
  · rename_i h
    obtain rfl := keyword_eq "autoindex" h (by decide) (by decide)
    exact (parseAutoIndex_takes location).orEnds.behind_keyword fun w hw => by
      simp only [locationDirective, Language.mem_add, hw, true_or, or_true]
  · rename_i h
    obtain rfl := keyword_eq "index" h (by decide) (by decide)
    exact (parseIndex_takes location).orEnds.behind_keyword fun w hw => by
      simp only [locationDirective, Language.mem_add, hw, true_or, or_true]
  · rename_i h
    obtain rfl := keyword_eq "upload_path" h (by decide) (by decide)
    exact (parseUploadPath_takes location).orEnds.behind_keyword fun w hw => by
      simp only [locationDirective, Language.mem_add, hw, true_or, or_true]
  · rename_i h
    obtain rfl := keyword_eq "redirect" h (by decide) (by decide)
    exact (parseRedirect_takes location).orEnds.behind_keyword fun w hw => by
      simp only [locationDirective, Language.mem_add, hw, true_or, or_true]
  · rename_i h
    obtain rfl := keyword_eq "cgi" h (by decide) (by decide)
    exact (parseCgi_takes location).orEnds.behind_keyword fun w hw => by
      simp only [locationDirective, Language.mem_add, hw, true_or, or_true]
  · rename_i h
    obtain rfl := keyword_eq "cgi_allowed_extensions" h (by decide) (by decide)
    exact TakesOrEnds.behind_keyword (parseCgiAllowedExtensions_takes location) fun w hw => by
      simp only [locationDirective, Language.mem_add, hw, or_true]
  · exact Takes.orEnds .throw

/-- **The loop over a block**: directives of `D`, up to the closing brace. -/
theorem block_takes {τ : Type} {D : Language Bytes} {parseDirective : Bytes → τ → ConfigM τ}
    (body : Nat → τ → ConfigM τ) (hzero : ∀ x, body 0 x = throw .diverges)
    (hsucc : ∀ fuel x, body (fuel + 1) x = do
      let t ← tokenize
      if t = bytes "\x7d" then return x
      else
        let x ← parseDirective t x
        body fuel x)
    (hnil : ∀ x, Takes (parseDirective [] x) 0)
    (hdirective : ∀ t x, TakesOrEnds (parseDirective t x) (D.leftQuotient [t])) (fuel : Nat)
    (x : τ) : Takes (body fuel x) (D∗ * token "\x7d") := by
  -- on the fuel, of which each statement of the block takes one
  induction fuel generalizing x with
  | zero =>
      rw [hzero]
      exact .throw
  | succ fuel ih =>
      rw [hsucc]
      apply Takes.tokenize_cases
      · refine .ite (fun h => absurd h (by decide)) fun _ => ?_
        have hreject := (hnil x).bind fun y => ih y
        rw [zero_mul] at hreject
        exact hreject
      · intro t _
        refine .ite ?_ fun _ => ?_
        · rintro rfl
          apply Takes.pure.mono
          rintro w rfl
          have hclose : [bytes "\x7d"] ∈ token "\x7d" := ⟨_, rfl, rfl⟩
          exact kstar_nil hclose
        · intro p a q hrun
          rw [EStateM.run_bind] at hrun
          rcases hdir : (parseDirective t x).run p with ⟨y, p1⟩ | ⟨e, p1⟩
          · rw [hdir] at hrun
            obtain ⟨v, hv, hrest⟩ := ih y p1 a q hrun
            obtain hend | ⟨u, hu, hfirst⟩ := hdirective t x p y p1 hdir
            · -- behind the end of the text there is no closing brace
              obtain ⟨r, -, z, ⟨b, rfl, -⟩, rfl⟩ := Language.mem_mul.mp hv
              rw [hend] at hrest
              simp at hrest
            · have hu : [t] ++ u ∈ D := hu
              have happend := kstar_append hu hv
              rw [List.append_assoc] at happend
              exact ⟨u ++ v, happend, by rw [hfirst, hrest, List.append_assoc]⟩
          · rw [hdir] at hrun
            cases hrun

theorem isWord_of_validName {name : Bytes} (h : isValidLocationName name = true) : IsWord name := by
  refine isWord_of isValidLocationName ?_ ?_ ?_ ?_ h
  all_goals decide

theorem parseLocation_takes (cwd : Option Bytes) (config : ServerConfig) :
    Takes (parseLocation cwd config)
      (word * (token "\x7b" * ((locationDirective anyToken)∗ * token "\x7d"))) := by
  apply word_takes
  · intro t ht
    refine .ite (fun _ => .throw) fun hname => ?_
    rw [Bool.not_eq_true', Bool.not_eq_false] at hname
    exact absurd (isWord_of_validName hname) ht
  · intro t
    refine .ite (fun _ => .throw) fun _ => .expect (by decide) (.get_bind fun p => ?_)
    have hbody := (block_takes (parseLocationBody cwd) (fun _ => rfl) (fun _ _ => rfl)
      (fun _ => .throw) (parseLocationDirective_takes cwd) p.fuel { name := t }).bind
      (k := fun location => callConfig (config.addLocation location)) (M := 1) fun loc => .call
    rw [mul_one] at hbody
    exact hbody

/-! ### Servers -/

theorem parseListen_takes (config : ServerConfig) :
    Takes (parseListen config) (word * token ";") := by
  have hvalue : ∀ e : Except ConfigError ServerConfig, Takes (callConfig e) 1 := fun e => .call
  apply word_takes
  · intro t ht
    refine .ite (fun _ => .throw) fun hne => .ite (fun hcolon => ?_) fun _ => .bind_reject ?_
    · obtain rfl | rfl | rfl | rfl := not_isWord ht
      all_goals exact absurd hcolon (by decide)
    · intro t2
      refine .ite (fun _ => .throw) fun _ => .ite (fun hdigits => ?_) fun _ =>
        .ite (fun _ => .throw) fun hhost => ?_
      · obtain rfl | rfl | rfl | rfl := not_isWord ht
        · exact absurd rfl hne
        all_goals exact absurd hdigits (by decide)
      · rw [Bool.not_eq_true', Bool.not_eq_false] at hhost
        refine absurd (isWord_of isValidHost ?_ ?_ ?_ ?_ hhost) ht
        all_goals decide
  · intro t
    rw [← mul_one (token ";")]
    refine .ite (fun _ => .throw) fun _ => .ite (fun _ => ?_) fun _ => ?_
    · refine .ite (fun _ => .throw) fun _ => .ite (fun _ => .throw) fun _ => ?_
      exact .expect (by decide) (hvalue _)
    · refine .expect (by decide) (.ite (fun _ => .ite (fun _ => .throw) fun _ => hvalue _) fun _ =>
        .ite (fun _ => .throw) fun _ => hvalue _)

theorem parseErrorPage_takes (config : ServerConfig) :
    Takes (parseErrorPage config) (word * argument anyToken * token ";") := by
  rw [mul_assoc]
  apply word_takes
  · intro t ht
    refine .ite (fun _ => .throw) fun _ => .ite (fun _ => .throw) fun hcode => absurd ?_ hcode
    -- no brace and no semicolon is a number
    obtain rfl | rfl | rfl | rfl := not_isWord ht
    all_goals exact .inl (by decide)
  · intro t
    refine .ite (fun _ => .throw) fun _ => .ite (fun _ => .throw) fun _ => ?_
    apply argument_takes
    intro path
    exact .ite (fun _ => .throw) fun _ => .semicolon

theorem parseServerDirective_takes (cwd : Option Bytes) (t : Bytes) (config : ServerConfig) :
    TakesOrEnds (parseServerDirective cwd t config)
      ((serverDirective anyToken).leftQuotient [t]) := by
  rw [parseServerDirective]
  split
  · rename_i h
    obtain rfl := keyword_eq "listen" h (by decide) (by decide)
    exact (parseListen_takes config).orEnds.behind_keyword fun w hw => by
      simp only [serverDirective, Language.mem_add, hw, true_or]
  · rename_i h
    obtain rfl := keyword_eq "server_name" h (by decide) (by decide)
    exact (parseServerName_takes config).orEnds.behind_keyword fun w hw => by
      simp only [serverDirective, Language.mem_add, hw, true_or, or_true]
  · rename_i h
    obtain rfl := keyword_eq "client_max_body_size" h (by decide) (by decide)
    exact (parseMaxBody_takes config).orEnds.behind_keyword fun w hw => by
      simp only [serverDirective, Language.mem_add, hw, true_or, or_true]
  · rename_i h
    obtain rfl := keyword_eq "error_page" h (by decide) (by decide)
    exact (parseErrorPage_takes config).orEnds.behind_keyword fun w hw => by
      simp only [serverDirective, Language.mem_add, hw, true_or, or_true]
  · rename_i h
    obtain rfl := keyword_eq "location" h (by decide) (by decide)
    refine ((parseLocation_takes cwd config).mono fun w hw => ?_).orEnds
    have hkey : [bytes "location"] ∈ token "location" := ⟨_, rfl, rfl⟩
    exact .inr (Language.append_mem_mul hkey hw)
  · exact Takes.orEnds .throw

theorem parseServer_takes (cwd : Option Bytes) :
    Takes (parseServer cwd) (token "\x7b" * ((serverDirective anyToken)∗ * token "\x7d")) := by
  refine .expect (by decide) (.get_bind fun p => ?_)
  have hbody := (block_takes (parseServerBody cwd) (fun _ => rfl) (fun _ _ => rfl)
    (fun _ => .throw) (parseServerDirective_takes cwd) p.fuel {}).bind (M := 1)
    (k := fun config => modify fun p => { p with serverConfigs := p.serverConfigs ++ [config] })
    fun config => by
      intro p a q hrun
      cases hrun
      exact ⟨[], rfl, rfl⟩
  rw [mul_one] at hbody
  exact hbody

/-- **The loop of `Parse`.** -/
theorem parseServers_ok {cwd : Option Bytes} {fuel : Nat} {p q : ConfigParser}
    (h : (parseServers cwd fuel).run p = .ok () q) : p.rest ∈ configFile anyToken := by
  induction fuel generalizing p with
  | zero => cases h
  | succ fuel ih =>
      obtain ⟨t, p1, htoken, hcase⟩ := tokenize_run p
      rw [parseServers, EStateM.run_bind, htoken] at h
      dsimp only at h
      obtain ⟨rfl, hrest, -⟩ | ⟨hne, hfirst⟩ := hcase
      · rw [hrest]
        exact Language.nil_mem_kstar _
      · rw [if_neg hne] at h
        split_ifs at h with hserver
        · rw [EStateM.run_bind] at h
          rcases hrun : (parseServer cwd).run p1 with ⟨u, p2⟩ | ⟨e, p2⟩
          · rw [hrun] at h
            obtain ⟨w, hw, hrest⟩ := parseServer_takes cwd p1 _ _ hrun
            have hkey : [t] ∈ token "server" := ⟨t, rfl, hserver⟩
            have hblock := Language.append_mem_mul hkey hw
            have hle : serverBlock anyToken * (serverBlock anyToken)∗ ≤ (serverBlock anyToken)∗ :=
              mul_kstar_le_kstar
            rw [hfirst, hrest]
            exact hle (Language.append_mem_mul hblock (ih h))
          · rw [hrun] at h
            cases h
        · cases h

theorem parse_tokens {cwd : Option Bytes} {content : Bytes} {configs : List ServerConfig}
    (h : ConfigParser.parse cwd content = .ok configs) : tokens content ∈ configFile anyToken := by
  rw [ConfigParser.parse] at h
  rcases hrun : (do parseServers cwd (← get).fuel : ConfigM Unit).run { content := content } with
    ⟨u, q⟩ | ⟨e, q⟩
  · exact parseServers_ok hrun
  · rw [hrun] at h
    cases h

/-! ### The grammar -/

/-- **What is accepted is derivable** from the grammar for words exactly if no argument that
the parser does not look at is a brace or a semicolon. -/
theorem parse_derivable_iff {cwd : Option Bytes} {content : Bytes} {configs : List ServerConfig}
    (h : ConfigParser.parse cwd content = .ok configs) :
    tokens content ∈ configFile IsWord ↔ ∀ t ∈ uncheckedArguments content, IsWord t :=
  reads_configFile.mem_iff (parse_tokens h)

/-- A file whose arguments are words. -/
theorem parse_derivable_iff_words :
    ∃ configs, ConfigParser.parse none (bytes "server \x7b listen 80; server_name a; \x7d") =
        .ok configs ∧
      (tokens (bytes "server \x7b listen 80; server_name a; \x7d") ∈ configFile IsWord ↔
        ∀ t ∈ uncheckedArguments (bytes "server \x7b listen 80; server_name a; \x7d"), IsWord t) := by
  have hok : (ConfigParser.parse none
      (bytes "server \x7b listen 80; server_name a; \x7d")).isOk = true := by
    decide +kernel
  rcases h : ConfigParser.parse none (bytes "server \x7b listen 80; server_name a; \x7d") with
    e | configs
  · rw [h] at hok
    cases hok
  · exact ⟨configs, rfl, parse_derivable_iff h⟩

/-- A server whose name is a semicolon. -/
theorem parse_derivable_fails :
    ¬ ∀ (cwd : Option Bytes) (content : Bytes) (configs : List ServerConfig),
      ConfigParser.parse cwd content = .ok configs → tokens content ∈ configFile IsWord := by
  intro h
  have hok : (ConfigParser.parse none (bytes "server \x7b server_name ; ; \x7d")).isOk = true := by
    decide
  rcases hparse : ConfigParser.parse none (bytes "server \x7b server_name ; ; \x7d") with e | configs
  · rw [hparse] at hok
    cases hok
  · have hword := reads_configFile.taken IsWord _ (h none _ configs hparse) (bytes ";")
      (by decide)
    exact absurd hword (by decide)

end Webserv
