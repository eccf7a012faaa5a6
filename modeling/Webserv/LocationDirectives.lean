/-
Webserv/LocationDirectives.lean

The directives of a location: each at most once, in any order.

A directive of a location reads its arguments, checks them and sets what belongs to its
keyword, if that has not been set before (`Stores`).  Its fields are settings that are
given once (`locationSettings`).
-/
import Webserv.ConfigRuns
import Webserv.Respelling
import Webserv.Theory.Settings

namespace Webserv

/-! ### Statements -/

/-- The method with this name, of those that `ParseMethods` knows. -/
def tokenMethod (t : Bytes) : Option Method :=
  if t = bytes "GET" then some .kGet
  else if t = bytes "POST" then some .kPost
  else if t = bytes "DELETE" then some .kDelete
  else none

/-- The methods of a location, and the one with this name. -/
def addMethod (methods : List Method) (t : Bytes) : List Method :=
  match tokenMethod t with
  | none => methods
  | some method => if method ∈ methods then methods else methods ++ [method]

/-- The arguments pass the checks of the directive. -/
def ArgumentsChecked (cwd : Option Bytes) (kind : TokenType) (arguments : List Bytes) : Prop :=
  match kind with
  | .kTokenAllowedMethods => arguments ≠ [] ∧ ∀ t ∈ arguments, (tokenMethod t).isSome = true
  | .kTokenRoot => ∃ t path, arguments = [t] ∧ t ≠ [] ∧ resolveRootPath cwd t = .ok path ∧
      requireAbsoluteSafePathOrThrow path "Root path" = .ok ()
  | .kTokenAutoindex | .kTokenCgi => ∃ t, arguments = [t] ∧ (t = bytes "on" ∨ t = bytes "off")
  | .kTokenIndex => ∃ t, arguments = [t] ∧ isSafeIndexFilename t = true
  | .kTokenUploadPath => ∃ t, arguments = [t] ∧
      requireAbsoluteSafePathOrThrow t "Upload path" = .ok ()
  | .kTokenRedirect => ∃ t, arguments = [t] ∧ t ≠ []
  | .kTokenCgiAllowedExtensions => arguments ≠ [] ∧ ∀ t ∈ arguments, t ≠ [] ∧ t ≠ bytes ";"
  | _ => False

/-- The location that the arguments have been stored in. -/
def Location.store (cwd : Option Bytes) (kind : TokenType) (arguments : List Bytes)
    (loc : Location) : Location :=
  let t := arguments.headD []
  match kind with
  | .kTokenAllowedMethods =>
      { loc with methods := arguments.foldl addMethod loc.methods, hasAllowedMethods := true }
  | .kTokenRoot => { loc with root := (resolveRootPath cwd t).toOption.getD [], hasRoot := true }
  | .kTokenAutoindex => { loc with autoindex := t == bytes "on", hasAutoindex := true }
  | .kTokenIndex => { loc with indexFile := t, hasIndexDirective := true }
  | .kTokenUploadPath => { loc with uploadPath := t, hasUploadPath := true }
  | .kTokenRedirect =>
      { loc with redirect := t, redirectStatus := .kFound, hasRedirect := true }
  | .kTokenCgi => { loc with cgiEnabled := t == bytes "on", hasCgiEnabled := true }
  | .kTokenCgiAllowedExtensions =>
      { loc with
        cgiAllowedExtensions := loc.cgiAllowedExtensions ++ arguments
        hasCgiAllowedExtensions := true }
  | _ => loc

/-- The flag of the directive; what is no directive of a location cannot be given at all. -/
def Location.isSet (kind : TokenType) (loc : Location) : Bool :=
  match kind with
  | .kTokenAllowedMethods => loc.hasAllowedMethods
  | .kTokenRoot => loc.hasRoot
  | .kTokenAutoindex => loc.hasAutoindex
  | .kTokenIndex => loc.hasIndexDirective
  | .kTokenUploadPath => loc.hasUploadPath
  | .kTokenRedirect => loc.hasRedirect
  | .kTokenCgi => loc.hasCgiEnabled
  | .kTokenCgiAllowedExtensions => loc.hasCgiAllowedExtensions
  | _ => true

theorem isSet_store (cwd : Option Bytes) (k kind : TokenType) (arguments : List Bytes)
    (loc : Location) :
    (loc.store cwd kind arguments).isSet k = (decide (k = kind) || loc.isSet k) := by
  cases k <;> cases kind <;> rfl

theorem store_comm {cwd : Option Bytes} {kind kind' : TokenType} (a a' : List Bytes)
    (loc : Location) (h : kind ≠ kind') :
    (loc.store cwd kind' a').store cwd kind a = (loc.store cwd kind a).store cwd kind' a' := by
  cases kind <;> cases kind' <;> first | rfl | exact absurd rfl h

/-- A statement of a block: a keyword, and the arguments up to the semicolon. -/
structure Statement where
  keyword : Bytes
  arguments : List Bytes
  deriving DecidableEq, Repr

namespace Statement

/-- The directive that the keyword stands for. -/
def kind (s : Statement) : TokenType := toTokenType s.keyword

/-- The tokens of a statement. -/
def tokens (s : Statement) : List Bytes := s.keyword :: (s.arguments ++ [bytes ";"])

/-- A keyword, with as many tokens as its parser takes. -/
def Shaped (s : Statement) : Prop :=
  match s.kind with
  | .kTokenAllowedMethods | .kTokenCgiAllowedExtensions => bytes ";" ∉ s.arguments
  | .kTokenRoot | .kTokenAutoindex | .kTokenIndex | .kTokenUploadPath | .kTokenRedirect
  | .kTokenCgi => ∃ t, s.arguments = [t]
  | _ => False

/-- A statement that is accepted, where its keyword has not been there before. -/
def Checked (cwd : Option Bytes) (s : Statement) : Prop := ArgumentsChecked cwd s.kind s.arguments

end Statement

/-- A location as a record of settings. -/
def locationSettings (cwd : Option Bytes) : Settings TokenType Statement Location where
  key := Statement.kind
  isSet := Location.isSet
  set s loc := loc.store cwd s.kind s.arguments
  isSet_set k s loc := by rw [isSet_store, Bool.or_eq_true, decide_eq_true_iff]
  set_comm s s' loc h := store_comm s.arguments s'.arguments loc h

/-! ### Directives -/

/-- The tokens are arguments of the directive, which have been stored, and a semicolon. -/
def Stores (cwd : Option Bytes) (kind : TokenType) (loc : Location) (w : List Bytes)
    (loc' : Location) (r : List Bytes) : Prop :=
  ∃ arguments, w = arguments ++ bytes ";" :: r ∧ ArgumentsChecked cwd kind arguments ∧
    loc.isSet kind = false ∧ loc' = loc.store cwd kind arguments

variable {cwd : Option Bytes} {loc : Location}

/-- A directive with one argument. -/
theorem parses_stores {x : ConfigM Location} {kind : TokenType} {C : Bytes → Location → Prop}
    (h : Parses x fun w loc' r => ∃ t, t ≠ [] ∧ C t loc' ∧ w = [t] ++ bytes ";" :: r)
    (hone : ∀ arguments, ArgumentsChecked cwd kind arguments → ∃ t, t ≠ [] ∧ arguments = [t])
    (hC : ∀ t loc', t ≠ [] → (C t loc' ↔ ArgumentsChecked cwd kind [t] ∧
      loc.isSet kind = false ∧ loc' = loc.store cwd kind [t])) :
    Parses x (Stores cwd kind loc) := by
  refine h.congr fun w loc' r => ?_
  constructor
  · rintro ⟨t, ht, hc, hw⟩
    exact ⟨[t], hw, (hC t loc' ht).mp hc⟩
  · rintro ⟨arguments, hw, hchecked, hrest⟩
    obtain ⟨t, ht, rfl⟩ := hone arguments hchecked
    exact ⟨t, ht, (hC t loc' ht).mpr ⟨hchecked, hrest⟩, hw⟩

/-- A setter that refuses to be called twice. -/
theorem setter_ok {flag : Bool} {e : ConfigError} {a b : Location} :
    (if flag = true then Except.error e else Except.ok a) = .ok b ↔ flag = false ∧ b = a := by
  cases flag with
  | true =>
      constructor
      · intro h
        cases h
      · rintro ⟨h, -⟩
        cases h
  | false =>
      constructor
      · intro h
        cases h
        exact ⟨rfl, rfl⟩
      · rintro ⟨-, rfl⟩
        rfl

theorem parseRoot_parses : Parses (parseRoot cwd loc) (Stores cwd .kTokenRoot loc) := by
  refine parses_stores (.argument .throw fun t ht => .check (.call_bind fun path =>
    .call_bind fun u => .call_bind fun loc' => .semicolon)) ?_ ?_
  · rintro arguments ⟨t, path, rfl, ht, -⟩
    exact ⟨t, ht, rfl⟩
  · intro t loc' ht
    constructor
    · rintro ⟨-, path, hpath, u, hsafe, loc1, hset, rfl⟩
      obtain ⟨hflag, rfl⟩ := setter_ok.mp hset
      refine ⟨⟨t, path, rfl, ht, hpath, hsafe⟩, hflag, ?_⟩
      simp only [Location.store, List.headD_cons, hpath]
      rfl
    · rintro ⟨⟨t1, path, htoken, -, hpath, hsafe⟩, hflag, rfl⟩
      obtain rfl := List.singleton_inj.mp htoken
      refine ⟨ht, path, hpath, (), hsafe, _, setter_ok.mpr ⟨hflag, rfl⟩, ?_⟩
      simp only [Location.store, List.headD_cons, hpath]
      rfl

/-- The values of `autoindex` and `cgi`. -/
theorem onOff_one (arguments : List Bytes)
    (h : ∃ t, arguments = [t] ∧ (t = bytes "on" ∨ t = bytes "off")) :
    ∃ t, t ≠ [] ∧ arguments = [t] := by
  obtain ⟨t, rfl, rfl | rfl⟩ := h
  · exact ⟨_, by decide, rfl⟩
  · exact ⟨_, by decide, rfl⟩

theorem parseAutoIndex_parses : Parses (parseAutoIndex loc) (Stores cwd .kTokenAutoindex loc) := by
  refine parses_stores (.argument .throw fun t ht => .check (.check (.call_bind fun loc' =>
    .semicolon))) onOff_one ?_
  intro t loc' ht
  constructor
  · rintro ⟨-, hvalue, loc1, hset, rfl⟩
    obtain ⟨hflag, rfl⟩ := setter_ok.mp hset
    rw [not_and_or, not_not, not_not] at hvalue
    exact ⟨⟨t, rfl, hvalue⟩, hflag, rfl⟩
  · rintro ⟨⟨t1, htoken, hvalue⟩, hflag, rfl⟩
    obtain rfl := List.singleton_inj.mp htoken
    rw [← not_not (a := t = bytes "on"), ← not_not (a := t = bytes "off"), ← not_and_or] at hvalue
    exact ⟨ht, hvalue, _, setter_ok.mpr ⟨hflag, rfl⟩, rfl⟩

theorem parseIndex_parses : Parses (parseIndex loc) (Stores cwd .kTokenIndex loc) := by
  refine parses_stores (.argument .throw fun t ht => .check (.check (.call_bind fun loc' =>
    .semicolon))) ?_ ?_
  · rintro arguments ⟨t, rfl, hsafe⟩
    refine ⟨t, ?_, rfl⟩
    rintro rfl
    cases hsafe
  · intro t loc' ht
    constructor
    · rintro ⟨-, hsafe, loc1, hset, rfl⟩
      obtain ⟨hflag, rfl⟩ := setter_ok.mp hset
      rw [Bool.not_eq_true', Bool.not_eq_false] at hsafe
      exact ⟨⟨t, rfl, hsafe⟩, hflag, rfl⟩
    · rintro ⟨⟨t1, htoken, hsafe⟩, hflag, rfl⟩
      obtain rfl := List.singleton_inj.mp htoken
      rw [← Bool.not_eq_false, ← Bool.not_eq_true'] at hsafe
      exact ⟨ht, hsafe, _, setter_ok.mpr ⟨hflag, rfl⟩, rfl⟩

theorem parseUploadPath_parses :
    Parses (parseUploadPath loc) (Stores cwd .kTokenUploadPath loc) := by
  refine parses_stores (.argument .throw fun t ht => .check (.call_bind fun u =>
    .call_bind fun loc' => .semicolon)) ?_ ?_
  · rintro arguments ⟨t, rfl, hsafe⟩
    refine ⟨t, ?_, rfl⟩
    rintro rfl
    cases hsafe
  · intro t loc' ht
    constructor
    · rintro ⟨-, u, hsafe, loc1, hset, rfl⟩
      obtain ⟨hflag, rfl⟩ := setter_ok.mp hset
      exact ⟨⟨t, rfl, hsafe⟩, hflag, rfl⟩
    · rintro ⟨⟨t1, htoken, hsafe⟩, hflag, rfl⟩
      obtain rfl := List.singleton_inj.mp htoken
      exact ⟨ht, (), hsafe, _, setter_ok.mpr ⟨hflag, rfl⟩, rfl⟩

theorem parseRedirect_parses : Parses (parseRedirect loc) (Stores cwd .kTokenRedirect loc) := by
  refine parses_stores (.argument .throw fun t ht => .check (.call_bind fun loc' =>
    .semicolon)) ?_ ?_
  · rintro arguments ⟨t, rfl, ht⟩
    exact ⟨t, ht, rfl⟩
  · intro t loc' ht
    constructor
    · rintro ⟨-, loc1, hset, rfl⟩
      obtain ⟨hflag, rfl⟩ := setter_ok.mp hset
      exact ⟨⟨t, rfl, ht⟩, hflag, rfl⟩
    · rintro ⟨-, hflag, rfl⟩
      exact ⟨ht, _, setter_ok.mpr ⟨hflag, rfl⟩, rfl⟩

theorem setCgiEnabled_ok {t : Bytes} {loc' : Location} : loc.setCgiEnabled t = .ok loc' ↔
    (t = bytes "on" ∨ t = bytes "off") ∧ loc.hasCgiEnabled = false ∧
      loc' = { loc with cgiEnabled := t == bytes "on", hasCgiEnabled := true } := by
  rw [← not_not (a := t = bytes "on"), ← not_not (a := t = bytes "off"), ← not_and_or,
    Location.setCgiEnabled]
  by_cases hvalue : t ≠ bytes "on" ∧ t ≠ bytes "off"
  · rw [if_pos hvalue]
    refine iff_of_false (fun h => ?_) fun h => h.1 hvalue
    split_ifs at h
    cases h
  · rw [if_neg hvalue]
    exact setter_ok.trans (and_iff_right hvalue).symm

theorem parseCgi_parses : Parses (parseCgi loc) (Stores cwd .kTokenCgi loc) := by
  refine parses_stores (.argument .throw fun t ht => .check (.call_bind fun loc' =>
    .semicolon)) onOff_one ?_
  intro t loc' ht
  constructor
  · rintro ⟨-, loc1, hset, rfl⟩
    obtain ⟨hvalue, hflag, rfl⟩ := setCgiEnabled_ok.mp hset
    exact ⟨⟨t, rfl, hvalue⟩, hflag, rfl⟩
  · rintro ⟨⟨t1, htoken, hvalue⟩, hflag, rfl⟩
    obtain rfl := List.singleton_inj.mp htoken
    exact ⟨ht, _, setCgiEnabled_ok.mpr ⟨hvalue, hflag, rfl⟩, rfl⟩

/-! ### Directives with a list of arguments -/

theorem addAllowedMethod_eq {t : Bytes} {method : Method} (h : tokenMethod t = some method) :
    loc.addAllowedMethod method = { loc with methods := addMethod loc.methods t } := by
  rw [Location.addAllowedMethod, addMethod, h]

theorem methodStep {fuel : Nat} {flag : Bool} {p p1 : ConfigParser} {t : Bytes}
    (hrun : tokenize.run p = .ok t p1) :
    (parseMethodList (fuel + 1) loc flag).run p =
      if t = bytes ";" then
        (if flag then throwRuntime "No methods specified in allowed_methods directive" []
        else return { loc with hasAllowedMethods := true } : ConfigM Location).run p1
      else
        match tokenMethod t with
        | none => (throwRuntime "Invalid method in allowed_methods: " t : ConfigM Location).run p1
        | some method => (parseMethodList fuel (loc.addAllowedMethod method) false).run p1 := by
  rw [parseMethodList, EStateM.run_bind, hrun]
  dsimp only
  by_cases hsemi : t = bytes ";"
  · rw [if_pos hsemi, if_pos hsemi]
  · rw [if_neg hsemi, if_neg hsemi, tokenMethod]
    split_ifs <;> rfl

/-- A list of arguments has an end here, or goes on. -/
theorem exists_list_cons {t : Bytes} {v r : List Bytes} {P : List Bytes → Prop} :
    (∃ arguments, t :: v = arguments ++ bytes ";" :: r ∧ P arguments) ↔
      (t = bytes ";" ∧ v = r ∧ P []) ∨
        ∃ arguments, v = arguments ++ bytes ";" :: r ∧ P (t :: arguments) := by
  constructor
  · rintro ⟨arguments, hw, hP⟩
    rcases arguments with - | ⟨a, arguments⟩
    · obtain ⟨rfl, rfl⟩ := List.cons.inj hw
      exact .inl ⟨rfl, rfl, hP⟩
    · obtain ⟨rfl, rfl⟩ := List.cons.inj hw
      exact .inr ⟨arguments, rfl, hP⟩
  · rintro (⟨rfl, rfl, hP⟩ | ⟨arguments, rfl, hP⟩)
    · exact ⟨[], rfl, hP⟩
    · exact ⟨t :: arguments, rfl, hP⟩

/-- **The loop of `ParseMethods`**, in which the flag says that there was no method. -/
theorem parseMethodList_parses {fuel : Nat} {flag : Bool} {p : ConfigParser} {loc' : Location}
    {r : List Bytes} (hfuel : p.rest.length < fuel) :
    (∃ q, (parseMethodList fuel loc flag).run p = .ok loc' q ∧ q.rest = r) ↔
      ∃ arguments, p.rest = arguments ++ bytes ";" :: r ∧ (flag = true → arguments ≠ []) ∧
        (∀ t ∈ arguments, (tokenMethod t).isSome = true) ∧
        loc' = { loc with
          methods := arguments.foldl addMethod loc.methods, hasAllowedMethods := true } := by
  -- on the fuel, of which each token takes one
  induction fuel generalizing loc flag p with
  | zero => exact absurd hfuel (Nat.not_lt_zero _)
  | succ fuel ih =>
      obtain ⟨t, p1, hrun, hcase⟩ := tokenize_run p
      rw [methodStep hrun]
      obtain ⟨rfl, hrest, -⟩ | ⟨hne, hrest⟩ := hcase
      · -- at the end of the text
        refine iff_of_false ?_ ?_
        · rintro ⟨q, hq, -⟩
          cases hq
        · rintro ⟨arguments, hw, -⟩
          rw [hrest] at hw
          exact absurd hw.symm (List.append_ne_nil_of_right_ne_nil _ (List.cons_ne_nil _ _))
      · rw [hrest] at hfuel ⊢
        rw [exists_list_cons]
        by_cases hsemi : t = bytes ";"
        · -- `;` ends the list, and is an error where no method has come before it
          rw [if_pos hsemi]
          have hno : ¬ ∀ a ∈ t :: [], (tokenMethod a).isSome = true := by
            rw [hsemi]
            decide +kernel
          constructor
          · rintro ⟨q, hq, rfl⟩
            cases flag with
            | true => cases hq
            | false =>
                cases hq
                exact .inl ⟨hsemi, rfl, Bool.noConfusion, fun a ha => absurd ha List.not_mem_nil, rfl⟩
          · rintro (⟨-, rfl, hflag, -, rfl⟩ | ⟨arguments, -, -, hmethods, -⟩)
            · cases flag with
              | true => exact absurd rfl (hflag rfl)
              | false => exact ⟨p1, rfl, rfl⟩
            · refine absurd (fun a ha => hmethods a ?_) hno
              rw [List.mem_singleton.mp ha]
              exact List.mem_cons_self
        · rw [if_neg hsemi]
          -- any other word must be a method
          rcases hmethod : tokenMethod t with - | method
          · refine iff_of_false ?_ ?_
            · rintro ⟨q, hq, -⟩
              cases hq
            · rintro (⟨h, -⟩ | ⟨arguments, -, -, hmethods, -⟩)
              · exact hsemi h
              · have hsome := hmethods t List.mem_cons_self
                rw [hmethod] at hsome
                cases hsome
          · dsimp only
            rw [ih (Nat.lt_of_succ_lt_succ hfuel), addAllowedMethod_eq hmethod]
            constructor
            · rintro ⟨arguments, hw, -, hmethods, rfl⟩
              refine .inr ⟨arguments, hw, fun _ => List.cons_ne_nil _ _, ?_, rfl⟩
              refine List.forall_mem_cons.mpr ⟨?_, hmethods⟩
              rw [hmethod]
              rfl
            · rintro (⟨h, -⟩ | ⟨arguments, hw, -, hmethods, rfl⟩)
              · exact absurd h hsemi
              · exact ⟨arguments, hw, Bool.noConfusion, (List.forall_mem_cons.mp hmethods).2, rfl⟩

theorem parseMethods_parses :
    Parses (parseMethods loc) (Stores cwd .kTokenAllowedMethods loc) := by
  intro p loc' r
  rw [parseMethods]
  by_cases hflag : loc.hasAllowedMethods = true
  · rw [if_pos hflag]
    refine iff_of_false ?_ ?_
    · rintro ⟨q, hq, -⟩
      cases hq
    · rintro ⟨arguments, -, -, hunset, -⟩
      exact Bool.noConfusion (hflag.symm.trans hunset)
  · rw [if_neg hflag]
    show (∃ q, (parseMethodList p.fuel loc true).run p = .ok loc' q ∧ q.rest = r) ↔ _
    rw [parseMethodList_parses (length_rest_lt_fuel p)]
    rw [Bool.not_eq_true] at hflag
    constructor
    · rintro ⟨arguments, hw, hne, hmethods, rfl⟩
      exact ⟨arguments, hw, ⟨hne rfl, hmethods⟩, hflag, rfl⟩
    · rintro ⟨arguments, hw, ⟨hne, hmethods⟩, -, rfl⟩
      exact ⟨arguments, hw, fun _ => hne, hmethods, rfl⟩

/-- **The loop of `ParseCgiAllowedExtensions`**, in front of further tokens. -/
theorem parseExtensionList_parses {fuel : Nat} {t : Bytes} {p : ConfigParser} {loc' : Location}
    {r : List Bytes} (hfuel : p.rest.length < fuel) (ht : t = [] → p.rest = []) (hr : r ≠ []) :
    (∃ q, (parseExtensionList fuel loc t).run p = .ok loc' q ∧ q.rest = r) ↔
      ∃ arguments, t :: p.rest = arguments ++ bytes ";" :: r ∧
        (∀ a ∈ arguments, a ≠ [] ∧ a ≠ bytes ";") ∧
        loc' = { loc with
          cgiAllowedExtensions := loc.cgiAllowedExtensions ++ arguments
          hasCgiAllowedExtensions := true } := by
  -- on the fuel; the word to look at has been read before the loop
  induction fuel generalizing loc t p with
  | zero => exact absurd hfuel (Nat.not_lt_zero _)
  | succ fuel ih =>
      rw [exists_list_cons, parseExtensionList]
      by_cases hend : t = [] ∨ t = bytes ";"
      · -- the loop stops at `;` and at an empty word, which only the end of the text gives
        rw [if_pos hend]
        have hno : ∀ arguments, ¬ ∀ a ∈ t :: arguments, a ≠ [] ∧ a ≠ bytes ";" := by
          intro arguments h
          obtain ⟨hne, hsemi⟩ := h t List.mem_cons_self
          exact hend.elim hne hsemi
        constructor
        · rintro ⟨q, hq, rfl⟩
          cases hq
          obtain rfl | rfl := hend
          · exact absurd (ht rfl) hr
          · refine .inl ⟨rfl, rfl, fun a ha => absurd ha List.not_mem_nil, ?_⟩
            rw [List.append_nil]
        · rintro (⟨-, rfl, -, rfl⟩ | ⟨arguments, -, h, -⟩)
          · rw [List.append_nil]
            exact ⟨p, rfl, rfl⟩
          · exact absurd h (hno arguments)
      · rw [if_neg hend, EStateM.run_bind]
        rw [not_or] at hend
        obtain ⟨t1, p1, hrun, ⟨rfl, hrest, hrest1⟩ | ⟨hne, hrest⟩⟩ := tokenize_run p
        · -- at the end of the text
          rw [hrun, hrest]
          refine iff_of_false ?_ ?_
          · rintro ⟨q, hq, rfl⟩
            cases fuel with
            | zero => cases hq
            | succ fuel =>
                cases hq
                exact hr hrest1
          · rintro (⟨h, -⟩ | ⟨arguments, hw, -⟩)
            · exact hend.2 h
            · exact absurd hw.symm (List.append_ne_nil_of_right_ne_nil _ (List.cons_ne_nil _ _))
        · rw [hrun]
          dsimp only
          rw [hrest] at hfuel ⊢
          rw [ih (Nat.lt_of_succ_lt_succ hfuel) fun h => absurd h hne]
          constructor
          · rintro ⟨arguments, hw, hargs, rfl⟩
            refine .inr ⟨arguments, hw, List.forall_mem_cons.mpr ⟨hend, hargs⟩, ?_⟩
            rw [List.append_assoc]
            rfl
          · rintro (⟨h, -⟩ | ⟨arguments, hw, hargs, rfl⟩)
            · exact absurd h hend.2
            · refine ⟨arguments, hw, (List.forall_mem_cons.mp hargs).2, ?_⟩
              rw [List.append_assoc]
              rfl

theorem parseCgiAllowedExtensions_parses {p : ConfigParser} {loc' : Location} {r : List Bytes}
    (hr : r ≠ []) :
    (∃ q, (parseCgiAllowedExtensions loc).run p = .ok loc' q ∧ q.rest = r) ↔
      Stores cwd .kTokenCgiAllowedExtensions loc p.rest loc' r := by
  rw [parseCgiAllowedExtensions]
  by_cases hflag : loc.hasCgiAllowedExtensions = true
  · rw [if_pos hflag]
    refine iff_of_false ?_ ?_
    · rintro ⟨q, hq, -⟩
      cases hq
    · rintro ⟨arguments, -, -, hunset, -⟩
      exact Bool.noConfusion (hflag.symm.trans hunset)
  · rw [if_neg hflag, EStateM.run_bind]
    rw [Bool.not_eq_true] at hflag
    obtain ⟨t, p1, hrun, hcase⟩ := tokenize_run p
    rw [hrun]
    dsimp only
    by_cases hend : t = [] ∨ t = bytes ";"
    · rw [if_pos hend]
      refine iff_of_false ?_ ?_
      · rintro ⟨q, hq, -⟩
        cases hq
      · rintro ⟨arguments, hw, ⟨hne, hargs⟩, -⟩
        obtain ⟨a, arguments, rfl⟩ := List.exists_cons_of_ne_nil hne
        obtain ⟨-, hrest, -⟩ | ⟨-, hrest⟩ := hcase
        · rw [hrest] at hw
          cases hw
        · rw [hrest] at hw
          rw [(List.cons.inj hw).1] at hend
          obtain ⟨hnil, hsemi⟩ := hargs a List.mem_cons_self
          exact hend.elim hnil hsemi
    · rw [if_neg hend]
      rw [not_or] at hend
      obtain ⟨h, -, -⟩ | ⟨-, hrest⟩ := hcase
      · exact absurd h hend.1
      · show (∃ q, (parseExtensionList p1.fuel loc t).run p1 = .ok loc' q ∧ q.rest = r) ↔ _
        rw [parseExtensionList_parses (length_rest_lt_fuel p1) (fun h => absurd h hend.1) hr,
          Stores, hrest]
        constructor
        · rintro ⟨arguments, hw, hargs, rfl⟩
          refine ⟨arguments, hw, ⟨?_, hargs⟩, hflag, rfl⟩
          rintro rfl
          exact hend.2 (List.cons.inj hw).1
        · rintro ⟨arguments, hw, ⟨-, hargs⟩, -, rfl⟩
          exact ⟨arguments, hw, hargs, rfl⟩

/-- **The `switch` of `ParseLocation`**, in front of further tokens. -/
theorem parseLocationDirective_parses {keyword : Bytes} {p : ConfigParser} {loc' : Location}
    {r : List Bytes} (hr : r ≠ []) :
    (∃ q, (parseLocationDirective cwd keyword loc).run p = .ok loc' q ∧ q.rest = r) ↔
      Stores cwd (toTokenType keyword) loc p.rest loc' r := by
  rw [parseLocationDirective]
  rcases toTokenType keyword
  case kTokenAllowedMethods => exact parseMethods_parses p loc' r
  case kTokenRoot => exact parseRoot_parses p loc' r
  case kTokenAutoindex => exact parseAutoIndex_parses p loc' r
  case kTokenIndex => exact parseIndex_parses p loc' r
  case kTokenUploadPath => exact parseUploadPath_parses p loc' r
  case kTokenRedirect => exact parseRedirect_parses p loc' r
  case kTokenCgi => exact parseCgi_parses p loc' r
  case kTokenCgiAllowedExtensions => exact parseCgiAllowedExtensions_parses hr
  all_goals
    refine iff_of_false ?_ ?_
    · rintro ⟨q, hq, -⟩
      cases hq
    · rintro ⟨arguments, -, hchecked, -⟩
      exact hchecked

end Webserv
