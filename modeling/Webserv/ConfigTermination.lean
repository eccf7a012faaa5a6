/-
Webserv/ConfigTermination.lean

The configuration parser ends, on every text.

The five loops of the parser share one cursor, and know the end of the text by the empty token
only.  Every other token moves the cursor, nothing moves it back, and no loop goes into another
round behind the empty token: so each loop is one of rounds that lower the number of bytes that
are left, whatever the loops inside of a round do.
-/
import Webserv.ConfigSound
import Webserv.HttpRequest.HeadPhase
import Webserv.Theory.Loops

namespace Webserv

open EStateM

/-! ### The cursor -/

/-- The bytes that are left. -/
def ConfigParser.remaining (p : ConfigParser) : Nat := p.content.length - p.currentPos

/-- The cursor has not moved back, nor left the text. -/
structure ReadsOn (p q : ConfigParser) : Prop where
  content : q.content = p.content
  le : p.currentPos ≤ q.currentPos
  within : p.currentPos ≤ p.content.length → q.currentPos ≤ p.content.length

instance : Std.Refl ReadsOn := ⟨fun _ => ⟨rfl, Nat.le_refl _, fun h => h⟩⟩

instance : IsTrans ConfigParser ReadsOn where
  trans _ _ _ h h' :=
    { content := h'.content.trans h.content
      le := h.le.trans h'.le
      within hp := by
        have hq := h'.within
        rw [h.content] at hq
        exact hq (h.within hp) }

theorem ReadsOn.remaining_le {p q : ConfigParser} (h : ReadsOn p q) : q.remaining ≤ p.remaining := by
  rw [ConfigParser.remaining, ConfigParser.remaining, h.content]
  exact Nat.sub_le_sub_left h.le _

theorem firstToken_length_le (rest : Bytes) :
    (rest.takeWhile isConfigSpace).length + (firstToken rest).length ≤ rest.length := by
  have hsplit := congrArg List.length (List.takeWhile_append_dropWhile (p := isConfigSpace) (l := rest))
  rw [List.length_append] at hsplit
  have htoken : (firstToken rest).length ≤ (rest.dropWhile isConfigSpace).length := by
    unfold firstToken
    rcases rest.dropWhile isConfigSpace with - | ⟨c, cs⟩
    · exact Nat.le_refl 0
    · dsimp only
      split_ifs
      · exact Nat.succ_le_succ (Nat.zero_le _)
      · exact (List.takeWhile_sublist _).length_le
  omega

/-- What a call of `Tokenize` does to the cursor. -/
structure TokenRead (p : ConfigParser) (t : Bytes) (q : ConfigParser) : Prop extends
    ReadsOn p q where
  serverConfigs : q.serverConfigs = p.serverConfigs
  advances : t ≠ [] → p.currentPos < q.currentPos ∧ q.currentPos ≤ p.content.length
  ended : t = [] → p.content.length ≤ q.currentPos

/-- **`Tokenize`** moves the cursor over a token, or to the end of the text. -/
theorem tokenize_read (p : ConfigParser) : ∃ t q, tokenize.run p = .ok t q ∧ TokenRead p t q := by
  by_cases hend : p.currentPos ≥ p.content.length
  · refine ⟨[], p, ?_, ⟨refl_of ReadsOn p, rfl, fun h => absurd rfl h, fun _ => hend⟩⟩
    simp only [tokenize, EStateM.run_bind, EStateM.run_get, if_pos hend]
    rfl
  · have hlength : (p.content.drop p.currentPos).length = p.content.length - p.currentPos :=
      List.length_drop
    have hle := firstToken_length_le (p.content.drop p.currentPos)
    refine ⟨_, _, by simp only [tokenize, EStateM.run_bind, EStateM.run_get, if_neg hend]; rfl, ?_⟩
    refine ⟨⟨rfl, ?_, fun _ => ?_⟩, rfl, fun hne => ⟨?_, ?_⟩, fun hnil => ?_⟩
    · exact (Nat.le_add_right _ _).trans (Nat.le_add_right _ _)
    · dsimp only
      omega
    · have hpos := List.length_pos_iff.mpr hne
      dsimp only
      omega
    · dsimp only
      omega
    · -- only white space is left
      have hspace := congrArg List.length (List.takeWhile_append_dropWhile (p := isConfigSpace)
        (l := p.content.drop p.currentPos))
      rw [dropWhile_of_firstToken_nil hnil, List.append_nil] at hspace
      dsimp only
      omega

/-- A function of the parser: it reads on, and its loops end. -/
abbrev Scans {τ : Type} (x : ConfigM τ) : Prop := Steps ReadsOn (· ≠ .diverges) x

section Parsers

variable {τ υ : Type}

theorem tokenize_scans : Scans tokenize := by
  intro p
  obtain ⟨t, q, hrun, hread⟩ := tokenize_read p
  rw [StepsFrom, hrun]
  refine ⟨hread.toReadsOn, fun e q' h => ?_⟩
  cases h

theorem throwRuntime_scans (message : String) (token : Bytes) :
    Scans (throwRuntime message token : ConfigM τ) := .throw nofun

theorem callConfig_scans {e : Except ConfigError τ} (he : e ≠ .error .diverges) :
    Scans (callConfig e) := by
  cases e with
  | ok a => exact .pure a
  | error e => exact .throw fun h => he (congrArg Except.error h)

theorem consumeExpectedSemicolon_scans (name : String) :
    Scans (consumeExpectedSemicolon name) :=
  .bind tokenize_scans fun _ => .ite (throwRuntime_scans _ _) (.pure _)

theorem parseSimpleDirective_scans {setter : τ → Bytes → Except ConfigError τ}
    (hsetter : ∀ obj t, setter obj t ≠ .error .diverges) (message : String) (obj : τ) :
    Scans (parseSimpleDirective setter message obj) :=
  .bind tokenize_scans fun _ => .ite (throwRuntime_scans _ _)
    (.bind (callConfig_scans (hsetter _ _)) fun _ =>
      .bind (consumeExpectedSemicolon_scans _) fun _ => .pure _)

end Parsers

/-! ### Rounds -/

/-- A round of `ParseServer` or `ParseLocation`: one directive of the block. -/
def blockRound {τ : Type} (parseDirective : Bytes → τ → ConfigM τ) (x : τ) : ConfigM (τ ⊕ τ) := do
  let token ← tokenize
  if token = bytes "\x7d" then return .inr x
  else return .inl (← parseDirective token x)

/-- A round of `Parse`. -/
def serversRound (cwd : Option Bytes) (_ : Unit) : ConfigM (Unit ⊕ Unit) := do
  let token ← tokenize
  if token = [] then return .inr ()
  else if token = bytes "server" then
    parseServer cwd
    return .inl ()
  else throwRuntime "Syntax error: " token

/-- A round of `ParseMethods`. -/
def methodsRound (x : Location × Bool) : ConfigM ((Location × Bool) ⊕ Location) := do
  let token ← tokenize
  if token = bytes ";" then
    if x.2 then throwRuntime "No methods specified in allowed_methods directive" []
    else return .inr { x.1 with hasAllowedMethods := true }
  else if token = bytes "GET" then return .inl (x.1.addAllowedMethod .kGet, false)
  else if token = bytes "POST" then return .inl (x.1.addAllowedMethod .kPost, false)
  else if token = bytes "DELETE" then return .inl (x.1.addAllowedMethod .kDelete, false)
  else throwRuntime "Invalid method in allowed_methods: " token

/-- A round of `ParseCgiAllowedExtensions`, which looks at the token of the round before. -/
def extensionsRound (x : Location × Bytes) : ConfigM ((Location × Bytes) ⊕ Location) :=
  if x.2 = [] ∨ x.2 = bytes ";" then return .inr { x.1 with hasCgiAllowedExtensions := true }
  else do
    let token ← tokenize
    return .inl
      ({ x.1 with cgiAllowedExtensions := x.1.cgiAllowedExtensions ++ [x.2] }, token)

/-- The bytes that are left, and the token that is looked at. -/
def ConfigParser.remainingWith (token : Bytes) (p : ConfigParser) : Nat :=
  p.remaining + if token = [] then 0 else 1

theorem TokenRead.remaining_lt {p q : ConfigParser} {t : Bytes} (h : TokenRead p t q)
    (ht : t ≠ []) : q.remaining < p.remaining := by
  obtain ⟨hlt, hle⟩ := h.advances ht
  rw [ConfigParser.remaining, ConfigParser.remaining, h.content]
  omega

theorem blockRound_lowers {τ : Type} {parseDirective : Bytes → τ → ConfigM τ}
    (hparser : ∀ t x, Scans (parseDirective t x))
    (hend : ∀ x p y q, (parseDirective [] x).run p ≠ .ok y q) (x : τ) (p : ConfigParser) (y : τ)
    (q : ConfigParser) (h : (blockRound parseDirective x).run p = .ok (.inl y) q) :
    q.remaining < p.remaining := by
  obtain ⟨t, p1, hrun, hread⟩ := tokenize_read p
  rw [blockRound, EStateM.run_bind, hrun] at h
  dsimp only at h
  split_ifs at h with hbrace
  · cases h
  · rw [EStateM.run_bind] at h
    rcases hdir : (parseDirective t x).run p1 with ⟨y1, p2⟩ | ⟨e, p2⟩
    · rw [hdir] at h
      cases h
      have hstate := (hparser t x p1).1
      rw [hdir] at hstate
      have hne : t ≠ [] := by
        rintro rfl
        exact hend _ _ _ _ hdir
      exact Nat.lt_of_le_of_lt hstate.remaining_le (hread.remaining_lt hne)
    · rw [hdir] at h
      cases h

theorem methodsRound_lowers (x : Location × Bool) (p : ConfigParser) (y : Location × Bool)
    (q : ConfigParser) (h : (methodsRound x).run p = .ok (.inl y) q) :
    q.remaining < p.remaining := by
  obtain ⟨t, p1, hrun, hread⟩ := tokenize_read p
  rw [methodsRound, EStateM.run_bind, hrun] at h
  have hne : t ≠ [] := by
    rintro rfl
    cases h
  dsimp only at h
  split_ifs at h <;> cases h <;> exact hread.remaining_lt hne

theorem extensionsRound_lowers (x : Location × Bytes) (p : ConfigParser) (y : Location × Bytes)
    (q : ConfigParser) (h : (extensionsRound x).run p = .ok (.inl y) q) :
    q.remainingWith y.2 < p.remainingWith x.2 := by
  rw [extensionsRound] at h
  split_ifs at h with hlast
  · cases h
  · obtain ⟨t, p1, hrun, hread⟩ := tokenize_read p
    rw [EStateM.run_bind, hrun] at h
    cases h
    rw [not_or] at hlast
    rw [ConfigParser.remainingWith, ConfigParser.remainingWith, if_neg hlast.1]
    split_ifs with ht
    · exact Nat.lt_succ_of_le hread.remaining_le
    · exact Nat.succ_lt_succ (hread.remaining_lt ht)

theorem methodsRound_scans (x : Location × Bool) : Scans (methodsRound x) :=
  .bind tokenize_scans fun _ => .ite (.ite (throwRuntime_scans _ _) (.pure _))
    (.ite (.pure _) (.ite (.pure _) (.ite (.pure _) (throwRuntime_scans _ _))))

theorem extensionsRound_scans (x : Location × Bytes) : Scans (extensionsRound x) :=
  .ite (.pure _) (.bind tokenize_scans fun _ => .pure _)

theorem blockRound_scans {τ : Type} {parseDirective : Bytes → τ → ConfigM τ}
    (hparser : ∀ t x, Scans (parseDirective t x)) (x : τ) : Scans (blockRound parseDirective x) :=
  .bind tokenize_scans fun t => .ite (.pure _) (.bind (hparser t x) fun _ => .pure _)

/-! ### The functions on fuel do these rounds -/

theorem parseMethodList_rounds :
    Loop.Implements (fun fuel x => parseMethodList fuel x.1 x.2) methodsRound := by
  intro n x p
  obtain ⟨t, p1, hrun, -⟩ := tokenize_read p
  simp only [parseMethodList, methodsRound, EStateM.run_bind, hrun]
  split_ifs <;> rfl

theorem parseExtensionList_rounds :
    Loop.Implements (fun fuel x => parseExtensionList fuel x.1 x.2) extensionsRound := by
  intro n x p
  obtain ⟨t, p1, hrun, -⟩ := tokenize_read p
  simp only [parseExtensionList, extensionsRound]
  split_ifs
  · rfl
  · rw [EStateM.run_bind, EStateM.run_bind, hrun]
    rfl

/-- The two loops over a block have one shape. -/
theorem block_rounds {τ : Type} {parseDirective : Bytes → τ → ConfigM τ}
    {body : Nat → τ → ConfigM τ}
    (hsucc : ∀ fuel x, body (fuel + 1) x = do
      let token ← tokenize
      if token = bytes "\x7d" then return x
      else
        let x ← parseDirective token x
        body fuel x) :
    Loop.Implements body (blockRound parseDirective) := by
  intro n x p
  obtain ⟨t, p1, hrun, -⟩ := tokenize_read p
  rw [hsucc, blockRound, EStateM.run_bind, EStateM.run_bind, hrun]
  dsimp only
  split_ifs
  · rfl
  · rw [EStateM.run_bind, EStateM.run_bind]
    rcases (parseDirective t x).run p1 with ⟨y, p2⟩ | ⟨e, p2⟩ <;> rfl

theorem parseLocationBody_rounds (cwd : Option Bytes) :
    Loop.Implements (parseLocationBody cwd) (blockRound (parseLocationDirective cwd)) :=
  block_rounds fun _ _ => rfl

theorem parseServerBody_rounds (cwd : Option Bytes) :
    Loop.Implements (parseServerBody cwd) (blockRound (parseServerDirective cwd)) :=
  block_rounds fun _ _ => rfl

theorem parseServers_rounds (cwd : Option Bytes) :
    Loop.Implements (fun fuel _ => parseServers cwd fuel) (serversRound cwd) := by
  intro n x p
  obtain ⟨t, p1, hrun, -⟩ := tokenize_read p
  simp only [parseServers, serversRound, EStateM.run_bind, hrun]
  split_ifs
  · rfl
  · rw [EStateM.run_bind, EStateM.run_bind]
    rcases (parseServer cwd).run p1 with ⟨u, p2⟩ | ⟨e, p2⟩ <;> rfl
  · rfl

/-! ### What is computed without a token -/

/-- The computation is none that the model gives up. -/
def Finishes {τ : Type} (x : Except ConfigError τ) : Prop := x ≠ .error .diverges

namespace Finishes

variable {τ υ : Type} {x y : Except ConfigError τ}

theorem ok (a : τ) : Finishes (.ok a) := nofun

theorem runtimeError (message : Bytes) :
    Finishes (.error (.runtimeError message) : Except ConfigError τ) := nofun

theorem ite {c : Prop} [Decidable c] (hx : Finishes x) (hy : Finishes y) :
    Finishes (if c then x else y) := by
  split
  · exact hx
  · exact hy

theorem bind {k : τ → Except ConfigError υ} (hx : Finishes x) (hk : ∀ a, Finishes (k a)) :
    Finishes (x >>= k) := by
  rcases x with e | a
  · intro h
    cases h
    exact hx rfl
  · exact hk a

end Finishes

theorem normalizeSegments_throws (stack segments : List Bytes) :
    ThrowsStatus (normalizeSegments stack segments) := by
  induction segments generalizing stack with
  | nil => exact .ok _
  | cons segment segments ih => exact .ite (ih _) (.ite (.ite (.error _) (ih _)) (ih _))

theorem normalizePathBySegments_throws (path : Bytes) :
    ThrowsStatus (normalizePathBySegments path) :=
  .ite (.error _) (.bind (normalizeSegments_throws _ _) fun _ => .ite (.ok _) (.ok _))

theorem joinAndNormalizePath_finishes (base relative : Bytes) :
    Finishes (joinAndNormalizePath base relative) := by
  refine .ite (.ok _) (.ite (.runtimeError _) ?_)
  rcases h : normalizePathBySegments (base ++ [SLASH] ++ relative) with e | path
  · obtain ⟨status, rfl⟩ := normalizePathBySegments_throws _ e h
    nofun
  · exact .ok path

theorem resolveRootPath_finishes (cwd : Option Bytes) (token : Bytes) :
    Finishes (resolveRootPath cwd token) := by
  refine .ite (.ok _) ?_
  cases cwd with
  | none => exact .runtimeError _
  | some currentDir => exact joinAndNormalizePath_finishes currentDir token

theorem requireAbsoluteSafePathOrThrow_finishes (path : Bytes) (label : String) :
    Finishes (requireAbsoluteSafePathOrThrow path label) :=
  .ite (.runtimeError _) (.ite (.runtimeError _) (.ok _))

theorem portValue_finishes (port : Bytes) : Finishes (portValue port) := by
  unfold portValue
  cases strToUnsignedShort port with
  | none => exact ConfigError.noConfusion ∘ Except.error.inj
  | some n => exact .ok n

theorem setListen_finishes (config : ServerConfig) (host : Bytes) (port : Nat) :
    Finishes (config.setListen host port) := .ite (.runtimeError _) (.ok _)

/-! ### The functions of the parser -/

theorem parseMethods_scans (location : Location) : Scans (parseMethods location) := by
  refine .ite (throwRuntime_scans _ _) (.get_bind fun p => ?_)
  refine parseMethodList_rounds.steps methodsRound_scans (fun _ => ConfigParser.remaining)
    methodsRound_lowers (a := (location, true)) ?_
  exact Nat.lt_succ_of_le (Nat.sub_le _ _)

/-- A directive on its way out. -/
theorem semicolon_scans {τ : Type} (name : String) (a : τ) :
    Scans (do consumeExpectedSemicolon name; return a) :=
  .bind (consumeExpectedSemicolon_scans name) fun _ => .pure a

theorem parseRoot_scans (cwd : Option Bytes) (location : Location) :
    Scans (parseRoot cwd location) :=
  .bind tokenize_scans fun token => .ite (throwRuntime_scans _ _)
    (.bind (callConfig_scans (resolveRootPath_finishes cwd token)) fun resolved =>
      .bind (callConfig_scans (requireAbsoluteSafePathOrThrow_finishes resolved _)) fun _ =>
        .bind (callConfig_scans (Finishes.ite (.runtimeError _) (.ok _))) fun _ => semicolon_scans _ _)

theorem parseAutoIndex_scans (location : Location) : Scans (parseAutoIndex location) :=
  .bind tokenize_scans fun _ => .ite (throwRuntime_scans _ _) (.ite (throwRuntime_scans _ _)
    (.bind (callConfig_scans (Finishes.ite (.runtimeError _) (.ok _))) fun _ =>
      semicolon_scans _ _))

theorem parseIndex_scans (location : Location) : Scans (parseIndex location) :=
  .bind tokenize_scans fun _ => .ite (throwRuntime_scans _ _) (.ite (throwRuntime_scans _ _)
    (.bind (callConfig_scans (Finishes.ite (.runtimeError _) (.ok _))) fun _ =>
      semicolon_scans _ _))

theorem parseUploadPath_scans (location : Location) : Scans (parseUploadPath location) :=
  .bind tokenize_scans fun token => .ite (throwRuntime_scans _ _)
    (.bind (callConfig_scans (requireAbsoluteSafePathOrThrow_finishes token _)) fun _ =>
      .bind (callConfig_scans (Finishes.ite (.runtimeError _) (.ok _))) fun _ =>
        semicolon_scans _ _)

theorem parseRedirect_scans (location : Location) : Scans (parseRedirect location) :=
  parseSimpleDirective_scans (fun _ _ => Finishes.ite (.runtimeError _) (.ok _)) _ _

theorem parseCgi_scans (location : Location) : Scans (parseCgi location) :=
  parseSimpleDirective_scans
    (fun _ _ => Finishes.ite (.runtimeError _) (.ite (.runtimeError _) (.ok _))) _ _

theorem parseCgiAllowedExtensions_scans (location : Location) :
    Scans (parseCgiAllowedExtensions location) := by
  refine .ite (throwRuntime_scans _ _) fun p => ?_
  obtain ⟨t, q, hrun, hread⟩ := tokenize_read p
  rw [StepsFrom, EStateM.run_bind, hrun]
  dsimp only
  split_ifs with hlast
  · refine ⟨hread.toReadsOn, fun e p' h => ?_⟩
    cases h
    intro heq
    cases heq
  · rw [not_or] at hlast
    have hsteps : StepsFrom ReadsOn (· ≠ .diverges) q (parseExtensionList q.fuel location t) := by
      refine parseExtensionList_rounds.steps extensionsRound_scans
        (fun x => ConfigParser.remainingWith x.2) extensionsRound_lowers (a := (location, t)) ?_
      -- the token in front has been read from the text
      have hlt := hread.remaining_lt hlast.1
      have hle : p.remaining ≤ p.content.length := Nat.sub_le _ _
      rw [ConfigParser.remainingWith, if_neg hlast.1, ConfigParser.fuel, hread.content]
      omega
    exact ⟨trans_of ReadsOn hread.toReadsOn hsteps.1, hsteps.2⟩

theorem parseLocationDirective_scans (cwd : Option Bytes) (token : Bytes) (location : Location) :
    Scans (parseLocationDirective cwd token location) := by
  unfold parseLocationDirective
  split
  · exact parseMethods_scans location
  · exact parseRoot_scans cwd location
  · exact parseAutoIndex_scans location
  · exact parseIndex_scans location
  · exact parseUploadPath_scans location
  · exact parseRedirect_scans location
  · exact parseCgi_scans location
  · exact parseCgiAllowedExtensions_scans location
  · exact throwRuntime_scans _ _

/-- The empty token is no directive. -/
theorem parseLocationDirective_nil (cwd : Option Bytes) (location : Location) :
    parseLocationDirective cwd [] location =
      throwRuntime "Unknown directive in location: " [] := rfl

theorem parseServerDirective_nil (cwd : Option Bytes) (config : ServerConfig) :
    parseServerDirective cwd [] config = throwRuntime "Unknown directive: " [] := rfl

/-- The loop over a block starts with fuel for the whole text. -/
theorem block_scans {τ υ : Type} {parseDirective : Bytes → τ → ConfigM τ}
    {body : Nat → τ → ConfigM τ} {k : τ → ConfigM υ}
    (hbody : Loop.Implements body (blockRound parseDirective))
    (hparser : ∀ t x, Scans (parseDirective t x))
    (hend : ∀ x p y q, (parseDirective [] x).run p ≠ .ok y q) (x : τ) (hk : ∀ y, Scans (k y)) :
    Scans (do let y ← body (← get).fuel x; k y) := by
  refine .get_bind fun p => .bind ?_ hk
  refine hbody.steps (blockRound_scans hparser) (fun _ => ConfigParser.remaining)
    (blockRound_lowers hparser hend) ?_
  exact Nat.lt_succ_of_le (Nat.sub_le _ _)

theorem parseLocationDirective_end (cwd : Option Bytes) (location : Location) (p : ConfigParser)
    (a : Location) (q : ConfigParser) : (parseLocationDirective cwd [] location).run p ≠ .ok a q := by
  rw [parseLocationDirective_nil]
  nofun

theorem parseServerDirective_end (cwd : Option Bytes) (config : ServerConfig) (p : ConfigParser)
    (a : ServerConfig) (q : ConfigParser) : (parseServerDirective cwd [] config).run p ≠ .ok a q := by
  rw [parseServerDirective_nil]
  nofun

theorem parseLocation_scans (cwd : Option Bytes) (server : ServerConfig) :
    Scans (parseLocation cwd server) := by
  refine .bind tokenize_scans fun name => .ite (throwRuntime_scans _ _)
    (.bind tokenize_scans fun token => .ite (throwRuntime_scans _ _) ?_)
  refine block_scans (parseLocationBody_rounds cwd) (parseLocationDirective_scans cwd)
    (parseLocationDirective_end cwd) _ fun location => ?_
  exact callConfig_scans (Finishes.ite (.runtimeError _) (.ok _))

theorem parseListen_scans (config : ServerConfig) : Scans (parseListen config) := by
  have hset : ∀ host port, Scans (callConfig (portValue port >>= config.setListen host)) :=
    fun host port => callConfig_scans
      (Finishes.bind (portValue_finishes port) fun n => setListen_finishes config host n)
  refine .bind tokenize_scans fun token1 => .ite (throwRuntime_scans _ _) (.ite ?_ ?_)
  · exact .ite (throwRuntime_scans _ _) (.ite (throwRuntime_scans _ _)
      (.bind tokenize_scans fun last => .ite (throwRuntime_scans _ _) (hset _ _)))
  · exact .bind tokenize_scans fun token2 => .ite (throwRuntime_scans _ _)
      (.ite (.ite (throwRuntime_scans _ _) (hset config.host token1))
        (.ite (throwRuntime_scans _ _) (callConfig_scans (setListen_finishes _ _ _))))

theorem parseServerName_scans (config : ServerConfig) : Scans (parseServerName config) :=
  parseSimpleDirective_scans (fun _ _ => Finishes.ite (.runtimeError _) (.ok _)) _ _

theorem parseMaxBody_scans (config : ServerConfig) : Scans (parseMaxBody config) :=
  .bind tokenize_scans fun _ => .ite (throwRuntime_scans _ _) (.ite (throwRuntime_scans _ _)
    (.bind (callConfig_scans (Finishes.ite (.runtimeError _) (.ok _))) fun _ =>
      semicolon_scans _ _))

theorem parseErrorPage_scans (config : ServerConfig) : Scans (parseErrorPage config) :=
  .bind tokenize_scans fun _ => .ite (throwRuntime_scans _ _) (.ite (throwRuntime_scans _ _)
    (.bind tokenize_scans fun _ => .ite (throwRuntime_scans _ _) (.ite (throwRuntime_scans _ _)
      (semicolon_scans _ _))))

theorem parseServerDirective_scans (cwd : Option Bytes) (token : Bytes) (config : ServerConfig) :
    Scans (parseServerDirective cwd token config) := by
  unfold parseServerDirective
  split
  · exact parseListen_scans config
  · exact parseServerName_scans config
  · exact parseMaxBody_scans config
  · exact parseErrorPage_scans config
  · exact parseLocation_scans cwd config
  · exact throwRuntime_scans _ _

theorem parseServer_scans (cwd : Option Bytes) : Scans (parseServer cwd) := by
  refine .bind tokenize_scans fun token => .ite (throwRuntime_scans _ _) ?_
  refine block_scans (parseServerBody_rounds cwd) (parseServerDirective_scans cwd)
    (parseServerDirective_end cwd) _ fun config => ?_
  exact .modify fun p => ⟨rfl, Nat.le_refl _, fun h => h⟩

theorem serversRound_scans (cwd : Option Bytes) (u : Unit) : Scans (serversRound cwd u) :=
  .bind tokenize_scans fun _ => .ite (.pure _)
    (.ite (.bind (parseServer_scans cwd) fun _ => .pure _) (throwRuntime_scans _ _))

theorem serversRound_lowers (cwd : Option Bytes) (u : Unit) (p : ConfigParser) (u' : Unit)
    (q : ConfigParser) (h : (serversRound cwd u).run p = .ok (.inl u') q) :
    q.remaining < p.remaining := by
  obtain ⟨t, p1, hrun, hread⟩ := tokenize_read p
  rw [serversRound, EStateM.run_bind, hrun] at h
  dsimp only at h
  split_ifs at h with hnil hserver
  · cases h
  · rw [EStateM.run_bind] at h
    have hstate := (parseServer_scans cwd p1).1
    rcases hdir : (parseServer cwd).run p1 with ⟨y, p2⟩ | ⟨e, p2⟩
    · rw [hdir] at h hstate
      cases h
      exact Nat.lt_of_le_of_lt hstate.remaining_le (hread.remaining_lt hnil)
    · rw [hdir] at h
      cases h
  · cases h

/-! ### The parser ends -/

/-- A loop of the parser, `loop` on fuel and one of rounds.  From every state it ends, after
finitely many rounds: it leaves or throws, with whatever fuel the function has from there on.
And behind the end of the text, which the round sees in `AtEnd`, there is no other round. -/
structure EndingLoop {α β : Type} (loop : Nat → α → ConfigM β) (round : α → ConfigM (α ⊕ β))
    (AtEnd : α → ConfigParser → Prop) : Prop where
  ends : ∀ a p, ∃ n r, n ≤ p.remaining + 2 ∧ Loop.Ends round n a p r ∧
    (∀ m, n ≤ m → (loop m a).run p = r) ∧ ReadsOn p r.state ∧ ∀ e q, r = .error e q → e ≠ .diverges
  leaves : ∀ a p, AtEnd a p → ∀ a' q, (round a).run p ≠ .ok (.inl a') q

/-- The next call of `Tokenize` returns the empty token. -/
def EmptyNext {α : Type} (_ : α) (p : ConfigParser) : Prop := ∃ q, tokenize.run p = .ok [] q

theorem EndingLoop.of_lowers {α β : Type} {loop : Nat → α → ConfigM β}
    {round : α → ConfigM (α ⊕ β)} {AtEnd : α → ConfigParser → Prop}
    (hloop : Loop.Implements loop round) (hparser : ∀ a, Scans (round a))
    (μ : α → ConfigParser → Nat) (hμ : ∀ a p, μ a p ≤ p.remaining + 1)
    (hlower : ∀ a p a' q, (round a).run p = .ok (.inl a') q → μ a' q < μ a p)
    (hleaves : ∀ a p, AtEnd a p → ∀ a' q, (round a).run p ≠ .ok (.inl a') q) :
    EndingLoop loop round AtEnd := by
  refine ⟨fun a p => ?_, hleaves⟩
  obtain ⟨n, r, hn, hends⟩ := Loop.exists_ends μ hlower a p
  have hle := hμ a p
  exact ⟨n, r, by omega, hends, fun m hm => hends.run_eq hloop hm, hends.steps hparser⟩

theorem block_ends {τ : Type} {parseDirective : Bytes → τ → ConfigM τ} {body : Nat → τ → ConfigM τ}
    (hbody : Loop.Implements body (blockRound parseDirective))
    (hparser : ∀ t x, Scans (parseDirective t x))
    (hend : ∀ x p y q, (parseDirective [] x).run p ≠ .ok y q) :
    EndingLoop body (blockRound parseDirective) EmptyNext := by
  refine .of_lowers hbody (blockRound_scans hparser) (fun _ => ConfigParser.remaining)
    (fun _ _ => Nat.le_succ _) (blockRound_lowers hparser hend) ?_
  rintro x p ⟨p1, hrun⟩ y q h
  rw [blockRound, EStateM.run_bind, hrun] at h
  dsimp only at h
  rw [if_neg (by decide), EStateM.run_bind] at h
  rcases hdir : (parseDirective [] x).run p1 with ⟨y1, p2⟩ | ⟨e, p2⟩
  · exact hend _ _ _ _ hdir
  · rw [hdir] at h
    cases h

theorem methods_end : EndingLoop (fun fuel x => parseMethodList fuel x.1 x.2) methodsRound
    EmptyNext := by
  refine .of_lowers parseMethodList_rounds methodsRound_scans (fun _ => ConfigParser.remaining)
    (fun _ _ => Nat.le_succ _) methodsRound_lowers ?_
  rintro x p ⟨p1, hrun⟩ y q h
  rw [methodsRound, EStateM.run_bind, hrun] at h
  cases h

theorem extensions_end : EndingLoop (fun fuel x => parseExtensionList fuel x.1 x.2) extensionsRound
    fun x _ => x.2 = [] := by
  refine .of_lowers parseExtensionList_rounds extensionsRound_scans
    (fun x => ConfigParser.remainingWith x.2) (fun x p => ?_) extensionsRound_lowers ?_
  · unfold ConfigParser.remainingWith
    split_ifs
    · exact Nat.le_succ _
    · exact Nat.le_refl _
  · intro x p hnil y q h
    rw [extensionsRound, if_pos (.inl hnil)] at h
    cases h

theorem servers_end (cwd : Option Bytes) :
    EndingLoop (fun fuel _ => parseServers cwd fuel) (serversRound cwd) EmptyNext := by
  refine .of_lowers (parseServers_rounds cwd) (serversRound_scans cwd)
    (fun _ => ConfigParser.remaining) (fun _ _ => Nat.le_succ _) (serversRound_lowers cwd) ?_
  rintro u p ⟨p1, hrun⟩ u' q h
  rw [serversRound, EStateM.run_bind, hrun] at h
  cases h

/-- **The configuration parser ends on every text**, whole or cut off: `Parse` returns the servers
or throws after at most one round for each byte and one more.  Every token moves the cursor on
inside of the text, and each of the five loops ends from every state, without another round behind
the empty token. -/
theorem ConfigParser.parse_ends (cwd : Option Bytes) (content : Bytes) :
    (∃ n r, n ≤ content.length + 1 ∧ Loop.Ends (serversRound cwd) n () { content := content } r ∧
      ((∃ q, r = .ok () q ∧ ConfigParser.parse cwd content = .ok q.serverConfigs) ∨
        ∃ e q, r = .error e q ∧ e ≠ .diverges ∧ ConfigParser.parse cwd content = .error e)) ∧
      (∀ p : ConfigParser, ∃ t q, tokenize.run p = .ok t q ∧ TokenRead p t q) ∧
      EndingLoop (fun fuel _ => parseServers cwd fuel) (serversRound cwd) EmptyNext ∧
      EndingLoop (parseServerBody cwd) (blockRound (parseServerDirective cwd)) EmptyNext ∧
      EndingLoop (parseLocationBody cwd) (blockRound (parseLocationDirective cwd)) EmptyNext ∧
      EndingLoop (fun fuel x => parseMethodList fuel x.1 x.2) methodsRound EmptyNext ∧
      EndingLoop (fun fuel x => parseExtensionList fuel x.1 x.2) extensionsRound
        fun x _ => x.2 = [] := by
  refine ⟨?_, tokenize_read, servers_end cwd, ?_, ?_, methods_end, extensions_end⟩
  · obtain ⟨n, r, hn, hends⟩ := Loop.exists_ends (fun _ => ConfigParser.remaining)
      (serversRound_lowers cwd) () { content := content }
    have hrun := hends.run_eq (parseServers_rounds cwd) hn
    obtain ⟨-, hthrown⟩ := hends.steps (serversRound_scans cwd)
    have hparse : (do parseServers cwd (← get).fuel : ConfigM Unit).run { content := content } = r :=
      hrun
    refine ⟨n, r, hn, hends, ?_⟩
    rw [ConfigParser.parse, hparse]
    rcases r with ⟨u, q⟩ | ⟨e, q⟩
    · exact .inl ⟨q, rfl, rfl⟩
    · exact .inr ⟨e, q, rfl, hthrown e q rfl, rfl⟩
  · exact block_ends (parseServerBody_rounds cwd) (parseServerDirective_scans cwd)
      (parseServerDirective_end cwd)
  · exact block_ends (parseLocationBody_rounds cwd) (parseLocationDirective_scans cwd)
      (parseLocationDirective_end cwd)

end Webserv
