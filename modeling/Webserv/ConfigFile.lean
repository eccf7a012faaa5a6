/-
Webserv/ConfigFile.lean

The configuration file as a list of blocks.

`Parse` reads one block of a server after the other (`ReadsFile`), and the servers it
returns are those of the blocks: the functions for the directives work on the server they
are given, and leave the list of servers alone (`KeepsServers`).
-/
import Webserv.ConfigRuns

namespace Webserv

/-! ### The list of servers -/

/-- `x` leaves the list of servers alone. -/
def KeepsServers {τ : Type} (x : ConfigM τ) : Prop :=
  ∀ p a q, x.run p = .ok a q → q.serverConfigs = p.serverConfigs

namespace KeepsServers

variable {τ υ : Type} {x y : ConfigM τ}

theorem throw {e : ConfigError} : KeepsServers (MonadExcept.throw e : ConfigM τ) := by
  intro p a q hrun
  cases hrun

theorem pure {a : τ} : KeepsServers (Pure.pure a : ConfigM τ) := by
  intro p b q hrun
  cases hrun
  rfl

theorem ite {c : Prop} [Decidable c] (hx : KeepsServers x) (hy : KeepsServers y) :
    KeepsServers (if c then x else y) := by
  split
  · exact hx
  · exact hy

theorem bind {z : ConfigM υ} {k : υ → ConfigM τ} (hz : KeepsServers z) (hk : ∀ a, KeepsServers (k a)) :
    KeepsServers (z >>= k) := by
  intro p b q hrun
  rw [EStateM.run_bind] at hrun
  rcases h : z.run p with ⟨a, p1⟩ | ⟨e, p1⟩
  · rw [h] at hrun
    exact (hk a p1 b q hrun).trans (hz p a p1 h)
  · rw [h] at hrun
    cases hrun

theorem get_bind {k : ConfigParser → ConfigM τ} (hk : ∀ p, KeepsServers (k p)) : KeepsServers (get >>= k) :=
  fun p a q hrun => hk p p a q hrun

theorem call {e : Except ConfigError τ} : KeepsServers (callConfig e) := by
  cases e with
  | ok a => exact pure
  | error e => exact throw

theorem tokenize : KeepsServers Webserv.tokenize := by
  intro p t q hrun
  simp only [Webserv.tokenize, EStateM.run_bind, EStateM.run_get] at hrun
  split_ifs at hrun
  · cases hrun
    rfl
  · cases hrun
    rfl

theorem semicolon {name : String} {a : τ} :
    KeepsServers (do consumeExpectedSemicolon name; return a) :=
  .bind (.bind tokenize fun _ => .ite throw pure) fun _ => pure

/-- A directive with one argument. -/
theorem simple {setter : τ → Bytes → Except ConfigError τ} {message : String} {a : τ} :
    KeepsServers (parseSimpleDirective setter message a) :=
  .bind tokenize fun _ => .ite throw (.bind call fun _ => semicolon)

end KeepsServers

theorem parseMethodList_keeps (fuel : Nat) (loc : Location) (flag : Bool) :
    KeepsServers (parseMethodList fuel loc flag) := by
  induction fuel generalizing loc flag with
  | zero => exact .throw
  | succ fuel ih =>
      exact .bind .tokenize fun t => .ite (.ite .throw .pure) (.ite (ih _ _) (.ite (ih _ _)
        (.ite (ih _ _) .throw)))

theorem parseExtensionList_keeps (fuel : Nat) (loc : Location) (t : Bytes) :
    KeepsServers (parseExtensionList fuel loc t) := by
  induction fuel generalizing loc t with
  | zero => exact .throw
  | succ fuel ih => exact .ite .pure (.bind .tokenize fun t => ih _ t)

theorem parseLocationDirective_keeps (cwd : Option Bytes) (t : Bytes) (loc : Location) :
    KeepsServers (parseLocationDirective cwd t loc) := by
  rw [parseLocationDirective]
  split
  · exact .ite .throw (.get_bind fun p => parseMethodList_keeps _ _ _)
  · exact .bind .tokenize fun t => .ite .throw (.bind .call fun _ => .bind .call fun _ =>
      .bind .call fun _ => .semicolon)
  · exact .bind .tokenize fun t => .ite .throw (.ite .throw (.bind .call fun _ => .semicolon))
  · exact .bind .tokenize fun t => .ite .throw (.ite .throw (.bind .call fun _ => .semicolon))
  · exact .bind .tokenize fun t => .ite .throw (.bind .call fun _ => .bind .call fun _ =>
      .semicolon)
  · exact .simple
  · exact .simple
  · exact .ite .throw (.bind .tokenize fun t => .ite .throw (.get_bind fun p =>
      parseExtensionList_keeps _ _ _))
  · exact .throw

theorem parseLocationBody_keeps (cwd : Option Bytes) (fuel : Nat) (loc : Location) :
    KeepsServers (parseLocationBody cwd fuel loc) := by
  induction fuel generalizing loc with
  | zero => exact .throw
  | succ fuel ih =>
      exact .bind .tokenize fun t => .ite .pure
        (.bind (parseLocationDirective_keeps cwd t loc) fun a => ih a)

theorem parseServerDirective_keeps (cwd : Option Bytes) (t : Bytes) (config : ServerConfig) :
    KeepsServers (parseServerDirective cwd t config) := by
  rw [parseServerDirective]
  split
  · exact .bind .tokenize fun t => .ite .throw (.ite (.ite .throw (.ite .throw
      (.bind .tokenize fun t => .ite .throw .call))) (.bind .tokenize fun t => .ite .throw
        (.ite (.ite .throw .call) (.ite .throw .call))))
  · exact .simple
  · exact .bind .tokenize fun t => .ite .throw (.ite .throw (.bind .call fun _ => .semicolon))
  · exact .bind .tokenize fun t => .ite .throw (.ite .throw (.bind .tokenize fun t =>
      .ite .throw (.ite .throw .semicolon)))
  · exact .bind .tokenize fun t => .ite .throw (.bind .tokenize fun t => .ite .throw
      (.get_bind fun p => .bind (parseLocationBody_keeps cwd _ _) fun _ => .call))
  · exact .throw

/-- **The directives of a server leave the list of servers alone.** -/
theorem ReadsBlock.keeps {τ : Type} {parseDirective : Bytes → τ → ConfigM τ}
    (hdirective : ∀ t x, KeepsServers (parseDirective t x)) {p q : ConfigParser} {x y : τ}
    {ds : List Directive} (h : ReadsBlock parseDirective p x ds q y) :
    q.serverConfigs = p.serverConfigs := by
  induction h with
  | nil => rfl
  | cons hkeyword hrun htaken h ih =>
      exact ih.trans ((hdirective _ _ _ _ _ hrun).trans (KeepsServers.tokenize _ _ _ hkeyword))

/-! ### Blocks of servers -/

/-- The directives of a block, and the server they describe. -/
structure ServerBlock where
  directives : List Directive
  config : ServerConfig

/-- `server_configs_.push_back(config)`. -/
def ConfigParser.addServer (p : ConfigParser) (config : ServerConfig) : ConfigParser :=
  { p with serverConfigs := p.serverConfigs ++ [config] }

/-- `Parse` reads these blocks, from `p` to the end of the text. -/
inductive ReadsFile (cwd : Option Bytes) : ConfigParser → List ServerBlock → Prop
  | nil {p q : ConfigParser} (hend : tokenize.run p = .ok [] q) : ReadsFile cwd p []
  | cons {p p1 p2 p3 q : ConfigParser} {b : ServerBlock} {bs : List ServerBlock}
      (hserver : tokenize.run p = .ok (bytes "server") p1)
      (hopen : tokenize.run p1 = .ok (bytes "\x7b") p2)
      (hblock : ReadsBlock (parseServerDirective cwd) p2 {} b.directives p3 b.config)
      (hclose : tokenize.run p3 = .ok (bytes "\x7d") q)
      (h : ReadsFile cwd (q.addServer b.config) bs) :
      ReadsFile cwd p (b :: bs)

theorem parseServerBody_iff {cwd : Option Bytes} {fuel : Nat} {p q : ConfigParser}
    {config config' : ServerConfig} (hfuel : p.rest.length < fuel) :
    (parseServerBody cwd fuel config).run p = .ok config' q ↔
      ∃ ds p1, ReadsBlock (parseServerDirective cwd) p config ds p1 config' ∧
        tokenize.run p1 = .ok (bytes "\x7d") q :=
  loop_iff (parseServerBody cwd) (fun _ _ => rfl) (fun _ _ _ _ h => by cases h)
    (fun _ _ _ _ h => by cases h)
    (fun t x _ _ _ h => (parseServerDirective_takes cwd t x).taken h) hfuel

/-- `ParseServer` reads a block and appends its server. -/
theorem parseServer_iff {cwd : Option Bytes} {p q : ConfigParser} :
    (parseServer cwd).run p = .ok () q ↔
      ∃ (b : ServerBlock) (p1 p2 q0 : ConfigParser), tokenize.run p = .ok (bytes "\x7b") p1 ∧
        ReadsBlock (parseServerDirective cwd) p1 {} b.directives p2 b.config ∧
        tokenize.run p2 = .ok (bytes "\x7d") q0 ∧ q0.addServer b.config = q := by
  obtain ⟨t, p1, hopen, -⟩ := tokenize_run p
  have hrun : (parseServer cwd).run p = (if t ≠ bytes "\x7b" then throwRuntime "Syntax error: " t
      else parseServerBody cwd p1.fuel {} >>= fun config => modify fun p => p.addServer config :
        ConfigM Unit).run p1 := by
    rw [parseServer, EStateM.run_bind, hopen]
    dsimp only
    by_cases ht : t = bytes "\x7b"
    · rw [if_neg (not_not_intro ht), if_neg (not_not_intro ht)]
      rfl
    · rw [if_pos ht, if_pos ht]
  rw [hrun]
  constructor
  · intro hq
    by_cases ht : t = bytes "\x7b"
    · rw [if_neg (not_not_intro ht), EStateM.run_bind] at hq
      rcases hbody : (parseServerBody cwd p1.fuel {}).run p1 with ⟨config, q0⟩ | ⟨e, q0⟩
      · rw [hbody] at hq
        obtain ⟨ds, p2, hblock, hclose⟩ :=
          (parseServerBody_iff (length_rest_lt_fuel p1)).mp hbody
        cases hq
        rw [ht] at hopen
        exact ⟨⟨ds, config⟩, p1, p2, q0, hopen, hblock, hclose, rfl⟩
      · rw [hbody] at hq
        cases hq
    · rw [if_pos ht] at hq
      cases hq
  · rintro ⟨b, p1', p2, q0, hopen', hblock, hclose, rfl⟩
    rw [hopen] at hopen'
    cases hopen'
    rw [if_neg (not_not_intro rfl), EStateM.run_bind,
      (parseServerBody_iff (length_rest_lt_fuel p1)).mpr ⟨b.directives, p2, hblock, hclose⟩]
    rfl

theorem tokenize_rest {p q : ConfigParser} {t : Bytes} (h : tokenize.run p = .ok t q) :
    ∃ w, p.rest = w ++ q.rest := by
  obtain ⟨t0, q0, hrun, hcase⟩ := tokenize_run p
  rw [h] at hrun
  cases hrun
  obtain ⟨-, hp, hq⟩ | ⟨-, hrest⟩ := hcase
  · exact ⟨[], by rw [hp, hq]; rfl⟩
  · exact ⟨[t], hrest⟩

/-- What the loop over a block reads is taken from the front. -/
theorem ReadsBlock.rest {τ : Type} {parseDirective : Bytes → τ → ConfigM τ} {p q : ConfigParser}
    {x y : τ} {ds : List Directive} (h : ReadsBlock parseDirective p x ds q y) :
    ∃ w, p.rest = w ++ q.rest := by
  induction h with
  | nil => exact ⟨[], rfl⟩
  | @cons _ _ _ _ _ _ _ d _ hkeyword hrun htaken h ih =>
      obtain ⟨w, hw⟩ := tokenize_rest hkeyword
      obtain ⟨v, hv⟩ := ih
      refine ⟨w ++ (d.taken ++ v), ?_⟩
      rw [hw, htaken, hv, List.append_assoc, List.append_assoc]

/-- **The loop of `Parse`** reads blocks of servers. -/
theorem parseServers_iff {cwd : Option Bytes} {fuel : Nat} {p : ConfigParser}
    (hfuel : p.rest.length < fuel) {configs : List ServerConfig} :
    (∃ q, (parseServers cwd fuel).run p = .ok () q ∧ q.serverConfigs = configs) ↔
      ∃ bs, ReadsFile cwd p bs ∧ configs = p.serverConfigs ++ bs.map ServerBlock.config := by
  induction fuel generalizing p configs with
  | zero => exact absurd hfuel (Nat.not_lt_zero _)
  | succ fuel ih =>
      obtain ⟨t, p1, hrun, hcase⟩ := tokenize_run p
      rw [parseServers, EStateM.run_bind, hrun]
      dsimp only
      have hkeep := KeepsServers.tokenize _ _ _ hrun
      -- what is behind a block
      have hstep : t ≠ [] → ∀ {q : ConfigParser} {b : ServerBlock} {p2 p3},
          tokenize.run p1 = .ok (bytes "\x7b") p2 →
          ReadsBlock (parseServerDirective cwd) p2 {} b.directives p3 b.config →
          tokenize.run p3 = .ok (bytes "\x7d") q →
          q.rest.length < fuel ∧ q.serverConfigs = p.serverConfigs := by
        intro hne q b p2 p3 hopen hblock hclose
        constructor
        · obtain ⟨h, -, -⟩ | ⟨-, hrest⟩ := hcase
          · exact absurd h hne
          · obtain ⟨w1, hw1⟩ := tokenize_rest hopen
            obtain ⟨w2, hw2⟩ := hblock.rest
            obtain ⟨w3, hw3⟩ := tokenize_rest hclose
            rw [hrest, hw1, hw2, hw3, List.length_cons, List.length_append, List.length_append,
              List.length_append] at hfuel
            omega
        · rw [KeepsServers.tokenize _ _ _ hclose, hblock.keeps (parseServerDirective_keeps cwd),
            KeepsServers.tokenize _ _ _ hopen, hkeep]
      constructor
      · rintro ⟨q, hq, rfl⟩
        by_cases hnil : t = []
        · rw [if_pos hnil] at hq
          cases hq
          rw [hnil] at hrun
          refine ⟨[], .nil hrun, ?_⟩
          rw [hkeep, List.map_nil, List.append_nil]
        · rw [if_neg hnil] at hq
          by_cases hserver : t = bytes "server"
          · rw [if_pos hserver, EStateM.run_bind] at hq
            rcases hblock : (parseServer cwd).run p1 with ⟨u, p4⟩ | ⟨e, p4⟩
            · rw [hblock] at hq
              obtain ⟨b, p2, p3, q0, hopen, hreads, hclose, rfl⟩ := parseServer_iff.mp hblock
              obtain ⟨hlen, hsame⟩ := hstep hnil hopen hreads hclose
              obtain ⟨bs, hbs, hconfigs⟩ := (ih (p := q0.addServer b.config) hlen).mp ⟨q, hq, rfl⟩
              rw [hserver] at hrun
              refine ⟨b :: bs, .cons hrun hopen hreads hclose hbs, ?_⟩
              rw [hconfigs, ConfigParser.addServer, hsame, List.append_assoc]
              rfl
            · rw [hblock] at hq
              cases hq
          · rw [if_neg hserver] at hq
            cases hq
      · rintro ⟨bs, hbs, rfl⟩
        cases hbs with
        | nil hend =>
            rw [hrun] at hend
            cases hend
            rw [if_pos rfl, List.map_nil, List.append_nil]
            exact ⟨p1, rfl, hkeep⟩
        | @cons _ _ p2 p3 q0 b bs hserver hopen hreads hclose hbs =>
            rw [hrun] at hserver
            cases hserver
            have hnil : bytes "server" ≠ [] := by decide
            obtain ⟨hlen, hsame⟩ := hstep hnil hopen hreads hclose
            obtain ⟨q, hq, hconfigs⟩ := (ih (p := q0.addServer b.config) hlen).mpr ⟨bs, hbs, rfl⟩
            refine ⟨q, ?_, ?_⟩
            · rw [if_neg hnil, if_pos rfl, EStateM.run_bind,
                parseServer_iff.mpr ⟨b, p2, p3, q0, hopen, hreads, hclose, rfl⟩]
              exact hq
            · rw [hconfigs, ConfigParser.addServer, hsame, List.append_assoc]
              rfl

/-- **`ConfigParser::Parse`** returns the servers of the blocks it reads. -/
theorem parse_iff {cwd : Option Bytes} {content : Bytes} {configs : List ServerConfig} :
    ConfigParser.parse cwd content = .ok configs ↔
      ∃ bs, ReadsFile cwd { content := content } bs ∧ configs = bs.map ServerBlock.config := by
  have hiff : (∃ q, (parseServers cwd (ConfigParser.fuel { content := content })).run
      { content := content } = .ok () q ∧ q.serverConfigs = configs) ↔
      ∃ bs, ReadsFile cwd { content := content } bs ∧ configs = bs.map ServerBlock.config :=
    parseServers_iff (length_rest_lt_fuel _)
  rw [← hiff, ConfigParser.parse]
  have hrun : (do parseServers cwd (← get).fuel : ConfigM Unit).run { content := content } =
      (parseServers cwd (ConfigParser.fuel { content := content })).run { content := content } := rfl
  rw [hrun]
  rcases (parseServers cwd (ConfigParser.fuel { content := content })).run
    { content := content } with ⟨u, q⟩ | ⟨e, q⟩
  · constructor
    · intro h
      exact ⟨q, rfl, Except.ok.inj h⟩
    · rintro ⟨q', hq, rfl⟩
      cases hq
      rfl
  · constructor
    · intro h
      cases h
    · rintro ⟨q', hq, -⟩
      cases hq

end Webserv
