/-
Webserv/ConfigRuns.lean

The runs of the configuration parser, as relations between tokens.

What a function of the parser returns, and which tokens it leaves, depends on the tokens
that are left only (`Parses`).  The loop over a block reads one directive after the other
(`ReadsBlock`), up to the closing brace.
-/
import Webserv.ConfigSound

namespace Webserv

/-! ### What a function makes of the tokens -/

/-- From the tokens `w`, `x` returns `a` and leaves `r` exactly if `R w a r`. -/
def Parses {τ : Type} (x : ConfigM τ) (R : List Bytes → τ → List Bytes → Prop) : Prop :=
  ∀ p a r, (∃ q, x.run p = .ok a q ∧ q.rest = r) ↔ R p.rest a r

/-- `x` returns something with `C`, and takes the semicolon that comes next. -/
def Closes {τ : Type} (x : ConfigM τ) (C : τ → Prop) : Prop :=
  Parses x fun w a r => C a ∧ w = bytes ";" :: r

namespace Parses

variable {τ υ : Type} {x y : ConfigM τ} {R S : List Bytes → τ → List Bytes → Prop}

theorem congr (h : Parses x R) (hRS : ∀ w a r, R w a r ↔ S w a r) : Parses x S :=
  fun p a r => (h p a r).trans (hRS _ _ _)

theorem throw {e : ConfigError} : Parses (MonadExcept.throw e : ConfigM τ) fun _ _ _ => False := by
  intro p a r
  constructor
  · rintro ⟨q, hrun, -⟩
    cases hrun
  · exact False.elim

theorem pure {a : τ} : Parses (Pure.pure a : ConfigM τ) fun w b r => b = a ∧ w = r := by
  intro p b r
  constructor
  · rintro ⟨q, hrun, hq⟩
    cases hrun
    exact ⟨rfl, hq⟩
  · rintro ⟨rfl, hw⟩
    exact ⟨p, rfl, hw⟩

theorem tokenize : Parses Webserv.tokenize fun w t r =>
    (t = [] ∧ w = [] ∧ r = []) ∨ (t ≠ [] ∧ w = t :: r) := by
  intro p t r
  obtain ⟨t0, q0, hrun, hcase⟩ := tokenize_run p
  constructor
  · rintro ⟨q, hq, rfl⟩
    rw [hrun] at hq
    cases hq
    exact hcase
  · intro h
    refine ⟨q0, ?_, ?_⟩
    · rw [hrun]
      obtain ⟨rfl, hw, -⟩ | ⟨-, hw⟩ := h
      · obtain ⟨rfl, -, -⟩ | ⟨-, hw0⟩ := hcase
        · rfl
        · exact absurd (hw0.symm.trans hw) (List.cons_ne_nil _ _)
      · obtain ⟨-, hw0, -⟩ | ⟨-, hw0⟩ := hcase
        · exact absurd (hw.symm.trans hw0) (List.cons_ne_nil _ _)
        · rw [(List.cons.inj (hw0.symm.trans hw)).1]
    · obtain ⟨rfl, hw, rfl⟩ | ⟨-, hw⟩ := h
      · obtain ⟨-, -, hq0⟩ | ⟨-, hw0⟩ := hcase
        · exact hq0
        · exact absurd (hw0.symm.trans hw) (List.cons_ne_nil _ _)
      · obtain ⟨-, hw0, -⟩ | ⟨-, hw0⟩ := hcase
        · exact absurd (hw.symm.trans hw0) (List.cons_ne_nil _ _)
        · exact (List.cons.inj (hw0.symm.trans hw)).2

theorem bind {z : ConfigM υ} {k : υ → ConfigM τ} {T : List Bytes → υ → List Bytes → Prop}
    {U : υ → List Bytes → τ → List Bytes → Prop} (hz : Parses z T) (hk : ∀ a, Parses (k a) (U a)) :
    Parses (z >>= k) fun w b r => ∃ a v, T w a v ∧ U a v b r := by
  intro p b r
  constructor
  · rintro ⟨q, hrun, hq⟩
    rw [EStateM.run_bind] at hrun
    rcases h : z.run p with ⟨a, p1⟩ | ⟨e, p1⟩
    · rw [h] at hrun
      exact ⟨a, p1.rest, (hz p a _).mp ⟨p1, h, rfl⟩, (hk a p1 b r).mp ⟨q, hrun, hq⟩⟩
    · rw [h] at hrun
      cases hrun
  · rintro ⟨a, v, hT, hU⟩
    obtain ⟨p1, h, rfl⟩ := (hz p a v).mpr hT
    obtain ⟨q, hrun, hq⟩ := (hk a p1 b r).mpr hU
    refine ⟨q, ?_, hq⟩
    rw [EStateM.run_bind, h]
    exact hrun

theorem ite {c : Prop} [Decidable c] (hx : c → Parses x R) (hy : ¬ c → Parses y S) :
    Parses (if c then x else y) fun w a r => if c then R w a r else S w a r := by
  by_cases h : c
  · simp only [if_pos h]
    exact hx h
  · simp only [if_neg h]
    exact hy h

/-- A check that lets through what does not have `c`. -/
theorem check {c : Prop} [Decidable c] {message : String} {t : Bytes} (hy : Parses y S) :
    Parses (if c then throwRuntime message t else y) fun w a r => ¬ c ∧ S w a r := by
  by_cases h : c
  · rw [if_pos h]
    exact throw.congr fun w a r => by simp [h]
  · rw [if_neg h]
    exact hy.congr fun w a r => by simp [h]

theorem call {e : Except ConfigError τ} :
    Parses (callConfig e) fun w a r => e = .ok a ∧ w = r := by
  cases e with
  | ok a =>
      apply pure.congr
      intro w b r
      rw [Except.ok.injEq, eq_comm]
  | error e => exact throw.congr fun w a r => by simp

/-- A token that is looked at. -/
theorem token {k : Bytes → ConfigM τ} {U : Bytes → List Bytes → τ → List Bytes → Prop}
    (hnil : Parses (k []) fun _ _ _ => False) (hk : ∀ t, t ≠ [] → Parses (k t) (U t)) :
    Parses (Webserv.tokenize >>= k) fun w b r => ∃ t v, t ≠ [] ∧ w = t :: v ∧ U t v b r := by
  have hall : ∀ t, Parses (k t) fun w b r => t ≠ [] ∧ U t w b r := by
    intro t
    by_cases ht : t = []
    · rw [ht]
      exact hnil.congr fun w b r => by simp
    · exact (hk t ht).congr fun w b r => by simp [ht]
  refine (tokenize.bind hall).congr fun w b r => ?_
  constructor
  · rintro ⟨t, v, ⟨rfl, -, -⟩ | ⟨-, rfl⟩, ht, hU⟩
    · exact absurd rfl ht
    · exact ⟨t, v, ht, rfl, hU⟩
  · rintro ⟨t, v, ht, rfl, hU⟩
    exact ⟨t, v, .inr ⟨ht, rfl⟩, ht, hU⟩

/-- A semicolon that has to come. -/
theorem expect {message : String} {c : Bytes → Bytes} (hx : Parses x R) :
    Parses (do let t ← Webserv.tokenize
               if t ≠ bytes ";" then throwRuntime message (c t) else x)
      fun w a r => ∃ v, w = bytes ";" :: v ∧ R v a r := by
  refine (token (U := fun t v a r => t = bytes ";" ∧ R v a r) throw fun t ht => ?_).congr
    fun w a r => ?_
  · by_cases hsemi : t = bytes ";"
    · rw [if_neg (not_not_intro hsemi)]
      exact hx.congr fun w a r => by simp [hsemi]
    · rw [if_pos hsemi]
      exact throw.congr fun w a r => by simp [hsemi]
  · constructor
    · rintro ⟨t, v, -, rfl, rfl, hR⟩
      exact ⟨v, rfl, hR⟩
    · rintro ⟨v, rfl, hR⟩
      exact ⟨_, v, by decide, rfl, rfl, hR⟩

/-- The one argument of a directive. -/
theorem argument {k : Bytes → ConfigM τ} {C : Bytes → τ → Prop} (hnil : Closes (k []) fun _ => False)
    (hk : ∀ t, t ≠ [] → Closes (k t) (C t)) :
    Parses (Webserv.tokenize >>= k) fun w b r => ∃ t, t ≠ [] ∧ C t b ∧ w = [t] ++ bytes ";" :: r := by
  refine (token (hnil.congr fun w b r => by simp) hk).congr fun w b r => ?_
  constructor
  · rintro ⟨t, v, ht, rfl, hC, rfl⟩
    exact ⟨t, ht, hC, rfl⟩
  · rintro ⟨t, ht, hC, rfl⟩
    exact ⟨t, _, ht, rfl, hC, rfl⟩

end Parses

namespace Closes

variable {τ υ : Type} {x y : ConfigM τ} {C D : τ → Prop}

theorem throw {e : ConfigError} : Closes (MonadExcept.throw e : ConfigM τ) fun _ => False :=
  Parses.throw.congr fun w a r => by simp

theorem ite {c : Prop} [Decidable c] (hx : c → Closes x C) (hy : ¬ c → Closes y D) :
    Closes (if c then x else y) fun a => if c then C a else D a := by
  by_cases h : c
  · simp only [if_pos h]
    exact hx h
  · simp only [if_neg h]
    exact hy h

theorem check {c : Prop} [Decidable c] {message : String} {t : Bytes} (hy : Closes y D) :
    Closes (if c then throwRuntime message t else y) fun a => ¬ c ∧ D a :=
  (Parses.check hy).congr fun _ _ _ => and_assoc.symm

theorem call_bind {e : Except ConfigError υ} {k : υ → ConfigM τ} {D : υ → τ → Prop}
    (hk : ∀ a, Closes (k a) (D a)) :
    Closes (callConfig e >>= k) fun b => ∃ a, e = .ok a ∧ D a b := by
  cases e with
  | ok a => exact (hk a).congr fun w b r => by simp
  | error e => exact Parses.congr throw fun w b r => by simp

/-- A directive on its way out. -/
theorem semicolon {name : String} {a : τ} :
    Closes (do consumeExpectedSemicolon name; return a) (· = a) := by
  have hsemi : Parses (consumeExpectedSemicolon name) fun w _ r => ∃ v, w = bytes ";" :: v ∧ _ :=
    .expect (c := fun _ => []) .pure
  refine (hsemi.bind fun _ => Parses.pure).congr fun w b r => ?_
  constructor
  · rintro ⟨u, v, ⟨v', rfl, -, rfl⟩, rfl, rfl⟩
    exact ⟨rfl, rfl⟩
  · rintro ⟨rfl, rfl⟩
    exact ⟨(), r, ⟨r, rfl, rfl, rfl⟩, rfl, rfl⟩

end Closes

/-! ### Single tokens -/

theorem tokenize_cons {p : ConfigParser} {t : Bytes} {w : List Bytes} (h : p.rest = t :: w) :
    t ≠ [] ∧ ∃ q, tokenize.run p = .ok t q ∧ q.rest = w := by
  obtain ⟨t0, q, hrun, ⟨-, hnil, -⟩ | ⟨hne, hrest⟩⟩ := tokenize_run p
  · rw [h] at hnil
    cases hnil
  · obtain ⟨rfl, rfl⟩ := List.cons.inj (h.symm.trans hrest)
    exact ⟨hne, q, hrun, rfl⟩

theorem rest_of_tokenize {p q : ConfigParser} {t : Bytes} (h : tokenize.run p = .ok t q)
    (ht : t ≠ []) : p.rest = t :: q.rest := by
  obtain ⟨t0, q0, hrun, hcase⟩ := tokenize_run p
  rw [h] at hrun
  cases hrun
  obtain ⟨hnil, -, -⟩ | ⟨-, hrest⟩ := hcase
  · exact absurd hnil ht
  · exact hrest

/-! ### Blocks -/

/-- A directive of a block: its keyword, and the tokens that its parser takes. -/
structure Directive where
  keyword : Bytes
  taken : List Bytes
  deriving DecidableEq, Repr

/-- From `p` to `q` the loop over a block reads these directives. -/
inductive ReadsBlock {τ : Type} (parseDirective : Bytes → τ → ConfigM τ) :
    ConfigParser → τ → List Directive → ConfigParser → τ → Prop
  | nil {p : ConfigParser} {x : τ} : ReadsBlock parseDirective p x [] p x
  | cons {p p1 p2 q : ConfigParser} {x y z : τ} {d : Directive} {ds : List Directive}
      (hkeyword : tokenize.run p = .ok d.keyword p1)
      (hrun : (parseDirective d.keyword x).run p1 = .ok y p2)
      (htaken : p1.rest = d.taken ++ p2.rest) (h : ReadsBlock parseDirective p2 y ds q z) :
      ReadsBlock parseDirective p x (d :: ds) q z

theorem length_tokensUpTo_le (n : Nat) (s : Bytes) : (tokensUpTo n s).length ≤ n := by
  induction n generalizing s with
  | zero => exact Nat.le_refl 0
  | succ n ih =>
      rw [tokensUpTo]
      split_ifs
      · exact Nat.zero_le _
      · exact Nat.succ_le_succ (ih _)

/-- There are iterations enough. -/
theorem length_rest_lt_fuel (p : ConfigParser) : p.rest.length < p.fuel := by
  apply Nat.lt_succ_of_le
  refine (length_tokensUpTo_le _ _).trans ?_
  rw [List.length_drop]
  exact Nat.sub_le _ _

/-- What runs into the end of the text takes what is left. -/
theorem TakesOrEnds.taken {τ : Type} {x : ConfigM τ} {L : Language Bytes} (h : TakesOrEnds x L)
    {p q : ConfigParser} {a : τ} (hrun : x.run p = .ok a q) : ∃ w, p.rest = w ++ q.rest := by
  obtain hq | ⟨w, -, hw⟩ := h p a q hrun
  · refine ⟨p.rest, ?_⟩
    rw [hq, List.append_nil]
  · exact ⟨w, hw⟩

section Loop

variable {τ : Type} {parseDirective : Bytes → τ → ConfigM τ} (body : Nat → τ → ConfigM τ)
  {x y : τ}

/-- **The loop over a block** reads directives up to the closing brace. -/
theorem loop_iff
    (hsucc : ∀ fuel x, body (fuel + 1) x = do
      let t ← tokenize
      if t = bytes "\x7d" then return x
      else
        let x ← parseDirective t x
        body fuel x)
    (hend : ∀ x p y q, (parseDirective [] x).run p ≠ .ok y q)
    (hclose : ∀ x p y q, (parseDirective (bytes "\x7d") x).run p ≠ .ok y q)
    (htaken : ∀ t x p y q, (parseDirective t x).run p = .ok y q → ∃ w, p.rest = w ++ q.rest)
    {fuel : Nat} {p q : ConfigParser} (hfuel : p.rest.length < fuel) :
    (body fuel x).run p = .ok y q ↔
      ∃ ds p1, ReadsBlock parseDirective p x ds p1 y ∧ tokenize.run p1 = .ok (bytes "\x7d") q := by
  induction fuel generalizing x p with
  | zero => exact absurd hfuel (Nat.not_lt_zero _)
  | succ fuel ih =>
      obtain ⟨t, p1, hrun, hcase⟩ := tokenize_run p
      rw [hsucc, EStateM.run_bind, hrun]
      dsimp only
      -- a directive takes its keyword at least
      have hlen : t ≠ [] → ∀ {p2 w}, p1.rest = w ++ ConfigParser.rest p2 →
          p2.rest.length < fuel := by
        intro hne p2 w hw
        obtain ⟨h, -, -⟩ | ⟨-, hrest⟩ := hcase
        · exact absurd h hne
        · rw [hrest, hw, List.length_cons, List.length_append] at hfuel
          omega
      constructor
      · intro hq
        by_cases hc : t = bytes "\x7d"
        · rw [if_pos hc] at hq
          cases hq
          rw [hc] at hrun
          exact ⟨[], p, .nil, hrun⟩
        · rw [if_neg hc, EStateM.run_bind] at hq
          rcases hdir : (parseDirective t x).run p1 with ⟨x1, p2⟩ | ⟨e, p2⟩
          · rw [hdir] at hq
            obtain ⟨w, hw⟩ := htaken _ _ _ _ _ hdir
            have hne : t ≠ [] := by
              rintro rfl
              exact hend _ _ _ _ hdir
            obtain ⟨ds, p3, h, hbrace⟩ := (ih (hlen hne hw)).mp hq
            have hkeyword : tokenize.run p = .ok (Directive.mk t w).keyword p1 := hrun
            exact ⟨⟨t, w⟩ :: ds, p3, .cons hkeyword hdir hw h, hbrace⟩
          · rw [hdir] at hq
            cases hq
      · rintro ⟨ds, p3, h, hbrace⟩
        cases h with
        | nil =>
            rw [hrun] at hbrace
            cases hbrace
            rw [if_pos rfl]
            rfl
        | @cons _ _ _ _ _ _ _ d _ hkeyword hdir hw h =>
            rw [hrun] at hkeyword
            cases hkeyword
            have hne : d.keyword ≠ [] := by
              intro hnil
              rw [hnil] at hdir
              exact hend _ _ _ _ hdir
            have hc : d.keyword ≠ bytes "\x7d" := by
              intro hc
              rw [hc] at hdir
              exact hclose _ _ _ _ hdir
            rw [if_neg hc, EStateM.run_bind, hdir]
            exact (ih (hlen hne hw)).mpr ⟨_, p3, h, hbrace⟩

end Loop

end Webserv
