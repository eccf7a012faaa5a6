/-
Webserv/ConfigLocation.lean

What `ParseLocation` has checked of a location.

Every directive leaves the name as it is, and what it stores has passed its check: a
root is absolute and printable, an index is a safe file name.
-/
import Webserv.ConfigSound

namespace Webserv

/-! ### Results of parser functions -/

/-- What `x` returns has `I`. -/
def Yields {τ : Type} (I : τ → Prop) (x : ConfigM τ) : Prop :=
  ∀ p a q, x.run p = .ok a q → I a

namespace Yields

variable {τ υ : Type} {I : τ → Prop} {x y : ConfigM τ}

theorem throw {e : ConfigError} : Yields I (MonadExcept.throw e : ConfigM τ) := by
  intro p a q hrun
  cases hrun

theorem pure {a : τ} (h : I a) : Yields I (Pure.pure a : ConfigM τ) := by
  intro p b q hrun
  cases hrun
  exact h

theorem ite {c : Prop} [Decidable c] (hx : c → Yields I x) (hy : ¬ c → Yields I y) :
    Yields I (if c then x else y) := by
  split
  · exact hx ‹c›
  · exact hy ‹¬ c›

theorem bind {k : υ → ConfigM τ} {z : ConfigM υ} (hk : ∀ a, Yields I (k a)) :
    Yields I (z >>= k) := by
  intro p b q hrun
  rw [EStateM.run_bind] at hrun
  rcases h : z.run p with ⟨a, p1⟩ | ⟨e, p1⟩
  · rw [h] at hrun
    exact hk a p1 b q hrun
  · rw [h] at hrun
    cases hrun

theorem bind_yields {J : υ → Prop} {k : υ → ConfigM τ} {z : ConfigM υ} (hz : Yields J z)
    (hk : ∀ a, J a → Yields I (k a)) : Yields I (z >>= k) := by
  intro p b q hrun
  rw [EStateM.run_bind] at hrun
  rcases h : z.run p with ⟨a, p1⟩ | ⟨e, p1⟩
  · rw [h] at hrun
    exact hk a (hz p a p1 h) p1 b q hrun
  · rw [h] at hrun
    cases hrun

theorem call_bind {e : Except ConfigError υ} {k : υ → ConfigM τ}
    (hk : ∀ a, e = .ok a → Yields I (k a)) : Yields I (callConfig e >>= k) := by
  cases e with
  | ok a => exact hk a rfl
  | error e => exact throw

end Yields

/-- A directive on its way out. -/
theorem yields_semicolon {τ : Type} {I : τ → Prop} {name : String} {a : τ} (h : I a) :
    Yields I (do consumeExpectedSemicolon name; return a) := .bind fun _ => .pure h

/-! ### Directives -/

/-- What has been checked of a location with this name. -/
structure Location.Checked (cwd : Option Bytes) (name : Bytes) (loc : Location) : Prop where
  name_eq : loc.name = name
  root : loc.hasRoot = true → ∃ token, resolveRootPath cwd token = .ok loc.root ∧
    requireAbsoluteSafePathOrThrow loc.root "Root path" = .ok ()
  index : (loc.hasIndexDirective = false ∧ loc.indexFile = []) ∨
    isSafeIndexFilename loc.indexFile = true

variable {cwd : Option Bytes} {name : Bytes} {loc : Location}

theorem parseSimpleDirective_checked {setter : Location → Bytes → Except ConfigError Location}
    {message : String} (h : ∀ t a, setter loc t = .ok a → a.Checked cwd name) :
    Yields (Location.Checked cwd name) (parseSimpleDirective setter message loc) := by
  refine .bind fun t => .ite (fun _ => .throw) fun _ => .call_bind fun a ha => ?_
  exact yields_semicolon (h t a ha)

theorem parseMethodList_checked (h : loc.Checked cwd name) (fuel : Nat) (isMethodEmpty : Bool) :
    Yields (Location.Checked cwd name) (parseMethodList fuel loc isMethodEmpty) := by
  induction fuel generalizing loc isMethodEmpty with
  | zero => exact .throw
  | succ fuel ih =>
      have hadd : ∀ method, (loc.addAllowedMethod method).Checked cwd name :=
        fun method => ⟨h.name_eq, h.root, h.index⟩
      refine .bind fun t => .ite (fun _ => .ite (fun _ => .throw) fun _ => .pure ?_) fun _ =>
        .ite (fun _ => ih (hadd _) _) fun _ => .ite (fun _ => ih (hadd _) _) fun _ =>
        .ite (fun _ => ih (hadd _) _) fun _ => .throw
      exact ⟨h.name_eq, h.root, h.index⟩

theorem parseExtensionList_checked (h : loc.Checked cwd name) (fuel : Nat) (t : Bytes) :
    Yields (Location.Checked cwd name) (parseExtensionList fuel loc t) := by
  induction fuel generalizing loc t with
  | zero => exact .throw
  | succ fuel ih =>
      refine .ite (fun _ => .pure ⟨h.name_eq, h.root, h.index⟩) fun _ => .bind fun t => ?_
      apply ih
      exact ⟨h.name_eq, h.root, h.index⟩

theorem parseRoot_checked (h : loc.Checked cwd name) :
    Yields (Location.Checked cwd name) (parseRoot cwd loc) := by
  refine .bind fun t => .ite (fun _ => .throw) fun _ => .call_bind fun root hroot =>
    .call_bind fun u hsafe => .call_bind fun a ha => ?_
  rw [Location.setRoot] at ha
  split_ifs at ha
  · cases ha
  · cases ha
    exact yields_semicolon ⟨h.name_eq, fun _ => ⟨t, hroot, hsafe⟩, h.index⟩

theorem parseIndex_checked (h : loc.Checked cwd name) :
    Yields (Location.Checked cwd name) (parseIndex loc) := by
  refine .bind fun t => .ite (fun _ => .throw) fun _ => .ite (fun _ => .throw) fun hsafe =>
    .call_bind fun a ha => ?_
  rw [Bool.not_eq_true', Bool.not_eq_false] at hsafe
  rw [Location.setIndexFile] at ha
  split_ifs at ha
  · cases ha
  · cases ha
    exact yields_semicolon ⟨h.name_eq, h.root, .inr hsafe⟩

/-- **Every directive keeps what has been checked.** -/
theorem parseLocationDirective_checked (h : loc.Checked cwd name) (t : Bytes) :
    Yields (Location.Checked cwd name) (parseLocationDirective cwd t loc) := by
  rw [parseLocationDirective]
  split
  · exact .ite (fun _ => .throw) fun _ => .bind fun p => parseMethodList_checked h _ _
  · exact parseRoot_checked h
  · refine .bind fun t => .ite (fun _ => .throw) fun _ => .ite (fun _ => .throw) fun _ =>
      .call_bind fun a ha => ?_
    rw [Location.setAutoIndex] at ha
    split_ifs at ha
    · cases ha
    · cases ha
      exact yields_semicolon ⟨h.name_eq, h.root, h.index⟩
  · exact parseIndex_checked h
  · refine .bind fun t => .ite (fun _ => .throw) fun _ => .call_bind fun _ _ =>
      .call_bind fun a ha => ?_
    rw [Location.setUploadPath] at ha
    split_ifs at ha
    · cases ha
    · cases ha
      exact yields_semicolon ⟨h.name_eq, h.root, h.index⟩
  · apply parseSimpleDirective_checked
    intro t a ha
    rw [Location.setRedirect] at ha
    split_ifs at ha
    · cases ha
    · cases ha
      exact ⟨h.name_eq, h.root, h.index⟩
  · apply parseSimpleDirective_checked
    intro t a ha
    rw [Location.setCgiEnabled] at ha
    split_ifs at ha
    · cases ha
    · cases ha
      exact ⟨h.name_eq, h.root, h.index⟩
  · refine .ite (fun _ => .throw) fun _ => .bind fun t => .ite (fun _ => .throw) fun _ =>
      .bind fun p => ?_
    exact parseExtensionList_checked h _ _
  · exact .throw

theorem parseLocationBody_checked (h : loc.Checked cwd name) (fuel : Nat) :
    Yields (Location.Checked cwd name) (parseLocationBody cwd fuel loc) := by
  induction fuel generalizing loc with
  | zero => exact .throw
  | succ fuel ih =>
      refine .bind fun t => .ite (fun _ => .pure h) fun _ => ?_
      exact .bind_yields (parseLocationDirective_checked h t) fun a ha => ih ha

/-! ### Names -/

/-- The name of a location in the configuration file: a token that `ParseLocation` accepts. -/
structure IsLocationName (name : Bytes) : Prop where
  valid : isValidLocationName name = true
  token : ∀ c ∈ name, isConfigSpace c = false ∧ isSpecialLetter c = false

theorem firstToken_char {s : Bytes} (h : IsWord (firstToken s)) {c : Byte}
    (hc : c ∈ firstToken s) : isConfigSpace c = false ∧ isSpecialLetter c = false := by
  rcases hdrop : s.dropWhile isConfigSpace with - | ⟨d, ds⟩
  · rw [firstToken, hdrop] at hc
    cases hc
  · rw [firstToken, hdrop] at h hc
    dsimp only at h hc
    split_ifs at h hc with hspecial
    · -- a special letter is no word
      obtain ⟨-, hopen, hclose, hsemi⟩ := h
      rw [isSpecialLetter, Bool.or_eq_true, Bool.or_eq_true, beq_iff_eq, beq_iff_eq, beq_iff_eq]
        at hspecial
      obtain (rfl | rfl) | rfl := hspecial
      · exact absurd rfl hopen
      · exact absurd rfl hclose
      · exact absurd rfl hsemi
    · have hp := List.mem_takeWhile_imp hc
      rw [Bool.and_eq_true, Bool.not_eq_true', Bool.not_eq_true'] at hp
      exact hp

theorem tokenize_token {p q : ConfigParser} {t : Bytes} (h : tokenize.run p = .ok t q) :
    t = firstToken (p.content.drop p.currentPos) := by
  by_cases hend : p.currentPos ≥ p.content.length
  · simp only [tokenize, EStateM.run_bind, EStateM.run_get, if_pos hend] at h
    cases h
    rw [List.drop_of_length_le hend]
    rfl
  · simp only [tokenize, EStateM.run_bind, EStateM.run_get, if_neg hend] at h
    cases h
    rfl

theorem tokenize_word : Yields (fun t => IsWord t → ∀ c ∈ t, isConfigSpace c = false ∧
    isSpecialLetter c = false) tokenize := by
  intro p t q hrun hword c hc
  rw [tokenize_token hrun] at hword hc
  exact firstToken_char hword hc

/-- **What `ParseLocation` adds.** -/
theorem parseLocation_yields (cwd : Option Bytes) (config : ServerConfig) :
    Yields (fun config' => ∃ loc name, loc.Checked cwd name ∧ IsLocationName name ∧
      config.addLocation loc = .ok config') (parseLocation cwd config) := by
  refine .bind_yields tokenize_word fun name hword => .ite (fun _ => .throw) fun hvalid => ?_
  rw [Bool.not_eq_true', Bool.not_eq_false] at hvalid
  refine .bind fun t => .ite (fun _ => .throw) fun _ => .bind fun p => ?_
  have hinit : ({ name := name } : Location).Checked cwd name := by
    refine ⟨rfl, fun h => ?_, .inl ⟨rfl, rfl⟩⟩
    cases h
  refine .bind_yields (parseLocationBody_checked hinit _) fun loc hloc => ?_
  intro p config' q hrun
  rcases hadd : config.addLocation loc with e | config1
  · rw [hadd] at hrun
    cases hrun
  · rw [hadd] at hrun
    cases hrun
    exact ⟨loc, name, hloc, ⟨hvalid, hword (isWord_of_validName hvalid)⟩, hadd⟩

end Webserv
