/-
Webserv/LocationBlock.lean

The block of a location as a list of statements.

`ParseLocation` accepts a block exactly if every statement of it is good and no keyword
stands in front of two of them, and then the location has what the statements set.  So the
statements may be given in any order, and a repeated keyword is never accepted.
-/
import Webserv.LocationDirectives

namespace Webserv

variable {cwd : Option Bytes} {loc loc' : Location}

/-! ### Statements -/

theorem Statement.Checked.shaped {s : Statement} (h : s.Checked cwd) : s.Shaped := by
  rw [Statement.Checked] at h
  rw [Statement.Shaped]
  generalize s.kind = kind at h ⊢
  cases kind
  case kTokenAllowedMethods =>
    intro hsemi
    exact absurd (h.2 _ hsemi) (by decide)
  case kTokenRoot =>
    obtain ⟨t, path, ht, -⟩ := h
    exact ⟨t, ht⟩
  case kTokenCgiAllowedExtensions =>
    intro hsemi
    exact (h.2 _ hsemi).2 rfl
  case kTokenAutoindex | kTokenCgi | kTokenIndex | kTokenUploadPath | kTokenRedirect =>
    obtain ⟨t, ht, -⟩ := h
    exact ⟨t, ht⟩
  all_goals exact h

/-- Braces are no keywords. -/
theorem Statement.Shaped.keyword_ne {s : Statement} (h : s.Shaped) :
    s.keyword ≠ bytes "\x7d" := by
  intro hkey
  rw [Statement.Shaped, Statement.kind, hkey] at h
  exact h

/-- **The tokens tell where a statement ends.** -/
theorem Statement.Shaped.tokens_inj {s s' : Statement} {w w' : List Bytes} (h : s.Shaped)
    (h' : s'.Shaped) (heq : s.tokens ++ w = s'.tokens ++ w') : s = s' ∧ w = w' := by
  obtain ⟨keyword, arguments⟩ := s
  obtain ⟨keyword', arguments'⟩ := s'
  simp only [Statement.tokens, List.cons_append, List.append_assoc, List.nil_append] at heq
  obtain ⟨rfl, htail⟩ := List.cons.inj heq
  rw [Statement.Shaped, Statement.kind] at h h'
  dsimp only at h h'
  rcases hkind : toTokenType keyword with - | - | - | - | - | - | - | - | - | - | - | - | - | -
  all_goals rw [hkind] at h h'
  case kTokenAllowedMethods | kTokenCgiAllowedExtensions =>
    obtain ⟨rfl, rfl⟩ := Substring.append_cons_inj h h' htail
    exact ⟨rfl, rfl⟩
  case kTokenRoot | kTokenAutoindex | kTokenIndex | kTokenUploadPath | kTokenRedirect | kTokenCgi =>
    obtain ⟨t, rfl⟩ := h
    obtain ⟨t', rfl⟩ := h'
    obtain ⟨rfl, hsemi⟩ := List.cons.inj htail
    exact ⟨rfl, (List.cons.inj hsemi).2⟩
  all_goals exact h.elim

/-! ### Blocks -/

/-- The tokens of a block, with the first statement in front. -/
theorem flatMap_tokens_cons (s : Statement) (stmts : List Statement) (w : List Bytes) :
    (s :: stmts).flatMap Statement.tokens ++ w =
      s.keyword :: (s.arguments ++ bytes ";" :: (stmts.flatMap Statement.tokens ++ w)) := by
  simp only [List.flatMap_cons, Statement.tokens, List.cons_append, List.append_assoc,
    List.nil_append]

/-- The keyword of a statement, and what its parser takes. -/
def Statement.directive (s : Statement) : Directive := ⟨s.keyword, s.arguments ++ [bytes ";"]⟩

theorem Statement.directive_taken_append (s : Statement) (w : List Bytes) :
    s.directive.taken ++ w = s.arguments ++ bytes ";" :: w := by
  rw [Statement.directive, List.append_assoc]
  rfl

/-- From `p` to `q` the loop of `ParseLocation` reads these statements: the keyword of each,
and the arguments and the semicolon that its parser takes. -/
def ReadsStatements (cwd : Option Bytes) (p : ConfigParser) (loc : Location)
    (stmts : List Statement) (q : ConfigParser) (loc' : Location) : Prop :=
  ReadsBlock (parseLocationDirective cwd) p loc (stmts.map Statement.directive) q loc'

/-- **The statements of a block**, in front of further tokens. -/
theorem readsStatements_iff {p : ConfigParser} {stmts : List Statement} {w : List Bytes}
    (hw : w ≠ []) :
    (∃ q, ReadsStatements cwd p loc stmts q loc' ∧ q.rest = w) ↔
      p.rest = stmts.flatMap Statement.tokens ++ w ∧ (∀ s ∈ stmts, s.Checked cwd) ∧
        (locationSettings cwd).Fresh loc stmts ∧
        loc' = (locationSettings cwd).setAll loc stmts := by
  -- on the statements: the first one is read, and the others with what it has set
  induction stmts generalizing p loc with
  | nil =>
      constructor
      · rintro ⟨q, h, rfl⟩
        cases h
        exact ⟨rfl, fun s hs => absurd hs List.not_mem_nil, Settings.fresh_nil, rfl⟩
      · rintro ⟨hp, -, -, rfl⟩
        exact ⟨p, .nil, hp⟩
  | cons s stmts ih =>
      have hne : stmts.flatMap Statement.tokens ++ w ≠ [] :=
        List.append_ne_nil_of_right_ne_nil _ hw
      rw [flatMap_tokens_cons, Settings.fresh_cons, List.forall_mem_cons]
      constructor
      · rintro ⟨q, h, hq⟩
        cases h with
        | cons hkeyword hrun htaken h =>
            obtain ⟨hp2, hchecked, hfresh, rfl⟩ := ih.mp ⟨q, h, hq⟩
            rw [← hp2] at hne
            obtain ⟨arguments, hp1, hargs, hunset, rfl⟩ :=
              (parseLocationDirective_parses hne).mp ⟨_, hrun, rfl⟩
            rw [Statement.directive_taken_append] at htaken
            obtain rfl := List.append_cancel_right (htaken.symm.trans hp1)
            refine ⟨?_, ⟨hargs, hchecked⟩, ⟨hunset, hfresh⟩, rfl⟩
            rw [rest_of_tokenize hkeyword, htaken, hp2]
            · rfl
            · -- the empty token is no keyword
              intro hnil
              rw [hnil] at hargs
              exact hargs
      · rintro ⟨hp, ⟨hs, hchecked⟩, ⟨hunset, hfresh⟩, rfl⟩
        obtain ⟨-, p1, hkeyword, hp1⟩ := tokenize_cons hp
        obtain ⟨p2, hrun, hp2⟩ := (parseLocationDirective_parses hne).mpr
          ⟨s.arguments, hp1, hs, hunset, rfl⟩
        obtain ⟨q, h, hq⟩ := ih.mpr ⟨hp2, hchecked, hfresh, rfl⟩
        rw [← hp2, ← Statement.directive_taken_append] at hp1
        exact ⟨q, .cons (d := s.directive) hkeyword hrun hp1 h, hq⟩

/-- In front of further tokens every directive is a statement. -/
theorem exists_statements {p q : ConfigParser} {ds : List Directive} (hq : q.rest ≠ [])
    (h : ReadsBlock (parseLocationDirective cwd) p loc ds q loc') :
    p.rest ≠ [] ∧ ∃ stmts : List Statement, stmts.map Statement.directive = ds := by
  induction h with
  | nil => exact ⟨hq, [], rfl⟩
  | @cons _ _ _ _ _ _ _ d _ hkeyword hrun htaken h ih =>
      obtain ⟨hp2, stmts, rfl⟩ := ih hq
      obtain ⟨arguments, hp1, hargs, -⟩ :=
        (parseLocationDirective_parses hp2).mp ⟨_, hrun, rfl⟩
      have hd : d.taken = arguments ++ [bytes ";"] := by
        rw [← List.append_cancel_right_eq, ← htaken, hp1, List.append_assoc]
        rfl
      refine ⟨?_, ⟨d.keyword, arguments⟩ :: stmts, ?_⟩
      · rw [rest_of_tokenize hkeyword]
        · exact List.cons_ne_nil _ _
        · intro hnil
          rw [hnil] at hargs
          exact hargs
      · rw [List.map_cons, Statement.directive, ← hd]

/-- **The loop of `ParseLocation`** reads statements up to the closing brace. -/
theorem parseLocationBody_iff {fuel : Nat} {p q : ConfigParser} (hfuel : p.rest.length < fuel) :
    (parseLocationBody cwd fuel loc).run p = .ok loc' q ↔
      ∃ stmts p1, ReadsStatements cwd p loc stmts p1 loc' ∧
        tokenize.run p1 = .ok (bytes "\x7d") q := by
  rw [loop_iff (parseLocationBody cwd) (fun _ _ => rfl)
    (fun _ _ _ _ h => by cases h) (fun _ _ _ _ h => by cases h)
    (fun t x _ _ _ h => (parseLocationDirective_takes cwd t x).taken h) hfuel]
  constructor
  · rintro ⟨ds, p1, h, hclose⟩
    have hp1 : p1.rest ≠ [] := by
      rw [rest_of_tokenize hclose (by decide)]
      exact List.cons_ne_nil _ _
    obtain ⟨-, stmts, rfl⟩ := exists_statements hp1 h
    exact ⟨stmts, p1, h, hclose⟩
  · rintro ⟨stmts, p1, h, hclose⟩
    exact ⟨_, p1, h, hclose⟩

/-- From `p` to `q` there stand a name, and a block of these statements, which describe the
location. -/
def IsBlock (cwd : Option Bytes) (p : ConfigParser) (name : Bytes) (stmts : List Statement)
    (loc : Location) (q : ConfigParser) : Prop :=
  ∃ p1 p2 p3, tokenize.run p = .ok name p1 ∧ tokenize.run p1 = .ok (bytes "\x7b") p2 ∧
    ReadsStatements cwd p2 { name := name } stmts p3 loc ∧ tokenize.run p3 = .ok (bytes "\x7d") q

theorem callConfig_iff {τ : Type} {e : Except ConfigError τ} {a : τ} {p q : ConfigParser} :
    (callConfig e).run p = .ok a q ↔ e = .ok a ∧ p = q := by
  cases e with
  | ok b =>
      constructor
      · intro h
        cases h
        exact ⟨rfl, rfl⟩
      · rintro ⟨h, rfl⟩
        cases h
        rfl
  | error e =>
      constructor
      · intro h
        cases h
      · rintro ⟨h, -⟩
        cases h

/-- **`ParseLocation`** reads a block. -/
theorem parseLocation_iff {server server' : ServerConfig} {p q : ConfigParser} :
    (parseLocation cwd server).run p = .ok server' q ↔
      ∃ name stmts loc, IsBlock cwd p name stmts loc q ∧ isValidLocationName name = true ∧
        server.addLocation loc = .ok server' := by
  obtain ⟨name, p1, hname, -⟩ := tokenize_run p
  obtain ⟨t, p2, hopen, -⟩ := tokenize_run p1
  -- behind a name that passes and the brace, the rest is the body
  have hbody : isValidLocationName name = true → t = bytes "\x7b" →
      (parseLocation cwd server).run p = (parseLocationBody cwd p2.fuel { name := name } >>=
        fun loc => callConfig (server.addLocation loc)).run p2 := by
    intro hvalid ht
    rw [parseLocation, EStateM.run_bind, hname]
    simp only [hvalid, Bool.not_true, Bool.false_eq_true, if_false, EStateM.run_bind, hopen]
    rw [if_neg (not_not_intro ht)]
    rfl
  constructor
  · intro hq
    by_cases hvalid : isValidLocationName name = true
    · by_cases ht : t = bytes "\x7b"
      · rw [hbody hvalid ht, EStateM.run_bind] at hq
        rcases hloc : (parseLocationBody cwd p2.fuel { name := name }).run p2 with
          ⟨loc, p3⟩ | ⟨e, p3⟩
        · rw [hloc] at hq
          obtain ⟨hadd, rfl⟩ := callConfig_iff.mp hq
          obtain ⟨stmts, p4, h, hend⟩ := (parseLocationBody_iff (length_rest_lt_fuel p2)).mp hloc
          rw [ht] at hopen
          exact ⟨name, stmts, loc, ⟨p1, p2, p4, hname, hopen, h, hend⟩, hvalid, hadd⟩
        · rw [hloc] at hq
          cases hq
      · rw [parseLocation, EStateM.run_bind, hname] at hq
        simp only [hvalid, Bool.not_true, Bool.false_eq_true, if_false, EStateM.run_bind,
          hopen] at hq
        rw [if_pos ht] at hq
        cases hq
    · rw [Bool.not_eq_true] at hvalid
      rw [parseLocation, EStateM.run_bind, hname] at hq
      simp only [hvalid, Bool.not_false, if_true] at hq
      cases hq
  · rintro ⟨name', stmts, loc, ⟨p1', p2', p3, hname', hopen', h, hend⟩, hvalid, hadd⟩
    rw [hname] at hname'
    cases hname'
    rw [hopen] at hopen'
    cases hopen'
    rw [hbody hvalid rfl, EStateM.run_bind,
      (parseLocationBody_iff (length_rest_lt_fuel p2)).mpr ⟨stmts, p3, h, hend⟩]
    exact callConfig_iff.mpr ⟨hadd, rfl⟩

/-- **The tokens of a block** decide what it is. -/
theorem isBlock_iff {p : ConfigParser} {name : Bytes} {stmts : List Statement} {r : List Bytes}
    (hname : name ≠ []) :
    (∃ q, IsBlock cwd p name stmts loc q ∧ q.rest = r) ↔
      p.rest = name :: bytes "\x7b" :: (stmts.flatMap Statement.tokens ++ bytes "\x7d" :: r) ∧
        (∀ s ∈ stmts, s.Checked cwd) ∧ (locationSettings cwd).Fresh { name := name } stmts ∧
        loc = (locationSettings cwd).setAll { name := name } stmts := by
  have hne : bytes "\x7d" :: r ≠ [] := List.cons_ne_nil _ _
  constructor
  · rintro ⟨q, ⟨p1, p2, p3, htoken, hopen, h, hend⟩, rfl⟩
    have hp3 := rest_of_tokenize hend (by decide)
    obtain ⟨hp2, hrest⟩ := (readsStatements_iff hne).mp ⟨p3, h, hp3⟩
    rw [rest_of_tokenize htoken hname, rest_of_tokenize hopen (by decide), hp2]
    exact ⟨rfl, hrest⟩
  · rintro ⟨hp, hrest⟩
    obtain ⟨-, p1, htoken, hp1⟩ := tokenize_cons hp
    obtain ⟨-, p2, hopen, hp2⟩ := tokenize_cons hp1
    obtain ⟨p3, h, hp3⟩ := (readsStatements_iff hne).mpr ⟨hp2, hrest⟩
    obtain ⟨-, q, hend, hq⟩ := tokenize_cons hp3
    exact ⟨q, ⟨p1, p2, p3, htoken, hopen, h, hend⟩, hq⟩

/-! ### Texts from tokens -/

/-- What can be a token: a special letter, or a word. -/
def IsToken (t : Bytes) : Prop :=
  t ≠ [] ∧ ((∃ c, t = [c] ∧ isConfigSpace c = false ∧ isSpecialLetter c = true) ∨
    ∀ c ∈ t, isConfigSpace c = false ∧ isSpecialLetter c = false)

theorem isToken_firstToken {s : Bytes} (h : firstToken s ≠ []) : IsToken (firstToken s) := by
  refine ⟨h, ?_⟩
  rcases hdrop : s.dropWhile isConfigSpace with - | ⟨c, cs⟩
  · rw [firstToken, hdrop] at h
    exact absurd rfl h
  · have hspace : isConfigSpace c = false := by
      have hne : s.dropWhile isConfigSpace ≠ [] := by
        rw [hdrop]
        exact List.cons_ne_nil c cs
      have hhead := List.head_dropWhile_not isConfigSpace hne
      simp only [hdrop, List.head_cons] at hhead
      exact hhead
    by_cases hspecial : isSpecialLetter c = true
    · refine .inl ⟨c, ?_, hspace, hspecial⟩
      rw [firstToken, hdrop]
      exact if_pos hspecial
    · refine .inr fun d hd => ?_
      rw [firstToken, hdrop] at hd
      dsimp only at hd
      rw [if_neg hspecial] at hd
      have hp := List.mem_takeWhile_imp hd
      rw [Bool.and_eq_true, Bool.not_eq_true', Bool.not_eq_true'] at hp
      exact hp

theorem isToken_of_mem {s t : Bytes} (h : t ∈ tokens s) : IsToken t := by
  rw [tokens] at h
  generalize s.length = n at h
  induction n generalizing s with
  | zero => exact absurd h List.not_mem_nil
  | succ n ih =>
      rw [tokensUpTo] at h
      split_ifs at h with hnil
      · exact absurd h List.not_mem_nil
      · obtain rfl | h := List.mem_cons.mp h
        · exact isToken_firstToken hnil
        · exact ih h

theorem tokens_space_cons (s : Bytes) : tokens (SP :: s) = tokens s := by
  have hfirst : firstToken (SP :: s) = firstToken s := rfl
  have hafter : afterToken (SP :: s) = afterToken s := by
    rw [afterToken, hfirst, List.takeWhile_cons_of_pos rfl, List.length_cons, Nat.succ_add,
      List.drop_succ_cons]
    rfl
  rw [tokens_eq, tokens_eq s, hfirst, hafter]

theorem firstToken_isToken {t s : Bytes} (h : IsToken t) :
    firstToken (t ++ SP :: s) = t ∧ afterToken (t ++ SP :: s) = SP :: s := by
  have hfirst : firstToken (t ++ SP :: s) = t ∧ (t ++ SP :: s).takeWhile isConfigSpace = [] := by
    obtain ⟨hne, ⟨c, rfl, hspace, hspecial⟩ | hword⟩ := h
    · have hdrop : ([c] ++ SP :: s).dropWhile isConfigSpace = c :: SP :: s :=
        List.dropWhile_cons_of_neg (by rw [hspace]; exact Bool.false_ne_true)
      refine ⟨?_, List.takeWhile_cons_of_neg (by rw [hspace]; exact Bool.false_ne_true)⟩
      rw [firstToken, hdrop]
      exact if_pos hspecial
    · exact firstToken_append hne hword rfl
  refine ⟨hfirst.1, ?_⟩
  rw [afterToken, hfirst.1, hfirst.2, List.length_nil, Nat.zero_add, List.drop_left]

/-- **Every list of tokens has a text.** -/
theorem exists_rest {w : List Bytes} (h : ∀ t ∈ w, IsToken t) : ∃ p : ConfigParser, p.rest = w := by
  suffices ∃ s, tokens s = w by
    obtain ⟨s, hs⟩ := this
    exact ⟨{ content := s }, hs⟩
  induction w with
  | nil => exact ⟨[], rfl⟩
  | cons t w ih =>
      obtain ⟨ht, hw⟩ := List.forall_mem_cons.mp h
      obtain ⟨s, hs⟩ := ih hw
      obtain ⟨hfirst, hafter⟩ := @firstToken_isToken t s ht
      refine ⟨t ++ SP :: s, ?_⟩
      rw [tokens_eq, hfirst, hafter, if_neg ht.1, tokens_space_cons, hs]

/-! ### Any order -/

/-- The tokens of a name and a block, of which there are these statements and `r`. -/
def blockTokens (name : Bytes) (stmts : List Statement) (r : List Bytes) : List Bytes :=
  name :: bytes "\x7b" :: (stmts.flatMap Statement.tokens ++ r)

/-- Statements of a block that is accepted stand in front of a keyword that is read. -/
theorem exists_statement {stmts stmts' : List Statement} {keyword : Bytes} {r w : List Bytes}
    (h : ∀ s ∈ stmts, s.Shaped) (h' : ∀ s ∈ stmts', s.Shaped) (hkey : keyword ≠ bytes "\x7d")
    (heq : stmts'.flatMap Statement.tokens ++ bytes "\x7d" :: r =
      stmts.flatMap Statement.tokens ++ keyword :: w) :
    ∃ s rest, stmts' = stmts ++ s :: rest ∧ s.keyword = keyword := by
  induction stmts generalizing stmts' with
  | nil =>
      cases stmts' with
      | nil => exact absurd (List.cons.inj heq).1.symm hkey
      | cons s rest =>
          rw [flatMap_tokens_cons] at heq
          exact ⟨s, rest, rfl, (List.cons.inj heq).1⟩
  | cons s0 stmts ih =>
      obtain ⟨hs0, hstmts⟩ := List.forall_mem_cons.mp h
      cases stmts' with
      | nil =>
          rw [flatMap_tokens_cons] at heq
          exact absurd (List.cons.inj heq).1.symm hs0.keyword_ne
      | cons s1 stmts' =>
          obtain ⟨hs1, hstmts'⟩ := List.forall_mem_cons.mp h'
          rw [List.flatMap_cons, List.flatMap_cons, List.append_assoc, List.append_assoc] at heq
          obtain ⟨rfl, htail⟩ := hs1.tokens_inj hs0 heq
          obtain ⟨s, rest, rfl, hs⟩ := ih hstmts hstmts' htail
          exact ⟨s, rest, rfl, hs⟩

/-- **The directives of a location commute and never repeat**: in a block that is accepted no
keyword stands in front of two statements, and any other order of its statements gives the
same location; where a keyword comes again behind statements of any values, the block is
not accepted. -/
theorem parseLocation_statements (cwd : Option Bytes) (server : ServerConfig) :
    (∀ p server' q, (parseLocation cwd server).run p = .ok server' q →
      ∃ name stmts loc, IsBlock cwd p name stmts loc q ∧ server.addLocation loc = .ok server' ∧
        p.rest = blockTokens name stmts (bytes "\x7d" :: q.rest) ∧
        (stmts.map Statement.keyword).Nodup ∧
        ∀ stmts', stmts'.Perm stmts →
          (∃ p' : ConfigParser, p'.rest = blockTokens name stmts' (bytes "\x7d" :: q.rest)) ∧
          ∀ p' r, ConfigParser.rest p' = blockTokens name stmts' (bytes "\x7d" :: r) →
            ∃ q', IsBlock cwd p' name stmts' loc q' ∧ q'.rest = r ∧
              (parseLocation cwd server).run p' = .ok server' q') ∧
    (∀ p name stmts keyword w, (∀ s ∈ stmts, s.Shaped) →
      keyword ∈ stmts.map Statement.keyword →
      ConfigParser.rest p = blockTokens name stmts (keyword :: w) →
      ∃ e q, (parseLocation cwd server).run p = .error e q) := by
  constructor
  · intro p server' q hrun
    obtain ⟨name, stmts, loc, hblock, hvalid, hadd⟩ := parseLocation_iff.mp hrun
    have hname := (isWord_of_validName hvalid).1
    obtain ⟨hp, hchecked, hfresh, hloc⟩ := (isBlock_iff hname).mp ⟨q, hblock, rfl⟩
    refine ⟨name, stmts, loc, hblock, hadd, hp, ?_, fun stmts' hperm => ⟨?_, ?_⟩⟩
    · have hkinds : ((stmts.map Statement.keyword).map toTokenType).Nodup := by
        rw [List.map_map]
        exact hfresh.nodup
      exact hkinds.of_map
    · apply exists_rest
      intro t ht
      apply isToken_of_mem (s := p.content.drop p.currentPos)
      show t ∈ p.rest
      rw [hp]
      exact (((hperm.flatMap_right _).append_right _).cons _).cons _ |>.subset ht
    · intro p' r hp'
      have hchecked' : ∀ s ∈ stmts', s.Checked cwd := fun s hs => hchecked s (hperm.subset hs)
      obtain ⟨q', hblock', hq'⟩ := (isBlock_iff hname).mpr
        ⟨hp', hchecked', hfresh.perm hperm, hloc.trans (hfresh.setAll_perm hperm).symm⟩
      exact ⟨q', hblock', hq', parseLocation_iff.mpr ⟨name, stmts', loc, hblock', hvalid, hadd⟩⟩
  · intro p name stmts keyword w hshaped hmem hp
    rcases hrun : (parseLocation cwd server).run p with ⟨server', q⟩ | ⟨e, q⟩
    swap
    · exact ⟨e, q, rfl⟩
    obtain ⟨name', stmts', loc, hblock, hvalid, -⟩ := parseLocation_iff.mp hrun
    obtain ⟨hp', hchecked, hfresh, -⟩ :=
      (isBlock_iff (isWord_of_validName hvalid).1).mp ⟨q, hblock, rfl⟩
    obtain ⟨-, hblocks⟩ := List.cons.inj (hp'.symm.trans hp)
    obtain ⟨s0, hs0, rfl⟩ := List.mem_map.mp hmem
    obtain ⟨s, rest, rfl, hkey⟩ := exists_statement hshaped (fun s hs => (hchecked s hs).shaped)
      (hshaped s0 hs0).keyword_ne (List.cons.inj hblocks).2
    -- two statements with one keyword
    have hnodup := hfresh.nodup
    rw [List.map_append, List.nodup_append] at hnodup
    refine absurd ?_ (hnodup.2.2 _ (List.mem_map_of_mem hs0) _ List.mem_cons_self)
    show toTokenType s0.keyword = toTokenType s.keyword
    rw [hkey]

/-- `x` returns something. -/
def succeeds {τ : Type} (x : ConfigM τ) (p : ConfigParser) : Bool :=
  match x.run p with
  | .ok _ _ => true
  | .error _ _ => false

/-- A root and an index, and a root that comes again. -/
theorem parseLocation_statements_rootIndex :
    (∃ server' q name stmts loc,
      (parseLocation none {}).run { content := bytes "/a \x7b root /r; index i; \x7d" } =
        .ok server' q ∧
      IsBlock none { content := bytes "/a \x7b root /r; index i; \x7d" } name stmts loc q ∧
      (stmts.map Statement.keyword).Nodup) ∧
    ∃ e q, (parseLocation none {}).run { content := bytes "/a \x7b root /r; root ; ;" } =
      .error e q := by
  constructor
  · have hok : succeeds (parseLocation none {})
        { content := bytes "/a \x7b root /r; index i; \x7d" } = true := by
      decide +kernel
    rcases hrun : (parseLocation none {}).run
      { content := bytes "/a \x7b root /r; index i; \x7d" } with ⟨server', q⟩ | ⟨e, q⟩
    · obtain ⟨name, stmts, loc, hblock, -, -, hnodup, -⟩ :=
        (parseLocation_statements none {}).1 _ server' q hrun
      exact ⟨server', q, name, stmts, loc, rfl, hblock, hnodup⟩
    · rw [succeeds, hrun] at hok
      cases hok
  · apply (parseLocation_statements none {}).2 _ (bytes "/a")
      [⟨bytes "root", [bytes "/r"]⟩] (bytes "root") [bytes ";", bytes ";"]
    · intro s hs
      rw [List.mem_singleton.mp hs]
      exact ⟨bytes "/r", rfl⟩
    · exact List.mem_cons_self
    · decide

end Webserv
