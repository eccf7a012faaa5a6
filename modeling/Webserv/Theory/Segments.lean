/-
Webserv/Theory/Segments.lean

Slash-separated paths over an arbitrary alphabet with a separator.

`split` gives the non-empty pieces between separators, `join` writes each segment
with a separator in front.  On lists of proper segments `split` undoes `join`,
and containment of one path in another, as strings with a separator as boundary,
is the prefix order on their segments (`join_below_iff`).

`resolve` reads segments as moves in a tree: one segment stays, one goes up, every
other is a name and goes down.
-/
import Mathlib

namespace Segments

variable {α : Type*} [DecidableEq α] (sep : α)

/-! ### Splitting and joining -/

/-- The non-empty pieces of `cur ++ s`, where `cur` has no separator. -/
def splitFrom (cur : List α) : List α → List (List α)
  | [] => if cur = [] then [] else [cur]
  | c :: cs =>
      if c = sep then
        if cur = [] then splitFrom [] cs else cur :: splitFrom [] cs
      else splitFrom (cur ++ [c]) cs

/-- The non-empty pieces of `s` between separators. -/
def split (s : List α) : List (List α) := splitFrom sep [] s

/-- A proper segment. -/
def IsSegment (s : List α) : Prop := s ≠ [] ∧ sep ∉ s

/-- Every segment with a separator in front. -/
def join (segs : List (List α)) : List α := (segs.map (sep :: ·)).flatten

omit [DecidableEq α] in
@[simp] theorem join_nil : join sep ([] : List (List α)) = [] := rfl

omit [DecidableEq α] in
@[simp] theorem join_cons (s : List α) (segs : List (List α)) :
    join sep (s :: segs) = sep :: (s ++ join sep segs) := rfl

omit [DecidableEq α] in
theorem join_append (segs segs' : List (List α)) :
    join sep (segs ++ segs') = join sep segs ++ join sep segs' := by
  simp [join]

@[simp] theorem split_nil : split sep ([] : List α) = [] := rfl

@[simp] theorem split_sep (s : List α) : split sep (sep :: s) = split sep s := by
  simp [split, splitFrom]

theorem splitFrom_append_sep (cur a b : List α) :
    splitFrom sep cur (a ++ sep :: b) = splitFrom sep cur a ++ split sep b := by
  induction a generalizing cur with
  | nil =>
      by_cases h : cur = []
      · simp [splitFrom, split, h]
      · simp [splitFrom, split, h]
  | cons c cs ih =>
      by_cases hc : c = sep
      · by_cases h : cur = []
        · simp [splitFrom, hc, h, ih]
        · simp [splitFrom, hc, h, ih]
      · simp [splitFrom, hc, ih]

/-- **Splitting at a separator.** -/
theorem split_append_sep (a b : List α) : split sep (a ++ sep :: b) = split sep a ++ split sep b :=
  splitFrom_append_sep sep [] a b

variable {sep}

theorem splitFrom_of_notMem {cur s : List α} (h : sep ∉ s) :
    splitFrom sep cur s = if cur ++ s = [] then [] else [cur ++ s] := by
  induction s generalizing cur with
  | nil => simp [splitFrom]
  | cons c cs ih =>
      have hc : c ≠ sep := fun hc => h (by simp [hc])
      have hcs : sep ∉ cs := fun hcs => h (List.mem_cons_of_mem _ hcs)
      simp [splitFrom, hc, ih hcs]

theorem split_segment {s : List α} (h : IsSegment sep s) : split sep s = [s] := by
  rw [split, splitFrom_of_notMem h.2, List.nil_append, if_neg h.1]

theorem isSegment_of_mem_splitFrom {cur s t : List α} (hcur : sep ∉ cur)
    (h : t ∈ splitFrom sep cur s) : IsSegment sep t := by
  induction s generalizing cur with
  | nil =>
      simp only [splitFrom] at h
      split_ifs at h with hnil
      · simp at h
      · rw [List.mem_singleton] at h
        exact ⟨h ▸ hnil, h ▸ hcur⟩
  | cons c cs ih =>
      simp only [splitFrom] at h
      split_ifs at h with hc hnil
      · exact ih List.not_mem_nil h
      · rcases List.mem_cons.mp h with rfl | h
        · exact ⟨hnil, hcur⟩
        · exact ih List.not_mem_nil h
      · refine ih (fun hmem => ?_) h
        rcases List.mem_append.mp hmem with hmem | hmem
        · exact hcur hmem
        · exact hc (List.mem_singleton.mp hmem).symm

/-- Pieces are proper segments. -/
theorem isSegment_of_mem_split {s t : List α} (h : t ∈ split sep s) : IsSegment sep t :=
  isSegment_of_mem_splitFrom List.not_mem_nil h

/-- **Splitting undoes joining**, whatever stands behind the boundary. -/
theorem split_join_append {segs : List (List α)} (h : ∀ s ∈ segs, IsSegment sep s) (t : List α) :
    split sep (join sep segs ++ sep :: t) = segs ++ split sep t := by
  induction segs with
  | nil => simp
  | cons s segs ih =>
      obtain ⟨hs, hsegs⟩ := List.forall_mem_cons.mp h
      have ih := ih hsegs
      rcases segs with - | ⟨s', segs⟩
      · simp [split_append_sep, split_segment hs]
      · rw [join_cons, List.cons_append, split_sep, List.append_assoc, join_cons,
          List.cons_append, split_append_sep, split_segment hs]
        rw [join_cons, List.cons_append, split_sep] at ih
        rw [ih]
        rfl

theorem split_join {segs : List (List α)} (h : ∀ s ∈ segs, IsSegment sep s) :
    split sep (join sep segs) = segs := by
  have hjoin := split_join_append h []
  rw [split_append_sep] at hjoin
  simpa using hjoin

theorem infix_of_mem_splitFrom {cur s t : List α} (h : t ∈ splitFrom sep cur s) :
    t <:+: cur ++ s := by
  induction s generalizing cur with
  | nil =>
      simp only [splitFrom] at h
      split_ifs at h with hnil
      · simp at h
      · rw [List.mem_singleton] at h
        rw [h, List.append_nil]
  | cons d ds ih =>
      simp only [splitFrom] at h
      split_ifs at h with hd hnil
      · exact (ih h).trans ⟨cur ++ [d], [], by simp⟩
      · obtain rfl | h := List.mem_cons.mp h
        · exact ⟨[], d :: ds, rfl⟩
        · exact (ih h).trans ⟨cur ++ [d], [], by simp⟩
      · have hin := ih h
        rw [List.append_assoc] at hin
        exact hin

/-- A piece is part of the text. -/
theorem infix_of_mem_split {s t : List α} (h : t ∈ split sep s) : t <:+: s :=
  infix_of_mem_splitFrom h

theorem mem_of_mem_split {s t : List α} {c : α} (h : t ∈ split sep s) (hc : c ∈ t) : c ∈ s :=
  (infix_of_mem_split h).subset hc

omit [DecidableEq α] in
theorem mem_join {segs : List (List α)} {c : α} (h : c ∈ join sep segs) :
    c = sep ∨ ∃ s ∈ segs, c ∈ s := by
  induction segs with
  | nil => simp at h
  | cons s segs ih =>
      rw [join_cons, List.mem_cons, List.mem_append] at h
      rcases h with h | h | h
      · exact .inl h
      · exact .inr ⟨s, List.mem_cons_self, h⟩
      · exact (ih h).imp_right fun ⟨t, ht, hc⟩ => ⟨t, List.mem_cons_of_mem _ ht, hc⟩

/-! ### Canonical paths -/

variable (sep) in
/-- No two separators stand side by side. -/
def NoEmpty (s : List α) : Prop := ¬ [sep, sep] <:+: s

omit [DecidableEq α] in
theorem NoEmpty.of_cons {c : α} {s : List α} (h : NoEmpty sep (c :: s)) : NoEmpty sep s :=
  fun hs => h (hs.trans (List.suffix_cons c s).isInfix)

omit [DecidableEq α] in
theorem noEmpty_cons {c : α} {s : List α} (h : NoEmpty sep s)
    (hc : c = sep → s.head? ≠ some sep) : NoEmpty sep (c :: s) := by
  intro hin
  rcases List.infix_cons_iff.mp hin with hpre | hin
  · obtain ⟨rfl, ⟨rest, rfl⟩⟩ := List.cons_prefix_cons.mp hpre
    exact hc rfl rfl
  · exact h hin

omit [DecidableEq α] in
theorem noEmpty_append_of_notMem {s t : List α} (hs : sep ∉ s) (ht : NoEmpty sep t) :
    NoEmpty sep (s ++ t) := by
  induction s with
  | nil => exact ht
  | cons c cs ih =>
      have hc : c ≠ sep := fun hc => hs (by simp [hc])
      exact noEmpty_cons (ih fun h => hs (List.mem_cons_of_mem _ h)) fun h => absurd h hc

omit [DecidableEq α] in
theorem noEmpty_append {s t : List α} (hs : NoEmpty sep s) (ht : NoEmpty sep t)
    (hhead : t.head? ≠ some sep) : NoEmpty sep (s ++ t) := by
  induction s with
  | nil => exact ht
  | cons c cs ih =>
      refine noEmpty_cons (ih hs.of_cons) fun hc h => ?_
      rcases cs with - | ⟨d, ds⟩
      · exact hhead h
      · -- the two first would stand side by side
        obtain rfl : d = sep := Option.some.inj h
        exact hs ⟨[], ds, by rw [hc]; rfl⟩

omit [DecidableEq α] in
/-- A joined path has no empty segment, also with a separator at its end. -/
theorem noEmpty_join {segs : List (List α)} (h : ∀ s ∈ segs, IsSegment sep s) :
    NoEmpty sep (join sep segs ++ [sep]) := by
  induction segs with
  | nil =>
      intro hin
      have hle := hin.length_le
      simp at hle
  | cons s segs ih =>
      obtain ⟨hs, hsegs⟩ := List.forall_mem_cons.mp h
      rw [join_cons, List.cons_append, List.append_assoc]
      refine noEmpty_cons (noEmpty_append_of_notMem hs.2 (ih hsegs)) fun _ hhead => ?_
      obtain ⟨c, cs, rfl⟩ := List.exists_cons_of_ne_nil hs.1
      simp only [List.cons_append, List.head?_cons, Option.some.injEq] at hhead
      exact hs.2 (by simp [hhead])

theorem join_splitFrom {cur s : List α} (hempty : NoEmpty sep s) (hne : cur ++ s ≠ [])
    (hlast : s.getLast? ≠ some sep) (hhead : cur = [] → s.head? ≠ some sep) :
    join sep (splitFrom sep cur s) = sep :: (cur ++ s) := by
  induction s generalizing cur with
  | nil =>
      have hcur : cur ≠ [] := by simpa using hne
      simp [splitFrom, hcur]
  | cons c cs ih =>
      have hlast' : cs ≠ [] → cs.getLast? ≠ some sep := fun hcs h => hlast (by
        rw [List.getLast?_cons_of_ne_nil hcs, h])
      by_cases hc : c = sep
      · subst hc
        have hcur : cur ≠ [] := fun h => hhead h rfl
        have hcs : cs ≠ [] := by
          rintro rfl
          exact hlast rfl
        have hnext : cs.head? ≠ some c := by
          intro h
          obtain ⟨d, ds, rfl⟩ := List.exists_cons_of_ne_nil hcs
          obtain rfl := Option.some.inj h
          exact hempty ⟨[], ds, rfl⟩
        have hrest := @ih [] hempty.of_cons hcs (hlast' hcs) fun _ => hnext
        simp [splitFrom, hcur, hrest]
      · have hlast'' : cs.getLast? ≠ some sep := by
          rcases cs with - | ⟨d, ds⟩
          · exact nofun
          · exact hlast' (by simp)
        have hrest := @ih (cur ++ [c]) hempty.of_cons (by simp) hlast'' (by simp)
        simp [splitFrom, hc, hrest]

/-- **Joining undoes splitting** on a canonical path. -/
theorem join_split {s : List α} (hempty : NoEmpty sep (sep :: s)) (hne : s ≠ [])
    (hlast : s.getLast? ≠ some sep) : join sep (split sep s) = sep :: s := by
  refine join_splitFrom hempty.of_cons hne hlast fun _ h => ?_
  obtain ⟨d, ds, rfl⟩ := List.exists_cons_of_ne_nil hne
  obtain rfl := Option.some.inj h
  exact hempty ⟨[], ds, rfl⟩

/-! ### Containment -/

omit [DecidableEq α] in
theorem join_mono {segs segs' : List (List α)} (h : segs <+: segs') :
    join sep segs ++ [sep] <+: join sep segs' ++ [sep] := by
  obtain ⟨rest, rfl⟩ := h
  rw [join_append]
  rcases rest with - | ⟨s, rest⟩
  · simp
  · exact ⟨s ++ join sep rest ++ [sep], by simp⟩

/-- A path below another one, as strings, has its segments in front. -/
theorem isPrefix_split {root path : List α} (h : root ++ [sep] <+: path ++ [sep]) :
    split sep root <+: split sep path := by
  obtain ⟨rest, hrest⟩ := h
  have hsplit := congrArg (split sep) hrest
  rw [List.append_assoc, List.singleton_append, split_append_sep, split_append_sep, split_nil,
    List.append_nil] at hsplit
  exact ⟨_, hsplit⟩

/-! ### All pieces -/

variable (sep) in
/-- The pieces of `s` between separators, the empty ones too. -/
def pieces : List α → List (List α)
  | [] => [[]]
  | c :: cs => if c = sep then [] :: pieces cs else (pieces cs).modifyHead (c :: ·)

theorem pieces_ne_nil (s : List α) : pieces sep s ≠ [] := by
  induction s with
  | nil => exact List.cons_ne_nil _ _
  | cons c cs ih =>
      rw [pieces]
      split_ifs
      · exact List.cons_ne_nil _ _
      · obtain ⟨p, ps, hps⟩ := List.exists_cons_of_ne_nil ih
        rw [hps]
        exact List.cons_ne_nil _ _

theorem pieces_sep (s : List α) : pieces sep (sep :: s) = [] :: pieces sep s := by
  rw [pieces, if_pos rfl]

/-- **Cutting at a separator.** -/
theorem pieces_append_sep (a b : List α) :
    pieces sep (a ++ sep :: b) = pieces sep a ++ pieces sep b := by
  induction a with
  | nil =>
      rw [List.nil_append, pieces_sep]
      rfl
  | cons c cs ih =>
      rw [List.cons_append, pieces, pieces, ih]
      split_ifs
      · rfl
      · obtain ⟨p, ps, hps⟩ := List.exists_cons_of_ne_nil (@pieces_ne_nil _ _ sep cs)
        rw [hps]
        rfl

theorem pieces_of_notMem {s : List α} (h : sep ∉ s) : pieces sep s = [s] := by
  induction s with
  | nil => rfl
  | cons c cs ih =>
      have hc : c ≠ sep := fun hc => h (hc ▸ List.mem_cons_self)
      rw [pieces, if_neg hc, ih fun hmem => h (List.mem_cons_of_mem _ hmem)]
      rfl

theorem pieces_join_append {segs : List (List α)} (h : ∀ s ∈ segs, sep ∉ s) (t : List α) :
    pieces sep (join sep segs ++ sep :: t) = [] :: segs ++ pieces sep t := by
  induction segs with
  | nil =>
      rw [join_nil, List.nil_append, pieces_sep]
      rfl
  | cons s segs ih =>
      obtain ⟨hs, hsegs⟩ := List.forall_mem_cons.mp h
      have hcut : join sep (s :: segs) ++ sep :: t =
          [] ++ sep :: (s ++ (join sep segs ++ sep :: t)) := by
        simp
      have hnext : ∃ u, join sep segs ++ sep :: t = sep :: u := by
        cases segs with
        | nil => exact ⟨t, rfl⟩
        | cons s' segs => exact ⟨_, rfl⟩
      obtain ⟨u, hu⟩ := hnext
      have ih := ih hsegs
      rw [hu, pieces_sep, List.cons_append, List.cons.injEq] at ih
      rw [hcut, hu, pieces_append_sep, pieces_append_sep, pieces_of_notMem hs, ih.2]
      rfl

/-- **Cutting undoes joining.** -/
theorem pieces_of_join {segs : List (List α)} {s : List α} (h : ∀ t ∈ segs, sep ∉ t)
    (hjoin : join sep segs = sep :: s) : pieces sep s = segs := by
  have hpieces := pieces_join_append h []
  rw [hjoin, List.cons_append, pieces_sep, pieces_append_sep, List.cons_append] at hpieces
  exact List.append_cancel_right (List.cons.inj hpieces).2

/-- **Joining the pieces.** -/
theorem join_pieces (s : List α) : join sep (pieces sep s) = sep :: s := by
  induction s with
  | nil => rfl
  | cons c cs ih =>
      rw [pieces]
      split_ifs with hc
      · rw [join_cons, ih, hc]
        rfl
      · obtain ⟨p, ps, hps⟩ := List.exists_cons_of_ne_nil (@pieces_ne_nil _ _ sep cs)
        rw [hps, join_cons] at ih
        rw [hps]
        show sep :: ((c :: p) ++ join sep ps) = _
        rw [List.cons_append, (List.cons.inj ih).2]

theorem notMem_of_mem_pieces {s p : List α} (h : p ∈ pieces sep s) : sep ∉ p := by
  induction s generalizing p with
  | nil =>
      obtain rfl := List.mem_singleton.mp h
      exact List.not_mem_nil
  | cons c cs ih =>
      rw [pieces] at h
      split_ifs at h with hc
      · obtain rfl | h := List.mem_cons.mp h
        · exact List.not_mem_nil
        · exact ih h
      · obtain ⟨q, qs, hqs⟩ := List.exists_cons_of_ne_nil (@pieces_ne_nil _ _ sep cs)
        rw [hqs] at h ih
        obtain rfl | h := List.mem_cons.mp h
        · intro hmem
          obtain rfl | hmem := List.mem_cons.mp hmem
          · exact hc rfl
          · exact ih List.mem_cons_self hmem
        · exact ih (List.mem_cons_of_mem _ h)

omit [DecidableEq α] in
/-- Joining is putting separators between, with one more in front. -/
theorem join_eq_intercalate {segs : List (List α)} (h : segs ≠ []) :
    join sep segs = sep :: [sep].intercalate segs := by
  induction segs with
  | nil => exact absurd rfl h
  | cons s segs ih =>
      rcases segs with - | ⟨s', segs⟩
      · simp
      · rw [join_cons, ih (List.cons_ne_nil _ _), List.intercalate_cons_cons, List.append_assoc]
        rfl

theorem intercalate_pieces (s : List α) : [sep].intercalate (pieces sep s) = s := by
  have hjoin := @join_pieces _ _ sep s
  rw [join_eq_intercalate (pieces_ne_nil s)] at hjoin
  exact (List.cons.inj hjoin).2

theorem pieces_intercalate {segs : List (List α)} (hne : segs ≠ []) (h : ∀ t ∈ segs, sep ∉ t) :
    pieces sep ([sep].intercalate segs) = segs :=
  pieces_of_join h (join_eq_intercalate hne)

/-- The pieces that are not empty are the segments. -/
theorem filter_pieces (s : List α) : (pieces sep s).filter (· ≠ []) = split sep s := by
  suffices hfrom : ∀ cur : List α, splitFrom sep cur s =
      ((pieces sep s).modifyHead (cur ++ ·)).filter (· ≠ []) by
    obtain ⟨p, ps, hps⟩ := List.exists_cons_of_ne_nil (@pieces_ne_nil _ _ sep s)
    rw [split, hfrom [], hps]
    rfl
  induction s with
  | nil =>
      intro cur
      by_cases hcur : cur = []
      · simp [splitFrom, pieces, hcur]
      · simp [splitFrom, pieces, hcur]
  | cons c cs ih =>
      intro cur
      obtain ⟨p, ps, hps⟩ := List.exists_cons_of_ne_nil (@pieces_ne_nil _ _ sep cs)
      by_cases hc : c = sep
      · have hrest := ih []
        by_cases hcur : cur = []
        · simp [splitFrom, pieces, hc, hcur, hrest, hps]
        · simp [splitFrom, pieces, hc, hcur, hrest, hps]
      · simp [splitFrom, pieces, hc, ih, hps]

/-- A text that is empty or begins with a separator is its pieces behind the first,
joined. -/
theorem join_tail_pieces {s : List α} (h : s = [] ∨ s.head? = some sep) :
    join sep (pieces sep s).tail = s := by
  rcases h with rfl | h
  · rfl
  · obtain ⟨t, rfl⟩ := List.head?_eq_some_iff.mp h
    rw [pieces_sep, List.tail_cons, join_pieces]

/-- **A joined path at the end of a text** is its last pieces. -/
theorem join_suffix_iff {segs : List (List α)} (h : ∀ t ∈ segs, sep ∉ t) (s : List α) :
    join sep segs <:+ s ↔ segs <:+ (pieces sep s).tail := by
  constructor
  · rintro ⟨t, rfl⟩
    rcases segs with - | ⟨p, segs⟩
    · exact List.nil_suffix
    · rw [join_cons, pieces_append_sep, List.tail_append_of_ne_nil (pieces_ne_nil t)]
      have hpieces : pieces sep (p ++ join sep segs) = p :: segs :=
        pieces_of_join h (join_cons sep p segs)
      rw [hpieces]
      exact List.suffix_append _ _
  · rintro ⟨pre, hpre⟩
    obtain ⟨p, ps, hps⟩ := List.exists_cons_of_ne_nil (@pieces_ne_nil _ _ sep s)
    have hjoin := @join_pieces _ _ sep s
    rw [hps, List.tail_cons] at hpre
    rw [hps, join_cons, ← hpre, join_append, ← List.append_assoc] at hjoin
    exact ⟨_, (List.cons.inj hjoin).2⟩

omit [DecidableEq α] in
theorem rtake_append_length (l l' : List (List α)) : (l ++ l').rtake l'.length = l' := by
  rw [List.rtake, List.length_append, Nat.add_sub_cancel, List.drop_left]

/-- **The pieces behind a cut** of a joined path are its last segments. -/
theorem tail_pieces_eq_rtake {segs : List (List α)} (h : ∀ s ∈ segs, IsSegment sep s)
    {a b : List α} (hjoin : join sep segs = a ++ b) (hb : b = [] ∨ b.head? = some sep) :
    (pieces sep b).tail = segs.rtake (segs.length - (split sep a).length) := by
  rcases hb with rfl | hb
  · rw [List.append_nil] at hjoin
    rw [← hjoin, split_join h, Nat.sub_self, List.rtake_zero]
    rfl
  · obtain ⟨t, rfl⟩ := List.head?_eq_some_iff.mp hb
    have hsegs : segs = (pieces sep a).tail ++ pieces sep t := by
      have hpieces := pieces_join_append (fun s hs => (h s hs).2) []
      rw [hjoin, pieces_append_sep, pieces_append_sep, List.cons_append] at hpieces
      have hcons : ([] :: segs) ++ pieces sep [] = [] :: (segs ++ pieces sep []) := List.cons_append
      have hpieces := congrArg List.tail (List.append_cancel_right (hpieces.trans hcons.symm))
      rw [List.tail_append_of_ne_nil (pieces_ne_nil a)] at hpieces
      exact hpieces.symm
    -- the pieces behind the cut are all proper
    have hproper : split sep t = pieces sep t := by
      rw [← filter_pieces, List.filter_eq_self]
      intro s hs
      rw [decide_eq_true_iff]
      refine (h s ?_).1
      rw [hsegs]
      exact List.mem_append_right _ hs
    have hlen : segs.length = (split sep a).length + (pieces sep t).length := by
      rw [← split_join h, hjoin, split_append_sep, List.length_append, hproper]
    rw [pieces_sep, List.tail_cons, hlen, Nat.add_sub_cancel_left]
    nth_rewrite 1 [hsegs]
    rw [rtake_append_length]

/-- **Containment of paths**, empty pieces or not. -/
theorem join_below_iff {segs segs' : List (List α)} (h : ∀ s ∈ segs, sep ∉ s)
    (h' : ∀ s ∈ segs', sep ∉ s) :
    join sep segs ++ [sep] <+: join sep segs' ++ [sep] ↔ segs <+: segs' := by
  refine ⟨fun hp => ?_, join_mono⟩
  obtain ⟨rest, hrest⟩ := hp
  have hpieces := congrArg (pieces sep) hrest
  rw [List.append_assoc, List.singleton_append, pieces_join_append h, pieces_join_append h'] at hpieces
  have hpieces : segs ++ pieces sep rest = segs' ++ pieces sep [] := (List.cons.inj hpieces).2
  -- the last piece is the empty one behind the boundary
  obtain ⟨init, last, hlast⟩ := (List.eq_nil_or_concat (pieces sep rest)).resolve_left
    (pieces_ne_nil rest)
  rw [hlast, List.concat_eq_append, ← List.append_assoc] at hpieces
  exact ⟨init, (List.append_inj' hpieces rfl).1⟩

/-! ### Resolving dot segments -/

variable (stay up : List α)

/-- One segment, read as a move; going up from the root stays there. -/
def move (stack : List (List α)) (s : List α) : List (List α) :=
  if s = stay then stack else if s = up then stack.dropLast else stack ++ [s]

/-- Where the segments lead, from the root. -/
def resolve (segs : List (List α)) : List (List α) := segs.foldl (move stay up) []

/-- A name is a segment that goes down. -/
def IsName (s : List α) : Prop := s ≠ stay ∧ s ≠ up

instance (s : List α) : Decidable (IsName stay up s) := inferInstanceAs (Decidable (_ ∧ _))

/-- The number of names among the segments. -/
def names (segs : List (List α)) : Nat := segs.countP (IsName stay up ·)

/-- Going through the segments from a place at depth `n` never leaves the root. -/
def StaysBelow (n : Nat) (segs : List (List α)) : Prop :=
  ∀ q, q <+: segs → q.count up ≤ n + names stay up q

variable {stay up}

theorem names_cons (s : List α) (segs : List (List α)) :
    names stay up (s :: segs) = names stay up segs + if IsName stay up s then 1 else 0 := by
  simp [names, List.countP_cons]

theorem staysBelow_nil (n : Nat) : StaysBelow stay up n [] := by
  intro q hq
  rw [List.prefix_nil.mp hq]
  exact Nat.zero_le _

theorem staysBelow_cons {n : Nat} {s : List α} {segs : List (List α)} (hne : stay ≠ up) :
    StaysBelow stay up n (s :: segs) ↔
      if s = stay then StaysBelow stay up n segs
      else if s = up then n ≠ 0 ∧ StaysBelow stay up (n - 1) segs
      else StaysBelow stay up (n + 1) segs := by
  have hcons : StaysBelow stay up n (s :: segs) ↔
      ∀ q, q <+: segs → (s :: q).count up ≤ n + names stay up (s :: q) := by
    constructor
    · exact fun h q hq => h (s :: q) (List.cons_prefix_cons.mpr ⟨rfl, hq⟩)
    · intro h q hq
      rcases List.prefix_cons_iff.mp hq with rfl | ⟨q', rfl, hq'⟩
      · exact Nat.zero_le _
      · exact h q' hq'
  rw [hcons]
  split_ifs with hstay hup
  · refine forall₂_congr fun q _ => ?_
    rw [names_cons, if_neg fun h : IsName stay up s => h.1 hstay,
      List.count_cons_of_ne (hstay ▸ hne), Nat.add_zero]
  · have hstep : ∀ q, (s :: q).count up ≤ n + names stay up (s :: q) ↔
        q.count up + 1 ≤ n + names stay up q := fun q => by
      rw [names_cons, if_neg fun h : IsName stay up s => h.2 hup, hup, List.count_cons_self]
      exact Iff.rfl
    constructor
    · intro h
      have h0 := (hstep []).mp (h [] List.nil_prefix)
      have h0 : 0 + 1 ≤ n + 0 := h0
      refine ⟨by omega, fun q hq => ?_⟩
      have hq := (hstep q).mp (h q hq)
      omega
    · rintro ⟨hn, h⟩ q hq
      have hq := h q hq
      exact (hstep q).mpr (by omega)
  · refine forall₂_congr fun q _ => ?_
    rw [names_cons, if_pos (show IsName stay up s from ⟨hstay, hup⟩), List.count_cons_of_ne hup]
    omega

/-- Resolved segments are names of the path. -/
theorem mem_resolve {segs : List (List α)} {s : List α} (h : s ∈ resolve stay up segs) :
    s ∈ segs ∧ IsName stay up s := by
  suffices hstack : ∀ (segs stack : List (List α)), s ∈ segs.foldl (move stay up) stack →
      s ∈ stack ∨ s ∈ segs ∧ IsName stay up s by
    exact (hstack segs [] h).resolve_left List.not_mem_nil
  intro segs
  induction segs with
  | nil => exact fun stack h => .inl h
  | cons t segs ih =>
      intro stack h
      rcases ih (move stay up stack t) h with hmem | ⟨hmem, hname⟩
      · unfold move at hmem
        split_ifs at hmem with hstay hup
        · exact .inl hmem
        · exact .inl (List.mem_of_mem_dropLast hmem)
        · rcases List.mem_append.mp hmem with hmem | hmem
          · exact .inl hmem
          · obtain rfl := List.mem_singleton.mp hmem
            exact .inr ⟨List.mem_cons_self, hstay, hup⟩
      · exact .inr ⟨List.mem_cons_of_mem _ hmem, hname⟩

/-- Names go down, one after the other. -/
theorem foldl_move_names {segs : List (List α)} (h : ∀ s ∈ segs, IsName stay up s)
    (stack : List (List α)) : segs.foldl (move stay up) stack = stack ++ segs := by
  induction segs generalizing stack with
  | nil => rw [List.append_nil, List.foldl_nil]
  | cons s segs ih =>
      obtain ⟨⟨hstay, hup⟩, hsegs⟩ := List.forall_mem_cons.mp h
      have hmove : move stay up stack s = stack ++ [s] := by
        rw [move, if_neg hstay, if_neg hup]
      rw [List.foldl_cons, hmove, ih hsegs, List.append_assoc]
      rfl

/-- What is resolved goes on where it leads. -/
theorem resolve_append (segs segs' : List (List α)) :
    resolve stay up (segs ++ segs') = segs'.foldl (move stay up) (resolve stay up segs) :=
  List.foldl_append

theorem resolve_append_names {segs segs' : List (List α)} (h : ∀ s ∈ segs', IsName stay up s) :
    resolve stay up (segs ++ segs') = resolve stay up segs ++ segs' := by
  rw [resolve_append, foldl_move_names h]

theorem resolve_of_names {segs : List (List α)} (h : ∀ s ∈ segs, IsName stay up s) :
    resolve stay up segs = segs := foldl_move_names h []

/-- Names at the end of a path come through, whatever stands before them. -/
theorem rtake_resolve_filter {segs : List (List α)} {n : ℕ} (hn : n ≤ segs.length)
    (h : ∀ s ∈ segs.rtake n, s ≠ [] ∧ IsName stay up s) (start : List (List α)) :
    (resolve stay up (start ++ segs.filter (· ≠ []))).rtake n = segs.rtake n := by
  have hsplit : segs.filter (· ≠ []) =
      (segs.take (segs.length - n)).filter (· ≠ []) ++ segs.rtake n := by
    nth_rewrite 1 [← List.take_append_drop (segs.length - n) segs]
    rw [List.filter_append, ← List.rtake]
    congr 1
    exact List.filter_eq_self.mpr fun s hs => decide_eq_true (h s hs).1
  have hlen : (segs.rtake n).length = n := by
    rw [List.rtake, List.length_drop]
    exact Nat.sub_sub_self hn
  rw [hsplit, ← List.append_assoc, resolve_append_names fun s hs => (h s hs).2]
  have hcut := rtake_append_length (resolve stay up
    (start ++ (segs.take (segs.length - n)).filter (· ≠ []))) (segs.rtake n)
  rw [hlen] at hcut
  exact hcut

/-- A part may be resolved before the rest. -/
theorem resolve_resolve_append (segs segs' : List (List α)) :
    resolve stay up (resolve stay up segs ++ segs') = resolve stay up (segs ++ segs') := by
  rw [resolve_append, resolve_append, resolve_of_names fun s hs => (mem_resolve hs).2]

end Segments
