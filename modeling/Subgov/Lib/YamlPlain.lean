import Subgov.Lib.YamlBlock
/-!
# YamlPlain — the lines of a plain scalar

A scalar over several lines is written line by line between the structure of its document.  On each of the lines of a
plain one, a colon that stands before any comment has a character behind it that is no space.
-/
namespace Yaml

/-! ## Lines of a text -/

/-- A line of a text, with what stands before and behind it. -/
structure IsLine (text pre line post : List Char) : Prop where
  split : text = pre ++ line ++ post
  before : pre = [] ∨ pre.getLast? = some '\n'
  behind : post = [] ∨ post.head? = some '\n'
  single : '\n' ∉ line

/-- The first line of a text, and what is behind its break. -/
theorem firstLine_cases (text : List Char) : ('\n' ∉ text ∧ firstLine text = text ∧ otherLines text = []) ∨
    ∃ rest, text = firstLine text ++ '\n' :: rest ∧ otherLines text = rest.splitOn '\n' := by
  have hfirst : '\n' ∉ firstLine text := fun hmem => by simpa using List.mem_takeWhile_imp hmem
  have htext : text = firstLine text ++ text.dropWhile (· != '\n') := List.takeWhile_append_dropWhile.symm
  cases hrest : text.dropWhile (· != '\n') with
  | nil =>
    rw [hrest, List.append_nil] at htext
    rw [← htext] at hfirst
    refine Or.inl ⟨hfirst, htext.symm, ?_⟩
    rw [otherLines, List.splitOn_eq_singleton hfirst]
    rfl
  | cons c rest =>
    have hc : c = '\n' := by
      have hhead := List.head?_dropWhile_not (· != '\n') text
      rw [hrest] at hhead
      simpa using hhead
    subst hc
    rw [hrest] at htext
    refine Or.inr ⟨rest, htext, ?_⟩
    rw [otherLines, htext, List.splitOn_append_cons_self_of_not_mem hfirst]
    rfl

theorem firstLine_isLine (text : List Char) : ∃ post, IsLine text [] (firstLine text) post := by
  have hfirst : '\n' ∉ firstLine text := fun hmem => by simpa using List.mem_takeWhile_imp hmem
  rcases firstLine_cases text with ⟨-, hsame, -⟩ | ⟨rest, htext, -⟩
  · exact ⟨[], by rw [hsame, List.nil_append, List.append_nil], Or.inl rfl, Or.inl rfl, hfirst⟩
  · exact ⟨'\n' :: rest, htext, Or.inl rfl, Or.inr rfl, hfirst⟩

theorem splitOn_isLine {text line : List Char} (h : line ∈ text.splitOn '\n') :
    ∃ pre post, IsLine text pre line post := by
  induction hlength : text.length using Nat.strong_induction_on generalizing text with
  | _ n ih =>
    obtain ⟨post, hline⟩ := firstLine_isLine text
    rcases firstLine_cases text with ⟨hsingle, hsame, -⟩ | ⟨rest, htext, -⟩
    · rw [List.splitOn_eq_singleton hsingle, List.mem_singleton] at h
      rw [h, ← hsame]
      exact ⟨[], post, hsame.symm ▸ hline⟩
    · rw [htext, List.splitOn_append_cons_self_of_not_mem hline.single] at h
      rcases List.mem_cons.1 h with rfl | hmem
      · exact ⟨[], post, hline⟩
      · have hshort : rest.length < n := by
          rw [← hlength, htext, List.length_append, List.length_cons]
          omega
        obtain ⟨pre, post', hother⟩ := ih rest.length hshort hmem rfl
        refine ⟨firstLine text ++ '\n' :: pre, post', ?_, Or.inr ?_, hother.behind, hother.single⟩
        · conv_lhs => rw [htext, hother.split]
          simp
        · rcases hother.before with rfl | hbreak
          · simp
          · rw [List.getLast?_append, List.getLast?_cons, hbreak]
            rfl

theorem otherLines_isLine {text line : List Char} (h : line ∈ otherLines text) :
    ∃ pre post, IsLine text pre line post ∧ pre ≠ [] := by
  rcases firstLine_cases text with ⟨-, -, hnone⟩ | ⟨rest, htext, hothers⟩
  · rw [hnone] at h
    exact absurd h List.not_mem_nil
  · rw [hothers] at h
    obtain ⟨pre, post, hline⟩ := splitOn_isLine h
    refine ⟨firstLine text ++ '\n' :: pre, post, ⟨?_, Or.inr ?_, hline.behind, hline.single⟩, by simp⟩
    · conv_lhs => rw [htext, hline.split]
      simp
    · rcases hline.before with rfl | hbreak
      · simp
      · rw [List.getLast?_append, List.getLast?_cons, hbreak]
        rfl

/-! ## Plain scalars -/

theorem isNonSpace_not_white {c : Char} (h : isNonSpace c = true) : isWhite c = false := by
  unfold isNonSpace at h
  simp only [Bool.and_eq_true, Bool.not_eq_true'] at h
  exact h.1.2

theorem plainSafe_nonSpace {inFlow : InFlow} {c : Char} (h : plainSafe inFlow c = true) : isNonSpace c = true := by
  unfold plainSafe at h
  rw [Bool.and_eq_true] at h
  exact h.1

theorem plainChars_cons {inFlow : InFlow} {prev c : Char} {rest : List Char}
    (h : plainChars inFlow prev (c :: rest) = true) : plainChars inFlow c rest = true := by
  rw [plainChars, Bool.and_eq_true] at h
  exact h.2

/-- A colon of a plain scalar has a character behind it. -/
theorem plainChars_colon {inFlow : InFlow} {prev : Char} {a b : List Char}
    (h : plainChars inFlow prev (a ++ ':' :: b) = true) : ∃ c rest, b = c :: rest ∧ plainSafe inFlow c = true := by
  induction a generalizing prev with
  | nil =>
    rw [List.nil_append, plainChars, Bool.and_eq_true] at h
    have hnext : b.head?.any (plainSafe inFlow) = true := h.1
    cases b with
    | nil => cases hnext
    | cons c rest => exact ⟨c, rest, rfl, hnext⟩
  | cons d a ih => exact ih (plainChars_cons h)

/-- A hash of a plain scalar has a character in front of it. -/
theorem plainChars_hash {inFlow : InFlow} {prev : Char} {a b : List Char}
    (h : plainChars inFlow prev (a ++ '#' :: b) = true) : isNonSpace ((prev :: a).getLast (by simp)) = true := by
  induction a generalizing prev with
  | nil =>
    rw [List.nil_append, plainChars, Bool.and_eq_true] at h
    exact h.1
  | cons d a ih =>
    rw [List.getLast_cons (by simp)]
    exact ih (plainChars_cons h)

theorem plainChars_mem {inFlow : InFlow} {prev : Char} {text : List Char} (h : plainChars inFlow prev text = true)
    {c : Char} (hc : c ∈ text) : isWhite c = true ∨ c = '\n' ∨ plainSafe inFlow c = true := by
  induction text generalizing prev with
  | nil => exact absurd hc List.not_mem_nil
  | cons d text ih =>
    rcases List.mem_cons.1 hc with rfl | hrest
    · rw [plainChars, Bool.and_eq_true] at h
      by_cases hcolon : c = ':'
      · subst hcolon
        exact Or.inr (Or.inr (by cases inFlow <;> decide))
      by_cases hhash : c = '#'
      · subst hhash
        exact Or.inr (Or.inr (by cases inFlow <;> decide))
      have hfirst := h.1
      split at hfirst
      · rename_i hspace
        rw [Bool.or_eq_true, beq_iff_eq] at hspace
        exact hspace.imp id Or.inl
      · rw [if_neg (by simpa using hcolon), if_neg (by simpa using hhash)] at hfirst
        exact Or.inr (Or.inr hfirst)
    · exact ih (plainChars_cons h) hrest

structure PlainText (inFlow : InFlow) (text : List Char) : Prop where
  first : plainFirst inFlow text = true
  chars : plainChars inFlow ' ' text = true
  last : text.getLast?.any isNonSpace = true

theorem plainText_iff {inFlow : InFlow} {text : List Char} : isPlain inFlow text = true ↔ PlainText inFlow text := by
  unfold isPlain
  rw [Bool.and_eq_true, Bool.and_eq_true]
  exact ⟨fun h => ⟨h.1.1, h.1.2, h.2⟩, fun h => ⟨⟨h.first, h.chars⟩, h.last⟩⟩

/-- What follows a node on its line: nothing but white space before a comment. -/
theorem isTrail_cases {trail : Line} (h : isTrail trail = true) : blank trail = true ∨
    ('\n' ∉ trail ∧ ∃ white rest, trail = white ++ '#' :: rest ∧ white ≠ [] ∧ blank white = true) := by
  unfold isTrail at h
  rw [Bool.or_eq_true] at h
  refine h.imp id fun h => ?_
  simp only [Bool.and_eq_true, Bool.not_eq_true', beq_iff_eq] at h
  obtain ⟨⟨hbreak, hwhite⟩, hhash⟩ := h
  refine ⟨by simpa using hbreak, trail.takeWhile isWhite, (trail.dropWhile isWhite).tail, ?_, ?_, ?_⟩
  · have hdrop : trail.dropWhile isWhite = '#' :: (trail.dropWhile isWhite).tail := List.eq_cons_of_mem_head? hhash
    rw [← hdrop, List.takeWhile_append_dropWhile]
  · cases trail with
    | nil => cases hwhite
    | cons c rest => simp_all
  · exact List.all_eq_true.2 fun c hc => List.mem_takeWhile_imp hc

theorem isTrail_single {trail : Line} (h : isTrail trail = true) : '\n' ∉ trail := by
  rcases isTrail_cases h with hblank | ⟨hbreak, -⟩
  · intro hmem
    have hwhite := List.all_eq_true.1 hblank _ hmem
    cases hwhite
  · exact hbreak

/-- Before a comment, each colon has a character behind it that is no space. -/
def ColonsBound (line : List Char) : Prop :=
  ∀ a b, line = a ++ ':' :: b → '#' ∉ a → ∃ c rest, b = c :: rest ∧ isNonSpace c = true

theorem PlainText.colonsBound {inFlow : InFlow} {text trail pre line post : List Char} (h : PlainText inFlow text)
    (htrail : isTrail trail = true) (hline : IsLine (text ++ trail) pre line post) : ColonsBound line := by
  rintro a b rfl hhash
  have hsplit : text ++ trail = (pre ++ a) ++ ':' :: (b ++ post) := by rw [hline.split]; simp
  rcases List.append_eq_append_iff.1 hsplit with ⟨inside, hpre, hrest⟩ | ⟨inside, htext, hrest⟩
  · -- the colon would stand in the comment
    exfalso
    rcases isTrail_cases htrail with hblank | ⟨hbreak, white, comment, rfl, -, hwhite⟩
    · have hcolon := List.all_eq_true.1 hblank ':' (by rw [hrest]; simp)
      cases hcolon
    · have hmem : '#' ∈ inside := by
        rcases List.append_eq_append_iff.1 hrest with ⟨gap, hinside, hgap⟩ | ⟨gap, hwhites, hgap⟩
        · cases gap with
          | nil =>
            rw [List.nil_append] at hgap
            cases hgap
          | cons c gap =>
            rw [List.cons_append, List.cons.injEq] at hgap
            rw [hinside, hgap.1]
            simp
        · have hcolon : ':' ∈ white := by
            cases gap with
            | nil =>
              rw [List.nil_append] at hgap
              cases hgap
            | cons c gap =>
              rw [List.cons_append, List.cons.injEq] at hgap
              rw [hwhites, hgap.1]
              simp
          have hbad := List.all_eq_true.1 hwhite ':' hcolon
          cases hbad
      rcases List.append_eq_append_iff.1 hpre with ⟨gap, -, ha⟩ | ⟨gap, hgap, hinside⟩
      · exact hhash (ha ▸ List.mem_append_right _ hmem)
      · -- a break would stand in the trail
        cases hback : gap.getLast? with
        | none =>
          rw [List.getLast?_eq_none_iff.1 hback, List.nil_append] at hinside
          exact hhash (hinside ▸ hmem)
        | some c =>
          have hlast : pre.getLast? = some c := by rw [hgap, List.getLast?_append, hback]; rfl
          have hc : c = '\n' := by
            rcases hline.before with rfl | hbefore
            · cases hlast
            · exact Option.some.inj (hlast.symm.trans hbefore)
          refine hbreak ?_
          rw [hrest, hinside, ← hc]
          exact List.mem_append_left _ (List.mem_append_left _ (List.mem_of_getLast? hback))
  · cases inside with
    | nil =>
      rw [List.nil_append] at hrest
      rw [← hrest] at htrail
      exact absurd htrail (by simp [isTrail, blank, isWhite])
    | cons d inside =>
      rw [List.cons_append, List.cons.injEq] at hrest
      have hchars := h.chars
      rw [htext, ← hrest.1] at hchars
      obtain ⟨c, rest, rfl, hsafe⟩ := plainChars_colon hchars
      have hc := plainSafe_nonSpace hsafe
      cases b with
      | nil =>
        rw [List.nil_append] at hrest
        rcases hline.behind with hpost | hpost
        · rw [hpost] at hrest
          cases hrest.2
        · rw [hrest.2] at hpost
          rw [Option.some.inj hpost] at hc
          cases hc
      | cons e b =>
        rw [List.cons_append, List.cons_append, List.cons.injEq] at hrest
        exact ⟨e, b, rfl, hrest.2.1 ▸ hc⟩

theorem exists_last_break {text : List Char} (h : '\n' ∈ text) :
    ∃ pre last, text = pre ++ '\n' :: last ∧ '\n' ∉ last := by
  obtain ⟨last, pre, hsplit, hlast⟩ := List.eq_append_cons_of_mem (List.mem_reverse.2 h)
  refine ⟨pre.reverse, last.reverse, ?_, by simpa using hlast⟩
  rw [← List.reverse_reverse text, hsplit]
  simp

theorem otherLines_last {pre last : List Char} (h : '\n' ∉ last) : last ∈ otherLines (pre ++ '\n' :: last) := by
  have hlast : List.splitOnP (· == '\n') last = [last] := by
    rw [← List.splitOn_eq_splitOnP, List.splitOn_eq_singleton h]
  unfold otherLines
  rw [List.splitOn_eq_splitOnP, List.splitOnP_append_cons pre last rfl, hlast]
  cases hpre : List.splitOnP (· == '\n') pre with
  | nil => exact absurd hpre (List.splitOnP_ne_nil _ _)
  | cons first rest => simp

/-- The last line of a plain scalar over several lines is no gap. -/
theorem PlainText.exists_not_gap {inFlow : InFlow} {text trail : List Char} (h : PlainText inFlow text)
    (htrail : isTrail trail = true) (hbreak : '\n' ∈ text) :
    ∃ line ∈ otherLines (text ++ trail), isGap line = false := by
  obtain ⟨pre, last, rfl, hlast⟩ := exists_last_break hbreak
  obtain ⟨x, hx, hspace⟩ : ∃ x ∈ last, isNonSpace x = true := by
    have hend := h.last
    rw [List.getLast?_append, List.getLast?_cons] at hend
    cases hl : last.getLast? with
    | none =>
      rw [hl] at hend
      cases hend
    | some x =>
      rw [hl] at hend
      exact ⟨x, List.mem_of_getLast? hl, hend⟩
  have hwhite : last.dropWhile isWhite ≠ [] := fun hnil => by
    have hall := List.dropWhile_eq_nil_iff.1 hnil x hx
    rw [isNonSpace_not_white hspace] at hall
    cases hall
  refine ⟨last ++ trail, ?_, ?_⟩
  · rw [List.append_assoc, List.cons_append]
    refine otherLines_last fun hmem => ?_
    exact (List.mem_append.1 hmem).elim hlast (isTrail_single htrail)
  · unfold isGap
    rw [Bool.or_eq_false_iff, beq_eq_false_iff_ne]
    refine ⟨?_, fun hhash => ?_⟩
    · rw [Bool.eq_false_iff]
      intro hblank
      have hxwhite := List.all_eq_true.1 hblank x (List.mem_append_left _ hx)
      rw [isNonSpace_not_white hspace] at hxwhite
      cases hxwhite
    · -- a hash would stand behind the break, or behind white space
      have hhead : (last.dropWhile isWhite).head? = some '#' := by
        unfold trimLeft at hhash
        rw [List.dropWhile_append, if_neg (by simpa using hwhite)] at hhash
        cases hd : last.dropWhile isWhite with
        | nil => exact absurd hd hwhite
        | cons c rest =>
          rw [hd] at hhash
          exact hhash
      have hsplit : last = last.takeWhile isWhite ++ '#' :: (last.dropWhile isWhite).tail := by
        conv_lhs => rw [← List.takeWhile_append_dropWhile (p := isWhite) (l := last)]
        rw [← List.eq_cons_of_mem_head? hhead]
      have hchars := h.chars
      rw [hsplit, ← List.cons_append, ← List.append_assoc] at hchars
      have hbefore := plainChars_hash hchars
      rw [List.getLast_cons (by simp), List.getLast_append_of_ne_nil (by simp) (by simp)] at hbefore
      have hcases : ('\n' :: last.takeWhile isWhite).getLast (by simp) ∈ '\n' :: last.takeWhile isWhite :=
        List.getLast_mem _
      have hwhitespace := isNonSpace_not_white hbefore
      rcases List.mem_cons.1 hcases with heq | hmem
      · rw [heq] at hbefore
        cases hbefore
      · rw [isNonSpace] at hbefore
        have := List.mem_takeWhile_imp hmem
        simp [this] at hbefore

/-! ## How a node starts -/

theorem Flow.node_cases {inFlow : InFlow} {text : List Char} {node : Node} (h : Flow (.node inFlow) text node) :
    (PlainText inFlow text ∧ node = .scalar { plain := true, content := foldBreaks text }) ∨
      (∃ body content, text = '"' :: body ++ ['"'] ∧ DoubleBody body content ∧
        node = .scalar { plain := false, content }) ∨
      (∃ body content, text = '\'' :: body ++ ['\''] ∧ SingleBody body content ∧
        node = .scalar { plain := false, content := foldBreaks content }) ∨
      (∃ rest items, text = '[' :: rest ∧ node = .seq items) ∨
      ∃ rest entries, text = '\x7b' :: rest ∧ node = .map entries := by
  cases h with
  | plain hplain => exact Or.inl ⟨plainText_iff.1 hplain, rfl⟩
  | double hbody => exact Or.inr (Or.inl ⟨_, _, rfl, hbody, rfl⟩)
  | single hbody => exact Or.inr (Or.inr (Or.inl ⟨_, _, rfl, hbody, rfl⟩))
  | seq => exact Or.inr (Or.inr (Or.inr (Or.inl ⟨_, _, rfl, rfl⟩)))
  | map => exact Or.inr (Or.inr (Or.inr (Or.inr ⟨_, _, rfl, rfl⟩)))

theorem Flow.plainText {inFlow : InFlow} {text : List Char} {s : Scalar} (h : Flow (.node inFlow) text (.scalar s))
    (hplain : s.plain = true) : PlainText inFlow text := by
  cases h with
  | plain hp => exact plainText_iff.1 hp
  | double => cases hplain
  | single => cases hplain

/-- The first character of a node is no space and no hash, and a dash has a character behind it. -/
structure Starts (text : List Char) : Prop where
  exists_first : ∃ c rest, text = c :: rest ∧ isNonSpace c = true ∧ c ≠ '#' ∧
    (c = '-' → ∃ d rest', rest = d :: rest' ∧ isNonSpace d = true)

theorem Flow.starts {inFlow : InFlow} {text : List Char} {node : Node} (h : Flow (.node inFlow) text node) :
    Starts text := by
  rcases h.node_cases with ⟨hplain, -⟩ | ⟨body, content, rfl, -⟩ | ⟨body, content, rfl, -⟩ | ⟨rest, items, rfl, -⟩ |
    ⟨rest, entries, rfl, -⟩
  · have hfirst := hplain.first
    cases text with
    | nil => cases hfirst
    | cons c rest =>
      unfold plainFirst at hfirst
      rw [Bool.or_eq_true, Bool.and_eq_true, Bool.and_eq_true] at hfirst
      rcases hfirst with ⟨hspace, hno⟩ | ⟨hmark, hnext⟩
      · refine ⟨c, rest, rfl, hspace, ?_, ?_⟩
        · rintro rfl
          cases hno
        · rintro rfl
          cases hno
      · have hmem : c = '?' ∨ c = ':' ∨ c = '-' := by simpa using hmark
        refine ⟨c, rest, rfl, ?_, ?_, fun _ => ?_⟩
        · rcases hmem with rfl | rfl | rfl <;> decide
        · rcases hmem with rfl | rfl | rfl <;> decide
        · cases rest with
          | nil => cases hnext
          | cons d rest' => exact ⟨d, rest', rfl, plainSafe_nonSpace hnext⟩
  all_goals exact ⟨_, _, rfl, by decide, by decide, fun h => absurd h (by decide)⟩

end Yaml
