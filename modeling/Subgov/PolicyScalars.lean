import Subgov.PolicyLayout
/-!
# PolicyScalars — the reader's scalars against YAML's

`scalar` reads the first line of a value.  What it makes of a scalar is what the scalar means, unless the scalar is one
of a few (`ScalarLegible`): a plain one with a hash in it or a word that the core schema reads otherwise, or a quoted one
whose line seems to end in its quote.
-/
namespace Subgov

open Python

namespace ReadyBeads

/-! ## What a document holds -/

def resolvedValue : Yaml.Resolved → Value
  | .null => .none
  | .bool b => .bool b
  | .int n => .int n
  | .text s => ofChars s

/-- The value of a scalar, which may be null. -/
def scalarValue : Yaml.Node → Option Value
  | .scalar s => some (resolvedValue s.resolve)
  | _ => none

/-- The value of a scalar that is not null, or of a list of scalars. -/
def heldValue : Yaml.Node → Option Value
  | .scalar s =>
    match s.resolve with
    | .null => none
    | resolved => some (resolvedValue resolved)
  | .seq items => (items.mapM scalarValue).map .list
  | .map _ => none

theorem heldValue_scalar {s : Yaml.Scalar} {x : Value} :
    heldValue (.scalar s) = some x ↔ s.resolve ≠ .null ∧ x = resolvedValue s.resolve := by
  rw [heldValue]
  cases s.resolve <;> simp [eq_comm]

/-! ## Scalars that are read as they are meant -/

/-- The word that the reader takes a plain scalar for. -/
def readWord (text : List Char) : List Char := strip (beforeHash (Yaml.firstLine text))

/-- A word that the reader does not refuse. -/
def isRead (word : List Char) : Bool := isWord word || word.all isDigit

/-- A word that is read as a text, or as an integer, and is another to the core schema. -/
def looksOdd (word : List Char) : Bool :=
  ["True", "TRUE", "False", "FALSE"].contains (String.ofList word) ||
    (word.head?.any (fun c => c == '-' || c == '+') && Yaml.isDigits word.tail) ||
    (word.all isDigit && !word.all Yaml.isDigit)

/-- A plain scalar that starts with no white space of Python's and, on one line, is the word that is read. -/
def PlainLegible (text : List Char) : Prop :=
  text.head?.all (!isSpace ·) ∧
    ('\n' ∉ text → isRead (readWord text) = true → readWord text = text ∧ looksOdd text = false)

/-- A single-quoted scalar whose first line ends in a quote has no other line, and no comment. -/
def SingleLegible (text trail : List Char) : Prop :=
  (strip (Yaml.firstLine (text ++ trail))).getLast? = some '\'' → '\n' ∉ text ∧ Yaml.blank trail = true

structure ScalarLegible (text trail : List Char) (s : Yaml.Scalar) : Prop where
  plain : s.plain = true → PlainLegible text
  single : text.head? = some '\'' → SingleLegible text trail

/-! ## White space -/

theorem rstrip_cons {c : Char} (hc : isSpace c = false) (text : List Char) : rstrip (c :: text) = c :: rstrip text := by
  unfold rstrip List.rdropWhile
  rw [List.reverse_cons, List.dropWhile_append]
  split
  · rename_i hnil
    rw [List.isEmpty_iff.1 hnil, List.dropWhile_cons_of_neg (by rw [hc]; exact Bool.false_ne_true)]
    rfl
  · rw [List.reverse_append]
    rfl

theorem rstrip_initial (text : List Char) : rstrip text <+: text := List.rdropWhile_prefix _ _

theorem rstrip_rstrip (text : List Char) : rstrip (rstrip text) = rstrip text := List.rdropWhile_idempotent _ _

theorem lstrip_append {white : List Char} (hwhite : ∀ c ∈ white, isSpace c = true) (text : List Char) :
    lstrip (white ++ text) = lstrip text := List.dropWhile_append_of_pos hwhite

theorem rstrip_append {white : List Char} (hwhite : ∀ c ∈ white, isSpace c = true) (text : List Char) :
    rstrip (text ++ white) = rstrip text := by
  unfold rstrip List.rdropWhile
  rw [List.reverse_append, List.dropWhile_append_of_pos fun c hc => hwhite c (List.mem_reverse.1 hc)]

theorem strip_append {white : List Char} (hwhite : ∀ c ∈ white, isSpace c = true) (text : List Char) :
    strip (text ++ white) = strip text := by
  unfold strip
  by_cases hall : lstrip text = []
  · have hspace : ∀ c ∈ text, isSpace c = true := List.dropWhile_eq_nil_iff.1 hall
    have hnil : lstrip (text ++ white) = [] := List.dropWhile_eq_nil_iff.2 fun c hc =>
      (List.mem_append.1 hc).elim (hspace c) (hwhite c)
    rw [hnil, hall]
  · have hkeep : lstrip (text ++ white) = lstrip text ++ white := by
      unfold lstrip at hall ⊢
      rw [List.dropWhile_append, if_neg (by rwa [List.isEmpty_iff])]
    rw [hkeep, rstrip_append hwhite]

theorem isSpace_of_blank {white : List Char} (h : Yaml.blank white = true) : ∀ c ∈ white, isSpace c = true :=
  fun c hc => isSpace_of_isWhite (List.all_eq_true.1 h c hc)

theorem strip_cons {c : Char} (hc : isSpace c = false) (text : List Char) : strip (c :: text) = c :: rstrip text := by
  unfold strip
  rw [lstrip, List.dropWhile_cons_of_neg (by rw [hc]; exact Bool.false_ne_true), rstrip_cons hc]

/-- The part of a line that is read, where the scalar starts with no white space. -/
theorem strip_lead {white : List Char} {c : Char} (hwhite : Yaml.blank white = true) (hc : isSpace c = false)
    (text : List Char) : strip (white ++ c :: text) = c :: rstrip text := by
  rw [← strip_cons hc]
  unfold strip
  rw [lstrip_append (isSpace_of_blank hwhite)]

theorem strip_strip (text : List Char) : strip (strip text) = strip text := by
  unfold strip
  cases hleft : lstrip text with
  | nil => rfl
  | cons c rest =>
    have hc : isSpace c = false := by
      have hhead := List.head?_dropWhile_not isSpace text
      unfold lstrip at hleft
      rw [hleft] at hhead
      simpa using hhead
    rw [rstrip_cons hc, lstrip, List.dropWhile_cons_of_neg (by rw [hc]; exact Bool.false_ne_true), rstrip_cons hc,
      rstrip_rstrip]

theorem scalar_strip (text : List Char) : scalar (strip text) = scalar text := by
  unfold scalar
  rw [strip_strip]

/-! ## Plain scalars -/

theorem beforeHash_append {text behind : List Char} (h : '#' ∈ text) : beforeHash (text ++ behind) = beforeHash text := by
  unfold beforeHash
  rw [List.takeWhile_append, if_neg]
  intro hlength
  have hall : text.takeWhile (· != '#') = text := (List.takeWhile_prefix _).eq_of_length hlength
  have hhash := List.mem_takeWhile_imp (hall.symm ▸ h)
  simp at hhash

theorem beforeHash_of_not_mem {text : List Char} (h : '#' ∉ text) (behind : List Char) :
    beforeHash (text ++ behind) = text ++ beforeHash behind := by
  unfold beforeHash
  rw [List.takeWhile_append_of_pos]
  intro c hc
  rw [bne_iff_ne]
  rintro rfl
  exact h hc

theorem strip_beforeHash_rstrip (text : List Char) : strip (beforeHash (rstrip text)) = strip (beforeHash text) := by
  obtain ⟨white, hwhite⟩ := rstrip_initial text
  have hspace : ∀ c ∈ white, isSpace c = true := by
    intro c hc
    have hsplit : text.rtakeWhile isSpace = white := by
      have hboth := List.rdropWhile_append_rtakeWhile (p := isSpace) (l := text)
      exact List.append_cancel_left (hboth.trans hwhite.symm)
    rw [← hsplit] at hc
    exact List.mem_rtakeWhile_imp hc
  conv_rhs => rw [← hwhite]
  by_cases hhash : '#' ∈ rstrip text
  · rw [beforeHash_append hhash]
  · rw [beforeHash_of_not_mem hhash]
    have hnone : beforeHash (rstrip text) = rstrip text := by
      have := beforeHash_of_not_mem hhash []
      simpa [beforeHash] using this
    rw [hnone, strip_append]
    exact fun c hc => hspace c ((List.takeWhile_prefix _).subset hc)

theorem firstLine_single {text : List Char} (h : '\n' ∉ text) : Yaml.firstLine text = text := by
  rcases Yaml.firstLine_cases text with ⟨-, hsame, -⟩ | ⟨rest, htext, -⟩
  · exact hsame
  · rw [htext] at h
    exact absurd (by simp) h

theorem single_append {text trail : List Char} (htext : '\n' ∉ text) (htrail : Yaml.isTrail trail = true) :
    '\n' ∉ text ++ trail := fun hmem => (List.mem_append.1 hmem).elim htext (Yaml.isTrail_single htrail)

theorem readWord_append {text trail : List Char} (htext : '\n' ∉ text) (htrail : Yaml.isTrail trail = true) :
    strip (beforeHash (Yaml.firstLine (text ++ trail))) = readWord text := by
  unfold readWord
  rw [firstLine_single htext, firstLine_single (single_append htext htrail)]
  by_cases hhash : '#' ∈ text
  · rw [beforeHash_append hhash]
  · have htext' : beforeHash text = text := by
      have := beforeHash_of_not_mem hhash []
      simpa [beforeHash] using this
    rw [beforeHash_of_not_mem hhash, htext', strip_append]
    intro c hc
    rcases Yaml.isTrail_cases htrail with hblank | ⟨-, white, rest, rfl, -, hblank⟩
    · exact isSpace_of_blank hblank c ((List.takeWhile_prefix _).subset hc)
    · have hwhite : '#' ∉ white := fun hmem => by
        have := List.all_eq_true.1 hblank _ hmem
        cases this
      rw [beforeHash_of_not_mem hwhite, beforeHash, List.takeWhile_cons_of_neg (by simp), List.append_nil] at hc
      exact isSpace_of_blank hblank c hc

theorem not_contains {words : List String} {text : List Char} {p : List Char → Prop} (h : ∀ w ∈ words, ¬ p w.toList)
    (htext : p text) : words.contains (String.ofList text) = false := by
  rw [Bool.eq_false_iff, Ne, List.contains_iff_mem]
  intro hmem
  have := h _ hmem
  rw [String.toList_ofList] at this
  exact this htext

theorem decimalDigit_ascii {c : Char} (h : Yaml.isDigit c = true) : decimalDigit c = some (c.toNat - '0'.toNat) := by
  unfold Yaml.isDigit at h
  rw [Bool.and_eq_true, decide_eq_true_eq, decide_eq_true_eq, Char.le_def, Char.le_def] at h
  have hlow : 0x30 ≤ c.toNat := h.1
  have hhigh : c.toNat ≤ 0x39 := h.2
  unfold decimalDigit decimalZeros
  rw [List.find?_cons_of_pos (by simp; omega)]
  rfl

theorem intOfDigits_ascii {text : List Char} (h : ∀ c ∈ text, Yaml.isDigit c = true) {n : Nat}
    (hread : intOfDigits text = .ok n) : n = Yaml.ofDigits text := by
  have hdigits : text.mapM decimalDigit = some (text.map fun c => c.toNat - '0'.toNat) := by
    clear hread
    induction text with
    | nil => rfl
    | cons c text ih =>
      rw [List.mapM_cons, decimalDigit_ascii (h c List.mem_cons_self),
        ih fun d hd => h d (List.mem_cons_of_mem c hd)]
      rfl
  unfold intOfDigits at hread
  rw [hdigits] at hread
  split at hread
  · cases hread
  · rw [← Except.ok.inj hread, Yaml.ofDigits, List.foldl_map]

theorem isDigit_ascii {c : Char} (h : Yaml.isDigit c = true) : isDigit c = true := by
  unfold isDigit
  rw [decimalDigit_ascii h]
  rfl

/-- Digits are an integer to the core schema too. -/
theorem resolvePlain_digits {text : List Char} (hne : text ≠ []) (h : ∀ c ∈ text, Yaml.isDigit c = true) :
    Yaml.resolvePlain text = .int (Yaml.ofDigits text) := by
  have hwords : ∀ words ∈ [Yaml.nullWords, Yaml.trueWords, Yaml.falseWords],
      words.contains (String.ofList text) = false := fun words hwords =>
    not_contains (p := fun text => text ≠ [] ∧ text.all Yaml.isDigit = true) (by revert words; decide)
      ⟨hne, List.all_eq_true.2 h⟩
  unfold Yaml.resolvePlain
  dsimp only
  rw [hwords Yaml.nullWords (by simp), hwords Yaml.trueWords (by simp), hwords Yaml.falseWords (by simp)]
  cases text with
  | nil => exact absurd rfl hne
  | cons c text =>
    have hc := h c List.mem_cons_self
    have hall : Yaml.isDigits (c :: text) = true := by
      unfold Yaml.isDigits
      rw [Bool.and_eq_true]
      exact ⟨rfl, List.all_eq_true.2 h⟩
    have hdecimal : Yaml.decimal (c :: text) = some ((Yaml.ofDigits (c :: text) : Nat) : Int) := by
      rw [Yaml.decimal, if_neg, if_neg, if_pos hall]
      · rintro ⟨rfl, -⟩
        cases hc
      · rintro ⟨rfl, -⟩
        cases hc
    rw [hdecimal]
    rfl

/-- A word that is none of the core schema's is a text. -/
theorem resolvePlain_text {text : List Char} (hnull : Yaml.resolvePlain text ≠ .null) (htrue : text ≠ "true".toList)
    (hfalse : text ≠ "false".toList)
    (hwords : ["True", "TRUE", "False", "FALSE"].contains (String.ofList text) = false)
    (hsigned : (text.head?.any (fun c => c == '-' || c == '+') && Yaml.isDigits text.tail) = false)
    (hdigits : Yaml.isDigits text = false) : Yaml.resolvePlain text = .text text := by
  have hother : ∀ w : String, text ≠ w.toList → String.ofList text ≠ w := by
    rintro w hw rfl
    exact hw (String.toList_ofList).symm
  have hbool : ∀ w ∈ Yaml.trueWords ++ Yaml.falseWords, String.ofList text ≠ w := by
    intro w hw heq
    rw [heq] at hwords
    simp only [Yaml.trueWords, Yaml.falseWords, List.cons_append, List.nil_append, List.mem_cons, List.not_mem_nil,
      or_false] at hw
    rcases hw with rfl | rfl | rfl | rfl | rfl | rfl
    · exact hother _ htrue heq
    · exact absurd hwords (by decide)
    · exact absurd hwords (by decide)
    · exact hother _ hfalse heq
    · exact absurd hwords (by decide)
    · exact absurd hwords (by decide)
  have hnotNull : Yaml.nullWords.contains (String.ofList text) = false := by
    rw [Bool.eq_false_iff]
    intro hyes
    refine hnull ?_
    unfold Yaml.resolvePlain
    dsimp only
    rw [if_pos hyes]
  have hnotTrue : Yaml.trueWords.contains (String.ofList text) = false := by
    rw [Bool.eq_false_iff, Ne, List.contains_iff_mem]
    exact fun hmem => hbool _ (List.mem_append_left _ hmem) rfl
  have hnotFalse : Yaml.falseWords.contains (String.ofList text) = false := by
    rw [Bool.eq_false_iff, Ne, List.contains_iff_mem]
    exact fun hmem => hbool _ (List.mem_append_right _ hmem) rfl
  have hdecimal : Yaml.decimal text = none := by
    cases text with
    | nil => rfl
    | cons c digits =>
      rw [List.head?_cons, Option.any_some, List.tail_cons, Bool.and_eq_false_iff, Bool.or_eq_false_iff,
        beq_eq_false_iff_ne, beq_eq_false_iff_ne] at hsigned
      rw [Yaml.decimal, if_neg, if_neg, if_neg (by rw [hdigits]; exact Bool.false_ne_true)]
      · rintro ⟨hc, hyes⟩
        rcases hsigned with hno | hno
        · exact hno.2 hc
        · rw [hno] at hyes
          cases hyes
      · rintro ⟨hc, hyes⟩
        rcases hsigned with hno | hno
        · exact hno.1 hc
        · rw [hno] at hyes
          cases hyes
  unfold Yaml.resolvePlain
  dsimp only
  rw [hnotNull, hnotTrue, hnotFalse, hdecimal]
  rfl

/-- **A legible plain scalar is read as it is meant.** -/
theorem plainScalar_legible {text core : List Char} {v : Value} (hlegible : PlainLegible text) (hsingle : '\n' ∉ text)
    (hnull : Yaml.resolvePlain text ≠ .null) (hcore : strip (beforeHash core) = readWord text)
    (h : plainScalar core = .ok v) : v = resolvedValue (Yaml.resolvePlain text) := by
  unfold plainScalar at h
  rw [hcore] at h
  dsimp only at h
  have hread := hlegible.2 hsingle
  split at h
  · rename_i htrue
    have htext := (hread (by rw [htrue]; decide)).1
    cases h
    rw [← htext, htrue]
    rfl
  rename_i hnotTrue
  split at h
  · rename_i hfalse
    have htext := (hread (by rw [hfalse]; decide)).1
    cases h
    rw [← htext, hfalse]
    rfl
  rename_i hnotFalse
  split at h
  · rename_i hdigits
    rw [Bool.and_eq_true, Bool.not_eq_true', List.isEmpty_eq_false_iff] at hdigits
    obtain ⟨htext, hodd⟩ := hread (by rw [isRead, hdigits.2, Bool.or_true])
    have hascii : ∀ c ∈ text, Yaml.isDigit c = true := by
      unfold looksOdd at hodd
      rw [Bool.or_eq_false_iff, ← htext, hdigits.2, Bool.true_and, Bool.not_eq_false'] at hodd
      rw [← htext]
      exact List.all_eq_true.1 hodd.2
    rw [htext] at h
    cases hread : intOfDigits text with
    | error e =>
      rw [hread] at h
      cases h
    | ok n =>
      rw [hread] at h
      cases h
      rw [resolvePlain_digits (htext ▸ hdigits.1) hascii, intOfDigits_ascii hascii hread]
      rfl
  rename_i hnotDigits
  split at h
  · rename_i hword
    obtain ⟨htext, hodd⟩ := hread (by rw [isRead, hword, Bool.true_or])
    rw [htext] at h hnotTrue hnotFalse hnotDigits
    cases h
    unfold looksOdd at hodd
    rw [Bool.or_eq_false_iff, Bool.or_eq_false_iff] at hodd
    obtain ⟨⟨hwords, hsigned⟩, -⟩ := hodd
    rw [resolvePlain_text hnull hnotTrue hnotFalse hwords hsigned]
    · rfl
    · rw [Bool.eq_false_iff]
      intro hdigits
      unfold Yaml.isDigits at hdigits
      rw [Bool.and_eq_true] at hdigits
      refine hnotDigits ?_
      rw [Bool.and_eq_true]
      exact ⟨hdigits.1, List.all_eq_true.2 fun c hc => isDigit_ascii (List.all_eq_true.1 hdigits.2 c hc)⟩
  · cases h

theorem scalar_plain {x rest : List Char} {c : Char} (hx : strip x = c :: rest)
    (hc : c ≠ '"' ∧ c ≠ '[' ∧ c ≠ '\'') : scalar x = plainScalar (c :: rest) := by
  unfold scalar
  dsimp only
  rw [hx, if_neg (by simp [hc]), if_neg (by simp [hc])]

/-- A plain scalar is no list. -/
theorem plainScalar_not_list {text : List Char} {v : Value} (h : plainScalar text = .ok v) : ∀ items, v ≠ .list items := by
  rintro items rfl
  unfold plainScalar at h
  dsimp only at h
  split at h
  · cases h
  split at h
  · cases h
  split at h
  · obtain ⟨n, -, hn⟩ := ok_of_map h
    cases hn
  split at h
  · cases h
  · cases h

/-- A plain scalar that is read starts with a word's character or a digit. -/
theorem plainScalar_head {c : Char} {rest : List Char} {v : Value} (hc : c ≠ '#' ∧ isSpace c = false)
    (h : plainScalar (c :: rest) = .ok v) : isWordChar c = true ∨ isDigit c = true := by
  have hword : strip (beforeHash (c :: rest)) = c :: rstrip (beforeHash rest) := by
    rw [beforeHash, List.takeWhile_cons_of_pos (by simpa using hc.1)]
    exact strip_cons hc.2 _
  unfold plainScalar at h
  dsimp only at h
  rw [hword] at h
  split at h
  · rename_i htrue
    rw [(List.cons.inj htrue).1]
    exact Or.inl rfl
  split at h
  · rename_i hfalse
    rw [(List.cons.inj hfalse).1]
    exact Or.inl rfl
  split at h
  · rename_i hdigits
    rw [Bool.and_eq_true, List.all_cons, Bool.and_eq_true] at hdigits
    exact Or.inr hdigits.2.1
  split at h
  · rename_i hword
    unfold isWord at hword
    rw [Bool.and_eq_true, List.all_cons, Bool.and_eq_true] at hword
    exact Or.inl hword.2.1
  · cases h

/-- Nothing is read of no text. -/
theorem plainScalar_empty {text : List Char} (h : strip (beforeHash text) = []) :
    plainScalar text = .error (.value "complex policy scalar") := by
  unfold plainScalar
  rw [h]
  rfl

/-- The first line of a value behind its indicator. -/
def valueLine (white text trail : List Char) : List Char := white ++ Yaml.firstLine (text ++ trail)

theorem firstLine_cons {c : Char} (hc : c ≠ '\n') (text : List Char) :
    Yaml.firstLine (c :: text) = c :: Yaml.firstLine text := List.takeWhile_cons_of_pos (by simpa using hc)

theorem strip_valueLine {white text rest : List Char} {c : Char} (hwhite : Yaml.blank white = true)
    (htext : text = c :: rest) (hc : isSpace c = false) (trail : List Char) :
    strip (valueLine white text trail) = c :: rstrip (Yaml.firstLine (rest ++ trail)) := by
  have hbreak : c ≠ '\n' := by
    rintro rfl
    cases hc
  rw [valueLine, htext, List.cons_append, firstLine_cons hbreak, strip_lead hwhite hc]

/-- The line of a legible plain scalar. -/
theorem plain_line {white text : List Char} (hwhite : Yaml.blank white = true) (hplain : Yaml.PlainText false text)
    (hlegible : PlainLegible text) (trail : List Char) : ∃ c rest, text = c :: rest ∧ isSpace c = false ∧ c ≠ '#' ∧
      strip (valueLine white text trail) = c :: rstrip (Yaml.firstLine (rest ++ trail)) ∧
      scalar (valueLine white text trail) = plainScalar (c :: rstrip (Yaml.firstLine (rest ++ trail))) := by
  obtain ⟨c, rest, htext, -, hhash, -⟩ := (Yaml.Flow.plain (Yaml.plainText_iff.2 hplain)).starts.exists_first
  have hc : isSpace c = false := by
    have hhead := hlegible.1
    rw [htext, List.head?_cons, Option.all_some, Bool.not_eq_true'] at hhead
    exact hhead
  have hquotes : c ≠ '"' ∧ c ≠ '[' ∧ c ≠ '\'' := by
    have hfirst := hplain.first
    rw [htext] at hfirst
    refine ⟨?_, ?_, ?_⟩ <;>
      · rintro rfl
        cases hfirst
  have hstrip := strip_valueLine hwhite htext hc trail
  exact ⟨c, rest, htext, hc, hhash, hstrip, scalar_plain hstrip hquotes⟩

/-- **A legible plain scalar on one line is read as it is meant.** -/
theorem scalar_plain_legible {white text trail : List Char} {v : Value} (hwhite : Yaml.blank white = true)
    (hplain : Yaml.PlainText false text) (htrail : Yaml.isTrail trail = true) (hlegible : PlainLegible text)
    (hsingle : '\n' ∉ text) (hnull : Yaml.resolvePlain text ≠ .null)
    (h : scalar (valueLine white text trail) = .ok v) : v = resolvedValue (Yaml.resolvePlain text) := by
  obtain ⟨c, rest, htext, hc, -, -, hread⟩ := plain_line hwhite hplain hlegible trail
  rw [hread] at h
  refine plainScalar_legible hlegible hsingle hnull ?_ h
  rw [← readWord_append hsingle htrail, htext, List.cons_append, firstLine_cons, ← rstrip_cons hc,
    strip_beforeHash_rstrip]
  rintro rfl
  cases hc

/-! ## Single-quoted scalars -/

theorem scalar_single {x rest : List Char} (hx : strip x = '\'' :: rest) : scalar x =
    if ('\'' :: rest).getLast? = some '\'' then .ok (ofChars (unquote rest.dropLast))
    else .error (.value "invalid quoted policy scalar") := by
  unfold scalar
  dsimp only
  rw [hx, if_neg (by simp), if_pos List.head?_cons]
  rfl

theorem unquote_body {body content : List Char} (h : Yaml.SingleBody body content) : unquote body = content := by
  induction h with
  | nil => rfl
  | @char c text content _ hc _ ih =>
    cases text with
    | nil => rw [← ih, unquote, unquote]
    | cons d text => rw [unquote, if_neg (fun h => hc h.1), ih]
  | quote _ ih => rw [unquote, if_pos ⟨rfl, rfl⟩, ih]

theorem singleBody_single {body content : List Char} (h : Yaml.SingleBody body content) (hbody : '\n' ∉ body) :
    '\n' ∉ content := by
  induction h with
  | nil => exact hbody
  | char _ _ _ ih =>
    rw [List.mem_cons, not_or] at hbody ⊢
    exact ⟨hbody.1, ih hbody.2⟩
  | quote _ ih =>
    rw [List.mem_cons, List.mem_cons, not_or, not_or] at hbody
    rw [List.mem_cons, not_or]
    exact ⟨by decide, ih hbody.2.2⟩

/-- **A legible single-quoted scalar is read as it is meant.** -/
theorem scalar_single_legible {white body content trail : List Char} {v : Value} (hwhite : Yaml.blank white = true)
    (hbody : Yaml.SingleBody body content) (hlegible : SingleLegible ('\'' :: body ++ ['\'']) trail)
    (h : scalar (valueLine white ('\'' :: body ++ ['\'']) trail) = .ok v) :
    '\n' ∉ '\'' :: body ++ ['\''] ∧ v = ofChars (Yaml.foldBreaks content) := by
  have hstrip : ∀ white, Yaml.blank white = true → strip (valueLine white ('\'' :: body ++ ['\'']) trail) =
      '\'' :: rstrip (Yaml.firstLine (body ++ ['\''] ++ trail)) := fun white hwhite =>
    strip_valueLine hwhite rfl (by decide) trail
  rw [scalar_single (hstrip white hwhite)] at h
  split at h
  · rename_i hlast
    rw [← hstrip [] rfl] at hlast
    obtain ⟨hsingle, hblank⟩ := hlegible hlast
    have hbreak : '\n' ∉ body ++ ['\''] ++ trail := fun hmem => by
      rcases List.mem_append.1 hmem with hmem | hmem
      · exact hsingle (List.mem_cons_of_mem _ hmem)
      · have := List.all_eq_true.1 hblank _ hmem
        cases this
    have hcore : rstrip (Yaml.firstLine (body ++ ['\''] ++ trail)) = body ++ ['\''] := by
      rw [firstLine_single hbreak, rstrip_append (isSpace_of_blank hblank), rstrip,
        List.rdropWhile_concat_neg _ _ _ (by decide)]
    rw [hcore, List.dropLast_concat] at h
    cases h
    have hbody' : '\n' ∉ body := fun hmem => hsingle (List.mem_cons_of_mem _ (List.mem_append_left _ hmem))
    exact ⟨hsingle, by rw [unquote_body hbody, foldBreaks_single (singleBody_single hbody hbody')]⟩
  · cases h

end ReadyBeads

end Subgov
