import Mathlib.Data.Bool.AllAny
import Subgov.PolicyScalars
/-!
# PolicyFlow — the reader's JSON against YAML's flow style

A value that starts with a double quote or a bracket is read as JSON.  On the first line of a flow node `json.loads`
goes with the node: each string, each atom and each separator that it takes is one of the node's, so that what it
returns is what the node holds, and the node has no other line.
-/
namespace Subgov

open Python

namespace ReadyBeads

/-! ## Strings -/

theorem hexDigit_eq : Yaml.hexDigit = Json.hexDigit := rfl

theorem hex4_eq {text rest digits δ : List Char} {code value : Nat} (hdigits : digits.length = 4)
    (hvalue : Yaml.ofHex digits = some value) (hinitial : text <+: digits ++ δ)
    (h : Json.hex4 text = some (code, rest)) : code = value ∧ text = digits ++ rest ∧ rest <+: δ := by
  obtain ⟨a, b, c, d, rfl⟩ : ∃ a b c d, digits = [a, b, c, d] := by
    match digits, hdigits with
    | [a, b, c, d], _ => exact ⟨a, b, c, d, rfl⟩
  match text, h, hinitial with
  | x :: y :: z :: w :: tail, h, hinitial =>
    simp only [List.cons_append, List.nil_append, List.cons_prefix_cons] at hinitial
    obtain ⟨rfl, rfl, rfl, rfl, htail⟩ := hinitial
    unfold Json.hex4 at h
    unfold Yaml.ofHex at hvalue
    rw [hexDigit_eq] at hvalue
    cases ha : Json.hexDigit x <;> cases hb : Json.hexDigit y <;> cases hc : Json.hexDigit z <;>
      cases hd : Json.hexDigit w <;>
      simp only [ha, hb, hc, hd, List.mapM_cons, List.mapM_nil, Option.bind_eq_bind, Option.bind_some, Option.bind_none,
        Option.pure_def, Option.map_some, reduceCtorEq, Option.some.injEq, Prod.mk.injEq,
        List.foldl_cons, List.foldl_nil] at h hvalue
    refine ⟨by omega, by rw [h.2]; rfl, h.2 ▸ htail⟩

theorem not_isHighSurrogate (c : Char) : Json.isHighSurrogate c.toNat = false := by
  unfold Json.isHighSurrogate
  rw [Bool.and_eq_false_iff, decide_eq_false_iff_not, decide_eq_false_iff_not]
  rcases c.valid with h | h
  · left
    show ¬ 0xD800 ≤ c.toNat
    have : c.toNat < 0xD800 := h
    omega
  · right
    have : 0xDFFF < c.toNat := h.1
    omega

theorem escape_eq {code text rest δ : List Char} {c : Char} {n : Nat} (h : Yaml.Escape code c)
    (hinitial : text <+: code ++ δ) (hread : Json.escape text = some (n, rest)) :
    n = c.toNat ∧ text = code ++ rest ∧ rest <+: δ := by
  cases text with
  | nil => cases hread
  | cons d text =>
    cases h with
    | @simple letter c hmem =>
      rw [List.singleton_append, List.cons_prefix_cons] at hinitial
      obtain ⟨rfl, hinitial⟩ := hinitial
      simp only [Yaml.escapes, List.mem_cons, List.not_mem_nil, or_false, Prod.mk.injEq] at hmem
      rcases hmem with h | h | h | h | h | h | h | h | h | h | h | h | h | h | h | h | h | h <;>
        obtain ⟨rfl, rfl⟩ := h <;> first
          | cases hread; exact ⟨rfl, rfl, hinitial⟩
          | cases hread
    | @hex letter width digits c hmem hlength hvalue =>
      rw [List.cons_append, List.cons_prefix_cons] at hinitial
      obtain ⟨rfl, hinitial⟩ := hinitial
      simp only [List.mem_cons, List.not_mem_nil, or_false, Prod.mk.injEq] at hmem
      rcases hmem with ⟨rfl, rfl⟩ | ⟨rfl, rfl⟩ | ⟨rfl, rfl⟩
      · cases hread
      · unfold Json.escape at hread
        cases hhex : Json.hex4 text with
        | none =>
          simp [hhex] at hread
        | some found =>
          obtain ⟨code, behind⟩ := found
          obtain ⟨rfl, htext, hbehind⟩ := hex4_eq hlength hvalue hinitial hhex
          simp only [hhex, Option.bind_eq_bind, Option.bind_some, not_isHighSurrogate] at hread
          have hsame : some (c.toNat, behind) = some (n, rest) := by
            split at hread
            · exact hread
            · exact hread
          cases hsame
          exact ⟨rfl, by rw [htext]; rfl, hbehind⟩
      · cases hread

theorem scanString_break {white rest : List Char} (hwhite : Yaml.blank white = true) :
    ∀ {n : Nat} {text : List Char}, text <+: white ++ '\n' :: rest → Json.scanString n text = none
  | 0, _, _ => rfl
  | n + 1, [], _ => rfl
  | n + 1, c :: text, hinitial => by
    cases white with
    | nil =>
      rw [List.nil_append, List.cons_prefix_cons] at hinitial
      obtain ⟨rfl, -⟩ := hinitial
      rfl
    | cons d white =>
      rw [List.cons_append, List.cons_prefix_cons] at hinitial
      obtain ⟨rfl, hinitial⟩ := hinitial
      unfold Yaml.blank at hwhite
      rw [List.all_cons, Bool.and_eq_true] at hwhite
      have hrest := scanString_break hwhite.2 (n := n) hinitial
      have hc := hwhite.1
      unfold Yaml.isWhite at hc
      rw [Bool.or_eq_true, beq_iff_eq, beq_iff_eq] at hc
      unfold Json.scanString
      rcases hc with rfl | rfl
      · rw [hrest]
        rfl
      · rfl

/-- **A JSON string goes with a double-quoted scalar.** -/
theorem scanString_body {body content : List Char} (h : Yaml.DoubleBody body content) :
    ∀ {n : Nat} {text δ rest : List Char} {codes : List Nat}, text <+: body ++ '"' :: δ →
      Json.scanString n text = some (codes, rest) →
      codes = content.map Char.toNat ∧ text = body ++ '"' :: rest ∧ rest <+: δ := by
  induction h with
  | nil =>
    intro n text δ rest codes hinitial hread
    match n, text with
    | 0, _ => cases hread
    | _ + 1, [] => cases hread
    | _ + 1, c :: text =>
      rw [List.nil_append, List.cons_prefix_cons] at hinitial
      obtain ⟨rfl, hinitial⟩ := hinitial
      unfold Json.scanString at hread
      rw [if_pos rfl] at hread
      cases hread
      exact ⟨rfl, rfl, hinitial⟩
  | @char c body content _ hquote hslash _ _ ih =>
    intro n text δ rest codes hinitial hread
    match n, text with
    | 0, _ => cases hread
    | _ + 1, [] => cases hread
    | n + 1, d :: text =>
      rw [List.cons_append, List.cons_prefix_cons] at hinitial
      obtain ⟨rfl, hinitial⟩ := hinitial
      unfold Json.scanString at hread
      rw [if_neg hquote, if_neg hslash] at hread
      split at hread
      · cases hread
      · cases hrest : Json.scanString n text with
        | none => simp [hrest] at hread
        | some found =>
          obtain ⟨codes', rest'⟩ := found
          obtain ⟨rfl, rfl, hbehind⟩ := ih hinitial hrest
          simp only [hrest, Option.bind_eq_bind, Option.bind_some, Option.pure_def, Option.some.injEq,
            Prod.mk.injEq] at hread
          obtain ⟨rfl, rfl⟩ := hread
          exact ⟨rfl, rfl, hbehind⟩
  | @escape code c body content hcode _ ih =>
    intro n text δ rest codes hinitial hread
    match n, text with
    | 0, _ => cases hread
    | _ + 1, [] => cases hread
    | n + 1, d :: text =>
      rw [List.cons_append, List.cons_append, List.cons_prefix_cons, List.append_assoc] at hinitial
      obtain ⟨rfl, hinitial⟩ := hinitial
      unfold Json.scanString at hread
      rw [if_neg (by decide), if_pos rfl] at hread
      cases hescape : Json.escape text with
      | none => simp [hescape] at hread
      | some found =>
        obtain ⟨m, behind⟩ := found
        obtain ⟨rfl, rfl, hbehind⟩ := escape_eq hcode hinitial hescape
        simp only [hescape, Option.bind_eq_bind, Option.bind_some] at hread
        cases hrest : Json.scanString n behind with
        | none => simp [hrest] at hread
        | some found =>
          obtain ⟨codes', rest'⟩ := found
          obtain ⟨rfl, rfl, hbehind'⟩ := ih hbehind hrest
          simp only [hrest, Option.bind_some, Option.pure_def, Option.some.injEq, Prod.mk.injEq] at hread
          obtain ⟨rfl, rfl⟩ := hread
          refine ⟨rfl, ?_, hbehind'⟩
          rw [List.cons_append, List.cons_append, List.append_assoc]
  | @fold before after blanks body content hbefore _ _ _ _ ih =>
    intro n text δ rest codes hinitial hread
    rw [List.append_assoc, List.append_assoc, List.append_assoc, List.cons_append] at hinitial
    rw [scanString_break hbefore hinitial] at hread
    cases hread
  | @join after blanks body content _ _ _ _ ih =>
    intro n text δ rest codes hinitial hread
    match n, text with
    | 0, _ => cases hread
    | _ + 1, [] => cases hread
    | n + 1, [d] =>
      simp only [List.cons_append, List.cons_prefix_cons] at hinitial
      obtain ⟨rfl, -⟩ := hinitial
      cases hread
    | n + 1, d :: e :: text =>
      simp only [List.cons_append, List.cons_prefix_cons] at hinitial
      obtain ⟨rfl, rfl, -⟩ := hinitial
      cases hread

theorem ofCodes_toNat (content : List Char) : Json.ofCodes (content.map Char.toNat) = ofChars content := by
  unfold Json.ofCodes
  have hvalid : (content.map Char.toNat).all Nat.isValidChar = true := by
    rw [List.all_map, List.all_eq_true]
    intro c _
    exact decide_eq_true c.valid
  rw [if_pos hvalid, List.map_map]
  have hsame : Char.ofNat ∘ Char.toNat = id := funext Char.ofNat_toNat
  rw [hsame, List.map_id]
  rfl

theorem scalar_json {x rest : List Char} {c : Char} {v : Value} (hx : strip x = c :: rest) (hc : c = '"' ∨ c = '[')
    (h : scalar x = .ok v) : Json.loads (c :: rest) = .ok v ∨
      ((∀ w, Json.loads (c :: rest) ≠ .ok w) ∧ ∃ items, flowWords (c :: rest) = some items ∧
        v = .list (items.map ofChars)) := by
  unfold scalar at h
  dsimp only at h
  rw [hx, if_pos (by simpa using hc)] at h
  split at h
  · rename_i w words hload
    exact Or.inl (hload.trans h)
  · rename_i e items hload hwords
    cases h
    refine Or.inr ⟨fun w hw => ?_, items, hwords, rfl⟩
    rw [hload] at hw
    cases hw
  · cases h

theorem beforeHash_cons {c : Char} (hc : c ≠ '#') (text : List Char) : beforeHash (c :: text) = c :: beforeHash text :=
  List.takeWhile_cons_of_pos (by simpa using hc)

theorem flowWords_quote (text : List Char) : flowWords ('"' :: text) = none := by
  unfold flowWords
  have hstrip : strip (beforeHash ('"' :: text)) = '"' :: rstrip (beforeHash text) := by
    rw [beforeHash_cons (by decide)]
    exact strip_cons (by decide) _
  dsimp only
  rw [hstrip, if_neg (by simp)]

theorem firstLine_prefix (text : List Char) : Yaml.firstLine text <+: text := List.takeWhile_prefix _

theorem not_mem_firstLine (text : List Char) : '\n' ∉ Yaml.firstLine text := fun hmem => by
  simpa using List.mem_takeWhile_imp hmem

theorem loads_quote {rest : List Char} {v : Value} (h : Json.loads ('"' :: rest) = .ok v) :
    ∃ codes behind, Json.scanString (rest.length + 1) rest = some (codes, behind) ∧ v = Json.ofCodes codes := by
  obtain ⟨behind, hparse⟩ := Json.loads_cases h
  have hskip : Json.skipWhite ('"' :: rest) = '"' :: rest := List.dropWhile_cons_of_neg (by decide)
  rw [hskip, Json.parseValue_string, Option.map_eq_some_iff] at hparse
  obtain ⟨found, hscan, hfound⟩ := hparse
  cases hfound
  exact ⟨found.1, found.2, hscan, rfl⟩

/-- **A double-quoted scalar is read as it is meant.** -/
theorem scalar_double {white body content trail : List Char} {v : Value} (hwhite : Yaml.blank white = true)
    (hbody : Yaml.DoubleBody body content) (h : scalar (valueLine white ('"' :: body ++ ['"']) trail) = .ok v) :
    '\n' ∉ '"' :: body ++ ['"'] ∧ v = ofChars content := by
  have htext : '"' :: body ++ ['"'] = '"' :: (body ++ ['"']) := rfl
  have hstrip : strip (valueLine white ('"' :: body ++ ['"']) trail) =
      '"' :: rstrip (Yaml.firstLine (body ++ ['"'] ++ trail)) := strip_valueLine hwhite htext (by decide) trail
  rcases scalar_json hstrip (Or.inl rfl) h with hload | ⟨-, items, hwords, -⟩
  · have hinitial : rstrip (Yaml.firstLine (body ++ ['"'] ++ trail)) <+: body ++ '"' :: trail := by
      have hfirst := firstLine_prefix (body ++ ['"'] ++ trail)
      rw [List.append_assoc] at hfirst ⊢
      exact (rstrip_initial _).trans hfirst
    obtain ⟨codes, rest, hscan, rfl⟩ := loads_quote hload
    obtain ⟨rfl, hsplit, -⟩ := scanString_body hbody hinitial hscan
    refine ⟨fun hmem => ?_, ofCodes_toNat content⟩
    have hbreak : '\n' ∈ body := by simpa using hmem
    refine not_mem_firstLine (body ++ ['"'] ++ trail) ((rstrip_initial _).subset ?_)
    rw [hsplit]
    exact List.mem_append_left _ hbreak
  · rw [flowWords_quote] at hwords
    cases hwords

/-! ## Separations -/

/-- White space of JSON goes with a separation up to its first comment. -/
theorem skipWhite_separation {sep : List Char} (h : Yaml.Separation sep) :
    ∀ {text behind : List Char}, text <+: sep ++ behind → Json.skipWhite text = [] ∨
      (Json.skipWhite text).head? = some '#' ∨
      ∃ rest, text = sep ++ rest ∧ rest <+: behind ∧ Json.skipWhite text = Json.skipWhite rest := by
  have hjson : ∀ c, Yaml.isWhite c = true ∨ c = '\n' → Json.isWhite c = true := by
    rintro c (hc | rfl)
    · unfold Yaml.isWhite at hc
      rw [Bool.or_eq_true, beq_iff_eq, beq_iff_eq] at hc
      rcases hc with rfl | rfl <;> rfl
    · rfl
  induction h with
  | nil => exact fun {text behind} hinitial => Or.inr (Or.inr ⟨text, rfl, hinitial, rfl⟩)
  | @space c sep hc _ ih =>
    intro text behind hinitial
    cases text with
    | nil => exact Or.inl rfl
    | cons d text =>
      rw [List.cons_append, List.cons_prefix_cons] at hinitial
      obtain ⟨rfl, hinitial⟩ := hinitial
      have hskip : Json.skipWhite (d :: text) = Json.skipWhite text := List.dropWhile_cons_of_pos (hjson d hc)
      rw [hskip]
      rcases ih hinitial with hnil | hhash | ⟨rest, rfl, hrest, hsame⟩
      · exact Or.inl hnil
      · exact Or.inr (Or.inl hhash)
      · exact Or.inr (Or.inr ⟨rest, rfl, hrest, hsame⟩)
  | @comment c comment sep hc _ _ ih =>
    intro text behind hinitial
    match text with
    | [] => exact Or.inl rfl
    | [d] =>
      simp only [List.cons_append, List.cons_prefix_cons] at hinitial
      obtain ⟨rfl, -⟩ := hinitial
      exact Or.inl (List.dropWhile_cons_of_pos (hjson d hc))
    | d :: e :: text =>
      simp only [List.cons_append, List.cons_prefix_cons] at hinitial
      obtain ⟨rfl, rfl, -⟩ := hinitial
      refine Or.inr (Or.inl ?_)
      unfold Json.skipWhite
      rw [List.dropWhile_cons_of_pos (hjson d hc), List.dropWhile_cons_of_neg (by decide)]
      rfl

/-! ## Atoms -/

theorem scanInteger_cases {text digits rest : List Char} (h : Json.scanInteger text = some (digits, rest)) :
    text = digits ++ rest ∧ digits ≠ [] ∧ ∀ c ∈ digits, Yaml.isDigit c = true := by
  cases text with
  | nil => cases h
  | cons c text =>
    rw [Json.scanInteger] at h
    by_cases hzero : c = '0'
    · rw [if_pos hzero] at h
      cases h
      refine ⟨by rw [hzero]; rfl, by simp, fun d hd => ?_⟩
      rw [List.mem_singleton.1 hd]
      rfl
    · rw [if_neg hzero] at h
      by_cases hdigit : Json.isAsciiDigit c = true
      · rw [if_pos hdigit, Option.some.injEq, Prod.mk.injEq] at h
        obtain ⟨rfl, rfl⟩ := h
        refine ⟨List.takeWhile_append_dropWhile.symm, ?_, fun d hd => List.mem_takeWhile_imp hd⟩
        rw [List.takeWhile_cons_of_pos hdigit]
        exact List.cons_ne_nil _ _
      · rw [if_neg hdigit] at h
        cases h

theorem scanFraction_none {text rest : List Char} (h : Json.scanFraction text = (none, rest)) : rest = text := by
  unfold Json.scanFraction at h
  split at h
  · split at h
    · exact (Prod.mk.inj h).2.symm
    · cases (Prod.mk.inj h).1
  · exact (Prod.mk.inj h).2.symm

theorem scanExponent_none {text rest : List Char} (h : Json.scanExponent text = (none, rest)) : rest = text := by
  cases text with
  | nil => exact (Prod.mk.inj h).2.symm
  | cons c text =>
    unfold Json.scanExponent at h
    dsimp only at h
    split at h
    · split at h
      · exact (Prod.mk.inj h).2.symm
      · cases (Prod.mk.inj h).1
    · exact (Prod.mk.inj h).2.symm

/-- A number that is no float is an integer with its sign. -/
theorem scanNumber_cases {text rest : List Char} {v : Value} (h : Json.scanNumber text = some (v, rest)) :
    (∃ x, v = .float x) ∨ ∃ digits, digits ≠ [] ∧ (∀ c ∈ digits, Yaml.isDigit c = true) ∧
      ((text = digits ++ rest ∧ v = .int (Yaml.ofDigits digits)) ∨
        (text = '-' :: (digits ++ rest) ∧ v = .int (-(Yaml.ofDigits digits : Int)))) := by
  unfold Json.scanNumber at h
  split at h
  rename_i negative body hsign
  have htext : (negative = true ∧ text = '-' :: body) ∨ (negative = false ∧ text = body) := by
    split at hsign
    · obtain ⟨rfl, rfl⟩ := Prod.mk.inj hsign
      exact Or.inl ⟨rfl, rfl⟩
    · obtain ⟨rfl, rfl⟩ := Prod.mk.inj hsign
      exact Or.inr ⟨rfl, rfl⟩
  cases hinteger : Json.scanInteger body with
  | none =>
    rw [hinteger] at h
    cases h
  | some found =>
    obtain ⟨digits, behind⟩ := found
    obtain ⟨hbody, hne, hdigits⟩ := scanInteger_cases hinteger
    rw [hinteger] at h
    simp only [Option.bind_eq_bind, Option.bind_some, Option.pure_def] at h
    cases hfraction : Json.scanFraction behind with
    | mk fraction behind₁ =>
      cases hexponent : Json.scanExponent behind₁ with
      | mk exponent behind₂ =>
        rw [hfraction] at h
        dsimp only at h
        rw [hexponent] at h
        dsimp only at h
        split at h
        · split at h
          · cases h
          rw [Option.some.injEq, Prod.mk.injEq] at h
          obtain ⟨rfl, rfl⟩ := h
          rw [scanFraction_none hfraction] at hexponent
          rw [scanExponent_none hexponent]
          refine Or.inr ⟨digits, hne, hdigits, ?_⟩
          rcases htext with ⟨rfl, rfl⟩ | ⟨rfl, rfl⟩
          · exact Or.inr ⟨by rw [hbody], rfl⟩
          · exact Or.inl ⟨hbody, rfl⟩
        · rw [Option.some.injEq, Prod.mk.injEq] at h
          exact Or.inl ⟨_, h.1.symm⟩

theorem resolvePlain_negative {digits : List Char} (hne : digits ≠ []) (h : ∀ c ∈ digits, Yaml.isDigit c = true) :
    Yaml.resolvePlain ('-' :: digits) = .int (-(Yaml.ofDigits digits : Int)) := by
  have hwords : ∀ words ∈ [Yaml.nullWords, Yaml.trueWords, Yaml.falseWords],
      words.contains (String.ofList ('-' :: digits)) = false := fun words hwords =>
    not_contains (p := fun text => text.head? = some '-') (by revert words; decide) rfl
  have hdecimal : Yaml.decimal ('-' :: digits) = some (-(Yaml.ofDigits digits : Int)) := by
    rw [Yaml.decimal, if_pos]
    refine ⟨rfl, ?_⟩
    unfold Yaml.isDigits
    rw [Bool.and_eq_true, Bool.not_eq_true', List.isEmpty_eq_false_iff]
    exact ⟨hne, List.all_eq_true.2 h⟩
  unfold Yaml.resolvePlain
  dsimp only
  rw [hwords Yaml.nullWords (by simp), hwords Yaml.trueWords (by simp), hwords Yaml.falseWords (by simp), hdecimal]
  rfl

/-- A character that ends no atom. -/
def Solid (c : Char) : Prop := Yaml.isWhite c = false ∧ c ≠ '\n' ∧ c ≠ ',' ∧ c ≠ ']'

instance (c : Char) : Decidable (Solid c) := inferInstanceAs (Decidable (_ ∧ _))

theorem solid_digit {c : Char} (h : Yaml.isDigit c = true) : Solid c := by
  refine ⟨?_, ?_, ?_, ?_⟩
  · rw [Bool.eq_false_iff]
    intro hwhite
    unfold Yaml.isWhite at hwhite
    rw [Bool.or_eq_true, beq_iff_eq, beq_iff_eq] at hwhite
    rcases hwhite with rfl | rfl <;> cases h
  all_goals
    rintro rfl
    cases h

/-- An atom that is no float is what the core schema makes of it. -/
theorem scanAtom_cases {text rest : List Char} {v : Value} (h : Json.scanAtom text = some (v, rest)) :
    (∃ x, v = .float x) ∨ ∃ atom, text = atom ++ rest ∧ atom ≠ [] ∧ (∀ c ∈ atom, Solid c) ∧
      v = resolvedValue (Yaml.resolvePlain atom) := by
  unfold Json.scanAtom at h
  split at h
  · rename_i word value hfind
    have hmem := List.mem_of_find?_eq_some hfind
    have hinitial := List.find?_some hfind
    rw [List.isPrefixOf_iff_prefix] at hinitial
    obtain ⟨tail, rfl⟩ := hinitial
    rw [Option.some.injEq, Prod.mk.injEq] at h
    obtain ⟨rfl, rfl⟩ := h
    rw [List.drop_left]
    simp only [Json.constants, List.mem_cons, List.not_mem_nil, or_false, Prod.mk.injEq] at hmem
    rcases hmem with ⟨rfl, rfl⟩ | ⟨rfl, rfl⟩ | ⟨rfl, rfl⟩ | ⟨rfl, rfl⟩ | ⟨rfl, rfl⟩ | ⟨rfl, rfl⟩
    · exact Or.inr ⟨_, rfl, by decide, List.all_iff_forall_prop.1 (by decide), rfl⟩
    · exact Or.inr ⟨_, rfl, by decide, List.all_iff_forall_prop.1 (by decide), rfl⟩
    · exact Or.inr ⟨_, rfl, by decide, List.all_iff_forall_prop.1 (by decide), rfl⟩
    all_goals exact Or.inl ⟨_, rfl⟩
  · rcases scanNumber_cases h with hfloat | ⟨digits, hne, hdigits, ⟨rfl, rfl⟩ | ⟨rfl, rfl⟩⟩
    · exact Or.inl hfloat
    · exact Or.inr ⟨digits, rfl, hne, fun c hc => solid_digit (hdigits c hc),
        by rw [resolvePlain_digits hne hdigits]; rfl⟩
    · refine Or.inr ⟨'-' :: digits, rfl, by simp, fun c hc => ?_, by rw [resolvePlain_negative hne hdigits]; rfl⟩
      rcases List.mem_cons.1 hc with rfl | hc
      · decide
      · exact solid_digit (hdigits c hc)

/-! ## Items -/

/-- A character that may stand behind a node of a sequence. -/
def Ends (behind : List Char) : Prop := ∀ c, behind.head? = some c → ¬ Solid c

theorem not_json_white {c : Char} (h : Yaml.isNonSpace c = true) : Json.isWhite c = false := by
  rw [Bool.eq_false_iff]
  intro hwhite
  unfold Json.isWhite at hwhite
  simp only [Bool.or_eq_true, beq_iff_eq] at hwhite
  rcases hwhite with ((rfl | rfl) | rfl) | rfl <;> cases h

/-- Where a mark is next, what is left of a plain scalar is white space, so nothing is. -/
theorem plain_consumed {text atom rest behind : List Char} {mark : Char} (hplain : Yaml.PlainText true text)
    (hmark : mark = ',' ∨ mark = ']') (hrest : (Json.skipWhite rest).head? = some mark) (hatom : ∀ c ∈ atom, Solid c)
    (hbehind : Ends behind) (hinitial : atom ++ rest <+: text ++ behind) : text = atom ∧ rest <+: behind := by
  obtain ⟨tail, htail⟩ := hinitial
  have hsplit : text ++ behind = atom ++ (rest ++ tail) := by rw [← htail, List.append_assoc]
  rcases List.append_eq_append_iff.1 hsplit with ⟨more, hlong, hmore⟩ | ⟨left, htext, hleft⟩
  · -- the atom would take the character behind the scalar
    cases more with
    | nil =>
      rw [List.append_nil] at hlong
      rw [List.nil_append] at hmore
      exact ⟨hlong.symm, ⟨tail, hmore.symm⟩⟩
    | cons c more =>
      refine absurd (hatom c (by rw [hlong]; simp)) (hbehind c ?_)
      rw [hmore]
      rfl
  · cases left with
    | nil =>
      rw [List.append_nil] at htext
      rw [List.nil_append] at hleft
      exact ⟨htext, ⟨tail, hleft⟩⟩
    | cons c left =>
      exfalso
      have hno : mark ∉ c :: left := fun hmem => by
        have hchar := Yaml.plainChars_mem hplain.chars (c := mark) (by rw [htext]; exact List.mem_append_right _ hmem)
        rcases hmark with rfl | rfl <;> rcases hchar with h | h | h <;> cases h
      obtain ⟨d, hd⟩ : ∃ d, (c :: left).getLast? = some d := ⟨_, List.getLast?_eq_some_getLast (by simp)⟩
      have hdspace : Yaml.isNonSpace d = true := by
        have hlast := hplain.last
        rw [htext, List.getLast?_append, hd] at hlast
        exact hlast
      -- the mark is behind all of it
      have hrestSplit : rest = rest.takeWhile Json.isWhite ++ mark :: (Json.skipWhite rest).tail := by
        rw [← List.eq_cons_of_mem_head? hrest]
        exact List.takeWhile_append_dropWhile.symm
      rw [hrestSplit, List.append_assoc, List.cons_append] at hleft
      have hwhite : d ∈ rest.takeWhile Json.isWhite := by
        rcases List.append_eq_append_iff.1 hleft with ⟨gap, hgap, hbig⟩ | ⟨gap, hgap, -⟩
        · cases gap with
          | nil =>
            rw [List.append_nil] at hgap
            exact hgap ▸ List.mem_of_getLast? hd
          | cons e gap =>
            rw [List.cons_append, List.cons.injEq] at hbig
            refine absurd ?_ hno
            rw [hgap, hbig.1]
            simp
        · rw [hgap]
          exact List.mem_append_left _ (List.mem_of_getLast? hd)
      have := List.mem_takeWhile_imp hwhite
      rw [not_json_white hdspace] at this
      cases this

theorem parseValue_nil (n : Nat) : Json.parseValue n [] = none := by
  cases n with
  | zero => rfl
  | succ n => rfl

/-- **A JSON value goes with a scalar of a sequence.** -/
theorem parseValue_scalar {text behind σ rest : List Char} {n : Nat} {s : Yaml.Scalar} {v : Value} {mark : Char}
    (hflow : Yaml.Flow (.node true) text (.scalar s)) (hinitial : σ <+: text ++ behind) (hbehind : Ends behind)
    (hmark : mark = ',' ∨ mark = ']') (hrest : (Json.skipWhite rest).head? = some mark)
    (hread : Json.parseValue n σ = some (v, rest)) (hfloat : ∀ x, v ≠ .float x) :
    v = resolvedValue s.resolve ∧ σ = text ++ rest ∧ rest <+: behind := by
  cases σ with
  | nil =>
    rw [parseValue_nil] at hread
    cases hread
  | cons c σ =>
    cases n with
    | zero => cases hread
    | succ n =>
      rcases hflow.node_cases with ⟨hplain, hs⟩ | ⟨body, content, rfl, hbody, hs⟩ | ⟨body, content, rfl, -⟩ |
        ⟨rest, items, -, hs⟩ | ⟨rest, entries, -, hs⟩
      · have hc : c ≠ '"' ∧ c ≠ '[' ∧ c ≠ '\x7b' := by
          have hfirst := hplain.first
          cases text with
          | nil => cases hfirst
          | cons d text =>
            rw [List.cons_append, List.cons_prefix_cons] at hinitial
            obtain ⟨rfl, -⟩ := hinitial
            refine ⟨?_, ?_, ?_⟩ <;>
              · rintro rfl
                cases hfirst
        rw [Json.parseValue_atom n hc] at hread
        rcases scanAtom_cases hread with ⟨x, hx⟩ | ⟨atom, hsplit, -, hsolid, hv⟩
        · exact absurd hx (hfloat x)
        · rw [hsplit] at hinitial ⊢
          obtain ⟨rfl, hleft⟩ := plain_consumed hplain hmark hrest hsolid hbehind hinitial
          cases hs
          refine ⟨?_, rfl, hleft⟩
          show v = resolvedValue (Yaml.resolvePlain (Yaml.foldBreaks text))
          rw [foldBreaks_single fun hmem => (hsolid _ hmem).2.1 rfl, hv]
      · rw [List.cons_append, List.cons_append, List.cons_prefix_cons, List.append_assoc] at hinitial
        obtain ⟨rfl, hinitial⟩ := hinitial
        rw [Json.parseValue_string, Option.map_eq_some_iff] at hread
        obtain ⟨⟨codes, left⟩, hscan, hfound⟩ := hread
        obtain ⟨rfl, hsplit, hleft⟩ := scanString_body hbody hinitial hscan
        cases hfound
        cases hs
        exact ⟨ofCodes_toNat content, by rw [hsplit]; simp, hleft⟩
      · rw [List.cons_append, List.cons_append, List.cons_prefix_cons] at hinitial
        obtain ⟨rfl, -⟩ := hinitial
        cases hread
      · cases hs
      · cases hs

theorem parseValue_mark {c : Char} (hc : c = '#' ∨ c = ']') (n : Nat) (rest : List Char) :
    Json.parseValue n (c :: rest) = none := by
  cases n with
  | zero => rfl
  | succ n => rcases hc with rfl | rfl <;> rfl

theorem parseValue_starts {n : Nat} {text rest : List Char} {v : Value} (h : Json.parseValue n text = some (v, rest)) :
    text ≠ [] ∧ text.head? ≠ some '#' := by
  constructor
  · rintro rfl
    rw [parseValue_nil] at h
    cases h
  · intro hhash
    rw [List.eq_cons_of_mem_head? hhash, parseValue_mark (Or.inl rfl)] at h
    cases h

theorem separation_head {sep behind : List Char} {c : Char} (h : Yaml.Separation sep) (hne : sep ≠ [])
    (hc : (sep ++ behind).head? = some c) : ¬ Solid c := by
  cases h with
  | nil => exact absurd rfl hne
  | space hwhite =>
    cases hc
    rintro ⟨hno, hbreak, -⟩
    rcases hwhite with hwhite | rfl
    · rw [hno] at hwhite
      cases hwhite
    · exact hbreak rfl
  | comment hwhite =>
    cases hc
    rintro ⟨hno, hbreak, -⟩
    rcases hwhite with hwhite | rfl
    · rw [hno] at hwhite
      cases hwhite
    · exact hbreak rfl

theorem ends_separation {sep behind : List Char} (h : Yaml.Separation sep) (hbehind : Ends behind) :
    Ends (sep ++ behind) := by
  by_cases hne : sep = []
  · rw [hne]
    exact hbehind
  · exact fun c hc => separation_head h hne hc

/-- What stands in a collection behind an item. -/
def behindItem (others : List Yaml.FlowItem) (comma : Bool) (close : List Char) : List Char :=
  match others with
  | [] => if comma then ',' :: close else close
  | _ => ',' :: Yaml.itemsText others comma close

theorem itemsText_cons (item : Yaml.FlowItem) (others : List Yaml.FlowItem) (comma : Bool) (close : List Char) :
    Yaml.itemsText (item :: others) comma close =
      item.before ++ (item.text ++ (item.after ++ behindItem others comma close)) := by
  cases others with
  | nil =>
    unfold Yaml.itemsText behindItem Yaml.FlowItem.all
    simp only [List.append_assoc]
  | cons other others =>
    conv_lhs => unfold Yaml.itemsText
    unfold behindItem Yaml.FlowItem.all
    simp only [List.append_assoc]

/-- The items of a sequence of scalars. -/
structure ScalarItem (item : Yaml.FlowItem) : Prop where
  before : Yaml.Separation item.before
  after : Yaml.Separation item.after
  exists_scalar : ∃ s, item.node = .scalar s ∧ Yaml.Flow (.node true) item.text (.scalar s)

theorem ScalarItem.head {item : Yaml.FlowItem} (h : ScalarItem item) :
    ∃ c rest, item.text = c :: rest ∧ Yaml.isNonSpace c = true ∧ c ≠ '#' ∧ c ≠ ']' := by
  obtain ⟨s, -, hflow⟩ := h.exists_scalar
  obtain ⟨c, rest, htext, hspace, hhash, -⟩ := hflow.starts.exists_first
  refine ⟨c, rest, htext, hspace, hhash, ?_⟩
  rintro rfl
  rcases hflow.node_cases with ⟨hplain, -⟩ | ⟨body, content, hquote, -⟩ | ⟨body, content, hquote, -⟩ |
    ⟨rest, items, -, hs⟩ | ⟨rest, entries, -, hs⟩
  · have hfirst := hplain.first
    rw [htext] at hfirst
    cases hfirst
  · rw [htext] at hquote
    cases hquote
  · rw [htext] at hquote
    cases hquote
  · cases hs
  · cases hs

theorem skipWhite_nonSpace {c : Char} (h : Yaml.isNonSpace c = true) (rest : List Char) :
    Json.skipWhite (c :: rest) = c :: rest :=
  List.dropWhile_cons_of_neg (by rw [not_json_white h]; exact Bool.false_ne_true)

/-- Where an item of a collection starts, on a line that is read. -/
theorem ScalarItem.start {item : Yaml.FlowItem} (h : ScalarItem item) {σ behind : List Char}
    (hinitial : σ <+: item.before ++ (item.text ++ behind)) : Json.skipWhite σ = [] ∨
      (Json.skipWhite σ).head? = some '#' ∨
      ∃ c rest, σ = item.before ++ c :: rest ∧ c :: rest <+: item.text ++ behind ∧ Json.skipWhite σ = c :: rest ∧
        c ≠ ']' := by
  rcases skipWhite_separation h.before hinitial with hnil | hhash | ⟨ρ, rfl, hρ, hsame⟩
  · exact Or.inl hnil
  · exact Or.inr (Or.inl hhash)
  · obtain ⟨c, text, htext, hspace, -, hbracket⟩ := h.head
    cases ρ with
    | nil => exact Or.inl hsame
    | cons d ρ =>
      have hd : d = c := by
        rw [htext, List.cons_append, List.cons_prefix_cons] at hρ
        exact hρ.1
      subst hd
      exact Or.inr (Or.inr ⟨d, ρ, rfl, hρ, hsame.trans (skipWhite_nonSpace hspace ρ), hbracket⟩)

theorem parseItems_close {close σ δ : List Char} {n : Nat} (hclose : Yaml.Separation close)
    (hinitial : σ <+: close ++ ']' :: δ) : Json.parseItems n (Json.skipWhite σ) = none := by
  cases n with
  | zero => rfl
  | succ n =>
    rw [Option.eq_none_iff_forall_not_mem]
    rintro ⟨values, rest⟩ hread
    obtain ⟨item, behind, hvalue, -⟩ := Json.parseItems_cases hread
    rcases skipWhite_separation hclose hinitial with hnil | hhash | ⟨ρ, rfl, hρ, hsame⟩
    · exact ((parseValue_starts hvalue).1 hnil).elim
    · exact ((parseValue_starts hvalue).2 hhash).elim
    · cases ρ with
      | nil =>
        rw [hsame, show Json.skipWhite [] = [] from rfl, parseValue_nil] at hvalue
        cases hvalue
      | cons c ρ =>
        rw [List.cons_prefix_cons] at hρ
        obtain ⟨rfl, -⟩ := hρ
        rw [hsame, skipWhite_nonSpace (by decide), parseValue_mark (Or.inr rfl)] at hvalue
        cases hvalue

/-- Where the mark that JSON takes behind an item stands. -/
theorem behindItem_mark {others : List Yaml.FlowItem} {comma : Bool} {close σ δ more : List Char} {mark : Char}
    (hclose : Yaml.Separation close) (hinitial : σ <+: behindItem others comma close ++ ']' :: δ)
    (hmark : Json.skipWhite σ = mark :: more) (hmark' : mark = ',' ∨ mark = ']') :
    (mark = ']' ∧ others = [] ∧ σ = behindItem others comma close ++ ']' :: more ∧ more <+: δ) ∨
      (mark = ',' ∧ ∃ text, behindItem others comma close = ',' :: text ∧ σ = ',' :: more ∧ more <+: text ++ ']' :: δ ∧
        (others = [] → text = close) ∧ (others ≠ [] → text = Yaml.itemsText others comma close)) := by
  have hcomma : ∀ text, behindItem others comma close = ',' :: text →
      mark = ',' ∧ σ = ',' :: more ∧ more <+: text ++ ']' :: δ := by
    intro text htext
    rw [htext] at hinitial
    cases σ with
    | nil => cases hmark
    | cons c σ =>
      rw [List.cons_append, List.cons_prefix_cons] at hinitial
      obtain ⟨rfl, hinitial⟩ := hinitial
      rw [skipWhite_nonSpace (by decide), List.cons.injEq] at hmark
      obtain ⟨rfl, rfl⟩ := hmark
      exact ⟨rfl, rfl, hinitial⟩
  cases others with
  | cons other others =>
    obtain ⟨hm, hσ, hmore⟩ := hcomma _ rfl
    exact Or.inr ⟨hm, _, rfl, hσ, hmore, fun h => (List.cons_ne_nil _ _ h).elim, fun _ => rfl⟩
  | nil =>
    cases comma with
    | true =>
      obtain ⟨hm, hσ, hmore⟩ := hcomma _ rfl
      exact Or.inr ⟨hm, _, rfl, hσ, hmore, fun _ => rfl, fun h => absurd rfl h⟩
    | false =>
      left
      rcases skipWhite_separation hclose hinitial with hnil | hhash | ⟨ρ, rfl, hρ, hsame⟩
      · rw [hnil] at hmark
        cases hmark
      · rw [hmark, List.head?_cons, Option.some.injEq] at hhash
        rcases hmark' with rfl | rfl <;> cases hhash
      · cases ρ with
        | nil =>
          rw [hsame] at hmark
          cases hmark
        | cons c ρ =>
          rw [List.cons_prefix_cons] at hρ
          obtain ⟨rfl, hρ⟩ := hρ
          rw [hsame, skipWhite_nonSpace (by decide), List.cons.injEq] at hmark
          obtain ⟨rfl, rfl⟩ := hmark
          exact ⟨rfl, rfl, rfl, hρ⟩

theorem ends_behindItem (others : List Yaml.FlowItem) (comma : Bool) {close : List Char} (δ : List Char)
    (hclose : Yaml.Separation close) : Ends (behindItem others comma close ++ ']' :: δ) := by
  cases others with
  | cons other others =>
    rintro c hc ⟨-, -, hno, -⟩
    cases hc
    exact hno rfl
  | nil =>
    cases comma with
    | true =>
      rintro c hc ⟨-, -, hno, -⟩
      cases hc
      exact hno rfl
    | false =>
      refine ends_separation hclose ?_
      rintro c hc ⟨-, -, -, hno⟩
      cases hc
      exact hno rfl

/-- **A JSON array goes with a sequence of scalars.** -/
theorem parseItems_items {close δ : List Char} {comma : Bool} (hclose : Yaml.Separation close) :
    ∀ {items : List Yaml.FlowItem}, items ≠ [] → (∀ item ∈ items, ScalarItem item) →
      ∀ {n : Nat} {σ rest : List Char} {values : List Value}, σ <+: Yaml.itemsText items comma close ++ ']' :: δ →
        Json.parseItems n (Json.skipWhite σ) = some (values, rest) → (∀ v ∈ values, ∀ x, v ≠ .float x) →
        (items.map (·.node)).mapM scalarValue = some values ∧
          σ = Yaml.itemsText items comma close ++ ']' :: rest ∧ rest <+: δ
  | [], hne, _, _, _, _, _, _, _, _ => absurd rfl hne
  | item :: others, _, hitems, 0, _, _, _, _, hread, _ => by cases hread
  | item :: others, _, hitems, n + 1, σ, rest, values, hinitial, hread, hfloat => by
    obtain ⟨v, behind, hvalue, hnext⟩ := Json.parseItems_cases hread
    have hitem := hitems item List.mem_cons_self
    obtain ⟨s, hnode, hflow⟩ := hitem.exists_scalar
    obtain ⟨mark, hmark, hmark', hmem⟩ : ∃ mark, (Json.skipWhite behind).head? = some mark ∧
        (mark = ',' ∨ mark = ']') ∧ v ∈ values := by
      rcases hnext with ⟨hend, rfl⟩ | ⟨more, others', hend, -, rfl⟩
      · exact ⟨']', by rw [hend]; rfl, Or.inr rfl, List.mem_cons_self⟩
      · exact ⟨',', by rw [hend]; rfl, Or.inl rfl, List.mem_cons_self⟩
    rw [itemsText_cons] at hinitial
    simp only [List.append_assoc] at hinitial
    rcases hitem.start hinitial with hnil | hhash | ⟨c, ρ, rfl, hρ, hskip, -⟩
    · exact ((parseValue_starts hvalue).1 hnil).elim
    · exact ((parseValue_starts hvalue).2 hhash).elim
    rw [hskip] at hvalue
    obtain ⟨hv, hsplit, hbehind⟩ := parseValue_scalar hflow hρ
      (ends_separation hitem.after (ends_behindItem others comma δ hclose)) hmark' hmark hvalue (hfloat v hmem)
    have hhead : scalarValue item.node = some v := by
      rw [hnode, hv]
      rfl
    -- the mark is the item's own
    rcases skipWhite_separation hitem.after hbehind with hnil | hhash | ⟨τ, rfl, hτ, hsame⟩
    · rw [hnil] at hmark
      cases hmark
    · rw [hhash, Option.some.injEq] at hmark
      rcases hmark' with rfl | rfl <;> cases hmark
    rw [hsame] at hnext
    rcases hnext with ⟨hend, rfl⟩ | ⟨values', more, hend, hmore, rfl⟩
    · rcases behindItem_mark hclose hτ hend (Or.inr rfl) with ⟨-, rfl, hτ', hrest⟩ | ⟨hno, -⟩
      · refine ⟨by simp [hhead], ?_, hrest⟩
        rw [itemsText_cons, hsplit, hτ']
        simp only [List.append_assoc]
      · cases hno
    · rcases behindItem_mark hclose hτ hend (Or.inl rfl) with ⟨hno, -⟩ | ⟨-, text, htext, rfl, hmore', hlast, hothers⟩
      · cases hno
      · by_cases hnone : others = []
        · rw [hlast hnone] at hmore'
          rw [parseItems_close hclose hmore'] at hmore
          cases hmore
        · rw [hothers hnone] at hmore'
          obtain ⟨hvalues, hmore'', hrest⟩ := parseItems_items hclose hnone
            (fun other hother => hitems other (List.mem_cons_of_mem item hother)) hmore' hmore
            fun w hw => hfloat w (List.mem_cons_of_mem v hw)
          refine ⟨?_, ?_, hrest⟩
          · rw [List.map_cons, List.mapM_cons, hhead, hvalues]
            rfl
          · rw [itemsText_cons, hsplit, htext, hothers hnone, hmore'']
            simp only [List.append_assoc, List.cons_append]

/-! ## Words -/

/-- A character that a list of words may hold: no bracket, no quote, no hash and no break. -/
def Wordy (c : Char) : Prop := c ≠ ']' ∧ c ≠ '"' ∧ c ≠ '\'' ∧ c ≠ '#' ∧ c ≠ '\n'

/-- No bracket stands in a text before a quote, a hash or a break. -/
def Unclosed (text : List Char) : Prop := ∀ a t, text = a ++ ']' :: t → ¬ ∀ c ∈ a, Wordy c

/-- Where a list of words goes with a text that closes no bracket, all of the text is in the list. -/
theorem Unclosed.in_words {text words z behind : List Char} (h : Unclosed text) (hwords : ∀ c ∈ words, Wordy c)
    (hsplit : words ++ ']' :: z = text ++ behind) :
    ∃ rest, words = text ++ rest ∧ rest ++ ']' :: z = behind := by
  rcases List.append_eq_append_iff.1 hsplit with ⟨more, htext, hmore⟩ | ⟨rest, hrest, hbehind⟩
  · cases more with
    | nil =>
      rw [List.append_nil] at htext
      exact ⟨[], by rw [htext, List.append_nil], hmore⟩
    | cons c more =>
      rw [List.cons_append, List.cons.injEq] at hmore
      rw [← hmore.1] at htext
      exact absurd hwords (h words more htext)
  · exact ⟨rest, hrest, hbehind.symm⟩

theorem unclosed_separation {sep : List Char} (h : Yaml.Separation sep) : Unclosed sep := by
  induction h with
  | nil =>
    intro a t hsplit
    cases a <;> cases hsplit
  | @space c sep hc _ ih =>
    intro a t hsplit hall
    cases a with
    | nil =>
      cases hsplit
      rcases hc with hc | hc <;> cases hc
    | cons d a =>
      rw [List.cons_append, List.cons.injEq] at hsplit
      exact ih a t hsplit.2 fun e he => hall e (List.mem_cons_of_mem d he)
  | @comment c comment sep hc _ _ _ =>
    intro a t hsplit hall
    match a with
    | [] =>
      cases hsplit
      rcases hc with hc | hc <;> cases hc
    | [d] => cases hsplit
    | d :: e :: a =>
      simp only [List.cons_append, List.cons.injEq] at hsplit
      exact (hall e (by simp)).2.2.2.1 hsplit.2.1.symm

theorem not_mem_plain {text : List Char} (h : Yaml.PlainText true text) {c : Char}
    (hc : Yaml.isWhite c = false ∧ c ≠ '\n' ∧ Yaml.plainSafe true c = false) : c ∉ text := fun hmem => by
  rcases Yaml.plainChars_mem h.chars hmem with hwhite | hbreak | hsafe
  · rw [hc.1] at hwhite
    cases hwhite
  · exact hc.2.1 hbreak
  · rw [hc.2.2] at hsafe
    cases hsafe

theorem ScalarItem.unclosed {item : Yaml.FlowItem} (h : ScalarItem item) : Unclosed item.text := by
  obtain ⟨s, -, hflow⟩ := h.exists_scalar
  rcases hflow.node_cases with ⟨hplain, -⟩ | ⟨body, content, htext, -⟩ | ⟨body, content, htext, -⟩ |
    ⟨rest, items, -, hs⟩ | ⟨rest, entries, -, hs⟩
  · intro a t hsplit
    exact absurd (by rw [hsplit]; simp) (not_mem_plain hplain (c := ']') (by decide))
  · rw [htext]
    intro a t hsplit hall
    cases a with
    | nil => cases hsplit
    | cons d a =>
      simp only [List.cons_append, List.cons.injEq] at hsplit
      exact (hall d List.mem_cons_self).2.1 hsplit.1.symm
  · rw [htext]
    intro a t hsplit hall
    cases a with
    | nil => cases hsplit
    | cons d a =>
      simp only [List.cons_append, List.cons.injEq] at hsplit
      exact (hall d List.mem_cons_self).2.2.1 hsplit.1.symm
  · cases hs
  · cases hs

/-- An item that is written as a plain word on one line. -/
structure WordItem (item : Yaml.FlowItem) : Prop where
  before : ∀ c ∈ item.before, isSpace c = true
  after : ∀ c ∈ item.after, isSpace c = true
  plain : Yaml.PlainText true item.text
  node : item.node = .scalar { plain := true, content := item.text }

theorem separation_space {sep : List Char} (h : Yaml.Separation sep) (hwordy : ∀ c ∈ sep, Wordy c) :
    ∀ c ∈ sep, isSpace c = true := by
  induction h with
  | nil => exact fun _ hc => absurd hc List.not_mem_nil
  | @space c sep hc _ ih =>
    intro d hd
    rcases List.mem_cons.1 hd with rfl | hd
    · rcases hc with hc | rfl
      · exact isSpace_of_isWhite hc
      · rfl
    · exact ih (fun e he => hwordy e (List.mem_cons_of_mem c he)) d hd
  | comment _ _ _ _ => exact absurd rfl (hwordy '#' (by simp)).2.2.2.1

theorem ScalarItem.word {item : Yaml.FlowItem} (h : ScalarItem item) (hwordy : ∀ c ∈ item.all, Wordy c) :
    WordItem item := by
  unfold Yaml.FlowItem.all at hwordy
  have htext : ∀ c ∈ item.text, Wordy c := fun c hc => hwordy c (by simp [hc])
  obtain ⟨s, hnode, hflow⟩ := h.exists_scalar
  have hplain : Yaml.PlainText true item.text ∧ s = { plain := true, content := item.text } := by
    rcases hflow.node_cases with ⟨hplain, hs⟩ | ⟨body, content, hquote, -⟩ | ⟨body, content, hquote, -⟩ |
      ⟨rest, items, -, hs⟩ | ⟨rest, entries, -, hs⟩
    · cases hs
      exact ⟨hplain, by rw [foldBreaks_single fun hmem => (htext _ hmem).2.2.2.2 rfl]⟩
    · exact absurd rfl (htext '"' (by rw [hquote]; simp)).2.1
    · exact absurd rfl (htext '\'' (by rw [hquote]; simp)).2.2.1
    · cases hs
    · cases hs
  exact ⟨separation_space h.before fun c hc => hwordy c (by simp [hc]),
    separation_space h.after fun c hc => hwordy c (by simp [hc]), hplain.1, by rw [hnode, hplain.2]⟩

/-- **A list of words goes with a sequence of plain scalars.** -/
theorem words_items {close z δ : List Char} {comma : Bool} (hclose : Yaml.Separation close) :
    ∀ {items : List Yaml.FlowItem}, (∀ item ∈ items, ScalarItem item) → ∀ {words : List Char},
      (∀ c ∈ words, Wordy c) → words ++ ']' :: z = Yaml.itemsText items comma close ++ ']' :: δ →
      words = Yaml.itemsText items comma close ∧ (∀ item ∈ items, WordItem item) ∧ (∀ c ∈ close, isSpace c = true) := by
  have hend : ∀ {words : List Char}, (∀ c ∈ words, Wordy c) → words ++ ']' :: z = close ++ ']' :: δ →
      words = close ∧ ∀ c ∈ close, isSpace c = true := by
    intro words hwords hsplit
    obtain ⟨rest, rfl, hrest⟩ := (unclosed_separation hclose).in_words hwords hsplit
    have hnil : rest = [] := by
      cases rest with
      | nil => rfl
      | cons c rest =>
        rw [List.cons_append, List.cons.injEq] at hrest
        exact absurd hrest.1 (hwords c (by simp)).1
    rw [hnil, List.append_nil] at hwords ⊢
    exact ⟨rfl, separation_space hclose hwords⟩
  intro items
  induction items with
  | nil =>
    intro _ words hwords hsplit
    obtain ⟨hsame, hspace⟩ := hend hwords hsplit
    exact ⟨hsame, fun _ h => absurd h List.not_mem_nil, hspace⟩
  | cons item others ih =>
    intro hitems words hwords hsplit
    have hitem := hitems item List.mem_cons_self
    rw [itemsText_cons] at hsplit
    simp only [List.append_assoc] at hsplit
    obtain ⟨words₁, rfl, hsplit₁⟩ := (unclosed_separation hitem.before).in_words hwords hsplit
    have hwords₁ : ∀ c ∈ words₁, Wordy c := fun c hc => hwords c (List.mem_append_right _ hc)
    obtain ⟨words₂, rfl, hsplit₂⟩ := hitem.unclosed.in_words hwords₁ hsplit₁
    have hwords₂ : ∀ c ∈ words₂, Wordy c := fun c hc => hwords₁ c (List.mem_append_right _ hc)
    obtain ⟨words₃, rfl, hsplit₃⟩ := (unclosed_separation hitem.after).in_words hwords₂ hsplit₂
    have hwords₃ : ∀ c ∈ words₃, Wordy c := fun c hc => hwords₂ c (List.mem_append_right _ hc)
    have hword : WordItem item := hitem.word fun c hc => hwords c (by
      unfold Yaml.FlowItem.all at hc
      simp only [List.mem_append] at hc ⊢
      tauto)
    have hcomma : ∀ text, behindItem others comma close = ',' :: text → ∃ words₄, words₃ = ',' :: words₄ ∧
        (∀ c ∈ words₄, Wordy c) ∧ words₄ ++ ']' :: z = text ++ ']' :: δ := by
      intro text htext
      rw [htext] at hsplit₃
      cases words₃ with
      | nil => cases hsplit₃
      | cons c words₄ =>
        simp only [List.cons_append, List.cons.injEq] at hsplit₃
        exact ⟨words₄, by rw [hsplit₃.1], fun d hd => hwords₃ d (List.mem_cons_of_mem c hd), hsplit₃.2⟩
    have hall : words₃ = behindItem others comma close ∧ (∀ other ∈ others, WordItem other) ∧
        ∀ c ∈ close, isSpace c = true := by
      by_cases hnone : others = []
      · subst hnone
        refine ⟨?_, fun _ h => absurd h List.not_mem_nil, ?_⟩
        all_goals
          cases comma with
          | true =>
            obtain ⟨words₄, rfl, hwordy, hsplit₄⟩ := hcomma close rfl
            obtain ⟨rfl, hspace⟩ := hend hwordy hsplit₄
            first | exact hspace | rfl
          | false =>
            obtain ⟨rfl, hspace⟩ := hend hwords₃ hsplit₃
            first | exact hspace | rfl
      · have htext : behindItem others comma close = ',' :: Yaml.itemsText others comma close := by
          cases others with
          | nil => exact absurd rfl hnone
          | cons other others => rfl
        obtain ⟨words₄, rfl, hwordy, hsplit₄⟩ := hcomma _ htext
        obtain ⟨rfl, hothers, hspace⟩ := ih (fun other hother => hitems other (List.mem_cons_of_mem item hother))
          hwordy hsplit₄
        exact ⟨htext.symm, hothers, hspace⟩
    refine ⟨?_, fun other hother => ?_, hall.2.2⟩
    · rw [itemsText_cons, hall.1]
    · rcases List.mem_cons.1 hother with rfl | hother
      · exact hword
      · exact hall.2.1 other hother

theorem mem_splitOn {c : Char} : ∀ {text : List Char}, c ∈ text → c = ',' ∨ ∃ piece ∈ text.splitOn ',', c ∈ piece
  | d :: text, hc => by
    rw [List.splitOn_cons_eq_if_modifyHead]
    obtain ⟨first, rest, hpieces⟩ := List.exists_cons_of_ne_nil (List.splitOn_ne_nil ',' text)
    by_cases hd : d = ','
    · rw [if_pos (by simpa using hd)]
      rcases List.mem_cons.1 hc with rfl | hc
      · exact Or.inl hd
      · exact (mem_splitOn hc).imp id fun ⟨piece, hpiece, hmem⟩ => ⟨piece, List.mem_cons_of_mem _ hpiece, hmem⟩
    · rw [if_neg (by simpa using hd), hpieces, List.modifyHead_cons]
      rcases List.mem_cons.1 hc with rfl | hc
      · exact Or.inr ⟨c :: first, List.mem_cons_self, List.mem_cons_self⟩
      · refine (mem_splitOn hc).imp id fun ⟨piece, hpiece, hmem⟩ => ?_
        rw [hpieces] at hpiece
        rcases List.mem_cons.1 hpiece with rfl | hpiece
        · exact ⟨d :: piece, List.mem_cons_self, List.mem_cons_of_mem d hmem⟩
        · exact ⟨piece, List.mem_cons_of_mem _ hpiece, hmem⟩

theorem mem_strip {c : Char} {text : List Char} (hc : c ∈ text) : isSpace c = true ∨ c ∈ strip text := by
  rw [← List.takeWhile_append_dropWhile (p := isSpace) (l := text)] at hc
  rcases List.mem_append.1 hc with hc | hc
  · exact Or.inl (List.mem_takeWhile_imp hc)
  · rw [← List.rdropWhile_append_rtakeWhile (p := isSpace) (l := text.dropWhile isSpace)] at hc
    rcases List.mem_append.1 hc with hc | hc
    · exact Or.inr hc
    · exact Or.inl (List.mem_rtakeWhile_imp hc)

theorem wordy_of_isSpace {c : Char} (h : isSpace c = true) (hbreak : c ≠ '\n') : Wordy c := by
  refine ⟨?_, ?_, ?_, ?_, hbreak⟩ <;>
    · rintro rfl
      cases h

theorem wordy_of_isWordChar {c : Char} (h : isWordChar c = true) : Wordy c := by
  refine ⟨?_, ?_, ?_, ?_, ?_⟩ <;>
    · rintro rfl
      cases h

/-- What a line that is read as a list of words looks like. -/
theorem flowWords_cases {rest : List Char} {words : List (List Char)} (hbreak : '\n' ∉ rest)
    (h : flowWords ('[' :: rest) = some words) : ∃ inner, rstrip (beforeHash rest) = inner ++ [']'] ∧
      (∀ c ∈ inner, Wordy c) ∧ words = ((inner.splitOn ',').map strip).filter (!·.isEmpty) := by
  have hstrip : strip (beforeHash ('[' :: rest)) = '[' :: rstrip (beforeHash rest) := by
    rw [beforeHash_cons (by decide)]
    exact strip_cons (by decide) _
  unfold flowWords at h
  dsimp only at h
  rw [hstrip] at h
  split at h
  · rename_i hends
    obtain ⟨inner, hinner⟩ : ∃ inner, rstrip (beforeHash rest) = inner ++ [']'] := by
      have hlast := hends.2
      cases hbody : (rstrip (beforeHash rest)).getLast? with
      | none =>
        rw [List.getLast?_cons, hbody] at hlast
        cases hlast
      | some c =>
        rw [List.getLast?_cons, hbody] at hlast
        cases hlast
        exact ⟨_, (List.dropLast_append_getLast? _ hbody).symm⟩
    rw [hinner, List.drop_one, List.tail_cons, List.dropLast_concat] at h
    split at h
    · rename_i hall
      cases h
      refine ⟨inner, hinner, fun c hc => ?_, rfl⟩
      have hc' : c ≠ '\n' := by
        rintro rfl
        refine hbreak ((List.takeWhile_prefix _).subset ((rstrip_initial _).subset (?_ : '\n' ∈ rstrip (beforeHash rest))))
        rw [hinner]
        exact List.mem_append_left _ hc
      rcases mem_splitOn hc with rfl | ⟨piece, hpiece, hmem⟩
      · exact ⟨by decide, by decide, by decide, by decide, hc'⟩
      · rcases mem_strip hmem with hspace | hword
        · exact wordy_of_isSpace hspace hc'
        · have hword' : isWord (strip piece) = true := List.all_eq_true.1 hall _ (List.mem_filter.2
            ⟨List.mem_map.2 ⟨piece, hpiece, rfl⟩, by
              rw [Bool.not_eq_true', List.isEmpty_eq_false_iff]
              exact List.ne_nil_of_mem hword⟩)
          unfold isWord at hword'
          rw [Bool.and_eq_true] at hword'
          exact wordy_of_isWordChar (List.all_eq_true.1 hword'.2 c hword)
    · cases h
  · cases h

theorem WordItem.strip_all {item : Yaml.FlowItem} (h : WordItem item) : strip item.all = strip item.text := by
  unfold Yaml.FlowItem.all
  rw [strip_append h.after]
  unfold strip
  rw [lstrip_append h.before]

theorem WordItem.no_comma {item : Yaml.FlowItem} (h : WordItem item) : ',' ∉ item.all := fun hmem => by
  unfold Yaml.FlowItem.all at hmem
  simp only [List.mem_append] at hmem
  rcases hmem with (hmem | hmem) | hmem
  · have := h.before _ hmem
    cases this
  · exact not_mem_plain h.plain (by decide) hmem
  · have := h.after _ hmem
    cases this

/-- The words of a sequence of plain scalars. -/
theorem words_eq {close : List Char} {comma : Bool} (hclose : ∀ c ∈ close, isSpace c = true) :
    ∀ {items : List Yaml.FlowItem}, (∀ item ∈ items, WordItem item ∧ strip item.text = item.text) →
      (((Yaml.itemsText items comma close).splitOn ',').map strip).filter (!·.isEmpty) = items.map (·.text) := by
  have hcomma : ',' ∉ close := fun hmem => by
    have := hclose _ hmem
    cases this
  have hblank : strip close = [] := by
    have := strip_append hclose []
    rw [List.nil_append] at this
    rw [this]
    rfl
  intro items
  induction items with
  | nil =>
    intro _
    show ((close.splitOn ',').map strip).filter _ = _
    rw [List.splitOn_eq_singleton hcomma, List.map_singleton, hblank]
    rfl
  | cons item others ih =>
    intro hitems
    obtain ⟨hitem, hstrip⟩ := hitems item List.mem_cons_self
    have hall : strip item.all = item.text := hitem.strip_all.trans hstrip
    have hkeep : ∀ rest : List (List Char), (item.text :: rest).filter (!·.isEmpty) =
        item.text :: rest.filter (!·.isEmpty) := fun rest => List.filter_cons_of_pos (by
      have hfirst := hitem.plain.first
      cases htext : item.text with
      | nil =>
        rw [htext] at hfirst
        cases hfirst
      | cons c text => rfl)
    cases others with
    | cons other others =>
      show (((item.all ++ ',' :: Yaml.itemsText (other :: others) comma close).splitOn ',').map strip).filter _ = _
      rw [List.splitOn_append_cons_self_of_not_mem hitem.no_comma, List.map_cons, hall, hkeep,
        ih fun other' hother => hitems other' (List.mem_cons_of_mem item hother)]
      rfl
    | nil =>
      cases comma with
      | true =>
        show (((item.all ++ ',' :: close).splitOn ',').map strip).filter _ = _
        rw [List.splitOn_append_cons_self_of_not_mem hitem.no_comma, List.splitOn_eq_singleton hcomma, List.map_cons,
          List.map_singleton, hall, hblank,
          hkeep]
        rfl
      | false =>
        show (((item.all ++ close).splitOn ',').map strip).filter _ = _
        have hno : ',' ∉ item.all ++ close := fun hmem =>
          (List.mem_append.1 hmem).elim hitem.no_comma hcomma
        rw [List.splitOn_eq_singleton hno, List.map_singleton, strip_append hclose, hall, hkeep]
        rfl

/-! ## Flow lists -/

/-- A flow list holds no float, where it is JSON, and no other word than texts, where it is read as words. -/
structure ListLegible (text trail : List Char) (items : List Yaml.Node) : Prop where
  json : ∀ values, Json.loads (strip (Yaml.firstLine (text ++ trail))) = .ok (.list values) →
    ∀ v ∈ values, ∀ x, v ≠ .float x
  words : (∀ v, Json.loads (strip (Yaml.firstLine (text ++ trail))) ≠ .ok v) →
    (flowWords (strip (Yaml.firstLine (text ++ trail)))).isSome →
    ∀ s, Yaml.Node.scalar s ∈ items → s.plain = true → strip s.content = s.content ∧ s.resolve = .text s.content

/-- What the kinds of items of a flow collection are, beside nodes. -/
theorem flow_pair_map {kind : Yaml.FlowKind} {text : List Char} {node : Yaml.Node} (h : Yaml.Flow kind text node) :
    (∃ inFlow, kind = .node inFlow) ∨ ∃ entries, node = .map entries := by
  induction h with
  | plain => exact Or.inl ⟨_, rfl⟩
  | double => exact Or.inl ⟨_, rfl⟩
  | single => exact Or.inl ⟨_, rfl⟩
  | seq => exact Or.inl ⟨_, rfl⟩
  | map => exact Or.inl ⟨_, rfl⟩
  | pair => exact Or.inr ⟨_, rfl⟩
  | pairNull => exact Or.inr ⟨_, rfl⟩
  | pairNoKey => exact Or.inr ⟨_, rfl⟩
  | explicit _ _ _ ih => exact ih.imp (fun ⟨_, h⟩ => by cases h) id
  | explicitNull => exact Or.inr ⟨_, rfl⟩
  | entryPair _ ih => exact ih.imp (fun ⟨_, h⟩ => by cases h) id
  | entryKey => exact Or.inr ⟨_, rfl⟩

theorem mapM_scalarValue {nodes : List Yaml.Node} {values : List Value} (h : nodes.mapM scalarValue = some values) :
    ∀ node ∈ nodes, ∃ s, node = .scalar s := by
  induction nodes generalizing values with
  | nil => exact fun _ hnode => absurd hnode List.not_mem_nil
  | cons first nodes ih =>
    rw [List.mapM_cons] at h
    obtain ⟨v, hv, hrest⟩ := Option.bind_eq_some_iff.1 h
    obtain ⟨others, hothers, -⟩ := Option.bind_eq_some_iff.1 hrest
    intro node hnode
    rcases List.mem_cons.1 hnode with rfl | hnode
    · cases node with
      | scalar s => exact ⟨s, rfl⟩
      | seq => cases hv
      | map => cases hv
    · exact ih hothers node hnode

/-- The items of a list of scalars are scalars. -/
theorem scalarItems {items : List Yaml.FlowItem} {values : List Value}
    (hsep : ∀ item ∈ items, Yaml.Separation item.before ∧ Yaml.Separation item.after ∧
      (item.kind = .node true ∨ item.kind = .pair))
    (hflow : ∀ item ∈ items, Yaml.Flow item.kind item.text item.node)
    (hvalues : (items.map (·.node)).mapM scalarValue = some values) : ∀ item ∈ items, ScalarItem item := by
  intro item hitem
  obtain ⟨s, hs⟩ := mapM_scalarValue hvalues item.node (List.mem_map.2 ⟨item, hitem, rfl⟩)
  obtain ⟨hbefore, hafter, hkind⟩ := hsep item hitem
  refine ⟨hbefore, hafter, s, hs, ?_⟩
  have hitemFlow := hflow item hitem
  rcases hkind with hkind | hkind
  · rwa [hkind, hs] at hitemFlow
  · rw [hkind, hs] at hitemFlow
    rcases flow_pair_map hitemFlow with ⟨_, hno⟩ | ⟨_, hno⟩ <;> cases hno

theorem mapM_texts {items : List Yaml.FlowItem} (h : ∀ item ∈ items, scalarValue item.node = some (ofChars item.text)) :
    (items.map (·.node)).mapM scalarValue = some ((items.map (·.text)).map ofChars) := by
  induction items with
  | nil => rfl
  | cons item others ih =>
    rw [List.map_cons, List.mapM_cons, h item List.mem_cons_self,
      ih fun other hother => h other (List.mem_cons_of_mem item hother)]
    rfl

/-- What JSON reads of a list of scalars, it reads to its end. -/
theorem loads_items {close rest δ : List Char} {items : List Yaml.FlowItem} {comma : Bool} {values : List Value}
    {v : Value} (hclose : Yaml.Separation close) (hitems : ∀ item ∈ items, ScalarItem item)
    (hvalues : (items.map (·.node)).mapM scalarValue = some values)
    (hinitial : rest <+: Yaml.itemsText items comma close ++ ']' :: δ)
    (hfloat : ∀ found, v = .list found → ∀ v ∈ found, ∀ x, v ≠ .float x) (hload : Json.loads ('[' :: rest) = .ok v) :
    Yaml.itemsText items comma close <+: rest ∧ v = .list values := by
  obtain ⟨behind, hparse⟩ := Json.loads_cases hload
  rw [skipWhite_nonSpace (by decide), Json.parseValue_array] at hparse
  split at hparse
  · rename_i hclosed
    cases items with
    | nil =>
      cases hparse
      cases hvalues
      rcases skipWhite_separation hclose hinitial with hnil | hhash | ⟨ρ, hρ, -, -⟩
      · rw [hnil] at hclosed
        cases hclosed
      · rw [hhash] at hclosed
        cases hclosed
      · exact ⟨⟨ρ, hρ.symm⟩, rfl⟩
    | cons item others =>
      exfalso
      rw [itemsText_cons] at hinitial
      simp only [List.append_assoc] at hinitial
      rcases (hitems item List.mem_cons_self).start hinitial with hnil | hhash | ⟨c, ρ, -, -, hskip, hc⟩
      · rw [hnil] at hclosed
        cases hclosed
      · rw [hhash] at hclosed
        cases hclosed
      · rw [hskip] at hclosed
        exact hc (Option.some.inj hclosed)
  · obtain ⟨⟨found, left⟩, hread, hfound⟩ := Option.map_eq_some_iff.1 hparse
    cases hfound
    cases items with
    | nil =>
      rw [parseItems_close hclose hinitial] at hread
      cases hread
    | cons item others =>
      obtain ⟨hfound, hsplit, -⟩ := parseItems_items hclose (List.cons_ne_nil _ _) hitems hinitial hread
        (hfloat found rfl)
      rw [hvalues] at hfound
      cases hfound
      exact ⟨⟨_, hsplit.symm⟩, rfl⟩

/-- **A legible list of scalars in flow style is read as it is meant.** -/
theorem scalar_list_legible {white trail close : List Char} {items : List Yaml.FlowItem} {comma : Bool} {v w : Value}
    (hwhite : Yaml.blank white = true) (hclose : Yaml.Separation close)
    (hsep : ∀ item ∈ items, Yaml.Separation item.before ∧ Yaml.Separation item.after ∧
      (item.kind = .node true ∨ item.kind = .pair))
    (hflow : ∀ item ∈ items, Yaml.Flow item.kind item.text item.node)
    (hlegible : ListLegible ('[' :: Yaml.itemsText items comma close ++ [']']) trail (items.map (·.node)))
    (hheld : heldValue (.seq (items.map (·.node))) = some w)
    (h : scalar (valueLine white ('[' :: Yaml.itemsText items comma close ++ [']']) trail) = .ok v) :
    '\n' ∉ '[' :: Yaml.itemsText items comma close ++ [']'] ∧ v = w := by
  obtain ⟨values, hvalues, rfl⟩ := Option.map_eq_some_iff.1 hheld
  have hitems := scalarItems hsep hflow hvalues
  -- the rest of the line that is read
  obtain ⟨rest, hrest⟩ : ∃ rest, rest = rstrip (Yaml.firstLine (Yaml.itemsText items comma close ++ [']'] ++ trail)) :=
    ⟨_, rfl⟩
  have hstrip : ∀ white, Yaml.blank white = true →
      strip (valueLine white ('[' :: Yaml.itemsText items comma close ++ [']']) trail) = '[' :: rest :=
    fun white hwhite => by
      have htext : '[' :: Yaml.itemsText items comma close ++ [']'] = '[' :: (Yaml.itemsText items comma close ++ [']']) :=
        rfl
      rw [hrest, strip_valueLine hwhite htext (by decide) trail]
  have hinitial : rest <+: Yaml.itemsText items comma close ++ ']' :: trail := by
    have hfirst := firstLine_prefix (Yaml.itemsText items comma close ++ [']'] ++ trail)
    rw [List.append_assoc] at hfirst hrest
    rw [hrest]
    exact (rstrip_initial _).trans hfirst
  have hbreak : '\n' ∉ rest := fun hmem => by
    rw [hrest] at hmem
    exact not_mem_firstLine _ ((rstrip_initial _).subset hmem)
  have hsingle : Yaml.itemsText items comma close <+: rest → '\n' ∉ '[' :: Yaml.itemsText items comma close ++ [']'] := by
    intro hin hmem
    refine hbreak (hin.subset ?_)
    simpa using hmem
  have hlegible' : strip (Yaml.firstLine ('[' :: Yaml.itemsText items comma close ++ [']'] ++ trail)) = '[' :: rest :=
    hstrip [] rfl
  rcases scalar_json (hstrip white hwhite) (Or.inr rfl) h with hload | ⟨hnone, words, hwords, rfl⟩
  · obtain ⟨hin, rfl⟩ := loads_items hclose hitems hvalues hinitial (fun found hfound => by
      rw [hfound] at hload
      exact hlegible.json found (hlegible' ▸ hload)) hload
    exact ⟨hsingle hin, rfl⟩
  · obtain ⟨inner, hinner, hwordy, rfl⟩ := flowWords_cases hbreak hwords
    have hin : inner ++ [']'] <+: rest := by
      rw [← hinner]
      exact (rstrip_initial _).trans (List.takeWhile_prefix _)
    obtain ⟨tail, htail⟩ := hin.trans hinitial
    rw [List.append_assoc] at htail
    obtain ⟨rfl, hword, hspace⟩ := words_items hclose hitems hwordy htail
    have hmeant := hlegible.words (hlegible'.symm ▸ hnone) (by rw [hlegible', hwords]; rfl)
    refine ⟨hsingle ((List.prefix_append _ _).trans hin), ?_⟩
    have htexts : ∀ item ∈ items, strip item.text = item.text ∧ scalarValue item.node = some (ofChars item.text) := by
      intro item hitem
      obtain ⟨hstripped, hresolve⟩ := hmeant { plain := true, content := item.text }
        (List.mem_map.2 ⟨item, hitem, (hword item hitem).node⟩) rfl
      refine ⟨hstripped, ?_⟩
      rw [(hword item hitem).node, scalarValue, hresolve]
      rfl
    rw [words_eq hspace fun item hitem => ⟨hword item hitem, (htexts item hitem).1⟩]
    rw [mapM_texts fun item hitem => (htexts item hitem).2] at hvalues
    rw [Option.some.inj hvalues]

end ReadyBeads

end Subgov
