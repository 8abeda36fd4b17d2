import Subgov.PolicyOutline
import Subgov.Lib.YamlPlain
/-!
# PolicyLayout — the lines of a document as the reader sees them

A line of a document is a gap, an item, an entry or the continuation of a scalar.  The reader passes over gaps, and where
only white space of YAML stands beside its colons (`asciiColon`) it takes a name of no line but of an entry whose key is
that name in plain style.
-/
namespace Subgov

open Python

namespace ReadyBeads

variable {fields : List Path} {s s' : PolicyReader}

/-! ## Indentation -/

theorem lineBody_append (raw : List Char) : raw.takeWhile (· == ' ') ++ lineBody raw = raw :=
  List.takeWhile_append_dropWhile

theorem lineIndent_eq (raw : List Char) : lineIndent raw = Yaml.indentOf raw := by
  have hlength := congrArg List.length (lineBody_append raw)
  rw [List.length_append] at hlength
  unfold lineIndent Yaml.indentOf
  omega

theorem lineBody_spaces (n : Nat) {c : Char} (hc : c ≠ ' ') (rest : List Char) :
    lineBody (Yaml.spaces n ++ c :: rest) = c :: rest := by
  unfold lineBody Yaml.spaces
  rw [List.dropWhile_append_of_pos fun d hd => by simp [List.eq_of_mem_replicate hd],
    List.dropWhile_cons_of_neg (by simpa using hc)]

theorem lineIndent_spaces (n : Nat) {c : Char} (hc : c ≠ ' ') (rest : List Char) :
    lineIndent (Yaml.spaces n ++ c :: rest) = n := by
  unfold lineIndent
  rw [lineBody_spaces n hc, List.length_append, Yaml.spaces, List.length_replicate, Nat.add_sub_cancel]

/-- A line that starts with a mark behind its indentation. -/
structure StartsWith (raw : List Char) (n : Nat) (c : Char) (rest : List Char) : Prop where
  body : lineBody raw = c :: rest
  indent : lineIndent raw = n

theorem startsWith_spaces (n : Nat) {c : Char} (hc : c ≠ ' ') (rest : List Char) :
    StartsWith (Yaml.spaces n ++ c :: rest) n c rest := ⟨lineBody_spaces n hc rest, lineIndent_spaces n hc rest⟩

theorem StartsWith.loud {raw rest : List Char} {n : Nat} {c : Char} (h : StartsWith raw n c rest) (hc : c ≠ '#') :
    isQuiet raw = false := by
  unfold isQuiet
  rw [h.body]
  simpa using hc

theorem StartsWith.no_dash {raw rest : List Char} {n : Nat} {c : Char} (h : StartsWith raw n c rest)
    (hc : c ≠ '-' ∨ rest.head? ≠ some ' ') : isDash raw = false := by
  unfold isDash
  rw [h.body, Bool.eq_false_iff, Ne, List.isPrefixOf_iff_prefix]
  rintro ⟨t, ht⟩
  have hsplit : c :: rest = '-' :: ' ' :: t := ht.symm
  rw [List.cons.injEq] at hsplit
  rcases hc with hc | hc
  · exact hc hsplit.1
  · rw [hsplit.2] at hc
    exact hc rfl

/-! ## Gaps -/

theorem isDash_body {raw : List Char} (h : isDash raw = true) : ∃ rest, lineBody raw = '-' :: ' ' :: rest := by
  unfold isDash at h
  rw [List.isPrefixOf_iff_prefix] at h
  obtain ⟨rest, hrest⟩ := h
  exact ⟨rest, hrest.symm⟩

theorem trimLeft_lineBody (raw : List Char) : Yaml.trimLeft raw = Yaml.trimLeft (lineBody raw) := by
  unfold Yaml.trimLeft lineBody
  rw [← List.takeWhile_append_dropWhile (p := (· == ' ')) (l := raw), List.dropWhile_append_of_pos]
  · rw [List.takeWhile_append_dropWhile]
  · intro c hc
    have hspace := List.mem_takeWhile_imp hc
    rw [Yaml.isWhite, hspace, Bool.true_or]

theorem isGap_body {raw rest : List Char} {c : Char} (hbody : lineBody raw = c :: rest) (hgap : Yaml.isGap raw = true) :
    c = '\t' ∨ c = '#' := by
  have hspace : c ≠ ' ' := by
    have hhead := List.head?_dropWhile_not (· == ' ') raw
    unfold lineBody at hbody
    rw [hbody] at hhead
    simpa using hhead
  by_contra hno
  rw [not_or] at hno
  have hwhite : Yaml.isWhite c = false := by simp [Yaml.isWhite, hspace, hno.1]
  have htrim : Yaml.trimLeft raw = c :: rest := by
    rw [trimLeft_lineBody, hbody, Yaml.trimLeft, List.dropWhile_cons_of_neg (by rw [hwhite]; exact Bool.false_ne_true)]
  unfold Yaml.isGap at hgap
  rw [Bool.or_eq_true, htrim, beq_iff_eq, List.head?_cons, Option.some.injEq] at hgap
  refine hgap.elim (fun hblank => ?_) hno.2
  have hmem : c ∈ raw := by
    rw [← lineBody_append raw, hbody]
    simp
  have := List.all_eq_true.1 hblank c hmem
  rw [hwhite] at this
  cases this

theorem isGap_of_isQuiet {raw : List Char} (h : isQuiet raw = true) : Yaml.isGap raw = true := by
  unfold isQuiet at h
  unfold Yaml.isGap
  rw [Bool.or_eq_true] at h ⊢
  rcases h with hempty | hhash
  · refine Or.inl (List.all_eq_true.2 fun c hc => ?_)
    rw [List.isEmpty_iff] at hempty
    have hall := List.dropWhile_eq_nil_iff.1 hempty c hc
    rw [Yaml.isWhite, hall, Bool.true_or]
  · refine Or.inr ?_
    rw [beq_iff_eq] at hhash ⊢
    rw [trimLeft_lineBody]
    cases hbody : lineBody raw with
    | nil =>
      rw [hbody] at hhash
      cases hhash
    | cons c rest =>
      rw [hbody, List.head?_cons, Option.some.injEq] at hhash
      subst hhash
      rfl

/-- A gap is passed over, where it is not refused. -/
theorem readLine_gap {raw : List Char} (hread : readLine fields s raw = .ok s') (hgap : Yaml.isGap raw = true) :
    isQuiet raw = true ∧ s' = s := by
  rcases readLine_cases hread with hquiet | ⟨-, hdash, -⟩ | ⟨hquiet, -, htab, -⟩
  · exact hquiet
  · obtain ⟨rest, hbody⟩ := isDash_body hdash
    rcases isGap_body hbody hgap with h | h <;> cases h
  · cases hbody : lineBody raw with
    | nil =>
      rw [isQuiet, hbody] at hquiet
      cases hquiet
    | cons c rest =>
      rw [hbody] at htab
      rcases isGap_body hbody hgap with rfl | rfl
      · exact absurd rfl htab
      · rw [isQuiet, hbody] at hquiet
        cases hquiet

theorem Reads.gap {lines : List (List Char)} (h : Reads fields lines s s')
    (hgap : ∀ line ∈ lines, Yaml.isGap line = true) : s' = s :=
  h.keeps (P := (· = s)) rfl fun raw hmem _ _ hline ht => (readLine_gap hline (hgap raw hmem)).2.trans ht

/-! ## Names -/

/-- A line that starts with no letter has no name. -/
theorem lineName_unnamed {raw rest : List Char} {c : Char} (hbody : lineBody raw = c :: rest)
    (hstart : isKeyStart c = false) : lineName raw = none := by
  unfold lineName
  split
  · rfl
  · rw [hbody, matchKey, takeName, if_neg (by rw [hstart]; exact Bool.false_ne_true)]
    rfl

theorem lineName_gap {raw : List Char} (hgap : Yaml.isGap raw = true) : lineName raw = none := by
  by_cases hquiet : isQuiet raw = true
  · exact lineName_pass (Or.inl hquiet)
  · cases hbody : lineBody raw with
    | nil =>
      rw [isQuiet, hbody] at hquiet
      exact absurd rfl hquiet
    | cons c rest =>
      rcases isGap_body hbody hgap with rfl | rfl
      · exact lineName_unnamed hbody rfl
      · exact lineName_unnamed hbody rfl

/-- Beside the colon behind its name, a line has no white space but YAML's. -/
def asciiColon (raw : List Char) : Bool :=
  (lineName raw).isNone || (takeName (lineBody raw)).any fun (_, rest) =>
    match rest.dropWhile Yaml.isWhite with
    | ':' :: value => value.head?.all Yaml.isWhite
    | _ => false

/-- What a line with a name looks like. -/
structure Shaped (raw : List Char) (name : String) (gap value : List Char) : Prop where
  body : lineBody raw = name.toList ++ gap ++ ':' :: value
  start : ∃ c rest, name.toList = c :: rest ∧ isKeyStart c = true
  chars : ∀ c ∈ name.toList, isKeyChar c = true
  gap_blank : Yaml.blank gap = true
  value_white : value.head?.all Yaml.isWhite = true
  matched : matchKey (lineBody raw) = some (name, strip value)

theorem isSpace_of_isWhite {c : Char} (h : Yaml.isWhite c = true) : isSpace c = true := by
  unfold Yaml.isWhite at h
  rw [Bool.or_eq_true, beq_iff_eq, beq_iff_eq] at h
  rcases h with rfl | rfl <;> decide

theorem takeName_eq {text name rest : List Char} (h : takeName text = some (name, rest)) :
    text = name ++ rest ∧ (∃ c name', name = c :: name' ∧ isKeyStart c = true) ∧ ∀ c ∈ name, isKeyChar c = true := by
  cases text with
  | nil => cases h
  | cons c text =>
    rw [takeName] at h
    by_cases hstart : isKeyStart c = true
    · rw [if_pos hstart, Option.some.injEq, Prod.mk.injEq] at h
      obtain ⟨rfl, rfl⟩ := h
      refine ⟨by rw [List.cons_append, List.takeWhile_append_dropWhile], ⟨c, _, rfl, hstart⟩, fun d hd => ?_⟩
      rcases List.mem_cons.1 hd with rfl | hrest
      · rw [isKeyChar, hstart]
        rfl
      · exact List.mem_takeWhile_imp hrest
    · rw [if_neg hstart] at h
      cases h

theorem lineName_shaped {raw : List Char} {name : String} (hname : lineName raw = some name)
    (hascii : asciiColon raw = true) : ∃ gap value, Shaped raw name gap value := by
  unfold lineName at hname
  split at hname
  · cases hname
  · rename_i hplain
    cases hmatch : matchKey (lineBody raw) with
    | none =>
      rw [hmatch] at hname
      cases hname
    | some found =>
      rw [hmatch] at hname
      obtain ⟨found, value⟩ := found
      cases hname
      have hnamed : (lineName raw).isNone = false := by
        unfold lineName
        rw [if_neg hplain, hmatch]
        rfl
      unfold asciiColon at hascii
      rw [hnamed, Bool.false_or] at hascii
      cases htake : takeName (lineBody raw) with
      | none =>
        rw [htake] at hascii
        cases hascii
      | some taken =>
        obtain ⟨chars, rest⟩ := taken
        rw [htake, Option.any_some] at hascii
        obtain ⟨hbody, hstart, hchars⟩ := takeName_eq htake
        dsimp only at hascii
        split at hascii
        · rename_i v hv
          have hrest : rest = rest.takeWhile Yaml.isWhite ++ ':' :: v := by
            rw [← hv, List.takeWhile_append_dropWhile]
          have hstrip : lstrip rest = ':' :: v := by
            rw [hrest, lstrip, List.dropWhile_append_of_pos fun c hc =>
              isSpace_of_isWhite (List.mem_takeWhile_imp hc), List.dropWhile_cons_of_neg (by decide)]
          have hkey := hmatch
          unfold matchKey at hkey
          rw [htake] at hkey
          simp only [Option.bind_eq_bind, Option.bind_some, hstrip] at hkey
          split at hkey
          · cases hkey
            refine ⟨rest.takeWhile Yaml.isWhite, v, ?_, ?_, ?_, ?_, hascii, hmatch⟩
            · rw [hbody, String.toList_ofList, List.append_assoc, ← hrest]
            · rwa [String.toList_ofList]
            · rwa [String.toList_ofList]
            · exact List.all_eq_true.2 fun c hc => List.mem_takeWhile_imp hc
          · cases hkey
        · cases hascii

theorem isKeyChar_ne_hash {c : Char} (h : isKeyChar c = true) : c ≠ '#' := by
  rintro rfl
  cases h

/-- A line whose colons each have a character behind them has no name. -/
theorem lineName_bound {raw : List Char} (hascii : asciiColon raw = true) (hbound : Yaml.ColonsBound raw) :
    lineName raw = none := by
  cases hname : lineName raw with
  | none => rfl
  | some name =>
    exfalso
    obtain ⟨gap, value, hshape⟩ := lineName_shaped hname hascii
    have hsplit : raw = (raw.takeWhile (· == ' ') ++ (name.toList ++ gap)) ++ ':' :: value := by
      conv_lhs => rw [← lineBody_append raw, hshape.body]
      simp
    obtain ⟨c, rest, rfl, hspace⟩ := hbound _ _ hsplit fun hhash => by
      rcases List.mem_append.1 hhash with hmem | hmem
      · have := List.mem_takeWhile_imp hmem
        cases this
      · rcases List.mem_append.1 hmem with hmem | hmem
        · exact isKeyChar_ne_hash (hshape.chars _ hmem) rfl
        · have := List.all_eq_true.1 hshape.gap_blank _ hmem
          cases this
    have hwhite := hshape.value_white
    rw [List.head?_cons, Option.all_some, Yaml.isNonSpace_not_white hspace] at hwhite
    cases hwhite

/-! ## Entries -/

/-- A line that the reader takes as an entry at an indentation. -/
structure IsEntry (raw : List Char) (n : Nat) : Prop where
  indent : lineIndent raw = n
  loud : isQuiet raw = false
  no_dash : isDash raw = false

theorem mark_isEntry (n : Nat) {c : Char} (hc : c ≠ ' ' ∧ c ≠ '#' ∧ c ≠ '-') (rest : List Char) :
    IsEntry (Yaml.spaces n ++ c :: rest) n :=
  have h := startsWith_spaces n hc.1 rest
  ⟨h.indent, h.loud hc.2.1, h.no_dash (Or.inl hc.2.2)⟩

theorem node_isEntry {text : List Char} (n : Nat) (h : Yaml.Starts text) (behind : List Char) :
    IsEntry (Yaml.spaces n ++ (text ++ behind)) n := by
  obtain ⟨c, rest, rfl, hspace, hhash, hdash⟩ := h.exists_first
  have hc : c ≠ ' ' := by
    rintro rfl
    cases hspace
  have hstarts := startsWith_spaces n hc (rest ++ behind)
  refine ⟨hstarts.indent, hstarts.loud hhash, hstarts.no_dash ?_⟩
  by_cases hc : c = '-'
  · obtain ⟨d, rest', rfl, hd⟩ := hdash hc
    refine Or.inr ?_
    rintro hblank
    rw [List.cons_append, List.head?_cons, Option.some.injEq] at hblank
    rw [hblank] at hd
    cases hd
  · exact Or.inl hc

theorem readLine_entry {raw : List Char} {n : Nat} (hread : readLine fields s raw = .ok s') (h : IsEntry raw n) :
    (lineBody raw).head? ≠ some '\t' ∧ readEntry fields (s.popTo n) n (lineBody raw) = .ok s' := by
  rcases readLine_cases hread with ⟨hquiet, -⟩ | ⟨-, hdash, -⟩ | ⟨-, -, htab, hentry⟩
  · rw [h.loud] at hquiet
    cases hquiet
  · rw [h.no_dash] at hdash
    cases hdash
  · rw [h.indent] at hentry
    exact ⟨htab, hentry⟩

/-- An entry without a name passes only where nothing selected could be. -/
theorem readLine_nameless {raw : List Char} {n : Nat} (hread : readLine fields s raw = .ok s') (h : IsEntry raw n)
    (hname : lineName raw = none) : s' = s.popTo n ∧ isAncestor fields (s.popTo n).top = false := by
  obtain ⟨htab, hentry⟩ := readLine_entry hread h
  rw [lineName_eq h.loud h.no_dash htab, Option.map_eq_none_iff] at hname
  cases readEntry_enters hentry with
  | other _ hancestor => exact ⟨rfl, hancestor⟩
  | plain name value hmatch =>
    rw [hname] at hmatch
    cases hmatch
  | marked name value s₁ hmatch =>
    rw [hname] at hmatch
    cases hmatch

/-- What an entry with a name does. -/
theorem readLine_named {raw : List Char} {n : Nat} {name : String} {value : List Char}
    (hread : readLine fields s raw = .ok s') (h : IsEntry raw n) (hmatch : matchKey (lineBody raw) = some (name, value)) :
    (isAncestor fields ((s.popTo n).top ++ [name]) = false ∧ s' = (s.popTo n).push n ((s.popTo n).top ++ [name])) ∨
      (isAncestor fields ((s.popTo n).top ++ [name]) = true ∧
        ∃ s₁, Marks fields (s.popTo n) ((s.popTo n).top ++ [name]) value s₁ ∧
          s' = s₁.push n ((s.popTo n).top ++ [name])) := by
  obtain ⟨-, hentry⟩ := readLine_entry hread h
  cases readEntry_enters hentry with
  | other hnone =>
    rw [hmatch] at hnone
    cases hnone
  | plain name' value' hmatch' hancestor =>
    rw [hmatch] at hmatch'
    cases hmatch'
    exact Or.inl ⟨hancestor, rfl⟩
  | marked name' value' s₁ hmatch' hancestor hmarks =>
    rw [hmatch] at hmatch'
    cases hmatch'
    exact Or.inr ⟨hancestor, s₁, hmarks, rfl⟩

theorem trimRight_append {text white : List Char} (h : ∀ c, text.getLast? = some c → Yaml.isWhite c = false)
    (hwhite : Yaml.blank white = true) : Yaml.trimRight (text ++ white) = text := by
  unfold Yaml.trimRight
  rw [List.rdropWhile, List.reverse_append, List.dropWhile_append_of_pos]
  · cases htext : text.reverse with
    | nil => rw [List.dropWhile_nil, List.reverse_nil, List.reverse_eq_nil_iff.1 htext]
    | cons c rest =>
      have hlast : text.getLast? = some c := by rw [← List.head?_reverse, htext]; rfl
      rw [List.dropWhile_cons_of_neg (by rw [h c hlast]; exact Bool.false_ne_true), ← htext, List.reverse_reverse]
  · exact fun c hc => List.all_eq_true.1 hwhite c (List.mem_reverse.1 hc)

theorem foldBreaks_single {text : List Char} (h : '\n' ∉ text) : Yaml.foldBreaks text = text := by
  unfold Yaml.foldBreaks
  rw [List.splitOn_eq_singleton h]

theorem Shaped.no_colon {raw gap value : List Char} {name : String} (h : Shaped raw name gap value) :
    ':' ∉ name.toList ++ gap := fun hmem => by
  rcases List.mem_append.1 hmem with hmem | hmem
  · have := h.chars _ hmem
    cases this
  · have := List.all_eq_true.1 h.gap_blank _ hmem
    cases this

theorem Shaped.trimRight_eq {raw gap value : List Char} {name : String} (h : Shaped raw name gap value) :
    Yaml.trimRight (name.toList ++ gap) = name.toList := by
  refine trimRight_append (fun d hd => ?_) h.gap_blank
  have hchar := h.chars d (List.mem_of_getLast? hd)
  by_contra hwhite
  rw [Bool.not_eq_false] at hwhite
  unfold Yaml.isWhite at hwhite
  rw [Bool.or_eq_true, beq_iff_eq, beq_iff_eq] at hwhite
  rcases hwhite with rfl | rfl <;> cases hchar

/-- The colon behind the name is the one behind the key, since white space stands behind it. -/
theorem Shaped.key_eq {raw key space head gap value : List Char} {name : String} (h : Shaped raw name gap value)
    (hplain : Yaml.PlainText false key) (hspace : Yaml.blank space = true)
    (hsame : (key ++ space) ++ ':' :: head = (name.toList ++ gap) ++ ':' :: value) :
    key ++ space = name.toList ++ gap ∧ head = value := by
  have hnocolon := h.no_colon
  rcases List.append_eq_append_iff.1 hsame with ⟨x, hleft, hright⟩ | ⟨x, hleft, hright⟩
  · cases x with
    | nil =>
      rw [List.append_nil] at hleft
      rw [List.nil_append, List.cons.injEq] at hright
      exact ⟨hleft.symm, hright.2⟩
    | cons d x =>
      rw [List.cons_append, List.cons.injEq] at hright
      rw [hleft, ← hright.1] at hnocolon
      exact absurd (by simp) hnocolon
  · cases x with
    | nil =>
      rw [List.append_nil] at hleft
      rw [List.nil_append, List.cons.injEq] at hright
      exact ⟨hleft, hright.2.symm⟩
    | cons d x =>
      -- the colon would stand within the key, with no space behind it
      exfalso
      rw [List.cons_append, List.cons.injEq] at hright
      obtain ⟨rfl, hvalue⟩ := hright
      rcases List.append_eq_append_iff.1 hleft with ⟨y, -, hwhite⟩ | ⟨y, hkey, hcolon⟩
      · have := List.all_eq_true.1 hspace ':' (by rw [hwhite]; simp)
        cases this
      · cases y with
        | nil =>
          rw [List.nil_append] at hcolon
          have := List.all_eq_true.1 hspace ':' (by rw [← hcolon]; simp)
          cases this
        | cons e y =>
          rw [List.cons_append, List.cons.injEq] at hcolon
          obtain ⟨rfl, rfl⟩ := hcolon
          have hchars := hplain.chars
          rw [hkey] at hchars
          obtain ⟨e, rest, rfl, hsafe⟩ := Yaml.plainChars_colon hchars
          have hwhite := h.value_white
          rw [hvalue, List.cons_append, List.cons_append, List.head?_cons, Option.all_some,
            Yaml.isNonSpace_not_white (Yaml.plainSafe_nonSpace hsafe)] at hwhite
          cases hwhite

/-- **The name of an implicit entry is its key in plain style.** -/
theorem entry_name {raw key space head gap value : List Char} {name : String} {keyNode : Yaml.Node}
    (hbody : lineBody raw = key ++ space ++ ':' :: head) (hflow : Yaml.Flow (.node false) key keyNode)
    (hbreak : '\n' ∉ key) (hspace : Yaml.blank space = true) (hshape : Shaped raw name gap value) :
    keyNode = .scalar { plain := true, content := name.toList } ∧ value = head := by
  obtain ⟨c, name', hname, hstart⟩ := hshape.start
  have hsame : (key ++ space) ++ ':' :: head = (name.toList ++ gap) ++ ':' :: value := by
    rw [← hbody, hshape.body]
  have hplain : Yaml.PlainText false key ∧ keyNode = .scalar { plain := true, content := Yaml.foldBreaks key } := by
    have hhead : key.head? = some c := by
      obtain ⟨d, rest, rfl, -⟩ := hflow.starts.exists_first
      rw [hname] at hsame
      simp only [List.cons_append, List.cons.injEq] at hsame
      rw [hsame.1]
      rfl
    rcases hflow.node_cases with hplain | ⟨body, content, rfl, -⟩ | ⟨body, content, rfl, -⟩ | ⟨rest, items, rfl, -⟩ |
      ⟨rest, entries, rfl, -⟩
    · exact hplain
    all_goals
      rw [← Option.some.inj hhead] at hstart
      cases hstart
  obtain ⟨hequal, hvalue⟩ := hshape.key_eq hplain.1 hspace hsame
  have hkey : key = name.toList := by
    have hleft : Yaml.trimRight (key ++ space) = key := trimRight_append (fun d hd => by
      have hlast := hplain.1.last
      rw [hd] at hlast
      exact Yaml.isNonSpace_not_white hlast) hspace
    rw [← hleft, hequal, hshape.trimRight_eq]
  refine ⟨?_, hvalue.symm⟩
  rw [hplain.2, foldBreaks_single hbreak, hkey]

/-! ## The lines behind a key -/

/-- A line that opens no key while one less indented is open. -/
def Nameless (n : Nat) (raw : List Char) : Prop :=
  Yaml.isGap raw = true ∨ isDash raw = true ∨ (n < lineIndent raw ∧ lineName raw = none)

/-- **Under a selected path only items pass.** -/
theorem Reads.nameless {lines : List (List Char)} {n : Nat} {key : Path} {base : List (Nat × Path)}
    (h : Reads fields lines s s') (hstack : s.stack = (n, key) :: base) (hkey : isAncestor fields key = true)
    (hlines : ∀ raw ∈ lines, Nameless n raw) :
    (∀ raw ∈ lines, isQuiet raw = true ∨ isDash raw = true) ∧ s'.stack = s.stack ∧ s'.seen = s.seen ∧
      ∀ q, q ≠ key → s'.result q = s.result q := by
  induction lines generalizing s with
  | nil =>
    rw [reads_nil.1 h]
    exact ⟨fun _ hmem => absurd hmem List.not_mem_nil, rfl, rfl, fun _ _ => rfl⟩
  | cons raw lines ih =>
    obtain ⟨s₁, hline, hrest⟩ := reads_cons.1 h
    have hfirst : (isQuiet raw = true ∨ isDash raw = true) ∧ s₁.stack = s.stack ∧ s₁.seen = s.seen ∧
        ∀ q, q ≠ key → s₁.result q = s.result q := by
      rcases readLine_cases hline with ⟨hquiet, rfl⟩ | ⟨-, hdash, hitem⟩ | ⟨hquiet, hdash, htab, hentry⟩
      · exact ⟨Or.inl hquiet, rfl, rfl, fun _ _ => rfl⟩
      · refine ⟨Or.inr hdash, ?_⟩
        rcases readItem_cases hitem with rfl | ⟨m, key', rest, items, value, hstack', -, -, -, -, rfl⟩
        · exact ⟨rfl, rfl, fun _ _ => rfl⟩
        · rw [hstack] at hstack'
          cases hstack'
          exact ⟨rfl, rfl, fun q hq => Function.update_of_ne hq _ _⟩
      · exfalso
        rcases hlines raw List.mem_cons_self with hgap | hyes | ⟨hdeep, hname⟩
        · have := (readLine_gap hline hgap).1
          rw [hquiet] at this
          cases this
        · rw [hdash] at hyes
          cases hyes
        · have hno := (readLine_nameless hline ⟨rfl, hquiet, hdash⟩ hname).2
          have htop : (s.popTo (lineIndent raw)).top = key := by
            show topOf (s.stack.dropWhile _) = key
            rw [hstack, List.dropWhile_cons_of_neg (by simp; omega)]
            rfl
          rw [htop, hkey] at hno
          cases hno
    obtain ⟨hpass, hstack₁, hseen₁, hresult₁⟩ := hfirst
    obtain ⟨hpass', hstack', hseen', hresult'⟩ := ih hrest (hstack₁.trans hstack) fun line hmem =>
      hlines line (List.mem_cons_of_mem raw hmem)
    refine ⟨fun line hmem => ?_, hstack'.trans hstack₁, hseen'.trans hseen₁, fun q hq =>
      (hresult' q hq).trans (hresult₁ q hq)⟩
    rcases List.mem_cons.1 hmem with rfl | hmem
    · exact hpass
    · exact hpass' line hmem

end ReadyBeads

end Subgov
