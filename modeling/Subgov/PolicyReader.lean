import Subgov.NeedlePolicy
/-!
# PolicyReader — what one line does to the reader

The stack holds the open keys with their indentation, each a key below the one under it.  A relevant path is marked the
first time that a line forms it, and only then can a value come to stand under it; once its key is closed it is sealed,
since forming it again is refused (`Sealed.run`).
-/
namespace Subgov

open Python

namespace ReadyBeads

section Lines

variable {fields : List Path} {s s' : PolicyReader}

/-! ## One line -/

/-- A line behind its indentation. -/
def lineBody (raw : List Char) : List Char := raw.dropWhile (· == ' ')

def lineIndent (raw : List Char) : Nat := raw.length - (lineBody raw).length

/-- A line that is passed over. -/
def isQuiet (raw : List Char) : Bool := (lineBody raw).isEmpty || (lineBody raw).head? == some '#'

def isDash (raw : List Char) : Bool := "- ".toList.isPrefixOf (lineBody raw)

/-- A line with a name, that is read as one. -/
def lineName (raw : List Char) : Option String :=
  if isQuiet raw || isDash raw || (lineBody raw).head? == some '\t' then none else (matchKey (lineBody raw)).map (·.1)

/-- What is read of a line that is neither passed over nor an item. -/
theorem readLine_cases {raw : List Char} (h : readLine fields s raw = .ok s') :
    (isQuiet raw = true ∧ s' = s) ∨
      (isQuiet raw = false ∧ isDash raw = true ∧ readItem fields s (lineIndent raw) ((lineBody raw).drop 2) = .ok s') ∨
      (isQuiet raw = false ∧ isDash raw = false ∧ (lineBody raw).head? ≠ some '\t' ∧
        readEntry fields (s.popTo (lineIndent raw)) (lineIndent raw) (lineBody raw) = .ok s') := by
  unfold readLine at h
  unfold isQuiet isDash
  dsimp only at h
  split at h
  · rename_i hquiet
    refine Or.inl ⟨?_, (Except.ok.inj h).symm⟩
    rw [Bool.or_eq_true, beq_iff_eq]
    exact hquiet
  · rename_i hloud
    have hfalse : ((lineBody raw).isEmpty || (lineBody raw).head? == some '#') = false := by
      rw [Bool.eq_false_iff, Ne, Bool.or_eq_true, beq_iff_eq]
      exact hloud
    split at h
    · cases h
    · rename_i htab
      split at h
      · rename_i hdash
        exact Or.inr (Or.inl ⟨hfalse, hdash, h⟩)
      · rename_i hdash
        exact Or.inr (Or.inr ⟨hfalse, Bool.eq_false_iff.2 hdash, htab, h⟩)

theorem readItem_cases {indent : Nat} {item : List Char} (h : readItem fields s indent item = .ok s') :
    s' = s ∨ ∃ n key rest items value, s.stack = (n, key) :: rest ∧ key ∈ fields ∧ n ≤ indent ∧
      s.result key = some (.list items) ∧ scalar item = .ok value ∧ s' = s.set key (.list (items ++ [value])) := by
  unfold readItem at h
  split at h
  · exact Or.inl (Except.ok.inj h).symm
  · rename_i n key rest hstack
    split at h
    · rename_i hopen
      split at h
      · rename_i items hitems
        obtain ⟨value, hvalue, rfl⟩ := ok_of_map h
        exact Or.inr ⟨n, key, rest, items, value, hstack, hopen.1, hopen.2, hitems, hvalue, rfl⟩
      · cases h
    · exact Or.inl (Except.ok.inj h).symm

/-- A value that stands on the line of its key. -/
def HasText (value : List Char) : Prop := value ≠ [] ∧ value.head? ≠ some '#'

/-- What a relevant key does, the first time it is formed. -/
structure Marks (fields : List Path) (s : PolicyReader) (key : Path) (value : List Char) (s' : PolicyReader) : Prop where
  fresh : key ∉ s.seen
  stack : s'.stack = s.stack
  seen : s'.seen = key :: s.seen
  other : ∀ q, q ≠ key → s'.result q = s.result q
  inline : HasText value → key ∈ fields ∧ ∃ v, scalar value = .ok v ∧ s'.result key = some v
  below : ¬ HasText value → key ∈ fields → s'.result key = some (.list [])
  outside : key ∉ fields → s'.result key = s.result key

theorem Marks.mem {key : Path} {value : List Char} (h : Marks fields s key value s') : key ∈ s'.seen :=
  h.seen ▸ List.mem_cons_self

theorem Marks.mem_iff {key q : Path} {value : List Char} (h : Marks fields s key value s') (hq : q ≠ key) :
    q ∈ s'.seen ↔ q ∈ s.seen := by
  rw [h.seen, List.mem_cons]
  exact ⟨fun hor => hor.resolve_left hq, Or.inr⟩

theorem readValue_marks {key : Path} {value : List Char} (h : readValue fields s key value = .ok s') :
    Marks fields s key value s' := by
  unfold readValue at h
  split at h
  · cases h
  · rename_i hfresh
    split at h
    · rename_i hvalue
      split at h
      · rename_i hfield
        obtain ⟨v, hv, rfl⟩ := ok_of_map h
        exact ⟨hfresh, rfl, rfl, fun q hq => Function.update_of_ne hq _ _,
          fun _ => ⟨hfield, v, hv, Function.update_self _ _ _⟩, fun hno => absurd hvalue hno, fun hout => absurd hfield hout⟩
      · cases h
    · rename_i hempty
      split at h
      · rename_i hfield
        cases h
        exact ⟨hfresh, rfl, rfl, fun q hq => Function.update_of_ne hq _ _, fun hyes => absurd hyes hempty,
          fun _ _ => Function.update_self _ _ _, fun hout => absurd hfield hout⟩
      · rename_i hfield
        cases h
        exact ⟨hfresh, rfl, rfl, fun q _ => rfl, fun hyes => absurd hyes hempty, fun _ hin => absurd hin hfield,
          fun _ => rfl⟩

/-- What an entry does: nothing where it has no name, and otherwise it opens its key. -/
inductive Enters (fields : List Path) (s : PolicyReader) (indent : Nat) (line : List Char) : PolicyReader → Prop
  | other : matchKey line = none → isAncestor fields s.top = false → Enters fields s indent line s
  | plain (name : String) (value : List Char) : matchKey line = some (name, value) →
      isAncestor fields (s.top ++ [name]) = false → Enters fields s indent line (s.push indent (s.top ++ [name]))
  | marked (name : String) (value : List Char) (s₁ : PolicyReader) : matchKey line = some (name, value) →
      isAncestor fields (s.top ++ [name]) = true → Marks fields s (s.top ++ [name]) value s₁ →
      Enters fields s indent line (s₁.push indent (s.top ++ [name]))

theorem readEntry_enters {indent : Nat} {line : List Char} (h : readEntry fields s indent line = .ok s') :
    Enters fields s indent line s' := by
  unfold readEntry at h
  split at h
  · rename_i hnone
    unfold readOther at h
    split at h
    · cases h
    · split at h
      · cases h
      · rename_i hother
        cases h
        exact .other hnone (Bool.eq_false_iff.2 hother)
  · rename_i name value hsome
    dsimp only at h
    split at h
    · rename_i hancestor
      obtain ⟨s₁, hs₁, rfl⟩ := ok_of_map h
      exact .marked name value s₁ hsome hancestor (readValue_marks hs₁)
    · rename_i hancestor
      cases h
      exact .plain name value hsome (Bool.eq_false_iff.2 hancestor)

/-! ## The stack -/

def topOf (stack : List (Nat × Path)) : Path := stack.head?.elim [] (·.2)

theorem PolicyReader.top_eq (s : PolicyReader) : s.top = topOf s.stack := rfl

/-- Each key is less indented than the one that it opens, and is one name shorter. -/
def Chained : List (Nat × Path) → Prop
  | [] => True
  | e :: rest => (∀ d ∈ rest, d.1 < e.1) ∧ (∃ name, e.2 = topOf rest ++ [name]) ∧ Chained rest

theorem Chained.of_suffix {stack rest : List (Nat × Path)} (h : Chained stack) (hrest : rest <:+ stack) :
    Chained rest := by
  induction stack with
  | nil =>
    rw [List.suffix_nil.1 hrest]
    trivial
  | cons e stack ih =>
    rcases List.suffix_cons_iff.1 hrest with rfl | hsuffix
    · exact h
    · exact ih h.2.2 hsuffix

theorem Chained.length_eq : ∀ {stack : List (Nat × Path)}, Chained stack → (topOf stack).length = stack.length
  | [], _ => rfl
  | e :: rest, h => by
    obtain ⟨name, hname⟩ := h.2.1
    show e.2.length = _
    rw [hname, List.length_append, h.2.2.length_eq]
    rfl

/-- The open keys are the starts of the innermost one. -/
theorem Chained.mem_of_extended : ∀ {stack : List (Nat × Path)}, Chained stack → ∀ {q : Path}, q ≠ [] →
    q <+: topOf stack → ∃ e ∈ stack, e.2 = q
  | [], _, q, hq, hinitial => absurd (List.prefix_nil.1 hinitial) hq
  | e :: rest, h, q, hq, hinitial => by
    obtain ⟨name, hname⟩ := h.2.1
    have htop : topOf (e :: rest) = topOf rest ++ [name] := hname
    rw [htop] at hinitial
    rcases List.prefix_concat_iff.1 hinitial with heq | hshort
    · exact ⟨e, List.mem_cons_self, by rw [hname, ← heq]⟩
    · obtain ⟨d, hd, hdq⟩ := h.2.2.mem_of_extended hq hshort
      exact ⟨d, List.mem_cons_of_mem e hd, hdq⟩

/-! ## The run -/

theorem isAncestor_iff {key : Path} : isAncestor fields key = true ↔ key ≠ [] ∧ ∃ field ∈ fields, key <+: field := by
  unfold isAncestor
  rw [Bool.and_eq_true, Bool.not_eq_true', List.isEmpty_eq_false_iff, List.any_eq_true]
  simp only [List.isPrefixOf_iff_prefix]

/-- What holds after every line: a relevant key is marked when it is opened, before a value stands at it. -/
structure Orderly (fields : List Path) (s : PolicyReader) : Prop where
  chained : Chained s.stack
  opened : ∀ e ∈ s.stack, isAncestor fields e.2 = true → e.2 ∈ s.seen
  recorded : ∀ q, s.result q ≠ none → q ∈ s.seen
  selected : ∀ q, s.result q ≠ none → q ∈ fields
  relevant : ∀ q ∈ s.seen, isAncestor fields q = true
  /-- A key was formed below an open one. -/
  closed : ∀ q name, q ≠ [] → q ++ [name] ∈ s.seen → q ∈ s.seen

theorem orderly_start : Orderly fields {} where
  chained := trivial
  opened _ h := absurd h List.not_mem_nil
  recorded _ h := absurd rfl h
  selected _ h := absurd rfl h
  relevant _ h := absurd h List.not_mem_nil
  closed _ _ _ h := absurd h List.not_mem_nil

theorem Orderly.popTo (h : Orderly fields s) (indent : Nat) : Orderly fields (s.popTo indent) where
  chained := h.chained.of_suffix (List.dropWhile_suffix _)
  opened e he := h.opened e ((List.dropWhile_suffix _).subset he)
  recorded := h.recorded
  selected := h.selected
  relevant := h.relevant
  closed := h.closed

/-- A value below a key, where that is relevant, needs the key to be marked. -/
theorem Orderly.mem_of_extended (h : Orderly fields s) {key q : Path} (hkey : key ≠ []) (hinitial : key <+: q)
    (hq : q ∈ s.seen) : key ∈ s.seen := by
  obtain ⟨rest, rfl⟩ := hinitial
  induction rest using List.reverseRecOn with
  | nil => rwa [List.append_nil] at hq
  | append_singleton rest name ih =>
    rw [← List.append_assoc] at hq
    exact ih (h.closed (key ++ rest) name (by simp [hkey]) hq)

theorem Orderly.push (h : Orderly fields s) {indent : Nat} {name : String} (hdeep : ∀ d ∈ s.stack, d.1 < indent)
    (hmarked : isAncestor fields (s.top ++ [name]) = true → s.top ++ [name] ∈ s.seen) :
    Orderly fields (s.push indent (s.top ++ [name])) where
  chained := ⟨hdeep, ⟨name, rfl⟩, h.chained⟩
  opened e he := by
    rcases List.mem_cons.1 he with rfl | hrest
    · exact hmarked
    · exact h.opened e hrest
  recorded := h.recorded
  selected := h.selected
  relevant := h.relevant
  closed := h.closed

theorem Marks.orderly {key : Path} {value : List Char} {name : String} (hmarks : Marks fields s key value s')
    (hkey : key = s.top ++ [name]) (hancestor : isAncestor fields key = true) (h : Orderly fields s) :
    Orderly fields s' where
  chained := hmarks.stack ▸ h.chained
  opened e he hrelevant := by
    rw [hmarks.stack] at he
    rw [hmarks.seen]
    exact List.mem_cons_of_mem _ (h.opened e he hrelevant)
  recorded q hq := by
    rw [hmarks.seen]
    by_cases hsame : q = key
    · exact hsame ▸ List.mem_cons_self
    · rw [hmarks.other q hsame] at hq
      exact List.mem_cons_of_mem _ (h.recorded q hq)
  selected q hq := by
    by_cases hsame : q = key
    · subst hsame
      by_contra hout
      rw [hmarks.outside hout] at hq
      exact hout (h.selected q hq)
    · rw [hmarks.other q hsame] at hq
      exact h.selected q hq
  relevant q hq := by
    rw [hmarks.seen] at hq
    rcases List.mem_cons.1 hq with rfl | hold
    · exact hancestor
    · exact h.relevant q hold
  closed q other hq hmem := by
    rw [hmarks.seen] at hmem ⊢
    rcases List.mem_cons.1 hmem with hnew | hold
    · -- the key was formed below the innermost open one
      rw [hkey] at hnew
      obtain ⟨htop, -⟩ := List.append_inj' hnew rfl
      have hrelevant : isAncestor fields q = true := by
        rw [isAncestor_iff] at hancestor ⊢
        obtain ⟨-, field, hfield, hinitial⟩ := hancestor
        rw [hkey, ← htop] at hinitial
        exact ⟨hq, field, hfield, (List.prefix_append _ _).trans hinitial⟩
      obtain ⟨e, he, heq⟩ := h.chained.mem_of_extended hq (by rw [htop]; exact List.prefix_refl _)
      exact List.mem_cons_of_mem _ (heq ▸ h.opened e he (heq ▸ hrelevant))
    · exact List.mem_cons_of_mem _ (h.closed q other hq hold)

theorem popTo_lt {indent : Nat} (hchained : Chained s.stack) : ∀ d ∈ (s.popTo indent).stack, d.1 < indent := by
  have hgo : ∀ stack : List (Nat × Path), Chained stack →
      ∀ d ∈ stack.dropWhile (fun entry => indent ≤ entry.1), d.1 < indent := by
    intro stack
    induction stack with
    | nil => exact fun _ _ hd => absurd hd List.not_mem_nil
    | cons e rest ih =>
      intro hstack d hd
      rw [List.dropWhile_cons] at hd
      split at hd
      · exact ih hstack.2.2 d hd
      · rename_i hshallow
        have he : e.1 < indent := by simpa using hshallow
        rcases List.mem_cons.1 hd with rfl | hrest
        · exact he
        · exact Nat.lt_trans (hstack.1 d hrest) he
  exact hgo s.stack hchained

theorem Enters.orderly {indent : Nat} {line : List Char} (hdeep : ∀ d ∈ s.stack, d.1 < indent)
    (henters : Enters fields s indent line s') (h : Orderly fields s) : Orderly fields s' := by
  cases henters with
  | other => exact h
  | plain name value hname hancestor =>
    exact h.push hdeep fun hyes => absurd (hancestor.symm.trans hyes) Bool.false_ne_true
  | marked name value s₁ hname hancestor hmarks =>
    have hs₁ := hmarks.orderly rfl hancestor h
    have htop : s₁.top = s.top := by rw [PolicyReader.top_eq, PolicyReader.top_eq, hmarks.stack]
    rw [← htop] at hmarks ⊢
    exact hs₁.push (hmarks.stack ▸ hdeep) fun _ => hmarks.mem

theorem readItem_orderly {indent : Nat} {item : List Char} (hread : readItem fields s indent item = .ok s')
    (h : Orderly fields s) : Orderly fields s' := by
  rcases readItem_cases hread with rfl | ⟨n, key, rest, items, value, hstack, hfield, -, hitems, -, rfl⟩
  · exact h
  · have hold : ∀ q, q ≠ key → (s.set key (.list (items ++ [value]))).result q = s.result q := fun q hq =>
      Function.update_of_ne hq _ _
    refine ⟨h.chained, h.opened, fun q hq => ?_, fun q hq => ?_, h.relevant, h.closed⟩
    · by_cases hsame : q = key
      · exact hsame ▸ h.recorded key (by rw [hitems]; exact Option.some_ne_none _)
      · exact h.recorded q (hold q hsame ▸ hq)
    · by_cases hsame : q = key
      · exact hsame ▸ hfield
      · exact h.selected q (hold q hsame ▸ hq)

theorem readLine_orderly {raw : List Char} (hread : readLine fields s raw = .ok s') (h : Orderly fields s) :
    Orderly fields s' := by
  rcases readLine_cases hread with ⟨-, rfl⟩ | ⟨-, -, hitem⟩ | ⟨-, -, -, hentry⟩
  · exact h
  · exact readItem_orderly hitem h
  · exact (readEntry_enters hentry).orderly (popTo_lt h.chained) (h.popTo _)

/-! ## Closed keys -/

/-- A relevant key that was formed and is not open. -/
structure Sealed (key : Path) (s : PolicyReader) : Prop where
  seen : key ∈ s.seen
  closed : ∀ e ∈ s.stack, e.2 ≠ key

theorem Sealed.not_prefix {key : Path} (h : Orderly fields s) (hkey : key ≠ []) (hsealed : Sealed key s) :
    ¬ key <+: s.top := fun hinitial => by
  obtain ⟨e, he, heq⟩ := h.chained.mem_of_extended hkey hinitial
  exact hsealed.closed e he heq

/-- A sealed key stays sealed, and nothing below it changes. -/
theorem Sealed.line {key : Path} {raw : List Char} (hread : readLine fields s raw = .ok s') (h : Orderly fields s)
    (hkey : key ≠ []) (hsealed : Sealed key s) : Sealed key s' ∧ ∀ q, key <+: q → s'.result q = s.result q := by
  rcases readLine_cases hread with ⟨-, rfl⟩ | ⟨-, -, hitem⟩ | ⟨-, -, -, hentry⟩
  · exact ⟨hsealed, fun _ _ => rfl⟩
  · rcases readItem_cases hitem with rfl | ⟨n, open_, rest, items, value, hstack, -, -, -, -, rfl⟩
    · exact ⟨hsealed, fun _ _ => rfl⟩
    · refine ⟨⟨hsealed.seen, hsealed.closed⟩, fun q hq => Function.update_of_ne ?_ _ _⟩
      rintro rfl
      refine hsealed.not_prefix h hkey ?_
      rw [PolicyReader.top_eq, hstack]
      exact hq
  · have hpopped : Sealed key (s.popTo (lineIndent raw)) :=
      ⟨hsealed.seen, fun e he => hsealed.closed e ((List.dropWhile_suffix _).subset he)⟩
    have hout := hpopped.not_prefix (h.popTo _) hkey
    cases readEntry_enters hentry with
    | other => exact ⟨hpopped, fun _ _ => rfl⟩
    | plain name value hname hancestor =>
      refine ⟨⟨hsealed.seen, fun e he => ?_⟩, fun _ _ => rfl⟩
      rcases List.mem_cons.1 he with rfl | hrest
      · rintro rfl
        rw [h.relevant _ hsealed.seen] at hancestor
        cases hancestor
      · exact hpopped.closed e hrest
    | marked name value s₁ hname hancestor hmarks =>
      have hne : (s.popTo (lineIndent raw)).top ++ [name] ≠ key := fun hsame =>
        hmarks.fresh (hsame ▸ hsealed.seen)
      refine ⟨⟨?_, fun e he => ?_⟩, fun q hq => hmarks.other q ?_⟩
      · show key ∈ s₁.seen
        rw [hmarks.seen]
        exact List.mem_cons_of_mem _ hsealed.seen
      · rcases List.mem_cons.1 he with rfl | hrest
        · exact hne
        · rw [hmarks.stack] at hrest
          exact hpopped.closed e hrest
      · rintro rfl
        rcases List.prefix_concat_iff.1 hq with heq | hshort
        · exact hne heq.symm
        · exact hout hshort

/-- **Nothing below a closed key changes any more.** -/
theorem Sealed.run {key : Path} (hkey : key ≠ []) {q : Path} (hq : key <+: q) :
    ∀ {lines : List (List Char)} {s s' : PolicyReader}, lines.foldlM (readLine fields) s = .ok s' →
      Orderly fields s → Sealed key s → s'.result q = s.result q
  | [], s, s', hrun, _, _ => by rw [← Except.ok.inj hrun]
  | line :: lines, s, s', hrun, h, hsealed => by
    obtain ⟨s₁, hline, hrest⟩ := ok_of_bind hrun
    obtain ⟨hsealed', hsame⟩ := hsealed.line hline h hkey
    rw [Sealed.run hkey hq hrest (readLine_orderly hline h) hsealed', hsame q hq]

end Lines

end ReadyBeads

end Subgov
