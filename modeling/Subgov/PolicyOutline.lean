import Subgov.PolicyReader
/-!
# PolicyOutline — the paths that a text spells by its indentation

The reader's stack depends on the text alone: `spelled` lists the paths that its `name:` lines spell, and nothing else is
ever marked.  Lines that stay at some indentation leave the keys below it open (`Based`), and what is not under those
keys does not change (`Based.frame`).
-/
namespace Subgov

open Python

namespace ReadyBeads

/-! ## The outline -/

/-- The open keys after a line. -/
def outlineStep (stack : List (Nat × Path)) (raw : List Char) : List (Nat × Path) :=
  if isQuiet raw || isDash raw then stack
  else
    let rest := stack.dropWhile fun entry => lineIndent raw ≤ entry.1
    match lineName raw with
    | some name => (lineIndent raw, topOf rest ++ [name]) :: rest
    | none => rest

/-- The keys that `name:` lines open, in their order. -/
def spelled (stack : List (Nat × Path)) : List (List Char) → List (Nat × Path)
  | [] => []
  | raw :: lines =>
    (if (lineName raw).isSome then (outlineStep stack raw).head?.toList else []) ++ spelled (outlineStep stack raw) lines

theorem spelled_append (stack : List (Nat × Path)) (lines others : List (List Char)) :
    spelled stack (lines ++ others) = spelled stack lines ++ spelled (lines.foldl outlineStep stack) others := by
  induction lines generalizing stack with
  | nil => rfl
  | cons raw lines ih => rw [List.cons_append, spelled, spelled, ih, List.append_assoc, List.foldl_cons]

section Lines

variable {fields : List Path} {s s' : PolicyReader}

theorem lineName_eq {raw : List Char} (hquiet : isQuiet raw = false) (hdash : isDash raw = false)
    (htab : (lineBody raw).head? ≠ some '\t') : lineName raw = (matchKey (lineBody raw)).map (·.1) := by
  unfold lineName
  rw [hquiet, hdash, Bool.false_or, Bool.false_or, if_neg (by rwa [beq_iff_eq])]

theorem outlineStep_pass {stack : List (Nat × Path)} {raw : List Char} (h : isQuiet raw = true ∨ isDash raw = true) :
    outlineStep stack raw = stack := by
  unfold outlineStep
  rw [if_pos (by rwa [Bool.or_eq_true])]

theorem outlineStep_entry {stack : List (Nat × Path)} {raw : List Char} (hquiet : isQuiet raw = false)
    (hdash : isDash raw = false) : outlineStep stack raw =
      match lineName raw with
      | some name => (lineIndent raw, topOf (stack.dropWhile fun entry => lineIndent raw ≤ entry.1) ++ [name]) ::
          stack.dropWhile fun entry => lineIndent raw ≤ entry.1
      | none => stack.dropWhile fun entry => lineIndent raw ≤ entry.1 := by
  unfold outlineStep
  rw [hquiet, hdash]
  rfl

/-- A line that is passed over or an item has no name. -/
theorem lineName_pass {raw : List Char} (h : isQuiet raw = true ∨ isDash raw = true) : lineName raw = none := by
  unfold lineName
  rw [if_pos]
  rcases h with h | h <;> simp [h]

theorem readLine_stack {raw : List Char} (h : readLine fields s raw = .ok s') :
    s'.stack = outlineStep s.stack raw := by
  rcases readLine_cases h with ⟨hquiet, rfl⟩ | ⟨-, hdash, hitem⟩ | ⟨hquiet, hdash, htab, hentry⟩
  · rw [outlineStep_pass (Or.inl hquiet)]
  · rw [outlineStep_pass (Or.inr hdash)]
    rcases readItem_cases hitem with rfl | ⟨n, key, rest, items, value, -, -, -, -, -, rfl⟩
    · rfl
    · rfl
  · rw [outlineStep_entry hquiet hdash, lineName_eq hquiet hdash htab]
    cases readEntry_enters hentry with
    | other hname =>
      rw [hname]
      rfl
    | plain name value hname =>
      rw [hname]
      rfl
    | marked name value s₁ hname hancestor hmarks =>
      rw [hname]
      show (_, _) :: s₁.stack = _
      rw [hmarks.stack]
      rfl

/-- What a line marks, it spells. -/
theorem readLine_seen {raw : List Char} (h : readLine fields s raw = .ok s') {q : Path} (hq : q ∈ s'.seen) :
    q ∈ s.seen ∨ (lineIndent raw, q) ∈ spelled s.stack [raw] := by
  rcases readLine_cases h with ⟨-, rfl⟩ | ⟨-, -, hitem⟩ | ⟨hquiet, hdash, htab, hentry⟩
  · exact Or.inl hq
  · rcases readItem_cases hitem with rfl | ⟨n, key, rest, items, value, -, -, -, -, -, rfl⟩
    · exact Or.inl hq
    · exact Or.inl hq
  · cases readEntry_enters hentry with
    | other => exact Or.inl hq
    | plain => exact Or.inl hq
    | marked name value s₁ hname hancestor hmarks =>
      have hseen : q ∈ s₁.seen := hq
      rw [hmarks.seen] at hseen
      rcases List.mem_cons.1 hseen with rfl | hold
      · have hline : lineName raw = some name := by
          rw [lineName_eq hquiet hdash htab, hname]
          rfl
        refine Or.inr ?_
        rw [spelled, outlineStep_entry hquiet hdash, hline]
        exact List.mem_append_left _ (List.mem_singleton.2 rfl)
      · exact Or.inl hold

/-! ## Runs -/

/-- The lines read one after the other. -/
def Reads (fields : List Path) (lines : List (List Char)) (s s' : PolicyReader) : Prop :=
  lines.foldlM (readLine fields) s = .ok s'

theorem reads_nil : Reads fields [] s s' ↔ s' = s :=
  ⟨fun h => (Except.ok.inj h).symm, fun h => h ▸ rfl⟩

theorem reads_cons {raw : List Char} {lines : List (List Char)} :
    Reads fields (raw :: lines) s s' ↔ ∃ s₁, readLine fields s raw = .ok s₁ ∧ Reads fields lines s₁ s' := by
  unfold Reads
  rw [List.foldlM_cons]
  refine ⟨ok_of_bind, fun ⟨s₁, hline, hrest⟩ => ?_⟩
  rw [hline]
  exact hrest

theorem reads_append {lines others : List (List Char)} :
    Reads fields (lines ++ others) s s' ↔ ∃ s₁, Reads fields lines s s₁ ∧ Reads fields others s₁ s' := by
  induction lines generalizing s with
  | nil => exact ⟨fun h => ⟨s, reads_nil.2 rfl, h⟩, fun ⟨s₁, hnil, h⟩ => reads_nil.1 hnil ▸ h⟩
  | cons raw lines ih =>
    rw [List.cons_append, reads_cons]
    constructor
    · rintro ⟨s₁, hline, hrest⟩
      obtain ⟨s₂, hlines, hothers⟩ := ih.1 hrest
      exact ⟨s₂, reads_cons.2 ⟨s₁, hline, hlines⟩, hothers⟩
    · rintro ⟨s₂, hlines, hothers⟩
      obtain ⟨s₁, hline, hrest⟩ := reads_cons.1 hlines
      exact ⟨s₁, hline, ih.2 ⟨s₂, hrest, hothers⟩⟩

/-- What every line keeps, a run keeps. -/
theorem Reads.keeps {P : PolicyReader → Prop} {lines : List (List Char)} (h : Reads fields lines s s') (hs : P s)
    (hline : ∀ raw ∈ lines, ∀ {t t' : PolicyReader}, readLine fields t raw = .ok t' → P t → P t') : P s' := by
  induction lines generalizing s with
  | nil => exact reads_nil.1 h ▸ hs
  | cons raw lines ih =>
    obtain ⟨s₁, hfirst, hrest⟩ := reads_cons.1 h
    exact ih hrest (hline raw List.mem_cons_self hfirst hs) fun other hmem => hline other (List.mem_cons_of_mem raw hmem)

theorem Reads.orderly {lines : List (List Char)} (h : Reads fields lines s s') (hs : Orderly fields s) :
    Orderly fields s' :=
  h.keeps hs fun _ _ _ _ hline ht => readLine_orderly hline ht

theorem Reads.stack {lines : List (List Char)} (h : Reads fields lines s s') :
    s'.stack = lines.foldl outlineStep s.stack := by
  induction lines generalizing s with
  | nil => rw [reads_nil.1 h, List.foldl_nil]
  | cons raw lines ih =>
    obtain ⟨s₁, hline, hrest⟩ := reads_cons.1 h
    rw [ih hrest, readLine_stack hline, List.foldl_cons]

/-- **Only what the text spells is ever marked.** -/
theorem Reads.seen {lines : List (List Char)} (h : Reads fields lines s s') {q : Path} (hq : q ∈ s'.seen) :
    q ∈ s.seen ∨ ∃ n, (n, q) ∈ spelled s.stack lines := by
  induction lines generalizing s with
  | nil => exact Or.inl (reads_nil.1 h ▸ hq)
  | cons raw lines ih =>
    obtain ⟨s₁, hline, hrest⟩ := reads_cons.1 h
    have hsplit : spelled s.stack (raw :: lines) = spelled s.stack [raw] ++ spelled s₁.stack lines := by
      rw [readLine_stack hline, ← List.singleton_append, spelled_append]
      rfl
    rcases ih hrest with hfirst | ⟨n, hn⟩
    · rcases readLine_seen hline hfirst with hold | hnew
      · exact Or.inl hold
      · exact Or.inr ⟨_, hsplit ▸ List.mem_append_left _ hnew⟩
    · exact Or.inr ⟨n, hsplit ▸ List.mem_append_right _ hn⟩

theorem readLine_seen_mono {raw : List Char} (h : readLine fields s raw = .ok s') : s.seen ⊆ s'.seen := by
  rcases readLine_cases h with ⟨-, rfl⟩ | ⟨-, -, hitem⟩ | ⟨-, -, -, hentry⟩
  · exact List.Subset.refl _
  · rcases readItem_cases hitem with rfl | ⟨n, key, rest, items, value, -, -, -, -, -, rfl⟩
    · exact List.Subset.refl _
    · exact List.Subset.refl _
  · cases readEntry_enters hentry with
    | other => exact List.Subset.refl _
    | plain => exact List.Subset.refl _
    | marked name value s₁ hname hancestor hmarks =>
      show s.seen ⊆ s₁.seen
      rw [hmarks.seen]
      exact List.subset_cons_self _ _

theorem Reads.seen_mono {lines : List (List Char)} (h : Reads fields lines s s') : s.seen ⊆ s'.seen :=
  h.keeps (P := fun t => s.seen ⊆ t.seen) (List.Subset.refl _) fun _ _ _ _ hline ht =>
    List.Subset.trans ht (readLine_seen_mono hline)

/-! ## Below an indentation -/

/-- Above `base` are only keys indented by `n` at least. -/
def Based (n : Nat) (base : List (Nat × Path)) (s : PolicyReader) : Prop :=
  ∃ above, s.stack = above ++ base ∧ ∀ e ∈ above, n ≤ e.1

/-- A line that closes no key less indented than `n`. -/
def Covered (n : Nat) (raw : List Char) : Prop := isQuiet raw = true ∨ isDash raw = true ∨ n ≤ lineIndent raw

theorem Covered.deep {n : Nat} {raw : List Char} (h : Covered n raw) (hquiet : isQuiet raw = false)
    (hdash : isDash raw = false) : n ≤ lineIndent raw := by
  rcases h with hyes | hyes | hm
  · exact absurd (hquiet.symm.trans hyes) Bool.false_ne_true
  · exact absurd (hdash.symm.trans hyes) Bool.false_ne_true
  · exact hm

variable {n : Nat} {base : List (Nat × Path)}

theorem based_self (s : PolicyReader) (n : Nat) : Based n s.stack s := ⟨[], rfl, fun _ h => absurd h List.not_mem_nil⟩

theorem Based.popTo (h : Based n base s) (hbase : ∀ e ∈ base, e.1 < n) {m : Nat} (hm : n ≤ m) :
    Based n base (s.popTo m) := by
  obtain ⟨above, hstack, habove⟩ := h
  refine ⟨above.dropWhile fun entry => m ≤ entry.1, ?_, fun e he => habove e ((List.dropWhile_suffix _).subset he)⟩
  show s.stack.dropWhile _ = _
  rw [hstack, List.dropWhile_append]
  split
  · rename_i hnil
    rw [List.isEmpty_iff.1 hnil, List.nil_append]
    cases base with
    | nil => rfl
    | cons e rest =>
      have he := hbase e List.mem_cons_self
      rw [List.dropWhile_cons_of_neg (by simp; omega)]
  · rfl

/-- A line at the indentation itself closes all of them. -/
theorem Based.popTo_self (h : Based n base s) (hbase : ∀ e ∈ base, e.1 < n) : (s.popTo n).stack = base := by
  obtain ⟨above, hstack, habove⟩ := h
  show s.stack.dropWhile _ = _
  rw [hstack, List.dropWhile_append_of_pos fun e he => by simpa using habove e he]
  cases base with
  | nil => rfl
  | cons e rest =>
    have he := hbase e List.mem_cons_self
    rw [List.dropWhile_cons_of_neg (by simp; omega)]

theorem Based.top_initial (h : Based n base s) (hs : Orderly fields s) : topOf base <+: s.top := by
  obtain ⟨above, hstack, -⟩ := h
  have hchained := hs.chained
  rw [PolicyReader.top_eq, hstack]
  rw [hstack] at hchained
  clear hstack
  induction above with
  | nil => exact List.prefix_refl _
  | cons e above ih =>
    obtain ⟨name, hname⟩ := hchained.2.1
    show topOf base <+: e.2
    rw [hname]
    exact (ih hchained.2.2).trans (List.prefix_append _ _)

theorem Based.line {raw : List Char} (hread : readLine fields s raw = .ok s') (h : Based n base s)
    (hbase : ∀ e ∈ base, e.1 < n) (hraw : Covered n raw) : Based n base s' := by
  rcases readLine_cases hread with ⟨-, rfl⟩ | ⟨-, -, hitem⟩ | ⟨hquiet, hdash, -, hentry⟩
  · exact h
  · rcases readItem_cases hitem with rfl | ⟨m, key, rest, items, value, -, -, -, -, -, rfl⟩
    · exact h
    · exact h
  · have hm := hraw.deep hquiet hdash
    obtain ⟨above, hstack, habove⟩ := h.popTo hbase hm
    have hpushed : ∀ key, Based n base { s' with stack := (lineIndent raw, key) :: (s.popTo (lineIndent raw)).stack } :=
      fun key => ⟨(lineIndent raw, key) :: above, by rw [hstack]; rfl, fun e he => by
        rcases List.mem_cons.1 he with rfl | hrest
        · exact hm
        · exact habove e hrest⟩
    cases readEntry_enters hentry with
    | other => exact ⟨above, hstack, habove⟩
    | plain name value => exact hpushed _
    | marked name value s₁ hname hancestor hmarks =>
      have hkeep := hpushed ((s.popTo (lineIndent raw)).top ++ [name])
      rw [← hmarks.stack] at hkeep
      exact hkeep

/-- What is not under the keys of the base does not change. -/
theorem Based.frame_line {raw : List Char} (hread : readLine fields s raw = .ok s') (hs : Orderly fields s)
    (h : Based n base s) (hbase : ∀ e ∈ base, e.1 < n) (hraw : Covered n raw) {q : Path} (hq : ¬ topOf base <+: q) :
    s'.result q = s.result q ∧ (q ∈ s'.seen ↔ q ∈ s.seen) := by
  rcases readLine_cases hread with ⟨-, rfl⟩ | ⟨-, -, hitem⟩ | ⟨hquiet, hdash, -, hentry⟩
  · exact ⟨rfl, Iff.rfl⟩
  · rcases readItem_cases hitem with rfl | ⟨m, key, rest, items, value, hstack, -, -, -, -, rfl⟩
    · exact ⟨rfl, Iff.rfl⟩
    · refine ⟨Function.update_of_ne ?_ _ _, Iff.rfl⟩
      rintro rfl
      have hinitial := h.top_initial hs
      rw [PolicyReader.top_eq, hstack] at hinitial
      exact hq hinitial
  · have hm := hraw.deep hquiet hdash
    have hinitial := (h.popTo hbase hm).top_initial (hs.popTo (lineIndent raw))
    cases readEntry_enters hentry with
    | other => exact ⟨rfl, Iff.rfl⟩
    | plain => exact ⟨rfl, Iff.rfl⟩
    | marked name value s₁ hname hancestor hmarks =>
      have hne : q ≠ (s.popTo (lineIndent raw)).top ++ [name] := by
        rintro rfl
        exact hq (hinitial.trans (List.prefix_append _ _))
      exact ⟨hmarks.other q hne, hmarks.mem_iff hne⟩

theorem Reads.based {lines : List (List Char)} (h : Reads fields lines s s') (hs : Based n base s)
    (hbase : ∀ e ∈ base, e.1 < n) (hlines : ∀ raw ∈ lines, Covered n raw) : Based n base s' :=
  h.keeps hs fun raw hmem _ _ hline ht => ht.line hline hbase (hlines raw hmem)

/-- **What is not under the open keys does not change.** -/
theorem Reads.frame {lines : List (List Char)} (h : Reads fields lines s s') (hs : Orderly fields s)
    (hbased : Based n base s) (hbase : ∀ e ∈ base, e.1 < n) (hlines : ∀ raw ∈ lines, Covered n raw) {q : Path}
    (hq : ¬ topOf base <+: q) : s'.result q = s.result q ∧ (q ∈ s'.seen ↔ q ∈ s.seen) := by
  induction lines generalizing s with
  | nil => exact reads_nil.1 h ▸ ⟨rfl, Iff.rfl⟩
  | cons raw lines ih =>
    obtain ⟨s₁, hline, hrest⟩ := reads_cons.1 h
    have hraw := hlines raw List.mem_cons_self
    obtain ⟨hvalue, hseen⟩ := hbased.frame_line hline hs hbase hraw hq
    obtain ⟨hvalue', hseen'⟩ := ih hrest (readLine_orderly hline hs) (hbased.line hline hbase hraw) fun line hmem =>
      hlines line (List.mem_cons_of_mem raw hmem)
    exact ⟨hvalue'.trans hvalue, hseen'.trans hseen⟩

/-- A line that is no item reads the same once the keys that it closes are closed. -/
theorem readLine_popTo {raw : List Char} (hquiet : isQuiet raw = false) (hdash : isDash raw = false) :
    readLine fields (s.popTo (lineIndent raw)) raw = readLine fields s raw := by
  have hidem : (s.popTo (lineIndent raw)).popTo (lineIndent raw) = s.popTo (lineIndent raw) := by
    unfold PolicyReader.popTo
    rw [List.dropWhile_idempotent]
  unfold readLine
  unfold isQuiet at hquiet
  unfold isDash at hdash
  dsimp only
  rw [Bool.or_eq_false_iff, beq_eq_false_iff_ne] at hquiet
  have hloud : ¬ ((lineBody raw).isEmpty = true ∨ (lineBody raw).head? = some '#') := by
    rw [hquiet.1]
    exact fun h => h.elim (fun h => by cases h) hquiet.2
  have hitem : ¬ "- ".toList.isPrefixOf (lineBody raw) = true := by rw [hdash]; exact Bool.false_ne_true
  unfold lineIndent lineBody at hidem ⊢
  unfold lineBody at hloud hitem
  rw [if_neg hloud, if_neg hloud, if_neg hitem, if_neg hitem, hidem]

end Lines

end ReadyBeads

end Subgov
