import Mathlib.Data.List.TakeWhile
/-!
# Lines — a text by its lines, and the section under a heading

A text is the lines that a line break ends and what comes after the last of them.  A section is found by its heading; it
starts after the blank lines that follow the heading, and what is put into it moves neither.
-/
namespace Lines

/-! ## The lines of a text -/

/-- A character in front of the lines of a text. -/
def push (c : Char) : List (List Char) × List Char → List (List Char) × List Char
  | ([], last) => if c = '\n' then ([[]], last) else ([], c :: last)
  | (line :: lines, last) => if c = '\n' then ([] :: line :: lines, last) else ((c :: line) :: lines, last)

/-- The lines that a line break ends, and what comes after the last of them. -/
def split : List Char → List (List Char) × List Char
  | [] => ([], [])
  | c :: rest => push c (split rest)

theorem split_break (rest : List Char) : split ('\n' :: rest) = ([] :: (split rest).1, (split rest).2) := by
  rw [split]
  generalize split rest = parts
  obtain ⟨_ | ⟨line, lines⟩, last⟩ := parts <;> rfl

def join (lines : List (List Char)) : List Char := lines.flatMap (· ++ ['\n'])

@[simp] theorem join_nil : join [] = [] := rfl

@[simp] theorem join_cons (line : List Char) (lines : List (List Char)) :
    join (line :: lines) = line ++ '\n' :: join lines := by
  simp [join]

@[simp] theorem join_append (a b : List (List Char)) : join (a ++ b) = join a ++ join b := by
  simp [join]

theorem join_split (text : List Char) : join (split text).1 ++ (split text).2 = text := by
  induction text with
  | nil => rfl
  | cons c rest ih =>
    by_cases hc : c = '\n'
    · rw [hc, split_break, join_cons, List.nil_append, List.cons_append, ih]
    · rw [split]
      generalize split rest = parts at ih
      obtain ⟨_ | ⟨line, lines⟩, last⟩ := parts
      · simpa [push, hc] using ih
      · simpa [push, hc] using ih

/-- No line break is inside a line. -/
def Unbroken (lines : List (List Char)) : Prop := ∀ line ∈ lines, '\n' ∉ line

theorem unbroken_split (text : List Char) : Unbroken (split text).1 ∧ '\n' ∉ (split text).2 := by
  induction text with
  | nil => exact ⟨fun _ h => absurd h List.not_mem_nil, List.not_mem_nil⟩
  | cons c rest ih =>
    by_cases hc : c = '\n'
    · rw [hc, split_break]
      exact ⟨List.forall_mem_cons.2 ⟨List.not_mem_nil, ih.1⟩, ih.2⟩
    · rw [split]
      generalize split rest = parts at ih
      obtain ⟨_ | ⟨line, lines⟩, last⟩ := parts
      · rw [push, if_neg hc]
        exact ⟨ih.1, List.not_mem_cons_of_ne_of_not_mem (Ne.symm hc) ih.2⟩
      · obtain ⟨hline, hlines⟩ := List.forall_mem_cons.1 ih.1
        rw [push, if_neg hc]
        exact ⟨List.forall_mem_cons.2 ⟨List.not_mem_cons_of_ne_of_not_mem (Ne.symm hc) hline, hlines⟩, ih.2⟩

theorem split_last {last : List Char} (h : '\n' ∉ last) : split last = ([], last) := by
  induction last with
  | nil => rfl
  | cons c rest ih =>
    have hc : c ≠ '\n' := (List.ne_of_not_mem_cons h).symm
    rw [split, ih (List.not_mem_of_not_mem_cons h), push, if_neg hc]

theorem split_line {line : List Char} (h : '\n' ∉ line) (rest : List Char) :
    split (line ++ '\n' :: rest) = (line :: (split rest).1, (split rest).2) := by
  induction line with
  | nil => exact split_break rest
  | cons c line ih =>
    have hc : c ≠ '\n' := (List.ne_of_not_mem_cons h).symm
    rw [List.cons_append, split, ih (List.not_mem_of_not_mem_cons h), push, if_neg hc]

theorem split_join {lines : List (List Char)} {last : List Char} (hlines : Unbroken lines) (hlast : '\n' ∉ last) :
    split (join lines ++ last) = (lines, last) := by
  induction lines with
  | nil => exact split_last hlast
  | cons line lines ih =>
    obtain ⟨hline, hlines⟩ := List.forall_mem_cons.1 hlines
    rw [join_cons, List.append_assoc, List.cons_append, split_line hline, ih hlines]

/-! ## The section under a heading -/

section Search

variable {α : Type} {heading blank keeps : α → Bool}

/-- Up to the first heading and the blank lines that follow it, and what comes after them. -/
def search (heading blank : α → Bool) : List α → Option (List α × List α)
  | [] => none
  | line :: rest =>
    if heading line then some (line :: rest.takeWhile blank, rest.dropWhile blank)
    else (search heading blank rest).map (Prod.map (line :: ·) id)

/-- What follows a heading and its blank lines does not start with a blank line. -/
def Starts (blank : α → Bool) (lines : List α) : Prop := ∀ line ∈ lines.head?, blank line = false

theorem starts_cons {line : α} (h : blank line = false) (rest : List α) : Starts blank (line :: rest) := by
  rintro _ ⟨⟩
  exact h

theorem starts_dropWhile (lines : List α) : Starts blank (lines.dropWhile blank) := by
  intro line hline
  have hhead := List.head?_dropWhile_not blank lines
  rw [Option.mem_def.1 hline] at hhead
  exact hhead

theorem takeWhile_starts {lines : List α} (h : Starts blank lines) : lines.takeWhile blank = [] := by
  cases lines with
  | nil => rfl
  | cons line rest => simp [h line rfl]

theorem dropWhile_starts {lines : List α} (h : Starts blank lines) : lines.dropWhile blank = lines := by
  cases lines with
  | nil => rfl
  | cons line rest => simp [h line rfl]

/-- What follows a heading and its blank lines may be replaced by anything that does not start with a blank line. -/
theorem search_eq_some {lines before after : List α} (h : search heading blank lines = some (before, after)) :
    lines = before ++ after ∧ Starts blank after ∧
      ∀ other, Starts blank other → search heading blank (before ++ other) = some (before, other) := by
  induction lines generalizing before with
  | nil => cases h
  | cons line rest ih =>
    unfold search at h
    by_cases hline : heading line = true
    · rw [if_pos hline] at h
      obtain ⟨rfl, rfl⟩ := Prod.mk.inj (Option.some.inj h)
      refine ⟨by simp, starts_dropWhile rest, fun other hother => ?_⟩
      have hblank : ∀ l ∈ rest.takeWhile blank, blank l = true := fun _ => List.mem_takeWhile_imp
      rw [List.cons_append, search, if_pos hline, List.takeWhile_append_of_pos hblank,
        List.dropWhile_append_of_pos hblank, takeWhile_starts hother, dropWhile_starts hother, List.append_nil]
    · rw [if_neg hline] at h
      obtain ⟨⟨before, tail⟩, hfound, heq⟩ := Option.map_eq_some_iff.1 h
      obtain ⟨rfl, rfl⟩ := Prod.mk.inj heq
      obtain ⟨hrest, hstarts, hother⟩ := ih hfound
      refine ⟨by rw [hrest]; rfl, hstarts, fun other h => ?_⟩
      rw [List.cons_append, search, if_neg hline, hother other h]
      rfl

/-- The lines under the first heading, up to one that ends the section, and everything before them. -/
def sectionOf (heading blank keeps : α → Bool) (lines : List α) : Option (List α × List α) :=
  (search heading blank lines).map fun found => (found.1, found.2.takeWhile keeps)

theorem Starts.of_append {before after : List α} (h : Starts blank (before ++ after)) (hne : before ≠ [])
    (other : List α) : Starts blank (before ++ other) := by
  cases before with
  | nil => exact absurd rfl hne
  | cons line rest => exact starts_cons (h line rfl) (rest ++ other)

theorem search_ne_nil {lines before after : List α} (h : search heading blank lines = some (before, after)) :
    before ≠ [] := by
  cases lines with
  | nil => cases h
  | cons line rest =>
    unfold search at h
    by_cases hline : heading line = true
    · rw [if_pos hline] at h
      rw [← (Prod.mk.inj (Option.some.inj h)).1]
      exact List.cons_ne_nil _ _
    · rw [if_neg hline] at h
      obtain ⟨found, -, heq⟩ := Option.map_eq_some_iff.1 h
      rw [← (Prod.mk.inj heq).1]
      exact List.cons_ne_nil _ _

/-- What is in a section may be replaced: nothing around it moves, and it is found again. -/
theorem sectionOf_eq_some {lines before inside : List α} (h : sectionOf heading blank keeps lines = some (before, inside)) :
    before ≠ [] ∧ (∀ line ∈ inside, keeps line = true) ∧ ∃ after, lines = before ++ (inside ++ after) ∧
      Starts blank (inside ++ after) ∧
      ∀ other, Starts blank (other ++ after) → (∀ line ∈ other, keeps line = true) →
        sectionOf heading blank keeps (before ++ (other ++ after)) = some (before, other) := by
  obtain ⟨⟨before, tail⟩, hfound, heq⟩ := Option.map_eq_some_iff.1 h
  obtain ⟨rfl, rfl⟩ := Prod.mk.inj heq
  obtain ⟨hlines, hstarts, hother⟩ := search_eq_some hfound
  refine ⟨search_ne_nil hfound, fun _ => List.mem_takeWhile_imp, tail.dropWhile keeps, ?_, ?_, fun other h hkeeps => ?_⟩
  · rw [List.takeWhile_append_dropWhile]
    exact hlines
  · rwa [List.takeWhile_append_dropWhile]
  · rw [sectionOf, hother _ h]
    show some (before, (other ++ tail.dropWhile keeps).takeWhile keeps) = _
    rw [List.takeWhile_append_of_pos hkeeps, takeWhile_starts (starts_dropWhile tail), List.append_nil]

end Search
end Lines
