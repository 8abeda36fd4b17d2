import Mathlib.Data.List.Infix
import Mathlib.Data.String.Basic
/-!
# Numbered — words that end in a number

A name is often a stem with a number behind it.  Over any letters, of which some are digits: `exists_common_iff` says
when two stems share a name, and `numbered_infix_iff` when one name of a stem occurs inside another.  The decimal
numerals of the natural numbers are the instance that programs print.
-/
namespace Numbered

variable {α : Type} {digit : α → Bool}

/-- A stem with at least one digit behind it. -/
def Names (digit : α → Bool) (stem word : List α) : Prop :=
  ∃ number, number ≠ [] ∧ (∀ c ∈ number, digit c = true) ∧ word = stem ++ number

/-- The longer stem is the shorter one with digits behind it, or the two are the same. -/
def Extends (digit : α → Bool) (stem longer : List α) : Prop :=
  ∃ number, (∀ c ∈ number, digit c = true) ∧ longer = stem ++ number

theorem Extends.refl (stem : List α) : Extends digit stem stem := ⟨[], by simp, by simp⟩

theorem extends_iff {stem longer : List α} : Extends digit stem longer ↔ stem = longer ∨ Names digit stem longer := by
  constructor
  · rintro ⟨number, hdigits, hlonger⟩
    by_cases hnumber : number = []
    · rw [hnumber, List.append_nil] at hlonger
      exact Or.inl hlonger.symm
    · exact Or.inr ⟨number, hnumber, hdigits, hlonger⟩
  · rintro (rfl | ⟨number, -, hdigits, hlonger⟩)
    · exact Extends.refl stem
    · exact ⟨number, hdigits, hlonger⟩

theorem Names.of_extends {stem longer word : List α} (h : Extends digit stem longer) (hword : Names digit longer word) :
    Names digit stem word := by
  obtain ⟨number, hdigits, rfl⟩ := h
  obtain ⟨tail, hne, htail, rfl⟩ := hword
  refine ⟨number ++ tail, List.append_ne_nil_of_right_ne_nil _ hne, fun c hc => ?_, List.append_assoc _ _ _⟩
  exact (List.mem_append.1 hc).elim (hdigits c) (htail c)

/-- **Two stems share a name** exactly when one extends the other by digits. -/
theorem exists_common_iff {d : α} (hd : digit d = true) {stem stem' : List α} :
    (∃ word, Names digit stem word ∧ Names digit stem' word) ↔
      Extends digit stem stem' ∨ Extends digit stem' stem := by
  constructor
  · rintro ⟨word, ⟨number, -, hnumber, rfl⟩, number', -, hnumber', hsame⟩
    rcases List.append_eq_append_iff.1 hsame with ⟨rest, hstem, hrest⟩ | ⟨rest, hstem, hrest⟩
    · refine Or.inl ⟨rest, fun c hc => hnumber c ?_, hstem⟩
      rw [hrest]
      exact List.mem_append_left _ hc
    · refine Or.inr ⟨rest, fun c hc => hnumber' c ?_, hstem⟩
      rw [hrest]
      exact List.mem_append_left _ hc
  · have hlonger : ∀ s : List α, Names digit s (s ++ [d]) := fun s =>
      ⟨[d], List.cons_ne_nil _ _, List.forall_mem_singleton.2 hd, rfl⟩
    rintro (h | h)
    · exact ⟨_, (hlonger stem').of_extends h, hlonger stem'⟩
    · exact ⟨_, hlonger stem, (hlonger stem).of_extends h⟩

/-- **A name of a stem occurs inside another of the same stem** exactly when its number is a prefix of the other's: what
stands before the occurrence would have to hold no letter of the stem that is no digit. -/
theorem numbered_infix_iff {first : α} {rest number number' : List α} (hfirst : digit first = false)
    (hnumber : ∀ c ∈ number', digit c = true) :
    (first :: rest) ++ number <:+: (first :: rest) ++ number' ↔ number <+: number' := by
  constructor
  · rintro ⟨before, after, hsame⟩
    cases before with
    | nil =>
      rw [List.nil_append, List.append_assoc] at hsame
      exact ⟨after, List.append_cancel_left hsame⟩
    | cons c before =>
      -- the letters that are no digits are counted on both sides
      exfalso
      have hnone : number'.countP (fun c => !digit c) = 0 := by
        rw [List.countP_eq_zero]
        intro c hc
        rw [hnumber c hc]
        exact nofun
      have hcount := congrArg (List.countP fun c => !digit c) hsame
      simp only [List.countP_append, hnone] at hcount
      have hbefore : (c :: before).countP (fun c => !digit c) = 0 := by omega
      have hc := List.countP_eq_zero.1 hbefore c List.mem_cons_self
      have hhead : c = first := (List.cons.inj hsame).1
      rw [hhead, hfirst] at hc
      exact hc rfl
  · rintro ⟨after, rfl⟩
    exact ⟨[], after, by rw [List.nil_append, List.append_assoc]⟩

/-! ## Decimal numerals -/

section Decimal

theorem isDigit_toDigits {n : Nat} : ∀ c ∈ Nat.toDigits 10 n, c.isDigit = true := fun _ hc =>
  Nat.isDigit_of_mem_toDigits (by decide) (by decide) hc

theorem toDigits_inj {m n : Nat} (h : Nat.toDigits 10 m = Nat.toDigits 10 n) : m = n := by
  have hvalue := congrArg (fun digits => Nat.ofDigitChars 10 digits 0) h
  simpa using hvalue

/-- No numeral below ten is a prefix of another one. -/
theorem eq_of_prefix_below_ten {m n : Nat} (hm : m < 10) (hn : n < 10) (h : Nat.toDigits 10 m <+: Nat.toDigits 10 n) :
    m = n := by
  refine toDigits_inj (h.eq_of_length ?_)
  rw [Nat.toDigits_of_lt_base hm, Nat.toDigits_of_lt_base hn]
  rfl

/-- A positive numeral does not begin below one. -/
theorem toDigits_head {n : Nat} (h : 0 < n) : ∃ c rest, Nat.toDigits 10 n = c :: rest ∧ '1' ≤ c := by
  induction n using Nat.strongRecOn with
  | ind n ih =>
    by_cases hsmall : n < 10
    · have hall : ∀ n < 10, 0 < n → '1' ≤ n.digitChar := by decide
      exact ⟨n.digitChar, [], Nat.toDigits_of_lt_base hsmall, hall n hsmall h⟩
    · obtain ⟨c, rest, hdigits, hc⟩ := ih (n / 10) (by omega) (by omega)
      rw [Nat.toDigits_of_base_le (by decide) (by omega), hdigits]
      exact ⟨c, _, rfl, hc⟩

/-- The name of a stem with this number. -/
def name (stem : String) (n : Nat) : String := stem ++ toString n

variable {stem : String} {m n : Nat}

theorem toList_name : (name stem n).toList = stem.toList ++ Nat.toDigits 10 n := by
  rw [name, String.toList_append, Nat.toString_eq_repr, Nat.toList_repr]

theorem name_injective (stem : String) : Function.Injective (name stem) := by
  intro m n h
  have hlist := congrArg String.toList h
  rw [toList_name, toList_name] at hlist
  exact toDigits_inj (List.append_cancel_left hlist)

theorem names_name (stem : String) (n : Nat) : Names Char.isDigit stem.toList (name stem n).toList :=
  ⟨_, Nat.toDigits_ne_nil, isDigit_toDigits, toList_name⟩

/-- A name occurs inside another of its stem exactly when its numeral begins the other's. -/
theorem name_infix_iff {first : Char} {rest : List Char} (hstem : stem.toList = first :: rest)
    (hfirst : first.isDigit = false) :
    (name stem m).toList <:+: (name stem n).toList ↔ Nat.toDigits 10 m <+: Nat.toDigits 10 n := by
  rw [toList_name, toList_name, hstem]
  exact numbered_infix_iff hfirst isDigit_toDigits

/-- The first positive name in the order of strings is that of one. -/
theorem name_one_le (stem : String) (h : 0 < n) : name stem 1 ≤ name stem n := by
  obtain ⟨c, rest, hdigits, hc⟩ := toDigits_head h
  have hone : Nat.toDigits 10 1 = ['1'] := by decide
  by_cases hsame : n = 1
  · rw [hsame]
  · have hnumeral : ['1'] < c :: rest := by
      rw [List.cons_lt_cons_iff]
      rcases hc.lt_or_eq with hlt | rfl
      · exact Or.inl hlt
      · refine Or.inr ⟨rfl, ?_⟩
        cases rest with
        | nil => exact absurd (toDigits_inj (hdigits.trans hone.symm)) hsame
        | cons d rest => exact List.Lex.nil
    refine le_of_lt ?_
    rw [String.lt_iff_toList_lt, toList_name, toList_name, hdigits, hone]
    exact List.append_left_lt hnumeral

end Decimal

/-! ## Free names -/

section Free

variable {β : Type} [DecidableEq β]

/-- The first number from `next` on whose name is not taken, among the next `fuel` ones. -/
def firstFree (name : Nat → β) (taken : List β) : Nat → Nat → Nat
  | 0, next => next
  | fuel + 1, next => if name next ∈ taken then firstFree name taken fuel (next + 1) else next

theorem firstFree_of_not_mem {name : Nat → β} {taken : List β} {next : Nat} (fuel : Nat) (h : name next ∉ taken) :
    firstFree name taken fuel next = next := by
  cases fuel with
  | zero => rfl
  | succ fuel => exact if_neg h

/-- **As many tries as there are taken names find a free one.** -/
theorem firstFree_not_mem {name : Nat → β} (hname : Function.Injective name) (taken : List β) (next : Nat) :
    name (firstFree name taken taken.length next) ∉ taken := by
  have hpast : ∀ (fuel next : Nat) (left : List β), left.length ≤ fuel →
      (∀ n, next ≤ n → name n ∈ taken → name n ∈ left) → name (firstFree name taken fuel next) ∉ taken := by
    intro fuel
    induction fuel with
    | zero =>
      intro next left hlength hleft hmem
      have hin := hleft next (Nat.le_refl _) hmem
      rw [List.eq_nil_of_length_eq_zero (Nat.le_zero.1 hlength)] at hin
      cases hin
    | succ fuel ih =>
      intro next left hlength hleft
      unfold firstFree
      split
      · rename_i htaken
        -- the name that is taken is used up
        have hin := hleft next (Nat.le_refl _) htaken
        refine ih (next + 1) (left.erase (name next)) ?_ fun n hn hmem => ?_
        · rw [List.length_erase_of_mem hin]
          omega
        · refine (List.mem_erase_of_ne fun hsame => ?_).2 (hleft n (by omega) hmem)
          have hnext := hname hsame
          omega
      · assumption
  exact hpast taken.length next taken (Nat.le_refl _) fun n _ hmem => hmem

end Free

end Numbered
