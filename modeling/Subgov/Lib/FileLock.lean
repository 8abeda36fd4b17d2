import Mathlib.Logic.Function.Basic
/-!
# FileLock — advisory locks on the file a path names

An exclusive lock belongs to the file a process opened, not to the path: `replace` binds the path to a new file, and a
process that opened the old one can hold its lock beside one that opened the new.  Taking a lock keeps the holders at
one exactly where the path still names the file taken and every file held (`exclusive_iff_current`).
-/
namespace FileLock

variable {P : Type}

/-- Files are numbered in the order the path names them. -/
structure State (P : Type) where
  linked : Nat
  opened : P → Option Nat
  holder : Nat → Option P

/-- Nothing is open. -/
def State.start : State P := ⟨0, fun _ => none, fun _ => none⟩

namespace State

variable (s : State P)

def Inside (p : P) : Prop := ∃ file, s.holder file = some p

/-- A lock is held through the open file it is on. -/
def Owned : Prop := ∀ file p, s.holder file = some p → s.opened p = some file

def Exclusive : Prop := ∀ p q, s.Inside p → s.Inside q → p = q

/-- The path names the file `p` opened, and every file whose lock is held. -/
def Current (p : P) : Prop :=
  ∀ file held q, s.opened p = some file → s.holder held = some q → file = s.linked ∧ held = s.linked

/-- A rename over the path. -/
def replace : State P := { s with linked := s.linked + 1 }

/-- `none` where the lock is held already. -/
def tryLock (p : P) : Option (State P) :=
  match s.opened p with
  | none => none
  | some file =>
    match s.holder file with
    | some _ => none
    | none => some { s with holder := Function.update s.holder file (some p) }

variable {s} {s' : State P} {p : P}

theorem tryLock_eq_some (h : s.tryLock p = some s') : ∃ file, s.opened p = some file ∧ s.holder file = none ∧
    s'.opened = s.opened ∧ s'.holder = Function.update s.holder file (some p) := by
  unfold tryLock at h
  cases hopened : s.opened p with
  | none =>
    rw [hopened] at h
    cases h
  | some file =>
    cases hholder : s.holder file with
    | some q => simp [hopened, hholder] at h
    | none =>
      simp only [hopened, hholder, Option.some.injEq] at h
      subst h
      exact ⟨file, rfl, hholder, rfl, rfl⟩

theorem linked_tryLock (h : s.tryLock p = some s') : s'.linked = s.linked := by
  unfold tryLock at h
  split at h
  · cases h
  · split at h
    · cases h
    · cases h
      rfl

theorem inside_tryLock (h : s.tryLock p = some s') (q : P) : s'.Inside q ↔ s.Inside q ∨ q = p := by
  obtain ⟨file, -, hfree, -, hholder⟩ := tryLock_eq_some h
  unfold Inside
  rw [hholder]
  constructor
  · rintro ⟨held, hheld⟩
    by_cases hfile : held = file
    · subst hfile
      rw [Function.update_self] at hheld
      exact Or.inr (Option.some.inj hheld).symm
    · rw [Function.update_of_ne hfile] at hheld
      exact Or.inl ⟨held, hheld⟩
  · rintro (⟨held, hheld⟩ | rfl)
    · have hfile : held ≠ file := fun hsame => by rw [hsame, hfree] at hheld; cases hheld
      exact ⟨held, by rw [Function.update_of_ne hfile, hheld]⟩
    · exact ⟨file, Function.update_self ..⟩

theorem Owned.tryLock (h : s.Owned) (hlock : s.tryLock p = some s') : s'.Owned := by
  obtain ⟨file, hopened, -, hsame, hholder⟩ := tryLock_eq_some hlock
  intro held q hheld
  rw [hholder] at hheld
  rw [hsame]
  by_cases hfile : held = file
  · subst hfile
    rw [Function.update_self] at hheld
    cases hheld
    exact hopened
  · rw [Function.update_of_ne hfile] at hheld
    exact h held q hheld

/-- **Taking a lock leaves one holder exactly where the path names the file taken and every file held.** -/
theorem exclusive_iff_current (howned : s.Owned) (h : s.tryLock p = some s') : s'.Exclusive ↔ s.Current p := by
  obtain ⟨file, hopened, hfree, -⟩ := tryLock_eq_some h
  constructor
  · intro hexclusive _ held q _ hheld
    -- the holder would be `p` itself, and hold the free file it has open
    have hsame : q = p :=
      hexclusive q p ((inside_tryLock h q).2 (Or.inl ⟨held, hheld⟩)) ((inside_tryLock h p).2 (Or.inr rfl))
    have hheldOpen := howned held q hheld
    rw [hsame, hopened] at hheldOpen
    cases hheldOpen
    rw [hfree] at hheld
    cases hheld
  · intro hcurrent
    have hnobody : ∀ q, ¬ s.Inside q := by
      rintro q ⟨held, hheld⟩
      obtain ⟨hfile, hlinked⟩ := hcurrent file held q hopened hheld
      rw [hlinked, ← hfile, hfree] at hheld
      cases hheld
    intro q r hq hr
    rw [inside_tryLock h] at hq hr
    exact (hq.resolve_left (hnobody q)).trans (hr.resolve_left (hnobody r)).symm

/-! ## Opening and closing -/

variable (s) [DecidableEq P]

def openFile (p : P) : State P := { s with opened := Function.update s.opened p (some s.linked) }

/-- Closing the file releases its lock. -/
def closeFile (p : P) : State P :=
  { s with
    opened := Function.update s.opened p none
    holder := fun file => if s.holder file = some p then none else s.holder file }

variable {s}

@[simp] theorem opened_openFile_self : (s.openFile p).opened p = some s.linked := Function.update_self ..

theorem opened_openFile_of_ne {q : P} (h : q ≠ p) : (s.openFile p).opened q = s.opened q := Function.update_of_ne h ..

@[simp] theorem opened_closeFile_self : (s.closeFile p).opened p = none := Function.update_self ..

theorem opened_closeFile_of_ne {q : P} (h : q ≠ p) : (s.closeFile p).opened q = s.opened q :=
  Function.update_of_ne h ..

theorem inside_closeFile (q : P) : (s.closeFile p).Inside q ↔ s.Inside q ∧ q ≠ p := by
  unfold Inside closeFile
  constructor
  · rintro ⟨file, hfile⟩
    dsimp only at hfile
    split at hfile
    · cases hfile
    · rename_i hother
      exact ⟨⟨file, hfile⟩, fun hsame => hother (hsame ▸ hfile)⟩
  · rintro ⟨⟨file, hfile⟩, hne⟩
    refine ⟨file, ?_⟩
    dsimp only
    rw [hfile, if_neg fun hsame => hne (Option.some.inj hsame)]

theorem Owned.openFile (h : s.Owned) (hidle : s.opened p = none) : (s.openFile p).Owned := by
  intro file q hfile
  have hopened := h file q hfile
  have hne : q ≠ p := fun hsame => by rw [hsame, hidle] at hopened; cases hopened
  rw [opened_openFile_of_ne hne, hopened]

theorem Owned.closeFile (h : s.Owned) : (s.closeFile p).Owned := by
  intro file q hfile
  obtain ⟨-, hne⟩ := (inside_closeFile q).1 ⟨file, hfile⟩
  unfold State.closeFile at hfile
  dsimp only at hfile
  split at hfile
  · cases hfile
  · rw [opened_closeFile_of_ne hne, h file q hfile]

end State

end FileLock
