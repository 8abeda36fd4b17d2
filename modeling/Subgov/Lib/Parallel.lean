import Mathlib.Logic.Function.Basic
import Subgov.Lib.Interleave
/-!
# Parallel — many programs over one state

Programs are started at any time, take their operations one by one in any order, and leave when they have ended or at
any point before.  `Family.Sound` is the rule of rely and guarantee for them: what each relies on is what every
operation, return and leave of another gives.  `Family.Sound.reachable` is what it says of every run.
-/
namespace Interleave

open Relation (ReflTransGen)

variable {ι σ ε α : Type} {Op : Type → Type}

/-- Programs by their numbers, with what an operation, a return and a leave of each does to the state. -/
structure Family (ι σ ε : Type) (Op : Type → Type) (α : Type) where
  exec : ι → {β : Type} → Op β → σ → Except ε β × σ
  fails : {β : Type} → Op β → ε → Prop
  failsLate : {β : Type} → Op β → ε → Prop
  programs : ι → Script Op ε α → Prop
  returns : ι → α → σ → σ
  leaves : ι → σ → σ

namespace Family

variable (F : Family ι σ ε Op α)

/-- One of the programs beside the others. -/
def system (R : ι → σ → σ → Prop) (i : ι) : System σ ε Op where
  exec := F.exec i
  rely := R i
  fails := F.fails
  failsLate := F.failsLate

/-- A state with the programs that are running. -/
abbrev Config (ι σ ε : Type) (Op : Type → Type) (α : Type) := σ × (ι → Option (Script Op ε α))

inductive Step [DecidableEq ι] : Config ι σ ε Op α → Config ι σ ε Op α → Prop
  | start {s : σ} {run : ι → Option (Script Op ε α)} {i : ι} {p : Script Op ε α} (hidle : run i = none)
      (hp : F.programs i p) : Step (s, run) (s, Function.update run i (some p))
  | own {s s' : σ} {run : ι → Option (Script Op ε α)} {i : ι} {β : Type} {o : Op β}
      {next : Except ε β → Script Op ε α} {r : Except ε β} (hrun : run i = some (.op o next))
      (hown : Outcome (F.system (fun _ _ _ => True) i) o s r s') : Step (s, run) (s', Function.update run i (some (next r)))
  | returns {s : σ} {run : ι → Option (Script Op ε α)} {i : ι} {a : α} (hrun : run i = some (.ret a)) :
      Step (s, run) (F.returns i a s, Function.update run i none)
  | leaves {s : σ} {run : ι → Option (Script Op ε α)} {i : ι} {p : Script Op ε α} (hrun : run i = some p) :
      Step (s, run) (F.leaves i s, Function.update run i none)

/-- Every program is guarded beside the others, and what it does keeps `Inv` and is what each other relies on. -/
structure Sound (Inv : σ → Prop) (R : ι → σ → σ → Prop) (G : ι → ∀ β, Op β → σ → Prop) (Q : ι → α → σ → Prop)
    (E : ι → ε → σ → Prop) : Prop where
  start : ∀ {i p s}, F.programs i p → Inv s → Guarded (F.system R i) (G i) (Q i) (E i) p s
  own : ∀ {i β} {o : Op β} {s r s'}, Inv s → G i β o s → Outcome (F.system R i) o s r s' → Inv s' ∧ ∀ j ≠ i, R j s s'
  returns : ∀ {i a s}, Inv s → Q i a s → Inv (F.returns i a s) ∧ ∀ j ≠ i, R j s (F.returns i a s)
  leaves : ∀ {i s}, Inv s → Inv (F.leaves i s) ∧ ∀ j ≠ i, R j s (F.leaves i s)

/-- What is said of a configuration: the invariant, and that every running program is guarded. -/
def Kept (Inv : σ → Prop) (R : ι → σ → σ → Prop) (G : ι → ∀ β, Op β → σ → Prop) (Q : ι → α → σ → Prop)
    (E : ι → ε → σ → Prop) (c : Config ι σ ε Op α) : Prop :=
  Inv c.1 ∧ ∀ i p, c.2 i = some p → Guarded (F.system R i) (G i) (Q i) (E i) p c.1

variable {F} {Inv : σ → Prop} {R : ι → σ → σ → Prop} {G : ι → ∀ β, Op β → σ → Prop} {Q : ι → α → σ → Prop}
  {E : ι → ε → σ → Prop}

/-- What an operation does is not a matter of what is relied on. -/
theorem outcome_system {R' : ι → σ → σ → Prop} {i : ι} {β : Type} {o : Op β} {s s' : σ} {r : Except ε β}
    (h : Outcome (F.system R' i) o s r s') : Outcome (F.system R i) o s r s' := by
  cases h with
  | done => exact .done
  | fails hfails => exact .fails hfails
  | failsLate hlate => exact .failsLate hlate

variable [DecidableEq ι]

/-- One program has changed, and the others are guarded still. -/
theorem Kept.update {s s' : σ} {run : ι → Option (Script Op ε α)} {i : ι} {p : Option (Script Op ε α)}
    (h : F.Kept Inv R G Q E (s, run)) (hInv : Inv s') (hR : ∀ j ≠ i, R j s s')
    (hp : ∀ q ∈ p, Guarded (F.system R i) (G i) (Q i) (E i) q s') :
    F.Kept Inv R G Q E (s', Function.update run i p) := by
  refine ⟨hInv, fun j q hq => ?_⟩
  by_cases hj : j = i
  · subst hj
    exact hp q ((Function.update_self j p run).symm.trans hq)
  · have hold : run j = some q := (Function.update_of_ne hj p run).symm.trans hq
    exact (h.2 j q hold).others (hR j hj)

theorem Sound.step {c c' : Config ι σ ε Op α} (h : F.Sound Inv R G Q E) (hc : F.Kept Inv R G Q E c)
    (hstep : F.Step c c') : F.Kept Inv R G Q E c' := by
  cases hstep with
  | @start s run i p hidle hp =>
    refine ⟨hc.1, fun j q hq => ?_⟩
    by_cases hj : j = i
    · subst hj
      obtain rfl : p = q := Option.some.inj ((Function.update_self j (some p) run).symm.trans hq)
      exact h.start hp hc.1
    · exact hc.2 j q ((Function.update_of_ne hj (some p) run).symm.trans hq)
  | own hrun hown =>
    have hguarded := hc.2 _ _ hrun
    obtain ⟨hInv, hR⟩ := h.own hc.1 hguarded.op (outcome_system hown)
    refine hc.update hInv hR fun q hq => ?_
    obtain rfl := Option.some.inj hq
    exact (hguarded _ .refl).2 _ _ (outcome_system hown)
  | returns hrun =>
    obtain ⟨hInv, hR⟩ := h.returns hc.1 (hc.2 _ _ hrun).ret
    exact hc.update hInv hR fun q hq => nomatch hq
  | leaves hrun =>
    obtain ⟨hInv, hR⟩ := h.leaves hc.1
    exact hc.update hInv hR fun q hq => nomatch hq

/-- **The rule**: from no program running, every run keeps the invariant and every running program guarded. -/
theorem Sound.reachable {s : σ} {c : Config ι σ ε Op α} (h : F.Sound Inv R G Q E) (hs : Inv s)
    (hreaches : ReflTransGen F.Step (s, fun _ => none) c) : F.Kept Inv R G Q E c := by
  induction hreaches with
  | refl => exact ⟨hs, fun i p hp => nomatch hp⟩
  | tail _ hstep ih => exact h.step ih hstep

/-! ### Undisturbed runs -/

/-- One program is started, does so many operations with nothing between them, and stands where that gets it. -/
theorem reaches_alone {s : σ} {run : ι → Option (Script Op ε α)} {i : ι} {p : Script Op ε α} (n : ℕ) (hidle : run i = none)
    (hp : F.programs i p) : ReflTransGen F.Step (s, run)
      ((advance (F.exec i) n (s, p)).1, Function.update run i (some (advance (F.exec i) n (s, p)).2)) := by
  refine .head (.start hidle hp) ?_
  clear hp
  induction n generalizing s p with
  | zero => exact .refl
  | succ n ih =>
    cases p with
    | ret a => exact .refl
    | raise e => exact .refl
    | op o next =>
      refine .head (.own (Function.update_self i _ run) .done) ?_
      rw [Function.update_idem]
      exact ih

/-- It returns then. -/
theorem reaches_returned {s : σ} {run : ι → Option (Script Op ε α)} {i : ι} {p : Script Op ε α} {a : α} (n : ℕ)
    (hidle : run i = none) (hp : F.programs i p) (ha : (advance (F.exec i) n (s, p)).2 = .ret a) :
    ReflTransGen F.Step (s, run) (F.returns i a (advance (F.exec i) n (s, p)).1, run) := by
  refine (reaches_alone n hidle hp).tail ?_
  have hstep := Step.returns (F := F) (s := (advance (F.exec i) n (s, p)).1)
    ((Function.update_self i (some (advance (F.exec i) n (s, p)).2) run).trans (congrArg some ha))
  rwa [Function.update_idem, ← hidle, Function.update_eq_self] at hstep

/-- It is killed then. -/
theorem reaches_killed {s : σ} {run : ι → Option (Script Op ε α)} {i : ι} {p : Script Op ε α} (n : ℕ)
    (hidle : run i = none) (hp : F.programs i p) :
    ReflTransGen F.Step (s, run) (F.leaves i (advance (F.exec i) n (s, p)).1, run) := by
  refine (reaches_alone n hidle hp).tail ?_
  have hstep := Step.leaves (F := F) (s := (advance (F.exec i) n (s, p)).1)
    (Function.update_self i (some (advance (F.exec i) n (s, p)).2) run)
  rwa [Function.update_idem, ← hidle, Function.update_eq_self] at hstep

end Family

end Interleave
