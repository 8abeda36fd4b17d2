import Mathlib.Data.Nat.Notation
import Mathlib.Logic.Relation
/-!
# Interleave — programs that run beside others

A `Script` is a program as the tree of its operations.  A `System` says what an operation does to the state, which
failures may end it besides its own, and what the others may do to the state before, between and behind the
operations.  `Guarded` holds of a program and a state when every operation the program comes to meets its guard, and
`guarded_of_reaches` is what that says of every interleaving.  `Triple` derives it part by part, from assertions that
the others keep.
-/

/-- A program over the operations `Op`.  It goes on behind an operation whether that one fails or not. -/
inductive Script (Op : Type → Type) (ε α : Type) : Type 1
  | ret (a : α)
  | raise (e : ε)
  | op {β : Type} (o : Op β) (next : Except ε β → Script Op ε α)

namespace Script

variable {Op : Type → Type} {ε α β : Type}

def bind : Script Op ε α → (α → Script Op ε β) → Script Op ε β
  | ret a, f => f a
  | raise e, _ => raise e
  | op o next, f => op o (fun r => (next r).bind f)

instance : Monad (Script Op ε) where
  pure := ret
  bind := bind

def ofExcept : Except ε α → Script Op ε α
  | .ok a => ret a
  | .error e => raise e

def perform (o : Op α) : Script Op ε α := op o ofExcept

/-- A program whose failure is a value of the one that tries it. -/
def attempt : Script Op ε α → Script Op ε (Except ε α)
  | ret a => ret (.ok a)
  | raise e => ret (.error e)
  | op o next => op o (fun r => (next r).attempt)

def rescue (s : Script Op ε α) (handler : ε → Script Op ε α) : Script Op ε α :=
  s.attempt >>= fun
    | .ok a => ret a
    | .error e => handler e

def always (s : Script Op ε α) (cleanup : Script Op ε Unit) : Script Op ε α :=
  s.attempt >>= fun r => cleanup >>= fun _ => ofExcept r

/-- Every operation that the program may come to is one of `A`. -/
def Only (A : ∀ β, Op β → Prop) : Script Op ε α → Prop
  | ret _ => True
  | raise _ => True
  | @op _ _ _ β o next => A β o ∧ ∀ r, (next r).Only A

namespace Only

variable {A : ∀ β, Op β → Prop}

theorem pure (a : α) : Only A (pure a : Script Op ε α) := trivial

theorem perform {o : Op α} (h : A α o) : Only A (perform o : Script Op ε α) :=
  ⟨h, fun r => match r with
    | .ok _ => trivial
    | .error _ => trivial⟩

theorem ofExcept (r : Except ε α) : Only A (ofExcept r : Script Op ε α) :=
  match r with
  | .ok _ => trivial
  | .error _ => trivial

theorem bind {p : Script Op ε α} {f : α → Script Op ε β} (hp : p.Only A) (hf : ∀ a, (f a).Only A) :
    (p >>= f).Only A := by
  induction p with
  | ret a => exact hf a
  | raise e => exact trivial
  | op o next ih => exact ⟨hp.1, fun r => ih r (hp.2 r)⟩

theorem attempt {p : Script Op ε α} (hp : p.Only A) : p.attempt.Only A := by
  induction p with
  | ret a => exact trivial
  | raise e => exact trivial
  | op o next ih => exact ⟨hp.1, fun r => ih r (hp.2 r)⟩

theorem rescue {p : Script Op ε α} {handler : ε → Script Op ε α} (hp : p.Only A) (hhandler : ∀ e, (handler e).Only A) :
    (p.rescue handler).Only A :=
  hp.attempt.bind fun r => match r with
    | .ok _ => trivial
    | .error e => hhandler e

theorem always {p : Script Op ε α} {cleanup : Script Op ε Unit} (hp : p.Only A) (hcleanup : cleanup.Only A) :
    (p.always cleanup).Only A :=
  hp.attempt.bind fun r => hcleanup.bind fun _ => ofExcept r

end Only

/-- Every value that the program may return is one of `Q`. -/
def Yields (Q : α → Prop) : Script Op ε α → Prop
  | ret a => Q a
  | raise _ => True
  | op _ next => ∀ r, (next r).Yields Q

theorem Yields.bind {Q : α → Prop} {R : β → Prop} {p : Script Op ε α} {f : α → Script Op ε β} (hp : p.Yields Q)
    (hf : ∀ a, Q a → (f a).Yields R) : (p >>= f).Yields R := by
  induction p with
  | ret a => exact hf a hp
  | raise e => exact trivial
  | op o next ih => exact fun r => ih r (hp r)

theorem Yields.mono {Q R : α → Prop} {p : Script Op ε α} (hp : p.Yields Q) (h : ∀ a, Q a → R a) : p.Yields R := by
  induction p with
  | ret a => exact h a hp
  | raise e => exact trivial
  | op o next ih => exact fun r => ih r (hp r)

theorem yields_true (p : Script Op ε α) : p.Yields fun _ => True := by
  induction p with
  | ret a => exact trivial
  | raise e => exact trivial
  | op o next ih => exact ih

/-- The program by itself. -/
def run {σ : Type} (exec : {β : Type} → Op β → σ → Except ε β × σ) : Script Op ε α → σ → Except ε α × σ
  | ret a, s => (.ok a, s)
  | raise e, s => (.error e, s)
  | op o next, s => (next (exec o s).1).run exec (exec o s).2

@[simp] theorem run_pure {σ : Type} (exec : {β : Type} → Op β → σ → Except ε β × σ) (a : α) (s : σ) :
    (pure a : Script Op ε α).run exec s = (.ok a, s) := rfl

@[simp] theorem run_raise {σ : Type} (exec : {β : Type} → Op β → σ → Except ε β × σ) (e : ε) (s : σ) :
    (raise e : Script Op ε α).run exec s = (.error e, s) := rfl

@[simp] theorem run_perform {σ : Type} (exec : {β : Type} → Op β → σ → Except ε β × σ) (o : Op α) (s : σ) :
    (perform o).run exec s = exec o s := by
  show (ofExcept (exec o s).1).run exec (exec o s).2 = exec o s
  rcases exec o s with ⟨_ | _, s'⟩ <;> rfl

theorem run_bind {σ : Type} (exec : {β : Type} → Op β → σ → Except ε β × σ) (p : Script Op ε α)
    (f : α → Script Op ε β) (s : σ) :
    (p >>= f).run exec s = match p.run exec s with
      | (.ok a, s') => (f a).run exec s'
      | (.error e, s') => (.error e, s') := by
  induction p generalizing s with
  | ret a => rfl
  | raise e => rfl
  | op o next ih => exact ih _ _

end Script

namespace Interleave

open Relation (ReflTransGen)

variable {σ ε α β : Type} {Op : Type → Type}

structure System (σ ε : Type) (Op : Type → Type) where
  exec : {β : Type} → Op β → σ → Except ε β × σ
  rely : σ → σ → Prop
  /-- The failures that keep an operation from being done. -/
  fails : {β : Type} → Op β → ε → Prop
  /-- The failures that hide that an operation was done. -/
  failsLate : {β : Type} → Op β → ε → Prop

variable (M : System σ ε Op)

inductive Outcome (o : Op β) (s : σ) : Except ε β → σ → Prop
  | done : Outcome o s (M.exec o s).1 (M.exec o s).2
  | fails {e : ε} (h : M.fails o e) : Outcome o s (.error e) s
  | failsLate {e : ε} (h : M.failsLate o e) : Outcome o s (.error e) (M.exec o s).2

variable {M} in
theorem Outcome.ok {o : Op α} {s s' : σ} {a : α} (h : Outcome M o s (.ok a) s') : M.exec o s = (.ok a, s') := by
  generalize hr : Except.ok a = r at h
  cases h with
  | done => rfl
  | fails => cases hr
  | failsLate => cases hr

variable {M} in
theorem Outcome.error {o : Op α} {s s' : σ} {e : ε} (h : Outcome M o s (.error e) s') :
    s' = (M.exec o s).2 ∧ ((M.exec o s).1 = .error e ∨ M.failsLate o e) ∨ s' = s ∧ M.fails o e := by
  generalize hr : Except.error e = r at h
  cases h with
  | done => exact .inl ⟨rfl, .inl rfl⟩
  | fails hfails =>
    cases hr
    exact .inr ⟨rfl, hfails⟩
  | failsLate hlate =>
    cases hr
    exact .inl ⟨rfl, .inr hlate⟩

inductive Step : σ × Script Op ε α → σ × Script Op ε α → Prop
  | others {s s' : σ} {p : Script Op ε α} (h : M.rely s s') : Step (s, p) (s', p)
  | own {β : Type} {s s' : σ} {o : Op β} {next : Except ε β → Script Op ε α} {r : Except ε β} (h : Outcome M o s r s') :
      Step (s, .op o next) (s', next r)

/-- One state and program comes out of another under some interleaving. -/
def Reaches (c c' : σ × Script Op ε α) : Prop := ReflTransGen (Step M) c c'

/-- Every operation that the program comes to meets its guard, and every end of it meets `Q` or `E`. -/
def Guarded (G : ∀ β, Op β → σ → Prop) (Q : α → σ → Prop) (E : ε → σ → Prop) : Script Op ε α → σ → Prop
  | .ret a, s => ∀ s', ReflTransGen M.rely s s' → Q a s'
  | .raise e, s => ∀ s', ReflTransGen M.rely s s' → E e s'
  | .op o next, s => ∀ s', ReflTransGen M.rely s s' →
      G _ o s' ∧ ∀ r s'', Outcome M o s' r s'' → Guarded G Q E (next r) s''

section Sound

variable {M} {G : ∀ β, Op β → σ → Prop} {Q : α → σ → Prop} {E : ε → σ → Prop}

theorem Guarded.others {p : Script Op ε α} {s s' : σ} (h : Guarded M G Q E p s) (hrely : M.rely s s') :
    Guarded M G Q E p s' := by
  cases p with
  | ret a => exact fun s'' hs'' => h s'' (.head hrely hs'')
  | raise e => exact fun s'' hs'' => h s'' (.head hrely hs'')
  | op o next => exact fun s'' hs'' => h s'' (.head hrely hs'')

theorem Guarded.step {c c' : σ × Script Op ε α} (h : Guarded M G Q E c.2 c.1) (hstep : Step M c c') :
    Guarded M G Q E c'.2 c'.1 := by
  cases hstep with
  | others hrely => exact h.others hrely
  | own hown => exact (h _ .refl).2 _ _ hown

/-- **What is guarded stays so in every interleaving.** -/
theorem guarded_of_reaches {c c' : σ × Script Op ε α} (h : Guarded M G Q E c.2 c.1) (hreaches : Reaches M c c') :
    Guarded M G Q E c'.2 c'.1 := by
  induction hreaches with
  | refl => exact h
  | tail _ hstep ih => exact ih.step hstep

theorem Guarded.op {s : σ} {o : Op β} {next : Except ε β → Script Op ε α} (h : Guarded M G Q E (.op o next) s) :
    G β o s := (h s .refl).1

theorem Guarded.ret {s : σ} {a : α} (h : Guarded M G Q E (.ret a) s) : Q a s := h s .refl

theorem Guarded.raise {s : σ} {e : ε} (h : Guarded M G Q E (.raise e) s) : E e s := h s .refl

end Sound

/-! ## Undisturbed runs -/

/-- So many operations, with nothing between them and no failure besides their own. -/
def advance (exec : {β : Type} → Op β → σ → Except ε β × σ) : ℕ → σ × Script Op ε α → σ × Script Op ε α
  | n + 1, (s, .op o next) => advance exec n ((exec o s).2, next (exec o s).1)
  | _, c => c

theorem reaches_advance (n : ℕ) (c : σ × Script Op ε α) : Reaches M c (advance M.exec n c) := by
  induction n generalizing c with
  | zero => exact .refl
  | succ n ih =>
    obtain ⟨s, p⟩ := c
    cases p with
    | ret a => exact .refl
    | raise e => exact .refl
    | op o next => exact .head (.own .done) (ih _)

/-- The next operation fails before it is done. -/
def interrupt (e : ε) : Script Op ε α → Script Op ε α
  | .op _ next => next (.error e)
  | p => p

theorem reaches_interrupt {e : ε} {c : σ × Script Op ε α}
    (h : match c.2 with
      | .op o _ => M.fails o e
      | _ => True) : Reaches M c (c.1, interrupt e c.2) := by
  obtain ⟨s, p⟩ := c
  cases p with
  | ret a => exact .refl
  | raise e => exact .refl
  | op o next => exact .single (.own (.fails h))

/-! ## Triples -/

/-- The others keep an assertion. -/
def Stable (P : σ → Prop) : Prop := ∀ s s', M.rely s s' → P s → P s'

section Rules

variable {M} {G : ∀ β, Op β → σ → Prop} {P P' : σ → Prop} {Q Q' : α → σ → Prop} {R : β → σ → Prop} {E E' : ε → σ → Prop}

theorem Stable.others {s s' : σ} (h : Stable M P) (hrely : ReflTransGen M.rely s s') (hs : P s) : P s' := by
  induction hrely with
  | refl => exact hs
  | tail _ hstep ih => exact h _ _ hstep ih

theorem Stable.and (h : Stable M P) (h' : Stable M P') : Stable M (fun s => P s ∧ P' s) :=
  fun s s' hrely hs => ⟨h s s' hrely hs.1, h' s s' hrely hs.2⟩

theorem Stable.const (p : Prop) : Stable M (fun _ => p) := fun _ _ _ h => h

variable (M G P) in
/-- From `P` the program is guarded, and ends in `Q` or fails in `E`. -/
def Triple (p : Script Op ε α) (Q : α → σ → Prop) (E : ε → σ → Prop) : Prop := ∀ s, P s → Guarded M G Q E p s

/-- What holds of a result: the first assertion of a value, the second of an error. -/
def Landed (Q : α → σ → Prop) (E : ε → σ → Prop) : Except ε α → σ → Prop
  | .ok a, s => Q a s
  | .error e, s => E e s

namespace Triple

theorem pre {p : Script Op ε α} (h : Triple M G P p Q E) (hP : ∀ s, P' s → P s) : Triple M G P' p Q E :=
  fun s hs => h s (hP s hs)

/-- What does not speak of the state is known from the start. -/
theorem assuming {p : Script Op ε α} {known : Prop} (h : known → Triple M G P p Q E) :
    Triple M G (fun s => known ∧ P s) p Q E := fun s hs => h hs.1 s hs.2

theorem pure {a : α} (hstable : Stable M P) (h : ∀ s, P s → Q a s) : Triple M G P (Pure.pure a) Q E :=
  fun _ hs s' hrely => h s' (hstable.others hrely hs)

theorem raise {e : ε} (hstable : Stable M P) (h : ∀ s, P s → E e s) : Triple M G P (.raise e) Q E :=
  fun _ hs s' hrely => h s' (hstable.others hrely hs)

theorem op {o : Op β} {next : Except ε β → Script Op ε α} {R : Except ε β → σ → Prop} (hstable : Stable M P)
    (hguard : ∀ s, P s → G β o s) (hdone : ∀ s r s', P s → Outcome M o s r s' → R r s')
    (hnext : ∀ r, Triple M G (R r) (next r) Q E) : Triple M G P (.op o next) Q E := by
  intro s hs s' hrely
  have hs' := hstable.others hrely hs
  exact ⟨hguard s' hs', fun r s'' hown => hnext r s'' (hdone s' r s'' hs' hown)⟩

theorem weaken {p : Script Op ε α} (h : Triple M G P p Q E) (hP : ∀ s, P' s → P s) (hQ : ∀ a s, Q a s → Q' a s)
    (hE : ∀ e s, E e s → E' e s) : Triple M G P' p Q' E' := by
  suffices hgo : ∀ p : Script Op ε α, ∀ s, Guarded M G Q E p s → Guarded M G Q' E' p s from
    fun s hs => hgo p s (h s (hP s hs))
  intro p
  induction p with
  | ret a => exact fun s hg s' hrely => hQ a s' (hg s' hrely)
  | raise e => exact fun s hg s' hrely => hE e s' (hg s' hrely)
  | op o next ih =>
    exact fun s hg s' hrely => ⟨(hg s' hrely).1, fun r s'' hown => ih r s'' ((hg s' hrely).2 r s'' hown)⟩

theorem bind {p : Script Op ε β} {f : β → Script Op ε α} (hp : Triple M G P p R E)
    (hf : ∀ b, Triple M G (R b) (f b) Q E) : Triple M G P (p >>= f) Q E := by
  suffices hgo : ∀ p : Script Op ε β, ∀ s, Guarded M G R E p s → Guarded M G Q E (p.bind f) s from
    fun s hs => hgo p s (hp s hs)
  intro p
  induction p with
  | ret b => exact fun s hg => hf b s hg.ret
  | raise e => exact fun s hg => hg
  | op o next ih =>
    exact fun s hg s' hrely => ⟨(hg s' hrely).1, fun r s'' hown => ih r s'' ((hg s' hrely).2 r s'' hown)⟩

/-- A trial ends where the program tried ends, well or not. -/
theorem attempt {p : Script Op ε α} (h : Triple M G P p Q E') :
    Triple M G P p.attempt (Landed Q E') E := by
  suffices hgo : ∀ p : Script Op ε α, ∀ s, Guarded M G Q E' p s → Guarded M G (Landed Q E') E p.attempt s from
    fun s hs => hgo p s (h s hs)
  intro p
  induction p with
  | ret a => exact fun s hg => hg
  | raise e => exact fun s hg => hg
  | op o next ih =>
    exact fun s hg s' hrely => ⟨(hg s' hrely).1, fun r s'' hown => ih r s'' ((hg s' hrely).2 r s'' hown)⟩

theorem rescue {p : Script Op ε α} {handler : ε → Script Op ε α} {F : ε → σ → Prop} (hp : Triple M G P p Q F)
    (hQ : ∀ a, Stable M (Q a)) (hhandler : ∀ e, Triple M G (F e) (handler e) Q E) :
    Triple M G P (p.rescue handler) Q E := by
  refine hp.attempt.bind fun r => ?_
  cases r with
  | ok a => exact pure (hQ a) fun s hs => hs
  | error e => exact hhandler e

/-- The cleanup runs from either end, and the program ends as it would have ended. -/
theorem always {p : Script Op ε α} {cleanup : Script Op ε Unit} {R : α → σ → Prop} {F : ε → σ → Prop}
    (hp : Triple M G P p R F) (hQ : ∀ a, Stable M (Q a)) (hE : ∀ e, Stable M (E e))
    (hok : ∀ a, Triple M G (R a) cleanup (fun _ => Q a) E)
    (herror : ∀ e, Triple M G (F e) cleanup (fun _ => E e) E) : Triple M G P (p.always cleanup) Q E := by
  refine hp.attempt.bind fun r => ?_
  cases r with
  | ok a => exact (hok a).bind fun _ => pure (hQ a) fun s hs => hs
  | error e => exact (herror e).bind fun _ => raise (hE e) fun s hs => hs

theorem perform {o : Op α} (hstable : Stable M P) (hguard : ∀ s, P s → G α o s)
    (hok : ∀ s a s', P s → Outcome M o s (.ok a) s' → Q a s')
    (herror : ∀ s e s', P s → Outcome M o s (.error e) s' → E e s') (hQ : ∀ a, Stable M (Q a))
    (hE : ∀ e, Stable M (E e)) : Triple M G P (.perform o) Q E := by
  refine op (R := Landed Q E) hstable hguard (fun s r s' hs hown => ?_) (fun r => ?_)
  · cases r with
    | ok a => exact hok s a s' hs hown
    | error e => exact herror s e s' hs hown
  · cases r with
    | ok a => exact pure (hQ a) fun s hs => hs
    | error e => exact raise (hE e) fun s hs => hs

/-- What the program's values are whatever happens, they are besides. -/
theorem yields {p : Script Op ε α} {R : α → Prop} (h : Triple M G P p Q E) (hR : p.Yields R) :
    Triple M G P p (fun a s => R a ∧ Q a s) E := by
  suffices hgo : ∀ p : Script Op ε α, p.Yields R → ∀ s, Guarded M G Q E p s →
      Guarded M G (fun a s => R a ∧ Q a s) E p s from fun s hs => hgo p hR s (h s hs)
  intro p
  induction p with
  | ret a => exact fun hp s hg s' hrely => ⟨hp, hg s' hrely⟩
  | raise e => exact fun _ s hg => hg
  | op o next ih =>
    exact fun hp s hg s' hrely => ⟨(hg s' hrely).1, fun r s'' hown => ih r (hp r) s'' ((hg s' hrely).2 r s'' hown)⟩

/-- An assertion that every operation keeps holds besides. -/
theorem frame {p : Script Op ε α} {F : σ → Prop} (h : Triple M G P p Q E) (hF : Stable M F)
    (hkeep : ∀ {β} {o : Op β} {s r s'}, F s → Outcome M o s r s' → F s') :
    Triple M G (fun s => P s ∧ F s) p (fun a s => Q a s ∧ F s) (fun e s => E e s ∧ F s) := by
  suffices hgo : ∀ p : Script Op ε α, ∀ s, Guarded M G Q E p s → F s →
      Guarded M G (fun a s => Q a s ∧ F s) (fun e s => E e s ∧ F s) p s from fun s hs => hgo p s (h s hs.1) hs.2
  intro p
  induction p with
  | ret a => exact fun s hg hs s' hrely => ⟨hg s' hrely, hF.others hrely hs⟩
  | raise e => exact fun s hg hs s' hrely => ⟨hg s' hrely, hF.others hrely hs⟩
  | op o next ih =>
    intro s hg hs s' hrely
    have hs' := hF.others hrely hs
    exact ⟨(hg s' hrely).1, fun r s'' hown => ih r s'' ((hg s' hrely).2 r s'' hown) (hkeep hs' hown)⟩

/-- A program whose operations all keep an assertion keeps it. -/
theorem of_only {A : ∀ β, Op β → Prop} {p : Script Op ε α} (hp : p.Only A) (hstable : Stable M P)
    (hguard : ∀ β o s, A β o → P s → G β o s) (hkeep : ∀ β o s r s', A β o → P s → Outcome M o s r s' → P s') :
    Triple M G P p (fun _ => P) (fun _ => P) := by
  induction p with
  | ret a => exact pure hstable fun s hs => hs
  | raise e => exact raise hstable fun s hs => hs
  | op o next ih =>
    exact op (R := fun _ => P) hstable (fun s hs => hguard _ o s hp.1 hs)
      (fun s r s' hs hown => hkeep _ o s r s' hp.1 hs hown) fun r => ih r (hp.2 r)

end Triple

end Rules

end Interleave
