import Mathlib.Data.Nat.Basic
/-!
# Effect — failing computations over a state

A failure keeps the state it happened in: what was written before it stays written.  `Keeps view m` says that `m` never
changes a part of the state, and `FailsClean view m` that it has not when it fails, which a computation that writes only
once nothing can fail any more satisfies.  Both are derived part by part, without running the computation.
-/

abbrev Effect (σ ε α : Type) := ExceptT ε (StateM σ) α

namespace Effect

variable {σ τ ε ε' α β υ : Type}

def run (m : Effect σ ε α) (s : σ) : Except ε α × σ := StateT.run (ExceptT.run m) s

def lift (wrap : ε' → ε) : Except ε' α → Effect σ ε α
  | .ok a => pure a
  | .error e => throw (wrap e)

def ofStep (f : σ → Except ε α × σ) : Effect σ ε α := ExceptT.mk (StateT.mk f)

def mapError (wrap : ε' → ε) (m : Effect σ ε' α) : Effect σ ε α :=
  ofStep (fun s => ((run m s).1.mapError wrap, (run m s).2))

/-- A computation over one part of the state. -/
def focus (get : σ → τ) (set : σ → τ → σ) (wrap : ε' → ε) (m : Effect τ ε' α) : Effect σ ε α :=
  ofStep (fun s => ((run m (get s)).1.mapError wrap, set s (run m (get s)).2))

@[simp] theorem run_ofStep (f : σ → Except ε α × σ) (s : σ) : run (ofStep f) s = f s := rfl

@[simp] theorem run_lift (wrap : ε' → ε) (x : Except ε' α) (s : σ) :
    run (lift wrap x : Effect σ ε α) s = (x.mapError wrap, s) := by
  cases x <;> rfl

theorem run_bind (m : Effect σ ε α) (f : α → Effect σ ε β) (s : σ) :
    run (m >>= f) s = match run m s with
      | (.ok a, s') => run (f a) s'
      | (.error e, s') => (.error e, s') := by
  unfold run
  rw [ExceptT.run_bind, StateT.run_bind]
  generalize StateT.run (ExceptT.run m) s = r
  rcases r with ⟨_ | a, s'⟩ <;> rfl

theorem run_bind_ok {m : Effect σ ε α} {f : α → Effect σ ε β} {s s' : σ} {a : α} (h : run m s = (.ok a, s')) :
    run (m >>= f) s = run (f a) s' := by
  rw [run_bind, h]

theorem run_bind_error {m : Effect σ ε α} {f : α → Effect σ ε β} {s s' : σ} {e : ε} (h : run m s = (.error e, s')) :
    run (m >>= f) s = (.error e, s') := by
  rw [run_bind, h]

@[simp] theorem run_pure_bind (a : α) (f : α → Effect σ ε β) (s : σ) : run (pure a >>= f) s = run (f a) s := rfl

/-- A sequence that succeeds went through its first part. -/
theorem ok_of_run_bind {m : Effect σ ε α} {f : α → Effect σ ε β} {s s' : σ} {b : β}
    (h : run (m >>= f) s = (.ok b, s')) : ∃ a s₁, run m s = (.ok a, s₁) ∧ run (f a) s₁ = (.ok b, s') := by
  rw [run_bind] at h
  generalize run m s = r at h ⊢
  rcases r with ⟨_ | a, s₁⟩
  · cases h
  · exact ⟨a, s₁, rfl, h⟩

theorem ok_of_run_lift {wrap : ε' → ε} {x : Except ε' α} {s s' : σ} {a : α}
    (h : run (lift wrap x : Effect σ ε α) s = (.ok a, s')) : x = .ok a ∧ s = s' := by
  cases x with
  | error e => cases h
  | ok b =>
    cases h
    exact ⟨rfl, rfl⟩

/-- A computation whose failure is a value of the one that tries it. -/
def attempt (m : Effect σ ε α) : Effect σ ε (Except ε α) := ofStep (fun s => (.ok (run m s).1, (run m s).2))

/-! ## Triples -/

/-- From `P` a success ends in `Q` and a failure in `E`. -/
def Triple (P : σ → Prop) (m : Effect σ ε α) (Q : α → σ → Prop) (E : σ → Prop) : Prop :=
  ∀ s, P s → (∀ a s', run m s = (.ok a, s') → Q a s') ∧ ∀ e s', run m s = (.error e, s') → E s'

namespace Triple

variable {P P' : σ → Prop} {Q Q' : α → σ → Prop} {R : β → σ → Prop} {E : σ → Prop}

theorem pure {a : α} (h : ∀ s, P s → Q a s) : Triple P (pure a : Effect σ ε α) Q E := by
  intro s hs
  refine ⟨fun b s' hrun => ?_, fun e s' hrun => ?_⟩
  · cases hrun
    exact h s hs
  · cases hrun

theorem throw {e : ε} (h : ∀ s, P s → E s) : Triple P (throw e : Effect σ ε α) Q E := by
  intro s hs
  refine ⟨fun b s' hrun => ?_, fun e s' hrun => ?_⟩
  · cases hrun
  · cases hrun
    exact h s hs

theorem bind {m : Effect σ ε α} {f : α → Effect σ ε β} (hm : Triple P m Q E) (hf : ∀ a, Triple (Q a) (f a) R E) :
    Triple P (m >>= f) R E := by
  intro s hs
  rw [run_bind]
  obtain ⟨hok, herror⟩ := hm s hs
  rcases hrun : run m s with ⟨e | a, s'⟩
  · refine ⟨fun b s₁ h => ?_, fun e' s₁ h => ?_⟩
    · cases h
    · cases h
      exact herror e s' hrun
  · exact hf a s' (hok a s' hrun)

theorem lift_bind {wrap : ε' → ε} {x : Except ε' α} {f : α → Effect σ ε β} (herror : ∀ s, P s → E s)
    (hf : ∀ a, x = .ok a → Triple P (f a) R E) : Triple P (Effect.lift wrap x >>= f) R E := by
  cases x with
  | error e => exact Triple.throw herror
  | ok a => exact hf a rfl

theorem lift {wrap : ε' → ε} {x : Except ε' α} (herror : ∀ s, P s → E s) (hok : ∀ a s, x = .ok a → P s → Q a s) :
    Triple P (Effect.lift wrap x : Effect σ ε α) Q E := by
  cases x with
  | error e => exact Triple.throw herror
  | ok a => exact Triple.pure fun s hs => hok a s rfl hs

theorem mapError (wrap : ε' → ε) {m : Effect σ ε' α} (h : Triple P m Q E) : Triple P (mapError wrap m) Q E := by
  intro s hs
  obtain ⟨hok, herror⟩ := h s hs
  unfold Effect.mapError
  rw [run_ofStep]
  rcases hrun : run m s with ⟨e | a, s'⟩
  · refine ⟨fun b s₁ h => ?_, fun e' s₁ h => ?_⟩
    · cases h
    · cases h
      exact herror e s' hrun
  · refine ⟨fun b s₁ h => ?_, fun e' s₁ h => ?_⟩
    · cases h
      exact hok a s' hrun
    · cases h

theorem attempt {m : Effect σ ε α} (h : Triple P m Q E) :
    Triple P (attempt m) (fun result s => match result with
      | .ok a => Q a s
      | .error _ => E s) (fun _ => False) := by
  intro s hs
  obtain ⟨hok, herror⟩ := h s hs
  unfold Effect.attempt
  rw [run_ofStep]
  refine ⟨fun result s₁ hrun => ?_, fun e' s₁ hrun => ?_⟩
  · cases hrun
    rcases hm : run m s with ⟨e | a, s'⟩
    · exact herror e s' hm
    · exact hok a s' hm
  · cases hrun

theorem weaken {m : Effect σ ε α} {E' : σ → Prop} (h : Triple P m Q E) (hP : ∀ s, P' s → P s)
    (hQ : ∀ a s, Q a s → Q' a s) (hE : ∀ s, E s → E' s) : Triple P' m Q' E' := by
  intro s hs
  obtain ⟨hok, herror⟩ := h s (hP s hs)
  exact ⟨fun a s' hrun => hQ a s' (hok a s' hrun), fun e s' hrun => hE s' (herror e s' hrun)⟩

end Triple

/-! ## Frames -/

/-- Whatever happens, `P` still holds where it held. -/
def Maintains (P : σ → Prop) (m : Effect σ ε α) : Prop := ∀ s, P s → P (run m s).2

/-- When it succeeds, `Q` holds of its value. -/
def Yields (Q : α → Prop) (m : Effect σ ε α) : Prop := ∀ s a s', run m s = (.ok a, s') → Q a

/-- When it succeeds, `P` holds, whatever held before. -/
def Establishes (P : σ → Prop) (m : Effect σ ε α) : Prop := ∀ s a s', run m s = (.ok a, s') → P s'

/-- Whatever happens, the part `view` of the state stays as it is. -/
def Keeps (view : σ → υ) (m : Effect σ ε α) : Prop := ∀ s, view (run m s).2 = view s

/-- When it fails, the part `view` of the state is as it was. -/
def FailsClean (view : σ → υ) (m : Effect σ ε α) : Prop := ∀ s e, (run m s).1 = .error e → view (run m s).2 = view s

variable {view : σ → υ} {P : σ → Prop}

namespace Yields

variable {Q : α → Prop} {R : β → Prop}

theorem pure {a : α} (h : Q a) : Yields Q (pure a : Effect σ ε α) := by
  intro s b s' hrun
  cases hrun
  exact h

theorem bind {m : Effect σ ε α} {f : α → Effect σ ε β} (hf : ∀ a, Yields R (f a)) : Yields R (m >>= f) := by
  intro s b s' h
  obtain ⟨a, s₁, -, h⟩ := ok_of_run_bind h
  exact hf a s₁ b s' h

end Yields

namespace Maintains

theorem pure (a : α) : Maintains P (pure a : Effect σ ε α) := fun _ h => h

theorem throw (e : ε) : Maintains P (throw e : Effect σ ε α) := fun _ h => h

theorem lift (wrap : ε' → ε) (x : Except ε' α) : Maintains P (lift wrap x : Effect σ ε α) := fun s h => by
  rwa [run_lift]

theorem get : Maintains P (get : Effect σ ε σ) := fun _ h => h

theorem modify {f : σ → σ} (h : ∀ s, P s → P (f s)) : Maintains P (modify f : Effect σ ε PUnit) := h

theorem bind {m : Effect σ ε α} {f : α → Effect σ ε β} (hm : Maintains P m) (hf : ∀ a, Maintains P (f a)) :
    Maintains P (m >>= f) := by
  intro s hs
  rw [run_bind]
  have h := hm s hs
  generalize run m s = r at h
  rcases r with ⟨_ | a, s'⟩
  · exact h
  · exact hf a s' h

theorem bind_yields {Q : α → Prop} {m : Effect σ ε α} {f : α → Effect σ ε β} (hm : Maintains P m) (hq : Yields Q m)
    (hf : ∀ a, Q a → Maintains P (f a)) : Maintains P (m >>= f) := by
  intro s hs
  rw [run_bind]
  have h := hm s hs
  rcases hrun : run m s with ⟨_ | a, s'⟩
  · rw [hrun] at h
    exact h
  · rw [hrun] at h
    exact hf a (hq s a s' hrun) s' h

theorem lift_bind {wrap : ε' → ε} {x : Except ε' α} {f : α → Effect σ ε β} (h : ∀ a, x = .ok a → Maintains P (f a)) :
    Maintains P (Effect.lift wrap x >>= f) := by
  cases x with
  | error e => exact Maintains.throw _
  | ok a => exact h a rfl

theorem mapError (wrap : ε' → ε) {m : Effect σ ε' α} (h : Maintains P m) : Maintains P (mapError wrap m) := h

theorem focus {Q : τ → Prop} {get : σ → τ} {set : σ → τ → σ} (hget : ∀ s, P s → Q (get s))
    (hset : ∀ s t, P s → Q t → P (set s t)) (wrap : ε' → ε) {m : Effect τ ε' α} (hm : Maintains Q m) :
    Maintains P (focus get set wrap m) := fun s hs => hset s _ hs (hm _ (hget s hs))

theorem of_keeps (Q : υ → Prop) {m : Effect σ ε α} (h : Keeps view m) : Maintains (fun s => Q (view s)) m := by
  intro s hs
  show Q (view (run m s).2)
  rwa [h s]

theorem mapM {f : α → Effect σ ε β} : ∀ {xs : List α}, (∀ x ∈ xs, Maintains P (f x)) → Maintains P (xs.mapM f)
  | [], _ => Maintains.pure []
  | x :: xs, h => by
    rw [List.mapM_cons]
    exact (h x List.mem_cons_self).bind fun _ =>
      (Maintains.mapM fun y hy => h y (List.mem_cons_of_mem _ hy)).bind fun _ => Maintains.pure _

end Maintains

namespace Establishes

theorem modify {f : σ → σ} (h : ∀ s, P (f s)) : Establishes P (modify f : Effect σ ε PUnit) := by
  intro s a s' hrun
  cases hrun
  exact h s

theorem focus {Q : τ → Prop} {get : σ → τ} {set : σ → τ → σ} (hset : ∀ s t, Q t → P (set s t)) (wrap : ε' → ε)
    {m : Effect τ ε' α} (hm : Establishes Q m) : Establishes P (focus get set wrap m) := by
  intro s a s' h
  unfold Effect.focus at h
  rw [run_ofStep] at h
  generalize hrun : run m (get s) = r at h
  rcases r with ⟨_ | b, t⟩
  · cases h
  · cases h
    exact hset s t (hm _ _ _ hrun)

theorem bind_left {m : Effect σ ε α} {f : α → Effect σ ε β} (hm : Establishes P m) (hf : ∀ a, Maintains P (f a)) :
    Establishes P (m >>= f) := by
  intro s b s' h
  obtain ⟨a, s₁, hrun, h⟩ := ok_of_run_bind h
  have hkept := hf a s₁ (hm s a s₁ hrun)
  rwa [h] at hkept

theorem bind_right {m : Effect σ ε α} {f : α → Effect σ ε β} (hf : ∀ a, Establishes P (f a)) :
    Establishes P (m >>= f) := by
  intro s b s' h
  obtain ⟨a, s₁, -, h⟩ := ok_of_run_bind h
  exact hf a s₁ b s' h

theorem bind_yields {Q : α → Prop} {m : Effect σ ε α} {f : α → Effect σ ε β} (hq : Yields Q m)
    (hf : ∀ a, Q a → Establishes P (f a)) : Establishes P (m >>= f) := by
  intro s b s' h
  obtain ⟨a, s₁, hrun, h⟩ := ok_of_run_bind h
  exact hf a (hq s a s₁ hrun) s₁ b s' h

theorem lift_bind {wrap : ε' → ε} {x : Except ε' α} {f : α → Effect σ ε β} (h : ∀ a, x = .ok a → Establishes P (f a)) :
    Establishes P (Effect.lift wrap x >>= f) := by
  cases x with
  | error e => exact nofun
  | ok a => exact h a rfl

/-- One element establishes it, and no other undoes it. -/
theorem mapM {f : α → Effect σ ε β} {x : α} (hx : Establishes P (f x)) :
    ∀ {xs : List α}, x ∈ xs → (∀ y ∈ xs, Maintains P (f y)) → Establishes P (xs.mapM f)
  | y :: ys, hmem, hall => by
    rw [List.mapM_cons]
    have hrest : Maintains P (ys.mapM f) := Maintains.mapM fun z hz => hall z (List.mem_cons_of_mem _ hz)
    rcases List.mem_cons.1 hmem with rfl | hmem
    · exact hx.bind_left fun _ => hrest.bind fun _ => Maintains.pure _
    · have htail : Establishes P (ys.mapM f) := mapM hx hmem fun z hz => hall z (List.mem_cons_of_mem _ hz)
      exact bind_right fun _ => htail.bind_left fun _ => Maintains.pure _

end Establishes

namespace Keeps

theorem of_maintains {m : Effect σ ε α} (h : ∀ v, Maintains (fun s => view s = v) m) : Keeps view m :=
  fun s => h _ s rfl

theorem pure (a : α) : Keeps view (pure a : Effect σ ε α) := fun _ => rfl

theorem lift (wrap : ε' → ε) (x : Except ε' α) : Keeps view (lift wrap x : Effect σ ε α) :=
  of_maintains fun _ => Maintains.lift wrap x

theorem modify {f : σ → σ} (h : ∀ s, view (f s) = view s) : Keeps view (modify f : Effect σ ε PUnit) := h

theorem get : Keeps view (get : Effect σ ε σ) := fun _ => rfl

theorem ofStep {f : σ → Except ε α × σ} (h : ∀ s, view (f s).2 = view s) : Keeps view (ofStep f) := h

theorem bind {m : Effect σ ε α} {f : α → Effect σ ε β} (hm : Keeps view m) (hf : ∀ a, Keeps view (f a)) :
    Keeps view (m >>= f) :=
  of_maintains fun v => (Maintains.of_keeps (· = v) hm).bind fun a => Maintains.of_keeps (· = v) (hf a)

theorem focus {get : σ → τ} {set : σ → τ → σ} (h : ∀ s t, view (set s t) = view s) (wrap : ε' → ε)
    (m : Effect τ ε' α) : Keeps view (focus get set wrap m) := fun s => h s _

/-- What follows a computation and keeps the part leaves the computation's. -/
theorem view_run_bind {m : Effect σ ε α} {f : α → Effect σ ε β} (hf : ∀ a, Keeps view (f a)) (s : σ) :
    view (run (m >>= f) s).2 = view (run m s).2 := by
  rw [run_bind]
  rcases run m s with ⟨_ | a, s'⟩
  · rfl
  · exact hf a s'

end Keeps

namespace FailsClean

theorem modify (f : σ → σ) : FailsClean view (modify f : Effect σ ε PUnit) := nofun

theorem bind {m : Effect σ ε α} {f : α → Effect σ ε β} (hm : Keeps view m) (hf : ∀ a, FailsClean view (f a)) :
    FailsClean view (m >>= f) := by
  intro s e he
  rw [run_bind] at he ⊢
  have h := hm s
  generalize run m s = r at h he
  rcases r with ⟨_ | a, s'⟩
  · exact h
  · exact (hf a s' e he).trans h

theorem bind_pure {m : Effect σ ε α} {f : α → β} (hm : FailsClean view m) :
    FailsClean view (m >>= fun a => Pure.pure (f a)) := by
  intro s e he
  rw [run_bind] at he ⊢
  have h := hm s e
  generalize run m s = r at h he
  rcases r with ⟨_ | a, s'⟩
  · cases he
    exact h rfl
  · cases he

end FailsClean

end Effect
