import Mathlib.Data.Option.Basic
/-!
# Trace — runs over a list of events

A system steps by `next`, which is `none` where an event cannot happen, and a run ends there.  `always_iff_each` is the
rule for a property that exactly the steps outside a condition break, `each_of_invariant` the rule for what every step
does.  `noting` carries along what a property says of the past, and `Follows` and `Until` speak of what comes after a
step.
-/
namespace Trace

variable {σ ε : Type} {next : σ → ε → Option σ} {P : σ → Prop} {C : σ → ε → Prop}

variable (next) in
def run (s : σ) (events : List ε) : Option σ := events.foldlM next s

variable (next P) in
/-- `P` holds in every state of the run. -/
def Always : σ → List ε → Prop
  | s, [] => P s
  | s, e :: events => P s ∧ ∀ s', next s e = some s' → Always s' events

variable (next C) in
/-- Every step of the run meets `C`. -/
def Each : σ → List ε → Prop
  | _, [] => True
  | s, e :: events => ∀ s', next s e = some s' → C s e ∧ Each s' events

instance Each.decidable [∀ s e, Decidable (C s e)] : ∀ s events, Decidable (Each next C s events)
  | _, [] => isTrue trivial
  | s, e :: events =>
    match hstep : next s e with
    | none => isTrue fun _ h => nomatch hstep.symm.trans h
    | some s' =>
      haveI := Each.decidable s' events
      decidable_of_iff (C s e ∧ Each next C s' events)
        ⟨fun h _ h' => Option.some.inj (hstep.symm.trans h') ▸ h, fun h => h s' hstep⟩

/-- A run that ends, tested at its last state. -/
theorem exists_run {Q : σ → Prop} [DecidablePred Q] {s : σ} {events : List ε}
    (h : (run next s events).any (fun s' => decide (Q s')) = true) : ∃ s', run next s events = some s' ∧ Q s' := by
  obtain ⟨s', hrun, hQ⟩ := (Option.any_eq_true _ _).1 h
  exact ⟨s', hrun, of_decide_eq_true hQ⟩

theorem Always.start {s : σ} {events : List ε} (h : Always next P s events) : P s := by
  cases events with
  | nil => exact h
  | cons e events => exact h.1

theorem Always.run {s s' : σ} {events : List ε} (h : Always next P s events) (hrun : run next s events = some s') :
    P s' := by
  induction events generalizing s with
  | nil =>
    cases hrun
    exact h
  | cons e events ih =>
    obtain ⟨s₁, hstep, hrest⟩ := Option.bind_eq_some_iff.1 hrun
    exact ih (h.2 s₁ hstep) hrest

/-- **A property holds all along a run exactly when each step meets the condition**, if the steps that meet it keep an
invariant of the property and the others break the property. -/
theorem always_iff_each {I : σ → Prop} (hP : ∀ s, I s → P s)
    (hkeep : ∀ s e s', I s → C s e → next s e = some s' → I s')
    (hbreak : ∀ s e s', I s → ¬ C s e → next s e = some s' → ¬ P s') {s : σ} (hs : I s) (events : List ε) :
    Always next P s events ↔ Each next C s events := by
  induction events generalizing s with
  | nil => exact iff_of_true (hP s hs) trivial
  | cons e events ih =>
    constructor
    · rintro ⟨-, hall⟩ s' hstep
      have hmeets : C s e := by
        by_contra hnot
        exact hbreak s e s' hs hnot hstep (hall s' hstep).start
      exact ⟨hmeets, (ih (hkeep s e s' hs hmeets hstep)).1 (hall s' hstep)⟩
    · intro heach
      refine ⟨hP s hs, fun s' hstep => ?_⟩
      obtain ⟨hmeets, hrest⟩ := heach s' hstep
      exact (ih (hkeep s e s' hs hmeets hstep)).2 hrest

/-- A condition on the steps that keeps an invariant of the property has the property hold all along. -/
theorem Always.of_each {I : σ → Prop} (hP : ∀ s, I s → P s)
    (hkeep : ∀ s e s', I s → C s e → next s e = some s' → I s') {s : σ} (hs : I s) {events : List ε}
    (h : Each next C s events) : Always next P s events := by
  induction events generalizing s with
  | nil => exact hP s hs
  | cons e events ih =>
    refine ⟨hP s hs, fun s' hstep => ?_⟩
    obtain ⟨hmeets, hrest⟩ := h s' hstep
    exact ih (hkeep s e s' hs hmeets hstep) hrest

/-- What the property after a step says of the step, if the steps keep an invariant. -/
theorem Each.of_always {I : σ → Prop} (hP : ∀ s e s', I s → next s e = some s' → P s' → C s e)
    (hkeep : ∀ s e s', I s → next s e = some s' → I s') {s : σ} (hs : I s) {events : List ε}
    (h : Always next P s events) : Each next C s events := by
  induction events generalizing s with
  | nil => trivial
  | cons e events ih =>
    exact fun s' hstep => ⟨hP s e s' hs hstep (h.2 s' hstep).start, ih (hkeep s e s' hs hstep) (h.2 s' hstep)⟩

/-- **What a step does where an invariant holds, every step of a run does**, over events of a kind that keep it. -/
theorem each_of_invariant {I : σ → Prop} {Q : ε → Prop}
    (hstep : ∀ s e s', I s → Q e → next s e = some s' → C s e ∧ I s') {s : σ} (hs : I s) {events : List ε}
    (hevents : ∀ e ∈ events, Q e) : Each next C s events := by
  induction events generalizing s with
  | nil => trivial
  | cons e events ih =>
    intro s' hnext
    obtain ⟨hmeets, hs'⟩ := hstep s e s' hs (hevents e List.mem_cons_self) hnext
    exact ⟨hmeets, ih hs' fun e' he' => hevents e' (List.mem_cons_of_mem _ he')⟩

/-- A condition on the steps that keeps an invariant has every step do what the two give together. -/
theorem Each.imp {I : σ → Prop} {D : σ → ε → Prop}
    (hstep : ∀ s e s', I s → C s e → next s e = some s' → D s e ∧ I s') {s : σ} (hs : I s) {events : List ε}
    (h : Each next C s events) : Each next D s events := by
  induction events generalizing s with
  | nil => trivial
  | cons e events ih =>
    intro s' hnext
    obtain ⟨hmeets, hrest⟩ := h s' hnext
    obtain ⟨hdoes, hs'⟩ := hstep s e s' hs hmeets hnext
    exact ⟨hdoes, ih hs' hrest⟩

/-- Two conditions that agree where an invariant holds agree along a run, if the steps that meet them keep it. -/
theorem each_congr {I : σ → Prop} {D : σ → ε → Prop}
    (hkeep : ∀ s e s', I s → C s e → next s e = some s' → I s')
    (hiff : ∀ s e s', I s → next s e = some s' → (C s e ↔ D s e)) {s : σ} (hs : I s) (events : List ε) :
    Each next C s events ↔ Each next D s events := by
  induction events generalizing s with
  | nil => exact Iff.rfl
  | cons e events ih =>
    refine forall_congr' fun s' => forall_congr' fun hnext => ?_
    rw [← hiff s e s' hs hnext]
    exact and_congr_right fun hmeets => ih (hkeep s e s' hs hmeets hnext)

/-! ## The rest of a run -/

variable (next C) in
/-- Every step meets `C`, until one that leaves a state of `stop`. -/
def Until (stop : σ → Prop) : σ → List ε → Prop
  | _, [] => True
  | s, e :: events => ∀ s', next s e = some s' → C s e ∧ (stop s' ∨ Until stop s' events)

variable (next) in
/-- Every step meets `Q` together with the state it leaves and the events that follow. -/
def Follows (Q : σ → ε → σ → List ε → Prop) : σ → List ε → Prop
  | _, [] => True
  | s, e :: events => ∀ s', next s e = some s' → Q s e s' events ∧ Follows Q s' events

section Decidable

variable {stop : σ → Prop} {Q : σ → ε → σ → List ε → Prop}

instance Until.decidable [∀ s e, Decidable (C s e)] [DecidablePred stop] :
    ∀ s events, Decidable (Until next C stop s events)
  | _, [] => isTrue trivial
  | s, e :: events =>
    match hstep : next s e with
    | none => isTrue fun _ h => nomatch hstep.symm.trans h
    | some s' =>
      haveI := Until.decidable s' events
      decidable_of_iff (C s e ∧ (stop s' ∨ Until next C stop s' events))
        ⟨fun h _ h' => Option.some.inj (hstep.symm.trans h') ▸ h, fun h => h s' hstep⟩

instance Follows.decidable [∀ s e s' events, Decidable (Q s e s' events)] :
    ∀ s events, Decidable (Follows next Q s events)
  | _, [] => isTrue trivial
  | s, e :: events =>
    match hstep : next s e with
    | none => isTrue fun _ h => nomatch hstep.symm.trans h
    | some s' =>
      haveI := Follows.decidable s' events
      decidable_of_iff (Q s e s' events ∧ Follows next Q s' events)
        ⟨fun h _ h' => Option.some.inj (hstep.symm.trans h') ▸ h, fun h => h s' hstep⟩

end Decidable

/-- Steps that keep an invariant until they stop meet what it gives until then. -/
theorem until_of_invariant {I stop : σ → Prop} {K : ε → Prop}
    (hstep : ∀ s e s', I s → K e → next s e = some s' → C s e ∧ (stop s' ∨ I s')) {s : σ} (hs : I s)
    {events : List ε} (hevents : ∀ e ∈ events, K e) : Until next C stop s events := by
  induction events generalizing s with
  | nil => trivial
  | cons e events ih =>
    intro s' hnext
    obtain ⟨hmeets, hends⟩ := hstep s e s' hs (hevents e List.mem_cons_self) hnext
    exact ⟨hmeets, hends.imp_right fun hs' => ih hs' fun e' he' => hevents e' (List.mem_cons_of_mem _ he')⟩

/-- What every step has with the events that follow it, where each event is related to the later ones. -/
theorem follows_of_pairwise {Q : σ → ε → σ → List ε → Prop} {R : ε → ε → Prop}
    (hstep : ∀ s e s' events, (∀ e' ∈ events, R e e') → next s e = some s' → Q s e s' events) {events : List ε}
    (hevents : events.Pairwise R) (s : σ) : Follows next Q s events := by
  induction events generalizing s with
  | nil => trivial
  | cons e events ih =>
    rw [List.pairwise_cons] at hevents
    exact fun s' hnext => ⟨hstep s e s' events hevents.1 hnext, ih hevents.2 s'⟩

/-! ## Notes of the past -/

/-- A step that always happens, with a note that each step takes of the state and the event before it. -/
def noting {γ : Type} (step : σ → ε → σ) (note : σ → ε → γ → γ) (s : σ × γ) (e : ε) : Option (σ × γ) :=
  some (step s.1 e, note s.1 e s.2)

end Trace
