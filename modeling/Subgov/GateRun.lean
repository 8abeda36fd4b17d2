import Subgov.Ownership
import Subgov.Lib.Announce
import Mathlib.Algebra.BigOperators.Group.Finset.Basic
/-!
# GateRun — launch gates of several instances, interleaved

The instances of one account fingerprint and one controller total run any number of gates.  A gate is a publication, one
read of every peer's record, and a decision; the steps of different instances come in any order, workers exit, and the
launches of a reservation become running workers.  `step_party` maps each step to one of `Announce`, whose bound on the
held sum is then the bound on the committed workers.
-/
namespace Subgov

open Finset

variable {F ι : Type} [Fintype ι] [DecidableEq ι]

structure GateRound (F ι : Type) where
  gate : LaunchGate
  seen : ι → Option (PeerRecord F)

structure GateParty (F ι : Type) where
  workers : Nat
  pending : PendingMap
  round : Option (GateRound F ι)

abbrev GateSystem (F ι : Type) := ι → GateParty F ι

/-- What the instances share, and the pool each of them publishes under. -/
structure GateSetting (ι : Type) where
  accountFingerprint : String
  controllerTotal : Nat
  bound : Nat
  pool : ι → String

namespace GateSetting

variable (c : GateSetting ι)

def reserved (s : GateSystem F ι) (i : ι) : Nat := readPendingLaunches (s i).pending (c.pool i)

/-- Workers, reservations carried over and grants; what a gate in progress still wants is not committed. -/
def committed (s : GateSystem F ι) (i : ι) : Nat :=
  (s i).workers + match (s i).round with
    | none => c.reserved s i
    | some r => r.gate.ownPending

/-- One step of one instance.  A published count is the running workers and the reservation, and no sum of one
instance's own counts saturates. -/
inductive Step (s : GateSystem F ι) : GateSystem F ι → Prop where
  | publish (i : ι) (want localStepLimit : Nat) (hidle : (s i).round = none) (gate : LaunchGate)
      (hgate : gate = LaunchGate.start (s i).pending (c.pool i) want localStepLimit (s i).workers (c.reserved s i))
      (hfit : gate.ownPending + gate.want ≤ u32Max) :
      Step s (Function.update s i { s i with
        pending := gate.publish (s i).pending (c.pool i)
        round := some ⟨gate, fun _ => none⟩ })
  | read (i j : ι) (r : GateRound F ι) (record : PeerRecord F) (hr : (s i).round = some r) (hne : j ≠ i)
      (hrecord : recordCommitted c.accountFingerprint record = (s j).workers + c.reserved s j) :
      Step s (Function.update s i { s i with
        round := some { r with seen := Function.update r.seen j (some record) } })
  | decide (i : ι) (r : GateRound F ι) (order : List ι) (records : List (PeerRecord F)) (hr : (s i).round = some r)
      (hnodup : order.Nodup) (hpeers : ∀ j, j ∈ order ↔ j ≠ i) (hrecords : order.map r.seen = records.map some) :
      Step s (Function.update s i { s i with
        pending := r.gate.settle (s i).pending (c.pool i)
          (r.gate.permitted (peersCommitted c.accountFingerprint records) c.controllerTotal c.bound)
        round := none })
  | fail (i : ι) (r : GateRound F ι) (hr : (s i).round = some r) :
      Step s (Function.update s i { s i with
        pending := r.gate.settle (s i).pending (c.pool i) 0
        round := none })
  | exit (i : ι) (workers : Nat) (hle : workers ≤ (s i).workers) :
      Step s (Function.update s i { s i with workers := workers })
  | observe (i : ι) (hidle : (s i).round = none) :
      Step s (Function.update s i { s i with
        workers := (s i).workers + c.reserved s i
        pending := clearPendingLaunchesPool (s i).pending (c.pool i) })

inductive Reachable (s₀ : GateSystem F ι) : GateSystem F ι → Prop where
  | init : Reachable s₀ s₀
  | step {s s' : GateSystem F ι} : Reachable s₀ s → c.Step s s' → Reachable s₀ s'

/-! ## What a gate in progress keeps -/

/-- The published entry is the gate's whole claim, and the counts the gate started from still bound the instance's own. -/
structure RoundKept (s : GateSystem F ι) (i : ι) (r : GateRound F ι) : Prop where
  published : c.reserved s i = r.gate.ownPending + r.gate.want
  fits : r.gate.ownPending + r.gate.want ≤ u32Max
  workers : (s i).workers ≤ r.gate.ownWorkers
  previous : r.gate.previous.elim 0 (·.count) = r.gate.ownPending

def Kept (s : GateSystem F ι) : Prop := ∀ i r, (s i).round = some r → c.RoundKept s i r

omit [Fintype ι] in
theorem reserved_update_ne (s : GateSystem F ι) {i k : ι} (p : GateParty F ι) (h : k ≠ i) :
    c.reserved (Function.update s i p) k = c.reserved s k := by
  unfold reserved
  rw [Function.update_of_ne h]

omit [Fintype ι] in
theorem reserved_update_self (s : GateSystem F ι) (i : ι) (p : GateParty F ι) :
    c.reserved (Function.update s i p) i = readPendingLaunches p.pending (c.pool i) := by
  unfold reserved
  rw [Function.update_self]

end GateSetting

theorem readPendingLaunches_publish (pending : PendingMap) (pool : String) (entry : Option PendingEntry) :
    readPendingLaunches (publishPendingEntry pending pool entry) pool = entry.elim 0 (·.count) := by
  unfold readPendingLaunches
  rw [publishPendingEntry_getElem?, if_pos rfl]

namespace LaunchGate

theorem count_reservation (g : LaunchGate) {n : Nat} (h : g.ownPending + n ≤ u32Max) :
    (g.reservation n).count = g.ownPending + n := satAdd_of_le h

theorem permitted_le (g : LaunchGate) (peers total bound : Nat) : g.permitted peers total bound ≤ g.want :=
  min_le_left _ _

theorem permitted_room (g : LaunchGate) (peers total bound : Nat) (h : g.permitted peers total bound ≠ 0) :
    g.ownWorkers + g.ownPending + g.permitted peers total bound + peers ≤ total := by
  unfold permitted permittedLaunch at h ⊢
  omega

theorem count_settledEntry (g : LaunchGate) (hprev : g.previous.elim 0 (·.count) = g.ownPending) (n : Nat)
    (h : g.ownPending + n ≤ u32Max) : (g.settledEntry n).elim 0 (·.count) = g.ownPending + n := by
  unfold settledEntry
  split
  · rename_i h0
    rw [hprev, h0, Nat.add_zero]
  · exact g.count_reservation h

end LaunchGate

namespace GateSetting

variable (c : GateSetting ι)

/-- The peers' committed counts, pulled in any order, are the sum over the peers while it is below the maximum. -/
theorem peersCommitted_eq {i : ι} {r : GateRound F ι} {order : List ι} {records : List (PeerRecord F)}
    (hnodup : order.Nodup) (hpeers : ∀ j, j ∈ order ↔ j ≠ i) (hrecords : order.map r.seen = records.map some)
    (hlt : peersCommitted c.accountFingerprint records < u32Max) :
    peersCommitted c.accountFingerprint records =
      ∑ j ∈ univ.erase i, ((r.seen j).map (recordCommitted c.accountFingerprint)).getD 0 := by
  have hset : order.toFinset = univ.erase i := by
    ext j
    simp [hpeers]
  have hlist : order.map (fun j => ((r.seen j).map (recordCommitted c.accountFingerprint)).getD 0) =
      records.map (recordCommitted c.accountFingerprint) := by
    have := congrArg (List.map (fun o : Option (PeerRecord F) =>
      (o.map (recordCommitted c.accountFingerprint)).getD 0)) hrecords
    simpa only [List.map_map, Function.comp_def, Option.map_some, Option.getD_some] using this
  have hsum : peersCommitted c.accountFingerprint records =
      min (records.map (recordCommitted c.accountFingerprint)).sum u32Max := satSum_eq _
  rw [← hset, List.sum_toFinset _ hnodup, hlist]
  omega

omit [Fintype ι] [DecidableEq ι] in
theorem seen_isSome {i : ι} {r : GateRound F ι} {order : List ι} {records : List (PeerRecord F)}
    (hpeers : ∀ j, j ∈ order ↔ j ≠ i) (hrecords : order.map r.seen = records.map some) {j : ι} (hj : j ≠ i) :
    (r.seen j).isSome := by
  have hmem : r.seen j ∈ records.map some := hrecords ▸ List.mem_map_of_mem ((hpeers j).2 hj)
  obtain ⟨record, -, hrec⟩ := List.mem_map.1 hmem
  rw [← hrec]
  rfl

/-! ## The simulation -/

def announcedRound (r : GateRound F ι) : Announce.Round ι where
  want := r.gate.want
  seen j := (r.seen j).map (recordCommitted c.accountFingerprint)

/-- An instance as a party that announces its claims. -/
def party (s : GateSystem F ι) (i : ι) : Announce.Party ι where
  held := c.committed s i
  round := (s i).round.map c.announcedRound

omit [Fintype ι] in
theorem party_update_ne (s : GateSystem F ι) {i k : ι} (p : GateParty F ι) (h : k ≠ i) :
    c.party (Function.update s i p) k = c.party s k := by
  unfold party committed
  rw [Function.update_of_ne h, reserved_update_ne c s p h]

omit [Fintype ι] in
theorem party_update (s : GateSystem F ι) (i : ι) (p : GateParty F ι) {q : Announce.Party ι}
    (hq : c.party (Function.update s i p) i = q) :
    c.party (Function.update s i p) = Function.update (c.party s) i q := by
  funext k
  by_cases hk : k = i
  · subst hk
    rw [Function.update_self, hq]
  · rw [Function.update_of_ne hk, party_update_ne c s p hk]

omit [Fintype ι] [DecidableEq ι] in
theorem party_round {s : GateSystem F ι} {i : ι} {r : GateRound F ι} (hr : (s i).round = some r) :
    (c.party s i).round = some (c.announcedRound r) := by
  rw [party, hr]
  rfl

omit [Fintype ι] [DecidableEq ι] in
theorem announced_party {s : GateSystem F ι} (h : c.Kept s) (j : ι) :
    (c.party s j).announced = (s j).workers + c.reserved s j := by
  unfold Announce.Party.announced Announce.Party.wanted party committed
  cases hr : (s j).round with
  | none => rfl
  | some r =>
    have hp := (h j r hr).published
    simp only [Option.map_some, Option.elim_some, announcedRound]
    omega

omit [Fintype ι] in
theorem party_settled {s : GateSystem F ι} {i : ι} {r : GateRound F ι} (hr : (s i).round = some r)
    (hk : c.RoundKept s i r) {n : Nat} (hn : n ≤ r.gate.want) :
    c.party (Function.update s i { s i with
        pending := r.gate.settle (s i).pending (c.pool i) n
        round := none }) i =
      { held := (c.party s i).held + n, round := none } := by
  have hcount := r.gate.count_settledEntry hk.previous n (by have := hk.fits; omega)
  unfold party committed
  simp only [Function.update_self, reserved_update_self, hr, LaunchGate.settle, readPendingLaunches_publish,
    Option.map_none]
  rw [hcount, Nat.add_assoc]

omit [Fintype ι] in
/-- What a round has read is what the others announced. -/
theorem announcedRound_read {s : GateSystem F ι} (hk : c.Kept s) (r : GateRound F ι) {j : ι} {record : PeerRecord F}
    (hrecord : recordCommitted c.accountFingerprint record = (s j).workers + c.reserved s j) :
    c.announcedRound { r with seen := Function.update r.seen j (some record) } =
      { c.announcedRound r with
        seen := Function.update (c.announcedRound r).seen j (some (c.party s j).announced) } := by
  unfold announcedRound
  congr 1
  funext k
  show (Function.update r.seen j (some record) k).map (recordCommitted c.accountFingerprint) =
    Function.update (fun k => (r.seen k).map (recordCommitted c.accountFingerprint)) j
      (some (c.party s j).announced) k
  by_cases hkj : k = j
  · rw [hkj, Function.update_self, Function.update_self, Option.map_some, hrecord, announced_party c hk]
  · rw [Function.update_of_ne hkj, Function.update_of_ne hkj]

/-- **Each step of an instance is a step of its party**: a publication announces, a read reads, and a decision or a failure
settles. -/
theorem step_party (hT : c.controllerTotal ≤ u32Max) {s s' : GateSystem F ι} (hk : c.Kept s) (hstep : c.Step s s') :
    Announce.Step c.controllerTotal (c.party s) (c.party s') := by
  cases hstep with
  | publish i want localStepLimit hidle gate hgate hfit =>
    have hparty : c.party (Function.update s i { s i with
          pending := gate.publish (s i).pending (c.pool i)
          round := some ⟨gate, fun _ => none⟩ }) i =
        { c.party s i with round := some ⟨gate.want, fun _ => none⟩ } := by
      unfold party committed
      simp only [Function.update_self, hidle, hgate, LaunchGate.start, Option.map_some, announcedRound, Option.map_none]
    rw [party_update c s i _ hparty]
    apply Announce.Step.announce i gate.want
    rw [party, hidle]
    rfl
  | read i j r record hr hne hrecord =>
    have hparty : c.party (Function.update s i { s i with
          round := some { r with seen := Function.update r.seen j (some record) } }) i =
        { c.party s i with round := some { c.announcedRound r with
          seen := Function.update (c.announcedRound r).seen j (some (c.party s j).announced) } } := by
      unfold party committed
      simp only [Function.update_self, hr, Option.map_some]
      rw [announcedRound_read c hk r hrecord]
      rfl
    rw [party_update c s i _ hparty]
    exact Announce.Step.read i j (c.announcedRound r) (c.party_round hr) hne
  | decide i r order records hr hnodup hpeers hrecords =>
    have hround := hk i r hr
    have hle := r.gate.permitted_le (peersCommitted c.accountFingerprint records) c.controllerTotal c.bound
    rw [party_update c s i _ (party_settled c hr hround hle)]
    refine Announce.Step.settle i (c.announcedRound r) _ (c.party_round hr) hle ?_
    by_cases h0 : r.gate.permitted (peersCommitted c.accountFingerprint records) c.controllerTotal c.bound = 0
    · exact Or.inl h0
    · have hroom := r.gate.permitted_room _ _ _ h0
      have hpeer := peersCommitted_eq c hnodup hpeers hrecords (by omega)
      have hworkers := hround.workers
      refine Or.inr ⟨fun j hj => ?_, ?_⟩
      · simpa only [announcedRound, Option.isSome_map] using seen_isSome hpeers hrecords hj
      · have hheld : (c.party s i).held = (s i).workers + r.gate.ownPending := by
          simp only [party, committed, hr]
        have hothers : (c.announcedRound r).others i = peersCommitted c.accountFingerprint records := hpeer.symm
        rw [hheld, hothers]
        omega
  | fail i r hr =>
    rw [party_update c s i _ (party_settled c hr (hk i r hr) (Nat.zero_le _))]
    exact Announce.Step.settle i (c.announcedRound r) 0 (c.party_round hr) (Nat.zero_le _) (Or.inl rfl)
  | exit i workers hle =>
    have hparty : c.party (Function.update s i { s i with workers := workers }) i =
        { c.party s i with held := (c.party s i).held - ((s i).workers - workers) } := by
      unfold party committed
      simp only [Function.update_self, reserved_update_self]
      congr 1
      unfold reserved
      omega
    rw [party_update c s i _ hparty]
    exact Announce.Step.release i _ (Nat.sub_le _ _)
  | observe i hidle =>
    have hparty : c.party (Function.update s i { s i with
          workers := (s i).workers + c.reserved s i
          pending := clearPendingLaunchesPool (s i).pending (c.pool i) }) i =
        { c.party s i with held := (c.party s i).held } := by
      unfold party committed
      simp only [Function.update_self, reserved_update_self, hidle, clearPendingLaunchesPool,
        readPendingLaunches_publish, Option.elim_none, Nat.add_zero]
    rw [party_update c s i _ hparty]
    exact Announce.Step.release i _ le_rfl

/-! ## Any run -/

omit [Fintype ι] in
theorem roundKept_update_ne {s : GateSystem F ι} {i k : ι} (p : GateParty F ι) (h : k ≠ i) {r : GateRound F ι}
    (hk : c.RoundKept s k r) : c.RoundKept (Function.update s i p) k r := by
  refine ⟨?_, hk.fits, ?_, hk.previous⟩
  · rw [reserved_update_ne c s p h]
    exact hk.published
  · rw [Function.update_of_ne h]
    exact hk.workers

omit [Fintype ι] in
theorem kept_update {s : GateSystem F ι} (hk : c.Kept s) (i : ι) (p : GateParty F ι)
    (hp : ∀ r, p.round = some r → c.RoundKept (Function.update s i p) i r) : c.Kept (Function.update s i p) := by
  intro k r hr
  by_cases hki : k = i
  · subst hki
    rw [Function.update_self] at hr
    exact hp r hr
  · rw [Function.update_of_ne hki] at hr
    exact roundKept_update_ne c p hki (hk k r hr)

omit [Fintype ι] in
theorem step_kept {s s' : GateSystem F ι} (hk : c.Kept s) (hstep : c.Step s s') : c.Kept s' := by
  cases hstep with
  | publish i want localStepLimit hidle gate hgate hfit =>
    refine kept_update c hk i _ fun r hr => ?_
    obtain rfl := Option.some.inj hr
    refine ⟨?_, hfit, ?_, ?_⟩
    · rw [reserved_update_self, LaunchGate.publish, readPendingLaunches_publish]
      exact gate.count_reservation hfit
    · rw [Function.update_self, hgate]
      exact le_rfl
    · rw [hgate]
      rfl
  | read i j r record hr hne hrecord =>
    refine kept_update c hk i _ fun q hq => ?_
    obtain rfl := Option.some.inj hq
    have hround := hk i r hr
    refine ⟨?_, hround.fits, ?_, hround.previous⟩
    · rw [reserved_update_self]
      exact hround.published
    · rw [Function.update_self]
      exact hround.workers
  | decide i r order records hr hnodup hpeers hrecords => exact kept_update c hk i _ nofun
  | fail i r hr => exact kept_update c hk i _ nofun
  | exit i workers hle =>
    refine kept_update c hk i _ fun r hr => ?_
    have hround := hk i r hr
    refine ⟨?_, hround.fits, ?_, hround.previous⟩
    · rw [reserved_update_self]
      exact hround.published
    · rw [Function.update_self]
      exact le_trans hle hround.workers
  | observe i hidle =>
    refine kept_update c hk i _ fun r hr => ?_
    rw [hidle] at hr
    cases hr

theorem reachable_party (hT : c.controllerTotal ≤ u32Max) {s₀ s : GateSystem F ι} (hidle : ∀ i, (s₀ i).round = none)
    (h : c.Reachable s₀ s) : c.Kept s ∧ Announce.Reachable c.controllerTotal (c.party s₀) (c.party s) := by
  induction h with
  | init =>
    refine ⟨fun i r hr => ?_, Announce.Reachable.init⟩
    rw [hidle i] at hr
    cases hr
  | step _ hstep ih => exact ⟨c.step_kept ih.1 hstep, ih.2.step (c.step_party hT ih.1 hstep)⟩

/-- **The launch gates never commit past the controller total**, or past what was committed at the start: in every
interleaving, after every step. -/
theorem committed_le (hT : c.controllerTotal ≤ u32Max) {s₀ s : GateSystem F ι} (hidle : ∀ i, (s₀ i).round = none)
    (h : c.Reachable s₀ s) : ∑ i, c.committed s i ≤ max c.controllerTotal (∑ i, c.committed s₀ i) :=
  Announce.sum_held_le (fun i => by rw [party, hidle i]; rfl) (c.reachable_party hT hidle h).2

end GateSetting

/-! ### Two instances that ask at once -/

def poolRecord (fingerprint pool : String) (workers pending : Nat) : PeerRecord ℚ where
  hostId := pool
  observedAt := 0
  accounts := (∅ : BTreeMap (PeerAccount ℚ)).insert "zai"
    { accountId := "zai"
      accountFingerprint := fingerprint
      pools := (∅ : BTreeMap (PeerPool ℚ)).insert pool
        { governedWorkers := workers
          pendingLaunches := pending
          desired := workers
          quotaSample := none
          readyDemand := {} } }
  hostCeiling := none

def twoGates : GateSetting (Fin 2) where
  accountFingerprint := "f"
  controllerTotal := 3
  bound := 4
  pool i := if i = 0 then "a" else "b"

def oneEach : GateSystem ℚ (Fin 2) := fun _ => { workers := 1, pending := ∅, round := none }

def askTwo (i : Fin 2) : LaunchGate := LaunchGate.start ∅ (twoGates.pool i) 2 2 1 0

def idleGate (i : Fin 2) : GateRound ℚ (Fin 2) := ⟨askTwo i, fun _ => none⟩

def pulledGate : GateRound ℚ (Fin 2) :=
  { idleGate 0 with seen := Function.update (idleGate 0).seen 1 (some (poolRecord "f" "b" 1 2)) }

def publishedBy (s : GateSystem ℚ (Fin 2)) (i : Fin 2) : GateSystem ℚ (Fin 2) :=
  Function.update s i { s i with
    pending := (askTwo i).publish (s i).pending (twoGates.pool i)
    round := some (idleGate i) }

def bothAsk : GateSystem ℚ (Fin 2) :=
  let s := publishedBy (publishedBy oneEach 0) 1
  Function.update s 0 { s 0 with round := some pulledGate }

theorem bothAsk_reachable : twoGates.Reachable oneEach bothAsk := by
  have h1 : twoGates.Reachable oneEach (publishedBy oneEach 0) :=
    .step .init (.publish 0 2 2 rfl (askTwo 0) rfl (by decide))
  have h2 : twoGates.Reachable oneEach (publishedBy (publishedBy oneEach 0) 1) :=
    .step h1 (.publish 1 2 2 rfl (askTwo 1) rfl (by decide))
  exact .step h2 (.read 0 1 (idleGate 0) (poolRecord "f" "b" 1 2) rfl (by decide) (by decide +kernel))

/-- The first to decide reads a full total and withdraws. -/
theorem committed_le_bothAsk :
    ∑ i, twoGates.committed (Function.update bothAsk 0 { bothAsk 0 with
        pending := (askTwo 0).settle (bothAsk 0).pending "a"
          ((askTwo 0).permitted (peersCommitted "f" [poolRecord "f" "b" 1 2]) 3 4)
        round := none }) i ≤ max 3 (∑ i, twoGates.committed oneEach i) :=
  twoGates.committed_le (by decide) (fun _ => rfl) (bothAsk_reachable.step
    (.decide 0 pulledGate [1] [poolRecord "f" "b" 1 2] rfl (by decide) (by decide) rfl))

end Subgov
