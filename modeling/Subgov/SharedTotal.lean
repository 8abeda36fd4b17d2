import Subgov.Arbitration
import Subgov.Federation
/-!
# SharedTotal — the totals two instances derive, over runs

What one call of `sharedAccountTotal` reads of the hosts and the samples does not depend on their order
(`sharedAccountTotal_congr`).  What it reads of the prior state is the window samples and the aggregate queue of the
windows that pace linearly, and those carry the recording host's own worker count: `SamePace` is the relation that two
runs keep as long as those counts agree wherever such a window is recorded.
-/
namespace Subgov

open FloatArith

variable {F : Type} [Flt F]

/-! ## The samples -/

/-- The precedence of samples over a position on the number line. -/
def precedenceBy (pos : F → Int) : PeerQuotaSample F → PeerQuotaSample F → Ordering :=
  compareLex (compareOn (·.observedAt)) (compareLex (compareOn (fun s => pos s.usedFraction))
    (fun left right => compare right.window left.window))

theorem partialCmp_eq {pos : F → Int} {a b : F} (hlt : a < b ↔ pos a < pos b) (hgt : b < a ↔ pos b < pos a)
    (heq : Flt.beq a b = true ↔ pos a = pos b) : (Flt.partialCmp a b).getD .eq = compare (pos a) (pos b) := by
  unfold Flt.partialCmp
  rcases lt_trichotomy (pos a) (pos b) with h | h | h
  · rw [if_pos (hlt.2 h), Int.compare_eq_lt.2 h]
    rfl
  · rw [if_neg (fun hn => absurd (hlt.1 hn) (by omega)), if_neg (fun hn => absurd (hgt.1 hn) (by omega)),
      if_pos (heq.2 h), Int.compare_eq_eq.2 h]
    rfl
  · rw [if_neg (fun hn => absurd (hlt.1 hn) (by omega)), if_pos (hgt.2 h), Int.compare_eq_gt.2 h]
    rfl

instance (pos : F → Int) : Std.TransCmp (precedenceBy pos) := by
  have hwindow : Std.TransCmp (fun left right : PeerQuotaSample F => compare right.window left.window) :=
    inferInstanceAs (Std.TransCmp fun a b => compareOn PeerQuotaSample.window b a)
  have hposition : Std.TransCmp (compareOn fun s : PeerQuotaSample F => pos s.usedFraction) := inferInstance
  have htime : Std.TransCmp (compareOn fun s : PeerQuotaSample F => s.observedAt) :=
    inferInstanceAs (Std.TransCmp (compareOn fun s : PeerQuotaSample F => (s.observedAt : Int)))
  exact inferInstanceAs (Std.TransCmp (compareLex _ (compareLex _ _)))

/-- **Among finite fractions the precedence is one over positions.** -/
theorem exists_precedenceBy [OrderedFlt F] : ∃ pos : F → Int, ∀ s t : PeerQuotaSample F,
    Flt.isFinite s.usedFraction = true → Flt.isFinite t.usedFraction = true →
      samplePrecedence s t = precedenceBy pos s t ∧
        (Flt.beq s.usedFraction t.usedFraction = true ↔ pos s.usedFraction = pos t.usedFraction) := by
  obtain ⟨pos, hpos⟩ := @OrderedFlt.position F _ _
  refine ⟨pos, fun s t hs ht => ?_⟩
  obtain ⟨hlt, heq⟩ := hpos _ _ hs ht
  obtain ⟨hgt, -⟩ := hpos _ _ ht hs
  refine ⟨?_, heq⟩
  unfold samplePrecedence
  rw [partialCmp_eq hlt hgt heq]
  rfl

/-- Sample lists with the same samples, every fraction finite, and no two samples that tie. -/
structure SameSamples (xs ys : List (PeerQuotaSample F)) : Prop where
  mem : ∀ s, s ∈ xs ↔ s ∈ ys
  finite : ∀ s ∈ xs, Flt.isFinite s.usedFraction = true
  ties : ∀ s ∈ xs, ∀ t ∈ xs, samplePrecedence s t = .eq → s = t

namespace SameSamples

variable {xs ys : List (PeerQuotaSample F)}

theorem freshestSample_eq [OrderedFlt F] (h : SameSamples xs ys) : freshestSample xs = freshestSample ys := by
  obtain ⟨pos, hpos⟩ := @exists_precedenceBy F _ _
  have hcmp : ∀ a ∈ xs, ∀ b ∈ xs, samplePrecedence a b = precedenceBy pos a b :=
    fun a ha b hb => (hpos a b (h.finite a ha) (h.finite b hb)).1
  have hcmp' : ∀ a ∈ ys, ∀ b ∈ ys, samplePrecedence a b = precedenceBy pos a b :=
    fun a ha b hb => hcmp a ((h.mem a).2 ha) b ((h.mem b).2 hb)
  unfold freshestSample
  rw [Select.maxBy_congr hcmp, Select.maxBy_congr hcmp']
  exact Select.maxBy_eq_of_mem_iff h.mem fun a ha b hb hab => h.ties a ha b hb (by rw [hcmp a ha b hb, hab])

theorem foldl_max {rank : F → Int} (hrank : ∀ a b : F, Flt.isFinite a = true → Flt.isFinite b = true →
      (rank a = rank b → a = b) ∧ Flt.isFinite (Flt.max a b) = true ∧
        rank (Flt.max a b) = max (rank a) (rank b)) :
    ∀ (xs : List F) (x : F), (∀ y ∈ x :: xs, Flt.isFinite y = true) →
      xs.foldl Flt.max x ∈ x :: xs ∧ ∀ y ∈ x :: xs, rank y ≤ rank (xs.foldl Flt.max x)
  | [], x, _ => by simp
  | y :: ys, x, h => by
    have hx := h x List.mem_cons_self
    have hy := h y (List.mem_cons_of_mem _ List.mem_cons_self)
    obtain ⟨-, hfin, hmax⟩ := hrank x y hx hy
    have hfins : ∀ z ∈ Flt.max x y :: ys, Flt.isFinite z = true := by
      intro z hz
      rcases List.mem_cons.1 hz with rfl | hz
      · exact hfin
      · exact h z (List.mem_cons_of_mem _ (List.mem_cons_of_mem _ hz))
    obtain ⟨hmem, hall⟩ := foldl_max hrank ys (Flt.max x y) hfins
    rw [List.foldl_cons]
    have htop := hall _ List.mem_cons_self
    refine ⟨?_, fun z hz => ?_⟩
    · rcases List.mem_cons.1 hmem with he | hm
      · rw [he]
        rcases le_total (rank x) (rank y) with hle | hle
        · rw [max_eq_right hle] at hmax
          rw [(hrank _ _ hfin hy).1 hmax]
          exact List.mem_cons_of_mem _ List.mem_cons_self
        · rw [max_eq_left hle] at hmax
          rw [(hrank _ _ hfin hx).1 hmax]
          exact List.mem_cons_self
      · exact List.mem_cons_of_mem _ (List.mem_cons_of_mem _ hm)
    · rcases List.mem_cons.1 hz with rfl | hz
      · omega
      · rcases List.mem_cons.1 hz with rfl | hz
        · omega
        · exact hall z (List.mem_cons_of_mem _ hz)

theorem foldl_max_eq [OrderedFlt F] {xs ys : List F} (x : F) (hset : ∀ y, y ∈ xs ↔ y ∈ ys)
    (hfin : ∀ y ∈ x :: xs, Flt.isFinite y = true) : xs.foldl Flt.max x = ys.foldl Flt.max x := by
  obtain ⟨rank, hrank⟩ := @OrderedFlt.rank F _ _
  have hset' : ∀ y, y ∈ x :: xs ↔ y ∈ x :: ys := fun y => by rw [List.mem_cons, List.mem_cons, hset]
  have hfin' : ∀ y ∈ x :: ys, Flt.isFinite y = true := fun y hy => hfin y ((hset' y).2 hy)
  obtain ⟨hmx, hx⟩ := foldl_max hrank xs x hfin
  obtain ⟨hmy, hy⟩ := foldl_max hrank ys x hfin'
  have h1 := hy _ ((hset' _).1 hmx)
  have h2 := hx _ ((hset' _).2 hmy)
  exact (hrank _ _ (hfin _ hmx) (hfin' _ hmy)).1 (by omega)

theorem freshestUsedFraction_eq [OrderedFlt F] (h : SameSamples xs ys) :
    freshestUsedFraction xs = freshestUsedFraction ys := by
  have hall : ∀ zs : List (PeerQuotaSample F), (∀ s ∈ zs, Flt.isFinite s.usedFraction = true) → ∀ base : F,
      (zs.filter (fun s => Flt.isFinite s.usedFraction)).foldl (fun largest s => Flt.max largest s.usedFraction) base =
        (zs.map (·.usedFraction)).foldl Flt.max base := by
    intro zs hz base
    rw [List.filter_eq_self.2 hz, List.foldl_map]
  have hfin' : ∀ s ∈ ys, Flt.isFinite s.usedFraction = true := fun s hs => h.finite s ((h.mem s).2 hs)
  unfold freshestUsedFraction
  rw [h.freshestSample_eq]
  cases hf : freshestSample ys with
  | none => rfl
  | some freshest =>
    have hmem : freshest ∈ xs := (h.mem freshest).2 (Select.maxBy_mem hf)
    simp only [Option.map_some]
    have hset : ∀ y, y ∈ xs.map (·.usedFraction) ↔ y ∈ ys.map (·.usedFraction) := by
      intro y
      simp only [List.mem_map]
      exact ⟨fun ⟨s, hs, he⟩ => ⟨s, (h.mem s).1 hs, he⟩, fun ⟨s, hs, he⟩ => ⟨s, (h.mem s).2 hs, he⟩⟩
    have hfin : ∀ y ∈ freshest.usedFraction :: xs.map (·.usedFraction), Flt.isFinite y = true := by
      intro y hy
      rcases List.mem_cons.1 hy with rfl | hy
      · exact h.finite freshest hmem
      · obtain ⟨s, hs, rfl⟩ := List.mem_map.1 hy
        exact h.finite s hs
    rw [hall xs h.finite, hall ys hfin', foldl_max_eq _ hset hfin]

theorem sharedSnapshot_eq [OrderedFlt F] (h : SameSamples xs ys) (now : DateTime) :
    sharedSnapshot xs now = sharedSnapshot ys now := by
  unfold sharedSnapshot
  rw [h.freshestSample_eq, h.freshestUsedFraction_eq]

end SameSamples

/-! ## The hosts -/

/-- Host lists in another order, no id twice. -/
structure SameHosts (xs ys : List FederationHost) : Prop where
  perm : xs.Perm ys
  distinct : (xs.map (·.hostId)).Nodup

namespace SameHosts

variable {xs ys : List FederationHost}

theorem hostMap_eq (h : SameHosts xs ys) {V : Type} (value : FederationHost → V) :
    hostMap value xs = hostMap value ys := by
  refine h.perm.foldl_eq' (fun a ha b hb m => ?_) ∅
  by_cases hab : a = b
  · rw [hab]
  · have hne : a.hostId ≠ b.hostId := fun he => hab (List.inj_on_of_nodup_map h.distinct ha hb he)
    refine Std.ExtTreeMap.ext_getElem? fun k => ?_
    simp only [Std.ExtTreeMap.getElem?_insert, Std.LawfulEqCmp.compare_eq_iff_eq]
    by_cases hak : a.hostId = k
    · have hbk : b.hostId ≠ k := fun he => hne (hak.trans he.symm)
      rw [if_neg hbk, if_pos hak, if_pos hak]
    · rw [if_neg hak, if_neg hak]

theorem sortedHostIds_eq (h : SameHosts xs ys) : sortedHostIds xs = sortedHostIds ys := by
  have hperm : (sortedHostIds xs).Perm (sortedHostIds ys) :=
    ((List.perm_insertionSort _ _).trans (h.perm.map _)).trans (List.perm_insertionSort _ _).symm
  exact hperm.eq_of_pairwise' (List.pairwise_insertionSort _ _) (List.pairwise_insertionSort _ _)

theorem sharedDenominator_eq (h : SameHosts xs ys) : sharedDenominator xs = sharedDenominator ys := by
  unfold sharedDenominator
  rw [satSum_eq, satSum_eq, (h.perm.map _).sum_eq]

theorem splitAccountTotal_eq (h : SameHosts xs ys) (total : Nat) :
    splitAccountTotal F total xs = splitAccountTotal F total ys := by
  have hplan : splitPlan total xs = splitPlan total ys := by
    unfold splitPlan
    simp only [h.sortedHostIds_eq, h.hostMap_eq]
  unfold splitAccountTotal
  rw [hplan, h.sortedHostIds_eq]
  simp only [h.hostMap_eq]

end SameHosts

/-! ## The prior state -/

def pacesLinearly (config : AccountConfig F) (id : String) : Bool :=
  (config.utilization.policyFor id).any (fun policy => policy.strategy == .linearToReset)

/-- States with the same samples of every window that paces linearly. -/
structure SamePace (config : AccountConfig F) (a b : AccountState F) : Prop where
  windows : ∀ id, pacesLinearly config id = true → a.windows[id]? = b.windows[id]?
  aggregate : ∀ id, pacesLinearly config id = true → a.aggregateBurnHistory[id]? = b.aggregateBurnHistory[id]?

section Prior

variable {name : String} {config : AccountConfig F} {snapshot : QuotaSnapshot F} {a b : AccountState F}
  {current : Nat} {now : DateTime}

theorem windowDecision_congr (h : SamePace config a b) (banked : Bool) (w : QuotaWindow F) :
    windowDecision config snapshot a current now banked w = windowDecision config snapshot b current now banked w := by
  unfold windowDecision
  cases hp : config.utilization.policyFor w.id with
  | none => rfl
  | some policy =>
    simp only [Option.map_some]
    have hraw : ∀ target, windowRaw config snapshot a current now policy target w =
        windowRaw config snapshot b current now policy target w := by
      intro target
      unfold windowRaw
      cases hs : policy.strategy with
      | ceilingOnly => rfl
      | linearToReset =>
        have hlinear : pacesLinearly config w.id = true := by
          rw [pacesLinearly, hp, Option.any_some, hs]
          rfl
        unfold windowBurnRate
        rw [h.windows _ hlinear, h.aggregate _ hlinear]
    rw [hraw]

/-- **An evaluation without credits reads of the prior state only the samples of the windows that pace linearly.** -/
theorem evaluate_congr (h : SamePace config a b) (hcredits : snapshot.resetCredits = none) :
    evaluate name config snapshot a current now = evaluate name config snapshot b current now := by
  have hdecisions : windowDecisions config snapshot a current now = windowDecisions config snapshot b current now := by
    unfold windowDecisions
    rw [funext (windowDecision_congr h (bankedAvailable config snapshot))]
  have hunbanked : bankedAvailable config snapshot = false := by
    unfold bankedAvailable
    rw [hcredits]
    exact Bool.and_false _
  unfold evaluate freshDecision
  simp only [hdecisions, bankedResetDecision_none _ current now hunbanked]

theorem sharedSnapshot_resetCredits (samples : List (PeerQuotaSample F)) (now : DateTime) :
    (sharedSnapshot samples now).resetCredits = none := by
  unfold sharedSnapshot
  split <;> rfl

/-- **One call depends on the hosts and the samples as sets, and on the prior state's pace.** -/
theorem sharedAccountTotal_congr [OrderedFlt F] (h : SamePace config a b) {hosts hosts' : List FederationHost}
    (hh : SameHosts hosts hosts') {samples samples' : List (PeerQuotaSample F)} (hs : SameSamples samples samples') :
    sharedAccountTotal name config a hosts samples now = sharedAccountTotal name config b hosts' samples' now := by
  unfold sharedAccountTotal
  rw [evaluate_congr h (sharedSnapshot_resetCredits samples now), hs.sharedSnapshot_eq, hh.sharedDenominator_eq,
    hs.freshestUsedFraction_eq]
  simp only [hh.splitAccountTotal_eq]

theorem recordWindows_eq_none (hlinear : ∀ w ∈ snapshot.windows, pacesLinearly config w.id = false) {id : String}
    (hid : pacesLinearly config id = true) : snapshot.windows.find? (fun w => w.id == id) = none := by
  rw [List.find?_eq_none]
  intro w hw he
  have := hlinear w hw
  rw [beq_iff_eq.1 he, hid] at this
  cases this

/-- **A record keeps the pace the same** when the counts agree, or when no window of the snapshot paces linearly. -/
theorem SamePace.record (h : SamePace config a b) (hnd : (snapshot.windows.map (·.id)).Nodup) {m n : Nat} (s t : Nat)
    (hcount : m = n ∨ ∀ w ∈ snapshot.windows, pacesLinearly config w.id = false) :
    SamePace config (a.record snapshot m s) (b.record snapshot n t) := by
  refine ⟨fun id hid => ?_, fun id hid => ?_⟩
  · show (recordWindows snapshot m)[id]? = (recordWindows snapshot n)[id]?
    rcases hcount with rfl | hlinear
    · rfl
    · rw [recordWindows_getElem? _ _ _ hnd, recordWindows_getElem? _ _ _ hnd, recordWindows_eq_none hlinear hid,
        Option.map_none, Option.map_none]
  · show (recordAggregate a.aggregateBurnHistory snapshot m)[id]? =
      (recordAggregate b.aggregateBurnHistory snapshot n)[id]?
    rw [recordAggregate_getElem? _ _ _ hnd, recordAggregate_getElem? _ _ _ hnd, h.aggregate id hid]
    rcases hcount with rfl | hlinear
    · rfl
    · rw [recordWindows_eq_none hlinear hid, Option.map_none, Option.map_none]

end Prior

/-! ## Two runs -/

/-- What one instance reads and records in a cycle. -/
structure SharedCycle (F : Type) where
  snapshot : QuotaSnapshot F
  now : DateTime
  hosts : List FederationHost
  samples : List (PeerQuotaSample F)
  workers : Nat
  target : Nat

/-- Each cycle derives the total from the instance's own state; one that derives it records the snapshot. -/
def sharedRun (name : String) (config : AccountConfig F) :
    AccountState F → List (SharedCycle F) → List (Except String (SharedAccountDecision F))
  | _, [] => []
  | prior, c :: cs =>
    let decision := sharedAccountTotal name config prior c.hosts c.samples c.now
    decision :: sharedRun name config
      (match decision with
        | .ok _ => prior.record c.snapshot c.workers c.target
        | .error _ => prior) cs

/-- Two instances' views of one cycle: the same snapshot, the same hosts with both exact counts, and the same samples. -/
structure SameView (hostA hostB : String) (a b : SharedCycle F) : Prop where
  snapshot : a.snapshot = b.snapshot
  valid : validateSnapshot a.snapshot = .ok ()
  now : a.now = b.now
  hosts : SameHosts a.hosts b.hosts
  countA : ∃ h ∈ a.hosts, h.hostId = hostA ∧ h.workers = a.workers
  countB : ∃ h ∈ a.hosts, h.hostId = hostB ∧ h.workers = b.workers
  samples : ∀ s, s ∈ a.samples ↔ s ∈ b.samples
  finite : ∀ s ∈ a.samples, isFraction s.usedFraction = true

/-- The counts recorded agree wherever a window paces linearly, and no two samples tie. -/
structure SamePrior (config : AccountConfig F) (a b : SharedCycle F) : Prop where
  counts : a.workers = b.workers ∨ ∀ w ∈ a.snapshot.windows, pacesLinearly config w.id = false
  ties : ∀ s ∈ a.samples, ∀ t ∈ a.samples, samplePrecedence s t = .eq → s = t

/-- **Both instances derive the same decisions in every cycle of a run** whose counts agree wherever a window paces
linearly and whose samples do not tie. -/
theorem sharedRun_agrees [OrderedFlt F] {name : String} {config : AccountConfig F} {hostA hostB : String}
    {as bs : List (SharedCycle F)} {p q : AccountState F} (h : SamePace config p q)
    (hview : List.Forall₂ (SameView hostA hostB) as bs) (hprior : List.Forall₂ (SamePrior config) as bs) :
    sharedRun name config p as = sharedRun name config q bs := by
  induction hview generalizing p q with
  | nil => rfl
  | @cons a b as bs hv _ ih =>
    obtain ⟨hp, hps⟩ := List.forall₂_cons.1 hprior
    have hfinite : ∀ s ∈ a.samples, Flt.isFinite s.usedFraction = true :=
      fun s hs => isFinite_of_isFraction (hv.finite s hs)
    have hdecision : sharedAccountTotal name config p a.hosts a.samples a.now =
        sharedAccountTotal name config q b.hosts b.samples b.now := by
      rw [hv.now]
      exact sharedAccountTotal_congr h hv.hosts ⟨hv.samples, hfinite, hp.ties⟩
    simp only [sharedRun]
    rw [hdecision]
    cases sharedAccountTotal name config q b.hosts b.samples b.now with
    | error e => rw [ih h hps]
    | ok d =>
      have hrecord := h.record (validateSnapshot_nodup hv.valid) a.target b.target hp.counts
      rw [hv.snapshot] at hrecord
      simp only [hv.snapshot]
      rw [ih hrecord hps]

/-! ### Two hosts and one linear window, an hour apart -/

def linearAccount : AccountConfig F64 :=
  { pacedAccount with
    fleet := { pacedFleet with maxScaleDownPerCycle := 10 }
    bankedResets := { pacedAccount.bankedResets with enabled := false } }

def hostsOf (a b : Nat) : List FederationHost :=
  [{ hostId := "a", workers := a, ceiling := 10, readyDemand := 10 },
    { hostId := "b", workers := b, ceiling := 10, readyDemand := 10 }]

def linearCycle (hour : Int) (used : F64) (hosts : List FederationHost) (workers : Nat) : SharedCycle F64 where
  snapshot :=
    { observedAt := hours hour
      fresh := true
      windows := [{ id := "5h", usedFraction := used, resetsAt := hours 11, durationMinutes := some 300,
                    reached := false }]
      eligibleBacklogCapacity := none
      resetCredits := none
      backpressure := none
      saturation := none }
  now := hours hour
  hosts
  samples := [{ window := "5h", usedFraction := used, resetsAt := hours 11, observedAt := hours hour }]
  workers
  target := 4

def linearRun (hosts : List FederationHost) (workers : Nat) : List (SharedCycle F64) :=
  [linearCycle 0 (Flt.ofRat (1 / 10)) hosts workers, linearCycle 1 (Flt.ofRat (2 / 10)) hosts workers]

theorem linearRun_view (a b : Nat) :
    List.Forall₂ (SameView "a" "b") (linearRun (hostsOf a b) a) (linearRun (hostsOf a b).reverse b) := by
  have hview : ∀ hour (used : F64), isFraction used = true →
      SameView "a" "b" (linearCycle hour used (hostsOf a b) a) (linearCycle hour used (hostsOf a b).reverse b) := by
    intro hour used hused
    have hnodup : (["a", "b"] : List String).Nodup := by decide
    refine ⟨rfl, ?_, rfl, ⟨(List.reverse_perm _).symm, hnodup⟩, ⟨_, List.mem_cons_self, rfl, rfl⟩,
      ⟨_, List.mem_cons_of_mem _ List.mem_cons_self, rfl, rfl⟩, fun _ => Iff.rfl, ?_⟩
    · simp [validateSnapshot, validateWindows, linearCycle, hused]
    · intro s hs
      rw [List.mem_singleton.1 hs]
      exact hused
  exact .cons (hview _ _ (by decide +kernel)) (.cons (hview _ _ (by decide +kernel)) .nil)

/-- One worker on the first host and three on the second: an hour later their own priors give one and three. -/
theorem sharedRun_disagrees :
    ¬ ∀ (name : String) (config : AccountConfig F64) (hostA hostB : String) (as bs : List (SharedCycle F64)),
      config.validate name = .ok () → List.Forall₂ (SameView hostA hostB) as bs →
      (sharedRun name config {} as).map (Except.map fun d => (d.total, d.shares)) =
        (sharedRun name config {} bs).map (Except.map fun d => (d.total, d.shares)) := by
  intro hall
  have h := hall "codex" linearAccount "a" "b" _ _ (by decide +kernel) (linearRun_view 1 3)
  have hA : (sharedRun "codex" linearAccount {} (linearRun (hostsOf 1 3) 1)).map (Except.map (·.total)) =
      [.ok 4, .ok 1] := by decide +kernel
  have hB : (sharedRun "codex" linearAccount {} (linearRun (hostsOf 1 3).reverse 3)).map (Except.map (·.total)) =
      [.ok 4, .ok 3] := by decide +kernel
  have htotal : ∀ r : Except String (SharedAccountDecision F64),
      Except.map Prod.fst (Except.map (fun d => (d.total, d.shares)) r) = Except.map (·.total) r := by
    intro r
    cases r <;> rfl
  have htotals := congrArg (List.map (Except.map Prod.fst)) h
  rw [List.map_map, List.map_map, Function.comp_def, funext htotal, hA, hB] at htotals
  exact absurd htotals (by decide)

/-- Two workers on each host. -/
theorem sharedRun_agrees_twoEach :
    sharedRun "codex" linearAccount {} (linearRun (hostsOf 2 2) 2) =
      sharedRun "codex" linearAccount {} (linearRun (hostsOf 2 2).reverse 2) := by
  have hprior : ∀ hour used, SamePrior linearAccount (linearCycle hour used (hostsOf 2 2) 2)
      (linearCycle hour used (hostsOf 2 2).reverse 2) := by
    intro hour used
    refine ⟨Or.inl rfl, fun s hs t ht _ => ?_⟩
    rw [List.mem_singleton.1 hs, List.mem_singleton.1 ht]
  exact sharedRun_agrees ⟨fun _ _ => rfl, fun _ _ => rfl⟩ (linearRun_view 2 2)
    (.cons (hprior _ _) (.cons (hprior _ _) .nil))

end Subgov
