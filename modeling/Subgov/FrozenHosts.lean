import Subgov.HostSplit
import Subgov.Lib.Rounding
import Subgov.StepLimits
/-!
# FrozenHosts — what a host's snapshot holds back

A host that polls its resources is placed on only while the snapshot is fresh and shows headroom: otherwise it keeps
its workers, down to its ceiling, unless the account shrinks (`place_frozen`).  The headroom is the lesser of the
available CPU and what the memory reserve leaves; the CPU reserve is read nowhere (`cpuReserve_iff`).
-/
namespace Subgov

open FloatArith

variable {F : Type} [Flt F]

/-! ## A host's limits and its snapshot -/

def hostCeiling (config : AccountConfig F) (host : HostConfig F) : Nat := host.maxWorkers.getD config.fleet.maxWorkers

def hostMaxUp (config : AccountConfig F) (host : HostConfig F) : Nat :=
  host.maxScaleUpPerCycle.getD config.fleet.maxScaleUpPerCycle

def hostMaxDown (config : AccountConfig F) (host : HostConfig F) : Nat :=
  host.maxScaleDownPerCycle.getD config.fleet.maxScaleDownPerCycle

def hostMemReserve (host : HostConfig F) : Nat := (host.resourceReserve.map (·.memReserveMb)).getD 0

namespace ResourceSnapshot

/-- Neither marked stale nor older than the account allows. -/
def Current (s : ResourceSnapshot F) (staleAfterSeconds : Nat) (now : DateTime) : Prop :=
  s.fresh = true ∧ ageSeconds (now - s.observedAt) ≤ staleAfterSeconds

/-- The share of the memory that is available above the reserve. -/
def memFraction (s : ResourceSnapshot F) (memReserveMb : Nat) : F :=
  if s.memTotalMb = 0 then Flt.zero
  else (Flt.ofNat s.memAvailableMb - Flt.ofNat memReserveMb) / Flt.ofNat s.memTotalMb

def headroom (s : ResourceSnapshot F) (memReserveMb : Nat) : F :=
  Flt.clamp (Flt.min s.cpuAvailableFraction (s.memFraction memReserveMb)) Flt.zero (Flt.ofNat 1)

end ResourceSnapshot

/-- A host that polls its resources, and whose snapshot is missing, stale or without headroom. -/
def Frozen (config : AccountConfig F) (resources : BTreeMap (ResourceSnapshot F)) (now : DateTime) (id : String)
    (host : HostConfig F) : Prop :=
  host.resourceSource = true ∧ ∀ s, resources[id]? = some s →
    s.Current config.utilization.staleAfterSeconds now → ¬ Flt.zero < s.headroom (hostMemReserve host)

section Reading

variable {config : AccountConfig F} {current : BTreeMap Nat} {resources : BTreeMap (ResourceSnapshot F)}
  {now : DateTime} {id : String} {host : HostConfig F}

theorem resourceHeadroom_current {s : ResourceSnapshot F} {reserve stale : Nat} (h : s.Current stale now) :
    resourceHeadroom (some s) reserve stale now = (true, s.headroom reserve) := by
  unfold resourceHeadroom
  dsimp only
  rw [h.1, decide_eq_true h.2]
  rfl

theorem resourceHeadroom_stale {s : ResourceSnapshot F} {reserve stale : Nat} (h : ¬ s.Current stale now) :
    resourceHeadroom (some s) reserve stale now = (false, Flt.zero) := by
  unfold resourceHeadroom
  dsimp only
  rw [if_neg]
  rw [Bool.and_eq_true, decide_eq_true_eq]
  exact h

/-- **A frozen host is one that cannot be placed on.** -/
theorem Frozen.not_eligible (h : Frozen config resources now id host) :
    (hostView config current resources now id host).eligible = false := by
  obtain ⟨hsource, hsnapshot⟩ := h
  unfold HostView.eligible hostView
  dsimp only
  rw [if_pos hsource]
  cases hread : resources[id]? with
  | none => rfl
  | some s =>
    by_cases hcurrent : s.Current config.utilization.staleAfterSeconds now
    · rw [resourceHeadroom_current hcurrent, Bool.true_and]
      exact decide_eq_false (hsnapshot s hread hcurrent)
    · rw [resourceHeadroom_stale hcurrent]
      rfl

theorem eligible_of_current {s : ResourceSnapshot F} (hsource : host.resourceSource = true)
    (hread : resources[id]? = some s) (hcurrent : s.Current config.utilization.staleAfterSeconds now)
    (h : Flt.zero < s.headroom (hostMemReserve host)) :
    (hostView config current resources now id host).eligible = true := by
  unfold HostView.eligible hostView
  dsimp only
  rw [if_pos hsource, hread, resourceHeadroom_current hcurrent, Bool.true_and]
  exact decide_eq_true h

end Reading

/-! ## The placement of a frozen host -/

section Placed

variable {name : String} {accountTarget : Nat} {config : AccountConfig F} {current : BTreeMap Nat}
  {resources : BTreeMap (ResourceSnapshot F)} {now : DateTime} {placements : List (HostPlacement F)}

/-- A host's target stays within its ceiling and its two step limits. -/
structure WithinLimits (config : AccountConfig F) (current : BTreeMap Nat) (host : HostConfig F)
    (p : HostPlacement F) : Prop where
  ceiling : p.target ≤ hostCeiling config host
  up : p.target ≤ current.getD p.hostId 0 + hostMaxUp config host
  down : min (hostCeiling config host) (current.getD p.hostId 0 - hostMaxDown config host) ≤ p.target

/-- A host's target is at most its count, and the count cut to the ceiling where `holds`. -/
structure HeldAt (config : AccountConfig F) (current : BTreeMap Nat) (host : HostConfig F) (holds : Prop)
    (p : HostPlacement F) : Prop where
  le : p.target ≤ current.getD p.hostId 0
  eq : holds → p.target = min (current.getD p.hostId 0) (hostCeiling config host)

omit [Flt F] in
theorem HostView.step_le_up {v : HostView F} (hceiling : v.ceiling ≤ u32Max) (share : Nat) :
    v.step share ≤ v.current + v.maxUp := by
  have hstep := step_add_mayStop hceiling share
  have hstart : v.mayStart share ≤ v.maxUp := Nat.min_le_right _ _
  omega

omit [Flt F] in
theorem HostView.step_le_current {v : HostView F} (h : v.maxUp = 0 ∨ v.ceiling = 0) (share : Nat) :
    v.step share ≤ v.current := by
  unfold step applyStepLimit satAdd
  dsimp only
  rcases h with hup | hroom
  · rw [hup]
    split <;> omega
  · rw [hroom, Nat.min_zero]
    exact Nat.zero_le _

/-- A host's count over the configured hosts, summed. -/
theorem sum_hostViews_current {hosts : BTreeMap (HostConfig F)} (hhosts : config.fleet.hosts = some hosts) :
    ((hostViews config current resources now).map (·.current)).sum = (hosts.keys.map (current.getD · 0)).sum := by
  unfold hostViews
  rw [hhosts, ← Std.ExtTreeMap.map_fst_toList_eq_keys, List.map_map, List.map_map]
  rfl

variable (accountTarget) in
/-- A view that cannot be placed on gets no more than its count, and its count while the account does not shrink. -/
theorem step_not_eligible {views : List (HostView F)} (hnd : (views.map (·.id)).Nodup) {v : HostView F}
    (hv : v ∈ views) (hel : v.eligible = false) :
    v.step ((rawTargets accountTarget views).getD v.id 0) ≤ v.current ∧
      ((views.map (·.current)).sum ≤ accountTarget ∨ (∀ u ∈ views, u.eligible = false) →
        v.step ((rawTargets accountTarget views).getD v.id 0) = min v.current v.ceiling) := by
  by_cases hempty : (views.filter (·.eligible)).isEmpty = true
  · rw [rawTargets_getD hnd hv, if_pos hempty, HostView.step_self]
    exact ⟨Nat.min_le_left _ _, fun _ => rfl⟩
  · have hshare : splitShare accountTarget views v = heldShare accountTarget views v := by
      unfold splitShare
      rw [if_neg (by rw [hel]; exact Bool.false_ne_true)]
    rw [step_rawTargets hnd hempty hv, hshare]
    constructor
    · have hheld : heldShare accountTarget views v ≤ v.current := heldShare_le v
      unfold HostView.step applyStepLimit
      dsimp only
      rw [if_neg (by omega)]
      omega
    · rintro (hgrow | hnone)
      · have hheld : heldShare accountTarget views v = v.current := by
          unfold heldShare
          rw [if_pos]
          rw [satSum_eq]
          omega
        rw [hheld, HostView.step_self]
      · refine absurd ?_ hempty
        rw [List.isEmpty_iff, List.filter_eq_nil_iff]
        intro u hu hue
        rw [hnone u hu] at hue
        cases hue

theorem hostViews_eq {hosts : BTreeMap (HostConfig F)} (hhosts : config.fleet.hosts = some hosts) :
    hostViews config current resources now =
      hosts.toList.map (fun e => hostView config current resources now e.1 e.2) := by
  unfold hostViews
  rw [hhosts]
  rfl

/-- A placement is of a configured host, and its target is the host's step. -/
theorem place_target {hosts : BTreeMap (HostConfig F)} (hhosts : config.fleet.hosts = some hosts)
    (h : place name accountTarget config current resources now = .ok placements) {p : HostPlacement F}
    (hp : p ∈ placements) : ∃ host, hosts[p.hostId]? = some host ∧
      hostView config current resources now p.hostId host ∈ hostViews config current resources now ∧
      p.target = (hostView config current resources now p.hostId host).step
        ((rawTargets accountTarget (hostViews config current resources now)).getD p.hostId 0) := by
  rw [place_ok h] at hp
  obtain ⟨v, hv, rfl⟩ := List.mem_map.1 hp
  have hview := hv
  rw [hostViews_eq hhosts] at hview
  obtain ⟨⟨id, host⟩, hentry, rfl⟩ := List.mem_map.1 hview
  exact ⟨host, Std.ExtTreeMap.mem_toList_iff_getElem?_eq_some.1 hentry, hv, rfl⟩

theorem place_eligible (h : place name accountTarget config current resources now = .ok placements) :
    placements.map (·.eligible) = (hostViews config current resources now).map (·.eligible) := by
  rw [place_ok h, List.map_map]
  rfl

/-- **A frozen host stays frozen**: every target keeps the host's limits, and a frozen host gets no more than it runs,
and all of it that fits its ceiling while the account does not shrink or no host can be placed on. -/
theorem place_frozen (hvalid : config.validate name = .ok ()) {hosts : BTreeMap (HostConfig F)}
    (hhosts : config.fleet.hosts = some hosts)
    (h : place name accountTarget config current resources now = .ok placements) :
    placements.map (·.hostId) = hosts.keys ∧ ∀ p ∈ placements, ∃ host, hosts[p.hostId]? = some host ∧
      WithinLimits config current host p ∧ (Frozen config resources now p.hostId host →
        HeldAt config current host ((hosts.keys.map (current.getD · 0)).sum ≤ accountTarget ∨
          ∀ q ∈ placements, q.eligible = false) p) := by
  constructor
  · rw [place_ok h, hostViews_eq hhosts, List.map_map, List.map_map, ← Std.ExtTreeMap.map_fst_toList_eq_keys]
    rfl
  intro p hp
  obtain ⟨host, hlookup, hv, htarget⟩ := place_target hhosts h hp
  have hlimit := hostViews_ceiling hvalid _ hv
  refine ⟨host, hlookup, ?_, fun hfrozen => ?_⟩
  · obtain ⟨hdown, hceiling⟩ := HostView.step_bounds hlimit
      ((rawTargets accountTarget (hostViews config current resources now)).getD p.hostId 0)
    have hup := HostView.step_le_up hlimit
      ((rawTargets accountTarget (hostViews config current resources now)).getD p.hostId 0)
    rw [← htarget] at hdown hceiling hup
    rw [Nat.min_comm] at hdown
    exact ⟨hceiling, hup, hdown⟩
  · obtain ⟨hle, heq⟩ := step_not_eligible accountTarget hostViews_nodup hv hfrozen.not_eligible
    rw [sum_hostViews_current hhosts] at heq
    refine ⟨htarget ▸ hle, fun hholds => htarget ▸ heq (hholds.imp_right fun hnone u hu => ?_)⟩
    obtain ⟨q, hq, hflag⟩ := List.mem_map.1 (place_eligible h ▸ List.mem_map_of_mem hu)
    rw [← hflag]
    exact hnone q hq

end Placed

/-! ## The two reserves -/

section Reserves

variable {config : AccountConfig F64} {current : BTreeMap Nat} {id : String} {host : HostConfig F64}
  {s : ResourceSnapshot F64} {now : DateTime}

/-- The account's settings over another set of hosts. -/
def withHosts (config : AccountConfig F) (hosts : BTreeMap (HostConfig F)) : AccountConfig F :=
  { config with fleet := { config.fleet with hosts := some hosts } }

/-- The host gains no workers, whatever the other hosts, their snapshots, the counts and the target. -/
def GainsNone (config : AccountConfig F64) (id : String) (host : HostConfig F64) (s : ResourceSnapshot F64)
    (now : DateTime) : Prop :=
  ∀ hosts : BTreeMap (HostConfig F64), hosts[id]? = some host →
    ∀ resources : BTreeMap (ResourceSnapshot F64), resources[id]? = some s →
    ∀ (name : String) (accountTarget : Nat) (current : BTreeMap Nat) (placements : List (HostPlacement F64)),
      place name accountTarget (withHosts config hosts) current resources now = .ok placements →
      ∀ p ∈ placements, p.hostId = id → p.target ≤ current.getD id 0

/-- No more of the CPU is available than the host's reserve. -/
def CpuWithinReserve (host : HostConfig F64) (s : ResourceSnapshot F64) : Prop :=
  ∃ reserve, host.resourceReserve = some reserve ∧ s.cpuAvailableFraction ≤ reserve.cpuReserveFraction

/-- **Memory within its reserve leaves no headroom.** -/
theorem memReserve_headroom {reserve : Nat} (h : s.memAvailableMb ≤ reserve) (hreserve : reserve ≤ 2 ^ 64)
    (htotal : s.memTotalMb ≤ 2 ^ 64) : ¬ (Flt.zero : F64) < s.headroom reserve := by
  have hone : 0 ≤ (Flt.ofNat 1 : F64).position := by
    rw [F64.position_of_nonneg (F64.ofNat_neg 1)]
    exact Int.natCast_nonneg _
  refine F64.not_pos_clamp (F64.min_nonpos ?_) hone
  unfold ResourceSnapshot.memFraction
  split
  · rw [F64.zero_word]
    decide
  · rename_i hsome
    have hdiff : ((Flt.ofNat s.memAvailableMb : F64) - Flt.ofNat reserve).isNaN = false ∧
        ((Flt.ofNat s.memAvailableMb : F64) - Flt.ofNat reserve).position ≤ 0 :=
      F64.sub_nonpos (F64.ofNat_isFinite (Nat.le_trans h hreserve)) (F64.ofNat_isFinite hreserve) (F64.ofNat_neg _)
        (F64.ofNat_neg _) (F64.ofNat_word_mono h)
    exact F64.div_nonpos hdiff (F64.ofNat_isFinite htotal) (F64.ofNat_neg _)
      (F64.ofNat_word_pos (Nat.pos_of_ne_zero hsome))

theorem floorShare_le_u32Max (target : Nat) (weight : F64) : floorShare target weight ≤ u32Max := by
  unfold floorShare
  dsimp only
  split
  · exact Nat.zero_le _
  · exact F64.toUInt_le _ _

/-- An idle host with room and a headroom of at most one is chosen when it is the only one. -/
theorem bestHost_single {headroomOf : BTreeMap F64} {ceilingOf clamped : BTreeMap Nat}
    (hword : (headroomOf.getD id Flt.zero).word ≤ 1023 * 2 ^ 52) (hidle : clamped.getD id 0 = 0)
    (hroom : 0 < ceilingOf.getD id 0) : bestHost [id] headroomOf ceilingOf clamped = some id := by
  have hnan : (Flt.ofNat (ceilingOf.getD id 0) : F64).isNaN = false := by
    rw [F64.ofNat_eq]
    exact F64.isNaN_ofWord (F64.roundWord_le_infWord _ _)
  have hnone : (Flt.ofNat 0 : F64) / Flt.ofNat (ceilingOf.getD id 0) = Flt.zero :=
    F64.zero_div hnan (F64.ofNat_neg _) (Nat.ne_of_gt (F64.ofNat_word_pos hroom))
  have hfinite : Flt.isFinite (headroomOf.getD id Flt.zero - Flt.zero) = true := F64.isFinite_sub_zero hword
  have htaken : betterHost headroomOf ceilingOf clamped none id =
      some (id, headroomOf.getD id Flt.zero - Flt.zero) := by
    unfold betterHost
    dsimp only
    rw [hidle, if_neg (Nat.not_le.2 hroom), Option.elim_none, hnone, hfinite, Bool.true_or, if_pos rfl]
  rw [bestHost_eq, List.foldl_cons, List.foldl_nil, htaken]
  rfl

/-- **The only eligible host gets a share of any target**, when it has room and a headroom of at most one. -/
theorem distribute_single {headroomOf : BTreeMap F64} {ceilingOf : BTreeMap Nat}
    (hword : (headroomOf.getD id Flt.zero).word ≤ 1023 * 2 ^ 52) (hroom : 0 < ceilingOf.getD id 0) :
    0 < (distribute 1 [id] headroomOf ceilingOf [id]).getD id 0 := by
  have hvalue : (flooredShares 1 [id] headroomOf ceilingOf [id]).getD id 0 =
      flooredShare 1 [id] headroomOf ceilingOf id := by
    rw [flooredShares_getD (List.nodup_singleton id), if_pos List.mem_cons_self]
  have hbound : flooredShare 1 [id] headroomOf ceilingOf id ≤ u32Max := by
    unfold flooredShare
    rw [if_pos (by simp)]
    exact Nat.le_trans (Nat.min_le_left _ _) (floorShare_le_u32Max _ _)
  have hwrap : (flooredShares 1 [id] headroomOf ceilingOf [id]).values.foldl wrapAdd 0 =
      flooredShare 1 [id] headroomOf ceilingOf id := by
    have hsum := foldl_wrapAdd (flooredShares 1 [id] headroomOf ceilingOf [id]).values 0
    rw [Nat.zero_mod, Nat.zero_add, flooredShares,
      (values_foldl_insert_perm (by simp : ([id].map fun id => id).Nodup) _).sum_eq] at hsum
    rw [flooredShares, hsum, List.map_singleton, List.sum_singleton]
    exact Nat.mod_eq_of_lt (by omega)
  rw [distribute_eq, hwrap]
  rcases Nat.eq_zero_or_pos (flooredShare 1 [id] headroomOf ceilingOf id) with hzero | hpos
  · rw [hzero] at hvalue
    rw [hzero, Nat.sub_zero]
    unfold fillShortfall
    rw [bestHost_single hword hvalue hroom]
    unfold fillShortfall
    rw [Std.ExtTreeMap.getD_insert_self]
    exact Nat.succ_pos _
  · have hspent : 1 - flooredShare 1 [id] headroomOf ceilingOf id = 0 := by omega
    rw [hspent]
    unfold fillShortfall
    rw [hvalue]
    exact hpos

/-- One host that can be placed on, idle and with room to start, gains a worker from a target of one. -/
theorem step_single {v : HostView F64} (hel : v.eligible = true) (hword : v.headroom.word ≤ 1023 * 2 ^ 52)
    (hidle : v.current = 0) (hup : 0 < v.maxUp) (hroom : 0 < v.ceiling) :
    0 < v.step ((rawTargets 1 [v]).getD v.id 0) := by
  have hsome : ([v].filter (·.eligible)) = [v] := by rw [List.filter_cons_of_pos hel, List.filter_nil]
  have hnone : ([v].filter (!·.eligible)) = [] := by
    rw [List.filter_cons_of_neg (by rw [hel]; exact Bool.false_ne_true), List.filter_nil]
  have hshare : 0 < splitShare 1 [v] v := by
    unfold splitShare eligibleBudget
    rw [if_pos hel, hsome, hnone]
    refine distribute_single ?_ ?_
    · rw [List.foldl_cons, List.foldl_nil, Std.ExtTreeMap.getD_insert_self]
      exact hword
    · rw [List.foldl_cons, List.foldl_nil, Std.ExtTreeMap.getD_insert_self]
      exact hroom
  have hnd : ([v].map (·.id)).Nodup := List.nodup_singleton v.id
  rw [step_rawTargets hnd (by rw [hsome]; exact Bool.false_ne_true) List.mem_cons_self]
  unfold HostView.step applyStepLimit satAdd u32Max
  dsimp only
  rw [hidle, if_pos (by omega)]
  omega

theorem toList_singleton (id : String) (host : HostConfig F64) :
    ((∅ : BTreeMap (HostConfig F64)).insert id host).toList = [(id, host)] := by
  rw [← List.perm_singleton]
  have hnd : ((∅ : BTreeMap (HostConfig F64)).insert id host).toList.Nodup := by
    refine List.Nodup.of_map Prod.fst ?_
    rw [Std.ExtTreeMap.map_fst_toList_eq_keys]
    exact Std.ExtTreeMap.nodup_keys
  refine (List.perm_ext_iff_of_nodup hnd (List.nodup_singleton _)).2 fun e => ?_
  rw [Std.ExtTreeMap.mem_toList_iff_getElem?_eq_some, List.mem_singleton, Std.ExtTreeMap.getElem?_insert]
  constructor
  · intro h
    split at h
    · rename_i hkey
      exact Prod.ext (Std.LawfulEqCmp.compare_eq_iff_eq.1 hkey).symm (Option.some.inj h).symm
    · simp at h
  · rintro rfl
    rw [if_pos Std.ReflCmp.compare_self]

theorem not_gainsNone (hel : (hostView config ∅ ((∅ : BTreeMap (ResourceSnapshot F64)).insert id s) now id
      host).eligible = true)
    (hword : (hostView config ∅ ((∅ : BTreeMap (ResourceSnapshot F64)).insert id s) now id
      host).headroom.word ≤ 1023 * 2 ^ 52)
    (hup : 0 < hostMaxUp config host) (hroom : 0 < hostCeiling config host) : ¬ GainsNone config id host s now := by
  intro hnone
  have hviews : hostViews (withHosts config ((∅ : BTreeMap (HostConfig F64)).insert id host)) ∅
      ((∅ : BTreeMap (ResourceSnapshot F64)).insert id s) now =
        [hostView config ∅ ((∅ : BTreeMap (ResourceSnapshot F64)).insert id s) now id host] := by
    show (((∅ : BTreeMap (HostConfig F64)).insert id host).toList.map _) = _
    rw [toList_singleton]
    rfl
  cases hplaced : place "" 1 (withHosts config ((∅ : BTreeMap (HostConfig F64)).insert id host)) ∅
      ((∅ : BTreeMap (ResourceSnapshot F64)).insert id s) now with
  | error e =>
    unfold place withHosts at hplaced
    have hsome : ((∅ : BTreeMap (HostConfig F64)).insert id host).isEmpty = false := by
      simp
    simp only [Option.filter_some, hsome] at hplaced
    cases hplaced
  | ok placements =>
    have hlist := place_ok hplaced
    rw [hviews, List.map_singleton] at hlist
    have hle := hnone _ (Std.ExtTreeMap.getElem?_insert_self) _ (Std.ExtTreeMap.getElem?_insert_self) "" 1 ∅ placements
      hplaced _ (hlist ▸ List.mem_cons_self) rfl
    have hgain := step_single hel hword (by simp [hostView]) hup hroom
    simp at hle
    omega

variable (current) in
/-- A host that polls nothing, or whose snapshot is current and shows headroom, can be placed on. -/
theorem hostView_open {resources : BTreeMap (ResourceSnapshot F64)} (hread : resources[id]? = some s)
    (hcurrent : s.Current config.utilization.staleAfterSeconds now)
    (hheadroom : ¬ (host.resourceSource = true ∧ ¬ (Flt.zero : F64) < s.headroom (hostMemReserve host))) :
    (hostView config current resources now id host).eligible = true ∧
      (hostView config current resources now id host).headroom.word ≤ 1023 * 2 ^ 52 := by
  by_cases hsource : host.resourceSource = true
  · have hpos : (Flt.zero : F64) < s.headroom (hostMemReserve host) := by
      by_contra hnot
      exact hheadroom ⟨hsource, hnot⟩
    have hview : (hostView config current resources now id host).headroom = s.headroom (hostMemReserve host) := by
      unfold hostView hostMemReserve
      dsimp only
      rw [if_pos hsource, hread, resourceHeadroom_current hcurrent]
    rw [hview]
    unfold ResourceSnapshot.headroom at hpos ⊢
    exact ⟨eligible_of_current hsource hread hcurrent hpos, F64.clamp_word_le hpos⟩
  · have hopen : (Flt.zero : F64) < Flt.ofNat 1 := by decide +kernel
    unfold HostView.eligible hostView
    dsimp only
    rw [if_neg hsource, Bool.true_and]
    refine ⟨decide_eq_true hopen, ?_⟩
    rw [F64.one_word]

/-- **A host without headroom gains none**, nor does one that may start none or has no room, and no other. -/
theorem gainsNone_iff (hcurrent : s.Current config.utilization.staleAfterSeconds now) :
    GainsNone config id host s now ↔ hostMaxUp config host = 0 ∨ hostCeiling config host = 0 ∨
      (host.resourceSource = true ∧ ¬ (Flt.zero : F64) < s.headroom (hostMemReserve host)) := by
  constructor
  · intro hheld
    by_contra hno
    rw [not_or, not_or] at hno
    obtain ⟨hup, hroom, hheadroom⟩ := hno
    obtain ⟨hel, hword⟩ := hostView_open ∅ Std.ExtTreeMap.getElem?_insert_self hcurrent hheadroom
    exact not_gainsNone hel hword (Nat.pos_of_ne_zero hup) (Nat.pos_of_ne_zero hroom) hheld
  · rintro hcond hosts hhost resources hread name accountTarget current placements hplaced p hp hid
    have hhosts : (withHosts config hosts).fleet.hosts = some hosts := rfl
    obtain ⟨host', hlookup, hv, htarget⟩ := place_target hhosts hplaced hp
    rw [hid, hhost] at hlookup
    cases hlookup
    rw [htarget, ← hid]
    have hcount : current.getD p.hostId 0 =
      (hostView (withHosts config hosts) current resources now p.hostId host).current := rfl
    rw [hcount]
    rcases hcond with hup | hroom | ⟨hsource, hheadroom⟩
    · exact HostView.step_le_current (Or.inl hup) _
    · exact HostView.step_le_current (Or.inr hroom) _
    · have hfrozen : Frozen (withHosts config hosts) resources now p.hostId host := by
        refine ⟨hsource, fun s' hs' _ => ?_⟩
        rw [hid, hread] at hs'
        cases hs'
        exact hheadroom
      exact (step_not_eligible accountTarget hostViews_nodup hv hfrozen.not_eligible).1

/-- **The CPU reserve holds no host back**: one whose available CPU is within it gains workers, unless the host has no
headroom, may start none a cycle or has no room at all.  Within its memory reserve it gains none. -/
theorem cpuReserve_iff (hcurrent : s.Current config.utilization.staleAfterSeconds now) :
    ((CpuWithinReserve host s → GainsNone config id host s now) ↔
      (CpuWithinReserve host s → hostMaxUp config host = 0 ∨ hostCeiling config host = 0 ∨
        (host.resourceSource = true ∧ ¬ (Flt.zero : F64) < s.headroom (hostMemReserve host)))) ∧
    (host.resourceSource = true → s.memAvailableMb ≤ hostMemReserve host → hostMemReserve host ≤ 2 ^ 64 →
      s.memTotalMb ≤ 2 ^ 64 → GainsNone config id host s now) := by
  refine ⟨forall_congr' fun _ => gainsNone_iff hcurrent, fun hsource hmem hreserve htotal => ?_⟩
  exact (gainsNone_iff hcurrent).2 (Or.inr (Or.inr ⟨hsource, memReserve_headroom hmem hreserve htotal⟩))

end Reserves

/-! ### A host that polls its resources beside one that does not -/

def polledHost (cpuReserve : F64) (memReserveMb : Nat) : HostConfig F64 :=
  { openHost 1 with
    resourceReserve := some { cpuReserveFraction := cpuReserve, memReserveMb := memReserveMb }
    resourceSource := true }

def pollsFirst (cpuReserve : F64) (memReserveMb : Nat) : BTreeMap (HostConfig F64) :=
  ((∅ : BTreeMap (HostConfig F64)).insert "a" (polledHost cpuReserve memReserveMb)).insert "b" (openHost 1)

def polledAndOpen : AccountConfig F64 :=
  { pacedAccount with
    fleet := { pacedFleet with
      observer := none
      hosts := some (pollsFirst (Flt.ofRat (1 / 4)) 1000) } }

/-- A host that polls nothing has no snapshot, and is placed on. -/
theorem place_unpolled_host :
    ¬ ∀ (name : String) (accountTarget : Nat) (config : AccountConfig F64) (current : BTreeMap Nat)
      (resources : BTreeMap (ResourceSnapshot F64)) (now : DateTime) (placements : List (HostPlacement F64)),
      config.validate name = .ok () → place name accountTarget config current resources now = .ok placements →
      ∀ p ∈ placements, resources[p.hostId]? = none → p.target ≤ current.getD p.hostId 0 := by
  intro hall
  have htargets : (place "codex" 8 polledAndOpen (running 5 0) ∅ (hours 1)).map
      (·.map fun p => (p.hostId, p.target)) = .ok [("a", 5), ("b", 3)] := by decide +kernel
  cases hplaced : place "codex" 8 polledAndOpen (running 5 0) ∅ (hours 1) with
  | error e =>
    rw [hplaced] at htargets
    cases htargets
  | ok placements =>
    rw [hplaced] at htargets
    have hlist : placements.map (fun p => (p.hostId, p.target)) = [("a", 5), ("b", 3)] := Except.ok.inj htargets
    have hmem : ("b", 3) ∈ placements.map (fun p => (p.hostId, p.target)) := by rw [hlist]; decide
    obtain ⟨p, hp, hpair⟩ := List.mem_map.1 hmem
    obtain ⟨hid, htarget⟩ := Prod.mk.inj hpair
    have hle := hall "codex" 8 polledAndOpen (running 5 0) ∅ (hours 1) placements (by decide +kernel) hplaced p hp
      (by simp)
    rw [hid, htarget] at hle
    exact absurd hle (by decide +kernel)

/-- With no snapshot the host that polls keeps its five workers, and the other gets the rest. -/
theorem place_frozen_missing :
    ∃ placements, place "codex" 8 polledAndOpen (running 5 0) ∅ (hours 1) = .ok placements ∧
      ∀ p ∈ placements, p.hostId = "a" → p.target = 5 := by
  have hok : (place "codex" 8 polledAndOpen (running 5 0) ∅ (hours 1)).isOk = true := by decide +kernel
  cases hplaced : place "codex" 8 polledAndOpen (running 5 0) ∅ (hours 1) with
  | error e =>
    rw [hplaced] at hok
    cases hok
  | ok placements =>
    refine ⟨placements, rfl, fun p hp hid => ?_⟩
    obtain ⟨-, hall⟩ := place_frozen (by decide +kernel) rfl hplaced
    obtain ⟨host, hhost, -, hfrozen⟩ := hall p hp
    have hpolled : (pollsFirst (Flt.ofRat (1 / 4)) 1000)["a"]? = some (polledHost (Flt.ofRat (1 / 4)) 1000) := by
      unfold pollsFirst
      rw [Std.ExtTreeMap.getElem?_insert, if_neg (by decide), Std.ExtTreeMap.getElem?_insert_self]
    rw [hid, hpolled] at hhost
    cases hhost
    have hheld := (hfrozen ⟨rfl, fun s hs => by simp at hs⟩).eq (Or.inl (by decide +kernel))
    rw [hheld, hid]
    decide +kernel

/-- A snapshot with most of the memory available, and the given part of the CPU. -/
def memoryFree (cpu : ℚ) : ResourceSnapshot F64 where
  observedAt := hours 1
  fresh := true
  cpuAvailableFraction := Flt.ofRat cpu
  memTotalMb := 10000
  memAvailableMb := 9000

/-- A fifth of the CPU is available under a reserve of a quarter, and the host gets the account's worker. -/
theorem place_in_cpuReserve :
    ¬ ∀ (config : AccountConfig F64) (id : String) (host : HostConfig F64) (s : ResourceSnapshot F64) (now : DateTime),
      s.Current config.utilization.staleAfterSeconds now → CpuWithinReserve host s →
        GainsNone config id host s now := by
  intro hall
  have hwithin : CpuWithinReserve (polledHost (Flt.ofRat (1 / 4)) 1000) (memoryFree (1 / 5)) :=
    ⟨_, rfl, by decide +kernel⟩
  have hnone := hall polledAndOpen "a" (polledHost (Flt.ofRat (1 / 4)) 1000) (memoryFree (1 / 5)) (hours 1)
    ⟨rfl, by decide +kernel⟩ hwithin ((∅ : BTreeMap (HostConfig F64)).insert "a" (polledHost (Flt.ofRat (1 / 4)) 1000))
    Std.ExtTreeMap.getElem?_insert_self ((∅ : BTreeMap (ResourceSnapshot F64)).insert "a" (memoryFree (1 / 5)))
    Std.ExtTreeMap.getElem?_insert_self "codex" 1 ∅
  have htargets : (place "codex" 1 (withHosts polledAndOpen
      ((∅ : BTreeMap (HostConfig F64)).insert "a" (polledHost (Flt.ofRat (1 / 4)) 1000))) ∅
      ((∅ : BTreeMap (ResourceSnapshot F64)).insert "a" (memoryFree (1 / 5))) (hours 1)).map
      (·.map fun p => (p.hostId, p.target)) = .ok [("a", 1)] := by decide +kernel
  cases hplaced : place "codex" 1 (withHosts polledAndOpen
      ((∅ : BTreeMap (HostConfig F64)).insert "a" (polledHost (Flt.ofRat (1 / 4)) 1000))) ∅
      ((∅ : BTreeMap (ResourceSnapshot F64)).insert "a" (memoryFree (1 / 5))) (hours 1) with
  | error e =>
    rw [hplaced] at htargets
    cases htargets
  | ok placements =>
    rw [hplaced] at htargets
    have hlist : placements.map (fun p => (p.hostId, p.target)) = [("a", 1)] := Except.ok.inj htargets
    obtain ⟨p, hp, hpair⟩ := List.mem_map.1 (hlist ▸ List.mem_cons_self : ("a", 1) ∈ placements.map _)
    obtain ⟨hid, htarget⟩ := Prod.mk.inj hpair
    have hle := hnone placements hplaced p hp hid
    rw [htarget] at hle
    exact absurd hle (by decide +kernel)

/-- With no CPU available at all the host gains none. -/
theorem place_without_cpu : GainsNone polledAndOpen "a" (polledHost (Flt.ofRat (1 / 4)) 1000) (memoryFree 0) (hours 1) :=
  (cpuReserve_iff ⟨rfl, by decide +kernel⟩).1.2 (fun _ => Or.inr (Or.inr ⟨rfl, by decide +kernel⟩))
    ⟨_, rfl, by decide +kernel⟩

end Subgov
