import Subgov.Lib.Apportion
import Subgov.SharedTotal
/-!
# HostSplit — what each host gets of an account's total

`distribute` floors the weighted shares and hands out what they leave, so no host gets more than its cap, and in exact
arithmetic the hosts get all of the budget there is room for.  `splitAccountTotal` gives it the surplus of a growing
account or the whole of a shrinking one.
-/
namespace Subgov

open FloatArith Apportion

variable {F : Type} [Flt F]

/-! ## Handing out the shortfall -/

section Shortfall

variable {eligible : List String} {headroomOf : BTreeMap F} {ceilingOf clamped : BTreeMap Nat}

/-- The choice among the hosts so far. -/
def betterHost (headroomOf : BTreeMap F) (ceilingOf clamped : BTreeMap Nat) (best : Option (String × F)) (id : String) :
    Option (String × F) :=
  let placed := clamped.getD id 0
  let ceiling := ceilingOf.getD id 0
  if ceiling ≤ placed then best
  else
    let score := headroomOf.getD id Flt.zero - Flt.ofNat placed / Flt.ofNat ceiling
    if best.elim (Flt.isFinite score || decide (Flt.zero < score)) (fun b => decide (b.2 < score))
    then some (id, score) else best

theorem bestHost_eq : bestHost eligible headroomOf ceilingOf clamped =
    (eligible.foldl (betterHost headroomOf ceilingOf clamped) none).map (·.1) := rfl

theorem foldl_betterHost_mem (ids : List String) (best : Option (String × F)) {winner : String × F}
    (h : ids.foldl (betterHost headroomOf ceilingOf clamped) best = some winner) :
    best = some winner ∨ (winner.1 ∈ ids ∧ clamped.getD winner.1 0 < ceilingOf.getD winner.1 0) := by
  induction ids generalizing best with
  | nil => exact Or.inl h
  | cons id ids ih =>
    rw [List.foldl_cons] at h
    rcases ih _ h with hbest | ⟨hmem, hroom⟩
    · unfold betterHost at hbest
      dsimp only at hbest
      split at hbest
      · exact Or.inl hbest
      · rename_i hroom
        split at hbest
        · cases hbest
          exact Or.inr ⟨List.mem_cons_self, Nat.lt_of_not_le hroom⟩
        · exact Or.inl hbest
    · exact Or.inr ⟨List.mem_cons_of_mem _ hmem, hroom⟩

/-- **The best host is eligible and below its ceiling.** -/
theorem bestHost_room {winner : String} (h : bestHost eligible headroomOf ceilingOf clamped = some winner) :
    winner ∈ eligible ∧ clamped.getD winner 0 < ceilingOf.getD winner 0 := by
  rw [bestHost_eq] at h
  obtain ⟨best, hbest, rfl⟩ := Option.map_eq_some_iff.1 h
  exact (foldl_betterHost_mem eligible none hbest).resolve_left nofun

theorem getD_insert_eq_update (m : BTreeMap Nat) (id : String) (n : Nat) :
    ((m.insert id n).getD · 0) = Function.update (m.getD · 0) id n := by
  funext k
  rw [Std.ExtTreeMap.getD_insert]
  by_cases hk : id = k
  · rw [hk, Function.update_self, if_pos Std.ReflCmp.compare_self]
  · rw [Function.update_of_ne (Ne.symm hk), if_neg fun h => hk (Std.LawfulEqCmp.compare_eq_iff_eq.1 h)]

variable (eligible headroomOf ceilingOf) in
/-- **The loop hands out one worker at a time**, until the shortfall is spent or no best host is left. -/
theorem fillShortfall_fills (shortfall : Nat) (clamped : BTreeMap Nat) :
    ∃ left, Fills eligible (ceilingOf.getD · 0) (shortfall, (clamped.getD · 0))
        (left, ((fillShortfall eligible headroomOf ceilingOf shortfall clamped).getD · 0)) ∧
      (left = 0 ∨ bestHost eligible headroomOf ceilingOf
        (fillShortfall eligible headroomOf ceilingOf shortfall clamped) = none) := by
  induction shortfall generalizing clamped with
  | zero => exact ⟨0, .refl, Or.inl rfl⟩
  | succ shortfall ih =>
    unfold fillShortfall
    cases hbest : bestHost eligible headroomOf ceilingOf clamped with
    | none => exact ⟨shortfall + 1, .refl, Or.inr hbest⟩
    | some winner =>
      obtain ⟨hmem, hroom⟩ := bestHost_room hbest
      obtain ⟨left, hfills, hdone⟩ := ih (clamped.insert winner (clamped.getD winner 0 + 1))
      rw [getD_insert_eq_update] at hfills
      exact ⟨left, .head (.one hmem hroom) hfills, hdone⟩

variable (eligible headroomOf ceilingOf) in
/-- The remainder loop as it stands in the source, `none` where it would go on after so many rounds. -/
def fillWithin (target : Nat) : Nat → Nat → BTreeMap Nat → Option (BTreeMap Nat)
  | rounds, sum, clamped =>
    if sum < target then
      match bestHost eligible headroomOf ceilingOf clamped with
      | none => some clamped
      | some winner =>
        match rounds with
        | 0 => none
        | rounds + 1 =>
          fillWithin target rounds (wrapAdd sum 1) (clamped.insert winner (wrapAdd (clamped.getD winner 0) 1))
    else some clamped

/-- **The loop ends within a round for every missing worker**, where every ceiling is a word. -/
theorem fillWithin_eq {target : Nat} (htarget : target ≤ u32Max)
    (hceilings : ∀ id ∈ eligible, ceilingOf.getD id 0 ≤ u32Max) (rounds sum : Nat)
    (hrounds : target ≤ sum + rounds) (clamped : BTreeMap Nat) :
    fillWithin eligible headroomOf ceilingOf target rounds sum clamped =
      some (fillShortfall eligible headroomOf ceilingOf (target - sum) clamped) := by
  induction rounds generalizing sum clamped with
  | zero =>
    rw [Nat.add_zero] at hrounds
    unfold fillWithin
    rw [if_neg (Nat.not_lt.2 hrounds), Nat.sub_eq_zero_of_le hrounds]
    rfl
  | succ rounds ih =>
    unfold fillWithin
    by_cases hshort : sum < target
    · obtain ⟨left, hleft⟩ : ∃ left, target - sum = left + 1 := ⟨target - sum - 1, by omega⟩
      rw [if_pos hshort, hleft, fillShortfall]
      cases hbest : bestHost eligible headroomOf ceilingOf clamped with
      | none => rfl
      | some winner =>
        obtain ⟨hmem, hroom⟩ := bestHost_room hbest
        have hsum : wrapAdd sum 1 = sum + 1 := Nat.mod_eq_of_lt (by omega)
        have hceiling := hceilings winner hmem
        have hnext : wrapAdd (clamped.getD winner 0) 1 = clamped.getD winner 0 + 1 := Nat.mod_eq_of_lt (by omega)
        dsimp only
        rw [hsum, hnext, ih (sum + 1) (by omega)]
        congr 2
        omega
    · rw [if_neg hshort, Nat.sub_eq_zero_of_le (Nat.not_lt.1 hshort)]
      rfl

end Shortfall

/-! ## Values of a map -/

/-- A map built over some keys holds their values, in the order of the keys. -/
theorem values_foldl_insert_perm {W V : Type} {key : W → String} {ws : List W} (hnd : (ws.map key).Nodup)
    (value : W → V) : (ws.foldl (fun m w => m.insert (key w) (value w)) (∅ : BTreeMap V)).values.Perm
      (ws.map value) := by
  generalize hm : ws.foldl (fun m w => m.insert (key w) (value w)) (∅ : BTreeMap V) = m
  have hget : ∀ (k : String) (v : V), m[k]? = some v ↔ (k, v) ∈ ws.map (fun w => (key w, value w)) := by
    intro k v
    rw [← hm, List.mem_map]
    constructor
    · intro hk
      by_cases hmem : k ∈ ws.map key
      · obtain ⟨w, hw, rfl⟩ := List.mem_map.1 hmem
        rw [getElem?_foldl_insert_of_mem value ∅ hnd hw] at hk
        exact ⟨w, hw, by rw [Option.some.inj hk]⟩
      · rw [getElem?_foldl_insert_of_notMem value ∅ hnd hmem] at hk
        exact absurd hk (by simp)
    · rintro ⟨w, hw, he⟩
      cases he
      exact getElem?_foldl_insert_of_mem value ∅ hnd hw
  have hndPairs : (ws.map (fun w => (key w, value w))).Nodup := by
    refine List.Nodup.of_map Prod.fst ?_
    rwa [List.map_map]
  have hndList : m.toList.Nodup := by
    refine List.Nodup.of_map Prod.fst ?_
    rw [Std.ExtTreeMap.map_fst_toList_eq_keys]
    exact Std.ExtTreeMap.nodup_keys
  have hperm : m.toList.Perm (ws.map (fun w => (key w, value w))) := by
    refine (List.perm_ext_iff_of_nodup hndList hndPairs).2 fun e => ?_
    rw [← hget, ← Std.ExtTreeMap.mem_toList_iff_getElem?_eq_some]
  have hvalues := hperm.map Prod.snd
  rwa [← values_eq_map_toList, List.map_map] at hvalues

theorem foldl_wrapAdd (xs : List Nat) (a : Nat) :
    xs.foldl wrapAdd (a % (u32Max + 1)) = (a + xs.sum) % (u32Max + 1) := by
  induction xs generalizing a with
  | nil => rfl
  | cons x xs ih =>
    have hstep : wrapAdd (a % (u32Max + 1)) x = (a + x) % (u32Max + 1) := Nat.mod_add_mod _ _ _
    rw [List.foldl_cons, hstep, ih, List.sum_cons, Nat.add_assoc]

/-! ## The weighted split -/

section Distribute

variable {target : Nat} {eligible all : List String} {headroomOf : BTreeMap F} {ceilingOf : BTreeMap Nat}

/-- The share of a host before the shortfall. -/
def flooredShare (target : Nat) (eligible : List String) (headroomOf : BTreeMap F) (ceilingOf : BTreeMap Nat)
    (id : String) : Nat :=
  if eligible.contains id
  then min (floorShare target (headroomWeight eligible headroomOf id)) (ceilingOf.getD id 0) else 0

/-- The floored shares of all hosts. -/
def flooredShares (target : Nat) (eligible : List String) (headroomOf : BTreeMap F) (ceilingOf : BTreeMap Nat)
    (all : List String) : BTreeMap Nat :=
  all.foldl (fun m id => m.insert id (flooredShare target eligible headroomOf ceilingOf id)) ∅

theorem distribute_eq : distribute target eligible headroomOf ceilingOf all =
    fillShortfall eligible headroomOf ceilingOf
      (target - (flooredShares target eligible headroomOf ceilingOf all).values.foldl wrapAdd 0)
      (flooredShares target eligible headroomOf ceilingOf all) := rfl

theorem flooredShares_getD (hnd : all.Nodup) (id : String) :
    (flooredShares target eligible headroomOf ceilingOf all).getD id 0 =
      if id ∈ all then flooredShare target eligible headroomOf ceilingOf id else 0 := by
  have hkeys : (all.map fun id => id).Nodup := by rwa [List.map_id']
  unfold flooredShares
  rw [Std.ExtTreeMap.getD_eq_getD_getElem?]
  by_cases hmem : id ∈ all
  · rw [if_pos hmem, getElem?_foldl_insert_of_mem _ ∅ hkeys hmem]
    rfl
  · rw [if_neg hmem, getElem?_foldl_insert_of_notMem _ ∅ hkeys (by rwa [List.map_id'])]
    simp

theorem mem_flooredShares (id : String) : id ∈ flooredShares target eligible headroomOf ceilingOf all ↔ id ∈ all := by
  unfold flooredShares
  induction all using List.reverseRecOn with
  | nil => simp
  | append_singleton all last ih =>
    rw [List.foldl_concat, Std.ExtTreeMap.mem_insert, ih, Std.LawfulEqCmp.compare_eq_iff_eq, List.mem_append,
      List.mem_singleton, or_comm, eq_comm]

theorem flooredShares_le (hnd : all.Nodup) (id : String) :
    (flooredShares target eligible headroomOf ceilingOf all).getD id 0 ≤ ceilingOf.getD id 0 := by
  rw [flooredShares_getD hnd]
  split
  · unfold flooredShare
    split
    · exact Nat.min_le_right _ _
    · exact Nat.zero_le _
  · exact Nat.zero_le _

variable (target eligible headroomOf ceilingOf) in
/-- **No host gets more than its cap, and one that is not eligible gets nothing.** -/
theorem distribute_within (hnd : all.Nodup) (id : String) :
    (distribute target eligible headroomOf ceilingOf all).getD id 0 ≤ ceilingOf.getD id 0 ∧
      (id ∉ eligible → (distribute target eligible headroomOf ceilingOf all).getD id 0 = 0) := by
  obtain ⟨left, hfills, -⟩ := fillShortfall_fills eligible headroomOf ceilingOf
    (target - (flooredShares target eligible headroomOf ceilingOf all).values.foldl wrapAdd 0)
    (flooredShares target eligible headroomOf ceilingOf all)
  rw [distribute_eq]
  refine ⟨hfills.within (flooredShares_le hnd) id, fun hout => ?_⟩
  refine (hfills.other hout).trans ?_
  dsimp only
  rw [flooredShares_getD hnd]
  unfold flooredShare
  split
  · rw [if_neg (by simpa using hout)]
  · rfl

/-- **The shortfall only adds to the floored shares.** -/
theorem flooredShare_le_distribute (hnd : all.Nodup) (hsub : ∀ id ∈ eligible, id ∈ all) {id : String}
    (hid : id ∈ eligible) : flooredShare target eligible headroomOf ceilingOf id ≤
      (distribute target eligible headroomOf ceilingOf all).getD id 0 := by
  obtain ⟨left, hfills, -⟩ := fillShortfall_fills eligible headroomOf ceilingOf
    (target - (flooredShares target eligible headroomOf ceilingOf all).values.foldl wrapAdd 0)
    (flooredShares target eligible headroomOf ceilingOf all)
  have hle := hfills.le id
  dsimp only at hle
  rwa [flooredShares_getD hnd, if_pos (hsub id hid)] at hle

theorem filter_contains_perm (hnd : all.Nodup) (hdistinct : eligible.Nodup) (hsub : ∀ id ∈ eligible, id ∈ all) :
    (all.filter eligible.contains).Perm eligible := by
  refine (List.perm_ext_iff_of_nodup (hnd.filter _) hdistinct).2 fun id => ?_
  rw [List.mem_filter, List.contains_iff_mem]
  exact ⟨And.right, fun h => ⟨hsub id h, h⟩⟩

/-- The words of the floored shares do not wrap where these are within the target. -/
theorem foldl_flooredShares (hnd : all.Nodup) (hdistinct : eligible.Nodup) (hsub : ∀ id ∈ eligible, id ∈ all)
    (hfloors : (eligible.map (flooredShare target eligible headroomOf ceilingOf)).sum ≤ target)
    (htarget : target ≤ u32Max) :
    (flooredShares target eligible headroomOf ceilingOf all).values.foldl wrapAdd 0 =
      (eligible.map (flooredShare target eligible headroomOf ceilingOf)).sum := by
  have hkeys : (all.map fun id => id).Nodup := by rwa [List.map_id']
  have hout : ∀ id ∈ all, eligible.contains id = false →
      flooredShare target eligible headroomOf ceilingOf id = 0 := by
    intro id _ hno
    exact if_neg (by rw [hno]; exact Bool.false_ne_true)
  have hall : (all.map (flooredShare target eligible headroomOf ceilingOf)).sum =
      (eligible.map (flooredShare target eligible headroomOf ceilingOf)).sum := by
    rw [← sum_filter_eq hout]
    exact ((filter_contains_perm hnd hdistinct hsub).map _).sum_eq
  have hwrap := foldl_wrapAdd (flooredShares target eligible headroomOf ceilingOf all).values 0
  rw [Nat.zero_mod, Nat.zero_add] at hwrap
  rw [hwrap, flooredShares, (values_foldl_insert_perm hkeys _).sum_eq, hall]
  exact Nat.mod_eq_of_lt (by omega)

/-- **A target is dealt from the floored shares on**, where these are within it. -/
theorem distribute_fills (hnd : all.Nodup) (hdistinct : eligible.Nodup) (hsub : ∀ id ∈ eligible, id ∈ all)
    (hfloors : (eligible.map (flooredShare target eligible headroomOf ceilingOf)).sum ≤ target)
    (htarget : target ≤ u32Max) :
    ∃ left, Fills eligible (ceilingOf.getD · 0)
        (target - (eligible.map (flooredShare target eligible headroomOf ceilingOf)).sum,
          ((flooredShares target eligible headroomOf ceilingOf all).getD · 0))
        (left, ((distribute target eligible headroomOf ceilingOf all).getD · 0)) ∧
      (left = 0 ∨ bestHost eligible headroomOf ceilingOf (distribute target eligible headroomOf ceilingOf all) = none) := by
  rw [distribute_eq, foldl_flooredShares hnd hdistinct hsub hfloors htarget]
  exact fillShortfall_fills ..

theorem sum_flooredShares_getD (hnd : all.Nodup) (hsub : ∀ id ∈ eligible, id ∈ all) :
    (eligible.map ((flooredShares target eligible headroomOf ceilingOf all).getD · 0)).sum =
      (eligible.map (flooredShare target eligible headroomOf ceilingOf)).sum := by
  refine congrArg List.sum (List.map_congr_left fun id hid => ?_)
  rw [flooredShares_getD hnd, if_pos (hsub id hid)]

/-- **No more than the target is distributed**, where the floored shares are within it. -/
theorem distribute_sum_le (hnd : all.Nodup) (hdistinct : eligible.Nodup) (hsub : ∀ id ∈ eligible, id ∈ all)
    (hfloors : (eligible.map (flooredShare target eligible headroomOf ceilingOf)).sum ≤ target)
    (htarget : target ≤ u32Max) :
    (eligible.map fun id => (distribute target eligible headroomOf ceilingOf all).getD id 0).sum ≤ target := by
  obtain ⟨left, hfills, -⟩ := distribute_fills hnd hdistinct hsub hfloors htarget
  have hbalance := hfills.balance hdistinct
  dsimp only at hbalance
  rw [sum_flooredShares_getD hnd hsub] at hbalance
  omega

end Distribute

/-! ## Exact arithmetic -/

section Exact

variable {target : Nat} {eligible all : List String} {headroomOf : BTreeMap ℚ} {ceilingOf clamped : BTreeMap Nat}

theorem sum_rat (xs : List ℚ) : Flt.sum xs = xs.sum := List.sum_eq_foldl.symm

theorem floorShare_le {weight : ℚ} (h : 0 ≤ weight) : ((floorShare target weight : Nat) : ℚ) ≤ target * weight := by
  have hshare : (0 : ℚ) ≤ target * weight := mul_nonneg (Nat.cast_nonneg _) h
  unfold floorShare
  dsimp only
  split
  · exact_mod_cast hshare
  · have hfloor : ((Flt.toUInt u32Max (Flt.min (Flt.floor ((target : ℚ) * weight)) (Flt.ofNat u32Max)) : Nat) : ℤ) ≤
        ⌊(target : ℚ) * weight⌋ := by
      have hnonneg : 0 ≤ ⌊(target : ℚ) * weight⌋ := Int.floor_nonneg.2 hshare
      have hmin : ⌊(Flt.min (Flt.floor ((target : ℚ) * weight)) (Flt.ofNat u32Max) : ℚ)⌋ ≤ ⌊(target : ℚ) * weight⌋ := by
        have hle : (Flt.min (Flt.floor ((target : ℚ) * weight)) (Flt.ofNat u32Max) : ℚ) ≤
            ((⌊(target : ℚ) * weight⌋ : ℤ) : ℚ) := by
          show (if _ ≤ _ then _ else _ : ℚ) ≤ _
          split
          · exact le_refl _
          · rename_i hgt
            exact le_of_lt (not_le.1 hgt)
        exact le_trans (Int.floor_le_floor hle) (Int.floor_intCast _).le
      show ((min u32Max ⌊_⌋.toNat : Nat) : ℤ) ≤ _
      omega
    exact le_trans (by exact_mod_cast hfloor) (Int.floor_le _)


/-- No share within the words is cut below its floor. -/
theorem le_floorShare {weight : ℚ} (hword : (target : ℚ) * weight ≤ u32Max) :
    ⌊(target : ℚ) * weight⌋₊ ≤ floorShare target weight := by
  by_cases hzero : (target : ℚ) * weight ≤ 0
  · rw [Nat.floor_of_nonpos hzero]
    exact Nat.zero_le _
  · have hshare : floorShare target weight =
        Flt.toUInt u32Max (Flt.min (Flt.floor ((target : ℚ) * weight)) (Flt.ofNat u32Max)) :=
      if_neg fun h => hzero (of_decide_eq_true h)
    have hfloor : (⌊(target : ℚ) * weight⌋ : ℚ) ≤ (u32Max : ℚ) := le_trans (Int.floor_le _) hword
    have hmin : (Flt.min (Flt.floor ((target : ℚ) * weight)) (Flt.ofNat u32Max) : ℚ) = ⌊(target : ℚ) * weight⌋ :=
      if_pos hfloor
    rw [hshare, hmin]
    show _ ≤ min u32Max (⌊((⌊(target : ℚ) * weight⌋ : ℤ) : ℚ)⌋).toNat
    rw [Int.floor_intCast]
    refine le_min (Nat.floor_le_of_le hword) (Nat.le_of_eq (Int.floor_toNat _).symm)

theorem foldl_betterHost_isSome (ids : List String) {best : Option (String × ℚ)} (hbest : best.isSome) :
    (ids.foldl (betterHost headroomOf ceilingOf clamped) best).isSome := by
  induction ids generalizing best with
  | nil => exact hbest
  | cons id ids ih =>
    rw [List.foldl_cons]
    apply ih
    unfold betterHost
    dsimp only
    split
    · exact hbest
    · split
      · rfl
      · exact hbest

/-- **No best host is left only when every eligible one is at its ceiling.** -/
theorem full_of_bestHost_none (h : bestHost eligible headroomOf ceilingOf clamped = none) :
    ∀ id ∈ eligible, ceilingOf.getD id 0 ≤ clamped.getD id 0 := by
  rw [bestHost_eq, Option.map_eq_none_iff] at h
  induction eligible with
  | nil => exact nofun
  | cons id ids ih =>
    rw [List.foldl_cons] at h
    by_cases hroom : ceilingOf.getD id 0 ≤ clamped.getD id 0
    · have hkept : betterHost headroomOf ceilingOf clamped none id = none := if_pos hroom
      rw [hkept] at h
      intro k hk
      rcases List.mem_cons.1 hk with rfl | hk
      · exact hroom
      · exact ih h k hk
    · -- an exact score is finite, so the first one is taken
      have htaken : (betterHost headroomOf ceilingOf clamped none id).isSome := by
        unfold betterHost
        dsimp only
        rw [if_neg hroom, Option.elim_none]
        rfl
      have hsome : (ids.foldl (betterHost headroomOf ceilingOf clamped)
          (betterHost headroomOf ceilingOf clamped none id)).isSome := foldl_betterHost_isSome ids htaken
      rw [h] at hsome
      cases hsome

theorem headroomWeight_eq (eligible : List String) (headroomOf : BTreeMap ℚ) (id : String) :
    headroomWeight eligible headroomOf id =
      headroomOf.getD id 0 / (eligible.map fun id => headroomOf.getD id 0).sum := by
  unfold headroomWeight
  rw [sum_rat]
  rfl

/-- The floored shares are within the target, so the sum of their words does not wrap. -/
theorem sum_flooredShare_le (hpos : ∀ id ∈ eligible, 0 ≤ headroomOf.getD id 0) :
    (eligible.map (flooredShare target eligible headroomOf ceilingOf)).sum ≤ target := by
  have hweights : 0 ≤ (eligible.map fun id => headroomOf.getD id 0).sum :=
    List.sum_nonneg fun x hx => by
      obtain ⟨id, hid, rfl⟩ := List.mem_map.1 hx
      exact hpos id hid
  have hparts : ∀ id ∈ eligible, (flooredShare target eligible headroomOf ceilingOf id : ℚ) ≤
      target * (headroomOf.getD id 0 / (eligible.map fun id => headroomOf.getD id 0).sum) := by
    intro id hid
    have hweight := headroomWeight_eq eligible headroomOf id
    have hle : flooredShare target eligible headroomOf ceilingOf id ≤
        floorShare target (headroomWeight eligible headroomOf id) := by
      unfold flooredShare
      rw [if_pos (by simpa using hid)]
      exact Nat.min_le_left _ _
    have hpart : 0 ≤ headroomWeight eligible headroomOf id := by
      rw [hweight]
      exact div_nonneg (hpos id hid) hweights
    calc (flooredShare target eligible headroomOf ceilingOf id : ℚ)
        ≤ (floorShare target (headroomWeight eligible headroomOf id) : Nat) := by exact_mod_cast hle
      _ ≤ target * headroomWeight eligible headroomOf id := floorShare_le hpart
      _ = _ := by rw [hweight]
  exact sum_le_of_parts hparts

/-- No weight is more than the whole. -/
theorem headroomWeight_le_one (hpos : ∀ id ∈ eligible, 0 ≤ headroomOf.getD id 0) {id : String} (hid : id ∈ eligible) :
    headroomWeight eligible headroomOf id ≤ 1 := by
  rw [headroomWeight_eq]
  refine div_le_one_of_le₀ ?_ (List.sum_nonneg (List.forall_mem_map.2 hpos))
  exact List.single_le_sum (List.forall_mem_map.2 hpos) _ (List.mem_map_of_mem hid)

variable (ceilingOf) in
/-- **The eligible hosts get all of the target they have room for.** -/
theorem distribute_sum (hnd : all.Nodup) (hdistinct : eligible.Nodup) (hsub : ∀ id ∈ eligible, id ∈ all)
    (hpos : ∀ id ∈ eligible, 0 ≤ headroomOf.getD id 0) (htarget : target ≤ u32Max) :
    (eligible.map fun id => (distribute target eligible headroomOf ceilingOf all).getD id 0).sum =
      min target (eligible.map fun id => ceilingOf.getD id 0).sum := by
  have hfloors : (eligible.map (flooredShare target eligible headroomOf ceilingOf)).sum ≤ target :=
    sum_flooredShare_le hpos
  obtain ⟨left, hfills, hdone⟩ := distribute_fills hnd hdistinct hsub hfloors htarget
  have hexact := hfills.sum_eq hdistinct (flooredShares_le hnd) (hdone.imp_right full_of_bestHost_none)
  dsimp only at hexact
  rw [sum_flooredShares_getD hnd hsub] at hexact
  rw [hexact]
  omega

/-! ### Every host's share -/

theorem mem_fillShortfall {headroomOf : BTreeMap F} (hall : ∀ id ∈ eligible, id ∈ all) (shortfall : Nat)
    (hkeys : ∀ id, id ∈ clamped ↔ id ∈ all) (id : String) :
    id ∈ fillShortfall eligible headroomOf ceilingOf shortfall clamped ↔ id ∈ all := by
  induction shortfall generalizing clamped with
  | zero => exact hkeys id
  | succ shortfall ih =>
    unfold fillShortfall
    cases hbest : bestHost eligible headroomOf ceilingOf clamped with
    | none => exact hkeys id
    | some winner =>
      refine ih fun k => ?_
      rw [Std.ExtTreeMap.mem_insert, hkeys, Std.LawfulEqCmp.compare_eq_iff_eq]
      exact or_iff_right_of_imp fun h => h ▸ hall winner (bestHost_room hbest).1

/-- The values of a map, summed over its keys. -/
theorem sum_values_eq {m : BTreeMap Nat} {ids : List String} (hnd : ids.Nodup) (hkeys : ∀ id, id ∈ m ↔ id ∈ ids) :
    m.values.sum = (ids.map fun id => m.getD id 0).sum := by
  have hperm : m.keys.Perm ids := by
    refine (List.perm_ext_iff_of_nodup Std.ExtTreeMap.nodup_keys hnd).2 fun id => ?_
    rw [Std.ExtTreeMap.mem_keys, hkeys]
  have hvalues : m.toList.map Prod.snd = m.toList.map fun e => m.getD e.1 0 := by
    refine List.map_congr_left fun e he => ?_
    rw [Std.ExtTreeMap.getD_eq_getD_getElem?, Std.ExtTreeMap.mem_toList_iff_getElem?_eq_some.1 he]
    rfl
  rw [← (hperm.map _).sum_eq, values_eq_map_toList, hvalues, ← Std.ExtTreeMap.map_fst_toList_eq_keys, List.map_map]
  rfl

/-- What a target leaves its hosts: nothing where a host is not eligible, at least the floor of its weighted share and
at most its ceiling where it is, and in total all there is room for. -/
structure ExactShares (target : Nat) (eligible all : List String) (headroomOf : BTreeMap ℚ) (ceilingOf : BTreeMap Nat)
    (shares : BTreeMap Nat) : Prop where
  hosts : ∀ id, id ∈ shares ↔ id ∈ all
  ineligible : ∀ id, id ∉ eligible → shares.getD id 0 = 0
  within : ∀ id ∈ eligible, shares.getD id 0 ≤ ceilingOf.getD id 0
  floored : ∀ id ∈ eligible, min (ceilingOf.getD id 0)
    ⌊(target : ℚ) * (headroomOf.getD id 0 / (eligible.map fun e => headroomOf.getD e 0).sum)⌋₊ ≤ shares.getD id 0
  total : shares.values.sum = min target (eligible.map fun id => ceilingOf.getD id 0).sum

variable (ceilingOf) in
/-- **A target is distributed exactly**, and the remainder loop ends. -/
theorem distribute_exact (hnd : all.Nodup) (hdistinct : eligible.Nodup) (hsub : ∀ id ∈ eligible, id ∈ all)
    (hpos : ∀ id ∈ eligible, 0 ≤ headroomOf.getD id 0) (hceilings : ∀ id ∈ eligible, ceilingOf.getD id 0 ≤ u32Max)
    (htarget : target ≤ u32Max) :
    ExactShares target eligible all headroomOf ceilingOf (distribute target eligible headroomOf ceilingOf all) ∧
      ∀ rounds, target ≤ rounds → fillWithin eligible headroomOf ceilingOf target rounds
        ((flooredShares target eligible headroomOf ceilingOf all).values.foldl wrapAdd 0)
        (flooredShares target eligible headroomOf ceilingOf all) =
          some (distribute target eligible headroomOf ceilingOf all) := by
  have hwithin := distribute_within target eligible headroomOf ceilingOf hnd
  have hhosts : ∀ id, id ∈ distribute target eligible headroomOf ceilingOf all ↔ id ∈ all := by
    rw [distribute_eq]
    exact mem_fillShortfall hsub _ mem_flooredShares
  refine ⟨⟨hhosts, fun id => (hwithin id).2, fun id _ => (hwithin id).1, fun id hid => ?_, ?_⟩, fun rounds hrounds => ?_⟩
  · have hweight := headroomWeight_le_one hpos hid
    have hword : (target : ℚ) * headroomWeight eligible headroomOf id ≤ u32Max := by
      refine le_trans (mul_le_of_le_one_right (Nat.cast_nonneg _) hweight) ?_
      exact_mod_cast htarget
    have hfloor := le_floorShare hword
    rw [headroomWeight_eq] at hfloor
    refine le_trans ?_ (flooredShare_le_distribute hnd hsub hid)
    unfold flooredShare
    rw [if_pos (by simpa using hid), headroomWeight_eq, Nat.min_comm]
    exact min_le_min_right _ hfloor
  · have hout : ∀ id ∈ all, eligible.contains id = false →
        (distribute target eligible headroomOf ceilingOf all).getD id 0 = 0 := by
      intro id _ hno
      exact (hwithin id).2 fun hmem => by rw [List.contains_iff_mem.2 hmem] at hno; cases hno
    rw [sum_values_eq hnd hhosts, ← sum_filter_eq hout, ((filter_contains_perm hnd hdistinct hsub).map _).sum_eq]
    exact distribute_sum ceilingOf hnd hdistinct hsub hpos htarget
  · exact fillWithin_eq htarget hceilings rounds _ (Nat.le_add_left_of_le hrounds) _

/-- Three workers for two hosts without headroom, one of them without a ceiling. -/
theorem distribute_exact_idle :
    ExactShares 3 ["a", "b"] ["a", "b", "c"] ∅ ((∅ : BTreeMap Nat).insert "a" 2)
      (distribute (F := ℚ) 3 ["a", "b"] ∅ ((∅ : BTreeMap Nat).insert "a" 2) ["a", "b", "c"]) :=
  (distribute_exact ((∅ : BTreeMap Nat).insert "a" 2) (by decide) (by decide) (by decide) (by decide +kernel)
    (by decide +kernel) (by decide)).1

end Exact

/-! ## One deal -/

section Deal

variable {budget : Nat} {hosts : List FederationHost} {demand cap : FederationHost → Nat}

/-- A budget dealt to the hosts with demand, each up to a cap. -/
def dealt (F : Type) [Flt F] (budget : Nat) (demand cap : FederationHost → Nat) (hosts : List FederationHost) :
    BTreeMap Nat :=
  distribute budget ((sortedHostIds hosts).filter fun id => decide (0 < (hostMap demand hosts).getD id 0))
    (hostMap (fun h => (Flt.ofNat (h.ceiling - h.workers) : F)) hosts) (hostMap cap hosts) (sortedHostIds hosts)

theorem hostMap_getD (hdistinct : (hosts.map (·.hostId)).Nodup) {V : Type} (value : FederationHost → V) (default : V)
    {h : FederationHost} (hh : h ∈ hosts) : (hostMap value hosts).getD h.hostId default = value h := by
  unfold hostMap
  rw [Std.ExtTreeMap.getD_eq_getD_getElem?, getElem?_foldl_insert_of_mem value ∅ hdistinct hh]
  rfl

theorem sortedHostIds_perm (hosts : List FederationHost) : (sortedHostIds hosts).Perm (hosts.map (·.hostId)) :=
  List.perm_insertionSort _ _

theorem sortedHostIds_nodup (hdistinct : (hosts.map (·.hostId)).Nodup) : (sortedHostIds hosts).Nodup :=
  (sortedHostIds_perm hosts).nodup_iff.2 hdistinct

theorem sum_sortedHostIds (f : String → Nat) :
    ((sortedHostIds hosts).map f).sum = (hosts.map fun h => f h.hostId).sum := by
  rw [((sortedHostIds_perm hosts).map f).sum_eq, List.map_map]
  rfl

/-- What a host may be dealt. -/
def room (demand cap : FederationHost → Nat) (h : FederationHost) : Nat := if 0 < demand h then cap h else 0

theorem dealt_le_room (hdistinct : (hosts.map (·.hostId)).Nodup) {h : FederationHost} (hh : h ∈ hosts) :
    (dealt F budget demand cap hosts).getD h.hostId 0 ≤ room demand cap h := by
  unfold dealt room
  obtain ⟨hle, hout⟩ := distribute_within budget
    ((sortedHostIds hosts).filter fun id => decide (0 < (hostMap demand hosts).getD id 0))
    (hostMap (fun h => (Flt.ofNat (h.ceiling - h.workers) : F)) hosts) (hostMap cap hosts)
    (sortedHostIds_nodup hdistinct) h.hostId
  rw [hostMap_getD hdistinct cap 0 hh] at hle
  split
  · exact hle
  · rename_i hnone
    refine Nat.le_of_eq (hout fun hmem => hnone ?_)
    have hpos := (List.mem_filter.1 hmem).2
    rw [hostMap_getD hdistinct demand 0 hh] at hpos
    exact of_decide_eq_true hpos

/-- **A deal gives out all of the budget there is room for**, in exact arithmetic. -/
theorem sum_dealt (hdistinct : (hosts.map (·.hostId)).Nodup) (hbudget : budget ≤ u32Max) :
    (hosts.map fun h => (dealt ℚ budget demand cap hosts).getD h.hostId 0).sum =
      min budget (hosts.map (room demand cap)).sum := by
  have hids := sortedHostIds_nodup hdistinct
  have hpos : ∀ id ∈ (sortedHostIds hosts).filter fun id => decide (0 < (hostMap demand hosts).getD id 0),
      0 ≤ (hostMap (fun h => (Flt.ofNat (h.ceiling - h.workers) : ℚ)) hosts).getD id 0 := by
    intro id hid
    obtain ⟨h, hh, rfl⟩ := List.mem_map.1 ((sortedHostIds_perm hosts).mem_iff.1 (List.mem_of_mem_filter hid))
    rw [hostMap_getD hdistinct _ 0 hh]
    exact (Nat.cast_nonneg _ : (0 : ℚ) ≤ _)
  have hout : ∀ id ∈ sortedHostIds hosts, decide (0 < (hostMap demand hosts).getD id 0) = false →
      (dealt ℚ budget demand cap hosts).getD id 0 = 0 := by
    intro id _ hno
    refine (distribute_within _ _ _ _ hids id).2 fun hmem => ?_
    rw [(List.mem_filter.1 hmem).2] at hno
    cases hno
  have hdealt := distribute_sum (hostMap cap hosts) hids (hids.filter _) (fun _ hid => List.mem_of_mem_filter hid) hpos
    hbudget
  -- the eligible ids' caps are the rooms of the hosts
  have hrooms : (((sortedHostIds hosts).filter fun id => decide (0 < (hostMap demand hosts).getD id 0)).map
      fun id => (hostMap cap hosts).getD id 0).sum = (hosts.map (room demand cap)).sum := by
    calc _ = (((sortedHostIds hosts).filter fun id => decide (0 < (hostMap demand hosts).getD id 0)).map
            fun id => if 0 < (hostMap demand hosts).getD id 0 then (hostMap cap hosts).getD id 0 else 0).sum :=
          congrArg List.sum (List.map_congr_left fun id hid =>
            (if_pos (of_decide_eq_true (List.mem_filter.1 hid).2)).symm)
      _ = ((sortedHostIds hosts).map
            fun id => if 0 < (hostMap demand hosts).getD id 0 then (hostMap cap hosts).getD id 0 else 0).sum :=
          sum_filter_eq fun id _ hno => if_neg (of_decide_eq_false hno)
      _ = (hosts.map (room demand cap)).sum := by
          rw [sum_sortedHostIds]
          refine congrArg List.sum (List.map_congr_left fun h hh => ?_)
          rw [hostMap_getD hdistinct _ 0 hh, hostMap_getD hdistinct _ 0 hh]
          rfl
  calc (hosts.map fun h => (dealt ℚ budget demand cap hosts).getD h.hostId 0).sum
      = ((sortedHostIds hosts).map fun id => (dealt ℚ budget demand cap hosts).getD id 0).sum :=
        (sum_sortedHostIds fun id => (dealt ℚ budget demand cap hosts).getD id 0).symm
    _ = _ := (sum_filter_eq hout).symm
    _ = _ := hdealt
    _ = _ := by rw [hrooms]

end Deal

/-! ## The split -/

section Split

variable {total : Nat} {hosts : List FederationHost}

/-- The workers a host may gain: up to its cap, above those it runs. -/
def marginalCap (h : FederationHost) : Nat := shareCap h - h.workers

/-- The shares as they are dealt: the surplus on top of the running workers, or all of a shrinking total. -/
def dealtShare (F : Type) [Flt F] (total : Nat) (hosts : List FederationHost) (h : FederationHost) : Nat :=
  let current := satSum (hosts.map (·.workers))
  if current ≤ total then satAdd h.workers ((dealt F (total - current) marginalCap marginalCap hosts).getD h.hostId 0)
  else (dealt F total (·.readyDemand) shareCap hosts).getD h.hostId 0

theorem hostMap_congr {V : Type} {f g : FederationHost → V} (h : ∀ x ∈ hosts, f x = g x) :
    hostMap f hosts = hostMap g hosts := by
  unfold hostMap
  exact List.foldl_ext _ _ _ fun m x hx => by rw [h x hx]

theorem satSum_values (hdistinct : (hosts.map (·.hostId)).Nodup) (value : FederationHost → Nat) :
    satSum (hostMap value hosts).values = satSum (hosts.map value) := by
  rw [satSum_eq, satSum_eq, hostMap, (values_foldl_insert_perm hdistinct value).sum_eq]

/-- **Every host's share is the dealt one.** -/
theorem splitAccountTotal_getD (hdistinct : (hosts.map (·.hostId)).Nodup) {h : FederationHost} (hh : h ∈ hosts) :
    (splitAccountTotal F total hosts).getD h.hostId 0 = dealtShare F total hosts h := by
  have hkeys : ((sortedHostIds hosts).map fun id => id).Nodup := by
    rw [List.map_id']
    exact sortedHostIds_nodup hdistinct
  have hid : h.hostId ∈ sortedHostIds hosts := (sortedHostIds_perm hosts).mem_iff.2 (List.mem_map.2 ⟨h, hh, rfl⟩)
  have hmarginal : hostMap (fun h => (hostMap shareCap hosts).getD h.hostId 0 -
      (hostMap (·.workers) hosts).getD h.hostId 0) hosts = hostMap marginalCap hosts :=
    hostMap_congr fun x hx => by rw [hostMap_getD hdistinct _ 0 hx, hostMap_getD hdistinct _ 0 hx]; rfl
  unfold splitAccountTotal splitPlan dealtShare
  dsimp only
  rw [satSum_values hdistinct, hmarginal]
  split
  · dsimp only
    rw [Std.ExtTreeMap.getD_eq_getD_getElem?, getElem?_foldl_insert_of_mem _ ∅ hkeys hid, Option.getD_some,
      hostMap_getD hdistinct _ 0 hh]
    rfl
  · dsimp only
    rw [Std.ExtTreeMap.getD_eq_getD_getElem?, getElem?_foldl_insert_of_mem _ ∅ hkeys hid, Option.getD_some,
      hostMap_getD hdistinct _ 0 hh]
    have hle : (dealt F total (·.readyDemand) shareCap hosts).getD h.hostId 0 ≤ u32Max := by
      refine le_trans (dealt_le_room hdistinct hh) ?_
      unfold room
      split
      · exact le_trans (Nat.min_le_right _ _) (satAdd_le_max _ _)
      · exact Nat.zero_le _
    exact (satAdd_of_le (by rwa [Nat.zero_add])).trans (Nat.zero_add _)

/-- The shares of a split are the dealt ones of its hosts. -/
theorem splitAccountTotal_values (hdistinct : (hosts.map (·.hostId)).Nodup) :
    (splitAccountTotal F total hosts).values.sum = (hosts.map (dealtShare F total hosts)).sum := by
  have hkeys : ((sortedHostIds hosts).map fun id => id).Nodup := by
    rw [List.map_id']
    exact sortedHostIds_nodup hdistinct
  obtain ⟨share, hshare⟩ : ∃ share : String → Nat, splitAccountTotal F total hosts =
      (sortedHostIds hosts).foldl (fun m id => m.insert id (share id)) ∅ := ⟨_, rfl⟩
  rw [hshare, (values_foldl_insert_perm hkeys share).sum_eq, sum_sortedHostIds]
  refine congrArg List.sum (List.map_congr_left fun h hh => ?_)
  have hid : h.hostId ∈ sortedHostIds hosts := (sortedHostIds_perm hosts).mem_iff.2 (List.mem_map.2 ⟨h, hh, rfl⟩)
  rw [← splitAccountTotal_getD hdistinct hh, hshare, Std.ExtTreeMap.getD_eq_getD_getElem?,
    getElem?_foldl_insert_of_mem share ∅ hkeys hid, Option.getD_some]

/-! ### Below the ceilings -/

/-- The account's total is below what its hosts run. -/
def Shrinks (total : Nat) (hosts : List FederationHost) : Prop := total < satSum (hosts.map (·.workers))

/-- **Every share is within its host's ceiling** exactly when the account shrinks or no host runs more than its
ceiling. -/
theorem splitAccountTotal_within_iff (hdistinct : (hosts.map (·.hostId)).Nodup)
    (hword : ∀ h ∈ hosts, h.workers ≤ u32Max) :
    (∀ h ∈ hosts, (splitAccountTotal F total hosts).getD h.hostId 0 ≤ h.ceiling) ↔
      Shrinks total hosts ∨ ∀ h ∈ hosts, h.workers ≤ h.ceiling := by
  constructor
  · intro hall
    by_cases hshrinks : Shrinks total hosts
    · exact Or.inl hshrinks
    · refine Or.inr fun h hh => le_trans ?_ (hall h hh)
      rw [splitAccountTotal_getD hdistinct hh, dealtShare, if_pos (Nat.not_lt.1 hshrinks)]
      exact le_min (Nat.le_add_right _ _) (hword h hh)
  · intro hcond h hh
    rw [splitAccountTotal_getD hdistinct hh, dealtShare]
    split
    · rename_i hgrows
      have hceiling : h.workers ≤ h.ceiling := hcond.resolve_left (Nat.not_lt.2 hgrows) h hh
      have hdealt : (dealt F (total - satSum (hosts.map (·.workers))) marginalCap marginalCap hosts).getD h.hostId 0 ≤
          marginalCap h := by
        refine le_trans (dealt_le_room hdistinct hh) ?_
        unfold room
        split
        · exact Nat.le_refl _
        · exact Nat.zero_le _
      have hcap : shareCap h ≤ h.ceiling := Nat.min_le_left _ _
      have hmarginal : marginalCap h = shareCap h - h.workers := rfl
      exact le_trans (satAdd_le _ _) (by omega)
    · refine le_trans (dealt_le_room hdistinct hh) ?_
      unfold room
      split
      · exact Nat.min_le_left _ _
      · exact Nat.zero_le _

/-- A host that runs five workers over a ceiling of three, of a total of five. -/
theorem splitAccountTotal_over_ceiling :
    ¬ ∀ (total : Nat) (hosts : List FederationHost), (hosts.map (·.hostId)).Nodup →
      (∀ h ∈ hosts, h.workers ≤ u32Max) →
      ∀ h ∈ hosts, (splitAccountTotal F64 total hosts).getD h.hostId 0 ≤ h.ceiling := by
  intro hall
  have h := hall 5 [{ hostId := "a", workers := 5, ceiling := 3, readyDemand := 4 }] (by decide) (by decide) _
    List.mem_cons_self
  have hshare : (splitAccountTotal F64 5 [{ hostId := "a", workers := 5, ceiling := 3, readyDemand := 4 }]).getD
      "a" 0 = 5 := by decide +kernel
  rw [hshare] at h
  exact absurd h (by decide)

/-- Three and one of ten. -/
theorem splitAccountTotal_within_pair :
    ¬ Shrinks 9 (hostsOf 3 1) ∧
      ∀ h ∈ hostsOf 3 1, (splitAccountTotal F64 9 (hostsOf 3 1)).getD h.hostId 0 ≤ h.ceiling := by
  refine ⟨?_, (splitAccountTotal_within_iff (by decide) (by decide)).2 (Or.inr (by decide))⟩
  unfold Shrinks
  decide

/-! ### All that there is room for -/

/-- No sum of the split saturates. -/
structure Unsaturated (total : Nat) (hosts : List FederationHost) : Prop where
  total : total ≤ u32Max
  workers : (hosts.map (·.workers)).sum ≤ u32Max
  demand : ∀ h ∈ hosts, h.workers + h.readyDemand ≤ u32Max

/-- The workers a host has work and room for. -/
def absorbs (h : FederationHost) : Nat := min h.ceiling (h.workers + h.readyDemand)

/-- What a total that holds or grows leaves the hosts: none loses a worker, only one with work and a free ceiling gains,
and they gain all of the surplus there is room for. -/
structure Grown (total : Nat) (hosts : List FederationHost) (shares : BTreeMap Nat) : Prop where
  kept : ∀ h ∈ hosts, h.workers ≤ shares.getD h.hostId 0
  gains : ∀ h ∈ hosts, h.workers < shares.getD h.hostId 0 → 0 < h.readyDemand ∧ h.workers < h.ceiling
  sum : shares.values.sum = (hosts.map (·.workers)).sum +
    min (total - (hosts.map (·.workers)).sum) (hosts.map fun h => absorbs h - h.workers).sum

/-- What a shrinking total leaves them: a host without work nothing, and those with work all there is room for. -/
structure Shrunk (total : Nat) (hosts : List FederationHost) (shares : BTreeMap Nat) : Prop where
  drained : ∀ h ∈ hosts, h.readyDemand = 0 → shares.getD h.hostId 0 = 0
  sum : shares.values.sum = min total ((hosts.filter fun h => decide (0 < h.readyDemand)).map absorbs).sum

theorem shareCap_eq (hsat : Unsaturated total hosts) {h : FederationHost} (hh : h ∈ hosts) :
    shareCap h = absorbs h := by
  unfold shareCap absorbs
  rw [satAdd_of_le (hsat.demand h hh)]

theorem satSum_workers (hsat : Unsaturated total hosts) :
    satSum (hosts.map (·.workers)) = (hosts.map (·.workers)).sum := by
  rw [satSum_eq]
  exact Nat.min_eq_left hsat.workers

theorem room_marginalCap (h : FederationHost) : room marginalCap marginalCap h = marginalCap h := by
  unfold room
  split
  · rfl
  · omega

theorem splitAccountTotal_grown (hdistinct : (hosts.map (·.hostId)).Nodup) (hsat : Unsaturated total hosts)
    (hgrows : (hosts.map (·.workers)).sum ≤ total) : Grown total hosts (splitAccountTotal ℚ total hosts) := by
  have hcurrent := satSum_workers hsat
  have hbudget : total - (hosts.map (·.workers)).sum ≤ u32Max := le_trans (Nat.sub_le _ _) hsat.total
  let gain (h : FederationHost) : Nat :=
    (dealt ℚ (total - (hosts.map (·.workers)).sum) marginalCap marginalCap hosts).getD h.hostId 0
  have hgain : ∀ h ∈ hosts, gain h ≤ absorbs h - h.workers := by
    intro h hh
    rw [← shareCap_eq hsat hh]
    exact le_trans (dealt_le_room hdistinct hh) (room_marginalCap h).le
  have hshare : ∀ h ∈ hosts, dealtShare ℚ total hosts h = h.workers + gain h := by
    intro h hh
    have hroom := hgain h hh
    have hdemand := hsat.demand h hh
    unfold absorbs at hroom
    have hfit : h.workers + gain h ≤ u32Max := by omega
    rw [dealtShare, hcurrent, if_pos hgrows]
    exact satAdd_of_le hfit
  constructor
  · intro h hh
    rw [splitAccountTotal_getD hdistinct hh, hshare h hh]
    exact Nat.le_add_right _ _
  · intro h hh hmore
    have hroom := hgain h hh
    rw [splitAccountTotal_getD hdistinct hh, hshare h hh] at hmore
    unfold absorbs at hroom
    omega
  · rw [splitAccountTotal_values hdistinct, List.map_congr_left hshare, List.sum_map_add]
    have hdealt : (hosts.map gain).sum = min (total - (hosts.map (·.workers)).sum)
        (hosts.map (room marginalCap marginalCap)).sum := sum_dealt hdistinct hbudget
    have hrooms : ∀ h ∈ hosts, room marginalCap marginalCap h = absorbs h - h.workers := by
      intro h hh
      rw [room_marginalCap, ← shareCap_eq hsat hh]
      rfl
    rw [hdealt, List.map_congr_left hrooms]

theorem splitAccountTotal_shrunk (hdistinct : (hosts.map (·.hostId)).Nodup) (hsat : Unsaturated total hosts)
    (hshrinks : total < (hosts.map (·.workers)).sum) : Shrunk total hosts (splitAccountTotal ℚ total hosts) := by
  have hcurrent := satSum_workers hsat
  have hshare : ∀ h ∈ hosts, dealtShare ℚ total hosts h =
      (dealt ℚ total (·.readyDemand) shareCap hosts).getD h.hostId 0 := by
    intro h _
    rw [dealtShare, hcurrent, if_neg (Nat.not_le.2 hshrinks)]
  constructor
  · intro h hh hnone
    have hroom : room (·.readyDemand) shareCap h = 0 := if_neg (Nat.not_lt.2 hnone.le)
    rw [splitAccountTotal_getD hdistinct hh, hshare h hh]
    exact Nat.le_zero.1 (le_of_le_of_eq (dealt_le_room hdistinct hh) hroom)
  · rw [splitAccountTotal_values hdistinct, List.map_congr_left hshare, sum_dealt hdistinct hsat.total]
    have hout : ∀ h ∈ hosts, decide (0 < h.readyDemand) = false → room (·.readyDemand) shareCap h = 0 :=
      fun h _ hno => if_neg (of_decide_eq_false hno)
    have hrooms : ∀ h ∈ hosts.filter fun h => decide (0 < h.readyDemand),
        room (·.readyDemand) shareCap h = absorbs h := by
      intro h hh
      obtain ⟨hmem, hsome⟩ := List.mem_filter.1 hh
      exact (if_pos (of_decide_eq_true hsome)).trans (shareCap_eq hsat hmem)
    rw [← sum_filter_eq hout, List.map_congr_left hrooms]

/-- **A split is exact**: within its total or the running workers, all there is room for in either regime, and the same
for every order of the hosts. -/
theorem splitAccountTotal_exact (hdistinct : (hosts.map (·.hostId)).Nodup) (hsat : Unsaturated total hosts) :
    ((splitAccountTotal ℚ total hosts).values.sum ≤ max total (hosts.map (·.workers)).sum ∧
      (total < (hosts.map (·.workers)).sum → (splitAccountTotal ℚ total hosts).values.sum ≤ total)) ∧
    ((hosts.map (·.workers)).sum ≤ total → Grown total hosts (splitAccountTotal ℚ total hosts)) ∧
    (total < (hosts.map (·.workers)).sum → Shrunk total hosts (splitAccountTotal ℚ total hosts)) ∧
    ∀ other, hosts.Perm other → splitAccountTotal ℚ total other = splitAccountTotal ℚ total hosts := by
  have hshrunk : total < (hosts.map (·.workers)).sum → (splitAccountTotal ℚ total hosts).values.sum ≤ total :=
    fun hshrinks => le_of_eq_of_le (splitAccountTotal_shrunk hdistinct hsat hshrinks).sum (Nat.min_le_left _ _)
  refine ⟨⟨?_, hshrunk⟩, splitAccountTotal_grown hdistinct hsat, splitAccountTotal_shrunk hdistinct hsat,
    fun other hperm => (SameHosts.splitAccountTotal_eq ⟨hperm, hdistinct⟩ total).symm⟩
  rcases Nat.lt_or_ge total (hosts.map (·.workers)).sum with hshrinks | hgrows
  · exact le_trans (hshrunk hshrinks) (Nat.le_max_left _ _)
  · have hsum := (splitAccountTotal_grown hdistinct hsat hgrows).sum
    omega

/-- Three and one of ten, given five more or made to stop two. -/
theorem splitAccountTotal_exact_pair :
    Grown 9 (hostsOf 3 1) (splitAccountTotal ℚ 9 (hostsOf 3 1)) ∧
      Shrunk 2 (hostsOf 3 1) (splitAccountTotal ℚ 2 (hostsOf 3 1)) := by
  have hdistinct : ((hostsOf 3 1).map (·.hostId)).Nodup := by decide
  have hgrown : Unsaturated 9 (hostsOf 3 1) := ⟨by decide, by decide, by decide⟩
  have hshrunk : Unsaturated 2 (hostsOf 3 1) := ⟨by decide, by decide, by decide⟩
  exact ⟨(splitAccountTotal_exact hdistinct hgrown).2.1 (by decide),
    (splitAccountTotal_exact hdistinct hshrunk).2.2.1 (by decide)⟩

end Split

end Subgov
