import Mathlib.Data.Nat.SuccPred
import Subgov.SeedOrder
/-!
# SeedSelectors — the built-in actuator and the script adapters

The script's `seed_order` counts in integers and breaks ties by the text of a path, where the actuator's compares paths
name by name.  The two orders differ where a name has a character below `/` (`/a-b` is below `/a/b` as a text), and the
selectors return the same routes exactly when no such pair of routes ever stands at one occupancy
(`seedOrders_agree_iff`).
-/
namespace Subgov

open Takes

/-! ## The script -/

namespace ReadyBeads

/-- So many seeds; `min` fails where none is left. -/
def seedsFrom : ℕ → Seeding String → Except String (List String)
  | 0, _ => .ok []
  | n + 1, s =>
    match s.next with
    | none => .error "min() iterable argument is empty"
    | some route => (seedsFrom n (s.take (· + ·) route)).map (route :: ·)

variable (resolve : String → String)

def occupancy (running : List (String × ℕ)) : PathMap String ℕ :=
  running.foldl (fun m entry => m.insert (resolve entry.1) entry.2) ∅

/-- `jobs` are the workspaces of the ready jobs, and `resolve` is `Path.resolve`. -/
def seedOrder (jobs : List String) (running : List (String × ℕ)) : Except String (List String) :=
  seedsFrom jobs.length
    { remaining := Seeding.tally (· + ·) (jobs.map resolve), occupancy := occupancy resolve running }

theorem seedsFrom_eq : ∀ {n : ℕ} {s : Seeding String} {pending : List String}, pending.length = n →
    s.left = (pending.count ·) → seedsFrom n s = .ok (Seeding.seeds (· + ·) n s)
  | 0, s, pending, _, _ => rfl
  | n + 1, s, pending, hn, hleft => by
    unfold seedsFrom Seeding.seeds
    cases hnext : s.next with
    | none =>
      obtain ⟨route, rest, rfl⟩ := List.exists_cons_of_length_eq_add_one hn
      have hnone : s.left route = 0 := Seeding.next_eq_none hnext route
      rw [hleft] at hnone
      simp at hnone
    | some route =>
      have hpos : 0 < s.left route := (Seeding.next_eq_some hnext).1
      rw [hleft] at hpos
      have hrest : (pending.erase route).length = n := by
        rw [List.length_erase_of_mem (List.count_pos_iff.1 hpos), hn]
        rfl
      dsimp only
      rw [seedsFrom_eq hrest (by rw [Seeding.left_take, hleft, leftAfter_count])]
      rfl

/-- **The script's order is the greedy one**, in integers and by text. -/
theorem seedOrder_greedy (jobs : List String) (running : List (String × ℕ)) :
    ∃ seeds, seedOrder resolve jobs running = .ok seeds ∧
      Greedy (exactCost ((occupancy resolve running).getD · 0)) ((jobs.map resolve).count ·) seeds := by
  have hleft : (Seeding.mk (Seeding.tally (· + ·) (jobs.map resolve)) (occupancy resolve running)).left =
      ((jobs.map resolve).count ·) := by
    funext route
    unfold Seeding.left
    dsimp only
    rw [Seeding.tally_getD]
    exact (Nat.succ_iterate 0 _).trans (Nat.zero_add _)
  have hgreedy := Seeding.seeds_greedy (· + ·) jobs.length (Nat.le_of_eq (List.length_map _)) hleft
  rw [hleft] at hgreedy
  refine ⟨_, seedsFrom_eq (List.length_map _) hleft, hgreedy.mono fun n k m j _ _ hle => ?_⟩
  unfold Seeding.cost at hle
  have hcost : ∀ x n : ℕ, (fun m : ℕ => m + 1)^[n] x = x + n := Nat.succ_iterate
  rwa [hcost, hcost] at hle

end ReadyBeads

/-! ## Agreement -/

section Agreement

variable {resolve : String → String} {ready seeds : List ResolvedPath} {running : PathMap ResolvedPath UInt32}

/-- The workers running at each route, as the script is given them. -/
def runningItems (running : PathMap ResolvedPath UInt32) : List (String × ℕ) :=
  running.toList.map fun entry => (entry.1.display, entry.2.toNat)

/-- The routes are resolved already. -/
structure Resolved (resolve : String → String) (ready : List ResolvedPath) (running : PathMap ResolvedPath UInt32) :
    Prop where
  ready : ∀ route ∈ ready, resolve route.display = route.display
  running : ∀ (route : ResolvedPath) (count : UInt32), running[route]? = some count →
    resolve route.display = route.display

theorem occupancy_display (hresolved : Resolved resolve ready running) (route : ResolvedPath) :
    (ReadyBeads.occupancy resolve (runningItems running)).getD route.display 0 = workersAt running route := by
  have hkey : ∀ entry ∈ running.toList, resolve entry.1.display = entry.1.display :=
    fun entry hentry => hresolved.running entry.1 entry.2 (mem_toList_pathMap.1 hentry)
  have hnd : (running.toList.map fun entry => resolve entry.1.display).Nodup := by
    rw [List.map_congr_left hkey]
    have hpaths := (nodup_keys_pathMap running).map ResolvedPath.display_injective
    rwa [List.map_map] at hpaths
  unfold ReadyBeads.occupancy runningItems workersAt
  rw [List.foldl_map, Std.ExtTreeMap.getD_eq_getD_getElem?, Std.ExtTreeMap.getD_eq_getD_getElem?]
  cases hentry : running[route]? with
  | none =>
    have hnot : route.display ∉ running.toList.map fun entry => resolve entry.1.display := by
      rw [List.map_congr_left hkey, List.mem_map]
      rintro ⟨⟨other, count⟩, hmem, hsame⟩
      have hother : other = route := ResolvedPath.display_injective hsame
      rw [hother, mem_toList_pathMap, hentry] at hmem
      cases hmem
    have hfold := getElem?_foldl_insert_of_notMem (fun entry : ResolvedPath × UInt32 => entry.2.toNat) ∅ hnd hnot
    rw [Std.ExtTreeMap.getElem?_empty] at hfold
    exact congrArg (·.getD 0) hfold
  | some count =>
    have hmem : (route, count) ∈ running.toList := mem_toList_pathMap.2 hentry
    have hfold := getElem?_foldl_insert_of_mem (fun entry : ResolvedPath × UInt32 => entry.2.toNat) ∅ hnd hmem
    rw [hkey _ hmem] at hfold
    exact congrArg (·.getD 0) hfold

/-- The workers and listed entries of two routes pass through a common count. -/
def CanTie (ready : List ResolvedPath) (running : PathMap ResolvedPath UInt32) (r s : ResolvedPath) : Prop :=
  workersAt running r < workersAt running s + ready.count s ∧ workersAt running s < workersAt running r + ready.count r

instance (ready : List ResolvedPath) (running : PathMap ResolvedPath UInt32) (r s : ResolvedPath) :
    Decidable (CanTie ready running r s) := inferInstanceAs (Decidable (_ ∧ _))

/-- Two ready routes that can tie stand in the same order by name and by text. -/
def PathOrdersAgree (ready : List ResolvedPath) (running : PathMap ResolvedPath UInt32) : Prop :=
  ∀ r ∈ ready, ∀ s ∈ ready, CanTie ready running r s → (r < s ↔ r.display < s.display)

/-- The cost of a route by text. -/
def displayCost (running : PathMap ResolvedPath UInt32) (n : ℕ) (k : ResolvedPath) : ℕ ×ₗ String :=
  toLex (workersAt running k + n, k.display)

/-- **The script answers, and with these routes exactly when they are greedy by text.** -/
theorem script_eq_iff (hresolved : Resolved resolve ready running) :
    ReadyBeads.seedOrder resolve (ready.map ResolvedPath.display) (runningItems running) =
      .ok (seeds.map ResolvedPath.display) ↔ Greedy (displayCost running) (ready.count ·) seeds := by
  obtain ⟨routes, hroutes, hgreedy⟩ := ReadyBeads.seedOrder_greedy resolve (ready.map ResolvedPath.display)
    (runningItems running)
  have hready : (ready.map ResolvedPath.display).map resolve = ready.map ResolvedPath.display := by
    rw [List.map_map]
    exact List.map_congr_left hresolved.ready
  rw [hready] at hgreedy
  have hcost : (fun n (k : ResolvedPath) =>
      exactCost ((ReadyBeads.occupancy resolve (runningItems running)).getD · 0) n k.display) =
      displayCost running := by
    funext n k
    unfold exactCost displayCost
    dsimp only
    rw [occupancy_display hresolved]
  have hmap : Greedy (exactCost ((ReadyBeads.occupancy resolve (runningItems running)).getD · 0))
      ((ready.map ResolvedPath.display).count ·) (seeds.map ResolvedPath.display) ↔
        Greedy (displayCost running) (ready.count ·) seeds := by
    rw [← hcost]
    exact Greedy.map_iff ResolvedPath.display_injective
  rw [hroutes, Except.ok.injEq, ← hmap]
  exact ⟨fun h => h ▸ hgreedy, fun h => hgreedy.unique (fun _ _ _ _ => exactCost_ne) h⟩

/-- Where two routes meet both orders chose the one that was taken. -/
theorem lt_of_meet (hexact : Greedy (exactCost (workersAt running)) (ready.count ·) seeds)
    (htext : Greedy (displayCost running) (ready.count ·) seeds) {k j : ResolvedPath} (hne : k ≠ j)
    (hmeet : Meet (workersAt running) (ready.count ·) seeds k j) : k < j ∧ k.display < j.display := by
  obtain ⟨before, after, hsplit, hj, hlevel⟩ := hmeet
  constructor
  · rcases Prod.Lex.toLex_le_toLex.1 (hexact.least before k after hsplit j hj) with hlt | ⟨-, hle⟩
    · exact absurd hlevel (ne_of_lt hlt)
    · exact lt_of_le_of_ne hle hne
  · rcases Prod.Lex.toLex_le_toLex.1 (htext.least before k after hsplit j hj) with hlt | ⟨-, hle⟩
    · exact absurd hlevel (ne_of_lt hlt)
    · exact lt_of_le_of_ne hle fun hsame => hne (ResolvedPath.display_injective hsame)

theorem pathOrdersAgree_of_greedy (hexact : Greedy (exactCost (workersAt running)) (ready.count ·) seeds)
    (htext : Greedy (displayCost running) (ready.count ·) seeds) : PathOrdersAgree ready running := by
  intro r hr s hs htie
  by_cases hne : r = s
  · rw [hne]
    exact iff_of_false (lt_irrefl _) (lt_irrefl _)
  · rcases hexact.level_of_exact.meet hne (List.count_pos_iff.2 hr) (List.count_pos_iff.2 hs) htie.1 htie.2 with
      hmeet | hmeet
    · have hlt := lt_of_meet hexact htext hne hmeet
      exact iff_of_true hlt.1 hlt.2
    · have hlt := lt_of_meet hexact htext (Ne.symm hne) hmeet
      exact iff_of_false (lt_asymm hlt.1) (lt_asymm hlt.2)

theorem greedy_text_of_exact (hagree : PathOrdersAgree ready running)
    (hexact : Greedy (exactCost (workersAt running)) (ready.count ·) seeds) :
    Greedy (displayCost running) (ready.count ·) seeds := by
  refine hexact.mono fun n k m j hn hm hle => ?_
  rcases Prod.Lex.toLex_le_toLex.1 hle with hlt | ⟨hlevel, hkj⟩
  · exact Prod.Lex.toLex_le_toLex.2 (Or.inl hlt)
  · refine Prod.Lex.toLex_le_toLex.2 (Or.inr ⟨hlevel, ?_⟩)
    rcases eq_or_lt_of_le hkj with heq | hlt
    · exact le_of_eq (congrArg ResolvedPath.display heq)
    · dsimp only at hlevel hlt
      have htie : CanTie ready running k j := ⟨by omega, by omega⟩
      exact le_of_lt ((hagree k (List.count_pos_iff.1 (Nat.zero_lt_of_lt hn)) j
        (List.count_pos_iff.1 (Nat.zero_lt_of_lt hm)) htie).1 hlt)

/-- **The selectors agree** exactly when the actuator's counters hold and no two routes can tie whose names and texts
are ordered differently. -/
theorem seedOrders_agree_iff (hresolved : Resolved resolve ready running) :
    ReadyBeads.seedOrder resolve (ready.map ResolvedPath.display) (runningItems running) =
      .ok ((seedOrder ready running).map ResolvedPath.display) ↔
        CountersHold ready running ∧ PathOrdersAgree ready running := by
  rw [script_eq_iff hresolved]
  constructor
  · intro htext
    have hcounts := count_le_of_seedOrder_perm htext.perm
    have hwrapped : Greedy (wrappedCost (u32Max + 1) (workersAt running)) (ready.count ·) (seedOrder ready running) :=
      seedOrder_greedy hcounts
    have hlevel : Greedy (level (workersAt running)) (ready.count ·) (seedOrder ready running) :=
      htext.mono fun n k m j _ _ hle => (Prod.Lex.toLex_le_toLex.1 hle).elim Nat.le_of_lt fun h => Nat.le_of_eq h.1
    have hnone := hlevel.noneWraps (workersAt_lt running) hwrapped
    have hexact := (hwrapped.exact_iff (workersAt_lt running)).2 hnone
    exact ⟨⟨hcounts, hnone⟩, pathOrdersAgree_of_greedy hexact htext⟩
  · rintro ⟨⟨hcounts, hnone⟩, hagree⟩
    exact greedy_text_of_exact hagree (((seedOrder_greedy hcounts).exact_iff (workersAt_lt running)).2 hnone)

end Agreement

/-! ### A nested path and a longer name -/

def nested : ResolvedPath := { names := ["a", "b"] }

def longer : ResolvedPath := { names := ["a-b"] }

/-- By name `/a/b` comes first, by text `/a-b`. -/
theorem seedOrders_part : ¬ ∀ (resolve : String → String) (ready : List ResolvedPath)
    (running : PathMap ResolvedPath UInt32), Resolved resolve ready running →
      ReadyBeads.seedOrder resolve (ready.map ResolvedPath.display) (runningItems running) =
        .ok ((seedOrder ready running).map ResolvedPath.display) := by
  intro hall
  have hagree := hall id [nested, longer] ∅ ⟨fun _ _ => rfl, fun _ _ _ => rfl⟩
  exact absurd hagree (by decide +kernel)

/-- A path and one below it are ordered alike. -/
theorem seedOrders_agree_below :
    ReadyBeads.seedOrder id ([nested, { names := ["a"] }].map ResolvedPath.display) (runningItems ∅) =
      .ok ((seedOrder [nested, { names := ["a"] }] ∅).map ResolvedPath.display) := by
  have hroom : ∀ route : ResolvedPath, workersAt ∅ route + [nested, { names := ["a"] }].length ≤ u32Max := by
    intro route
    have hnone : workersAt ∅ route = 0 := by
      unfold workersAt
      rw [Std.ExtTreeMap.getD_empty]
      rfl
    rw [hnone]
    decide
  refine (seedOrders_agree_iff ⟨fun _ _ => rfl, fun _ _ _ => rfl⟩).2 ⟨countersHold_of_room hroom, ?_⟩
  unfold PathOrdersAgree
  decide +kernel

end Subgov
