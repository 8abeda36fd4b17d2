import Mathlib.Data.String.Basic
import Subgov.Model
import Subgov.Lib.Takes
/-!
# SeedOrder — which workspaces a scale-up seeds

A batch of workers is seeded from the ready routes, one at a time, each at the route with the fewest running workers.
Both maps of the loop count in `u32`, so the order is the greedy one exactly while no counter is needed past its wrap
(`seedOrder_iff`).
-/
namespace Subgov

open Takes

/-! ## Paths -/

/-- An absolute path without links, dots or empty names. -/
@[ext] structure ResolvedPath where
  names : List String
  resolved : ∀ name ∈ names, name ≠ "" ∧ name ≠ "." ∧ name ≠ ".." ∧ '/' ∉ name.toList := by decide

namespace ResolvedPath

theorem names_injective : Function.Injective names := fun _ _ => ResolvedPath.ext

/-- The order of `PathBuf`: name by name. -/
instance : LinearOrder ResolvedPath := LinearOrder.lift' names names_injective

def display (path : ResolvedPath) : String := "/" ++ "/".intercalate path.names

theorem intercalate_ne_nil {path : ResolvedPath} (h : path.names ≠ []) :
    ['/'].intercalate (path.names.map String.toList) ≠ [] := by
  intro hnil
  cases hnames : path.names with
  | nil => exact h hnames
  | cons name names =>
    have hname := (path.resolved name (hnames ▸ List.mem_cons_self)).1
    rw [hnames, List.map_cons] at hnil
    cases names with
    | nil => exact hname (by simpa using hnil)
    | cons next names => simp [List.intercalate] at hnil

theorem names_eq_splitOn {path : ResolvedPath} (h : path.names ≠ []) :
    (['/'].intercalate (path.names.map String.toList)).splitOn '/' = path.names.map String.toList := by
  refine List.splitOn_intercalate '/' (fun name hname => ?_) (by simpa using h)
  obtain ⟨name, hmem, rfl⟩ := List.mem_map.1 hname
  exact (path.resolved name hmem).2.2.2

theorem display_injective : Function.Injective display := by
  intro path other hdisplay
  have hchars : ['/'].intercalate (path.names.map String.toList) =
      ['/'].intercalate (other.names.map String.toList) := by
    have hlists := congrArg String.toList hdisplay
    simpa [display, String.toList_append, String.toList_intercalate] using hlists
  have hnames : path.names.map String.toList = other.names.map String.toList := by
    by_cases hpath : path.names = []
    · by_cases hother : other.names = []
      · rw [hpath, hother]
      · rw [hpath] at hchars
        exact absurd hchars.symm (intercalate_ne_nil hother)
    · by_cases hother : other.names = []
      · rw [hother] at hchars
        exact absurd hchars (intercalate_ne_nil hpath)
      · rw [← names_eq_splitOn hpath, ← names_eq_splitOn hother, hchars]
  exact names_injective (List.map_injective_iff.2 (fun _ _ h => String.toList_injective h) hnames)

end ResolvedPath

/-! ## The loop -/

/-- A `BTreeMap` keyed by paths. -/
abbrev PathMap (P V : Type) [LinearOrder P] := Std.ExtTreeMap P V compare

variable {P : Type} [LinearOrder P]

theorem mem_toList_pathMap {V : Type} {m : PathMap P V} {route : P} {v : V} :
    (route, v) ∈ m.toList ↔ m[route]? = some v := Std.ExtTreeMap.mem_toList_iff_getElem?_eq_some

theorem nodup_keys_pathMap {V : Type} (m : PathMap P V) : (m.toList.map Prod.fst).Nodup := by
  rw [Std.ExtTreeMap.map_fst_toList_eq_keys]
  exact Std.ExtTreeMap.nodup_keys

/-- The entries a route still has in the batch, and the workers counted at it. -/
structure Seeding (P : Type) [LinearOrder P] where
  remaining : PathMap P ℕ
  occupancy : PathMap P ℕ

namespace Seeding

/-- The least occupied route with an entry left, the smallest one of a tie. -/
def next (s : Seeding P) : Option P :=
  (((s.remaining.keys.filter (fun route => 0 < s.remaining.getD route 0)).map
    (fun route => toLex (s.occupancy.getD route 0, route))).min?).map (fun key => (ofLex key).2)

variable (add : ℕ → ℕ → ℕ)

def take (s : Seeding P) (route : P) : Seeding P where
  remaining := s.remaining.insert route (s.remaining.getD route 0 - 1)
  occupancy := s.occupancy.insert route (add (s.occupancy.getD route 0) 1)

/-- At most so many seeds. -/
def seeds : ℕ → Seeding P → List P
  | 0, _ => []
  | n + 1, s =>
    match s.next with
    | none => []
    | some route => route :: seeds n (s.take add route)

/-- How often each route is listed. -/
def tally (ready : List P) : PathMap P ℕ := ready.foldl (fun m route => m.insert route (add (m.getD route 0) 1)) ∅

end Seeding

def seedOrder (ready : List P) (running : PathMap P UInt32) : List P :=
  Seeding.seeds wrapAdd ready.length
    { remaining := Seeding.tally wrapAdd ready, occupancy := running.map (fun _ count => count.toNat) }

/-! ## What the loop takes -/

namespace Seeding

variable {add : ℕ → ℕ → ℕ} {s : Seeding P} {k : P}

theorem getD_insert {V : Type} (m : PathMap P V) (k j : P) (v d : V) :
    (m.insert k v).getD j d = if j = k then v else m.getD j d := by
  rw [Std.ExtTreeMap.getD_insert]
  by_cases h : j = k
  · rw [if_pos h, if_pos (Std.LawfulEqCmp.compare_eq_iff_eq.2 h.symm)]
  · rw [if_neg h, if_neg fun he => h (Std.LawfulEqCmp.compare_eq_iff_eq.1 he).symm]

theorem mem_candidates {route : P} :
    route ∈ s.remaining.keys.filter (fun route => 0 < s.remaining.getD route 0) ↔ 0 < s.remaining.getD route 0 := by
  rw [List.mem_filter, decide_eq_true_eq, Std.ExtTreeMap.mem_keys, and_iff_right_iff_imp]
  intro hpos
  by_contra hmem
  rw [Std.ExtTreeMap.getD_eq_fallback hmem] at hpos
  exact absurd hpos (lt_irrefl 0)

theorem next_eq_none (h : s.next = none) (k : P) : s.remaining.getD k 0 = 0 := by
  unfold next at h
  rw [Option.map_eq_none_iff, List.min?_eq_none_iff, List.map_eq_nil_iff] at h
  by_contra hpos
  have hmem := mem_candidates.2 (Nat.pos_of_ne_zero hpos)
  rw [h] at hmem
  exact absurd hmem List.not_mem_nil

theorem next_eq_some (h : s.next = some k) : 0 < s.remaining.getD k 0 ∧ ∀ j, 0 < s.remaining.getD j 0 →
    toLex (s.occupancy.getD k 0, k) ≤ toLex (s.occupancy.getD j 0, j) := by
  unfold next at h
  obtain ⟨key, hkey, hroute⟩ := Option.map_eq_some_iff.1 h
  obtain ⟨hmem, hleast⟩ := List.min?_eq_some_iff.1 hkey
  obtain ⟨route, hcandidate, rfl⟩ := List.mem_map.1 hmem
  cases hroute
  exact ⟨mem_candidates.1 hcandidate, fun j hj => hleast _ (List.mem_map.2 ⟨j, mem_candidates.2 hj, rfl⟩)⟩

/-- What a route costs after so many takes of it: the workers then counted there, and its path. -/
def cost (add : ℕ → ℕ → ℕ) (s : Seeding P) (n : ℕ) (k : P) : ℕ ×ₗ P :=
  toLex ((add · 1)^[n] (s.occupancy.getD k 0), k)

theorem cost_take (s : Seeding P) (k : P) : (s.take add k).cost add = costAfter (s.cost add) k := by
  funext n j
  unfold cost costAfter take
  dsimp only
  rw [getD_insert]
  by_cases h : j = k
  · rw [if_pos h, if_pos h, Function.iterate_succ_apply, h]
  · rw [if_neg h, if_neg h]

def left (s : Seeding P) (k : P) : ℕ := s.remaining.getD k 0

theorem left_take (s : Seeding P) (k : P) : (s.take add k).left = leftAfter s.left k := by
  funext j
  unfold left take leftAfter
  dsimp only
  rw [getD_insert]
  by_cases h : j = k
  · rw [if_pos h, if_pos h, h]
  · rw [if_neg h, if_neg h]

/-- **The loop is greedy** when it may run as often as entries are left. -/
theorem seeds_greedy (add : ℕ → ℕ → ℕ) : ∀ (n : ℕ) {s : Seeding P} {pending : List P}, pending.length ≤ n →
    s.left = (pending.count ·) → Greedy (s.cost add) s.left (seeds add n s)
  | 0, s, pending, hn, hleft => by
    refine Takes.nil fun k => ?_
    rw [hleft, List.length_eq_zero_iff.1 (Nat.le_zero.1 hn)]
    exact List.count_nil
  | n + 1, s, pending, hn, hleft => by
    unfold seeds
    cases hnext : s.next with
    | none => exact Takes.nil (next_eq_none hnext)
    | some k =>
      obtain ⟨hpos, hleast⟩ := next_eq_some hnext
      have hmem : k ∈ pending := by
        change 0 < s.left k at hpos
        rw [hleft] at hpos
        exact List.count_pos_iff.1 hpos
      have hrest : (pending.erase k).length ≤ n := by
        rw [List.length_erase_of_mem hmem]
        omega
      refine Takes.cons hpos (fun j hj => hleast j hj) ?_
      rw [← cost_take, ← left_take]
      exact seeds_greedy add n hrest (by rw [left_take, hleft, leftAfter_count])

/-- No route is seeded more often than it has entries left. -/
theorem count_seeds_le (add : ℕ → ℕ → ℕ) (n : ℕ) (s : Seeding P) (k : P) : (seeds add n s).count k ≤ s.left k := by
  induction n generalizing s with
  | zero => exact Nat.zero_le _
  | succ n ih =>
    unfold seeds
    cases hnext : s.next with
    | none => exact Nat.zero_le _
    | some j =>
      have hpos : 0 < s.left j := (next_eq_some hnext).1
      have hrest := ih (s.take add j)
      rw [left_take] at hrest
      unfold leftAfter at hrest
      dsimp only
      by_cases h : k = j
      · rw [if_pos h] at hrest
        rw [h] at hrest ⊢
        rw [List.count_cons_self]
        omega
      · rwa [if_neg h, ← List.count_cons_of_ne (Ne.symm h)] at hrest

theorem tally_getD (ready : List P) (k : P) : (tally add ready).getD k 0 = (add · 1)^[ready.count k] 0 := by
  unfold tally
  induction ready using List.reverseRecOn with
  | nil => rw [List.foldl_nil, Std.ExtTreeMap.getD_empty, List.count_nil, Function.iterate_zero_apply]
  | append_singleton ready route ih =>
    rw [List.foldl_append, List.foldl_cons, List.foldl_nil, getD_insert, List.count_append]
    by_cases h : k = route
    · subst h
      rw [if_pos rfl, ih, List.count_singleton_self, Function.iterate_succ_apply']
    · rw [if_neg h, ih, List.count_singleton, if_neg (by simpa using Ne.symm h), Nat.add_zero]

end Seeding

/-! ## Wrapping counters -/

/-- A `u32` counter after so many increments. -/
theorem iterate_wrapAdd {x : ℕ} (hx : x ≤ u32Max) (n : ℕ) : (wrapAdd · 1)^[n] x = (x + n) % (u32Max + 1) := by
  induction n with
  | zero => exact (Nat.mod_eq_of_lt (Nat.lt_succ_of_le hx)).symm
  | succ n ih =>
    rw [Function.iterate_succ_apply', ih]
    exact Nat.mod_add_mod _ _ _

section Rust

variable {ready : List P} {running : PathMap P UInt32}

/-- The workers running at a route. -/
def workersAt (running : PathMap P UInt32) (route : P) : ℕ := (running.getD route 0).toNat

theorem workersAt_lt (running : PathMap P UInt32) (route : P) : workersAt running route < u32Max + 1 :=
  UInt32.toNat_lt _

theorem getD_map_toNat (running : PathMap P UInt32) (route : P) :
    (running.map (fun _ count => count.toNat)).getD route 0 = workersAt running route := by
  unfold workersAt
  rw [Std.ExtTreeMap.getD_eq_getD_getElem?, Std.ExtTreeMap.getD_eq_getD_getElem?, Std.ExtTreeMap.getElem?_map]
  cases running[route]? <;> rfl

/-- The counters of a batch hold: no route is listed too often to count, and of the routes that reach the end of their
counter only the largest goes past it. -/
def CountersHold (ready : List P) (running : PathMap P UInt32) : Prop :=
  (∀ route, ready.count route ≤ u32Max) ∧ NoneWraps (u32Max + 1) (workersAt running) (ready.count ·)

/-- Counters hold where every route has room for the whole batch. -/
theorem countersHold_of_room (h : ∀ route, workersAt running route + ready.length ≤ u32Max) :
    CountersHold ready running := by
  have hcount : ∀ route, workersAt running route + ready.count route ≤ u32Max := fun route =>
    Nat.le_trans (Nat.add_le_add_left List.count_le_length _) (h route)
  refine ⟨fun route => ?_, fun r s _ _ => ?_⟩
  · exact Nat.le_trans (Nat.le_add_left _ _) (hcount route)
  · exact Nat.le_succ_of_le (hcount r)

theorem left_tally (ready : List P) (occupancy : PathMap P ℕ) :
    (Seeding.mk (Seeding.tally wrapAdd ready) occupancy).left = fun route => ready.count route % (u32Max + 1) := by
  funext route
  unfold Seeding.left
  dsimp only
  rw [Seeding.tally_getD, iterate_wrapAdd (Nat.zero_le _), Nat.zero_add]

theorem seedOrder_greedy (hcounts : ∀ route, ready.count route ≤ u32Max) :
    Greedy (wrappedCost (u32Max + 1) (workersAt running)) (ready.count ·) (seedOrder ready running) := by
  have hleft : (Seeding.mk (Seeding.tally wrapAdd ready) (running.map (fun _ count => count.toNat))).left =
      (ready.count ·) := by
    rw [left_tally]
    funext route
    exact Nat.mod_eq_of_lt (Nat.lt_succ_of_le (hcounts route))
  have hgreedy := Seeding.seeds_greedy wrapAdd ready.length (Nat.le_refl _) hleft
  rw [hleft] at hgreedy
  refine hgreedy.mono fun n k m j _ _ hle => ?_
  unfold Seeding.cost at hle
  unfold wrappedCost
  dsimp only at hle
  rwa [getD_map_toNat, getD_map_toNat, iterate_wrapAdd (Nat.le_of_lt_succ (workersAt_lt running k)),
    iterate_wrapAdd (Nat.le_of_lt_succ (workersAt_lt running j))] at hle

theorem count_le_of_seedOrder_perm (h : (seedOrder ready running).Perm ready) (route : P) :
    ready.count route ≤ u32Max := by
  have hle := Seeding.count_seeds_le wrapAdd ready.length
    (Seeding.mk (Seeding.tally wrapAdd ready) (running.map (fun _ count => count.toNat))) route
  rw [left_tally] at hle
  dsimp only at hle
  have hcount := h.count_eq route
  unfold seedOrder at hcount
  have hlt : ready.count route % (u32Max + 1) < u32Max + 1 := Nat.mod_lt _ (Nat.succ_pos _)
  omega

/-- What a seed order should be: a reordering of the ready entries in which each seed goes to the least occupied route
with entries left, the smallest path of a tie, and the workers at routes seeded until one runs out level. -/
structure LeastOccupied (ready : List P) (running : P → ℕ) (seeds : List P) : Prop where
  perm : seeds.Perm ready
  least : ∀ before route after, seeds = before ++ route :: after → before.count route < ready.count route ∧
    ∀ other, before.count other < ready.count other →
      toLex (running route + before.count route, route) ≤ toLex (running other + before.count other, other)
  balanced : ∀ before after, seeds = before ++ after → ∀ route ∈ before, ∀ other ∈ before,
    before.dropLast.count route < ready.count route → before.dropLast.count other < ready.count other →
      running route + before.count route ≤ running other + before.count other + 1

theorem leastOccupied_iff {load : P → ℕ} {seeds : List P} :
    LeastOccupied ready load seeds ↔ Greedy (exactCost load) (ready.count ·) seeds := by
  constructor
  · exact fun h => ⟨h.perm.count_eq, fun before k after hsplit j hj => (h.least before k after hsplit).2 j hj⟩
  · exact fun h => ⟨h.perm,
      fun before k after hsplit => ⟨h.lt_left hsplit, fun j hj => h.least before k after hsplit j hj⟩,
      fun before after hsplit r hr s _ _ hs => h.level_of_exact.balanced hsplit hr hs⟩

/-- **The seed order is the greedy one**, and depends on the ready entries alone, exactly while the counters hold. -/
theorem seedOrder_iff (ready : List P) (running : PathMap P UInt32) :
    (LeastOccupied ready (workersAt running) (seedOrder ready running) ∧
      ∀ ready' : List P, ready'.Perm ready → seedOrder ready' running = seedOrder ready running) ↔
    CountersHold ready running := by
  constructor
  · rintro ⟨hleast, -⟩
    have hcounts := count_le_of_seedOrder_perm hleast.perm
    exact ⟨hcounts, ((seedOrder_greedy hcounts).exact_iff (workersAt_lt running)).1 (leastOccupied_iff.1 hleast)⟩
  · rintro ⟨hcounts, hnone⟩
    refine ⟨leastOccupied_iff.2 (((seedOrder_greedy hcounts).exact_iff (workersAt_lt running)).2 hnone),
      fun ready' hperm => ?_⟩
    have hsame : (fun route => ready'.count route) = fun route => ready.count route := funext hperm.count_eq
    have hgreedy' : Greedy (wrappedCost (u32Max + 1) (workersAt running)) (ready'.count ·) (seedOrder ready' running) :=
      seedOrder_greedy fun route => (hperm.count_eq route).symm ▸ hcounts route
    rw [hsame] at hgreedy'
    exact hgreedy'.unique (fun _ _ _ _ => wrappedCost_ne) (seedOrder_greedy hcounts)

end Rust

/-! ### A worker count that wraps -/

def fullRoutes : PathMap String UInt32 :=
  ((∅ : PathMap String UInt32).insert "/repos/a" 4294967295).insert "/repos/b" 4294967295

/-- The first seed makes route `a` count no worker, and it is taken before `b`. -/
theorem seedOrder_returns_to_full : ¬ ∀ (ready : List String) (running : PathMap String UInt32),
    LeastOccupied ready (workersAt running) (seedOrder ready running) ∧
      ∀ ready' : List String, ready'.Perm ready → seedOrder ready' running = seedOrder ready running := by
  intro hall
  have hleast := (hall ["/repos/a", "/repos/a", "/repos/b"] fullRoutes).1.least ["/repos/a"] "/repos/a" ["/repos/b"]
    (by decide +kernel)
  exact absurd (hleast.2 "/repos/b" (by decide +kernel)) (by decide +kernel)

end Subgov
