import Subgov.WorkerIdentity
import Subgov.SeedOrder
import Subgov.Lib.Effect
import Mathlib.Data.List.Sort
import Mathlib.Data.List.Infix
/-!
# NeedleSessions — launching and stopping the workers of a NEEDLE pool

A worker is a tmux session.  A pool is scaled up by one `needle run` a worker, under the first slot numbers that are
free, and scaled down by one `needle stop` a session.  A stop selects by substring, so a session whose name another one
contains is refused: `scale_down_iff` says from which pool size on that always happens.
-/
namespace Subgov

open Effect Numbered

structure TmuxSession where
  name : String
  attached : Bool
  deriving DecidableEq

inductive NeedleCommand
  | run (repo adapter : String) (count : Nat) (identifier : Option String)
  | stop (identifier : String)
  deriving DecidableEq

structure NeedlePool where
  repo : String
  adapter : String
  identifierPrefix : Option String

/-- The ready workspaces, and the workers running at each. -/
structure SeedSources where
  demandState : Except String (List ResolvedPath)
  heartbeats : Except String (PathMap ResolvedPath UInt32)

/-- What one call reads: whether the adapter is ready, whether tmux answers, the seeds and the excluded workspaces. -/
structure NeedleInputs where
  check : Except String Unit := .ok ()
  listing : Except String Unit := .ok ()
  seeds : Option SeedSources := none
  excluded : List String := []

/-- The sessions, and the commands NEEDLE was given so far. -/
structure TmuxServer where
  sessions : List TmuxSession
  commands : List NeedleCommand := []

def contains (whole part : String) : Bool := decide (part.toList <:+: whole.toList)

/-- NEEDLE sanitizes periods when it names a session. -/
def sessionPrefix (adapter : String) : String := "needle-" ++ adapter.map (fun c => if c = '.' then '_' else c) ++ "-"

namespace NeedlePool

def owns (pool : NeedlePool) (session : TmuxSession) : Bool :=
  match pool.identifierPrefix with
  | some identifierPrefix =>
    (stripPrefix (sessionPrefix pool.adapter) session.name).any (matchesWorkerPrefix identifierPrefix)
  | none => (sessionPrefix pool.adapter).toList.isPrefixOf session.name.toList

def matching (pool : NeedlePool) (sessions : List TmuxSession) : List TmuxSession :=
  (sessions.filter pool.owns).insertionSort (fun left right => left.name ≤ right.name)

end NeedlePool

/-! ## Scaling up -/

/-- The workspace of each launch. -/
def launches (pool : NeedlePool) (inputs : NeedleInputs) (delta : Nat) : Except String (List String) :=
  match inputs.seeds with
  | some sources => do
    let ready ← sources.demandState
    let occupancy ← sources.heartbeats
    let seeds := seedOrder (ready.filter fun route => !inputs.excluded.contains route.display) occupancy
    return (seeds.take delta).map ResolvedPath.display
  | none => .ok (List.replicate delta pool.repo)

/-- One launch a worker, each under the next slot number whose session does not exist. -/
def launchCommands (pool : NeedlePool) : List String → Nat → List String → List NeedleCommand
  | _, _, [] => []
  | taken, next, route :: routes =>
    match pool.identifierPrefix with
    | none => .run route pool.adapter 1 none :: launchCommands pool taken next routes
    | some identifierPrefix =>
      let session := fun n => sessionPrefix pool.adapter ++ name identifierPrefix n
      let slot := firstFree session taken taken.length next
      .run route pool.adapter 1 (some (name identifierPrefix slot)) ::
        launchCommands pool (taken ++ [session slot]) (slot + 1) routes

/-! ## Scaling down -/

/-- Another NEEDLE session's name contains the name of this one. -/
def ambiguous (sessions : List TmuxSession) (session : TmuxSession) : Bool :=
  sessions.any fun other =>
    other.name != session.name && "needle-".toList.isPrefixOf other.name.toList && contains other.name session.name

def stopCandidates (pool sessions : List TmuxSession) (count : Nat) : Except String (List TmuxSession) :=
  let detached := pool.filter (!·.attached)
  if detached.length < count then
    .error s!"cannot stop {count} NEEDLE workers: only {detached.length} matching sessions are detached"
  else
    match (detached.take count).find? (ambiguous sessions) with
    | some session => .error
        s!"cannot stop NEEDLE session {session.name} by identifier because another session contains its name"
    | none => .ok (detached.take count)

/-! ## One call -/

/-- The commands of one call; none depends on what the ones before it did. -/
def needleCommands (pool : NeedlePool) (inputs : NeedleInputs) (desired : Nat) (sessions : List TmuxSession) :
    Except String (List NeedleCommand) :=
  let matching := pool.matching sessions
  match compare desired matching.length with
  | .eq => .ok []
  | .gt =>
    let delta := desired - matching.length
    if inputs.seeds.isNone && inputs.excluded.contains pool.repo then .ok []
    else if pool.identifierPrefix.isNone && inputs.seeds.isNone then .ok [.run pool.repo pool.adapter delta none]
    else (launches pool inputs delta).map (launchCommands pool (sessions.map (·.name)) 1)
  | .lt => (stopCandidates matching sessions (matching.length - desired)).map (·.map fun session => .stop session.name)

section Needle

-- what a NEEDLE command makes of the sessions
variable (needle : NeedleCommand → List TmuxSession → Except String (List TmuxSession))

def runNeedle (command : NeedleCommand) : Effect TmuxServer String Unit :=
  ofStep fun s => match needle command s.sessions with
    | .ok sessions => (.ok (), { sessions, commands := s.commands ++ [command] })
    | .error e => (.error e, { s with commands := s.commands ++ [command] })

def runAll : List NeedleCommand → Effect TmuxServer String Unit
  | [] => pure ()
  | command :: commands => do
    runNeedle needle command
    runAll commands

def reconcileNeedleWorkers (pool : NeedlePool) (inputs : NeedleInputs) (desired : Nat) :
    Effect TmuxServer String Unit := do
  lift id inputs.check
  lift id inputs.listing
  let commands ← ofStep fun s => (needleCommands pool inputs desired s.sessions, s)
  runAll needle commands

/-- A launch under a free name adds that session, detached, and no other. -/
def CreatesRequested : Prop :=
  ∀ repo adapter identifier sessions, (∀ s ∈ sessions, s.name ≠ sessionPrefix adapter ++ identifier) →
    ∃ sessions', needle (.run repo adapter 1 (some identifier)) sessions = .ok sessions' ∧
      sessions'.Perm ({ name := sessionPrefix adapter ++ identifier, attached := false } :: sessions)

/-- A stop of a session's full name succeeds, and leaves the sessions whose names do not contain it. -/
def StopsSelected : Prop :=
  ∀ sessions, ∀ s ∈ sessions, "needle-".toList.isPrefixOf s.name.toList = true →
    ∃ sessions', needle (.stop s.name) sessions = .ok sessions' ∧
      ∀ t ∈ sessions, contains t.name s.name = false → t ∈ sessions'

end Needle

/-! ## The sessions of a pool -/

/-- The session of a slot. -/
def slotName (adapter identifierPrefix : String) (slot : Nat) : String :=
  sessionPrefix adapter ++ name identifierPrefix slot

/-- The first sessions of a pool, detached. -/
def slotSessions (adapter identifierPrefix : String) (next count : Nat) : List TmuxSession :=
  (List.range' next count).map fun slot => { name := slotName adapter identifierPrefix slot, attached := false }

/-- No session's name contains one the pool's names begin with. -/
def Unrelated (adapter identifierPrefix : String) (sessions : List TmuxSession) : Prop :=
  ∀ s ∈ sessions, contains s.name (sessionPrefix adapter ++ identifierPrefix) = false

section Names

variable {adapter identifierPrefix : String} {m n : Nat}

theorem slotName_eq (slot : Nat) :
    slotName adapter identifierPrefix slot = name (sessionPrefix adapter ++ identifierPrefix) slot :=
  (String.append_assoc ..).symm

theorem slotName_injective (adapter identifierPrefix : String) : Function.Injective (slotName adapter identifierPrefix) := by
  intro m n h
  rw [slotName_eq, slotName_eq] at h
  exact name_injective _ h

theorem sessionPrefix_toList (adapter : String) :
    ∃ rest, (sessionPrefix adapter).toList = 'n' :: rest ∧ "needle-".toList <+: (sessionPrefix adapter).toList := by
  unfold sessionPrefix
  rw [String.toList_append, String.toList_append, List.append_assoc]
  exact ⟨_, rfl, List.prefix_append _ _⟩

theorem slotName_needle (slot : Nat) :
    "needle-".toList.isPrefixOf (slotName adapter identifierPrefix slot).toList = true := by
  obtain ⟨-, -, hneedle⟩ := sessionPrefix_toList adapter
  rw [List.isPrefixOf_iff_prefix]
  unfold slotName
  rw [String.toList_append]
  exact hneedle.trans (List.prefix_append _ _)

/-- One session's name contains another's exactly when its numeral begins with the other's. -/
theorem contains_slotName_iff : contains (slotName adapter identifierPrefix n) (slotName adapter identifierPrefix m) = true ↔
    Nat.toDigits 10 m <+: Nat.toDigits 10 n := by
  obtain ⟨rest, hrest, -⟩ := sessionPrefix_toList adapter
  unfold contains
  rw [decide_eq_true_eq, slotName_eq, slotName_eq]
  have hletters : (sessionPrefix adapter ++ identifierPrefix).toList = 'n' :: (rest ++ identifierPrefix.toList) := by
    rw [String.toList_append, hrest, List.cons_append]
  exact name_infix_iff hletters (show Char.isDigit 'n' = false by decide)

theorem Unrelated.not_contains {sessions : List TmuxSession} (h : Unrelated adapter identifierPrefix sessions)
    {s : TmuxSession} (hs : s ∈ sessions) (slot : Nat) :
    contains s.name (slotName adapter identifierPrefix slot) = false := by
  have hstem := h s hs
  unfold contains at hstem ⊢
  rw [decide_eq_false_iff_not] at hstem ⊢
  intro hname
  refine hstem (List.IsInfix.trans ?_ hname)
  rw [slotName_eq, toList_name]
  exact (List.prefix_append _ _).isInfix

theorem Unrelated.ne {sessions : List TmuxSession} (h : Unrelated adapter identifierPrefix sessions) {s : TmuxSession}
    (hs : s ∈ sessions) (slot : Nat) : s.name ≠ slotName adapter identifierPrefix slot := by
  intro hname
  have hnot := h.not_contains hs slot
  rw [← hname] at hnot
  unfold contains at hnot
  exact absurd List.infix_rfl (decide_eq_false_iff_not.1 hnot)

end Names

section Pool

variable {pool : NeedlePool} {identifierPrefix : String} {sessions : List TmuxSession} {k : Nat}

theorem owns_iff (hconfigured : pool.identifierPrefix = some identifierPrefix) {s : TmuxSession} :
    pool.owns s = true ↔
      ∃ id, s.name = sessionPrefix pool.adapter ++ id ∧ matchesWorkerPrefix identifierPrefix id = true := by
  unfold NeedlePool.owns
  rw [hconfigured]
  dsimp only
  rw [Option.any_eq_true]
  simp only [stripPrefix_eq_some]

theorem owns_slot (hconfigured : pool.identifierPrefix = some identifierPrefix) {next count : Nat} :
    ∀ s ∈ slotSessions pool.adapter identifierPrefix next count, pool.owns s = true := by
  intro s hs
  obtain ⟨slot, -, rfl⟩ := List.mem_map.1 hs
  refine (owns_iff hconfigured).2 ⟨name identifierPrefix slot, rfl, ?_⟩
  exact matchesWorkerPrefix_iff.2 (names_name identifierPrefix slot)

theorem Unrelated.not_owned (h : Unrelated pool.adapter identifierPrefix sessions)
    (hconfigured : pool.identifierPrefix = some identifierPrefix) : ∀ s ∈ sessions, pool.owns s = false := by
  intro s hs
  rw [Bool.eq_false_iff]
  intro howned
  obtain ⟨id, hname, hid⟩ := (owns_iff hconfigured).1 howned
  obtain ⟨number, -, -, hword⟩ := matchesWorkerPrefix_iff.1 hid
  have hstem := h s hs
  unfold contains at hstem
  refine decide_eq_false_iff_not.1 hstem ?_
  rw [hname, String.toList_append, String.toList_append, hword, ← List.append_assoc]
  exact (List.prefix_append _ _).isInfix

/-- **The pool's sessions among all**, in the order of their names. -/
theorem matching_perm (hconfigured : pool.identifierPrefix = some identifierPrefix)
    (h : Unrelated pool.adapter identifierPrefix sessions) {all : List TmuxSession} {count : Nat}
    (hall : all.Perm (slotSessions pool.adapter identifierPrefix 1 count ++ sessions)) :
    (pool.matching all).Perm (slotSessions pool.adapter identifierPrefix 1 count) := by
  have hsome : (slotSessions pool.adapter identifierPrefix 1 count).filter pool.owns =
      slotSessions pool.adapter identifierPrefix 1 count := List.filter_eq_self.2 (owns_slot hconfigured)
  have hnone : sessions.filter pool.owns = [] := by
    rw [List.filter_eq_nil_iff]
    intro s hs
    rw [h.not_owned hconfigured s hs]
    exact Bool.false_ne_true
  have hfilter := hall.filter pool.owns
  rw [List.filter_append, hsome, hnone, List.append_nil] at hfilter
  exact (List.perm_insertionSort _ _).trans hfilter

theorem matching_sorted (pool : NeedlePool) (all : List TmuxSession) :
    (pool.matching all).Pairwise fun left right => left.name ≤ right.name := by
  have htotal : Std.Total fun left right : TmuxSession => left.name ≤ right.name := ⟨fun _ _ => le_total _ _⟩
  have htrans : IsTrans TmuxSession fun left right => left.name ≤ right.name := ⟨fun _ _ _ => le_trans⟩
  exact List.pairwise_insertionSort _ _

end Pool

/-! ## A scale-up -/

section Up

variable {needle : NeedleCommand → List TmuxSession → Except String (List TmuxSession)} {pool : NeedlePool}
  {identifierPrefix : String}

/-- **A launch takes no name that a session has**, wherever the numbers it tries begin. -/
theorem launchCommands_fresh (hconfigured : pool.identifierPrefix = some identifierPrefix) :
    ∀ (routes taken : List String) (next : Nat), ∀ command ∈ launchCommands pool taken next routes,
      ∃ route slot, command = .run route pool.adapter 1 (some (name identifierPrefix slot)) ∧
        slotName pool.adapter identifierPrefix slot ∉ taken
  | [], _, _, _, hcommand => nomatch hcommand
  | route :: routes, taken, next, command, hcommand => by
    unfold launchCommands at hcommand
    rw [hconfigured] at hcommand
    rcases List.mem_cons.1 hcommand with rfl | hrest
    · exact ⟨route, _, rfl, firstFree_not_mem (slotName_injective pool.adapter identifierPrefix) taken next⟩
    · obtain ⟨route', slot, hcommand, hfree⟩ := launchCommands_fresh hconfigured routes _ _ command hrest
      exact ⟨route', slot, hcommand, fun htaken => hfree (List.mem_append_left _ htaken)⟩

/-- The slots of a launch are the next ones, as long as none of them is taken. -/
theorem launchCommands_eq (hconfigured : pool.identifierPrefix = some identifierPrefix) :
    ∀ (routes : List String) (taken : List String) (next : Nat),
      (∀ n, next ≤ n → slotName pool.adapter identifierPrefix n ∉ taken) →
      launchCommands pool taken next routes = (routes.zipIdx next).map fun launch =>
        .run launch.1 pool.adapter 1 (some (name identifierPrefix launch.2))
  | [], _, _, _ => by simp only [launchCommands, List.zipIdx_nil, List.map_nil]
  | route :: routes, taken, next, hfree => by
    have hslot : firstFree (slotName pool.adapter identifierPrefix) taken taken.length next = next :=
      firstFree_of_not_mem _ (hfree next (Nat.le_refl _))
    have hrest : ∀ n, next + 1 ≤ n →
        slotName pool.adapter identifierPrefix n ∉ taken ++ [slotName pool.adapter identifierPrefix next] := by
      intro n hn hmem
      rcases List.mem_append.1 hmem with htaken | hnew
      · exact hfree n (by omega) htaken
      · have hsame := slotName_injective _ _ (List.mem_singleton.1 hnew)
        omega
    unfold slotName at hslot hrest
    unfold launchCommands
    rw [hconfigured]
    dsimp only
    rw [hslot, launchCommands_eq hconfigured routes _ _ hrest, List.zipIdx_cons, List.map_cons]

variable (pool identifierPrefix) in
/-- **A launch adds one detached session for each slot.** -/
theorem runAll_launches (hcreates : CreatesRequested needle) :
    ∀ (routes : List String) (next : Nat) (s : TmuxServer),
      (∀ n, next ≤ n → ∀ t ∈ s.sessions, t.name ≠ slotName pool.adapter identifierPrefix n) →
      ∃ s', run (runAll needle ((routes.zipIdx next).map fun launch =>
          .run launch.1 pool.adapter 1 (some (name identifierPrefix launch.2)))) s = (.ok (), s') ∧
        s'.sessions.Perm (slotSessions pool.adapter identifierPrefix next routes.length ++ s.sessions)
  | [], next, s, _ => ⟨s, rfl, List.Perm.refl _⟩
  | route :: routes, next, s, hfree => by
    obtain ⟨sessions, hrun, hperm⟩ := hcreates route pool.adapter (name identifierPrefix next) s.sessions
      (hfree next (Nat.le_refl _))
    let command := NeedleCommand.run route pool.adapter 1 (some (name identifierPrefix next))
    have hfirst : run (runNeedle needle command) s = (.ok (), { sessions, commands := s.commands ++ [command] }) := by
      unfold runNeedle
      rw [run_ofStep, hrun]
    obtain ⟨s', hrest, hsessions⟩ := runAll_launches hcreates routes (next + 1)
      { sessions, commands := s.commands ++ [command] } (fun n hn t ht hname => by
        rcases List.mem_cons.1 (hperm.mem_iff.1 ht) with rfl | ht
        · have hsame := slotName_injective _ _ hname
          omega
        · exact hfree n (by omega) t ht hname)
    refine ⟨s', ?_, ?_⟩
    · rw [List.zipIdx_cons, List.map_cons]
      unfold runAll
      rw [run_bind_ok hfirst]
      exact hrest
    · refine hsessions.trans ((hperm.append_left _).trans ?_)
      exact List.perm_middle

/-- A call that succeeds ran the commands its sessions ask for. -/
theorem reconcile_ok {inputs : NeedleInputs} {desired : Nat} {s s' : TmuxServer}
    (h : run (reconcileNeedleWorkers needle pool inputs desired) s = (.ok (), s')) :
    ∃ commands, needleCommands pool inputs desired s.sessions = .ok commands ∧
      run (runAll needle commands) s = (.ok (), s') := by
  unfold reconcileNeedleWorkers at h
  obtain ⟨_, s₁, hcheck, h⟩ := ok_of_run_bind h
  obtain ⟨-, rfl⟩ := ok_of_run_lift hcheck
  obtain ⟨_, s₂, hlisting, h⟩ := ok_of_run_bind h
  obtain ⟨-, rfl⟩ := ok_of_run_lift hlisting
  obtain ⟨commands, s₃, hcommands, h⟩ := ok_of_run_bind h
  rw [run_ofStep] at hcommands
  cases (Prod.mk.inj hcommands).2
  exact ⟨commands, (Prod.mk.inj hcommands).1, h⟩

/-- **A pool scaled up from none has the first slots**, beside the sessions there were. -/
theorem scaled_up (hcreates : CreatesRequested needle) (hconfigured : pool.identifierPrefix = some identifierPrefix)
    {s₀ s₁ : TmuxServer} (hunrelated : Unrelated pool.adapter identifierPrefix s₀.sessions) {inputs : NeedleInputs}
    {k : Nat} (hk : 0 < k) (h : run (reconcileNeedleWorkers needle pool inputs k) s₀ = (.ok (), s₁))
    (hcount : (pool.matching s₁.sessions).length = k) :
    s₁.sessions.Perm (slotSessions pool.adapter identifierPrefix 1 k ++ s₀.sessions) := by
  obtain ⟨commands, hcommands, hrun⟩ := reconcile_ok h
  have hnone : pool.matching s₀.sessions = [] :=
    (matching_perm hconfigured hunrelated
      (List.Perm.refl (slotSessions pool.adapter identifierPrefix 1 0 ++ s₀.sessions))).eq_nil
  unfold needleCommands at hcommands
  dsimp only at hcommands
  rw [hnone, List.length_nil, compare_gt_iff_gt.2 hk] at hcommands
  dsimp only at hcommands
  split at hcommands
  · -- the repository is excluded: nothing is launched
    cases hcommands
    cases hrun
    rw [hnone, List.length_nil] at hcount
    omega
  · rw [hconfigured, Option.isNone_some, Bool.false_and, if_neg Bool.false_ne_true] at hcommands
    cases hroutes : launches pool inputs (k - 0) with
    | error e =>
      rw [hroutes] at hcommands
      cases hcommands
    | ok routes =>
      rw [hroutes] at hcommands
      cases hcommands
      have hfree : ∀ n, 1 ≤ n → slotName pool.adapter identifierPrefix n ∉ s₀.sessions.map (·.name) := by
        intro n _ hmem
        obtain ⟨s, hs, hname⟩ := List.mem_map.1 hmem
        exact hunrelated.ne hs n hname
      rw [launchCommands_eq hconfigured routes _ 1 hfree] at hrun
      obtain ⟨s', hrun', hperm⟩ := runAll_launches pool identifierPrefix hcreates routes 1 s₀
        fun n _ t ht => hunrelated.ne ht n
      rw [hrun'] at hrun
      cases hrun
      have hlength := (matching_perm hconfigured hunrelated hperm).length_eq
      rw [hcount, slotSessions, List.length_map, List.length_range'] at hlength
      rwa [hlength]

end Up

/-! ## A scale-down -/

/-- The commands of a call are stops of this many sessions of the pool. -/
def StopsOwn (pool : NeedlePool) (count : Nat) (s s' : TmuxServer) : Prop :=
  ∃ selected : List TmuxSession, selected.Nodup ∧ selected.length = count ∧
    (∀ session ∈ selected, session ∈ pool.matching s.sessions) ∧
    s'.commands = s.commands ++ selected.map fun session => .stop session.name

section Down

variable {needle : NeedleCommand → List TmuxSession → Except String (List TmuxSession)} {pool : NeedlePool}
  {identifierPrefix : String} {all sessions : List TmuxSession} {k : Nat}

theorem mem_slotSessions {adapter : String} {s : TmuxSession} :
    s ∈ slotSessions adapter identifierPrefix 1 k ↔
      ∃ slot, (1 ≤ slot ∧ slot < 1 + k) ∧ { name := slotName adapter identifierPrefix slot, attached := false } = s := by
  unfold slotSessions
  simp only [List.mem_map, List.mem_range'_1]

/-- Below ten no slot's name contains another's. -/
theorem not_ambiguous (hunrelated : Unrelated pool.adapter identifierPrefix sessions)
    (hall : all.Perm (slotSessions pool.adapter identifierPrefix 1 k ++ sessions)) (hk : k < 10) :
    ∀ s ∈ slotSessions pool.adapter identifierPrefix 1 k, ambiguous all s = false := by
  intro s hs
  obtain ⟨m, hm, rfl⟩ := mem_slotSessions.1 hs
  unfold ambiguous
  rw [List.any_eq_false]
  intro other hother hambiguous
  simp only [Bool.and_eq_true, bne_iff_ne] at hambiguous
  obtain ⟨⟨hne, -⟩, hcontains⟩ := hambiguous
  rcases List.mem_append.1 (hall.mem_iff.1 hother) with hslot | hrest
  · obtain ⟨n, hn, rfl⟩ := mem_slotSessions.1 hslot
    have hsame := eq_of_prefix_below_ten (by omega) (by omega) (contains_slotName_iff.1 hcontains)
    rw [hsame] at hne
    exact hne rfl
  · rw [hunrelated.not_contains hrest m] at hcontains
    cases hcontains

/-- From ten on slot 1 is refused, for slot 10's name contains its name. -/
theorem ambiguous_one (hall : all.Perm (slotSessions pool.adapter identifierPrefix 1 k ++ sessions)) (hk : 10 ≤ k) :
    ambiguous all { name := slotName pool.adapter identifierPrefix 1, attached := false } = true := by
  have hten : { name := slotName pool.adapter identifierPrefix 10, attached := false : TmuxSession } ∈ all :=
    hall.mem_iff.2 (List.mem_append_left _ (mem_slotSessions.2 ⟨10, by omega, rfl⟩))
  unfold ambiguous
  refine List.any_eq_true.2 ⟨_, hten, ?_⟩
  simp only [Bool.and_eq_true, bne_iff_ne]
  refine ⟨⟨fun hname => ?_, slotName_needle 10⟩, contains_slotName_iff.2 ⟨['0'], by decide⟩⟩
  exact absurd (slotName_injective _ _ hname) (by decide)

/-- Slot 1 comes first in the order of the names. -/
theorem matching_head (hperm : (pool.matching all).Perm (slotSessions pool.adapter identifierPrefix 1 k)) (hk : 0 < k) :
    ∃ rest, pool.matching all = { name := slotName pool.adapter identifierPrefix 1, attached := false } :: rest := by
  have hone : { name := slotName pool.adapter identifierPrefix 1, attached := false : TmuxSession } ∈ pool.matching all :=
    hperm.mem_iff.2 (mem_slotSessions.2 ⟨1, by omega, rfl⟩)
  have hsorted := matching_sorted pool all
  cases hmatching : pool.matching all with
  | nil =>
    rw [hmatching] at hone
    cases hone
  | cons first rest =>
    rw [hmatching] at hone hsorted hperm
    obtain ⟨slot, hslot, rfl⟩ := mem_slotSessions.1 (hperm.mem_iff.1 List.mem_cons_self)
    refine ⟨rest, ?_⟩
    rcases List.mem_cons.1 hone with hsame | hrest
    · rw [hsame]
    · have hle : slotName pool.adapter identifierPrefix slot ≤ slotName pool.adapter identifierPrefix 1 :=
        (List.pairwise_cons.1 hsorted).1 { name := slotName pool.adapter identifierPrefix 1, attached := false } hrest
      have hge : slotName pool.adapter identifierPrefix 1 ≤ slotName pool.adapter identifierPrefix slot := by
        rw [slotName_eq, slotName_eq]
        exact name_one_le _ (by omega)
      rw [le_antisymm hle hge]

/-- A stop of each selected session, none of whose names another one contains. -/
theorem runAll_stops (hstops : StopsSelected needle) :
    ∀ (selected : List TmuxSession) (s : TmuxServer),
      (∀ t ∈ selected, t ∈ s.sessions ∧ "needle-".toList.isPrefixOf t.name.toList = true) →
      selected.Pairwise (fun t t' => contains t'.name t.name = false) →
      ∃ s', run (runAll needle (selected.map fun t => .stop t.name)) s = (.ok (), s') ∧
        s'.commands = s.commands ++ selected.map fun t => .stop t.name
  | [], s, _, _ => ⟨s, rfl, (List.append_nil _).symm⟩
  | t :: selected, s, hmem, hapart => by
    obtain ⟨hfirst, hrest⟩ := List.forall_mem_cons.1 hmem
    obtain ⟨hkept, hapart⟩ := List.pairwise_cons.1 hapart
    obtain ⟨left, hstop, hleft⟩ := hstops s.sessions t hfirst.1 hfirst.2
    have hrun : run (runNeedle needle (.stop t.name)) s =
        (.ok (), { sessions := left, commands := s.commands ++ [.stop t.name] }) := by
      unfold runNeedle
      rw [run_ofStep, hstop]
    obtain ⟨s', hrun', hcommands⟩ := runAll_stops hstops selected
      { sessions := left, commands := s.commands ++ [.stop t.name] }
      (fun u hu => ⟨hleft u (hrest u hu).1 (hkept u hu), (hrest u hu).2⟩) hapart
    refine ⟨s', ?_, ?_⟩
    · rw [List.map_cons]
      unfold runAll
      rw [run_bind_ok hrun]
      exact hrun'
    · rw [hcommands, List.map_cons, List.append_assoc, List.singleton_append]

theorem detached_matching (hperm : (pool.matching all).Perm (slotSessions pool.adapter identifierPrefix 1 k)) :
    (pool.matching all).filter (!·.attached) = pool.matching all := by
  rw [List.filter_eq_self]
  intro s hs
  obtain ⟨slot, -, rfl⟩ := mem_slotSessions.1 (hperm.mem_iff.1 hs)
  rfl

theorem slotSessions_nodup (adapter identifierPrefix : String) (next count : Nat) :
    (slotSessions adapter identifierPrefix next count).Nodup := by
  refine List.Nodup.map (fun m n hsame => ?_) List.nodup_range'
  exact slotName_injective adapter identifierPrefix (congrArg TmuxSession.name hsame)

/-- **What a scale-down of a pool of the first slots asks for.** -/
theorem needleCommands_down (hconfigured : pool.identifierPrefix = some identifierPrefix)
    (hunrelated : Unrelated pool.adapter identifierPrefix sessions)
    (hall : all.Perm (slotSessions pool.adapter identifierPrefix 1 k ++ sessions)) (inputs : NeedleInputs) {d : Nat}
    (hd : d < k) :
    (k < 10 → needleCommands pool inputs d all =
      .ok (((pool.matching all).take (k - d)).map fun session => .stop session.name)) ∧
    (10 ≤ k → ∃ e, needleCommands pool inputs d all = .error e) := by
  have hperm := matching_perm hconfigured hunrelated hall
  have hlength : (pool.matching all).length = k := by
    rw [hperm.length_eq, slotSessions, List.length_map, List.length_range']
  have hcandidates : needleCommands pool inputs d all =
      (stopCandidates (pool.matching all) all (k - d)).map (·.map fun session => .stop session.name) := by
    unfold needleCommands
    dsimp only
    rw [hlength, compare_lt_iff_lt.2 hd]
  have henough : ¬ k < k - d := by omega
  refine ⟨fun hk => ?_, fun hk => ?_⟩
  · have hclear : ((pool.matching all).take (k - d)).find? (ambiguous all) = none := by
      rw [List.find?_eq_none]
      intro s hs
      rw [not_ambiguous hunrelated hall hk s (hperm.mem_iff.1 (List.mem_of_mem_take hs))]
      exact Bool.false_ne_true
    rw [hcandidates]
    unfold stopCandidates
    dsimp only
    rw [detached_matching hperm, hlength, if_neg henough, hclear]
    rfl
  · obtain ⟨rest, hfirst⟩ := matching_head hperm (by omega)
    have hrefused : ((pool.matching all).take (k - d)).find? (ambiguous all) =
        some { name := slotName pool.adapter identifierPrefix 1, attached := false } := by
      obtain ⟨count, hcount⟩ : ∃ count, k - d = count + 1 := ⟨k - d - 1, by omega⟩
      rw [hfirst, hcount, List.take_succ_cons, List.find?_cons, ambiguous_one hall hk]
    rw [hcandidates]
    unfold stopCandidates
    dsimp only
    rw [detached_matching hperm, hlength, if_neg henough, hrefused]
    exact ⟨_, rfl⟩

theorem run_reconcile {inputs : NeedleInputs} (hcheck : inputs.check = .ok ()) (hlisting : inputs.listing = .ok ())
    {desired : Nat} {s : TmuxServer} {commands : List NeedleCommand}
    (h : needleCommands pool inputs desired s.sessions = .ok commands) :
    run (reconcileNeedleWorkers needle pool inputs desired) s = run (runAll needle commands) s := by
  have hcommands : run (ofStep fun s : TmuxServer => (needleCommands pool inputs desired s.sessions, s)) s =
      (.ok commands, s) := by
    rw [run_ofStep, h]
  unfold reconcileNeedleWorkers
  rw [hcheck, hlisting]
  change run (pure () >>= fun _ => pure () >>= fun _ => _ >>= runAll needle) s = _
  rw [run_pure_bind, run_pure_bind, run_bind_ok hcommands]

end Down

/-- **A pool that was scaled up from none can be scaled down** exactly when it has fewer than ten workers. -/
theorem scale_down_iff (needle : NeedleCommand → List TmuxSession → Except String (List TmuxSession))
    (hcreates : CreatesRequested needle) (hstops : StopsSelected needle) (pool : NeedlePool) (identifierPrefix : String)
    (hconfigured : pool.identifierPrefix = some identifierPrefix) (s₀ s₁ : TmuxServer)
    (hunrelated : Unrelated pool.adapter identifierPrefix s₀.sessions) (up down : NeedleInputs)
    (hcheck : down.check = .ok ()) (hlisting : down.listing = .ok ()) (k d : Nat) (hd : d < k)
    (hup : run (reconcileNeedleWorkers needle pool up k) s₀ = (.ok (), s₁))
    (hcount : (pool.matching s₁.sessions).length = k) :
    (∃ s₂, run (reconcileNeedleWorkers needle pool down d) s₁ = (.ok (), s₂) ∧ StopsOwn pool (k - d) s₁ s₂) ↔
      k < 10 := by
  have hall := scaled_up hcreates hconfigured hunrelated (by omega) hup hcount
  have hperm := matching_perm hconfigured hunrelated hall
  obtain ⟨hbelow, hfrom⟩ := needleCommands_down hconfigured hunrelated hall down hd
  constructor
  · rintro ⟨s₂, hrun, -⟩
    by_contra hk
    obtain ⟨e, herror⟩ := hfrom (by omega)
    obtain ⟨commands, hcommands, -⟩ := reconcile_ok hrun
    rw [herror] at hcommands
    cases hcommands
  · intro hk
    have hnodup : ((pool.matching s₁.sessions).take (k - d)).Nodup :=
      (hperm.nodup_iff.2 (slotSessions_nodup _ _ _ _)).sublist (List.take_sublist _ _)
    have hmem : ∀ t ∈ (pool.matching s₁.sessions).take (k - d), t ∈ slotSessions pool.adapter identifierPrefix 1 k :=
      fun t ht => hperm.mem_iff.1 (List.mem_of_mem_take ht)
    have hin : ∀ t ∈ (pool.matching s₁.sessions).take (k - d),
        t ∈ s₁.sessions ∧ "needle-".toList.isPrefixOf t.name.toList = true := by
      intro t ht
      refine ⟨hall.mem_iff.2 (List.mem_append_left _ (hmem t ht)), ?_⟩
      obtain ⟨slot, -, rfl⟩ := mem_slotSessions.1 (hmem t ht)
      exact slotName_needle slot
    have hapart : ((pool.matching s₁.sessions).take (k - d)).Pairwise fun t t' => contains t'.name t.name = false := by
      refine List.Pairwise.imp_of_mem (fun {t t'} ht ht' hne => ?_) hnodup
      obtain ⟨m, hm, rfl⟩ := mem_slotSessions.1 (hmem t ht)
      obtain ⟨n, hn, rfl⟩ := mem_slotSessions.1 (hmem t' ht')
      rw [Bool.eq_false_iff]
      intro hcontains
      rw [eq_of_prefix_below_ten (by omega) (by omega) (contains_slotName_iff.1 hcontains)] at hne
      exact hne rfl
    obtain ⟨s₂, hrun, hcommands⟩ := runAll_stops hstops _ s₁ hin hapart
    refine ⟨s₂, (run_reconcile hcheck hlisting (hbelow hk)).trans hrun, _, hnodup, ?_,
      fun t ht => List.mem_of_mem_take ht, hcommands⟩
    rw [List.length_take, hcount]
    omega

/-! ## Ten workers -/

/-- NEEDLE as far as a pool asks of it: a launch adds the requested session, a stop removes those it selects. -/
def plainNeedle : NeedleCommand → List TmuxSession → Except String (List TmuxSession)
  | .run _ adapter _ (some identifier), sessions =>
    .ok ({ name := sessionPrefix adapter ++ identifier, attached := false } :: sessions)
  | .run _ _ _ none, _ => .error "no identifier"
  | .stop identifier, sessions =>
    let selects (session : TmuxSession) :=
      "needle-".toList.isPrefixOf session.name.toList && contains session.name identifier
    if sessions.any selects then .ok (sessions.filter (!selects ·)) else .error s!"no session matches {identifier}"

theorem plainNeedle_creates : CreatesRequested plainNeedle :=
  fun _ _ _ _ _ => ⟨_, rfl, List.Perm.refl _⟩

theorem plainNeedle_stops : StopsSelected plainNeedle := by
  intro sessions s hs hneedle
  have hself : contains s.name s.name = true := decide_eq_true List.infix_rfl
  refine ⟨sessions.filter fun t => !("needle-".toList.isPrefixOf t.name.toList && contains t.name s.name), ?_, ?_⟩
  · unfold plainNeedle
    refine if_pos (List.any_eq_true.2 ⟨s, hs, ?_⟩)
    rw [hneedle, hself]
    rfl
  · intro t ht happart
    refine List.mem_filter.2 ⟨ht, ?_⟩
    rw [happart, Bool.and_false]
    rfl

def codexPool : NeedlePool := { repo := "/repo/project", adapter := "codex", identifierPrefix := some "sg-codex-" }

def codexServer (workers : Nat) : TmuxServer :=
  (run (reconcileNeedleWorkers plainNeedle codexPool {} workers) { sessions := [] }).2

theorem codexServer_up {workers : Nat}
    (h : (run (reconcileNeedleWorkers plainNeedle codexPool {} workers) { sessions := [] }).1 = .ok ()) :
    run (reconcileNeedleWorkers plainNeedle codexPool {} workers) { sessions := [] } = (.ok (), codexServer workers) :=
  Prod.ext h rfl

/-- Nine of ten workers are wanted, and the stop of slot 1 is refused for slot 10's name. -/
theorem scale_down_refused :
    ¬ ∀ (needle : NeedleCommand → List TmuxSession → Except String (List TmuxSession)), CreatesRequested needle →
      StopsSelected needle → ∀ (pool : NeedlePool) (identifierPrefix : String),
      pool.identifierPrefix = some identifierPrefix → ∀ s₀ s₁ : TmuxServer,
      Unrelated pool.adapter identifierPrefix s₀.sessions → ∀ up down : NeedleInputs, down.check = .ok () →
      down.listing = .ok () → ∀ k d, d < k →
      run (reconcileNeedleWorkers needle pool up k) s₀ = (.ok (), s₁) → (pool.matching s₁.sessions).length = k →
      ∃ s₂, run (reconcileNeedleWorkers needle pool down d) s₁ = (.ok (), s₂) ∧ StopsOwn pool (k - d) s₁ s₂ := by
  intro h
  have hup : (run (reconcileNeedleWorkers plainNeedle codexPool {} 10) { sessions := [] }).1 = .ok () := by
    decide +kernel
  obtain ⟨s₂, hdown, -⟩ := h plainNeedle plainNeedle_creates plainNeedle_stops codexPool "sg-codex-" rfl
    { sessions := [] } (codexServer 10) (fun _ hs => absurd hs List.not_mem_nil) {} {} rfl rfl 10 9 (by decide)
    (codexServer_up hup) (by decide +kernel)
  have herror : (run (reconcileNeedleWorkers plainNeedle codexPool {} 9) (codexServer 10)).1 = .error
      ("cannot stop NEEDLE session needle-codex-sg-codex-1 by identifier because another session contains its " ++
        "name") := by
    decide +kernel
  rw [hdown] at herror
  cases herror

theorem scale_down_iff_codex :
    (∃ s₂, run (reconcileNeedleWorkers plainNeedle codexPool {} 1) (codexServer 3) = (.ok (), s₂) ∧
      StopsOwn codexPool (3 - 1) (codexServer 3) s₂) ↔ 3 < 10 := by
  have hup : (run (reconcileNeedleWorkers plainNeedle codexPool {} 3) { sessions := [] }).1 = .ok () := by
    decide +kernel
  exact scale_down_iff plainNeedle plainNeedle_creates plainNeedle_stops codexPool "sg-codex-" rfl { sessions := [] }
    (codexServer 3) (fun _ hs => absurd hs List.not_mem_nil) {} {} rfl rfl 3 1 (by decide) (codexServer_up hup)
    (by decide +kernel)

end Subgov
