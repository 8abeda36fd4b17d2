import Mathlib.Data.List.Chain
import Mathlib.Logic.Function.Basic
import Subgov.Lib.Effect
/-!
# Directory — the files of one directory, and what a crash finds of them

A name is bound to an inode, which several names may share, or to something that is no regular file.  A `Disk` keeps
every directory there was since a computation began: a crash finds one of them.  Each call may fail, and a write may
stop halfway.  The entry lemmas say what an operation changes for a reader of the names, and `Disk.triple_call` carries a
relation between successive directories along a computation.
-/

inductive Directory.Node
  | file (inode : Nat)
  | other
  deriving DecidableEq

/-- The names of a directory, the contents of its inodes, and the inodes not used yet. -/
structure Directory (α : Type) where
  names : String → Option Directory.Node
  contents : Nat → List α
  unused : Nat
  used : ∀ name inode, names name = some (.file inode) → inode < unused

namespace Directory

variable {α : Type}

/-- What a reader of a name finds. -/
inductive Entry (α : Type)
  | file (content : List α)
  | other
  deriving DecidableEq

variable (d : Directory α)

def entry (name : String) : Option (Entry α) :=
  (d.names name).map fun
    | .file inode => .file (d.contents inode)
    | .other => .other

def empty : Directory α := { names := fun _ => none, contents := fun _ => [], unused := 0, used := fun _ _ h => nomatch h }

/-- A directory with one more file. -/
def add (name : String) (content : List α) : Directory α where
  names := Function.update d.names name (some (.file d.unused))
  contents := Function.update d.contents d.unused content
  unused := d.unused + 1
  used other inode h := by
    by_cases hother : other = name
    · rw [hother, Function.update_self] at h
      cases h
      exact Nat.lt_succ_self _
    · rw [Function.update_of_ne hother] at h
      exact Nat.lt_succ_of_lt (d.used other inode h)

def write (inode : Nat) (content : List α) : Directory α :=
  { d with contents := Function.update d.contents inode content }

def bind (name : String) (node : Option Node) (h : ∀ inode, node = some (.file inode) → inode < d.unused) :
    Directory α where
  names := Function.update d.names name node
  contents := d.contents
  unused := d.unused
  used other inode h' := by
    by_cases hother : other = name
    · rw [hother, Function.update_self] at h'
      exact h inode h'
    · rw [Function.update_of_ne hother] at h'
      exact d.used other inode h'

def unlink (name : String) : Directory α := d.bind name none (fun _ h => nomatch h)

def link (old new : String) : Directory α := d.bind new (d.names old) (fun inode h => d.used old inode h)

/-- Two names of one file stay both. -/
def rename (old new : String) : Directory α :=
  if d.names old = d.names new then d else (d.link old new).unlink old

/-! ## What a reader sees of an operation -/

variable {d}

@[simp] theorem entry_eq_none {name : String} : d.entry name = none ↔ d.names name = none := Option.map_eq_none_iff

theorem entry_bind {name : String} {node : Option Node} {h : ∀ inode, node = some (.file inode) → inode < d.unused}
    (other : String) : (d.bind name node h).entry other =
      if other = name then node.map fun
        | .file inode => .file (d.contents inode)
        | .other => .other
      else d.entry other := by
  unfold bind entry
  by_cases hother : other = name
  · simp [hother]
  · simp [hother]

@[simp] theorem entry_unlink (name other : String) :
    (d.unlink name).entry other = if other = name then none else d.entry other :=
  entry_bind other

@[simp] theorem entry_link (old new other : String) :
    (d.link old new).entry other = if other = new then d.entry old else d.entry other :=
  entry_bind other

theorem entry_rename_new (old new : String) (h : old ≠ new) : (d.rename old new).entry new = d.entry old := by
  unfold rename
  split
  · rename_i hsame
    unfold entry
    rw [hsame]
  · simp [Ne.symm h]

theorem entry_rename_other {old new other : String} (hold : other ≠ old) (hnew : other ≠ new) :
    (d.rename old new).entry other = d.entry other := by
  unfold rename
  split
  · rfl
  · simp [hold, hnew]

/-- A name that alone is bound to an inode. -/
def Sole (d : Directory α) (name : String) (inode : Nat) : Prop :=
  ∀ other, d.names other = some (.file inode) ↔ other = name

/-- **The inode of a new file is no other name's.** -/
theorem sole_add (name : String) (content : List α) : (d.add name content).Sole name d.unused := by
  intro other
  unfold add
  by_cases hother : other = name
  · simp [hother]
  · simp only [Function.update_of_ne hother, hother, iff_false]
    exact fun h => Nat.lt_irrefl _ (d.used other _ h)

theorem entry_add (name : String) (content : List α) (other : String) :
    (d.add name content).entry other = if other = name then some (.file content) else d.entry other := by
  unfold add entry
  by_cases hother : other = name
  · simp [hother]
  · rw [if_neg hother]
    simp only [Function.update_of_ne hother]
    cases hnode : d.names other with
    | none => rfl
    | some node =>
      cases node with
      | other => rfl
      | file inode =>
        have hold : inode ≠ d.unused := Nat.ne_of_lt (d.used other inode hnode)
        simp [Function.update_of_ne hold]

theorem Sole.write {name : String} {inode : Nat} (h : d.Sole name inode) (content : List α) :
    (d.write inode content).Sole name inode := h

/-- **A write to a file of one name is seen under that name only.** -/
theorem Sole.entry_write {name : String} {inode : Nat} (h : d.Sole name inode) (content : List α) (other : String) :
    (d.write inode content).entry other = if other = name then some (.file content) else d.entry other := by
  unfold Directory.write entry
  by_cases hother : other = name
  · rw [if_pos hother]
    simp [(h other).2 hother]
  · rw [if_neg hother]
    cases hnode : d.names other with
    | none => simp
    | some node =>
      cases node with
      | other => simp
      | file inode' =>
        have hdiffers : inode' ≠ inode := by
          rintro rfl
          exact hother ((h other).1 hnode)
        simp [Function.update_of_ne hdiffers]

end Directory

/-! ## Calls that may fail -/

/-- What becomes of one call: its error, and the contents a write has left before it ends. -/
structure Fate (α : Type) where
  error : Option String := none
  torn : List (List α) := []

/-- A directory with those before it, and the fates of the calls to come. -/
structure Disk (α : Type) where
  dir : Directory α
  past : List (Directory α) := []
  fates : List (Fate α) := []

namespace Disk

open Effect

variable {α β γ : Type}

def fate (disk : Disk α) : Fate α := disk.fates.head?.getD {}

def spend (disk : Disk α) : Disk α := { disk with fates := disk.fates.tail }

def become (disk : Disk α) (d : Directory α) : Disk α := { disk with dir := d, past := disk.past ++ [disk.dir] }

/-- The directories that a crash may find, in order. -/
def points (disk : Disk α) : List (Directory α) := disk.past ++ [disk.dir]

def call (f : Directory α → Except String (β × Directory α)) : Effect (Disk α) String β :=
  ofStep fun disk =>
    match disk.fate.error with
    | some e => (.error e, disk.spend)
    | none => match f disk.dir with
      | .error e => (.error e, disk.spend)
      | .ok (b, d) => (.ok b, disk.spend.become d)

def writeAll (inode : Nat) (content : List α) : Effect (Disk α) String Unit :=
  ofStep fun disk =>
    let torn := disk.fate.torn.foldl (fun disk part => disk.become (disk.dir.write inode part)) disk.spend
    match disk.fate.error with
    | some e => (.error e, torn)
    | none => (.ok (), torn.become (torn.dir.write inode content))

/-- A call that changes no entry: it flushes, restricts permissions or makes a directory above. -/
def touch : Effect (Disk α) String Unit := call fun d => .ok ((), d)

def read (name : String) : Effect (Disk α) String (Option (List α)) :=
  call fun d => match d.entry name with
    | none => .ok (none, d)
    | some (.file content) => .ok (some content, d)
    | some .other => .error "not a regular file"

/-- Whether the name is there, and is a regular file. -/
def symlinkMetadata (name : String) : Effect (Disk α) String (Option Bool) :=
  call fun d => .ok ((d.entry name).map fun
    | .file _ => true
    | .other => false, d)

def createNew (name : String) : Effect (Disk α) String Nat :=
  call fun d => match d.names name with
    | none => .ok (d.unused, d.add name [])
    | some _ => .error "already exists"

/-- `false` when the new name is there already. -/
def hardLink (old new : String) : Effect (Disk α) String Bool :=
  call fun d => match d.names old, d.names new with
    | some (.file _), none => .ok (true, d.link old new)
    | some (.file _), some _ => .ok (false, d)
    | _, _ => .error "not a regular file"

def rename (old new : String) : Effect (Disk α) String Unit :=
  call fun d => match d.names old, d.names new with
    | some (.file _), some .other => .error "not a regular file"
    | some (.file _), _ => .ok ((), d.rename old new)
    | _, _ => .error "not a regular file"

def removeFile (name : String) : Effect (Disk α) String Unit :=
  call fun d => match d.names name with
    | some (.file _) => .ok ((), d.unlink name)
    | _ => .error "not a regular file"

/-! ## Rules -/

variable {start : Directory α} {R : Directory α → Directory α → Prop}

/-- Every directory since the start has led to the next one by `R`. -/
structure Chained (start : Directory α) (R : Directory α → Directory α → Prop) (disk : Disk α) : Prop where
  steps : disk.points.IsChain R
  head : disk.points.head? = some start

/-- `P` holds of the directory now, and `R` has led to it. -/
def At (start : Directory α) (R : Directory α → Directory α → Prop) (P : Directory α → Prop) (disk : Disk α) : Prop :=
  P disk.dir ∧ disk.Chained start R

variable {P : Directory α → Prop} {Q : β → Directory α → Prop} {E : Directory α → Prop}

theorem at_start {fates : List (Fate α)} (h : P start) : At start R P { dir := start, fates } :=
  ⟨h, List.isChain_singleton _, rfl⟩

theorem Chained.spend {disk : Disk α} (h : disk.Chained start R) : disk.spend.Chained start R := ⟨h.steps, h.head⟩

theorem Chained.become {disk : Disk α} (h : disk.Chained start R) {d : Directory α} (hstep : R disk.dir d) :
    (disk.become d).Chained start R where
  steps := by
    unfold points Disk.become
    rw [List.append_assoc]
    exact List.isChain_append_cons_cons.2 ⟨h.steps, hstep, List.isChain_singleton _⟩
  head := by
    unfold points Disk.become
    rw [List.head?_append, show (disk.past ++ [disk.dir]).head? = some start from h.head, Option.some_or]

/-- What the start has and the steps carry on, a crash finds everywhere. -/
theorem Chained.forall_points {disk : Disk α} (h : disk.Chained start R) (hstart : P start)
    (hstep : ∀ d₁ d₂, R d₁ d₂ → P d₁ → P d₂) : ∀ d ∈ disk.points, P d := by
  refine h.steps.induction P _ hstep fun hne => ?_
  have hhead := h.head
  rw [List.head?_eq_some_head hne, Option.some.injEq] at hhead
  rw [hhead]
  exact hstart

theorem Chained.pair {disk : Disk α} (h : disk.Chained start R) {before after : List (Directory α)}
    {d₁ d₂ : Directory α} (hsplit : disk.points = before ++ d₁ :: d₂ :: after) : R d₁ d₂ := by
  have hsteps := h.steps
  rw [hsplit] at hsteps
  exact (List.isChain_append_cons_cons.1 hsteps).2.1

theorem triple_call {f : Directory α → Except String (β × Directory α)} (hE : ∀ d, P d → E d)
    (hf : ∀ d b d', P d → f d = .ok (b, d') → R d d' ∧ Q b d') :
    Triple (At start R P) (call f) (fun b => At start R (Q b)) (At start R E) := by
  intro disk ⟨hP, hchained⟩
  unfold call
  rw [run_ofStep]
  cases disk.fate.error with
  | some e =>
    refine ⟨fun b s' hrun => ?_, fun e' s' hrun => ?_⟩
    · cases hrun
    · cases hrun
      exact ⟨hE _ hP, hchained.spend⟩
  | none =>
    cases hcall : f disk.dir with
    | error e =>
      refine ⟨fun b s' hrun => ?_, fun e' s' hrun => ?_⟩
      · cases hrun
      · cases hrun
        exact ⟨hE _ hP, hchained.spend⟩
    | ok result =>
      obtain ⟨b, d⟩ := result
      obtain ⟨hstep, hQ⟩ := hf disk.dir b d hP hcall
      refine ⟨fun b s' hrun => ?_, fun e' s' hrun => ?_⟩
      · cases hrun
        exact ⟨hQ, hchained.spend.become hstep⟩
      · cases hrun

/-- **A write keeps what every content of the file keeps**, wherever it stops. -/
theorem triple_writeAll {inode : Nat} {content : List α} {Q : Directory α → Prop}
    (hR : ∀ d, P d → ∀ part, R d (d.write inode part)) (hP : ∀ d, P d → ∀ part, P (d.write inode part))
    (hQ : ∀ d, P d → Q (d.write inode content)) :
    Triple (At start R P) (writeAll inode content) (fun _ => At start R Q) (At start R P) := by
  intro disk ⟨hdir, hchained⟩
  have htorn : ∀ (parts : List (List α)) (disk : Disk α), At start R P disk →
      At start R P (parts.foldl (fun disk part => disk.become (disk.dir.write inode part)) disk) := by
    intro parts
    induction parts with
    | nil => exact fun _ h => h
    | cons part parts ih =>
      intro disk h
      exact ih _ ⟨hP _ h.1 part, Chained.become h.2 (hR _ h.1 part)⟩
  have hend := htorn disk.fate.torn disk.spend ⟨hdir, hchained.spend⟩
  unfold writeAll
  rw [run_ofStep]
  cases disk.fate.error with
  | some e =>
    refine ⟨fun b s' hrun => ?_, fun e' s' hrun => ?_⟩
    · cases hrun
    · cases hrun
      exact hend
  | none =>
    refine ⟨fun b s' hrun => ?_, fun e' s' hrun => ?_⟩
    · cases hrun
      exact ⟨hQ _ hend.1, Chained.become hend.2 (hR _ hend.1 content)⟩
    · cases hrun

end Disk
