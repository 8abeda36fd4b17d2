import Subgov.Lib.Directory
import Subgov.State
/-!
# StateFile — loading and saving the state across crashes

`save` writes a temporary file, keeps the exact bytes of an older file as a rollback snapshot, and renames the temporary
one into place.  The snapshot is published by a hard link of a temporary file of its own.  `CrashConsistent` says what a
load finds after a crash anywhere in between, and what becomes of the snapshot over any number of attempts.
-/
namespace Subgov

open FloatArith Effect

variable {F : Type}

def stateSchemaVersion : Nat := 8

/-- The state with the version its file declares. -/
structure StoredState (F : Type) extends State F where
  schemaVersion : Nat := stateSchemaVersion

/-! ## What a load makes of a file -/

section Normalise

variable [Flt F]

def WindowHistory.recoverMark (h : WindowHistory F) : WindowHistory F :=
  { h with maxUsedFraction := h.samples.foldl (fun mark sample => Flt.max mark sample.usedFraction) h.maxUsedFraction }

def AccountState.normalise (a : AccountState F) : AccountState F :=
  { a with
    history := a.history.map (fun _ h => h.recoverMark)
    aggregateBurnHistory := a.aggregateBurnHistory.map (fun _ samples => keepLast maxAggregateBurnSamples samples) }

def HostState.normalise (h : HostState F) : HostState F :=
  { h with placementHistory := keepLast maxPlacementHistorySamples h.placementHistory }

/-- An older schema becomes the current one, the high-water marks are recovered and the queues trimmed. -/
def StoredState.normalise (s : StoredState F) : StoredState F where
  accounts := s.accounts.map (fun _ a => a.normalise)
  hostStates := s.hostStates.map (fun _ hosts => hosts.map (fun _ h => h.normalise))
  schemaVersion := max s.schemaVersion stateSchemaVersion

end Normalise

/-! ## The file -/

/-- The reading and writing of state files, with what holds of it for every state: a final newline is not read, and a
written file declares the version of its state. -/
structure StateCodec (F : Type) where
  toVecPretty : StoredState F → Except String Bytes
  fromSlice : Bytes → Except String (StoredState F)
  storedSchemaVersion : Bytes → Except String (Option Nat)
  fromSlice_newline : ∀ payload s, fromSlice payload = .ok s → fromSlice (payload ++ [newline]) = .ok s
  version_newline : ∀ s payload, toVecPretty s = .ok payload →
    storedSchemaVersion (payload ++ [newline]) = .ok (some s.schemaVersion)

/-- A state file by its directory and its name in it. -/
structure StatePath where
  parent : String
  file : String

namespace StatePath

variable (path : StatePath)

def named (name : String) : String := path.parent ++ "/" ++ name

def display : String := path.named path.file

def preMigrationPath : String := path.file ++ ".pre-v" ++ toString stateSchemaVersion

end StatePath

def temporaryPath (file : String) (pid : Nat) : String := "." ++ file ++ "." ++ toString pid ++ ".tmp"

structure Quarantined where
  quarantinedPath : String
  error : String

/-- A failed call under the message of its caller. -/
def context {α β : Type} (message : String) (m : Effect (Disk α) String β) : Effect (Disk α) String β :=
  mapError (fun _ => message) m

variable (codec : StateCodec F) (path : StatePath) (pid : Nat)

/-! ## Loading -/

def State.load [Flt F] (quarantine : String) : Effect (Disk UInt8) String (StoredState F × Option Quarantined) := do
  match ← context s!"failed to read state {path.display}" (Disk.read path.file) with
  | none => pure ({}, none)
  | some bytes =>
    match codec.fromSlice bytes with
    | .error parseError =>
      context s!"failed to quarantine malformed state {path.display} to {path.named quarantine}"
        (Disk.rename path.file quarantine)
      pure ({}, some { quarantinedPath := path.named quarantine, error := parseError })
    | .ok state =>
      if stateSchemaVersion < state.schemaVersion then
        throw (s!"state {path.display} has schema version {state.schemaVersion}, newer than the {stateSchemaVersion} " ++
          "this binary supports; refusing to load and risk misreading it")
      else pure (state.normalise, none)

/-! ## Saving -/

/-- A rollback file that is there must be one that an older binary can read. -/
def checkRollback (regular : Bool) : Effect (Disk UInt8) String Unit := do
  let snapshot := path.named path.preMigrationPath
  if !regular then throw s!"rollback state {snapshot} is not a regular file"
  else
    let rollbackBytes ← context s!"failed to read rollback state {snapshot}" (Disk.read path.preMigrationPath)
    let rollbackBytes ← lift (fun _ => s!"failed to read rollback state {snapshot}")
      (rollbackBytes.elim (.error "not found") .ok)
    let header ← lift (fun _ => s!"invalid rollback state {snapshot}") (codec.storedSchemaVersion rollbackBytes)
    if stateSchemaVersion ≤ header.getD 0 then
      throw s!"rollback state {snapshot} is not an older schema; refusing to replace state {path.display}"
    else
      let _ ← lift (fun _ => s!"invalid rollback state {snapshot}") (codec.fromSlice rollbackBytes)
      pure ()

/-- What follows the creation of the snapshot's temporary file. -/
def linkRollback (inode : Nat) (oldBytes : Bytes) : Effect (Disk UInt8) String Unit := do
  Disk.touch
  Disk.writeAll inode oldBytes
  Disk.touch
  -- A snapshot that appeared in between is left alone.
  if ← context s!"failed to install {path.named path.preMigrationPath}"
      (Disk.hardLink (temporaryPath path.preMigrationPath pid) path.preMigrationPath)
  then Disk.touch
  else pure ()

def publishRollback (oldBytes : Bytes) : Effect (Disk UInt8) String Unit := do
  let temporary := temporaryPath path.preMigrationPath pid
  let inode ← context s!"failed to create {path.named temporary}" (Disk.createNew temporary)
  let result ← attempt (linkRollback path pid inode oldBytes)
  let _ ← attempt (Disk.removeFile temporary)
  lift id result

def preservePreMigrationState : Effect (Disk UInt8) String Unit := do
  match ← context s!"failed to read state {path.display}" (Disk.read path.file) with
  | none => pure ()
  | some oldBytes =>
    let header ← lift (fun _ => s!"invalid existing state {path.display}") (codec.storedSchemaVersion oldBytes)
    let version := header.getD 0
    if stateSchemaVersion < version then
      throw (s!"state {path.display} has schema version {version}, newer than the {stateSchemaVersion} this binary " ++
        "supports; refusing to overwrite it")
    else if version = stateSchemaVersion then pure ()
    else
      let _ ← lift (fun _ => s!"invalid existing state {path.display}") (codec.fromSlice oldBytes)
      match ← context s!"failed to inspect rollback state {path.named path.preMigrationPath}"
          (Disk.symlinkMetadata path.preMigrationPath) with
      | some regular => checkRollback codec path regular
      | none => publishRollback path pid oldBytes

/-- From the temporary file to the synced directory. -/
def installState (payload : Bytes) : Effect (Disk UInt8) String Unit := do
  let temporary := temporaryPath path.file pid
  let inode ← context s!"failed to create {path.named temporary}" (Disk.createNew temporary)
  context s!"failed to restrict permissions on {path.named temporary}" Disk.touch
  Disk.writeAll inode payload
  Disk.touch
  preservePreMigrationState codec path pid
  context s!"failed to install state {path.display}" (Disk.rename temporary path.file)
  context s!"failed to fsync directory {path.parent}" Disk.touch

def StoredState.save (s : StoredState F) : Effect (Disk UInt8) String Unit := do
  if s.schemaVersion ≠ stateSchemaVersion then
    throw (s!"refusing to save state with schema version {s.schemaVersion}; this binary writes version " ++
      s!"{stateSchemaVersion}")
  else
    context s!"failed to create state directory {path.parent}" Disk.touch
    let payload ← lift (fun _ => "failed to serialize state") (codec.toVecPretty s)
    let _ ← lift (fun _ => s!"serialized state for {path.display} does not round-trip; refusing to persist it over the " ++
      "last valid state") (codec.fromSlice payload)
    match ← attempt (installState codec path pid (payload ++ [newline])) with
    | .ok () => pure ()
    | .error e =>
      let _ ← attempt (Disk.removeFile (temporaryPath path.file pid))
      throw e

/-! ## The names -/

section Names

theorem length_temporaryPath (file : String) : file.length < (temporaryPath file pid).length := by
  unfold temporaryPath
  simp only [String.length_append]
  have hdot : ".".length = 1 := rfl
  omega

theorem temporaryPath_ne (file : String) : temporaryPath file pid ≠ file := fun h =>
  absurd (congrArg String.length h) (Nat.ne_of_gt (length_temporaryPath pid file))

theorem length_preMigrationPath : path.preMigrationPath.length = path.file.length + 7 := by
  unfold StatePath.preMigrationPath
  rw [String.length_append, String.length_append, Nat.add_assoc]
  rfl

theorem preMigrationPath_ne : path.preMigrationPath ≠ path.file := by
  intro h
  have hlength := length_preMigrationPath path
  rw [h] at hlength
  omega

/-- A temporary file ends otherwise than a rollback snapshot. -/
theorem temporaryPath_ne_preMigrationPath (file : String) : temporaryPath file pid ≠ path.preMigrationPath := by
  intro h
  have hlast := congrArg (fun name : String => name.toList.getLast?) h
  have htemporary : ".tmp".toList.getLast? = some 'p' := rfl
  have hsnapshot : (toString stateSchemaVersion).toList.getLast? = some '8' := rfl
  unfold temporaryPath StatePath.preMigrationPath at hlast
  simp only [String.toList_append, List.getLast?_append, htemporary, hsnapshot, Option.some_or] at hlast
  exact absurd hlast (by decide)

theorem temporaryPath_preMigrationPath_ne : temporaryPath path.preMigrationPath pid ≠ temporaryPath path.file pid := by
  intro h
  have hlength := congrArg String.length h
  unfold temporaryPath at hlength
  simp only [String.length_append, length_preMigrationPath] at hlength
  omega

theorem temporaryPath_preMigrationPath_ne_file : temporaryPath path.preMigrationPath pid ≠ path.file := by
  intro h
  have hlength := length_temporaryPath pid path.preMigrationPath
  rw [h, length_preMigrationPath] at hlength
  omega

end Names

/-! ## One save -/

/-- A file that an older binary wrote: its version is lower, or it has none. -/
def Older (bytes : Bytes) : Prop :=
  ∃ version, codec.storedSchemaVersion bytes = .ok version ∧ version.getD 0 < stateSchemaVersion

/-- The bytes that a save installs. -/
def Payload (state : StoredState F) (payload : Bytes) : Prop :=
  state.schemaVersion = stateSchemaVersion ∧
    ∃ bytes, codec.toVecPretty state = .ok bytes ∧ payload = bytes ++ [newline]

/-- The snapshot holds the older file that the save found, unless it held another one before. -/
def Guarded (d d' : Directory UInt8) : Prop :=
  ∀ bytes, d.entry path.file = some (.file bytes) → Older codec bytes →
    d.entry path.preMigrationPath = none ∨ d.entry path.preMigrationPath = some (.file bytes) →
    d'.entry path.preMigrationPath = some (.file bytes)

/-- **What a step of a save does**, for a save that begins at `d`. -/
structure SaveStep (state : StoredState F) (d d₁ d₂ : Directory UInt8) : Prop where
  replaced : d₂.entry path.file = d₁.entry path.file ∨
    ∃ payload, Payload codec state payload ∧ d₂.entry path.file = some (.file payload)
  kept : ∀ e, d₁.entry path.preMigrationPath = some e → d₂.entry path.preMigrationPath = some e
  published : d₁.entry path.preMigrationPath = none → d₂.entry path.preMigrationPath = none ∨
    ∃ bytes, d₁.entry path.file = some (.file bytes) ∧ d₂.entry path.preMigrationPath = some (.file bytes)
  guarded : d₂.entry path.file ≠ d₁.entry path.file → Guarded codec path d d₁

variable {codec path pid} {state : StoredState F} {payload : Bytes} {d : Directory UInt8}

theorem SaveStep.quiet {d₁ d₂ : Directory UInt8} (hfile : d₂.entry path.file = d₁.entry path.file)
    (hsnapshot : d₂.entry path.preMigrationPath = d₁.entry path.preMigrationPath) :
    SaveStep codec path state d d₁ d₂ where
  replaced := Or.inl hfile
  kept _ h := hsnapshot.trans h
  published h := Or.inl (hsnapshot.trans h)
  guarded h := absurd hfile h

theorem SaveStep.refl (d' : Directory UInt8) : SaveStep codec path state d d' d' := SaveStep.quiet rfl rfl

/-- The save has only prepared its temporary file. -/
structure Prepared (path : StatePath) (pid : Nat) (payload : Bytes) (d d' : Directory UInt8) : Prop where
  file : d'.entry path.file = d.entry path.file
  snapshot : d'.entry path.preMigrationPath = d.entry path.preMigrationPath
  temporary : d'.entry (temporaryPath path.file pid) = some (.file payload)

/-- Nothing but the rename is left to do. -/
structure Ready (codec : StateCodec F) (path : StatePath) (pid : Nat) (payload : Bytes) (d d' : Directory UInt8) :
    Prop where
  file : d'.entry path.file = d.entry path.file
  guarded : Guarded codec path d d'
  temporary : d'.entry (temporaryPath path.file pid) = some (.file payload)

/-- The save has found an older file and no snapshot of it. -/
structure Migrating (path : StatePath) (pid : Nat) (payload oldBytes : Bytes) (d d' : Directory UInt8) : Prop
    extends Prepared path pid payload d d' where
  old : d'.entry path.file = some (.file oldBytes)
  absent : d'.entry path.preMigrationPath = none

/-- The snapshot holds the older file, and its own temporary file may still be there. -/
structure Published (path : StatePath) (pid : Nat) (payload oldBytes : Bytes) (d d' : Directory UInt8) : Prop where
  file : d'.entry path.file = d.entry path.file
  old : d.entry path.file = some (.file oldBytes)
  snapshot : d'.entry path.preMigrationPath = some (.file oldBytes)
  temporary : d'.entry (temporaryPath path.file pid) = some (.file payload)

section Triples

variable {P : Directory UInt8 → Prop}

theorem triple_touch : Triple (Disk.At d (SaveStep codec path state d) P) Disk.touch
    (fun _ => Disk.At d (SaveStep codec path state d) P) (Disk.At d (SaveStep codec path state d) fun _ => True) := by
  refine Disk.triple_call (fun _ _ => trivial) fun d₁ b d₂ hP hcall => ?_
  cases hcall
  exact ⟨SaveStep.refl d₁, hP⟩

/-- `P` held before the name was there, and nothing else has changed since. -/
def Beside (name : String) (P : Directory UInt8 → Prop) (d' : Directory UInt8) : Prop :=
  ∃ d₁, P d₁ ∧ ∀ other, other ≠ name → d'.entry other = d₁.entry other

/-- **A file of its own is made and written without a trace elsewhere.** -/
theorem triple_createNew {name : String} (hfile : name ≠ path.file) (hsnapshot : name ≠ path.preMigrationPath) :
    Triple (Disk.At d (SaveStep codec path state d) P) (Disk.createNew name)
      (fun inode => Disk.At d (SaveStep codec path state d) fun d' => d'.Sole name inode ∧ Beside name P d')
      (Disk.At d (SaveStep codec path state d) fun _ => True) := by
  refine Disk.triple_call (fun _ _ => trivial) fun d₁ inode d₂ hP hcall => ?_
  cases hname : d₁.names name with
  | some node =>
    rw [hname] at hcall
    cases hcall
  | none =>
    rw [hname] at hcall
    cases hcall
    have hother : ∀ other, other ≠ name → (d₁.add name []).entry other = d₁.entry other := by
      intro other hne
      rw [Directory.entry_add, if_neg hne]
    exact ⟨SaveStep.quiet (hother _ hfile.symm) (hother _ hsnapshot.symm), Directory.sole_add name [], d₁, hP, hother⟩

theorem triple_writeNew {name : String} {inode : Nat} (content : Bytes) (hfile : name ≠ path.file)
    (hsnapshot : name ≠ path.preMigrationPath) :
    Triple (Disk.At d (SaveStep codec path state d) fun d' => d'.Sole name inode ∧ Beside name P d')
      (Disk.writeAll inode content)
      (fun _ => Disk.At d (SaveStep codec path state d) fun d' =>
        d'.entry name = some (.file content) ∧ Beside name P d')
      (Disk.At d (SaveStep codec path state d) fun _ => True) := by
  have hother : ∀ {d' : Directory UInt8}, d'.Sole name inode → ∀ part other, other ≠ name →
      (d'.write inode part).entry other = d'.entry other := by
    intro d' hsole part other hne
    rw [hsole.entry_write, if_neg hne]
  have hbeside : ∀ {d' : Directory UInt8}, d'.Sole name inode → Beside name P d' → ∀ part,
      Beside name P (d'.write inode part) := by
    rintro d' hsole ⟨d₁, hP, hsame⟩ part
    exact ⟨d₁, hP, fun other hne => (hother hsole part other hne).trans (hsame other hne)⟩
  refine Triple.weaken (Disk.triple_writeAll ?_ ?_ ?_) (fun _ h => h) (fun _ _ h => h) fun _ h => ⟨trivial, h.2⟩
  · exact fun d' h part => SaveStep.quiet (hother h.1 part _ hfile.symm) (hother h.1 part _ hsnapshot.symm)
  · exact fun d' h part => ⟨h.1.write part, hbeside h.1 h.2 part⟩
  · exact fun d' h => ⟨by rw [h.1.entry_write, if_pos rfl], hbeside h.1 h.2 content⟩

/-- A name of its own goes without a trace elsewhere, also when it cannot be removed. -/
theorem triple_removeFile {name : String} (hfile : name ≠ path.file) (hsnapshot : name ≠ path.preMigrationPath)
    (hP : ∀ d₁ d₂ : Directory UInt8, (∀ other, other ≠ name → d₂.entry other = d₁.entry other) → P d₁ → P d₂) :
    Triple (Disk.At d (SaveStep codec path state d) P) (attempt (Disk.removeFile name))
      (fun _ => Disk.At d (SaveStep codec path state d) P) (fun _ => False) := by
  have htriple : Triple (Disk.At d (SaveStep codec path state d) P) (Disk.removeFile name)
      (fun _ => Disk.At d (SaveStep codec path state d) P) (Disk.At d (SaveStep codec path state d) P) := by
    refine Disk.triple_call (fun _ h => h) fun d₁ b d₂ hd₁ hcall => ?_
    cases hname : d₁.names name with
    | none =>
      rw [hname] at hcall
      cases hcall
    | some node =>
      rw [hname] at hcall
      cases node with
      | other => cases hcall
      | file inode =>
        cases hcall
        have hother : ∀ other, other ≠ name → (d₁.unlink name).entry other = d₁.entry other := by
          intro other hne
          rw [Directory.entry_unlink, if_neg hne]
        exact ⟨SaveStep.quiet (hother _ hfile.symm) (hother _ hsnapshot.symm), hP d₁ _ hother hd₁⟩
  refine htriple.attempt.weaken (fun _ h => h) (fun result s h => ?_) (fun _ h => h)
  cases result with
  | ok a => exact h
  | error e => exact h

/-- **The hard link publishes the snapshot whole.** -/
theorem triple_hardLink {oldBytes : Bytes} :
    Triple (Disk.At d (SaveStep codec path state d) fun d' =>
        d'.entry (temporaryPath path.preMigrationPath pid) = some (.file oldBytes) ∧
          Beside (temporaryPath path.preMigrationPath pid) (Migrating path pid payload oldBytes d) d')
      (Disk.hardLink (temporaryPath path.preMigrationPath pid) path.preMigrationPath)
      (fun linked => Disk.At d (SaveStep codec path state d) fun d' =>
        linked = true ∧ Published path pid payload oldBytes d d')
      (Disk.At d (SaveStep codec path state d) fun _ => True) := by
  have hfile : temporaryPath path.preMigrationPath pid ≠ path.file := temporaryPath_preMigrationPath_ne_file path pid
  have hsnapshot : temporaryPath path.preMigrationPath pid ≠ path.preMigrationPath := temporaryPath_ne pid _
  refine Disk.triple_call (fun _ _ => trivial) ?_
  rintro d₁ linked d₂ ⟨hwritten, d₀, hmigrating, hsame⟩ hcall
  have habsent : d₁.entry path.preMigrationPath = none := (hsame _ hsnapshot.symm).trans hmigrating.absent
  have hold : d₁.entry path.file = some (.file oldBytes) := (hsame _ hfile.symm).trans hmigrating.old
  cases hname : d₁.names (temporaryPath path.preMigrationPath pid) with
  | none =>
    rw [hname] at hcall
    cases hcall
  | some node =>
    rw [hname, Directory.entry_eq_none.1 habsent] at hcall
    cases node with
    | other => cases hcall
    | file inode =>
      cases hcall
      have hother : ∀ other, other ≠ path.preMigrationPath →
          (d₁.link (temporaryPath path.preMigrationPath pid) path.preMigrationPath).entry other = d₁.entry other := by
        intro other hne
        rw [Directory.entry_link, if_neg hne]
      have hpublished : (d₁.link (temporaryPath path.preMigrationPath pid) path.preMigrationPath).entry
          path.preMigrationPath = some (.file oldBytes) := by
        rw [Directory.entry_link, if_pos rfl, hwritten]
      have hkept := hother _ (preMigrationPath_ne path).symm
      refine ⟨⟨Or.inl hkept, fun e he => ?_, fun _ => Or.inr ⟨oldBytes, hold, hpublished⟩, fun h => absurd hkept h⟩,
        rfl, ?_, hmigrating.file.symm.trans hmigrating.old, hpublished, ?_⟩
      · rw [habsent] at he
        cases he
      · rw [hkept, hsame _ hfile.symm, hmigrating.file]
      · rw [hother _ (temporaryPath_ne_preMigrationPath path pid _),
          hsame _ (temporaryPath_preMigrationPath_ne path pid).symm, hmigrating.temporary]

theorem triple_linkRollback {oldBytes : Bytes} {inode : Nat} :
    Triple (Disk.At d (SaveStep codec path state d) fun d' =>
        d'.Sole (temporaryPath path.preMigrationPath pid) inode ∧
          Beside (temporaryPath path.preMigrationPath pid) (Migrating path pid payload oldBytes d) d')
      (linkRollback path pid inode oldBytes)
      (fun _ => Disk.At d (SaveStep codec path state d) (Published path pid payload oldBytes d))
      (Disk.At d (SaveStep codec path state d) fun _ => True) := by
  have hfile : temporaryPath path.preMigrationPath pid ≠ path.file := temporaryPath_preMigrationPath_ne_file path pid
  have hsnapshot : temporaryPath path.preMigrationPath pid ≠ path.preMigrationPath := temporaryPath_ne pid _
  unfold linkRollback
  refine triple_touch.bind fun _ => (triple_writeNew oldBytes hfile hsnapshot).bind fun _ =>
    triple_touch.bind fun _ => (Triple.mapError _ triple_hardLink).bind fun linked => ?_
  cases linked with
  | false => exact Triple.pure fun s h => nomatch h.1.1
  | true => exact triple_touch.weaken (fun s h => ⟨h.1.2, h.2⟩) (fun _ _ h => h) fun _ h => h

/-- **A missing snapshot of an older file is published**, or the save fails. -/
theorem triple_publishRollback (payload : Bytes) {oldBytes : Bytes} :
    Triple (Disk.At d (SaveStep codec path state d) (Migrating path pid payload oldBytes d))
      (publishRollback path pid oldBytes)
      (fun _ => Disk.At d (SaveStep codec path state d) (Published path pid payload oldBytes d))
      (Disk.At d (SaveStep codec path state d) fun _ => True) := by
  have hfile : temporaryPath path.preMigrationPath pid ≠ path.file := temporaryPath_preMigrationPath_ne_file path pid
  have hsnapshot : temporaryPath path.preMigrationPath pid ≠ path.preMigrationPath := temporaryPath_ne pid _
  have htemporary := temporaryPath_preMigrationPath_ne path pid
  unfold publishRollback
  refine (Triple.mapError _ (triple_createNew hfile hsnapshot)).bind fun inode => ?_
  refine (triple_linkRollback.attempt.weaken (fun _ h => h) (fun _ _ h => h) (fun _ h => h.elim)).bind fun result => ?_
  cases result with
  | ok a =>
    refine Triple.bind ((triple_removeFile hfile hsnapshot ?_).weaken (fun _ h => h) (fun _ _ h => h)
      (fun _ h => h.elim)) fun _ => Triple.pure fun _ h => h
    rintro d₁ d₂ hsame ⟨hfile', hold, hsnapshot', htemporary'⟩
    exact ⟨(hsame _ hfile.symm).trans hfile', hold, (hsame _ hsnapshot.symm).trans hsnapshot',
      (hsame _ htemporary.symm).trans htemporary'⟩
  | error e =>
    exact Triple.bind ((triple_removeFile hfile hsnapshot fun _ _ _ _ => trivial).weaken (fun _ h => h) (fun _ _ h => h)
      (fun _ h => h.elim)) fun _ => Triple.throw fun _ h => h

theorem triple_read (name : String) :
    Triple (Disk.At d (SaveStep codec path state d) P) (Disk.read name)
      (fun bytes => Disk.At d (SaveStep codec path state d) fun d' => P d' ∧ d'.entry name = bytes.map .file)
      (Disk.At d (SaveStep codec path state d) fun _ => True) := by
  refine Disk.triple_call (fun _ _ => trivial) fun d₁ bytes d₂ hP hcall => ?_
  cases hentry : d₁.entry name with
  | none =>
    rw [hentry] at hcall
    cases hcall
    exact ⟨SaveStep.refl d₁, hP, hentry⟩
  | some e =>
    rw [hentry] at hcall
    cases e with
    | other => cases hcall
    | file content =>
      cases hcall
      exact ⟨SaveStep.refl d₁, hP, hentry⟩

theorem triple_symlinkMetadata (name : String) :
    Triple (Disk.At d (SaveStep codec path state d) P) (Disk.symlinkMetadata name)
      (fun found => Disk.At d (SaveStep codec path state d) fun d' => P d' ∧ found.isSome = (d'.entry name).isSome)
      (Disk.At d (SaveStep codec path state d) fun _ => True) := by
  refine Disk.triple_call (fun _ _ => trivial) fun d₁ found d₂ hP hcall => ?_
  cases hcall
  exact ⟨SaveStep.refl d₁, hP, Option.isSome_map⟩

/-- A snapshot that is there is only looked at. -/
theorem triple_checkRollback (regular : Bool) :
    Triple (Disk.At d (SaveStep codec path state d) P) (checkRollback codec path regular)
      (fun _ => Disk.At d (SaveStep codec path state d) P) (Disk.At d (SaveStep codec path state d) fun _ => True) := by
  unfold checkRollback
  cases regular with
  | false => exact Triple.throw fun s h => ⟨trivial, h.2⟩
  | true =>
    refine (Triple.mapError _ (triple_read path.preMigrationPath)).bind fun bytes =>
      Triple.lift_bind (fun s h => ⟨trivial, h.2⟩) fun rollbackBytes _ =>
        Triple.lift_bind (fun s h => ⟨trivial, h.2⟩) fun header _ => ?_
    split
    · exact Triple.throw fun s h => ⟨trivial, h.2⟩
    · exact Triple.lift_bind (fun s h => ⟨trivial, h.2⟩) fun _ _ => Triple.pure fun s h => ⟨h.1.1, h.2⟩

/-- **Before the rename an older file has its snapshot.** -/
theorem triple_preservePreMigrationState :
    Triple (Disk.At d (SaveStep codec path state d) (Prepared path pid payload d))
      (preservePreMigrationState codec path pid)
      (fun _ => Disk.At d (SaveStep codec path state d) (Ready codec path pid payload d))
      (Disk.At d (SaveStep codec path state d) fun _ => True) := by
  unfold preservePreMigrationState
  refine (Triple.mapError _ (triple_read path.file)).bind fun found => ?_
  cases found with
  | none =>
    refine Triple.pure fun s ⟨⟨hprepared, hnone⟩, hchained⟩ => ⟨⟨hprepared.file, ?_, hprepared.temporary⟩, hchained⟩
    intro bytes hbytes
    rw [← hprepared.file, hnone] at hbytes
    cases hbytes
  | some oldBytes =>
    refine Triple.lift_bind (fun s h => ⟨trivial, h.2⟩) fun header hheader => ?_
    dsimp only
    split
    · exact Triple.throw fun s h => ⟨trivial, h.2⟩
    · split
      · rename_i hcurrent
        refine Triple.pure fun s ⟨⟨hprepared, hold⟩, hchained⟩ => ⟨⟨hprepared.file, ?_, hprepared.temporary⟩, hchained⟩
        intro bytes hbytes holder
        rw [← hprepared.file, hold] at hbytes
        cases hbytes
        obtain ⟨version, hversion, hlower⟩ := holder
        rw [hheader, Except.ok.injEq] at hversion
        rw [← hversion, hcurrent] at hlower
        exact absurd hlower (Nat.lt_irrefl _)
      · refine Triple.lift_bind (fun s h => ⟨trivial, h.2⟩) fun old _ =>
          (Triple.mapError _ (triple_symlinkMetadata path.preMigrationPath)).bind fun existing => ?_
        cases existing with
        | some regular =>
          refine (triple_checkRollback regular).weaken (fun _ h => h) (fun _ s h => ?_) (fun _ h => h)
          obtain ⟨⟨⟨hprepared, -⟩, hthere⟩, hchained⟩ := h
          refine ⟨⟨hprepared.file, fun bytes _ _ hbefore => ?_, hprepared.temporary⟩, hchained⟩
          rw [hprepared.snapshot] at hthere ⊢
          rcases hbefore with hnone | hsome
          · rw [hnone] at hthere
            cases hthere
          · exact hsome
        | none =>
          refine (triple_publishRollback payload).weaken (fun s h => ?_) (fun _ s h => ?_) (fun _ h => h)
          · obtain ⟨⟨⟨hprepared, hold⟩, hthere⟩, hchained⟩ := h
            exact ⟨⟨hprepared, hold, Option.isNone_iff_eq_none.1 (by simpa using hthere.symm)⟩, hchained⟩
          · obtain ⟨hpublished, hchained⟩ := h
            refine ⟨⟨hpublished.file, fun bytes hbytes _ _ => ?_, hpublished.temporary⟩, hchained⟩
            rw [hpublished.old, Option.some.injEq, Directory.Entry.file.injEq] at hbytes
            rw [hpublished.snapshot, hbytes]

/-- **The rename replaces the file**, and nothing else a load or a rollback reads. -/
theorem triple_rename (hpayload : Payload codec state payload) :
    Triple (Disk.At d (SaveStep codec path state d) (Ready codec path pid payload d))
      (Disk.rename (temporaryPath path.file pid) path.file)
      (fun _ => Disk.At d (SaveStep codec path state d) fun d' => d'.entry path.file = some (.file payload))
      (Disk.At d (SaveStep codec path state d) fun _ => True) := by
  refine Disk.triple_call (fun _ _ => trivial) fun d₁ b d₂ hready hcall => ?_
  have hnew := Directory.entry_rename_new (d := d₁) (temporaryPath path.file pid) path.file (temporaryPath_ne pid _)
  have hother := Directory.entry_rename_other (d := d₁) (temporaryPath_ne_preMigrationPath path pid path.file).symm
    (preMigrationPath_ne path)
  have hrenamed : d₂ = d₁.rename (temporaryPath path.file pid) path.file := by
    split at hcall
    · cases hcall
    · cases hcall
      rfl
    · cases hcall
  rw [hready.temporary] at hnew
  rw [hrenamed]
  refine ⟨⟨Or.inr ⟨payload, hpayload, hnew⟩, fun e he => hother.trans he, fun h => Or.inl (hother.trans h),
    fun _ => hready.guarded⟩, hnew⟩

theorem triple_installState (hpayload : Payload codec state payload) :
    Triple (Disk.At d (SaveStep codec path state d) fun d' => d' = d) (installState codec path pid payload)
      (fun _ => Disk.At d (SaveStep codec path state d) fun d' => d'.entry path.file = some (.file payload))
      (Disk.At d (SaveStep codec path state d) fun _ => True) := by
  have hfile : temporaryPath path.file pid ≠ path.file := temporaryPath_ne pid _
  have hsnapshot : temporaryPath path.file pid ≠ path.preMigrationPath := temporaryPath_ne_preMigrationPath path pid _
  unfold installState
  refine (Triple.mapError _ (triple_createNew hfile hsnapshot)).bind fun inode =>
    (Triple.mapError _ triple_touch).bind fun _ => (triple_writeNew payload hfile hsnapshot).bind fun _ =>
      triple_touch.bind fun _ => Triple.bind (triple_preservePreMigrationState.weaken ?_ (fun _ _ h => h) fun _ h => h)
        fun _ => (Triple.mapError _ (triple_rename hpayload)).bind fun _ => Triple.mapError _ triple_touch
  rintro s ⟨⟨hwritten, d₁, rfl, hsame⟩, hchained⟩
  exact ⟨⟨hsame _ hfile.symm, hsame _ hsnapshot.symm, hwritten⟩, hchained⟩

/-- **A save that succeeds has left its state**, and all the way every step was one of a save. -/
theorem triple_save :
    Triple (Disk.At d (SaveStep codec path state d) fun d' => d' = d) (state.save codec path pid)
      (fun _ => Disk.At d (SaveStep codec path state d) fun d' =>
        ∃ payload, Payload codec state payload ∧ d'.entry path.file = some (.file payload))
      (Disk.At d (SaveStep codec path state d) fun _ => True) := by
  have hfile : temporaryPath path.file pid ≠ path.file := temporaryPath_ne pid _
  have hsnapshot : temporaryPath path.file pid ≠ path.preMigrationPath := temporaryPath_ne_preMigrationPath path pid _
  unfold StoredState.save
  split
  · exact Triple.throw fun _ h => ⟨trivial, h.2⟩
  · rename_i hversion
    refine (Triple.mapError _ triple_touch).bind fun _ => Triple.lift_bind (fun _ h => ⟨trivial, h.2⟩) fun bytes hbytes =>
      Triple.lift_bind (fun _ h => ⟨trivial, h.2⟩) fun _ _ => ?_
    have hpayload : Payload codec state (bytes ++ [newline]) :=
      ⟨Decidable.not_not.1 hversion, bytes, hbytes, rfl⟩
    refine ((triple_installState hpayload).attempt.weaken (fun _ h => h) (fun _ _ h => h) fun _ h => h.elim).bind
      fun result => ?_
    cases result with
    | ok a => exact Triple.pure fun _ h => ⟨⟨_, hpayload, h.1⟩, h.2⟩
    | error e =>
      exact ((triple_removeFile hfile hsnapshot fun _ _ _ _ => trivial).weaken (fun _ h => h) (fun _ _ h => h)
        (fun _ h => h.elim)).bind fun _ => Triple.throw fun _ h => h

end Triples

/-! ## Crashes -/

/-- One save from a directory, with the fates of its calls. -/
def StoredState.saveRun (codec : StateCodec F) (path : StatePath) (state : StoredState F) (pid : Nat)
    (fates : List (Fate UInt8)) (d : Directory UInt8) : Except String Unit × Disk UInt8 :=
  run (state.save codec path pid) { dir := d, fates }

theorem saveRun_spec (state : StoredState F) (pid : Nat) (fates : List (Fate UInt8)) (d : Directory UInt8) :
    (state.saveRun codec path pid fates d).2.Chained d (SaveStep codec path state d) ∧
      ((state.saveRun codec path pid fates d).1 = .ok () →
        ∃ payload, Payload codec state payload ∧
          (state.saveRun codec path pid fates d).2.dir.entry path.file = some (.file payload)) := by
  have htriple : Triple (Disk.At d (SaveStep codec path state d) fun d' => d' = d) (state.save codec path pid) _ _ :=
    triple_save
  obtain ⟨hok, herror⟩ := htriple { dir := d, fates } (Disk.at_start rfl)
  unfold StoredState.saveRun
  rcases hrun : run (state.save codec path pid) { dir := d, fates } with ⟨e | a, disk⟩
  · exact ⟨(herror e disk hrun).2, nofun⟩
  · exact ⟨(hok a disk hrun).2, fun _ => (hok a disk hrun).1⟩

/-- A save that returns has read its own text. -/
theorem saveRun_readable {state : StoredState F} {pid : Nat} {fates : List (Fate UInt8)} {d : Directory UInt8}
    (hok : (state.saveRun codec path pid fates d).1 = .ok ()) :
    ∃ text back, codec.toVecPretty state = .ok text ∧ codec.fromSlice text = .ok back := by
  unfold StoredState.saveRun at hok
  rcases hrun : run (state.save codec path pid) { dir := d, fates } with ⟨result, disk⟩
  rw [hrun] at hok
  cases hok
  unfold StoredState.save at hrun
  split at hrun
  · cases hrun
  · obtain ⟨-, _, -, hrun⟩ := ok_of_run_bind hrun
    obtain ⟨text, _, htext, hrun⟩ := ok_of_run_bind hrun
    obtain ⟨back, _, hback, -⟩ := ok_of_run_bind hrun
    exact ⟨text, back, (ok_of_run_lift htext).1, (ok_of_run_lift hback).1⟩

/-- The file is as the save found it, or holds what it installs. -/
theorem entry_points {state : StoredState F} {pid : Nat} {fates : List (Fate UInt8)} {d d' : Directory UInt8}
    (hmem : d' ∈ (state.saveRun codec path pid fates d).2.points) :
    d'.entry path.file = d.entry path.file ∨
      ∃ payload, Payload codec state payload ∧ d'.entry path.file = some (.file payload) := by
  have hchained : (state.saveRun codec path pid fates d).2.Chained d _ := (saveRun_spec state pid fates d).1
  refine hchained.forall_points (P := fun d' => d'.entry path.file = d.entry path.file ∨
    ∃ payload, Payload codec state payload ∧ d'.entry path.file = some (.file payload)) (Or.inl rfl)
    (fun d₁ d₂ hstep h => ?_) d' hmem
  rcases hstep.replaced with hsame | hreplaced
  · rw [hsame]
    exact h
  · exact Or.inr hreplaced

theorem not_older {state : StoredState F} {payload : Bytes} (hpayload : Payload codec state payload) :
    ¬ Older codec payload := by
  obtain ⟨hversion, bytes, hbytes, rfl⟩ := hpayload
  rintro ⟨version, hread, hlower⟩
  rw [codec.version_newline state bytes hbytes, Except.ok.injEq] at hread
  rw [← hread, Option.getD_some, hversion] at hlower
  exact absurd hlower (Nat.lt_irrefl _)

/-- What a load that no fault hinders makes of a directory. -/
def State.loadFrom [Flt F] (codec : StateCodec F) (path : StatePath) (quarantine : String) (d : Directory UInt8) :
    Except String (StoredState F × Option Quarantined) :=
  (run (State.load codec path quarantine) { dir := d }).1

section Loads

variable [Flt F] {quarantine : String}

theorem loadFrom_none (h : d.entry path.file = none) : State.loadFrom codec path quarantine d = .ok ({}, none) := by
  have hread : run (context s!"failed to read state {path.display}" (Disk.read path.file)) { dir := d } =
      (.ok none, { dir := d, past := [d] }) := by
    unfold context mapError Disk.read Disk.call
    simp [h, Disk.fate, Disk.spend, Disk.become, Except.mapError]
  unfold State.loadFrom State.load
  rw [run_bind_ok hread]
  rfl

theorem run_read_file {bytes : Bytes} (h : d.entry path.file = some (.file bytes)) :
    run (context s!"failed to read state {path.display}" (Disk.read path.file)) { dir := d } =
      (.ok (some bytes), { dir := d, past := [d] }) := by
  unfold context mapError Disk.read Disk.call
  simp [h, Disk.fate, Disk.spend, Disk.become, Except.mapError]

/-- **A file of a supported version is loaded.** -/
theorem loadFrom_file {bytes : Bytes} {stored : StoredState F} (h : d.entry path.file = some (.file bytes))
    (hread : codec.fromSlice bytes = .ok stored) (hversion : stored.schemaVersion ≤ stateSchemaVersion) :
    State.loadFrom codec path quarantine d = .ok (stored.normalise, none) := by
  unfold State.loadFrom State.load
  rw [run_bind_ok (run_read_file h)]
  dsimp only
  rw [hread]
  dsimp only
  rw [if_neg (Nat.not_lt.2 hversion)]
  rfl

/-- A load that neither fails nor quarantines has found no file, or a supported one. -/
theorem of_loadFrom {old : StoredState F} (hload : State.loadFrom codec path quarantine d = .ok (old, none)) :
    (d.entry path.file = none ∧ old = {}) ∨ ∃ bytes stored, d.entry path.file = some (.file bytes) ∧
      codec.fromSlice bytes = .ok stored ∧ stored.schemaVersion ≤ stateSchemaVersion ∧ old = stored.normalise := by
  cases hentry : d.entry path.file with
  | none =>
    rw [loadFrom_none hentry] at hload
    cases hload
    exact Or.inl ⟨rfl, rfl⟩
  | some e =>
    unfold State.loadFrom State.load at hload
    cases e with
    | other =>
      have hread : run (context s!"failed to read state {path.display}" (Disk.read path.file)) { dir := d } =
          (.error s!"failed to read state {path.display}", { dir := d }) := by
        unfold context mapError Disk.read Disk.call
        simp [hentry, Disk.fate, Disk.spend, Except.mapError]
      rw [run_bind_error hread] at hload
      cases hload
    | file bytes =>
      rw [run_bind_ok (run_read_file hentry)] at hload
      dsimp only at hload
      cases hstored : codec.fromSlice bytes with
      | error parseError =>
        rw [hstored] at hload
        dsimp only at hload
        rw [run_bind] at hload
        split at hload
        · cases hload
        · cases hload
      | ok stored =>
        rw [hstored] at hload
        dsimp only at hload
        split at hload
        · cases hload
        · rename_i hversion
          cases hload
          exact Or.inr ⟨bytes, stored, rfl, hstored, Nat.not_lt.1 hversion, rfl⟩

/-- **What a load accepts, it accepts wherever the file is the same.** -/
theorem loadFrom_congr {d' : Directory UInt8} {old : StoredState F} (hsame : d'.entry path.file = d.entry path.file)
    (hload : State.loadFrom codec path quarantine d = .ok (old, none)) :
    State.loadFrom codec path quarantine d' = .ok (old, none) := by
  rcases of_loadFrom hload with ⟨hnone, rfl⟩ | ⟨bytes, stored, hfile, hread, hversion, rfl⟩
  · exact loadFrom_none (hsame.trans hnone)
  · exact loadFrom_file (hsame.trans hfile) hread hversion

end Loads

/-! ## The law of saves and crashes -/

/-- A state of the current schema whose written form reads back as it. -/
def Valid (codec : StateCodec F) (state : StoredState F) : Prop :=
  state.schemaVersion = stateSchemaVersion ∧
    ∃ bytes, codec.toVecPretty state = .ok bytes ∧ codec.fromSlice bytes = .ok state

/-- The directories that saves and crashes lead to. -/
inductive Reached (codec : StateCodec F) (path : StatePath) (origin : Directory UInt8) : Directory UInt8 → Prop
  | origin : Reached codec path origin origin
  | crashed {d d' : Directory UInt8} (state : StoredState F) (pid : Nat) (fates : List (Fate UInt8)) :
    Reached codec path origin d → d' ∈ (state.saveRun codec path pid fates d).2.points → Reached codec path origin d'

structure CrashConsistent [Flt F] (codec : StateCodec F) (path : StatePath) : Prop where
  /-- After a crash anywhere a load returns what it returned before, or what was saved. -/
  crashed : ∀ (state : StoredState F) (pid : Nat) (fates : List (Fate UInt8)) (quarantine : String)
    (d : Directory UInt8) (old : StoredState F), Valid codec state →
    State.loadFrom codec path quarantine d = .ok (old, none) → ∀ d' ∈ (state.saveRun codec path pid fates d).2.points,
    State.loadFrom codec path quarantine d' = .ok (old, none) ∨
      State.loadFrom codec path quarantine d' = .ok (state.normalise, none)
  /-- And what was saved, once the save has returned. -/
  saved : ∀ (state : StoredState F) (pid : Nat) (fates : List (Fate UInt8)) (quarantine : String)
    (d : Directory UInt8), Valid codec state → (state.saveRun codec path pid fates d).1 = .ok () →
    State.loadFrom codec path quarantine (state.saveRun codec path pid fates d).2.dir = .ok (state.normalise, none)
  /-- An older file is replaced only once the snapshot holds its bytes. -/
  preserved : ∀ (origin d : Directory UInt8) (state : StoredState F) (pid : Nat) (fates : List (Fate UInt8))
    (before after : List (Directory UInt8)) (d₁ d₂ : Directory UInt8), origin.entry path.preMigrationPath = none →
    Reached codec path origin d → (state.saveRun codec path pid fates d).2.points = before ++ d₁ :: d₂ :: after →
    ∀ bytes, d₁.entry path.file = some (.file bytes) → Older codec bytes → d₂.entry path.file ≠ d₁.entry path.file →
    d₁.entry path.preMigrationPath = some (.file bytes)
  /-- No save changes a snapshot that is there. -/
  kept : ∀ (d : Directory UInt8) (state : StoredState F) (pid : Nat) (fates : List (Fate UInt8))
    (before after : List (Directory UInt8)) (d₁ d₂ : Directory UInt8),
    (state.saveRun codec path pid fates d).2.points = before ++ d₁ :: d₂ :: after →
    ∀ e, d₁.entry path.preMigrationPath = some e → d₂.entry path.preMigrationPath = some e

/-- An older file has no snapshot yet, or its own. -/
def OwnSnapshot (codec : StateCodec F) (path : StatePath) (d : Directory UInt8) : Prop :=
  ∀ bytes, d.entry path.file = some (.file bytes) → Older codec bytes →
    d.entry path.preMigrationPath = none ∨ d.entry path.preMigrationPath = some (.file bytes)

theorem OwnSnapshot.step {d₁ d₂ : Directory UInt8} (h : OwnSnapshot codec path d₁)
    (hstep : SaveStep codec path state d d₁ d₂) : OwnSnapshot codec path d₂ := by
  intro bytes hbytes holder
  rcases hstep.replaced with hsame | ⟨payload, hpayload, hreplaced⟩
  · rw [hsame] at hbytes
    rcases h bytes hbytes holder with hnone | hsome
    · rcases hstep.published hnone with hnone' | ⟨bytes', hbytes', hpublished⟩
      · exact Or.inl hnone'
      · rw [hbytes, Option.some.injEq, Directory.Entry.file.injEq] at hbytes'
        rw [hbytes']
        exact Or.inr hpublished
    · exact Or.inr (hstep.kept _ hsome)
  · rw [hreplaced, Option.some.injEq, Directory.Entry.file.injEq] at hbytes
    rw [← hbytes] at holder
    exact absurd holder (not_older hpayload)

theorem ownSnapshot_reached {origin : Directory UInt8} (horigin : origin.entry path.preMigrationPath = none)
    (hreached : Reached codec path origin d) : OwnSnapshot codec path d := by
  induction hreached with
  | origin => exact fun _ _ _ => Or.inl horigin
  | crashed state pid fates _ hmem ih =>
    exact (saveRun_spec state pid fates _).1.forall_points ih (fun _ _ hstep h => h.step hstep) _ hmem

/-- **What a save installs loads as the saved state.** -/
theorem loadFrom_payload [Flt F] {quarantine : String} (hvalid : Valid codec state)
    (hinstalled : Payload codec state payload) (hentry : d.entry path.file = some (.file payload)) :
    State.loadFrom codec path quarantine d = .ok (state.normalise, none) := by
  obtain ⟨hversion, bytes, hbytes, hreads⟩ := hvalid
  obtain ⟨-, bytes', hbytes', rfl⟩ := hinstalled
  rw [hbytes, Except.ok.injEq] at hbytes'
  rw [← hbytes'] at hentry
  exact loadFrom_file hentry (codec.fromSlice_newline bytes state hreads) (Nat.le_of_eq hversion)

theorem save_crash_consistent [Flt F] (codec : StateCodec F) (path : StatePath) : CrashConsistent codec path := by
  constructor
  · intro state pid fates quarantine d old hvalid hload d' hmem
    rcases entry_points hmem with hsame | ⟨payload, hinstalled, hentry⟩
    · exact Or.inl (loadFrom_congr hsame hload)
    · exact Or.inr (loadFrom_payload hvalid hinstalled hentry)
  · intro state pid fates quarantine d hvalid hok
    obtain ⟨payload, hinstalled, hentry⟩ := (saveRun_spec state pid fates d).2 hok
    exact loadFrom_payload hvalid hinstalled hentry
  · intro origin d state pid fates before after d₁ d₂ horigin hreached hsplit bytes hbytes holder hreplaced
    have hchained : (state.saveRun codec path pid fates d).2.Chained d _ := (saveRun_spec state pid fates d).1
    have hmem : d₁ ∈ (state.saveRun codec path pid fates d).2.points := by
      rw [hsplit]
      exact List.mem_append_right _ List.mem_cons_self
    have hfound : d.entry path.file = some (.file bytes) := by
      rcases entry_points hmem with hsame | ⟨payload, hinstalled, hentry⟩
      · exact hsame.symm.trans hbytes
      · rw [hbytes, Option.some.injEq, Directory.Entry.file.injEq] at hentry
        rw [hentry] at holder
        exact absurd holder (not_older hinstalled)
    exact (hchained.pair hsplit).guarded hreplaced bytes hfound holder
      (ownSnapshot_reached horigin hreached bytes hfound holder)
  · intro d state pid fates before after d₁ d₂ hsplit e he
    have hchained : (state.saveRun codec path pid fates d).2.Chained d _ := (saveRun_spec state pid fates d).1
    exact (hchained.pair hsplit).kept e he

/-! ### An older file is replaced -/

def utf8 (text : String) : Bytes := text.toByteArray.data.toList

def lines (texts : List String) : Bytes := [newline].intercalate (texts.map utf8)

def withoutNewlines (bytes : Bytes) : Bytes := (bytes.reverse.dropWhile (· == newline)).reverse

theorem withoutNewlines_newline (bytes : Bytes) : withoutNewlines (bytes ++ [newline]) = withoutNewlines bytes := by
  simp [withoutNewlines]

/-- One reading of a five-hour window, at the epoch. -/
def epochSnapshot (fraction : F64) : QuotaSnapshot F64 where
  observedAt := 0
  fresh := true
  windows := [{ id := "5h", usedFraction := fraction, resetsAt := hours 5, durationMinutes := some 300, reached := false }]
  eligibleBacklogCapacity := none
  resetCredits := none
  backpressure := none
  saturation := none

/-- The state after its record, with one worker. -/
def readingState (fraction : F64) : StoredState F64 :=
  { accounts := (∅ : BTreeMap (AccountState F64)).insert "codex"
      (AccountState.record {} (epochSnapshot fraction) 1 1) }

/-- The state that an older schema stored, without the high-water mark. -/
def readingStateV7 (fraction : F64) : StoredState F64 :=
  { accounts := (∅ : BTreeMap (AccountState F64)).insert "codex"
      { AccountState.record {} (epochSnapshot fraction) 1 1 with
        history := (∅ : BTreeMap (WindowHistory F64)).insert "5h"
          { resetsAt := hours 5, samples := [{ observedAt := 0, usedFraction := fraction, workers := 1 }],
            maxUsedFraction := Flt.zero } }
    schemaVersion := 7 }

def readingLines (version digits : String) (mark : List String) : Bytes :=
  lines (["\x7b",
    "  \"schema_version\": " ++ version ++ ",",
    "  \"accounts\": \x7b",
    "    \"codex\": \x7b",
    "      \"windows\": \x7b",
    "        \"5h\": \x7b",
    "          \"observed_at\": \"1970-01-01T00:00:00Z\",",
    "          \"used_fraction\": " ++ digits ++ ",",
    "          \"resets_at\": \"1970-01-01T05:00:00Z\",",
    "          \"workers\": 1",
    "        \x7d",
    "      \x7d,",
    "      \"last_target\": 1,",
    "      \"history\": \x7b",
    "        \"5h\": \x7b",
    "          \"resets_at\": \"1970-01-01T05:00:00Z\",",
    "          \"samples\": [",
    "            \x7b",
    "              \"observed_at\": \"1970-01-01T00:00:00Z\",",
    "              \"used_fraction\": " ++ digits ++ ",",
    "              \"workers\": 1",
    "            \x7d"] ++ mark ++
    ["        \x7d",
    "      \x7d,",
    "      \"aggregate_burn_history\": \x7b",
    "        \"5h\": [",
    "          \x7b",
    "            \"observed_at\": \"1970-01-01T00:00:00Z\",",
    "            \"used_fraction\": " ++ digits ++ ",",
    "            \"resets_at\": \"1970-01-01T05:00:00Z\",",
    "            \"governed_workers\": 1",
    "          \x7d",
    "        ]",
    "      \x7d,",
    "      \"credit_alerts\": \x7b\x7d",
    "    \x7d",
    "  \x7d,",
    "  \"host_states\": \x7b\x7d",
    "\x7d"])

def readingV8 (digits : String) : Bytes :=
  readingLines "8" digits ["          ],", "          \"max_used_fraction\": " ++ digits]

def readingV7 (digits : String) : Bytes := readingLines "7" digits ["          ]"]

/-- A fraction as it is written, and what its digits are read from: an integer over a power of ten. -/
structure Digits where
  fraction : F64
  text : String
  significand : Nat
  exponent : Nat
  deriving DecidableEq

/-- The digits as they are read, with the significand rounded before the division. -/
def Digits.read (digits : Digits) : F64 := Flt.ofNat digits.significand / Flt.ofNat (10 ^ digits.exponent)

def aHalf : Digits := ⟨Flt.ofRat (1 / 2), "0.5", 5, 1⟩

def aQuarter : Digits := ⟨Flt.ofRat (1 / 4), "0.25", 25, 2⟩

/-- A used percentage of 1.1, over a hundred. -/
def onePercent : Digits := ⟨Flt.ofRat (11 / 10) / Flt.ofNat 100, "0.011000000000000001", 11000000000000001, 18⟩

def fractionOf (state : StoredState F64) : Option F64 :=
  (state.accounts["codex"]?.bind (·.windows["5h"]?)).map (·.usedFraction)

theorem readingV8_plain : ∀ digits ∈ [aHalf, onePercent],
    withoutNewlines (readingV8 digits.text) = readingV8 digits.text ∧
      readingV8 digits.text ≠ readingV7 aQuarter.text := by
  decide +kernel

/-- The files of one reading, as they are written and read. -/
def readingCodec : StateCodec F64 where
  toVecPretty state :=
    if state.schemaVersion = 8 then
      (([aHalf, onePercent].find? (fun digits => some digits.fraction == fractionOf state)).map
        (fun digits => readingV8 digits.text)).elim (.error "another state") .ok
    else .error "another schema"
  fromSlice bytes :=
    if withoutNewlines bytes = readingV7 aQuarter.text then .ok (readingStateV7 aQuarter.read)
    else (([aHalf, onePercent].find? (fun digits => withoutNewlines bytes == readingV8 digits.text)).map
      (fun digits => readingState digits.read)).elim (.error "another text") .ok
  storedSchemaVersion bytes :=
    if withoutNewlines bytes = readingV7 aQuarter.text then .ok (some 7)
    else if [aHalf, onePercent].any (fun digits => withoutNewlines bytes == readingV8 digits.text) then .ok (some 8)
    else .error "another text"
  fromSlice_newline bytes state h := by rwa [withoutNewlines_newline]
  version_newline state bytes h := by
    split at h
    · rename_i hversion
      cases hfind : [aHalf, onePercent].find? (fun digits => some digits.fraction == fractionOf state) with
      | none =>
        rw [hfind] at h
        cases h
      | some digits =>
        rw [hfind] at h
        cases h
        obtain ⟨hplain, hother⟩ := readingV8_plain digits (List.mem_of_find?_eq_some hfind)
        rw [withoutNewlines_newline, hplain, if_neg hother, if_pos (List.any_eq_true.2
          ⟨digits, List.mem_of_find?_eq_some hfind, by simp⟩), hversion]
    · cases h

def statePath : StatePath := { parent := "/var/lib/subgov", file := "state.json" }

def v7Directory : Directory UInt8 := Directory.empty.add "state.json" (readingV7 aQuarter.text)

/-- The disk is full after the first hundred bytes of the temporary file. -/
def diskFull : List (Fate UInt8) :=
  [{}, {}, {}, { error := some "no space left on device", torn := [(readingV8 aHalf.text).take 100] }]

theorem readingCodec_write : ∀ digits ∈ [aHalf, onePercent],
    readingCodec.toVecPretty (readingState digits.fraction) = .ok (readingV8 digits.text) := by
  decide +kernel

theorem readingCodec_old {bytes : Bytes} (h : withoutNewlines bytes = readingV7 aQuarter.text) :
    readingCodec.fromSlice bytes = .ok (readingStateV7 aQuarter.read) := if_pos h

theorem readingCodec_new {bytes : Bytes} (h : withoutNewlines bytes ≠ readingV7 aQuarter.text) :
    readingCodec.fromSlice bytes =
      (([aHalf, onePercent].find? (fun digits => withoutNewlines bytes == readingV8 digits.text)).map
        (fun digits => readingState digits.read)).elim (.error "another text") .ok := if_neg h

theorem readingCodec_read {digits : Digits} (h : digits ∈ [aHalf, onePercent]) :
    readingCodec.fromSlice (readingV8 digits.text) = .ok (readingState digits.read) := by
  have hfind : ∀ digits ∈ [aHalf, onePercent],
      [aHalf, onePercent].find? (fun other => readingV8 digits.text == readingV8 other.text) = some digits := by
    decide +kernel
  obtain ⟨hplain, hother⟩ := readingV8_plain digits h
  have hnew : withoutNewlines (readingV8 digits.text) ≠ readingV7 aQuarter.text := by
    rw [hplain]
    exact hother
  have hread := readingCodec_new hnew
  rw [hplain, hfind digits h] at hread
  exact hread

theorem aHalf_valid : Valid readingCodec (readingState aHalf.fraction) := by
  have hread : aHalf.read = aHalf.fraction := by decide +kernel
  refine ⟨rfl, readingV8 aHalf.text, readingCodec_write aHalf List.mem_cons_self, ?_⟩
  rw [readingCodec_read List.mem_cons_self, hread]

theorem v7_loads : State.loadFrom readingCodec statePath "state.json.corrupt" v7Directory =
    .ok ((readingStateV7 aQuarter.fraction).normalise, none) := by
  have hread : aQuarter.read = aQuarter.fraction := by decide +kernel
  have hplain : withoutNewlines (readingV7 aQuarter.text) = readingV7 aQuarter.text := by decide +kernel
  have hold : readingCodec.fromSlice (readingV7 aQuarter.text) = .ok (readingStateV7 aQuarter.fraction) := by
    rw [readingCodec_old hplain, hread]
  exact loadFrom_file (by decide +kernel) hold (by decide)

/-- A file of the seventh schema is replaced, and kept beside it; a save that runs out of space leaves it as it was at
every point where a crash may find it. -/
theorem save_over_v7 :
    ((readingState aHalf.fraction).saveRun readingCodec statePath 42 [] v7Directory).1 = .ok () ∧
      ((readingState aHalf.fraction).saveRun readingCodec statePath 42 [] v7Directory).2.dir.entry "state.json.pre-v8" =
        some (.file (readingV7 aQuarter.text)) ∧
      State.loadFrom readingCodec statePath "state.json.corrupt"
        ((readingState aHalf.fraction).saveRun readingCodec statePath 42 [] v7Directory).2.dir =
          .ok ((readingState aHalf.fraction).normalise, none) ∧
      ((readingState aHalf.fraction).saveRun readingCodec statePath 42 diskFull v7Directory).1 =
        .error "no space left on device" ∧
      ∀ d ∈ ((readingState aHalf.fraction).saveRun readingCodec statePath 42 diskFull v7Directory).2.points,
        State.loadFrom readingCodec statePath "state.json.corrupt" d =
            .ok ((readingStateV7 aQuarter.fraction).normalise, none) ∨
          State.loadFrom readingCodec statePath "state.json.corrupt" d =
            .ok ((readingState aHalf.fraction).normalise, none) := by
  have hok : ((readingState aHalf.fraction).saveRun readingCodec statePath 42 [] v7Directory).1 = .ok () := by
    decide +kernel
  refine ⟨hok, by decide +kernel, ?_, by decide +kernel, ?_⟩
  · exact (save_crash_consistent readingCodec statePath).saved _ 42 [] _ v7Directory aHalf_valid hok
  · exact (save_crash_consistent readingCodec statePath).crashed _ 42 diskFull _ v7Directory _ aHalf_valid v7_loads

end Subgov
