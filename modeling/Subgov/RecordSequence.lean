import Subgov.Lib.Numbered
import Subgov.Lib.Parallel
import Subgov.ProviderPayload
/-!
# RecordSequence — the counter of the published records

`next_record_seq` reads a counter, writes its successor beside it and renames that over it, under a lock that ends with
the process.  Any number of processes run it at once, and each may fail or be killed at any operation.  The numbers
returned are new and increasing (`record_seqs_increase`): a killed process skips a number and never repeats one.  It is
so where the file beside is another file: a counter whose extension is `tmp` is written in place, and can be left torn.
-/
namespace Subgov
namespace RecordSequence

open Interleave
open Script (perform ofExcept)

/-! ## The files -/

/-- An error with its contexts, the outermost first. -/
abbrev Err := List String

/-- What a file holds, `none` where it is not UTF-8. -/
abbrev Content := Option (List Char)

/-- A path backwards, from the end of its last component on. -/
def backwards : List Char → List Char
  | '/' :: rest => backwards rest
  | '.' :: '/' :: rest => backwards rest
  | chars => chars

/-- The last component of a path and what stands before it, both backwards. -/
def lastPart (path : String) : List Char × List Char :=
  let chars := backwards path.toList.reverse
  (chars.takeWhile (· ≠ '/'), chars.dropWhile (· ≠ '/'))

/-- `Path::file_name`, backwards. -/
def fileName (path : String) : Option (List Char) :=
  let name := (lastPart path).1
  if name = [] ∨ name = ['.'] ∨ name = ['.', '.'] then none else some name

/-- The stem and the extension of a name, all backwards, at its last dot unless the name begins with that. -/
def splitName (name : List Char) : List Char × Option (List Char) :=
  match name.dropWhile (· ≠ '.') with
  | _ :: c :: before => (c :: before, some (name.takeWhile (· ≠ '.')))
  | _ => (name, none)

/-- `Path::extension`, backwards. -/
def extension (path : String) : Option (List Char) := (fileName path).bind fun name => (splitName name).2

/-- `Path::with_extension` -/
def withExtension (path ext : String) : String :=
  match fileName path with
  | none => path
  | some name => String.ofList ((lastPart path).2.reverse ++ (splitName name).1.reverse ++ '.' :: ext.toList)

/-- The path of the counter, and its parent as it is displayed. -/
structure Paths where
  path : String
  parent : String

def Paths.temp (paths : Paths) : String := withExtension paths.path "tmp"

/-- The file beside is another one, unless the counter has the extension itself. -/
theorem withExtension_ne {path : String} (hname : fileName path ≠ none) (hext : extension path ≠ some ['p', 'm', 't']) :
    withExtension path "tmp" ≠ path := by
  intro hsame
  obtain ⟨name, hname⟩ := Option.ne_none_iff_exists'.1 hname
  have hpart : (lastPart path).1 = name := by
    unfold fileName at hname
    dsimp only at hname
    split at hname
    · cases hname
    · exact Option.some.inj hname
  have hback : path.toList.reverse = ['p', 'm', 't', '.'] ++ ((splitName name).1 ++ (lastPart path).2) := by
    have hlist := congrArg (fun s => s.toList.reverse) hsame
    simp only [withExtension, hname, String.toList_ofList, List.reverse_append, List.reverse_reverse] at hlist
    rw [← hlist]
    rfl
  -- the name ends in the extension, and what is before it is not empty
  have hends : name = 'p' :: 'm' :: 't' :: '.' :: ((splitName name).1 ++ (lastPart path).2).takeWhile (· ≠ '/') := by
    have hfirst : (lastPart path).1 = path.toList.reverse.takeWhile (· ≠ '/') := by
      unfold lastPart
      rw [hback]
      rfl
    rw [hpart] at hfirst
    exact hfirst.trans (congrArg (List.takeWhile (· ≠ '/')) hback)
  generalize hrest : ((splitName name).1 ++ (lastPart path).2).takeWhile (· ≠ '/') = rest at hends
  cases rest with
  | nil =>
    subst hends
    cases hrest
  | cons c before =>
    subst hends
    exact hext (by rw [extension, hname]; rfl)

inductive Op : Type → Type
  | createDirAll : Op Unit
  | openLock : Op Unit
  | restrictLock : Op Unit
  | tryLock : Op Unit
  | read : Op (Option Content)
  | create : Op Unit
  | restrict : Op Unit
  | write (c : Char) : Op Unit
  | rename : Op Unit

/-- As it is for the file that a state directory has by default. -/
theorem withExtension_default (dir : String) :
    withExtension (dir ++ "/federation-record-seq") "tmp" ≠ dir ++ "/federation-record-seq" := by
  have hpart : (lastPart (dir ++ "/federation-record-seq")).1 = "federation-record-seq".toList.reverse := by
    unfold lastPart
    rw [String.toList_append, List.reverse_append]
    rfl
  have hname : fileName (dir ++ "/federation-record-seq") = some "federation-record-seq".toList.reverse := by
    unfold fileName
    rw [hpart]
    rfl
  refine withExtension_ne (by simp [hname]) ?_
  have hnone : (splitName "federation-record-seq".toList.reverse).2 = none := by decide
  rw [extension, hname, Option.bind_some, hnone]
  exact (Option.some_ne_none _).symm

/-- Who holds the lock, the files, and the numbers returned, the last one first. -/
structure World (ι : Type) where
  holder : Option ι
  files : String → Option Content
  returned : List ℕ

section Put

variable {ι : Type}

def World.put (w : World ι) (path : String) (x : Option Content) : World ι :=
  { w with files := Function.update w.files path x }

variable {w : World ι} {path other : String} {x : Option Content}

@[simp] theorem World.put_holder : (w.put path x).holder = w.holder := rfl

@[simp] theorem World.put_returned : (w.put path x).returned = w.returned := rfl

@[simp] theorem World.put_self : (w.put path x).files path = x := Function.update_self _ _ _

theorem World.put_other (h : path ≠ other) : (w.put path x).files other = w.files other :=
  Function.update_of_ne h.symm _ _

end Put

section Exec

variable {ι : Type} [DecidableEq ι]

def exec (paths : Paths) (i : ι) : {β : Type} → Op β → World ι → Except Err β × World ι
  | _, .createDirAll, w => (.ok (), w)
  | _, .openLock, w => (.ok (), w)
  | _, .restrictLock, w => (.ok (), w)
  | _, .tryLock, w =>
    match w.holder with
    | none => (.ok (), { w with holder := some i })
    | some _ => (.error [], w)
  | _, .read, w => (.ok (w.files paths.path), w)
  | _, .create, w => (.ok (), w.put paths.temp (some (some [])))
  | _, .restrict, w => (.ok (), w)
  | _, .write c, w => (.ok (), w.put paths.temp ((w.files paths.temp).map fun content => content.map (· ++ [c])))
  | _, .rename, w =>
    match w.files paths.temp with
    | none => (.error [], w)
    | some content => (.ok (), (w.put paths.temp none).put paths.path (some content))

/-- The lock ends with the function, or with its process. -/
def World.release (i : ι) (w : World ι) : World ι :=
  { w with holder := if w.holder = some i then none else w.holder }

end Exec

/-! ## The functions -/

def unsigned : List Char → List Char
  | '+' :: rest => rest
  | chars => chars

/-- `str::parse::<u64>` -/
def parseU64 (text : String) : Option ℕ :=
  let digits := unsigned text.toList
  if digits.isEmpty || !digits.all Char.isDigit then none
  else if Nat.ofDigitChars 10 digits 0 < 2 ^ 64 then some (Nat.ofDigitChars 10 digits 0)
  else none

section Functions

variable {α : Type} (paths : Paths)

def withContext (context : String) (p : Script Op Err α) : Script Op Err α := p.rescue fun e => .raise (context :: e)

/-- `StateLock::acquire` -/
def acquire : Script Op Err Unit := do
  perform .createDirAll
  withContext ("failed to open lock " ++ paths.path ++ ".lock") (perform .openLock)
  withContext ("failed to restrict permissions on " ++ paths.path ++ ".lock") (perform .restrictLock)
  withContext ("another governor owns " ++ paths.path ++ ".lock") (perform .tryLock)

/-- The counter that a file holds, zero where it is missing. -/
def counter : Option Content → Except Err ℕ
  | none => .ok 0
  | some none => .error ["record sequence " ++ paths.path ++ " is not UTF-8"]
  | some (some text) =>
    match parseU64 (trim (String.ofList text)) with
    | none => .error ["record sequence " ++ paths.path ++ " is not a counter"]
    | some n => .ok n

def writeAll : List Char → Script Op Err Unit
  | [] => return ()
  | c :: rest => do
    perform (.write c)
    writeAll rest

def writePrivateFile (text : String) : Script Op Err Unit := do
  withContext ("failed to create directory " ++ paths.parent) (perform .createDirAll)
  withContext ("failed to write " ++ paths.temp) (perform .create)
  perform .restrict
  withContext ("failed to write " ++ paths.temp) (writeAll text.toList)
  withContext ("failed to publish " ++ paths.path) (perform .rename)

def nextText (next : ℕ) : String := toString next ++ "\n"

def nextRecordSeq : Script Op Err ℕ := do
  withContext ("failed to lock record sequence " ++ paths.path) (acquire paths)
  let content ← withContext ("failed to read record sequence " ++ paths.path) (perform .read)
  let current ← ofExcept (counter paths content)
  if current + 1 < 2 ^ 64 then do
    withContext ("failed to persist record sequence " ++ paths.path) (writePrivateFile paths (nextText (current + 1)))
    return current + 1
  else .raise ["record sequence counter exhausted"]

end Functions

/-- Processes that all run `next_record_seq`, and fail at any operation before or after it is done. -/
def processes (ι : Type) [DecidableEq ι] (paths : Paths) : Family ι (World ι) Err Op ℕ where
  exec := exec paths
  fails := fun _ _ => True
  failsLate := fun _ _ => True
  programs := fun _ p => p = nextRecordSeq paths
  returns := fun i n w => { w.release i with returned := n :: w.returned }
  leaves := World.release

/-! ## What a text of a counter says -/

section Text

theorem not_isWhitespace_of_isDigit {c : Char} (h : c.isDigit = true) : isWhitespace c = false := by
  rw [Char.isDigit_iff_toNat, show '0'.toNat = 48 from rfl, show '9'.toNat = 57 from rfl] at h
  unfold isWhitespace
  simp
  omega

/-- Digits with a line break behind them, with the white space taken off both ends. -/
theorem trimmed_digits {digits : List Char} (hne : digits ≠ []) (h : ∀ c ∈ digits, c.isDigit = true) :
    (((digits ++ ['\n']).dropWhile isWhitespace).reverse.dropWhile isWhitespace).reverse = digits := by
  obtain ⟨c, rest, rfl⟩ := List.exists_cons_of_ne_nil hne
  have hstays : ∀ {d : Char} {back : List Char}, d.isDigit = true → (d :: back).dropWhile isWhitespace = d :: back :=
    fun hd => List.dropWhile_cons_of_neg (by simp [not_isWhitespace_of_isDigit hd])
  rw [List.cons_append, hstays (h c List.mem_cons_self)]
  have hback : (c :: (rest ++ ['\n'])).reverse = '\n' :: (c :: rest).reverse := by simp
  have hbreak : isWhitespace '\n' = true := by decide
  rw [hback, List.dropWhile_cons, if_pos hbreak]
  obtain ⟨d, front, hd⟩ := List.exists_cons_of_ne_nil (List.reverse_ne_nil_iff.2 hne)
  have hmem : d ∈ c :: rest := List.mem_reverse.1 (hd ▸ List.mem_cons_self)
  rw [hd, hstays (h d hmem), ← hd, List.reverse_reverse]

theorem toList_nextText (n : ℕ) : (nextText n).toList = Nat.toDigits 10 n ++ ['\n'] := by
  rw [nextText, String.toList_append, Nat.toString_eq_repr, Nat.toList_repr]
  rfl

/-- **The text of a counter says that counter.** -/
theorem parseU64_nextText {n : ℕ} (h : n < 2 ^ 64) : parseU64 (trim (nextText n)) = some n := by
  have hdigits := Numbered.isDigit_toDigits (n := n)
  have hvalue : Nat.ofDigitChars 10 (Nat.toDigits 10 n) 0 = n := Nat.ofDigitChars_toDigits (by decide) (by decide)
  have htrim : (trim (nextText n)).toList = Nat.toDigits 10 n := by
    unfold trim
    rw [toList_nextText, String.toList_ofList]
    exact trimmed_digits (Nat.toDigits_ne_nil) hdigits
  have hhead : unsigned (trim (nextText n)).toList = Nat.toDigits 10 n := by
    rw [htrim]
    unfold unsigned
    split
    · rename_i rest hplus
      have hdigit := hdigits '+' (hplus ▸ List.mem_cons_self)
      cases hdigit
    · rfl
  unfold parseU64
  rw [hhead]
  dsimp only
  rw [if_neg, hvalue, if_pos h]
  rw [Bool.or_eq_true, not_or, Bool.not_eq_true', Bool.not_eq_false]
  exact ⟨by simp, List.all_eq_true.2 hdigits⟩

theorem counter_nextText (paths : Paths) {n : ℕ} (h : n < 2 ^ 64) :
    counter paths (some (some (nextText n).toList)) = .ok n := by
  simp only [counter, String.ofList_toList, parseU64_nextText h]

theorem parseU64_lt {text : String} {n : ℕ} (h : parseU64 text = some n) : n < 2 ^ 64 := by
  unfold parseU64 at h
  dsimp only at h
  split at h
  · cases h
  split at h
  · rw [← Option.some.inj h]
    assumption
  · cases h

theorem counter_lt {paths : Paths} {content : Option Content} {n : ℕ} (h : counter paths content = .ok n) :
    n < 2 ^ 64 := by
  unfold counter at h
  split at h
  · rw [← Except.ok.inj h]
    decide
  · cases h
  · split at h
    · cases h
    · rename_i hparse
      rw [← Except.ok.inj h]
      exact parseU64_lt hparse

end Text

/-! ## What holds in every run -/

section Runs

variable {ι : Type} [DecidableEq ι] (paths : Paths) (floor : ℕ)

/-- The counter is at the last number returned or past it. -/
structure Inv (w : World ι) : Prop where
  increasing : w.returned.Pairwise (· > ·)
  above : ∀ n ∈ w.returned, floor < n
  counter : ∃ m, RecordSequence.counter paths (w.files paths.path) = .ok m ∧ floor ≤ m ∧ ∀ n ∈ w.returned, n ≤ m

/-- What a process relies on: the files are its own while it holds the lock. -/
structure Rely (i : ι) (w w' : World ι) : Prop where
  inv : Inv paths floor w → Inv paths floor w'
  holder : w'.holder = some i ↔ w.holder = some i
  file : w.holder = some i → w'.files paths.path = w.files paths.path
  temp : w.holder = some i → w'.files paths.temp = w.files paths.temp
  returned : w.holder = some i → w'.returned = w.returned

/-- The file beside is written under the lock, and renamed when it is the successor of the counter. -/
def guard (i : ι) : ∀ β, Op β → World ι → Prop
  | _, .create, w | _, .write _, w => w.holder = some i
  | _, .rename, w => w.holder = some i ∧ ∃ m, counter paths (w.files paths.path) = .ok m ∧ m + 1 < 2 ^ 64 ∧
      w.files paths.temp = some (some (nextText (m + 1)).toList)
  | _, _, _ => True

/-- A process returns the counter it holds the lock of, which is past every number returned. -/
def Returns (i : ι) (n : ℕ) (w : World ι) : Prop :=
  w.holder = some i ∧ floor < n ∧ counter paths (w.files paths.path) = .ok n ∧ ∀ m ∈ w.returned, m < n

/-- It holds the lock, and the counter is this. -/
structure Held (i : ι) (content : Option Content) (w : World ι) : Prop where
  inv : Inv paths floor w
  holder : w.holder = some i
  file : w.files paths.path = content

variable {paths floor} {i : ι} {content : Option Content} {α β : Type}

/-- The processes beside one of them. -/
abbrev beside (paths : Paths) (floor : ℕ) (i : ι) : System (World ι) Err Op :=
  (processes ι paths).system (Rely paths floor) i

theorem stable_inv : Stable (beside paths floor i) (Inv paths floor) := fun _ _ hr h => hr.inv h

theorem stable_held : Stable (beside paths floor i) (Held paths floor i content) := fun _ _ hr h =>
  ⟨hr.inv h.inv, hr.holder.2 h.holder, (hr.file h.holder).trans h.file⟩

theorem stable_temp {temp : Option Content} :
    Stable (beside paths floor i) (fun w => Held paths floor i content w ∧ w.files paths.temp = temp) := fun _ _ hr h =>
  ⟨stable_held _ _ hr h.1, (hr.temp h.1.holder).trans h.2⟩

theorem stable_returns {n : ℕ} : Stable (beside paths floor i) (Returns paths floor i n) := fun _ _ hr h =>
  ⟨hr.holder.2 h.1, h.2.1, (hr.file h.1).symm ▸ h.2.2.1, (hr.returned h.1).symm ▸ h.2.2.2⟩

/-- One operation, whose failures leave nothing to say. -/
theorem triple_op {o : Op β} {P : World ι → Prop} {Q : β → World ι → Prop} (hP : Stable (beside paths floor i) P)
    (hQ : ∀ a, Stable (beside paths floor i) (Q a)) (hguard : ∀ w, P w → guard paths i β o w)
    (hok : ∀ w a w', P w → exec paths i o w = (.ok a, w') → Q a w') :
    Triple (beside paths floor i) (guard paths i) P (perform o) Q (fun _ _ => True) :=
  .perform hP hguard (fun w a w' h hstep => hok w a w' h hstep.ok) (fun _ _ _ _ _ => trivial) hQ fun _ => .const _

theorem triple_withContext {p : Script Op Err α} {P : World ι → Prop} {Q : α → World ι → Prop} (context : String)
    (h : Triple (beside paths floor i) (guard paths i) P p Q (fun _ _ => True))
    (hQ : ∀ a, Stable (beside paths floor i) (Q a)) :
    Triple (beside paths floor i) (guard paths i) P (withContext context p) Q (fun _ _ => True) :=
  h.rescue hQ fun _ => .raise (.const _) fun _ _ => trivial

/-- An operation that changes nothing. -/
theorem triple_still {o : Op β} {P : World ι → Prop} (hP : Stable (beside paths floor i) P)
    (hguard : ∀ w, guard paths i β o w) (hstill : ∀ w, (exec paths i o w).2 = w) :
    Triple (beside paths floor i) (guard paths i) P (perform o) (fun _ => P) (fun _ _ => True) := by
  refine triple_op hP (fun _ => hP) (fun w _ => hguard w) fun w a w' h hexec => ?_
  obtain rfl : w' = w := (congrArg Prod.snd hexec).symm.trans (hstill w)
  exact h

/-- The lock makes the files its holder's. -/
theorem triple_acquire : Triple (beside paths floor i) (guard paths i) (Inv paths floor) (acquire paths)
    (fun _ w => ∃ content, Held paths floor i content w) (fun _ _ => True) := by
  have hheld : Stable (beside paths floor i) (fun w => ∃ content, Held paths floor i content w) :=
    fun w w' hr ⟨content, h⟩ => ⟨content, stable_held w w' hr h⟩
  have hinv : Stable (beside paths floor i) (Inv paths floor) := stable_inv
  refine (triple_still (o := .createDirAll) hinv (fun _ => trivial) fun _ => rfl).bind fun _ => ?_
  refine (triple_withContext _ (triple_still (o := .openLock) hinv (fun _ => trivial) fun _ => rfl) fun _ => hinv).bind
    fun _ => ?_
  refine (triple_withContext _ (triple_still (o := .restrictLock) hinv (fun _ => trivial) fun _ => rfl)
    fun _ => hinv).bind fun _ => ?_
  refine triple_withContext _ (triple_op (o := .tryLock) hinv (fun _ => hheld) (fun _ _ => trivial)
    fun w _ w' h hexec => ?_) fun _ => hheld
  cases hholder : w.holder with
  | none =>
    simp only [exec, hholder] at hexec
    obtain ⟨-, rfl⟩ := Prod.mk.inj hexec
    exact ⟨w.files paths.path, ⟨h.increasing, h.above, h.counter⟩, rfl, rfl⟩
  | some j =>
    simp only [exec, hholder] at hexec
    cases (Prod.mk.inj hexec).1

omit [DecidableEq ι] in
/-- A write of the file beside leaves the counter. -/
theorem Inv.put {w : World ι} (h : Inv paths floor w) (hapart : paths.temp ≠ paths.path) (x : Option Content) :
    Inv paths floor (w.put paths.temp x) := by
  refine ⟨h.increasing, h.above, ?_⟩
  rw [World.put_other hapart]
  exact h.counter

omit [DecidableEq ι] in
theorem Held.put {w : World ι} (h : Held paths floor i content w) (hapart : paths.temp ≠ paths.path)
    (x : Option Content) : Held paths floor i content (w.put paths.temp x) :=
  ⟨h.inv.put hapart x, h.holder, (World.put_other hapart).trans h.file⟩

theorem triple_writeAll (hapart : paths.temp ≠ paths.path) (written : List Char) (text : List Char) :
    Triple (beside paths floor i) (guard paths i)
      (fun w => Held paths floor i content w ∧ w.files paths.temp = some (some written)) (writeAll text)
      (fun _ w => Held paths floor i content w ∧ w.files paths.temp = some (some (written ++ text))) (fun _ _ => True) := by
  induction text generalizing written with
  | nil =>
    rw [List.append_nil]
    exact .pure stable_temp fun w h => h
  | cons c rest ih =>
    have hrest := ih (written ++ [c])
    rw [List.append_assoc, List.singleton_append] at hrest
    refine (triple_op (o := .write c) stable_temp (fun _ => stable_temp) (fun w h => h.1.holder)
      fun w _ w' h hexec => ?_).bind fun _ => hrest
    obtain ⟨-, rfl⟩ := Prod.mk.inj hexec
    refine ⟨h.1.put hapart _, World.put_self.trans ?_⟩
    rw [h.2]
    rfl

/-- **The file beside is complete before it is renamed**, and the counter is its successor then. -/
theorem triple_writePrivateFile (hapart : paths.temp ≠ paths.path) {m : ℕ} (hcounter : counter paths content = .ok m)
    (hm : m + 1 < 2 ^ 64) :
    Triple (beside paths floor i) (guard paths i) (Held paths floor i content)
      (writePrivateFile paths (nextText (m + 1))) (fun _ => Returns paths floor i (m + 1)) (fun _ _ => True) := by
  refine (triple_withContext _ (triple_still (o := .createDirAll) stable_held (fun _ => trivial) fun _ => rfl)
    fun _ => stable_held).bind fun _ => ?_
  refine Triple.bind (R := fun _ w => Held paths floor i content w ∧ w.files paths.temp = some (some []))
    (triple_withContext _ (triple_op (o := .create) stable_held (fun _ => stable_temp) (fun w h => h.holder)
      fun w _ w' h hexec => ?_) fun _ => stable_temp) fun _ => ?_
  · obtain ⟨-, rfl⟩ := Prod.mk.inj hexec
    exact ⟨h.put hapart _, World.put_self⟩
  refine (triple_still (o := .restrict) stable_temp (fun _ => trivial) fun _ => rfl).bind fun _ => ?_
  refine (triple_withContext _ (triple_writeAll hapart [] _) fun _ => stable_temp).bind fun _ => ?_
  refine triple_withContext _ (triple_op (o := .rename) stable_temp (fun _ => stable_returns) (fun w h => ?_)
    fun w _ w' h hexec => ?_) fun _ => stable_returns
  · exact ⟨h.1.holder, m, h.1.file ▸ hcounter, hm, h.2⟩
  · have htemp : w.files paths.temp = some (some (nextText (m + 1)).toList) := h.2
    simp only [exec, htemp] at hexec
    obtain ⟨-, rfl⟩ := Prod.mk.inj hexec
    obtain ⟨k, hk, hfloor, hall⟩ := h.1.inv.counter
    obtain rfl : k = m := Except.ok.inj (hk.symm.trans (h.1.file ▸ hcounter))
    refine ⟨h.1.holder, Nat.lt_succ_of_le hfloor, ?_, fun n hn => Nat.lt_succ_of_le (hall n hn)⟩
    rw [World.put_self]
    exact counter_nextText paths hm

theorem triple_nextRecordSeq (hapart : paths.temp ≠ paths.path) :
    Triple (beside paths floor i) (guard paths i) (Inv paths floor) (nextRecordSeq paths) (Returns paths floor i)
      (fun _ _ => True) := by
  have hlocked : Stable (beside paths floor i) (fun w => ∃ content, Held paths floor i content w) :=
    fun w w' hr ⟨content, h⟩ => ⟨content, stable_held w w' hr h⟩
  refine Triple.bind (triple_withContext _ triple_acquire fun _ => hlocked) fun _ => ?_
  refine Triple.bind (triple_withContext _ (triple_op (o := .read) (Q := fun content w => Held paths floor i content w)
    hlocked (fun _ => stable_held) (fun _ _ => trivial) fun w content w' h hexec => ?_) fun _ => stable_held)
    fun content => ?_
  · obtain ⟨found, hheld⟩ := h
    obtain ⟨hread, rfl⟩ := Prod.mk.inj hexec
    exact ⟨hheld.inv, hheld.holder, Except.ok.inj hread⟩
  cases hcounter : counter paths content with
  | error e => exact .raise stable_held fun _ _ => trivial
  | ok current =>
    show Triple _ _ _ (if current + 1 < 2 ^ 64 then _ else _) _ _
    split
    · rename_i hcurrent
      exact (triple_withContext _ (triple_writePrivateFile hapart hcounter hcurrent) fun _ => stable_returns).bind
        fun _ => .pure stable_returns fun w h => h
    · exact .raise stable_held fun _ _ => trivial

omit [DecidableEq ι] in
theorem rely_refl (j : ι) (w : World ι) : Rely paths floor j w w :=
  ⟨id, .rfl, fun _ => rfl, fun _ => rfl, fun _ => rfl⟩

omit [DecidableEq ι] in
/-- What the holder of the lock does is nobody else's. -/
theorem rely_of_holder {w w' : World ι} (hinv : Inv paths floor w') (hholder : w.holder = some i)
    (hsame : w'.holder = w.holder) {j : ι} (hj : j ≠ i) : Rely paths floor j w w' := by
  have hnot : w.holder ≠ some j := fun h => hj (Option.some.inj (h.symm.trans hholder))
  exact ⟨fun _ => hinv, hsame ▸ .rfl, fun h => absurd h hnot, fun h => absurd h hnot, fun h => absurd h hnot⟩

omit [DecidableEq ι] in
theorem exec_rely (hapart : paths.temp ≠ paths.path) {o : Op β} {w : World ι} (hinv : Inv paths floor w)
    (hguard : guard paths i β o w) :
    Inv paths floor (exec paths i o w).2 ∧ ∀ j ≠ i, Rely paths floor j w (exec paths i o w).2 := by
  cases o with
  | tryLock =>
    cases hholder : w.holder with
    | some k =>
      simp only [exec, hholder]
      exact ⟨hinv, fun j _ => rely_refl j w⟩
    | none =>
      simp only [exec, hholder]
      have hnot : ∀ j, w.holder ≠ some j := fun j h => Option.some_ne_none j (h.symm.trans hholder)
      refine ⟨⟨hinv.increasing, hinv.above, hinv.counter⟩, fun j hj => ⟨fun h => ⟨h.increasing, h.above, h.counter⟩, ?_,
        fun h => absurd h (hnot j), fun h => absurd h (hnot j), fun h => absurd h (hnot j)⟩⟩
      exact ⟨fun h => absurd (Option.some.inj h).symm hj, fun h => absurd h (hnot j)⟩
  | create =>
    have hkept : Inv paths floor (exec paths i .create w).2 := hinv.put hapart _
    exact ⟨hkept, fun j hj => rely_of_holder hkept hguard rfl hj⟩
  | write c =>
    have hkept : Inv paths floor (exec paths i (.write c) w).2 := hinv.put hapart _
    exact ⟨hkept, fun j hj => rely_of_holder hkept hguard rfl hj⟩
  | rename =>
    obtain ⟨hholder, m, hm, hlt, htemp⟩ := hguard
    obtain ⟨k, hk, hfloor, hall⟩ := hinv.counter
    obtain rfl : k = m := Except.ok.inj (hk.symm.trans hm)
    have hkept : Inv paths floor (exec paths i .rename w).2 := by
      simp only [exec, htemp]
      refine ⟨hinv.increasing, hinv.above, k + 1, ?_, Nat.le_succ_of_le hfloor, fun n hn => Nat.le_succ_of_le (hall n hn)⟩
      rw [World.put_self]
      exact counter_nextText paths hlt
    refine ⟨hkept, fun j hj => rely_of_holder hkept hholder ?_ hj⟩
    simp only [exec, htemp, World.put_holder]
  | _ => exact ⟨hinv, fun j _ => rely_refl j w⟩

/-- The lock is let go by its holder alone. -/
theorem release_rely {w : World ι} (hinv : Inv paths floor w) :
    Inv paths floor (w.release i) ∧ ∀ j ≠ i, Rely paths floor j w (w.release i) := by
  refine ⟨⟨hinv.increasing, hinv.above, hinv.counter⟩, fun j hj => ⟨fun h => ⟨h.increasing, h.above, h.counter⟩, ?_,
    fun _ => rfl, fun _ => rfl, fun _ => rfl⟩⟩
  unfold World.release
  dsimp only
  split
  · rename_i hholder
    rw [hholder]
    exact ⟨fun h => (Option.some_ne_none j h.symm).elim, fun h => absurd (Option.some.inj h).symm hj⟩
  · exact .rfl

/-- What a process does is what the others rely on. -/
theorem sound (hapart : paths.temp ≠ paths.path) :
    (processes ι paths).Sound (Inv paths floor) (Rely paths floor) (guard paths) (Returns paths floor)
      (fun _ _ _ => True) where
  start := by
    rintro i p w rfl hinv
    exact triple_nextRecordSeq hapart w hinv
  own := by
    intro i β o w r w' hinv hguard hown
    cases hown with
    | done => exact exec_rely hapart hinv hguard
    | fails => exact ⟨hinv, fun j _ => rely_refl j w⟩
    | failsLate => exact exec_rely hapart hinv hguard
  returns := by
    rintro i n w hinv ⟨hholder, hfloor, hcounter, hall⟩
    have hkept : Inv paths floor ((processes ι paths).returns i n w) := by
      obtain ⟨m, hm, hle, -⟩ := hinv.counter
      obtain rfl : m = n := Except.ok.inj (hm.symm.trans hcounter)
      refine ⟨List.pairwise_cons.2 ⟨hall, hinv.increasing⟩, fun k hk => ?_, m, hm, hle, fun k hk => ?_⟩
      · rcases List.mem_cons.1 hk with rfl | hold
        · exact hfloor
        · exact hinv.above k hold
      · rcases List.mem_cons.1 hk with rfl | hold
        · exact Nat.le_refl _
        · exact (hall k hold).le
    refine ⟨hkept, fun j hj => ?_⟩
    have hnot : w.holder ≠ some j := fun h => hj (Option.some.inj (h.symm.trans hholder))
    refine ⟨fun _ => hkept, ⟨fun h => ?_, fun h => absurd h hnot⟩, fun h => absurd h hnot, fun h => absurd h hnot,
      fun h => absurd h hnot⟩
    have hfree : ((processes ι paths).returns i n w).holder = none := if_pos hholder
    exact (Option.some_ne_none j (h.symm.trans hfree)).elim
  leaves := release_rely

/-- **No number is returned twice, and each is above every one before it**: in every run of any number of processes,
each of which may fail or be killed at any operation.  The counter never falls behind a number returned, and the file
is never left torn. -/
theorem record_seqs_increase (paths : Paths) (hapart : paths.temp ≠ paths.path) (w : World ι) (floor : ℕ)
    (hfloor : counter paths (w.files paths.path) = .ok floor) (hw : w.returned = []) (c : Family.Config ι (World ι) Err Op ℕ)
    (hreaches : Relation.ReflTransGen (processes ι paths).Step (w, fun _ => none) c) :
    c.1.returned.Pairwise (· > ·) ∧ (∀ n ∈ c.1.returned, floor < n ∧ n < 2 ^ 64) ∧
      ∃ m, counter paths (c.1.files paths.path) = .ok m ∧ floor ≤ m ∧ ∀ n ∈ c.1.returned, n ≤ m := by
  have hinv : Inv paths floor w := by
    refine ⟨?_, ?_, floor, hfloor, Nat.le_refl _, ?_⟩
    · rw [hw]
      exact .nil
    · rw [hw]
      exact fun _ h => nomatch h
    · rw [hw]
      exact fun _ h => nomatch h
  obtain ⟨hincreasing, habove, m, hm, hle, hall⟩ := ((sound hapart).reachable hinv hreaches).1
  exact ⟨hincreasing, fun n hn => ⟨habove n hn, (hall n hn).trans_lt (counter_lt hm)⟩, m, hm, hle, hall⟩

/-! ### Two processes, one of them killed -/

def samplePaths : Paths := ⟨"/s/seq", "/s"⟩

def sampleWorld : World Bool := ⟨none, fun _ => none, []⟩

/-- The first process returns one, and the second is killed once it has renamed its file. -/
def sampleFirst : World Bool :=
  (processes Bool samplePaths).returns true 1
    (advance (exec samplePaths true) 11 (sampleWorld, nextRecordSeq samplePaths)).1

def sampleKilled : World Bool :=
  (advance (exec samplePaths false) 11 (sampleFirst, nextRecordSeq samplePaths)).1.release false

def sampleLast : World Bool :=
  (processes Bool samplePaths).returns true 3
    (advance (exec samplePaths true) 11 (sampleKilled, nextRecordSeq samplePaths)).1

theorem record_seqs_increase_sample : sampleLast.returned = [3, 1] ∧ sampleLast.returned.Pairwise (· > ·) ∧
    (∀ n ∈ sampleLast.returned, 0 < n ∧ n < 2 ^ 64) ∧
      ∃ m, counter samplePaths (sampleLast.files samplePaths.path) = .ok m ∧ 0 ≤ m ∧ ∀ n ∈ sampleLast.returned, n ≤ m := by
  have hreaches : Relation.ReflTransGen (processes Bool samplePaths).Step (sampleWorld, fun _ => none)
      (sampleLast, fun _ => none) :=
    (Family.reaches_returned 11 rfl rfl rfl).trans ((Family.reaches_killed 11 rfl rfl).trans
      (Family.reaches_returned 11 rfl rfl rfl))
  exact ⟨rfl, record_seqs_increase samplePaths (by decide) sampleWorld 0 rfl rfl _ hreaches⟩

/-- A counter with the extension of the file beside is written in place. -/
def tornPaths : Paths := ⟨"/s/seq.tmp", "/s"⟩

/-- So that a process killed behind its `create` leaves it torn. -/
theorem counter_left_torn : tornPaths.temp = tornPaths.path ∧ ∃ c : Family.Config Bool (World Bool) Err Op ℕ,
    Relation.ReflTransGen (processes Bool tornPaths).Step (sampleWorld, fun _ => none) c ∧
      counter tornPaths (c.1.files tornPaths.path) = .error ["record sequence /s/seq.tmp is not a counter"] := by
  refine ⟨by decide,
    ⟨(advance (exec tornPaths true) 7 (sampleWorld, nextRecordSeq tornPaths)).1.release true, fun _ => none⟩,
    Family.reaches_killed 7 rfl rfl, ?_⟩
  rfl

end Runs

end RecordSequence
end Subgov
