import Subgov.PoolReconcile
import Subgov.Lib.Lines
import Subgov.Lib.Numbered
/-!
# Lanes — `install_lane` of `codex-productive`

The pool's dispatch lane is put into the text of the NEEDLE configuration, or taken out of it, by its lines: only a plain
sequence of lanes under `strands`, `pluck` and `lanes` is understood, and everything else in the text stays as it is.
-/
namespace Subgov
namespace Lanes

open Python (isSpace)
open Freeze.CodexPool (isIdentifierChar)
open Freeze.CodexPool (Pool settingsRead)
open Lines (join split sectionOf Starts Unbroken)

/-! ## Lanes -/

def isLabelChar (c : Char) : Bool := isIdentifierChar c || c == ':'

/-- `[A-Za-z0-9][A-Za-z0-9_.:-]*` -/
def isLabel : List Char → Bool
  | [] => false
  | c :: rest => c.isAlphanum && rest.all isLabelChar

inductive WhenEmpty
  | idle
  | normal
  deriving DecidableEq

structure Lane where
  label : List Char
  workers : List (List Char)
  whenEmpty : WhenEmpty
  deriving DecidableEq

def labelStem : List Char := "    - label: ".toList

def workersLine : List Char := "      workers:".toList

def workerStem : List Char := "      - ".toList

def WhenEmpty.line : WhenEmpty → List Char
  | .idle => "      when_empty: idle".toList
  | .normal => "      when_empty: normal".toList

def Lane.lines (lane : Lane) : List (List Char) :=
  (labelStem ++ lane.label) :: workersLine :: (lane.workers.map (workerStem ++ ·) ++ [lane.whenEmpty.line])

/-- What a line has after its stem, when that is a word of such characters. -/
def field (stem : List Char) (ok : Char → Bool) (line : List Char) : Option (List Char) :=
  if stem.isPrefixOf line && !(line.drop stem.length).isEmpty && (line.drop stem.length).all ok then
    some (line.drop stem.length)
  else none

def readWhenEmpty (line : List Char) : Option WhenEmpty :=
  if line = WhenEmpty.idle.line then some .idle else if line = WhenEmpty.normal.line then some .normal else none

/-- Where the pattern of a lane has got to. -/
inductive Expect
  | label
  | workers (label : List Char)
  | worker (label : List Char) (workers : List (List Char))

/-- The matches of the pattern, which have to be all of the rows. -/
def entries : Expect → List (List Char) → Option (List Lane)
  | .label, [] => some []
  | .workers _, [] => none
  | .worker _ _, [] => none
  | .label, line :: rest => (field labelStem isLabelChar line).bind fun label => entries (.workers label) rest
  | .workers label, line :: rest => if line = workersLine then entries (.worker label []) rest else none
  | .worker label workers, line :: rest =>
    match field workerStem isIdentifierChar line with
    | some worker => entries (.worker label (workers ++ [worker])) rest
    | none =>
      if workers = [] then none
      else (readWhenEmpty line).bind fun whenEmpty => (entries .label rest).map (⟨label, workers, whenEmpty⟩ :: ·)

/-! ## The layout -/

def isBlank (line : List Char) : Bool := line.all isSpace

/-- `^stem\s*\n`, with the lines after it that are blank. -/
def isHeading (stem : String) (line : List Char) : Bool :=
  stem.toList.isPrefixOf line && isBlank (line.drop stem.toList.length)

/-- `^\S` -/
def endsStrands (line : List Char) : Bool := line.head?.any (!isSpace ·)

/-- `^  [A-Za-z_]` -/
def endsPluck (line : List Char) : Bool :=
  "  ".toList.isPrefixOf line && (line.drop 2).head?.any fun c => c.isAlpha || c == '_'

/-- `(?:    -|      ).*\n` -/
def isRow (line : List Char) : Bool := "    -".toList.isPrefixOf line || "      ".toList.isPrefixOf line

structure Layout where
  before : List (List Char)
  lanes : List Lane
  deriving DecidableEq

def orRaise {α : Type} (text : String) : Option α → Except String α
  | some a => .ok a
  | none => .error text

def readLayout (lines : List (List Char)) : Except String Layout := do
  let strands ← orRaise "missing strands configuration" (sectionOf (isHeading "strands:") isBlank (!endsStrands ·) lines)
  let pluck ← orRaise "missing pluck configuration" (sectionOf (isHeading "  pluck:") isBlank (!endsPluck ·) strands.2)
  let lanes ← orRaise "unrecognized local lane layout" (sectionOf (isHeading "    lanes:") isBlank isRow pluck.2)
  let found ← orRaise "complex or malformed lane layout" (entries .label lanes.2)
  return ⟨strands.1 ++ (pluck.1 ++ lanes.1), found⟩

/-! ## The file -/

/-- The universal newlines of `read_text`. -/
def readText : List Char → List Char
  | [] => []
  | '\r' :: '\n' :: rest => '\n' :: readText rest
  | c :: rest => (if c = '\r' then '\n' else c) :: readText rest

def block (label : List Char) (names : List (List Char)) : List Char :=
  "    - label: ".toList ++ label ++ "\n      workers:\n".toList ++
    names.flatMap (fun name => "      - ".toList ++ name ++ "\n".toList) ++ "      when_empty: idle\n".toList

def laneNames (pool : Pool) : List (List Char) :=
  (List.range' 1 pool.maxWorkers).map (fun i => (pool.ownPrefix ++ toString i).toList) ++
    pool.adopted.map fun entry => entry.workerId.toList

/-- What `install_lane` writes over a text whose lanes it has read, if it writes. -/
def change (label : List Char) (names : List (List Char)) (remove : Bool) (original : List Char) (layout : Layout) :
    Except String (Option (List Char)) :=
  let own := layout.lanes.filter (·.label = label)
  let offset := (join layout.before).length
  if own ≠ [] then
    if own.map (fun lane => join lane.lines) ≠ [block label names] then
      .error "existing owned lane differs; review required"
    else if !remove then .ok none
    else
      let start := offset + (join ((layout.lanes.takeWhile (·.label ≠ label)).flatMap Lane.lines)).length
      .ok (some (original.take start ++ original.drop (start + (block label names).length)))
  else if remove then .ok none
  else if layout.lanes.any fun lane => lane.workers.any (· ∈ names) then
    .error "worker already bound to another lane"
  else
    let start := offset + (join (layout.lanes.flatMap Lane.lines)).length
    .ok (some (original.take start ++ block label names ++ original.drop start))

def installText (label : List Char) (names : List (List Char)) (remove : Bool) (original : List Char) :
    Except String (Option (List Char)) := do
  if !isLabel label then throw "invalid dispatch label"
  change label names remove original (← readLayout (split original).1)

def installLane (pool : Pool) (label : List Char) (symlink remove : Bool) (content : List Char) :
    Except String (Option (List Char)) :=
  if symlink then .error "resolve maintained configuration source first"
  else installText label (laneNames pool) remove (readText content)

/-! ## Reading the lanes -/

/-- What `[...]+` matches. -/
def Word (ok : Char → Bool) (word : List Char) : Prop := word ≠ [] ∧ ∀ c ∈ word, ok c = true

theorem field_eq_some {stem line word : List Char} {ok : Char → Bool} (h : field stem ok line = some word) :
    line = stem ++ word ∧ Word ok word := by
  unfold field at h
  split at h
  · rename_i hline
    obtain rfl := Option.some.inj h
    simp only [Bool.and_eq_true, Bool.not_eq_true', List.isEmpty_eq_false_iff, List.all_eq_true] at hline
    obtain ⟨rest, rfl⟩ := List.isPrefixOf_iff_prefix.1 hline.1.1
    refine ⟨?_, hline.1.2, hline.2⟩
    rw [List.drop_left]
  · cases h

theorem field_stem {word : List Char} {ok : Char → Bool} (h : Word ok word) (stem : List Char) :
    field stem ok (stem ++ word) = some word := by
  have hstem : stem.isPrefixOf (stem ++ word) = true := List.isPrefixOf_iff_prefix.2 (List.prefix_append stem word)
  unfold field
  rw [List.drop_left, if_pos]
  simpa [hstem, h.1] using h.2

theorem readWhenEmpty_line (whenEmpty : WhenEmpty) : readWhenEmpty whenEmpty.line = some whenEmpty := by
  cases whenEmpty <;> decide

theorem readWhenEmpty_eq_some {line : List Char} {whenEmpty : WhenEmpty} (h : readWhenEmpty line = some whenEmpty) :
    line = whenEmpty.line := by
  unfold readWhenEmpty at h
  split at h
  · cases h
    assumption
  · split at h
    · cases h
      assumption
    · cases h

theorem field_whenEmpty (whenEmpty : WhenEmpty) : field workerStem isIdentifierChar whenEmpty.line = none := by
  cases whenEmpty <;> decide

/-- A lane as the pattern matches it. -/
structure Lane.Plain (lane : Lane) : Prop where
  label : Word isLabelChar lane.label
  workers : lane.workers ≠ []
  words : ∀ worker ∈ lane.workers, Word isIdentifierChar worker

/-- The lines of the lane that is being read. -/
def Expect.taken : Expect → List (List Char)
  | .label => []
  | .workers name => [labelStem ++ name]
  | .worker name words => (labelStem ++ name) :: workersLine :: words.map (workerStem ++ ·)

def Expect.Plain : Expect → Prop
  | .label => True
  | .workers name => Word isLabelChar name
  | .worker name words => Word isLabelChar name ∧ ∀ word ∈ words, Word isIdentifierChar word

theorem entries_sound {rows : List (List Char)} {expect : Expect} {lanes : List Lane} (hplain : expect.Plain)
    (h : entries expect rows = some lanes) :
    expect.taken ++ rows = lanes.flatMap Lane.lines ∧ ∀ lane ∈ lanes, lane.Plain := by
  induction rows generalizing expect lanes with
  | nil =>
    cases expect with
    | label =>
      cases h
      exact ⟨rfl, fun _ h => absurd h List.not_mem_nil⟩
    | workers label => cases h
    | worker label workers => cases h
  | cons line rest ih =>
    cases expect with
    | label =>
      obtain ⟨name, hname, hrest⟩ := Option.bind_eq_some_iff.1 h
      obtain ⟨rfl, hword⟩ := field_eq_some hname
      exact @ih (.workers name) lanes hword hrest
    | workers label =>
      simp only [entries] at h
      split at h
      · rename_i hline
        subst hline
        exact @ih (.worker label []) lanes ⟨hplain, fun _ h => absurd h List.not_mem_nil⟩ h
      · cases h
    | worker label workers =>
      simp only [entries] at h
      split at h
      · rename_i worker hworker
        obtain ⟨rfl, hword⟩ := field_eq_some hworker
        have hwords : ∀ w ∈ workers ++ [worker], Word isIdentifierChar w := fun w hw => by
          rcases List.mem_append.1 hw with hw | hw
          · exact hplain.2 w hw
          · rwa [List.mem_singleton.1 hw]
        obtain ⟨hlines, hlanes⟩ := @ih (.worker label (workers ++ [worker])) lanes ⟨hplain.1, hwords⟩ h
        exact ⟨by simpa [Expect.taken] using hlines, hlanes⟩
      · split at h
        · cases h
        · rename_i hworkers
          obtain ⟨whenEmpty, hwhen, h⟩ := Option.bind_eq_some_iff.1 h
          obtain ⟨others, hothers, rfl⟩ := Option.map_eq_some_iff.1 h
          obtain ⟨hlines, hlanes⟩ := @ih .label others trivial hothers
          refine ⟨?_, List.forall_mem_cons.2 ⟨⟨hplain.1, hworkers, hplain.2⟩, hlanes⟩⟩
          rw [readWhenEmpty_eq_some hwhen, List.flatMap_cons, ← hlines]
          simp [Expect.taken, Lane.lines]

theorem entries_worker {label : List Char} {taken workers : List (List Char)} {whenEmpty : WhenEmpty}
    (hwords : ∀ worker ∈ workers, Word isIdentifierChar worker) (hne : taken ++ workers ≠ []) (rest : List (List Char)) :
    entries (.worker label taken) (workers.map (workerStem ++ ·) ++ whenEmpty.line :: rest) =
      (entries .label rest).map (⟨label, taken ++ workers, whenEmpty⟩ :: ·) := by
  induction workers generalizing taken with
  | nil =>
    rw [List.append_nil] at hne ⊢
    simp [entries, field_whenEmpty, readWhenEmpty_line, hne]
  | cons worker workers ih =>
    obtain ⟨hworker, hworkers⟩ := List.forall_mem_cons.1 hwords
    have hlater := @ih (taken ++ [worker]) hworkers (by simp)
    rw [List.append_assoc, List.singleton_append] at hlater
    rw [List.map_cons, List.cons_append, entries, field_stem hworker]
    exact hlater

theorem entries_lane {lane : Lane} (h : lane.Plain) (rest : List (List Char)) :
    entries .label (lane.lines ++ rest) = (entries .label rest).map (lane :: ·) := by
  have hworkers := @entries_worker lane.label [] lane.workers lane.whenEmpty h.words h.workers rest
  rw [List.nil_append] at hworkers
  simpa [Lane.lines, entries, field_stem h.label] using hworkers

theorem entries_lines {lanes : List Lane} (h : ∀ lane ∈ lanes, lane.Plain) :
    entries .label (lanes.flatMap Lane.lines) = some lanes := by
  induction lanes with
  | nil => rfl
  | cons lane lanes ih =>
    obtain ⟨hlane, hlanes⟩ := List.forall_mem_cons.1 h
    rw [List.flatMap_cons, entries_lane hlane, ih hlanes]
    rfl

/-! ## A lane's lines -/

theorem isRow_lines {lane : Lane} {line : List Char} (h : line ∈ lane.lines) : isRow line = true := by
  rcases List.mem_cons.1 h with rfl | h
  · rfl
  rcases List.mem_cons.1 h with rfl | h
  · rfl
  rcases List.mem_append.1 h with h | h
  · obtain ⟨worker, -, rfl⟩ := List.mem_map.1 h
    rfl
  · rw [List.mem_singleton.1 h]
    cases lane.whenEmpty <;> rfl

/-- A row starts with four spaces, and ends neither of the sections around it. -/
theorem ends_of_isRow {line : List Char} (h : isRow line = true) : endsStrands line = false ∧ endsPluck line = false := by
  rcases Bool.or_eq_true_iff.1 h with h | h
  all_goals
    obtain ⟨rest, rfl⟩ := List.isPrefixOf_iff_prefix.1 h
    exact ⟨rfl, rfl⟩

theorem not_blank_label (label : List Char) : isBlank (labelStem ++ label) = false := rfl

theorem word_unbroken {ok : Char → Bool} {word : List Char} (h : Word ok word) (hok : ok '\n' = false) : '\n' ∉ word :=
  fun hmem => by simp [h.2 _ hmem] at hok

theorem unbroken_lines {lane : Lane} (h : lane.Plain) : Unbroken lane.lines := by
  intro line hline
  rcases List.mem_cons.1 hline with rfl | hline
  · exact List.not_mem_append (by decide) (word_unbroken h.label (by decide))
  rcases List.mem_cons.1 hline with rfl | hline
  · decide
  rcases List.mem_append.1 hline with hline | hline
  · obtain ⟨worker, hworker, rfl⟩ := List.mem_map.1 hline
    exact List.not_mem_append (by decide) (word_unbroken (h.words worker hworker) (by decide))
  · rw [List.mem_singleton.1 hline]
    cases lane.whenEmpty <;> decide

/-! ## The lanes may be replaced -/

theorem orRaise_bind {α β : Type} {text : String} {o : Option α} {f : α → Except String β} {b : β}
    (h : (orRaise text o >>= f) = .ok b) : ∃ a, o = some a ∧ f a = .ok b := by
  cases o with
  | none => cases h
  | some a => exact ⟨a, rfl, h⟩

theorem orRaise_some {α β : Type} (text : String) (a : α) (f : α → Except String β) :
    (orRaise text (some a) >>= f) = f a := rfl

theorem readLayout_of_sections {lines : List (List Char)} {strands pluck lanes : List (List Char) × List (List Char)}
    {found : List Lane} (hstrands : sectionOf (isHeading "strands:") isBlank (!endsStrands ·) lines = some strands)
    (hpluck : sectionOf (isHeading "  pluck:") isBlank (!endsPluck ·) strands.2 = some pluck)
    (hlanes : sectionOf (isHeading "    lanes:") isBlank isRow pluck.2 = some lanes)
    (hfound : entries .label lanes.2 = some found) :
    readLayout lines = .ok ⟨strands.1 ++ (pluck.1 ++ lanes.1), found⟩ := by
  rw [readLayout, hstrands, orRaise_some, hpluck, orRaise_some, hlanes, orRaise_some, hfound, orRaise_some]
  rfl

theorem sections_of_readLayout {lines : List (List Char)} {layout : Layout} (h : readLayout lines = .ok layout) :
    ∃ strands pluck lanes, sectionOf (isHeading "strands:") isBlank (!endsStrands ·) lines = some strands ∧
      sectionOf (isHeading "  pluck:") isBlank (!endsPluck ·) strands.2 = some pluck ∧
      sectionOf (isHeading "    lanes:") isBlank isRow pluck.2 = some lanes ∧
      entries .label lanes.2 = some layout.lanes ∧ layout.before = strands.1 ++ (pluck.1 ++ lanes.1) := by
  obtain ⟨strands, hstrands, h⟩ := orRaise_bind h
  obtain ⟨pluck, hpluck, h⟩ := orRaise_bind h
  obtain ⟨lanes, hlanes, h⟩ := orRaise_bind h
  obtain ⟨found, hfound, h⟩ := orRaise_bind h
  obtain rfl := Except.ok.inj h
  exact ⟨strands, pluck, lanes, hstrands, hpluck, hlanes, hfound, rfl⟩

/-- The lanes that are read may be replaced by others, at least one: nothing around them moves. -/
theorem readLayout_ok {lines : List (List Char)} {layout : Layout} (h : readLayout lines = .ok layout) :
    (∀ lane ∈ layout.lanes, lane.Plain) ∧ ∃ after, lines = layout.before ++ (layout.lanes.flatMap Lane.lines ++ after) ∧
      ∀ lanes, lanes ≠ [] → (∀ lane ∈ lanes, lane.Plain) →
        readLayout (layout.before ++ (lanes.flatMap Lane.lines ++ after)) = .ok ⟨layout.before, lanes⟩ := by
  obtain ⟨strands, pluck, rows, hstrands, hpluck, hrows, hfound, hbefore⟩ := sections_of_readLayout h
  obtain ⟨-, hkeepStrands, afterStrands, hlines, hstarts, hstrandsOther⟩ := Lines.sectionOf_eq_some hstrands
  obtain ⟨hpluckNe, hkeepPluck, afterPluck, hpluckIn, hpluckStarts, hpluckOther⟩ := Lines.sectionOf_eq_some hpluck
  obtain ⟨hlanesNe, -, afterRows, hlanesIn, -, hrowsOther⟩ := Lines.sectionOf_eq_some hrows
  obtain ⟨hentries, hplain⟩ := @entries_sound rows.2 .label layout.lanes trivial hfound
  rw [Expect.taken, List.nil_append] at hentries
  refine ⟨hplain, afterRows ++ (afterPluck ++ afterStrands), ?_, fun lanes hne hlanes => ?_⟩
  · rw [hlines, hpluckIn, hlanesIn, hentries, hbefore]
    simp
  have hrow : ∀ line ∈ lanes.flatMap Lane.lines, isRow line = true := fun line hline => by
    obtain ⟨lane, -, hlane⟩ := List.mem_flatMap.1 hline
    exact isRow_lines hlane
  have hstart : Starts isBlank (lanes.flatMap Lane.lines ++ afterRows) := by
    cases lanes with
    | nil => exact absurd rfl hne
    | cons lane others => exact Lines.starts_cons (not_blank_label lane.label) _
  have hpluckKeeps : ∀ line ∈ rows.1 ++ (lanes.flatMap Lane.lines ++ afterRows), (!endsPluck line) = true := by
    intro line hline
    rcases List.mem_append.1 hline with hline | hline
    · exact hkeepPluck line (by rw [hlanesIn]; exact List.mem_append_left _ hline)
    rcases List.mem_append.1 hline with hline | hline
    · simp [(ends_of_isRow (hrow line hline)).2]
    · exact hkeepPluck line (by rw [hlanesIn]; exact List.mem_append_right _ (List.mem_append_right _ hline))
  have hstrandsKeeps : ∀ line ∈ pluck.1 ++ (rows.1 ++ (lanes.flatMap Lane.lines ++ afterRows) ++ afterPluck),
      (!endsStrands line) = true := by
    have hold : ∀ line, line ∈ pluck.1 ∨ line ∈ rows.1 ∨ line ∈ afterRows ∨ line ∈ afterPluck →
        (!endsStrands line) = true := fun line hline => hkeepStrands line (by
      rw [hpluckIn, hlanesIn]
      simp only [List.mem_append]
      tauto)
    intro line hline
    simp only [List.mem_append] at hline
    by_cases hmem : line ∈ lanes.flatMap Lane.lines
    · simp [(ends_of_isRow (hrow line hmem)).1]
    · exact hold line (by tauto)
  have hpluckStart : Starts isBlank (rows.1 ++ (lanes.flatMap Lane.lines ++ afterRows) ++ afterPluck) := by
    rw [hlanesIn, List.append_assoc] at hpluckStarts
    rw [List.append_assoc]
    exact hpluckStarts.of_append hlanesNe _
  have hstrandsStart : Starts isBlank
      (pluck.1 ++ (rows.1 ++ (lanes.flatMap Lane.lines ++ afterRows) ++ afterPluck) ++ afterStrands) := by
    rw [hpluckIn, List.append_assoc] at hstarts
    rw [List.append_assoc]
    exact hstarts.of_append hpluckNe _
  have hnew := readLayout_of_sections (hstrandsOther _ hstrandsStart hstrandsKeeps) (hpluckOther _ hpluckStart hpluckKeeps)
    (hrowsOther _ hstart hrow) (entries_lines hlanes)
  rw [hbefore]
  simpa using hnew

/-! ## The text -/

/-- The lane of the pool. -/
def ownLane (label : List Char) (names : List (List Char)) : Lane := ⟨label, names, .idle⟩

theorem block_eq (label : List Char) (names : List (List Char)) : block label names = join (ownLane label names).lines := by
  have hworkers : "\n      workers:\n".toList = '\n' :: (workersLine ++ ['\n']) := by decide
  have hend : "      when_empty: idle\n".toList = WhenEmpty.idle.line ++ ['\n'] := by decide
  have hbreak : "\n".toList = ['\n'] := by decide
  have hnames : names.flatMap (fun name => workerStem ++ name ++ ['\n']) = join (names.map (workerStem ++ ·)) := by
    rw [join, List.flatMap_map]
  show labelStem ++ label ++ _ ++ names.flatMap (fun name => workerStem ++ name ++ _) ++ _ = _
  rw [hworkers, hend, hbreak, hnames]
  simp [Lane.lines, ownLane]

/-- A text whose lanes are read, with others in their place. -/
theorem readLayout_text {text : List Char} {layout : Layout} (h : readLayout (split text).1 = .ok layout) :
    ∃ tail, text = join layout.before ++ (join (layout.lanes.flatMap Lane.lines) ++ tail) ∧
      (∀ lane ∈ layout.lanes, lane.Plain) ∧
      ∀ lanes, lanes ≠ [] → (∀ lane ∈ lanes, lane.Plain) →
        readLayout (split (join layout.before ++ (join (lanes.flatMap Lane.lines) ++ tail))).1 =
          .ok ⟨layout.before, lanes⟩ := by
  obtain ⟨hplain, after, hlines, hother⟩ := readLayout_ok h
  obtain ⟨hunbroken, hlast⟩ := Lines.unbroken_split text
  refine ⟨join after ++ (split text).2, ?_, hplain, fun lanes hne hlanes => ?_⟩
  · conv_lhs => rw [← Lines.join_split text, hlines]
    simp
  · have hall : Unbroken (layout.before ++ (lanes.flatMap Lane.lines ++ after)) := by
      rw [hlines] at hunbroken
      intro line hline
      by_cases hmem : line ∈ lanes.flatMap Lane.lines
      · obtain ⟨lane, hlane, hin⟩ := List.mem_flatMap.1 hmem
        exact unbroken_lines (hlanes lane hlane) line hin
      · refine hunbroken line ?_
        simp only [List.mem_append] at hline ⊢
        tauto
    have hsplit := Lines.split_join hall hlast
    simp only [Lines.join_append, List.append_assoc] at hsplit
    rw [hsplit]
    exact hother lanes hne hlanes

section Change

variable {label text updated : List Char} {names : List (List Char)} {layout : Layout}

/-- No lane has the label, or a worker of the names. -/
def Apart (label : List Char) (names : List (List Char)) (lanes : List Lane) : Prop :=
  ∀ lane ∈ lanes, lane.label ≠ label ∧ ∀ worker ∈ lane.workers, worker ∉ names

theorem change_installs (h : change label names false text layout = .ok (some updated)) :
    Apart label names layout.lanes ∧
      updated = text.take ((join layout.before).length + (join (layout.lanes.flatMap Lane.lines)).length) ++
        block label names ++ text.drop ((join layout.before).length + (join (layout.lanes.flatMap Lane.lines)).length) := by
  unfold change at h
  by_cases hown : layout.lanes.filter (·.label = label) = []
  · simp only [hown, ne_eq, not_true_eq_false, if_false, Bool.false_eq_true] at h
    split at h
    · cases h
    · rename_i hbound
      refine ⟨fun lane hlane => ⟨fun heq => ?_, fun worker hworker hname => ?_⟩,
        (Option.some.inj (Except.ok.inj h)).symm⟩
      · exact List.filter_eq_nil_iff.1 hown lane hlane (decide_eq_true heq)
      · exact hbound (List.any_eq_true.2 ⟨lane, hlane, List.any_eq_true.2 ⟨worker, hworker, decide_eq_true hname⟩⟩)
  · simp only [hown, ne_eq, not_false_eq_true, if_true, Bool.not_false] at h
    split at h
    all_goals cases h

theorem change_removes (h : change label names true text layout = .ok (some updated)) :
    (layout.lanes.filter (·.label = label)).map (fun lane => join lane.lines) = [block label names] ∧
      updated = text.take ((join layout.before).length +
          (join ((layout.lanes.takeWhile (·.label ≠ label)).flatMap Lane.lines)).length) ++
        text.drop ((join layout.before).length +
          (join ((layout.lanes.takeWhile (·.label ≠ label)).flatMap Lane.lines)).length + (block label names).length) := by
  unfold change at h
  by_cases hown : layout.lanes.filter (·.label = label) = []
  · simp [hown] at h
  · simp only [ne_eq, hown, not_false_eq_true, if_true] at h
    split at h
    · cases h
    · rename_i hsame
      simp only [Bool.not_true, Bool.false_eq_true, if_false] at h
      exact ⟨not_not.1 hsame, (Option.some.inj (Except.ok.inj h)).symm⟩

/-- What is done over a text that has the pool's lane last. -/
theorem change_installed (hapart : Apart label names layout.lanes) (remove : Bool) :
    change label names remove text ⟨layout.before, layout.lanes ++ [ownLane label names]⟩ =
      if remove then
        .ok (some (text.take ((join layout.before).length + (join (layout.lanes.flatMap Lane.lines)).length) ++
          text.drop ((join layout.before).length + (join (layout.lanes.flatMap Lane.lines)).length +
            (block label names).length)))
      else .ok none := by
  have hfilter : (layout.lanes ++ [ownLane label names]).filter (·.label = label) = [ownLane label names] := by
    rw [List.filter_append, List.filter_eq_nil_iff.2 fun lane hlane => by simp [(hapart lane hlane).1]]
    simp [ownLane]
  have htake : (layout.lanes ++ [ownLane label names]).takeWhile (·.label ≠ label) = layout.lanes := by
    rw [List.takeWhile_append_of_pos fun lane hlane => by simp [(hapart lane hlane).1]]
    simp [ownLane]
  unfold change
  simp only [hfilter, htake, ← block_eq, List.map_cons, List.map_nil]
  cases remove <;> simp

end Change

/-! ## Putting the lane in and taking it out -/

/-- The lanes that are read of a text. -/
def lanesOf (text : List Char) : Except String (List Lane) := (readLayout (split text).1).map Layout.lanes

theorem lanesOf_of_read {text : List Char} {layout : Layout} (h : readLayout (split text).1 = .ok layout) :
    lanesOf text = .ok layout.lanes := by
  unfold lanesOf
  rw [h]
  rfl

section Text

variable {label text updated : List Char} {names : List (List Char)} {remove : Bool}

theorem word_of_isLabel (h : isLabel label = true) : Word isLabelChar label := by
  cases label with
  | nil => cases h
  | cons c rest =>
    obtain ⟨hc, hrest⟩ := Bool.and_eq_true_iff.1 h
    refine ⟨List.cons_ne_nil c rest, List.forall_mem_cons.2 ⟨?_, List.all_eq_true.1 hrest⟩⟩
    simp [isLabelChar, isIdentifierChar, hc]

theorem installText_of_read {layout : Layout} (hlabel : isLabel label = true)
    (hread : readLayout (split text).1 = .ok layout) :
    installText label names remove text = change label names remove text layout := by
  unfold installText
  rw [hread, hlabel]
  rfl

theorem installText_ok {result : Option (List Char)} (h : installText label names remove text = .ok result) :
    isLabel label = true ∧ ∃ layout, readLayout (split text).1 = .ok layout ∧
      change label names remove text layout = .ok result := by
  by_cases hlabel : isLabel label = true
  · cases hread : readLayout (split text).1 with
    | error e =>
      unfold installText at h
      rw [hread, hlabel] at h
      cases h
    | ok layout => exact ⟨hlabel, layout, rfl, installText_of_read hlabel hread ▸ h⟩
  · unfold installText at h
    simp only [hlabel] at h
    cases h

theorem take_drop_between {before block after : List Char} :
    (before ++ (block ++ after)).take before.length ++ (before ++ (block ++ after)).drop (before.length + block.length) =
      before ++ after := by
  rw [List.take_left, ← List.drop_drop, List.drop_left, List.drop_left]

/-- What putting the lane in does to a text. -/
structure InstalledText (label : List Char) (names : List (List Char)) (text updated : List Char) : Prop where
  placed : ∃ before after, text = before ++ after ∧ updated = before ++ (block label names ++ after)
  lanes : ∃ lanes, lanesOf text = .ok lanes ∧ Apart label names lanes ∧
    lanesOf updated = .ok (lanes ++ [ownLane label names])
  again : installText label names false updated = .ok none
  undone : installText label names true updated = .ok (some text)

theorem installText_installs (hne : names ≠ []) (hwords : ∀ name ∈ names, Word isIdentifierChar name)
    (h : installText label names false text = .ok (some updated)) : InstalledText label names text updated := by
  obtain ⟨hlabel, layout, hread, hchange⟩ := installText_ok h
  obtain ⟨hapart, hupdated⟩ := change_installs hchange
  obtain ⟨tail, htext, hplain, hother⟩ := readLayout_text hread
  have hplace : updated = (join layout.before ++ join (layout.lanes.flatMap Lane.lines)) ++ (block label names ++ tail) := by
    rw [hupdated, htext, ← List.append_assoc, ← List.length_append, List.take_left, List.drop_left, List.append_assoc]
  have hown : ∀ lane ∈ layout.lanes ++ [ownLane label names], lane.Plain := fun lane hlane => by
    rcases List.mem_append.1 hlane with hlane | hlane
    · exact hplain lane hlane
    · rw [List.mem_singleton.1 hlane]
      exact ⟨word_of_isLabel hlabel, hne, hwords⟩
  have hnew := hother (layout.lanes ++ [ownLane label names]) (by simp) hown
  have hsame :
      join layout.before ++ (join ((layout.lanes ++ [ownLane label names]).flatMap Lane.lines) ++ tail) = updated := by
    rw [hplace, block_eq]
    simp
  rw [hsame] at hnew
  refine ⟨⟨_, _, by rw [htext, List.append_assoc], hplace⟩,
    ⟨layout.lanes, lanesOf_of_read hread, hapart, lanesOf_of_read hnew⟩, ?_, ?_⟩
  · rw [installText_of_read hlabel hnew, change_installed hapart]
    rfl
  · rw [installText_of_read hlabel hnew, change_installed hapart, if_pos rfl, ← List.length_append, hplace,
      take_drop_between, htext, List.append_assoc]

/-- What taking the lane out does to a text. -/
structure RemovedText (label : List Char) (names : List (List Char)) (text updated : List Char) : Prop where
  cut : ∃ before after, text = before ++ (block label names ++ after) ∧ updated = before ++ after
  others : ∀ lanes, lanesOf text = .ok lanes → lanes.filter (·.label ≠ label) ≠ [] →
    lanesOf updated = .ok (lanes.filter (·.label ≠ label)) ∧ installText label names true updated = .ok none

/-- The one lane with the label, with the lanes on both sides of it. -/
theorem split_at_label {lanes : List Lane} {shape : List Char}
    (h : (lanes.filter (·.label = label)).map (fun lane => join lane.lines) = [shape]) :
    ∃ lane rest, lanes = lanes.takeWhile (·.label ≠ label) ++ lane :: rest ∧ join lane.lines = shape ∧
      lanes.filter (·.label ≠ label) = lanes.takeWhile (·.label ≠ label) ++ rest := by
  induction lanes with
  | nil => cases h
  | cons lane lanes ih =>
    by_cases hlane : lane.label = label
    · rw [List.filter_cons_of_pos (by simpa using hlane), List.map_cons] at h
      obtain ⟨hshape, hnone⟩ := List.cons.inj h
      have hothers : lanes.filter (·.label ≠ label) = lanes := List.filter_eq_self.2 fun other hother => by
        simpa using List.filter_eq_nil_iff.1 (List.map_eq_nil_iff.1 hnone) other hother
      refine ⟨lane, lanes, ?_, hshape, ?_⟩
      · simp [hlane]
      · rw [List.filter_cons_of_neg (by simpa using hlane), hothers]
        simp [hlane]
    · rw [List.filter_cons_of_neg (by simpa using hlane)] at h
      obtain ⟨own, rest, hlanes, hshape, hothers⟩ := ih h
      refine ⟨own, rest, ?_, hshape, ?_⟩
      · rw [List.takeWhile_cons_of_pos (by simpa using hlane), List.cons_append, ← hlanes]
      · rw [List.filter_cons_of_pos (by simpa using hlane), List.takeWhile_cons_of_pos (by simpa using hlane), hothers]
        rfl

theorem installText_removes (h : installText label names true text = .ok (some updated)) :
    RemovedText label names text updated := by
  obtain ⟨hlabel, layout, hread, hchange⟩ := installText_ok h
  obtain ⟨hown, hupdated⟩ := change_removes hchange
  obtain ⟨tail, htext, hplain, hother⟩ := readLayout_text hread
  obtain ⟨lane, rest, hlanes, hshape, hothers⟩ := split_at_label hown
  have hcut : text = (join layout.before ++ join ((layout.lanes.takeWhile (·.label ≠ label)).flatMap Lane.lines)) ++
      (block label names ++ (join (rest.flatMap Lane.lines) ++ tail)) := by
    conv_lhs => rw [htext, hlanes]
    simp [hshape]
  rw [← List.length_append, hcut, take_drop_between] at hupdated
  refine ⟨⟨_, _, hcut, hupdated⟩, fun lanes hlanesOf hne => ?_⟩
  obtain rfl := Except.ok.inj ((lanesOf_of_read hread).symm.trans hlanesOf)
  have hnew := hother (layout.lanes.filter (·.label ≠ label)) hne fun other h => hplain other (List.mem_of_mem_filter h)
  have hsame :
      join layout.before ++ (join ((layout.lanes.filter (·.label ≠ label)).flatMap Lane.lines) ++ tail) = updated := by
    rw [hupdated, hothers]
    simp
  rw [hsame] at hnew
  refine ⟨lanesOf_of_read hnew, ?_⟩
  rw [installText_of_read hlabel hnew]
  unfold change
  simp

end Text

/-! ## The file of the pool -/

theorem not_mem_readText (content : List Char) : '\r' ∉ readText content := by
  induction content using readText.induct with
  | case1 => exact List.not_mem_nil
  | case2 rest ih => exact List.not_mem_cons_of_ne_of_not_mem (by decide) ih
  | case3 c rest hpair ih =>
    rw [readText]
    · refine List.not_mem_cons_of_ne_of_not_mem ?_ ih
      by_cases hc : c = '\r'
      · rw [if_pos hc]
        decide
      · rw [if_neg hc]
        exact Ne.symm hc
    · exact hpair

/-- A text without carriage returns is read as it is. -/
theorem readText_eq_self {content : List Char} (h : '\r' ∉ content) : readText content = content := by
  induction content using readText.induct with
  | case1 => rfl
  | case2 rest ih => exact absurd List.mem_cons_self h
  | case3 c rest hpair ih =>
    rw [readText, if_neg (List.ne_of_not_mem_cons h).symm, ih (List.not_mem_of_not_mem_cons h)]
    exact hpair

section File

variable {settings : Freeze.CodexPool.Settings} {ownPrefix actuatorState : String} {maxWorkers : ℤ}
  {resolve : String → String} {pool : Pool} {label content updated : List Char}

theorem settingsRead_ok (h : settingsRead settings ownPrefix maxWorkers actuatorState resolve = .ok pool) :
    pool.ownPrefix = "sg-codex-" ∧ 1 ≤ pool.maxWorkers ∧
      ∀ entry ∈ pool.adopted, Freeze.CodexPool.isIdentifier entry.workerId = true := by
  unfold settingsRead at h
  by_cases hpool : ownPrefix ≠ "sg-codex-" ∨ ¬ (1 ≤ maxWorkers ∧ maxWorkers ≤ 12)
  · rw [if_pos hpool] at h
    cases h
  rw [if_neg hpool] at h
  split at h
  · cases h
  split at h
  · cases h
  rename_i hadopted
  split at h
  · split at h
    · obtain rfl := Except.ok.inj h
      refine ⟨?_, ?_, fun entry hentry => ?_⟩
      · by_contra hstem
        exact hpool (.inl hstem)
      · have hmax : 1 ≤ maxWorkers := by
          by_contra hmax
          exact hpool (.inr fun hboth => hmax hboth.1)
        show 1 ≤ maxWorkers.toNat
        omega
      · simp only [Bool.not_eq_true', Bool.not_eq_false, List.all_eq_true, Bool.and_eq_true] at hadopted
        exact (hadopted entry hentry).1.1
    · cases h
  · cases h

theorem word_of_isIdentifier {s : String} (h : Freeze.CodexPool.isIdentifier s = true) : Word isIdentifierChar s.toList := by
  unfold Freeze.CodexPool.isIdentifier at h
  cases hs : s.toList with
  | nil =>
    rw [hs] at h
    cases h
  | cons c rest =>
    rw [hs] at h
    obtain ⟨hc, hrest⟩ := Bool.and_eq_true_iff.1 h
    refine ⟨List.cons_ne_nil c rest, List.forall_mem_cons.2 ⟨?_, List.all_eq_true.1 hrest⟩⟩
    simp [isIdentifierChar, hc]

/-- The names of an accepted pool are words that the pattern of a lane takes. -/
theorem words_laneNames (h : settingsRead settings ownPrefix maxWorkers actuatorState resolve = .ok pool) :
    laneNames pool ≠ [] ∧ ∀ name ∈ laneNames pool, Word isIdentifierChar name := by
  obtain ⟨hstem, hmax, hadopted⟩ := settingsRead_ok h
  refine ⟨fun hnil => ?_, fun name hname => ?_⟩
  · have hlength := congrArg List.length (List.append_eq_nil_iff.1 hnil).1
    simp only [List.length_map, List.length_range', List.length_nil] at hlength
    omega
  · rcases List.mem_append.1 hname with hname | hname
    · obtain ⟨i, -, rfl⟩ := List.mem_map.1 hname
      have hlist : (pool.ownPrefix ++ toString i).toList = "sg-codex-".toList ++ Nat.toDigits 10 i := by
        rw [hstem, String.toList_append]
        congr 1
        exact String.toList_ofList
      rw [hlist]
      refine ⟨by simp, fun c hc => ?_⟩
      rcases List.mem_append.1 hc with hc | hc
      · have hall : "sg-codex-".toList.all isIdentifierChar = true := rfl
        exact List.all_eq_true.1 hall c hc
      · simp [isIdentifierChar, Char.isAlphanum, Numbered.isDigit_toDigits c hc]
    · obtain ⟨entry, hentry, rfl⟩ := List.mem_map.1 hname
      exact word_of_isIdentifier (hadopted entry hentry)

theorem not_mem_block {names : List (List Char)} (hlabel : isLabel label = true)
    (hwords : ∀ name ∈ names, Word isIdentifierChar name) : '\r' ∉ block label names := by
  have hlabelWord : '\r' ∉ label := fun h => absurd ((word_of_isLabel hlabel).2 _ h) (by decide)
  have hnames : '\r' ∉ names.flatMap (fun name => "      - ".toList ++ name ++ "\n".toList) := fun h => by
    obtain ⟨name, hname, h⟩ := List.mem_flatMap.1 h
    have hword : '\r' ∉ name := fun h => absurd ((hwords name hname).2 _ h) (by decide)
    rcases List.mem_append.1 h with h | h
    · exact List.not_mem_append (by decide) hword h
    · exact absurd h (by decide)
  exact List.not_mem_append (List.not_mem_append (List.not_mem_append (List.not_mem_append (by decide) hlabelWord)
    (by decide)) hnames) (by decide)

/-- What `install-lane` does to the configuration. -/
structure Installed (pool : Pool) (label text updated : List Char) : Prop where
  placed : ∃ before after, text = before ++ after ∧ updated = before ++ (block label (laneNames pool) ++ after)
  lanes : ∃ lanes, lanesOf text = .ok lanes ∧ Apart label (laneNames pool) lanes ∧
    lanesOf updated = .ok (lanes ++ [ownLane label (laneNames pool)])
  again : installLane pool label false false updated = .ok none
  undone : installLane pool label false true updated = .ok (some text)

/-- What `remove-lane` does to the configuration. -/
structure Removed (pool : Pool) (label text updated : List Char) : Prop where
  cut : ∃ before after, text = before ++ (block label (laneNames pool) ++ after) ∧ updated = before ++ after
  others : ∀ lanes, lanesOf text = .ok lanes → lanes.filter (·.label ≠ label) ≠ [] →
    lanesOf updated = .ok (lanes.filter (·.label ≠ label)) ∧ installLane pool label false true updated = .ok none

theorem installLane_regular (pool : Pool) (label : List Char) (remove : Bool) (content : List Char) :
    installLane pool label false remove content = installText label (laneNames pool) remove (readText content) := rfl

theorem installLane_ok {symlink remove : Bool} {result : Option (List Char)}
    (h : installLane pool label symlink remove content = .ok result) :
    symlink = false ∧ installText label (laneNames pool) remove (readText content) = .ok result := by
  cases symlink with
  | false => exact ⟨rfl, h⟩
  | true => cases h

/-- Putting the lane of an accepted pool into a configuration adds its block and nothing else, between the lanes that
were there, none of which has its label or a worker of it; doing it again changes nothing, and taking the lane out
gives the text that was read, which is the file's own when it has no carriage return. -/
theorem install_lane_undone (hread : settingsRead settings ownPrefix maxWorkers actuatorState resolve = .ok pool)
    (symlink : Bool) :
    (installLane pool label symlink false content = .ok (some updated) → Installed pool label (readText content) updated) ∧
      (installLane pool label symlink true content = .ok (some updated) → Removed pool label (readText content) updated) ∧
      ('\r' ∉ content → readText content = content) := by
  obtain ⟨hne, hwords⟩ := words_laneNames hread
  refine ⟨fun h => ?_, fun h => ?_, readText_eq_self⟩
  · obtain ⟨-, h⟩ := installLane_ok h
    obtain ⟨hplaced, hlanes, hagain, hundone⟩ := installText_installs hne hwords h
    have hsame : readText updated = updated := by
      obtain ⟨before, after, htext, hupdated⟩ := hplaced
      have hclean : '\r' ∉ before ++ after := htext ▸ not_mem_readText content
      refine readText_eq_self ?_
      rw [hupdated]
      simp only [List.mem_append, not_or] at hclean ⊢
      exact ⟨hclean.1, not_mem_block (installText_ok h).1 hwords, hclean.2⟩
    refine ⟨hplaced, hlanes, ?_, ?_⟩
    · rw [installLane_regular, hsame, hagain]
    · rw [installLane_regular, hsame, hundone]
  · obtain ⟨-, h⟩ := installLane_ok h
    obtain ⟨hcut, hothers⟩ := installText_removes h
    have hsame : readText updated = updated := by
      obtain ⟨before, after, htext, hupdated⟩ := hcut
      have hclean := not_mem_readText content
      refine readText_eq_self ?_
      rw [hupdated]
      rw [htext] at hclean
      simp only [List.mem_append, not_or] at hclean ⊢
      exact ⟨hclean.1, hclean.2.2⟩
    refine ⟨hcut, fun lanes hlanes hnil => ?_⟩
    rw [installLane_regular, hsame]
    exact hothers lanes hlanes hnil

end File

def sampleSettings : Freeze.CodexPool.Settings := ⟨fun _ => .ok 0, "codex-a", [⟨"b", "codex-a", none, "/w"⟩]⟩

def samplePool : Pool where
  toSettings := sampleSettings
  ownPrefix := "sg-codex-"
  maxWorkers := 1
  actuatorState := "/s"
  resolve := id
  ids := by decide
  foreign := by decide
  units := by
    intro entry hentry unit hunit
    obtain rfl := List.mem_singleton.1 hentry
    cases hunit

theorem samplePool_read : settingsRead sampleSettings "sg-codex-" 1 "/s" id = .ok samplePool := rfl

def sampleBefore : List Char := "strands:\n  pluck:\n    lanes:\n".toList ++ block ['n'] [['c']]

/-- A configuration with another worker's lane. -/
def sampleText : List Char := sampleBefore ++ "x:".toList

def sampleInstalled : List Char := sampleBefore ++ block ['m'] ["sg-codex-1".toList, ['b']] ++ "x:".toList

theorem install_lane_undone_sample :
    lanesOf sampleText = .ok [ownLane ['n'] [['c']]] ∧
      Installed samplePool ['m'] (readText sampleText) sampleInstalled ∧
      Removed samplePool ['m'] (readText sampleInstalled) sampleText :=
  ⟨by decide +kernel,
    (@install_lane_undone sampleSettings "sg-codex-" "/s" 1 id samplePool ['m'] sampleText sampleInstalled samplePool_read
      false).1 (by decide +kernel),
    (@install_lane_undone sampleSettings "sg-codex-" "/s" 1 id samplePool ['m'] sampleInstalled sampleText samplePool_read
      false).2.1 (by decide +kernel)⟩

end Lanes
end Subgov
