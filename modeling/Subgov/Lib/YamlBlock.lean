import Subgov.Lib.Yaml
/-!
# YamlBlock — documents in block style

A document as a tree of its layout: block mappings and sequences with their indentation, flow nodes and literals where
they stand, and the blank and comment lines between.  `Slot.head` and `Slot.tail` write a node behind the indicator of
its parent: the rest of that line, and the lines below it.

Two layouts of YAML are outside this: an entry with an empty key and no `?` before it (`: value`), and a literal that
the file ends in without a last line break.
-/
namespace Yaml

abbrev Line := List Char

/-! ## Lines -/

def indentOf (line : Line) : Nat := (line.takeWhile (· == ' ')).length

/-- A blank line, or a comment by itself. -/
def isGap (line : Line) : Bool := blank line || (trimLeft line).head? == some '#'

/-- What may stand behind a node on its line: white space, and a comment behind that. -/
def isTrail (trail : Line) : Bool :=
  blank trail || (!trail.contains '\n' && trail.head?.any isWhite && (trimLeft trail).head? == some '#')

def spaces (n : Nat) : Line := List.replicate n ' '

/-- The first line of a text, and the others. -/
def firstLine (text : List Char) : Line := text.takeWhile (· != '\n')

def otherLines (text : List Char) : List Line := (text.splitOn '\n').tail

/-! ## Layout -/

/-- Where a node starts: on the line of its indicator, or on a line of its own. -/
inductive Lead
  | here (space : Line)
  | below (trail : Line) (gap : List Line) (space : Line)

/-- The header of a literal: `|`, the indentation of its content if it is told, and what becomes of its last breaks. -/
structure LiteralHeader where
  width : Option Nat
  chomp : Option Char

mutual

/-- A node where its parent has one.  The indentation of a collection is that of its entries. -/
inductive Slot
  | empty (trail : Line) (gap : List Line)
  | flow (lead : Lead) (text : List Char) (node : Node) (trail : Line) (gap : List Line)
  | literal (lead : Lead) (header : LiteralHeader) (trail : Line) (width : Nat) (lines gap : List Line)
  | mapping (trail : Line) (gap : List Line) (indent : Nat) (entries : Entries)
  | sequence (trail : Line) (gap : List Line) (indent : Nat) (items : Items)
  /-- A collection whose first entry stands on the line of the indicator. -/
  | compactMapping (indent : Nat) (entries : Entries)
  | compactSequence (indent : Nat) (items : Items)

/-- An entry without `?` has a key. -/
inductive Entries
  | nil
  | implicit (key : List Char) (keyNode : Node) (space : Line) (value : Slot) (rest : Entries)
  | explicit (key : Slot) (rest : Entries)
  | explicitValue (key value : Slot) (rest : Entries)

inductive Items
  | nil
  | cons (value : Slot) (rest : Items)

end

/-! ## Text -/

def LiteralHeader.text (h : LiteralHeader) : Line :=
  '|' :: (h.width.elim [] fun n => (Nat.repr n).toList) ++ h.chomp.toList

/-- The lines from a node's first one on, behind its lead. -/
def Lead.head (lead : Lead) (first : Line) : Line :=
  match lead with
  | here space => space ++ first
  | below trail _ _ => trail

def Lead.tail (lead : Lead) (first : Line) (others : List Line) : List Line :=
  match lead with
  | here _ => others
  | below _ gap space => gap ++ (space ++ first) :: others

mutual

/-- The rest of the line behind the indicator, which ends before a column. -/
def Slot.head (column : Nat) : Slot → Line
  | .empty trail _ => trail
  | .flow lead text _ trail _ => lead.head (firstLine (text ++ trail))
  | .literal lead header trail _ _ _ => lead.head (header.text ++ trail)
  | .mapping trail _ _ _ => trail
  | .sequence trail _ _ _ => trail
  | .compactMapping indent entries => ((entries.lines indent).headD []).drop column
  | .compactSequence indent items => ((items.lines indent).headD []).drop column

def Slot.tail : Slot → List Line
  | .empty _ gap => gap
  | .flow lead text _ trail gap => lead.tail (firstLine (text ++ trail)) (otherLines (text ++ trail)) ++ gap
  | .literal lead header trail _ lines gap => lead.tail (header.text ++ trail) lines ++ gap
  | .mapping _ gap indent entries => gap ++ entries.lines indent
  | .sequence _ gap indent items => gap ++ items.lines indent
  | .compactMapping indent entries => (entries.lines indent).tail
  | .compactSequence indent items => (items.lines indent).tail

def Entries.lines (indent : Nat) : Entries → List Line
  | .nil => []
  | .implicit key _ space value rest =>
    (spaces indent ++ key ++ space ++ ':' :: value.head (indent + 1)) :: (value.tail ++ rest.lines indent)
  | .explicit key rest => (spaces indent ++ '?' :: key.head (indent + 1)) :: (key.tail ++ rest.lines indent)
  | .explicitValue key value rest =>
    (spaces indent ++ '?' :: key.head (indent + 1)) :: (key.tail ++
      (spaces indent ++ ':' :: value.head (indent + 1)) :: (value.tail ++ rest.lines indent))

def Items.lines (indent : Nat) : Items → List Line
  | .nil => []
  | .cons value rest => (spaces indent ++ '-' :: value.head (indent + 1)) :: (value.tail ++ rest.lines indent)

end

/-! ## Meaning -/

/-- The content of a literal: its lines without their indentation, and its last breaks as the header says. -/
def literalContent (header : LiteralHeader) (width : Nat) (lines : List Line) : List Char :=
  let stripped := lines.map (·.drop width)
  let kept := stripped.rdropWhile List.isEmpty
  let text := kept.flatMap (· ++ ['\n'])
  match header.chomp with
  | some '-' => text.dropLast
  | some '+' => stripped.flatMap (· ++ ['\n'])
  | _ => text

mutual

def Slot.node : Slot → Node
  | .empty _ _ => .null
  | .flow _ _ node _ _ => node
  | .literal _ header _ width lines _ => .scalar { plain := false, content := literalContent header width lines }
  | .mapping _ _ _ entries => .map entries.nodes
  | .sequence _ _ _ items => .seq items.nodes
  | .compactMapping _ entries => .map entries.nodes
  | .compactSequence _ items => .seq items.nodes

def Entries.nodes : Entries → List (Node × Node)
  | .nil => []
  | .implicit _ keyNode _ value rest => (keyNode, value.node) :: rest.nodes
  | .explicit key rest => (key.node, .null) :: rest.nodes
  | .explicitValue key value rest => (key.node, value.node) :: rest.nodes

def Items.nodes : Items → List Node
  | .nil => []
  | .cons value rest => value.node :: rest.nodes

end

/-! ## Paths -/

/-- The name of a key in plain style. -/
def plainName : Node → Option String
  | .scalar s => if s.plain then some (String.ofList s.content) else none
  | _ => none

/-- The values of the implicit keys in plain style, by their names. -/
def Entries.named : Entries → List (String × Slot)
  | .nil => []
  | .implicit _ keyNode _ value rest => (plainName keyNode).toList.map (·, value) ++ rest.named
  | .explicit _ rest => rest.named
  | .explicitValue _ _ rest => rest.named

theorem Entries.mem_named {key : List Char} {keyNode : Node} {space : Line} {value : Slot} {rest : Entries} {name : String}
    (h : keyNode = .scalar { plain := true, content := name.toList }) :
    (name, value) ∈ (Entries.implicit key keyNode space value rest).named := by
  rw [Entries.named, h]
  simp [plainName, String.ofList_toList]

/-- What stands at a path of plain keys. -/
inductive Slot.Reaches : Slot → List String → Slot → Prop
  | here (slot : Slot) : Reaches slot [] slot
  | step {trail : Line} {gap : List Line} {indent : Nat} {entries : Entries} {name : String} {value slot : Slot}
      {path : List String} : (name, value) ∈ entries.named → Reaches value path slot →
      Reaches (.mapping trail gap indent entries) (name :: path) slot

def Items.slots : Items → List Slot
  | .nil => []
  | .cons value rest => value :: rest.slots

/-! ## Well-formed layouts -/

/-- Behind an indicator comes white space; a line of its own is indented, by so many spaces at least. -/
def Lead.Fits (least : Nat) : Lead → Prop
  | here space => space ≠ [] ∧ blank space = true
  | below trail gap space =>
    isTrail trail = true ∧ (∀ line ∈ gap, isGap line = true) ∧ blank space = true ∧ least ≤ indentOf space

def LiteralHeader.Fits (h : LiteralHeader) : Prop :=
  (∀ n, h.width = some n → 1 ≤ n ∧ n ≤ 9) ∧ (∀ c, h.chomp = some c → c = '-' ∨ c = '+')

/-- A line without content. -/
def isEmptyLine (line : Line) : Bool := line.all (· == ' ')

/-- The lines of a literal and what stands behind them: its first line with content tells the indentation, unless the
header does, and a comment is less indented. -/
structure LiteralFits (least : Nat) (header : LiteralHeader) (width : Nat) (lines gap : List Line) : Prop where
  deep : least ≤ width
  told : ∀ n, header.width = some n → width + 1 = least + n
  found : header.width = none → ∀ line, (lines.dropWhile isEmptyLine).head? = some line → indentOf line = width
  leading : header.width = none → ∀ line ∈ lines.takeWhile isEmptyLine, indentOf line ≤ width
  line : ∀ line ∈ lines, isEmptyLine line = true ∨ width ≤ indentOf line
  behind : ∀ comment, gap.head? = some comment → blank comment = false ∧ indentOf comment < width ∧
    (lines.all isEmptyLine = true → indentOf comment < least)

mutual

/-- A slot whose lines have `least` spaces at least, those of a sequence `leastItem`; `compact` allows a collection on
the line of the indicator. -/
def Slot.Fits (least leastItem : Nat) (compact : Bool) : Slot → Prop
  | .empty trail gap => isTrail trail = true ∧ ∀ line ∈ gap, isGap line = true
  | .flow lead text node trail gap => lead.Fits least ∧ Flow (.node false) text node ∧ isTrail trail = true ∧
      (∀ line ∈ otherLines (text ++ trail), isGap line = true ∨ least ≤ indentOf line) ∧
      ∀ line ∈ gap, isGap line = true
  | .literal lead header trail width lines gap => lead.Fits least ∧ header.Fits ∧ isTrail trail = true ∧
      LiteralFits least header width lines gap ∧ ∀ line ∈ gap, isGap line = true
  | .mapping trail gap indent entries => isTrail trail = true ∧ (∀ line ∈ gap, isGap line = true) ∧ least ≤ indent ∧
      entries ≠ .nil ∧ entries.Fits indent
  | .sequence trail gap indent items => isTrail trail = true ∧ (∀ line ∈ gap, isGap line = true) ∧
      leastItem ≤ indent ∧ items ≠ .nil ∧ items.Fits indent
  | .compactMapping indent entries => compact = true ∧ least + 1 ≤ indent ∧ entries ≠ .nil ∧ entries.Fits indent
  | .compactSequence indent items => compact = true ∧ least + 1 ≤ indent ∧ items ≠ .nil ∧ items.Fits indent

def Entries.Fits (indent : Nat) : Entries → Prop
  | .nil => True
  | .implicit key keyNode space value rest => Flow (.node false) key keyNode ∧ '\n' ∉ key ∧ blank space = true ∧
      value.Fits (indent + 1) indent false ∧ rest.Fits indent
  | .explicit key rest => key.Fits (indent + 1) indent true ∧ rest.Fits indent
  | .explicitValue key value rest =>
    key.Fits (indent + 1) indent true ∧ value.Fits (indent + 1) indent true ∧ rest.Fits indent

def Items.Fits (indent : Nat) : Items → Prop
  | .nil => True
  | .cons value rest => value.Fits (indent + 1) (indent + 1) true ∧ rest.Fits indent

end

/-! ## Where the lines of a layout stand -/

theorem le_indentOf_spaces (n : Nat) (rest : Line) : n ≤ indentOf (spaces n ++ rest) := by
  unfold indentOf spaces
  rw [List.takeWhile_append_of_pos fun c hc => by simp [List.eq_of_mem_replicate hc], List.length_append,
    List.length_replicate]
  exact Nat.le_add_right _ _

theorem indentOf_le_append (space rest : Line) : indentOf space ≤ indentOf (space ++ rest) := by
  unfold indentOf
  rw [List.takeWhile_append]
  split
  · rename_i hall
    rw [List.length_append, hall]
    exact Nat.le_add_right _ _
  · exact Nat.le_refl _

theorem isGap_of_isEmptyLine {line : Line} (h : isEmptyLine line = true) : isGap line = true := by
  unfold isGap blank
  rw [Bool.or_eq_true, List.all_eq_true]
  unfold isEmptyLine at h
  rw [List.all_eq_true] at h
  refine Or.inl fun c hc => ?_
  rw [isWhite, h c hc, Bool.true_or]

/-- A gap, or a line indented by `least`, or an item of a sequence. -/
def Stands (least leastItem : Nat) (line : Line) : Prop :=
  isGap line = true ∨ least ≤ indentOf line ∨ ∃ m rest, leastItem ≤ m ∧ line = spaces m ++ '-' :: rest

theorem Stands.mono {least leastItem least' leastItem' : Nat} {line : Line} (h : Stands least leastItem line)
    (hle : least' ≤ least) (hitem : leastItem' ≤ leastItem) : Stands least' leastItem' line := by
  rcases h with hgap | hdeep | ⟨m, rest, hm, hline⟩
  · exact Or.inl hgap
  · exact Or.inr (Or.inl (hle.trans hdeep))
  · exact Or.inr (Or.inr ⟨m, rest, hitem.trans hm, hline⟩)

theorem Stands.deep {least : Nat} {line : Line} (h : Stands least least line) :
    isGap line = true ∨ least ≤ indentOf line := by
  rcases h with hgap | hdeep | ⟨m, rest, hm, rfl⟩
  · exact Or.inl hgap
  · exact Or.inr hdeep
  · exact Or.inr (hm.trans (le_indentOf_spaces m _))

theorem Stands.above {indent : Nat} {line : Line} (h : Stands (indent + 1) indent line) :
    isGap line = true ∨ indent ≤ indentOf line := (h.mono (Nat.le_succ _) (Nat.le_refl _)).deep

theorem Lead.tail_stands {lead : Lead} {least leastItem : Nat} {first : Line} {others : List Line}
    (hlead : lead.Fits least) (hothers : ∀ line ∈ others, Stands least leastItem line) :
    ∀ line ∈ lead.tail first others, Stands least leastItem line := by
  intro line hline
  cases lead with
  | here space => exact hothers line hline
  | below trail gap space =>
    obtain ⟨-, hgap, -, hleast⟩ := hlead
    rcases List.mem_append.1 hline with hmem | hmem
    · exact Or.inl (hgap line hmem)
    · rcases List.mem_cons.1 hmem with rfl | hmem
      · exact Or.inr (Or.inl (hleast.trans (indentOf_le_append space first)))
      · exact hothers line hmem

mutual

theorem Slot.tail_stands : ∀ {slot : Slot} {least leastItem : Nat} {compact : Bool},
    slot.Fits least leastItem compact → least ≤ leastItem + 1 → ∀ line ∈ slot.tail, Stands least leastItem line
  | .empty trail gap, _, _, _, hfits, _, line, hline => Or.inl (hfits.2 line hline)
  | .flow lead text node trail gap, _, _, _, hfits, _, line, hline => by
    obtain ⟨hlead, -, -, hothers, hgap⟩ := hfits
    rcases List.mem_append.1 hline with hmem | hmem
    · exact Lead.tail_stands hlead (fun other hother => (hothers other hother).imp id Or.inl) line hmem
    · exact Or.inl (hgap line hmem)
  | .literal lead header trail width lines gap, _, _, _, hfits, _, line, hline => by
    obtain ⟨hlead, -, -, hlines, hgap⟩ := hfits
    rcases List.mem_append.1 hline with hmem | hmem
    · refine Lead.tail_stands hlead (fun other hother => ?_) line hmem
      rcases hlines.line other hother with hempty | hdeep
      · exact Or.inl (isGap_of_isEmptyLine hempty)
      · exact Or.inr (Or.inl (hlines.deep.trans hdeep))
    · exact Or.inl (hgap line hmem)
  | .mapping trail gap indent entries, _, _, _, hfits, _, line, hline => by
    obtain ⟨-, hgap, hleast, -, hentries⟩ := hfits
    rcases List.mem_append.1 hline with hmem | hmem
    · exact Or.inl (hgap line hmem)
    · exact ((Entries.lines_stand hentries line hmem).imp id fun h => Or.inl (hleast.trans h))
  | .sequence trail gap indent items, _, _, _, hfits, hle, line, hline => by
    obtain ⟨-, hgap, hleast, -, hitems⟩ := hfits
    rcases List.mem_append.1 hline with hmem | hmem
    · exact Or.inl (hgap line hmem)
    · exact (Items.lines_stand hitems line hmem).mono (by omega) hleast
  | .compactMapping indent entries, _, _, _, hfits, _, line, hline => by
    obtain ⟨-, hleast, -, hentries⟩ := hfits
    exact ((Entries.lines_stand hentries line (List.mem_of_mem_tail hline)).imp id fun h => Or.inl (by omega))
  | .compactSequence indent items, _, _, _, hfits, hle, line, hline => by
    obtain ⟨-, hleast, -, hitems⟩ := hfits
    rcases Items.lines_stand hitems line (List.mem_of_mem_tail hline) with hgap | hdeep | ⟨m, rest, hm, rfl⟩
    · exact Or.inl hgap
    · exact Or.inr (Or.inl (by omega))
    · exact Or.inr (Or.inl ((show _ ≤ m by omega).trans (le_indentOf_spaces m _)))

theorem Entries.lines_stand : ∀ {entries : Entries} {indent : Nat}, entries.Fits indent →
    ∀ line ∈ entries.lines indent, isGap line = true ∨ indent ≤ indentOf line
  | .nil, _, _, _, hline => absurd hline List.not_mem_nil
  | .implicit key keyNode space value rest, indent, hfits, line, hline => by
    obtain ⟨-, -, -, hvalue, hrest⟩ := hfits
    rcases List.mem_cons.1 hline with rfl | hmem
    · rw [List.append_assoc, List.append_assoc]
      exact Or.inr (le_indentOf_spaces indent _)
    · rcases List.mem_append.1 hmem with hmem | hmem
      · exact (Slot.tail_stands hvalue (Nat.le_refl _) line hmem).above
      · exact Entries.lines_stand hrest line hmem
  | .explicit key rest, indent, hfits, line, hline => by
    obtain ⟨hkey, hrest⟩ := hfits
    rcases List.mem_cons.1 hline with rfl | hmem
    · exact Or.inr (le_indentOf_spaces indent _)
    · rcases List.mem_append.1 hmem with hmem | hmem
      · exact (Slot.tail_stands hkey (Nat.le_refl _) line hmem).above
      · exact Entries.lines_stand hrest line hmem
  | .explicitValue key value rest, indent, hfits, line, hline => by
    obtain ⟨hkey, hvalue, hrest⟩ := hfits
    rcases List.mem_cons.1 hline with rfl | hmem
    · exact Or.inr (le_indentOf_spaces indent _)
    · rcases List.mem_append.1 hmem with hmem | hmem
      · exact (Slot.tail_stands hkey (Nat.le_refl _) line hmem).above
      · rcases List.mem_cons.1 hmem with rfl | hmem
        · exact Or.inr (le_indentOf_spaces indent _)
        · rcases List.mem_append.1 hmem with hmem | hmem
          · exact (Slot.tail_stands hvalue (Nat.le_refl _) line hmem).above
          · exact Entries.lines_stand hrest line hmem

theorem Items.lines_stand : ∀ {items : Items} {indent : Nat}, items.Fits indent →
    ∀ line ∈ items.lines indent, Stands (indent + 1) indent line
  | .nil, _, _, _, hline => absurd hline List.not_mem_nil
  | .cons value rest, indent, hfits, line, hline => by
    obtain ⟨hvalue, hrest⟩ := hfits
    rcases List.mem_cons.1 hline with rfl | hmem
    · exact Or.inr (Or.inr ⟨indent, _, Nat.le_refl _, rfl⟩)
    · rcases List.mem_append.1 hmem with hmem | hmem
      · exact (Slot.tail_stands hvalue (Nat.le_succ _) line hmem).mono (Nat.le_refl _) (Nat.le_succ _)
      · exact Items.lines_stand hrest line hmem

end

/-! ## Documents -/

/-- A line that would end the document. -/
def isMarker (line : Line) : Bool :=
  ["---".toList, "...".toList].any fun mark => mark.isPrefixOf line && (line.drop 3).head?.all isWhite

/-- A document: its root stands below nothing. -/
structure Document where
  root : Slot
  fits : root.Fits 0 0 false
  head : root.head 0 = []
  printable : ∀ line ∈ root.tail, ∀ c ∈ line, isPrintable c = true
  unmarked : ∀ line ∈ root.tail, isMarker line = false
  /-- The last line has a break, unless it is no empty line. -/
  final : Bool
  finalLine : final = false → root.tail.getLast? ≠ some []

namespace Document

def lines (d : Document) : List Line := d.root.tail

def node (d : Document) : Node := d.root.node

def text (d : Document) : List Char :=
  let all := d.lines.flatMap (· ++ ['\n'])
  if d.final then all else all.dropLast

end Document

end Yaml
