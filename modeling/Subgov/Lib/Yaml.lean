import Mathlib.Data.List.DropRight
/-!
# Yaml — nodes and flow style

A fragment of YAML 1.2: nodes with the core schema's scalars, and the texts of flow style.  A text is a list of
characters whose line breaks are newlines; `Flow` relates a text to the node that it denotes, in a context that says
which characters a plain scalar may hold.  Anchors, tags and folded scalars are left out.
-/
namespace Yaml

/-! ## Characters -/

def isWhite (c : Char) : Bool := c == ' ' || c == '\t'

/-- A printable character that breaks no line. -/
def isPrintable (c : Char) : Bool :=
  let n := c.toNat
  n == 0x09 || (0x20 ≤ n && n ≤ 0x7E) || n == 0x85 || (0xA0 ≤ n && n ≤ 0xD7FF) || (0xE000 ≤ n && n ≤ 0xFFFD) ||
    0x10000 ≤ n

/-- A printable character that is no white space and no byte-order mark. -/
def isNonSpace (c : Char) : Bool := isPrintable c && !isWhite c && c.toNat != 0xFEFF

def isIndicator (c : Char) : Bool := "-?:,[]{}#&*!|>'\"%@`".toList.contains c

def isFlowIndicator (c : Char) : Bool := ",[]{}".toList.contains c

/-! ## Nodes -/

/-- A scalar without the quotes or breaks that it was written with. -/
structure Scalar where
  plain : Bool
  content : List Char
  deriving DecidableEq

inductive Node
  | scalar (s : Scalar)
  | seq (items : List Node)
  | map (entries : List (Node × Node))

/-- What stands where nothing is written. -/
def Node.null : Node := .scalar { plain := true, content := [] }

/-- The values that the core schema tells apart here; a number that is no decimal integer counts as its text. -/
inductive Resolved
  | null
  | bool (b : Bool)
  | int (n : Int)
  | text (s : List Char)

def nullWords : List String := ["", "null", "Null", "NULL", "~"]

def trueWords : List String := ["true", "True", "TRUE"]

def falseWords : List String := ["false", "False", "FALSE"]

def isDigit (c : Char) : Bool := '0' ≤ c && c ≤ '9'

def ofDigits (digits : List Char) : Nat := digits.foldl (fun n c => n * 10 + (c.toNat - '0'.toNat)) 0

def isDigits (text : List Char) : Bool := !text.isEmpty && text.all isDigit

/-- A decimal integer, with a sign or without. -/
def decimal : List Char → Option Int
  | [] => none
  | c :: digits =>
    if c = '-' ∧ isDigits digits then some (-(ofDigits digits : Int))
    else if c = '+' ∧ isDigits digits then some (ofDigits digits)
    else if isDigits (c :: digits) then some (ofDigits (c :: digits))
    else none

def resolvePlain (content : List Char) : Resolved :=
  let word := String.ofList content
  if nullWords.contains word then .null
  else if trueWords.contains word then .bool true
  else if falseWords.contains word then .bool false
  else (decimal content).elim (.text content) .int

def Scalar.resolve (s : Scalar) : Resolved := if s.plain then resolvePlain s.content else .text s.content

/-- A key of a path names a node by its content. -/
def Node.Named (key : String) : Node → Prop
  | .scalar s => s.content = key.toList
  | _ => False

/-- What a document has at a path of keys. -/
inductive Node.At : Node → List String → Node → Prop
  | here (v : Node) : At v [] v
  | step {entries : List (Node × Node)} {k v w : Node} {key : String} {path : List String} :
      (k, v) ∈ entries → k.Named key → At v path w → At (.map entries) (key :: path) w

/-! ## Breaks -/

def blank (line : List Char) : Bool := line.all isWhite

def trimLeft (line : List Char) : List Char := line.dropWhile isWhite

def trimRight (line : List Char) : List Char := line.rdropWhile isWhite

/-- One break is a space, and each blank line behind it a newline. -/
def foldedBreak (blanks : Nat) : List Char := if blanks = 0 then [' '] else List.replicate blanks '\n'

/-- The lines behind a break, folded; so many blank ones stand before them. -/
def foldRest (blanks : Nat) : List (List Char) → List Char
  | [] => []
  | [last] => foldedBreak blanks ++ trimLeft last
  | line :: rest =>
    if blank line then foldRest (blanks + 1) rest
    else foldedBreak blanks ++ trimRight (trimLeft line) ++ foldRest 0 rest

/-- The content of a scalar over several lines. -/
def foldBreaks (text : List Char) : List Char :=
  match text.splitOn '\n' with
  | [] | [_] => text
  | first :: rest => trimRight first ++ foldRest 0 rest

/-! ## Scalars -/

/-- Whether a plain scalar stands within a flow collection. -/
abbrev InFlow := Bool

def plainSafe (inFlow : InFlow) (c : Char) : Bool := isNonSpace c && !(inFlow && isFlowIndicator c)

/-- The characters of a plain scalar: a colon has one behind it, and a hash one in front. -/
def plainChars (inFlow : InFlow) (prev : Char) : List Char → Bool
  | [] => true
  | c :: rest =>
    (if isWhite c || c == '\n' then true
      else if c == ':' then rest.head?.any (plainSafe inFlow)
      else if c == '#' then isNonSpace prev
      else plainSafe inFlow c) && plainChars inFlow c rest

def plainFirst (inFlow : InFlow) : List Char → Bool
  | [] => false
  | c :: rest =>
    (isNonSpace c && !isIndicator c) || ("?:-".toList.contains c && rest.head?.any (plainSafe inFlow))

/-- The text of a plain scalar. -/
def isPlain (inFlow : InFlow) (text : List Char) : Bool :=
  plainFirst inFlow text && plainChars inFlow ' ' text && text.getLast?.any isNonSpace

/-- The codes of the escapes of one character. -/
def escapes : List (Char × Char) :=
  [('0', '\x00'), ('a', '\x07'), ('b', '\x08'), ('t', '\t'), ('\t', '\t'), ('n', '\n'), ('v', '\x0b'), ('f', '\x0c'),
    ('r', '\r'), ('e', '\x1b'), (' ', ' '), ('"', '"'), ('/', '/'), ('\\', '\\'), ('N', '\u0085'), ('_', '\u00a0'),
    ('L', '\u2028'), ('P', '\u2029')]

def hexDigit (c : Char) : Option Nat :=
  if '0' ≤ c ∧ c ≤ '9' then some (c.toNat - '0'.toNat)
  else if 'a' ≤ c ∧ c ≤ 'f' then some (c.toNat - 'a'.toNat + 10)
  else if 'A' ≤ c ∧ c ≤ 'F' then some (c.toNat - 'A'.toNat + 10)
  else none

def ofHex (digits : List Char) : Option Nat := (digits.mapM hexDigit).map (·.foldl (fun n d => n * 16 + d) 0)

/-- An escape, behind its backslash, and the character that it stands for. -/
inductive Escape : List Char → Char → Prop
  | simple {code c : Char} : (code, c) ∈ escapes → Escape [code] c
  | hex {letter : Char} {width : Nat} {digits : List Char} {c : Char} :
      (letter, width) ∈ [('x', 2), ('u', 4), ('U', 8)] → digits.length = width → ofHex digits = some c.toNat →
      Escape (letter :: digits) c

/-- A text with white space up to the end of a line in front. -/
def breaksNext (text : List Char) : Bool := (trimLeft text).head? == some '\n'

/-- The text between double quotes, and its content. -/
inductive DoubleBody : List Char → List Char → Prop
  | nil : DoubleBody [] []
  | char {c : Char} {text content : List Char} : isPrintable c = true → c ≠ '"' → c ≠ '\\' →
      (isWhite c = true → breaksNext text = false) → DoubleBody text content → DoubleBody (c :: text) (c :: content)
  | escape {code : List Char} {c : Char} {text content : List Char} : Escape code c → DoubleBody text content →
      DoubleBody ('\\' :: code ++ text) (c :: content)
  /-- A folded break, with the white space at both sides. -/
  | fold {before after : List Char} {blanks : List (List Char)} {text content : List Char} : blank before = true →
      (∀ line ∈ blanks, blank line = true) → blank after = true → text.head?.all (fun c => !isWhite c && c != '\n') →
      DoubleBody text content →
      DoubleBody (before ++ '\n' :: blanks.flatMap (· ++ ['\n']) ++ after ++ text)
        (foldedBreak blanks.length ++ content)
  /-- An escaped break. -/
  | join {after : List Char} {blanks : List (List Char)} {text content : List Char} :
      (∀ line ∈ blanks, blank line = true) → blank after = true → text.head?.all (fun c => !isWhite c && c != '\n') →
      DoubleBody text content →
      DoubleBody ('\\' :: '\n' :: blanks.flatMap (· ++ ['\n']) ++ after ++ text)
        (List.replicate blanks.length '\n' ++ content)

/-- The text between single quotes, each quote in it doubled, before its breaks are folded. -/
inductive SingleBody : List Char → List Char → Prop
  | nil : SingleBody [] []
  | char {c : Char} {text content : List Char} : isPrintable c = true ∨ c = '\n' → c ≠ '\'' → SingleBody text content →
      SingleBody (c :: text) (c :: content)
  | quote {text content : List Char} : SingleBody text content → SingleBody ('\'' :: '\'' :: text) ('\'' :: content)

/-! ## Flow style -/

/-- What separates tokens: white space, line breaks, and comments behind either. -/
inductive Separation : List Char → Prop
  | nil : Separation []
  | space {c : Char} {text : List Char} : isWhite c = true ∨ c = '\n' → Separation text → Separation (c :: text)
  | comment {c : Char} {comment text : List Char} : isWhite c = true ∨ c = '\n' →
      (∀ d ∈ comment, isPrintable d = true) → Separation ('\n' :: text) →
      Separation (c :: '#' :: comment ++ '\n' :: text)

/-- A node, a pair of a sequence, or an entry of a mapping. -/
inductive FlowKind
  | node (inFlow : InFlow)
  | pair
  | entry

/-- An item of a collection, with what separates it from its neighbours. -/
structure FlowItem where
  before : List Char
  kind : FlowKind
  text : List Char
  node : Node
  after : List Char

def FlowItem.all (item : FlowItem) : List Char := item.before ++ item.text ++ item.after

/-- The items of a collection up to its bracket, each with a comma behind it but the last, which may have one. -/
def itemsText (items : List FlowItem) (comma : Bool) (close : List Char) : List Char :=
  match items with
  | [] => close
  | [item] => item.all ++ (if comma then ',' :: close else close)
  | item :: rest => item.all ++ ',' :: itemsText rest comma close

def Node.entries : Node → List (Node × Node)
  | .map entries => entries
  | _ => []

/-- A plain key needs something between its colon and a value. -/
def isJsonLike (key : List Char) : Bool := key.head?.any fun c => "\"'[\x7b".toList.contains c

inductive Flow : FlowKind → List Char → Node → Prop
  | plain {inFlow : InFlow} {text : List Char} : isPlain inFlow text = true →
      Flow (.node inFlow) text (.scalar { plain := true, content := foldBreaks text })
  | double {inFlow : InFlow} {body content : List Char} : DoubleBody body content →
      Flow (.node inFlow) ('"' :: body ++ ['"']) (.scalar { plain := false, content })
  | single {inFlow : InFlow} {body content : List Char} : SingleBody body content →
      Flow (.node inFlow) ('\'' :: body ++ ['\'']) (.scalar { plain := false, content := foldBreaks content })
  | seq {inFlow : InFlow} {items : List FlowItem} {comma : Bool} {close : List Char} : Separation close →
      (∀ item ∈ items, Separation item.before ∧ Separation item.after ∧
        (item.kind = .node true ∨ item.kind = .pair)) →
      (∀ item ∈ items, Flow item.kind item.text item.node) →
      Flow (.node inFlow) ('[' :: itemsText items comma close ++ [']']) (.seq (items.map (·.node)))
  | map {inFlow : InFlow} {items : List FlowItem} {comma : Bool} {close : List Char} : Separation close →
      (∀ item ∈ items, Separation item.before ∧ Separation item.after ∧ item.kind = .entry) →
      (∀ item ∈ items, Flow item.kind item.text item.node) →
      Flow (.node inFlow) ('\x7b' :: itemsText items comma close ++ ['\x7d'])
        (.map (items.flatMap (·.node.entries)))
  | pair {key value before after : List Char} {k v : Node} : Flow (.node true) key k → Flow (.node true) value v →
      Separation before → Separation after → (after = [] → isJsonLike key = true) →
      Flow .pair (key ++ before ++ ':' :: after ++ value) (.map [(k, v)])
  | pairNull {key before : List Char} {k : Node} : Flow (.node true) key k → Separation before →
      Flow .pair (key ++ before ++ [':']) (.map [(k, .null)])
  | pairNoKey {value after : List Char} {v : Node} : Flow (.node true) value v → Separation after → after ≠ [] →
      Flow .pair (':' :: after ++ value) (.map [(.null, v)])
  | explicit {between text : List Char} {node : Node} : Separation between → between ≠ [] → Flow .entry text node →
      Flow .pair ('?' :: between ++ text) node
  | explicitNull : Flow .pair ['?'] (.map [(.null, .null)])
  | entryPair {text : List Char} {node : Node} : Flow .pair text node → Flow .entry text node
  | entryKey {text : List Char} {k : Node} : Flow (.node true) text k → Flow .entry text (.map [(k, .null)])

end Yaml
