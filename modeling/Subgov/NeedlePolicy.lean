import Mathlib.Logic.Function.Basic
import Subgov.Lib.PythonJson
/-!
# NeedlePolicy — the restricted reader of NEEDLE's policy files

`policyFields` reads selected paths of a YAML text line by line, with a stack of the keys it is under.  It knows block
mappings, lists of scalars and one-line flow lists, and is meant to refuse what it does not know where a selected path
could be.
-/
namespace Subgov

open Python

namespace ReadyBeads

/-! ## Scalars -/

def isWordChar (c : Char) : Bool :=
  ('A' ≤ c && c ≤ 'Z') || ('a' ≤ c && c ≤ 'z') || ('0' ≤ c && c ≤ '9') || "_./~:@+=-".toList.contains c

/-- `re.fullmatch(r'[A-Za-z0-9_./~:@+=-]+', text)` -/
def isWord (text : List Char) : Bool := !text.isEmpty && text.all isWordChar

/-- `text.split('#', 1)[0]` -/
def beforeHash (text : List Char) : List Char := text.takeWhile (· != '#')

/-- `text.replace("''", "'")` -/
def unquote : List Char → List Char
  | [] => []
  | [c] => [c]
  | c :: d :: rest => if c = '\'' ∧ d = '\'' then '\'' :: unquote rest else c :: unquote (d :: rest)

def ofChars (text : List Char) : Value := .str (String.ofList text)

/-- The plain words of a flow sequence on one line. -/
def flowWords (value : List Char) : Option (List (List Char)) :=
  let body := strip (beforeHash value)
  if body.head? = some '[' ∧ body.getLast? = some ']' then
    let items := (((body.drop 1).dropLast.splitOn ',').map strip).filter (!·.isEmpty)
    if items.all isWord then some items else none
  else none

def plainScalar (value : List Char) : Except Error Value :=
  let value := strip (beforeHash value)
  if value = "true".toList then .ok (.bool true)
  else if value = "false".toList then .ok (.bool false)
  else if !value.isEmpty && value.all isDigit then (intOfDigits value).map fun n => .int n
  else if isWord value then .ok (ofChars value)
  else .error (.value "complex policy scalar")

def scalar (value : List Char) : Except Error Value :=
  let value := strip value
  if value.head? = some '"' ∨ value.head? = some '[' then
    match Json.loads value, flowWords value with
    | .ok v, _ => .ok v
    | .error _, some items => .ok (.list (items.map ofChars))
    | .error e, none => .error e
  else if value.head? = some '\'' then
    if value.getLast? = some '\'' then .ok (ofChars (unquote (value.drop 1).dropLast))
    else .error (.value "invalid quoted policy scalar")
  else plainScalar value

/-! ## Keys -/

def isKeyStart (c : Char) : Bool := ('A' ≤ c && c ≤ 'Z') || ('a' ≤ c && c ≤ 'z') || c == '_'

def isKeyChar (c : Char) : Bool := isKeyStart c || ('0' ≤ c && c ≤ '9') || c == '-'

/-- `[A-Za-z_][A-Za-z0-9_-]*` in front of a text, and what is behind it. -/
def takeName : List Char → Option (List Char × List Char)
  | [] => none
  | c :: rest =>
    if isKeyStart c then some (c :: rest.takeWhile isKeyChar, rest.dropWhile isKeyChar) else none

/-- `([A-Za-z_][A-Za-z0-9_-]*)\s*:(?:\s+(.*)|\s*)$`: the name of a line and its value, stripped. -/
def matchKey (line : List Char) : Option (String × List Char) := do
  let (name, rest) ← takeName line
  match lstrip rest with
  | ':' :: value =>
    if value.head?.all isSpace then some (String.ofList name, strip value) else none
  | _ => none

/-- `["']([A-Za-z_][A-Za-z0-9_-]*)["']\s*:` -/
def matchQuotedKey : List Char → Option String
  | [] => none
  | c :: rest => do
    if c = '"' ∨ c = '\'' then
      let (name, rest) ← takeName rest
      match rest with
      | [] => none
      | c :: rest => if (c = '"' ∨ c = '\'') ∧ (lstrip rest).head? = some ':' then some (String.ofList name) else none
    else none

/-! ## Lines -/

abbrev Path := List String

/-- The values read by path, the open keys with their indentation, the innermost first, and the relevant keys seen. -/
structure PolicyReader where
  result : Path → Option Value := fun _ => none
  stack : List (Nat × Path) := []
  seen : List Path := []

namespace PolicyReader

def top (s : PolicyReader) : Path := s.stack.head?.elim [] (·.2)

/-- The keys less indented than a line stay open. -/
def popTo (s : PolicyReader) (indent : Nat) : PolicyReader :=
  { s with stack := s.stack.dropWhile fun entry => indent ≤ entry.1 }

def set (s : PolicyReader) (key : Path) (value : Value) : PolicyReader :=
  { s with result := Function.update s.result key (some value) }

def push (s : PolicyReader) (indent : Nat) (key : Path) : PolicyReader := { s with stack := (indent, key) :: s.stack }

def mark (s : PolicyReader) (key : Path) : PolicyReader := { s with seen := key :: s.seen }

end PolicyReader

section Reader

variable (fields : List Path)

/-- A selected path starts with it. -/
def isAncestor (key : Path) : Bool := !key.isEmpty && fields.any fun field => key.isPrefixOf field

/-- A line that starts with `- `. -/
def readItem (s : PolicyReader) (indent : Nat) (item : List Char) : Except Error PolicyReader :=
  match s.stack with
  | [] => .ok s
  | (n, key) :: _ =>
    if key ∈ fields ∧ n ≤ indent then
      match s.result key with
      | some (.list items) => (scalar item).map fun value => s.set key (.list (items ++ [value]))
      | _ => .error (.value "policy is not a list")
    else .ok s

/-- A line that has no name. -/
def readOther (s : PolicyReader) (line : List Char) : Except Error PolicyReader :=
  if (matchQuotedKey line).any (fun name => isAncestor fields (s.top ++ [name])) ∨
      ("<<:".toList.isPrefixOf line ∧ (s.stack.isEmpty ∨ isAncestor fields s.top)) then
    .error (.value "quoted or merged policy key")
  else if isAncestor fields s.top then .error (.value "complex policy mapping")
  else .ok s

/-- The value of a relevant key. -/
def readValue (s : PolicyReader) (key : Path) (value : List Char) : Except Error PolicyReader :=
  if key ∈ s.seen then .error (.value "duplicate policy key")
  else if value ≠ [] ∧ value.head? ≠ some '#' then
    if key ∈ fields then (scalar value).map fun v => (s.mark key).set key v
    else .error (.value "complex policy section")
  else if key ∈ fields then .ok ((s.mark key).set key (.list []))
  else .ok (s.mark key)

/-- A line, once the keys that it ends are closed. -/
def readEntry (s : PolicyReader) (indent : Nat) (line : List Char) : Except Error PolicyReader :=
  match matchKey line with
  | none => readOther fields s line
  | some (name, value) =>
    let key := s.top ++ [name]
    if isAncestor fields key then (readValue fields s key value).map (·.push indent key)
    else .ok (s.push indent key)

def readLine (s : PolicyReader) (raw : List Char) : Except Error PolicyReader :=
  let line := raw.dropWhile (· == ' ')
  let indent := raw.length - line.length
  if line.isEmpty ∨ line.head? = some '#' then .ok s
  else if line.head? = some '\t' then .error (.value "tab-indented policy")
  else if "- ".toList.isPrefixOf line then readItem fields s indent (line.drop 2)
  else readEntry fields (s.popTo indent) indent line

/-- The selected paths of a policy text. -/
def policyFields (text : List Char) : Except Error (Path → Option Value) :=
  ((splitLines text).foldlM (readLine fields) {}).map (·.result)

end Reader

/-! ## Policies -/

/-- What `workspace_policy` keeps; the defaults are those of an absent file. -/
structure WorkspacePolicy where
  backend : Value := .str "bead-rs"
  ownerHost : Value := .none
  maxWorkers : Value := .none
  excludeLabels : Option Value := none

def ownerHostPath : Path := ["queue", "owner_host"]

def excludeLabelsPath : Path := ["strands", "pluck", "exclude_labels"]

def policyPaths : List Path :=
  [["bead_cli", "backend"], ownerHostPath, ["workspace", "max_workers"], excludeLabelsPath]

def workspacePolicy (text : List Char) : Except Error WorkspacePolicy := do
  let values ← policyFields policyPaths text
  return {
    backend := (values ["bead_cli", "backend"]).getD (.str "bead-rs")
    ownerHost := (values ownerHostPath).getD .none
    maxWorkers := (values ["workspace", "max_workers"]).getD .none
    excludeLabels := values excludeLabelsPath }

/-- The policy of a workspace; `needleYaml` is what its file reads as, where there is one. -/
def policyOf (needleYaml : Option (Except Error (List Char))) : Except Error WorkspacePolicy :=
  match needleYaml with
  | none => .ok {}
  | some text => text.bind workspacePolicy

def policyOk (beadsConfig : Bool) (needleYaml : Option (Except Error (List Char))) (host : String) :
    Except Error Bool :=
  if !beadsConfig then .ok false
  else do
    let policy ← policyOf needleYaml
    return ["bead-rs", "bead", "auto"].any (fun backend => policy.backend.eqStr backend) &&
      match policy.ownerHost with
      | .none => true
      | owner => owner.eqStr host

end ReadyBeads

end Subgov
