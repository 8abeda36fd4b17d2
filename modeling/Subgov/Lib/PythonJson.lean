import Subgov.Lib.Python
/-!
# PythonJson — `json.loads`

The decoder of Python's standard library: integers of as many digits as `int` reads, floats of any, `NaN` and the
infinities, strict strings, surrogate pairs joined and single surrogates kept.  Each reader takes a text and gives what
it read with what is left of the text.
-/
namespace Python.Json

open FloatArith

def isWhite (c : Char) : Bool := c == ' ' || c == '\t' || c == '\n' || c == '\r'

def skipWhite (text : List Char) : List Char := text.dropWhile isWhite

/-! ## Strings -/

def hexDigit (c : Char) : Option Nat :=
  if '0' ≤ c ∧ c ≤ '9' then some (c.toNat - '0'.toNat)
  else if 'a' ≤ c ∧ c ≤ 'f' then some (c.toNat - 'a'.toNat + 10)
  else if 'A' ≤ c ∧ c ≤ 'F' then some (c.toNat - 'A'.toNat + 10)
  else none

def hex4 : List Char → Option (Nat × List Char)
  | a :: b :: c :: d :: rest => do
    let a ← hexDigit a
    let b ← hexDigit b
    let c ← hexDigit c
    let d ← hexDigit d
    return (((a * 16 + b) * 16 + c) * 16 + d, rest)
  | _ => none

def isHighSurrogate (code : Nat) : Bool := 0xD800 ≤ code && code ≤ 0xDBFF

def isLowSurrogate (code : Nat) : Bool := 0xDC00 ≤ code && code ≤ 0xDFFF

/-- The code point of an escape, behind its backslash. -/
def escape : List Char → Option (Nat × List Char)
  | '"' :: rest => some (0x22, rest)
  | '\\' :: rest => some (0x5C, rest)
  | '/' :: rest => some (0x2F, rest)
  | 'b' :: rest => some (0x08, rest)
  | 'f' :: rest => some (0x0C, rest)
  | 'n' :: rest => some (0x0A, rest)
  | 'r' :: rest => some (0x0D, rest)
  | 't' :: rest => some (0x09, rest)
  | 'u' :: rest => do
    let (high, rest) ← hex4 rest
    match rest with
    | '\\' :: 'u' :: pair =>
      if isHighSurrogate high then
        let (low, behind) ← hex4 pair
        if isLowSurrogate low then return (0x10000 + (high - 0xD800) * 0x400 + (low - 0xDC00), behind)
        else return (high, rest)
      else return (high, rest)
    | _ => return (high, rest)
  | _ => none

/-- The code points up to the closing quote, unless so many are not enough. -/
def scanString : Nat → List Char → Option (List Nat × List Char)
  | 0, _ => none
  | _ + 1, [] => none
  | n + 1, c :: rest =>
    if c = '"' then some ([], rest)
    else if c = '\\' then do
      let (code, rest) ← escape rest
      let (codes, rest) ← scanString n rest
      return (code :: codes, rest)
    else if c.toNat < 0x20 then none
    else do
      let (codes, rest) ← scanString n rest
      return (c.toNat :: codes, rest)

/-- The `str` of these code points. -/
def ofCodes (codes : List Nat) : Value :=
  if codes.all Nat.isValidChar then .str (String.ofList (codes.map Char.ofNat)) else .surrogates codes

/-! ## Numbers -/

def isAsciiDigit (c : Char) : Bool := '0' ≤ c && c ≤ '9'

def ofDigits (digits : List Char) : Nat := digits.foldl (fun n c => n * 10 + (c.toNat - '0'.toNat)) 0

/-- The integer part: no zero in front of other digits. -/
def scanInteger : List Char → Option (List Char × List Char)
  | [] => none
  | c :: rest =>
    if c = '0' then some (['0'], rest)
    else if isAsciiDigit c then some ((c :: rest).takeWhile isAsciiDigit, (c :: rest).dropWhile isAsciiDigit)
    else none

def scanFraction : List Char → Option (List Char) × List Char
  | '.' :: rest =>
    if (rest.takeWhile isAsciiDigit).isEmpty then (none, '.' :: rest)
    else (some (rest.takeWhile isAsciiDigit), rest.dropWhile isAsciiDigit)
  | text => (none, text)

def scanSign : List Char → Bool × List Char
  | '-' :: rest => (true, rest)
  | '+' :: rest => (false, rest)
  | text => (false, text)

def scanExponent : List Char → Option Int × List Char
  | [] => (none, [])
  | c :: rest =>
    if c = 'e' ∨ c = 'E' then
      let (negative, digits) := scanSign rest
      if (digits.takeWhile isAsciiDigit).isEmpty then (none, c :: rest)
      else
        let n : Int := ofDigits (digits.takeWhile isAsciiDigit)
        (some (if negative then -n else n), digits.dropWhile isAsciiDigit)
    else (none, c :: rest)

/-- `float` of a decimal number. -/
def decimalFloat (negative : Bool) (coefficient : Nat) (exponent : Int) : F64 :=
  { F64.ofRat (coefficient * (10 : ℚ) ^ exponent) with neg := negative }

/-- A number, or nothing where it is none or `int` does not read it, which is a `ValueError` as well. -/
def scanNumber (text : List Char) : Option (Value × List Char) := do
  let (negative, body) := match text with
    | '-' :: rest => (true, rest)
    | _ => (false, text)
  let (integer, rest) ← scanInteger body
  let (fraction, rest) := scanFraction rest
  let (exponent, rest) := scanExponent rest
  match fraction, exponent with
  | none, none =>
    if maxStrDigits < integer.length then none
    else return (.int (if negative then -(ofDigits integer : Int) else ofDigits integer), rest)
  | _, _ =>
    let fraction := fraction.getD []
    return (.float (decimalFloat negative (ofDigits (integer ++ fraction)) (exponent.getD 0 - fraction.length)), rest)

/-! ## Values -/

/-- The words of the decoder, with their values. -/
def constants : List (List Char × Value) :=
  [("null".toList, .none), ("true".toList, .bool true), ("false".toList, .bool false), ("NaN".toList, .float F64.nan),
    ("Infinity".toList, .float (F64.inf false)), ("-Infinity".toList, .float (F64.inf true))]

def scanAtom (text : List Char) : Option (Value × List Char) :=
  match constants.find? fun constant => constant.1.isPrefixOf text with
  | some (word, value) => some (value, text.drop word.length)
  | none => scanNumber text

/-- A key set: a `dict` keeps the place of a key that it has. -/
def setKey (key value : Value) : List (Value × Value) → List (Value × Value)
  | [] => [(key, value)]
  | entry :: rest => if entry.1.sameKey key then (key, value) :: rest else entry :: setKey key value rest

mutual

/-- The value in front, unless so many calls are not enough. -/
def parseValue : Nat → List Char → Option (Value × List Char)
  | 0, _ => none
  | n + 1, text =>
    match text with
    | '"' :: rest => do
      let (codes, rest) ← scanString (rest.length + 1) rest
      return (ofCodes codes, rest)
    | '[' :: rest =>
      match skipWhite rest with
      | ']' :: rest => some (.list [], rest)
      | rest => do
        let (items, rest) ← parseItems n rest
        return (.list items, rest)
    | '{' :: rest =>
      match skipWhite rest with
      | '}' :: rest => some (.dict [], rest)
      | rest => do
        let (entries, rest) ← parseMembers n [] rest
        return (.dict entries, rest)
    | text => scanAtom text

/-- The items of an array, up to its bracket. -/
def parseItems : Nat → List Char → Option (List Value × List Char)
  | 0, _ => none
  | n + 1, text => do
    let (item, rest) ← parseValue n text
    match skipWhite rest with
    | ']' :: rest => return ([item], rest)
    | ',' :: rest => do
      let (items, rest) ← parseItems n (skipWhite rest)
      return (item :: items, rest)
    | _ => none

/-- The members of an object, up to its brace, set in turn. -/
def parseMembers : Nat → List (Value × Value) → List Char → Option (List (Value × Value) × List Char)
  | 0, _, _ => none
  | n + 1, entries, text =>
    match text with
    | '"' :: rest => do
      let (codes, rest) ← scanString (rest.length + 1) rest
      match skipWhite rest with
      | ':' :: rest => do
        let (value, rest) ← parseValue n (skipWhite rest)
        let entries := setKey (ofCodes codes) value entries
        match skipWhite rest with
        | '}' :: rest => return (entries, rest)
        | ',' :: rest => parseMembers n entries (skipWhite rest)
        | _ => none
      | _ => none
    | _ => none

end

theorem parseValue_string (n : Nat) (rest : List Char) : parseValue (n + 1) ('"' :: rest) =
    (scanString (rest.length + 1) rest).map fun found => (ofCodes found.1, found.2) := by
  rw [parseValue]
  cases scanString (rest.length + 1) rest <;> rfl

theorem parseValue_array (n : Nat) (rest : List Char) : parseValue (n + 1) ('[' :: rest) =
    if (skipWhite rest).head? = some ']' then some (.list [], (skipWhite rest).tail)
    else (parseItems n (skipWhite rest)).map fun found => (.list found.1, found.2) := by
  rw [parseValue]
  cases hrest : skipWhite rest with
  | nil =>
    rw [if_neg (by simp)]
    cases hitems : parseItems n [] <;> simp [hitems]
  | cons c behind =>
    by_cases hc : c = ']'
    · subst hc
      rfl
    · rw [if_neg (by simpa using hc)]
      split
      · rename_i heq
        cases heq
        exact absurd rfl hc
      · cases parseItems n (c :: behind) <;> rfl

theorem parseValue_atom (n : Nat) {c : Char} (hc : c ≠ '"' ∧ c ≠ '[' ∧ c ≠ '\x7b') (rest : List Char) :
    parseValue (n + 1) (c :: rest) = scanAtom (c :: rest) := by
  rw [parseValue]
  · rintro tail h
    cases h
    exact hc.1 rfl
  · rintro tail h
    cases h
    exact hc.2.1 rfl
  · rintro tail h
    cases h
    exact hc.2.2 rfl

theorem parseItems_cases {n : Nat} {text rest : List Char} {items : List Value}
    (h : parseItems (n + 1) text = some (items, rest)) :
    ∃ item behind, parseValue n text = some (item, behind) ∧
      ((skipWhite behind = ']' :: rest ∧ items = [item]) ∨
        ∃ others more, skipWhite behind = ',' :: more ∧ parseItems n (skipWhite more) = some (others, rest) ∧
          items = item :: others) := by
  rw [parseItems] at h
  cases hvalue : parseValue n text with
  | none =>
    rw [hvalue] at h
    cases h
  | some found =>
    obtain ⟨item, behind⟩ := found
    rw [hvalue] at h
    refine ⟨item, behind, rfl, ?_⟩
    simp only [Option.bind_eq_bind, Option.bind_some, Option.pure_def] at h
    split at h
    · rename_i more hmore
      cases h
      exact Or.inl ⟨hmore, rfl⟩
    · rename_i more hmore
      cases hothers : parseItems n (skipWhite more) with
      | none =>
        rw [hothers] at h
        cases h
      | some found =>
        obtain ⟨others, rest'⟩ := found
        rw [hothers] at h
        cases h
        exact Or.inr ⟨others, more, hmore, hothers, rfl⟩
    · cases h

/-- `json.loads` -/
def loads (text : List Char) : Except Error Value :=
  match parseValue (2 * text.length + 2) (skipWhite text) with
  | some (value, rest) => if (skipWhite rest).isEmpty then .ok value else .error .jsonDecode
  | none => .error .jsonDecode

theorem loads_cases {text : List Char} {value : Value} (h : loads text = .ok value) :
    ∃ rest, parseValue (2 * text.length + 2) (skipWhite text) = some (value, rest) := by
  unfold loads at h
  cases hparse : parseValue (2 * text.length + 2) (skipWhite text) with
  | none =>
    rw [hparse] at h
    cases h
  | some found =>
    obtain ⟨read, rest⟩ := found
    rw [hparse] at h
    dsimp only at h
    split at h
    · cases h
      exact ⟨rest, rfl⟩
    · cases h

end Python.Json
