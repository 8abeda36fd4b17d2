import Mathlib.Data.List.DropRight
import Subgov.Lib.Binary64
/-!
# Python — values and texts of a Python program

A text is a list of characters.  `Value` is what `json.loads` and a program's own literals build.
-/
namespace Python

open FloatArith

/-! ## Values -/

/-- An exception, with its message where the program raises it itself. -/
inductive Error
  | value (message : String)
  | jsonDecode
  | intLiteral
  | os
  | type
  | attribute
  deriving DecidableEq

/-- `except (ValueError, OSError)` catches it. -/
def Error.isValueOrOs : Error → Bool
  | value _ | jsonDecode | intLiteral | os => true
  | type | .attribute => false

section Steps

variable {α β σ : Type}

theorem ok_of_bind {x : Except Error α} {f : α → Except Error β} {b : β} (h : x.bind f = .ok b) :
    ∃ a, x = .ok a ∧ f a = .ok b := by
  cases x with
  | error e => cases h
  | ok a => exact ⟨a, rfl, h⟩

theorem ok_of_map {x : Except Error α} {f : α → β} {b : β} (h : x.map f = .ok b) : ∃ a, x = .ok a ∧ f a = b := by
  cases x with
  | error e => cases h
  | ok a => exact ⟨a, rfl, Except.ok.inj h⟩

/-- **A loop that ends**: what holds before it, and is kept by each of its steps, holds of all that it went through. -/
theorem foldlM_ok {f : σ → α → Except Error σ} {P : List α → σ → Prop} {xs : List α} {s s' : σ}
    (h : xs.foldlM f s = .ok s') (hstart : P [] s)
    (hstep : ∀ pre x s s', x ∈ xs → P pre s → f s x = .ok s' → P (pre ++ [x]) s') : P xs s' := by
  suffices hgo : ∀ rest pre s, (∀ x ∈ rest, x ∈ xs) → P pre s → rest.foldlM f s = .ok s' → P (pre ++ rest) s' from
    hgo xs [] s (fun _ hx => hx) hstart h
  intro rest
  induction rest with
  | nil =>
    intro pre s _ hpre hend
    rw [List.append_nil, ← Except.ok.inj hend]
    exact hpre
  | cons x rest ih =>
    intro pre s hmem hpre hrun
    obtain ⟨s₁, hone, hrest⟩ := ok_of_bind hrun
    have hnext := ih (pre ++ [x]) s₁ (fun y hy => hmem y (List.mem_cons_of_mem x hy))
      (hstep pre x s s₁ (hmem x List.mem_cons_self) hpre hone) hrest
    rwa [List.append_assoc] at hnext

end Steps

inductive Value
  | none
  | bool (b : Bool)
  | int (n : Int)
  | float (x : F64)
  | str (s : String)
  /-- A `str` that holds a surrogate by itself, by its code points. -/
  | surrogates (codes : List Nat)
  | list (items : List Value)
  | dict (entries : List (Value × Value))

namespace Value

/-- `bool(value)` -/
def truthy : Value → Bool
  | none => false
  | bool b => b
  | int n => n != 0
  | float x => x.word != 0
  | str s => !s.isEmpty
  | surrogates codes => !codes.isEmpty
  | list items => !items.isEmpty
  | dict entries => !entries.isEmpty

/-- `value == s` for a `str` of whole characters. -/
def eqStr (s : String) : Value → Bool
  | str t => t == s
  | _ => false

def hashable : Value → Bool
  | list _ | dict _ => false
  | _ => true

/-- One key of a `dict` is another. -/
def sameKey : Value → Value → Bool
  | str s, str t => s == t
  | surrogates s, surrogates t => s == t
  | _, _ => false

end Value

/-! ## Characters -/

/-- `str.isspace`, which `strip` and `\s` go by. -/
def isSpace (c : Char) : Bool :=
  let n := c.toNat
  (0x09 ≤ n && n ≤ 0x0D) || (0x1C ≤ n && n ≤ 0x20) || n == 0x85 || n == 0xA0 || n == 0x1680 ||
    (0x2000 ≤ n && n ≤ 0x200A) || n == 0x2028 || n == 0x2029 || n == 0x202F || n == 0x205F || n == 0x3000

/-- Where `str.splitlines` ends a line. -/
def isLineBreak (c : Char) : Bool :=
  let n := c.toNat
  (0x0A ≤ n && n ≤ 0x0D) || (0x1C ≤ n && n ≤ 0x1E) || n == 0x85 || n == 0x2028 || n == 0x2029

/-- The zeros of the scripts with decimal digits. -/
def decimalZeros : List Nat :=
  [0x30, 0x660, 0x6F0, 0x7C0, 0x966, 0x9E6, 0xA66, 0xAE6, 0xB66, 0xBE6, 0xC66, 0xCE6, 0xD66, 0xDE6, 0xE50, 0xED0,
    0xF20, 0x1040, 0x1090, 0x17E0, 0x1810, 0x1946, 0x19D0, 0x1A80, 0x1A90, 0x1B50, 0x1BB0, 0x1C40, 0x1C50, 0xA620,
    0xA8D0, 0xA900, 0xA9D0, 0xA9F0, 0xAA50, 0xABF0, 0xFF10, 0x104A0, 0x10D30, 0x11066, 0x110F0, 0x11136, 0x111D0,
    0x112F0, 0x11450, 0x114D0, 0x11650, 0x116C0, 0x11730, 0x118E0, 0x11950, 0x11C50, 0x11D50, 0x11DA0, 0x16A60,
    0x16AC0, 0x16B50, 0x1D7CE, 0x1D7D8, 0x1D7E2, 0x1D7EC, 0x1D7F6, 0x1E140, 0x1E2F0, 0x1E950, 0x1FBF0]

/-- The digits that `str.isdigit` takes and `int` does not. -/
def otherDigits : List (Nat × Nat) :=
  [(0xB2, 0xB3), (0xB9, 0xB9), (0x1369, 0x1371), (0x19DA, 0x19DA), (0x2070, 0x2070), (0x2074, 0x2079),
    (0x2080, 0x2089), (0x2460, 0x2468), (0x2474, 0x247C), (0x2488, 0x2490), (0x24EA, 0x24EA), (0x24F5, 0x24FD),
    (0x24FF, 0x24FF), (0x2776, 0x277E), (0x2780, 0x2788), (0x278A, 0x2792), (0x10A40, 0x10A43), (0x10E60, 0x10E68),
    (0x11052, 0x1105A), (0x1F100, 0x1F10A)]

def decimalDigit (c : Char) : Option Nat :=
  (decimalZeros.find? fun z => z ≤ c.toNat && c.toNat ≤ z + 9).map (c.toNat - ·)

def isDigit (c : Char) : Bool :=
  (decimalDigit c).isSome || otherDigits.any fun r => r.1 ≤ c.toNat && c.toNat ≤ r.2

/-! ## Texts -/

def lstrip (text : List Char) : List Char := text.dropWhile isSpace

def rstrip (text : List Char) : List Char := text.rdropWhile isSpace

def strip (text : List Char) : List Char := rstrip (lstrip text)

/-- `sys.int_info.default_max_str_digits`: `int` reads no more digits. -/
def maxStrDigits : Nat := 4300

/-- `int(text)` of a text of digits. -/
def intOfDigits (text : List Char) : Except Error Nat :=
  if maxStrDigits < (text.takeWhile fun c => (decimalDigit c).isSome).length then
    .error (.value "Exceeds the limit for integer string conversion")
  else
    match text.mapM decimalDigit with
    | some digits => .ok (digits.foldl (fun n d => n * 10 + d) 0)
    | none => .error .intLiteral

/-- `str.splitlines`, a line break of two characters being one. -/
def splitLines : List Char → List (List Char)
  | [] => []
  | '\r' :: '\n' :: rest => [] :: splitLines rest
  | c :: rest =>
    if isLineBreak c then [] :: splitLines rest
    else
      match splitLines rest with
      | [] => [[c]]
      | line :: lines => (c :: line) :: lines

theorem splitLines_char {c : Char} (hc : isLineBreak c = false) (rest : List Char) :
    splitLines (c :: rest) = match splitLines rest with
      | [] => [[c]]
      | line :: lines => (c :: line) :: lines := by
  have hreturn : c ≠ '\r' := by
    rintro rfl
    cases hc
  rw [splitLines, hc]
  · rfl
  · exact fun _ h => absurd h hreturn

/-- A line without breaks, up to its break. -/
theorem splitLines_line {line : List Char} (h : ∀ c ∈ line, isLineBreak c = false) (rest : List Char) :
    splitLines (line ++ '\n' :: rest) = line :: splitLines rest := by
  induction line with
  | nil =>
    rw [List.nil_append, splitLines]
    · rfl
    · exact fun _ h => absurd h (by decide)
  | cons c line ih =>
    rw [List.cons_append, splitLines_char (h c List.mem_cons_self), ih fun d hd => h d (List.mem_cons_of_mem c hd)]

theorem splitLines_last {line : List Char} (h : ∀ c ∈ line, isLineBreak c = false) (hne : line ≠ []) :
    splitLines line = [line] := by
  induction line with
  | nil => exact absurd rfl hne
  | cons c line ih =>
    rw [splitLines_char (h c List.mem_cons_self)]
    cases line with
    | nil => rfl
    | cons d line => rw [ih (fun e he => h e (List.mem_cons_of_mem c he)) (List.cons_ne_nil d line)]

theorem splitLines_lines {lines : List (List Char)} (h : ∀ line ∈ lines, ∀ c ∈ line, isLineBreak c = false) :
    splitLines (lines.flatMap (· ++ ['\n'])) = lines := by
  induction lines with
  | nil => rfl
  | cons line lines ih =>
    rw [List.flatMap_cons, List.append_assoc, List.singleton_append, splitLines_line (h line List.mem_cons_self),
      ih fun other hmem => h other (List.mem_cons_of_mem line hmem)]

/-- The last line is one without its break too, unless it is empty. -/
theorem splitLines_dropLast {lines : List (List Char)} (h : ∀ line ∈ lines, ∀ c ∈ line, isLineBreak c = false)
    (hlast : lines.getLast? ≠ some []) : splitLines (lines.flatMap (· ++ ['\n'])).dropLast = lines := by
  induction lines with
  | nil => rfl
  | cons line lines ih =>
    rw [List.flatMap_cons]
    cases lines with
    | nil =>
      rw [List.flatMap_nil, List.append_nil, List.dropLast_concat]
      exact splitLines_last (h line List.mem_cons_self) fun hnil => hlast (by rw [hnil]; rfl)
    | cons other lines =>
      have hrest : (other :: lines).flatMap (· ++ ['\n']) ≠ [] := by simp
      rw [List.dropLast_append_of_ne_nil hrest, List.append_assoc, List.singleton_append,
        splitLines_line (h line List.mem_cons_self), ih (fun l hl => h l (List.mem_cons_of_mem line hl)) hlast]

end Python
