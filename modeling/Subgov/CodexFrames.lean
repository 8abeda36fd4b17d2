import Subgov.Lib.Records
import Subgov.Model
/-!
# CodexFrames — lines of a bounded length from the app-server

`readBoundedCodexFrame` reads one line up to a limit, and drains what is left of a longer one in small chunks.  Both
reads end at the same newline, so a whole stream is read line by line, each line that fits and one `oversized` for each
that does not (`readFrames_eq`).
-/
namespace Subgov

open Records

/-! ## Text -/

/-- The ranges of the bytes that follow a first byte of UTF-8, none after a byte that cannot be the first. -/
def continuationRanges (lead : UInt8) : Option (List (UInt8 × UInt8)) :=
  if lead < 0x80 then some []
  else if lead < 0xC2 then none
  else if lead < 0xE0 then some [(0x80, 0xBF)]
  else if lead = 0xE0 then some [(0xA0, 0xBF), (0x80, 0xBF)]
  else if lead = 0xED then some [(0x80, 0x9F), (0x80, 0xBF)]
  else if lead < 0xF0 then some [(0x80, 0xBF), (0x80, 0xBF)]
  else if lead = 0xF0 then some [(0x90, 0xBF), (0x80, 0xBF), (0x80, 0xBF)]
  else if lead < 0xF4 then some [(0x80, 0xBF), (0x80, 0xBF), (0x80, 0xBF)]
  else if lead = 0xF4 then some [(0x80, 0x8F), (0x80, 0xBF), (0x80, 0xBF)]
  else none

/-- The first character of a text, and how many bytes follow its first one; a replacement for bytes that form none. -/
def decodeLossy (lead : UInt8) (bytes : Bytes) : Char × Nat :=
  match continuationRanges lead with
  | none => ('\uFFFD', 0)
  | some ranges =>
    let followers := ((bytes.zip ranges).takeWhile fun b => decide (b.2.1 ≤ b.1) && decide (b.1 ≤ b.2.2)).map Prod.fst
    if followers.length = ranges.length then
      -- a first byte of `n` holds `7 - n` bits of the character, a continuation byte 6
      let bits := if ranges.length = 0 then 7 else 6 - ranges.length
      (Char.ofNat (followers.foldl (fun code b => code * 64 + b.toNat % 64) (lead.toNat % 2 ^ bits)), ranges.length)
    else ('\uFFFD', followers.length)

/-- `String::from_utf8_lossy`. -/
def fromUtf8Lossy (bytes : Bytes) : String := String.ofList (go bytes.length bytes)
where
  go : Nat → Bytes → List Char
    | 0, _ => []
    | _ + 1, [] => []
    | n + 1, lead :: rest => (decodeLossy lead rest).1 :: go n (rest.drop (decodeLossy lead rest).2)

example : fromUtf8Lossy [0x61, 0xC3, 0xA9, 0xE2, 0x82, 0x62, 0xFF] = "aé\uFFFDb\uFFFD" := by decide +kernel

/-! ## Frames -/

inductive CodexFrame
  | line (text : String)
  | oversized

/-- The bytes behind the next newline. -/
def drainUntilNewline (stream : Bytes) : Bytes := drain newline 4096 stream

/-- The next frame, `none` at the end of the stream, and the bytes behind it. -/
def readBoundedCodexFrame (limit : Nat) (stream : Bytes) : Option CodexFrame × Bytes :=
  let (buffer, rest) := readUntil newline limit stream
  if buffer.length = 0 then (none, rest)
  else if buffer.getLast? = some newline then (some (.line (fromUtf8Lossy buffer.dropLast)), rest)
  else (some .oversized, drainUntilNewline rest)

/-- The frames read until there is none, unless so many calls are not enough. -/
def readFrames (limit : Nat) : Nat → Bytes → Option (List CodexFrame)
  | 0, _ => none
  | calls + 1, stream =>
    match readBoundedCodexFrame limit stream with
    | (none, _) => some []
    | (some frame, rest) => (readFrames limit calls rest).map (frame :: ·)

/-- What a line of the stream becomes; its newline counts. -/
def lineFrame (limit : Nat) (line : Bytes) : CodexFrame :=
  if line.length + 1 ≤ limit then .line (fromUtf8Lossy line) else .oversized

/-- The frames of a stream: one for each line, and one for a tail that is not empty. -/
def streamFrames (limit : Nat) (stream : Bytes) : List CodexFrame :=
  let lines := stream.splitOn newline
  lines.dropLast.map (lineFrame limit) ++ (if lines.getLast? = some [] then [] else [.oversized])

section Frames

variable {limit : Nat} {line rest tail : Bytes}

theorem readBoundedCodexFrame_line (hlimit : 0 < limit) (h : newline ∉ line) (rest : Bytes) :
    readBoundedCodexFrame limit (line ++ newline :: rest) = (some (lineFrame limit line), rest) := by
  unfold readBoundedCodexFrame lineFrame
  rw [readUntil_record h]
  by_cases hroom : line.length < limit
  · rw [if_pos hroom, if_pos (Nat.succ_le_of_lt hroom)]
    dsimp only
    rw [if_neg (by simp), if_pos List.getLast?_concat, List.dropLast_concat]
  · rw [if_neg hroom, if_neg fun hle => hroom (Nat.lt_of_succ_le hle)]
    dsimp only
    have hread : ¬ (line.take limit).length = 0 := by
      rw [List.length_take]
      omega
    have hlast : ¬ (line.take limit).getLast? = some newline := fun hlast =>
      h (List.mem_of_mem_take (List.mem_of_getLast? hlast))
    rw [if_neg hread, if_neg hlast, drainUntilNewline,
      drain_record (by decide) fun hmem => h (List.mem_of_mem_drop hmem)]

theorem readBoundedCodexFrame_tail (hlimit : 0 < limit) (h : newline ∉ tail) :
    readBoundedCodexFrame limit tail = (if tail = [] then none else some .oversized, []) := by
  unfold readBoundedCodexFrame
  rw [readUntil_tail h]
  dsimp only
  by_cases hnil : tail = []
  · rw [if_pos hnil, hnil, List.take_nil, List.drop_nil]
    rfl
  · have hsome := List.length_pos_iff.2 hnil
    have hread : ¬ (tail.take limit).length = 0 := by
      rw [List.length_take]
      omega
    have hlast : ¬ (tail.take limit).getLast? = some newline := fun hlast =>
      h (List.mem_of_mem_take (List.mem_of_getLast? hlast))
    rw [if_neg hnil, if_neg hread, if_neg hlast, drainUntilNewline,
      drain_tail (by decide) fun hmem => h (List.mem_of_mem_drop hmem)]

theorem streamFrames_line (h : newline ∉ line) (rest : Bytes) :
    streamFrames limit (line ++ newline :: rest) = lineFrame limit line :: streamFrames limit rest := by
  have hsplit : (line ++ newline :: rest).splitOn newline = line :: rest.splitOn newline :=
    List.splitOn_append_cons_self_of_not_mem h rest
  have hsome : rest.splitOn newline ≠ [] := List.splitOn_ne_nil _ _
  unfold streamFrames
  dsimp only
  rw [hsplit, List.dropLast_cons_of_ne_nil hsome, List.map_cons, List.getLast?_cons_of_ne_nil hsome, List.cons_append]

theorem streamFrames_tail (h : newline ∉ tail) :
    streamFrames limit tail = if tail = [] then [] else [.oversized] := by
  unfold streamFrames
  rw [List.splitOn_eq_singleton h]
  by_cases hnil : tail = []
  · rw [hnil]
    rfl
  · dsimp only
    rw [if_neg hnil, List.getLast?_singleton, if_neg fun hsame => hnil (Option.some.inj hsame)]
    rfl

/-- **The frames are read exactly**, whatever the lengths of the lines, and the calls end. -/
theorem readFrames_eq (hlimit : 0 < limit) (stream : Bytes) (calls : Nat) (hcalls : stream.length < calls) :
    readFrames limit calls stream = some (streamFrames limit stream) := by
  induction calls generalizing stream with
  | zero => exact absurd hcalls (Nat.not_lt_zero _)
  | succ calls ih =>
    unfold readFrames
    by_cases hmem : newline ∈ stream
    · obtain ⟨line, rest, rfl, hline⟩ := List.eq_append_cons_of_mem hmem
      rw [List.length_append, List.length_cons] at hcalls
      rw [readBoundedCodexFrame_line hlimit hline, streamFrames_line hline]
      dsimp only
      rw [ih rest (by omega)]
      rfl
    · rw [readBoundedCodexFrame_tail hlimit hmem, streamFrames_tail hmem]
      by_cases hnil : stream = []
      · rw [if_pos hnil, if_pos hnil]
      · have hsome := List.length_pos_iff.2 hnil
        rw [if_neg hnil, if_neg hnil]
        dsimp only
        rw [ih [] (by rw [List.length_nil]; omega), streamFrames_tail List.not_mem_nil, if_pos rfl]
        rfl

/-- A line that fits with its newline, one that is a byte longer, and a tail. -/
theorem readFrames_three : readFrames 3 8 [97, 98, 10, 97, 98, 99, 10] =
    some [.line (fromUtf8Lossy [97, 98]), .oversized] :=
  readFrames_eq (by decide) [97, 98, 10, 97, 98, 99, 10] 8 (by decide)

end Frames

end Subgov
