import Mathlib.Data.List.TakeDrop
/-!
# Records — bounded reads up to a delimiter

`readUntil` takes at most so many entries of a stream, up to and with the first delimiter, and `drain` repeats it with
one bound until a delimiter was taken or the stream has ended.  What they leave of a stream is said for its two forms: a
record with its delimiter in front of the rest, and a tail without a delimiter.
-/
namespace Records

variable {α : Type} [DecidableEq α]

/-- What is taken and what is left. -/
def readUntil (d : α) : ℕ → List α → List α × List α
  | 0, s => ([], s)
  | _ + 1, [] => ([], [])
  | n + 1, c :: s =>
    if c = d then ([c], s)
    else
      let rest := readUntil d n s
      (c :: rest.1, rest.2)

variable {d : α} {line rest tail s : List α} {n chunk : ℕ}

theorem readUntil_append (d : α) (n : ℕ) (s : List α) : (readUntil d n s).1 ++ (readUntil d n s).2 = s := by
  induction n generalizing s with
  | zero => rfl
  | succ n ih =>
    cases s with
    | nil => rfl
    | cons c s =>
      unfold readUntil
      split
      · rfl
      · dsimp only
        rw [List.cons_append, ih]

theorem length_readUntil (d : α) (n : ℕ) (s : List α) :
    (readUntil d n s).1.length + (readUntil d n s).2.length = s.length := by
  rw [← List.length_append, readUntil_append]

/-- **A record is taken with its delimiter** where the bound has room for both, else as far as it goes. -/
theorem readUntil_record (h : d ∉ line) (rest : List α) (n : ℕ) : readUntil d n (line ++ d :: rest) =
    if line.length < n then (line ++ [d], rest) else (line.take n, line.drop n ++ d :: rest) := by
  induction n generalizing line with
  | zero => rfl
  | succ n ih =>
    cases line with
    | nil => exact if_pos rfl
    | cons c line =>
      rw [List.mem_cons, not_or] at h
      rw [List.cons_append, readUntil, if_neg (Ne.symm h.1), ih h.2, List.length_cons]
      by_cases hroom : line.length < n
      · rw [if_pos hroom, if_pos (Nat.succ_lt_succ hroom)]
        rfl
      · rw [if_neg hroom, if_neg fun hlt => hroom (Nat.lt_of_succ_lt_succ hlt)]
        rfl

theorem readUntil_tail (h : d ∉ tail) (n : ℕ) : readUntil d n tail = (tail.take n, tail.drop n) := by
  induction n generalizing tail with
  | zero => rfl
  | succ n ih =>
    cases tail with
    | nil => rfl
    | cons c tail =>
      rw [List.mem_cons, not_or] at h
      rw [readUntil, if_neg (Ne.symm h.1), ih h.2]
      rfl

/-- What is left once a delimiter was taken or nothing could be. -/
def drain (d : α) (chunk : ℕ) (s : List α) : List α :=
  if (readUntil d chunk s).1 = [] ∨ (readUntil d chunk s).1.getLast? = some d then (readUntil d chunk s).2
  else drain d chunk (readUntil d chunk s).2
termination_by s.length
decreasing_by
  rename_i hgoes
  have hlength := length_readUntil d chunk s
  have hsome := List.length_pos_iff.2 (not_or.1 hgoes).1
  omega

/-- **Draining stops behind the next delimiter**, whatever the chunk. -/
theorem drain_record (hchunk : 0 < chunk) (h : d ∉ line) (rest : List α) : drain d chunk (line ++ d :: rest) = rest := by
  induction hlength : line.length using Nat.strongRecOn generalizing line with
  | _ k ih =>
    unfold drain
    rw [readUntil_record h]
    by_cases hroom : line.length < chunk
    · rw [if_pos hroom, if_pos (Or.inr (List.getLast?_concat))]
    · rw [if_neg hroom]
      have hnot : ¬ (line.take chunk = [] ∨ (line.take chunk).getLast? = some d) := by
        rintro (hnone | hlast)
        · rw [List.take_eq_nil_iff] at hnone
          rcases hnone with hzero | hnil
          · exact Nat.ne_of_gt hchunk hzero
          · rw [hnil] at hroom
            exact hroom hchunk
        · exact h (List.mem_of_mem_take (List.mem_of_getLast? hlast))
      rw [if_neg hnot]
      refine ih _ ?_ (fun hmem => h (List.mem_of_mem_drop hmem)) rfl
      rw [List.length_drop]
      omega

theorem drain_tail (hchunk : 0 < chunk) (h : d ∉ tail) : drain d chunk tail = [] := by
  induction hlength : tail.length using Nat.strongRecOn generalizing tail with
  | _ k ih =>
    unfold drain
    rw [readUntil_tail h]
    by_cases hnone : tail.take chunk = [] ∨ (tail.take chunk).getLast? = some d
    · rw [if_pos hnone]
      rcases hnone with hnone | hlast
      · rcases List.take_eq_nil_iff.1 hnone with hzero | hnil
        · exact absurd hzero (Nat.ne_of_gt hchunk)
        · rw [hnil, List.drop_nil]
      · exact absurd (List.mem_of_mem_take (List.mem_of_getLast? hlast)) h
    · rw [if_neg hnone]
      have hsome : 0 < tail.length := List.length_pos_iff.2 fun hnil => hnone (Or.inl (by rw [hnil, List.take_nil]))
      refine ih _ ?_ (fun hmem => h (List.mem_of_mem_drop hmem)) rfl
      rw [List.length_drop]
      omega

end Records
