import Subgov.Lib.Split
import Subgov.Model
/-!
# Origins — what is left of a remote's userinfo

`sanitizeOrigin` cuts the first `@` of the part it takes for the authority, which is the text up to the first slash.
What follows a second `@` in the userinfo stays, and so does all of it where the authority is cut short before the first
`@`: at a colon of the userinfo when a URL has no path, or in a `host:path` remote whose path looks like a URL's.
-/
namespace Subgov

open Split

def schemeMark : List Char := [':', '/', '/']

/-- The remote with the userinfo cut off, as the source cuts it. -/
def sanitizeChars (url : List Char) : List Char :=
  match splitOnce schemeMark url with
  | some (scheme, rest) =>
    -- without a path the authority ends at the first colon
    let authorityEnd := if '/' ∈ rest then '/' else ':'
    match splitOnce ['@'] (rest.takeWhile (· != authorityEnd)) with
    | some (_, host) => scheme ++ schemeMark ++ host ++ rest.dropWhile (· != authorityEnd)
    | none => url
  | none =>
    match splitOnce ['@'] (url.takeWhile (· != '/')) with
    | some (_, host) => host ++ url.dropWhile (· != '/')
    | none => url

def sanitizeOrigin (url : String) : String := String.ofList (sanitizeChars url.toList)

/-! ## Remotes with userinfo -/

/-- A userinfo: anything before the `@` of a remote but a slash. -/
structure Userinfo where
  text : List Char
  noSlash : '/' ∉ text

/-- The forms of a remote that carry userinfo. -/
inductive Remote
  | url (scheme host path : List Char) (hscheme : ':' ∉ scheme) (hhost : '/' ∉ host)
  | urlNoPath (scheme host : List Char) (hscheme : ':' ∉ scheme) (hhost : '/' ∉ host)
  | scp (host path : List Char) (hhost : '/' ∉ host)

namespace Remote

/-- The remote as written, with a userinfo. -/
def chars (r : Remote) (u : List Char) : List Char :=
  match r with
  | url scheme host path _ _ => scheme ++ (schemeMark ++ (u ++ '@' :: (host ++ '/' :: path)))
  | urlNoPath scheme host _ _ => scheme ++ (schemeMark ++ (u ++ '@' :: host))
  | scp host path _ => u ++ '@' :: (host ++ ':' :: path)

def withUserinfo (r : Remote) (u : Userinfo) : String := String.ofList (r.chars u.text)

/-- What follows the first `@` of a userinfo, with the `@` that ends it; nothing when it has none. -/
def afterAt (u : List Char) : List Char := (splitOnce ['@'] u).elim [] (fun p => p.2 ++ ['@'])

/-- What a sanitized remote still has of its userinfo. -/
def survives (r : Remote) (u : List Char) : List Char :=
  match r with
  | url .. => afterAt u
  | urlNoPath .. => if ':' ∈ u.takeWhile (· != '@') then u ++ ['@'] else afterAt u
  | scp _ path _ => if (splitOnce schemeMark (':' :: path)).isSome then u ++ ['@'] else afterAt u

end Remote

section Sanitize

variable {u host path scheme : List Char}

theorem splitOnce_afterAt (u host : List Char) :
    ∃ before, splitOnce ['@'] (u ++ '@' :: host) = some (before, Remote.afterAt u ++ host) := by
  unfold Remote.afterAt
  cases hsplit : splitOnce ['@'] u with
  | none => exact ⟨u, splitOnce_at (splitOnce_eq_none.1 hsplit) host⟩
  | some p =>
    refine ⟨p.1, ?_⟩
    rw [splitOnce_more hsplit, Option.elim_some, List.append_assoc, List.singleton_append]

theorem splitOnce_scheme (h : ':' ∉ scheme) (rest : List Char) :
    splitOnce schemeMark (scheme ++ (schemeMark ++ rest)) = some (scheme, rest) := by
  have hhere : splitOnce (':' :: ['/', '/']) (schemeMark ++ rest) = some ([], rest) :=
    splitOnce_here _ _ (List.cons_ne_nil _ _)
  show splitOnce (':' :: ['/', '/']) _ = _
  rw [splitOnce_append h, hhere, Option.map_some, List.append_nil]

/-- The text up to a character that a prefix does not have. -/
theorem takeWhile_append {c : Char} {pre : List Char} (h : c ∉ pre) (l : List Char) :
    (pre ++ l).takeWhile (· != c) = pre ++ l.takeWhile (· != c) ∧
      (pre ++ l).dropWhile (· != c) = l.dropWhile (· != c) := by
  have hall : ∀ x ∈ pre, (x != c) = true := fun x hx => bne_iff_ne.2 (ne_of_mem_of_not_mem hx h)
  exact ⟨List.takeWhile_append_of_pos hall, List.dropWhile_append_of_pos hall⟩

theorem noSlash_authority (hu : '/' ∉ u) (hhost : '/' ∉ host) : '/' ∉ u ++ '@' :: host := by
  rw [List.mem_append, List.mem_cons]
  exact not_or.2 ⟨hu, not_or.2 ⟨by decide, hhost⟩⟩

/-- **A URL with a path keeps what follows the first `@` of its userinfo.** -/
theorem sanitizeChars_url (hscheme : ':' ∉ scheme) (hhost : '/' ∉ host) (hu : '/' ∉ u) (path : List Char) :
    sanitizeChars (scheme ++ (schemeMark ++ (u ++ '@' :: (host ++ '/' :: path)))) =
      scheme ++ (schemeMark ++ (Remote.afterAt u ++ (host ++ '/' :: path))) := by
  have hauthority := noSlash_authority hu hhost
  have hrest : u ++ '@' :: (host ++ '/' :: path) = (u ++ '@' :: host) ++ '/' :: path := by simp
  obtain ⟨htake, hdrop⟩ := takeWhile_append hauthority ('/' :: path)
  obtain ⟨before, hsplit⟩ := splitOnce_afterAt u host
  unfold sanitizeChars
  rw [splitOnce_scheme hscheme]
  dsimp only
  rw [if_pos (by simp), hrest, htake, hdrop, List.takeWhile_cons_of_neg (by decide), List.append_nil, hsplit,
    List.dropWhile_cons_of_neg (by decide)]
  simp

/-- **A URL without a path keeps all of a userinfo with a colon before its first `@`.** -/
theorem sanitizeChars_urlNoPath (hscheme : ':' ∉ scheme) (hhost : '/' ∉ host) (hu : '/' ∉ u) :
    sanitizeChars (scheme ++ (schemeMark ++ (u ++ '@' :: host))) =
      scheme ++ (schemeMark ++
        ((if ':' ∈ u.takeWhile (· != '@') then u ++ ['@'] else Remote.afterAt u) ++ host)) := by
  have hauthority := noSlash_authority hu hhost
  unfold sanitizeChars
  rw [splitOnce_scheme hscheme]
  dsimp only
  rw [if_neg hauthority]
  by_cases hcolon : ':' ∈ u
  · -- the authority ends inside the userinfo
    obtain ⟨a, b, rfl, ha⟩ := List.eq_append_cons_of_mem hcolon
    obtain ⟨htake, hdrop⟩ := takeWhile_append ha (':' :: (b ++ '@' :: host))
    rw [List.append_assoc, List.cons_append, htake, hdrop, List.takeWhile_cons_of_neg (by decide), List.append_nil,
      List.dropWhile_cons_of_neg (by decide)]
    cases hsplit : splitOnce ['@'] a with
    | none =>
      have hmem : ':' ∈ (a ++ ':' :: b).takeWhile (· != '@') := by
        rw [(takeWhile_append (splitOnce_eq_none.1 hsplit) _).1, List.takeWhile_cons_of_pos (by decide)]
        simp
      rw [if_pos hmem]
      simp
    | some p =>
      obtain ⟨hlist, hat⟩ := splitOnce_singleton hsplit
      have hnot : ':' ∉ (a ++ ':' :: b).takeWhile (· != '@') := by
        rw [hlist, List.append_assoc, (takeWhile_append hat _).1, List.cons_append,
          List.takeWhile_cons_of_neg (by decide), List.append_nil]
        exact fun hmem => ha (hlist ▸ List.mem_append_left _ hmem)
      rw [if_neg hnot, Remote.afterAt, splitOnce_more hsplit, Option.elim_some]
      simp
  · have hnot : ':' ∉ u.takeWhile (· != '@') := fun hmem => hcolon ((List.takeWhile_sublist _).subset hmem)
    obtain ⟨htake, hdrop⟩ := takeWhile_append hcolon ('@' :: host)
    obtain ⟨before, hsplit⟩ := splitOnce_afterAt u (host.takeWhile (· != ':'))
    rw [if_neg hnot, htake, hdrop, List.takeWhile_cons_of_pos (by decide), hsplit,
      List.dropWhile_cons_of_pos (by decide)]
    dsimp only
    rw [List.append_assoc, List.append_assoc, List.append_assoc, List.takeWhile_append_dropWhile]

/-- A text without slashes before a colon holds no scheme mark. -/
theorem splitOnce_noSlash {pre : List Char} (h : '/' ∉ pre) (path : List Char) :
    splitOnce schemeMark (pre ++ ':' :: path) =
      (splitOnce schemeMark (':' :: path)).map (fun p => (pre ++ p.1, p.2)) := by
  induction pre with
  | nil => exact Option.map_id'.symm
  | cons c pre ih =>
    rw [List.mem_cons, not_or] at h
    have hno : schemeMark.isPrefixOf (c :: (pre ++ ':' :: path)) = false := by
      cases pre with
      | nil => simp [schemeMark, List.isPrefixOf]
      | cons d pre =>
        have hd : '/' ≠ d := fun heq => h.2 (heq ▸ List.mem_cons_self)
        simp [schemeMark, List.isPrefixOf, hd]
    rw [List.cons_append, splitOnce, if_neg (by rw [hno]; exact Bool.false_ne_true), ih h.2, Option.map_map]
    rfl

theorem scp_eq (u host path : List Char) : u ++ '@' :: (host ++ ':' :: path) = (u ++ '@' :: host) ++ ':' :: path := by
  rw [List.append_assoc, List.cons_append]

/-- **A remote without a scheme keeps what follows the first `@` of its userinfo.** -/
theorem sanitizeChars_scp (hhost : '/' ∉ host) (hmark : splitOnce schemeMark (':' :: path) = none) (hu : '/' ∉ u) :
    sanitizeChars (u ++ '@' :: (host ++ ':' :: path)) = Remote.afterAt u ++ (host ++ ':' :: path) := by
  have hauthority := noSlash_authority hu hhost
  have hsplit := splitOnce_noSlash hauthority path
  rw [hmark, Option.map_none, ← scp_eq] at hsplit
  obtain ⟨before, hcut⟩ := splitOnce_afterAt u (host ++ (':' :: path).takeWhile (· != '/'))
  unfold sanitizeChars
  rw [hsplit]
  dsimp only
  rw [scp_eq, (takeWhile_append hauthority _).1, (takeWhile_append hauthority _).2, List.append_assoc,
    List.cons_append, hcut]
  dsimp only
  rw [List.append_assoc, List.append_assoc, List.takeWhile_append_dropWhile]

/-- **A mark in the path takes the userinfo into the scheme**, and all of it is kept. -/
theorem sanitizeChars_scpMark {p : List Char × List Char} (hhost : '/' ∉ host)
    (hmark : splitOnce schemeMark (':' :: path) = some p) :
    ∃ back, ∀ u : List Char, '/' ∉ u → sanitizeChars (u ++ '@' :: (host ++ ':' :: path)) = u ++ '@' :: back := by
  have hsplit : ∀ u : List Char, '/' ∉ u → splitOnce schemeMark (u ++ '@' :: (host ++ ':' :: path)) =
      some (u ++ '@' :: (host ++ p.1), p.2) := by
    intro u hu
    have hcut := splitOnce_noSlash (noSlash_authority hu hhost) path
    rw [hmark, Option.map_some, ← scp_eq, List.append_assoc] at hcut
    exact hcut
  cases hat : splitOnce ['@'] (p.2.takeWhile (· != if '/' ∈ p.2 then '/' else ':')) with
  | none =>
    refine ⟨host ++ ':' :: path, fun u hu => ?_⟩
    unfold sanitizeChars
    rw [hsplit u hu]
    dsimp only
    rw [hat]
  | some q =>
    refine ⟨host ++ (p.1 ++ (schemeMark ++ (q.2 ++ p.2.dropWhile (· != if '/' ∈ p.2 then '/' else ':')))),
      fun u hu => ?_⟩
    unfold sanitizeChars
    rw [hsplit u hu]
    dsimp only
    rw [hat]
    simp

/-- **A sanitized remote is what survives of its userinfo, within parts that do not depend on it.** -/
theorem sanitizeChars_chars (r : Remote) : ∃ front back, ∀ u : List Char, '/' ∉ u →
    sanitizeChars (r.chars u) = front ++ (r.survives u ++ back) := by
  cases r with
  | url scheme host path hscheme hhost =>
    refine ⟨scheme ++ schemeMark, host ++ '/' :: path, fun u hu => ?_⟩
    rw [List.append_assoc]
    exact sanitizeChars_url hscheme hhost hu path
  | urlNoPath scheme host hscheme hhost =>
    refine ⟨scheme ++ schemeMark, host, fun u hu => ?_⟩
    rw [List.append_assoc]
    exact sanitizeChars_urlNoPath hscheme hhost hu
  | scp host path hhost =>
    unfold Remote.survives Remote.chars
    dsimp only
    cases hmark : splitOnce schemeMark (':' :: path) with
    | none => exact ⟨[], host ++ ':' :: path, fun u hu => sanitizeChars_scp hhost hmark hu⟩
    | some p =>
      obtain ⟨back, hback⟩ := sanitizeChars_scpMark hhost hmark
      refine ⟨[], back, fun u hu => ?_⟩
      rw [hback u hu, if_pos (Option.isSome_some), List.nil_append, List.append_assoc, List.singleton_append]

end Sanitize

/-- **Two userinfos leave the same origin exactly when the same text of them survives.** -/
theorem sanitizeOrigin_eq_iff (r : Remote) (u₁ u₂ : Userinfo) :
    sanitizeOrigin (r.withUserinfo u₁) = sanitizeOrigin (r.withUserinfo u₂) ↔
      r.survives u₁.text = r.survives u₂.text := by
  obtain ⟨front, back, hchars⟩ := sanitizeChars_chars r
  unfold sanitizeOrigin Remote.withUserinfo
  rw [String.toList_ofList, String.toList_ofList, hchars _ u₁.noSlash, hchars _ u₂.noSlash, String.ofList_inj,
    List.append_right_inj, List.append_left_inj]

def gitHost : Remote := .urlNoPath ['h', 't', 't', 'p', 's'] ['h', 'o', 's', 't'] (by decide) (by decide)

/-- A token behind a user name stays in the origin of a URL that has no path. -/
theorem sanitizeOrigin_keeps_token :
    ¬ ∀ (r : Remote) (u₁ u₂ : Userinfo),
      sanitizeOrigin (r.withUserinfo u₁) = sanitizeOrigin (r.withUserinfo u₂) := by
  intro hall
  have heq := hall gitHost ⟨"user:token".toList, by decide⟩ ⟨"user:other".toList, by decide⟩
  exact absurd heq (by decide +kernel)

end Subgov
