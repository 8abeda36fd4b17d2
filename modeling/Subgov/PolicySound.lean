import Subgov.PolicyMeaning
/-!
# PolicySound — the restricted policy reader and whole documents

At the root the reader passes over what has no name, with the lines below it: a selected path in another form there is
lost, and a path that those lines spell is read though the document does not have it.  Of the documents without such
parts (`PolicyStyle`) what is read is what they hold, or they are refused; the one-line flow mapping is one of the
others (`flow_policy_passes`).
-/
namespace Subgov

open Python

namespace ReadyBeads

variable {fields : List Path} {s s' : PolicyReader}

/-! ## The root -/

/-- An entry that is refused at the root. -/
def isRefused (fields : List Path) (line : List Char) : Bool :=
  (matchQuotedKey line).any (fun name => isAncestor fields [name]) || "<<:".toList.isPrefixOf line

/-- The line of an implicit entry. -/
def implicitLine (indent : Nat) (key space : List Char) (value : Yaml.Slot) : List Char :=
  Yaml.spaces indent ++ key ++ space ++ ':' :: value.head (indent + 1)

/-- The entries of the root that the reader passes over. -/
def passedEntries (fields : List Path) (indent : Nat) : Yaml.Entries → List (Yaml.Node × Yaml.Node)
  | .nil => []
  | .implicit key keyNode space value rest =>
    if (lineName (implicitLine indent key space value)).isSome ||
        isRefused fields (lineBody (implicitLine indent key space value)) then
      passedEntries fields indent rest
    else (keyNode, value.node) :: passedEntries fields indent rest
  | .explicit key rest => (key.node, .null) :: passedEntries fields indent rest
  | .explicitValue key value rest => (key.node, value.node) :: passedEntries fields indent rest

/-- What the reader passes over at the root. -/
def passedNode (fields : List Path) : Yaml.Slot → Yaml.Node
  | .mapping _ _ indent entries => .map (passedEntries fields indent entries)
  | root => root.node

theorem readLine_unrefused {raw : List Char} {n : Nat} (hread : readLine fields s raw = .ok s') (h : IsEntry raw n)
    (hstack : (s.popTo n).stack = []) (hname : lineName raw = none) : isRefused fields (lineBody raw) = false := by
  obtain ⟨htab, hentry⟩ := readLine_entry hread h
  rw [lineName_eq h.loud h.no_dash htab, Option.map_eq_none_iff] at hname
  unfold readEntry at hentry
  rw [hname] at hentry
  dsimp only at hentry
  unfold readOther at hentry
  split at hentry
  · cases hentry
  · rename_i hno
    have htop : (s.popTo n).top = [] := by rw [PolicyReader.top_eq, hstack]; rfl
    rw [not_or, htop] at hno
    unfold isRefused
    rw [Bool.or_eq_false_iff]
    refine ⟨by simpa using hno.1, ?_⟩
    rw [Bool.eq_false_iff]
    exact fun hyes => hno.2 ⟨hyes, Or.inl (by rw [hstack]; rfl)⟩

section Root

variable {n : Nat}

theorem deep_nil (n : Nat) : ∀ e ∈ ([] : List (Nat × Path)), e.1 < n := fun _ h => absurd h List.not_mem_nil

theorem Reads.based_indent {lines : List Yaml.Line} (h : Reads fields lines s s') (hs : Based n [] s)
    (hlines : ∀ line ∈ lines, Yaml.isGap line = true ∨ n ≤ Yaml.indentOf line) : Based n [] s' := by
  refine h.keeps hs fun raw hmem t t' hline ht => ht.line hline (deep_nil n) ?_
  rcases hlines raw hmem with hgap | hdeep
  · exact Or.inl (readLine_gap hline hgap).1
  · rw [← lineIndent_eq] at hdeep
    exact Or.inr (Or.inr hdeep)

/-- A key that was read before an entry of the root does not change any more. -/
theorem Reads.past {raw : List Char} {lines : List Yaml.Line} {name : String} (h : Reads fields (raw :: lines) s s')
    (hraw : IsEntry raw n) (hs : Orderly fields s) (hbased : Based n [] s) (hseen : [name] ∈ s.seen) (path : Path) :
    s'.result (name :: path) = s.result (name :: path) := by
  have hpopped : Reads fields (raw :: lines) (s.popTo n) s' := by
    obtain ⟨s₁, hline, hrest⟩ := reads_cons.1 h
    refine reads_cons.2 ⟨s₁, ?_, hrest⟩
    rw [← hline, ← hraw.indent]
    exact readLine_popTo hraw.loud hraw.no_dash
  have hsealed : Sealed [name] (s.popTo n) := ⟨hseen, fun e he => by
    rw [hbased.popTo_self (deep_nil n)] at he
    exact absurd he List.not_mem_nil⟩
  exact Sealed.run (by simp) ⟨path, rfl⟩ hpopped (hs.popTo n) hsealed

/-- Names stand only on lines that are indented. -/
theorem spelled_indent {stack : List (Nat × Path)} {lines : List (List Char)} {m : Nat} {q : Path}
    (h : (m, q) ∈ spelled stack lines) : ∃ raw ∈ lines, m = lineIndent raw ∧ lineName raw ≠ none := by
  induction lines generalizing stack with
  | nil => exact absurd h List.not_mem_nil
  | cons raw lines ih =>
    rw [spelled] at h
    rcases List.mem_append.1 h with hhere | hrest
    · cases hname : lineName raw with
      | none =>
        rw [hname] at hhere
        exact absurd hhere List.not_mem_nil
      | some name =>
        have hpass : (isQuiet raw || isDash raw) = false := by
          rw [Bool.eq_false_iff]
          intro hyes
          rw [Bool.or_eq_true] at hyes
          rw [lineName_pass hyes] at hname
          cases hname
        rw [Bool.or_eq_false_iff] at hpass
        rw [hname, Option.isSome_some, if_pos rfl, outlineStep_entry hpass.1 hpass.2, hname] at hhere
        simp only [List.head?_cons, Option.toList_some, List.mem_singleton, Prod.mk.injEq] at hhere
        exact ⟨raw, List.mem_cons_self, hhere.1, by rw [hname]; simp⟩
    · obtain ⟨raw', hmem, hm, hname⟩ := ih hrest
      exact ⟨raw', List.mem_cons_of_mem raw hmem, hm, hname⟩

/-- The lines below the first one of an entry. -/
structure Region (n : Nat) (lines : List Yaml.Line) : Prop where
  indent : ∀ line ∈ lines, Yaml.isGap line = true ∨ n ≤ Yaml.indentOf line
  names : ∀ line ∈ lines, lineName line = none ∨ n < lineIndent line

/-- A line that starts with a mark has no name. -/
theorem lineName_mark (m : Nat) {c : Char} (hc : c ≠ ' ' ∧ isKeyStart c = false) (rest : List Char) :
    lineName (Yaml.spaces m ++ c :: rest) = none := lineName_unnamed (lineBody_spaces m hc.1 rest) hc.2

theorem region_stands {lines : List Yaml.Line} (h : ∀ line ∈ lines, Yaml.Stands (n + 1) n line) : Region n lines := by
  refine ⟨fun line hmem => (h line hmem).above, fun line hmem => ?_⟩
  rcases h line hmem with hgap | hdeep | ⟨m, rest, -, rfl⟩
  · exact Or.inl (lineName_gap hgap)
  · rw [← lineIndent_eq] at hdeep
    exact Or.inr hdeep
  · exact Or.inl (lineName_mark m (by decide) rest)

theorem region_append {lines others : List Yaml.Line} (h : Region n lines) (hothers : Region n others) :
    Region n (lines ++ others) :=
  ⟨fun line hmem => (List.mem_append.1 hmem).elim (h.indent line) (hothers.indent line),
    fun line hmem => (List.mem_append.1 hmem).elim (h.names line) (hothers.names line)⟩

theorem region_mark {c : Char} (hc : c ≠ ' ' ∧ isKeyStart c = false) (rest : List Char) :
    Region n [Yaml.spaces n ++ c :: rest] := by
  refine ⟨fun line hmem => ?_, fun line hmem => ?_⟩ <;> rw [List.mem_singleton.1 hmem]
  · exact Or.inr (Yaml.le_indentOf_spaces n _)
  · exact Or.inl (lineName_mark n hc rest)

theorem spelled_region {stack : List (Nat × Path)} {lines : List (List Char)} {m : Nat} {q : Path}
    (hlines : Region n lines) (h : (m, q) ∈ spelled stack lines) : n < m := by
  obtain ⟨raw, hmem, rfl, hname⟩ := spelled_indent h
  exact (hlines.names raw hmem).resolve_left hname

/-- The first line that spells a path. -/
def firstSpelled (stack : List (Nat × Path)) (lines : List (List Char)) (q : Path) : Option (Nat × Path) :=
  (spelled stack lines).find? (·.2 == q)

/-- What is read of the entries of the root. -/
structure RootMeant (fields : List Path) (n : Nat) (nodes : List (Yaml.Node × Yaml.Node)) (lines : List Yaml.Line)
    (s s' : PolicyReader) : Prop where
  past : ∀ name, [name] ∈ s.seen → ∀ path, s'.result (name :: path) = s.result (name :: path)
  absent : ∀ name, [name] ∈ s.seen → ∀ path w, name :: path ∈ fields → (Yaml.Node.map nodes).At (name :: path) w →
    heldValue w = none
  holds : ∀ name, [name] ∉ s.seen → ∀ path w x, name :: path ∈ fields → (Yaml.Node.map nodes).At (name :: path) w →
    heldValue w = some x → s'.result (name :: path) = some x
  defined : ∀ name, [name] ∉ s.seen → (∀ e, firstSpelled s.stack lines [name] = some e → e.1 = n) →
    ∀ path, s'.result (name :: path) ≠ none → ∃ w, (Yaml.Node.map nodes).At (name :: path) w

/-- What the entries hold is read, whether their key was read before or not. -/
theorem RootMeant.found {nodes : List (Yaml.Node × Yaml.Node)} {lines : List Yaml.Line} {name : String} {path : Path}
    {w : Yaml.Node} {x : Value} (h : RootMeant fields n nodes lines s s') (hfield : name :: path ∈ fields)
    (hat : (Yaml.Node.map nodes).At (name :: path) w) (hheld : heldValue w = some x) :
    s'.result (name :: path) = some x := by
  by_cases hseen : [name] ∈ s.seen
  · rw [h.absent name hseen path w hfield hat] at hheld
    cases hheld
  · exact h.holds name hseen path w x hfield hat hheld

/-- Where the first spelling of a path is in the lines of an entry, it is on the entry's own. -/
theorem first_behind {region rest : List Yaml.Line} {s₁ s₂ : PolicyReader} {q : Path} {own : List (Nat × Path)}
    (hregion : Region n region) (hreads : Reads fields region s₁ s₂) (hseen : q ∉ s₁.seen) (hown : ∀ e ∈ own, e.2 ≠ q)
    (hfirst : ∀ e, (own ++ (spelled s₁.stack region ++ spelled s₂.stack rest)).find? (·.2 == q) = some e → e.1 = n) :
    q ∉ s₂.seen ∧ ∀ e, firstSpelled s₂.stack rest q = some e → e.1 = n := by
  have hnone : own.find? (·.2 == q) = none := by
    rw [List.find?_eq_none]
    intro e he
    rw [beq_iff_eq]
    exact hown e he
  rw [List.find?_append, hnone, Option.none_or, List.find?_append] at hfirst
  cases hin : (spelled s₁.stack region).find? (·.2 == q) with
  | some e =>
    have he := hfirst e (by rw [hin]; rfl)
    have hmem : (e.1, e.2) ∈ spelled s₁.stack region := List.mem_of_find?_eq_some hin
    have := spelled_region hregion hmem
    omega
  | none =>
    rw [hin, Option.none_or] at hfirst
    refine ⟨fun hmem => ?_, hfirst⟩
    rcases hreads.seen hmem with hold | ⟨m, hm⟩
    · exact hseen hold
    · rw [List.find?_eq_none] at hin
      exact hin _ hm (by simp)

/-- An entry of the root. -/
structure RootEntry (fields : List Path) (n : Nat) (raw : Yaml.Line) (region rest : List Yaml.Line)
    (nodes : List (Yaml.Node × Yaml.Node)) (s s₁ s₂ s' : PolicyReader) : Prop where
  orderly : Orderly fields s
  based : Based n [] s
  entry : IsEntry raw n
  line : readLine fields s raw = .ok s₁
  shape : Region n region
  below : Reads fields region s₁ s₂
  behind : Reads fields rest s₂ s'
  meant : RootMeant fields n nodes rest s₂ s'

section Step

variable {raw : Yaml.Line} {region rest : List Yaml.Line} {nodes : List (Yaml.Node × Yaml.Node)}
  {s₁ s₂ : PolicyReader} {k v : Yaml.Node}

theorem rootEntry_of_reads (hs : Orderly fields s) (hbased : Based n [] s) (hentry : IsEntry raw n)
    (hshape : Region n region) (hreads : Reads fields (raw :: (region ++ rest)) s s')
    (hmeant : ∀ {t : PolicyReader}, Orderly fields t → Based n [] t → Reads fields rest t s' →
      RootMeant fields n nodes rest t s') : ∃ s₁ s₂, RootEntry fields n raw region rest nodes s s₁ s₂ s' := by
  obtain ⟨s₁, hline, htail⟩ := reads_cons.1 hreads
  obtain ⟨s₂, hbelow, hbehind⟩ := reads_append.1 htail
  have hbased₁ : Based n [] s₁ := hbased.line hline (deep_nil n) (Or.inr (Or.inr (le_of_eq hentry.indent.symm)))
  exact ⟨s₁, s₂, hs, hbased, hentry, hline, hshape, hbelow, hbehind,
    hmeant (hbelow.orderly (readLine_orderly hline hs)) (hbelow.based_indent hbased₁ hshape.indent) hbehind⟩

theorem RootEntry.reads (h : RootEntry fields n raw region rest nodes s s₁ s₂ s') :
    Reads fields (raw :: (region ++ rest)) s s' :=
  reads_cons.2 ⟨s₁, h.line, reads_append.2 ⟨s₂, h.below, h.behind⟩⟩

theorem RootEntry.seen (h : RootEntry fields n raw region rest nodes s s₁ s₂ s') {q : Path} (hq : q ∈ s.seen) :
    q ∈ s₂.seen := h.below.seen_mono (readLine_seen_mono h.line hq)

theorem RootEntry.spelled_lines (h : RootEntry fields n raw region rest nodes s s₁ s₂ s') :
    spelled s.stack (raw :: (region ++ rest)) =
      spelled s.stack [raw] ++ (spelled s₁.stack region ++ spelled s₂.stack rest) := by
  rw [← List.singleton_append, spelled_append, List.foldl_cons, List.foldl_nil, ← readLine_stack h.line, spelled_append,
    ← h.below.stack]

/-- **An entry that is passed over holds nothing that is selected.** -/
theorem RootEntry.cons_passed (h : RootEntry fields n raw region rest nodes s s₁ s₂ s') (hname : lineName raw = none)
    (hpassed : ∀ name path w, name :: path ∈ fields → k.Named name → v.At path w → heldValue w = none) :
    RootMeant fields n ((k, v) :: nodes) (raw :: (region ++ rest)) s s' := by
  obtain ⟨rfl, -⟩ := readLine_nameless h.line h.entry hname
  refine ⟨fun name hseen path => h.reads.past h.entry h.orderly h.based hseen path,
    fun name hseen path w hfield hat => ?_, fun name hfresh path w x hfield hat hheld => ?_,
    fun name hfresh hfirst path hsome => ?_⟩
  · rcases at_map_cons.1 hat with ⟨hk, hv⟩ | hat
    · exact hpassed name path w hfield hk hv
    · exact h.meant.absent name (h.seen hseen) path w hfield hat
  · rcases at_map_cons.1 hat with ⟨hk, hv⟩ | hat
    · rw [hpassed name path w hfield hk hv] at hheld
      cases hheld
    · exact h.meant.found hfield hat hheld
  · unfold firstSpelled at hfirst
    rw [h.spelled_lines] at hfirst
    obtain ⟨hseen, hrest⟩ := first_behind h.shape h.below hfresh (fun e he => by
      rw [spelled, hname] at he
      exact absurd he List.not_mem_nil) hfirst
    obtain ⟨w, hw⟩ := h.meant.defined name hseen hrest path hsome
    exact ⟨w, at_map_cons.2 (Or.inr hw)⟩

/-- **An entry with a name is read as it is meant.** -/
theorem RootEntry.cons_named {name₀ : String} (h : RootEntry fields n raw region rest nodes s s₁ s₂ s')
    (hk : k = .scalar { plain := true, content := name₀.toList }) (hown : spelled s.stack [raw] = [(n, [name₀])])
    (hother : ∀ q, q ≠ [name₀] → (q ∈ s₁.seen ↔ q ∈ s.seen))
    (hmeant : isAncestor fields [name₀] = true → [name₀] ∉ s.seen ∧ [name₀] ∈ s₂.seen ∧ Meant fields [name₀] v s₂) :
    RootMeant fields n ((k, v) :: nodes) (raw :: (region ++ rest)) s s' := by
  have hrelevant : ∀ {path : Path}, name₀ :: path ∈ fields → isAncestor fields [name₀] = true := fun hfield =>
    isAncestor_iff.2 ⟨by simp, _, hfield, _, rfl⟩
  have hsame : ∀ {name : String}, k.Named name → name = name₀ := fun hname => by
    rw [hk, named_plain] at hname
    exact hname.symm
  refine ⟨fun name hseen path => h.reads.past h.entry h.orderly h.based hseen path,
    fun name hseen path w hfield hat => ?_, fun name hfresh path w x hfield hat hheld => ?_,
    fun name hfresh hfirst path hsome => ?_⟩
  · rcases at_map_cons.1 hat with ⟨hname, -⟩ | hat
    · rw [hsame hname] at hseen hfield
      exact absurd hseen (hmeant (hrelevant hfield)).1
    · exact h.meant.absent name (h.seen hseen) path w hfield hat
  · rcases at_map_cons.1 hat with ⟨hname, hv⟩ | hat
    · obtain rfl := hsame hname
      obtain ⟨-, hseen, hvalue⟩ := hmeant (hrelevant hfield)
      rw [h.meant.past name hseen]
      exact hvalue.holds path w x hfield hv hheld
    · exact h.meant.found hfield hat hheld
  · by_cases hname : name = name₀
    · subst hname
      obtain ⟨-, hseen, hvalue⟩ := hmeant (hrelevant ((h.reads.orderly h.orderly).selected _ hsome))
      rw [h.meant.past name hseen] at hsome
      obtain ⟨w, hw⟩ := hvalue.defined path hsome
      exact ⟨w, at_map_cons.2 (Or.inl ⟨by rw [hk, named_plain], hw⟩)⟩
    · have hne : [name] ≠ [name₀] := by simpa using hname
      unfold firstSpelled at hfirst
      rw [h.spelled_lines] at hfirst
      obtain ⟨hseen, hrest⟩ := first_behind h.shape h.below (fun hmem => hfresh ((hother _ hne).1 hmem)) (fun e he => by
        rw [hown, List.mem_singleton] at he
        rw [he]
        exact Ne.symm hne) hfirst
      obtain ⟨w, hw⟩ := h.meant.defined name hseen hrest path hsome
      exact ⟨w, at_map_cons.2 (Or.inr hw)⟩

end Step

/-- What holds of the entries that are passed over holds of the last of them. -/
theorem passed_tail {k v : Yaml.Node} {nodes : List (Yaml.Node × Yaml.Node)}
    (h : ∀ field ∈ fields, ∀ w, (Yaml.Node.map ((k, v) :: nodes)).At field w → heldValue w = none) :
    ∀ field ∈ fields, ∀ w, (Yaml.Node.map nodes).At field w → heldValue w = none := by
  intro field hfield w hat
  cases field with
  | nil =>
    cases hat
    rfl
  | cons name path => exact h _ hfield w (at_map_cons.2 (Or.inr hat))

theorem passed_head {k v : Yaml.Node} {nodes : List (Yaml.Node × Yaml.Node)}
    (h : ∀ field ∈ fields, ∀ w, (Yaml.Node.map ((k, v) :: nodes)).At field w → heldValue w = none) :
    ∀ name path w, name :: path ∈ fields → k.Named name → v.At path w → heldValue w = none :=
  fun _ _ w hfield hk hv => h _ hfield w (at_map_cons.2 (Or.inl ⟨hk, hv⟩))

theorem spelled_own {raw : Yaml.Line} {name : String} (hentry : IsEntry raw n) (hbased : Based n [] s)
    (hname : lineName raw = some name) : spelled s.stack [raw] = [(n, [name])] := by
  have hpop : s.stack.dropWhile (fun entry => n ≤ entry.1) = [] := hbased.popTo_self (deep_nil n)
  rw [spelled, outlineStep_entry hentry.loud hentry.no_dash, hname, hentry.indent, hpop]
  rfl

/-- **The entries of the root are read as they are meant.** -/
theorem root_meant {spelt : Path → Prop} : ∀ {entries : Yaml.Entries} {s s' : PolicyReader}, entries.Fits n →
    Orderly fields s → Based n [] s → Reads fields (entries.lines n) s s' →
    (∀ line ∈ entries.lines n, asciiColon line = true) →
    (∀ name value, (name, value) ∈ entries.named → ∀ path part, value.Reaches path part →
      SlotLegible fields spelt n (name :: path) part) →
    (∀ q ∈ s'.seen, spelt q) →
    (∀ field ∈ fields, ∀ w, (Yaml.Node.map (passedEntries fields n entries)).At field w → heldValue w = none) →
    RootMeant fields n entries.nodes (entries.lines n) s s'
  | .nil, s, s', _, hs, _, hreads, _, _, _, _ => by
    rw [reads_nil.1 hreads]
    refine ⟨fun _ _ _ => rfl, fun _ _ path w _ hat => ?_, fun _ _ path w x _ hat _ => ?_, fun name hfresh _ path hsome => ?_⟩
    · cases hat with
      | step hmem => exact absurd hmem List.not_mem_nil
    · cases hat with
      | step hmem => exact absurd hmem List.not_mem_nil
    · exact absurd (hs.mem_of_extended (by simp) ⟨path, rfl⟩ (hs.recorded _ hsome)) hfresh
  | .explicit key rest, s, s', hfits, hs, hbased, hreads, hascii, hlegible, hspelt, hpassed => by
    obtain ⟨hkey, hrest⟩ := hfits
    have hregion := region_stands (Yaml.Slot.tail_stands hkey (Nat.le_refl _))
    obtain ⟨s₁, s₂, hroot⟩ := rootEntry_of_reads hs hbased (mark_isEntry n (by decide) _) hregion hreads
      fun hs₂ hbased₂ hbehind => root_meant hrest hs₂ hbased₂ hbehind
        (fun line hmem => hascii line (List.mem_cons_of_mem _ (List.mem_append_right _ hmem))) hlegible hspelt
        (passed_tail hpassed)
    exact hroot.cons_passed (lineName_mark n (by decide) _) (passed_head hpassed)
  | .explicitValue key value rest, s, s', hfits, hs, hbased, hreads, hascii, hlegible, hspelt, hpassed => by
    obtain ⟨hkey, hvalue, hrest⟩ := hfits
    have hsplit : Reads fields ((Yaml.spaces n ++ '?' :: key.head (n + 1)) ::
        ((key.tail ++ ([Yaml.spaces n ++ ':' :: value.head (n + 1)] ++ value.tail)) ++ rest.lines n)) s s' := by
      have hlines := hreads
      rw [Yaml.Entries.lines] at hlines
      simpa only [List.append_assoc, List.singleton_append, List.cons_append, List.nil_append] using hlines
    have hregion : Region n (key.tail ++ ([Yaml.spaces n ++ ':' :: value.head (n + 1)] ++ value.tail)) :=
      region_append (region_stands (Yaml.Slot.tail_stands hkey (Nat.le_refl _)))
        (region_append (region_mark (by decide) _) (region_stands (Yaml.Slot.tail_stands hvalue (Nat.le_refl _))))
    have hlast : ∀ line ∈ rest.lines n, asciiColon line = true := fun line hmem => hascii line (by
      rw [Yaml.Entries.lines]
      simp [hmem])
    obtain ⟨s₁, s₂, hroot⟩ := rootEntry_of_reads hs hbased (mark_isEntry n (by decide) _) hregion hsplit
      fun hs₂ hbased₂ hbehind => root_meant hrest hs₂ hbased₂ hbehind hlast hlegible hspelt (passed_tail hpassed)
    have hcons := hroot.cons_passed (lineName_mark n (by decide) _) (passed_head hpassed)
    rw [Yaml.Entries.lines, Yaml.Entries.nodes]
    simpa only [List.append_assoc, List.singleton_append, List.cons_append, List.nil_append] using hcons
  | .implicit key keyNode space value rest, s, s', hfits, hs, hbased, hreads, hascii, hlegible, hspelt, hpassed => by
    obtain ⟨hflow, hbreak, hspace, hvalue, hrest⟩ := hfits
    obtain ⟨hentry, -⟩ : IsEntry (implicitLine n key space value) n ∧ _ := implicit_isEntry hflow
    have hregion := region_stands (Yaml.Slot.tail_stands hvalue (Nat.le_refl _))
    have hpop : (s.popTo n).stack = [] := hbased.popTo_self (deep_nil n)
    have htop : (s.popTo n).top = [] := by rw [PolicyReader.top_eq, hpop]; rfl
    have htailPassed : ∀ field ∈ fields, ∀ w,
        (Yaml.Node.map (passedEntries fields n rest)).At field w → heldValue w = none := by
      rw [passedEntries] at hpassed
      split at hpassed
      · exact hpassed
      · exact passed_tail hpassed
    obtain ⟨s₁, s₂, hroot⟩ := rootEntry_of_reads hs hbased hentry hregion hreads
      fun hs₂ hbased₂ hbehind => root_meant hrest hs₂ hbased₂ hbehind
        (fun line hmem => hascii line (List.mem_cons_of_mem _ (List.mem_append_right _ hmem)))
        (fun name value' hmem => hlegible name value' (List.mem_append_right _ hmem)) hspelt htailPassed
    have hbelow := hroot.below
    cases implicit_read hflow hbreak hspace (hascii _ List.mem_cons_self) hroot.line with
    | passed hname _ =>
      change lineName (implicitLine n key space value) = none at hname
      have hunrefused := readLine_unrefused hroot.line hentry hpop hname
      rw [passedEntries, if_neg (by rw [hname, hunrefused]; exact Bool.false_ne_true)] at hpassed
      exact hroot.cons_passed hname (passed_head hpassed)
    | other name₀ hname hnode hno =>
      rw [htop] at hno
      refine hroot.cons_named hnode (spelled_own hentry hbased hname) (fun _ _ => Iff.rfl) fun hyes => ?_
      rw [show [] ++ [name₀] = [name₀] from rfl, hyes] at hno
      cases hno
    | opened name₀ s₃ hname hnode hyes hmarks =>
      rw [htop] at hyes hmarks hbelow hroot
      have hopened := hmarks.opened hs hpop hyes
      have hvalueMeant := slot_meant hvalue hopened (fun _ => rfl) hbelow
        (fun line hmem => hascii line (List.mem_cons_of_mem _ (List.mem_append_left _ hmem)))
        (fun path part hpart => hlegible name₀ value (Yaml.Entries.mem_named hnode) path part hpart)
        (fun q hq => hspelt q (hroot.behind.seen_mono hq))
      exact hroot.cons_named hnode (spelled_own hentry hbased hname) (fun q hq => hmarks.mem_iff hq) fun _ =>
        ⟨hmarks.fresh, hbelow.seen_mono hmarks.mem, hvalueMeant⟩

end Root

/-! ## Documents -/

/-- The lines of a document spell a path. -/
def Spelt (d : Yaml.Document) (q : Path) : Prop := ∃ n, (n, q) ∈ spelled [] d.lines

def rootIndent : Yaml.Slot → Nat
  | .mapping _ _ indent _ => indent
  | _ => 0

/-- The documents that are read as they are meant, or refused. -/
structure PolicyStyle (fields : List Path) (d : Yaml.Document) : Prop where
  /-- To Python, only newlines are breaks. -/
  breaks : ∀ line ∈ d.lines, ∀ c ∈ line, isLineBreak c = false
  colons : ∀ line ∈ d.lines, asciiColon line = true
  /-- The first line that spells the outermost key of a spelt path is an entry of the root. -/
  outermost : ∀ field ∈ fields, Spelt d field → (∃ gap indent entries, d.root = .mapping [] gap indent entries) ∧
    ∀ e, firstSpelled [] d.lines (field.take 1) = some e → e.1 = rootIndent d.root
  /-- Nothing that is passed over at the root holds a value at a selected path. -/
  skipped : ∀ field ∈ fields, ∀ w, (passedNode fields d.root).At field w → heldValue w = none
  legible : ∀ path part, path ≠ [] → d.root.Reaches path part →
    SlotLegible fields (Spelt d) (rootIndent d.root) path part

theorem splitLines_text {d : Yaml.Document} (h : ∀ line ∈ d.lines, ∀ c ∈ line, isLineBreak c = false) :
    splitLines d.text = d.lines := by
  unfold Yaml.Document.text
  dsimp only
  split
  · exact splitLines_lines h
  · rename_i hfinal
    exact splitLines_dropLast h (d.finalLine (Bool.eq_false_iff.2 hfinal))

theorem policyFields_reads {text : List Char} {r : Path → Option Value} (h : policyFields fields text = .ok r) :
    ∃ s, Reads fields (splitLines text) {} s ∧ r = s.result := by
  obtain ⟨s, hreads, hresult⟩ := ok_of_map h
  exact ⟨s, hreads, hresult.symm⟩

theorem spelled_gap {stack : List (Nat × Path)} {lines : List (List Char)}
    (hgap : ∀ line ∈ lines, Yaml.isGap line = true) : spelled stack lines = [] := by
  rw [List.eq_nil_iff_forall_not_mem]
  rintro ⟨m, q⟩ hmem
  obtain ⟨raw, hraw, -, hname⟩ := spelled_indent hmem
  exact hname (lineName_gap (hgap raw hraw))

/-- What is read is spelt. -/
theorem Reads.spelt {d : Yaml.Document} {s : PolicyReader} (h : Reads fields d.lines {} s) :
    ∀ q ∈ s.seen, Spelt d q := fun _ hq => (h.seen hq).resolve_left List.not_mem_nil

/-- The root of a document without passed parts is a mapping whose entries are read as they are meant. -/
theorem PolicyStyle.root {d : Yaml.Document} {s : PolicyReader} (h : PolicyStyle fields d) {gap : List Yaml.Line}
    {indent : Nat} {entries : Yaml.Entries} {trail : Yaml.Line} (hroot : d.root = .mapping trail gap indent entries)
    (hreads : Reads fields d.lines {} s) : RootMeant fields indent entries.nodes (entries.lines indent) {} s ∧
      firstSpelled [] d.lines = firstSpelled [] (entries.lines indent) := by
  have hlines : d.lines = gap ++ entries.lines indent := by
    unfold Yaml.Document.lines
    rw [hroot, Yaml.Slot.tail]
  have hfits := d.fits
  rw [hroot] at hfits
  obtain ⟨-, hgap, -, -, hentries⟩ := hfits
  have hspelt := hreads.spelt
  have hcolons := h.colons
  have hskipped := h.skipped
  have hlegible := h.legible
  rw [hlines] at hcolons
  rw [hroot] at hskipped hlegible
  obtain ⟨s₁, hbefore, hbelow⟩ := reads_append.1 (hlines ▸ hreads)
  have hstart : s₁ = {} := hbefore.gap hgap
  subst hstart
  refine ⟨root_meant hentries orderly_start ⟨[], rfl, fun _ he => absurd he List.not_mem_nil⟩ hbelow
    (fun line hmem => hcolons line (List.mem_append_right _ hmem))
    (fun name value hmem path part hpart => hlegible (name :: path) part (List.cons_ne_nil _ _) (.step hmem hpart))
    hspelt hskipped, ?_⟩
  funext q
  have hquiet : gap.foldl outlineStep [] = [] := hbefore.stack.symm
  unfold firstSpelled
  rw [hlines, spelled_append, spelled_gap hgap, hquiet]
  rfl

/-- What is read of a document is what it holds. -/
def FailsClosed (fields : List Path) (d : Yaml.Document) : Prop :=
  ∀ r, policyFields fields d.text = .ok r →
    (∀ field ∈ fields, ∀ w x, d.node.At field w → heldValue w = some x → r field = some x) ∧
      ∀ path, r path ≠ none → ∃ w, d.node.At path w

theorem PolicyStyle.failsClosed {d : Yaml.Document} (h : PolicyStyle fields d) : FailsClosed fields d := by
  intro r hread
  obtain ⟨s, hreads, rfl⟩ := policyFields_reads hread
  rw [splitLines_text h.breaks] at hreads
  have horderly := hreads.orderly orderly_start
  constructor
  · intro field hfield w x hat hheld
    unfold Yaml.Document.node at hat
    have hskipped := h.skipped field hfield w
    cases hroot : d.root with
    | mapping trail gap indent entries =>
      rw [hroot, Yaml.Slot.node] at hat
      cases field with
      | nil =>
        cases hat
        cases hheld
      | cons name path => exact (h.root hroot hreads).1.holds name List.not_mem_nil path w x hfield hat hheld
    | _ =>
      rw [hroot] at hskipped hat
      rw [hskipped hat] at hheld
      cases hheld
  · intro path hsome
    obtain ⟨⟨gap, indent, entries, hroot⟩, houter⟩ :=
      h.outermost path (horderly.selected path hsome) (hreads.spelt path (horderly.recorded path hsome))
    unfold Yaml.Document.node
    rw [hroot] at houter ⊢
    obtain ⟨hmeant, hfirst⟩ := h.root hroot hreads
    cases path with
    | nil => exact ⟨_, .here _⟩
    | cons name path =>
      rw [hfirst] at houter
      exact hmeant.defined name List.not_mem_nil houter path hsome

/-- Of a document that spells no selected path, nothing is read. -/
theorem unspelt_result {d : Yaml.Document} {r : Path → Option Value}
    (hbreaks : ∀ line ∈ d.lines, ∀ c ∈ line, isLineBreak c = false) (hspelt : ∀ field ∈ fields, ¬ Spelt d field)
    (hread : policyFields fields d.text = .ok r) (path : Path) : r path = none := by
  obtain ⟨s, hreads, rfl⟩ := policyFields_reads hread
  rw [splitLines_text hbreaks] at hreads
  have horderly := hreads.orderly orderly_start
  by_contra hsome
  exact hspelt path (horderly.selected path hsome) (hreads.spelt path (horderly.recorded path hsome))

/-- A policy that passes has no owner, or this host. -/
theorem policyOk_owner {beads : Bool} {text : List Char} {host : String}
    (h : policyOk beads (some (.ok text)) host = .ok true) : ∃ r, policyFields policyPaths text = .ok r ∧
      ∀ owner, r ownerHostPath = some (.str owner) → owner = host := by
  unfold policyOk at h
  split at h
  · cases h
  · obtain ⟨policy, hpolicy, hok⟩ := ok_of_bind h
    obtain ⟨r, hr, hvalues⟩ := ok_of_bind hpolicy
    cases hvalues
    refine ⟨r, hr, fun owner howner => ?_⟩
    have hboth := Except.ok.inj hok
    dsimp only at hboth
    rw [howner, Bool.and_eq_true] at hboth
    exact beq_iff_eq.1 hboth.2

/-! ## Two policies -/

def plainText (text : String) : Yaml.Node := .scalar { plain := true, content := text.toList }

theorem plain_flow {text : String} {inFlow : Yaml.InFlow} (h : Yaml.isPlain inFlow text.toList = true)
    (hline : Yaml.foldBreaks text.toList = text.toList) : Yaml.Flow (.node inFlow) text.toList (plainText text) := by
  have hflow := Yaml.Flow.plain h
  rw [hline] at hflow
  exact hflow

theorem forall_chars {p : Char → Prop} [DecidablePred p] {lines : List Yaml.Line}
    (h : lines.all (·.all (p ·)) = true) : ∀ line ∈ lines, ∀ c ∈ line, p c := fun line hline =>
  List.all_iff_forall_prop.1 (List.all_eq_true.1 h line hline)

/-- A mapping of one pair, in braces. -/
theorem braced_flow {key value : List Char} {k v : Yaml.Node} {inFlow : Yaml.InFlow}
    (hkey : Yaml.Flow (.node true) key k) (hvalue : Yaml.Flow (.node true) value v) :
    Yaml.Flow (.node inFlow) ('\x7b' :: (key ++ ':' :: ' ' :: value) ++ ['\x7d']) (.map [(k, v)]) := by
  have hafter : Yaml.Separation [' '] := .space (Or.inl rfl) .nil
  have hpair := Yaml.Flow.pair hkey hvalue .nil hafter fun hnil => absurd hnil (by decide)
  rw [List.append_nil] at hpair
  let item : Yaml.FlowItem := ⟨[], .entry, key ++ ':' :: [' '] ++ value, .map [(k, v)], []⟩
  have hmap : Yaml.Flow (.node inFlow) ('\x7b' :: Yaml.itemsText [item] false [] ++ ['\x7d'])
      (.map ([item].flatMap (·.node.entries))) := by
    refine .map .nil (fun i hi => ?_) (fun i hi => ?_) <;> rw [List.mem_singleton.1 hi]
    · exact ⟨.nil, .nil, rfl⟩
    · exact .entryPair hpair
  simpa [item, Yaml.itemsText, Yaml.FlowItem.all, Yaml.Node.entries] using hmap

/-- `queue:` with `owner_host: lab` below it. -/
def ownedPolicy : Yaml.Document where
  root := .mapping [] [] 0 (.implicit "queue".toList (plainText "queue") [] (.mapping [] [] 2
    (.implicit "owner_host".toList (plainText "owner_host") []
      (.flow (.here [' ']) "lab".toList (plainText "lab") [] []) .nil)) .nil)
  fits := by
    have hqueue : Yaml.Flow (.node false) "queue".toList (plainText "queue") := plain_flow (by decide) (by decide)
    have howner : Yaml.Flow (.node false) "owner_host".toList (plainText "owner_host") := plain_flow (by decide) (by decide)
    have hlab : Yaml.Flow (.node false) "lab".toList (plainText "lab") := plain_flow (by decide) (by decide)
    have howned : (Yaml.Slot.flow (.here [' ']) "lab".toList (plainText "lab") [] []).Fits 3 2 false :=
      ⟨⟨by decide, by decide⟩, hlab, by decide, by decide, by decide⟩
    have hbelow : (Yaml.Slot.mapping [] [] 2 (.implicit "owner_host".toList (plainText "owner_host") []
        (.flow (.here [' ']) "lab".toList (plainText "lab") [] []) .nil)).Fits 1 0 false :=
      ⟨by decide, by decide, by decide, Yaml.Entries.noConfusion, howner, by decide, by decide, howned, trivial⟩
    exact ⟨by decide, by decide, by decide, Yaml.Entries.noConfusion, hqueue, by decide, by decide, hbelow, trivial⟩
  head := rfl
  printable := forall_chars (by decide)
  unmarked := by decide
  final := true
  finalLine := by decide

theorem ownedPolicy_style : PolicyStyle policyPaths ownedPolicy where
  breaks := forall_chars (by decide)
  colons := by decide
  outermost := by
    have hspelt : spelled [] ownedPolicy.lines = [(0, ["queue"]), (2, ownerHostPath)] := by decide
    rintro field - ⟨n, hn⟩
    refine ⟨⟨_, _, _, rfl⟩, fun e he => ?_⟩
    rw [hspelt] at hn
    rcases List.mem_cons.1 hn with heq | hmem
    · cases heq
      rw [firstSpelled, hspelt] at he
      exact (Option.some.inj he) ▸ rfl
    · cases List.mem_singleton.1 hmem
      rw [firstSpelled, hspelt] at he
      exact (Option.some.inj he) ▸ rfl
  skipped := by
    rintro field - w hat
    cases hat with
    | here => rfl
    | step hmem => exact absurd hmem List.not_mem_nil
  legible := by
    rintro path part hpath hreach
    cases hreach with
    | here => exact absurd rfl hpath
    | step hmem hreach =>
      cases List.mem_singleton.1 hmem
      cases hreach with
      | here =>
        refine ⟨fun hfield => absurd hfield (by decide), fun hfield => absurd hfield (by decide),
          fun hfield => absurd hfield (by decide), ?_⟩
        rintro (⟨_, _, _, _, heq⟩ | ⟨_, _, _, _, _, heq, -⟩) <;> cases heq
      | step hmem hreach =>
        cases List.mem_singleton.1 hmem
        cases hreach with
        | here =>
          refine ⟨?_, ?_, ?_, ?_⟩
          · rintro - space text s trail gap heq -
            cases heq
            exact ⟨fun _ => ⟨by decide, fun _ _ => by decide⟩, fun hquote => absurd hquote (by decide)⟩
          · rintro - space text items trail gap heq
            cases heq
          · rintro - trail gap indent items heq
            cases heq
          · rintro (⟨_, _, _, _, heq⟩ | ⟨_, _, _, _, _, heq, -⟩) <;> cases heq

/-- `{queue: {owner_host: lab}}` -/
def flowPolicy : Yaml.Document where
  root := .flow (.below [] [] []) "\x7bqueue: \x7bowner_host: lab\x7d\x7d".toList
    (.map [(plainText "queue", .map [(plainText "owner_host", plainText "lab")])]) [] []
  fits := by
    have howner : Yaml.Flow (.node true) "owner_host".toList (plainText "owner_host") :=
      plain_flow (by decide) (by decide)
    have hqueue : Yaml.Flow (.node true) "queue".toList (plainText "queue") := plain_flow (by decide) (by decide)
    have hlab : Yaml.Flow (.node true) "lab".toList (plainText "lab") := plain_flow (by decide) (by decide)
    exact ⟨⟨by decide, by decide, by decide, by decide⟩, braced_flow hqueue (braced_flow howner hlab), by decide,
      by decide, by decide⟩
  head := rfl
  printable := forall_chars (by decide)
  unmarked := by decide
  final := true
  finalLine := by decide

/-! ## The reader and the documents -/

/-- **A document whose selected values are written as the reader knows them is read as it is meant, or refused; one that
spells no selected path is so only where it holds no value there, or is refused.** -/
theorem policy_faithful (d : Yaml.Document) :
    (∀ fields, PolicyStyle fields d → FailsClosed fields d) ∧
    (PolicyStyle policyPaths d → ∀ beads host owner w, d.node.At ownerHostPath w →
      heldValue w = some (.str owner) → owner ≠ host → policyOk beads (some (.ok d.text)) host ≠ .ok true) ∧
    ∀ fields r, (∀ line ∈ d.lines, ∀ c ∈ line, isLineBreak c = false) → (∀ field ∈ fields, ¬ Spelt d field) →
      policyFields fields d.text = .ok r →
        (FailsClosed fields d ↔ ∀ field ∈ fields, ∀ w, d.node.At field w → heldValue w = none) := by
  refine ⟨fun fields h => h.failsClosed, fun h beads host owner w hat hheld hother hpass => ?_,
    fun fields r hbreaks hspelt hread => ⟨fun h field hfield w hat => ?_, fun h r' hread' => ⟨?_, ?_⟩⟩⟩
  · obtain ⟨r, hr, howner⟩ := policyOk_owner hpass
    exact hother (howner owner ((h.failsClosed r hr).1 ownerHostPath (by decide) w _ hat hheld))
  · cases hheld : heldValue w with
    | none => rfl
    | some x =>
      have hnone := unspelt_result hbreaks hspelt hread field
      rw [(h r hread).1 field hfield w x hat hheld] at hnone
      cases hnone
  · intro field hfield w x hat hheld
    rw [h field hfield w hat] at hheld
    cases hheld
  · exact fun path hsome => absurd (unspelt_result hbreaks hspelt hread' path) hsome

theorem policy_faithful_owned : (∃ r, policyFields policyPaths ownedPolicy.text = .ok r ∧
      r ownerHostPath = some (.str "lab")) ∧
    policyOk true (some (.ok ownedPolicy.text)) "codinghome" ≠ .ok true ∧
    (FailsClosed policyPaths flowPolicy ↔
      ∀ field ∈ policyPaths, ∀ w, flowPolicy.node.At field w → heldValue w = none) := by
  have hat : ownedPolicy.node.At ownerHostPath (plainText "lab") :=
    .step List.mem_cons_self rfl (.step List.mem_cons_self rfl (.here _))
  refine ⟨?_, ?_, ?_⟩
  · cases hread : policyFields policyPaths ownedPolicy.text with
    | error e =>
      have hsome : (policyFields policyPaths ownedPolicy.text).toOption.isSome = true := by decide +kernel
      rw [hread] at hsome
      cases hsome
    | ok r => exact ⟨r, rfl, ((policy_faithful ownedPolicy).1 _ ownedPolicy_style r hread).1 _ (by decide) _ _ hat rfl⟩
  · exact (policy_faithful ownedPolicy).2.1 ownedPolicy_style true "codinghome" "lab" _ hat rfl (by decide)
  · have hspelt : spelled [] flowPolicy.lines = [] := by decide
    refine (policy_faithful flowPolicy).2.2 policyPaths _ (forall_chars (by decide)) (fun field _ hno => ?_) rfl
    obtain ⟨n, hn⟩ := hno
    rw [hspelt] at hn
    exact absurd hn List.not_mem_nil

/-- **A one-line flow mapping is passed over.** -/
theorem flow_policy_passes : ¬ FailsClosed policyPaths flowPolicy ∧
    (∃ w, flowPolicy.node.At ownerHostPath w ∧ heldValue w = some (.str "lab")) ∧
    policyOk true (some (.ok flowPolicy.text)) "codinghome" = .ok true := by
  have hat : flowPolicy.node.At ownerHostPath (plainText "lab") :=
    .step List.mem_cons_self rfl (.step List.mem_cons_self rfl (.here _))
  have hread : ∃ r, policyFields policyPaths flowPolicy.text = .ok r ∧ r ownerHostPath = none := ⟨_, rfl, rfl⟩
  refine ⟨fun h => ?_, ⟨_, hat, rfl⟩, rfl⟩
  obtain ⟨r, hr, hnone⟩ := hread
  rw [(h r hr).1 ownerHostPath (by decide) _ _ hat rfl] at hnone
  cases hnone

end ReadyBeads

end Subgov
