import Subgov.PolicyFlow
/-!
# PolicyMeaning — what is read of a document is what it holds

The reader against the tree of the document's layout.  Below a key of a selected path, each part of the tree is read as
it is meant or refused (`slot_meaning`), but for lines that spell a selected path without standing for it; at the root
the reader passes over more.  `PolicyStyle` tells the documents apart of which what is read is what they hold.
-/
namespace Subgov

open Python

namespace ReadyBeads

/-! ## Documents that are read as they are meant -/

/-- An item that is read as it is meant.  Where the items stand at the indentation of a key of the root, a dash with
nothing behind it closes the key. -/
structure ItemLegible (own : Prop) (head : List Char) (slot : Yaml.Slot) : Prop where
  inline : own → head.head? = some ' '
  scalar : ∀ space text s trail gap, slot = .flow (.here space) text (.scalar s) trail gap →
    ScalarLegible text trail s ∧ (s.plain = true → Yaml.resolvePlain s.content ≠ .null)
  /-- Not all the other lines of a plain item look like items. -/
  continued : ∀ space text s trail gap, slot = .flow (.here space) text (.scalar s) trail gap → s.plain = true →
    '\n' ∈ text → ∃ line ∈ Yaml.otherLines (text ++ trail), isQuiet line = false ∧ isDash line = false

/-- A part of a document that is read as it is meant, where it is read at all; the root's entries stand at `rootIndent`,
and the text spells the paths of `spelt`. -/
structure SlotLegible (fields : List Path) (spelt : Path → Prop) (rootIndent : Nat) (path : Path) (slot : Yaml.Slot) :
    Prop where
  scalar : path ∈ fields → ∀ space text s trail gap, slot = .flow (.here space) text (.scalar s) trail gap →
    heldValue (.scalar s) ≠ none → ScalarLegible text trail s
  list : path ∈ fields → ∀ space text items trail gap, slot = .flow (.here space) text (.seq items) trail gap →
    heldValue (.seq items) ≠ none → ListLegible text trail items
  items : path ∈ fields → ∀ trail gap indent items, slot = .sequence trail gap indent items →
    heldValue (.seq items.nodes) ≠ none →
    ∀ item ∈ items.slots, ItemLegible (path.length = 1 ∧ indent = rootIndent) (item.head (indent + 1)) item
  /-- Below a list, no `name:` line spells a selected path. -/
  below : ((∃ trail gap indent items, slot = .sequence trail gap indent items) ∨
      ∃ space text items trail gap, slot = .flow (.here space) text (.seq items) trail gap ∧ '\n' ∈ text) →
    ∀ field ∈ fields, path <+: field → field ≠ path → ¬ spelt field

/-! ## One key -/

variable {fields : List Path} {s s' : PolicyReader}

/-- The values below a key are what a node holds. -/
structure Meant (fields : List Path) (key : Path) (node : Yaml.Node) (s : PolicyReader) : Prop where
  holds : ∀ path w x, key ++ path ∈ fields → node.At path w → heldValue w = some x → s.result (key ++ path) = some x
  defined : ∀ path, s.result (key ++ path) ≠ none → ∃ w, node.At path w

/-- A relevant key was just opened, with a value on its line. -/
structure Opened (fields : List Path) (n : Nat) (key : Path) (base : List (Nat × Path)) (value : List Char)
    (s : PolicyReader) : Prop where
  orderly : Orderly fields s
  relevant : isAncestor fields key = true
  stack : s.stack = (n, key) :: base
  fresh : ∀ path, path ≠ [] → key ++ path ∉ s.seen
  inline : HasText value → key ∈ fields ∧ ∃ v, scalar value = .ok v ∧ s.result key = some v
  below : ¬ HasText value → key ∈ fields → s.result key = some (.list [])

theorem Opened.deep {n : Nat} {key : Path} {base : List (Nat × Path)} {value : List Char}
    (h : Opened fields n key base value s) : ∀ e ∈ base, e.1 < n := by
  have hchained := h.orderly.chained
  rw [h.stack] at hchained
  exact hchained.1

theorem Opened.result_fresh {n : Nat} {key : Path} {base : List (Nat × Path)} {value : List Char}
    (h : Opened fields n key base value s) {path : Path} (hpath : path ≠ []) : s.result (key ++ path) = none := by
  by_contra hsome
  exact h.fresh path hpath (h.orderly.recorded _ hsome)

/-- A node without entries, below which nothing was read. -/
theorem meant_leaf {key : Path} {node : Yaml.Node} (hleaf : ∀ entries, node ≠ .map entries)
    (hvalue : ∀ x, key ∈ fields → heldValue node = some x → s.result key = some x)
    (hfresh : ∀ path, path ≠ [] → s.result (key ++ path) = none) : Meant fields key node s := by
  refine ⟨fun path w x hfield hat hheld => ?_, fun path hsome => ?_⟩
  · cases hat with
    | here =>
      rw [List.append_nil] at hfield ⊢
      exact hvalue x hfield hheld
    | step => exact absurd rfl (hleaf _)
  · by_cases hpath : path = []
    · exact ⟨node, hpath ▸ .here node⟩
    · exact absurd (hfresh path hpath) hsome

/-- Lines that all are passed over, but for items under a value that is no list. -/
theorem Reads.wordless {lines : List (List Char)} {n : Nat} {key : Path} {base : List (Nat × Path)}
    (h : Reads fields lines s s') (hstack : s.stack = (n, key) :: base) (hkey : isAncestor fields key = true)
    (hfield : key ∈ fields) (hvalue : ∀ items, s.result key ≠ some (.list items))
    (hlines : ∀ raw ∈ lines, Nameless n raw ∧ (Yaml.isGap raw = true ∨ n ≤ lineIndent raw)) :
    ∀ raw ∈ lines, Yaml.isGap raw = true := by
  induction lines generalizing s with
  | nil => exact fun _ hmem => absurd hmem List.not_mem_nil
  | cons raw lines ih =>
    obtain ⟨s₁, hline, hrest⟩ := reads_cons.1 h
    obtain ⟨hnameless, hdeep⟩ := hlines raw List.mem_cons_self
    have hsingle : Reads fields [raw] s s₁ := reads_cons.2 ⟨s₁, hline, reads_nil.2 rfl⟩
    have hpass := (hsingle.nameless hstack hkey fun line hmem => by
      rw [List.mem_singleton.1 hmem]
      exact hnameless).1 raw (List.mem_singleton.2 rfl)
    have hgap : Yaml.isGap raw = true := by
      rcases hpass with hquiet | hdash
      · exact isGap_of_isQuiet hquiet
      · refine hdeep.elim id fun hle => ?_
        exfalso
        rcases readLine_cases hline with ⟨hquiet, -⟩ | ⟨-, -, hitem⟩ | ⟨-, hno, -⟩
        · obtain ⟨rest, hbody⟩ := isDash_body hdash
          rcases isGap_body hbody (isGap_of_isQuiet hquiet) with hc | hc <;> cases hc
        · unfold readItem at hitem
          rw [hstack] at hitem
          dsimp only at hitem
          rw [if_pos ⟨hfield, hle⟩] at hitem
          split at hitem
          · rename_i items hitems
            exact hvalue items hitems
          · cases hitem
        · rw [hdash] at hno
          cases hno
    have hsame := (readLine_gap hline hgap).2
    subst hsame
    intro line hmem
    rcases List.mem_cons.1 hmem with rfl | hmem
    · exact hgap
    · exact ih hrest hstack hvalue (fun other hother => hlines other (List.mem_cons_of_mem raw hother)) line hmem

/-! ## Flow nodes -/

theorem otherLines_single {text trail : List Char} (htext : '\n' ∉ text) (htrail : Yaml.isTrail trail = true) :
    Yaml.otherLines (text ++ trail) = [] := by
  rcases Yaml.firstLine_cases (text ++ trail) with ⟨-, -, hnone⟩ | ⟨rest, hsplit, -⟩
  · exact hnone
  · exact absurd (by rw [hsplit]; simp) (single_append htext htrail)

/-- The lines of a plain scalar have no names. -/
theorem plain_nameless {text trail : List Char} {n least : Nat} (hplain : Yaml.PlainText false text)
    (htrail : Yaml.isTrail trail = true) (hleast : n < least)
    (hlines : ∀ line ∈ Yaml.otherLines (text ++ trail), Yaml.isGap line = true ∨ least ≤ Yaml.indentOf line)
    (hascii : ∀ line ∈ Yaml.otherLines (text ++ trail), asciiColon line = true) :
    ∀ line ∈ Yaml.otherLines (text ++ trail),
      Nameless n line ∧ (Yaml.isGap line = true ∨ n ≤ lineIndent line) := by
  intro line hmem
  obtain ⟨pre, post, hline, -⟩ := Yaml.otherLines_isLine hmem
  have hname := lineName_bound (hascii line hmem) (hplain.colonsBound htrail hline)
  rcases hlines line hmem with hgap | hdeep
  · exact ⟨Or.inl hgap, Or.inl hgap⟩
  · rw [← lineIndent_eq] at hdeep
    exact ⟨Or.inr (Or.inr ⟨by omega, hname⟩), Or.inr (by omega)⟩

theorem hasText_cons {c : Char} {rest : List Char} (hc : c ≠ '#') : HasText (c :: rest) :=
  ⟨List.cons_ne_nil _ _, by simpa using hc⟩

section Inline

variable {n column : Nat} {key : Path} {base : List (Nat × Path)} {space text trail : List Char} {gap : List Yaml.Line}

/-- Where a node is written on one line, nothing more is read of it. -/
theorem inline_meant {value : List Char} {node : Yaml.Node} (h : Opened fields n key base value s)
    (hleaf : ∀ entries, node ≠ .map entries) (htrail : Yaml.isTrail trail = true)
    (hgap : ∀ line ∈ gap, Yaml.isGap line = true) (hreads : Reads fields (Yaml.otherLines (text ++ trail) ++ gap) s s')
    (hsingle : '\n' ∉ text) (hvalue : ∀ x, key ∈ fields → heldValue node = some x → s.result key = some x) :
    Meant fields key node s' := by
  rw [otherLines_single hsingle htrail, List.nil_append] at hreads
  rw [hreads.gap hgap]
  exact meant_leaf hleaf hvalue fun path hpath => h.result_fresh hpath

/-- **A plain scalar on the line of a key is read as it is meant.** -/
theorem plain_meant {word : Yaml.Scalar} (hwhite : Yaml.blank space = true)
    (h : Opened fields n key base (strip (valueLine space text trail)) s) (hplain : Yaml.PlainText false text)
    (hscalar : word = { plain := true, content := Yaml.foldBreaks text }) (htrail : Yaml.isTrail trail = true)
    (hlines : ∀ line ∈ Yaml.otherLines (text ++ trail), Yaml.isGap line = true ∨ n + 1 ≤ Yaml.indentOf line)
    (hascii : ∀ line ∈ Yaml.otherLines (text ++ trail), asciiColon line = true)
    (hgap : ∀ line ∈ gap, Yaml.isGap line = true) (hreads : Reads fields (Yaml.otherLines (text ++ trail) ++ gap) s s')
    (hlegible : key ∈ fields → heldValue (.scalar word) ≠ none → PlainLegible text) :
    Meant fields key (.scalar word) s' := by
  obtain ⟨s₁, hothers, hgaps⟩ := reads_append.1 hreads
  have hnameless := plain_nameless hplain htrail (Nat.lt_succ_self n) hlines hascii
  obtain ⟨hpass, -, hseen, hresult⟩ := hothers.nameless h.stack h.relevant fun line hmem => (hnameless line hmem).1
  rw [hgaps.gap hgap]
  refine meant_leaf (fun _ hno => by cases hno) (fun x hfield hheld => ?_) fun path hpath => ?_
  · -- the value is a word on one line
    have hlegible := hlegible hfield (by rw [hheld]; exact Option.some_ne_none x)
    obtain ⟨c, rest, -, -, hhash, hstrip, hplainRead⟩ := plain_line hwhite hplain hlegible trail
    obtain ⟨-, v, hread, hv⟩ := h.inline (by rw [hstrip]; exact hasText_cons hhash)
    rw [scalar_strip] at hread
    have hallGap := hothers.wordless h.stack h.relevant hfield (fun items hitems => by
      rw [hv] at hitems
      exact plainScalar_not_list (hplainRead ▸ hread) items (Option.some.inj hitems)) hnameless
    have hsame := hothers.gap hallGap
    by_cases hsingle : '\n' ∈ text
    · obtain ⟨line, hline, hno⟩ := hplain.exists_not_gap htrail hsingle
      rw [hallGap line hline] at hno
      cases hno
    · have hcontent : word.resolve = Yaml.resolvePlain text := by
        rw [hscalar, foldBreaks_single hsingle]
        rfl
      obtain ⟨hnull, hx⟩ := heldValue_scalar.1 hheld
      rw [hcontent] at hnull hx
      rw [hsame, hv, scalar_plain_legible hwhite hplain htrail hlegible hsingle hnull hread, hx]
  · by_contra hsome
    have hmem := (hothers.orderly h.orderly).recorded _ hsome
    rw [hseen] at hmem
    exact h.fresh path hpath hmem

end Inline

/-! ## Nodes on lines of their own -/

theorem lineBody_lead {space : List Char} {c : Char} (hwhite : Yaml.blank space = true) (hc : c ≠ ' ')
    (rest : List Char) :
    lineBody (space ++ c :: rest) = c :: rest ∨ ∃ rest', lineBody (space ++ c :: rest) = '\t' :: rest' := by
  unfold lineBody
  rw [List.dropWhile_append]
  split
  · exact Or.inl (List.dropWhile_cons_of_neg (by simpa using hc))
  · rename_i hne
    right
    cases hspace : space.dropWhile (· == ' ') with
    | nil =>
      rw [hspace] at hne
      exact absurd rfl hne
    | cons d rest' =>
      have hhead := List.head?_dropWhile_not (· == ' ') space
      rw [hspace] at hhead
      have hd : d ≠ ' ' := by simpa using hhead
      have hmem : d ∈ space := (List.dropWhile_suffix (· == ' ')).subset (hspace ▸ List.mem_cons_self)
      have hdwhite := List.all_eq_true.1 hwhite d hmem
      unfold Yaml.isWhite at hdwhite
      rw [Bool.or_eq_true, beq_iff_eq, beq_iff_eq] at hdwhite
      rw [hdwhite.resolve_left hd]
      exact ⟨rest' ++ c :: rest, rfl⟩

theorem lineName_lead {space rest : List Char} {c : Char} (hwhite : Yaml.blank space = true) (hc : c ≠ ' ')
    (hstart : isKeyStart c = false) : lineName (space ++ c :: rest) = none := by
  rcases lineBody_lead hwhite hc rest with hbody | ⟨rest', hbody⟩
  · exact lineName_unnamed hbody hstart
  · exact lineName_unnamed hbody rfl

theorem colonsBound_lead {space line : List Char} (hwhite : Yaml.blank space = true) (h : Yaml.ColonsBound line) :
    Yaml.ColonsBound (space ++ line) := by
  intro a b hsplit hhash
  rcases List.append_eq_append_iff.1 hsplit with ⟨a', ha, hline⟩ | ⟨more, hspace, hline⟩
  · exact h a' b hline fun hmem => hhash (ha ▸ List.mem_append_right _ hmem)
  · cases more with
    | nil =>
      rw [List.nil_append] at hline
      exact h [] b hline.symm (by simp)
    | cons d more =>
      rw [List.cons_append, List.cons.injEq] at hline
      have hcolon := List.all_eq_true.1 hwhite ':' (by rw [hspace, ← hline.1]; simp)
      cases hcolon

/-- **Below a selected path, a node on a line of its own is refused.** -/
theorem below_refused {n : Nat} {key : Path} {base : List (Nat × Path)} {gap others : List Yaml.Line}
    {space text : List Char} (hstack : s.stack = (n, key) :: base) (hkey : isAncestor fields key = true)
    (hgap : ∀ line ∈ gap, Yaml.isGap line = true) (hwhite : Yaml.blank space = true)
    (hdeep : n + 1 ≤ Yaml.indentOf space) (htext : Yaml.Starts text) (hname : lineName (space ++ text) = none)
    (hreads : Reads fields (gap ++ (space ++ text) :: others) s s') : False := by
  obtain ⟨s₁, hfirst, -⟩ := reads_append.1 (show Reads fields ((gap ++ [space ++ text]) ++ others) s s' by
    rwa [List.append_assoc, List.singleton_append])
  have hpass := (hfirst.nameless hstack hkey fun line hmem => by
    rcases List.mem_append.1 hmem with hmem | hmem
    · exact Or.inl (hgap line hmem)
    · rw [List.mem_singleton.1 hmem]
      refine Or.inr (Or.inr ⟨?_, hname⟩)
      rw [lineIndent_eq]
      exact hdeep.trans (Yaml.indentOf_le_append space text)).1 (space ++ text) (by simp)
  obtain ⟨c, rest, rfl, hspace, hhash, hdash⟩ := htext.exists_first
  have hc : c ≠ ' ' := by
    rintro rfl
    cases hspace
  rcases lineBody_lead hwhite hc rest with hbody | ⟨rest', hbody⟩
  · rcases hpass with hquiet | hyes
    · rcases isGap_body hbody (isGap_of_isQuiet hquiet) with rfl | rfl
      · cases hspace
      · exact hhash rfl
    · obtain ⟨tail, htail⟩ := isDash_body hyes
      rw [hbody, List.cons.injEq] at htail
      obtain ⟨d, rest', hrest, hd⟩ := hdash htail.1
      rw [htail.2, List.cons.injEq] at hrest
      rw [← hrest.1] at hd
      cases hd
  · rcases hpass with hquiet | hyes
    · unfold isQuiet at hquiet
      rw [hbody] at hquiet
      cases hquiet
    · obtain ⟨tail, htail⟩ := isDash_body hyes
      rw [hbody] at htail
      cases htail

/-! ## Slots -/

section Slots

variable {spelt : Path → Prop} {rootIndent n column leastItem : Nat} {compact : Bool} {key : Path}
  {base : List (Nat × Path)} {lead : Yaml.Lead} {text trail : List Char} {node : Yaml.Node} {gap : List Yaml.Line}

/-- What is marked below a list is in the text. -/
theorem below_list {slot : Yaml.Slot} (hs : Orderly fields s)
    (hlegible : SlotLegible fields spelt rootIndent key slot) (hspelt : ∀ q ∈ s.seen, spelt q)
    (hlist : (∃ trail gap indent items, slot = .sequence trail gap indent items) ∨
      ∃ space text items trail gap, slot = .flow (.here space) text (.seq items) trail gap ∧ '\n' ∈ text) :
    ∀ path, path ≠ [] → s.result (key ++ path) = none := by
  intro path hpath
  by_contra hsome
  exact hlegible.below hlist (key ++ path) (hs.selected _ hsome) (List.prefix_append _ _) (by simpa using hpath)
    (hspelt _ (hs.recorded _ hsome))

theorem starts_firstLine {text : List Char} (h : Yaml.Starts text) (trail : List Char) :
    Yaml.Starts (Yaml.firstLine (text ++ trail)) := by
  obtain ⟨c, rest, rfl, hspace, hhash, hdash⟩ := h.exists_first
  have hbreak : ∀ {d : Char}, Yaml.isNonSpace d = true → d ≠ '\n' := by
    rintro d hd rfl
    cases hd
  refine ⟨c, Yaml.firstLine (rest ++ trail), ?_, hspace, hhash, fun hc => ?_⟩
  · rw [List.cons_append, firstLine_cons (hbreak hspace)]
  · obtain ⟨d, rest', rfl, hd⟩ := hdash hc
    exact ⟨d, Yaml.firstLine (rest' ++ trail), by rw [List.cons_append, firstLine_cons (hbreak hd)], hd⟩

/-- The first line of a flow node has no name. -/
theorem lineName_flow {space : List Char} (hwhite : Yaml.blank space = true) (hflow : Yaml.Flow (.node false) text node)
    (htrail : Yaml.isTrail trail = true) (hascii : asciiColon (space ++ Yaml.firstLine (text ++ trail)) = true) :
    lineName (space ++ Yaml.firstLine (text ++ trail)) = none := by
  have hmark : ∀ {c : Char} {rest : List Char}, c ≠ ' ' → c ≠ '\n' → isKeyStart c = false → text = c :: rest →
      lineName (space ++ Yaml.firstLine (text ++ trail)) = none := by
    rintro c rest hc hbreak hstart rfl
    rw [List.cons_append, firstLine_cons hbreak]
    exact lineName_lead hwhite hc hstart
  rcases hflow.node_cases with ⟨hplain, -⟩ | ⟨body, content, htext, -⟩ | ⟨body, content, htext, -⟩ |
    ⟨rest, items, htext, -⟩ | ⟨rest, entries, htext, -⟩
  · obtain ⟨post, hline⟩ := Yaml.firstLine_isLine (text ++ trail)
    exact lineName_bound hascii (colonsBound_lead hwhite (hplain.colonsBound htrail hline))
  all_goals exact hmark (by decide) (by decide) (by decide) htext

/-- **A flow node is read as it is meant.** -/
theorem flow_meant (hfits : (Yaml.Slot.flow lead text node trail gap).Fits (n + 1) leastItem compact)
    (h : Opened fields n key base (strip ((Yaml.Slot.flow lead text node trail gap).head column)) s)
    (hreads : Reads fields (Yaml.Slot.flow lead text node trail gap).tail s s')
    (hascii : ∀ line ∈ (Yaml.Slot.flow lead text node trail gap).tail, asciiColon line = true)
    (hlegible : SlotLegible fields spelt rootIndent key (.flow lead text node trail gap))
    (hspelt : ∀ q ∈ s'.seen, spelt q) : Meant fields key node s' := by
  obtain ⟨hlead, hflow, htrail, hlines, hgap⟩ := hfits
  cases lead with
  | below trail' gap' space =>
    exfalso
    obtain ⟨-, hgap', hwhite, hdeep⟩ := hlead
    obtain ⟨s₁, hfirst, -⟩ := reads_append.1 hreads
    refine below_refused h.stack h.relevant hgap' hwhite hdeep (starts_firstLine hflow.starts trail)
      (lineName_flow hwhite hflow htrail (hascii _ ?_)) hfirst
    exact List.mem_append_left _ (List.mem_append_right _ List.mem_cons_self)
  | here space =>
    obtain ⟨-, hwhite⟩ := hlead
    have hopened : Opened fields n key base (strip (valueLine space text trail)) s := h
    -- what is neither plain nor refused has a value on its line
    have hread : ∀ {c : Char} {rest : List Char}, text = c :: rest → isSpace c = false → c ≠ '#' →
        key ∈ fields ∧ ∃ v, scalar (valueLine space text trail) = .ok v ∧ s.result key = some v := by
      intro c rest htext hc hhash
      obtain ⟨hfield, v, hv, hresult⟩ := hopened.inline (by
        rw [strip_valueLine hwhite htext hc]
        exact hasText_cons hhash)
      rw [scalar_strip] at hv
      exact ⟨hfield, v, hv, hresult⟩
    cases hflow with
    | plain hplain =>
      exact plain_meant hwhite hopened (Yaml.plainText_iff.1 hplain) rfl htrail hlines
        (fun line hmem => hascii line (List.mem_append_left _ hmem)) hgap hreads fun hfield hheld =>
          (hlegible.scalar hfield space text _ trail gap rfl hheld).plain rfl
    | @double _ body content hbody =>
      obtain ⟨hfield, v, hv, hresult⟩ := hread rfl (by decide) (by decide)
      obtain ⟨hsingle, rfl⟩ := scalar_double hwhite hbody hv
      refine inline_meant hopened (fun _ hno => by cases hno) htrail hgap hreads hsingle fun x _ hheld => ?_
      rw [hresult, (heldValue_scalar.1 hheld).2]
      rfl
    | @single _ body content hbody =>
      obtain ⟨hfield, v, hv, hresult⟩ := hread rfl (by decide) (by decide)
      have hheld : heldValue (.scalar { plain := false, content := Yaml.foldBreaks content }) =
          some (ofChars (Yaml.foldBreaks content)) := rfl
      have hquoted :=
        (hlegible.scalar hfield space _ _ trail gap rfl (by rw [hheld]; exact Option.some_ne_none _)).single rfl
      obtain ⟨hsingle, rfl⟩ := scalar_single_legible hwhite hbody hquoted hv
      refine inline_meant hopened (fun _ hno => by cases hno) htrail hgap hreads hsingle fun x _ hheld' => ?_
      rw [hresult, ← hheld, hheld']
    | @seq _ items comma close hclose hsep hitems =>
      obtain ⟨hfield, v, hv, hresult⟩ := hread rfl (by decide) (by decide)
      by_cases hheld : heldValue (.seq (items.map (·.node))) = none
      · by_cases hbreak : '\n' ∈ '[' :: Yaml.itemsText items comma close ++ [']']
        · refine meant_leaf (fun _ hno => by cases hno) (fun x _ hx => ?_)
            (below_list (Reads.orderly hreads h.orderly) hlegible hspelt
              (Or.inr ⟨space, _, _, trail, gap, rfl, hbreak⟩))
          rw [hheld] at hx
          cases hx
        · refine inline_meant hopened (fun _ hno => by cases hno) htrail hgap hreads hbreak fun x _ hx => ?_
          rw [hheld] at hx
          cases hx
      · obtain ⟨w, hw⟩ := Option.ne_none_iff_exists'.1 hheld
        obtain ⟨hsingle, rfl⟩ := scalar_list_legible hwhite hclose hsep hitems
          (hlegible.list hfield space _ _ trail gap rfl hheld) hw hv
        refine inline_meant hopened (fun _ hno => by cases hno) htrail hgap hreads hsingle fun x _ hx => ?_
        rw [hresult, ← hw, hx]
    | @map _ items comma close hclose hsep hitems =>
      exfalso
      have htext : '\x7b' :: Yaml.itemsText items comma close ++ ['\x7d'] =
          '\x7b' :: (Yaml.itemsText items comma close ++ ['\x7d']) := rfl
      obtain ⟨-, v, hv, -⟩ := hread htext (by decide) (by decide)
      rw [scalar_plain (strip_valueLine hwhite htext (by decide) trail) (by decide)] at hv
      rcases plainScalar_head (by decide) hv with hc | hc <;> cases hc

/-- A trail is no value. -/
theorem strip_trail (htrail : Yaml.isTrail trail = true) : ¬ HasText (strip trail) := by
  rintro ⟨hne, hhash⟩
  rcases Yaml.isTrail_cases htrail with hblank | ⟨-, white, rest, rfl, -, hblank⟩
  · refine hne ?_
    have := strip_append (isSpace_of_blank hblank) []
    rw [List.nil_append] at this
    rw [this]
    rfl
  · rw [strip_lead hblank (by decide)] at hhash
    exact hhash rfl

/-- The header of a literal is no scalar to the reader. -/
theorem scalar_header {space rest : List Char} {v : Value} (hwhite : Yaml.blank space = true) :
    scalar (space ++ '|' :: rest) ≠ .ok v := by
  intro hv
  rw [scalar_plain (strip_lead hwhite (by decide) rest) (by decide)] at hv
  rcases plainScalar_head (by decide) hv with hc | hc <;> cases hc

/-- **A literal is refused.** -/
theorem literal_refused {header : Yaml.LiteralHeader} {width : Nat} {lines : List Yaml.Line}
    (hfits : (Yaml.Slot.literal lead header trail width lines gap).Fits (n + 1) leastItem compact)
    (h : Opened fields n key base (strip ((Yaml.Slot.literal lead header trail width lines gap).head column)) s)
    (hreads : Reads fields (Yaml.Slot.literal lead header trail width lines gap).tail s s') : False := by
  obtain ⟨hlead, -, -, -, -⟩ := hfits
  obtain ⟨rest, htext⟩ : ∃ rest, header.text ++ trail = '|' :: rest := ⟨_, rfl⟩
  cases lead with
  | here space =>
    have hhead : (Yaml.Slot.literal (.here space) header trail width lines gap).head column = space ++ '|' :: rest := by
      rw [← htext]
      rfl
    rw [hhead] at h
    obtain ⟨-, v, hv, -⟩ := h.inline (by
      rw [strip_lead hlead.2 (by decide)]
      exact hasText_cons (by decide))
    rw [scalar_strip] at hv
    exact scalar_header hlead.2 hv
  | below trail' gap' space =>
    obtain ⟨-, hgap', hwhite, hdeep⟩ := hlead
    obtain ⟨s₁, hfirst, -⟩ := reads_append.1 hreads
    have hlines : Reads fields (gap' ++ (space ++ '|' :: rest) :: lines) s s₁ := by
      rw [← htext]
      exact hfirst
    exact below_refused h.stack h.relevant hgap' hwhite hdeep
      ⟨'|', rest, rfl, by decide, by decide, fun hno => absurd hno (by decide)⟩
      (lineName_lead hwhite (by decide) (by decide)) hlines

theorem empty_meant (hfits : (Yaml.Slot.empty trail gap).Fits (n + 1) leastItem compact) {value : List Char}
    (h : Opened fields n key base value s) (hreads : Reads fields (Yaml.Slot.empty trail gap).tail s s') :
    Meant fields key (Yaml.Slot.empty trail gap).node s' := by
  rw [hreads.gap hfits.2]
  refine meant_leaf (fun _ hno => by cases hno) (fun x _ hheld => ?_) fun path hpath => h.result_fresh hpath
  cases hheld

/-! ## Lists in block style -/

/-- A line with a dash that is read under an open list. -/
theorem dash_line {head : List Char} {indent : Nat} (hstack : s.stack = (n, key) :: base)
    (hkey : isAncestor fields key = true) (hbase : base ≠ [] → isAncestor fields (topOf base) = true)
    (hdeep : ∀ e ∈ base, e.1 < n) (hindent : n ≤ indent) (hown : base = [] → indent = n → head.head? = some ' ')
    (hread : readLine fields s (Yaml.spaces indent ++ '-' :: head) = .ok s') :
    ∃ item, head = ' ' :: item ∧ readItem fields s indent item = .ok s' := by
  have hstarts := startsWith_spaces indent (c := '-') (by decide) head
  by_cases hspace : head.head? = some ' '
  · have hhead := List.eq_cons_of_mem_head? hspace
    have hdash : isDash (Yaml.spaces indent ++ '-' :: head) = true := by
      unfold isDash
      rw [hstarts.body, hhead]
      rfl
    refine ⟨head.tail, hhead, ?_⟩
    rcases readLine_cases hread with ⟨hquiet, -⟩ | ⟨-, -, hitem⟩ | ⟨-, hno, -⟩
    · rw [hstarts.loud (by decide)] at hquiet
      cases hquiet
    · rw [hstarts.indent, hstarts.body, hhead] at hitem
      exact hitem
    · rw [hdash] at hno
      cases hno
  · exfalso
    have hentry : IsEntry (Yaml.spaces indent ++ '-' :: head) indent :=
      ⟨hstarts.indent, hstarts.loud (by decide), hstarts.no_dash (Or.inr hspace)⟩
    obtain ⟨-, hno⟩ := readLine_nameless hread hentry (lineName_unnamed hstarts.body rfl)
    by_cases hsame : indent = n
    · -- the dash closes the key
      have htop : (s.popTo indent).top = topOf base := by
        have hbased : Based n base s := ⟨[(n, key)], hstack, fun e he => by rw [List.mem_singleton.1 he]⟩
        rw [PolicyReader.top_eq, hsame, hbased.popTo_self hdeep]
      rw [htop] at hno
      by_cases hnil : base = []
      · exact hspace (hown hnil hsame)
      · rw [hbase hnil] at hno
        cases hno
    · have htop : (s.popTo indent).top = key := by
        show topOf (s.stack.dropWhile _) = key
        rw [hstack, List.dropWhile_cons_of_neg (by simp; omega)]
        rfl
      rw [htop, hkey] at hno
      cases hno

/-- An item of an open list. -/
theorem readItem_list {item : List Char} {indent : Nat} {values : List Value} (hstack : s.stack = (n, key) :: base)
    (hfield : key ∈ fields) (hindent : n ≤ indent) (hvalues : s.result key = some (.list values))
    (hread : readItem fields s indent item = .ok s') :
    ∃ v, scalar item = .ok v ∧ s' = s.set key (.list (values ++ [v])) := by
  unfold readItem at hread
  rw [hstack] at hread
  dsimp only at hread
  rw [if_pos ⟨hfield, hindent⟩, hvalues] at hread
  obtain ⟨v, hv, rfl⟩ := ok_of_map hread
  exact ⟨v, hv, rfl⟩

theorem scalar_empty {text : List Char} {v : Value} (h : strip text = [] ∨ (strip text).head? = some '#') :
    scalar text ≠ .ok v := by
  intro hv
  unfold scalar at hv
  dsimp only at hv
  rcases h with h | h
  · rw [h, if_neg (by simp), if_neg (by simp), plainScalar_empty rfl] at hv
    cases hv
  · rw [if_neg (by simp [h]), if_neg (by simp [h]), plainScalar_empty] at hv
    · cases hv
    · rw [List.eq_cons_of_mem_head? h]
      rfl

/-- A trail behind a dash is no item. -/
theorem scalar_trail {item : List Char} {v : Value} (htrail : Yaml.isTrail (' ' :: item) = true) :
    scalar item ≠ .ok v := by
  refine scalar_empty ?_
  have hno := strip_trail htrail
  have hsame : strip (' ' :: item) = strip item := by
    rw [strip, lstrip, List.dropWhile_cons_of_pos (by rfl)]
    rfl
  rw [hsame] at hno
  unfold HasText at hno
  by_cases hnil : strip item = []
  · exact Or.inl hnil
  · exact Or.inr (not_not.1 fun hhash => hno ⟨hnil, hhash⟩)

/-- What an item on the line of its dash is, behind the space that the reader takes. -/
theorem item_behind {space rest item : List Char} (hne : space ≠ []) (hwhite : Yaml.blank space = true)
    (h : space ++ rest = ' ' :: item) : ∃ white, Yaml.blank white = true ∧ item = white ++ rest := by
  cases space with
  | nil => exact absurd rfl hne
  | cons c white =>
    rw [List.cons_append, List.cons.injEq] at h
    unfold Yaml.blank at hwhite
    rw [List.all_cons, Bool.and_eq_true] at hwhite
    exact ⟨white, hwhite.2, h.2.symm⟩

/-- A scalar that is no null is read as it is meant, and plain ones on one line. -/
theorem scalar_word_legible {space text trail : List Char} {word : Yaml.Scalar} {v : Value}
    (hwhite : Yaml.blank space = true) (hflow : Yaml.Flow (.node false) text (.scalar word))
    (htrail : Yaml.isTrail trail = true) (hword : ScalarLegible text trail word)
    (hnull : word.plain = true → Yaml.resolvePlain word.content ≠ .null) (hbreak : word.plain = true → '\n' ∉ text)
    (hv : scalar (valueLine space text trail) = .ok v) : '\n' ∉ text ∧ v = resolvedValue word.resolve := by
  cases hflow with
  | plain hplain =>
    have hcontent := foldBreaks_single (hbreak rfl)
    have hnull' := hnull rfl
    dsimp only at hnull'
    rw [hcontent] at hnull'
    refine ⟨hbreak rfl, ?_⟩
    rw [scalar_plain_legible hwhite (Yaml.plainText_iff.1 hplain) htrail (hword.plain rfl) (hbreak rfl) hnull' hv,
      Yaml.Scalar.resolve, if_pos rfl, hcontent]
  | @double _ body content hbody =>
    obtain ⟨hsingle, rfl⟩ := scalar_double hwhite hbody hv
    exact ⟨hsingle, rfl⟩
  | @single _ body content hbody =>
    obtain ⟨hsingle, rfl⟩ := scalar_single_legible hwhite hbody (hword.single rfl) hv
    exact ⟨hsingle, rfl⟩

/-- **An item of a list of scalars is read as it is meant.** -/
theorem item_meant {slot : Yaml.Slot} {indent : Nat} {values : List Value} {x : Value}
    (hfits : slot.Fits (indent + 1) (indent + 1) true) (hstack : s.stack = (n, key) :: base)
    (hkey : isAncestor fields key = true) (hbase : base ≠ [] → isAncestor fields (topOf base) = true)
    (hdeep : ∀ e ∈ base, e.1 < n) (hindent : n ≤ indent) (hfield : key ∈ fields)
    (hvalues : s.result key = some (.list values)) (hx : scalarValue slot.node = some x)
    (hlegible : ItemLegible (base = [] ∧ indent = n) (slot.head (indent + 1)) slot)
    (hascii : ∀ line ∈ slot.tail, asciiColon line = true)
    (hreads : Reads fields ((Yaml.spaces indent ++ '-' :: slot.head (indent + 1)) :: slot.tail) s s') :
    s'.stack = s.stack ∧ s'.result key = some (.list (values ++ [x])) := by
  obtain ⟨s₁, hline, htail⟩ := reads_cons.1 hreads
  obtain ⟨item, hhead, hitem⟩ := dash_line hstack hkey hbase hdeep hindent
    (fun hnil hsame => hlegible.inline ⟨hnil, hsame⟩) hline
  obtain ⟨v, hv, rfl⟩ := readItem_list hstack hfield hindent hvalues hitem
  cases slot with
  | empty trail gap =>
    have htrail : trail = ' ' :: item := hhead
    exact absurd hv (scalar_trail (htrail ▸ hfits.1))
  | mapping => cases hx
  | sequence => cases hx
  | compactMapping => cases hx
  | compactSequence => cases hx
  | literal lead header trail width lines gap =>
    cases lead with
    | below trail' gap' space =>
      have htrail : trail' = ' ' :: item := hhead
      exact absurd hv (scalar_trail (htrail ▸ hfits.1.1))
    | here space =>
      obtain ⟨white, hwhite, rfl⟩ := item_behind hfits.1.1 hfits.1.2 hhead
      exact absurd hv (scalar_header hwhite)
  | flow lead text node trail gap =>
    obtain ⟨hlead, hflow, htrail, hlines, hgap⟩ := hfits
    cases lead with
    | below trail' gap' space =>
      have htrail' : trail' = ' ' :: item := hhead
      exact absurd hv (scalar_trail (htrail' ▸ hlead.1))
    | here space =>
      obtain ⟨white, hwhite, rfl⟩ := item_behind hlead.1 hlead.2 hhead
      cases node with
      | seq => cases hx
      | map => cases hx
      | scalar word =>
        have hx' : x = resolvedValue word.resolve := (Option.some.inj hx).symm
        obtain ⟨hword, hnull⟩ := hlegible.scalar space text word trail gap rfl
        obtain ⟨s₂, hothers, hgaps⟩ := reads_append.1 htail
        have hbreak : word.plain = true → '\n' ∉ text := by
          -- a line that looks like no item is refused
          intro hplain hbreak
          obtain ⟨line, hmem, hquiet, hdash⟩ := hlegible.continued space text word trail gap rfl hplain hbreak
          have hpass := (hothers.nameless (n := n) hstack hkey fun other hother =>
            (plain_nameless (hflow.plainText hplain) htrail (by omega) hlines
              (fun line hmem => hascii line (List.mem_append_left _ hmem)) other hother).1).1 line hmem
          rw [hquiet, hdash] at hpass
          rcases hpass with hno | hno <;> cases hno
        obtain ⟨hsingle, rfl⟩ := scalar_word_legible hwhite hflow htrail hword hnull hbreak hv
        rw [otherLines_single hsingle htrail] at hothers
        rw [reads_nil.1 hothers] at hgaps
        rw [hgaps.gap hgap, hx']
        exact ⟨rfl, Function.update_self _ _ _⟩

theorem ItemLegible.of_imp {own own' : Prop} {head : List Char} {slot : Yaml.Slot} (h : ItemLegible own head slot)
    (himp : own' → own) : ItemLegible own' head slot := ⟨fun hown => h.inline (himp hown), h.scalar, h.continued⟩

theorem items_meant {indent : Nat} (hkey : isAncestor fields key = true)
    (hbase : base ≠ [] → isAncestor fields (topOf base) = true) (hdeep : ∀ e ∈ base, e.1 < n) (hindent : n ≤ indent)
    (hfield : key ∈ fields) : ∀ {items : Yaml.Items} {s s' : PolicyReader} {values ws : List Value},
      items.Fits indent → s.stack = (n, key) :: base → s.result key = some (.list values) →
      items.nodes.mapM scalarValue = some ws →
      (∀ slot ∈ items.slots, ItemLegible (base = [] ∧ indent = n) (slot.head (indent + 1)) slot) →
      (∀ line ∈ items.lines indent, asciiColon line = true) → Reads fields (items.lines indent) s s' →
      s'.result key = some (.list (values ++ ws))
  | .nil, s, s', values, ws, _, _, hvalues, hws, _, _, hreads => by
    have hnil : ws = [] := (Option.some.inj hws).symm
    rw [reads_nil.1 hreads, hvalues, hnil, List.append_nil]
  | .cons slot rest, s, s', values, ws, hfits, hstack, hvalues, hws, hlegible, hascii, hreads => by
    obtain ⟨hslot, hrest⟩ := hfits
    have hsplit : Reads fields (((Yaml.spaces indent ++ '-' :: slot.head (indent + 1)) :: slot.tail) ++
        rest.lines indent) s s' := hreads
    obtain ⟨s₁, hfirst, hothers⟩ := reads_append.1 hsplit
    have hlines : ∀ line ∈ slot.tail ++ rest.lines indent, asciiColon line = true := fun line hmem =>
      hascii line (List.mem_cons_of_mem _ hmem)
    rw [Yaml.Items.nodes, List.mapM_cons] at hws
    obtain ⟨x, hx, hws⟩ := Option.bind_eq_some_iff.1 hws
    obtain ⟨xs, hxs, hws⟩ := Option.bind_eq_some_iff.1 hws
    cases hws
    obtain ⟨hstack₁, hvalues₁⟩ := item_meant hslot hstack hkey hbase hdeep hindent hfield hvalues hx
      (hlegible slot List.mem_cons_self) (fun line hmem => hlines line (List.mem_append_left _ hmem)) hfirst
    rw [items_meant hkey hbase hdeep hindent hfield hrest (hstack₁.trans hstack) hvalues₁ hxs
      (fun other hother => hlegible other (List.mem_cons_of_mem _ hother))
      (fun line hmem => hlines line (List.mem_append_right _ hmem)) hothers, List.append_assoc]
    rfl

theorem Opened.base_relevant {value : List Char} (h : Opened fields n key base value s) :
    base ≠ [] → isAncestor fields (topOf base) = true := by
  intro hne
  have hchained := h.orderly.chained
  rw [h.stack] at hchained
  obtain ⟨name, hname⟩ := hchained.2.1
  obtain ⟨-, field, hfield, hinitial⟩ := isAncestor_iff.1 h.relevant
  refine isAncestor_iff.2 ⟨fun hnil => ?_, field, hfield, ?_⟩
  · have hlength := hchained.2.2.length_eq
    rw [hnil] at hlength
    exact hne (List.eq_nil_of_length_eq_zero hlength.symm)
  · have hkey : key = topOf base ++ [name] := hname
    rw [hkey] at hinitial
    exact (List.prefix_append _ _).trans hinitial

theorem Opened.length_eq {value : List Char} (h : Opened fields n key base value s) : key.length = base.length + 1 := by
  have hchained := h.orderly.chained
  rw [h.stack] at hchained
  exact hchained.length_eq

/-- **A list of scalars in block style is read as it is meant.** -/
theorem sequence_meant {indent : Nat} {items : Yaml.Items}
    (hfits : (Yaml.Slot.sequence trail gap indent items).Fits (n + 1) n compact)
    (h : Opened fields n key base (strip trail) s) (hroot : base = [] → n = rootIndent)
    (hreads : Reads fields (Yaml.Slot.sequence trail gap indent items).tail s s')
    (hascii : ∀ line ∈ (Yaml.Slot.sequence trail gap indent items).tail, asciiColon line = true)
    (hlegible : SlotLegible fields spelt rootIndent key (.sequence trail gap indent items))
    (hspelt : ∀ q ∈ s'.seen, spelt q) : Meant fields key (.seq items.nodes) s' := by
  obtain ⟨htrail, hgap, hindent, -, hitems⟩ := hfits
  refine meant_leaf (fun _ hno => by cases hno) (fun x hfield hheld => ?_)
    (below_list (Reads.orderly hreads h.orderly) hlegible hspelt (Or.inl ⟨trail, gap, indent, items, rfl⟩))
  obtain ⟨values, hvalues, rfl⟩ := Option.map_eq_some_iff.1 hheld
  obtain ⟨s₁, hgaps, hlines⟩ := reads_append.1 hreads
  rw [hgaps.gap hgap] at hlines
  have hown : base = [] ∧ indent = n → key.length = 1 ∧ indent = rootIndent := fun ⟨hnil, hsame⟩ =>
    ⟨by rw [h.length_eq, hnil]; rfl, hsame.trans (hroot hnil)⟩
  exact items_meant h.relevant h.base_relevant h.deep hindent hfield hitems h.stack
    (h.below (strip_trail htrail) hfield) hvalues
    (fun slot hslot => (hlegible.items hfield trail gap indent items rfl
      (by rw [hheld]; exact Option.some_ne_none _) slot hslot).of_imp hown)
    (fun line hmem => hascii line (List.mem_append_right _ hmem)) hlines

end Slots

/-! ## Mappings -/

theorem at_map_cons {k v w : Yaml.Node} {entries : List (Yaml.Node × Yaml.Node)} {name : String} {path : Path} :
    (Yaml.Node.map ((k, v) :: entries)).At (name :: path) w ↔
      (k.Named name ∧ v.At path w) ∨ (Yaml.Node.map entries).At (name :: path) w := by
  constructor
  · intro h
    cases h with
    | step hmem hname hat =>
      rcases List.mem_cons.1 hmem with heq | hmem
      · cases heq
        exact Or.inl ⟨hname, hat⟩
      · exact Or.inr (.step hmem hname hat)
  · rintro (⟨hname, hat⟩ | h)
    · exact .step List.mem_cons_self hname hat
    · cases h with
      | step hmem hname hat => exact .step (List.mem_cons_of_mem _ hmem) hname hat

theorem named_plain {name other : String} :
    (Yaml.Node.scalar { plain := true, content := name.toList }).Named other ↔ name = other := by
  rw [Yaml.Node.Named, String.toList_inj]

section Entries

variable {n : Nat} {base : List (Nat × Path)}

/-- The line of an entry: refused or passed over, where it has no name, and otherwise the key of that name is opened. -/
inductive EntryRead (fields : List Path) (s : PolicyReader) (n : Nat) (raw : List Char) (keyNode : Yaml.Node)
    (head : List Char) : PolicyReader → Prop
  | passed : lineName raw = none → isAncestor fields (s.popTo n).top = false →
      EntryRead fields s n raw keyNode head (s.popTo n)
  | other (name : String) : lineName raw = some name → keyNode = .scalar { plain := true, content := name.toList } →
      isAncestor fields ((s.popTo n).top ++ [name]) = false →
      EntryRead fields s n raw keyNode head ((s.popTo n).push n ((s.popTo n).top ++ [name]))
  | opened (name : String) (s₁ : PolicyReader) : lineName raw = some name →
      keyNode = .scalar { plain := true, content := name.toList } →
      isAncestor fields ((s.popTo n).top ++ [name]) = true →
      Marks fields (s.popTo n) ((s.popTo n).top ++ [name]) (strip head) s₁ →
      EntryRead fields s n raw keyNode head (s₁.push n ((s.popTo n).top ++ [name]))

theorem implicit_isEntry {key space head : List Char} {keyNode : Yaml.Node}
    (hflow : Yaml.Flow (.node false) key keyNode) :
    IsEntry (Yaml.spaces n ++ key ++ space ++ ':' :: head) n ∧
      lineBody (Yaml.spaces n ++ key ++ space ++ ':' :: head) = key ++ space ++ ':' :: head := by
  have hentry := node_isEntry n hflow.starts (space ++ ':' :: head)
  obtain ⟨c, rest, rfl, hspace, -⟩ := hflow.starts.exists_first
  have hc : c ≠ ' ' := by
    rintro rfl
    cases hspace
  simp only [List.append_assoc, List.cons_append] at hentry ⊢
  exact ⟨hentry, lineBody_spaces n hc _⟩

theorem implicit_read {key space head : List Char} {keyNode : Yaml.Node} (hflow : Yaml.Flow (.node false) key keyNode)
    (hbreak : '\n' ∉ key) (hspace : Yaml.blank space = true)
    (hascii : asciiColon (Yaml.spaces n ++ key ++ space ++ ':' :: head) = true)
    (hread : readLine fields s (Yaml.spaces n ++ key ++ space ++ ':' :: head) = .ok s') :
    EntryRead fields s n (Yaml.spaces n ++ key ++ space ++ ':' :: head) keyNode head s' := by
  obtain ⟨hentry, hbody⟩ : IsEntry (Yaml.spaces n ++ key ++ space ++ ':' :: head) n ∧
      lineBody (Yaml.spaces n ++ key ++ space ++ ':' :: head) = key ++ space ++ ':' :: head := implicit_isEntry hflow
  cases hname : lineName (Yaml.spaces n ++ key ++ space ++ ':' :: head) with
  | none =>
    obtain ⟨rfl, hancestor⟩ := readLine_nameless hread hentry hname
    exact .passed hname hancestor
  | some name =>
    obtain ⟨gap, value, hshape⟩ := lineName_shaped hname hascii
    obtain ⟨hnode, rfl⟩ := entry_name hbody hflow hbreak hspace hshape
    rcases readLine_named hread hentry hshape.matched with ⟨hancestor, rfl⟩ | ⟨hancestor, s₁, hmarks, rfl⟩
    · exact .other name hname hnode hancestor
    · exact .opened name s₁ hname hnode hancestor hmarks

/-- Under a relevant key, an explicit entry is refused. -/
theorem explicit_refused {head : List Char} (hbased : Based n base s) (hdeep : ∀ e ∈ base, e.1 < n)
    (hancestor : isAncestor fields (topOf base) = true)
    (hread : readLine fields s (Yaml.spaces n ++ '?' :: head) = .ok s') : False := by
  have hname := lineName_unnamed (lineBody_spaces n (c := '?') (by decide) head) rfl
  obtain ⟨-, hno⟩ := readLine_nameless hread (mark_isEntry n (by decide) head) hname
  rw [PolicyReader.top_eq, hbased.popTo_self hdeep, hancestor] at hno
  cases hno

/-- A key that was marked is open. -/
theorem Marks.opened {name : String} {value : List Char} {s₁ : PolicyReader} (hs : Orderly fields s)
    (hbase : (s.popTo n).stack = base) (hancestor : isAncestor fields (topOf base ++ [name]) = true)
    (hmarks : Marks fields (s.popTo n) (topOf base ++ [name]) value s₁) :
    Opened fields n (topOf base ++ [name]) base value (s₁.push n (topOf base ++ [name])) := by
  have htop : (s.popTo n).top = topOf base := by rw [PolicyReader.top_eq, hbase]
  have hs₁ : Orderly fields s₁ := hmarks.orderly (by rw [htop]) hancestor (hs.popTo n)
  have htop₁ : s₁.top = topOf base := by rw [PolicyReader.top_eq, hmarks.stack, hbase]
  have hpush : Orderly fields (s₁.push n (s₁.top ++ [name])) := hs₁.push (by
    rw [hmarks.stack]
    exact popTo_lt hs.chained) fun _ => by
      rw [htop₁]
      exact hmarks.mem
  rw [htop₁] at hpush
  refine ⟨hpush, hancestor, ?_, fun path hpath hmem => ?_, hmarks.inline, hmarks.below⟩
  · show (n, _) :: s₁.stack = _
    rw [hmarks.stack, hbase]
  · have hmem' : topOf base ++ [name] ++ path ∈ s₁.seen := hmem
    rw [hmarks.seen] at hmem'
    rcases List.mem_cons.1 hmem' with heq | hold
    · exact hpath (by simpa using heq)
    · exact hmarks.fresh ((hs.popTo n).mem_of_extended (by simp) (List.prefix_append _ _) hold)

/-- Under a relevant key, the lines of a value leave the key of the value open, or are refused. -/
theorem Reads.covered {lines : List Yaml.Line} {key : Path} (h : Reads fields lines s s')
    (hlines : ∀ line ∈ lines, Yaml.Stands (n + 1) n line) (hs : Orderly fields s)
    (hbased : Based (n + 1) ((n, key) :: base) s) (hdeep : ∀ e ∈ base, e.1 < n)
    (hancestor : isAncestor fields (topOf base) = true) : ∀ line ∈ lines, Covered (n + 1) line := by
  have hlow : ∀ e ∈ (n, key) :: base, e.1 < n + 1 := by
    intro e he
    rcases List.mem_cons.1 he with rfl | he
    · exact Nat.lt_succ_self n
    · have := hdeep e he
      omega
  induction lines generalizing s with
  | nil => exact fun _ hmem => absurd hmem List.not_mem_nil
  | cons raw lines ih =>
    obtain ⟨s₁, hline, hrest⟩ := reads_cons.1 h
    have hraw : Covered (n + 1) raw := by
      rcases hlines raw List.mem_cons_self with hgap | hdeep' | ⟨m, rest, hm, rfl⟩
      · exact Or.inl (readLine_gap hline hgap).1
      · rw [← lineIndent_eq] at hdeep'
        exact Or.inr (Or.inr hdeep')
      · by_cases hsame : m = n
        · subst hsame
          right
          left
          obtain ⟨above, hstack, habove⟩ := hbased
          have hpop : (s.popTo m).stack = base := by
            have hbased' : Based m base s := ⟨above ++ [(m, key)], by rw [hstack]; simp, fun e he => by
              rcases List.mem_append.1 he with he | he
              · exact (Nat.le_succ m).trans (habove e he)
              · rw [List.mem_singleton.1 he]⟩
            exact hbased'.popTo_self hdeep
          by_contra hdash
          have hstarts := startsWith_spaces m (c := '-') (by decide) rest
          obtain ⟨-, hno⟩ := readLine_nameless hline
            ⟨hstarts.indent, hstarts.loud (by decide), by simpa using hdash⟩ (lineName_unnamed hstarts.body rfl)
          rw [PolicyReader.top_eq, hpop, hancestor] at hno
          cases hno
        · rw [Covered, lineIndent_spaces m (by decide)]
          exact Or.inr (Or.inr (by omega))
    intro line hmem
    rcases List.mem_cons.1 hmem with rfl | hmem
    · exact hraw
    · exact ih hrest (fun other hother => hlines other (List.mem_cons_of_mem raw hother)) (readLine_orderly hline hs)
        (hbased.line hline hlow hraw) line hmem

/-- The values below one key of a mapping are what it holds. -/
structure KeyMeant (fields : List Path) (above : Path) (nodes : List (Yaml.Node × Yaml.Node)) (name : String)
    (s : PolicyReader) : Prop where
  holds : ∀ path w x, above ++ name :: path ∈ fields → (Yaml.Node.map nodes).At (name :: path) w →
    heldValue w = some x → s.result (above ++ name :: path) = some x
  defined : ∀ path, s.result (above ++ name :: path) ≠ none → ∃ w, (Yaml.Node.map nodes).At (name :: path) w

/-- A key that was read before the entries of a mapping is none of theirs. -/
structure KeyPast (above : Path) (nodes : List (Yaml.Node × Yaml.Node)) (name : String) (s s' : PolicyReader) : Prop
    where
  same : ∀ path, s'.result (above ++ name :: path) = s.result (above ++ name :: path)
  absent : ∀ entry ∈ nodes, ¬ entry.1.Named name

theorem KeyMeant.cons {above : Path} {k v : Yaml.Node} {nodes : List (Yaml.Node × Yaml.Node)} {name : String}
    (h : KeyMeant fields above nodes name s) (hk : ¬ k.Named name) : KeyMeant fields above ((k, v) :: nodes) name s where
  holds path w x hfield hat hheld :=
    h.holds path w x hfield ((at_map_cons.1 hat).resolve_left fun hhere => hk hhere.1) hheld
  defined path hsome := by
    obtain ⟨w, hw⟩ := h.defined path hsome
    exact ⟨w, at_map_cons.2 (Or.inr hw)⟩

theorem KeyPast.cons {above : Path} {k v : Yaml.Node} {nodes : List (Yaml.Node × Yaml.Node)} {name : String}
    {s₁ : PolicyReader} (h : KeyPast above nodes name s₁ s') (hk : ¬ k.Named name)
    (hsame : ∀ path, s₁.result (above ++ name :: path) = s.result (above ++ name :: path)) :
    KeyPast above ((k, v) :: nodes) name s s' where
  same path := (h.same path).trans (hsame path)
  absent entry hentry := by
    rcases List.mem_cons.1 hentry with rfl | hrest
    · exact hk
    · exact h.absent entry hrest

/-- What is read at a key, with nothing of it behind. -/
theorem Meant.cons {above : Path} {k v : Yaml.Node} {nodes : List (Yaml.Node × Yaml.Node)} {name : String}
    {s₁ : PolicyReader} (h : Meant fields (above ++ [name]) v s₁) (hk : k.Named name)
    (hpast : KeyPast above nodes name s₁ s') : KeyMeant fields above ((k, v) :: nodes) name s' := by
  have hsplit : ∀ path, above ++ name :: path = above ++ [name] ++ path := fun path => by simp
  refine ⟨fun path w x hfield hat hheld => ?_, fun path hsome => ?_⟩
  · rcases at_map_cons.1 hat with ⟨-, hat⟩ | hat
    · rw [hpast.same, hsplit]
      exact h.holds path w x (hsplit path ▸ hfield) hat hheld
    · cases hat with
      | step hmem hname _ => exact absurd hname (hpast.absent _ hmem)
  · rw [hpast.same, hsplit] at hsome
    obtain ⟨w, hw⟩ := h.defined path hsome
    exact ⟨w, at_map_cons.2 (Or.inl ⟨hk, hw⟩)⟩

/-- Nothing is read below a key that is not relevant. -/
theorem keyMeant_irrelevant {above : Path} {nodes : List (Yaml.Node × Yaml.Node)} {name : String}
    (hs : Orderly fields s) (hkey : isAncestor fields (above ++ [name]) = false) :
    KeyMeant fields above nodes name s := by
  have hno : ∀ path, above ++ name :: path ∉ fields := by
    intro path hfield
    have hyes : isAncestor fields (above ++ [name]) = true :=
      isAncestor_iff.2 ⟨by simp, _, hfield, path, by simp⟩
    rw [hkey] at hyes
    cases hyes
  exact ⟨fun path w x hfield _ _ => absurd hfield (hno path), fun path hsome => absurd (hs.selected _ hsome) (hno path)⟩

/-- The entries of a mapping under a relevant key, for one name. -/
def EntryMeant (fields : List Path) (above : Path) (nodes : List (Yaml.Node × Yaml.Node)) (s s' : PolicyReader)
    (name : String) : Prop :=
  (above ++ [name] ∉ s.seen → KeyMeant fields above nodes name s') ∧
    (above ++ [name] ∈ s.seen → KeyPast above nodes name s s')

def EntriesMeant (fields : List Path) (above : Path) (nodes : List (Yaml.Node × Yaml.Node)) (s s' : PolicyReader) :
    Prop :=
  ∀ name, EntryMeant fields above nodes s s' name

/-- What an entry leaves alone is what the entries behind it make of it. -/
theorem EntriesMeant.beside {above : Path} {k v : Yaml.Node} {nodes : List (Yaml.Node × Yaml.Node)} {name name₀ : String}
    {s₂ : PolicyReader} (h : EntriesMeant fields above nodes s₂ s')
    (hk : k = .scalar { plain := true, content := name₀.toList }) (hname : name ≠ name₀)
    (hkeep : (∀ path, s₂.result (above ++ name :: path) = s.result (above ++ name :: path)) ∧
      (above ++ [name] ∈ s₂.seen ↔ above ++ [name] ∈ s.seen)) :
    EntryMeant fields above ((k, v) :: nodes) s s' name := by
  have hnot : ¬ k.Named name := by
    rw [hk, named_plain]
    exact Ne.symm hname
  exact ⟨fun hfresh => ((h name).1 fun hmem => hfresh (hkeep.2.1 hmem)).cons hnot,
    fun hmem => ((h name).2 (hkeep.2.2 hmem)).cons hnot hkeep.1⟩

theorem not_prefix_other {above path : Path} {name other : String} (h : other ≠ name) :
    ¬ above ++ [name] <+: above ++ other :: path := by
  rw [List.prefix_append_right_inj, List.cons_prefix_cons]
  exact fun hinitial => h hinitial.1.symm

/-- What an entry does to the keys beside its own. -/
theorem other_keys {above : Path} {name₀ : String} {lines : List Yaml.Line} {s₁ : PolicyReader}
    (hreads : Reads fields lines s₁ s') (hs : Orderly fields s₁)
    (hstack : s₁.stack = (n, topOf base ++ [name₀]) :: base) (habove : above = topOf base)
    (hdeep : ∀ e ∈ base, e.1 < n) (hcovered : ∀ line ∈ lines, Covered (n + 1) line)
    (hsame : ∀ q, q ≠ above ++ [name₀] → s₁.result q = s.result q ∧ (q ∈ s₁.seen ↔ q ∈ s.seen)) :
    ∀ name, name ≠ name₀ → (∀ path, s'.result (above ++ name :: path) = s.result (above ++ name :: path)) ∧
      (above ++ [name] ∈ s'.seen ↔ above ++ [name] ∈ s.seen) := by
  intro name hname
  have hlow : ∀ e ∈ (n, topOf base ++ [name₀]) :: base, e.1 < n + 1 := by
    intro e he
    rcases List.mem_cons.1 he with rfl | he
    · exact Nat.lt_succ_self n
    · have := hdeep e he
      omega
  have hbased : Based (n + 1) ((n, topOf base ++ [name₀]) :: base) s₁ := hstack ▸ based_self s₁ (n + 1)
  have hframe : ∀ path, s'.result (above ++ name :: path) = s₁.result (above ++ name :: path) ∧
      (above ++ name :: path ∈ s'.seen ↔ above ++ name :: path ∈ s₁.seen) := fun path =>
    hreads.frame hs hbased hlow hcovered (by
      rw [habove]
      exact not_prefix_other hname)
  have hne : ∀ path, above ++ name :: path ≠ above ++ [name₀] := by
    intro path heq
    have := List.append_cancel_left heq
    rw [List.cons.injEq] at this
    exact hname this.1
  exact ⟨fun path => (hframe path).1.trans (hsame _ (hne path)).1, (hframe []).2.trans (hsame _ (hne [])).2⟩

end Entries

section Tree

variable {spelt : Path → Prop} {rootIndent : Nat}

mutual

/-- **Below a key of a selected path, a document is read as it is meant.** -/
theorem slot_meant : ∀ {slot : Yaml.Slot} {n column : Nat} {key : Path} {base : List (Nat × Path)}
    {s s' : PolicyReader}, slot.Fits (n + 1) n false → Opened fields n key base (strip (slot.head column)) s →
      (base = [] → n = rootIndent) → Reads fields slot.tail s s' → (∀ line ∈ slot.tail, asciiColon line = true) →
      (∀ path part, slot.Reaches path part → SlotLegible fields spelt rootIndent (key ++ path) part) →
      (∀ q ∈ s'.seen, spelt q) → Meant fields key slot.node s'
  | .empty trail gap, n, column, key, base, s, s', hfits, h, _, hreads, _, _, _ => empty_meant hfits h hreads
  | .flow lead text node trail gap, n, column, key, base, s, s', hfits, h, _, hreads, hascii, hlegible, hspelt => by
    have hhere := hlegible [] _ (.here _)
    rw [List.append_nil] at hhere
    exact flow_meant hfits h hreads hascii hhere hspelt
  | .literal lead header trail width lines gap, n, column, key, base, s, s', hfits, h, _, hreads, _, _, _ =>
    (literal_refused hfits h hreads).elim
  | .sequence trail gap indent items, n, column, key, base, s, s', hfits, h, hroot, hreads, hascii, hlegible,
      hspelt => by
    have hhere := hlegible [] _ (.here _)
    rw [List.append_nil] at hhere
    exact sequence_meant hfits h hroot hreads hascii hhere hspelt
  | .compactMapping indent entries, n, column, key, base, s, s', hfits, h, _, hreads, _, _, _ => by cases hfits.1
  | .compactSequence indent items, n, column, key, base, s, s', hfits, h, _, hreads, _, _, _ => by cases hfits.1
  | .mapping trail gap indent entries, n, column, key, base, s, s', hfits, h, hroot, hreads, hascii, hlegible,
      hspelt => by
    obtain ⟨htrail, hgap, hindent, -, hentries⟩ := hfits
    obtain ⟨s₁, hgaps, hlines⟩ := reads_append.1 hreads
    rw [hgaps.gap hgap] at hlines
    have hdeep : ∀ e ∈ (n, key) :: base, e.1 < indent := by
      intro e he
      rcases List.mem_cons.1 he with rfl | he
      · exact hindent
      · have := h.deep e he
        omega
    have hmeant := entries_meant hentries h.orderly (h.stack ▸ based_self s indent) hdeep h.relevant hlines
      (fun line hmem => hascii line (List.mem_append_right _ hmem))
      (fun name value hvalue path part hpart => hlegible (name :: path) part (.step hvalue hpart)) hspelt
    refine ⟨fun path w x hfield hat hheld => ?_, fun path hsome => ?_⟩
    · cases path with
      | nil =>
        cases hat
        cases hheld
      | cons name path => exact ((hmeant name).1 (h.fresh [name] (by simp))).holds path w x hfield hat hheld
    · cases path with
      | nil => exact ⟨_, .here _⟩
      | cons name path => exact ((hmeant name).1 (h.fresh [name] (by simp))).defined path hsome

theorem entries_meant : ∀ {entries : Yaml.Entries} {n : Nat} {base : List (Nat × Path)} {s s' : PolicyReader},
    entries.Fits n → Orderly fields s → Based n base s → (∀ e ∈ base, e.1 < n) →
      isAncestor fields (topOf base) = true → Reads fields (entries.lines n) s s' →
      (∀ line ∈ entries.lines n, asciiColon line = true) →
      (∀ name value, (name, value) ∈ entries.named → ∀ path part, value.Reaches path part →
        SlotLegible fields spelt rootIndent (topOf base ++ name :: path) part) →
      (∀ q ∈ s'.seen, spelt q) → EntriesMeant fields (topOf base) entries.nodes s s'
  | .nil, n, base, s, s', _, hs, _, _, _, hreads, _, _, _ => by
    rw [reads_nil.1 hreads]
    refine fun name => ⟨fun hfresh => ⟨fun path w x _ hat _ => ?_, fun path hsome => ?_⟩, fun _ =>
      ⟨fun _ => rfl, fun _ hentry => absurd hentry List.not_mem_nil⟩⟩
    · cases hat with
      | step hmem => exact absurd hmem List.not_mem_nil
    · exact absurd (hs.mem_of_extended (by simp) ⟨path, by simp⟩ (hs.recorded _ hsome)) hfresh
  | .explicit key rest, n, base, s, s', _, hs, hbased, hdeep, hancestor, hreads, _, _, _ => by
    obtain ⟨s₁, hline, -⟩ := reads_cons.1 hreads
    exact (explicit_refused hbased hdeep hancestor hline).elim
  | .explicitValue key value rest, n, base, s, s', _, hs, hbased, hdeep, hancestor, hreads, _, _, _ => by
    obtain ⟨s₁, hline, -⟩ := reads_cons.1 hreads
    exact (explicit_refused hbased hdeep hancestor hline).elim
  | .implicit key keyNode space value rest, n, base, s, s', hfits, hs, hbased, hdeep, hancestor, hreads, hascii,
      hlegible, hspelt => by
    obtain ⟨hflow, hbreak, hspace, hvalue, hrest⟩ := hfits
    obtain ⟨s₁, hline, htail⟩ := reads_cons.1 hreads
    obtain ⟨s₂, hvalues, hothers⟩ := reads_append.1 htail
    have hpop := hbased.popTo_self hdeep
    have htop : (s.popTo n).top = topOf base := by rw [PolicyReader.top_eq, hpop]
    have hs₁ := readLine_orderly hline hs
    have hne : base ≠ [] := by
      rintro rfl
      exact (isAncestor_iff.1 hancestor).1 rfl
    have hstands := Yaml.Slot.tail_stands hvalue (Nat.le_refl _)
    -- the rest of the entries, once the value is read
    have hgo : ∀ name₀, keyNode = .scalar { plain := true, content := name₀.toList } →
        s₁.stack = (n, topOf base ++ [name₀]) :: base →
        (∀ q, q ≠ topOf base ++ [name₀] → s₁.result q = s.result q ∧ (q ∈ s₁.seen ↔ q ∈ s.seen)) →
        EntriesMeant fields (topOf base) rest.nodes s₂ s' ∧ ∀ name, name ≠ name₀ →
          EntryMeant fields (topOf base) (Yaml.Entries.implicit key keyNode space value rest).nodes s s' name := by
      intro name₀ hnode hstack hsame
      have hcovered := hvalues.covered hstands hs₁ (hstack ▸ based_self s₁ (n + 1)) hdeep hancestor
      have hbased₂ : Based n base s₂ := by
        have hbased₁ : Based n base s₁ := ⟨[(n, topOf base ++ [name₀])], hstack, fun e he => by
          rw [List.mem_singleton.1 he]⟩
        exact hvalues.based hbased₁ hdeep fun line hmem => (hcovered line hmem).imp id fun h =>
          h.imp id fun h => (Nat.le_succ n).trans h
      have hmeant := entries_meant hrest (hvalues.orderly hs₁) hbased₂ hdeep hancestor hothers
        (fun line hmem => hascii line (List.mem_cons_of_mem _ (List.mem_append_right _ hmem)))
        (fun name value' hmem => hlegible name value' (List.mem_append_right _ hmem)) hspelt
      exact ⟨hmeant, fun name hname => hmeant.beside hnode hname
        (other_keys hvalues hs₁ hstack rfl hdeep hcovered hsame name hname)⟩
    have hread := implicit_read hflow hbreak hspace (hascii _ List.mem_cons_self) hline
    cases hread with
    | passed _ hno =>
      rw [htop, hancestor] at hno
      cases hno
    | other name₀ _ hnode hno =>
      rw [htop] at hno hgo
      obtain ⟨-, hkeys⟩ := hgo name₀ hnode (by
        show (n, _) :: (s.popTo n).stack = _
        rw [hpop]) fun q _ => ⟨rfl, Iff.rfl⟩
      intro name
      by_cases hname : name = name₀
      · subst hname
        refine ⟨fun _ => keyMeant_irrelevant (Reads.orderly hreads hs) hno, fun hmem => ?_⟩
        rw [hs.relevant _ hmem] at hno
        cases hno
      · exact hkeys name hname
    | opened name₀ s₃ _ hnode hyes hmarks =>
      rw [htop] at hyes hmarks hgo
      have hopened := hmarks.opened hs hpop hyes
      obtain ⟨hmeant, hkeys⟩ := hgo name₀ hnode (by
        show (n, _) :: s₃.stack = _
        rw [hmarks.stack, hpop]) fun q hq => ⟨hmarks.other q hq, hmarks.mem_iff hq⟩
      intro name
      by_cases hname : name = name₀
      · subst hname
        rw [htop] at hvalues
        have hvalueMeant := slot_meant hvalue hopened (fun hnil => absurd hnil hne) hvalues
          (fun line hmem => hascii line (List.mem_cons_of_mem _ (List.mem_append_left _ hmem)))
          (fun path part hpart => by
            rw [List.append_assoc]
            exact hlegible name value (Yaml.Entries.mem_named hnode) path part hpart)
          (fun q hq => hspelt q (hothers.seen_mono hq))
        exact ⟨fun _ => hvalueMeant.cons (by rw [hnode, named_plain])
          ((hmeant name).2 (hvalues.seen_mono hmarks.mem)), fun hmem => absurd hmem hmarks.fresh⟩
      · exact hkeys name hname

end

end Tree

end ReadyBeads

end Subgov
