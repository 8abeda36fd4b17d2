import Mathlib.Data.List.Nodup
import Mathlib.Logic.Function.Basic
import Mathlib.Logic.Relation
/-!
# Rotation — tokens that are honoured once

An issuer honours the token it issued last and no other, and answers it with a new one.  Clients learn the token of a
register they share, redeem it and store the answer, with nothing that orders them.  The register is never more than one
token behind (`Inv.near`), never goes back (`Inv.forward`), and the answer it waits for is with one client, who finds
there what it redeemed (`Inv.carried`).
-/
namespace Rotation

open Relation (ReflTransGen)

variable {C T : Type}

/-- The tokens issued, the last one first; what the register holds; what a client is about to redeem or has redeemed;
the answer it has not stored yet. -/
structure State (C T : Type) where
  issued : List T
  stored : Option T
  known : C → Option T
  carried : C → Option T

/-- A register that holds the only token. -/
def State.start (t : T) : State C T := ⟨[t], some t, fun _ => none, fun _ => none⟩

section Steps

variable [DecidableEq C]

inductive Step : State C T → State C T → Prop
  | learn {s : State C T} (c : C) : Step s { s with known := Function.update s.known c s.stored }
  | redeem {s : State C T} {c : C} {r t : T} (hknown : s.known c = some r) (hlive : s.issued.head? = some r)
      (hnew : t ∉ s.issued) (kept carried : Option T) (hkept : ∀ r' ∈ kept, r' = r) (hcarried : ∀ t' ∈ carried, t' = t) :
      Step s { s with
        issued := t :: s.issued
        known := Function.update s.known c kept
        carried := Function.update s.carried c carried }
  | forget {s : State C T} (c : C) (known carried : Option T) (hknown : ∀ r ∈ known, s.known c = some r)
      (hcarried : ∀ t ∈ carried, s.carried c = some t) :
      Step s { s with known := Function.update s.known c known, carried := Function.update s.carried c carried }
  | store {s : State C T} {c : C} {t : T} (hcarried : s.carried c = some t) :
      Step s { s with
        stored := some t
        known := Function.update s.known c none
        carried := Function.update s.carried c none }

end Steps

structure Inv (s : State C T) : Prop where
  nodup : s.issued.Nodup
  near : ∃ r, s.stored = some r ∧ (s.issued.head? = some r ∨ ∃ t rest, s.issued = t :: r :: rest)
  known : ∀ c r, s.known c = some r → r ∈ s.issued ∧ (s.issued.head? = some r → s.stored = some r)
  carried : ∀ c t, s.carried c = some t →
    ∃ r rest, s.issued = t :: r :: rest ∧ s.stored = some r ∧ ∀ r', s.known c = some r' → r' = r
  unique : ∀ c d, s.carried c ≠ none → s.carried d ≠ none → c = d

theorem inv_start (t : T) : Inv (State.start t : State C T) where
  nodup := List.nodup_singleton t
  near := ⟨t, rfl, .inl rfl⟩
  known _ _ h := nomatch h
  carried _ _ h := nomatch h
  unique _ _ h := absurd rfl h

section Keeps

variable {s s' : State C T}

theorem mem_issued_of_stored {r : T} (h : Inv s) (hr : s.stored = some r) : r ∈ s.issued := by
  obtain ⟨r', hr', hnear⟩ := h.near
  obtain rfl : r = r' := Option.some.inj (hr.symm.trans hr')
  rcases hnear with hhead | ⟨t, rest, hissued⟩
  · exact List.mem_of_mem_head? hhead
  · rw [hissued]
    exact List.mem_cons_of_mem _ List.mem_cons_self

/-- Where the register holds the live token, nobody carries another. -/
theorem not_carried_of_live {r : T} (h : Inv s) (hlive : s.issued.head? = some r) (hstored : s.stored = some r) (c : C) :
    s.carried c = none := by
  cases hcarried : s.carried c with
  | none => rfl
  | some t =>
    obtain ⟨r', rest, hissued, hr', -⟩ := h.carried c t hcarried
    obtain rfl : r = r' := Option.some.inj (hstored.symm.trans hr')
    have hnodup := h.nodup
    rw [hissued] at hlive hnodup
    obtain rfl : t = r := Option.some.inj hlive
    exact absurd List.mem_cons_self (List.nodup_cons.1 hnodup).1

theorem update_eq_some {α β : Type} [DecidableEq α] {f : α → Option β} {a b : α} {v : Option β} {x : β}
    (h : Function.update f a v b = some x) : b = a ∧ v = some x ∨ b ≠ a ∧ f b = some x := by
  by_cases hb : b = a
  · subst hb
    exact .inl ⟨rfl, (Function.update_self b v f).symm.trans h⟩
  · exact .inr ⟨hb, (Function.update_of_ne hb v f).symm.trans h⟩

variable [DecidableEq C]

/-- **What is redeemed is the token of the register**, so the register and the carriers stay in step. -/
theorem Inv.step (h : Inv s) (hstep : Step s s') : Inv s' := by
  cases hstep with
  | learn c =>
    refine ⟨h.nodup, h.near, fun d r hd => ?_, fun d t hd => ?_, h.unique⟩
    · rcases update_eq_some hd with ⟨-, hr⟩ | ⟨-, hr⟩
      · have hmem : r ∈ s.issued := mem_issued_of_stored h hr
        exact ⟨hmem, fun _ => hr⟩
      · exact h.known d r hr
    · obtain ⟨r, rest, hissued, hr, hknown⟩ := h.carried d t hd
      refine ⟨r, rest, hissued, hr, fun r' hr' => ?_⟩
      rcases update_eq_some hr' with ⟨-, hsame⟩ | ⟨-, hold⟩
      · exact Option.some.inj (hsame.symm.trans hr)
      · exact hknown r' hold
  | @redeem c r t hknown hlive hnew kept carried hkept hcarried =>
    have hstored := (h.known c r hknown).2 hlive
    have hnobody := not_carried_of_live h hlive hstored
    obtain ⟨rest, hissued⟩ := List.head?_eq_some_iff.1 hlive
    refine ⟨List.nodup_cons.2 ⟨hnew, h.nodup⟩, ⟨r, hstored, .inr ⟨t, rest, congrArg _ hissued⟩⟩, fun d r' hd => ?_,
      fun d t' hd => ?_, fun d e hd he => ?_⟩
    · have hmem : r' ∈ s.issued := by
        rcases update_eq_some hd with ⟨-, hr'⟩ | ⟨-, hr'⟩
        · rw [hkept r' hr']
          exact List.mem_of_mem_head? hlive
        · exact (h.known d r' hr').1
      exact ⟨List.mem_cons_of_mem _ hmem, fun hhead => absurd (Option.some.inj hhead ▸ hmem) hnew⟩
    · rcases update_eq_some hd with ⟨rfl, ht'⟩ | ⟨-, hold⟩
      · obtain rfl := hcarried t' ht'
        refine ⟨r, rest, congrArg _ hissued, hstored, fun r' hr' => ?_⟩
        rcases update_eq_some hr' with ⟨-, hsame⟩ | ⟨hne, -⟩
        · exact hkept r' hsame
        · exact absurd rfl hne
      · exact nomatch (hnobody d).symm.trans hold
    · have hall : ∀ d, Function.update s.carried c carried d ≠ none → d = c := by
        intro d hd
        by_contra hne
        exact hd ((Function.update_of_ne hne carried s.carried).trans (hnobody d))
      exact (hall d hd).trans (hall e he).symm
  | forget c known carried hknown hcarried =>
    have hfewer : ∀ d t, Function.update s.carried c carried d = some t → s.carried d = some t := by
      intro d t hd
      rcases update_eq_some hd with ⟨rfl, ht⟩ | ⟨-, ht⟩
      · exact hcarried t ht
      · exact ht
    have hless : ∀ d r, Function.update s.known c known d = some r → s.known d = some r := by
      intro d r hd
      rcases update_eq_some hd with ⟨rfl, hr⟩ | ⟨-, hr⟩
      · exact hknown r hr
      · exact hr
    refine ⟨h.nodup, h.near, fun d r hd => h.known d r (hless d r hd), fun d t hd => ?_, fun d e hd he => ?_⟩
    · obtain ⟨r, rest, hissued, hr, hall⟩ := h.carried d t (hfewer d t hd)
      exact ⟨r, rest, hissued, hr, fun r' hr' => hall r' (hless d r' hr')⟩
    · obtain ⟨t, ht⟩ := Option.ne_none_iff_exists'.1 hd
      obtain ⟨u, hu⟩ := Option.ne_none_iff_exists'.1 he
      refine h.unique d e ?_ ?_
      · rw [hfewer d t ht]
        exact Option.some_ne_none t
      · rw [hfewer e u hu]
        exact Option.some_ne_none u
  | @store c t hcarried =>
    obtain ⟨r, rest, hissued, hr, -⟩ := h.carried c t hcarried
    have hhead : s.issued.head? = some t := by rw [hissued, List.head?_cons]
    have hnobody : ∀ d, Function.update s.carried c none d = none := by
      intro d
      by_cases hd : d = c
      · rw [hd, Function.update_self]
      · rw [Function.update_of_ne hd]
        by_contra hother
        exact hd (h.unique d c hother (by rw [hcarried]; exact Option.some_ne_none t))
    refine ⟨h.nodup, ⟨t, rfl, .inl hhead⟩, fun d r' hd => ?_, fun d t' hd => ?_, fun d _ hd _ => absurd (hnobody d) hd⟩
    · rcases update_eq_some hd with ⟨-, hr'⟩ | ⟨-, hr'⟩
      · cases hr'
      · exact ⟨(h.known d r' hr').1, fun hlive => hhead.symm.trans hlive⟩
    · exact nomatch (hnobody d).symm.trans hd

theorem Inv.reaches (h : Inv s) (hreaches : ReflTransGen Step s s') : Inv s' := by
  induction hreaches with
  | refl => exact h
  | tail _ hstep ih => exact ih.step hstep

variable [DecidableEq T]

/-- The register stands at `a` or at a token issued later. -/
def AtLeast (a : T) (s : State C T) : Prop := a ∈ s.issued ∧ ∀ b, s.stored = some b → s.issued.idxOf b ≤ s.issued.idxOf a

theorem AtLeast.step {a : T} (hinv : Inv s) (h : AtLeast a s) (hstep : Step s s') : AtLeast a s' := by
  cases hstep with
  | learn c => exact h
  | forget c known carried hknown hcarried => exact h
  | @redeem c r t hknown hlive hnew kept carried hkept hcarried =>
    refine ⟨List.mem_cons_of_mem _ h.1, fun b hb => ?_⟩
    have hfresh : ∀ x ∈ s.issued, t ≠ x := fun x hx hsame => hnew (hsame ▸ hx)
    rw [List.idxOf_cons_ne _ (hfresh b (mem_issued_of_stored hinv hb)), List.idxOf_cons_ne _ (hfresh a h.1)]
    exact Nat.succ_le_succ (h.2 b hb)
  | @store c t hcarried =>
    obtain ⟨r, rest, hissued, -, -⟩ := hinv.carried c t hcarried
    refine ⟨h.1, fun b hb => ?_⟩
    obtain rfl := Option.some.inj hb
    rw [hissued, List.idxOf_cons_self]
    exact Nat.zero_le _

/-- **The register never goes back.** -/
theorem Inv.forward {a : T} (h : Inv s) (ha : s.stored = some a) (hreaches : ReflTransGen Step s s') : AtLeast a s' := by
  have hkept : Inv s' ∧ AtLeast a s' := by
    induction hreaches with
    | refl =>
      refine ⟨h, mem_issued_of_stored h ha, fun b hb => ?_⟩
      obtain rfl : a = b := Option.some.inj (ha.symm.trans hb)
      exact Nat.le_refl _
    | tail _ hstep ih => exact ⟨ih.1.step hstep, ih.2.step ih.1 hstep⟩
  exact hkept.2

end Keeps

end Rotation
