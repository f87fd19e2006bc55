import Exchange.Store.Table
import Mathlib.Data.List.Forall2

/-!
# Tables that change row by row

Two states of a table in which row `i` of the one is related to row `i` of the
other: what several writers do to the rows that are there, none of which adds or
removes one. Such changes compose (`rowwise_trans`), and a statement that modifies
one row is one (`rowwise_modify`).
-/

namespace Store

variable {Row : Type} {R : Row → Row → Prop} {l l' l'' : List Row}

theorem rowwise_trans (trans : ∀ a b c, R a b → R b c → R a c) (h : List.Forall₂ R l l')
    (h' : List.Forall₂ R l' l'') : List.Forall₂ R l l'' := by
  apply List.forall₂_iff_get.mpr
  refine ⟨h.length_eq.trans h'.length_eq, fun i hi hi'' => ?_⟩
  have hi' := h.length_eq ▸ hi
  exact trans _ _ _ ((List.forall₂_iff_get.mp h).2 i hi hi')
    ((List.forall₂_iff_get.mp h').2 i hi' hi'')

/-- A row after the change was one before. -/
theorem rowwise_left (h : List.Forall₂ R l l') {r' : Row} (hr' : r' ∈ l') : ∃ r ∈ l, R r r' := by
  obtain ⟨i, hi, rfl⟩ := List.getElem_of_mem hr'
  have hi' := h.length_eq ▸ hi
  exact ⟨_, List.getElem_mem hi', (List.forall₂_iff_get.mp h).2 i hi' hi⟩

theorem rowwise_right (h : List.Forall₂ R l l') {r : Row} (hr : r ∈ l) : ∃ r' ∈ l', R r r' := by
  obtain ⟨i, hi, rfl⟩ := List.getElem_of_mem hr
  have hi' := h.length_eq ▸ hi
  exact ⟨_, List.getElem_mem hi', (List.forall₂_iff_get.mp h).2 i hi hi'⟩

/-- Rows that may only stay as they are do. -/
theorem rowwise_eq (h : List.Forall₂ R l l') (heq : ∀ r ∈ l, ∀ r', R r r' → r' = r) : l' = l := by
  induction h with
  | nil => rfl
  | cons hr _ ih =>
    rw [heq _ List.mem_cons_self _ hr, ih fun r hr => heq r (List.mem_cons_of_mem _ hr)]

theorem rowwise_modify {key : Row → Nat} {t : Table Row key} {id : Nat} {f : Row → Row}
    (hf : ∀ r, key (f r) = key r) (hsame : ∀ r ∈ t.rows, R r r)
    (hmodified : ∀ r ∈ t.rows, key r = id → R r (f r)) :
    List.Forall₂ R t.rows (t.modify id f hf).rows := by
  apply List.forall₂_map_right_iff.mpr
  apply List.forall₂_same.mpr
  intro r hr
  split
  · next hid => exact hmodified r hr hid
  · exact hsame r hr

/-- Rows are kept one by one, and rows are added: such changes compose. -/
theorem rowwise_extend (trans : ∀ a b c, R a b → R b c → R a c)
    (h : ∃ later added, l' = later ++ added ∧ List.Forall₂ R l later)
    (h' : ∃ later added, l'' = later ++ added ∧ List.Forall₂ R l' later) :
    ∃ later added, l'' = later ++ added ∧ List.Forall₂ R l later := by
  obtain ⟨later, added, rfl, hl⟩ := h
  obtain ⟨later', added', rfl, hl'⟩ := h'
  have hflip : List.Forall₂ (flip R) later' (later ++ added) := hl'.flip
  have hlater : List.Forall₂ R later (later'.take later.length) :=
    (List.forall₂_take_append later' later added hflip).flip
  refine ⟨later'.take later.length, later'.drop later.length ++ added', ?_,
    rowwise_trans trans hl hlater⟩
  rw [← List.append_assoc, List.take_append_drop]

end Store
