import Mathlib.Algebra.BigOperators.Group.List.Basic
import Mathlib.Order.MinMax

/-!
# Selections and their totals

A query under construction has one condition, and a condition given later
replaces it. The total of a column over the selected rows is `NULL` if there
are none.

`sumOf_eq_own_iff` and `sumOf_eq_iff`: when the total over a list is that of a part
of it, and when two lists with one part in common have the same total.
`min?_eq_iff` and `max?_eq_iff`: when two lists have the same least or greatest element.
-/

namespace Store

variable {Row M : Type}

structure Select (Row : Type) where
  rows : List Row
  condition : Row → Bool

namespace Select

def createQueryBuilder (rows : List Row) : Select Row := ⟨rows, fun _ => true⟩

/-- The condition replaces the one given before. -/
def setWhere (q : Select Row) (condition : Row → Bool) : Select Row :=
  { q with condition := condition }

@[simp] theorem setWhere_setWhere (q : Select Row) (p p' : Row → Bool) :
    (q.setWhere p).setWhere p' = q.setWhere p' := rfl

def getRows (q : Select Row) : List Row := q.rows.filter q.condition

end Select

/-- `SUM` of a column. -/
def sumOf [Add M] [Zero M] (φ : Row → M) (rows : List Row) : Option M :=
  if rows = [] then none else some (rows.map φ).sum

section Parts

variable [AddCommGroup M] (φ : Row → M) (own : Row → Bool) (l l' : List Row)

theorem sum_own_add_others :
    (l.map φ).sum =
      ((l.filter own).map φ).sum + ((l.filter fun r => !own r).map φ).sum := by
  rw [← List.sum_append, ← List.map_append]
  exact ((List.filter_append_perm own l).map φ).sum_eq.symm

theorem eq_nil_iff_parts :
    l = [] ↔ l.filter own = [] ∧ (l.filter fun r => !own r) = [] := by
  rw [← List.append_eq_nil_iff]
  constructor
  · rintro rfl
    rfl
  · intro h
    exact List.nil_perm.mp (h ▸ List.filter_append_perm own l)

variable {φ own l l'}

/-- **The total is that of the own rows** iff the others add nothing to it. -/
theorem sumOf_eq_own_iff :
    sumOf φ l = sumOf φ (l.filter own) ↔
      (l.filter fun r => !own r) = [] ∨
        l.filter own ≠ [] ∧ ((l.filter fun r => !own r).map φ).sum = 0 := by
  have hsum := sum_own_add_others φ own l
  have hnil := eq_nil_iff_parts own l
  unfold sumOf
  by_cases hothers : (l.filter fun r => !own r) = []
  · simp only [hothers, and_true, List.map_nil, List.sum_nil, add_zero] at hnil hsum
    simp only [hothers, hsum, true_or, iff_true]
    by_cases hown : l.filter own = []
    · rw [if_pos hown, if_pos (hnil.mpr hown)]
    · rw [if_neg hown, if_neg (mt hnil.mp hown)]
  · have hl : l ≠ [] := fun h => hothers (hnil.mp h).2
    by_cases hown : l.filter own = []
    · simp [hl, hown, hothers]
    · simp [hl, hown, hothers, hsum]

/-- **Two lists with the same own rows** have the same total iff both or neither are empty
and the totals of the others agree. -/
theorem sumOf_eq_iff (h : l.filter own = l'.filter own) :
    sumOf φ l = sumOf φ l' ↔
      (l = [] ↔ l' = []) ∧
        ((l.filter fun r => !own r).map φ).sum = ((l'.filter fun r => !own r).map φ).sum := by
  have hsum := sum_own_add_others φ own l
  have hsum' := sum_own_add_others φ own l'
  rw [h] at hsum
  unfold sumOf
  by_cases hl : l = []
  · by_cases hl' : l' = []
    · simp [hl, hl']
    · simp [hl, hl']
  · by_cases hl' : l' = []
    · simp [hl, hl']
    · simp [hl, hl', hsum, hsum']

end Parts

/-! ## Least and greatest -/

section Order

variable [LinearOrder M] {l l' : List M}

instance lawfulOrderMin : Std.LawfulOrderMin M :=
  .of_le_min_iff (fun _ _ _ => le_min_iff) min_choice

/-- **Two lists have the same least element** iff each has one below every element of
the other. -/
theorem min?_eq_iff :
    l.min? = l'.min? ↔ (∀ a ∈ l, ∃ b ∈ l', b ≤ a) ∧ ∀ b ∈ l', ∃ a ∈ l, a ≤ b := by
  constructor
  · intro h
    constructor
    · intro a ha
      obtain ⟨m, hm⟩ := Option.isSome_iff_exists.mp (List.isSome_min?_of_mem ha)
      obtain ⟨-, hle⟩ := List.min?_eq_some_iff.mp hm
      exact ⟨m, List.min?_mem (h ▸ hm), hle a ha⟩
    · intro b hb
      obtain ⟨m, hm⟩ := Option.isSome_iff_exists.mp (List.isSome_min?_of_mem hb)
      obtain ⟨-, hle⟩ := List.min?_eq_some_iff.mp hm
      exact ⟨m, List.min?_mem (h.symm ▸ hm), hle b hb⟩
  · rintro ⟨h, h'⟩
    cases hm : l.min? with
    | none =>
      rw [List.min?_eq_none_iff] at hm
      subst hm
      cases l' with
      | nil => rfl
      | cons b l' =>
        obtain ⟨a, ha, -⟩ := h' b List.mem_cons_self
        cases ha
    | some m =>
      obtain ⟨hmem, hle⟩ := List.min?_eq_some_iff.mp hm
      symm
      apply List.min?_eq_some_iff.mpr
      have hbelow : ∀ b ∈ l', m ≤ b := by
        intro b hb
        obtain ⟨a, ha, hab⟩ := h' b hb
        exact (hle a ha).trans hab
      -- the one below `m` is `m`
      obtain ⟨b, hb, hbm⟩ := h m hmem
      have heq : b = m := le_antisymm hbm (hbelow b hb)
      exact ⟨heq ▸ hb, hbelow⟩

theorem max?_eq_iff :
    l.max? = l'.max? ↔ (∀ a ∈ l, ∃ b ∈ l', a ≤ b) ∧ ∀ b ∈ l', ∃ a ∈ l, b ≤ a :=
  min?_eq_iff (M := OrderDual M)

end Order

end Store
