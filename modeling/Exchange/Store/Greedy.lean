import Mathlib.Algebra.Order.BigOperators.Group.List
import Mathlib.Algebra.Order.Group.Basic
import Mathlib.Algebra.Order.Monoid.Unbundled.MinMax
import Mathlib.Tactic.Abel

/-!
# Greedy filling

A demand `s` is taken from a list of supplies in order, from each as much as it
has, until the demand is met, the list ends, or a supply that stops the walk
comes up. `fills` lists what is taken from whom, and `closer` is the supply that
meets the rest of the demand. How a demand is compared with a supply and what is
left of it is a parameter (`Arith`); `walk` takes the smaller of demand and supply,
in a group.

Proved here: supplies are taken without gaps (`fills_prefix`, `walk_prefix`), two
stops that are seen alike take alike (`closer_of_sameStops`), a walk takes a demand
that the supplies cover (`walk_covered`), and a demand may be taken in two slices
(`amount_walk_add`).
-/

namespace Greedy

variable {α M : Type}

/-- How sizes are compared and subtracted. -/
structure Arith (M : Type) where
  meets : M → M → Bool
  less : M → M → M

section Walk

variable (arith : Arith M) (stop : α → Bool) (size : α → M)

def fills : M → List α → List (α × M)
  | _, [] => []
  | s, r :: L =>
      if stop r then []
      else if arith.meets s (size r) then [(r, s)]
      else (r, size r) :: fills (arith.less s (size r)) L

/-- The supplies reached, each after the demand that reaches it. -/
def passes : M → List α → List (M × α)
  | _, [] => []
  | s, r :: L =>
      if stop r then []
      else if arith.meets s (size r) then [(s, r)]
      else (s, r) :: passes (arith.less s (size r)) L

/-- The demand is met. -/
def covered : M → List α → Bool
  | _, [] => false
  | s, r :: L => !stop r && (arith.meets s (size r) || covered (arith.less s (size r)) L)

/-- The supply that meets the rest of the demand. -/
def closer : M → List α → Option α
  | _, [] => none
  | s, r :: L =>
      if stop r then none
      else if arith.meets s (size r) then some r
      else closer (arith.less s (size r)) L

/-- Along the walk two stops say the same. -/
def sameStops (stop' : α → Bool) : M → List α → Bool
  | _, [] => true
  | s, r :: L =>
      stop r = stop' r &&
        (stop r || arith.meets s (size r) || sameStops stop' (arith.less s (size r)) L)

/-- The supplies before the stop. -/
def reach (L : List α) : List α := L.takeWhile fun r => !stop r

variable {arith stop size}

theorem fills_map {β : Type} (f : β → α) (s : M) (L : List β) :
    fills arith stop size s (L.map f) =
      (fills arith (fun x => stop (f x)) (fun x => size (f x)) s L).map fun p => (f p.1, p.2) := by
  induction L generalizing s with
  | nil => rfl
  | cons r L ih =>
    simp only [List.map_cons, fills, ih]
    split
    · rfl
    · split
      · rfl
      · rfl

theorem closer_map {β : Type} (f : β → α) (s : M) (L : List β) :
    closer arith stop size s (L.map f) =
      (closer arith (fun x => stop (f x)) (fun x => size (f x)) s L).map f := by
  induction L generalizing s with
  | nil => rfl
  | cons r L ih =>
    simp only [List.map_cons, closer, ih]
    split
    · rfl
    · split
      · rfl
      · rfl

/-- Supplies are taken in order, without gaps. -/
theorem fills_prefix (s : M) (L : List α) : (fills arith stop size s L).map Prod.fst <+: L := by
  induction L generalizing s with
  | nil => exact List.prefix_refl _
  | cons r L ih =>
    unfold fills
    split
    · exact List.nil_prefix
    · split
      · simp
      · simpa using ih (arith.less s (size r))

/-- A stop that is seen costs a supply. -/
theorem go_of_length_le {stop' : α → Bool} (hgo : ∀ r, stop r = false) {s : M} {L : List α}
    (h : (fills arith stop size s L).length ≤ (fills arith stop' size s L).length) :
    ∀ f ∈ fills arith stop size s L, stop' f.1 = false := by
  induction L generalizing s with
  | nil => simp [fills]
  | cons r L ih =>
    unfold fills at h ⊢
    rw [hgo r] at h ⊢
    cases hr : stop' r with
    | true =>
      exfalso
      revert h
      simp only [hr, Bool.false_eq_true, if_false, if_true]
      split <;> simp
    | false =>
      simp only [hr, Bool.false_eq_true, if_false] at h ⊢
      split at h
      · next hmeets => simp [hmeets, hr]
      · next hmeets =>
        rw [if_neg hmeets, List.forall_mem_cons]
        exact ⟨hr, ih (by simpa using h)⟩

/-- A stop that one walk sees and the other does not costs a supply. -/
theorem sameStops_of_length {stop' : α → Bool} {s : M} {L : List α}
    (h : (fills arith stop size s L).length = (fills arith stop' size s L).length) :
    sameStops arith stop size stop' s L = true := by
  induction L generalizing s with
  | nil => rfl
  | cons r L ih =>
    unfold fills at h
    unfold sameStops
    cases hr : stop r <;> cases hr' : stop' r
    · simp only [hr, hr', Bool.false_eq_true, if_false] at h
      split at h
      · next hmeets => simp [hmeets]
      · next hmeets => simp [hmeets, ih (by simpa using h)]
    · simp only [hr, hr', Bool.false_eq_true, if_false, if_true, List.length_nil] at h
      split at h <;> cases h
    · simp only [hr, hr', Bool.false_eq_true, if_false, if_true, List.length_nil] at h
      split at h <;> cases h
    · rfl

theorem closer_of_sameStops {stop' : α → Bool} {s : M} {L : List α}
    (h : sameStops arith stop size stop' s L = true) :
    closer arith stop' size s L = closer arith stop size s L := by
  induction L generalizing s with
  | nil => rfl
  | cons r L ih =>
    unfold sameStops at h
    unfold closer
    simp only [Bool.and_eq_true, decide_eq_true_eq, Bool.or_eq_true] at h
    obtain ⟨hsame, hrest⟩ := h
    rw [← hsame]
    cases hr : stop r with
    | true => rfl
    | false =>
      cases hmeets : arith.meets s (size r) with
      | true => rfl
      | false =>
        simp only [hr, hmeets, Bool.false_eq_true, false_or] at hrest
        simpa using ih hrest

end Walk

/-! ## Exact arithmetic -/

variable [AddCommGroup M] [LinearOrder M]

variable {stop : α → Bool} {size : α → M} {s : M} {L : List α}

/-- While there is a demand, the smaller of demand and supply. -/
def walk (stop : α → Bool) (size : α → M) : M → List α → List (α × M)
  | _, [] => []
  | s, r :: L =>
      if 0 < s ∧ stop r = false then
        (r, min s (size r)) :: walk stop size (s - min s (size r)) L
      else []

theorem walk_zero (L : List α) : walk stop size 0 L = [] := by
  cases L with
  | nil => rfl
  | cons r L => simp [walk]

/-! ## A demand in two slices -/

/-- What is taken from the supplies that satisfy `p`. -/
def amount (p : α → Bool) (F : List (α × M)) : M := ((F.filter fun f => p f.1).map Prod.snd).sum

omit [LinearOrder M] in
theorem amount_nil (p : α → Bool) : amount p ([] : List (α × M)) = 0 := rfl

omit [LinearOrder M] in
theorem amount_cons (p : α → Bool) (f : α × M) (F : List (α × M)) :
    amount p (f :: F) = (if p f.1 then f.2 else 0) + amount p F := by
  unfold amount
  cases h : p f.1 <;> simp [h]

theorem mem_of_walk {f : α × M} (h : f ∈ walk stop size s L) : f.1 ∈ L := by
  induction L generalizing s with
  | nil => cases h
  | cons r L ih =>
    unfold walk at h
    split at h
    · rcases List.mem_cons.mp h with rfl | h
      · exact List.mem_cons_self
      · exact List.mem_cons_of_mem _ (ih h)
    · cases h

/-- Along a walk, too, supplies are taken in order, without gaps. -/
theorem walk_prefix (s : M) (L : List α) : (walk stop size s L).map Prod.fst <+: L := by
  induction L generalizing s with
  | nil => exact List.prefix_refl _
  | cons r L ih =>
    unfold walk
    split
    · simpa using ih (s - min s (size r))
    · exact List.nil_prefix

/-- No supply is taken from twice. -/
theorem walk_nodup {κ : Type} {key : α → κ} (h : (L.map key).Nodup) :
    ((walk stop size s L).map fun f => key f.1).Nodup := by
  have hwalk : (walk stop size s L).map Prod.fst <+: L := walk_prefix s L
  have hprefix := hwalk.map key
  rw [List.map_map] at hprefix
  exact hprefix.sublist.nodup h

/-- No supply gives more than it has. -/
theorem walk_le {f : α × M} (h : f ∈ walk stop size s L) : f.2 ≤ size f.1 := by
  induction L generalizing s with
  | nil => cases h
  | cons r L ih =>
    unfold walk at h
    split at h
    · rcases List.mem_cons.mp h with rfl | h
      · exact min_le_right _ _
      · exact ih h
    · cases h

theorem amount_eq_zero {p : α → Bool} (h : ∀ r ∈ L, p r = false) :
    amount p (walk stop size s L) = 0 := by
  unfold amount
  rw [List.filter_eq_nil_iff.mpr]
  · rfl
  · intro f hf
    simp [h f.1 (mem_of_walk hf)]

theorem amount_walk_stop {p : α → Bool} {r : α} (h : stop r = true) :
    amount p (walk stop size s (r :: L)) = 0 := by
  simp [walk, h, amount_nil]

theorem amount_walk_cons {p : α → Bool} {r : α} (hs : 0 ≤ s) (hr : 0 ≤ size r)
    (h : stop r = false) :
    amount p (walk stop size s (r :: L)) =
      (if p r then min s (size r) else 0) +
        amount p (walk stop size (s - min s (size r)) L) := by
  rcases hs.eq_or_lt with rfl | hpos
  · simp [walk_zero, amount_nil, min_eq_left hr]
  · simp [walk, hpos, h, amount_cons]

section Slices

variable [IsOrderedAddMonoid M] {a b x : M}

/-- No more is taken than is demanded. -/
theorem amount_le {p : α → Bool} (hs : 0 ≤ s) (hL : ∀ r ∈ L, 0 < size r) :
    0 ≤ amount p (walk stop size s L) ∧ amount p (walk stop size s L) ≤ s := by
  induction L generalizing s with
  | nil => exact ⟨le_refl _, hs⟩
  | cons r L ih =>
    rw [List.forall_mem_cons] at hL
    cases hstop : stop r with
    | true =>
      rw [amount_walk_stop hstop]
      exact ⟨le_refl _, hs⟩
    | false =>
      rw [amount_walk_cons hs hL.1.le hstop]
      have hmin : 0 ≤ min s (size r) := le_min hs hL.1.le
      obtain ⟨h0, hle⟩ := ih (sub_nonneg.mpr (min_le_left s (size r))) hL.2
      split
      · exact ⟨add_nonneg hmin h0, by simpa using add_le_add_right hle (min s (size r))⟩
      · rw [zero_add]
        exact ⟨h0, hle.trans (sub_le_self _ hmin)⟩

/-- A demand that is covered is met. -/
theorem walk_covered (hs : 0 ≤ s) (hL : ∀ r ∈ L, 0 < size r) (hgo : ∀ r ∈ L, stop r = false)
    (h : s ≤ (L.map size).sum) : ((walk stop size s L).map Prod.snd).sum = s := by
  induction L generalizing s with
  | nil => exact (le_antisymm h hs).symm
  | cons r L ih =>
    rw [List.forall_mem_cons] at hL hgo
    rcases hs.eq_or_lt with rfl | hpos
    · rw [walk_zero]
      rfl
    · rw [List.map_cons, List.sum_cons] at h
      have hrest : s - min s (size r) ≤ (L.map size).sum := by
        rcases le_total s (size r) with hle | hle
        · rw [min_eq_left hle, sub_self]
          apply List.sum_nonneg
          intro q hq
          obtain ⟨x, hx, rfl⟩ := List.mem_map.mp hq
          exact (hL.2 x hx).le
        · rw [min_eq_right hle]
          exact sub_le_iff_le_add'.mpr h
      rw [walk, if_pos ⟨hpos, hgo.1⟩, List.map_cons, List.sum_cons,
        ih (sub_nonneg.mpr (min_le_left _ _)) hL.2 hgo.2 hrest, add_sub_cancel]

/-- Two demands take from one supply what their sum takes. -/
theorem min_add_eq (hb : 0 ≤ b) : min (a + b) x = min a x + min b (x - min a x) := by
  rcases le_total a x with h | h
  · rw [min_eq_left h, ← min_add_add_left, add_sub_cancel]
  · rw [min_eq_right h, sub_self, min_eq_right hb, add_zero]
    exact min_eq_right (h.trans (le_add_of_nonneg_right hb))

/-- **A demand may be sliced**: the first slice is taken from the list, the second from what
it leaves (`rest`), without the supplies that are used up. -/
theorem amount_walk_add {κ : Type} [DecidableEq κ] {key : α → κ} {rest : α → α}
    (ha : 0 ≤ a) (hb : 0 ≤ b) (hL : ∀ r ∈ L, 0 < size r) (hnd : (L.map key).Nodup)
    (hstop : ∀ r ∈ L, stop (rest r) = stop r)
    (hsize : ∀ r ∈ L, size (rest r) =
      size r - amount (fun x => key x = key r) (walk stop size a L))
    {p : α → Bool} (hp : ∀ r ∈ L, p (rest r) = p r) :
    amount p (walk stop size (a + b) L) = amount p (walk stop size a L) +
      amount p (walk stop size b ((L.map rest).filter fun r => size r ≠ 0)) := by
  induction L generalizing a b with
  | nil => simp [walk, amount_nil]
  | cons r L ih =>
    have hr := hsize r List.mem_cons_self
    rw [List.forall_mem_cons] at hL hstop hp
    rw [List.map_cons, List.nodup_cons] at hnd
    cases hgo : stop r with
    | true =>
      rw [amount_walk_stop hgo, sub_zero] at hr
      have hkept : decide (size (rest r) ≠ 0) = true := by
        rw [hr]
        exact decide_eq_true hL.1.ne'
      rw [List.map_cons, List.filter_cons, if_pos hkept, amount_walk_stop hgo,
        amount_walk_stop hgo, amount_walk_stop (hstop.1.trans hgo), add_zero]
    | false =>
      have hother : amount (fun x => key x = key r)
          (walk stop size (a - min a (size r)) L) = 0 := by
        apply amount_eq_zero
        intro x hx
        exact decide_eq_false fun he => hnd.1 (he ▸ List.mem_map_of_mem hx)
      rw [amount_walk_cons ha hL.1.le hgo, hother, if_pos (by simp), add_zero] at hr
      have hleft : 0 ≤ size (rest r) := by
        rw [hr]
        exact sub_nonneg.mpr (min_le_right _ _)
      -- the second slice takes from what the first leaves of `r`, if anything
      have hsecond : amount p (walk stop size b
            (((r :: L).map rest).filter fun r => size r ≠ 0)) =
          (if p r then min b (size r - min a (size r)) else 0) +
            amount p (walk stop size (b - min b (size r - min a (size r)))
              ((L.map rest).filter fun r => size r ≠ 0)) := by
        rw [List.map_cons, List.filter_cons]
        by_cases h0 : size (rest r) = 0
        · rw [if_neg (by simp [h0]), ← hr, h0, min_eq_right hb, sub_zero, ite_self, zero_add]
        · rw [if_pos (by simp [h0]), amount_walk_cons hb hleft (hstop.1.trans hgo), hp.1, hr]
      have hrest := ih (a := a - min a (size r)) (b := b - min b (size r - min a (size r)))
        (sub_nonneg.mpr (min_le_left _ _)) (sub_nonneg.mpr (min_le_left _ _)) hL.2 hnd.2 hstop.2
        (by
          intro x hx
          have hne : key r ≠ key x := fun he => hnd.1 (he ▸ List.mem_map_of_mem hx)
          rw [hsize x (List.mem_cons_of_mem _ hx), amount_walk_cons ha hL.1.le hgo,
            if_neg (by simp [hne]), zero_add]) hp.2
      have hdemand : a + b - min (a + b) (size r) =
          a - min a (size r) + (b - min b (size r - min a (size r))) := by
        rw [min_add_eq hb]
        abel
      rw [hsecond, amount_walk_cons (add_nonneg ha hb) hL.1.le hgo,
        amount_walk_cons ha hL.1.le hgo, hdemand, hrest, min_add_eq hb]
      split
      · abel
      · abel

end Slices

end Greedy
