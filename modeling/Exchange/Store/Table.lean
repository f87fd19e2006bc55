import Mathlib.Algebra.BigOperators.Group.List.Basic
import Mathlib.Data.List.Nodup

/-!
# Tables with a generated primary key

A table is a list of rows whose keys are pairwise different and below the next
key to be generated, so two rows with one key cannot be built. The statements
used by the service are `insert` (generated key), `modify` (by key) and `rewrite`
(by a condition).

Proved here: membership and uniqueness (`mem_modify`, `eq_of_key`), and how a
column total over the rows changes (`sum_insert`, `sum_modify`).
-/

namespace Store

variable {Row : Type} {key : Row → Nat}

structure Table (Row : Type) (key : Row → Nat) where
  rows : List Row
  next : Nat
  nodup : (rows.map key).Nodup
  fresh : ∀ r ∈ rows, key r < next

namespace Table

/-- The table without rows. -/
def empty (key : Row → Nat) : Table Row key := ⟨[], 1, by simp, by simp⟩

/-- Append a row under an unused key. -/
def add (t : Table Row key) (row : Row) (h : key row ∉ t.rows.map key) : Table Row key where
  rows := t.rows ++ [row]
  next := max t.next (key row + 1)
  nodup := by
    simp only [List.map_append, List.map_cons, List.map_nil, List.nodup_append]
    refine ⟨t.nodup, by simp, ?_⟩
    rintro a ha b hb rfl
    exact h (List.mem_singleton.mp hb ▸ ha)
  fresh := by
    intro r hr
    rcases List.mem_append.mp hr with hr | hr
    · have := t.fresh r hr; omega
    · rw [List.mem_singleton.mp hr]; omega

theorem next_not_mem (t : Table Row key) : t.next ∉ t.rows.map key := by
  rintro h
  obtain ⟨r, hr, he⟩ := List.mem_map.mp h
  have := t.fresh r hr
  omega

/-- Append a row under the next key. -/
def insert (t : Table Row key) (row : Row) (h : key row = t.next) : Table Row key :=
  t.add row (h ▸ t.next_not_mem)

/-- Rewrite the row with key `id`, if there is one. -/
def modify (t : Table Row key) (id : Nat) (f : Row → Row) (hf : ∀ r, key (f r) = key r) :
    Table Row key where
  rows := t.rows.map fun r => if key r = id then f r else r
  next := t.next
  nodup := by
    have : key ∘ (fun r => if key r = id then f r else r) = key := by
      funext r; simp only [Function.comp]; split <;> simp [hf]
    rw [List.map_map, this]
    exact t.nodup
  fresh := by
    intro r hr
    obtain ⟨r₀, h₀, rfl⟩ := List.mem_map.mp hr
    have := t.fresh r₀ h₀
    split <;> simpa [hf] using this

/-- Rewrite the rows that are selected. -/
def rewrite (t : Table Row key) (selects : Row → Bool) (f : Row → Row)
    (hf : ∀ r, key (f r) = key r) : Table Row key where
  rows := t.rows.map fun r => if selects r then f r else r
  next := t.next
  nodup := by
    have hkeys : key ∘ (fun r => if selects r then f r else r) = key := by
      funext r
      simp only [Function.comp]
      split <;> simp [hf]
    rw [List.map_map, hkeys]
    exact t.nodup
  fresh := by
    intro r hr
    obtain ⟨r₀, h₀, rfl⟩ := List.mem_map.mp hr
    have := t.fresh r₀ h₀
    split <;> simpa [hf] using this

variable {t : Table Row key}

theorem eq_of_key {r r' : Row} (h : r ∈ t.rows) (h' : r' ∈ t.rows) (hk : key r = key r') :
    r = r' :=
  List.inj_on_of_nodup_map t.nodup h h' hk

/-- The search for a key finds its row, if the row is selected. -/
theorem find?_key {r : Row} (h : r ∈ t.rows) (selects : Row → Bool) :
    t.rows.find? (fun x => key x = key r && selects x) = if selects r then some r else none := by
  split
  · next hr =>
    obtain ⟨x, hx⟩ : ∃ x, t.rows.find? (fun x => key x = key r && selects x) = some x := by
      rw [← Option.isSome_iff_exists, List.find?_isSome]
      exact ⟨r, h, by simp [hr]⟩
    have hfound := List.find?_some hx
    simp only [Bool.and_eq_true, decide_eq_true_eq] at hfound
    rw [hx, eq_of_key (List.mem_of_find?_eq_some hx) h hfound.1]
  · next hr =>
    rw [List.find?_eq_none]
    intro x hx hfound
    simp only [Bool.and_eq_true, decide_eq_true_eq] at hfound
    rw [eq_of_key hx h hfound.1] at hfound
    exact hr hfound.2

@[simp] theorem insert_rows (row : Row) (h : key row = t.next) :
    (t.insert row h).rows = t.rows ++ [row] := rfl

theorem mem_modify {id : Nat} {f : Row → Row} {hf : ∀ r, key (f r) = key r} {r' : Row} :
    r' ∈ (t.modify id f hf).rows ↔ ∃ r ∈ t.rows, r' = if key r = id then f r else r := by
  simp only [modify, List.mem_map, eq_comm]

theorem mem_modify_of_ne {id : Nat} {f : Row → Row} {hf : ∀ r, key (f r) = key r} {r : Row}
    (h : r ∈ t.rows) (hne : key r ≠ id) : r ∈ (t.modify id f hf).rows :=
  mem_modify.mpr ⟨r, h, by rw [if_neg hne]⟩

theorem mem_modify_self {id : Nat} {f : Row → Row} {hf : ∀ r, key (f r) = key r} {r : Row}
    (h : r ∈ t.rows) (he : key r = id) : f r ∈ (t.modify id f hf).rows :=
  mem_modify.mpr ⟨r, h, by rw [if_pos he]⟩

/-! ## Column totals -/

variable {M : Type} [AddCommMonoid M] (φ : Row → M)

theorem sum_insert (row : Row) (h : key row = t.next) :
    ((t.insert row h).rows.map φ).sum = (t.rows.map φ).sum + φ row := by
  simp

theorem sum_map_ite_key {l : List Row} (hnd : (l.map key).Nodup) {r : Row} (hr : r ∈ l)
    (f : Row → Row) :
    ((l.map fun x => if key x = key r then f x else x).map φ).sum + φ r =
      (l.map φ).sum + φ (f r) := by
  induction l with
  | nil => simp at hr
  | cons x l ih =>
    simp only [List.map_cons, List.nodup_cons, List.mem_map] at hnd
    simp only [List.map_cons, List.sum_cons]
    rcases List.mem_cons.mp hr with rfl | hr
    · have hrest : (l.map fun x => if key x = key r then f x else x) = l := by
        conv_rhs => rw [← List.map_id l]
        apply List.map_congr_left
        intro y hy
        have hne : key y ≠ key r := fun e => hnd.1 ⟨y, hy, e⟩
        simp [hne]
      rw [hrest, if_pos rfl, add_assoc, add_comm, add_assoc, add_comm (φ r)]
      simp only [add_assoc, add_comm, add_left_comm]
    · have hne : key x ≠ key r := fun e => hnd.1 ⟨r, hr, e.symm⟩
      rw [if_neg hne, add_assoc, ih hnd.2 hr, add_assoc]

/-- Rewriting one row moves a column total by that row's change. -/
theorem sum_modify {r : Row} (hr : r ∈ t.rows) (f : Row → Row)
    (hf : ∀ r, key (f r) = key r) :
    ((t.modify (key r) f hf).rows.map φ).sum + φ r = (t.rows.map φ).sum + φ (f r) :=
  sum_map_ite_key φ t.nodup hr f

end Table

end Store
