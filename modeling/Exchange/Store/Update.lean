import Exchange.Store.Table

/-!
# `UPDATE` with a condition

The statement rewrites every row that its condition selects, and is refused as
a whole when one of them cannot be written.

Proved here: membership (`mem_update`), what every row keeps (`forall_update`),
and how a column total changes (`sum_update`).
-/

namespace Store.Table

variable {Row : Type} {key : Row → Nat}

/-- The row after the statement. -/
def rewritten (selects : Row → Bool) (f : Row → Option Row) (r : Row) : Row :=
  if selects r then (f r).getD r else r

theorem key_rewritten {selects : Row → Bool} {f : Row → Option Row}
    (hf : ∀ r r', f r = some r' → key r' = key r) (r : Row) :
    key (rewritten selects f r) = key r := by
  unfold rewritten
  split
  · cases h : f r with
    | none => rfl
    | some r' => exact hf r r' h
  · rfl

/-- Rewrite the selected rows by `f`, unless `f` refuses one of them. -/
def update (t : Table Row key) (selects : Row → Bool) (f : Row → Option Row)
    (hf : ∀ r r', f r = some r' → key r' = key r) : Option (Table Row key) :=
  if ∀ r ∈ t.rows, selects r = true → (f r).isSome = true then
    some {
      rows := t.rows.map (rewritten selects f)
      next := t.next
      nodup := by
        have hkeys : key ∘ rewritten selects f = key := funext (key_rewritten hf)
        rw [List.map_map, hkeys]
        exact t.nodup
      fresh := by
        intro r hr
        obtain ⟨r₀, h₀, rfl⟩ := List.mem_map.mp hr
        rw [key_rewritten hf]
        exact t.fresh r₀ h₀ }
  else none

section Update

variable {t t' : Table Row key} {selects : Row → Bool} {f : Row → Option Row}
  {hf : ∀ r r', f r = some r' → key r' = key r}

theorem rows_update (h : t.update selects f hf = some t') :
    t'.rows = t.rows.map (rewritten selects f) := by
  unfold update at h
  split at h
  · cases h
    rfl
  · cases h

theorem accepts_of_update (h : t.update selects f hf = some t') :
    ∀ r ∈ t.rows, selects r = true → ∃ r', f r = some r' := by
  unfold update at h
  split at h
  · rename_i hall
    exact fun r hr hs => Option.isSome_iff_exists.mp (hall r hr hs)
  · cases h

theorem mem_update (h : t.update selects f hf = some t') {r' : Row} :
    r' ∈ t'.rows ↔ ∃ r ∈ t.rows, rewritten selects f r = r' := by
  rw [rows_update h, List.mem_map]

/-- A selected row becomes what `f` says. -/
theorem mem_update_selected (h : t.update selects f hf = some t') {r r' : Row} (hr : r ∈ t.rows)
    (hs : selects r = true) (hr' : f r = some r') : r' ∈ t'.rows := by
  apply (mem_update h).mpr
  exact ⟨r, hr, by rw [rewritten, if_pos hs, hr']; rfl⟩

/-- What every row has, and `f` keeps on the selected rows, every row has after. -/
theorem forall_update (h : t.update selects f hf = some t') {P : Row → Prop}
    (hP : ∀ r ∈ t.rows, P r)
    (hkeep : ∀ r ∈ t.rows, selects r = true → ∀ r', f r = some r' → P r') :
    ∀ r ∈ t'.rows, P r := by
  intro r' hr'
  obtain ⟨r, hr, rfl⟩ := (mem_update h).mp hr'
  unfold rewritten
  split
  · rename_i hs
    obtain ⟨r₁, h₁⟩ := accepts_of_update h r hr hs
    rw [h₁]
    exact hkeep r hr hs r₁ h₁
  · exact hP r hr

variable {M : Type} [AddCommMonoid M] (φ : Row → M)

private theorem sum_map_rewritten {l : List Row} {d : M}
    (hd : ∀ r ∈ l, selects r = true → φ (rewritten selects f r) = φ r + d) :
    ((l.map (rewritten selects f)).map φ).sum = (l.map φ).sum + l.countP selects • d := by
  induction l with
  | nil => simp
  | cons r l ih =>
    have hrest := ih fun r hr => hd r (List.mem_cons_of_mem _ hr)
    simp only [List.map_cons, List.sum_cons, List.countP_cons, hrest]
    by_cases hs : selects r = true
    · rw [hd r List.mem_cons_self hs, if_pos hs, add_nsmul, one_nsmul]
      ac_rfl
    · have hr : rewritten selects f r = r := if_neg hs
      rw [hr, if_neg hs, Nat.add_zero, add_assoc]

/-- When each selected row adds `d`, the total adds `d` once for each of them. -/
theorem sum_update (h : t.update selects f hf = some t') {d : M}
    (hd : ∀ r ∈ t.rows, selects r = true → ∀ r', f r = some r' → φ r' = φ r + d) :
    (t'.rows.map φ).sum = (t.rows.map φ).sum + t.rows.countP selects • d := by
  rw [rows_update h]
  apply sum_map_rewritten
  intro r hr hs
  obtain ⟨r', hr'⟩ := accepts_of_update h r hr hs
  rw [rewritten, if_pos hs, hr']
  exact hd r hr hs r' hr'

end Update

end Store.Table
