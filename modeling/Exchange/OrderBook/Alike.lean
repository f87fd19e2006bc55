import Exchange.OrderBook.Handle

/-!
# Orders that match the same orders

What an order leaves behind depends on the tables only through the orders that
it takes: two plans with the same fills write alike, but for the clock, and the
rows that are open after them are the same (`SameOpen.rowAfter`). Where exactly
the inadmissible writes are refused, the same number of writes is made
(`Processed.done_eq`).
-/

namespace Exchange

open Async OrderBookService Store

/-! ## Writes -/

/-- The writes differ at most in the times they set. -/
def Write.Alike : Write → Write → Prop
  | .update id u _, .update id' u' _ =>
      id = id' ∧ u.size = u'.size ∧ u.fills = u'.fills ∧ u.is_filled = u'.is_filled ∧
        (u.is_filled = some true ∨ u.is_filled = none ∧ u.settled_at = u'.settled_at)
  | .trade t _, .trade t' _ => { t with created_at := 0 } = { t' with created_at := 0 }
  | _, _ => False

theorem Write.Alike.admissible_eq {wr wr' : Write} (h : wr.Alike wr') :
    wr.op.admissible = wr'.op.admissible := by
  cases wr with
  | order o now => exact h.elim
  | update id u x =>
    cases wr' with
    | update id' u' x' =>
      simp only [Write.op, Op.admissible, OrderUpdate.admissible, h.2.1]
    | order _ _ => exact h.elim
    | trade _ _ => exact h.elim
  | trade t x =>
    cases wr' with
    | trade t' x' =>
      obtain ⟨⟩ := t
      obtain ⟨⟩ := t'
      simp only [Write.Alike, NewTrade.mk.injEq] at h
      simp [Write.op, Op.admissible, NewTrade.admissible, NewTrade.volume, h]
    | order _ _ => exact h.elim
    | update _ _ _ => exact h.elim

/-- The rows are the same, or both are closed. -/
structure SameOpen (row row' : OrderBook) : Prop where
  id : row.id = row'.id
  filled : row.is_filled = row'.is_filled
  eq : row.is_filled = false → row = row'

theorem SameOpen.refl (row : OrderBook) : SameOpen row row := ⟨rfl, rfl, fun _ => rfl⟩

theorem SameOpen.onRow {wr wr' : Write} {row row' : OrderBook} (h : SameOpen row row')
    (halike : wr.Alike wr') : SameOpen (wr.onRow row) (wr'.onRow row') := by
  cases wr with
  | order o now => exact halike.elim
  | trade t x =>
    cases wr' with
    | trade t' x' => exact h
    | order _ _ => exact halike.elim
    | update _ _ _ => exact halike.elim
  | update id u x =>
    cases wr' with
    | order _ _ => exact halike.elim
    | trade _ _ => exact halike.elim
    | update id' u' x' =>
      obtain ⟨rfl, hsize, hfills, hfilled, hsettled⟩ := halike
      simp only [Write.onRow, ← h.id]
      split
      · refine ⟨h.id, ?_, ?_⟩
        · simp only [OrderUpdate.apply, hfilled, h.filled]
        · rcases hsettled with htrue | ⟨hnone, hsettled⟩
          · simp [OrderUpdate.apply, htrue]
          · intro hopen
            have hrow : row = row' := h.eq (by simpa [OrderUpdate.apply, hnone] using hopen)
            simp only [OrderUpdate.apply, hrow, hsize, hfills, hfilled, hsettled]
      · exact h

theorem SameOpen.rowAfter {ws ws' : List Write} (hws : List.Forall₂ Write.Alike ws ws')
    {row row' : OrderBook} (h : SameOpen row row') :
    SameOpen (rowAfter ws row) (rowAfter ws' row') := by
  induction hws generalizing row row' with
  | nil => exact h
  | cons halike _ ih => exact ih (h.onRow halike)

/-! ## Plans -/

section Plans

variable {m : Matcher} {order r : OrderBook} {L L' : List OrderBook} {ws ws' : List Write} {q : ℚ}

theorem Plan.eq_nil (h : Plan m order L ws) (hfills : Plan.fills m order L = []) : ws = [] := by
  cases h with
  | nil | stop => rfl
  | full L t₁ t₂ t₃ h hs =>
    rw [Plan.fills_full h hs] at hfills
    cases hfills
  | part t₁ t₂ h hs hp =>
    rw [Plan.fills_part h hs] at hfills
    cases hfills

/-- A plan begins with a pass on the first order that it takes. -/
theorem Plan.eq_cons (h : Plan m order L ws) {F : List (OrderBook × ℚ)}
    (hfills : Plan.fills m order L = (r, q) :: F) :
    (Double.fl order.size ≤ Double.fl r.size ∧ ∃ t₁ t₂ t₃, ws = m.fullWrites order r t₁ t₂ t₃) ∨
      Double.fl r.size < Double.fl order.size ∧ ∃ t₁ t₂ L' ws',
        ws = m.partWrites order r t₁ t₂ ++ ws' ∧ Plan m (m.rest order r) L' ws' ∧
        Plan.fills m (m.rest order r) L' = F := by
  cases h with
  | nil => cases hfills
  | stop L h =>
    rw [Plan.fills_stop h] at hfills
    cases hfills
  | full L t₁ t₂ t₃ h hs =>
    rw [Plan.fills_full h hs] at hfills
    cases hfills
    exact .inl ⟨hs, t₁, t₂, t₃, rfl⟩
  | @part _ _ L ws t₁ t₂ h hs hp =>
    rw [Plan.fills_part h hs] at hfills
    cases hfills
    exact .inr ⟨hs, t₁, t₂, L, ws, rfl, hp, rfl⟩

theorem alike_fullWrites (m : Matcher) (order r : OrderBook) (t₁ t₂ t₃ t₁' t₂' t₃' : Nat) :
    List.Forall₂ Write.Alike (m.fullWrites order r t₁ t₂ t₃)
      (m.fullWrites order r t₁' t₂' t₃') := by
  refine .cons ⟨rfl, rfl, rfl, rfl, .inl rfl⟩ (.cons rfl (.cons ?_ .nil))
  by_cases h0 : Double.sub r.size order.size = 0
  · simp only [h0, if_true]
    exact ⟨rfl, rfl, rfl, rfl, .inl rfl⟩
  · simp only [h0, if_false]
    exact ⟨rfl, rfl, rfl, rfl, .inr ⟨rfl, rfl⟩⟩

/-- **Plans that take the same orders** write alike. -/
theorem Plan.alike (h : Plan m order L ws) (h' : Plan m order L' ws')
    (hfills : Plan.fills m order L = Plan.fills m order L') : List.Forall₂ Write.Alike ws ws' := by
  generalize hF : Plan.fills m order L = F at hfills
  symm at hfills
  induction F generalizing order L L' ws ws' with
  | nil =>
    rw [h.eq_nil hF, h'.eq_nil hfills]
    exact .nil
  | cons f F ih =>
    obtain ⟨r, q⟩ := f
    rcases h.eq_cons hF with ⟨hs, t₁, t₂, t₃, rfl⟩ | ⟨hs, t₁, t₂, L₁, ws₁, rfl, h₁, hF₁⟩
    · rcases h'.eq_cons hfills with ⟨-, t₁', t₂', t₃', rfl⟩ | ⟨hs', -⟩
      · exact alike_fullWrites ..
      · exact absurd hs hs'.not_ge
    · rcases h'.eq_cons hfills with ⟨hs', -⟩ | ⟨-, t₁', t₂', L₂, ws₂, rfl, h₂, hF₂⟩
      · exact absurd hs' hs.not_ge
      · -- one pass on `r`, then what the rest of the order takes
        have hrest := ih h₁ h₂ hF₁ hF₂
        exact .cons ⟨rfl, rfl, rfl, rfl, .inl rfl⟩
          (.cons rfl (.cons ⟨rfl, rfl, rfl, rfl, .inr ⟨rfl, rfl⟩⟩ hrest))

end Plans

/-! ## What is made of a plan -/

variable {env : Env} {order : NewOrder} {w w' : World} {r : Except Err Response}
  {ws ws' done : List Write}

theorem Env.Constrained.not_fault (henv : env.Constrained) {a b : Nat} : ¬ env.Fault a b := by
  rintro ⟨n, o, -, -, ho, hf⟩
  rw [henv, Op.admissible_of_reads ho] at hf
  cases hf

/-- Only an inadmissible write stops a run on a symbol with trades. -/
theorem Blame.inadmissible {a b : Nat} {next : Option Write} {raises : Prop}
    (h : Blame env a b next raises) (henv : env.Constrained) (hraises : ¬ raises) :
    ∃ wr, next = some wr ∧ wr.op.admissible = false := by
  rcases h with h | ⟨n, wr, -, -, hnext, hf⟩ | h
  · exact absurd h henv.not_fault
  · rw [henv, Bool.not_eq_true'] at hf
    exact ⟨wr, hnext, hf⟩
  · exact absurd h hraises

/-- Where exactly the inadmissible writes are refused, the writes before the
first inadmissible one are made. -/
theorem Processed.done_eq (h : Processed env order w r w' ws done) (henv : env.Constrained)
    (hT : w.db.HasTrade order.symbol) :
    done = ws.takeWhile fun wr => wr.op.admissible := by
  have hdone := h.done_admissible henv.refuses
  obtain ⟨post, hws⟩ := h.made
  have hpost : post.takeWhile (fun wr => wr.op.admissible) = [] := by
    cases post with
    | nil => rfl
    | cons wr post =>
      have hne : done ≠ ws := by
        intro e
        rw [e] at hws
        simp at hws
      obtain ⟨wr', hnext, hwr'⟩ := (h.reason hne).inadmissible henv fun hraises => hraises.1 hT
      rw [← hws, List.getElem?_append_right (le_refl _), Nat.sub_self] at hnext
      obtain rfl : wr = wr' := Option.some.inj hnext
      rw [List.takeWhile_cons, hwr']
      rfl
  rw [← hws, List.takeWhile_append_of_pos hdone, hpost, List.append_nil]

theorem takeWhile_alike (h : List.Forall₂ Write.Alike ws ws') :
    List.Forall₂ Write.Alike (ws.takeWhile fun wr => wr.op.admissible)
      (ws'.takeWhile fun wr => wr.op.admissible) := by
  induction h with
  | nil => exact .nil
  | @cons wr wr' ws ws' halike _ ih =>
    rw [List.takeWhile_cons, List.takeWhile_cons, halike.admissible_eq]
    split
    · exact .cons halike ih
    · exact .nil

end Exchange
