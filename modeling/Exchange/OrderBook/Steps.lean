import Exchange.OrderBook.Sizes

/-!
# A match step by step

What a matcher makes of a snapshot, in doubles and rounded to the columns (`outcome`),
beside what a greedy walk makes of it in exact numbers (`exactOutcome`).

`outcome_eq_iff`: the two are the same iff at every step the comparisons of the match say
what the numbers say and what is written is the number rounded (`sameSteps`).
`Plan.walked_iff`: these are the plans that write what the walk takes.
-/

namespace Exchange

open OrderBookService Store

/-! ## Outcomes -/

/-- What becomes of a resting order that is reached: the size of its trade, and the size and
the state of its row. -/
structure Outcome where
  order : OrderBook
  traded : ℚ
  size : ℚ
  is_filled : Bool
  deriving DecidableEq

/-- What a match of `s` makes of the orders it reaches and of its own row. -/
def outcome (halts : OrderBook → Bool) : ℚ → List OrderBook → List Outcome × ℚ × Bool
  | s, [] => ([], roundTo 8 s, false)
  | s, r :: L =>
      if halts r then ([], roundTo 8 s, false)
      else if Double.fl s ≤ Double.fl r.size then
        ([⟨r, roundTo 8 s, roundTo 8 (Double.sub r.size s), Double.sub r.size s = 0⟩], 0, true)
      else
        let rest := outcome halts (Double.sub s r.size) L
        (⟨r, r.size, 0, true⟩ :: rest.1, rest.2)

/-- What it would make of them in exact numbers, up to the first order that `stop` selects. -/
def exactOutcome (stop : OrderBook → Bool) : ℚ → List OrderBook → List Outcome × ℚ × Bool
  | s, [] => ([], s, s = 0)
  | s, r :: L =>
      if 0 < s ∧ stop r = false then
        let taken := min s r.size
        let rest := exactOutcome stop (s - taken) L
        (⟨r, taken, r.size - taken, r.size - taken = 0⟩ :: rest.1, rest.2)
      else ([], s, s = 0)

/-- With `s` left, which is held as `s'`, the match takes the steps of the exact walk: it stops
where that stops, compares the sizes as they are, and what it writes rounds to the numbers. -/
def sameSteps (halts stop : OrderBook → Bool) : ℚ → ℚ → List OrderBook → Bool
  | s, s', [] => roundTo 8 s' = s
  | s, s', r :: L =>
      halts r = stop r &&
        if stop r then roundTo 8 s' = s
        else if s ≤ r.size then
          Double.fl s' ≤ Double.fl r.size && roundTo 8 s' = s &&
            roundTo 8 (Double.sub r.size s') = r.size - s &&
            (Double.sub r.size s' = 0 ↔ s = r.size)
        else
          Double.fl r.size < Double.fl s' &&
            sameSteps halts stop (s - r.size) (Double.sub s' r.size) L

section Outcomes

variable {halts stop : OrderBook → Bool} {s s' : ℚ} {r : OrderBook} {L : List OrderBook}

theorem exactOutcome_zero : exactOutcome stop 0 L = ([], 0, true) := by
  cases L <;> simp [exactOutcome]

theorem exactOutcome_stop (hs : 0 < s) (h : stop r = true) :
    exactOutcome stop s (r :: L) = ([], s, false) := by
  simp [exactOutcome, h, hs.ne']

theorem exactOutcome_go (hs : 0 < s) (h : stop r = false) :
    exactOutcome stop s (r :: L) =
      (⟨r, min s r.size, r.size - min s r.size, r.size - min s r.size = 0⟩ ::
        (exactOutcome stop (s - min s r.size) L).1,
        (exactOutcome stop (s - min s r.size) L).2) := by
  simp [exactOutcome, h, hs]

theorem outcome_stop (h : halts r = true) :
    outcome halts s (r :: L) = ([], roundTo 8 s, false) := by
  simp [outcome, h]

theorem outcome_full (h : halts r = false) (hmeets : Double.fl s ≤ Double.fl r.size) :
    outcome halts s (r :: L) = ([⟨r, roundTo 8 s, roundTo 8 (Double.sub r.size s),
      Double.sub r.size s = 0⟩], 0, true) := by
  simp [outcome, h, hmeets]

theorem outcome_part (h : halts r = false) (hmeets : Double.fl r.size < Double.fl s) :
    outcome halts s (r :: L) = (⟨r, r.size, 0, true⟩ :: (outcome halts (Double.sub s r.size) L).1,
      (outcome halts (Double.sub s r.size) L).2) := by
  simp [outcome, h, hmeets.not_ge]

theorem exactOutcome_untouched (hs : 0 < s) (h : (exactOutcome stop s L).1 = []) :
    (exactOutcome stop s L).2 = (s, false) := by
  cases L with
  | nil => simp [exactOutcome, hs.ne']
  | cons r L =>
    cases hr : stop r with
    | true => rw [exactOutcome_stop hs hr]
    | false => simp [exactOutcome_go hs hr] at h

theorem outcome_untouched (h : (outcome halts s L).1 = []) :
    (outcome halts s L).2 = (roundTo 8 s, false) := by
  cases L with
  | nil => rfl
  | cons r L =>
    cases hr : halts r with
    | true => rw [outcome_stop hr]
    | false =>
      rcases le_or_gt (Double.fl s) (Double.fl r.size) with hmeets | hmeets
      · simp [outcome_full hr hmeets] at h
      · simp [outcome_part hr hmeets] at h

/-- Where the match fills its order, the exact walk does too, or goes on. -/
theorem outcome_full_iff (hs : 0 < s) (hstop : stop r = false) (hhalts : halts r = false)
    (hmeets : Double.fl s' ≤ Double.fl r.size) :
    outcome halts s' (r :: L) = exactOutcome stop s (r :: L) ↔
      sameSteps halts stop s s' (r :: L) = true := by
  rw [outcome_full hhalts hmeets, exactOutcome_go hs hstop]
  rcases le_or_gt s r.size with hle | hlt
  · rw [min_eq_left hle, sub_self, exactOutcome_zero]
    simp [sameSteps, hhalts, hstop, hle, hmeets, and_assoc, sub_eq_zero, eq_comm (a := s)]
  · refine iff_of_false ?_ (by simp [sameSteps, hhalts, hstop, hlt.not_ge, hmeets.not_gt])
    rw [min_eq_right hlt.le]
    intro h
    obtain ⟨hreached, hown⟩ := Prod.mk.inj h
    rw [exactOutcome_untouched (sub_pos.mpr hlt) (List.cons.inj hreached).2.symm] at hown
    cases (Prod.mk.inj hown).2

/-- Where the match goes on, the exact walk does too, or has filled the order. -/
theorem outcome_part_iff (hs : 0 < s) (hstop : stop r = false) (hhalts : halts r = false)
    (hmeets : Double.fl r.size < Double.fl s')
    (hrest : r.size < s →
      (outcome halts (Double.sub s' r.size) L = exactOutcome stop (s - r.size) L ↔
        sameSteps halts stop (s - r.size) (Double.sub s' r.size) L = true)) :
    outcome halts s' (r :: L) = exactOutcome stop s (r :: L) ↔
      sameSteps halts stop s s' (r :: L) = true := by
  rw [outcome_part hhalts hmeets, exactOutcome_go hs hstop]
  rcases le_or_gt s r.size with hle | hlt
  · refine iff_of_false ?_ (by simp [sameSteps, hhalts, hstop, hle, hmeets.not_ge])
    rw [min_eq_left hle, sub_self, exactOutcome_zero]
    intro h
    obtain ⟨hreached, hown⟩ := Prod.mk.inj h
    rw [outcome_untouched (List.cons.inj hreached).2] at hown
    cases (Prod.mk.inj hown).2
  · have hsteps : sameSteps halts stop s s' (r :: L) =
        sameSteps halts stop (s - r.size) (Double.sub s' r.size) L := by
      simp [sameSteps, hhalts, hstop, hlt.not_ge, hmeets]
    rw [hsteps, ← hrest hlt, min_eq_right hlt.le]
    simp [Prod.ext_iff]

/-- **The outcomes are the same iff the steps are.** -/
theorem outcome_eq_iff (hs : 0 < s) (hL : ∀ r ∈ L, 0 < r.size) :
    outcome halts s' L = exactOutcome stop s L ↔ sameSteps halts stop s s' L = true := by
  induction L generalizing s s' with
  | nil => simp [outcome, exactOutcome, sameSteps, hs.ne']
  | cons r L ih =>
    rw [List.forall_mem_cons] at hL
    cases hstop : stop r with
    | true =>
      rw [exactOutcome_stop hs hstop]
      cases hhalts : halts r with
      | true => simp [outcome_stop hhalts, sameSteps, hhalts, hstop]
      | false =>
        refine iff_of_false ?_ (by simp [sameSteps, hhalts, hstop])
        rcases le_or_gt (Double.fl s') (Double.fl r.size) with hmeets | hmeets
        · simp [outcome_full hhalts hmeets]
        · simp [outcome_part hhalts hmeets]
    | false =>
      cases hhalts : halts r with
      | true => simp [outcome_stop hhalts, exactOutcome_go hs hstop, sameSteps, hhalts, hstop]
      | false =>
        rcases le_or_gt (Double.fl s') (Double.fl r.size) with hmeets | hmeets
        · exact outcome_full_iff hs hstop hhalts hmeets
        · exact outcome_part_iff hs hstop hhalts hmeets fun hlt => ih (sub_pos.mpr hlt) hL.2

/-! ## The exact walk -/

theorem exactOutcome_traded : (exactOutcome stop s L).1.map (fun o => (o.order, o.traded)) =
    Greedy.walk stop OrderBook.size s L := by
  induction L generalizing s with
  | nil => rfl
  | cons r L ih =>
    unfold exactOutcome Greedy.walk
    split
    · rw [List.map_cons, ih]
    · rfl

theorem exactOutcome_rows : ∀ o ∈ (exactOutcome stop s L).1,
    o.size = o.order.size - o.traded ∧ o.is_filled = decide (o.order.size - o.traded = 0) := by
  induction L generalizing s with
  | nil => simp [exactOutcome]
  | cons r L ih =>
    unfold exactOutcome
    split
    · rw [List.forall_mem_cons]
      exact ⟨⟨rfl, rfl⟩, ih⟩
    · simp

theorem exactOutcome_own : (exactOutcome stop s L).2 =
    (s - ((Greedy.walk stop OrderBook.size s L).map Prod.snd).sum,
      decide (s - ((Greedy.walk stop OrderBook.size s L).map Prod.snd).sum = 0)) := by
  induction L generalizing s with
  | nil => simp [exactOutcome, Greedy.walk]
  | cons r L ih =>
    unfold exactOutcome Greedy.walk
    split
    · simp only [ih, List.map_cons, List.sum_cons, sub_sub]
    · simp

end Outcomes

/-! ## What is taken from whom -/

/-- What is taken from the order with key `id`. -/
def takenFrom (F : List (OrderBook × ℚ)) (id : Nat) : ℚ :=
  ((F.filter fun f => f.1.id = id).map Prod.snd).sum

theorem takenFrom_of_mem {F : List (OrderBook × ℚ)} (hnd : (F.map fun f => f.1.id).Nodup)
    {f : OrderBook × ℚ} (hf : f ∈ F) : takenFrom F f.1.id = f.2 := by
  induction F with
  | nil => cases hf
  | cons g F ih =>
    rw [List.map_cons, List.nodup_cons] at hnd
    rcases List.mem_cons.mp hf with rfl | hf
    · have hnone : F.filter (fun g => g.1.id = f.1.id) = [] := by
        rw [List.filter_eq_nil_iff]
        intro g hg he
        exact hnd.1 (List.mem_map.mpr ⟨g, hg, by simpa using he⟩)
      simp [takenFrom, hnone]
    · have hne : g.1.id ≠ f.1.id := by
        intro he
        exact hnd.1 (he ▸ List.mem_map_of_mem (f := fun g : OrderBook × ℚ => g.1.id) hf)
      have hcons : takenFrom (g :: F) f.1.id = takenFrom F f.1.id := by
        simp [takenFrom, hne]
      rw [hcons, ih hnd.2 hf]

theorem takenFrom_of_not_mem {F : List (OrderBook × ℚ)} {id : Nat} (h : ∀ f ∈ F, f.1.id ≠ id) :
    takenFrom F id = 0 := by
  have hnone : F.filter (fun f => f.1.id = id) = [] := by
    rw [List.filter_eq_nil_iff]
    simpa using h
  simp [takenFrom, hnone]

/-- The row has this size, and is closed iff it is zero. -/
def OrderBook.Holds (row : OrderBook) (size : ℚ) : Prop :=
  row.size = size ∧ (row.is_filled = true ↔ size = 0)

/-- Open orders, as their columns hold them. -/
structure OpenOrders (L : List OrderBook) : Prop where
  nodup : (L.map OrderBook.id).Nodup
  opened : ∀ r ∈ L, r.is_filled = false
  pos : ∀ r ∈ L, 0 < r.size
  sizes : ∀ r ∈ L, IsDecimal 8 r.size
  prices : ∀ r ∈ L, r.price.map (roundTo 8) = r.price

theorem OpenOrders.tail {r : OrderBook} {L : List OrderBook} (h : OpenOrders (r :: L)) :
    (∀ r' ∈ L, r'.id ≠ r.id) ∧ OpenOrders L := by
  have hnd := h.nodup
  rw [List.map_cons, List.nodup_cons] at hnd
  exact ⟨fun r' hr' he => hnd.1 (he ▸ List.mem_map_of_mem hr'), hnd.2,
    fun r' hr' => h.opened r' (List.mem_cons_of_mem _ hr'),
    fun r' hr' => h.pos r' (List.mem_cons_of_mem _ hr'),
    fun r' hr' => h.sizes r' (List.mem_cons_of_mem _ hr'),
    fun r' hr' => h.prices r' (List.mem_cons_of_mem _ hr')⟩

/-! ## Plans -/

section Plans

variable {m : Matcher} {order : OrderBook} {L : List OrderBook} {ws : List Write}

/-- What the matcher makes of the orders it reaches and of its own row. -/
abbrev Plan.outcome (m : Matcher) (order : OrderBook) (L : List OrderBook) :
    List Outcome × ℚ × Bool :=
  Exchange.outcome (m.halts order.held) order.size L

theorem Plan.outcome_stop {r : OrderBook} (h : m.halts order.held r = true) :
    Plan.outcome m order (r :: L) = ([], roundTo 8 order.size, false) :=
  Exchange.outcome_stop h

theorem Plan.outcome_full {r : OrderBook} (h : m.halts order.held r = false)
    (hs : Double.fl order.size ≤ Double.fl r.size) :
    Plan.outcome m order (r :: L) = ([⟨r, roundTo 8 order.size,
      roundTo 8 (Double.sub r.size order.size), Double.sub r.size order.size = 0⟩], 0, true) :=
  Exchange.outcome_full h hs

theorem Plan.outcome_part {r : OrderBook} (h : m.halts order.held r = false)
    (hs : Double.fl r.size < Double.fl order.size) :
    Plan.outcome m order (r :: L) =
      (⟨r, r.size, 0, true⟩ :: (Plan.outcome m (m.rest order r) L).1,
        (Plan.outcome m (m.rest order r) L).2) :=
  Exchange.outcome_part h hs

theorem rowAfter_append (ws ws' : List Write) (row : OrderBook) :
    rowAfter (ws ++ ws') row = rowAfter ws' (rowAfter ws row) := List.foldl_append ..

theorem Plan.outcome_traded (h : Plan m order L ws) (hL : ∀ r ∈ L, IsDecimal 8 r.size) :
    (Plan.outcome m order L).1.map (fun o => (o.order, o.traded)) =
      (Plan.fills m order L).map fun f => (f.1, roundTo 8 f.2) := by
  induction h with
  | nil => rfl
  | stop L h => rw [Plan.outcome_stop h, Plan.fills_stop h]; rfl
  | full L t₁ t₂ t₃ h hs => rw [Plan.outcome_full h hs, Plan.fills_full h hs]; rfl
  | part t₁ t₂ h hs hp ih =>
    rw [List.forall_mem_cons] at hL
    rw [Plan.outcome_part h hs, Plan.fills_part h hs]
    simp only [List.map_cons, ih hL.2, hL.1.roundTo_eq]

/-- The row of the order that is matched. -/
theorem Plan.outcome_own (h : Plan m order L ws) (hne : ∀ r ∈ L, r.id ≠ order.id)
    {row : OrderBook} (hid : row.id = order.id) (hsize : row.size = roundTo 8 order.size)
    (hopen : row.is_filled = false) :
    ((rowAfter ws row).size, (rowAfter ws row).is_filled) = (Plan.outcome m order L).2 := by
  induction h generalizing row with
  | nil => simp [rowAfter, Plan.outcome, Exchange.outcome, hsize, hopen]
  | stop L h => simp [rowAfter, Plan.outcome_stop h, hsize, hopen]
  | @full order r L t₁ t₂ t₃ h hs =>
    have hr := hne r List.mem_cons_self
    simp [rowAfter, Matcher.fullWrites, Write.onRow, OrderUpdate.apply, hid, hr.symm,
      Plan.outcome_full h hs]
  | @part order r L ws t₁ t₂ h hs hp ih =>
    have hr := hne r List.mem_cons_self
    rw [Plan.outcome_part h hs, rowAfter_append]
    apply ih
    · exact fun r' hr' => hne r' (List.mem_cons_of_mem _ hr')
    · exact (rowAfter_worked (matching_partWrites m order r t₁ t₂) row).id.trans hid
    · simp [rowAfter, Matcher.partWrites, Write.onRow, OrderUpdate.apply, hid, hr.symm]
    · simp [rowAfter, Matcher.partWrites, Write.onRow, OrderUpdate.apply, hid, hr.symm, hopen]

theorem Plan.outcome_mem (h : Plan m order L ws) :
    ∀ o ∈ (Plan.outcome m order L).1, o.order ∈ L := by
  induction h with
  | nil => simp [Plan.outcome, Exchange.outcome]
  | stop L h => simp [Plan.outcome_stop h]
  | full L t₁ t₂ t₃ h hs => simp [Plan.outcome_full h hs]
  | part t₁ t₂ h hs hp ih =>
    rw [Plan.outcome_part h hs, List.forall_mem_cons]
    exact ⟨List.mem_cons_self, fun o ho => List.mem_cons_of_mem _ (ih o ho)⟩

/-- The rows of the orders that are reached. -/
theorem Plan.outcome_rows (h : Plan m order L ws) (hL : OpenOrders L)
    (hne : ∀ r ∈ L, r.id ≠ order.id) : ∀ o ∈ (Plan.outcome m order L).1,
      (rowAfter ws o.order).size = o.size ∧ (rowAfter ws o.order).is_filled = o.is_filled := by
  induction h with
  | nil => simp [Plan.outcome, Exchange.outcome]
  | stop L h => simp [Plan.outcome_stop h]
  | @full order r L t₁ t₂ t₃ h hs =>
    have hr := hne r List.mem_cons_self
    have hopen := hL.opened r List.mem_cons_self
    rw [Plan.outcome_full h hs, List.forall_mem_singleton]
    by_cases h0 : Double.sub r.size order.size = 0 <;>
      simp [rowAfter, Matcher.fullWrites, Write.onRow, OrderUpdate.apply, hr, h0, hopen]
  | @part order r L ws t₁ t₂ h hs hp ih =>
    obtain ⟨hother, hrest⟩ := hL.tail
    rw [List.forall_mem_cons] at hne
    rw [Plan.outcome_part h hs, List.forall_mem_cons]
    constructor
    · -- taken whole in this pass, and not touched again
      have hid := (rowAfter_worked (matching_partWrites m order r t₁ t₂) r).id
      rw [rowAfter_append, rowAfter_untouched]
      · simp [rowAfter, Matcher.partWrites, Write.onRow, OrderUpdate.apply, hne.1]
      · rw [hid]
        intro ht
        rcases hp.touches ht with ⟨he, -⟩ | ⟨f, hf, he⟩
        · exact hne.1 he
        · exact hother f.1 ((Greedy.fills_prefix _ _).subset (List.mem_map_of_mem hf)) he.symm
    · intro o ho
      have hmem := hp.outcome_mem o ho
      rw [rowAfter_append, rowAfter_partWrites_other (hother _ hmem) (hne.2 _ hmem)]
      exact ih hrest hne.2 o ho

/-- The plan writes what the exact walk up to `stop` takes. -/
structure Walked (stop : OrderBook → Bool) (m : Matcher) (order : OrderBook)
    (L : List OrderBook) (ws : List Write) : Prop where
  taken : (Plan.fills m order L).map (fun f => (f.1, roundTo 8 f.2)) =
    Greedy.walk stop OrderBook.size order.size L
  resting : ∀ r ∈ L, (rowAfter ws r).Holds
    (r.size - takenFrom (Greedy.walk stop OrderBook.size order.size L) r.id)
  incoming : ∀ row : OrderBook, row.id = order.id → row.size = roundTo 8 order.size →
    row.is_filled = false → (rowAfter ws row).Holds
      (order.size - ((Greedy.walk stop OrderBook.size order.size L).map Prod.snd).sum)

variable {stop : OrderBook → Bool}

theorem walk_nodup_id (hL : OpenOrders L) (s : ℚ) :
    ((Greedy.walk stop OrderBook.size s L).map fun f => f.1.id).Nodup :=
  Greedy.walk_nodup hL.nodup

theorem Plan.walked_of_outcome (h : Plan m order L ws) (hL : OpenOrders L)
    (hne : ∀ r ∈ L, r.id ≠ order.id)
    (heq : Plan.outcome m order L = exactOutcome stop order.size L) :
    Walked stop m order L ws := by
  have htaken := h.outcome_traded hL.sizes
  rw [heq, exactOutcome_traded] at htaken
  refine ⟨htaken.symm, ?_, ?_⟩
  · intro r hr
    by_cases hreached : ∃ f ∈ Greedy.walk stop OrderBook.size order.size L, f.1.id = r.id
    · obtain ⟨f, hf, hid⟩ := hreached
      obtain rfl : f.1 = r := List.inj_on_of_nodup_map hL.nodup (Greedy.mem_of_walk hf) hr hid
      rw [takenFrom_of_mem (walk_nodup_id hL _) hf]
      rw [← exactOutcome_traded] at hf
      obtain ⟨o, ho, rfl⟩ := List.mem_map.mp hf
      obtain ⟨hsize, hfilled⟩ := h.outcome_rows hL hne o (heq ▸ ho)
      obtain ⟨hsize', hfilled'⟩ := exactOutcome_rows o ho
      refine ⟨hsize.trans hsize', ?_⟩
      rw [hfilled, hfilled', decide_eq_true_eq]
    · have hnot : ∀ f ∈ Greedy.walk stop OrderBook.size order.size L, f.1.id ≠ r.id :=
        fun f hf he => hreached ⟨f, hf, he⟩
      rw [takenFrom_of_not_mem hnot, sub_zero, rowAfter_untouched]
      · exact ⟨rfl, by simp [hL.opened r hr, (hL.pos r hr).ne']⟩
      · intro ht
        rcases h.touches ht with ⟨he, -⟩ | ⟨f, hf, he⟩
        · exact hne r hr he
        · apply hnot (f.1, roundTo 8 f.2) _ he.symm
          rw [htaken]
          exact List.mem_map_of_mem hf
  · intro row hid hsize hopen
    have hown := h.outcome_own hne hid hsize hopen
    rw [heq, exactOutcome_own] at hown
    obtain ⟨hsize', hfilled⟩ := Prod.mk.inj hown
    exact ⟨hsize', by rw [hfilled, decide_eq_true_eq]⟩

theorem Plan.outcome_of_walked (h : Plan m order L ws) (hL : OpenOrders L)
    (hne : ∀ r ∈ L, r.id ≠ order.id) (hw : Walked stop m order L ws) :
    Plan.outcome m order L = exactOutcome stop order.size L := by
  have htraded := (h.outcome_traded hL.sizes).trans (hw.taken.trans exactOutcome_traded.symm)
  -- the trade determines what becomes of an order, here and there
  have hmatch : (Plan.outcome m order L).1 =
      ((Plan.outcome m order L).1.map fun o => (o.order, o.traded)).map fun f =>
        ⟨f.1, f.2, (rowAfter ws f.1).size, (rowAfter ws f.1).is_filled⟩ := by
    rw [List.map_map, eq_comm]
    apply (List.map_congr_left _).trans (List.map_id _)
    intro o ho
    obtain ⟨hsize, hfilled⟩ := h.outcome_rows hL hne o ho
    simp only [Function.comp, hsize, hfilled]
    rfl
  have hexact : (exactOutcome stop order.size L).1 =
      ((exactOutcome stop order.size L).1.map fun o => (o.order, o.traded)).map fun f =>
        ⟨f.1, f.2, f.1.size - f.2, f.1.size - f.2 = 0⟩ := by
    rw [List.map_map, eq_comm]
    apply (List.map_congr_left _).trans (List.map_id _)
    intro o ho
    obtain ⟨hsize, hfilled⟩ := exactOutcome_rows o ho
    simp only [Function.comp, id_eq, ← hfilled]
    rw [← hsize]
  refine Prod.ext ?_ ?_
  · rw [hmatch, hexact, htraded]
    apply List.map_congr_left
    intro f hf
    rw [exactOutcome_traded] at hf
    obtain ⟨hsize, hfilled⟩ := hw.resting f.1 (Greedy.mem_of_walk hf)
    rw [takenFrom_of_mem (walk_nodup_id hL _) hf] at hsize hfilled
    rw [hsize, Bool.eq_iff_iff.mpr (hfilled.trans decide_eq_true_iff.symm)]
  · obtain ⟨hsize, hfilled⟩ := hw.incoming
      { order with size := roundTo 8 order.size, is_filled := false } rfl rfl rfl
    have hown : _ = (Plan.outcome m order L).2 := h.outcome_own hne
      (rfl : { order with size := roundTo 8 order.size, is_filled := false }.id = order.id) rfl rfl
    rw [← hown, exactOutcome_own, hsize,
      Bool.eq_iff_iff.mpr (hfilled.trans decide_eq_true_iff.symm)]

/-- **A plan writes what the exact walk takes** iff it takes the same steps. -/
theorem Plan.walked_iff (h : Plan m order L ws) (hpos : 0 < order.size) (hL : OpenOrders L)
    (hne : ∀ r ∈ L, r.id ≠ order.id) : Walked stop m order L ws ↔
      sameSteps (m.halts order.held) stop order.size order.size L = true := by
  rw [← outcome_eq_iff hpos hL.pos]
  exact ⟨h.outcome_of_walked hL hne, h.walked_of_outcome hL hne⟩

end Plans

end Exchange
