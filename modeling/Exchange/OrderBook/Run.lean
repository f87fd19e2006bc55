import Exchange.OrderBook.Plan

/-!
# Running one order alone

What a run of `handleOrder` does to the tables, for every environment. Between
two writes a run only reads (`Quiet`); the writes of a match are a prefix of
its plan (`Follows`), and a run that stops short of the plan has a reason: a
call failed, or the symbol has no trade, on which every emission raises.

`serve_served` is what later modules use.
-/

namespace Exchange

open Async Proc OrderBookService

/-- A write to the tables, as opposed to a query or an emission. -/
def Op.writes : Op → Bool
  | .saveOrderBook _ | .updateOrderBook .. | .saveTrade .. => true
  | _ => false

theorem Op.admissible_of_reads {o : Op} (h : o.writes = false) : o.admissible = true := by
  cases o with
  | saveOrderBook _ | updateOrderBook _ _ _ | saveTrade _ _ => cases h
  | _ => rfl

def Write.op : Write → Op
  | .order o _ => .saveOrderBook o
  | .update id u x => .updateOrderBook id u x
  | .trade t x => .saveTrade t x

/-- A query or an emission fails, at a call number in `[a, b)`. -/
def Env.Fault (env : Env) (a b : Nat) : Prop :=
  ∃ n o, a ≤ n ∧ n < b ∧ o.writes = false ∧ env.fails n o = true

theorem Env.Fault.mono {env : Env} {a b a' b' : Nat} (h : env.Fault a b) (ha : a' ≤ a)
    (hb : b ≤ b') : env.Fault a' b' := by
  obtain ⟨n, o, h₁, h₂, h₃⟩ := h
  exact ⟨n, o, by omega, by omega, h₃⟩

def Tables.HasTrade (db : Tables) (symbol : String) : Prop :=
  ∃ t ∈ db.tbl_trades.rows, t.symbol = symbol

theorem Tables.hasTrade_of_getAllTrades {db : Tables} {symbol : String} {t : Trade}
    {ts : List Trade} (h : db.getAllTrades symbol 20 = t :: ts) : db.HasTrade symbol := by
  have ht : t ∈ db.getAllTrades symbol 20 := h ▸ List.mem_cons_self ..
  have := Store.mem_of_mem_orderByLimit ht
  simp only [List.mem_filter, decide_eq_true_eq] at this
  exact ⟨t, this.1, this.2⟩

theorem Tables.not_hasTrade_of_getAllTrades {db : Tables} {symbol : String}
    (h : db.getAllTrades symbol 20 = []) : ¬ db.HasTrade symbol := by
  rintro ⟨t, ht, hs⟩
  have hm : t ∈ db.tbl_trades.rows.filter fun t => t.symbol = symbol := by simp [ht, hs]
  have hnil : Store.sorted (fun a b : Trade => b.created_at ≤ a.created_at)
      (db.tbl_trades.rows.filter fun t => t.symbol = symbol) = [] := by
    simpa [Tables.getAllTrades, Store.orderByLimit] using h
  rw [← (Store.perm_sorted _ _).mem_iff, hnil] at hm
  simp at hm

/-! ## Reading -/

/-- `w'` differs from `w` by at most `n` calls, reloaded books and messages. -/
structure Quiet (n : Nat) (w w' : World) : Prop where
  db : w'.db = w.db
  journal : w'.journal = w.journal
  arrays : w.arrays <+: w'.arrays
  calls : w.calls ≤ w'.calls ∧ w'.calls ≤ w.calls + n

theorem Quiet.refl (w : World) : Quiet 0 w w :=
  ⟨rfl, rfl, List.prefix_refl _, le_refl _, le_refl _⟩

theorem Quiet.tick (w : World) : Quiet 1 w w.tick :=
  ⟨rfl, rfl, List.prefix_refl _, Nat.le_succ _, le_refl _⟩

theorem Quiet.trans {m n : Nat} {w w' w'' : World} (h : Quiet m w w') (h' : Quiet n w' w'') :
    Quiet (m + n) w w'' := by
  refine ⟨h'.db.trans h.db, h'.journal.trans h.journal,
    h.arrays.trans h'.arrays, ?_⟩
  have := h.calls
  have := h'.calls
  omega

/-- The outcome of a program that only reads, with at most `n` calls: a value
satisfying `Q`, or an error because a call failed or because of `E`. -/
def Reads {α : Type} (env : Env) (n : Nat) (w : World) (E : Prop) (Q : α → World → Prop) :
    Except Err α → World → Prop
  | .ok a, w' => Quiet n w w' ∧ Q a w'
  | .error _, w' => Quiet n w w' ∧ (env.Fault w.calls (w.calls + n) ∨ E)

section Reads

variable {α β : Type} {env : Env} {m n : Nat} {w : World} {E : Prop}

theorem Reads.bind {p : Prog α} {f : α → Prog β} {Q : α → World → Prop} {Q' : β → World → Prop}
    (hp : wp (World.perform env) p (Reads env m w E Q) w)
    (hf : ∀ a w', Quiet m w w' → Q a w' → wp (World.perform env) (f a) (Reads env n w' E Q') w') :
    wp (World.perform env) (p >>= f) (Reads env (m + n) w E Q') w := by
  rw [wp_bind]
  refine wp_mono hp ?_
  rintro (e | a) w' ⟨hq, h⟩
  · refine ⟨⟨hq.db, hq.journal, hq.arrays, hq.calls.1, ?_⟩,
      h.imp_left fun h => h.mono (le_refl _) ?_⟩
    · exact hq.calls.2.trans (by omega)
    · omega
  · refine wp_mono (hf a w' hq h) ?_
    have := hq.calls
    rintro (e | b) w'' ⟨hq', h'⟩
    · exact ⟨hq.trans hq', h'.imp_left fun h' => h'.mono (by omega) (by omega)⟩
    · exact ⟨hq.trans hq', h'⟩

/-- A query: it fails, or answers in a world that only counts the call. -/
theorem Reads.query (o : Op) (ho : o.awaits = true) (hw : o.writes = false)
    (Q : o.Res → World → Prop)
    (h : ∃ a, World.answer (env.clock w.calls) o w.tick = (.ok a, w.tick) ∧ Q a w.tick) :
    wp (World.perform env) (OrderBookService.call o) (Reads env 1 w E Q) w := by
  have hext : o.external = true := by cases o <;> simp_all [Op.external]
  rw [OrderBookService.call, wp_call, World.perform, if_pos hext]
  split
  · next hf => exact ⟨Quiet.tick w, .inl ⟨w.calls, o, le_refl _, by omega, hw, hf⟩⟩
  · obtain ⟨a, ha, hQ⟩ := h
    rw [ha]
    exact ⟨Quiet.tick w, hQ⟩

end Reads

/-- The field `order_books` holds the orders of `symbol` that are in the tables. -/
def Loaded (symbol : String) (w : World) : Prop :=
  w.array (w.side .BUY) = w.db.findOrders .BUY symbol 100 .ASC ∧
    w.array (w.side .SELL) = w.db.findOrders .SELL symbol 100 .DESC ∧
    w.side .BUY < w.arrays.length ∧ w.side .SELL < w.arrays.length

variable {env : Env} {w : World} {symbol : String}

theorem setOrderBooks_reads {E : Prop} :
    wp (World.perform env) (OrderBookService.call (.setOrderBooks
        (w.db.findOrders .BUY symbol 100 .ASC) (w.db.findOrders .SELL symbol 100 .DESC)))
      (Reads env 0 w E fun _ w' => Loaded symbol w') w := by
  rw [OrderBookService.call, wp_call]
  refine ⟨⟨rfl, rfl, List.prefix_append _ _, le_refl _, le_refl _⟩, ?_⟩
  simp [World.perform, Op.external, Op.awaits, World.answer, Loaded, World.array, World.side]

theorem fillOrderBook_reads {E : Prop} :
    wp (World.perform env) (fillOrderBook symbol) (Reads env 2 w E fun _ w' => Loaded symbol w')
      w := by
  unfold fillOrderBook
  refine Reads.bind (m := 1) (n := 1) (Q := fun a _ => a = w.db.findOrders .BUY symbol 100 .ASC)
    (Reads.query _ rfl rfl _ ⟨_, rfl, rfl⟩) ?_
  rintro _ w₁ hw₁ rfl
  refine Reads.bind (m := 1) (n := 0) (Q := fun a _ => a = w₁.db.findOrders .SELL symbol 100 .DESC)
    (Reads.query _ rfl rfl _ ⟨_, rfl, rfl⟩) ?_
  rintro _ w₂ hw₂ rfl
  rw [← hw₁.db, ← hw₂.db]
  exact setOrderBooks_reads

theorem orderBooks_reads {E : Prop} (hl : Loaded symbol w) :
    wp (World.perform env) (OrderBookService.call .orderBooks)
      (Reads env 0 w E fun _ w' => Loaded symbol w') w := by
  rw [OrderBookService.call, wp_call]
  exact ⟨Quiet.refl w, hl⟩

theorem emit_reads {E : Prop} (hl : Loaded symbol w) (message : Message) :
    wp (World.perform env) (OrderBookService.call (.emit message))
      (Reads env 1 w E fun _ w' => Loaded symbol w') w := by
  rw [OrderBookService.call, wp_call]
  simp only [World.perform, Op.external, if_true]
  split
  · next hf => exact ⟨Quiet.tick w, .inl ⟨w.calls, _, le_refl _, by omega, rfl, hf⟩⟩
  · exact ⟨⟨rfl, rfl, List.prefix_refl _, Nat.le_succ _, le_refl _⟩, hl⟩

/-- An emission reloads the books and reports them, unless a call fails or the
symbol has no trade. -/
theorem emitSocketData_reads :
    wp (World.perform env) (emitSocketData symbol)
      (Reads env 6 w (¬ w.db.HasTrade symbol)
        fun _ w' => Loaded symbol w' ∧ w.db.HasTrade symbol) w := by
  unfold emitSocketData
  refine Reads.bind (m := 2) (n := 4) fillOrderBook_reads ?_
  intro _ w₁ hw₁ hl₁
  refine Reads.bind (m := 1) (n := 3)
    (Q := fun ts w' => ts = w₁.db.getAllTrades symbol 20 ∧ Loaded symbol w')
    (Reads.query _ rfl rfl _ ⟨_, rfl, rfl, hl₁⟩) ?_
  rintro trades w₂ hw₂ ⟨hts, hl₂⟩
  refine Reads.bind (m := 1) (n := 2) (Q := fun _ w' => Loaded symbol w')
    (Reads.query _ rfl rfl _ ⟨_, rfl, hl₂⟩) ?_
  intro day w₃ hw₃ hl₃
  refine Reads.bind (m := 1) (n := 1) (Q := fun _ w' => Loaded symbol w')
    (Reads.query _ rfl rfl _ ⟨_, rfl, hl₃⟩) ?_
  intro price w₄ hw₄ hl₄
  rw [hw₁.db] at hts
  cases trades with
  | nil =>
    refine ⟨⟨rfl, rfl, List.prefix_refl _, le_refl _, Nat.le_add_right ..⟩, .inr ?_⟩
    exact Tables.not_hasTrade_of_getAllTrades hts.symm
  | cons t ts =>
    refine Reads.bind (m := 0) (n := 1) (orderBooks_reads hl₄) ?_
    intro books w₅ hw₅ hl₅
    refine wp_mono (emit_reads (E := ¬ w.db.HasTrade symbol) hl₅ _) ?_
    rintro (e | u) w₆ ⟨hq, h⟩
    · exact ⟨hq, h⟩
    · exact ⟨hq, h, Tables.hasTrade_of_getAllTrades hts.symm⟩

/-! ## Writing -/

/-- `w'` is `w` after the write `wr` and at most `n` calls, the write included. -/
structure Wrote (wr : Write) (n : Nat) (w w' : World) : Prop where
  db : w'.db = w.db.write wr
  journal : w'.journal = w.journal ++ [⟨w.db, wr⟩]
  arrays : w.arrays <+: w'.arrays
  calls : w.calls < w'.calls ∧ w'.calls ≤ w.calls + n

theorem Wrote.commit (w : World) (wr : Write) : Wrote wr 1 w (w.tick.commit wr) :=
  ⟨rfl, rfl, List.prefix_refl _, Nat.lt_succ_self _, le_refl _⟩

theorem Wrote.quiet {wr : Write} {m n : Nat} {w w' w'' : World} (h : Wrote wr m w w')
    (h' : Quiet n w' w'') : Wrote wr (m + n) w w'' := by
  refine ⟨h'.db.trans h.db, h'.journal.trans h.journal,
    h.arrays.trans h'.arrays, ?_⟩
  have := h.calls
  have := h'.calls
  omega

theorem Tables.HasTrade.write {db : Tables} {symbol : String} (h : db.HasTrade symbol)
    (wr : Write) : (db.write wr).HasTrade symbol := by
  obtain ⟨t, ht, hs⟩ := h
  cases wr with
  | trade t' x => exact ⟨t, List.mem_append_left _ ht, hs⟩
  | update id u x => exact ⟨t, ht, hs⟩
  | order o now =>
    refine ⟨t, ?_, hs⟩
    rwa [Tables.write, Tables.saveOrderBook_trades]

/-- The outcome of a write followed by an emission. -/
def Written {α : Type} (env : Env) (symbol : String) (wr : Write) (w : World) :
    Except Err α → World → Prop
  | .ok _, w' =>
      env.fails w.calls wr.op = false ∧ Wrote wr 7 w w' ∧ (w.db.write wr).HasTrade symbol
  | .error _, w' =>
      env.fails w.calls wr.op = true ∧ Quiet 1 w w' ∨
      env.fails w.calls wr.op = false ∧ Wrote wr 7 w w' ∧
        (env.Fault w.calls (w.calls + 7) ∨ ¬ (w.db.write wr).HasTrade symbol)

/-- `call wr.op` followed by an emission, for the two operations of a matcher. -/
theorem written_of_emission {wr : Write} {p : Prog Unit}
    (hp : wp (World.perform env) p (fun
      | .ok _, w' => env.fails w.calls wr.op = false ∧ w' = w.tick.commit wr
      | .error _, w' => env.fails w.calls wr.op = true ∧ w' = w.tick) w) :
    wp (World.perform env) (p >>= fun _ => emitSocketData symbol) (Written env symbol wr w) w := by
  rw [wp_bind]
  refine wp_mono hp ?_
  rintro (e | u) w' h
  · obtain ⟨hf, rfl⟩ := h
    exact .inl ⟨hf, Quiet.tick w⟩
  · obtain ⟨hf, rfl⟩ := h
    have hw := Wrote.commit w wr
    refine wp_mono emitSocketData_reads ?_
    rintro (e | u) w'' ⟨hq, h⟩
    · refine .inr ⟨hf, hw.quiet hq, ?_⟩
      exact h.imp (fun h => h.mono (Nat.le_succ _) (le_refl _)) id
    · exact ⟨hf, hw.quiet hq, h.2⟩

theorem updateOrder_written (id : Nat) (u : OrderUpdate) (x : Execution) :
    wp (World.perform env) (updateOrder symbol id u x)
      (Written env symbol (.update id u x) w) w := by
  refine written_of_emission ((wp_call _ _).mpr ?_)
  simp only [World.perform, Op.external, Op.awaits, if_true]
  cases hf : env.fails w.calls (.updateOrderBook id u x) with
  | false => exact ⟨hf, rfl⟩
  | true => exact ⟨hf, rfl⟩

theorem saveTrade_written (t : NewTrade) (x : Execution) :
    wp (World.perform env) (saveTrade t x) (Written env t.symbol (.trade t x) w) w := by
  refine written_of_emission ((wp_call _ _).mpr ?_)
  simp only [World.perform, Op.external, Op.awaits, if_true]
  cases hf : env.fails w.calls (.saveTrade t x) with
  | false => exact ⟨hf, rfl⟩
  | true => exact ⟨hf, rfl⟩

/-- Why a run stops short of the write `next`: a read fails, the write fails, or
an emission raises (`raises`). -/
def Blame (env : Env) (a b : Nat) (next : Option Write) (raises : Prop) : Prop :=
  env.Fault a b ∨ (∃ n wr, a ≤ n ∧ n < b ∧ next = some wr ∧ env.fails n wr.op = true) ∨ raises

/-- From `w` on, the run has made the writes `done`, the first of the list `ws`
satisfying `P`. -/
structure Follows (env : Env) (symbol : String) (w : World) (P : List Write → Prop)
    (ws done : List Write) (w' : World) : Prop where
  plan : P ws
  made : done <+: ws
  allowed : ∀ wr ∈ done, ∃ n, env.fails n wr.op = false
  db : w'.db = w.db.writeAll done
  journal : w'.journal = w.journal ++ w.db.entries done
  stuck : ¬ w.db.HasTrade symbol → done.length ≤ 1

/-- The run has a reason not to go on after the writes `done`. -/
def Stops (env : Env) (symbol : String) (w : World) (ws done : List Write) : Prop :=
  Blame env w.calls (w.calls + 7 * done.length + 1) ws[done.length]?
    (¬ w.db.HasTrade symbol ∧ done ≠ [])

/-- The outcome of a program that makes the writes of a list satisfying `P`: all
of them, or an error with a reason. -/
def Follow {α : Type} (env : Env) (symbol : String) (P : List Write → Prop) (w : World) :
    Except Err α → World → Prop
  | .ok _, w' => ∃ ws, Follows env symbol w P ws ws w'
  | .error _, w' => ∃ ws done, Follows env symbol w P ws done w' ∧ Stops env symbol w ws done

theorem Follows.nil {P : List Write → Prop} (h : P []) : Follows env symbol w P [] [] w :=
  ⟨h, List.prefix_refl _, by simp, rfl, (List.append_nil _).symm, fun _ => Nat.zero_le _⟩

theorem Follows.mono {P P' : List Write → Prop} {ws done : List Write} {w' : World}
    (h : Follows env symbol w P ws done w') (hP : ∀ ws, P ws → P' ws) :
    Follows env symbol w P' ws done w' :=
  { h with plan := hP ws h.plan }

theorem Follows.quiet {P : List Write → Prop} {ws done : List Write} {n : Nat} {w' w'' : World}
    (h : Follows env symbol w P ws done w') (hq : Quiet n w' w'') :
    Follows env symbol w P ws done w'' :=
  { h with db := hq.db.trans h.db, journal := hq.journal.trans h.journal }

theorem Follows.of_eq {P : List Write → Prop} {ws done : List Write} {w₀ w' : World}
    (h : Follows env symbol w₀ P ws done w') (hdb : w₀.db = w.db)
    (hjournal : w₀.journal = w.journal) : Follows env symbol w P ws done w' :=
  ⟨h.plan, h.made, h.allowed, hdb ▸ h.db, hjournal ▸ hdb ▸ h.journal, hdb ▸ h.stuck⟩

/-- One write, then those of the rest. -/
theorem Follows.cons {P : List Write → Prop} {wr : Write} {ws done : List Write} {n : Nat}
    {w' w'' : World} (hf : env.fails w.calls wr.op = false) (hw : Wrote wr n w w')
    (hT : w.db.HasTrade symbol)
    (h : Follows env symbol w' (fun ws => P (wr :: ws)) ws done w'') :
    Follows env symbol w P (wr :: ws) (wr :: done) w'' := by
  refine ⟨h.plan, by simpa using h.made, List.forall_mem_cons.mpr ⟨⟨_, hf⟩, h.allowed⟩, ?_, ?_,
    fun hn => absurd hT hn⟩
  · rw [h.db, hw.db]
    rfl
  · rw [h.journal, hw.journal, hw.db, List.append_assoc]
    rfl

namespace Follow

variable {α β : Type} {P P' : List Write → Prop}

theorem nil {a : α} (h : P []) : Follow env symbol P w (.ok a) w := ⟨[], Follows.nil h⟩

theorem mono {r : Except Err α} {w' : World} (h : Follow env symbol P w r w')
    (hP : ∀ ws, P ws → P' ws) : Follow env symbol P' w r w' := by
  cases r with
  | ok a =>
    obtain ⟨ws, h⟩ := h
    exact ⟨ws, h.mono hP⟩
  | error e =>
    obtain ⟨ws, done, h, hs⟩ := h
    exact ⟨ws, done, h.mono hP, hs⟩

/-- What the writes depend on is the tables, the journal and the number of calls. -/
theorem of_eq {r : Except Err α} {w₀ w' : World} (h : Follow env symbol P w₀ r w')
    (hdb : w₀.db = w.db) (hjournal : w₀.journal = w.journal) (hcalls : w₀.calls = w.calls) :
    Follow env symbol P w r w' := by
  cases r with
  | ok a =>
    obtain ⟨ws, h⟩ := h
    exact ⟨ws, h.of_eq hdb hjournal⟩
  | error e =>
    obtain ⟨ws, done, h, hs⟩ := h
    refine ⟨ws, done, h.of_eq hdb hjournal, ?_⟩
    unfold Stops at hs
    rwa [hcalls, hdb] at hs

/-- One write, then the others. -/
theorem write {p : Prog Unit} {k : Prog β} {wr : Write}
    (hp : wp (World.perform env) p (Written env symbol wr w) w)
    (hex : ∃ ws, P (wr :: ws))
    (hT : (w.db.write wr).HasTrade symbol → w.db.HasTrade symbol)
    (hk : ∀ w', Wrote wr 7 w w' → w.db.HasTrade symbol →
      wp (World.perform env) k (Follow env symbol (fun ws => P (wr :: ws)) w') w') :
    wp (World.perform env) (p >>= fun _ => k) (Follow env symbol P w) w := by
  obtain ⟨ws₀, hws₀⟩ := hex
  rw [wp_bind]
  refine wp_mono hp ?_
  rintro (e | u) w' h
  · rcases h with ⟨hf, hq⟩ | ⟨hf, hw, h⟩
    · refine ⟨wr :: ws₀, [], ⟨hws₀, List.nil_prefix, by simp, hq.db, ?_,
        fun _ => Nat.zero_le _⟩, ?_⟩
      · simpa [Tables.entries] using hq.journal
      · exact .inr (.inl ⟨w.calls, wr, le_refl _, by omega, rfl, hf⟩)
    · refine ⟨wr :: ws₀, [wr], ⟨hws₀, by simp, by simpa using ⟨_, hf⟩, hw.db, hw.journal,
        fun _ => le_refl _⟩, ?_⟩
      rcases h with h | h
      · exact .inl (h.mono (le_refl _) (by simp))
      · exact .inr (.inr ⟨fun h' => h (h'.write wr), by simp⟩)
  · obtain ⟨hf, hw, htr⟩ := h
    have hT' := hT htr
    refine wp_mono (hk w' hw hT') ?_
    rintro (e | b) w'' h
    · obtain ⟨ws, done, h, hstops⟩ := h
      refine ⟨wr :: ws, wr :: done, h.cons hf hw hT', ?_⟩
      have hc := hw.calls
      rcases hstops with hb | ⟨n, wr', h₁, h₂, h₃, h₄⟩ | hb
      · exact .inl (hb.mono hc.1.le (by simp only [List.length_cons]; omega))
      · refine .inr (.inl ⟨n, wr', by omega, ?_, by simpa using h₃, h₄⟩)
        simp only [List.length_cons]
        omega
      · exact absurd (hw.db ▸ htr) hb.1
    · obtain ⟨ws, h⟩ := h
      exact ⟨wr :: ws, h.cons hf hw hT'⟩

/-- The rule for the writes of a matcher that update a row. -/
theorem update {k : Prog β} {id : Nat} {u : OrderUpdate} {x : Execution}
    (hex : ∃ ws, P (.update id u x :: ws))
    (hk : ∀ w', Wrote (.update id u x) 7 w w' → w.db.HasTrade symbol →
      wp (World.perform env) k
        (Follow env symbol (fun ws => P (.update id u x :: ws)) w') w') :
    wp (World.perform env) (updateOrder symbol id u x >>= fun _ => k)
      (Follow env symbol P w) w :=
  write (updateOrder_written id u x) hex (fun h => h) hk

theorem update_last {id : Nat} {u : OrderUpdate} {x : Execution} (h : P [.update id u x]) :
    wp (World.perform env) (updateOrder symbol id u x) (Follow env symbol P w) w := by
  have hk : wp (World.perform env) (updateOrder symbol id u x >>= fun _ => Pure.pure ())
      (Follow env symbol P w) w :=
    update ⟨[], h⟩ fun _ _ _ => nil (P := fun ws => P (.update id u x :: ws)) h
  refine wp_mono ((wp_bind _ _ _).mp hk) ?_
  rintro (e | u) w' h
  · exact h
  · exact h

/-- The rule for the trades of a matcher, which come after an update. -/
theorem trade {k : Prog β} {t : NewTrade} {x : Execution}
    (hex : ∃ ws, P (.trade t x :: ws)) (hT : w.db.HasTrade t.symbol)
    (hk : ∀ w', Wrote (.trade t x) 7 w w' → w.db.HasTrade t.symbol →
      wp (World.perform env) k
        (Follow env t.symbol (fun ws => P (.trade t x :: ws)) w') w') :
    wp (World.perform env) (saveTrade t x >>= fun _ => k) (Follow env t.symbol P w) w :=
  write (saveTrade_written t x) hex (fun _ => hT) hk

end Follow

/-! ## The loop -/

theorem wp_now {β : Type} {f : Nat → Prog β} {Q : Except Err β → World → Prop}
    (hf : wp (World.perform env) (f (env.clock w.calls)) Q w) :
    wp (World.perform env) (OrderBookService.call .now >>= f) Q w :=
  hf

theorem wp_setSize {β : Type} {f : Unit → Prog β} {P : List Write → Prop} {orders i : Nat}
    {size : ℚ} (hf : ∀ arrays, wp (World.perform env) (f ())
      (Follow env symbol P { w with arrays := arrays }) { w with arrays := arrays }) :
    wp (World.perform env) (OrderBookService.call (.setSize orders i size) >>= f)
      (Follow env symbol P w) w := by
  refine wp_mono (hf (w.arrays.modify orders fun l => l.modify i fun r => { r with size := size }))
    ?_
  exact fun _ _ h => h.of_eq rfl rfl rfl

theorem wp_get {β : Type} {f : OrderBook → Prog β} {Q : Except Err β → World → Prop}
    {orders i : Nat} {r : OrderBook} (h : (w.array orders)[i]? = some r)
    (hf : wp (World.perform env) (f r) Q w) :
    wp (World.perform env) (OrderBookService.call (.get orders i) >>= f) Q w := by
  refine (wp_bind _ _ _).mpr ((wp_call _ _).mpr ?_)
  simpa [World.perform, Op.external, Op.awaits, World.answer, h] using hf

theorem Wrote.array {wr : Write} {n : Nat} {w w' : World} (h : Wrote wr n w w') {orders : Nat}
    (ho : orders < w.arrays.length) : w'.array orders = w.array orders := by
  obtain ⟨l, hl⟩ := h.arrays
  simp [World.array, ← hl, List.getElem?_append_left ho]

theorem Wrote.lt_arrays {wr : Write} {n : Nat} {w w' : World} (h : Wrote wr n w w')
    {orders : Nat} (ho : orders < w.arrays.length) : orders < w'.arrays.length :=
  ho.trans_le h.arrays.length_le

theorem matchLoop_follows (env : Env) (m : Matcher) (orders i : Nat) (order : OrderBook) (w : World)
    (ho : orders < w.arrays.length) (hi : i ≤ (w.array orders).length) :
    wp (World.perform env) (matchLoop m orders i order)
      (Follow env order.symbol (Plan m order ((w.array orders).take i).reverse) w) w := by
  induction i generalizing order w with
  | zero => exact Follow.nil (.nil order)
  | succ i ih =>
    have hget : (w.array orders)[i]? = some (w.array orders)[i] := List.getElem?_eq_getElem hi
    generalize (w.array orders)[i] = r at hget
    have hL : ((w.array orders).take (i + 1)).reverse =
        r :: ((w.array orders).take i).reverse := by
      rw [List.take_add_one, hget, Option.toList_some, List.reverse_append,
        List.reverse_singleton, List.singleton_append]
    rw [hL]
    unfold matchLoop
    refine wp_get hget ?_
    cases hstop : m.stop order.held r.held with
    | true => exact Follow.nil (.stop _ hstop)
    | false =>
      rw [if_neg Bool.false_ne_true]
      rcases le_or_gt (Double.fl order.size) (Double.fl r.size) with hs | hs
      · rw [if_pos hs]
        -- the order is filled from `r`
        refine wp_now ?_
        refine Follow.update ⟨_, Plan.full _ (env.clock w.calls) 0 0 hstop hs⟩ ?_
        intro w₁ hw₁ hT
        refine wp_now ?_
        refine Follow.trade
          ⟨_, Plan.full _ (env.clock w.calls) (env.clock w₁.calls) 0 hstop hs⟩ ?_ ?_
        · rw [hw₁.db]
          exact hT.write _
        intro w₂ hw₂ hT₂
        refine wp_get (r := r) ?_ ?_
        · rw [hw₂.array (hw₁.lt_arrays ho), hw₁.array ho, hget]
        refine wp_setSize fun arrays => ?_
        dsimp only
        split
        · next h0 =>
          refine wp_now (Follow.update_last ?_)
          have := Plan.full (L := ((w.array orders).take i).reverse) (env.clock w.calls)
            (env.clock w₁.calls) (env.clock w₂.calls) hstop hs
          simpa only [Matcher.fullWrites, h0, if_true] using this
        · next h0 =>
          refine Follow.update_last ?_
          have := Plan.full (L := ((w.array orders).take i).reverse) (env.clock w.calls)
            (env.clock w₁.calls) 0 hstop hs
          simpa only [Matcher.fullWrites, h0, if_false] using this
      · rw [if_neg hs.not_ge]
        -- the whole of `r` is taken and the loop goes on
        obtain ⟨ws, hws⟩ := exists_plan m (m.rest order r) ((w.array orders).take i).reverse
        refine wp_now ?_
        refine Follow.update ⟨_, Plan.part (env.clock w.calls) 0 hstop hs hws⟩ ?_
        intro w₁ hw₁ hT
        have h₁ : (w₁.array orders)[i]? = some r := by rw [hw₁.array ho, hget]
        refine wp_get h₁ (wp_now ?_)
        refine Follow.trade ⟨_, Plan.part (env.clock w.calls) (env.clock w₁.calls) hstop hs hws⟩
          ?_ ?_
        · rw [hw₁.db]
          exact hT.write _
        intro w₂ hw₂ hT₂
        have ho₂ := hw₁.lt_arrays ho
        have h₂ : (w₂.array orders)[i]? = some r := by rw [hw₂.array ho₂, h₁]
        refine wp_get h₂ ?_
        refine Follow.update
          ⟨_, Plan.part (env.clock w.calls) (env.clock w₁.calls) hstop hs hws⟩ ?_
        intro w₃ hw₃ hT₃
        have ho₃ := hw₂.lt_arrays ho₂
        have h₃ : w₃.array orders = w.array orders := by
          rw [hw₃.array ho₃, hw₂.array ho₂, hw₁.array ho]
        have hloop := ih (m.rest order r) w₃ (hw₃.lt_arrays ho₃) (by rw [h₃]; omega)
        rw [h₃] at hloop
        refine wp_mono hloop fun _ _ h => h.mono fun ws' hws' => ?_
        exact Plan.part (env.clock w.calls) (env.clock w₁.calls) hstop hs hws'

/-! ## The matchers -/

/-- A matcher enters its loop iff the first resting order does not end it. -/
def OrderBookService.Matcher.Consistent (m : Matcher) : Prop :=
  ∀ order r : OrderBook, m.enter order.held r.held = !m.stop order.held r.held

/-- What a matcher answers when it has made all its writes. -/
def OrderBookService.Matcher.answer (m : Matcher) (ws : List Write) : MatchResult :=
  if ws = [] then m.notEntered else ⟨true, "Ok"⟩

/-- The outcome of a matcher before its `catch`. -/
def Enters (env : Env) (m : Matcher) (symbol : String) (P : List Write → Prop) (w : World) :
    Except Err MatchResult → World → Prop
  | .ok g, w' => ∃ ws, Follows env symbol w P ws ws w' ∧ g = m.answer ws
  | .error _, w' => ∃ ws done, Follows env symbol w P ws done w' ∧ Stops env symbol w ws done

theorem Plan.ne_nil {m : Matcher} {order r : OrderBook} {L : List OrderBook} {ws : List Write}
    (h : Plan m order (r :: L) ws) (hr : m.halts order.held r = false) : ws ≠ [] := by
  cases h with
  | stop _ h => rw [h] at hr; cases hr
  | full => exact List.cons_ne_nil _ _
  | part => exact List.cons_ne_nil _ _

/-- A pass makes three writes. -/
theorem Plan.two_le_length {m : Matcher} {order : OrderBook} {L : List OrderBook}
    {ws : List Write} (h : Plan m order L ws) (hne : ws ≠ []) : 2 ≤ ws.length := by
  cases h with
  | nil | stop => exact absurd rfl hne
  | full => simp [Matcher.fullWrites]
  | part => simp [Matcher.partWrites]

theorem entered_follows (env : Env) {m : Matcher} (hm : m.Consistent) (order : OrderBook)
    (w : World) {orders : Nat} (ho : orders < w.arrays.length) :
    wp (World.perform env)
      (if (w.array orders).length = 0 then Pure.pure m.notEntered
      else do
        let best : OrderBook ← OrderBookService.call (.get orders ((w.array orders).length - 1))
        if m.enter order.held best.held then
          matchLoop m orders (w.array orders).length order
          Pure.pure ⟨true, "Ok"⟩
        else Pure.pure m.notEntered)
      (Enters env m order.symbol (Plan m order (w.array orders).reverse) w) w := by
  split
  · next h0 =>
    have hnil : w.array orders = [] := List.length_eq_zero_iff.mp h0
    exact ⟨[], Follows.nil (by simpa [hnil] using Plan.nil order), rfl⟩
  · next h0 =>
    obtain ⟨l, best, hl⟩ : ∃ l best, w.array orders = l ++ [best] :=
      ⟨_, _, (List.dropLast_append_getLast (fun e => h0 (by simp [e]))).symm⟩
    have hget : (w.array orders)[(w.array orders).length - 1]? = some best := by
      simp [hl]
    have hreverse : (w.array orders).reverse = best :: l.reverse := by
      rw [hl, List.reverse_append, List.reverse_singleton, List.singleton_append]
    refine wp_get hget ?_
    cases hstop : m.stop order.held best.held with
    | true =>
      rw [hm, hstop, if_neg (by simp)]
      exact ⟨[], Follows.nil (by rw [hreverse]; exact Plan.stop _ hstop), rfl⟩
    | false =>
      rw [hm, hstop, if_pos (by simp)]
      have hloop := matchLoop_follows env m orders _ order w ho (le_refl _)
      rw [List.take_length, hreverse] at hloop
      rw [hreverse]
      refine (wp_bind _ _ _).mpr (wp_mono hloop ?_)
      rintro (e | u) w' h
      · exact h
      · obtain ⟨ws, h⟩ := h
        exact ⟨ws, h, (if_neg (h.plan.ne_nil hstop)).symm⟩

/-- The outcome of a matcher: all its writes, or a failure with a reason. -/
def Matches (env : Env) (m : Matcher) (symbol : String) (P : List Write → Prop) (w : World) :
    Except Err MatchResult → World → Prop
  | .ok g, w' =>
      (∃ ws, Follows env symbol w P ws ws w' ∧ g = m.answer ws) ∨
        ∃ ws done, Follows env symbol w P ws done w' ∧ Stops env symbol w ws done ∧
          g = ⟨false, "Failed to place order"⟩
  | .error _, _ => False

theorem run_matches (env : Env) {m : Matcher} (hm : m.Consistent) (order : OrderBook) (w : World)
    (ho : w.side m.side.opposite < w.arrays.length) :
    wp (World.perform env) (m.run order)
      (Matches env m order.symbol
        (Plan m order (w.array (w.side m.side.opposite)).reverse) w) w := by
  unfold Matcher.run
  have h := entered_follows env hm order
    { w with captures := w.captures ++ [⟨order, w.array (w.side m.side.opposite)⟩] } ho
  change wp _ (Proc.tryCatch _ _) _ _
  refine (wp_tryCatch _ _ _).mpr (wp_mono h ?_)
  rintro (e | g) w' h
  · obtain ⟨ws, done, h, hs⟩ := h
    exact .inr ⟨ws, done, h.of_eq rfl rfl, hs, rfl⟩
  · obtain ⟨ws, h, hg⟩ := h
    exact .inl ⟨ws, h.of_eq rfl rfl, hg⟩

/-- Prices compare: there is no `NaN` among them. -/
theorem OrderBook.held_le (order r : OrderBook) :
    order.held.le Double.fl r.held = !r.held.lt Double.fl order.held := by
  unfold OrderBook.held
  rcases order.price with _ | p <;> rcases r.price with _ | q <;>
    cases order.numeric <;> cases r.numeric <;>
    simp [Text.Value.le, Text.Value.lt, Text.Value.toNumber, Text.Number_fixed, ← decide_not]

/-- Prices with equally many digits before the point compare as their numbers do. -/
theorem OrderBook.held_le_iff {order r : OrderBook} {p q : ℚ} (hp : order.price = some p)
    (hq : r.price = some q) (horder : order.numeric = false) (hr : r.numeric = false) (hp0 : 0 ≤ p)
    (hq0 : 0 ≤ q) (h : Text.wholeDigits 8 p = Text.wholeDigits 8 q) :
    order.held.le Double.fl r.held = true ↔ Store.roundTo 8 p ≤ Store.roundTo 8 q := by
  have hlt := Text.fixed_lt_iff hq0 hp0 h.symm
  simp only [OrderBook.held, hp, hq, horder, hr, Bool.false_eq_true, if_false, Text.Value.le,
    decide_eq_true_eq, hlt, not_lt]

theorem buyMatcher_consistent : buyMatcher.Consistent := fun order r => r.held_le order

theorem sellMatcher_consistent : sellMatcher.Consistent := fun order r => order.held_le r

theorem marketBuyMatcher_consistent : marketBuyMatcher.Consistent := fun _ _ => rfl

theorem marketSellMatcher_consistent : marketSellMatcher.Consistent := fun _ _ => rfl

end Exchange
