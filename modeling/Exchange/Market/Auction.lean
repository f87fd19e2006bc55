import Exchange.Store.Greedy
import Mathlib.Logic.Function.Basic

/-!
# A continuous auction

Offers stand on the two sides of a market, each under a key. An order takes from
the offers of the other side that it accepts, each time from one with the best
price, until it is filled or no offer is left; what is left of an order with a
limit is an offer from then on. Which of several best offers is taken is open, so
`Match` and `Run` are relations.

Proved here:

* `Match.of_walk`: the greedy walk over a list of offers, best prices first, is a
  match;
* `Run.uncrossed`: no run leaves a bid at or above an ask;
* `Run.account`: what was dealt under a key and what still stands there add up to
  what was submitted under it.
-/

namespace Auction

inductive Side where
  | bid
  | ask
  deriving DecidableEq

def Side.opposite : Side → Side
  | .bid => .ask
  | .ask => .bid

variable {K U M P Q : Type}

/-- For an order of this side the first price is better. -/
def Side.better [LT P] (side : Side) (p q : P) : Prop :=
  match side with
  | .bid => p < q
  | .ask => q < p

structure Offer (U M P Q : Type) where
  owner : U
  market : M
  side : Side
  price : P
  size : Q

/-- The offers that stand, by key. -/
abbrev Book (K U M P Q : Type) := K → Option (Offer U M P Q)

/-- An order; without a limit it accepts every price. -/
structure Order (U M P Q : Type) where
  owner : U
  market : M
  side : Side
  limit : Option P
  size : Q

/-- An order takes from an offer. -/
structure Deal (K U M P Q : Type) where
  taker : K
  maker : K
  buyer : U
  seller : U
  market : M
  price : P
  size : Q

def Order.accepts [LT P] (o : Order U M P Q) (p : P) : Prop :=
  ∀ l ∈ o.limit, ¬ o.side.better l p

/-- What is left of an order under its limit. -/
def Order.offer (o : Order U M P Q) (p : P) (q : Q) : Offer U M P Q :=
  ⟨o.owner, o.market, o.side, p, q⟩

/-- The deal in which the order under `key` takes `q` from the offer `x` under `k`. -/
def Order.deal (o : Order U M P Q) (key k : K) (x : Offer U M P Q) (q : Q) : Deal K U M P Q where
  taker := key
  maker := k
  buyer := match o.side with
    | .bid => o.owner
    | .ask => x.owner
  seller := match o.side with
    | .bid => x.owner
    | .ask => o.owner
  market := o.market
  price := x.price
  size := q

/-- The order may take from the offer `x` under `k`. -/
structure Book.Acceptable [LT P] (b : Book K U M P Q) (o : Order U M P Q) (k : K)
    (x : Offer U M P Q) : Prop where
  stands : b k = some x
  market : x.market = o.market
  side : x.side = o.side.opposite
  price : o.accepts x.price

/-- No offer that the order may take from has a better price. -/
structure Book.Best [LT P] (b : Book K U M P Q) (o : Order U M P Q) (k : K) (x : Offer U M P Q) :
    Prop extends b.Acceptable o k x where
  best : ∀ k' x', b.Acceptable o k' x' → ¬ o.side.better x'.price x.price

section Auction

variable [DecidableEq K] [LinearOrder P] [AddCommGroup Q] [LinearOrder Q]

/-- `q` is taken from the offer `x` under `k`. -/
def Book.take (b : Book K U M P Q) (k : K) (x : Offer U M P Q) (q : Q) : Book K U M P Q :=
  Function.update b k (if x.size - q = 0 then none else some { x with size := x.size - q })

/-- From a book and a size that is to be taken, the deals that are made, to the book
and the size that are left. -/
inductive Match (key : K) (o : Order U M P Q) :
    Book K U M P Q → Q → List (Deal K U M P Q) → Book K U M P Q → Q → Prop
  | filled (b : Book K U M P Q) : Match key o b 0 [] b 0
  | exhausted (b : Book K U M P Q) (q : Q) (h : ∀ k x, ¬ b.Acceptable o k x) :
      Match key o b q [] b q
  | deal {b b' : Book K U M P Q} {q q' : Q} {ds : List (Deal K U M P Q)} (k : K)
      (x : Offer U M P Q) (hbest : b.Best o k x) (hq : 0 < q)
      (h : Match key o (b.take k x (min q x.size)) (q - min q x.size) ds b' q') :
      Match key o b q (o.deal key k x (min q x.size) :: ds) b' q'

/-- An order is matched, and what is left of it stands under its limit. -/
inductive Place (key : K) (o : Order U M P Q) (b : Book K U M P Q) (ds : List (Deal K U M P Q)) :
    Book K U M P Q → Prop
  | filled {b' : Book K U M P Q} (h : Match key o b o.size ds b' 0) : Place key o b ds b'
  | rests {b' : Book K U M P Q} {q : Q} {p : P} (h : Match key o b o.size ds b' q) (hq : 0 < q)
      (hp : o.limit = some p) : Place key o b ds (Function.update b' key (some (o.offer p q)))

/-- Orders are placed one after the other, each under a new key. -/
inductive Run :
    Book K U M P Q → List (K × Order U M P Q) → List (Deal K U M P Q) → Book K U M P Q → Prop
  | nil (b : Book K U M P Q) : Run b [] [] b
  | cons {b b' b'' : Book K U M P Q} {key : K} {o : Order U M P Q}
      {orders : List (K × Order U M P Q)} {ds ds' : List (Deal K U M P Q)} (hnew : b key = none)
      (hsize : 0 < o.size) (h : Place key o b ds b') (hrun : Run b' orders ds' b'') :
      Run b ((key, o) :: orders) (ds ++ ds') b''

/-! ## A walk is a match -/

/-- The book after everything in the list was taken. -/
def Book.takeAll {α : Type} (k : α → K) (x : α → Offer U M P Q) :
    Book K U M P Q → List (α × Q) → Book K U M P Q
  | b, [] => b
  | b, f :: F => takeAll k x (b.take (k f.1) (x f.1) f.2) F

section Walk

variable {α : Type} {k : α → K} {x : α → Offer U M P Q} {F : List (α × Q)} {L : List α}
  {b : Book K U M P Q} {q : Q} {o : Order U M P Q} {key : K}

omit [LinearOrder P] in
theorem Book.take_of_ne {k k' : K} (h : k' ≠ k) (x : Offer U M P Q) (q : Q) :
    b.take k x q k' = b k' :=
  Function.update_of_ne h _ _

omit [LinearOrder P] in
@[simp] theorem Book.take_self (k : K) (x : Offer U M P Q) (q : Q) :
    b.take k x q k = if x.size - q = 0 then none else some { x with size := x.size - q } :=
  Function.update_self _ _ _

omit [LinearOrder P] in
/-- What stands under a key from which nothing was taken. -/
theorem Book.takeAll_of_not_mem {k' : K} (h : ∀ f ∈ F, k f.1 ≠ k') :
    b.takeAll k x F k' = b k' := by
  induction F generalizing b with
  | nil => rfl
  | cons f F ih =>
    obtain ⟨hf, hF⟩ := List.forall_mem_cons.mp h
    exact (ih hF).trans (Book.take_of_ne hf.symm _ _)

omit [LinearOrder P] in
/-- What stands under a key from which something was taken. -/
theorem Book.takeAll_of_mem (hnd : (F.map fun f => k f.1).Nodup) {f : α × Q} (hf : f ∈ F) :
    b.takeAll k x F (k f.1) = if (x f.1).size - f.2 = 0 then none
      else some { x f.1 with size := (x f.1).size - f.2 } := by
  induction F generalizing b with
  | nil => cases hf
  | cons g F ih =>
    rw [List.map_cons, List.nodup_cons] at hnd
    rcases List.mem_cons.mp hf with rfl | hf
    · have hne : ∀ g ∈ F, k g.1 ≠ k f.1 :=
        fun g hg he => hnd.1 (List.mem_map.mpr ⟨g, hg, he⟩)
      exact (Book.takeAll_of_not_mem hne).trans (Book.take_self _ _ _)
    · exact ih hnd.2 hf

omit [AddCommGroup Q] [LinearOrder Q] in
/-- A price at least as good as an accepted one is accepted. -/
theorem Order.accepts_of_not_better {p p' : P} (hp : o.accepts p)
    (h : ¬ o.side.better p p') : o.accepts p' := by
  intro l hl
  have hlp := hp l hl
  cases hs : o.side with
  | bid =>
    simp only [hs, Side.better, not_lt] at hlp h ⊢
    exact h.trans hlp
  | ask =>
    simp only [hs, Side.better, not_lt] at hlp h ⊢
    exact hlp.trans h

/-- **A walk is a match**: the list has the offers that the order may take, the best
prices first, and the walk stops at the first one that it does not accept. -/
theorem Match.of_walk [IsOrderedAddMonoid Q] {stop : α → Bool} (hq : 0 ≤ q)
    (hstop : ∀ r ∈ L, stop r = false ↔ o.accepts (x r).price)
    (hstands : ∀ r ∈ L, b (k r) = some (x r) ∧ (x r).market = o.market ∧
      (x r).side = o.side.opposite ∧ 0 < (x r).size)
    (hall : ∀ k' x', b.Acceptable o k' x' → ∃ r ∈ L, k r = k' ∧ x r = x')
    (hsorted : L.Pairwise fun r r' => ¬ o.side.better (x r').price (x r).price)
    (hnd : (L.map k).Nodup) :
    let F := Greedy.walk stop (fun r => (x r).size) q L
    Match key o b q (F.map fun f => o.deal key (k f.1) (x f.1) f.2) (b.takeAll k x F)
      (q - (F.map Prod.snd).sum) := by
  induction L generalizing b q with
  | nil =>
    have hnone : ∀ k' x', ¬ b.Acceptable o k' x' := by
      intro k' x' h
      obtain ⟨r, hr, -⟩ := hall k' x' h
      cases hr
    simpa [Greedy.walk, Book.takeAll] using Match.exhausted b q hnone
  | cons r L ih =>
    obtain ⟨hr, hL⟩ := List.forall_mem_cons.mp hstands
    obtain ⟨hsr, hsL⟩ := List.forall_mem_cons.mp hstop
    rw [List.pairwise_cons] at hsorted
    rw [List.map_cons, List.nodup_cons] at hnd
    rcases hq.eq_or_lt with rfl | hpos
    · have hfilled : Match key o b 0 [] b 0 := .filled b
      simpa [Greedy.walk_zero, Book.takeAll] using hfilled
    by_cases hgo : stop r = false
    · -- the first offer is a best one
      have hwalk : Greedy.walk stop (fun r => (x r).size) q (r :: L) =
          (r, min q (x r).size) ::
            Greedy.walk stop (fun r => (x r).size) (q - min q (x r).size) L := by
        simp [Greedy.walk, hpos, hgo]
      have hbest : b.Best o (k r) (x r) := by
        refine ⟨⟨hr.1, hr.2.1, hr.2.2.1, hsr.mp hgo⟩, fun k' x' h => ?_⟩
        obtain ⟨r', hr', rfl, rfl⟩ := hall k' x' h
        rcases List.mem_cons.mp hr' with rfl | hr'
        · cases o.side <;> exact lt_irrefl _
        · exact hsorted.1 r' hr'
      have hsum : q - min q (x r).size - ((Greedy.walk stop (fun r => (x r).size)
          (q - min q (x r).size) L).map Prod.snd).sum =
          q - (min q (x r).size + ((Greedy.walk stop (fun r => (x r).size)
            (q - min q (x r).size) L).map Prod.snd).sum) := by abel
      dsimp only
      rw [hwalk, List.map_cons, List.map_cons, List.sum_cons, ← hsum]
      apply Match.deal (k r) (x r) hbest hpos
      rcases le_or_gt q (x r).size with hle | hlt
      · -- the order is filled from it
        rw [min_eq_left hle, sub_self, Greedy.walk_zero]
        have hfilled : Match key o (b.take (k r) (x r) q) 0 [] (b.take (k r) (x r) q) 0 :=
          .filled _
        simpa [Book.takeAll] using hfilled
      · -- it is taken whole, and is gone
        rw [min_eq_right hlt.le]
        have hgone : b.take (k r) (x r) (x r).size (k r) = none := by simp
        have hother : ∀ r' ∈ L, k r' ≠ k r :=
          fun r' hr' he => hnd.1 (he ▸ List.mem_map_of_mem hr')
        apply ih (sub_nonneg.mpr hlt.le) hsL
        · intro r' hr'
          rw [Book.take_of_ne (hother r' hr')]
          exact hL r' hr'
        · intro k' x' h
          by_cases hk : k' = k r
          · have hstands := h.stands
            rw [hk, hgone] at hstands
            cases hstands
          · have hstands := h.stands
            rw [Book.take_of_ne hk] at hstands
            obtain ⟨r', hr', rfl, rfl⟩ := hall k' x' ⟨hstands, h.market, h.side, h.price⟩
            rcases List.mem_cons.mp hr' with rfl | hr'
            · exact absurd rfl hk
            · exact ⟨r', hr', rfl, rfl⟩
        · exact hsorted.2
        · exact hnd.2
    · -- beyond the first offer that is not accepted nothing is
      have hnone : ∀ k' x', ¬ b.Acceptable o k' x' := by
        intro k' x' h
        obtain ⟨r', hr', rfl, rfl⟩ := hall k' x' h
        rcases List.mem_cons.mp hr' with rfl | hr'
        · exact hgo (hsr.mpr h.price)
        · exact hgo (hsr.mpr (Order.accepts_of_not_better h.price (hsorted.1 r' hr')))
      have hwalk : Greedy.walk stop (fun r => (x r).size) q (r :: L) = [] := by
        simp [Greedy.walk, hgo]
      dsimp only
      rw [hwalk]
      simpa [Book.takeAll] using Match.exhausted b q hnone

end Walk

/-! ## What a run keeps -/

/-- Every bid is below every ask of its market. -/
def Book.Uncrossed (b : Book K U M P Q) : Prop :=
  ∀ k x k' x', b k = some x → b k' = some x' → x.side = .bid → x'.side = .ask →
    x.market = x'.market → x.price < x'.price

/-- The size that stands under a key. -/
def Book.standing (b : Book K U M P Q) (k : K) : Q := (b k).elim 0 Offer.size

/-- What was dealt under a key. -/
def dealt (k : K) (ds : List (Deal K U M P Q)) : Q :=
  (ds.map fun d => (if d.taker = k then d.size else 0) + if d.maker = k then d.size else 0).sum

/-- What was submitted under a key. -/
def submitted (k : K) (orders : List (K × Order U M P Q)) : Q :=
  (orders.map fun e => if e.1 = k then e.2.size else 0).sum

/-- Every offer of the second book stands in the first, perhaps with a larger size. -/
def Book.Within (b' b : Book K U M P Q) : Prop :=
  ∀ k x', b' k = some x' → ∃ x, b k = some x ∧ x'.market = x.market ∧ x'.side = x.side ∧
    x'.price = x.price

section Kept

variable {key : K} {o : Order U M P Q} {b b' : Book K U M P Q} {q q' : Q}
  {ds : List (Deal K U M P Q)}

omit [AddCommGroup Q] [LinearOrder Q] [DecidableEq K] in
theorem Book.Uncrossed.within (h : b.Uncrossed) (hb : b'.Within b) : b'.Uncrossed := by
  intro k x k' x' hk hk' hbid hask hmarket
  obtain ⟨y, hy, hym, hys, hyp⟩ := hb k x hk
  obtain ⟨y', hy', hym', hys', hyp'⟩ := hb k' x' hk'
  rw [hyp, hyp']
  exact h k y k' y' hy hy' (hys ▸ hbid) (hys' ▸ hask) (hym ▸ hym' ▸ hmarket)

omit [LinearOrder P] in
theorem Book.take_within {k : K} {x : Offer U M P Q} (hx : b k = some x) (q : Q) :
    (b.take k x q).Within b := by
  intro k' x' h
  by_cases hk : k' = k
  · subst hk
    rw [Book.take_self] at h
    split at h
    · cases h
    · cases h
      exact ⟨x, hx, rfl, rfl, rfl⟩
  · rw [Book.take_of_ne hk] at h
    exact ⟨x', h, rfl, rfl, rfl⟩

theorem Match.within (h : Match key o b q ds b' q') : b'.Within b := by
  induction h with
  | filled | exhausted => exact fun k x h => ⟨x, h, rfl, rfl, rfl⟩
  | deal k x hbest hq h ih =>
    intro k' x' h'
    obtain ⟨y, hy, hym, hys, hyp⟩ := ih k' x' h'
    obtain ⟨z, hz, hzm, hzs, hzp⟩ := Book.take_within hbest.stands _ k' y hy
    exact ⟨z, hz, hym.trans hzm, hys.trans hzs, hyp.trans hzp⟩

/-- An order that is not filled leaves no offer that it accepts. -/
theorem Match.exhausts (h : Match key o b q ds b' q') (hq : q' ≠ 0) (k : K)
    (x : Offer U M P Q) : ¬ b'.Acceptable o k x := by
  induction h with
  | filled => exact absurd rfl hq
  | exhausted b q h => exact h k x
  | deal _ _ _ _ _ ih => exact ih hq

theorem Place.uncrossed (h : Place key o b ds b') (hb : b.Uncrossed) : b'.Uncrossed := by
  cases h with
  | filled h => exact hb.within h.within
  | @rests b₁ q p h hq hp =>
    have hb₁ := hb.within h.within
    -- an offer of the other side that crosses the limit would have been taken
    have hcross : ∀ k x, b₁ k = some x → x.market = o.market → x.side = o.side.opposite →
        o.side.better p x.price := by
      intro k x hx hm hs
      by_contra hnot
      refine h.exhausts hq.ne' k x ⟨hx, hm, hs, ?_⟩
      intro l hl
      rw [hp] at hl
      cases hl
      exact hnot
    intro k x k' x' hk hk' hbid hask hmarket
    rw [Function.update_apply] at hk hk'
    split at hk <;> split at hk'
    · cases hk
      cases hk'
      rw [hbid] at hask
      cases hask
    · cases hk
      have hside : o.side = .bid := hbid
      have := hcross k' x' hk' hmarket.symm (by rw [hside]; exact hask)
      rw [hside] at this
      exact this
    · cases hk'
      have hside : o.side = .ask := hask
      have := hcross k x hk hmarket (by rw [hside]; exact hbid)
      rw [hside] at this
      exact this
    · exact hb₁ k x k' x' hk hk' hbid hask hmarket

/-- **No run crosses a book.** -/
theorem Run.uncrossed {orders : List (K × Order U M P Q)} (h : Run b orders ds b')
    (hb : b.Uncrossed) : b'.Uncrossed := by
  induction h with
  | nil => exact hb
  | cons hnew hsize h hrun ih => exact ih (h.uncrossed hb)

omit [LinearOrder P] in
theorem Book.standing_take {k : K} {x : Offer U M P Q} (hx : b k = some x) (q : Q) (k' : K) :
    (b.take k x q).standing k' + (if k = k' then q else 0) = b.standing k' := by
  by_cases hk : k = k'
  · subst hk
    unfold standing
    rw [Book.take_self, hx]
    split
    · next h0 => simp [sub_eq_zero.mp h0]
    · simp
  · unfold standing
    rw [Book.take_of_ne (Ne.symm hk), if_neg hk, add_zero]

omit [LinearOrder P] [LinearOrder Q] in
theorem dealt_append (k : K) (ds ds' : List (Deal K U M P Q)) :
    dealt k (ds ++ ds') = dealt k ds + dealt k ds' := by
  simp [dealt]

/-- What is dealt in a match is taken from the offers and from what was to be taken. -/
theorem Match.account (h : Match key o b q ds b' q') (hkey : b key = none) (k : K) :
    b'.standing k + dealt k ds = b.standing k + if key = k then q - q' else 0 := by
  induction h with
  | filled b => simp [dealt]
  | exhausted b q h => simp [dealt]
  | @deal b b' q q' ds k₁ x hbest hq h ih =>
    have hne : k₁ ≠ key := by
      rintro rfl
      rw [hbest.stands] at hkey
      cases hkey
    have hkey' : b.take k₁ x (min q x.size) key = none := by
      rw [Book.take_of_ne hne.symm, hkey]
    have hrest := ih hkey'
    have hstand := Book.standing_take hbest.stands (min q x.size) k
    have hcons : dealt k (o.deal key k₁ x (min q x.size) :: ds) =
        ((if key = k then min q x.size else 0) + if k₁ = k then min q x.size else 0) +
          dealt k ds := by
      simp [dealt, Order.deal]
    rw [hcons, ← hstand]
    by_cases hk : key = k
    · have hk₁ : k₁ ≠ k := hk ▸ hne
      simp only [hk, hk₁, if_true, if_false, add_zero] at hrest ⊢
      calc b'.standing k + (min q x.size + dealt k ds)
          = (b'.standing k + dealt k ds) + min q x.size := by abel
        _ = (b.take k₁ x (min q x.size)).standing k + (q - q') := by rw [hrest]; abel
    · simp only [hk, if_false, add_zero, zero_add] at hrest ⊢
      calc b'.standing k + ((if k₁ = k then min q x.size else 0) + dealt k ds)
          = (b'.standing k + dealt k ds) + if k₁ = k then min q x.size else 0 := by abel
        _ = (b.take k₁ x (min q x.size)).standing k + if k₁ = k then min q x.size else 0 := by
            rw [hrest]

theorem Place.account (h : Place key o b ds b') (hkey : b key = none) (k : K) :
    b'.standing k + dealt k ds = b.standing k + if key = k then o.size else 0 := by
  cases h with
  | filled h => simpa using h.account hkey k
  | @rests b₁ q p h hq hp =>
    have hmatch := h.account hkey k
    by_cases hk : key = k
    · subst hk
      have hnone : b₁ key = none := by
        cases hb₁ : b₁ key with
        | none => rfl
        | some x =>
          obtain ⟨y, hy, -⟩ := h.within key x hb₁
          rw [hkey] at hy
          cases hy
      simp only [Book.standing, Function.update_self, hnone, hkey, if_true, Option.elim_none,
        Option.elim_some, zero_add, Order.offer] at hmatch ⊢
      rw [hmatch]
      abel
    · have hsame : Book.standing (Function.update b₁ key (some (o.offer p q))) k =
          b₁.standing k := by
        unfold Book.standing
        rw [Function.update_of_ne (Ne.symm hk)]
      rw [hsame]
      simpa [hk] using hmatch

/-- **Exact accounts**: what stands and what was dealt are what was submitted. -/
theorem Run.account {orders : List (K × Order U M P Q)} (h : Run b orders ds b') (k : K) :
    b'.standing k + dealt k ds = b.standing k + submitted k orders := by
  induction h with
  | nil b => simp [dealt, submitted]
  | @cons b b' b'' key o orders ds ds' hnew hsize h hrun ih =>
    have hplace := h.account hnew k
    have hcons : submitted k ((key, o) :: orders) =
        (if key = k then o.size else 0) + submitted k orders := by
      simp [submitted]
    rw [dealt_append, hcons]
    calc b''.standing k + (dealt k ds + dealt k ds')
        = (b''.standing k + dealt k ds') + dealt k ds := by abel
      _ = (b'.standing k + dealt k ds) + submitted k orders := by rw [ih]; abel
      _ = b.standing k + ((if key = k then o.size else 0) + submitted k orders) := by
          rw [hplace, add_assoc]

end Kept

end Auction

end Auction
