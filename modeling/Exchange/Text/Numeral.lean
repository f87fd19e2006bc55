import Mathlib.Data.Rat.Defs
import Mathlib.Data.List.Lex
import Mathlib.Data.List.TakeWhile
import Mathlib.Algebra.Order.Ring.Rat
import Mathlib.Tactic.FieldSimp
import Mathlib.Tactic.Linarith
import Mathlib.Tactic.Positivity
import Mathlib.Tactic.Ring

/-!
# Decimal numerals as texts

A numeral is a list of digits, with or without a point and digits after it. Texts are
compared character by character, so of two numerals the one is smaller whose digits
before the point, read behind a point, are smaller.

Proved here: the order of texts of digits (`chars_lt_iff`) and of what may follow them
(`Numeral.pointed_lt_iff`), that a numeral is read from its text (`Numeral.read_text`),
and that two points or a sign in the middle are no numeral.
-/

namespace Text

abbrev Digit := Fin 10

def digitChar (d : Digit) : Char := Char.ofNat (48 + d)

def chars (ds : List Digit) : List Char := ds.map digitChar

/-- The number `d₁d₂…`. -/
def natural : List Digit → ℕ
  | [] => 0
  | d :: ds => d * 10 ^ ds.length + natural ds

/-- The number `0.d₁d₂…`. -/
def fraction : List Digit → ℚ
  | [] => 0
  | d :: ds => (d + fraction ds) / 10

theorem digitChar_lt_iff : ∀ d e : Digit, digitChar d < digitChar e ↔ d < e := by
  decide +kernel

theorem digitChar_inj : ∀ d e : Digit, digitChar d = digitChar e ↔ d = e := by
  decide +kernel

theorem point_lt_digitChar : ∀ d : Digit, '.' < digitChar d := by
  decide +kernel

theorem minus_lt_digitChar : ∀ d : Digit, '-' < digitChar d := by
  decide +kernel

theorem fraction_cons (d : Digit) (ds : List Digit) :
    fraction (d :: ds) = (d + fraction ds) / 10 := rfl

theorem fraction_nonneg (ds : List Digit) : 0 ≤ fraction ds := by
  induction ds with
  | nil => exact le_refl _
  | cons d ds ih =>
    rw [fraction_cons]
    positivity

theorem fraction_lt_one (ds : List Digit) : fraction ds < 1 := by
  induction ds with
  | nil => exact one_pos
  | cons d ds ih =>
    have hd : (d : ℕ) ≤ 9 := by omega
    have hd' : ((d : ℕ) : ℚ) ≤ 9 := by exact_mod_cast hd
    rw [fraction_cons, div_lt_one (by norm_num)]
    linarith

theorem natural_append (ds es : List Digit) :
    natural (ds ++ es) = natural ds * 10 ^ es.length + natural es := by
  induction ds with
  | nil => simp [natural]
  | cons d ds ih =>
    simp only [List.cons_append, natural, ih, List.length_append, pow_add]
    ring

/-! ## The order of texts -/

/-- A digit decides, unless the next ones do. -/
theorem fraction_cons_lt_iff (d e : Digit) (ds es : List Digit) :
    fraction (d :: ds) < fraction (e :: es) ↔ d < e ∨ d = e ∧ fraction ds < fraction es := by
  have hds := fraction_nonneg ds
  have hds' := fraction_lt_one ds
  have hes := fraction_nonneg es
  have hes' := fraction_lt_one es
  rw [fraction_cons, fraction_cons, div_lt_div_iff_of_pos_right (by norm_num)]
  rcases lt_trichotomy d e with h | rfl | h
  · have hle : (d : ℕ) + 1 ≤ e := h
    have hle' : ((d : ℕ) : ℚ) + 1 ≤ (e : ℕ) := by exact_mod_cast hle
    simp only [h, true_or, iff_true]
    linarith
  · simp
  · have hle : (e : ℕ) + 1 ≤ d := h
    have hle' : ((e : ℕ) : ℚ) + 1 ≤ (d : ℕ) := by exact_mod_cast hle
    simp only [h.not_gt, h.ne', false_and, or_false, iff_false, not_lt]
    linarith

theorem fraction_cons_inj_iff (d e : Digit) (ds es : List Digit) :
    fraction (d :: ds) = fraction (e :: es) ↔ d = e ∧ fraction ds = fraction es := by
  have hlt := fraction_cons_lt_iff d e ds es
  have hgt := fraction_cons_lt_iff e d es ds
  constructor
  · intro h
    rw [h] at hlt hgt
    simp only [lt_irrefl, false_iff, not_or, not_and, not_lt] at hlt hgt
    have hde : d = e := le_antisymm hgt.1 hlt.1
    exact ⟨hde, le_antisymm (hgt.2 hde.symm) (hlt.2 hde)⟩
  · rintro ⟨rfl, h⟩
    rw [fraction_cons, fraction_cons, h]

/-- A text that is empty or goes on with something less than a digit. -/
def Low (s : List Char) : Prop := ∀ c ∈ s.head?, ∀ d, c < digitChar d

theorem low_nil : Low [] := by
  intro c hc
  cases hc

theorem low_point (s : List Char) : Low ('.' :: s) := by
  rintro c hc d
  obtain rfl := Option.some.inj hc
  exact point_lt_digitChar d

theorem low_minus (s : List Char) : Low ('-' :: s) := by
  rintro c hc d
  obtain rfl := Option.some.inj hc
  exact minus_lt_digitChar d

/-- Texts of digits compare as the fractions that they are behind a point; of two that
are the same fraction the longer one is greater. -/
theorem chars_lt_iff {s t : List Char} (hs : Low s) (ht : Low t) (ds es : List Digit) :
    chars ds ++ s < chars es ++ t ↔ fraction ds < fraction es ∨ fraction ds = fraction es ∧
      (ds.length < es.length ∨ ds.length = es.length ∧ s < t) := by
  induction ds generalizing es with
  | nil =>
    cases es with
    | nil => simp [chars]
    | cons e es =>
      have hlt : s < digitChar e :: (chars es ++ t) := by
        cases s with
        | nil => exact List.nil_lt_cons _ _
        | cons c s => exact List.cons_lt_cons_iff.mpr (.inl (hs c rfl e))
      have hle : fraction [] ≤ fraction (e :: es) := fraction_nonneg _
      refine iff_of_true hlt ?_
      rcases hle.lt_or_eq with h | h
      · exact .inl h
      · exact .inr ⟨h, .inl (Nat.succ_pos _)⟩
  | cons d ds ih =>
    cases es with
    | nil =>
      have hlt : ¬ digitChar d :: (chars ds ++ s) < t := by
        cases t with
        | nil => exact List.not_lt_nil _
        | cons c t =>
          intro h
          have hc := ht c rfl d
          rcases List.cons_lt_cons_iff.mp h with h | ⟨h, -⟩
          · exact Char.lt_asymm h hc
          · exact Char.lt_irrefl _ (h ▸ hc)
      refine iff_of_false hlt ?_
      have hnonneg : fraction [] ≤ fraction (d :: ds) := fraction_nonneg _
      rintro (h | ⟨-, h | ⟨h, -⟩⟩)
      · exact absurd h hnonneg.not_gt
      · exact Nat.not_lt_zero _ h
      · exact Nat.succ_ne_zero _ h
    | cons e es =>
      change digitChar d :: (chars ds ++ s) < digitChar e :: (chars es ++ t) ↔ _
      rw [List.cons_lt_cons_iff, digitChar_lt_iff, digitChar_inj, fraction_cons_lt_iff,
        fraction_cons_inj_iff, ih, List.length_cons, List.length_cons, Nat.add_lt_add_iff_right,
        Nat.add_right_cancel_iff]
      tauto

/-! ## Numerals -/

/-- Digits, and the digits after the point if there is one. -/
structure Numeral where
  digits : List Digit
  places : Option (List Digit)
  some_digit : digits ≠ [] ∨ places.getD [] ≠ []
  deriving DecidableEq

namespace Numeral

/-- The point and what is after it. -/
def pointed : Option (List Digit) → List Char
  | none => []
  | some ds => '.' :: chars ds

def text (n : Numeral) : List Char := chars n.digits ++ pointed n.places

def value (n : Numeral) : ℚ := natural n.digits + fraction (n.places.getD [])

theorem low_pointed (places : Option (List Digit)) : Low (pointed places) := by
  cases places with
  | none => exact low_nil
  | some ds => exact low_point _

/-- The order of what is after the digits, where one text goes on. -/
theorem pointed_lt_iff {s : List Char} (hs : Low s) (places : Option (List Digit))
    (gs : List Digit) : pointed places < '.' :: (chars gs ++ s) ↔
      ∀ fs ∈ places, fraction fs < fraction gs ∨ fraction fs = fraction gs ∧
        (fs.length < gs.length ∨ fs.length = gs.length ∧ s ≠ []) := by
  cases places with
  | none => exact iff_of_true (List.nil_lt_cons _ _) (fun fs hfs => by cases hfs)
  | some fs =>
    have hnil : [] < s ↔ s ≠ [] := by
      cases s <;> simp
    change '.' :: chars fs < '.' :: (chars gs ++ s) ↔ _
    rw [List.cons_lt_cons_iff, ← List.append_nil (chars fs), chars_lt_iff low_nil hs, hnil]
    simp

theorem pointed_lt_minus_iff (places : Option (List Digit)) (s : List Char) :
    pointed places < '-' :: s ↔ places = none := by
  cases places with
  | none => exact iff_of_true (List.nil_lt_cons _ _) rfl
  | some fs =>
    refine iff_of_false ?_ (Option.some_ne_none fs)
    change ¬ '.' :: chars fs < '-' :: s
    rw [List.cons_lt_cons_iff]
    rintro (h | ⟨h, -⟩)
    · exact absurd h (by decide)
    · exact absurd h (by decide)

/-- A text with a sign before it is less than one without. -/
theorem minus_lt_text (n : Numeral) (s t : List Char) : '-' :: s < n.text ++ t := by
  obtain ⟨_ | ⟨d, ds⟩, places, hdigit⟩ := n
  · cases places with
    | none => exact absurd hdigit (by simp)
    | some es => exact List.cons_lt_cons_iff.mpr (.inl (by decide))
  · exact List.cons_lt_cons_iff.mpr (.inl (minus_lt_digitChar d))

/-! ## Reading a text -/

def digitOf (c : Char) : Option Digit := (List.finRange 10).find? fun d => digitChar d = c

theorem digitOf_digitChar : ∀ d : Digit, digitOf (digitChar d) = some d := by
  decide +kernel

theorem digitOf_point : digitOf '.' = none := by
  decide +kernel

theorem digitOf_minus : digitOf '-' = none := by
  decide +kernel

def readDigits : List Char → Option (List Digit)
  | [] => some []
  | c :: s => (digitOf c).bind fun d => (readDigits s).map (d :: ·)

theorem readDigits_chars (ds : List Digit) : readDigits (chars ds) = some ds := by
  induction ds with
  | nil => rfl
  | cons d ds ih =>
    change (digitOf (digitChar d)).bind (fun d => (readDigits (chars ds)).map (d :: ·)) = _
    rw [digitOf_digitChar, Option.bind_some, ih]
    rfl

theorem readDigits_other {c : Char} (hc : digitOf c = none) (ds : List Digit) (s : List Char) :
    readDigits (chars ds ++ c :: s) = none := by
  induction ds with
  | nil =>
    change (digitOf c).bind _ = _
    rw [hc]
    rfl
  | cons d ds ih =>
    change (digitOf (digitChar d)).bind (fun d => (readDigits (chars ds ++ c :: s)).map _) = _
    rw [ih]
    cases digitOf (digitChar d) <;> rfl

/-- The numeral of some digits, if there are any. -/
def ofDigits (ds : List Digit) (places : Option (List Digit)) : Option Numeral :=
  if h : ds ≠ [] ∨ places.getD [] ≠ [] then some ⟨ds, places, h⟩ else none

/-- The numeral that a text is, if it has a digit, and no character but digits and one point. -/
def read (s : List Char) : Option Numeral :=
  match s.dropWhile (· ≠ '.') with
  | [] => (readDigits s).bind fun ds => ofDigits ds none
  | _ :: t => (readDigits (s.takeWhile (· ≠ '.'))).bind fun ds =>
      (readDigits t).bind fun es => ofDigits ds (some es)

theorem ofDigits_eq (n : Numeral) : ofDigits n.digits n.places = some n := dif_pos n.some_digit

theorem chars_no_point (ds : List Digit) : ∀ c ∈ chars ds, (decide (c ≠ '.')) = true := by
  intro c hc
  obtain ⟨d, -, rfl⟩ := List.mem_map.mp hc
  have hne : digitChar d ≠ '.' := fun h => Char.lt_irrefl _ (h ▸ point_lt_digitChar d)
  exact decide_eq_true hne

/-- Something that is no list of digits before the first point. -/
theorem read_eq_none {s : List Char} (hs : ∀ c ∈ s, c ≠ '.') (hread : readDigits s = none)
    (t : List Char) : read (s ++ '.' :: t) = none := by
  have hpos : ∀ c ∈ s, (decide (c ≠ '.')) = true := fun c hc => decide_eq_true (hs c hc)
  have hdrop : (s ++ '.' :: t).dropWhile (· ≠ '.') = '.' :: t := by
    rw [List.dropWhile_append_of_pos hpos]
    simp
  have htake : (s ++ '.' :: t).takeWhile (· ≠ '.') = s := by
    rw [List.takeWhile_append_of_pos hpos]
    simp
  unfold read
  rw [hdrop, htake, hread]
  rfl

/-- Digits, a point, and whatever follows it. -/
theorem read_pointed (ds : List Digit) (s : List Char) :
    read (chars ds ++ '.' :: s) = (readDigits s).bind fun es => ofDigits ds (some es) := by
  have hdrop : (chars ds ++ '.' :: s).dropWhile (· ≠ '.') = '.' :: s := by
    rw [List.dropWhile_append_of_pos (chars_no_point ds)]
    simp
  have htake : (chars ds ++ '.' :: s).takeWhile (· ≠ '.') = chars ds := by
    rw [List.takeWhile_append_of_pos (chars_no_point ds)]
    simp
  unfold read
  rw [hdrop]
  simp only [htake, readDigits_chars, Option.bind_some]

/-- A numeral is read from its text. -/
theorem read_text (n : Numeral) : read n.text = some n := by
  obtain ⟨ds, _ | es, h⟩ := n
  · have hdrop : (chars ds).dropWhile (· ≠ '.') = [] :=
      List.dropWhile_eq_nil_iff.mpr (chars_no_point ds)
    unfold read
    rw [text, pointed, List.append_nil, hdrop]
    simp only [readDigits_chars, Option.bind_some]
    exact ofDigits_eq ⟨ds, none, h⟩
  · change read (chars ds ++ '.' :: chars es) = _
    rw [read_pointed, readDigits_chars, Option.bind_some]
    exact ofDigits_eq ⟨ds, some es, h⟩

/-- Two points are no numeral. -/
theorem read_two_points (ds es : List Digit) (s : List Char) :
    read (chars ds ++ '.' :: (chars es ++ '.' :: s)) = none := by
  rw [read_pointed, readDigits_other digitOf_point]
  rfl

/-- A sign behind digits is no numeral. -/
theorem read_minus (ds : List Digit) (s t : List Char) (hs : ∀ c ∈ s, c ≠ '.') :
    read (chars ds ++ '-' :: (s ++ '.' :: t)) = none := by
  have hjoin : chars ds ++ '-' :: (s ++ '.' :: t) = (chars ds ++ '-' :: s) ++ '.' :: t := by
    simp
  rw [hjoin]
  apply read_eq_none
  · intro c hc
    rcases List.mem_append.mp hc with hc | hc
    · exact of_decide_eq_true (chars_no_point ds c hc)
    · rcases List.mem_cons.mp hc with rfl | hc
      · decide
      · exact hs c hc
  · exact readDigits_other digitOf_minus ds s

/-- A sign behind digits is no numeral, after a point either. -/
theorem read_point_minus (ds es : List Digit) (s : List Char) :
    read (chars ds ++ '.' :: (chars es ++ '-' :: s)) = none := by
  rw [read_pointed, readDigits_other digitOf_minus]
  rfl

end Numeral

end Text
