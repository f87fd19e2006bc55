import Exchange.Wallets.Overspend
import Exchange.Wallets.Transfers

/-!
# The balance checks

A request's amount, a fee and a balance arrive as texts: what mysql returns for a
decimal column and what `formatEther` returns are strings. On them `+` writes one text
behind the other and `<` compares character by character.

Proved here: what each check compares (`above_iff`, `number_joined`), and exactly when
it answers as the numbers do (`comparesNumbers_iff`).
-/

namespace Exchange.Wallets

open Text Text.Numeral

/-- The functions that check a balance. -/
inductive Check where
  | withdrawal
  | transferBep20
  | transferBep20USDT
  | transferETH
  | transferBNBBep20
  | sendBitcoin
  deriving DecidableEq

open WalletController in
/-- What the function answers at its check. -/
def Check.answer (double : ℚ → ℚ) (amount fees balance : List Char) :
    Check → Option WithdrawlResponse
  | withdrawal => refuseWithdrawal (.text (amount ++ fees)) (.text balance)
  | transferBep20 => refuseTransferBep20 amount fees balance
  | transferBep20USDT => refuseTransferBep20USDT amount fees balance
  | transferETH => refuseTransferETH amount fees balance
  | transferBNBBep20 => refuseTransferBNBBep20 amount fees balance
  | sendBitcoin => refuseSendBitcoin double amount fees balance

/-! ## What the texts compare -/

/-- The digits before the point of the fee continue those of an amount without a point. -/
def leading (a : Numeral) (f : ColumnText) : List Digit :=
  match a.places, f.negative with
  | none, false => a.digits ++ f.digits
  | _, _ => a.digits

/-- What follows the leading digits. -/
def trailing (a : Numeral) (f : ColumnText) : List Char :=
  match a.places, f.negative with
  | none, false => '.' :: chars f.places
  | none, true => '-' :: (chars f.digits ++ '.' :: chars f.places)
  | some ps, false => '.' :: (chars (ps ++ f.digits) ++ '.' :: chars f.places)
  | some ps, true => '.' :: (chars ps ++ '-' :: (chars f.digits ++ '.' :: chars f.places))

theorem text_append (a : Numeral) (f : ColumnText) :
    a.text ++ f.signed.text = chars (leading a f) ++ trailing a f := by
  obtain ⟨as, _ | ps, ha⟩ := a <;> obtain ⟨_ | _, es, fs, hf⟩ := f <;>
    simp [Numeral.text, Signed.text, ColumnText.signed, leading, trailing, pointed, chars]

theorem low_trailing (a : Numeral) (f : ColumnText) : Low (trailing a f) := by
  obtain ⟨as, _ | ps, ha⟩ := a <;> obtain ⟨_ | _, es, fs, hf⟩ := f
  · exact low_point _
  · exact low_minus _
  · exact low_point _
  · exact low_point _

/-- The places of a number, and whether something follows them, are above those of `b`. -/
def PlacesAbove (b : Numeral) (places : List Digit) (more : Prop) : Prop :=
  ∀ gs ∈ b.places, fraction gs < fraction places ∨ fraction gs = fraction places ∧
    (gs.length < places.length ∨ gs.length = places.length ∧ more)

/-- What is after the leading digits is above what is after the digits of `b`. -/
def TrailingAbove (a : Numeral) (f : ColumnText) (b : Numeral) : Prop :=
  match a.places, f.negative with
  | none, false => PlacesAbove b f.places False
  | none, true => b.places = none
  | some ps, false => PlacesAbove b (ps ++ f.digits) True
  | some ps, true => PlacesAbove b ps True

/-- The leading digits, read behind a point, are above those of the balance `b`; of equal
ones the longer are, and then what follows decides. Nothing is below a balance below 0. -/
def Above (a : Numeral) (f : ColumnText) (b : Signed) : Prop :=
  b.negative = true ∨
    fraction b.magnitude.digits < fraction (leading a f) ∨
    fraction b.magnitude.digits = fraction (leading a f) ∧
      (b.magnitude.digits.length < (leading a f).length ∨
        b.magnitude.digits.length = (leading a f).length ∧ TrailingAbove a f b.magnitude)

theorem trailingAbove_iff (a : Numeral) (f : ColumnText) (b : Numeral) :
    pointed b.places < trailing a f ↔ TrailingAbove a f b := by
  obtain ⟨as, _ | ps, ha⟩ := a <;> obtain ⟨_ | _, es, fs, hf⟩ := f
  · change pointed b.places < '.' :: chars fs ↔ PlacesAbove b fs False
    rw [← List.append_nil (chars fs), pointed_lt_iff low_nil]
    simp [PlacesAbove]
  · exact pointed_lt_minus_iff b.places _
  · change pointed b.places < '.' :: (chars (ps ++ es) ++ _) ↔ PlacesAbove b (ps ++ es) True
    rw [pointed_lt_iff (low_point _)]
    simp [PlacesAbove]
  · change pointed b.places < '.' :: (chars ps ++ _) ↔ PlacesAbove b ps True
    rw [pointed_lt_iff (low_minus _)]
    simp [PlacesAbove]

/-- The text of amount and fee is greater than that of the balance. -/
theorem above_iff (a : Numeral) (f : ColumnText) (b : Signed) :
    b.text < a.text ++ f.signed.text ↔ Above a f b := by
  obtain ⟨_ | _, b⟩ := b
  · change b.text < _ ↔ _
    rw [text_append, Numeral.text,
      chars_lt_iff (low_pointed b.places) (low_trailing a f), trailingAbove_iff]
    simp [Above]
  · exact iff_of_true (minus_lt_text a _ _) (.inl rfl)

/-! ## What the numbers compare -/

section Number

variable {double : ℚ → ℚ}

/-- The number of amount and fee, one behind the other. -/
theorem Number_joined (a : Numeral) (f : ColumnText) :
    Number double (a.text ++ f.signed.text) = match a.places, f.negative with
      | none, false => some (double (a.value * 10 ^ f.digits.length + f.signed.value))
      | _, _ => none := by
  rw [Number_text_append, text_append]
  obtain ⟨as, _ | ps, ha⟩ := a <;> obtain ⟨_ | _, es, fs, hf⟩ := f
  · have hne : as ++ es ≠ [] := by simp [hf]
    have hread := read_text ⟨as ++ es, some fs, .inl hne⟩
    have hvalue : Numeral.value ⟨as ++ es, some fs, .inl hne⟩ =
        Numeral.value ⟨as, none, ha⟩ * 10 ^ es.length +
          Signed.value ⟨false, es, some fs, .inl hf⟩ := by
      simp only [Numeral.value, Signed.value, natural_append, Option.getD_some, Option.getD_none,
        fraction]
      push_cast
      ring
    change (read (chars (as ++ es) ++ '.' :: chars fs)).map _ = _
    rw [show read (chars (as ++ es) ++ '.' :: chars fs) = _ from hread, Option.map_some, hvalue]
    rfl
  · change (read (chars as ++ '-' :: (chars es ++ '.' :: chars fs))).map _ = _
    rw [read_minus _ _ _ fun c hc => of_decide_eq_true (chars_no_point es c hc)]
    rfl
  · change (read (chars as ++ '.' :: (chars (ps ++ es) ++ '.' :: chars fs))).map _ = _
    rw [read_two_points]
    rfl
  · change (read (chars as ++ '.' :: (chars ps ++ '-' :: (chars es ++ '.' :: chars fs)))).map _ = _
    rw [read_point_minus]
    rfl

end Number

/-! ## When a check compares the numbers -/

/-- What a check compares. -/
def Compared (double : ℚ → ℚ) (a : Numeral) (f : ColumnText) (b : Signed) : Check → Prop
  | .sendBitcoin => a.places = none ∧ f.negative = false ∧
      double b.value < double (a.value * 10 ^ f.digits.length + f.signed.value)
  | _ => Above a f b

theorem isSome_if {α : Type} (p : Prop) [Decidable p] (x : α) :
    (if p then some x else none).isSome = true ↔ p := by
  split <;> simp [*]

/-- A check that compares texts. -/
theorem insufficientAmount_iff (a : Numeral) (f : ColumnText) (b : Signed) (x : WithdrawlResponse) :
    (if b.text < a.text ++ f.signed.text then some x else none).isSome = true ↔ Above a f b := by
  rw [isSome_if, above_iff]

theorem refuseWithdrawal_iff (a : Numeral) (f : ColumnText) (b : Signed) :
    (WalletController.refuseWithdrawal (.text (a.text ++ f.signed.text)) (.text b.text)).isSome =
      true ↔ Above a f b := by
  unfold WalletController.refuseWithdrawal Value.lt
  rw [isSome_if, decide_eq_true_eq, above_iff]

open WalletController in
/-- The sum of a bitcoin transfer is a number iff the amount has no point. -/
theorem refuseSendBitcoin_iff (double : ℚ → ℚ) (a : Numeral) (f : ColumnText) (b : Signed) :
    (refuseSendBitcoin double a.text f.signed.text b.text).isSome = true ↔
      Compared double a f b .sendBitcoin := by
  unfold refuseSendBitcoin
  rw [isSome_if, Number_joined, parseFloat_eq (Number_signed b)]
  obtain ⟨as, _ | ps, ha⟩ := a <;> obtain ⟨_ | _, es, fs, hf⟩ := f
  · simp [greater, Compared]
  · simp [greater, Compared]
  · simp [greater, Compared]
  · simp [greater, Compared]

theorem answer_isSome_iff (double : ℚ → ℚ) (a : Numeral) (f : ColumnText) (b : Signed) (c : Check) :
    (c.answer double a.text f.signed.text b.text).isSome = true ↔ Compared double a f b c := by
  cases c with
  | withdrawal => exact refuseWithdrawal_iff a f b
  | transferBep20 | transferBep20USDT | transferETH | transferBNBBep20 =>
    exact insufficientAmount_iff a f b _
  | sendBitcoin => exact refuseSendBitcoin_iff double a f b

/-- The check refuses iff amount and fee exceed the balance. -/
def ComparesNumbers (double : ℚ → ℚ) (a : Numeral) (f : ColumnText) (b : Signed) (c : Check) :
    Prop :=
  (c.answer double a.text f.signed.text b.text).isSome = true ↔
    b.value < a.value + f.signed.value

/-- The digits of the texts compare as the numbers do. For a bitcoin transfer: an amount
with a point is covered together with the fee, and one without a point, written before the
fee, exceeds the balance iff their sum does. -/
def Agrees (double : ℚ → ℚ) (a : Numeral) (f : ColumnText) (b : Signed) : Check → Prop
  | .sendBitcoin =>
      match a.places, f.negative with
      | none, false => b.value < a.value + f.signed.value ↔
          double b.value < double (a.value * 10 ^ f.digits.length + f.signed.value)
      | _, _ => a.value + f.signed.value ≤ b.value
  | _ => b.value < a.value + f.signed.value ↔ Above a f b

theorem agrees_iff (double : ℚ → ℚ) (a : Numeral) (f : ColumnText) (b : Signed) (c : Check) :
    Agrees double a f b c ↔ (Compared double a f b c ↔ b.value < a.value + f.signed.value) := by
  cases c with
  | withdrawal | transferBep20 | transferBep20USDT | transferETH | transferBNBBep20 =>
    exact Iff.comm
  | sendBitcoin =>
    obtain ⟨as, _ | ps, ha⟩ := a <;> obtain ⟨_ | _, es, fs, hf⟩ := f
    · simp only [Agrees, Compared, true_and]
      exact Iff.comm
    · simp [Agrees, Compared]
    · simp [Agrees, Compared]
    · simp [Agrees, Compared]

/-- **The balance checks**: each refuses exactly what exceeds the balance iff the texts
compare as the numbers do. -/
theorem comparesNumbers_iff (double : ℚ → ℚ) (a : Numeral) (f : ColumnText) (b : Signed)
    (c : Check) :
    ComparesNumbers double a f b c ↔ Agrees double a f b c := by
  rw [agrees_iff, ComparesNumbers, answer_isSome_iff]

/-- The endpoint lets pass on texts what it lets pass on numbers iff its check compares them. -/
theorem covers_texts_iff (double : ℚ → ℚ) (a : Numeral) {fees B : ℚ}
    (hfees : Store.IsDecimal 6 fees) (hB : Store.IsDecimal 8 B) :
    covers .texts B ⟨false, a⟩ fees = covers .numbers B ⟨false, a⟩ fees ↔
      ComparesNumbers double a (column 6 fees) (column 8 B).signed .withdrawal := by
  have htexts : covers .texts B ⟨false, a⟩ fees = !(Check.withdrawal.answer double a.text
      (column 6 fees).signed.text (column 8 B).signed.text).isSome := by
    change (WalletController.refuseWithdrawal _ _).isNone = _
    rw [Option.not_isSome]
    rfl
  rw [htexts, covers_numbers, ComparesNumbers, value_column, value_column, hfees.roundTo_eq,
    hB.roundTo_eq]
  by_cases h : B < a.value + fees
  · simp [Signed.value, h, h.not_ge]
  · simp [Signed.value, h, not_lt.mp h]

/-! ## The same number of digits -/

section Digits

variable {double : ℚ → ℚ} {a b : Numeral} {f : ColumnText} {c : Check} {gs ps : List Digit}

theorem value_of_places (hb : b.places = some gs) : b.value = natural b.digits + fraction gs := by
  rw [Numeral.value, hb, Option.getD_some]

theorem comparesNumbers_texts (hc : c ≠ .sendBitcoin) (a : Numeral) (f : ColumnText) (b : Signed) :
    ComparesNumbers double a f b c ↔ (b.value < a.value + f.signed.value ↔ Above a f b) := by
  rw [ComparesNumbers, answer_isSome_iff]
  cases c with
  | sendBitcoin => exact absurd rfl hc
  | withdrawal | transferBep20 | transferBep20USDT | transferETH | transferBNBBep20 =>
    exact Iff.comm

/-- An amount without a point, and a balance with as many digits as amount and fee have
together: it is compared with the number that they are one behind the other. -/
theorem comparesNumbers_joined (hc : c ≠ .sendBitcoin) (ha : a.places = none)
    (hf : f.negative = false) (hb : b.places = some gs) (hplaces : f.places.length ≤ gs.length)
    (hdigits : b.digits.length = a.digits.length + f.digits.length) :
    ComparesNumbers double a f ⟨false, b⟩ c ↔
      (b.value < a.value + f.signed.value ↔
        b.value < a.value * 10 ^ f.digits.length + f.signed.value) := by
  have hvalue : a.value * 10 ^ f.digits.length + f.signed.value =
      natural (a.digits ++ f.digits) + fraction f.places := by
    simp only [Numeral.value, ColumnText.signed, Signed.value, ha, hf, natural_append,
      Option.getD_none, Option.getD_some, fraction, Bool.false_eq_true, if_false]
    push_cast
    ring
  have hlength : b.digits.length = (a.digits ++ f.digits).length := by simpa using hdigits
  have habove : Above a f ⟨false, b⟩ ↔
      b.value < a.value * 10 ^ f.digits.length + f.signed.value := by
    rw [hvalue, value_of_places hb, add_fraction_lt_iff hlength]
    simp [Above, leading, TrailingAbove, PlacesAbove, ha, hf, hb, hdigits, hplaces.not_gt]
  rw [comparesNumbers_texts hc, habove]
  rfl

/-- An amount with a point, and a balance with as many digits before the point and more places:
the digits of the fee count only behind the places of the amount. -/
theorem comparesNumbers_pointed (hc : c ≠ .sendBitcoin) (ha : a.places = some ps)
    (hf : f.negative = false) (hb : b.places = some gs)
    (hplaces : ps.length + f.digits.length < gs.length)
    (hdigits : b.digits.length = a.digits.length) :
    ComparesNumbers double a f ⟨false, b⟩ c ↔
      (b.value < a.value + f.signed.value ↔
        b.value < a.value + natural f.digits / 10 ^ (ps.length + f.digits.length)) := by
  have hvalue : a.value + natural f.digits / 10 ^ (ps.length + f.digits.length) =
      natural a.digits + fraction (ps ++ f.digits) := by
    rw [Numeral.value, ha, Option.getD_some, fraction_eq ps, fraction_eq (ps ++ f.digits),
      natural_append, List.length_append, pow_add]
    push_cast
    field_simp
    ring
  have habove : Above a f ⟨false, b⟩ ↔
      b.value < a.value + natural f.digits / 10 ^ (ps.length + f.digits.length) := by
    rw [hvalue, value_of_places hb, add_fraction_lt_iff hdigits]
    simp [Above, leading, TrailingAbove, PlacesAbove, ha, hf, hb, hdigits, hplaces.not_gt,
      hplaces.ne']
  rw [comparesNumbers_texts hc, habove]
  rfl

end Digits

/-- 3 and the fee 1.000000 are refused from 10.0, and 1 and the fee 9.500000 are not from
9.0; 0.5 bitcoin are sent from nothing. -/
theorem texts_compared :
    ¬ ComparesNumbers id ⟨[3], none, by decide⟩ ⟨false, [1], [0, 0, 0, 0, 0, 0], by decide⟩
        ⟨false, [1, 0], some [0], by decide⟩ .withdrawal ∧
      ¬ ComparesNumbers id ⟨[1], none, by decide⟩ ⟨false, [9], [5, 0, 0, 0, 0, 0], by decide⟩
        ⟨false, [9], some [0], by decide⟩ .transferETH ∧
      ¬ ComparesNumbers id ⟨[0], some [5], by decide⟩ ⟨false, [1], [0, 0, 0, 0, 0, 0], by decide⟩
        ⟨false, [0], none, by decide⟩ .sendBitcoin := by
  unfold ComparesNumbers
  decide +kernel

end Exchange.Wallets
