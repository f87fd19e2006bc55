import Exchange.Binance.Database
import Exchange.Text.Sums

/-!
# The statement that settles an order, as a text

`placeOrder` and the jobs on trades write the same text: the column of the coin, the amounts
as the exchange prints them, the user and the network. `walletText` is that text, and
`readQuery` is what is read from it.

Proved here: it is read as the statement that it is meant for (`readQuery_walletText`).
-/

namespace Exchange.Binance

open Text.Sql
open Text (Numeral)
open Wallets

/-! ## The text -/

/-- The text up to the first quote. -/
def settings (main_column : List Char) (side : Side) (executedQty cummulativeQuoteQty : List Char) :
    List Char :=
  "UPDATE tbl_wallet SET `".toList ++ (main_column ++ ("`=`".toList ++ (main_column ++
    (Char.ofNat 96 :: signOf (side = .SELL) :: (executedQty ++
      (" ,`usdt_balance` =`usdt_balance`".toList ++ signOf (side = .BUY) :: (cummulativeQuoteQty ++
        " WHERE `user_id`=".toList)))))))

/-- The statement for `base` of a symbol against `quote`. -/
def walletText (side : Side) (symbol : String) (base quote : List Char) (user_id : Nat) :
    List Char :=
  render (settings (mainColumn (coinOf symbol)).toList side base quote)
    [((toString user_id).toList, " AND `network`=".toList),
      ((networkOf (coinOf symbol)).toList, [])]

example : walletText .BUY "BTCUSDT" "1.50".toList "300.0".toList 7 =
    ("UPDATE tbl_wallet SET `btc_balance`=`btc_balance`+1.50 ,`usdt_balance` =`usdt_balance`" ++
      "-300.0 WHERE `user_id`='7' AND `network`='Bitcoin'").toList := by
  decide +kernel

/-! ## What is read from it -/

/-- The statement on the wallets that some additions are. -/
def WalletQuery.ofAdditions : List Char × List Addition × List Condition → Option WalletQuery
  | (table, [main, usdt], [.equals user user_id, .equals column network]) =>
      if table = "tbl_wallet".toList ∧ main.base = main.column ∧
          usdt.column = "usdt_balance".toList ∧ usdt.base = "usdt_balance".toList ∧
          user = "user_id".toList ∧ column = "network".toList ∧ user_id.all Char.isDigit = true then
        some ⟨String.ofList main.column, main.value, usdt.value, Nat.ofDigitChars 10 user_id 0,
          String.ofList network⟩
      else none
  | _ => none

def readQuery (cs : List Char) : Option WalletQuery :=
  (lex cs).bind fun ts => (additions ts).bind WalletQuery.ofAdditions

/-! ## Reading the text -/

section Reading

variable {main_column : List Char} {side : Side}

theorem run_signOf (negative : Bool) (cs : List Char) :
    run .between (signOf negative :: cs) =
      ((run .between cs).1, .symbol (signOf negative) :: (run .between cs).2) := by
  cases negative <;> rfl

theorem run_equals (cs : List Char) :
    run .between ('=' :: cs) = ((run .between cs).1, .symbol '=' :: (run .between cs).2) := rfl

/-- The tokens of two additions, around those of the amounts. A name begins where the first
piece ends, and blanks end the amounts. -/
theorem run_adds {first first' equals next next' last last' column : List Char}
    {ts ts' ts'' : List Token} (hfirst : first = first' ++ [Char.ofNat 96])
    (hequals : equals = [Char.ofNat 96, '=', Char.ofNat 96]) (hnext : next = ' ' :: next')
    (hlast : last = ' ' :: last') (hts : run .between first' = (.between, ts))
    (hts' : run .between next' = (.between, ts')) (hts'' : run .between last' = (.between, ts''))
    (hcolumn : ∀ c ∈ column, c ≠ Char.ofNat 96) (negative negative' : Bool) (n m : Numeral) :
    ∃ base quote, run .between (first ++ (column ++ (equals ++ (column ++
        (Char.ofNat 96 :: signOf negative :: (n.text ++
          (next ++ signOf negative' :: (m.text ++ last)))))))) =
        (.between, ts ++ (adds column column negative base ++
          (ts' ++ .symbol (signOf negative') :: (quote ++ ts'')))) ∧
      Spells base n ∧ Spells quote m := by
  obtain ⟨quote, hquote, hm⟩ := run_numeral m last'
  obtain ⟨base, hbase, hn⟩ := run_numeral n (next' ++ signOf negative' :: (m.text ++ ' ' :: last'))
  refine ⟨base, quote, ?_, hn, hm⟩
  subst hfirst hequals hnext hlast
  simp only [List.append_assoc, List.cons_append, List.nil_append]
  rw [run_append, hts, run_quoted_name hcolumn, run_equals, run_quoted_name hcolumn, run_signOf,
    hbase, run_append, hts', run_signOf, hquote, hts'']
  simp [adds]

/-- The tokens of the statement, around those of the amounts and of the condition. -/
def tokens (main_column : List Char) (side : Side) (base quote compared : List Token) :
    List Token :=
  .word "UPDATE".toList :: .word "tbl_wallet".toList :: .word "SET".toList ::
    (adds main_column main_column (side = .SELL) base ++ .symbol ',' ::
      (adds "usdt_balance".toList "usdt_balance".toList (side = .BUY) quote ++
        .word "WHERE".toList :: compared))

theorem literals_tokens {base quote : List Token} {n m : Numeral} (hn : Spells base n)
    (hm : Spells quote m) (compared : List Token) :
    literals (tokens main_column side base quote compared) = literals compared := by
  have hbase : base.filterMap Token.literal? = [] := literals_of_numeric hn.numeric
  have hquote : quote.filterMap Token.literal? = [] := literals_of_numeric hm.numeric
  simp [tokens, adds, literals, List.filterMap_append, List.filterMap_cons, Token.literal?, hbase,
    hquote]

theorem run_settings (side : Side) (hcolumn : ∀ c ∈ main_column, c ≠ Char.ofNat 96)
    (n m : Numeral) :
    ∃ base quote, run .between (settings main_column side n.text m.text) =
        (.between, tokens main_column side base quote [.name "user_id".toList, .symbol '=']) ∧
      Spells base n ∧ Spells quote m := by
  have hfirst : run .between "UPDATE tbl_wallet SET ".toList = (.between,
      [.word "UPDATE".toList, .word "tbl_wallet".toList, .word "SET".toList]) := by
    decide +kernel
  have hnext : run .between ",`usdt_balance` =`usdt_balance`".toList = (.between,
      [.symbol ',', .name "usdt_balance".toList, .symbol '=', .name "usdt_balance".toList]) := by
    decide +kernel
  have hlast : run .between "WHERE `user_id`=".toList = (.between,
      [.word "WHERE".toList, .name "user_id".toList, .symbol '=']) := by
    decide +kernel
  exact run_adds (by decide +kernel) (by decide +kernel) (by decide +kernel) (by decide +kernel)
    hfirst hnext hlast hcolumn (side = .SELL) (side = .BUY) n m

end Reading

/-- The text before a pattern is a part of the text. -/
theorem mem_textBefore {pattern text before : List Char}
    (h : textBefore pattern text = some before) : ∀ c ∈ before, c ∈ text := by
  induction text generalizing before with
  | nil => cases h
  | cons d text ih =>
    unfold textBefore at h
    split at h
    · cases h
      simp
    · obtain ⟨rest, hrest, rfl⟩ := Option.map_eq_some_iff.mp h
      intro c hc
      rcases List.mem_cons.mp hc with rfl | hc
      · exact List.mem_cons_self
      · exact List.mem_cons_of_mem _ (ih hrest c hc)

theorem toLower_ne_backtick {c : Char} (hc : c ≠ Char.ofNat 96) : c.toLower ≠ Char.ofNat 96 := by
  intro h
  unfold Char.toLower at h
  split at h
  · rename_i hupper
    have hval : c.val.toNat + 32 = 96 ∨ c.val.toNat + 32 ≥ 2 ^ 32 := by
      have hnat := congrArg (fun d : Char => d.val.toNat) h
      have hshift : ('a'.val - 'A'.val).toNat = 32 := rfl
      have hbacktick : (Char.ofNat 96).val.toNat = 96 := rfl
      rw [UInt32.toNat_add, hshift, hbacktick] at hnat
      omega
    have hZ : c.val.toNat ≤ 90 := UInt32.le_iff_toNat_le.mp hupper.2
    have hA : 65 ≤ c.val.toNat := UInt32.le_iff_toNat_le.mp hupper.1
    omega
  · exact hc h

/-- A symbol without backticks names a column without backticks. -/
theorem mainColumn_no_backtick {symbol : String}
    (hsymbol : ∀ c ∈ symbol.toList, c ≠ Char.ofNat 96) :
    ∀ c ∈ (mainColumn (coinOf symbol)).toList, c ≠ Char.ofNat 96 := by
  have hcoin : ∀ c ∈ (coinOf symbol).toList, c ≠ Char.ofNat 96 := by
    intro c hc
    rw [coinOf, String.toList_ofList] at hc
    cases hbefore : textBefore "USDT".toList symbol.toList with
    | none =>
      rw [hbefore] at hc
      cases hc
    | some before =>
      rw [hbefore] at hc
      exact hsymbol c (mem_textBefore hbefore c hc)
  have hsuffix : ∀ c ∈ "_balance".toList, c ≠ Char.ofNat 96 := by
    simp
  intro c hc
  rw [mainColumn, lowercase, String.toList_append, String.toList_ofList] at hc
  rcases List.mem_append.mp hc with hc | hc
  · obtain ⟨d, hd, rfl⟩ := List.mem_map.mp hc
    exact toLower_ne_backtick (hcoin d hd)
  · exact hsuffix c hc

theorem isDigit_of_mem_toDigits (n : Nat) : ∀ c ∈ Nat.toDigits 10 n, c.isDigit = true :=
  fun _ hc => Nat.isDigit_of_mem_toDigits (by decide) (by decide) hc

theorem faithful_toString (n : Nat) : faithful (toString n).toList = true := by
  apply faithful_of_forall
  intro c hc
  have hdigit := isDigit_of_mem_toDigits n c (by simpa using hc)
  constructor <;> rintro rfl <;> cases hdigit

theorem faithful_networkOf (coin : String) : faithful (networkOf coin).toList = true := by
  unfold networkOf
  split_ifs <;> decide +kernel

/-- The tokens of the condition. -/
def userTokens (user_id : Nat) (network : String) : List Token :=
  [.name "user_id".toList, .symbol '=', .literal (toString user_id).toList, .word "AND".toList,
    .name "network".toList, .symbol '=', .literal network.toList]

theorem conditions_userTokens (user_id : Nat) (network : String) :
    conditions (userTokens user_id network) =
        some [.equals "user_id".toList (toString user_id).toList,
          .equals "network".toList network.toList] ∧
      ∀ t ∈ userTokens user_id network, isWord "WHERE" t = false :=
  ⟨rfl, by simp [userTokens, isWord]⟩

/-- The tokens of the text, around those of the amounts. -/
theorem lex_walletText {symbol : String} (hsymbol : ∀ c ∈ symbol.toList, c ≠ Char.ofNat 96)
    (side : Side) (n m : Numeral) (user_id : Nat) :
    ∃ base quote, lex (walletText side symbol n.text m.text user_id) =
        some (tokens (mainColumn (coinOf symbol)).toList side base quote
          (userTokens user_id (networkOf (coinOf symbol)))) ∧
      Spells base n ∧ Spells quote m := by
  obtain ⟨base, quote, hrun, hn, hm⟩ := run_settings side (mainColumn_no_backtick hsymbol) n m
  refine ⟨base, quote, ?_, hn, hm⟩
  have hneutral : neutral (settings (mainColumn (coinOf symbol)).toList side n.text m.text) =
      true := by
    rw [neutral, hrun, literals_tokens hn hm]
    rfl
  have hfits : Fits (settings (mainColumn (coinOf symbol)).toList side n.text m.text)
      (blankAfter [((toString user_id).toList, " AND `network`=".toList),
        ((networkOf (coinOf symbol)).toList, [])]) := by
    simp only [Fits, hneutral, blankAfter, List.forall_mem_cons]
    decide +kernel
  have hand : (run .between " AND `network`=".toList).2 =
      [.word "AND".toList, .name "network".toList, .symbol '='] := by
    decide +kernel
  have hblank : (run .between ([] ++ [' '])).2 = [] := rfl
  rw [walletText, lex_render (List.cons_ne_nil _ _) hfits]
  · simp only [blankAfter, intended, hrun, hand, hblank]
    simp only [tokens, userTokens, List.append_assoc, List.cons_append, List.nil_append]
  · simp only [List.map_cons, List.map_nil, List.forall_mem_cons]
    exact ⟨faithful_toString user_id, faithful_networkOf _, List.forall_mem_nil _⟩

/-- **The statement that settles an order is read as it was meant.** -/
theorem readQuery_walletText {symbol : String} (hsymbol : ∀ c ∈ symbol.toList, c ≠ Char.ofNat 96)
    (side : Side) (n m : Numeral) (user_id : Nat) :
    readQuery (walletText side symbol n.text m.text user_id) =
      some (walletQuery side symbol n.value m.value user_id) := by
  obtain ⟨base, quote, hlex, hn, hm⟩ := lex_walletText hsymbol side n m user_id
  obtain ⟨hcompared, hwhere⟩ := conditions_userTokens user_id (networkOf (coinOf symbol))
  have hadditions := additions_of_parts "tbl_wallet".toList
    (addition_of_spells hn (mainColumn (coinOf symbol)).toList
      (mainColumn (coinOf symbol)).toList (side = .SELL))
    (addition_of_spells hm "usdt_balance".toList "usdt_balance".toList (side = .BUY))
    hcompared hwhere
  rw [readQuery, hlex, Option.bind_some, tokens, hadditions, Option.bind_some]
  cases side <;> simpa [WalletQuery.ofAdditions, Addition.value, walletQuery] using
    isDigit_of_mem_toDigits user_id

theorem readQuery_btc : (∀ c ∈ "BTCUSDT".toList, c ≠ Char.ofNat 96) ∧
    readQuery (walletText .BUY "BTCUSDT" (Numeral.text ⟨[1], some [5, 0], .inl nofun⟩)
      (Numeral.text ⟨[3, 0, 0], none, .inl nofun⟩) 7) =
        some (walletQuery .BUY "BTCUSDT" (Numeral.value ⟨[1], some [5, 0], .inl nofun⟩)
          (Numeral.value ⟨[3, 0, 0], none, .inl nofun⟩) 7) :=
  ⟨by simp, readQuery_walletText (by simp) .BUY _ _ 7⟩

end Exchange.Binance
