import Exchange.Text.Numeral
import Exchange.Text.Where

/-!
# Statements that add numbers to columns

``UPDATE table SET `c`=`c`+1.5 ,`d`=`d`-2 WHERE …``, with numbers that are not in quotes. A
number is spelt by the tokens that it is read as; that nothing stands between them is not
looked at.

Proved here: the tokens of a number spell it (`run_numeral`), and a statement is read from
its parts (`additions_of_parts`).
-/

namespace Text.Sql

/-! ## Numbers -/

/-- The characters of a token that can be a part of a number. -/
def Token.spelling? : Token → Option (List Char)
  | .word w => some w
  | .symbol '.' => some ['.']
  | _ => none

/-- What tokens spell. -/
def spelt (ts : List Token) : Option (List Char) := (ts.mapM Token.spelling?).map List.flatten

/-- A part of a number. -/
def Token.numeric : Token → Bool
  | .word w => w.all Char.isDigit
  | .symbol c => c = '.'
  | _ => false

theorem spelt_cons {t : Token} {ts : List Token} {w s : List Char} (ht : t.spelling? = some w)
    (hts : spelt ts = some s) : spelt (t :: ts) = some (w ++ s) := by
  obtain ⟨parts, hparts, rfl⟩ := Option.map_eq_some_iff.mp hts
  simp [spelt, ht, hparts]

theorem literals_of_numeric {ts : List Token} (h : ∀ t ∈ ts, t.numeric = true) :
    literals ts = [] := by
  rw [literals, List.filterMap_eq_nil_iff]
  intro t ht
  have hnumeric := h t ht
  cases t with
  | literal s => cases hnumeric
  | _ => rfl

theorem wordChar_of_isDigit {c : Char} (h : c.isDigit = true) : wordChar c = true := by
  simp [wordChar, Char.isAlphanum, h]

theorem start_of_isDigit {c : Char} (h : c.isDigit = true) : start c = (.word [c], []) := by
  have hne : ∀ d : Char, d.isDigit = false → c ≠ d := by
    rintro d hd rfl
    rw [h] at hd
    cases hd
  have hblank : c.isWhitespace = false := by
    simp [Char.isWhitespace, hne ' ' rfl, hne '\t' rfl, hne '\r' rfl, hne '\n' rfl]
  simp [start, hne '\'' rfl, hne (Char.ofNat 96) rfl, hblank, wordChar_of_isDigit h]

/-- The word that is being read. -/
def Mode.word? : Mode → Option (List Char)
  | .between => some []
  | .word w => some w
  | _ => none

/-- A digit goes on with the word. -/
theorem step_digit {m : Mode} {w : List Char} (hm : m.word? = some w) {c : Char}
    (hc : c.isDigit = true) : step m c = (.word (w ++ [c]), []) := by
  cases m with
  | between =>
    cases hm
    exact start_of_isDigit hc
  | word w' =>
    cases hm
    simp [step, wordChar_of_isDigit hc]
  | _ => cases hm

/-- Another character ends it. -/
theorem step_other {m : Mode} {w : List Char} (hm : m.word? = some w) {c : Char}
    (hc : wordChar c = false) (hw : w.all Char.isDigit = true) :
    ∃ ts, step m c = ((start c).1, ts ++ (start c).2) ∧ spelt ts = some w ∧
      ∀ t ∈ ts, t.numeric = true := by
  cases m with
  | between =>
    cases hm
    exact ⟨[], rfl, rfl, nofun⟩
  | word w' =>
    cases hm
    refine ⟨[.word w], by simp [step, hc], by simp [spelt, Token.spelling?], ?_⟩
    simpa [Token.numeric] using hw
  | _ => cases hm

theorem spelt_append {ts ts' : List Token} {w w' : List Char} (h : spelt ts = some w)
    (h' : spelt ts' = some w') : spelt (ts ++ ts') = some (w ++ w') := by
  obtain ⟨parts, hparts, rfl⟩ := Option.map_eq_some_iff.mp h
  obtain ⟨parts', hparts', rfl⟩ := Option.map_eq_some_iff.mp h'
  simp [spelt, List.mapM_append, hparts, hparts']

/-- Digits and points, up to a blank. -/
theorem run_digits {m : Mode} {w s : List Char} (hm : m.word? = some w)
    (hw : w.all Char.isDigit = true) (hs : ∀ c ∈ s, c.isDigit = true ∨ c = '.') (cs : List Char) :
    ∃ ts, run m (s ++ ' ' :: cs) = ((run .between cs).1, ts ++ (run .between cs).2) ∧
      spelt ts = some (w ++ s) ∧ ∀ t ∈ ts, t.numeric = true := by
  induction s generalizing m w with
  | nil =>
    obtain ⟨ts, hstep, hspelt, hnumeric⟩ := step_other hm (c := ' ') rfl hw
    refine ⟨ts, ?_, by simpa using hspelt, hnumeric⟩
    have hblank : start ' ' = (.between, []) := rfl
    simp only [List.nil_append, run, hstep, hblank, List.append_nil]
  | cons c s ih =>
    have hrest : ∀ d ∈ s, d.isDigit = true ∨ d = '.' := fun d hd => hs d (List.mem_cons_of_mem _ hd)
    rcases hs c List.mem_cons_self with hc | rfl
    · -- the word goes on
      obtain ⟨ts, hrun, hspelt, hnumeric⟩ := ih (m := .word (w ++ [c])) rfl (by simp [hw, hc]) hrest
      refine ⟨ts, ?_, by simpa using hspelt, hnumeric⟩
      simp only [List.cons_append, run, step_digit hm hc, hrun, List.nil_append]
    · -- it ends, and another one may begin
      obtain ⟨ts, hstep, hspelt, hnumeric⟩ := step_other hm (c := '.') rfl hw
      obtain ⟨ts', hrun, hspelt', hnumeric'⟩ := ih (m := .between) rfl rfl hrest
      rw [List.nil_append] at hspelt'
      refine ⟨ts ++ .symbol '.' :: ts', ?_, ?_, ?_⟩
      · have hpoint : start '.' = (.between, [.symbol '.']) := rfl
        simp only [List.cons_append, run, hstep, hpoint, hrun, List.append_assoc, List.nil_append]
      · have hpoint : Token.spelling? (.symbol '.') = some ['.'] := rfl
        exact spelt_append hspelt (spelt_cons hpoint hspelt')
      · intro t ht
        rcases List.mem_append.mp ht with ht | ht
        · exact hnumeric t ht
        · rcases List.mem_cons.mp ht with rfl | ht
          · rfl
          · exact hnumeric' t ht

/-- A name in backticks. -/
theorem run_quoted_name {s : List Char} (h : ∀ c ∈ s, c ≠ Char.ofNat 96) (cs : List Char) :
    run .between (Char.ofNat 96 :: (s ++ Char.ofNat 96 :: cs)) =
      ((run .between cs).1, .name s :: (run .between cs).2) := by
  have hopen : run .between (Char.ofNat 96 :: (s ++ Char.ofNat 96 :: cs)) =
      run (.name []) (s ++ Char.ofNat 96 :: cs) := rfl
  rw [hopen, run_append, run_name h]
  simp [run, step]

/-- The numeral that tokens spell. -/
def numeral (ts : List Token) : Option Numeral := (spelt ts).bind Numeral.read

/-- Parts of a number that spell this one. -/
structure Spells (ts : List Token) (n : Numeral) : Prop where
  reads : numeral ts = some n
  numeric : ∀ t ∈ ts, t.numeric = true

theorem isDigit_digitChar : ∀ d : Digit, (digitChar d).isDigit = true := by
  decide +kernel

/-- **A numeral is read from its tokens.** -/
theorem run_numeral (n : Numeral) (cs : List Char) :
    ∃ ts, run .between (n.text ++ ' ' :: cs) = ((run .between cs).1, ts ++ (run .between cs).2) ∧
      Spells ts n := by
  have hchars : ∀ ds, ∀ c ∈ chars ds, c.isDigit = true ∨ c = '.' := by
    intro ds c hc
    obtain ⟨d, -, rfl⟩ := List.mem_map.mp hc
    exact .inl (isDigit_digitChar d)
  have htext : ∀ c ∈ n.text, c.isDigit = true ∨ c = '.' := by
    intro c hc
    rcases List.mem_append.mp hc with hc | hc
    · exact hchars n.digits c hc
    · cases hplaces : n.places with
      | none => simp [Numeral.pointed, hplaces] at hc
      | some ds =>
        rw [hplaces] at hc
        rcases List.mem_cons.mp hc with rfl | hc
        · exact .inr rfl
        · exact hchars ds c hc
  obtain ⟨ts, hrun, hspelt, hnumeric⟩ := run_digits (m := .between) rfl rfl htext cs
  refine ⟨ts, hrun, ?_, hnumeric⟩
  rw [numeral, hspelt, Option.bind_some, List.nil_append, Numeral.read_text]

/-! ## Statements -/

/-- `` `column`=`base`+amount ``, or `-` when it is negative. -/
structure Addition where
  column : List Char
  base : List Char
  negative : Bool
  amount : Numeral
  deriving DecidableEq

/-- What stands before the amount. -/
def signOf (negative : Bool) : Char := if negative then '-' else '+'

def Addition.value (a : Addition) : ℚ := if a.negative then -a.amount.value else a.amount.value

def addition : List Token → Option Addition
  | .name column :: .symbol '=' :: .name base :: .symbol sign :: amount =>
      if sign = '+' then (numeral amount).map fun n => ⟨column, base, false, n⟩
      else if sign = '-' then (numeral amount).map fun n => ⟨column, base, true, n⟩
      else none
  | _ => none

/-- The table, what is added to its columns, and the condition. -/
def additions (ts : List Token) : Option (List Char × List Addition × List Condition) :=
  match ts with
  | .word verb :: .word table :: .word set :: rest =>
      if verb = "UPDATE".toList ∧ set = "SET".toList then
        match separate (isWord "WHERE") rest with
        | [sets, compared] => do
          pure (table, ← (separate (isSymbol ',') sets).mapM addition, ← conditions compared)
        | _ => none
      else none
  | _ => none

theorem separate_append {sep : Token → Bool} {l : List Token} (h : ∀ t ∈ l, sep t = false)
    {t : Token} (ht : sep t = true) (r : List Token) :
    separate sep (l ++ t :: r) = l :: separate sep r := by
  induction l with
  | nil => simp [separate, ht]
  | cons u l ih =>
    have hl := ih fun v hv => h v (List.mem_cons_of_mem _ hv)
    simp [separate, h u List.mem_cons_self, hl]

/-- No comma and no `WHERE`. -/
def Token.inside (t : Token) : Bool := !isSymbol ',' t && !isWord "WHERE" t

theorem inside_of_numeric {t : Token} (h : t.numeric = true) : t.inside = true := by
  cases t with
  | word w =>
    have hw : w ≠ "WHERE".toList := by
      rintro rfl
      cases h
    have hwhere : isWord "WHERE" (.word w) = false := decide_eq_false (by simpa using hw)
    rw [Token.inside, hwhere]
    rfl
  | symbol c =>
    have hc : c = '.' := by simpa [Token.numeric] using h
    simp [Token.inside, isSymbol, isWord, hc]
  | _ => cases h

/-- The tokens of an addition. -/
def adds (column base : List Char) (negative : Bool) (amount : List Token) : List Token :=
  .name column :: .symbol '=' :: .name base :: .symbol (signOf negative) :: amount

theorem addition_of_spells {ts : List Token} {n : Numeral} (h : Spells ts n)
    (column base : List Char) (negative : Bool) :
    addition (adds column base negative ts) = some ⟨column, base, negative, n⟩ ∧
      ∀ t ∈ adds column base negative ts, t.inside = true := by
  constructor
  · cases negative <;> simp [addition, adds, signOf, h.reads]
  · simp only [adds, List.forall_mem_cons]
    refine ⟨rfl, rfl, rfl, ?_, fun t ht => inside_of_numeric (h.numeric t ht)⟩
    cases negative <;> rfl

/-- **A statement with two additions.** -/
theorem additions_of_parts (table : List Char) {l l' compared : List Token} {a a' : Addition}
    {cs : List Condition} (hl : addition l = some a ∧ ∀ t ∈ l, t.inside = true)
    (hl' : addition l' = some a' ∧ ∀ t ∈ l', t.inside = true)
    (hcompared : conditions compared = some cs)
    (hwhere : ∀ t ∈ compared, isWord "WHERE" t = false) :
    additions (.word "UPDATE".toList :: .word table :: .word "SET".toList ::
      (l ++ .symbol ',' :: (l' ++ .word "WHERE".toList :: compared))) =
        some (table, [a, a'], cs) := by
  have hinside : ∀ t, t.inside = true → isSymbol ',' t = false ∧ isWord "WHERE" t = false := by
    intro t ht
    simpa [Token.inside] using ht
  have hsets : ∀ t ∈ l ++ .symbol ',' :: l', isWord "WHERE" t = false := by
    intro t ht
    rcases List.mem_append.mp ht with ht | ht
    · exact (hinside t (hl.2 t ht)).2
    · rcases List.mem_cons.mp ht with rfl | ht
      · rfl
      · exact (hinside t (hl'.2 t ht)).2
  have hparts : separate (isWord "WHERE")
      (l ++ .symbol ',' :: (l' ++ .word "WHERE".toList :: compared)) =
        [l ++ .symbol ',' :: l', compared] := by
    have hassoc : l ++ .symbol ',' :: (l' ++ .word "WHERE".toList :: compared) =
        (l ++ .symbol ',' :: l') ++ .word "WHERE".toList :: compared := by simp
    rw [hassoc, separate_append hsets rfl, separate_of_forall hwhere]
  have hcommas : separate (isSymbol ',') (l ++ .symbol ',' :: l') = [l, l'] := by
    rw [separate_append (fun t ht => (hinside t (hl.2 t ht)).1) rfl,
      separate_of_forall fun t ht => (hinside t (hl'.2 t ht)).1]
  unfold additions
  simp only [and_self, if_true, hparts, hcommas, hcompared, List.mapM_cons, List.mapM_nil, hl.1,
    hl'.1]
  rfl

end Text.Sql
