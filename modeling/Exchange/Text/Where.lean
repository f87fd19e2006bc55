import Exchange.Text.Sql

/-!
# What a deletion selects

The condition of a `DELETE`, as MySQL reads it: comparisons with `=`, where `AND` binds
more than `OR`. How a column compares with a literal, and two literals with each
other, is outside (`Collation`). What is no such condition, or names a column that the
table does not have, is not read.

Proved here: a deletion that `statement` reads selects by all of its conditions
(`deletion_of_statement`); and an argument with quotes in it makes the text of a longer
template, what stands between the quotes being a part of the statement (`render_quoted`).
-/

namespace Text.Sql

/-! ## Conditions -/

inductive Comparison where
  | column (name value : List Char)
  | text (value value' : List Char)
  deriving DecidableEq

/-- `` `column`='value' ``, or `'value'='value'`. -/
def comparison : List Token → Option Comparison
  | [.name column, .symbol '=', .literal value] => some (.column column value)
  | [.literal value, .symbol '=', .literal value'] => some (.text value value')
  | _ => none

/-- The alternatives of a condition: of one of them all comparisons are to hold. -/
def alternatives (ts : List Token) : Option (List (List Comparison)) :=
  (separate (isWord "OR") ts).mapM fun part => (separate (isWord "AND") part).mapM comparison

/-- The columns that it names are among these. -/
def Comparison.names (columns : List (List Char)) : Comparison → Bool
  | column name _ => name ∈ columns
  | text .. => true

@[simp] theorem Comparison.names_column (columns : List (List Char)) (name value : List Char) :
    names columns (.column name value) = decide (name ∈ columns) := rfl

@[simp] theorem Comparison.names_text (columns : List (List Char)) (value value' : List Char) :
    names columns (.text value value') = true := rfl

/-- The table of a `DELETE` and its condition. -/
def deletion (columns : List (List Char)) (ts : List Token) :
    Option (List Char × List (List Comparison)) :=
  match ts with
  | .word verb :: .word preposition :: .word table :: rest =>
      if verb = "DELETE".toList ∧ preposition = "FROM".toList then
        match separate (isWord "WHERE") rest with
        | [[], compared] => do
          let parts ← alternatives compared
          if parts.all fun part => part.all (Comparison.names columns) then
            pure (table, parts)
          else none
        | _ => none
      else none
  | _ => none

/-- How a column of a row compares with a text, and two texts with each other. -/
structure Collation (Row : Type) where
  column : List Char → Row → List Char → Bool
  text : List Char → List Char → Bool
  text_refl : ∀ s, text s s = true

namespace Collation

variable {Row : Type} (K : Collation Row)

def holds (r : Row) : Comparison → Bool
  | .column name value => K.column name r value
  | .text value value' => K.text value value'

/-- The row is one that the condition selects. -/
def selects (parts : List (List Comparison)) (r : Row) : Bool :=
  parts.any fun part => part.all (K.holds r)

@[simp] theorem holds_column (r : Row) (name value : List Char) :
    K.holds r (.column name value) = K.column name r value := rfl

@[simp] theorem holds_text_self (r : Row) (s : List Char) : K.holds r (.text s s) = true :=
  K.text_refl s

@[simp] theorem selects_cons (part : List Comparison) (parts : List (List Comparison)) (r : Row) :
    K.selects (part :: parts) r = (part.all (K.holds r) || K.selects parts r) := rfl

@[simp] theorem selects_nil (r : Row) : K.selects [] r = false := rfl

end Collation

/-! ## Deletions that are read as statements -/

theorem separate_of_forall {sep : Token → Bool} {ts : List Token} (h : ∀ t ∈ ts, sep t = false) :
    separate sep ts = [ts] := by
  induction ts with
  | nil => rfl
  | cons t ts ih =>
    have hts := ih fun u hu => h u (List.mem_cons_of_mem _ hu)
    simp [separate, h t List.mem_cons_self, hts]

/-- What does not separate is in one of the parts. -/
theorem mem_separate {sep : Token → Bool} {t : Token} {ts : List Token} (ht : t ∈ ts)
    (hsep : sep t = false) : ∃ part ∈ separate sep ts, t ∈ part := by
  induction ts with
  | nil => cases ht
  | cons u ts ih =>
    rcases List.mem_cons.mp ht with rfl | hmem
    · simp only [separate, hsep]
      cases separate sep ts <;> simp
    · obtain ⟨part, hpart, hin⟩ := ih hmem
      simp only [separate]
      split
      · exact ⟨part, List.mem_cons_of_mem _ hpart, hin⟩
      · cases hparts : separate sep ts with
        | nil =>
          rw [hparts] at hpart
          cases hpart
        | cons p parts =>
          rw [hparts] at hpart
          rcases List.mem_cons.mp hpart with rfl | hpart
          · exact ⟨u :: part, List.mem_cons_self, List.mem_cons_of_mem _ hin⟩
          · exact ⟨part, List.mem_cons_of_mem _ hpart, hin⟩

/-- A comparison with a column, as a condition is read. -/
theorem comparison_of_condition {ts : List Token} {column value : List Char}
    (h : condition ts = some (.equals column value)) :
    comparison ts = some (.column column value) ∧ ∀ t ∈ ts, isWord "OR" t = false := by
  unfold condition at h
  split at h
  · cases h
    simp [comparison, isWord]
  · split at h <;> cases h
  · cases h

theorem comparisons_of_conditions {parts : List (List Token)} {cs : List (List Char × List Char)}
    (h : parts.mapM condition = some (cs.map fun c => .equals c.1 c.2)) :
    parts.mapM comparison = some (cs.map fun c => .column c.1 c.2) ∧
      ∀ part ∈ parts, ∀ t ∈ part, isWord "OR" t = false := by
  induction parts generalizing cs with
  | nil =>
    cases cs with
    | nil => simp
    | cons c cs => cases h
  | cons part parts ih =>
    simp only [List.mapM_cons, Option.bind_eq_bind, Option.bind_eq_some_iff] at h
    obtain ⟨b, hb, bs, hbs, heq⟩ := h
    cases cs with
    | nil => cases heq
    | cons c cs =>
      cases heq
      obtain ⟨hpart, hor⟩ := comparison_of_condition hb
      obtain ⟨hparts, hall⟩ := ih hbs
      refine ⟨?_, List.forall_mem_cons.mpr ⟨hor, hall⟩⟩
      simp [List.mapM_cons, hpart, hparts]

/-- Conditions on columns are one alternative. -/
theorem alternatives_of_conditions {ts : List Token} {cs : List (List Char × List Char)}
    (h : conditions ts = some (cs.map fun c => .equals c.1 c.2)) :
    alternatives ts = some [cs.map fun c => .column c.1 c.2] := by
  obtain ⟨hparts, hor⟩ := comparisons_of_conditions h
  have hts : ∀ t ∈ ts, isWord "OR" t = false := by
    intro t ht
    by_cases hand : isWord "AND" t = true
    · simp only [isWord, decide_eq_true_eq] at hand
      simp [isWord, hand]
    · obtain ⟨part, hpart, hin⟩ := mem_separate ht (Bool.not_eq_true _ ▸ hand)
      exact hor part hpart t hin
  simp [alternatives, separate_of_forall hts, hparts]

theorem deletion_of_alternatives {columns : List (List Char)} {rest compared : List Token}
    {parts : List (List Comparison)} (table : List Char)
    (hwhere : separate (isWord "WHERE") rest = [[], compared])
    (hparts : alternatives compared = some parts)
    (hnames : ∀ part ∈ parts, ∀ c ∈ part, Comparison.names columns c = true) :
    deletion columns (.word "DELETE".toList :: .word "FROM".toList :: .word table :: rest) =
      some (table, parts) := by
  simpa [deletion, hwhere, hparts] using hnames

/-- **A deletion that is a statement selects by all its conditions.** -/
theorem deletion_of_statement {columns : List (List Char)} {ts : List Token} {table : List Char}
    {cs : List (List Char × List Char)}
    (h : statement ts = some (.delete table (cs.map fun c => .equals c.1 c.2)))
    (hcolumns : ∀ c ∈ cs, c.1 ∈ columns) :
    deletion columns ts = some (table, [cs.map fun c => .column c.1 c.2]) := by
  have hnames : ∀ part ∈ [cs.map fun c => Comparison.column c.1 c.2], ∀ c ∈ part,
      Comparison.names columns c = true := by
    intro part hpart c hc
    obtain rfl := List.mem_singleton.mp hpart
    obtain ⟨x, hx, rfl⟩ := List.mem_map.mp hc
    simpa using hcolumns x hx
  unfold statement at h
  split at h
  · rename_i verb a b rest
    split_ifs at h with hinsert hupdate hdelete
    · split at h
      · simp only [Option.bind_eq_bind, Option.bind_eq_some_iff] at h
        obtain ⟨_, -, _, -, _, -, _, -, heq⟩ := h
        cases heq
      · cases h
    · split at h
      · simp only [Option.bind_eq_bind, Option.bind_eq_some_iff] at h
        obtain ⟨_, -, _, -, heq⟩ := h
        cases heq
      · cases h
    · split at h
      · rename_i compared hparts
        obtain ⟨conditions', hconditions, heq⟩ := Option.map_eq_some_iff.mp h
        cases heq
        obtain ⟨rfl, rfl⟩ := hdelete
        exact deletion_of_alternatives table hparts (alternatives_of_conditions hconditions) hnames
      · cases h
  · split_ifs at h
    split at h
    · obtain ⟨_, -, heq⟩ := Option.map_eq_some_iff.mp h
      cases heq
    · cases h
  · cases h

/-! ## Quotes in arguments -/

/-- An argument with quotes in it is two, with what stands between the quotes. -/
theorem render_quoted (piece x inner y next : List Char) (args : List (List Char × List Char)) :
    render piece ((x ++ '\'' :: (inner ++ '\'' :: y), next) :: args) =
      render piece ((x, inner) :: (y, next) :: args) := by
  simp [render]

/-- **The tokens of a template of faithful arguments.** -/
theorem lex_render {piece : List Char} {args : List (List Char × List Char)} (hargs : args ≠ [])
    (hfits : Fits piece (blankAfter args))
    (hfaithful : ∀ a ∈ args.map Prod.fst, faithful a = true) :
    lex (render piece args) = some (intended piece (blankAfter args)) := by
  have hblank : ∀ x ∈ blankAfter args, faithful x.1 = true := by
    rw [← blankAfter_fst, List.forall_mem_map] at hfaithful
    exact hfaithful
  unfold lex
  rw [render_blank hargs, run_render hfits hblank, if_pos rfl]

/-- A name of a column. -/
theorem run_name {s : List Char} (h : ∀ c ∈ s, c ≠ Char.ofNat 96) (t : List Char) :
    run (.name t) s = (.name (t ++ s), []) := by
  induction s generalizing t with
  | nil => simp [run]
  | cons c s ih =>
    have hc := h c List.mem_cons_self
    have hs := ih fun d hd => h d (List.mem_cons_of_mem _ hd)
    simp [run, step, hc, hs]

end Text.Sql
