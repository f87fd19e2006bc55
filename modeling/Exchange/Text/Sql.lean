import Mathlib.Data.List.Infix

/-!
# SQL texts with single-quoted literals

A reader of SQL as MySQL reads it: words, names in backticks, symbols, and literals
in single quotes, in which two quotes stand for one and a backslash escapes.
It is a machine that goes through the characters once (`step`, `run`). Comments and
double-quoted texts are not read; what starts them is a symbol here.

A text is `faithful` when it can be put between quotes as it is. Proved here:
the literal is then the text (`run_text_faithful`), and only then: a literal opened before
a text that decodes to just this text ends where the text ends
(`faithful_of_literal`). So a template filled with texts is read as it was meant
iff they are all faithful (`run_render`, `faithful_of_literals`). Reading a statement
from tokens loses no literal (`literals_statement`).
-/

namespace Text.Sql

inductive Token where
  | word (s : List Char)
  | name (s : List Char)
  | literal (s : List Char)
  | symbol (c : Char)
  deriving DecidableEq

/-- Where the reader is, with what it has read of a token: between tokens, in a word, in a
name, in a literal, after a backslash, or after a quote that ends the literal or is
the first of two. -/
inductive Mode where
  | between
  | word (s : List Char)
  | name (s : List Char)
  | text (s : List Char)
  | escape (s : List Char)
  | closing (s : List Char)
  deriving DecidableEq

def wordChar (c : Char) : Bool := c.isAlphanum || c = '_'

/-- What an escaped character stands for; the backslash stays before `%` and `_`. -/
def unescape (c : Char) : List Char :=
  if c = '0' then [Char.ofNat 0]
  else if c = 'b' then [Char.ofNat 8]
  else if c = 'n' then ['\n']
  else if c = 'r' then ['\r']
  else if c = 't' then ['\t']
  else if c = 'Z' then [Char.ofNat 26]
  else if c = '%' ∨ c = '_' then ['\\', c]
  else [c]

/-- A character between tokens. -/
def start (c : Char) : Mode × List Token :=
  if c = '\'' then (.text [], [])
  else if c = Char.ofNat 96 then (.name [], [])
  else if c.isWhitespace then (.between, [])
  else if wordChar c then (.word [c], [])
  else (.between, [.symbol c])

def step : Mode → Char → Mode × List Token
  | .between, c => start c
  | .word s, c =>
      if wordChar c then (.word (s ++ [c]), []) else ((start c).1, .word s :: (start c).2)
  | .name s, c => if c = Char.ofNat 96 then (.between, [.name s]) else (.name (s ++ [c]), [])
  | .text s, c =>
      if c = '\'' then (.closing s, [])
      else if c = '\\' then (.escape s, [])
      else (.text (s ++ [c]), [])
  | .escape s, c => (.text (s ++ unescape c), [])
  | .closing s, c =>
      if c = '\'' then (.text (s ++ [c]), []) else ((start c).1, .literal s :: (start c).2)

def run : Mode → List Char → Mode × List Token
  | m, [] => (m, [])
  | m, c :: cs => ((run (step m c).1 cs).1, (step m c).2 ++ (run (step m c).1 cs).2)

/-- The tokens of a text, unless it ends within one; the end reads like a blank. -/
def lex (cs : List Char) : Option (List Token) :=
  if (run .between (cs ++ [' '])).1 = .between then some (run .between (cs ++ [' '])).2 else none

theorem run_append (m : Mode) (a b : List Char) :
    run m (a ++ b) = ((run (run m a).1 b).1, (run m a).2 ++ (run (run m a).1 b).2) := by
  induction a generalizing m with
  | nil => rfl
  | cons c a ih => simp only [List.cons_append, run, ih, List.append_assoc]

def Token.literal? : Token → Option (List Char)
  | .literal s => some s
  | _ => none

/-- The literals among tokens. -/
def literals (tokens : List Token) : List (List Char) := tokens.filterMap Token.literal?

@[simp] theorem literals_append (a b : List Token) : literals (a ++ b) = literals a ++ literals b :=
  List.filterMap_append

/-! ## Faithful texts -/

/-- No quote, and a backslash only where it stays. -/
def faithful : List Char → Bool
  | [] => true
  | '\\' :: c :: cs => (c = '%' || c = '_') && faithful cs
  | c :: cs => c ≠ '\'' && c ≠ '\\' && faithful cs

/-- A faithful text is read as it is. -/
theorem run_text_faithful {a : List Char} (h : faithful a = true) (s : List Char) :
    run (.text s) a = (.text (s ++ a), []) := by
  induction a using faithful.induct generalizing s with
  | case1 => simp [run]
  | case2 c cs ih =>
    simp only [faithful, Bool.and_eq_true, Bool.or_eq_true, decide_eq_true_eq] at h
    obtain ⟨hc, hcs⟩ := h
    have hunescape : unescape c = ['\\', c] := by
      rcases hc with rfl | rfl <;> rfl
    simp [run, step, hunescape, ih hcs]
  | case3 c cs hne ih =>
    simp only [faithful, Bool.and_eq_true, decide_eq_true_eq] at h
    obtain ⟨⟨hquote, hback⟩, hcs⟩ := h
    simp [run, step, hquote, hback, ih hcs]

theorem faithful_of_forall {a : List Char} (h : ∀ c ∈ a, c ≠ '\'' ∧ c ≠ '\\') :
    faithful a = true := by
  induction a using faithful.induct with
  | case1 => rfl
  | case2 c cs ih => exact absurd rfl (h '\\' List.mem_cons_self).2
  | case3 c cs hne ih =>
    have hc := h c List.mem_cons_self
    have hcs := ih fun d hd => h d (List.mem_cons_of_mem _ hd)
    simp [faithful, hc, hcs]

/-- Inside a literal: what it has decoded to, and the characters read that are not in it yet. -/
def Mode.inside : Mode → Option (List Char × Nat)
  | .text s => some (s, 0)
  | .escape s | .closing s => some (s, 1)
  | _ => none

theorem length_unescape (c : Char) :
    (unescape c).length ≤ 2 ∧ ((unescape c).length = 2 → c = '%' ∨ c = '_') := by
  unfold unescape
  repeat' split
  all_goals simp_all

/-- A character inside a literal is decoded, or the literal has ended before it. -/
theorem step_inside {m : Mode} {s : List Char} {p : Nat} (hm : m.inside = some (s, p)) (c : Char) :
    (step m c).2 = [] ∧ (∃ s' p', (step m c).1.inside = some (s', p') ∧ s <+: s' ∧
        s'.length + p' ≤ s.length + p + 1) ∨
      m = .closing s ∧ p = 1 ∧ (step m c).2 = .literal s :: (start c).2 := by
  cases m with
  | text t =>
    cases hm
    left
    simp only [step]
    split
    · exact ⟨rfl, s, 1, rfl, List.prefix_refl _, by omega⟩
    · split
      · exact ⟨rfl, s, 1, rfl, List.prefix_refl _, by omega⟩
      · exact ⟨rfl, s ++ [c], 0, rfl, List.prefix_append _ _, by simp⟩
  | escape t =>
    cases hm
    left
    refine ⟨rfl, s ++ unescape c, 0, rfl, List.prefix_append _ _, ?_⟩
    have hlength := (length_unescape c).1
    simp only [List.length_append]
    omega
  | closing t =>
    cases hm
    by_cases hc : c = '\''
    · left
      have hpair : step (.closing s) c = (.text (s ++ [c]), []) := by simp [step, hc]
      rw [hpair]
      exact ⟨rfl, s ++ [c], 0, rfl, List.prefix_append _ _, by simp⟩
    · right
      have hend : step (.closing s) c = ((start c).1, .literal s :: (start c).2) := by
        simp [step, hc]
      rw [hend]
      exact ⟨rfl, rfl, rfl⟩
  | _ => cases hm

/-- The same for a text: it is decoded, or the literal has ended within it. -/
theorem run_inside {m : Mode} {s : List Char} {p : Nat} (hm : m.inside = some (s, p))
    (cs : List Char) :
    (run m cs).2 = [] ∧ (∃ s' p', (run m cs).1.inside = some (s', p') ∧ s <+: s' ∧
        s'.length + p' ≤ s.length + p + cs.length) ∨
      ∃ x tokens, (run m cs).2 = .literal x :: tokens ∧ s <+: x ∧
        x.length + 2 ≤ s.length + p + cs.length := by
  induction cs generalizing m s p with
  | nil => exact .inl ⟨rfl, s, p, hm, List.prefix_refl _, by simp⟩
  | cons c cs ih =>
    simp only [run, List.length_cons]
    rcases step_inside hm c with ⟨hnil, s', p', hm', hs, hlength⟩ | ⟨-, rfl, hliteral⟩
    · rw [hnil, List.nil_append]
      rcases ih hm' with ⟨hnil', s'', p'', hm'', hs', hlength'⟩ | ⟨x, tokens, hx, hs', hlength'⟩
      · exact .inl ⟨hnil', s'', p'', hm'', hs.trans hs', by omega⟩
      · exact .inr ⟨x, tokens, hx, hs.trans hs', by omega⟩
    · right
      rw [hliteral]
      exact ⟨s, _, rfl, List.prefix_refl _, by omega⟩

/-- What is decoded from a text by the end of which the literal is still open. -/
theorem length_of_open {m : Mode} {s s' : List Char} {p : Nat} {cs : List Char}
    (hm : m.inside = some (s, p)) (htext : (run m cs).1 = .text s') (hopen : (run m cs).2 = []) :
    s'.length ≤ s.length + p + cs.length := by
  rcases run_inside hm cs with ⟨-, s'', p', hm', -, hle⟩ | ⟨x, tokens, hx, -⟩
  · rw [htext] at hm'
    cases hm'
    omega
  · rw [hopen] at hx
    cases hx

/-- A quote in a text by the end of which the literal is still open: it is followed by a second
one, and the two are one character. -/
theorem length_of_quote {s s' cs : List Char} (htext : (run (.text s) ('\'' :: cs)).1 = .text s')
    (hopen : (run (.text s) ('\'' :: cs)).2 = []) : s'.length ≤ s.length + cs.length := by
  cases cs with
  | nil => cases htext
  | cons d ds =>
    by_cases hd : d = '\''
    · subst hd
      have htext : (run (.text (s ++ ['\''])) ds).1 = .text s' := htext
      have hopen : (run (.text (s ++ ['\''])) ds).2 = [] := hopen
      have hle := length_of_open rfl htext hopen
      simp only [List.length_append, List.length_cons, List.length_nil] at hle ⊢
      omega
    · simp [run, step, hd] at hopen

/-- A text that is decoded without getting shorter is faithful. -/
theorem faithful_of_length {a s s' : List Char} (htext : (run (.text s) a).1 = .text s')
    (hopen : (run (.text s) a).2 = []) (hlength : s.length + a.length ≤ s'.length) :
    faithful a = true := by
  induction a using faithful.induct generalizing s with
  | case1 => rfl
  | case2 c cs ih =>
    have htext : (run (.text (s ++ unescape c)) cs).1 = .text s' := htext
    have hopen : (run (.text (s ++ unescape c)) cs).2 = [] := hopen
    have hle := length_of_open rfl htext hopen
    have hunescape := length_unescape c
    simp only [List.length_cons, List.length_append] at hlength hle
    have hc : c = '%' ∨ c = '_' := hunescape.2 (by omega)
    have hcs : faithful cs = true :=
      ih htext hopen (by simp only [List.length_append]; omega)
    rcases hc with rfl | rfl <;> simp [faithful, hcs]
  | case3 c cs hne ih =>
    simp only [List.length_cons] at hlength
    by_cases hquote : c = '\''
    · subst hquote
      have hle := length_of_quote htext hopen
      omega
    · by_cases hback : c = '\\'
      · cases cs with
        | nil =>
          subst hback
          cases htext
        | cons d ds => exact (hne d ds hback rfl).elim
      · have hstep : step (.text s) c = (.text (s ++ [c]), []) := by simp [step, hquote, hback]
        simp only [run, hstep, List.nil_append] at htext hopen
        have hcs : faithful cs = true := by
          apply ih htext hopen
          simp only [List.length_append, List.length_singleton]
          omega
        simp [faithful, hquote, hback, hcs]

/-- A quote within a literal and a character after it that ends none, when the literal is
still open: the quote is decoded, too, and it took two characters to write. -/
theorem quote_inside {m : Mode} {s : List Char} {p : Nat} (hm : m.inside = some (s, p)) {c : Char}
    (hc : c ≠ '\'') (hc' : c ≠ '\\') :
    m = .text s ∧ (run m ['\'', c]).2 = .literal s :: (start c).2 ∧
        (run m ['\'', c]).1 = (start c).1 ∨
      p = 1 ∧ run m ['\'', c] = (.text (s ++ ['\'', c]), []) := by
  cases m with
  | text t =>
    cases hm
    left
    simp [run, step, hc]
  | escape t =>
    cases hm
    right
    refine ⟨rfl, ?_⟩
    simp only [run, step, if_neg hc, if_neg hc', List.append_nil, List.append_assoc]
    rfl
  | closing t =>
    cases hm
    right
    simp [run, step, hc, hc']
  | _ => cases hm

/-- A text that is decoded to a part of itself has no quote that is followed by such a
character: from the first such quote one would be decoded that is still earlier. -/
theorem no_quote {a s : List Char} {p : Nat} {c : Char} (hc : c ≠ '\'') (hc' : c ≠ '\\')
    (hopen : (run (.text []) a).2 = []) (hm : (run (.text []) a).1.inside = some (s, p))
    (hs : s <+: a) (u : List Char) : ¬ u ++ ['\'', c] <+: a := by
  induction hn : u.length using Nat.strong_induction_on generalizing u with
  | _ n ih =>
    rintro ⟨v, hv⟩
    have hrun : run (.text []) a = run (.text []) (u ++ ['\'', c] ++ v) := by rw [hv]
    simp only [run_append] at hrun
    rw [hrun] at hopen hm
    simp only [List.append_eq_nil_iff] at hopen
    obtain ⟨⟨hopen₁, hopen₂⟩, hopen₃⟩ := hopen
    rcases run_inside (m := .text []) rfl u with ⟨-, s₁, p₁, hm₁, -, hle⟩ | ⟨x, tokens, hx, -⟩
    · rcases quote_inside hm₁ hc hc' with ⟨-, hliteral, -⟩ | ⟨rfl, hquote⟩
      · rw [hopen₂] at hliteral
        cases hliteral
      · rw [hquote] at hm hopen₃
        rcases run_inside (m := .text (s₁ ++ ['\'', c])) rfl v with
          ⟨-, s₂, p₂, hm₂, hstart, -⟩ | ⟨x, tokens, hx, -⟩
        · rw [hm] at hm₂
          cases hm₂
          simp only [List.length_nil, Nat.zero_add] at hle
          exact ih s₁.length (by omega) s₁ rfl (hstart.trans hs)
        · rw [hopen₃] at hx
          cases hx
    · rw [hopen₁] at hx
      cases hx

/-- **A literal that is read back is faithful**: one that was opened before `a`, a quote and a
character that is neither a quote nor a backslash, and that decodes to `a`. -/
theorem faithful_of_literal {a : List Char} {c : Char} (hc : c ≠ '\'') (hc' : c ≠ '\\')
    {rest : List Char} {tokens : List Token}
    (h : (run (.text []) (a ++ '\'' :: c :: rest)).2 = .literal a :: tokens) :
    faithful a = true := by
  have hsplit : a ++ '\'' :: c :: rest = a ++ (['\'', c] ++ rest) := rfl
  rw [hsplit] at h
  simp only [run_append] at h
  rcases run_inside (m := .text []) rfl a with ⟨hopen, s, p, hm, -, hle⟩ | ⟨x, tokens', hx, -, hle⟩
  · rw [hopen, List.nil_append] at h
    rcases quote_inside hm hc hc' with ⟨htext, hliteral, -⟩ | ⟨rfl, hquote⟩
    · -- it ends at this quote
      rw [hliteral] at h
      cases h
      exact faithful_of_length htext hopen (by simp)
    · -- it goes on, and what it decodes to has the quote and the character after it
      rw [hquote, List.nil_append] at h
      rcases run_inside (m := .text (s ++ ['\'', c])) rfl rest with
        ⟨hopen', -⟩ | ⟨x, tokens', hx, hstart, -⟩
      · rw [hopen'] at h
        cases h
      · rw [hx] at h
        cases h
        have hs : s <+: a := (List.prefix_append _ _).trans hstart
        exact absurd hstart (no_quote hc hc' hopen hm hs s)
  · rw [hx] at h
    cases h
    simp only [List.length_nil] at hle
    omega

/-! ## Templates -/

/-- A text between literals: pieces, each but the first after an argument in quotes. -/
def render (piece : List Char) : List (List Char × List Char) → List Char
  | [] => piece
  | (a, next) :: rest => piece ++ '\'' :: (a ++ '\'' :: render next rest)

/-- A piece begins and ends between tokens and has no literal. -/
def neutral (piece : List Char) : Bool :=
  (run .between piece).1 = .between && literals (run .between piece).2 = []

/-- It begins with a character that neither goes on with the literal before it nor escapes. -/
def ends : List Char → Bool
  | [] => false
  | c :: _ => c ≠ '\'' && c ≠ '\\'

/-- The tokens that a template should have. -/
def intended (piece : List Char) : List (List Char × List Char) → List Token
  | [] => (run .between piece).2
  | (a, next) :: rest => (run .between piece).2 ++ .literal a :: intended next rest

section Templates

variable {piece a : List Char} {args : List (List Char × List Char)}

/-- The pieces can stand where they do. -/
def Fits (piece : List Char) (args : List (List Char × List Char)) : Prop :=
  neutral piece = true ∧ ∀ x ∈ args, neutral x.2 = true ∧ ends x.2 = true

theorem Fits.tail {x : List Char × List Char} (h : Fits piece (x :: args)) : Fits x.2 args :=
  ⟨(h.2 x List.mem_cons_self).1, fun y hy => h.2 y (List.mem_cons_of_mem _ hy)⟩

theorem render_of_ends (h : ends piece = true) (args : List (List Char × List Char)) :
    ∃ c cs, render piece args = c :: cs ∧ c ≠ '\'' ∧ c ≠ '\\' := by
  cases piece with
  | nil => cases h
  | cons c cs =>
    simp only [ends, Bool.and_eq_true, decide_eq_true_eq] at h
    cases args with
    | nil => exact ⟨c, cs, rfl, h⟩
    | cons x args => exact ⟨c, _, rfl, h⟩

theorem run_neutral (h : neutral piece = true) (cs : List Char) :
    run .between (piece ++ cs) =
      ((run .between cs).1, (run .between piece).2 ++ (run .between cs).2) := by
  simp only [neutral, Bool.and_eq_true, decide_eq_true_eq] at h
  rw [run_append, h.1]

/-- A quote between tokens opens a literal. -/
theorem run_open (cs : List Char) : run .between ('\'' :: cs) = run (.text []) cs := rfl

/-- A faithful argument between quotes. -/
theorem run_literal (ha : faithful a = true) {c : Char} (hc : c ≠ '\'') (cs : List Char) :
    run .between ('\'' :: (a ++ '\'' :: c :: cs)) =
      ((run .between (c :: cs)).1, .literal a :: (run .between (c :: cs)).2) := by
  rw [run_open, run_append, run_text_faithful ha]
  simp [run, step, hc]

/-- **A template of faithful arguments is read as it was meant.** -/
theorem run_render (hfits : Fits piece args) (hfaithful : ∀ x ∈ args, faithful x.1 = true) :
    run .between (render piece args) = (.between, intended piece args) := by
  induction args generalizing piece with
  | nil =>
    have hneutral := hfits.1
    simp only [neutral, Bool.and_eq_true, decide_eq_true_eq] at hneutral
    exact Prod.ext hneutral.1 rfl
  | cons x args ih =>
    obtain ⟨a, next⟩ := x
    obtain ⟨-, hends⟩ := hfits.2 _ List.mem_cons_self
    have hrest := ih hfits.tail fun y hy => hfaithful y (List.mem_cons_of_mem _ hy)
    obtain ⟨c, cs, hc, hquote, -⟩ := render_of_ends hends args
    rw [render, run_neutral hfits.1, hc, run_literal (hfaithful _ List.mem_cons_self) hquote, ← hc,
      hrest]
    rfl

/-- **Only faithful arguments are read back.** -/
theorem faithful_of_literals (hfits : Fits piece args)
    (h : literals (run .between (render piece args)).2 = args.map Prod.fst) :
    ∀ x ∈ args, faithful x.1 = true := by
  induction args generalizing piece with
  | nil => exact fun x hx => by cases hx
  | cons x args ih =>
    obtain ⟨a, next⟩ := x
    obtain ⟨-, hends⟩ := hfits.2 _ List.mem_cons_self
    obtain ⟨c, cs, hc, hquote, hback⟩ := render_of_ends hends args
    have hneutral := hfits.1
    simp only [neutral, Bool.and_eq_true, decide_eq_true_eq] at hneutral
    rw [render, run_neutral hfits.1, literals_append, hneutral.2, List.nil_append, hc] at h
    have ha : faithful a = true := by
      rw [run_open] at h
      rcases run_inside (m := .text []) rfl (a ++ '\'' :: c :: cs) with
        ⟨hnone, -⟩ | ⟨x, tokens, hx, -⟩
      · rw [hnone] at h
        cases h
      · rw [hx] at h
        obtain rfl : x = a := (List.cons.inj h).1
        exact faithful_of_literal hquote hback hx
    rw [run_literal ha hquote, ← hc] at h
    exact List.forall_mem_cons.mpr ⟨ha, ih hfits.tail (List.cons.inj h).2⟩

/-- The template with a blank at its end. -/
def blankAfter : List (List Char × List Char) → List (List Char × List Char)
  | [] => []
  | [(a, next)] => [(a, next ++ [' '])]
  | x :: y :: args => x :: blankAfter (y :: args)

theorem render_blank (hargs : args ≠ []) (piece : List Char) :
    render piece args ++ [' '] = render piece (blankAfter args) := by
  induction args using blankAfter.induct generalizing piece with
  | case1 => exact absurd rfl hargs
  | case2 a next => simp [render, blankAfter]
  | case3 x y args ih =>
    have hrest := ih (List.cons_ne_nil y args) x.2
    simp [render, blankAfter, ← hrest]

@[simp] theorem blankAfter_fst (args : List (List Char × List Char)) :
    (blankAfter args).map Prod.fst = args.map Prod.fst := by
  induction args using blankAfter.induct with
  | case1 => rfl
  | case2 a next => rfl
  | case3 x y args ih => simp only [blankAfter, List.map_cons, ih]

end Templates

/-! ## Statements -/

inductive Condition where
  | equals (column value : List Char)
  | today (column : List Char)
  deriving DecidableEq

inductive Statement where
  | insert (table : List Char) (columns values : List (List Char))
  | update (table : List Char) (sets : List (List Char × List Char)) (conditions : List Condition)
  | select (table : List Char) (conditions : List Condition)
  | delete (table : List Char) (conditions : List Condition)
  deriving DecidableEq

/-- The values of a condition. -/
def Condition.values : Condition → List (List Char)
  | .equals _ value => [value]
  | .today _ => []

/-- The values of a statement, from left to right. -/
def Statement.values : Statement → List (List Char)
  | .insert _ _ values => values
  | .update _ sets conditions => sets.map Prod.snd ++ conditions.flatMap Condition.values
  | .select _ conditions | .delete _ conditions => conditions.flatMap Condition.values

/-- Cut at the tokens for which `sep` holds. -/
def separate (sep : Token → Bool) : List Token → List (List Token)
  | [] => [[]]
  | t :: ts =>
      if sep t then [] :: separate sep ts
      else
        match separate sep ts with
        | [] => [[t]]
        | part :: parts => (t :: part) :: parts

def isWord (s : String) (t : Token) : Bool := t = .word s.toList

def isSymbol (c : Char) (t : Token) : Bool := t = .symbol c

/-- `` `column`='value' ``, or `` DATE(`column`)=DATE(NOW()) ``. -/
def condition : List Token → Option Condition
  | [.name column, .symbol '=', .literal value] => some (.equals column value)
  | [.word date, .symbol '(', .name column, .symbol ')', .symbol '=', .word date', .symbol '(',
      .word now, .symbol '(', .symbol ')', .symbol ')'] =>
      if date = "DATE".toList ∧ date' = "DATE".toList ∧ now = "NOW".toList then
        some (.today column)
      else none
  | _ => none

def assignment : List Token → Option (List Char × List Char)
  | [.name column, .symbol '=', .literal value] => some (column, value)
  | _ => none

def columnName : List Token → Option (List Char)
  | [.name column] => some column
  | _ => none

def value : List Token → Option (List Char)
  | [.literal value] => some value
  | _ => none

def conditions (ts : List Token) : Option (List Condition) :=
  (separate (isWord "AND") ts).mapM condition

/-- What is in the one pair of parentheses that there is. -/
def parenthesised (ts : List Token) : Option (List Token) :=
  match separate (isSymbol '(') ts with
  | [[], inner] =>
    match separate (isSymbol ')') inner with
    | [inner, []] => some inner
    | _ => none
  | _ => none

def statement (ts : List Token) : Option Statement :=
  match ts with
  | .word verb :: .word a :: .word b :: rest =>
      if verb = "INSERT".toList ∧ a = "INTO".toList then
        match separate (isWord "VALUES") rest with
        | [columns, values] => do
          let columns ← parenthesised columns
          let values ← parenthesised values
          pure (.insert b (← (separate (isSymbol ',') columns).mapM columnName)
            (← (separate (isSymbol ',') values).mapM value))
        | _ => none
      else if verb = "UPDATE".toList ∧ b = "SET".toList then
        match separate (isWord "WHERE") rest with
        | [sets, compared] => do
          pure (.update a (← (separate (isSymbol ',') sets).mapM assignment)
            (← conditions compared))
        | _ => none
      else if verb = "DELETE".toList ∧ a = "FROM".toList then
        match separate (isWord "WHERE") rest with
        | [[], compared] => (conditions compared).map (.delete b)
        | _ => none
      else none
  | .word verb :: .symbol '*' :: .word a :: .word b :: rest =>
      if verb = "SELECT".toList ∧ a = "FROM".toList then
        match separate (isWord "WHERE") rest with
        | [[], compared] => (conditions compared).map (.select b)
        | _ => none
      else none
  | _ => none

/-- The one statement that a text is, if it is one of these. -/
def parse (cs : List Char) : Option Statement := (lex cs).bind statement

theorem literals_separate (sep : Token → Bool) (hsep : ∀ s, sep (.literal s) = false)
    (ts : List Token) : (separate sep ts).flatMap literals = literals ts := by
  induction ts with
  | nil => rfl
  | cons t ts ih =>
    simp only [separate]
    split
    · rename_i ht
      -- what is left out is no literal
      have hnone : t.literal? = none := by
        cases t with
        | literal s => rw [hsep] at ht; cases ht
        | _ => rfl
      simpa [literals, hnone] using ih
    · rw [← show literals [t] ++ literals ts = literals (t :: ts) from
        (literals_append [t] ts).symm, ← ih]
      cases separate sep ts with
      | nil => simp
      | cons part parts =>
        simp only [List.flatMap_cons]
        rw [← List.append_assoc, ← literals_append]
        rfl

/-- What is read from parts of a text, each as `f` reads it. -/
theorem literals_mapM {β : Type} {f : List Token → Option β} {vals : β → List (List Char)}
    (hf : ∀ ts b, f ts = some b → literals ts = vals b) {parts : List (List Token)} {bs : List β}
    (h : parts.mapM f = some bs) : parts.flatMap literals = bs.flatMap vals := by
  induction parts generalizing bs with
  | nil =>
    cases h
    rfl
  | cons part parts ih =>
    simp only [List.mapM_cons, Option.bind_eq_bind, Option.bind_eq_some_iff] at h
    obtain ⟨b, hb, bs', hbs', heq⟩ := h
    cases heq
    simp only [List.flatMap_cons, hf part b hb, ih hbs']

theorem literals_parts {β : Type} {f : List Token → Option β} (vals : β → List (List Char))
    (hf : ∀ ts b, f ts = some b → literals ts = vals b) {sep : Token → Bool}
    (hsep : ∀ s, sep (.literal s) = false) {ts : List Token} {bs : List β}
    (h : (separate sep ts).mapM f = some bs) : literals ts = bs.flatMap vals := by
  rw [← literals_separate sep hsep, literals_mapM hf h]

theorem literals_condition (ts : List Token) (c : Condition) (h : condition ts = some c) :
    literals ts = c.values := by
  unfold condition at h
  split at h
  · cases h
    rfl
  · split at h
    · cases h
      rfl
    · cases h
  · cases h

theorem literals_assignment (ts : List Token) (x : List Char × List Char)
    (h : assignment ts = some x) : literals ts = [x.2] := by
  unfold assignment at h
  split at h
  · cases h
    rfl
  · cases h

theorem literals_columnName (ts : List Token) (column : List Char)
    (h : columnName ts = some column) : literals ts = [] := by
  unfold columnName at h
  split at h
  · rfl
  · cases h

theorem literals_value (ts : List Token) (s : List Char) (h : value ts = some s) :
    literals ts = [s] := by
  unfold value at h
  split at h
  · cases h
    rfl
  · cases h

theorem literals_conditions {ts : List Token} {cs : List Condition} (h : conditions ts = some cs) :
    literals ts = cs.flatMap Condition.values :=
  literals_parts Condition.values literals_condition (fun _ => rfl) h

theorem literals_parenthesised {ts inner : List Token} (h : parenthesised ts = some inner) :
    literals ts = literals inner := by
  unfold parenthesised at h
  split at h
  · rename_i rest houter
    split at h
    · rename_i hinner
      cases h
      have hrest := literals_separate (isSymbol ')') (fun _ => rfl) rest
      rw [hinner] at hrest
      rw [← literals_separate (isSymbol '(') (fun _ => rfl) ts, houter]
      simpa [literals] using hrest.symm
    · cases h
  · cases h

/-- A text in two parts, the second after a word. -/
theorem literals_around {word : String} {ts left right : List Token}
    (h : separate (isWord word) ts = [left, right]) :
    literals ts = literals left ++ literals right := by
  rw [← literals_separate (isWord word) (fun _ => rfl) ts, h]
  simp

/-- **The literals of a statement are its values.** -/
theorem literals_statement {ts : List Token} {st : Statement} (h : statement ts = some st) :
    literals ts = st.values := by
  unfold statement at h
  split at h
  · rename_i verb a b rest
    show literals rest = st.values
    split_ifs at h
    · split at h
      · rename_i columns values hparts
        simp only [Option.bind_eq_bind, Option.bind_eq_some_iff] at h
        obtain ⟨inColumns, hcolumns, inValues, hvalues, names, hnames, vals, hvals, heq⟩ := h
        cases heq
        rw [literals_around hparts, literals_parenthesised hcolumns, literals_parenthesised hvalues,
          literals_parts (fun _ => []) literals_columnName (fun _ => rfl) hnames,
          literals_parts (fun s => [s]) literals_value (fun _ => rfl) hvals]
        simp [Statement.values]
      · cases h
    · split at h
      · rename_i sets compared hparts
        simp only [Option.bind_eq_bind, Option.bind_eq_some_iff] at h
        obtain ⟨assigned, hassigned, cs, hcs, heq⟩ := h
        cases heq
        rw [literals_around hparts, literals_conditions hcs,
          literals_parts (fun x => [x.2]) literals_assignment (fun _ => rfl) hassigned]
        simp [Statement.values, List.map_eq_flatMap]
      · cases h
    · split at h
      · rename_i compared hparts
        obtain ⟨cs, hcs, rfl⟩ := Option.map_eq_some_iff.mp h
        rw [literals_around hparts, literals_conditions hcs]
        rfl
      · cases h
  · rename_i verb a b rest
    show literals rest = st.values
    split_ifs at h
    split at h
    · rename_i compared hparts
      obtain ⟨cs, hcs, rfl⟩ := Option.map_eq_some_iff.mp h
      rw [literals_around hparts, literals_conditions hcs]
      rfl
    · cases h
  · cases h

/-- **When a template is read as a statement** that has the arguments as its values: it is
meant to be read so, and the arguments are faithful. -/
theorem parse_render_iff {piece : List Char} {args : List (List Char × List Char)} {st : Statement}
    (hargs : args ≠ []) (hfits : Fits piece (blankAfter args))
    (hvalues : st.values = args.map Prod.fst) :
    parse (render piece args) = some st ↔
      statement (intended piece (blankAfter args)) = some st ∧
        ∀ a ∈ args.map Prod.fst, faithful a = true := by
  have hall : (∀ a ∈ args.map Prod.fst, faithful a = true) ↔
      ∀ x ∈ blankAfter args, faithful x.1 = true := by
    rw [← blankAfter_fst, List.forall_mem_map]
  rw [hall]
  unfold parse lex
  rw [render_blank hargs]
  constructor
  · intro h
    split at h
    · have hliterals := literals_statement h
      rw [hvalues, ← blankAfter_fst] at hliterals
      have hfaithful := faithful_of_literals hfits hliterals
      rw [run_render hfits hfaithful] at h
      exact ⟨h, hfaithful⟩
    · cases h
  · rintro ⟨h, hfaithful⟩
    rw [run_render hfits hfaithful, if_pos rfl]
    exact h

end Text.Sql
