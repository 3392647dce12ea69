/-
Reckoner.Proofs.Formula.Grammar — the infix grammar, and what its sentences
compile to.

    expression = term { ("+" | "-") term }
    term       = factor { ("*" | "/") factor }
    factor     = number | "(" expression ")"

Blanks may stand between two tokens and at both ends. A number is a run of
digits and points; a minus sign directly in front of it belongs to it where the
sign is the first character of the text or directly behind a parenthesis. That
is the only place where the grammar looks at what is to the left, so a
derivation carries one flag for it.

`postfixOf_of_sentence` says that every sentence compiles to the postorder of
its parse tree. The proof has two layers. `Lexes` says that a text is cut into
given lexemes whatever follows it, provided that is no continuation of a
number. `Compiles` says what a yard does with them: it puts out a part of the
postorder and keeps the rest of it as waiting operators, all of which bind at
least as strongly as the category at hand.

  1. The grammar
  2. From text to lexemes
  3. From lexemes to postfix tokens
  4. Sentences
-/
import Reckoner.Proofs.Formula.Tree
import Reckoner.Proofs.Number.Text

namespace Reckoner.Formula

/-! ## 1. The grammar -/

/-- The categories of the grammar. -/
inductive Category where
  | expression
  | term
  | factor
deriving DecidableEq

/-- The text is empty or holds nothing but blanks. -/
def Blanks (cs : List Char) : Prop := ∀ c ∈ cs, Text.isBlank c = true

instance (cs : List Char) : Decidable (Blanks cs) := List.decidableBAll _ cs

/-- The text is a number without a sign. -/
def Digits (cs : List Char) : Prop := cs ≠ [] ∧ ∀ c ∈ cs, isNumberChar c = true

instance (cs : List Char) : Decidable (Digits cs) :=
  have := List.decidableBAll (fun c => isNumberChar c = true) cs
  instDecidableAnd

/-- The text belongs to a category, with this parse tree. The flag says that a
sign may stand at the very beginning of the text. Both binary rules take their
left operand from their own category, so they associate to the left. -/
inductive Derives : Category → Bool → List Char → Tree → Prop
  | number {signed : Bool} {cs : List Char} (digits : Digits cs) :
      Derives .factor signed cs (.leaf (String.ofList cs))
  | negative {cs : List Char} (digits : Digits cs) :
      Derives .factor true ('-' :: cs) (.leaf (String.ofList ('-' :: cs)))
  | group {signed : Bool} {w cs v : List Char} {t : Tree} (before : Blanks w) (after : Blanks v)
      (inner : Derives .expression w.isEmpty cs t) :
      Derives .factor signed ('(' :: (w ++ (cs ++ (v ++ [')'])))) t
  | factor {signed : Bool} {cs : List Char} {t : Tree} (whole : Derives .factor signed cs t) :
      Derives .term signed cs t
  | product {signed : Bool} {op : Operator} {cs w v ds : List Char} {l r : Tree}
      (isProduct : op = .multiply ∨ op = .divide) (before : Blanks w) (after : Blanks v)
      (left : Derives .term signed cs l) (right : Derives .factor false ds r) :
      Derives .term signed (cs ++ (w ++ op.symbol :: (v ++ ds))) (.node op l r)
  | term {signed : Bool} {cs : List Char} {t : Tree} (whole : Derives .term signed cs t) :
      Derives .expression signed cs t
  | sum {signed : Bool} {op : Operator} {cs w v ds : List Char} {l r : Tree}
      (isSum : op = .add ∨ op = .subtract) (before : Blanks w) (after : Blanks v)
      (left : Derives .expression signed cs l) (right : Derives .term false ds r) :
      Derives .expression signed (cs ++ (w ++ op.symbol :: (v ++ ds))) (.node op l r)

/-- The whole text is an expression, with this parse tree. -/
def Sentence (s : String) (t : Tree) : Prop :=
  ∃ w cs v, s.toList = w ++ (cs ++ v) ∧ Blanks w ∧ Blanks v ∧
    Derives .expression w.isEmpty cs t

/-! ## 2. From text to lexemes -/

/-- What comes next does not go on with a number. -/
def Stops (cs : List Char) : Prop := ∀ c ∈ cs.head?, isNumberChar c = false

theorem stops_cons {c : Char} (h : isNumberChar c = false) (cs : List Char) : Stops (c :: cs) := by
  intro d hd
  cases hd
  exact h

theorem isNumberChar_of_isBlank {c : Char} (h : Text.isBlank c = true) :
    isNumberChar c = false := by
  have hpoint : c ≠ '.' := by
    rintro rfl
    exact absurd h (by decide)
  have hdigit : c.isDigit = false := by
    rw [← Bool.not_eq_true]
    intro hd
    rw [Text.isBlank_of_isDigit hd] at h
    cases h
  simp [isNumberChar, hdigit, hpoint]

theorem isNumberChar_symbol (op : Operator) : isNumberChar op.symbol = false := by
  cases op <;> rfl

theorem stops_blanks {w : List Char} (hw : Blanks w) {cs : List Char} (h : Stops cs) :
    Stops (w ++ cs) := by
  cases w with
  | nil => exact h
  | cons c w => exact stops_cons (isNumberChar_of_isBlank (hw c List.mem_cons_self)) _

theorem lexemesFrom_nil (number : List Char) (signed : Bool) :
    lexemesFrom number signed [] = withNumber number [] := rfl

/-- How the first character is read; the lemmas below take its cases apart. -/
theorem lexemesFrom_cons (number : List Char) (signed : Bool) (c : Char) (cs : List Char) :
    lexemesFrom number signed (c :: cs) =
      if isNumberChar c then lexemesFrom (c :: number) false cs
      else withNumber number <|
        if Text.isBlank c then lexemesFrom [] false cs
        else if c = '-' ∧ signed then lexemesFrom ['-'] false cs
        else
          match Operator.ofChar? c with
          | some op => .operator op :: lexemesFrom [] false cs
          | none =>
            if c = '(' then .opening :: lexemesFrom [] true cs
            else if c = ')' then .closing :: lexemesFrom [] false cs
            else .stray c :: lexemesFrom [] false cs := rfl

/-- Blanks are skipped, and no sign may follow them. -/
theorem lexemesFrom_blanks {w : List Char} (hw : Blanks w) (signed : Bool) (cs : List Char) :
    lexemesFrom [] signed (w ++ cs) = lexemesFrom [] (signed && w.isEmpty) cs := by
  induction w generalizing signed with
  | nil => simp
  | cons c w ih =>
    have hc := hw c List.mem_cons_self
    have hw' : Blanks w := fun d hd => hw d (List.mem_cons_of_mem _ hd)
    rw [List.cons_append, lexemesFrom_cons, isNumberChar_of_isBlank hc]
    simp [hc, withNumber, ih hw']

theorem lexemesFrom_digits {ds : List Char} (h : ∀ c ∈ ds, isNumberChar c = true)
    (number : List Char) (cs : List Char) :
    lexemesFrom number false (ds ++ cs) = lexemesFrom (ds.reverse ++ number) false cs := by
  induction ds generalizing number with
  | nil => rfl
  | cons d ds ih =>
    rw [List.cons_append, lexemesFrom_cons, if_pos (h d List.mem_cons_self),
      ih fun c hc => h c (List.mem_cons_of_mem _ hc)]
    simp

/-- A number ends where something else begins. -/
theorem lexemesFrom_stops {number : List Char} (hn : number ≠ []) {cs : List Char}
    (h : Stops cs) :
    lexemesFrom number false cs =
      .number (String.ofList number.reverse) :: lexemesFrom [] false cs := by
  have hne : number.isEmpty = false := by simpa using hn
  cases cs with
  | nil => simp [lexemesFrom_nil, withNumber, hne]
  | cons c cs =>
    have hc := h c rfl
    rw [lexemesFrom_cons, lexemesFrom_cons]
    simp [hc, withNumber, hne]

theorem lexemesFrom_operator (op : Operator) (cs : List Char) :
    lexemesFrom [] false (op.symbol :: cs) = .operator op :: lexemesFrom [] false cs := by
  rw [lexemesFrom_cons, isNumberChar_symbol]
  cases op <;> simp [withNumber, Operator.symbol, Operator.ofChar?, Text.isBlank]

theorem lexemesFrom_opening (signed : Bool) (cs : List Char) :
    lexemesFrom [] signed ('(' :: cs) = .opening :: lexemesFrom [] true cs := by
  rw [lexemesFrom_cons]
  simp [isNumberChar, withNumber, Operator.ofChar?, Text.isBlank]

theorem lexemesFrom_closing (cs : List Char) :
    lexemesFrom [] false (')' :: cs) = .closing :: lexemesFrom [] false cs := by
  rw [lexemesFrom_cons]
  simp [isNumberChar, withNumber, Operator.ofChar?, Text.isBlank]

theorem lexemesFrom_sign (cs : List Char) :
    lexemesFrom [] true ('-' :: cs) = lexemesFrom ['-'] false cs := by
  rw [lexemesFrom_cons]
  simp [isNumberChar, withNumber, Text.isBlank]

/-- The text is cut into these lexemes, whatever comes after it. -/
def Lexes (signed : Bool) (cs : List Char) (ls : List Lexeme) : Prop :=
  ∀ rest, Stops rest → lexemesFrom [] signed (cs ++ rest) = ls ++ lexemesFrom [] false rest

theorem lexes_number {signed : Bool} {cs : List Char} (h : Digits cs) :
    Lexes signed cs [.number (String.ofList cs)] := by
  intro rest hrest
  obtain ⟨c, cs, rfl⟩ := List.exists_cons_of_ne_nil h.1
  -- The first digit puts the flag down, so the rest is read as by `lexemesFrom_digits`.
  have hc : lexemesFrom [] signed (c :: (cs ++ rest)) = lexemesFrom [c] false (cs ++ rest) := by
    rw [lexemesFrom_cons, if_pos (h.2 c List.mem_cons_self)]
  rw [List.cons_append, hc, lexemesFrom_digits fun d hd => h.2 d (List.mem_cons_of_mem _ hd),
    lexemesFrom_stops (by simp) hrest]
  simp

theorem lexes_negative {cs : List Char} (h : Digits cs) :
    Lexes true ('-' :: cs) [.number (String.ofList ('-' :: cs))] := by
  intro rest hrest
  rw [List.cons_append, lexemesFrom_sign, lexemesFrom_digits h.2,
    lexemesFrom_stops (by simp) hrest]
  simp

theorem lexes_group {signed : Bool} {w cs v : List Char} {ls : List Lexeme} (hw : Blanks w)
    (hv : Blanks v) (h : Lexes w.isEmpty cs ls) :
    Lexes signed ('(' :: (w ++ (cs ++ (v ++ [')'])))) (.opening :: (ls ++ [.closing])) := by
  intro rest hrest
  have hstop : Stops (v ++ (')' :: rest)) := stops_blanks hv (stops_cons (by decide) _)
  simp only [List.cons_append, List.append_assoc, List.nil_append]
  rw [lexemesFrom_opening, lexemesFrom_blanks hw, Bool.true_and, h _ hstop,
    lexemesFrom_blanks hv, Bool.false_and, lexemesFrom_closing]

theorem lexes_binary {signed : Bool} {op : Operator} {cs w v ds : List Char}
    {ls ms : List Lexeme} (hw : Blanks w) (hv : Blanks v) (hl : Lexes signed cs ls)
    (hr : Lexes false ds ms) :
    Lexes signed (cs ++ (w ++ op.symbol :: (v ++ ds))) (ls ++ .operator op :: ms) := by
  intro rest hrest
  have hstop : Stops (w ++ op.symbol :: (v ++ (ds ++ rest))) :=
    stops_blanks hw (stops_cons (isNumberChar_symbol op) _)
  simp only [List.append_assoc, List.cons_append]
  rw [hl _ hstop, lexemesFrom_blanks hw, Bool.false_and, lexemesFrom_operator,
    lexemesFrom_blanks hv, Bool.false_and, hr rest hrest]

/-! ## 3. From lexemes to postfix tokens -/

namespace Yard

/-- The operator that waits innermost, if any, binds less than `n`. -/
def Below (n : Nat) (ws : List Waiting) : Prop :=
  ∀ op rest, ws = .operator op :: rest → op.precedence < n

theorem below_parenthesis (n : Nat) (ws : List Waiting) : Below n (.parenthesis :: ws) :=
  fun _ _ h => nomatch h

theorem below_operator {n : Nat} {op : Operator} (h : op.precedence < n) (ws : List Waiting) :
    Below n (.operator op :: ws) := by
  intro op' rest heq
  cases heq
  exact h

theorem Below.mono {n m : Nat} (hnm : n ≤ m) {ws : List Waiting} (h : Below n ws) : Below m ws :=
  fun op rest heq => Nat.lt_of_lt_of_le (h op rest heq) hnm

/-- An operator releases those that bind as strongly, and stops at the first
that does not. -/
theorem release_map {op : Operator} {ops : List Operator}
    (h : ∀ o ∈ ops, op.precedence ≤ o.precedence) {ws : List Waiting}
    (hws : Below op.precedence ws) :
    release op (ops.map .operator ++ ws) = (ops, ws) := by
  induction ops with
  | nil =>
    match ws, hws with
    | [], _ => rfl
    | .parenthesis :: ws, _ => rfl
    | .operator top :: ws, hws => simp [release, hws top ws rfl]
  | cons o ops ih =>
    have ho : ¬ o.precedence < op.precedence := Nat.not_lt.2 (h o List.mem_cons_self)
    have ih' := ih fun p hp => h p (List.mem_cons_of_mem _ hp)
    simp [release, ho, ih']

theorem close?_map (ops : List Operator) (ws : List Waiting) :
    close? (ops.map .operator ++ .parenthesis :: ws) = some (ops, ws) := by
  induction ops with
  | nil => rfl
  | cons o ops ih => simp [close?, ih]

theorem closeAll?_map (ops : List Operator) : closeAll? (ops.map .operator) = some ops := by
  induction ops with
  | nil => rfl
  | cons o ops ih => simp [closeAll?, ih]

theorem run_append {y y' : Yard} {ls : List Lexeme} (h : y.run ls = .ok y') (ms : List Lexeme) :
    y.run (ls ++ ms) = y'.run ms := by
  induction ls generalizing y with
  | nil =>
    cases h
    rfl
  | cons l ls ih =>
    rw [run] at h
    rw [List.cons_append, run]
    cases hs : y.step l with
    | ok y₁ =>
      rw [hs] at h
      exact ih h
    | error e =>
      rw [hs] at h
      cases h

end Yard

/-- What a yard does with the lexemes of a tree: it puts out a part of the
postorder, and the rest of it waits as operators that bind at least by `n`. -/
def Compiles (n : Nat) (ls : List Lexeme) (t : Tree) : Prop :=
  ∀ y : Yard, Yard.Below n y.waiting →
    ∃ (out : List String) (ops : List Operator),
      y.run ls = .ok ⟨y.output ++ out, ops.map .operator ++ y.waiting⟩ ∧
      out ++ ops.map Operator.text = t.postorder ∧ ∀ op ∈ ops, n ≤ op.precedence

theorem compiles_number (n : Nat) (text : String) : Compiles n [.number text] (.leaf text) :=
  fun _ _ => ⟨[text], [], rfl, rfl, by simp⟩

theorem Compiles.weaken {n m : Nat} (hnm : n ≤ m) {ls : List Lexeme} {t : Tree}
    (h : Compiles m ls t) : Compiles n ls t := by
  intro y hy
  obtain ⟨out, ops, hrun, hpost, hops⟩ := h y (hy.mono hnm)
  exact ⟨out, ops, hrun, hpost, fun op hop => Nat.le_trans hnm (hops op hop)⟩

/-- A closing parenthesis lets out all that waits inside. -/
theorem Compiles.group {n m : Nat} {ls : List Lexeme} {t : Tree} (h : Compiles n ls t) :
    Compiles m (.opening :: (ls ++ [.closing])) t := by
  intro y _
  obtain ⟨out, ops, hrun, hpost, -⟩ :=
    h ⟨y.output, .parenthesis :: y.waiting⟩ (Yard.below_parenthesis _ _)
  refine ⟨t.postorder, [], ?_, by simp, by simp⟩
  rw [Yard.run, Yard.step]
  simp only
  rw [Yard.run_append hrun, Yard.run, Yard.step]
  simp only [Yard.close?_map, Yard.emit, Yard.run]
  simp [← hpost]

/-- An operator lets out what its left operand has left waiting, and waits for
its right one, which binds more strongly. -/
theorem Compiles.binary (op : Operator) {ls ms : List Lexeme} {l r : Tree}
    (hl : Compiles op.precedence ls l) (hr : Compiles (op.precedence + 1) ms r) :
    Compiles op.precedence (ls ++ .operator op :: ms) (.node op l r) := by
  intro y hy
  obtain ⟨out, ops, hrun, hpost, hops⟩ := hl y hy
  obtain ⟨out', ops', hrun', hpost', hops'⟩ :=
    hr ⟨y.output ++ l.postorder, .operator op :: y.waiting⟩
      (Yard.below_operator (Nat.lt_succ_self _) _)
  refine ⟨l.postorder ++ out', ops' ++ [op], ?_, ?_, ?_⟩
  · rw [Yard.run_append hrun, Yard.run, Yard.step]
    simp only [Yard.release_map hops hy, Yard.emit, List.append_assoc, hpost]
    rw [hrun']
    simp
  · simp [Tree.postorder, ← hpost']
  · intro o ho
    rcases List.mem_append.1 ho with ho | ho
    · exact Nat.le_of_succ_le (hops' o ho)
    · exact Nat.le_of_eq (congrArg _ (List.mem_singleton.1 ho).symm)

/-! ## 4. Sentences -/

/-- How strongly the operators of a category bind at least. -/
def Category.strength : Category → Nat
  | .expression => 1
  | .term => 2
  | .factor => 3

theorem lexes_compiles_of_derives {category : Category} {signed : Bool} {cs : List Char}
    {t : Tree} (h : Derives category signed cs t) :
    ∃ ls, Lexes signed cs ls ∧ Compiles category.strength ls t := by
  -- A production without an operator passes its tree on; the others join two.
  induction h with
  | number digits => exact ⟨_, lexes_number digits, compiles_number _ _⟩
  | negative digits => exact ⟨_, lexes_negative digits, compiles_number _ _⟩
  | group before after _ ih =>
    obtain ⟨ls, hlex, hcomp⟩ := ih
    exact ⟨_, lexes_group before after hlex, hcomp.group⟩
  | factor _ ih =>
    obtain ⟨ls, hlex, hcomp⟩ := ih
    exact ⟨ls, hlex, hcomp.weaken (by decide)⟩
  | product isProduct before after _ _ ihl ihr =>
    obtain ⟨ls, hlexl, hcompl⟩ := ihl
    obtain ⟨ms, hlexr, hcompr⟩ := ihr
    refine ⟨_, lexes_binary before after hlexl hlexr, ?_⟩
    rcases isProduct with rfl | rfl
    · exact Compiles.binary .multiply hcompl hcompr
    · exact Compiles.binary .divide hcompl hcompr
  | term _ ih =>
    obtain ⟨ls, hlex, hcomp⟩ := ih
    exact ⟨ls, hlex, hcomp.weaken (by decide)⟩
  | sum isSum before after _ _ ihl ihr =>
    obtain ⟨ls, hlexl, hcompl⟩ := ihl
    obtain ⟨ms, hlexr, hcompr⟩ := ihr
    refine ⟨_, lexes_binary before after hlexl hlexr, ?_⟩
    rcases isSum with rfl | rfl
    · exact Compiles.binary .add hcompl hcompr
    · exact Compiles.binary .subtract hcompl hcompr

/-- Every sentence of the grammar compiles, to the postorder of its parse tree. -/
theorem postfixOf_of_sentence {s : String} {t : Tree} (h : Sentence s t) :
    postfixOf s = .ok t.postorder := by
  obtain ⟨w, cs, v, hs, hw, hv, hd⟩ := h
  obtain ⟨ls, hlex, hcomp⟩ := lexes_compiles_of_derives hd
  have hlexemes : lexemes s = ls := by
    have hv' : Stops (v ++ []) := stops_blanks hv (by simp [Stops])
    rw [List.append_nil] at hv'
    have hend : lexemesFrom [] false v = [] := by
      simpa [lexemesFrom_nil, withNumber] using lexemesFrom_blanks hv false []
    rw [lexemes, hs, lexemesFrom_blanks hw, Bool.true_and, hlex v hv', hend, List.append_nil]
  -- Nothing waits in a new yard, so a tree of any strength may follow.
  obtain ⟨out, ops, hrun, hpost, -⟩ := hcomp Yard.empty (fun _ _ h => nomatch h)
  have hrun' : Yard.empty.run ls = .ok ⟨out, ops.map .operator⟩ := by
    simpa [Yard.empty] using hrun
  rw [postfixOf, hlexemes, hrun']
  simp only [Yard.finish, Yard.closeAll?_map, hpost]

/-- A sentence with both kinds of sign, a group, and blanks around an operator. -/
theorem postfixOf_signed_group :
    Sentence "-2 *(-.5+3) - 1" (.node .subtract (.node .multiply (.leaf "-2")
        (.node .add (.leaf "-.5") (.leaf "3"))) (.leaf "1")) ∧
      postfixOf "-2 *(-.5+3) - 1" = .ok ["-2", "-.5", "3", "+", "*", "1", "-"] := by
  have group : Derives .factor false ['(', '-', '.', '5', '+', '3', ')']
      (.node .add (.leaf "-.5") (.leaf "3")) :=
    .group (w := []) (v := []) (by decide) (by decide)
      (.sum (w := []) (v := []) (.inl rfl) (by decide) (by decide)
        (.term (.factor (.negative (by decide : Digits ['.', '5']))))
        (.factor (.number (by decide : Digits ['3']))))
  have product : Derives .expression true
      ['-', '2', ' ', '*', '(', '-', '.', '5', '+', '3', ')']
      (.node .multiply (.leaf "-2") (.node .add (.leaf "-.5") (.leaf "3"))) :=
    .term (.product (w := [' ']) (v := []) (.inl rfl) (by decide) (by decide)
      (.factor (.negative (by decide : Digits ['2']))) group)
  have whole : Sentence "-2 *(-.5+3) - 1" _ :=
    ⟨[], _, [], rfl, by decide, by decide,
      .sum (w := [' ']) (v := [' ']) (.inr rfl) (by decide) (by decide) product
        (.factor (.number (by decide : Digits ['1'])))⟩
  exact ⟨whole, postfixOf_of_sentence whole⟩

end Reckoner.Formula
