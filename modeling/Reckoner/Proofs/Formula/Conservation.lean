/-
Reckoner.Proofs.Formula.Conservation — every text fails or keeps its tokens.

Which texts have a postfix form is decided by their characters alone, read from
the left: by the first one that belongs to no formula or closes what is not
open, and where there is none by what is still open at the end
(`firstFault_eq_some_iff`). The lexer cuts numbers out of the text and the yard
keeps operators waiting across parentheses, but neither has a say in it
(`fault_iff_firstFault`).

A text that has a postfix form keeps all that is neither blank nor a
parenthesis. Its numbers come out in the order in which they stand, each of them
whole, and its operators among them (`fails_or_conserves`).

  1. Faults
  2. The fault of a yard
  3. Numbers and operators of a text
  4. Characters of the tokens
  5. The order of the numbers
  6. Every text
-/
import Reckoner.Proofs.Formula.Alternation

namespace Reckoner.Formula

/-! ## 1. Faults -/

/-- The character may stand in a formula. -/
def isFormulaChar (c : Char) : Bool :=
  Text.isBlank c || c.isDigit || ['.', '+', '-', '*', '/', '(', ')'].contains c

/-- How many parentheses are open behind a character, if `depth` are open before it. -/
def depthBehind (depth : Nat) (c : Char) : Nat :=
  if c = '(' then depth + 1 else if c = ')' then depth - 1 else depth

/-- How many parentheses are open behind a text, if `depth` are open before it. -/
def depthAfter (depth : Nat) (cs : List Char) : Nat := cs.foldl depthBehind depth

/-- What is wrong with a character where `depth` parentheses are open: it closes
one though none is open, or it belongs to no formula. -/
def fault (depth : Nat) (c : Char) : Option ParseError :=
  if c = ')' then if depth = 0 then some .mismatchedParentheses else none
  else if isFormulaChar c then none else some (.invalidCharacter c)

/-- Nothing is wrong with any character of the text. -/
def Faultless (depth : Nat) (cs : List Char) : Prop :=
  ∀ before c after, cs = before ++ c :: after → fault (depthAfter depth before) c = none

/-- The first fault of a text, or the one of its end. -/
def firstFault (depth : Nat) : List Char → Option ParseError
  | [] => if depth = 0 then none else some .mismatchedParentheses
  | c :: cs => (fault depth c).or (firstFault (depthBehind depth c) cs)

theorem faultless_nil (depth : Nat) : Faultless depth [] :=
  fun _ _ _ h => absurd h (by simp)

theorem faultless_cons_iff {depth : Nat} {c : Char} {cs : List Char} :
    Faultless depth (c :: cs) ↔ fault depth c = none ∧ Faultless (depthBehind depth c) cs := by
  constructor
  · intro h
    refine ⟨h [] c cs rfl, fun before d after hcs => ?_⟩
    exact h (c :: before) d after (by rw [hcs, List.cons_append])
  · rintro ⟨hc, hcs⟩ before d after h
    cases before with
    | nil =>
      cases h
      exact hc
    | cons b before =>
      cases h
      exact hcs before d after rfl

theorem firstFault_eq_none_iff {depth : Nat} {cs : List Char} :
    firstFault depth cs = none ↔ Faultless depth cs ∧ depthAfter depth cs = 0 := by
  induction cs generalizing depth with
  | nil => simp [firstFault, faultless_nil, depthAfter]
  | cons c cs ih =>
    rw [firstFault, Option.or_eq_none_iff, ih, faultless_cons_iff, and_assoc]
    rfl

/-- The first character at fault decides, and an open parenthesis only where no
character is at fault. -/
theorem firstFault_eq_some_iff {depth : Nat} {cs : List Char} {e : ParseError} :
    firstFault depth cs = some e ↔
      (∃ before c after, cs = before ++ c :: after ∧ Faultless depth before ∧
        fault (depthAfter depth before) c = some e) ∨
      (Faultless depth cs ∧ 0 < depthAfter depth cs ∧ e = .mismatchedParentheses) := by
  induction cs generalizing depth with
  | nil => simp [firstFault, faultless_nil, depthAfter, Nat.pos_iff_ne_zero, eq_comm]
  | cons c cs ih =>
    rw [firstFault]
    cases hc : fault depth c with
    | some e' =>
      rw [Option.some_or]
      constructor
      · intro h
        exact .inl ⟨[], c, cs, rfl, faultless_nil depth, hc.trans h⟩
      · rintro (⟨before, d, after, hcs, hbefore, hd⟩ | ⟨hfree, -, -⟩)
        · cases before with
          | nil =>
            cases hcs
            exact hc.symm.trans hd
          | cons b before =>
            cases hcs
            rw [(faultless_cons_iff.1 hbefore).1] at hc
            cases hc
        · rw [(faultless_cons_iff.1 hfree).1] at hc
          cases hc
    | none =>
      rw [Option.none_or, ih]
      constructor
      · rintro (⟨before, d, after, rfl, hbefore, hd⟩ | ⟨hfree, hopen, he⟩)
        · exact .inl ⟨c :: before, d, after, rfl, faultless_cons_iff.2 ⟨hc, hbefore⟩, hd⟩
        · exact .inr ⟨faultless_cons_iff.2 ⟨hc, hfree⟩, hopen, he⟩
      · rintro (⟨before, d, after, hcs, hbefore, hd⟩ | ⟨hfree, hopen, he⟩)
        · cases before with
          | nil =>
            cases hcs
            cases hc.symm.trans hd
          | cons b before =>
            cases hcs
            exact .inl ⟨before, d, after, rfl, (faultless_cons_iff.1 hbefore).2, hd⟩
        · exact .inr ⟨(faultless_cons_iff.1 hfree).2, hopen, he⟩

/-! ## 2. The fault of a yard -/

/-- The first fault among some lexemes, or the one of their end, if `depth`
parentheses are open to begin with. -/
def lexemesFault (depth : Nat) : List Lexeme → Option ParseError
  | [] => if depth = 0 then none else some .mismatchedParentheses
  | .opening :: ls => lexemesFault (depth + 1) ls
  | .closing :: ls => if depth = 0 then some .mismatchedParentheses else lexemesFault (depth - 1) ls
  | .stray c :: _ => some (.invalidCharacter c)
  | .number _ :: ls => lexemesFault depth ls
  | .operator _ :: ls => lexemesFault depth ls

namespace Yard

theorem close?_eq_none_iff {ws : List Waiting} : close? ws = none ↔ ws.count .parenthesis = 0 := by
  induction ws with
  | nil => simp [close?]
  | cons w ws ih =>
    cases w with
    | parenthesis => simp [close?]
    | operator op => simp [close?, ih]

theorem closeAll?_eq_none_iff {ws : List Waiting} :
    closeAll? ws = none ↔ ws.count .parenthesis ≠ 0 := by
  induction ws with
  | nil => simp [closeAll?]
  | cons w ws ih =>
    cases w with
    | parenthesis => simp [closeAll?]
    | operator op => simp [closeAll?, ih]

theorem depth_emit_release (y : Yard) (op : Operator) :
    (y.emit (release op y.waiting).1 (.operator op :: (release op y.waiting).2)).depth =
      y.depth := by
  have hsplit := congrArg (List.count .parenthesis) (release_append op y.waiting)
  rw [List.count_append, count_parenthesis_map] at hsplit
  simp [depth, emit, hsplit]

theorem depth_emit_close {y : Yard} {ops : List Operator} {ws : List Waiting}
    (h : close? y.waiting = some (ops, ws)) : y.depth = (y.emit ops ws).depth + 1 := by
  simp [depth, emit, append_of_close? h, count_parenthesis_map]

/-- How a yard ends after some lexemes depends on them and on what is open. -/
theorem fault_iff_lexemesFault {y : Yard} {ls : List Lexeme} {e : ParseError} :
    (y.run ls >>= finish) = .error e ↔ lexemesFault y.depth ls = some e := by
  induction ls generalizing y with
  | nil =>
    show y.finish = _ ↔ _
    rw [finish, lexemesFault, depth]
    cases hclose : closeAll? y.waiting with
    | none => simp [closeAll?_eq_none_iff.1 hclose]
    | some ops => simp [map_of_closeAll? hclose, count_parenthesis_map]
  | cons l ls ih =>
    rw [run]
    cases l with
    | number s => exact ih
    | operator op =>
      show (run (y.emit _ _) ls >>= finish) = _ ↔ _
      rw [ih, depth_emit_release, lexemesFault]
    | opening =>
      show (run ⟨y.output, .parenthesis :: y.waiting⟩ ls >>= finish) = _ ↔ _
      rw [ih, lexemesFault, depth, depth, List.count_cons_self]
    | closing =>
      rw [step, lexemesFault]
      cases hclose : close? y.waiting with
      | none =>
        have hdepth : y.depth = 0 := close?_eq_none_iff.1 hclose
        simp [hdepth, bind, Except.bind]
      | some found =>
        obtain ⟨ops, ws⟩ := found
        show (run (y.emit ops ws) ls >>= finish) = _ ↔ _
        rw [ih, depth_emit_close hclose, if_neg (Nat.succ_ne_zero _), Nat.add_sub_cancel]
    | stray c => simp [step, lexemesFault, bind, Except.bind]

end Yard

theorem lexemesFault_withNumber (depth : Nat) (number : List Char) (ls : List Lexeme) :
    lexemesFault depth (withNumber number ls) = lexemesFault depth ls := by
  rw [withNumber]
  split
  · rfl
  · rfl

/-- What the lexer makes of a character and the text behind it. -/
inductive LexesOn (number : List Char) (signed : Bool) (c : Char) (cs : List Char) :
    List Lexeme → Prop
  | numeral (isNumeral : isNumberChar c = true) :
      LexesOn number signed c cs (lexemesFrom (c :: number) false cs)
  | blank (isBlank : Text.isBlank c = true) :
      LexesOn number signed c cs (withNumber number (lexemesFrom [] false cs))
  | sign (isMinus : c = '-') (isSign : signed = true) :
      LexesOn number signed c cs (withNumber number (lexemesFrom ['-'] false cs))
  | operator (op : Operator) (isSymbol : c = op.symbol) (noSign : ¬ (c = '-' ∧ signed = true)) :
      LexesOn number signed c cs (withNumber number (.operator op :: lexemesFrom [] false cs))
  | opening (isOpening : c = '(') :
      LexesOn number signed c cs (withNumber number (.opening :: lexemesFrom [] true cs))
  | closing (isClosing : c = ')') :
      LexesOn number signed c cs (withNumber number (.closing :: lexemesFrom [] false cs))
  | stray (isStray : isFormulaChar c = false) :
      LexesOn number signed c cs (withNumber number (.stray c :: lexemesFrom [] false cs))

theorem isFormulaChar_eq_false {c : Char} (hnumber : ¬ isNumberChar c = true)
    (hblank : ¬ Text.isBlank c = true) (hop : Operator.ofChar? c = none) (hopen : c ≠ '(')
    (hclose : c ≠ ')') : isFormulaChar c = false := by
  have hsymbol (op : Operator) : c ≠ op.symbol := by
    rintro rfl
    rw [Operator.ofChar?_symbol] at hop
    cases hop
  have hadd : c ≠ '+' := hsymbol .add
  have hsubtract : c ≠ '-' := hsymbol .subtract
  have hmultiply : c ≠ '*' := hsymbol .multiply
  have hdivide : c ≠ '/' := hsymbol .divide
  have hnumber' : ¬ c.isDigit = true ∧ c ≠ '.' := by simpa [isNumberChar] using hnumber
  simp [isFormulaChar, hblank, hnumber', hadd, hsubtract, hmultiply, hdivide, hopen, hclose]

theorem lexesOn (number : List Char) (signed : Bool) (c : Char) (cs : List Char) :
    LexesOn number signed c cs (lexemesFrom number signed (c :: cs)) := by
  rw [lexemesFrom_cons]
  split
  · next hnumber => exact .numeral hnumber
  · next hnumber =>
    split
    · next hblank => exact .blank hblank
    · next hblank =>
      split
      · next hsign => exact .sign hsign.1 hsign.2
      · next hsign =>
        split
        · next op hop => exact .operator op (Operator.eq_symbol_of_ofChar? hop) hsign
        · next hop =>
          split
          · next hopen => exact .opening hopen
          · next hopen =>
            split
            · next hclose => exact .closing hclose
            · next hclose => exact .stray (isFormulaChar_eq_false hnumber hblank hop hopen hclose)

theorem isFormulaChar_of_isNumberChar {c : Char} (h : isNumberChar c = true) :
    isFormulaChar c = true := by
  rw [isNumberChar, Bool.or_eq_true, beq_iff_eq] at h
  rcases h with hdigit | hpoint
  · simp [isFormulaChar, hdigit]
  · simp [isFormulaChar, hpoint]

theorem isFormulaChar_of_isBlank {c : Char} (h : Text.isBlank c = true) :
    isFormulaChar c = true := by
  simp [isFormulaChar, h]

theorem isFormulaChar_symbol (op : Operator) : isFormulaChar op.symbol = true := by
  cases op <;> decide

/-- Two characters differ if one is of a kind and the other is not. -/
theorem ne_of_kind {p : Char → Bool} {c d : Char} (h : p c = true) (hd : p d = false) : c ≠ d := by
  rintro rfl
  rw [h] at hd
  cases hd

/-- A character that is no parenthesis is passed, if it may stand in a formula. -/
theorem firstFault_cons {depth : Nat} {c : Char} {cs : List Char} (h : isFormulaChar c = true)
    (hopen : c ≠ '(') (hclose : c ≠ ')') : firstFault depth (c :: cs) = firstFault depth cs := by
  simp [firstFault, fault, depthBehind, h, hopen, hclose]

/-- The lexer keeps the faults of the text, wherever it has begun a number. -/
theorem lexemesFault_lexemesFrom (number : List Char) (signed : Bool) (depth : Nat)
    (cs : List Char) : lexemesFault depth (lexemesFrom number signed cs) = firstFault depth cs := by
  induction cs generalizing number signed depth with
  | nil =>
    rw [lexemesFrom_nil, lexemesFault_withNumber]
    rfl
  | cons c cs ih =>
    have hlexes := lexesOn number signed c cs
    generalize lexemesFrom number signed (c :: cs) = ls at hlexes
    cases hlexes with
    | numeral isNumeral =>
      rw [ih, firstFault_cons (isFormulaChar_of_isNumberChar isNumeral)
        (ne_of_kind isNumeral (by decide)) (ne_of_kind isNumeral (by decide))]
    | blank isBlank =>
      rw [lexemesFault_withNumber, ih, firstFault_cons (isFormulaChar_of_isBlank isBlank)
        (ne_of_kind isBlank (by decide)) (ne_of_kind isBlank (by decide))]
    | sign isMinus _ =>
      subst isMinus
      rw [lexemesFault_withNumber, ih, firstFault_cons (by decide) (by decide) (by decide)]
    | operator op isSymbol _ =>
      subst isSymbol
      rw [lexemesFault_withNumber, lexemesFault, ih, firstFault_cons (isFormulaChar_symbol op)
        (by cases op <;> decide) (by cases op <;> decide)]
    | opening isOpening =>
      subst isOpening
      rw [lexemesFault_withNumber, lexemesFault, ih]
      rfl
    | closing isClosing =>
      subst isClosing
      rw [lexemesFault_withNumber, lexemesFault, ih]
      by_cases hdepth : depth = 0
      · simp [firstFault, fault, hdepth]
      · simp [firstFault, fault, hdepth, depthBehind]
    | stray isStray =>
      have hclose : c ≠ ')' := by
        rintro rfl
        exact absurd isStray (by decide)
      rw [lexemesFault_withNumber, lexemesFault]
      simp [firstFault, fault, hclose, isStray]

/-- Neither the lexer nor the yard has a say in whether a text has a postfix form. -/
theorem fault_iff_firstFault {s : String} {e : ParseError} :
    postfixOf s = .error e ↔ firstFault 0 s.toList = some e := by
  have hbind : postfixOf s = Yard.empty.run (lexemes s) >>= Yard.finish := by
    rw [postfixOf]
    cases Yard.empty.run (lexemes s) <;> rfl
  rw [hbind, Yard.fault_iff_lexemesFault, lexemes, lexemesFault_lexemesFrom]
  rfl

/-! ## 3. Numbers and operators of a text -/

/-- The numbers of a text. Each is a longest run of digits and points, with the
minus sign before it that begins the text, if `signed`, or stands directly
behind an open parenthesis. -/
def numbersIn (signed : Bool) : List Char → List String
  | [] => []
  | c :: cs =>
    if isNumberChar c || (c == '-' && signed) then
      String.ofList (c :: cs.takeWhile isNumberChar) ::
        numbersIn false (cs.dropWhile isNumberChar)
    else numbersIn (c = '(') cs
termination_by cs => cs.length
decreasing_by
  · have hle : (cs.dropWhile isNumberChar).length ≤ cs.length :=
      (List.dropWhile_sublist _).length_le
    rw [List.length_cons]
    omega
  · rw [List.length_cons]
    omega

/-- The operators of a text: its operator characters but for the signs of numbers. -/
def operatorsIn (signed : Bool) : List Char → List Operator
  | [] => []
  | c :: cs =>
    if c == '-' && signed then operatorsIn false cs
    else (Operator.ofChar? c).toList ++ operatorsIn (c = '(') cs

/-- The text of a number; other lexemes have none. -/
def Lexeme.number? : Lexeme → Option String
  | .number s => some s
  | _ => none

/-- The operator that a lexeme is. -/
def Lexeme.operator? : Lexeme → Option Operator
  | .operator op => some op
  | _ => none

/-- The numbers among some lexemes. -/
def numbersOf (ls : List Lexeme) : List String := ls.filterMap Lexeme.number?

/-- The operators among some lexemes. -/
def operatorsOf (ls : List Lexeme) : List Operator := ls.filterMap Lexeme.operator?

theorem tokensOf_perm (ls : List Lexeme) :
    (tokensOf ls).Perm (numbersOf ls ++ (operatorsOf ls).map Operator.text) := by
  induction ls with
  | nil => exact .refl _
  | cons l ls ih =>
    cases l with
    | number s => exact ih.cons s
    | operator op => exact (ih.cons op.text).trans List.perm_middle.symm
    | opening => exact ih
    | closing => exact ih
    | stray c => exact ih

theorem operatorsOf_withNumber (number : List Char) (ls : List Lexeme) :
    operatorsOf (withNumber number ls) = operatorsOf ls := by
  rw [withNumber]
  split
  · rfl
  · rfl

theorem isBlank_symbol (op : Operator) : Text.isBlank op.symbol = false := by
  cases op <;> rfl

theorem ofChar?_eq_none {c : Char} (h : ∀ op : Operator, c ≠ op.symbol) :
    Operator.ofChar? c = none := by
  rw [← Option.not_isSome_iff_eq_none]
  intro hsome
  obtain ⟨op, hop⟩ := Option.isSome_iff_exists.1 hsome
  exact h op (Operator.eq_symbol_of_ofChar? hop)

theorem operatorsOf_lexemesFrom (number : List Char) (signed : Bool) (cs : List Char) :
    operatorsOf (lexemesFrom number signed cs) = operatorsIn signed cs := by
  induction cs generalizing number signed with
  | nil => rw [lexemesFrom_nil, operatorsOf_withNumber]; rfl
  | cons c cs ih =>
    rw [operatorsIn]
    have hlexes := lexesOn number signed c cs
    generalize lexemesFrom number signed (c :: cs) = ls at hlexes
    cases hlexes with
    | numeral isNumeral =>
      have hminus : c ≠ '-' := ne_of_kind isNumeral (by decide)
      have hopen : c ≠ '(' := ne_of_kind isNumeral (by decide)
      have hnone : Operator.ofChar? c = none :=
        ofChar?_eq_none fun op => ne_of_kind isNumeral (isNumberChar_symbol op)
      simp [ih, hminus, hopen, hnone]
    | blank isBlank =>
      have hminus : c ≠ '-' := ne_of_kind isBlank (by decide)
      have hopen : c ≠ '(' := ne_of_kind isBlank (by decide)
      have hnone : Operator.ofChar? c = none :=
        ofChar?_eq_none fun op => ne_of_kind isBlank (isBlank_symbol op)
      simp [operatorsOf_withNumber, ih, hminus, hopen, hnone]
    | sign isMinus isSign => simp [operatorsOf_withNumber, ih, isMinus, isSign]
    | operator op isSymbol noSign =>
      have hopen : op.symbol ≠ '(' := by cases op <;> decide
      subst isSymbol
      rw [operatorsOf_withNumber]
      show op :: operatorsOf (lexemesFrom [] false cs) = _
      simp [ih, noSign, hopen]
    | opening isOpening =>
      subst isOpening
      rw [operatorsOf_withNumber]
      exact ih [] true
    | closing isClosing =>
      subst isClosing
      rw [operatorsOf_withNumber]
      exact ih [] false
    | stray isStray =>
      have hminus : c ≠ '-' := (ne_of_kind (d := c) (by decide) isStray).symm
      have hopen : c ≠ '(' := (ne_of_kind (d := c) (by decide) isStray).symm
      rw [operatorsOf_withNumber]
      show operatorsOf (lexemesFrom [] false cs) = _
      have hnone : Operator.ofChar? c = none :=
        ofChar?_eq_none fun op => (ne_of_kind (isFormulaChar_symbol op) isStray).symm
      simp [ih, hminus, hopen, hnone]

/-- The lexer finds each number whole. -/
theorem numbersOf_lexemesFrom (signed : Bool) :
    ∀ cs : List Char, numbersOf (lexemesFrom [] signed cs) = numbersIn signed cs
  | [] => by rw [numbersIn]; rfl
  | c :: cs => by
    have hrest := numbersOf_lexemesFrom false (cs.dropWhile isNumberChar)
    have hnext (signed' : Bool) := numbersOf_lexemesFrom signed' cs
    have hnumber : numbersOf (lexemesFrom [c] false cs) =
        String.ofList (c :: cs.takeWhile isNumberChar) ::
          numbersIn false (cs.dropWhile isNumberChar) := by
      rw [lexemesFrom_number (List.cons_ne_nil c []), ← hrest]
      rfl
    rw [numbersIn]
    have hlexes := lexesOn [] signed c cs
    generalize lexemesFrom [] signed (c :: cs) = ls at hlexes
    cases hlexes with
    | numeral isNumeral => rw [hnumber, if_pos (by simp [isNumeral])]
    | blank isBlank =>
      have hminus : c ≠ '-' := ne_of_kind isBlank (by decide)
      have hopen : c ≠ '(' := ne_of_kind isBlank (by decide)
      show numbersOf (lexemesFrom [] false cs) = _
      simp [hnext, hminus, hopen, isNumberChar_of_isBlank isBlank]
    | sign isMinus isSign =>
      subst isMinus
      rw [if_pos (by simp [isSign])]
      exact hnumber
    | operator op isSymbol noSign =>
      have hopen : op.symbol ≠ '(' := by cases op <;> decide
      subst isSymbol
      show numbersOf (lexemesFrom [] false cs) = _
      simp [hnext, noSign, hopen, isNumberChar_symbol]
    | opening isOpening =>
      subst isOpening
      show numbersOf (lexemesFrom [] true cs) = _
      simp [hnext, isNumberChar]
    | closing isClosing =>
      subst isClosing
      show numbersOf (lexemesFrom [] false cs) = _
      simp [hnext, isNumberChar]
    | stray isStray =>
      have hminus : c ≠ '-' := (ne_of_kind (d := c) (by decide) isStray).symm
      have hopen : c ≠ '(' := (ne_of_kind (d := c) (by decide) isStray).symm
      have hnumeral : isNumberChar c = false := by
        rw [← Bool.not_eq_true]
        intro hc
        rw [isFormulaChar_of_isNumberChar hc] at isStray
        cases isStray
      show numbersOf (lexemesFrom [] false cs) = _
      simp [hnext, hminus, hopen, hnumeral]
termination_by cs => cs.length
decreasing_by
  · have hle : (cs.dropWhile isNumberChar).length ≤ cs.length :=
      (List.dropWhile_sublist _).length_le
    rw [List.length_cons]
    omega
  · rw [List.length_cons]
    omega

/-! ## 4. Characters of the tokens -/

/-- The character is neither blank nor a parenthesis. -/
def isKept (c : Char) : Bool := !Text.isBlank c && c != '(' && c != ')'

theorem isKept_of_isNumberChar {c : Char} (h : isNumberChar c = true) : isKept c = true := by
  have hblank : Text.isBlank c = false := by
    rw [← Bool.not_eq_true]
    intro hc
    rw [isNumberChar_of_isBlank hc] at h
    cases h
  have hopen : c ≠ '(' := ne_of_kind h (by decide)
  have hclose : c ≠ ')' := ne_of_kind h (by decide)
  simp [isKept, hblank, hopen, hclose]

theorem isKept_of_isBlank {c : Char} (h : Text.isBlank c = true) : isKept c = false := by
  simp [isKept, h]

theorem isKept_symbol (op : Operator) : isKept op.symbol = true := by
  cases op <;> decide

theorem characters_withNumber (number : List Char) (ls : List Lexeme) :
    (tokensOf (withNumber number ls)).flatMap String.toList =
      number.reverse ++ (tokensOf ls).flatMap String.toList := by
  rw [withNumber]
  split
  · next hnumber =>
    rw [List.isEmpty_iff.1 hnumber]
    rfl
  · show (String.ofList number.reverse :: tokensOf ls).flatMap String.toList = _
    rw [List.flatMap_cons, String.toList_ofList]

/-- The tokens of the lexemes are written with the characters that are kept. -/
theorem characters_lexemesFrom (number : List Char) (signed : Bool) {cs : List Char}
    (h : ∀ c ∈ cs, isFormulaChar c = true) :
    (tokensOf (lexemesFrom number signed cs)).flatMap String.toList =
      number.reverse ++ cs.filter isKept := by
  induction cs generalizing number signed with
  | nil => rw [lexemesFrom_nil, characters_withNumber]; rfl
  | cons c cs ih =>
    have ih' (number : List Char) (signed : Bool) :=
      ih number signed fun d hd => h d (List.mem_cons_of_mem _ hd)
    have hlexes := lexesOn number signed c cs
    generalize lexemesFrom number signed (c :: cs) = ls at hlexes
    cases hlexes with
    | numeral isNumeral => simp [ih', isKept_of_isNumberChar isNumeral]
    | blank isBlank => simp [characters_withNumber, ih', isKept_of_isBlank isBlank]
    | sign isMinus _ =>
      subst isMinus
      have hkept : isKept '-' = true := by decide
      simp [characters_withNumber, ih', hkept]
    | operator op isSymbol _ =>
      subst isSymbol
      rw [characters_withNumber]
      show number.reverse ++ (op.text :: tokensOf (lexemesFrom [] false cs)).flatMap _ = _
      simp [Operator.text, ih', isKept_symbol]
    | opening isOpening =>
      subst isOpening
      rw [characters_withNumber]
      exact congrArg (number.reverse ++ ·) (ih' [] true)
    | closing isClosing =>
      subst isClosing
      rw [characters_withNumber]
      exact congrArg (number.reverse ++ ·) (ih' [] false)
    | stray isStray =>
      rw [h c List.mem_cons_self] at isStray
      cases isStray

theorem Faultless.isFormulaChar {depth : Nat} {cs : List Char} (h : Faultless depth cs) {c : Char}
    (hc : c ∈ cs) : isFormulaChar c = true := by
  obtain ⟨before, after, hcs⟩ := List.append_of_mem hc
  have hfault := h before c after hcs
  rw [fault] at hfault
  split at hfault
  · next hclose =>
    rw [hclose]
    decide
  · split at hfault
    · next hformula => exact hformula
    · cases hfault

/-! ## 5. The order of the numbers -/

namespace Yard

/-- A number is put out at once, and whatever has been put out stays. -/
theorem step_output {y y' : Yard} {l : Lexeme} (h : y.step l = .ok y') :
    ∃ out, y'.output = y.output ++ out ∧ l.number?.toList.Sublist out := by
  cases l with
  | number s =>
    cases h
    exact ⟨[s], rfl, .refl _⟩
  | operator op =>
    cases h
    exact ⟨_, rfl, List.nil_sublist _⟩
  | opening =>
    cases h
    exact ⟨[], (List.append_nil _).symm, .refl _⟩
  | closing =>
    rw [step] at h
    split at h
    · cases h
      exact ⟨_, rfl, List.nil_sublist _⟩
    · cases h
  | stray c => cases h

theorem run_output {y y' : Yard} {ls : List Lexeme} (h : y.run ls = .ok y') :
    ∃ out, y'.output = y.output ++ out ∧ (numbersOf ls).Sublist out := by
  induction ls generalizing y with
  | nil =>
    cases h
    exact ⟨[], (List.append_nil _).symm, .refl _⟩
  | cons l ls ih =>
    rw [run] at h
    split at h
    · next y₁ hstep =>
      obtain ⟨out, hout, hfirst⟩ := step_output hstep
      obtain ⟨out', hout', hrest⟩ := ih h
      have hnumbers : numbersOf (l :: ls) = l.number?.toList ++ numbersOf ls := by
        cases l <;> rfl
      refine ⟨out ++ out', by rw [hout', hout, List.append_assoc], ?_⟩
      rw [hnumbers]
      exact hfirst.append hrest
    · cases h

end Yard

theorem numbersOf_sublist {s : String} {ts : List String} (h : postfixOf s = .ok ts) :
    (numbersOf (lexemes s)).Sublist ts := by
  rw [postfixOf] at h
  split at h
  · next y hrun =>
    obtain ⟨out, hout, hnumbers⟩ := Yard.run_output hrun
    obtain ⟨rfl, -⟩ := Yard.finish_ok h
    rw [Yard.tokens, hout]
    exact (hnumbers.trans (List.sublist_append_right _ _)).trans (List.sublist_append_left _ _)
  · cases h

/-! ## 6. Every text -/

theorem firstFault_of_ok {s : String} {ts : List String} (h : postfixOf s = .ok ts) :
    firstFault 0 s.toList = none := by
  rw [← Option.not_isSome_iff_eq_none]
  intro hsome
  obtain ⟨e, he⟩ := Option.isSome_iff_exists.1 hsome
  rw [fault_iff_firstFault.2 he] at h
  cases h

/-- A text fails by the first character that belongs to no formula or closes what
is not open, and otherwise only by what is open at its end. If it does not fail,
then its tokens are written with its characters, but for blanks and parentheses,
and they are its numbers in their order with its operators among them. -/
theorem fails_or_conserves (s : String) :
    ((∃ e, postfixOf s = .error e) ↔
      (∃ before c after, s.toList = before ++ c :: after ∧
        fault (depthAfter 0 before) c ≠ none) ∨ 0 < depthAfter 0 s.toList) ∧
    (∀ e, postfixOf s = .error e ↔
      (∃ before c after, s.toList = before ++ c :: after ∧ Faultless 0 before ∧
        fault (depthAfter 0 before) c = some e) ∨
      (Faultless 0 s.toList ∧ 0 < depthAfter 0 s.toList ∧ e = .mismatchedParentheses)) ∧
    ∀ ts, postfixOf s = .ok ts →
      (ts.flatMap String.toList).Perm (s.toList.filter isKept) ∧
        (numbersIn true s.toList).Sublist ts ∧
        ts.Perm (numbersIn true s.toList ++ (operatorsIn true s.toList).map Operator.text) := by
  have hfirst (e : ParseError) := (fault_iff_firstFault (s := s) (e := e)).trans
    firstFault_eq_some_iff
  refine ⟨⟨?_, ?_⟩, hfirst, fun ts hts => ?_⟩
  · rintro ⟨e, he⟩
    rcases (hfirst e).1 he with ⟨before, c, after, hs, -, hc⟩ | ⟨-, hopen, -⟩
    · exact .inl ⟨before, c, after, hs, by simp [hc]⟩
    · exact .inr hopen
  · intro h
    cases hs : postfixOf s with
    | error e => exact ⟨e, rfl⟩
    | ok ts =>
      obtain ⟨hfree, hclosed⟩ := firstFault_eq_none_iff.1 (firstFault_of_ok hs)
      rcases h with ⟨before, c, after, hcs, hc⟩ | hopen
      · exact absurd (hfree before c after hcs) hc
      · omega
  · obtain ⟨hfree, -⟩ := firstFault_eq_none_iff.1 (firstFault_of_ok hts)
    have hperm := (postfixOf_ok hts).1
    have hnumbers : numbersOf (lexemes s) = numbersIn true s.toList :=
      numbersOf_lexemesFrom true s.toList
    have hoperators : operatorsOf (lexemes s) = operatorsIn true s.toList :=
      operatorsOf_lexemesFrom [] true s.toList
    refine ⟨?_, hnumbers ▸ numbersOf_sublist hts, ?_⟩
    · have hchars := characters_lexemesFrom [] true fun c hc => hfree.isFormulaChar hc
      rw [List.reverse_nil, List.nil_append] at hchars
      exact hchars ▸ hperm.flatMap_right String.toList
    · rw [← hnumbers, ← hoperators]
      exact hperm.trans (tokensOf_perm _)

/-- The sign behind the parenthesis goes with its number; the tokens keep it. -/
theorem fails_or_conserves_of_sign :
    postfixOf "8 -(-3.5)*2" = .ok ["8", "-3.5", "2", "*", "-"] ∧
      (numbersIn true "8 -(-3.5)*2".toList).Sublist ["8", "-3.5", "2", "*", "-"] := by
  have htokens : postfixOf "8 -(-3.5)*2" = .ok ["8", "-3.5", "2", "*", "-"] := by decide +kernel
  exact ⟨htokens, ((fails_or_conserves "8 -(-3.5)*2").2.2 _ htokens).2.1⟩

end Reckoner.Formula
