/-
Reckoner.Proofs.Formula.Alternation — which texts that compile are sentences.

Neither of the two passes sees a whole formula. The yard looks at parentheses
and at how strongly operators bind, and the builder of plans counts operands.
So a text such as `2 2+` compiles although both operands of its operator stand
on one side of it, and so does `()1`.

`sentence_iff_alternates` says that this is all that can go wrong: a text that
compiles is a sentence exactly when operands and operators take turns in it.
A minus sign with no digits behind it is a number for the yard and an operator
for the builder. Where operands and operators take turns there is none, for the
builder would find one operand too few (`no_operator_among_numbers`).

  1. Taking turns
  2. From lexemes back to the text
  3. From factors to an expression
  4. What stands behind an operand
  5. What the yard keeps
  6. Operators and operands are counted
  7. Texts that compile
-/
import Reckoner.Proofs.Formula.Grammar

namespace Reckoner.Formula

/-! ## 1. Taking turns -/

/-- Operands and operators take turns. An operand is due at the beginning,
behind an operator and behind an open parenthesis, and nowhere else. -/
def alternates : Bool → List Lexeme → Bool
  | due, [] => !due
  | due, .number _ :: ls => due && alternates false ls
  | due, .opening :: ls => due && alternates true ls
  | due, .operator _ :: ls => !due && alternates true ls
  | due, .closing :: ls => !due && alternates false ls
  | _, .stray _ :: _ => false

/-- Every parenthesis that is closed has been opened before, and every open one
is closed, where `depth` of them are open to begin with. -/
def balanced (depth : Nat) : List Lexeme → Bool
  | [] => depth == 0
  | .opening :: ls => balanced (depth + 1) ls
  | .closing :: ls => depth != 0 && balanced (depth - 1) ls
  | .number _ :: ls => balanced depth ls
  | .operator _ :: ls => balanced depth ls
  | .stray _ :: ls => balanced depth ls

/-- The lexemes of an expression take their turn as one operand. -/
theorem lexes_alternates_of_derives {category : Category} {signed : Bool} {cs : List Char}
    {t : Tree} (h : Derives category signed cs t) :
    ∃ ls, Lexes signed cs ls ∧ ∀ rest, alternates true (ls ++ rest) = alternates false rest := by
  induction h with
  | number digits => exact ⟨_, lexes_number digits, fun _ => rfl⟩
  | negative digits => exact ⟨_, lexes_negative digits, fun _ => rfl⟩
  | group before after _ ih =>
    obtain ⟨ls, hlex, halt⟩ := ih
    refine ⟨_, lexes_group before after hlex, fun rest => ?_⟩
    simp [alternates, halt]
  | factor _ ih => exact ih
  | product _ before after _ _ ihl ihr =>
    obtain ⟨ls, hlexl, haltl⟩ := ihl
    obtain ⟨ms, hlexr, haltr⟩ := ihr
    refine ⟨_, lexes_binary before after hlexl hlexr, fun rest => ?_⟩
    simp [haltl, alternates, haltr]
  | term _ ih => exact ih
  | sum _ before after _ _ ihl ihr =>
    obtain ⟨ls, hlexl, haltl⟩ := ihl
    obtain ⟨ms, hlexr, haltr⟩ := ihr
    refine ⟨_, lexes_binary before after hlexl hlexr, fun rest => ?_⟩
    simp [haltl, alternates, haltr]

theorem alternates_of_sentence {s : String} {t : Tree} (h : Sentence s t) :
    alternates true (lexemes s) = true := by
  obtain ⟨w, cs, v, hs, hw, hv, hd⟩ := h
  obtain ⟨ls, hlex, halt⟩ := lexes_alternates_of_derives hd
  have hstop : Stops (v ++ []) := stops_blanks hv (by simp [Stops])
  rw [List.append_nil] at hstop
  have hend : lexemesFrom [] false v = [] := by
    simpa [lexemesFrom_nil, withNumber] using lexemesFrom_blanks hv false []
  rw [lexemes, hs, lexemesFrom_blanks hw, Bool.true_and, hlex v hstop, halt, hend]
  rfl

/-! ## 2. From lexemes back to the text -/

/-- The text is cut into these lexemes. The flag says that a minus sign at the
very beginning is the sign of a number. -/
inductive Cut : Bool → List Char → List Lexeme → Prop
  | nil (signed : Bool) : Cut signed [] []
  | blank {signed : Bool} {c : Char} {cs : List Char} {ls : List Lexeme}
      (isBlank : Text.isBlank c = true) (rest : Cut false cs ls) : Cut signed (c :: cs) ls
  | number {signed : Bool} {ds cs : List Char} {ls : List Lexeme} (digits : Digits ds)
      (rest : Cut false cs ls) : Cut signed (ds ++ cs) (.number (String.ofList ds) :: ls)
  | negative {ds cs : List Char} {ls : List Lexeme} (digits : ∀ c ∈ ds, isNumberChar c = true)
      (rest : Cut false cs ls) :
      Cut true ('-' :: (ds ++ cs)) (.number (String.ofList ('-' :: ds)) :: ls)
  | operator {signed : Bool} {cs : List Char} {ls : List Lexeme} (op : Operator)
      (rest : Cut false cs ls) : Cut signed (op.symbol :: cs) (.operator op :: ls)
  | opening {signed : Bool} {cs : List Char} {ls : List Lexeme} (rest : Cut true cs ls) :
      Cut signed ('(' :: cs) (.opening :: ls)
  | closing {signed : Bool} {cs : List Char} {ls : List Lexeme} (rest : Cut false cs ls) :
      Cut signed (')' :: cs) (.closing :: ls)
  | stray {signed : Bool} {cs : List Char} {ls : List Lexeme} (c : Char)
      (rest : Cut false cs ls) : Cut signed (c :: cs) (.stray c :: ls)

theorem forall_mem_takeWhile_isNumberChar (cs : List Char) :
    ∀ c ∈ cs.takeWhile isNumberChar, isNumberChar c = true :=
  List.all_eq_true.1 List.all_takeWhile

theorem stops_dropWhile_isNumberChar (cs : List Char) : Stops (cs.dropWhile isNumberChar) := by
  intro c hc
  have hnot := List.head?_dropWhile_not isNumberChar cs
  rw [Option.mem_def.1 hc] at hnot
  exact hnot

/-- A number that has been begun goes on as long as it can. -/
theorem lexemesFrom_number {number : List Char} (hn : number ≠ []) (cs : List Char) :
    lexemesFrom number false cs =
      .number (String.ofList (number.reverse ++ cs.takeWhile isNumberChar)) ::
        lexemesFrom [] false (cs.dropWhile isNumberChar) := by
  have hne : (cs.takeWhile isNumberChar).reverse ++ number ≠ [] :=
    List.append_ne_nil_of_right_ne_nil _ hn
  have hsplit := lexemesFrom_digits (forall_mem_takeWhile_isNumberChar cs) number
    (cs.dropWhile isNumberChar)
  rw [List.takeWhile_append_dropWhile] at hsplit
  rw [hsplit, lexemesFrom_stops hne (stops_dropWhile_isNumberChar cs), List.reverse_append,
    List.reverse_reverse]

theorem cut_lexemesFrom (signed : Bool) : ∀ cs : List Char, Cut signed cs (lexemesFrom [] signed cs)
  | [] => .nil signed
  | c :: cs => by
    have hsplit : cs.takeWhile isNumberChar ++ cs.dropWhile isNumberChar = cs :=
      List.takeWhile_append_dropWhile
    have hrest := cut_lexemesFrom false (cs.dropWhile isNumberChar)
    have hdigits := forall_mem_takeWhile_isNumberChar cs
    rw [lexemesFrom_cons]
    split
    · next hc =>
      rw [lexemesFrom_number (List.cons_ne_nil c [])]
      have hall : Digits (c :: cs.takeWhile isNumberChar) :=
        ⟨List.cons_ne_nil _ _, List.forall_mem_cons.2 ⟨hc, hdigits⟩⟩
      have hnumber : Cut signed _ _ := .number hall hrest
      rwa [List.cons_append, hsplit] at hnumber
    · rw [withNumber, List.isEmpty_nil, if_pos rfl]
      split
      · next hblank => exact .blank hblank (cut_lexemesFrom false cs)
      · split
        · next hminus =>
          obtain ⟨rfl, hsigned⟩ := hminus
          subst hsigned
          rw [lexemesFrom_number (List.cons_ne_nil '-' [])]
          have hnegative := Cut.negative hdigits hrest
          rwa [hsplit] at hnegative
        · split
          · next op hop =>
            rw [Operator.eq_symbol_of_ofChar? hop]
            exact .operator op (cut_lexemesFrom false cs)
          · split
            · next hopen => exact hopen ▸ .opening (cut_lexemesFrom true cs)
            · split
              · next hclose => exact hclose ▸ .closing (cut_lexemesFrom false cs)
              · exact .stray c (cut_lexemesFrom false cs)
termination_by cs => cs.length
decreasing_by
  all_goals
    have hle : (cs.dropWhile isNumberChar).length ≤ cs.length :=
      (List.dropWhile_sublist _).length_le
    rw [List.length_cons]
    omega

/-! ## 3. From factors to an expression -/

/-- The text is a term, or a sum whose last operand is a term. Either way a
further operator may belong to that term alone. -/
inductive EndsInTerm (signed : Bool) : List Char → Prop
  | term {cs : List Char} {t : Tree} (whole : Derives .term signed cs t) : EndsInTerm signed cs
  | sum {op : Operator} {cs w v ds : List Char} {l r : Tree}
      (isSum : op = .add ∨ op = .subtract) (before : Blanks w) (after : Blanks v)
      (left : Derives .expression signed cs l) (right : Derives .term false ds r) :
      EndsInTerm signed (cs ++ (w ++ op.symbol :: (v ++ ds)))

theorem EndsInTerm.exists_tree {signed : Bool} {cs : List Char} (h : EndsInTerm signed cs) :
    ∃ t, Derives .expression signed cs t := by
  cases h with
  | term whole => exact ⟨_, .term whole⟩
  | sum isSum before after left right => exact ⟨_, .sum isSum before after left right⟩

/-- One more operator with its right operand. -/
theorem EndsInTerm.next {signed : Bool} {cs w v ds : List Char} {t : Tree}
    (h : EndsInTerm signed cs) (hw : Blanks w) (op : Operator) (hv : Blanks v)
    (hd : Derives .factor false ds t) : EndsInTerm signed (cs ++ (w ++ op.symbol :: (v ++ ds))) := by
  have hop : (op = .multiply ∨ op = .divide) ∨ (op = .add ∨ op = .subtract) := by
    cases op <;> simp
  rcases hop with hproduct | hsum
  · cases h with
    | term whole => exact .term (.product hproduct hw hv whole hd)
    | sum isSum before after left right =>
      have hright := Derives.product hproduct hw hv right hd
      have hsum := EndsInTerm.sum isSum before after left hright
      simpa only [List.append_assoc, List.cons_append] using hsum
  · obtain ⟨u, hu⟩ := h.exists_tree
    exact .sum hsum hw hv hu (.factor hd)

/-- Operators, each with its right operand. -/
inductive Chain : List Char → Prop
  | nil : Chain []
  | cons {w v ds cs : List Char} {t : Tree} (op : Operator) (before : Blanks w) (after : Blanks v)
      (operand : Derives .factor false ds t) (rest : Chain cs) :
      Chain (w ++ op.symbol :: (v ++ (ds ++ cs)))

theorem Chain.exists_tree {cs : List Char} (h : Chain cs) {signed : Bool} {es : List Char}
    (he : EndsInTerm signed es) : ∃ t, Derives .expression signed (es ++ cs) t := by
  induction h generalizing es with
  | nil =>
    rw [List.append_nil]
    exact he.exists_tree
  | cons op before after operand _ ih =>
    have hnext := ih (he.next before op after operand)
    simpa only [List.append_assoc, List.cons_append] using hnext

/-- A factor and what its chain adds to it. -/
theorem Chain.exists_expression {cs : List Char} (h : Chain cs) {signed : Bool} {fs : List Char}
    {t : Tree} (hf : Derives .factor signed fs t) :
    ∃ u, Derives .expression signed (fs ++ cs) u :=
  h.exists_tree (.term (.factor hf))

/-! ## 4. What stands behind an operand -/

/-- What may stand behind an operand inside `depth` open parentheses: operators
with their operands up to the next closing parenthesis, and so on outside it. -/
def Follows : Nat → List Char → Prop
  | 0, cs => ∃ es v, cs = es ++ v ∧ Chain es ∧ Blanks v
  | depth + 1, cs => ∃ es v rest, cs = es ++ (v ++ ')' :: rest) ∧ Chain es ∧ Blanks v ∧
      Follows depth rest

/-- An operand, behind blanks, and what may stand behind it. -/
def Starts (signed : Bool) (depth : Nat) (cs : List Char) : Prop :=
  ∃ w fs rest t, cs = w ++ (fs ++ rest) ∧ Blanks w ∧
    Derives .factor (signed && w.isEmpty) fs t ∧ Follows depth rest

theorem blanks_nil : Blanks [] := fun _ h => nomatch h

theorem blanks_cons {c : Char} {w : List Char} (hc : Text.isBlank c = true) (hw : Blanks w) :
    Blanks (c :: w) :=
  List.forall_mem_cons.2 ⟨hc, hw⟩

/-- A blank belongs to the operator behind it, or to what follows the chain. -/
theorem chain_cons_blank {c : Char} (hc : Text.isBlank c = true) {es v : List Char}
    (he : Chain es) (hv : Blanks v) :
    ∃ es' v', c :: (es ++ v) = es' ++ v' ∧ Chain es' ∧ Blanks v' ∧
      ∀ rest, c :: (es ++ (v ++ rest)) = es' ++ (v' ++ rest) := by
  cases he with
  | nil => exact ⟨[], c :: v, rfl, .nil, blanks_cons hc hv, fun _ => rfl⟩
  | cons op before after operand further =>
    exact ⟨_, v, by simp, .cons op (blanks_cons hc before) after operand further, hv,
      fun _ => by simp⟩

theorem Follows.blank {c : Char} (hc : Text.isBlank c = true) {depth : Nat} {cs : List Char}
    (h : Follows depth cs) : Follows depth (c :: cs) := by
  cases depth with
  | zero =>
    obtain ⟨es, v, rfl, he, hv⟩ := h
    obtain ⟨es', v', hsame, he', hv', -⟩ := chain_cons_blank hc he hv
    exact ⟨es', v', hsame, he', hv'⟩
  | succ depth =>
    obtain ⟨es, v, rest, rfl, he, hv, hrest⟩ := h
    obtain ⟨es', v', -, he', hv', hsame⟩ := chain_cons_blank hc he hv
    exact ⟨es', v', rest, hsame _, he', hv', hrest⟩

theorem Follows.operator {depth : Nat} {cs : List Char} (op : Operator)
    (h : Starts false depth cs) : Follows depth (op.symbol :: cs) := by
  obtain ⟨w, fs, rest, t, rfl, hw, hf, hrest⟩ := h
  cases depth with
  | zero =>
    obtain ⟨es, v, rfl, he, hv⟩ := hrest
    exact ⟨_, v, by simp, .cons op blanks_nil hw hf he, hv⟩
  | succ depth =>
    obtain ⟨es, v, rest, rfl, he, hv, hrest⟩ := hrest
    exact ⟨_, v, rest, by simp, .cons op blanks_nil hw hf he, hv, hrest⟩

theorem Starts.blank {c : Char} (hc : Text.isBlank c = true) {signed : Bool} {depth : Nat}
    {cs : List Char} (h : Starts false depth cs) : Starts signed depth (c :: cs) := by
  obtain ⟨w, fs, rest, t, rfl, hw, hf, hrest⟩ := h
  exact ⟨c :: w, fs, rest, t, rfl, blanks_cons hc hw, by simpa using hf, hrest⟩

theorem starts_of_factor {signed : Bool} {depth : Nat} {fs rest : List Char} {t : Tree}
    (hf : Derives .factor signed fs t) (hrest : Follows depth rest) :
    Starts signed depth (fs ++ rest) :=
  ⟨[], fs, rest, t, rfl, blanks_nil, by simpa using hf, hrest⟩

/-- What is open inside a parenthesis is a group once it is closed. -/
theorem Starts.opening {signed : Bool} {depth : Nat} {cs : List Char}
    (h : Starts true (depth + 1) cs) : Starts signed depth ('(' :: cs) := by
  obtain ⟨w, fs, rest, t, rfl, hw, hf, es, v, outside, rfl, he, hv, houtside⟩ := h
  obtain ⟨u, hu⟩ := he.exists_expression hf
  have hgroup : Starts signed depth _ := starts_of_factor (.group hw hv hu) houtside
  simpa only [List.append_assoc, List.cons_append, List.nil_append] using hgroup

/-- Lexemes that take turns, in parentheses that match, come from such a text. -/
theorem starts_or_follows_of_cut {signed : Bool} {cs : List Char} {ls : List Lexeme}
    (h : Cut signed cs ls) (hnumber : ∀ s, .number s ∈ ls → Operator.ofToken? s = none)
    {depth : Nat} (hbalanced : balanced depth ls = true) :
    (alternates true ls = true → Starts signed depth cs) ∧
      (alternates false ls = true → Follows depth cs) := by
  induction h generalizing depth with
  | nil signed =>
    have hdepth : depth = 0 := by simpa [balanced] using hbalanced
    subst hdepth
    exact ⟨fun h => (nomatch h), fun _ => ⟨[], [], rfl, .nil, blanks_nil⟩⟩
  | blank isBlank _ ih =>
    obtain ⟨hstarts, hfollows⟩ := ih hnumber hbalanced
    exact ⟨fun h => (hstarts h).blank isBlank, fun h => (hfollows h).blank isBlank⟩
  | number digits _ ih =>
    have hrest := (ih (fun s hs => hnumber s (List.mem_cons_of_mem _ hs)) hbalanced).2
    exact ⟨fun h => starts_of_factor (.number digits) (hrest h), fun h => nomatch h⟩
  | @negative ds _ _ digits _ ih =>
    have hrest := (ih (fun s hs => hnumber s (List.mem_cons_of_mem _ hs)) hbalanced).2
    -- Without a digit behind it the sign would be an operator.
    have hne : ds ≠ [] := by
      rintro rfl
      have := hnumber _ List.mem_cons_self
      revert this
      decide
    exact ⟨fun h => starts_of_factor (.negative ⟨hne, digits⟩) (hrest h), fun h => nomatch h⟩
  | operator op _ ih =>
    have hrest := (ih (fun s hs => hnumber s (List.mem_cons_of_mem _ hs)) hbalanced).1
    exact ⟨fun h => (nomatch h), fun h => .operator op (hrest h)⟩
  | opening _ ih =>
    have hrest := (ih (fun s hs => hnumber s (List.mem_cons_of_mem _ hs)) hbalanced).1
    exact ⟨fun h => (hrest h).opening, fun h => nomatch h⟩
  | closing _ ih =>
    rw [balanced, Bool.and_eq_true, bne_iff_ne] at hbalanced
    obtain ⟨depth, rfl⟩ := Nat.exists_eq_succ_of_ne_zero hbalanced.1
    have hrest := (ih (fun s hs => hnumber s (List.mem_cons_of_mem _ hs)) hbalanced.2).2
    exact ⟨fun h => (nomatch h), fun h => ⟨[], [], _, rfl, .nil, blanks_nil, hrest h⟩⟩
  | stray c _ _ => exact ⟨fun h => (nomatch h), fun h => nomatch h⟩

theorem exists_sentence_of_alternates {s : String} (hbalanced : balanced 0 (lexemes s) = true)
    (hnumber : ∀ n, .number n ∈ lexemes s → Operator.ofToken? n = none)
    (halternates : alternates true (lexemes s) = true) : ∃ t, Sentence s t := by
  have hcut := cut_lexemesFrom true s.toList
  obtain ⟨w, fs, rest, t, hs, hw, hf, es, v, rfl, he, hv⟩ :=
    (starts_or_follows_of_cut hcut hnumber hbalanced).1 halternates
  obtain ⟨u, hu⟩ := he.exists_expression hf
  exact ⟨u, w, fs ++ es, v, by rw [hs, List.append_assoc], hw, hv, by simpa using hu⟩

/-! ## 5. What the yard keeps -/

/-- The token of a lexeme; a parenthesis has none. -/
def Lexeme.token? : Lexeme → Option String
  | .number s => some s
  | .operator op => some op.text
  | _ => none

/-- The tokens of some lexemes, in the order of the text. -/
def tokensOf (ls : List Lexeme) : List String := ls.filterMap Lexeme.token?

/-- The token of what waits; an open parenthesis has none. -/
def Waiting.token? : Waiting → Option String
  | .operator op => some op.text
  | .parenthesis => none

theorem filterMap_token?_parenthesis (ws : List Waiting) :
    (Waiting.parenthesis :: ws).filterMap Waiting.token? = ws.filterMap Waiting.token? := rfl

theorem filterMap_token?_map (ops : List Operator) :
    (ops.map Waiting.operator).filterMap Waiting.token? = ops.map Operator.text := by
  induction ops with
  | nil => rfl
  | cons op ops ih => simp [Waiting.token?, ih]

theorem count_parenthesis_map (ops : List Operator) :
    (ops.map Waiting.operator).count .parenthesis = 0 := by
  simp [List.count_eq_zero]

namespace Yard

theorem release_append (op : Operator) (ws : List Waiting) :
    ws = (release op ws).1.map .operator ++ (release op ws).2 := by
  induction ws with
  | nil => rfl
  | cons w ws ih =>
    cases w with
    | parenthesis => rfl
    | operator top =>
      rw [release]
      split
      · rfl
      · rw [List.map_cons, List.cons_append, ← ih]

theorem append_of_close? {ws ws' : List Waiting} {ops : List Operator}
    (h : close? ws = some (ops, ws')) : ws = ops.map .operator ++ .parenthesis :: ws' := by
  induction ws generalizing ops with
  | nil => cases h
  | cons w ws ih =>
    cases w with
    | parenthesis =>
      cases h
      rfl
    | operator op =>
      obtain ⟨⟨ops', ws''⟩, hclose, heq⟩ := Option.map_eq_some_iff.1 h
      cases heq
      rw [ih hclose]
      rfl

theorem map_of_closeAll? {ws : List Waiting} {ops : List Operator}
    (h : closeAll? ws = some ops) : ws = ops.map .operator := by
  induction ws generalizing ops with
  | nil =>
    cases h
    rfl
  | cons w ws ih =>
    cases w with
    | parenthesis => cases h
    | operator op =>
      obtain ⟨ops', hclose, rfl⟩ := Option.map_eq_some_iff.1 h
      rw [ih hclose]
      rfl

/-- The tokens that a yard has put out or keeps waiting. -/
def tokens (y : Yard) : List String := y.output ++ y.waiting.filterMap Waiting.token?

/-- The number of open parentheses. -/
def depth (y : Yard) : Nat := y.waiting.count .parenthesis

/-- A yard reorders tokens, but it neither drops nor adds any, and it closes
only what is open. -/
theorem step_ok {y y' : Yard} {l : Lexeme} (h : y.step l = .ok y') :
    y'.tokens.Perm (y.tokens ++ l.token?.toList) ∧
      ∀ ls, balanced y.depth (l :: ls) = balanced y'.depth ls := by
  cases l with
  | number s =>
    cases h
    refine ⟨?_, fun _ => rfl⟩
    simp only [tokens, Lexeme.token?, Option.toList_some, List.append_assoc]
    exact List.perm_append_comm.append_left _
  | operator op =>
    cases h
    have hsplit := release_append op y.waiting
    generalize release op y.waiting = released at hsplit
    constructor
    · simp only [tokens, emit, hsplit, Lexeme.token?, Option.toList_some, List.filterMap_append,
        filterMap_token?_map, List.filterMap_cons, Waiting.token?, List.append_assoc]
      refine .append_left _ (.append_left _ ?_)
      exact @List.perm_append_comm _ [op.text] _
    · intro ls
      simp [depth, emit, hsplit, balanced, count_parenthesis_map]
  | opening =>
    cases h
    refine ⟨by simp [tokens, filterMap_token?_parenthesis, Lexeme.token?], fun ls => ?_⟩
    simp [depth, balanced]
  | closing =>
    rw [step] at h
    split at h
    · next ops ws hclose =>
      cases h
      have hsplit := append_of_close? hclose
      constructor
      · simp only [tokens, emit, hsplit, List.filterMap_append, filterMap_token?_map,
          filterMap_token?_parenthesis, List.append_assoc, Lexeme.token?, Option.toList_none,
          List.append_nil]
        exact .refl _
      · intro ls
        simp [depth, emit, hsplit, balanced, count_parenthesis_map]
    · cases h
  | stray c => cases h

theorem run_ok {y y' : Yard} {ls : List Lexeme} (h : y.run ls = .ok y') :
    y'.tokens.Perm (y.tokens ++ tokensOf ls) ∧ balanced y.depth ls = (y'.depth == 0) := by
  induction ls generalizing y with
  | nil =>
    cases h
    exact ⟨by simp [tokensOf], rfl⟩
  | cons l ls ih =>
    rw [run] at h
    split at h
    · next y₁ hy₁ =>
      obtain ⟨hperm, hbalanced⟩ := step_ok hy₁
      obtain ⟨hperm', hbalanced'⟩ := ih h
      refine ⟨?_, (hbalanced ls).trans hbalanced'⟩
      have htokens : tokensOf (l :: ls) = l.token?.toList ++ tokensOf ls := by
        cases l <;> rfl
      rw [htokens, ← List.append_assoc]
      exact hperm'.trans (hperm.append_right _)
    · cases h

theorem finish_ok {y : Yard} {ts : List String} (h : y.finish = .ok ts) :
    ts = y.tokens ∧ y.depth = 0 := by
  rw [finish] at h
  split at h
  · next ops hclose =>
    cases h
    have hmap := map_of_closeAll? hclose
    exact ⟨by rw [tokens, hmap, filterMap_token?_map], by rw [depth, hmap, count_parenthesis_map]⟩
  · cases h

end Yard

/-- The postfix tokens are those of the text in another order, and its
parentheses match. -/
theorem postfixOf_ok {s : String} {ts : List String} (h : postfixOf s = .ok ts) :
    ts.Perm (tokensOf (lexemes s)) ∧ balanced 0 (lexemes s) = true := by
  rw [postfixOf] at h
  split at h
  · next y hy =>
    obtain ⟨rfl, hdepth⟩ := Yard.finish_ok h
    obtain ⟨hperm, hbalanced⟩ := Yard.run_ok hy
    refine ⟨hperm, ?_⟩
    rw [hdepth] at hbalanced
    exact hbalanced
  · cases h

/-! ## 6. Operators and operands are counted -/

/-- The builder of plans takes the token for an operator. -/
def isOperatorToken (token : String) : Bool := (Operator.ofToken? token).isSome

/-- The lexeme is an operator. -/
def Lexeme.isOperator : Lexeme → Bool
  | .operator _ => true
  | _ => false

/-- The lexeme is a number that the builder takes for an operator: a sign alone. -/
def Lexeme.isLoneSign : Lexeme → Bool
  | .number s => isOperatorToken s
  | _ => false

theorem countP_tokensOf (ls : List Lexeme) :
    (tokensOf ls).countP isOperatorToken =
      ls.countP Lexeme.isOperator + ls.countP Lexeme.isLoneSign := by
  induction ls with
  | nil => rfl
  | cons l ls ih =>
    cases l with
    | number s =>
      show (s :: tokensOf ls).countP _ = _
      simp only [List.countP_cons, ih, Lexeme.isOperator, Lexeme.isLoneSign, Bool.false_eq_true,
        if_false, Nat.add_zero]
      exact Nat.add_assoc _ _ _
    | operator op =>
      show (op.text :: tokensOf ls).countP _ = _
      simp only [List.countP_cons, ih, Lexeme.isOperator, Lexeme.isLoneSign, isOperatorToken,
        Operator.ofToken?_text, Option.isSome_some, Bool.false_eq_true, if_false, if_true]
      omega
    | opening => exact ih
    | closing => exact ih
    | stray c => exact ih

/-- Where operands and operators take turns, there is one operand more. -/
theorem length_tokensOf {due : Bool} {ls : List Lexeme} (h : alternates due ls = true) :
    (tokensOf ls).length = 2 * ls.countP Lexeme.isOperator + due.toNat := by
  induction ls generalizing due with
  | nil =>
    cases due
    · rfl
    · cases h
  | cons l ls ih =>
    cases l with
    | number s =>
      rw [alternates, Bool.and_eq_true] at h
      show (tokensOf ls).length + 1 = _
      simp [ih h.2, h.1, Lexeme.isOperator]
    | operator op =>
      rw [alternates, Bool.and_eq_true, Bool.not_eq_true'] at h
      show (tokensOf ls).length + 1 = _
      simp only [ih h.2, h.1, List.countP_cons, Lexeme.isOperator, if_true, Bool.toNat_true,
        Bool.toNat_false]
      omega
    | opening =>
      rw [alternates, Bool.and_eq_true] at h
      show (tokensOf ls).length = _
      simp [ih h.2, h.1, Lexeme.isOperator]
    | closing =>
      rw [alternates, Bool.and_eq_true, Bool.not_eq_true'] at h
      show (tokensOf ls).length = _
      simp [ih h.2, h.1, Lexeme.isOperator]
    | stray c => cases h

end Formula

namespace Tree

theorem length_postorder (t : Tree) : t.postorder.length = 2 * t.size + 1 := by
  induction t with
  | leaf text => rfl
  | node op l r ihl ihr =>
    simp only [postorder, size, List.length_append, List.length_singleton, ihl, ihr]
    omega

theorem Numeric.countP_postorder {t : Tree} (h : t.Numeric) :
    t.postorder.countP Formula.isOperatorToken = t.size := by
  induction t with
  | leaf text =>
    have hleaf : Formula.isOperatorToken text = false := by
      rw [Formula.isOperatorToken, Plan.ofToken?_of_isLiteral h]
      rfl
    simp [postorder, size, hleaf]
  | node op l r ihl ihr =>
    have hop : Formula.isOperatorToken op.text = true := by
      rw [Formula.isOperatorToken, Operator.ofToken?_text]
      rfl
    simp only [postorder, size, List.countP_append, List.countP_singleton, ihl h.1, ihr h.2, hop,
      if_true]
    omega

end Tree

namespace Formula

/-- Where operands and operators take turns and the builder has a plan for them,
each of them counts operands and operators alike, so no sign stands alone. -/
theorem no_operator_among_numbers {ls : List Lexeme} {t : Tree} (ht : t.Numeric)
    (hperm : t.postorder.Perm (tokensOf ls)) (halternates : alternates true ls = true) {s : String}
    (hs : .number s ∈ ls) : Operator.ofToken? s = none := by
  have hlength := hperm.length_eq
  have hcount := hperm.countP_eq isOperatorToken
  rw [t.length_postorder, length_tokensOf halternates, Bool.toNat_true] at hlength
  rw [ht.countP_postorder, countP_tokensOf] at hcount
  have hnone : ls.countP Lexeme.isLoneSign = 0 := by omega
  have hfalse := List.countP_eq_zero.1 hnone _ hs
  exact Option.not_isSome_iff_eq_none.1 hfalse

/-! ## 7. Texts that compile -/

/-- A text that compiles is a sentence exactly when operands and operators take
turns in it: no operator lacks an operand on its left or on its right, and no
two operands stand side by side. -/
theorem sentence_iff_alternates {s : String} {plan : Plan} (h : Plan.ofFormula s = .ok plan) :
    (∃ t, Sentence s t) ↔ alternates true (lexemes s) = true := by
  constructor
  · rintro ⟨t, ht⟩
    exact alternates_of_sentence ht
  · intro halternates
    obtain ⟨t, ht, -, htokens⟩ := Plan.exists_postorder_of_ofFormula h
    obtain ⟨hperm, hbalanced⟩ := postfixOf_ok htokens
    exact exists_sentence_of_alternates hbalanced
      (fun _ hs => no_operator_among_numbers ht hperm halternates hs) halternates

/-- The sign in front of the parenthesis is an operator, the one inside a sign. -/
theorem sentence_difference_of_negative :
    Plan.ofFormula "8 -(-3)" = .ok (Tree.node .subtract (.leaf "8") (.leaf "-3")).plan ∧
      ∃ t, Sentence "8 -(-3)" t := by
  have hplan : Plan.ofFormula "8 -(-3)" =
      .ok (Tree.node .subtract (.leaf "8") (.leaf "-3")).plan := by decide +kernel
  exact ⟨hplan, (sentence_iff_alternates hplan).2 (by decide +kernel)⟩

/-- Both operands may stand on one side of their operator, and the text compiles,
though it is no sentence. -/
theorem compiles_operands_first :
    Plan.ofFormula "2 2+" = .ok (Tree.node .add (.leaf "2") (.leaf "2")).plan ∧
      ¬ ∃ t, Sentence "2 2+" t := by
  refine ⟨by decide +kernel, ?_⟩
  rintro ⟨t, ht⟩
  have halternates := alternates_of_sentence ht
  revert halternates
  decide +kernel

end Reckoner.Formula
