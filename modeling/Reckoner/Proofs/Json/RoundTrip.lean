/-
Reckoner.Proofs.Json.RoundTrip — a tree is read back from its text.

Each kind of value is read as it was written, whatever comes behind it, as long as a
number at the end of it cannot be taken for a longer one. The proof follows the tree
(`readValue_chars`), and the fuel that a value needs is no more than its text has
characters. A decoder of a text then sees the tree that was rendered
(`decode_render`).

  1. Trees that have a text
  2. Strings
  3. Numbers
  4. How a value begins
  5. Values, items and members
  6. Whole texts
  7. Objects of given members
-/
import Reckoner.Json.Record
import Reckoner.Proofs.Json.Number

namespace Reckoner.Json

open Text (Symbol)

/-! ## 1. Trees that have a text -/

mutual

/-- Every part of the tree has a text of its own: what is kept as an integer fits a
word, any other number is finite, and nothing lacks a value. -/
def Writable : Json → Prop
  | .integer n => -2 ^ 63 ≤ n ∧ n < 2 ^ 64
  | .number x => x.isFinite
  | .unusable _ => False
  | .array items => items.Writable
  | .object members => members.Writable
  | .broken => False
  | _ => True

/-- All items have a text and the array is closed. -/
def Items.Writable : Items → Prop
  | .closed => True
  | .broken => False
  | .cons j js => j.Writable ∧ js.Writable

/-- All names and values have a text and the object is closed. -/
def Members.Writable : Members → Prop
  | .closed => True
  | .broken => False
  | .cons name j ms => name.isSome ∧ j.Writable ∧ ms.Writable

end

/-! ## 2. Strings -/

/-- The piece that a character is read as. -/
def pieceOf (c : Char) : Piece :=
  if c = '\x08' ∨ c = '\t' ∨ c = '\n' ∨ c = '\x0c' ∨ c = '\r' then .char c
  else if c < ' ' then .unit c.toNat
  else .char c

theorem toNat_of_lt_space {c : Char} (h : c < ' ') : c.toNat < 32 := h

theorem hexUnit?_control {n : Nat} (hn : n < 32) :
    hexUnit? '0' '0' (Nat.digitChar (n / 16)) (Nat.digitChar (n % 16)) = some n := by
  have hall : ∀ n < 32,
      hexUnit? '0' '0' (Nat.digitChar (n / 16)) (Nat.digitChar (n % 16)) = some n := by decide
  exact hall n hn

/-- Most characters stand for themselves. -/
theorem scanString_char {c : Char} (hquote : c ≠ '"') (hbackslash : c ≠ '\\')
    (rest : List Symbol) :
    scanString (some c :: rest) =
      if c < ' ' then none else prepend (.char c) (scanString rest) := by
  rw [scanString]
  · simp [hquote]
  all_goals simp [hbackslash]

/-- A character is read back from the way it stands in a string. -/
theorem scanString_escapeChar (c : Char) (rest : List Symbol) :
    scanString ((escapeChar c).map some ++ rest) = prepend (pieceOf c) (scanString rest) := by
  by_cases hshort : c = '"' ∨ c = '\\' ∨ c = '\x08' ∨ c = '\t' ∨ c = '\n' ∨ c = '\x0c' ∨ c = '\r'
  · rcases hshort with rfl | rfl | rfl | rfl | rfl | rfl | rfl <;> rfl
  · simp only [not_or] at hshort
    obtain ⟨hquote, hbackslash, hb, ht, hn, hf, hr⟩ := hshort
    by_cases hcontrol : c < ' '
    · have hunit := hexUnit?_control (toNat_of_lt_space hcontrol)
      simp only [escapeChar, pieceOf, hquote, hbackslash, hb, ht, hn, hf, hr, hcontrol, if_false,
        if_true, or_self, List.map_cons, List.map_nil, List.cons_append, List.nil_append,
        scanString, hunit]
    · simp only [escapeChar, pieceOf, hquote, hbackslash, hb, ht, hn, hf, hr, hcontrol, if_false,
        or_self, List.map_cons, List.map_nil, List.cons_append, List.nil_append,
        scanString_char hquote hbackslash]

theorem scanString_flatMap (cs : List Char) (rest : List Symbol) :
    scanString ((cs.flatMap escapeChar).map some ++ (some '"' :: rest)) =
      some (cs.map pieceOf, rest) := by
  induction cs with
  | nil => rfl
  | cons c cs ih =>
    rw [List.flatMap_cons, List.map_append, List.append_assoc, scanString_escapeChar, ih]
    rfl

/-- A unit that is no half of a surrogate pair is a character by itself. -/
theorem joinPieces_unit {n : Nat} (hn : n < 0xd800) (ps : List Piece) :
    joinPieces (.unit n :: ps) = (joinPieces ps).map (Char.ofNat n :: ·) := by
  have hhigh : ¬ (0xd800 ≤ n ∧ n < 0xdc00) := fun h => Nat.not_le.2 hn h.1
  have hlow : ¬ (0xdc00 ≤ n ∧ n < 0xe000) := fun h => by omega
  -- The reader looks at the next piece, which might be the other half.
  rcases ps with _ | ⟨_ | _ | _, ps⟩ <;> rw [joinPieces.eq_def] <;>
    simp only [hhigh, hlow, if_false]

theorem joinPieces_map_pieceOf (cs : List Char) : joinPieces (cs.map pieceOf) = .ok cs := by
  induction cs with
  | nil => rfl
  | cons c cs ih =>
    rw [List.map_cons, pieceOf]
    split
    · rw [joinPieces, ih]
      rfl
    · split
      · next hcontrol =>
        have hsmall : c.toNat < 0xd800 := Nat.lt_trans (toNat_of_lt_space hcontrol) (by decide)
        rw [joinPieces_unit hsmall, ih, Char.ofNat_toNat]
        rfl
      · rw [joinPieces, ih]
        rfl

/-- What follows the opening quote of a string is read to its closing quote. -/
theorem scanString_stringChars (s : String) (rest : List Symbol) :
    scanString ((s.toList.flatMap escapeChar ++ ['"']).map some ++ rest) =
      some (s.toList.map pieceOf, rest) := by
  rw [List.map_append, List.append_assoc]
  exact scanString_flatMap s.toList rest

theorem readString_stringChars (s : String) (rest : List Symbol) :
    readString ((s.toList.flatMap escapeChar ++ ['"']).map some ++ rest) =
      (.text s, some rest) := by
  rw [readString, scanString_stringChars]
  simp only [joinPieces_map_pieceOf, String.ofList_toList]

/-! ## 3. Numbers -/

theorem isSpace_of_isDigit {c : Char} (hc : c.isDigit = true) : isSpace (some c) = false := by
  have hne : ∀ d : Char, d.isDigit = false → (c == d) = false := fun d hd =>
    beq_eq_false_iff_ne.2 fun h => by rw [h, hd] at hc; cases hc
  rw [isSpace, hne ' ' (by decide), hne '\n' (by decide), hne '\t' (by decide),
    hne '\r' (by decide)]
  rfl

theorem dropWhile_isSpace_cons {c : Char} (hc : isSpace (some c) = false) (rest : List Symbol) :
    (some c :: rest).dropWhile isSpace = some c :: rest :=
  List.dropWhile_cons_of_neg (by rw [hc]; decide)

/-- A digit begins a number without a sign. -/
theorem readValue_digit {c : Char} (hc : c.isDigit = true) (fuel : Nat) (rest : List Symbol) :
    readValue (fuel + 1) (some c :: rest) = readUnsigned false (some c :: rest) := by
  have hne : ∀ d : Char, d.isDigit = false → some c ≠ some d := fun d hd h => by
    rw [Option.some.inj h, hd] at hc
    cases hc
  rw [readValue, dropWhile_isSpace_cons (isSpace_of_isDigit hc)]
  -- What else a value may begin with is no digit.
  split
  case h_8 c' cs' heq =>
    cases heq
    rw [if_pos hc]
  case h_9 hother => exact absurd rfl (hother c rest)
  all_goals
    next heq => exact absurd (List.head_eq_of_cons_eq heq) (hne _ (by decide))

theorem readValue_minus (fuel : Nat) (rest : List Symbol) :
    readValue (fuel + 1) (some '-' :: rest) = readUnsigned true rest := by
  rw [readValue, dropWhile_isSpace_cons (by decide)]
  rfl

/-- A text that begins with a digit is read as a number without a sign. -/
theorem readValue_of_digit {cs : List Char} (h : ∃ c cs', cs = c :: cs' ∧ c.isDigit = true)
    (fuel : Nat) (rest : List Symbol) :
    readValue (fuel + 1) (cs.map some ++ rest) = readUnsigned false (cs.map some ++ rest) := by
  obtain ⟨c, cs', rfl, hc⟩ := h
  exact readValue_digit hc fuel _

/-- A whole number that fits a word is read as it was written. -/
theorem readValue_integer {n : Int} (hn : -2 ^ 63 ≤ n ∧ n < 2 ^ 64) (fuel : Nat)
    {rest : List Symbol} (hrest : EndsNumber rest) :
    readValue (fuel + 1) ((Text.integerChars n).map some ++ rest) = (.integer n, some rest) := by
  cases n with
  | ofNat n =>
    have hsmall : n < 2 ^ 64 := by
      rw [Int.ofNat_eq_natCast] at hn
      omega
    rw [show Text.integerChars (.ofNat n) = Text.naturalChars n from rfl,
      readValue_of_digit (Text.naturalChars_head n), readUnsigned_naturalChars n false hrest,
      numberTree_natural hsmall]
    rfl
  | negSucc n =>
    have hsmall : n + 1 ≤ 2 ^ 63 := by omega
    rw [show Text.integerChars (.negSucc n) = '-' :: Text.naturalChars (n + 1) from rfl,
      List.map_cons, List.cons_append, readValue_minus, readUnsigned_naturalChars _ true hrest,
      numberTree_negative (Nat.succ_pos n) hsmall]
    rfl

/-- A finite number is read as it was written. -/
theorem readValue_number {x : Number} (hx : x.isFinite = true) (fuel : Nat)
    {rest : List Symbol} (hrest : EndsNumber rest) :
    readValue (fuel + 1) ((numberChars x).map some ++ rest) = (.number x, some rest) := by
  match x, hx with
  | .finite false m, _ =>
    rw [show numberChars (.finite false m) = magnitudeChars m from rfl,
      readValue_of_digit (magnitudeChars_head m), readUnsigned_magnitudeChars m false hrest]
  | .finite true m, _ =>
    rw [show numberChars (.finite true m) = '-' :: magnitudeChars m from rfl,
      List.map_cons, List.cons_append, readValue_minus, readUnsigned_magnitudeChars m true hrest]

/-! ## 4. How a value begins -/

/-- The text begins with a character that begins a value: it is no blank and closes
nothing. -/
def BeginsValue (cs : List Char) : Prop :=
  ∃ c cs', cs = c :: cs' ∧ isSpace (some c) = false ∧ c ≠ ']' ∧ c ≠ '\x7d'

theorem beginsValue_of_digit {cs : List Char}
    (h : ∃ c cs', cs = c :: cs' ∧ c.isDigit = true) : BeginsValue cs := by
  obtain ⟨c, cs', rfl, hc⟩ := h
  refine ⟨c, cs', rfl, isSpace_of_isDigit hc, ?_, ?_⟩
  all_goals
    rintro rfl
    exact absurd hc (by decide)

theorem beginsValue_cons (c : Char) (cs : List Char)
    (hc : (isSpace (some c) || c == ']' || c == '\x7d') = false) : BeginsValue (c :: cs) := by
  simp only [Bool.or_eq_false_iff, beq_eq_false_iff_ne] at hc
  exact ⟨c, cs, rfl, hc.1.1, hc.1.2, hc.2⟩

theorem beginsValue_chars {j : Json} (h : j.Writable) : BeginsValue j.chars := by
  cases j with
  | null => exact beginsValue_cons _ _ (by decide)
  | bool b => cases b <;> exact beginsValue_cons _ _ (by decide)
  | integer n =>
    cases n with
    | ofNat n => exact beginsValue_of_digit (Text.naturalChars_head n)
    | negSucc n => exact beginsValue_cons _ _ (by decide)
  | number x =>
    match x, h with
    | .finite false m, _ => exact beginsValue_of_digit (magnitudeChars_head m)
    | .finite true m, _ => exact beginsValue_cons _ _ (by decide)
  | text s => exact beginsValue_cons _ _ (by decide)
  | unusable whole => exact h.elim
  | array items => exact beginsValue_cons _ _ (by decide)
  | object members => exact beginsValue_cons _ _ (by decide)
  | broken => exact h.elim

/-! ## 5. Values, items and members -/

theorem dropWhile_beginsValue {cs : List Char} (h : BeginsValue cs) (rest : List Symbol) :
    (cs.map some ++ rest).dropWhile isSpace = cs.map some ++ rest := by
  obtain ⟨c, cs', rfl, hspace, -⟩ := h
  exact dropWhile_isSpace_cons hspace _

/-- What closes an array or an object, or parts two of its members, ends a number. -/
theorem endsNumber_cons {c : Char}
    (hc : (c.isDigit || c == '.' || c == 'e' || c == 'E') = false) (rest : List Symbol) :
    EndsNumber (some c :: rest) := by
  simp only [Bool.or_eq_false_iff, beq_eq_false_iff_ne] at hc
  intro c' cs h
  cases h
  exact ⟨hc.1.1.1, hc.1.1.2, hc.1.2, hc.2⟩

theorem Items.endsNumber_chars {js : Items} (h : js.Writable) (rest : List Symbol) :
    EndsNumber ((js.chars false).map some ++ rest) := by
  cases js with
  | closed => exact endsNumber_cons (by decide) _
  | broken => exact h.elim
  | cons j js => exact endsNumber_cons (by decide) _

theorem Members.endsNumber_chars {ms : Members} (h : ms.Writable) (rest : List Symbol) :
    EndsNumber ((ms.chars false).map some ++ rest) := by
  cases ms with
  | closed => exact endsNumber_cons (by decide) _
  | broken => exact h.elim
  | cons name j ms => exact endsNumber_cons (by decide) _

/-- Behind an item stands the end of the array, or a comma and more items. -/
theorem Items.length_chars {js : Items} (h : js.Writable) :
    0 < (js.chars false).length ∧
      (js ≠ .closed → (js.chars true).length < (js.chars false).length) := by
  cases js with
  | closed => exact ⟨by decide, fun hne => absurd rfl hne⟩
  | broken => exact h.elim
  | cons j js => exact ⟨Nat.succ_pos _, fun _ => Nat.lt_succ_self _⟩

/-- Behind a member stands the end of the object, or a comma and more members. -/
theorem Members.length_chars {ms : Members} (h : ms.Writable) :
    0 < (ms.chars false).length ∧
      (ms ≠ .closed → (ms.chars true).length < (ms.chars false).length) := by
  cases ms with
  | closed => exact ⟨by decide, fun hne => absurd rfl hne⟩
  | broken => exact h.elim
  | cons name j ms => exact ⟨Nat.succ_pos _, fun _ => Nat.lt_succ_self _⟩

theorem length_pos_of_beginsValue {cs : List Char} (h : BeginsValue cs) : 0 < cs.length := by
  obtain ⟨c, cs', rfl, -⟩ := h
  exact Nat.succ_pos _

theorem BeginsValue.append {cs : List Char} (h : BeginsValue cs) (ds : List Char) :
    BeginsValue (cs ++ ds) := by
  obtain ⟨c, cs', rfl, hc⟩ := h
  exact ⟨c, cs' ++ ds, rfl, hc⟩

/-- Where an array does not end at once, its items are read one by one. -/
theorem readValue_array {cs : List Char} (h : BeginsValue cs) {fuel : Nat} {js : Items}
    {rest rest' : List Symbol}
    (hitems : readItems fuel (cs.map some ++ rest) = (js, some rest')) :
    readValue (fuel + 1) (('[' :: cs).map some ++ rest) = (.array js, some rest') := by
  have hspace : isSpace (some '[') = false := by decide
  rw [List.map_cons, List.cons_append, readValue]
  simp only [dropWhile_isSpace_cons hspace, dropWhile_beginsValue h]
  obtain ⟨c, cs', rfl, -, hbracket, -⟩ := h
  split
  · next heq => exact absurd (Option.some.inj (List.head_eq_of_cons_eq heq)) hbracket
  · rw [hitems]

/-- Where an object does not end at once, its members are read one by one. -/
theorem readValue_object {cs : List Char} (h : BeginsValue cs) {fuel : Nat} {ms : Members}
    {rest rest' : List Symbol}
    (hmembers : readMembers fuel (cs.map some ++ rest) = (ms, some rest')) :
    readValue (fuel + 1) (('\x7b' :: cs).map some ++ rest) = (.object ms, some rest') := by
  have hspace : isSpace (some '\x7b') = false := by decide
  rw [List.map_cons, List.cons_append, readValue]
  simp only [dropWhile_isSpace_cons hspace, dropWhile_beginsValue h]
  obtain ⟨c, cs', rfl, -, -, hbrace⟩ := h
  split
  · next heq => exact absurd (Option.some.inj (List.head_eq_of_cons_eq heq)) hbrace
  · rw [hmembers]

/-- An item that has been read is followed by the end of the array or by more items. -/
theorem readItems_cons {fuel : Nat} {cs : List Symbol} {j : Json} {js : Items}
    {rest : List Symbol} (hjs : js.Writable)
    (hvalue : readValue fuel cs = (j, some ((js.chars false).map some ++ rest)))
    (hitems : js ≠ .closed →
      readItems fuel ((js.chars true).map some ++ rest) = (js, some rest)) :
    readItems (fuel + 1) cs = (.cons j js, some rest) := by
  rw [readItems, hvalue]
  cases js with
  | closed => rfl
  | broken => exact hjs.elim
  | cons j' js =>
    have hmore := hitems Items.noConfusion
    exact congrArg (fun p : Items × Option (List Symbol) => (Items.cons j p.1, p.2)) hmore

/-- A member that has been read is followed by the end of the object or by more
members. -/
theorem readMembers_cons {fuel : Nat} {cs : List Symbol} {name : String} {j : Json}
    {ms : Members} {rest : List Symbol} (hms : ms.Writable)
    (hvalue : readValue fuel cs = (j, some ((ms.chars false).map some ++ rest)))
    (hmembers : ms ≠ .closed →
      readMembers fuel ((ms.chars true).map some ++ rest) = (ms, some rest)) :
    readMembers (fuel + 1) ((stringChars name).map some ++ (some ':' :: cs)) =
      (.cons (some name) j ms, some rest) := by
  have hopen : (stringChars name).map some ++ (some ':' :: cs) =
      some '"' :: ((name.toList.flatMap escapeChar ++ ['"']).map some ++ (some ':' :: cs)) := rfl
  have hquote : isSpace (some '"') = false := by decide
  have hcolon : isSpace (some ':') = false := by decide
  have hname : (joinPieces (name.toList.map pieceOf)).toOption.map String.ofList = some name := by
    rw [joinPieces_map_pieceOf, Except.toOption, Option.map_some, String.ofList_toList]
  rw [hopen, readMembers]
  simp only [dropWhile_isSpace_cons hquote, scanString_stringChars, dropWhile_isSpace_cons hcolon,
    hname, hvalue]
  cases ms with
  | closed => rfl
  | broken => exact hms.elim
  | cons name' j' ms =>
    have hmore := hmembers Members.noConfusion
    exact congrArg
      (fun p : Members × Option (List Symbol) => (Members.cons (some name) j p.1, p.2)) hmore

-- By recursion on the tree. Each level of nesting takes fuel once for its bracket or its
-- brace and once for every item, and both stand in the text, so its length is enough.

mutual

/-- A value is read as it was written. -/
theorem readValue_chars : ∀ (j : Json), j.Writable → ∀ (fuel : Nat), j.chars.length ≤ fuel →
    ∀ (rest : List Symbol), EndsNumber rest →
      readValue fuel (j.chars.map some ++ rest) = (j, some rest)
  | j, h, 0, hfuel, _, _ =>
    absurd (length_pos_of_beginsValue (beginsValue_chars h)) (Nat.not_lt.2 hfuel)
  | .null, _, _ + 1, _, _, _ => rfl
  | .bool true, _, _ + 1, _, _, _ => rfl
  | .bool false, _, _ + 1, _, _, _ => rfl
  | .integer _, h, fuel + 1, _, _, hrest => readValue_integer h fuel hrest
  | .number _, h, fuel + 1, _, _, hrest => readValue_number h fuel hrest
  | .text s, _, _ + 1, _, rest, _ => readString_stringChars s rest
  | .array .closed, _, _ + 1, _, _, _ => rfl
  | .array (.cons j js), h, fuel + 1, hfuel, rest, _ =>
    have hbegins : BeginsValue ((Items.cons j js).chars true) :=
      (beginsValue_chars h.1).append (js.chars false)
    readValue_array hbegins (readItems_chars (.cons j js) h Items.noConfusion fuel
      (Nat.le_of_succ_le_succ hfuel) rest)
  | .object .closed, _, _ + 1, _, _, _ => rfl
  | .object (.cons (some name) j ms), h, fuel + 1, hfuel, rest, _ =>
    have hbegins : BeginsValue ((Members.cons (some name) j ms).chars true) :=
      beginsValue_cons _ _ (by decide)
    readValue_object hbegins (readMembers_chars (.cons (some name) j ms) h Members.noConfusion fuel
      (Nat.le_of_succ_le_succ hfuel) rest)

/-- Items are read as they were written, up to the end of the array. -/
theorem readItems_chars : ∀ (js : Items), js.Writable → js ≠ .closed → ∀ (fuel : Nat),
    (js.chars true).length ≤ fuel → ∀ (rest : List Symbol),
      readItems fuel ((js.chars true).map some ++ rest) = (js, some rest)
  | .closed, _, hne, _, _, _ => absurd rfl hne
  | .cons j js, h, _, 0, hfuel, _ =>
    absurd (length_pos_of_beginsValue ((beginsValue_chars h.1).append (js.chars false)))
      (Nat.not_lt.2 hfuel)
  | .cons j js, h, _, fuel + 1, hfuel, rest => by
    have hlength : j.chars.length + (js.chars false).length ≤ fuel + 1 := by
      rw [← List.length_append]
      exact hfuel
    have hvalue := length_pos_of_beginsValue (beginsValue_chars h.1)
    obtain ⟨hend, hmore⟩ := js.length_chars h.2
    rw [Items.chars, if_pos rfl, List.nil_append, List.map_append, List.append_assoc]
    refine readItems_cons h.2 ?_ fun hne => ?_
    · exact readValue_chars j h.1 fuel (by omega) _ (js.endsNumber_chars h.2 rest)
    · exact readItems_chars js h.2 hne fuel (by have := hmore hne; omega) rest

/-- Members are read as they were written, up to the end of the object. -/
theorem readMembers_chars : ∀ (ms : Members), ms.Writable → ms ≠ .closed → ∀ (fuel : Nat),
    (ms.chars true).length ≤ fuel → ∀ (rest : List Symbol),
      readMembers fuel ((ms.chars true).map some ++ rest) = (ms, some rest)
  | .closed, _, hne, _, _, _ => absurd rfl hne
  | .cons (some name) j ms, h, _, 0, hfuel, _ =>
    absurd (Nat.succ_pos _) (Nat.not_lt.2 hfuel)
  | .cons (some name) j ms, h, _, fuel + 1, hfuel, rest => by
    have hchars : (Members.cons (some name) j ms).chars true =
        stringChars name ++ ':' :: (j.chars ++ ms.chars false) := rfl
    have hlength : j.chars.length + (ms.chars false).length ≤ fuel + 1 := by
      rw [hchars, List.length_append, List.length_cons, List.length_append] at hfuel
      omega
    have hvalue := length_pos_of_beginsValue (beginsValue_chars h.2.1)
    obtain ⟨hend, hmore⟩ := ms.length_chars h.2.2
    rw [hchars, List.map_append, List.map_cons, List.map_append, List.append_assoc,
      List.cons_append, List.append_assoc]
    refine readMembers_cons h.2.2 ?_ fun hne => ?_
    · exact readValue_chars j h.2.1 fuel (by omega) _ (ms.endsNumber_chars h.2.2 rest)
    · exact readMembers_chars ms h.2.2 hne fuel (by have := hmore hne; omega) rest

end

/-! ## 6. Whole texts -/

mutual

theorem isSound_of_writable : ∀ {j : Json}, j.Writable → j.isSound = true
  | .null, _ => rfl
  | .bool _, _ => rfl
  | .integer _, _ => rfl
  | .number _, _ => rfl
  | .text _, _ => rfl
  | .array _, h => Items.isSound_of_writable h
  | .object _, h => Members.isSound_of_writable h

theorem Items.isSound_of_writable : ∀ {js : Items}, js.Writable → js.isSound = true
  | .closed, _ => rfl
  | .cons j js, h => by
    have hhead : j.isSound = true := Json.isSound_of_writable h.1
    rw [Items.isSound, hhead, Items.isSound_of_writable h.2]
    rfl

theorem Members.isSound_of_writable : ∀ {ms : Members}, ms.Writable → ms.isSound = true
  | .closed, _ => rfl
  | .cons name j ms, h => by
    have hhead : j.isSound = true := Json.isSound_of_writable h.2.1
    rw [Members.isSound, h.1, hhead, Members.isSound_of_writable h.2.2]
    rfl

end

/-- A tree is read back from its text, and nothing is left over. -/
theorem readSymbols_chars {j : Json} (h : j.Writable) :
    readSymbols (j.chars.map some) = (j, some []) := by
  have hread := readValue_chars j h (2 * (j.chars.map some).length + 2)
    (by rw [List.length_map]; omega) [] (fun c cs heq => nomatch heq)
  rw [List.append_nil] at hread
  exact hread

/-- A decoder of a rendered tree decodes the tree. -/
theorem decode_render {α : Type} (decoder : Json → Except Fault α) {j : Json} (h : j.Writable) :
    decode decoder j.render = decoder j := by
  rw [decode, render, String.toList_ofList, decodeSymbols, readSymbols_chars h]
  dsimp only
  cases decoder j <;> rfl

/-- A rendered tree that is not too deep is read back. -/
theorem ofText?_render {j : Json} (h : j.Writable) (hdepth : j.depth < 128) :
    ofText? j.render = some j := by
  rw [ofText?, render, String.toList_ofList, readSymbols_chars h]
  dsimp only
  rw [isSound_of_writable h, decide_eq_true hdepth]
  rfl

/-! ## 7. Objects of given members -/

theorem writable_ofMembers {ms : List (String × Json)} (h : ∀ m ∈ ms, m.2.Writable) :
    (ofMembers ms).Writable := by
  have hmembers : (Members.ofList ms).Writable := by
    induction ms with
    | nil => exact trivial
    | cons m ms ih =>
      exact ⟨rfl, h m List.mem_cons_self, ih fun m' hm' => h m' (List.mem_cons_of_mem m hm')⟩
  exact hmembers

theorem depth_ofMembers {ms : List (String × Json)} {n : Nat} (h : ∀ m ∈ ms, m.2.depth ≤ n) :
    (ofMembers ms).depth ≤ n + 1 := by
  have hmembers : (Members.ofList ms).depth ≤ n := by
    induction ms with
    | nil => exact Nat.zero_le n
    | cons m ms ih =>
      have hrest := ih fun m' hm' => h m' (List.mem_cons_of_mem m hm')
      exact Nat.max_le.2 ⟨h m List.mem_cons_self, hrest⟩
  exact Nat.succ_le_succ hmembers

theorem writable_integer {n : Int} (h : Text.fitsSigned64 n = true) : (integer n).Writable := by
  obtain ⟨hlow, hhigh⟩ := of_decide_eq_true h
  exact ⟨hlow, Int.lt_trans hhigh (by decide)⟩

theorem depth_ofNumber (x : Number) : (ofNumber x).depth ≤ 0 := by
  rw [ofNumber]
  split <;> exact Nat.le_refl 0

theorem writable_ofNumber (x : Number) : (ofNumber x).Writable := by
  rw [ofNumber]
  split
  · next h => exact h
  · exact trivial

theorem hasName_ofList (name : String) (ms : List (String × Json)) :
    (Members.ofList ms).hasName (some name) = true ↔ name ∈ ms.map (·.1) := by
  induction ms with
  | nil => exact ⟨Bool.noConfusion, fun h => nomatch h⟩
  | cons m ms ih =>
    rw [Members.ofList, Members.hasName, Bool.or_eq_true, ih, List.map_cons, List.mem_cons,
      beq_iff_eq, Option.some.injEq, eq_comm]

/-- Members whose names differ are all the last of their name. -/
theorem withLastMembers_ofMembers {ms : List (String × Json)} (h : (ms.map (·.1)).Nodup) :
    (ofMembers ms).withLastMembers = ofMembers ms := by
  have hmembers : (Members.ofList ms).lastOfEach = .ofList ms := by
    induction ms with
    | nil => rfl
    | cons m ms ih =>
      obtain ⟨hnew, hrest⟩ := List.nodup_cons.1 h
      rw [Members.ofList, Members.lastOfEach, if_neg (mt (hasName_ofList _ _).1 hnew), ih hrest]
  exact congrArg Json.object hmembers

end Reckoner.Json
