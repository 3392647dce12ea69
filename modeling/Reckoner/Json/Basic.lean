/-
Reckoner.Json.Basic — what a text says when it is read as JSON.

The reader never fails. Where a text stops making sense the tree has a
`broken` place and nothing after it, so whoever decodes the tree meets the
faults of the text in the order in which they stand there. Some places may be
skipped but not used: a string with half of a surrogate pair or with bytes that
are no character, and a number beyond the largest binary64 number.

  1. The tree
  2. Trees that may be skipped, and trees that may be used
  3. Depth
  4. Trees that are read to their end
  5. Repeated names
-/
import Reckoner.Number.Basic

namespace Reckoner

/-! ## 1. The tree -/

mutual

/-- A JSON value. -/
inductive Json where
  | null
  | bool (value : Bool)
  /-- A number written without fraction and exponent that fits a 64-bit word. -/
  | integer (value : Int)
  /-- Any other number. -/
  | number (value : Number)
  | text (value : String)
  /-- A string or a number that has no value. `whole` says that whoever uses it
  finds out only once all of it has been read. -/
  | unusable (whole : Bool)
  | array (items : Json.Items)
  | object (members : Json.Members)
  /-- The text makes no sense from here on. -/
  | broken

/-- The items of an array. -/
inductive Json.Items where
  | closed
  | broken
  | cons (head : Json) (tail : Json.Items)

/-- The members of an object; a name that has no value is `none`. -/
inductive Json.Members where
  | closed
  | broken
  | cons (name : Option String) (value : Json) (tail : Json.Members)

end

namespace Json

/-- Some items, closed. -/
def Items.ofList : List Json → Items
  | [] => .closed
  | j :: js => .cons j (ofList js)

/-- Some members, closed. -/
def Members.ofList : List (String × Json) → Members
  | [] => .closed
  | (name, j) :: ms => .cons (some name) j (ofList ms)

/-- How many items there are. -/
def Items.length : Items → Nat
  | .cons _ js => js.length + 1
  | _ => 0

/-- An array of the given items. -/
def ofItems (items : List Json) : Json := .array (.ofList items)

/-- An object of the given members, in this order. -/
def ofMembers (members : List (String × Json)) : Json := .object (.ofList members)

/-- A number, or `null` for what has no decimal text. -/
def ofNumber (x : Number) : Json := if x.isFinite then .number x else .null

/-! ## 2. Trees that may be skipped, and trees that may be used -/

mutual

/-- Nothing in the tree is broken, so it may be skipped. -/
def wellFormed : Json → Bool
  | .broken => false
  | .array items => items.wellFormed
  | .object members => members.wellFormed
  | _ => true

/-- All items are well formed and the array is closed. -/
def Items.wellFormed : Items → Bool
  | .closed => true
  | .broken => false
  | .cons j js => j.wellFormed && js.wellFormed

/-- All members are well formed and the object is closed. -/
def Members.wellFormed : Members → Bool
  | .closed => true
  | .broken => false
  | .cons _ j ms => j.wellFormed && ms.wellFormed

end

mutual

/-- Every part of the tree has a value. -/
def isSound : Json → Bool
  | .broken => false
  | .unusable _ => false
  | .array items => items.isSound
  | .object members => members.isSound
  | _ => true

/-- All items are sound and the array is closed. -/
def Items.isSound : Items → Bool
  | .closed => true
  | .broken => false
  | .cons j js => j.isSound && js.isSound

/-- All names and values are sound and the object is closed. -/
def Members.isSound : Members → Bool
  | .closed => true
  | .broken => false
  | .cons name j ms => name.isSome && j.isSound && ms.isSound

end

/-! ## 3. Depth -/

mutual

/-- How many arrays and objects stand inside one another. -/
def depth : Json → Nat
  | .array items => items.depth + 1
  | .object members => members.depth + 1
  | _ => 0

/-- The greatest depth of an item. -/
def Items.depth : Items → Nat
  | .cons j js => max j.depth js.depth
  | _ => 0

/-- The greatest depth of a member. -/
def Members.depth : Members → Nat
  | .cons _ j ms => max j.depth ms.depth
  | _ => 0

end

/-! ## 4. Trees that are read to their end -/

mutual

/-- Whoever uses the tree reads it to its end, where `room` arrays and objects
may nest. What is found to have no value ends the reading of all around it, so
it must come last everywhere. -/
def readsThrough (room : Nat) : Json → Bool
  | .broken => false
  | .unusable whole => whole
  | .array items => decide (0 < room) && items.readsThrough (room - 1)
  | .object members => decide (0 < room) && members.readsThrough (room - 1)
  | _ => true

/-- The items, of which only the last may lack a value. -/
def Items.readsThrough (room : Nat) : Items → Bool
  | .closed => true
  | .broken => false
  | .cons j .closed => j.readsThrough room
  | .cons j js => j.isSound && decide (j.depth ≤ room) && js.readsThrough room

/-- The members, of which only the last may lack a value, but not a name. -/
def Members.readsThrough (room : Nat) : Members → Bool
  | .closed => true
  | .broken => false
  | .cons name j .closed => name.isSome && j.readsThrough room
  | .cons name j ms =>
    name.isSome && j.isSound && decide (j.depth ≤ room) && ms.readsThrough room

end

/-! ## 5. Repeated names -/

/-- Some later member has the name. -/
def Members.hasName (name : Option String) : Members → Bool
  | .cons n _ ms => n == name || ms.hasName name
  | _ => false

/-- The members without those whose name is used again later. -/
def Members.lastOfEach : Members → Members
  | .cons n j ms => if ms.hasName n then ms.lastOfEach else .cons n j ms.lastOfEach
  | ms => ms

/-- The last value of a name. -/
def Members.find? (name : String) : Members → Option Json
  | .cons n j ms => (ms.find? name).or (if n == some name then some j else none)
  | _ => none

/-- The last value an object has under a name. -/
def member? (name : String) : Json → Option Json
  | .object members => members.find? name
  | _ => none

/-- The tree with only the last of the members that share a name. -/
def withLastMembers : Json → Json
  | .object members => .object members.lastOfEach
  | j => j

end Json

end Reckoner
