/-
Reckoner.Text.LogLine — messages as lines of a log.

The characters with which a message could take control of a terminal are shown
as escapes. Line ends are kept, so a message may take several lines.
-/
namespace Reckoner.Text

/-- The character drives a terminal: a bell, a backspace, a form feed, an escape
or a deletion, or one of the controls above ASCII. -/
def drivesTerminal (c : Char) : Bool :=
  [0x07, 0x08, 0x0c, 0x1b, 0x7f].contains c.toNat || (0x80 ≤ c.toNat && c.toNat ≤ 0x9f)

/-- A character as a log shows it. An escape has two hexadecimal digits, in
braces above ASCII. -/
def shownChar (c : Char) : List Char :=
  if drivesTerminal c then
    let digits := [Nat.digitChar (c.toNat / 16), Nat.digitChar (c.toNat % 16)]
    if c.toNat < 0x80 then '\\' :: 'x' :: digits
    else '\\' :: 'u' :: '\x7b' :: (digits ++ ['\x7d'])
  else [c]

/-- A line without the carriage return at its end. -/
def withoutReturn (cs : List Char) : List Char :=
  match cs.reverse with
  | '\r' :: rest => rest.reverse
  | _ => cs

/-- A message as lines of a log. -/
def logLines (message : String) : List String :=
  ((message.toList.flatMap shownChar).splitOn '\n').map fun cs => String.ofList (withoutReturn cs)

end Reckoner.Text
