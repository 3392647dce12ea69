/-
Reckoner.Service.MediaType — which media types announce JSON.

A media type is two names with a slash between them, and parameters behind
semicolons, of which the last may be missing. The second name may end in a plus
sign and a suffix. JSON is announced by `application/json` and by any
`application` type with the suffix `json`, in any case and with any parameters
that are well formed.

  1. Tokens
  2. Parameters
  3. Media types
-/
namespace Reckoner.Service.MediaType

/-! ## 1. Tokens -/

/-- The character may stand in a name. -/
def isTokenChar (c : Char) : Bool :=
  c.isAlphanum || ['!', '#', '$', '%', '&', '\'', '*', '+', '-', '.', '^', '_', '\x60', '|',
    '~'].contains c

/-- The character may stand between quotes. -/
def isQuotedChar (c : Char) : Bool := 32 ≤ c.toNat && c.toNat ≠ 127

/-! ## 2. Parameters -/

/-- Where a reader of parameters stands. -/
inductive Place where
  /-- Behind a semicolon, with only blanks since. -/
  | beforeName
  | inName
  /-- Behind an equals sign. -/
  | beforeValue
  | inValue
  /-- Behind an opening quote. What is quoted is not empty, so a second quote is
  part of it. -/
  | beforeQuoted
  | inQuotes
  | afterQuotes

/-- The parameters behind a first semicolon are well formed. -/
def parametersOk : Place → List Char → Bool
  | .beforeName, [] => true
  | .inValue, [] => true
  | .beforeValue, [] => true
  | .afterQuotes, [] => true
  | _, [] => false
  | .beforeName, c :: cs =>
    if c = ' ' then parametersOk .beforeName cs
    else if isTokenChar c then parametersOk .inName cs
    else false
  | .inName, c :: cs =>
    if c = '=' then parametersOk .beforeValue cs
    else isTokenChar c && parametersOk .inName cs
  | .beforeValue, c :: cs =>
    if c = '"' then parametersOk .beforeQuoted cs
    else isTokenChar c && parametersOk .inValue cs
  | .inValue, c :: cs =>
    if c = ';' then parametersOk .beforeName cs
    else isTokenChar c && parametersOk .inValue cs
  | .beforeQuoted, c :: cs => isQuotedChar c && parametersOk .inQuotes cs
  | .inQuotes, c :: cs =>
    if c = '"' then parametersOk .afterQuotes cs
    else isQuotedChar c && parametersOk .inQuotes cs
  | .afterQuotes, c :: cs =>
    if c = ';' then parametersOk .beforeName cs
    else c == ' ' && parametersOk .afterQuotes cs

/-! ## 3. Media types -/

/-- The part of a name before its last plus sign, and the suffix behind it. A
plus sign that comes first is part of the name. -/
def splitSuffix (cs : List Char) : List Char × Option (List Char) :=
  let suffix := (cs.reverse.takeWhile (· ≠ '+')).reverse
  match (cs.reverse.dropWhile (· ≠ '+')).tail with
  | [] => (cs, none)
  | before => (before.reverse, some suffix)

/-- The media type announces JSON. -/
def announcesJson (s : String) : Bool :=
  let cs := s.toList.map Char.toLower
  let kind := cs.takeWhile (· ≠ '/')
  match cs.dropWhile (· ≠ '/') with
  | [] => false
  | _ :: rest =>
    let name := rest.takeWhile (· ≠ ';')
    let parameters := rest.dropWhile (· ≠ ';')
    let (plain, suffix) := splitSuffix name
    kind = "application".toList && !name.isEmpty && name.all isTokenChar &&
      (plain = "json".toList || suffix = some "json".toList) &&
      (parameters.isEmpty || parametersOk .beforeName parameters.tail)

end Reckoner.Service.MediaType
