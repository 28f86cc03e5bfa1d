import JsonShape.Number.Reader
import JsonShape.Text.Quoted
import JsonShape.Value.Basic

/-!
Reading values from text. Of members with one name the last is kept.
-/

namespace JsonShape.Value

def isBlank (c : Char) : Bool := c == ' ' || c == '\n' || c == '\t' || c == '\r'

def skip (text : List Char) : List Char := text.dropWhile isBlank

def word? (text : List Char) : Option (Value × List Char) :=
  let words := [("null", null), ("true", bool true), ("false", bool false)]
  words.findSome? fun (word, v) => (word.toList.isPrefixOf? text).map fun rest => (v, rest)

def scalar? (text : List Char) : Option (Value × List Char) :=
  (word? text).or ((Number.read? text).map fun (n, rest) => (number n, rest))

mutual

/-- Reads one value and returns what follows it; `fuel` bounds the calls nested in one another. -/
def read? : (fuel : Nat) → List Char → Option (Value × List Char)
  | 0, _ => none
  | fuel + 1, text =>
    match skip text with
    | [] => none
    | c :: rest =>
      if c = '"' then (Quoted.read? rest).map fun (s, rest) => (string s, rest)
      else if c = '[' then (readItems? fuel rest).map fun (items, rest) => (array items, rest)
      else if c = '{' then
        (readMembers? fuel rest).map fun (members, rest) =>
          (object (Entries.sorted members), rest)
      else scalar? (c :: rest)

def readItems? : (fuel : Nat) → List Char → Option (List Value × List Char)
  | 0, _ => none
  | fuel + 1, text =>
    match skip text with
    | ']' :: rest => some ([], rest)
    | text => do
      let (v, rest) ← read? fuel text
      let (items, rest) ← readMoreItems? fuel rest
      some (v :: items, rest)

def readMoreItems? : (fuel : Nat) → List Char → Option (List Value × List Char)
  | 0, _ => none
  | fuel + 1, text =>
    match skip text with
    | ']' :: rest => some ([], rest)
    | ',' :: rest => do
      let (v, rest) ← read? fuel rest
      let (items, rest) ← readMoreItems? fuel rest
      some (v :: items, rest)
    | _ => none

def readMembers? : (fuel : Nat) → List Char → Option (List (String × Value) × List Char)
  | 0, _ => none
  | fuel + 1, text =>
    match skip text with
    | '}' :: rest => some ([], rest)
    | text => do
      let (m, rest) ← readMember? fuel text
      let (members, rest) ← readMoreMembers? fuel rest
      some (m :: members, rest)

def readMoreMembers? : (fuel : Nat) → List Char → Option (List (String × Value) × List Char)
  | 0, _ => none
  | fuel + 1, text =>
    match skip text with
    | '}' :: rest => some ([], rest)
    | ',' :: rest => do
      let (m, rest) ← readMember? fuel rest
      let (members, rest) ← readMoreMembers? fuel rest
      some (m :: members, rest)
    | _ => none

def readMember? : (fuel : Nat) → List Char → Option ((String × Value) × List Char)
  | 0, _ => none
  | fuel + 1, text => do
    let rest ← ['"'].isPrefixOf? (skip text)
    let (name, rest) ← Quoted.read? rest
    let rest ← [':'].isPrefixOf? (skip rest)
    let (v, rest) ← read? fuel rest
    some ((name, v), rest)

end

/-- The value that a whole text spells. At least every third nested call reads a character, so three
times the length is fuel enough. -/
def ofText? (text : String) : Option Value :=
  match read? (3 * text.length + 3) text.toList with
  | some (v, rest) => if skip rest = [] then some v else none
  | none => none

end JsonShape.Value
