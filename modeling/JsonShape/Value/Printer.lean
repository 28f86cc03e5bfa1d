import JsonShape.Number.Printer
import JsonShape.Text.Quoted
import JsonShape.Value.Basic

/-!
The compact text of values: no spaces, members in the order in which they are kept.
-/

namespace JsonShape

namespace Value

mutual

def text : Value → String
  | null => "null"
  | bool true => "true"
  | bool false => "false"
  | number n => n.text
  | string s => Quoted.write s
  | array items => "[" ++ ",".intercalate (texts items) ++ "]"
  | object members => "\x7b" ++ ",".intercalate (memberTexts members) ++ "\x7d"

def texts : List Value → List String
  | [] => []
  | v :: items => text v :: texts items

def memberTexts : List (String × Value) → List String
  | [] => []
  | (name, v) :: members => (Quoted.write name ++ ":" ++ text v) :: memberTexts members

end

end Value

def Slot.text : Slot → String
  | none => "undefined"
  | some v => v.text

end JsonShape
