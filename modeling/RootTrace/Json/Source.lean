import RootTrace.Json.Parser
import RootTrace.Record.Fields

/-!
# Records in structured text

A record is an object, whose members may come in any order and among members
that nobody asks for, or an array of its fields in order. A known key may occur
only once in an object, and an array may not have more items than there are
fields. A pair is an array of exactly two items.
-/

namespace RootTrace
namespace Json

/-- The members of an object by their keys, unless a key has no characters to
show. -/
def named? (members : List (Option String × Json)) : Option (List (String × Json)) :=
  members.mapM fun (key, value) => key.map (·, value)

/-- The slots of an object. A known key may not occur twice. -/
def objectSlots? (names : List String) (members : List (String × Json)) :
    Option (String → Slot Json) :=
  let known := members.filter fun member => names.contains member.1
  if (known.map Prod.fst).Nodup then
    some fun name => match known.lookup name with
      | some value => .given value
      | none => .unnamed
  else
    none

/-- The slots of an array, which may not have items behind the last field. -/
def arraySlots? (names : List String) (items : List Json) : Option (String → Slot Json) :=
  if items.length ≤ names.length then
    some fun name => match items[names.idxOf name]? with
      | some value => .given value
      | none => .cutOff
  else
    none

instance : Source Json where
  float?
    | .number value => value.toFloat?
    | _ => none
  nat?
    | .number value => value.toNat?
    | _ => none
  bool?
    | .bool value => some value
    | _ => none
  text?
    | .string value => value
    | _ => none
  items?
    | .array items => some items
    | _ => none
  pair?
    | .array [first, second] => some (first, second)
    | _ => none
  isNull
    | .null => true
    | _ => false
  slots? names
    | .object members => do objectSlots? names (← named? members)
    | .array items => arraySlots? names items
    | _ => none

/-- Read a value of some type from a text. -/
def decode? {β : Type} (read? : Json → Option β) (text : String) : Option β := do
  read? (← parse? text)

end Json
end RootTrace
