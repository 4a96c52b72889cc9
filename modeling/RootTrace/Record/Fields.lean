/-!
# Records and their fields

Structured values come from different sources, which agree on what a record is
but not on how it is laid out. A source says how it reads single values and
lists, and it finds the slots of a record: for every field either a value, or
the reason why there is none. A record with names can lack a name, and a record
without names, which lists its fields in order, can end early.

The fields of a record type are put together one by one, each with the rule for
its absence. The names of the fields in order, which both layouts need, are
collected on the way.
-/

namespace RootTrace

/-- What a record holds for one field. -/
inductive Slot (V : Type) where
  /-- A value. -/
  | given (value : V)
  /-- The record has names, and this is not among them. -/
  | unnamed
  /-- The record lists its fields in order and ends before this one. -/
  | cutOff

/-- How values of a type are read. -/
class Source (V : Type) where
  /-- A double. -/
  float? : V → Option Float
  /-- A natural number. -/
  nat? : V → Option Nat
  /-- A truth value. -/
  bool? : V → Option Bool
  /-- A string. -/
  text? : V → Option String
  /-- The items of a list. -/
  items? : V → Option (List V)
  /-- The two items of a pair. -/
  pair? : V → Option (V × V)
  /-- Whether a value says that there is none. -/
  isNull : V → Bool
  /-- The slots of a record whose fields have the given names in this order. -/
  slots? : List String → V → Option (String → Slot V)

/-- The fields of a record: their names in order, and the record made from their
slots. -/
structure Fields (V β : Type) where
  /-- Names of the fields in order. -/
  names : List String
  /-- The record made from the slots of the fields. -/
  build? : (String → Slot V) → Option β

namespace Fields

variable {V β γ : Type}

instance : Functor (Fields V) where
  map f fields := ⟨fields.names, fun slots => (fields.build? slots).map f⟩

/-- The fields of the first part, then those of the second. -/
instance : Seq (Fields V) where
  seq first second :=
    ⟨first.names ++ (second ()).names, fun slots => do
      let f ← first.build? slots
      let value ← (second ()).build? slots
      some (f value)⟩

/-- A single field with its rules for a record that lacks its name and for a
record that ends before it. -/
def single (name : String) (read? : V → Option β) (unnamed cutOff : Option β) :
    Fields V β where
  names := [name]
  build? slots := match slots name with
    | .given value => read? value
    | .unnamed => unnamed
    | .cutOff => cutOff

/-- A field that may not be absent. -/
def required (name : String) (read? : V → Option β) : Fields V β :=
  single name read? none none

/-- A field that may be absent from either layout. -/
def withDefault (name : String) (read? : V → Option β) (default : β) : Fields V β :=
  single name read? (some default) (some default)

/-- A field without a value if its name is absent, or if its value says that
there is none. A record that lists its fields in order may not end before it. -/
def nullable [Source V] (name : String) (read? : V → Option β) : Fields V (Option β) :=
  single name
    (fun value => if Source.isNull value then some none else (read? value).map some)
    (some none) none

/-- Read a record with the given fields. -/
def read? [Source V] (fields : Fields V β) (value : V) : Option β := do
  let slots ← Source.slots? fields.names value
  fields.build? slots

end Fields
end RootTrace
