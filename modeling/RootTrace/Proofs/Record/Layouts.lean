import RootTrace.Json.Source
import RootTrace.Record.Types
import RootTrace.Proofs.Json.Acceptance

/-!
# What a record is read from

A record type is known by its fields: how the value of each is read, and what the field is in
an object that lacks its name or in an array that ends before it. A record is read from an
object or an array exactly if every field has a value then, and the fields of the record are
these values. Other members of an object and the order of its members do not matter, with one
exception: a key without characters cannot be compared with the names of the fields, and an
object that holds one is not read, wherever it stands. In the values of other members strings
without characters do no harm.
-/

namespace RootTrace

open Json

/-! ## Fields -/

/-- What a slot holds, if a given value is read and the two kinds of absence have values of
their own. -/
def Slot.value? {γ : Type} (read? : Json → Option γ) (unnamed cutOff : Option γ) :
    Slot Json → Option γ
  | .given value => read? value
  | .unnamed => unnamed
  | .cutOff => cutOff

/-- One field of records of a type. -/
structure Field (β : Type) where
  /-- Its name. -/
  name : String
  /-- The type of its values. -/
  Value : Type
  /-- Its value in a record. -/
  get : β → Value
  /-- How its value is read. -/
  read? : Json → Option Value
  /-- Its value in an object that lacks its name. -/
  unnamed : Option Value
  /-- Its value in an array that ends before it. -/
  cutOff : Option Value

namespace Field

variable {β γ : Type}

/-- A field that may not be absent. -/
@[simp] def required (name : String) (get : β → γ) (read? : Json → Option γ) : Field β :=
  ⟨name, γ, get, read?, none, none⟩

/-- A field that has a certain value if it is absent. -/
@[simp] def withDefault (name : String) (get : β → γ) (read? : Json → Option γ) (default : γ) :
    Field β :=
  ⟨name, γ, get, read?, some default, some default⟩

/-- How a value that may be missing is read. -/
def optional? (read? : Json → Option γ) : Json → Option (Option γ)
  | .null => some none
  | value => (read? value).map some

/-- A field whose value may be missing, but that an array may not leave out. -/
@[simp] def nullable (name : String) (get : β → Option γ) (read? : Json → Option γ) : Field β :=
  ⟨name, Option γ, get, optional? read?, some none, none⟩

/-- A value that the field has in an object with the given members. -/
inductive InObject (field : Field β) (members : List (Option String × Json)) :
    field.Value → Prop where
  | given {value : Json} {x : field.Value} :
      (some field.name, value) ∈ members → field.read? value = some x → InObject field members x
  | unnamed {x : field.Value} :
      some field.name ∉ members.map Prod.fst → field.unnamed = some x → InObject field members x

/-- A value that the field has at some place of an array with the given items. -/
inductive InArray (field : Field β) (items : List Json) (place : ℕ) : field.Value → Prop where
  | given {value : Json} {x : field.Value} :
      items[place]? = some value → field.read? value = some x → InArray field items place x
  | cutOff {x : field.Value} :
      items.length ≤ place → field.cutOff = some x → InArray field items place x

/-- What a slot says of the field. -/
@[simp] def fromSlot (field : Field β) (slot : Slot Json) : Option field.Value :=
  slot.value? field.read? field.unnamed field.cutOff

end Field

/-- How records with the given fields are read from texts. An object is read if all keys have
characters, no known name occurs twice and every field has a value, and an array if it has no
more items than there are fields and every field has a value. The record is then made of these
values. No other text is read. -/
structure ReadsFields {β : Type} (read? : Json → Option β) (fields : List (Field β)) : Prop where
  object {text : String} {members : List (Option String × Json)} :
    Writes text (.object members) →
      ((decode? read? text).isSome = true ↔
        none ∉ members.map Prod.fst ∧
          ∀ field ∈ fields, (members.map Prod.fst).count (some field.name) ≤ 1 ∧
            ∃ x, field.InObject members x) ∧
      ∀ record, decode? read? text = some record →
        ∀ field ∈ fields, field.InObject members (field.get record)
  array {text : String} {items : List Json} :
    Writes text (.array items) →
      ((decode? read? text).isSome = true ↔
        items.length ≤ fields.length ∧
          ∀ place, ∃ x, (fields.get place).InArray items place x) ∧
      ∀ record, decode? read? text = some record →
        ∀ place, (fields.get place).InArray items place ((fields.get place).get record)
  layouts {text : String} :
    (decode? read? text).isSome = true →
      (∃ members, Writes text (.object members)) ∨ ∃ items, Writes text (.array items)

/-! ## Slots -/

section Slots

variable {names : List String} {name : String} {members : List (String × Json)}
  {items : List Json} {slots : String → Slot Json} {value : Json}

/-- Members whose keys are the given ones, and have characters therefore. -/
def withKeys (members : List (String × Json)) : List (Option String × Json) :=
  members.map fun member => (some member.1, member.2)

theorem named?_withKeys (members : List (String × Json)) :
    named? (withKeys members) = some members := by
  induction members with
  | nil => rfl
  | cons member members inductionHypothesis =>
      rw [named?, withKeys, List.map_cons, List.mapM_cons]
      rw [named?, withKeys] at inductionHypothesis
      rw [inductionHypothesis]
      rfl

/-- Members have names exactly if every key has characters, and these are the names. -/
theorem named?_eq_some_iff {members : List (Option String × Json)}
    {named : List (String × Json)} :
    named? members = some named ↔ members = withKeys named := by
  constructor
  · intro known
    induction members generalizing named with
    | nil =>
        cases known
        rfl
    | cons member members inductionHypothesis =>
        obtain ⟨key | name, value⟩ := member
        · cases known
        · rw [named?, List.mapM_cons] at known
          obtain ⟨_, first, remaining⟩ := Option.bind_eq_some_iff.mp known
          obtain ⟨others, found, made⟩ := Option.bind_eq_some_iff.mp remaining
          cases first
          cases made
          rw [inductionHypothesis found]
          rfl
  · rintro rfl
    exact named?_withKeys named

theorem map_fst_withKeys (members : List (String × Json)) :
    (withKeys members).map Prod.fst = (members.map Prod.fst).map some := by
  rw [withKeys, List.map_map, List.map_map]
  rfl

theorem mem_withKeys : (some name, value) ∈ withKeys members ↔ (name, value) ∈ members := by
  simp [withKeys]

theorem name_mem_withKeys :
    some name ∈ (withKeys members).map Prod.fst ↔ name ∈ members.map Prod.fst := by
  rw [map_fst_withKeys, List.mem_map_of_injective (Option.some_injective _)]

theorem count_withKeys (name : String) (members : List (String × Json)) :
    ((withKeys members).map Prod.fst).count (some name) = (members.map Prod.fst).count name := by
  rw [map_fst_withKeys, List.count_map_of_injective _ _ (Option.some_injective _)]

/-- The names of members are known exactly if every key has characters. -/
theorem none_notMem_iff {members : List (Option String × Json)} :
    none ∉ members.map Prod.fst ↔ ∃ named, members = withKeys named := by
  constructor
  · intro characters
    induction members with
    | nil => exact ⟨[], rfl⟩
    | cons member members inductionHypothesis =>
        rw [List.map_cons, List.mem_cons, not_or] at characters
        obtain ⟨named, rfl⟩ := inductionHypothesis characters.2
        obtain ⟨key | name, value⟩ := member
        · exact absurd rfl characters.1
        · exact ⟨(name, value) :: named, rfl⟩
  · rintro ⟨named, rfl⟩
    rw [map_fst_withKeys]
    simp

theorem map_fst_filter (names : List String) (members : List (String × Json)) :
    (members.filter fun member => names.contains member.1).map Prod.fst =
      (members.map Prod.fst).filter names.contains := by
  rw [List.filter_map]
  rfl

/-- An object has slots if none of the names that are asked for occurs twice. -/
theorem objectSlots?_isSome_iff :
    (objectSlots? names members).isSome = true ↔
      ∀ name ∈ names, (members.map Prod.fst).count name ≤ 1 := by
  have nodup : ((members.map Prod.fst).filter names.contains).Nodup ↔
      ∀ name ∈ names, (members.map Prod.fst).count name ≤ 1 := by
    rw [List.nodup_iff_count_le_one]
    constructor
    · intro once name member
      rw [← List.count_filter (List.contains_iff_mem.mpr member)]
      exact once name
    · intro once name
      by_cases member : name ∈ names
      · rw [List.count_filter (List.contains_iff_mem.mpr member)]
        exact once name member
      · rw [List.count_eq_zero_of_not_mem]
        · exact Nat.zero_le 1
        · intro inside
          exact member (List.contains_iff_mem.mp (List.mem_filter.mp inside).2)
  unfold objectSlots?
  rw [← nodup, ← map_fst_filter]
  dsimp only
  split <;> simp_all

/-- Where no key occurs twice, looking up a key finds the only member with this key. -/
theorem lookup_eq_some_iff_mem (nodup : (members.map Prod.fst).Nodup) :
    members.lookup name = some value ↔ (name, value) ∈ members := by
  induction members with
  | nil => simp
  | cons member members inductionHypothesis =>
      obtain ⟨key, first⟩ := member
      rw [List.map_cons, List.nodup_cons] at nodup
      rw [List.lookup_cons, List.mem_cons, Prod.mk.injEq]
      by_cases same : name = key
      · subst same
        have absent : (name, value) ∉ members := fun member =>
          nodup.1 (List.mem_map.mpr ⟨_, member, rfl⟩)
        rw [beq_self_eq_true]
        simp [absent, eq_comm]
      · rw [beq_false_of_ne same]
        simp [same, inductionHypothesis nodup.2]

/-- The slot of a name that is asked for holds the value of the only member with this name. -/
theorem slot_of_objectSlots?
    (found : objectSlots? names members = some slots)
    (known : name ∈ names) :
    (∃ value, slots name = .given value ∧ (name, value) ∈ members ∧
        ∀ other, (name, other) ∈ members → other = value) ∨
      slots name = .unnamed ∧ name ∉ members.map Prod.fst := by
  unfold objectSlots? at found
  dsimp only at found
  split at found
  · rename_i nodup
    cases found
    have kept (value : Json) : (name, value) ∈ members ↔
        (members.filter fun member => names.contains member.1).lookup name = some value := by
      rw [lookup_eq_some_iff_mem nodup, List.mem_filter]
      simp [known]
    cases looked : (members.filter fun member => names.contains member.1).lookup name with
    | some value =>
        refine .inl ⟨value, by dsimp only; rw [looked], (kept value).mpr looked, ?_⟩
        intro other member
        rw [kept, looked] at member
        exact (Option.some.inj member).symm
    | none =>
        refine .inr ⟨by dsimp only; rw [looked], ?_⟩
        intro member
        obtain ⟨⟨_, value⟩, inside, rfl⟩ := List.mem_map.mp member
        rw [kept, looked] at inside
        cases inside
  · cases found

/-- The slot of a field holds the item at its place. -/
theorem slot_of_arraySlots?
    (found : arraySlots? names items = some slots)
    (nodup : names.Nodup)
    (place : Fin names.length) :
    slots (names.get place) =
      match items[(place : ℕ)]? with
      | some value => .given value
      | none => .cutOff := by
  unfold arraySlots? at found
  split at found
  · cases found
    have position : names.idxOf (names.get place) = place :=
      List.Nodup.idxOf_getElem nodup place place.isLt
    dsimp only
    cases looked : items[(place : ℕ)]? with
    | some value => rw [position, looked]
    | none => rw [position, looked]
  · cases found

theorem arraySlots?_isSome_iff :
    (arraySlots? names items).isSome = true ↔ items.length ≤ names.length := by
  unfold arraySlots?
  split
  · exact iff_of_true rfl ‹_›
  · exact iff_of_false nofun ‹_›

end Slots

/-! ## Records -/

/-- The fields of a record type, and what its records are made of. -/
structure Describes {β : Type} (format : Fields Json β) (fields : List (Field β)) : Prop where
  names : format.names = fields.map Field.name
  nodup : (fields.map Field.name).Nodup
  build {slots : String → Slot Json} {record : β} :
    format.build? slots = some record ↔
      ∀ field ∈ fields, field.fromSlot (slots field.name) = some (field.get record)
  complete (values : ∀ place, (fields.get place).Value) :
    ∃ record, ∀ place, (fields.get place).get record = values place

section Describes

variable {β : Type} {format : Fields Json β} {fields : List (Field β)} {field : Field β}
  {slots : String → Slot Json} {members : List (String × Json)} {items : List Json}

/-- If every field has a value, there is a record with these values. -/
theorem Describes.exists_build
    (describes : Describes format fields)
    (values : ∀ field ∈ fields, ∃ x, field.fromSlot (slots field.name) = some x) :
    ∃ record, format.build? slots = some record := by
  choose x equal using fun place => values _ (List.get_mem fields place)
  obtain ⟨record, gets⟩ := describes.complete x
  refine ⟨record, describes.build.mpr fun field member => ?_⟩
  obtain ⟨place, rfl⟩ := List.get_of_mem member
  rw [equal place, gets place]

/-- What a slot of an object says of a field is the value that the field has in the object. -/
theorem fromSlot_eq_some_iff_inObject
    (found : objectSlots? (fields.map Field.name) members = some slots)
    (member : field ∈ fields)
    {x : field.Value} :
    field.fromSlot (slots field.name) = some x ↔ field.InObject (withKeys members) x := by
  rcases slot_of_objectSlots? found (List.mem_map_of_mem member) with
    ⟨value, slot, given, only⟩ | ⟨slot, absent⟩
  · rw [← mem_withKeys] at given
    rw [slot]
    constructor
    · exact .given given
    · rintro (⟨other, read⟩ | ⟨absent, _⟩)
      · rwa [only _ (mem_withKeys.mp other)] at read
      · exact absurd (List.mem_map.mpr ⟨_, given, rfl⟩) absent
  · rw [← name_mem_withKeys] at absent
    rw [slot]
    constructor
    · exact .unnamed absent
    · rintro (⟨given, _⟩ | ⟨_, value⟩)
      · exact absurd (List.mem_map.mpr ⟨_, given, rfl⟩) absent
      · exact value

theorem fromSlot_eq_some_iff_inArray
    (found : arraySlots? (fields.map Field.name) items = some slots)
    (nodup : (fields.map Field.name).Nodup)
    (place : Fin fields.length)
    {x : (fields.get place).Value} :
    (fields.get place).fromSlot (slots (fields.get place).name) = some x ↔
      (fields.get place).InArray items place x := by
  have slot := slot_of_arraySlots? found nodup (place.cast (List.length_map _).symm)
  rw [List.get_eq_getElem, List.getElem_map] at slot
  change slots (fields.get place).name = match items[(place : ℕ)]? with
    | some value => .given value
    | none => .cutOff at slot
  rw [slot]
  cases looked : items[(place : ℕ)]? with
  | some value =>
      have inside := (List.getElem?_eq_some_iff.mp looked).1
      constructor
      · exact .given looked
      · rintro (⟨other, read⟩ | ⟨outside, _⟩)
        · rw [looked] at other
          cases other
          exact read
        · omega
  | none =>
      have outside := List.getElem?_eq_none_iff.mp looked
      constructor
      · exact .cutOff outside
      · rintro (⟨other, _⟩ | ⟨_, value⟩)
        · rw [looked] at other
          cases other
        · exact value

theorem decode?_eq_bind {text : String} {value : Json} (writes : Writes text value)
    (format : Fields Json β) :
    decode? format.read? text =
      (Source.slots? format.names value).bind format.build? := by
  rw [decode?, parse?_of_writes writes]
  rfl

theorem slots?_withKeys (names : List String) (members : List (String × Json)) :
    Source.slots? names (Json.object (withKeys members)) = objectSlots? names members := by
  change (named? (withKeys members)).bind (objectSlots? names) = _
  rw [named?_withKeys]
  rfl

/-- An object has no slots if a key has no characters. -/
theorem slots?_eq_none {members : List (Option String × Json)}
    (loneHalf : none ∈ members.map Prod.fst) (names : List String) :
    Source.slots? names (Json.object members) = none := by
  change (named? members).bind (objectSlots? names) = none
  cases known : named? members with
  | none => rfl
  | some named =>
      rw [named?_eq_some_iff] at known
      exact absurd loneHalf (none_notMem_iff.mpr ⟨named, known⟩)

theorem slots?_array (names : List String) (items : List Json) :
    Source.slots? names (.array items) = arraySlots? names items :=
  rfl

/-- A record is read from slots exactly if there are slots and every field has a value there. -/
theorem Describes.isSome_iff
    (describes : Describes format fields)
    (found : Option (String → Slot Json)) :
    (found.bind format.build?).isSome = true ↔
      ∃ slots, found = some slots ∧
        ∀ field ∈ fields, ∃ x, field.fromSlot (slots field.name) = some x := by
  constructor
  · intro succeeds
    obtain ⟨record, made⟩ := Option.isSome_iff_exists.mp succeeds
    obtain ⟨slots, rfl, built⟩ := Option.bind_eq_some_iff.mp made
    exact ⟨slots, rfl, fun field member => ⟨_, describes.build.mp built field member⟩⟩
  · rintro ⟨slots, rfl, values⟩
    obtain ⟨record, built⟩ := describes.exists_build values
    exact Option.isSome_iff_exists.mpr ⟨record, built⟩

/-- A record is read from named members exactly if no known name occurs twice and every field has
a value. -/
theorem Describes.isSome_objectSlots?_iff (describes : Describes format fields) :
    ((objectSlots? (fields.map Field.name) members).bind format.build?).isSome = true ↔
      ∀ field ∈ fields, (members.map Prod.fst).count field.name ≤ 1 ∧
        ∃ x, field.InObject (withKeys members) x := by
  rw [describes.isSome_iff]
  constructor
  · rintro ⟨slots, found, values⟩ field member
    have once := objectSlots?_isSome_iff.mp (Option.isSome_of_eq_some found)
    refine ⟨once _ (List.mem_map_of_mem member), ?_⟩
    obtain ⟨x, equal⟩ := values field member
    exact ⟨x, (fromSlot_eq_some_iff_inObject found member).mp equal⟩
  · intro all
    have once : ∀ name ∈ fields.map Field.name, (members.map Prod.fst).count name ≤ 1 := by
      intro name known
      obtain ⟨field, member, rfl⟩ := List.mem_map.mp known
      exact (all field member).1
    obtain ⟨slots, found⟩ := Option.isSome_iff_exists.mp (objectSlots?_isSome_iff.mpr once)
    refine ⟨slots, found, fun field member => ?_⟩
    obtain ⟨x, holds⟩ := (all field member).2
    exact ⟨x, (fromSlot_eq_some_iff_inObject found member).mpr holds⟩

/-- A record is read from items exactly if there are no more of them than fields and every field
has a value. -/
theorem Describes.isSome_arraySlots?_iff (describes : Describes format fields) :
    ((arraySlots? (fields.map Field.name) items).bind format.build?).isSome = true ↔
      items.length ≤ fields.length ∧ ∀ place, ∃ x, (fields.get place).InArray items place x := by
  rw [describes.isSome_iff]
  constructor
  · rintro ⟨slots, found, values⟩
    have short := arraySlots?_isSome_iff.mp (Option.isSome_of_eq_some found)
    rw [List.length_map] at short
    refine ⟨short, fun place => ?_⟩
    obtain ⟨x, equal⟩ := values _ (List.get_mem fields place)
    exact ⟨x, (fromSlot_eq_some_iff_inArray found describes.nodup place).mp equal⟩
  · rintro ⟨short, all⟩
    rw [← List.length_map (f := Field.name)] at short
    obtain ⟨slots, found⟩ := Option.isSome_iff_exists.mp (arraySlots?_isSome_iff.mpr short)
    refine ⟨slots, found, fun field member => ?_⟩
    obtain ⟨place, rfl⟩ := List.get_of_mem member
    obtain ⟨x, holds⟩ := all place
    exact ⟨x, (fromSlot_eq_some_iff_inArray found describes.nodup place).mpr holds⟩

/-- Records of a type are read by their fields. -/
theorem Describes.readsFields (describes : Describes format fields) :
    ReadsFields format.read? fields where
  object {text members} writes := by
    rw [decode?_eq_bind writes, describes.names]
    by_cases loneHalf : none ∈ members.map Prod.fst
    · rw [slots?_eq_none loneHalf]
      exact ⟨iff_of_false nofun fun all => all.1 loneHalf, nofun⟩
    · obtain ⟨named, rfl⟩ := none_notMem_iff.mp loneHalf
      rw [slots?_withKeys, describes.isSome_objectSlots?_iff]
      simp only [count_withKeys]
      refine ⟨(and_iff_right loneHalf).symm, ?_⟩
      intro record made field member
      obtain ⟨slots, found, built⟩ := Option.bind_eq_some_iff.mp made
      exact (fromSlot_eq_some_iff_inObject found member).mp
        (describes.build.mp built field member)
  array {text items} writes := by
    rw [decode?_eq_bind writes, slots?_array, describes.names]
    refine ⟨describes.isSome_arraySlots?_iff, ?_⟩
    intro record made place
    obtain ⟨slots, found, built⟩ := Option.bind_eq_some_iff.mp made
    exact (fromSlot_eq_some_iff_inArray found describes.nodup place).mp
      (describes.build.mp built _ (List.get_mem fields place))
  layouts {text} succeeds := by
    obtain ⟨record, made⟩ := Option.isSome_iff_exists.mp succeeds
    obtain ⟨value, parsed, read⟩ := Option.bind_eq_some_iff.mp made
    rw [parse?_eq_some_iff] at parsed
    cases value with
    | object members => exact .inl ⟨members, parsed⟩
    | array items => exact .inr ⟨items, parsed⟩
    | null | bool | number | string => cases read

end Describes

/-! ## The record types -/

section Build

variable {β γ δ : Type} {slots : String → Slot Json}

@[simp] theorem build?_map {f : γ → δ} {format : Fields Json γ} :
    (f <$> format).build? slots = (format.build? slots).map f :=
  rfl

@[simp] theorem build?_seq {first : Fields Json (γ → δ)} {second : Fields Json γ} :
    (first <*> second).build? slots =
      (first.build? slots).bind fun f => (second.build? slots).map f := by
  change (first.build? slots).bind (fun f => (second.build? slots).bind fun y => some (f y)) = _
  simp only [Option.map_eq_bind]
  rfl

@[simp] theorem build?_required (name : String) (read? : Json → Option γ) :
    (Fields.required name read?).build? slots = (slots name).value? read? none none := by
  unfold Fields.required Fields.single
  dsimp only
  cases slots name <;> rfl

@[simp] theorem build?_withDefault (name : String) (read? : Json → Option γ) (default : γ) :
    (Fields.withDefault name read? default).build? slots =
      (slots name).value? read? (some default) (some default) := by
  unfold Fields.withDefault Fields.single
  dsimp only
  cases slots name <;> rfl

@[simp] theorem build?_nullable (name : String) (read? : Json → Option γ) :
    (Fields.nullable name read?).build? slots =
      (slots name).value? (Field.optional? read?) (some none) none := by
  unfold Fields.nullable Fields.single
  dsimp only
  cases slots name with
  | unnamed | cutOff => rfl
  | given value => cases value <;> rfl

end Build

namespace Record

/-- The three shifts. -/
def shiftsFields : List (Field (Shifts (Complex Float))) :=
  [.required "e1" Shifts.first complex?,
    .required "e2" Shifts.second complex?,
    .required "e3" Shifts.third complex?]

theorem describes_shifts : Describes shifts shiftsFields where
  names := rfl
  nodup := by decide
  build {slots record} := by
    cases record
    simp [shifts, shiftsFields, Option.bind_eq_some_iff]
  complete values := by
    refine ⟨⟨values ⟨0, by decide⟩, values ⟨1, by decide⟩, values ⟨2, by decide⟩⟩, ?_⟩
    intro place
    fin_cases place <;> rfl

/-- The constants of both sides. -/
def constantsFields : List (Field (Constants (Complex Float))) :=
  [.required "al" Constants.left vector?,
    .required "ar" Constants.right vector?]

theorem describes_constants : Describes constants constantsFields where
  names := rfl
  nodup := by decide
  build {slots record} := by
    cases record
    simp [constants, constantsFields, Option.bind_eq_some_iff]
  complete values := by
    refine ⟨⟨values ⟨0, by decide⟩, values ⟨1, by decide⟩⟩, ?_⟩
    intro place
    fin_cases place <;> rfl

/-- Shifts and constants. -/
def configFields : List (Field (Config (Complex Float))) :=
  [.required "ex" Config.shifts shifts.read?,
    .required "ax" Config.constants constants.read?]

theorem describes_config : Describes config configFields where
  names := rfl
  nodup := by decide
  build {slots record} := by
    cases record
    simp [config, configFields, Option.bind_eq_some_iff]
  complete values := by
    refine ⟨⟨values ⟨0, by decide⟩, values ⟨1, by decide⟩⟩, ?_⟩
    intro place
    fin_cases place <;> rfl

/-- Settings, each of them as in the standard settings if it is absent. -/
def settingsFields : List (Field (Settings Float)) :=
  [.withDefault "max_steps" Settings.maxSteps Source.nat? Settings.standard.maxSteps,
    .withDefault "tolerance" Settings.tolerance Source.float? Settings.standard.tolerance,
    .withDefault "damping" Settings.damping Source.float? Settings.standard.damping,
    .withDefault "require_convergence" Settings.requireConvergence Source.bool?
      Settings.standard.requireConvergence]

theorem describes_settings : Describes settings settingsFields where
  names := rfl
  nodup := by decide
  build {slots record} := by
    cases record
    simp [-Bool.exists_bool, settings, settingsFields, Option.bind_eq_some_iff, and_assoc]
  complete values := by
    refine ⟨⟨values ⟨0, by decide⟩, values ⟨1, by decide⟩, values ⟨2, by decide⟩,
      values ⟨3, by decide⟩⟩, ?_⟩
    intro place
    fin_cases place <;> rfl

/-- A name and roots. -/
def seedFields : List (Field Seed) :=
  [.required "name" Seed.name Source.text?,
    .required "roots" Seed.roots vector?]

theorem describes_seed : Describes seed seedFields where
  names := rfl
  nodup := by decide
  build {slots record} := by
    cases record
    simp [seed, seedFields, Option.bind_eq_some_iff]
  complete values := by
    refine ⟨⟨values ⟨0, by decide⟩, values ⟨1, by decide⟩⟩, ?_⟩
    intro place
    fin_cases place <;> rfl

/-- Lists of values, and steps that may be absent. -/
def trajectoryFields : List (Field (Trajectory Float)) :=
  [.required "components" Trajectory.components (list? vector?),
    .withDefault "unconverged_steps" Trajectory.unconvergedSteps (list? Source.nat?) []]

theorem describes_trajectory : Describes trajectory trajectoryFields where
  names := rfl
  nodup := by decide
  build {slots record} := by
    cases record
    simp [trajectory, trajectoryFields, Option.bind_eq_some_iff]
  complete values := by
    refine ⟨⟨values ⟨0, by decide⟩, values ⟨1, by decide⟩⟩, ?_⟩
    intro place
    fin_cases place <;> rfl

/-- How far a path has been followed. -/
def progressFields : List (Field Progress) :=
  [.required "done" Progress.done Source.bool?,
    .required "current_step" Progress.currentStep Source.nat?,
    .required "total_steps" Progress.totalSteps Source.nat?]

theorem describes_progress : Describes progress progressFields where
  names := rfl
  nodup := by decide
  build {slots record} := by
    cases record
    simp [-Bool.exists_bool, progress, progressFields, Option.bind_eq_some_iff]
  complete values := by
    refine ⟨⟨values ⟨0, by decide⟩, values ⟨1, by decide⟩, values ⟨2, by decide⟩⟩, ?_⟩
    intro place
    fin_cases place <;> rfl

/-- A name, and what there is of a trajectory or an error. -/
def reportFields : List (Field Report) :=
  [.required "name" Report.name Source.text?,
    .nullable "trajectory" Report.trajectory trajectory.read?,
    .nullable "start" Report.start vector?,
    .nullable "end" Report.finish vector?,
    .nullable "error" Report.error Source.text?]

theorem describes_report : Describes report reportFields where
  names := rfl
  nodup := by decide
  build {slots record} := by
    cases record
    simp [report, reportFields, Option.bind_eq_some_iff, and_assoc]
  complete values := by
    refine ⟨⟨values ⟨0, by decide⟩, values ⟨1, by decide⟩, values ⟨2, by decide⟩,
      values ⟨3, by decide⟩, values ⟨4, by decide⟩⟩, ?_⟩
    intro place
    fin_cases place <;> rfl

/-- Every record type is read by its declared fields. Only the settings, the steps of a
trajectory and all of a report but its name may be absent from an object, and only the former
two from an array. -/
theorem records_are_read_by_their_fields :
    ReadsFields (shifts (V := Json)).read? shiftsFields ∧
      ReadsFields (constants (V := Json)).read? constantsFields ∧
      ReadsFields (config (V := Json)).read? configFields ∧
      ReadsFields (settings (V := Json)).read? settingsFields ∧
      ReadsFields (seed (V := Json)).read? seedFields ∧
      ReadsFields (trajectory (V := Json)).read? trajectoryFields ∧
      ReadsFields (progress (V := Json)).read? progressFields ∧
      ReadsFields (report (V := Json)).read? reportFields :=
  ⟨describes_shifts.readsFields, describes_constants.readsFields, describes_config.readsFields,
    describes_settings.readsFields, describes_seed.readsFields, describes_trajectory.readsFields,
    describes_progress.readsFields, describes_report.readsFields⟩

/-- An object whose only key is half of a surrogate pair. -/
def loneHalfText : String :=
  "\x7b\"\\ud800\":0\x7d"

/-- Its only member. -/
def loneHalfMembers : List (Option String × Json) :=
  [(none, .number ⟨false, 0, 0, true⟩)]

theorem parse?_loneHalfText : parse? loneHalfText = some (.object loneHalfMembers) := by
  have characters : loneHalfText.toList =
      ['{', '"', '\\', 'u', 'd', '8', '0', '0', '"', ':', '0', '}'] := by
    decide
  rw [parse?, characters]
  rfl

/-- A member that nobody asks for matters if its key is half of a surrogate pair: here all
settings have their values, but they are not read. -/
theorem settings_not_read_with_loneHalf :
    Writes loneHalfText (.object loneHalfMembers) ∧
      (∀ field ∈ settingsFields,
        (loneHalfMembers.map Prod.fst).count (some field.name) ≤ 1 ∧
          ∃ x, field.InObject loneHalfMembers x) ∧
      decode? (settings (V := Json)).read? loneHalfText = none := by
  refine ⟨parse?_eq_some_iff.mp parse?_loneHalfText, ?_, ?_⟩
  · intro field member
    simp only [settingsFields, List.mem_cons, List.not_mem_nil, or_false] at member
    rcases member with rfl | rfl | rfl | rfl
    all_goals exact ⟨Nat.zero_le 1, _, .unnamed (by simp [loneHalfMembers]) rfl⟩
  · rw [decode?, parse?_loneHalfText]
    rfl

end Record
end RootTrace
