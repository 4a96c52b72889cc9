import RootTrace.Proofs.Json.Numbers
import RootTrace.Proofs.Record.Layouts

/-!
# Values and the texts that write them

A value may be written in many ways: a record as an object with its members in any order or as
an array, a string with any escapes, and everything with blanks in between. Whatever is chosen,
the text is read as the value that was written, provided that all doubles are finite and all
natural numbers have 64 bits.
-/

namespace RootTrace

open Json

/-! ## Forms -/

/-- How the values of a type are written. -/
structure Form (β : Type) where
  /-- Whether a value can be written at all. -/
  Storable : β → Prop
  /-- Whether a value is written as the given one. -/
  WrittenAs : β → Json → Prop

/-- A member of records of a type. -/
structure Member (β : Type) where
  /-- Its name. -/
  name : String
  /-- The type of its values. -/
  Value : Type
  /-- Its value in a record. -/
  get : β → Value
  /-- How its value is written. -/
  form : Form Value

/-- The value of an object with the given members. -/
def Json.ofMembers (members : List (String × Json)) : Json :=
  .object (withKeys members)

namespace Form

variable {β : Type}

/-- Finite doubles, as numbers with exactly the same value and sign. -/
def float : Form Float where
  Storable x := Magnitude.isFinite x = true
  WrittenAs x json := ∃ numeral : Numeral, numeral.Exactly x ∧ json = .number numeral

/-- Natural numbers of 64 bits, as integers. -/
def nat : Form ℕ where
  Storable k := k < 2 ^ 64
  WrittenAs k json := json = .number ⟨false, k, 0, true⟩

/-- Truth values. -/
def bool : Form Bool where
  Storable _ := True
  WrittenAs b json := json = .bool b

/-- Strings of any characters. -/
def text : Form String where
  Storable _ := True
  WrittenAs s json := json = .string (some s)

/-- Complex numbers, as pairs of their parts. -/
def complex : Form (Complex Float) where
  Storable z := float.Storable z.re ∧ float.Storable z.im
  WrittenAs z json :=
    ∃ re im, float.WrittenAs z.re re ∧ float.WrittenAs z.im im ∧ json = .array [re, im]

/-- Lists of any length, as arrays. -/
def list (form : Form β) : Form (List β) where
  Storable xs := ∀ x ∈ xs, form.Storable x
  WrittenAs xs json := ∃ items, List.Forall₂ form.WrittenAs xs items ∧ json = .array items

/-- Values that may be missing, which is said by the absent value. -/
def option (form : Form β) : Form (Option β) where
  Storable x? := ∀ x ∈ x?, form.Storable x
  WrittenAs
    | none, json => json = .null
    | some x, json => form.WrittenAs x json

/-- Records, as arrays of the values of their members or as objects with these members in any
order. -/
def record (members : List (Member β)) : Form β where
  Storable x := ∀ member ∈ members, member.form.Storable (member.get x)
  WrittenAs x json :=
    ∃ values, List.Forall₂ (fun member => member.form.WrittenAs (member.get x)) members values ∧
      (json = .array values ∨
        ∃ entries, entries.Perm ((members.map Member.name).zip values) ∧
          json = ofMembers entries)

/-- Every value that can be stored is written by some text, and whichever text writes it is read
as this value. -/
structure Survives (form : Form β) (read? : Json → Option β) : Prop where
  writable {x : β} : form.Storable x → ∃ text json, Json.Writes text json ∧ form.WrittenAs x json
  restored {x : β} {text : String} {json : Json} :
    form.Storable x → Json.Writes text json → form.WrittenAs x json →
      decode? read? text = some x

end Form

/-! ## Writing -/

namespace Json

/-- Whether a value can be written. -/
def Writable (json : Json) : Prop :=
  ∃ text, Denotes (.value json) text

/-- No blanks need to stand around a value. -/
theorem Denotes.bare {json : Json} {text : List Char} (denotes : Denotes (.value json) text) :
    Denotes (.padded json) text := by
  have padded : Denotes (.padded json) ([] ++ (text ++ [])) :=
    .padded (List.forall_mem_nil _) denotes (List.forall_mem_nil _)
  rwa [List.append_nil] at padded

theorem Writable.exists_writes {json : Json} (writable : Writable json) :
    ∃ text, Writes text json := by
  obtain ⟨text, denotes⟩ := writable
  refine ⟨.ofList text, ?_⟩
  rw [Writes, String.toList_ofList]
  exact denotes.bare

theorem exists_isHex {digit : ℕ} (small : digit < 16) : ∃ c, IsHex digit c := by
  have inside : digit < hexChars.length := small
  exact ⟨_, _, _, List.getElem?_eq_getElem inside, .inl rfl⟩

/-- Every unit of 16 bits can be written by four digits. -/
theorem exists_isUnit16 {unit : ℕ} (small : unit < 2 ^ 16) : ∃ digits, IsUnit16 unit digits := by
  obtain ⟨w, a⟩ := exists_isHex (by omega : unit / 4096 < 16)
  obtain ⟨x, b⟩ := exists_isHex (by omega : unit / 256 % 16 < 16)
  obtain ⟨y, c⟩ := exists_isHex (by omega : unit / 16 % 16 < 16)
  obtain ⟨z, d⟩ := exists_isHex (by omega : unit % 16 < 16)
  refine ⟨[w, x, y, z], ?_⟩
  have whole : ((unit / 4096 * 16 + unit / 256 % 16) * 16 + unit / 16 % 16) * 16 + unit % 16 =
      unit := by
    omega
  rw [← whole]
  exact .digits a b c d

/-- Every character has an escape. -/
theorem exists_spelled (c : Char) : ∃ spelling, Spelled c spelling := by
  by_cases small : c.toNat < 2 ^ 16
  · obtain ⟨digits, unit⟩ := exists_isUnit16 small
    exact ⟨_, .unit unit⟩
  · have bound : c.toNat < 0x110000 := by
      rcases c.valid with low | ⟨_, high⟩
      · exact absurd (low.trans (by decide)) small
      · exact high
    obtain ⟨first, high⟩ := exists_isUnit16
      (by omega : 0xD800 + (c.toNat - 0x10000) / 0x400 < 2 ^ 16)
    obtain ⟨second, low⟩ := exists_isUnit16
      (by omega : 0xDC00 + (c.toNat - 0x10000) % 0x400 < 2 ^ 16)
    exact ⟨_, .pair (by omega) (by omega) (by omega) high low⟩

theorem exists_spelledAll (characters : List Char) : ∃ text, SpelledAll characters text := by
  induction characters with
  | nil => exact ⟨[], .nil⟩
  | cons c characters inductionHypothesis =>
      obtain ⟨spelling, spelled⟩ := exists_spelled c
      obtain ⟨text, rest⟩ := inductionHypothesis
      exact ⟨spelling ++ text, .cons spelled rest⟩

theorem writable_string (s : String) : Writable (.string (some s)) := by
  obtain ⟨text, spelled⟩ := exists_spelledAll s.toList
  exact ⟨_, .string (.characters spelled)⟩

theorem writable_bool : ∀ b : Bool, Writable (.bool b)
  | true => ⟨_, .true⟩
  | false => ⟨_, .false⟩

theorem exists_items {items : List Json}
    (nonempty : items ≠ [])
    (all : ∀ item ∈ items, Writable item) :
    ∃ text, Denotes (.items items) text := by
  induction items with
  | nil => exact absurd rfl nonempty
  | cons item items inductionHypothesis =>
      obtain ⟨⟨text, denotes⟩, others⟩ := List.forall_mem_cons.mp all
      cases items with
      | nil => exact ⟨_, .lastItem denotes.bare⟩
      | cons next items =>
          obtain ⟨rest, following⟩ := inductionHypothesis (List.cons_ne_nil _ _) others
          exact ⟨_, .item denotes.bare following⟩

/-- An array can be written if its items can. -/
theorem writable_array {items : List Json} (all : ∀ item ∈ items, Writable item) :
    Writable (.array items) := by
  by_cases empty : items = []
  · subst empty
    exact ⟨_, .noItems (List.forall_mem_nil _)⟩
  · obtain ⟨text, denotes⟩ := exists_items empty all
    exact ⟨_, .array denotes⟩

end Json

/-! ## Faithful forms -/

section Lists

variable {α γ : Type*} {R : α → γ → Prop} {P : γ → Prop} {xs : List α} {ys : List γ} {x : α}

theorem exists_forall₂ (each : ∀ x ∈ xs, ∃ y, P y ∧ R x y) :
    ∃ ys, (∀ y ∈ ys, P y) ∧ List.Forall₂ R xs ys := by
  induction xs with
  | nil => exact ⟨[], List.forall_mem_nil _, .nil⟩
  | cons x xs inductionHypothesis =>
      obtain ⟨⟨y, holds, related⟩, others⟩ := List.forall_mem_cons.mp each
      obtain ⟨ys, all, relateds⟩ := inductionHypothesis others
      exact ⟨y :: ys, List.forall_mem_cons.mpr ⟨holds, all⟩, .cons related relateds⟩

theorem exists_mem_zip (related : List.Forall₂ R xs ys) (member : x ∈ xs) :
    ∃ y, (x, y) ∈ xs.zip ys ∧ R x y := by
  rw [← List.map_fst_zip related.length_eq.le] at member
  obtain ⟨⟨_, y⟩, inside, rfl⟩ := List.mem_map.mp member
  exact ⟨y, inside, List.forall₂_zip related inside⟩

end Lists

/-- Every value that can be stored is written as one that has a text, and from whatever it is
written as it is read. -/
structure Form.Faithful {β : Type} (form : Form β) (read? : Json → Option β) : Prop where
  writable {x : β} : form.Storable x → ∃ json, Writable json ∧ form.WrittenAs x json
  read {x : β} {json : Json} : form.Storable x → form.WrittenAs x json → read? json = some x

namespace Form

variable {β : Type} {form : Form β} {read? : Json → Option β}

/-- What is written faithfully survives its text, because a text is read as the value that it
denotes. -/
theorem Faithful.survives (faithful : form.Faithful read?) : form.Survives read? where
  writable storable := by
    obtain ⟨json, writable, written⟩ := faithful.writable storable
    obtain ⟨text, writes⟩ := writable.exists_writes
    exact ⟨text, json, writes, written⟩
  restored storable writes written := by
    rw [decode?, parse?_of_writes writes]
    exact faithful.read storable written

theorem faithful_float : float.Faithful Source.float? where
  writable finite := by
    obtain ⟨literal, exactly⟩ := exists_literal_exactly finite
    exact ⟨_, ⟨_, .number literal⟩, _, exactly, rfl⟩
  read := by
    rintro x _ _ ⟨numeral, exactly, rfl⟩
    exact exactly.toFloat?_eq

theorem faithful_nat : nat.Faithful Source.nat? where
  writable {k} _ := by
    refine ⟨_, ⟨_, .number (literalOf false k none)⟩, ?_⟩
    rw [numeral_literalOf]
    rfl
  read := by
    rintro k _ small rfl
    have fits : decide (k < 18446744073709551616) = true := decide_eq_true small
    exact if_pos fits

theorem faithful_bool : bool.Faithful Source.bool? where
  writable {b} _ := ⟨_, writable_bool b, rfl⟩
  read := by
    rintro b _ _ rfl
    rfl

theorem faithful_text : text.Faithful Source.text? where
  writable {s} _ := ⟨_, writable_string s, rfl⟩
  read := by
    rintro s _ _ rfl
    rfl

/-- A complex number is written as the pair of its parts, and read from it. -/
theorem faithful_complex : complex.Faithful Record.complex? where
  writable := by
    rintro z ⟨finiteRe, finiteIm⟩
    obtain ⟨re, writableRe, writtenRe⟩ := faithful_float.writable finiteRe
    obtain ⟨im, writableIm, writtenIm⟩ := faithful_float.writable finiteIm
    refine ⟨.array [re, im], writable_array ?_, re, im, writtenRe, writtenIm, rfl⟩
    simp [writableRe, writableIm]
  read := by
    rintro z _ ⟨finiteRe, finiteIm⟩ ⟨re, im, writtenRe, writtenIm, rfl⟩
    change (Source.float? re).bind
      (fun x => (Source.float? im).bind fun y => some (Complex.mk x y)) = _
    rw [faithful_float.read finiteRe writtenRe, faithful_float.read finiteIm writtenIm]
    rfl

theorem Faithful.list (faithful : form.Faithful read?) :
    form.list.Faithful (Record.list? read?) where
  writable storable := by
    obtain ⟨items, writables, writtens⟩ :=
      exists_forall₂ fun x member => faithful.writable (storable x member)
    exact ⟨.array items, writable_array writables, items, writtens, rfl⟩
  read := by
    rintro xs _ storable ⟨items, written, rfl⟩
    change items.mapM read? = some xs
    induction written with
    | nil => rfl
    | cons written _ inductionHypothesis =>
        obtain ⟨first, others⟩ := List.forall_mem_cons.mp storable
        rw [List.mapM_cons, faithful.read first written, inductionHypothesis others]
        rfl

/-- Nothing but the lack of a value may be written as the absent value. -/
theorem Faithful.option (faithful : form.Faithful read?) (visible : read? .null = none) :
    form.option.Faithful (Field.optional? read?) where
  writable := by
    rintro (_ | x) storable
    · exact ⟨.null, ⟨_, .null⟩, rfl⟩
    · exact faithful.writable (storable x rfl)
  read := by
    rintro (_ | x) json storable written
    · subst written
      rfl
    · have read := faithful.read (storable x rfl) written
      cases json with
      | null =>
          rw [visible] at read
          cases read
      | bool | number | string | array | object =>
          exact congrArg (Option.map some) read

end Form

/-! ## Records -/

/-- A member and the field that it is read by. -/
inductive Member.ReadBy {β : Type} : Member β → Field β → Prop where
  | intro {name : String} {γ : Type} {get : β → γ} {form : Form γ} {read? : Json → Option γ}
      {unnamed cutOff : Option γ} :
      form.Faithful read? →
      ReadBy ⟨name, γ, get, form⟩ ⟨name, γ, get, read?, unnamed, cutOff⟩

section Records

variable {β : Type} {members : List (Member β)} {fields : List (Field β)}
  {format : Fields Json β} {x : β} {values : List Json}

theorem map_name_eq (readBy : List.Forall₂ Member.ReadBy members fields) :
    members.map Member.name = fields.map Field.name := by
  induction readBy with
  | nil => rfl
  | cons first _ inductionHypothesis =>
      cases first
      rw [List.map_cons, List.map_cons, inductionHypothesis]

/-- The values that are written for the members are read as the fields of the record. -/
theorem read_values
    (readBy : List.Forall₂ Member.ReadBy members fields)
    (storable : (Form.record members).Storable x)
    (written : List.Forall₂ (fun member => member.form.WrittenAs (member.get x)) members values) :
    List.Forall₂ (fun field value => field.read? value = some (field.get x)) fields values := by
  induction readBy generalizing values with
  | nil =>
      cases written
      exact .nil
  | cons first _ inductionHypothesis =>
      cases written with
      | cons head tail =>
          refine .cons ?_ (inductionHypothesis
            (fun member inside => storable member (List.mem_cons_of_mem _ inside)) tail)
          cases first with
          | intro faithful => exact faithful.read (storable _ List.mem_cons_self) head

/-- A record is read from an object in which every field has its value. -/
theorem Describes.read?_ofMembers
    (describes : Describes format fields)
    {entries : List (String × Json)}
    (once : (entries.map Prod.fst).Nodup)
    (all : ∀ field ∈ fields, field.InObject (withKeys entries) (field.get x)) :
    format.read? (ofMembers entries) = some x := by
  obtain ⟨slots, found⟩ := Option.isSome_iff_exists.mp
    (objectSlots?_isSome_iff.mpr fun name (_ : name ∈ fields.map Field.name) =>
      List.nodup_iff_count_le_one.mp once name)
  change (Source.slots? format.names (ofMembers entries)).bind format.build? = some x
  rw [ofMembers, slots?_withKeys, describes.names, found]
  exact describes.build.mpr fun field member =>
    (fromSlot_eq_some_iff_inObject found member).mpr (all field member)

/-- A record is read from an array in which every field has its value. -/
theorem Describes.read?_array
    (describes : Describes format fields)
    (short : values.length ≤ fields.length)
    (all : ∀ place, (fields.get place).InArray values place ((fields.get place).get x)) :
    format.read? (.array values) = some x := by
  rw [← List.length_map (f := Field.name)] at short
  obtain ⟨slots, found⟩ := Option.isSome_iff_exists.mp (arraySlots?_isSome_iff.mpr short)
  change (Source.slots? format.names (.array values)).bind format.build? = some x
  rw [slots?_array, describes.names, found]
  refine describes.build.mpr fun field member => ?_
  obtain ⟨place, rfl⟩ := List.get_of_mem member
  exact (fromSlot_eq_some_iff_inArray found describes.nodup place).mpr (all place)

/-- Records are written faithfully if their members are. As an array they have a value at every
place, and as an object one under every name, whatever the order. -/
theorem Form.faithful_record
    (describes : Describes format fields)
    (readBy : List.Forall₂ Member.ReadBy members fields) :
    (Form.record members).Faithful format.read? where
  writable {x} storable := by
    have each : ∀ member ∈ members, ∃ value, Writable value ∧
        member.form.WrittenAs (member.get x) value := by
      intro member inside
      obtain ⟨field, _, ⟨faithful⟩⟩ := exists_mem_zip readBy inside
      exact faithful.writable (storable _ inside)
    obtain ⟨values, writables, writtens⟩ := exists_forall₂ each
    exact ⟨.array values, writable_array writables, values, writtens, .inl rfl⟩
  read := by
    rintro x _ storable ⟨values, written, layout⟩
    have read := read_values readBy storable written
    rcases layout with rfl | ⟨entries, order, rfl⟩
    · refine describes.read?_array read.length_eq.ge fun place => ?_
      have inside : (place : ℕ) < values.length := read.length_eq ▸ place.isLt
      exact .given (List.getElem?_eq_getElem inside) (read.get place.isLt inside)
    · have named : (entries.map Prod.fst).Perm (fields.map Field.name) := by
        have names := order.map Prod.fst
        rwa [map_name_eq readBy, List.map_fst_zip] at names
        rw [List.length_map, read.length_eq]
      refine describes.read?_ofMembers (named.nodup_iff.mpr describes.nodup) ?_
      intro field member
      obtain ⟨value, inside, reads⟩ := exists_mem_zip read member
      refine .given (mem_withKeys.mpr (order.mem_iff.mpr ?_)) reads
      rw [map_name_eq readBy, List.zip_map_left]
      exact List.mem_map_of_mem inside

end Records

/-! ## The record types -/

namespace Record

/-- The three shifts. -/
def shiftsForm : Form (Shifts (Complex Float)) :=
  .record [⟨"e1", _, Shifts.first, .complex⟩,
    ⟨"e2", _, Shifts.second, .complex⟩,
    ⟨"e3", _, Shifts.third, .complex⟩]

theorem faithful_shifts : shiftsForm.Faithful shifts.read? :=
  Form.faithful_record describes_shifts
    (.cons ⟨Form.faithful_complex⟩ (.cons ⟨Form.faithful_complex⟩
      (.cons ⟨Form.faithful_complex⟩ .nil)))

/-- The constants of both sides. -/
def constantsForm : Form (Constants (Complex Float)) :=
  .record [⟨"al", _, Constants.left, .list .complex⟩,
    ⟨"ar", _, Constants.right, .list .complex⟩]

theorem faithful_constants : constantsForm.Faithful constants.read? :=
  Form.faithful_record describes_constants
    (.cons ⟨Form.faithful_complex.list⟩ (.cons ⟨Form.faithful_complex.list⟩ .nil))

/-- Shifts and constants. -/
def configForm : Form (Config (Complex Float)) :=
  .record [⟨"ex", _, Config.shifts, shiftsForm⟩,
    ⟨"ax", _, Config.constants, constantsForm⟩]

theorem faithful_config : configForm.Faithful config.read? :=
  Form.faithful_record describes_config
    (.cons ⟨faithful_shifts⟩ (.cons ⟨faithful_constants⟩ .nil))

/-- Settings with all of their members. -/
def settingsForm : Form (Settings Float) :=
  .record [⟨"max_steps", _, Settings.maxSteps, .nat⟩,
    ⟨"tolerance", _, Settings.tolerance, .float⟩,
    ⟨"damping", _, Settings.damping, .float⟩,
    ⟨"require_convergence", _, Settings.requireConvergence, .bool⟩]

theorem faithful_settings : settingsForm.Faithful settings.read? :=
  Form.faithful_record describes_settings
    (.cons ⟨Form.faithful_nat⟩ (.cons ⟨Form.faithful_float⟩ (.cons ⟨Form.faithful_float⟩
      (.cons ⟨Form.faithful_bool⟩ .nil))))

/-- A name and roots. -/
def seedForm : Form Seed :=
  .record [⟨"name", _, Seed.name, .text⟩,
    ⟨"roots", _, Seed.roots, .list .complex⟩]

theorem faithful_seed : seedForm.Faithful seed.read? :=
  Form.faithful_record describes_seed
    (.cons ⟨Form.faithful_text⟩ (.cons ⟨Form.faithful_complex.list⟩ .nil))

/-- Lists of values, of the same length or not, and steps. -/
def trajectoryForm : Form (Trajectory Float) :=
  .record [⟨"components", _, Trajectory.components, .list (.list .complex)⟩,
    ⟨"unconverged_steps", _, Trajectory.unconvergedSteps, .list .nat⟩]

theorem faithful_trajectory : trajectoryForm.Faithful trajectory.read? :=
  Form.faithful_record describes_trajectory
    (.cons ⟨Form.faithful_complex.list.list⟩ (.cons ⟨Form.faithful_nat.list⟩ .nil))

/-- How far a path has been followed. -/
def progressForm : Form Progress :=
  .record [⟨"done", _, Progress.done, .bool⟩,
    ⟨"current_step", _, Progress.currentStep, .nat⟩,
    ⟨"total_steps", _, Progress.totalSteps, .nat⟩]

theorem faithful_progress : progressForm.Faithful progress.read? :=
  Form.faithful_record describes_progress
    (.cons ⟨Form.faithful_bool⟩ (.cons ⟨Form.faithful_nat⟩ (.cons ⟨Form.faithful_nat⟩ .nil)))

/-- A name, and what there is of a trajectory or an error. -/
def reportForm : Form Report :=
  .record [⟨"name", _, Report.name, .text⟩,
    ⟨"trajectory", _, Report.trajectory, .option trajectoryForm⟩,
    ⟨"start", _, Report.start, .option (.list .complex)⟩,
    ⟨"end", _, Report.finish, .option (.list .complex)⟩,
    ⟨"error", _, Report.error, .option .text⟩]

theorem faithful_report : reportForm.Faithful report.read? :=
  Form.faithful_record describes_report
    (.cons ⟨Form.faithful_text⟩ (.cons ⟨faithful_trajectory.option rfl⟩
      (.cons ⟨Form.faithful_complex.list.option rfl⟩
        (.cons ⟨Form.faithful_complex.list.option rfl⟩
          (.cons ⟨Form.faithful_text.option rfl⟩ .nil)))))

/-- Every value of every type that is stored or exchanged survives its text, if its doubles are
finite and its natural numbers have 64 bits. -/
theorem values_survive_their_text :
    Form.complex.Survives complex? ∧
      shiftsForm.Survives shifts.read? ∧
      constantsForm.Survives constants.read? ∧
      configForm.Survives config.read? ∧
      settingsForm.Survives settings.read? ∧
      seedForm.Survives seed.read? ∧
      trajectoryForm.Survives trajectory.read? ∧
      progressForm.Survives progress.read? ∧
      reportForm.Survives report.read? :=
  ⟨Form.faithful_complex.survives, faithful_shifts.survives, faithful_constants.survives,
    faithful_config.survives, faithful_settings.survives, faithful_seed.survives,
    faithful_trajectory.survives, faithful_progress.survives, faithful_report.survives⟩

end Record

end RootTrace
