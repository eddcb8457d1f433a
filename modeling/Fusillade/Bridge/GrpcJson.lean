import Fusillade.Bridge.Protobuf

/-! The conversion of a script's JSON to a gRPC message, beside the canonical JSON in which
messages go back to the script. The base64 of the `bytes` fields is a parameter. -/
namespace Fusillade.Bridge.Grpc

open Stats Protobuf

structure TypeError where
  message : String
  deriving DecidableEq

def expect {α : Type} (value : Option α) (message : String) : Except TypeError α :=
  match value with
  | some value => .ok value
  | none => .error ⟨message⟩

/-- `Value::as_i64`: text and floating numbers are no integers. -/
def asI64 : Json → Option Int64
  | .int value => if -2^63 ≤ value ∧ value < 2^63 then some (.ofInt value) else none
  | _ => none

def asU64 : Json → Option UInt64
  | .int value => if 0 ≤ value ∧ value < 2^64 then some (.ofNat value.toNat) else none
  | _ => none

def asF64 : Json → Option F64
  | .int value => (Binary64.round value).map .finite
  | .float value => some (.finite value)
  | _ => none

def asBool : Json → Option Bool
  | .bool value => some value
  | _ => none

def asStr : Json → Option String
  | .str value => some value
  | _ => none

/-- `as f32`: the nearest binary32. -/
def asF32 : F64 → F64
  | .finite value =>
    let spacing : ℚ := 2 ^ max (Int.log 2 |value| - 23) (-149)
    let rounded := Binary64.halfEven (value / spacing) * spacing
    if |rounded| < 2^128 then .finite rounded else .infinite (value < 0)
  | value => value

/-- `as i32` and `as u32` keep the low bits. -/
def toI32 (value : Int64) : Int32 := value.toInt32
def toU32 (value : UInt64) : UInt32 := value.toUInt32

/-- A string by its name, or else a number. -/
def enumToProst (desc : EnumDescriptor) (json : Json) : Except TypeError Value :=
  match asStr json with
  | some name => (expect (desc.getValueByName name) "Unknown enum value").map .enumNumber
  | none =>
    match asI64 json with
    | some number => .ok (.enumNumber (toI32 number))
    | none => .error ⟨"Expected enum string or number"⟩

def bytesToProst (base64 : Base64.Codec) (json : Json) : Except TypeError Value :=
  match asStr json with
  | none => .error ⟨"Expected base64 string for bytes"⟩
  | some text => (expect (base64.decode text.toList) "Invalid base64 encoding").map .bytes

/-- The arms of `json_scalar_to_prost` without nested messages. -/
def plainToProst (base64 : Base64.Codec) (json : Json) : Kind → Except TypeError Value
  | .double => (expect (asF64 json) "Expected double").map .f64
  | .float => (expect (asF64 json) "Expected float").map fun f => .f32 (asF32 f)
  | .int32 | .sint32 | .sfixed32 => (expect (asI64 json) "Expected int32").map fun i => .i32 (toI32 i)
  | .int64 | .sint64 | .sfixed64 => (expect (asI64 json) "Expected int64").map .i64
  | .uint32 | .fixed32 => (expect (asU64 json) "Expected uint32").map fun i => .u32 (toU32 i)
  | .uint64 | .fixed64 => (expect (asU64 json) "Expected uint64").map .u64
  | .bool => (expect (asBool json) "Expected bool").map .bool
  | .string => (expect (asStr json) "Expected string").map .string
  | .bytes => bytesToProst base64 json
  | .enum desc => enumToProst desc json
  | .message _ => .error ⟨"Expected JSON object for message"⟩

def mapKey : Value → Option MapKey
  | .string key => some (.string key)
  | .i32 key => some (.i32 key)
  | .i64 key => some (.i64 key)
  | .u32 key => some (.u32 key)
  | .u64 key => some (.u64 key)
  | .bool key => some (.bool key)
  | _ => none

section

variable (base64 : Base64.Codec) (pool : DescriptorPool)

mutual

def jsonToDynamicMessage (name : String) (json : Json) : Except TypeError (List (Nat × Value)) :=
  match json with
  | .obj map => setFields (pool name) map []
  | _ => .error ⟨"Expected JSON object for message"⟩
  termination_by (sizeOf json,0)

/-- The loop over the members of an object: names of no field are passed over. -/
def setFields (desc : MessageDescriptor) (map : List (String × Json)) (fields : List (Nat × Value)) :
    Except TypeError (List (Nat × Value)) :=
  match map with
  | [] => .ok fields
  | (key,val) :: rest =>
    match desc.getFieldByName key with
    | none => setFields desc rest fields
    | some field =>
      match jsonValToProst val field with
      | .error error => .error error
      | .ok value => setFields desc rest (desc.setField field value fields)
  termination_by (sizeOf map,0)

def jsonValToProst (json : Json) (field : FieldDescriptor) : Except TypeError Value :=
  match field.shape with
  | .list =>
    match json with
    | .arr items => (convertItems items field.kind).map .list
    | _ => .error ⟨"Expected array for repeated field"⟩
  | .map keyKind =>
    match json with
    | .obj entries => (convertEntries entries keyKind field.kind []).map .map
    | _ => .error ⟨"Expected object for map field"⟩
  | .optional => jsonScalarToProst json field.kind
  termination_by (sizeOf json,2)

def jsonScalarToProst (json : Json) (kind : Kind) : Except TypeError Value :=
  match kind with
  | .message name => (jsonToDynamicMessage name json).map (.message name)
  | kind => plainToProst base64 json kind
  termination_by (sizeOf json,1)

def convertItems (items : List Json) (kind : Kind) : Except TypeError (List Value) :=
  match items with
  | [] => .ok []
  | item :: rest =>
    match jsonScalarToProst item kind with
    | .error error => .error error
    | .ok value => (convertItems rest kind).map (value :: ·)
  termination_by (sizeOf items,0)

/-- The loop over a map: the name goes through the same conversion as a JSON string. -/
def convertEntries (entries : List (String × Json)) (keyKind kind : Kind)
    (map : List (MapKey × Value)) : Except TypeError (List (MapKey × Value)) :=
  match entries with
  | [] => .ok map
  | (k,v) :: rest =>
    match jsonScalarToProst (.str k) keyKind with
    | .error error => .error error
    | .ok key =>
      match jsonScalarToProst v kind with
      | .error error => .error error
      | .ok value =>
        let map := match mapKey key with
          | some key => SortedEntries.insert key value map
          | none => map
        convertEntries rest keyKind kind map
  termination_by (sizeOf entries,0)

end

end

variable {base64 : Base64.Codec} {pool : DescriptorPool}

def jsonNumber : Json → Option ℚ
  | .int value => some value
  | .float value => some value
  | _ => none

def valueNumber : Value → Option ℚ
  | .i32 value | .enumNumber value => some value.toInt
  | .i64 value => some value.toInt
  | .u32 value => some value.toNat
  | .u64 value => some value.toNat
  | _ => none

def isInteger : Kind → Bool
  | .int32 | .sint32 | .sfixed32 | .int64 | .sint64 | .sfixed64 => true
  | .uint32 | .fixed32 | .uint64 | .fixed64 | .enum _ => true
  | _ => false

def isEnum : Kind → Bool
  | .enum _ => true
  | _ => false

/-- The number is read as 64 bits and does not fit the 32 that are kept. -/
def Wraps : Kind → Int → Prop
  | .int32, i | .sint32, i | .sfixed32, i | .enum _, i =>
    -2^63 ≤ i ∧ i < -2^31 ∨ 2^31 ≤ i ∧ i < 2^63
  | .uint32, i | .fixed32, i => 2^32 ≤ i ∧ i < 2^64
  | _, _ => False

/-- A number is converted to itself, or rejected. -/
def Exact (base64 : Base64.Codec) (pool : DescriptorPool) (kind : Kind) (json : Json) : Prop :=
  ∀ number value, jsonNumber json = some number → jsonScalarToProst base64 pool json kind = .ok value →
    valueNumber value = some number

theorem scalar_plain {kind : Kind} (plain : ∀ name, kind ≠ .message name) (json : Json) :
    jsonScalarToProst base64 pool json kind = plainToProst base64 json kind := by
  rw [jsonScalarToProst]
  exact plain

theorem toI32_ofInt {i : Int} (low : -2^63 ≤ i) (high : i < 2^63) :
    (toI32 (.ofInt i)).toInt = i ↔ -2^31 ≤ i ∧ i < 2^31 := by
  constructor
  · intro same
    exact same ▸ ⟨Int32.le_toInt _,Int32.toInt_lt _⟩
  · rintro ⟨below,above⟩
    rw [toI32,Int64.toInt_toInt32,Int64.toInt_ofInt_of_le low high]
    exact Int.bmod_eq_of_le_mul_two (by omega) (by omega)

theorem toU32_ofNat {n : Nat} (high : n < 2^64) : (toU32 (.ofNat n)).toNat = n ↔ n < 2^32 := by
  rw [toU32,UInt64.toNat_toUInt32,UInt64.toNat_ofNat_of_lt' high]
  exact Nat.mod_eq_iff_lt (by decide)

section

variable {kind : Kind} {i : Int} {message : String}

theorem asI64_eq_some {n : Int64} :
    asI64 (.int i) = some n ↔ (-2^63 ≤ i ∧ i < 2^63) ∧ .ofInt i = n := by
  rw [asI64,Option.ite_none_right_eq_some,Option.some_inj]

theorem asU64_eq_some {n : UInt64} :
    asU64 (.int i) = some n ↔ (0 ≤ i ∧ i < 2^64) ∧ .ofNat i.toNat = n := by
  rw [asU64,Option.ite_none_right_eq_some,Option.some_inj]

theorem exact_read {α : Type} {read : Option α} {make : α → Value}
    (converts : jsonScalarToProst base64 pool (.int i) kind = (expect read message).map make) :
    Exact base64 pool kind (.int i) ↔ ∀ n, read = some n → valueNumber (make n) = some (i : ℚ) := by
  unfold Exact
  rw [converts]
  cases read with
  | none => exact iff_of_true (fun _ _ _ converted => by cases converted) (fun _ found => by cases found)
  | some n =>
    constructor
    · intro exact other found
      obtain rfl := Option.some.inj found
      exact exact _ _ rfl rfl
    · intro exact number value same converted
      obtain rfl := Option.some.inj same
      obtain rfl := Except.ok.inj converted
      exact exact n rfl

theorem exact_i32 {make : Int64 → Value}
    (converts : jsonScalarToProst base64 pool (.int i) kind = (expect (asI64 (.int i)) message).map make)
    (keeps : ∀ n, valueNumber (make n) = some ((toI32 n).toInt : ℚ)) :
    Exact base64 pool kind (.int i) ↔ ¬Wraps .int32 i := by
  rw [exact_read converts]
  have number (inside : -2^63 ≤ i ∧ i < 2^63) :
      valueNumber (make (.ofInt i)) = some (i : ℚ) ↔ -2^31 ≤ i ∧ i < 2^31 := by
    rw [keeps,Option.some_inj,Int.cast_inj,toI32_ofInt inside.1 inside.2]
  simp only [asI64_eq_some,Wraps]
  constructor
  · intro exact wraps
    have inside : -2^63 ≤ i ∧ i < 2^63 := by omega
    have := (number inside).mp (exact _ ⟨inside,rfl⟩)
    omega
  · rintro fits _ ⟨inside,rfl⟩
    apply (number inside).mpr
    omega

theorem exact_u32 {make : UInt64 → Value}
    (converts : jsonScalarToProst base64 pool (.int i) kind = (expect (asU64 (.int i)) message).map make)
    (keeps : ∀ n, valueNumber (make n) = some ((toU32 n).toNat : ℚ)) :
    Exact base64 pool kind (.int i) ↔ ¬Wraps .uint32 i := by
  rw [exact_read converts]
  have number (inside : 0 ≤ i ∧ i < 2^64) :
      valueNumber (make (.ofNat i.toNat)) = some (i : ℚ) ↔ i < 2^32 := by
    have cast : (i : ℚ) = ((i.toNat : Nat) : ℚ) := by
      rw [← Int.cast_natCast,Int.toNat_of_nonneg inside.1]
    rw [keeps,cast,Option.some_inj,Nat.cast_inj,toU32_ofNat (by omega)]
    omega
  simp only [asU64_eq_some,Wraps]
  constructor
  · intro exact wraps
    have inside : 0 ≤ i ∧ i < 2^64 := by omega
    have := (number inside).mp (exact _ ⟨inside,rfl⟩)
    omega
  · rintro fits _ ⟨inside,rfl⟩
    apply (number inside).mpr
    omega

theorem exact_i64 (converts : jsonScalarToProst base64 pool (.int i) kind =
      (expect (asI64 (.int i)) message).map .i64) : Exact base64 pool kind (.int i) := by
  apply (exact_read converts).mpr
  intro n read
  obtain ⟨⟨low,high⟩,rfl⟩ := asI64_eq_some.mp read
  rw [valueNumber,Int64.toInt_ofInt_of_le low high]

theorem exact_u64 (converts : jsonScalarToProst base64 pool (.int i) kind =
      (expect (asU64 (.int i)) message).map .u64) : Exact base64 pool kind (.int i) := by
  apply (exact_read converts).mpr
  intro n read
  obtain ⟨⟨low,high⟩,rfl⟩ := asU64_eq_some.mp read
  have small : i.toNat < 2^64 := by omega
  rw [valueNumber,UInt64.toNat_ofNat_of_lt' small,← Int.cast_natCast,Int.toNat_of_nonneg low]

end

theorem enumToProst_int (desc : EnumDescriptor) (i : Int) :
    enumToProst desc (.int i) = (expect (asI64 (.int i)) "Expected enum string or number").map
      fun number => .enumNumber (toI32 number) := by
  unfold enumToProst expect
  cases asI64 (.int i) <;> rfl

/-- Floating numbers are rejected for every integer kind. -/
theorem float_rejected (base64 : Base64.Codec) (pool : DescriptorPool) {kind : Kind} (integer : isInteger kind = true) (number : ℚ) :
    ∃ error, jsonScalarToProst base64 pool (.float number) kind = .error error := by
  rw [scalar_plain (by rintro name rfl; cases integer)]
  cases kind with
  | double | float | bool | string | bytes | message => cases integer
  | _ => exact ⟨_,rfl⟩

/-- The name of a map member is never taken for a number. -/
theorem key_rejected {kind : Kind} (integer : isInteger kind = true) (number : isEnum kind = false)
    (text : String) : ∃ error, jsonScalarToProst base64 pool (.str text) kind = .error error := by
  rw [scalar_plain (by rintro name rfl; cases integer)]
  cases kind with
  | double | float | bool | string | bytes | message => cases integer
  | enum => cases number
  | _ => exact ⟨_,rfl⟩

theorem exact_int_iff {kind : Kind} (integer : isInteger kind = true) (i : Int) :
    Exact base64 pool kind (.int i) ↔ ¬Wraps kind i := by
  have plain : jsonScalarToProst base64 pool (.int i) kind = plainToProst base64 (.int i) kind :=
    scalar_plain (by rintro name rfl; cases integer) (.int i)
  cases kind with
  | double | float | bool | string | bytes | message => cases integer
  | int32 | sint32 | sfixed32 => exact exact_i32 plain fun _ => rfl
  | uint32 | fixed32 => exact exact_u32 plain fun _ => rfl
  | int64 | sint64 | sfixed64 => exact iff_of_true (exact_i64 plain) id
  | uint64 | fixed64 => exact iff_of_true (exact_u64 plain) id
  | enum desc => exact exact_i32 (plain.trans (enumToProst_int desc i)) fun _ => rfl

/-- A JSON number for an integer field is kept or rejected exactly when it is not one that a
32-bit cast wraps; as the name of a map member it is always rejected. -/
theorem integer_exact_iff (base64 : Base64.Codec) (pool : DescriptorPool) (kind : { kind // isInteger kind = true })
    (json : Json) :
    (Exact base64 pool kind json ↔ ∀ i, json = .int i → ¬Wraps kind i) ∧
      (isEnum kind = false →
        ∀ text, ∃ error, jsonScalarToProst base64 pool (.str text) kind = .error error) := by
  obtain ⟨kind,integer⟩ := kind
  refine ⟨?_,key_rejected integer⟩
  cases json with
  | int i => simpa using exact_int_iff integer i
  | float number =>
    refine iff_of_true ?_ (fun _ same => by cases same)
    intro _ value _ converted
    obtain ⟨error,rejected⟩ := float_rejected base64 pool integer number
    cases rejected.symm.trans converted
  | _ => exact iff_of_true (fun _ _ number => by cases number) (fun _ same => by cases same)

def emptyPool : DescriptorPool := fun _ => ⟨[],List.nodup_nil,List.nodup_nil,List.nodup_nil⟩

def unnamed : EnumDescriptor := ⟨[],List.nodup_nil⟩

/-- One past the largest number of the field, which a request then carries as another one. -/
theorem number_wrapped :
    jsonScalarToProst Base64.standard emptyPool (.int 2147483648) .int32 = .ok (.i32 (-2147483648)) ∧
    jsonScalarToProst Base64.standard emptyPool (.int 4294967296) .uint32 = .ok (.u32 0) ∧
    jsonScalarToProst Base64.standard emptyPool (.int 4294967297) (.enum unnamed) = .ok (.enumNumber 1) := by
  refine ⟨?_,?_,?_⟩
  · rw [scalar_plain (by simp)]
    rfl
  · rw [scalar_plain (by simp)]
    rfl
  · rw [scalar_plain (by simp)]
    rfl

end Fusillade.Bridge.Grpc
