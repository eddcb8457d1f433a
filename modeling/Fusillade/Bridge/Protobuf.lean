import Fusillade.Lib.Base64
import Fusillade.Lib.Binary64
import Fusillade.Lib.Json
import Fusillade.Lib.SortedEntries
import Fusillade.Stats.Thresholds
import Mathlib.Data.Prod.Lex
import Mathlib.Data.Int.Order.Basic

/-! Protobuf messages by their descriptors: the fields that are populated, in the order of
their numbers, and the canonical JSON of a message, as a parser then holds it. Well-known
types, extensions and unknown fields are left out. -/
namespace Fusillade.Bridge.Protobuf

open Stats

structure EnumDescriptor where
  values : List (String × Int32)
  distinct : (values.map Prod.fst).Nodup

inductive Kind where
  | double
  | float
  | int32
  | int64
  | uint32
  | uint64
  | sint32
  | sint64
  | fixed32
  | fixed64
  | sfixed32
  | sfixed64
  | bool
  | string
  | bytes
  | enum (desc : EnumDescriptor)
  /-- By the full name in the pool. -/
  | message (name : String)

/-- How many values a field holds. The kind of a map field is that of its values. -/
inductive Shape where
  | optional
  | list
  | map (keyKind : Kind)

structure FieldDescriptor where
  number : Nat
  name : String
  kind : Kind
  shape : Shape
  supportsPresence : Bool
  oneof : Option Nat

/-- Underscores go, and the letters after them are capital. -/
def lowerCamelCase (capital : Bool) : List Char → List Char
  | [] => []
  | '_' :: rest => lowerCamelCase true rest
  | c :: rest => (if capital then c.toUpper else c) :: lowerCamelCase false rest

def FieldDescriptor.jsonName (field : FieldDescriptor) : String :=
  String.ofList (lowerCamelCase false field.name.toList)

/-- Fields differ in their numbers, in their names and in their JSON names. -/
structure MessageDescriptor where
  fields : List FieldDescriptor
  numbers : (fields.map FieldDescriptor.number).Nodup
  names : (fields.map FieldDescriptor.name).Nodup
  jsonNames : (fields.map FieldDescriptor.jsonName).Nodup

abbrev DescriptorPool := String → MessageDescriptor

inductive MapKey where
  | bool (value : Bool)
  | i32 (value : Int32)
  | i64 (value : Int64)
  | u32 (value : UInt32)
  | u64 (value : UInt64)
  | string (value : String)
  deriving DecidableEq

inductive Value where
  | bool (value : Bool)
  | i32 (value : Int32)
  | i64 (value : Int64)
  | u32 (value : UInt32)
  | u64 (value : UInt64)
  | f32 (value : F64)
  | f64 (value : F64)
  | string (value : String)
  | bytes (value : List UInt8)
  | enumNumber (value : Int32)
  | message (name : String) (fields : List (Nat × Value))
  | list (values : List Value)
  | map (entries : List (MapKey × Value))

namespace EnumDescriptor

/-- The first value of a number stands for it. -/
def getValue (desc : EnumDescriptor) (number : Int32) : Option String :=
  (desc.values.find? (·.2 == number)).map Prod.fst

def getValueByName (desc : EnumDescriptor) (name : String) : Option Int32 :=
  (desc.values.find? (·.1 == name)).map Prod.snd

def defaultValue (desc : EnumDescriptor) : Int32 := (desc.values.head?.map Prod.snd).getD 0

end EnumDescriptor

namespace MessageDescriptor

def getField (desc : MessageDescriptor) (number : Nat) : Option FieldDescriptor :=
  desc.fields.find? (·.number == number)

def getFieldByName (desc : MessageDescriptor) (name : String) : Option FieldDescriptor :=
  desc.fields.find? (·.name == name)

/-- Another field of the oneof that the field is in has this number. -/
def sharesOneof (desc : MessageDescriptor) (field : FieldDescriptor) (number : Nat) : Bool :=
  field.oneof.isSome && desc.fields.any fun other =>
    other.number == number && other.number != field.number && other.oneof == field.oneof

/-- `DynamicMessage::set_field`, which clears the rest of a oneof. -/
def setField (desc : MessageDescriptor) (field : FieldDescriptor) (value : Value)
    (fields : List (Nat × Value)) : List (Nat × Value) :=
  SortedEntries.insert field.number value
    (fields.filter fun entry => !desc.sharesOneof field entry.1)

end MessageDescriptor

namespace MapKey

def rank : MapKey → Nat ×ₗ Int ×ₗ String
  | bool value => toLex (0,toLex (if value then 1 else 0,""))
  | i32 value => toLex (1,toLex (value.toInt,""))
  | i64 value => toLex (2,toLex (value.toInt,""))
  | u32 value => toLex (3,toLex ((value.toNat : Int),""))
  | u64 value => toLex (4,toLex ((value.toNat : Int),""))
  | string value => toLex (5,toLex (0,value))

theorem rank_injective : Function.Injective rank := by
  intro a b same
  have parts := toLex_inj.mp same
  cases a <;> cases b <;> simp at parts ⊢
  case bool.bool a b => cases a <;> cases b <;> simp_all
  case i32.i32 => exact Int32.toInt_inj.mp parts
  case i64.i64 => exact Int64.toInt_inj.mp parts
  case u32.u32 => exact UInt32.toNat_inj.mp parts
  case u64.u64 => exact UInt64.toNat_inj.mp parts
  case string.string => exact parts

instance : LinearOrder MapKey := LinearOrder.lift' rank rank_injective

def text : MapKey → String
  | bool value => if value then "true" else "false"
  | i32 value => toString value.toInt
  | i64 value => toString value.toInt
  | u32 value => toString value.toNat
  | u64 value => toString value.toNat
  | string value => value

end MapKey

def Value.isDefault (kind : Kind) : Value → Bool
  | .bool value => !value
  | .i32 value => value == 0
  | .i64 value => value == 0
  | .u32 value => value == 0
  | .u64 value => value == 0
  | .f32 value | .f64 value => value == .finite 0
  | .string value => value == ""
  | .bytes value => value.isEmpty
  | .enumNumber value => match kind with
    | .enum desc => value == desc.defaultValue
    | _ => false
  | .message _ _ => false
  | .list values => values.isEmpty
  | .map entries => entries.isEmpty

def FieldDescriptor.populatedBy (field : FieldDescriptor) (value : Value) : Bool :=
  field.supportsPresence || !value.isDefault field.kind

/-- An object of `serde_json` keeps its members in the order of their names. -/
def sortMembers (members : List (String × Json)) : List (String × Json) :=
  members.insertionSort fun a b => a.1 ≤ b.1

def floatToJson : F64 → Json
  | .finite value => .float value
  | .infinite negative => .str (if negative then "-Infinity" else "Infinity")
  | .nan => .str "NaN"

section

variable (base64 : Base64.Codec) (pool : DescriptorPool)

mutual

/-- Canonical JSON: 64-bit integers are text, bytes are base64, and an enum value goes by its
name where it has one. -/
def toJson (kind : Kind) : Value → Json
  | .bool value => .bool value
  | .i32 value => .int value.toInt
  | .i64 value => .str (toString value.toInt)
  | .u32 value => .int value.toNat
  | .u64 value => .str (toString value.toNat)
  | .f32 value | .f64 value => floatToJson value
  | .string value => .str value
  | .bytes value => .str (String.ofList (base64.encode value))
  | .enumNumber value => match kind with
    | .enum desc => match desc.getValue value with
      | some name => .str name
      | none => .int value.toInt
    | _ => .int value.toInt
  | .message name fields => .obj (sortMembers (fieldsToJson (pool name) fields))
  | .list values => .arr (itemsToJson kind values)
  | .map entries => .obj (sortMembers (entriesToJson kind entries))

/-- Fields without a value of their own are omitted. -/
def fieldsToJson (desc : MessageDescriptor) : List (Nat × Value) → List (String × Json)
  | [] => []
  | (number,value) :: rest =>
    match desc.getField number with
    | some field =>
      if field.populatedBy value then
        (field.jsonName,toJson field.kind value) :: fieldsToJson desc rest
      else fieldsToJson desc rest
    | none => fieldsToJson desc rest

def itemsToJson (kind : Kind) : List Value → List Json
  | [] => []
  | value :: rest => toJson kind value :: itemsToJson kind rest

def entriesToJson (kind : Kind) : List (MapKey × Value) → List (String × Json)
  | [] => []
  | (key,value) :: rest => (key.text,toJson kind value) :: entriesToJson kind rest

end

def Value.HasKind : Value → Kind → Prop
  | .bool _, .bool | .string _, .string | .bytes _, .bytes | .enumNumber _, .enum _ => True
  | .i32 _, .int32 | .i32 _, .sint32 | .i32 _, .sfixed32 => True
  | .i64 _, .int64 | .i64 _, .sint64 | .i64 _, .sfixed64 => True
  | .u32 _, .uint32 | .u32 _, .fixed32 => True
  | .u64 _, .uint64 | .u64 _, .fixed64 => True
  | _, _ => False

def MapKey.HasKind : MapKey → Kind → Prop
  | .bool _, .bool | .string _, .string => True
  | .i32 _, .int32 | .i32 _, .sint32 | .i32 _, .sfixed32 => True
  | .i64 _, .int64 | .i64 _, .sint64 | .i64 _, .sfixed64 => True
  | .u32 _, .uint32 | .u32 _, .fixed32 => True
  | .u64 _, .uint64 | .u64 _, .fixed64 => True
  | _, _ => False

/-- What the field of a message may hold: lists and maps have elements, the keys of a map and
the numbers of a message are in order, and its fields are populated, one to a oneof. -/
inductive Typed : Value → Shape → Kind → Prop where
  | scalar {value : Value} {kind : Kind} (kinds : value.HasKind kind) : Typed value .optional kind
  | list {values : List Value} {kind : Kind} (some : values ≠ [])
      (items : ∀ value ∈ values, Typed value .optional kind) : Typed (.list values) .list kind
  | map {entries : List (MapKey × Value)} {keyKind kind : Kind} (some : entries ≠ [])
      (sorted : SortedEntries.Sorted entries) (keys : ∀ entry ∈ entries, entry.1.HasKind keyKind)
      (items : ∀ entry ∈ entries, Typed entry.2 .optional kind) :
      Typed (.map entries) (.map keyKind) kind
  | message {name : String} {fields : List (Nat × Value)} (sorted : SortedEntries.Sorted fields)
      (known : ∀ entry ∈ fields, ∃ field, (pool name).getField entry.1 = some field ∧
        field.populatedBy entry.2 = true ∧
        ∀ other ∈ fields, (pool name).sharesOneof field other.1 = false)
      (values : ∀ entry ∈ fields, ∀ field, (pool name).getField entry.1 = some field →
        Typed entry.2 field.shape field.kind) :
      Typed (.message name fields) .optional (.message name)

end

/-- A message of the pool: the value of a message kind. -/
structure DynamicMessage (pool : DescriptorPool) (name : String) where
  fields : List (Nat × Value)
  typed : Typed pool (.message name fields) .optional (.message name)

end Fusillade.Bridge.Protobuf
