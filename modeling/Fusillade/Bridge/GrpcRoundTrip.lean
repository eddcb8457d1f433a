import Fusillade.Bridge.GrpcJson

/-! Messages that come back from their canonical JSON. A name of a field is looked for as it
is in the schema, and neither a 64-bit integer nor the key of a map is read from text, so
what the conversion inverts is told by the fields that are populated. -/
namespace Fusillade.Bridge.Grpc

open Protobuf SortedEntries

section Names

theorem toUpper_ne_underscore {c : Char} (other : c ≠ '_') : c.toUpper ≠ '_' := by
  unfold Char.toUpper
  split
  next lower =>
    intro same
    have low : 97 ≤ c.val.toNat := lower.1
    have high : c.val.toNat ≤ 122 := lower.2
    have code := congrArg (fun c => c.val.toNat) same
    have apart : ('A'.val - 'a'.val).toNat = 2^32 - 32 := by decide
    have target : '_'.val.toNat = 95 := by decide
    simp only [UInt32.toNat_add,apart,target] at code
    omega
  next => exact other

theorem underscore_not_mem (capital : Bool) (text : List Char) :
    '_' ∉ lowerCamelCase capital text := by
  fun_induction lowerCamelCase capital text with
  | case1 => simp
  | case2 capital rest ih => exact ih
  | case3 capital c rest other ih =>
    rw [List.mem_cons,not_or]
    refine ⟨?_,ih⟩
    split
    · exact (toUpper_ne_underscore other).symm
    · exact Ne.symm other

theorem lowerCamelCase_eq_self {text : List Char} :
    lowerCamelCase false text = text ↔ '_' ∉ text := by
  refine ⟨fun same => same ▸ underscore_not_mem false text,?_⟩
  intro plain
  induction text with
  | nil => rfl
  | cons c rest ih =>
    have other : c ≠ '_' := fun same => plain (same ▸ List.mem_cons_self)
    rw [lowerCamelCase,ih fun member => plain (List.mem_cons_of_mem _ member)]
    · rfl
    · exact other

theorem jsonName_eq_name {field : FieldDescriptor} :
    field.jsonName = field.name ↔ '_' ∉ field.name.toList := by
  rw [FieldDescriptor.jsonName,← lowerCamelCase_eq_self,← String.toList_inj,String.toList_ofList]

/-- A field named by a JSON name has that name in JSON too. -/
theorem jsonName_of_name {field other : FieldDescriptor} (same : other.name = field.jsonName) :
    other.jsonName = other.name := by
  rw [jsonName_eq_name,same,FieldDescriptor.jsonName,String.toList_ofList]
  exact underscore_not_mem false _

end Names

section Lookups

theorem find?_unique {α κ : Type} [BEq κ] [LawfulBEq κ] {f : α → κ} {l : List α}
    (distinct : (l.map f).Nodup) {key : κ} {a : α} :
    l.find? (f · == key) = some a ↔ a ∈ l ∧ f a = key := by
  constructor
  · intro found
    exact ⟨List.mem_of_find?_eq_some found,by simpa using List.find?_some found⟩
  · rintro ⟨member,rfl⟩
    obtain ⟨b,found⟩ := Option.isSome_iff_exists.mp
      (List.find?_isSome (p := (f · == f a)).mpr ⟨a,member,beq_self_eq_true _⟩)
    have same : f b = f a := by simpa using List.find?_some found
    rw [found,List.inj_on_of_nodup_map distinct (List.mem_of_find?_eq_some found) member same]

theorem getField_eq_some {desc : MessageDescriptor} {number : Nat} {field : FieldDescriptor} :
    desc.getField number = some field ↔ field ∈ desc.fields ∧ field.number = number :=
  find?_unique desc.numbers

theorem getFieldByName_eq_some {desc : MessageDescriptor} {name : String} {field : FieldDescriptor} :
    desc.getFieldByName name = some field ↔ field ∈ desc.fields ∧ field.name = name :=
  find?_unique desc.names

/-- The name that stands for an enum value is one of that value. -/
theorem getValueByName_getValue {desc : EnumDescriptor} {number : Int32} {name : String}
    (named : desc.getValue number = some name) : desc.getValueByName name = some number := by
  obtain ⟨value,found,rfl⟩ := Option.map_eq_some_iff.mp named
  have number : value.2 = number := by simpa using List.find?_some found
  rw [EnumDescriptor.getValueByName,
    (find?_unique desc.distinct).mpr ⟨List.mem_of_find?_eq_some found,rfl⟩,Option.map_some,number]

end Lookups

variable {base64 : Base64.Codec} {pool : DescriptorPool}

section Loops

theorem map_eq_ok {α β : Type} {make : α → β} (injective : Function.Injective make)
    {result : Except TypeError α} {a : α} : result.map make = .ok (make a) ↔ result = .ok a := by
  cases result with
  | error error => simp [Except.map]
  | ok value => simp [Except.map,injective.eq_iff]

/-- Text for a 64-bit integer. -/
def isWide : Kind → Bool
  | .int64 | .sint64 | .sfixed64 | .uint64 | .fixed64 => true
  | _ => false

theorem asI64_toInt (value : Int32) : ∃ n, asI64 (.int value.toInt) = some n ∧ toI32 n = value := by
  have low : -2^31 ≤ value.toInt := Int32.le_toInt value
  have high : value.toInt < 2^31 := Int32.toInt_lt value
  refine ⟨_,if_pos ⟨by omega,by omega⟩,?_⟩
  exact Int32.toInt_inj.mp ((toI32_ofInt (by omega) (by omega)).mpr ⟨low,high⟩)

theorem asU64_toNat (value : UInt32) : ∃ n, asU64 (.int value.toNat) = some n ∧ toU32 n = value := by
  have high : value.toNat < 2^32 := UInt32.toNat_lt value
  refine ⟨.ofNat value.toNat,?_,?_⟩
  · rw [asU64,if_pos ⟨by omega,by omega⟩,Int.toNat_natCast]
  · exact UInt32.toNat_inj.mp ((toU32_ofNat (by omega)).mpr high)

/-- An enum value comes back by its name, or as the number that it has no name for. -/
theorem enum_round (desc : EnumDescriptor) (value : Int32) :
    enumToProst desc (toJson base64 pool (.enum desc) (.enumNumber value)) = .ok (.enumNumber value) := by
  cases named : desc.getValue value with
  | some name =>
    have text : toJson base64 pool (.enum desc) (.enumNumber value) = .str name := by rw [toJson,named]
    rw [text,enumToProst]
    simp only [asStr,getValueByName_getValue named]
    rfl
  | none =>
    have number : toJson base64 pool (.enum desc) (.enumNumber value) = .int value.toInt := by
      rw [toJson,named]
    obtain ⟨n,read,same⟩ := asI64_toInt value
    rw [number,enumToProst]
    simp only [asStr,read,same]

/-- Every kind but the 64-bit integers, for which a number is expected. -/
theorem scalar_round {kind : Kind} {value : Value} (kinds : value.HasKind kind) :
    jsonScalarToProst base64 pool (toJson base64 pool kind value) kind = .ok value ↔ isWide kind = false := by
  rw [scalar_plain (by rintro name rfl; cases value <;> exact kinds)]
  cases value with
  | bool value | string value =>
    cases kind <;> first | exact kinds.elim | exact iff_of_true rfl rfl
  | i32 value =>
    obtain ⟨n,read,same⟩ := asI64_toInt value
    have converted : plainToProst base64 (.int value.toInt) .int32 = .ok (.i32 value) := by
      rw [plainToProst,read,expect,Except.map,same]
    cases kind <;> first | exact kinds.elim | exact iff_of_true converted rfl
  | u32 value =>
    obtain ⟨n,read,same⟩ := asU64_toNat value
    have converted : plainToProst base64 (.int value.toNat) .uint32 = .ok (.u32 value) := by
      rw [plainToProst,read,expect,Except.map,same]
    cases kind <;> first | exact kinds.elim | exact iff_of_true converted rfl
  | i64 | u64 =>
    cases kind <;> first
      | exact kinds.elim
      | exact iff_of_false (fun read => by cases read) (fun narrow => by cases narrow)
  | bytes value =>
    cases kind <;> first | exact kinds.elim | skip
    refine iff_of_true ?_ rfl
    rw [toJson,plainToProst,bytesToProst,asStr]
    simp only [String.toList_ofList,base64.decode_encode]
    rfl
  | enumNumber value =>
    cases kind <;> first | exact kinds.elim | skip
    exact iff_of_true (enum_round _ value) rfl
  | f32 | f64 | message | list | map => exact kinds.elim

theorem itemsToJson_eq_map (kind : Kind) (values : List Value) :
    itemsToJson base64 pool kind values = values.map (toJson base64 pool kind) := by
  induction values with
  | nil => rfl
  | cons value rest ih => rw [itemsToJson,ih,List.map_cons]

theorem entriesToJson_eq_map (kind : Kind) (entries : List (MapKey × Value)) :
    entriesToJson base64 pool kind entries =
      entries.map fun entry => (entry.1.text,toJson base64 pool kind entry.2) := by
  induction entries with
  | nil => rfl
  | cons entry rest ih => rw [entriesToJson,ih,List.map_cons]

theorem convertItems_eq_ok {kind : Kind} {values : List Value} :
    convertItems base64 pool (values.map (toJson base64 pool kind)) kind = .ok values ↔
      ∀ value ∈ values, jsonScalarToProst base64 pool (toJson base64 pool kind value) kind = .ok value := by
  induction values with
  | nil => simp [convertItems]
  | cons value rest ih =>
    rw [List.map_cons,convertItems,List.forall_mem_cons,← ih]
    cases converted : jsonScalarToProst base64 pool (toJson base64 pool kind value) kind with
    | error error => simp
    | ok first =>
      cases convertItems base64 pool (rest.map (toJson base64 pool kind)) kind with
      | error error => simp [Except.map]
      | ok others => simp [Except.map]

/-- The members of an object are those of the list, in another order. -/
theorem sortMembers_map {α : Type} (member : α → String × Json) (list : List α) :
    ∃ order : List α, order.Perm list ∧ sortMembers (list.map member) = order.map member :=
  ⟨_,List.perm_insertionSort (fun a b => (member a).1 ≤ (member b).1) list,
    (List.map_insertionSort (fun a b => (member a).1 ≤ (member b).1)
      (fun a b : String × Json => a.1 ≤ b.1) member list fun _ _ _ _ => Iff.rfl).symm⟩

theorem convertEntries_string {kind : Kind} {order built : List (MapKey × Value)}
    (strings : ∀ entry ∈ order, entry.1.HasKind .string) :
    convertEntries base64 pool (order.map fun entry => (entry.1.text,toJson base64 pool kind entry.2))
        .string kind built =
      rebuild (fun entry => some (jsonScalarToProst base64 pool (toJson base64 pool kind entry.2) kind))
        order built := by
  induction order generalizing built with
  | nil => rw [List.map_nil,convertEntries,rebuild]
  | cons entry rest ih =>
    obtain ⟨here,later⟩ := List.forall_mem_cons.mp strings
    obtain ⟨key,value⟩ := entry
    cases key with
    | bool | i32 | i64 | u32 | u64 => exact here.elim
    | string key =>
      have name : jsonScalarToProst base64 pool (.str key) .string = .ok (.string key) := by
        rw [scalar_plain (by simp)]
        rfl
      rw [List.map_cons,MapKey.text,convertEntries,name,rebuild]
      cases converted : jsonScalarToProst base64 pool (toJson base64 pool kind value) kind with
      | error error => rfl
      | ok value => exact ih later

/-- The name of a member is taken for no number and for no truth value. -/
theorem convertEntries_other {key : MapKey} {keyKind kind : Kind} (kinds : key.HasKind keyKind)
    (other : keyKind ≠ .string) {members : List (String × Json)} (some : members ≠ [])
    {built result : List (MapKey × Value)} :
    convertEntries base64 pool members keyKind kind built ≠ .ok result := by
  obtain ⟨⟨name,json⟩,rest,rfl⟩ := List.exists_cons_of_ne_nil some
  have rejected : ∃ error, jsonScalarToProst base64 pool (.str name) keyKind = .error error := by
    rw [scalar_plain (by rintro name rfl; cases key <;> exact kinds)]
    cases keyKind with
    | string => exact absurd rfl other
    | double | float | bytes | enum | message => cases key <;> exact kinds.elim
    | _ => exact ⟨_,rfl⟩
  obtain ⟨error,rejected⟩ := rejected
  rw [convertEntries,rejected]
  intro converted
  cases converted

theorem map_round {entries : List (MapKey × Value)} {keyKind kind : Kind} (some : entries ≠ [])
    (sorted : Sorted entries) (keys : ∀ entry ∈ entries, entry.1.HasKind keyKind) :
    convertEntries base64 pool (sortMembers (entriesToJson base64 pool kind entries)) keyKind kind [] =
        .ok entries ↔
      keyKind = .string ∧ ∀ entry ∈ entries,
        jsonScalarToProst base64 pool (toJson base64 pool kind entry.2) kind = .ok entry.2 := by
  rw [entriesToJson_eq_map]
  obtain ⟨order,perm,ordered⟩ := sortMembers_map
    (fun entry : MapKey × Value => (entry.1.text,toJson base64 pool kind entry.2)) entries
  rw [ordered]
  by_cases text : keyKind = .string
  · subst text
    rw [convertEntries_string fun entry member => keys entry (perm.mem_iff.mp member),
      rebuild_iff sorted perm]
    simp
  · obtain ⟨first,rest,rfl⟩ := List.exists_cons_of_ne_nil some
    refine iff_of_false (convertEntries_other (keys first List.mem_cons_self) text ?_)
      fun survives => text survives.1
    intro none
    exact List.cons_ne_nil first rest (List.map_eq_nil_iff.mp none ▸ perm).nil_eq.symm

end Loops

section Messages

variable {desc : MessageDescriptor}

/-- A field is found by its JSON name where that is its name. -/
theorem getFieldByName_jsonName {field : FieldDescriptor} (member : field ∈ desc.fields) :
    desc.getFieldByName field.jsonName =
      if '_' ∈ field.name.toList then none else some field := by
  split
  next underscore =>
    rw [Option.eq_none_iff_forall_ne_some]
    intro other found
    obtain ⟨inDesc,name⟩ := getFieldByName_eq_some.mp found
    have same : other = field := List.inj_on_of_nodup_map desc.jsonNames inDesc member
      ((jsonName_of_name name).trans name)
    exact jsonName_eq_name.mp (same ▸ name.symm) underscore
  next plain =>
    exact getFieldByName_eq_some.mpr ⟨member,(jsonName_eq_name.mpr plain).symm⟩

/-- The member that stands for a populated field. -/
def fieldMember (base64 : Base64.Codec) (pool : DescriptorPool) (desc : MessageDescriptor) (entry : Nat × Value) :
    String × Json :=
  match desc.getField entry.1 with
  | some field => (field.jsonName,toJson base64 pool field.kind entry.2)
  | none => ("",.null)

/-- What the loop over the members makes of it. -/
def convertField (base64 : Base64.Codec) (pool : DescriptorPool) (desc : MessageDescriptor) (entry : Nat × Value) :
    Option (Except TypeError Value) :=
  (desc.getField entry.1).bind fun field =>
    if '_' ∈ field.name.toList then none
    else some (jsonValToProst base64 pool (toJson base64 pool field.kind entry.2) field)

theorem fieldsToJson_eq_map {fields : List (Nat × Value)}
    (known : ∀ entry ∈ fields, ∃ field, desc.getField entry.1 = some field ∧
      field.populatedBy entry.2 = true) :
    fieldsToJson base64 pool desc fields = fields.map (fieldMember base64 pool desc) := by
  induction fields with
  | nil => rfl
  | cons entry rest ih =>
    obtain ⟨⟨field,found,populated⟩,later⟩ := List.forall_mem_cons.mp known
    obtain ⟨number,value⟩ := entry
    rw [fieldsToJson,found,List.map_cons,fieldMember]
    simp only [found,populated,if_true,ih later]

/-- No oneof is cleared on the way. -/
theorem setFields_eq_rebuild {fields order built : List (Nat × Value)}
    (alone : ∀ entry ∈ fields, ∃ field, desc.getField entry.1 = some field ∧
      ∀ other ∈ fields, desc.sharesOneof field other.1 = false)
    (given : ∀ entry ∈ order, entry ∈ fields) (sorted : Sorted built)
    (earlier : ∀ old ∈ built, ∃ entry ∈ fields, entry.1 = old.1) :
    setFields base64 pool desc (order.map (fieldMember base64 pool desc)) built =
      rebuild (convertField base64 pool desc) order built := by
  induction order generalizing built with
  | nil => rw [List.map_nil,setFields,rebuild]
  | cons entry rest ih =>
    obtain ⟨here,later⟩ := List.forall_mem_cons.mp given
    obtain ⟨field,found,single⟩ := alone entry here
    obtain ⟨inDesc,number⟩ := getField_eq_some.mp found
    have member : fieldMember base64 pool desc entry = (field.jsonName,toJson base64 pool field.kind entry.2) := by
      rw [fieldMember,found]
    rw [List.map_cons,member,setFields,getFieldByName_jsonName inDesc,rebuild,convertField,found,
      Option.bind_some]
    by_cases underscore : '_' ∈ field.name.toList
    · rw [if_pos underscore,if_pos underscore]
      exact ih later sorted earlier
    · rw [if_neg underscore,if_neg underscore]
      cases converted : jsonValToProst base64 pool (toJson base64 pool field.kind entry.2) field with
      | error error => simp only [converted]
      | ok value =>
        have kept : built.filter (fun old => !desc.sharesOneof field old.1) = built := by
          refine List.filter_eq_self.mpr fun old before => ?_
          obtain ⟨other,inFields,same⟩ := earlier old before
          rw [← same,single other inFields]
          rfl
        have set : desc.setField field value built = insert entry.1 value built := by
          rw [MessageDescriptor.setField,kept,number]
        simp only [converted,set]
        refine ih later (sorted_insert sorted _ _) fun old inserted => ?_
        rcases (mem_insert sorted).mp inserted with rfl | ⟨before,-⟩
        · exact ⟨entry,here,rfl⟩
        · exact earlier old before

theorem convertField_eq_ok {entry : Nat × Value} {field : FieldDescriptor}
    (found : desc.getField entry.1 = some field) :
    convertField base64 pool desc entry = some (.ok entry.2) ↔
      '_' ∉ field.name.toList ∧
        jsonValToProst base64 pool (toJson base64 pool field.kind entry.2) field = .ok entry.2 := by
  rw [convertField,found,Option.bind_some]
  split
  next underscore => exact iff_of_false nofun fun kept => kept.1 underscore
  next plain => rw [Option.some_inj,and_iff_right plain]

theorem message_round {name : String} {fields : List (Nat × Value)} (sorted : Sorted fields)
    (known : ∀ entry ∈ fields, ∃ field, (pool name).getField entry.1 = some field ∧
      field.populatedBy entry.2 = true ∧
      ∀ other ∈ fields, (pool name).sharesOneof field other.1 = false) :
    jsonScalarToProst base64 pool (toJson base64 pool (.message name) (.message name fields)) (.message name) =
        .ok (.message name fields) ↔
      ∀ entry ∈ fields, convertField base64 pool (pool name) entry = some (.ok entry.2) := by
  have populated (entry : Nat × Value) (member : entry ∈ fields) :
      ∃ field, (pool name).getField entry.1 = some field ∧ field.populatedBy entry.2 = true := by
    obtain ⟨field,found,populated,-⟩ := known entry member
    exact ⟨field,found,populated⟩
  have alone (entry : Nat × Value) (member : entry ∈ fields) :
      ∃ field, (pool name).getField entry.1 = some field ∧
        ∀ other ∈ fields, (pool name).sharesOneof field other.1 = false := by
    obtain ⟨field,found,-,alone⟩ := known entry member
    exact ⟨field,found,alone⟩
  obtain ⟨order,perm,ordered⟩ := sortMembers_map (fieldMember base64 pool (pool name)) fields
  rw [toJson,fieldsToJson_eq_map populated,ordered,jsonScalarToProst,jsonToDynamicMessage,
    setFields_eq_rebuild alone (fun entry => perm.mem_iff.mp) sorted_nil (by simp),
    map_eq_ok (fun _ _ same => (Value.message.inj same).2),rebuild_iff sorted perm]

end Messages

/-- What comes back from its canonical JSON: fields whose names have no underscore, maps with
string keys, and no 64-bit integer anywhere. -/
inductive Survives (pool : DescriptorPool) : Value → Shape → Kind → Prop where
  | scalar {value : Value} {kind : Kind} (kinds : value.HasKind kind) (narrow : isWide kind = false) :
      Survives pool value .optional kind
  | list {values : List Value} {kind : Kind} (items : ∀ value ∈ values, Survives pool value .optional kind) :
      Survives pool (.list values) .list kind
  | map {entries : List (MapKey × Value)} {kind : Kind}
      (items : ∀ entry ∈ entries, Survives pool entry.2 .optional kind) :
      Survives pool (.map entries) (.map .string) kind
  | message {name : String} {fields : List (Nat × Value)}
      (names : ∀ entry ∈ fields, ∀ field, (pool name).getField entry.1 = some field →
        '_' ∉ field.name.toList)
      (values : ∀ entry ∈ fields, ∀ field, (pool name).getField entry.1 = some field →
        Survives pool entry.2 field.shape field.kind) :
      Survives pool (.message name fields) .optional (.message name)

section Shapes

variable {field : FieldDescriptor}

theorem jsonValToProst_optional {json : Json} (shape : field.shape = .optional) :
    jsonValToProst base64 pool json field = jsonScalarToProst base64 pool json field.kind := by
  unfold jsonValToProst
  rw [shape]

theorem jsonValToProst_list {items : List Json} (shape : field.shape = .list) :
    jsonValToProst base64 pool (.arr items) field = (convertItems base64 pool items field.kind).map .list := by
  unfold jsonValToProst
  rw [shape]

theorem jsonValToProst_map {members : List (String × Json)} {keyKind : Kind}
    (shape : field.shape = .map keyKind) :
    jsonValToProst base64 pool (.obj members) field =
      (convertEntries base64 pool members keyKind field.kind []).map .map := by
  unfold jsonValToProst
  rw [shape]

/-- The items of a list or a map are converted as fields of their kind are. -/
theorem item_iff {json : Json} {kind : Kind} {value : Value} {survives : Prop}
    (round : ∀ field : FieldDescriptor, field.shape = .optional → field.kind = kind →
      (jsonValToProst base64 pool json field = .ok value ↔ survives)) :
    jsonScalarToProst base64 pool json kind = .ok value ↔ survives := by
  have item := round ⟨0,"",kind,.optional,false,none⟩ rfl rfl
  rwa [jsonValToProst_optional rfl] at item

end Shapes

/-- By the structure of the value, at the field that holds it. -/
theorem value_round {value : Value} {shape : Shape} {kind : Kind} (typed : Typed pool value shape kind) :
    ∀ field : FieldDescriptor, field.shape = shape → field.kind = kind →
      (jsonValToProst base64 pool (toJson base64 pool kind value) field = .ok value ↔
        Survives pool value shape kind) := by
  induction typed with
  | @scalar value kind kinds =>
    rintro field shape same
    rw [jsonValToProst_optional shape,same,scalar_round kinds]
    constructor
    · exact .scalar kinds
    · intro survives
      cases survives with
      | scalar _ narrow => exact narrow
      | message => exact kinds.elim
  | @list values kind _ _ ih =>
    rintro field shape same
    rw [toJson,itemsToJson_eq_map,jsonValToProst_list shape,same,map_eq_ok fun _ _ => Value.list.inj,
      convertItems_eq_ok,forall₂_congr fun value member => item_iff (ih value member)]
    constructor
    · exact .list
    · intro survives
      cases survives with
      | list items => exact items
  | @map entries keyKind kind some sorted keys _ ih =>
    rintro field shape same
    rw [toJson,jsonValToProst_map shape,same,map_eq_ok fun _ _ => Value.map.inj,
      map_round some sorted keys,forall₂_congr fun entry member => item_iff (ih entry member)]
    constructor
    · rintro ⟨rfl,items⟩
      exact .map items
    · intro survives
      cases survives with
      | map items => exact ⟨rfl,items⟩
  | @message name fields sorted known _ ih =>
    rintro field shape same
    rw [jsonValToProst_optional shape,same,message_round sorted known]
    constructor
    · intro kept
      refine .message (fun entry member field found => ?_) fun entry member field found => ?_
      · exact ((convertField_eq_ok found).mp (kept entry member)).1
      · exact (ih entry member field found field rfl rfl).mp
          ((convertField_eq_ok found).mp (kept entry member)).2
    · intro survives entry member
      obtain ⟨field,found,-⟩ := known entry member
      cases survives with
      | scalar kinds => exact kinds.elim
      | message names values =>
        exact (convertField_eq_ok found).mpr ⟨names entry member field found,
          (ih entry member field found field rfl rfl).mpr (values entry member field found)⟩

/-- A message comes back from the JSON that a script is given for it exactly when its populated
fields have no underscore in their names, its maps have string keys and nothing in it is a
64-bit integer. -/
theorem round_trip_iff (base64 : Base64.Codec) (pool : DescriptorPool) (name : String) (message : DynamicMessage pool name) :
    jsonToDynamicMessage base64 pool name
        (toJson base64 pool (.message name) (.message name message.fields)) = .ok message.fields ↔
      Survives pool (.message name message.fields) .optional (.message name) := by
  rw [← value_round message.typed ⟨0,name,.message name,.optional,true,none⟩ rfl rfl,
    jsonValToProst_optional rfl,jsonScalarToProst,map_eq_ok fun _ _ same => (Value.message.inj same).2]

def userId : FieldDescriptor := ⟨1,"user_id",.int32,.optional,false,none⟩

def users : DescriptorPool := fun _ =>
  ⟨[userId],List.nodup_singleton _,List.nodup_singleton _,List.nodup_singleton _⟩

def user : DynamicMessage users "User" where
  fields := [(1,.i32 7)]
  typed := by
    refine .message (List.pairwise_singleton _ _) ?_ ?_
    · simp only [List.mem_singleton]
      rintro _ rfl
      exact ⟨userId,rfl,rfl,by rintro _ rfl; rfl⟩
    · simp only [List.mem_singleton]
      rintro _ rfl field found
      obtain rfl := Option.some.inj found
      exact .scalar trivial

/-- `userId` is the name of no field, and the message is empty when it comes back. -/
theorem underscore_lost : user.fields = [(1,.i32 7)] ∧
    jsonToDynamicMessage Base64.standard users "User"
      (toJson Base64.standard users (.message "User") (.message "User" user.fields)) = .ok [] := by
  refine ⟨rfl,?_⟩
  have json : toJson Base64.standard users (.message "User") (.message "User" user.fields) =
      .obj [("userId",.int 7)] := by
    have name : userId.jsonName = "userId" := by decide +kernel
    rw [← name]
    rfl
  have unknown : (users "User").getFieldByName "userId" = none := by decide +kernel
  rw [json,jsonToDynamicMessage,setFields]
  simp only [unknown]
  rw [setFields]

end Fusillade.Bridge.Grpc
