import Fusillade.Lib.SortedEntries
import Mathlib.Logic.Relation

/-! The codec through which gRPC messages pass. The library that writes and reads them is a
parameter: it writes the populated fields one after another and reads fields until nothing
remains, and the codec of the bridge decides what it is given. -/
namespace Fusillade.Bridge.Grpc

open SortedEntries

/-- The numbers of the fields that are populated, and their values. -/
abbrev Fields (ν : Type) := List (Nat × ν)

structure Status where
  message : String
  deriving DecidableEq

/-- One round of the loop of `merge`: a key and what follows it. -/
def Reads {ν : Type} (mergeField : Fields ν → List UInt8 → Except String (Fields ν × List UInt8))
    (before after : Fields ν × List UInt8) : Prop :=
  before.2 ≠ [] ∧ mergeField before.1 before.2 = .ok after

/-- The fields of a message descriptor. A field starts with its key and is read, in as many
rounds as it has elements, to the value that was written. -/
structure WireFormat (ν : Type) where
  /-- What a field of this number may hold. -/
  Holds : Nat → ν → Prop
  /-- Two fields of one oneof. -/
  excludes : Nat → Nat → Prop
  encodeField : Nat → ν → List UInt8
  mergeField : Fields ν → List UInt8 → Except String (Fields ν × List UInt8)
  /-- The order in which fields are written. -/
  order : Fields ν → Fields ν
  order_perm : ∀ fields, (order fields).Perm fields
  key : ∀ number value, encodeField number value ≠ []
  consumes : ∀ fields bytes fields' rest,
    mergeField fields bytes = .ok (fields',rest) → rest.length < bytes.length
  reads : ∀ fields number value rest, Sorted fields → (∀ entry ∈ fields, Holds entry.1 entry.2) →
    Holds number value → (∀ entry ∈ fields, entry.1 ≠ number ∧ ¬excludes entry.1 number) →
    Relation.ReflTransGen (Reads mergeField) (fields,encodeField number value ++ rest)
      (insert number value fields,rest)

variable {ν : Type}

/-- A message, with at most one field of a oneof. -/
structure WireFormat.Message (format : WireFormat ν) where
  fields : Fields ν
  sorted : Sorted fields
  holds : ∀ entry ∈ fields, format.Holds entry.1 entry.2
  alone : ∀ entry ∈ fields, ∀ other ∈ fields, ¬format.excludes entry.1 other.1

section Buffers

/-- Bytes that are there, and how many more there is room for. -/
structure EncodeBuf where
  bytes : List UInt8
  remainingMut : Nat

/-- A frame at the front of what was received. -/
structure DecodeBuf where
  bytes : List UInt8
  remaining : Nat
  inside : remaining ≤ bytes.length

def DecodeBuf.frame (buf : DecodeBuf) : List UInt8 := buf.bytes.take buf.remaining

def DecodeBuf.advance (buf : DecodeBuf) : DecodeBuf := ⟨buf.bytes.drop buf.remaining,0,Nat.zero_le _⟩

/-- Bytes that are received as one frame, and what follows them. -/
def DecodeBuf.framed (bytes rest : List UInt8) : DecodeBuf :=
  ⟨bytes ++ rest,bytes.length,by simp⟩

@[simp]
theorem DecodeBuf.frame_framed (bytes rest : List UInt8) : (framed bytes rest).frame = bytes := List.take_left

end Buffers

section Prost

def encodeRaw (format : WireFormat ν) (fields : Fields ν) : List UInt8 :=
  (format.order fields).flatMap fun entry => format.encodeField entry.1 entry.2

/-- `Message::encode` and `Message::merge` of dynamic messages. -/
structure Prost (ν : Type) where
  format : WireFormat ν
  encode : Fields ν → EncodeBuf → Except String EncodeBuf
  merge : Fields ν → List UInt8 → Except String (Fields ν)
  /-- A buffer that is too small is an error. -/
  encode_eq_ok : ∀ fields buf after, encode fields buf = .ok after ↔
    (encodeRaw format fields).length ≤ buf.remainingMut ∧
      after = ⟨buf.bytes ++ encodeRaw format fields,buf.remainingMut - (encodeRaw format fields).length⟩
  merge_nil : ∀ fields, merge fields [] = .ok fields
  merge_field : ∀ before after, Reads format.mergeField before after →
    merge before.1 before.2 = merge after.1 after.2

end Prost

section Codec

variable (prost : Prost ν)

/-- `DynamicEncoder::encode` -/
def encode (item : Fields ν) (buf : EncodeBuf) : Except Status EncodeBuf :=
  (prost.encode item buf).mapError fun e => ⟨e⟩

/-- `DynamicDecoder::decode`: a frame without bytes is taken for the end of the stream. -/
def decode (buf : DecodeBuf) : Except Status (Option (Fields ν) × DecodeBuf) :=
  if buf.remaining = 0 then .ok (none,buf)
  else
    match prost.merge [] buf.frame with
    | .error e => .error ⟨e⟩
    | .ok msg => .ok (some msg,buf.advance)

end Codec

section Reading

variable {prost : Prost ν}

theorem merge_reads {before after : Fields ν × List UInt8}
    (reads : Relation.ReflTransGen (Reads prost.format.mergeField) before after) :
    prost.merge before.1 before.2 = prost.merge after.1 after.2 := by
  induction reads with
  | refl => rfl
  | @tail middle after _ read ih => exact ih.trans (prost.merge_field middle after read)

theorem merge_encoded {written : Fields ν} {fields : Fields ν} (sorted : Sorted fields)
    (distinct : (written.map Prod.fst).Nodup)
    (holds : ∀ entry ∈ written, prost.format.Holds entry.1 entry.2)
    (held : ∀ entry ∈ fields, prost.format.Holds entry.1 entry.2)
    (alone : ∀ entry ∈ written, ∀ other ∈ written, ¬prost.format.excludes other.1 entry.1)
    (apart : ∀ entry ∈ written, ∀ other ∈ fields,
      other.1 ≠ entry.1 ∧ ¬prost.format.excludes other.1 entry.1) :
    prost.merge fields (written.flatMap fun entry => prost.format.encodeField entry.1 entry.2) =
      .ok (written.foldl (fun entries entry => insert entry.1 entry.2 entries) fields) := by
  induction written generalizing fields with
  | nil => exact prost.merge_nil fields
  | cons entry rest ih =>
    obtain ⟨fresh,distinct⟩ := List.nodup_cons.mp distinct
    obtain ⟨here,later⟩ := List.forall_mem_cons.mp holds
    have read := prost.format.reads fields entry.1 entry.2
      (rest.flatMap fun entry => prost.format.encodeField entry.1 entry.2) sorted held here
      (apart entry List.mem_cons_self)
    rw [List.flatMap_cons,merge_reads read]
    refine ih (sorted_insert sorted _ _) distinct later ?_
      (fun entry member other inRest =>
        alone entry (List.mem_cons_of_mem _ member) other (List.mem_cons_of_mem _ inRest)) ?_
    · intro other inserted
      rcases (mem_insert sorted).mp inserted with rfl | ⟨before,-⟩
      · exact here
      · exact held other before
    · intro next member other inserted
      rcases (mem_insert sorted).mp inserted with rfl | ⟨before,-⟩
      · exact ⟨fun same => fresh (same ▸ List.mem_map_of_mem member),
          alone next (List.mem_cons_of_mem _ member) entry List.mem_cons_self⟩
      · exact apart next (List.mem_cons_of_mem _ member) other before

theorem merge_message (message : prost.format.Message) :
    prost.merge [] (encodeRaw prost.format message.fields) = .ok message.fields := by
  have perm := prost.format.order_perm message.fields
  have distinct : ((prost.format.order message.fields).map Prod.fst).Nodup :=
    (perm.map _).nodup_iff.mpr message.sorted.keys_nodup
  rw [encodeRaw,merge_encoded sorted_nil distinct
    (fun entry member => message.holds entry (perm.mem_iff.mp member)) (by simp)
    (fun entry member other member' =>
      message.alone other (perm.mem_iff.mp member') entry (perm.mem_iff.mp member)) (by simp)]
  exact congrArg Except.ok (message.sorted.foldl_insert_perm perm)

theorem encodeRaw_eq_nil {fields : Fields ν} : encodeRaw prost.format fields = [] ↔ fields = [] := by
  rw [encodeRaw,List.flatMap_eq_nil_iff]
  constructor
  · intro none
    refine List.eq_nil_iff_forall_not_mem.mpr fun entry member => ?_
    exact prost.format.key _ _ (none entry ((prost.format.order_perm fields).mem_iff.mpr member))
  · rintro rfl entry member
    exact absurd ((prost.format.order_perm []).mem_iff.mp member) List.not_mem_nil

end Reading

section Frames

variable {prost : Prost ν} {buf after : EncodeBuf}

theorem encode_eq_ok {fields : Fields ν} :
    encode prost fields buf = .ok after ↔
      (encodeRaw prost.format fields).length ≤ buf.remainingMut ∧
      after = ⟨buf.bytes ++ encodeRaw prost.format fields,
        buf.remainingMut - (encodeRaw prost.format fields).length⟩ := by
  rw [← prost.encode_eq_ok,encode]
  cases prost.encode fields buf <;> simp [Except.mapError]

theorem decode_framed (message : prost.format.Message) (rest : List UInt8) :
    decode prost (.framed (encodeRaw prost.format message.fields) rest) =
      .ok (if message.fields = [] then none else some message.fields,.framed [] rest) := by
  unfold decode
  by_cases unset : message.fields = []
  · have empty : encodeRaw prost.format message.fields = [] := encodeRaw_eq_nil.mpr unset
    rw [if_pos unset,if_pos (by rw [empty]; rfl),empty]
  · have filled : (DecodeBuf.framed (encodeRaw prost.format message.fields) rest).remaining ≠ 0 :=
      fun empty => unset (encodeRaw_eq_nil.mp (List.length_eq_zero_iff.mp empty))
    have left : (DecodeBuf.framed (encodeRaw prost.format message.fields) rest).advance =
        .framed [] rest := by
      simp only [DecodeBuf.advance,DecodeBuf.framed,List.drop_left,List.nil_append,List.length_nil]
    rw [if_neg unset,if_neg filled,DecodeBuf.frame_framed,merge_message,left]

/-- What is appended is the message and what is left is what follows the frame, but the message
comes back exactly when one of its fields is populated. -/
theorem decode_encode_iff (message : prost.format.Message)
    (encoded : encode prost message.fields buf = .ok after) (rest : List UInt8) :
    ∃ bytes, after.bytes = buf.bytes ++ bytes ∧
      after.remainingMut + bytes.length = buf.remainingMut ∧
      ∃ decoded left, decode prost (.framed bytes rest) = .ok (decoded,left) ∧
        left.bytes = rest ∧ left.remaining = 0 ∧
        (decoded = some message.fields ↔ message.fields ≠ []) := by
  obtain ⟨room,rfl⟩ := encode_eq_ok.mp encoded
  refine ⟨encodeRaw prost.format message.fields,rfl,Nat.sub_add_cancel room,_,_,
    decode_framed message rest,rfl,rfl,?_⟩
  split
  next unset => exact iff_of_false nofun (not_not_intro unset)
  next populated => exact iff_of_true rfl populated

end Frames

def flag : WireFormat Bool where
  Holds number value := number = 1 ∧ value = true
  excludes _ _ := False
  encodeField _ value := [8,if value then 1 else 0]
  mergeField fields bytes := match bytes with
    | 8 :: 1 :: rest => .ok (insert 1 true fields,rest)
    | 8 :: 0 :: rest => .ok (fields.filter (·.1 != 1),rest)
    | _ => .error "failed to decode Protobuf message"
  order := id
  order_perm _ := .refl _
  key _ _ := List.cons_ne_nil _ _
  consumes := by
    intro fields bytes fields' rest read
    split at read
    next => cases read; exact Nat.lt_add_of_pos_right Nat.two_pos
    next => cases read; exact Nat.lt_add_of_pos_right Nat.two_pos
    next => cases read
  reads := by
    rintro fields _ _ rest - - ⟨rfl,rfl⟩ -
    exact .single ⟨List.cons_ne_nil _ _,rfl⟩

def WireFormat.prostEncode (format : WireFormat ν) (fields : Fields ν) (buf : EncodeBuf) :
    Except String EncodeBuf :=
  let required := (encodeRaw format fields).length
  if buf.remainingMut < required then
    .error "failed to encode Protobuf message; insufficient buffer capacity"
  else .ok ⟨buf.bytes ++ encodeRaw format fields,buf.remainingMut - required⟩

def WireFormat.prostMerge (format : WireFormat ν) (fields : Fields ν) (bytes : List UInt8) :
    Except String (Fields ν) :=
  if bytes = [] then .ok fields
  else
    match _read : format.mergeField fields bytes with
    | .error error => .error error
    | .ok (fields,rest) => format.prostMerge fields rest
  termination_by bytes.length
  decreasing_by exact format.consumes _ _ _ _ _read

theorem WireFormat.prostEncode_eq_ok (format : WireFormat ν) (fields : Fields ν) (buf after : EncodeBuf) :
    format.prostEncode fields buf = .ok after ↔
      (encodeRaw format fields).length ≤ buf.remainingMut ∧
        after = ⟨buf.bytes ++ encodeRaw format fields,
          buf.remainingMut - (encodeRaw format fields).length⟩ := by
  unfold WireFormat.prostEncode
  by_cases room : (encodeRaw format fields).length ≤ buf.remainingMut
  · simp [Nat.not_lt.mpr room,room,eq_comm]
  · simp [Nat.not_le.mp room,room]

theorem WireFormat.prostMerge_nil (format : WireFormat ν) (fields : Fields ν) :
    format.prostMerge fields [] = .ok fields := by
  unfold WireFormat.prostMerge
  exact if_pos rfl

theorem WireFormat.prostMerge_field (format : WireFormat ν) (before after : Fields ν × List UInt8)
    (read : Reads format.mergeField before after) :
    format.prostMerge before.1 before.2 = format.prostMerge after.1 after.2 := by
  obtain ⟨some,read⟩ := read
  conv => lhs; unfold WireFormat.prostMerge
  rw [if_neg some]
  split
  next error failed => cases failed.symm.trans read
  next fields rest found =>
    obtain rfl := Except.ok.inj (found.symm.trans read)
    rfl

/-- The library over a format. -/
def WireFormat.prost (format : WireFormat ν) : Prost ν where
  format := format
  encode := format.prostEncode
  merge := format.prostMerge
  encode_eq_ok := format.prostEncode_eq_ok
  merge_nil := format.prostMerge_nil
  merge_field := format.prostMerge_field

def flag.unset : flag.Message := ⟨[],sorted_nil,by simp,by simp⟩

def flag.raised : flag.Message := ⟨[(1,true)],List.pairwise_singleton _ _,by simp [flag],by simp [flag]⟩

theorem decode_encode_iff_raised : encode flag.prost flag.raised.fields ⟨[],2⟩ = .ok ⟨[8,1],0⟩ ∧
    ∃ bytes, [8,1] = [] ++ bytes ∧ 0 + bytes.length = 2 ∧
      ∃ decoded left, decode flag.prost (.framed bytes []) = .ok (decoded,left) ∧
        left.bytes = [] ∧ left.remaining = 0 ∧
        (decoded = some flag.raised.fields ↔ flag.raised.fields ≠ []) :=
  ⟨rfl,@decode_encode_iff _ flag.prost ⟨[],2⟩ ⟨[8,1],0⟩ flag.raised rfl []⟩

/-- A message without a populated field has no bytes, and is taken for the end of the stream. -/
theorem empty_frame_lost : encode flag.prost flag.unset.fields ⟨[],2⟩ = .ok ⟨[],2⟩ ∧
    decode flag.prost (.framed [] []) = .ok (none,.framed [] []) :=
  ⟨rfl,rfl⟩

end Fusillade.Bridge.Grpc
