import Mathlib.Data.UInt
import Mathlib.Tactic.Common

/-! Text as UTF-8. An ASCII byte in an encoding is the ASCII character itself, so that a
stream of bytes can be cut at one of them before it is decoded. -/
namespace Utf8

def encode (text : List Char) : List UInt8 := text.flatMap String.utf8EncodeChar

def decode (bytes : List UInt8) : Option (List Char) :=
  bytes.toByteArray.utf8Decode?.map Array.toList

/-- The byte of an ASCII character. -/
def byte (c : Char) : UInt8 := .ofNat c.toNat

@[simp] theorem encode_nil : encode [] = [] := rfl

@[simp] theorem encode_append (text rest : List Char) : encode (text ++ rest) = encode text ++ encode rest :=
  List.flatMap_append

theorem encode_cons (c : Char) (text : List Char) :
    encode (c :: text) = String.utf8EncodeChar c ++ encode text := List.flatMap_cons

theorem decode_encode (text : List Char) : decode (encode text) = some text := by
  have core : (encode text).toByteArray.utf8Decode? = some text.toArray := List.utf8Decode?_utf8Encode
  rw [decode,core]
  rfl

theorem encode_injective : Function.Injective encode :=
  fun text rest same => Option.some.inj (by rw [← decode_encode text,same,decode_encode])

/-- Decoding inverts the encoding, and takes nothing else for text. -/
theorem decode_eq_some {bytes : List UInt8} {text : List Char} :
    decode bytes = some text ↔ encode text = bytes := by
  constructor
  · intro decoded
    obtain ⟨chars,found,rfl⟩ := Option.map_eq_some_iff.mp decoded
    have valid : bytes.toByteArray.utf8Decode?.isSome := by rw [found]; rfl
    have core := @ByteArray.utf8Encode_get_utf8Decode? bytes.toByteArray valid
    simp only [found,Option.get_some] at core
    exact List.toByteArray_inj.mp core
  · rintro rfl
    exact decode_encode text

theorem encodeChar_ascii {c : Char} (ascii : c.toNat < 128) : String.utf8EncodeChar c = [byte c] := by
  have low : c.val.toNat ≤ 127 := Nat.le_of_lt_succ ascii
  simp only [String.utf8EncodeChar,if_pos low]
  rfl

@[simp] theorem encode_singleton {c : Char} (ascii : c.toNat < 128) : encode [c] = [byte c] := by
  rw [encode_cons,encodeChar_ascii ascii]
  rfl

/-- Bytes of the ASCII range are the encoding of their characters. -/
theorem encode_chars {bytes : List UInt8} (ascii : ∀ b ∈ bytes, b.toNat < 128) :
    encode (bytes.map fun b => Char.ofNat b.toNat) = bytes := by
  induction bytes with
  | nil => rfl
  | cons b rest ih =>
    obtain ⟨low,later⟩ := List.forall_mem_cons.mp ascii
    have valid : b.toNat.isValidChar := .inl (by omega)
    have same : (Char.ofNat b.toNat).toNat = b.toNat := by
      rw [Char.ofNat,dif_pos valid]
      rfl
    rw [List.map_cons,encode_cons,encodeChar_ascii (by omega),ih later,byte,same,UInt8.ofNat_toNat]
    rfl

theorem toNat_ofNat {n : Nat} (small : n < 256) : (UInt8.ofNat n).toNat = n :=
  UInt8.toNat_ofNat_of_lt' small

/-- The bytes of any other character are all out of the ASCII range. -/
theorem encodeChar_high {c : Char} (wide : 128 ≤ c.toNat) :
    ∀ b ∈ String.utf8EncodeChar c, 128 ≤ b.toNat := by
  have high : ¬c.val.toNat ≤ 127 := Nat.not_le_of_lt wide
  have continuation (n : Nat) : 128 ≤ (UInt8.ofNat (n % 64 + 128)).toNat := by
    rw [toNat_ofNat (by omega)]
    omega
  have lead (n m low : Nat) (positive : 0 < m) (above : 128 ≤ low) (fits : m + low ≤ 256) :
      128 ≤ (UInt8.ofNat (n % m + low)).toNat := by
    have small := Nat.mod_lt n positive
    rw [toNat_ofNat (by omega)]
    omega
  intro b member
  simp only [String.utf8EncodeChar,if_neg high] at member
  split at member
  · rcases List.mem_pair.mp member with rfl | rfl
    · exact lead _ 32 192 (by decide) (by decide) (by decide)
    · exact continuation _
  · split at member
    · simp only [List.mem_cons,List.not_mem_nil,or_false] at member
      rcases member with rfl | rfl | rfl
      · exact lead _ 16 224 (by decide) (by decide) (by decide)
      · exact continuation _
      · exact continuation _
    · simp only [List.mem_cons,List.not_mem_nil,or_false] at member
      rcases member with rfl | rfl | rfl | rfl
      · exact lead _ 8 240 (by decide) (by decide) (by decide)
      · exact continuation _
      · exact continuation _
      · exact continuation _

theorem byte_mem_encodeChar {a c : Char} (ascii : a.toNat < 128) :
    byte a ∈ String.utf8EncodeChar c ↔ c = a := by
  have size : (byte a).toNat = a.toNat := toNat_ofNat (by omega)
  constructor
  · intro member
    rcases Nat.lt_or_ge c.toNat 128 with low | wide
    · rw [encodeChar_ascii low,List.mem_singleton] at member
      have same : (byte a).toNat = (byte c).toNat := congrArg UInt8.toNat member
      rw [size,byte,toNat_ofNat (by omega)] at same
      exact Char.toNat_inj.mp same.symm
    · have := encodeChar_high wide _ member
      omega
  · rintro rfl
    rw [encodeChar_ascii ascii]
    exact List.mem_singleton_self _

theorem byte_mem_encode {a : Char} (ascii : a.toNat < 128) {text : List Char} :
    byte a ∈ encode text ↔ a ∈ text := by
  simp only [encode,List.mem_flatMap,byte_mem_encodeChar ascii]
  simp

/-- A text ends in an ASCII character when its last byte says so. -/
theorem encode_eq_concat {a : Char} (ascii : a.toNat < 128) {text : List Char} {front : List UInt8} :
    encode text = front ++ [byte a] ↔ ∃ before, text = before ++ [a] ∧ encode before = front := by
  constructor
  · intro same
    rcases List.eq_nil_or_concat' text with rfl | ⟨before,c,rfl⟩
    · simp at same
    · have last : byte a ∈ String.utf8EncodeChar c := by
        have ends := congrArg List.getLast? same
        rw [encode_append,encode_cons,encode_nil,List.append_nil,List.getLast?_concat,
          List.getLast?_append_of_ne_nil _ String.utf8EncodeChar_ne_nil] at ends
        exact List.mem_of_getLast? ends
      obtain rfl := (byte_mem_encodeChar ascii).mp last
      refine ⟨before,rfl,?_⟩
      rw [encode_append,encode_singleton ascii] at same
      exact List.append_cancel_right same
  · rintro ⟨before,rfl,rfl⟩
    rw [encode_append,encode_singleton ascii]

/-- An ASCII byte at the end decodes on its own. -/
theorem decode_concat {a : Char} (ascii : a.toNat < 128) {bytes : List UInt8} :
    decode (bytes ++ [byte a]) = (decode bytes).map (· ++ [a]) := by
  cases decoded : decode bytes with
  | some text =>
    have encoded := decode_eq_some.mp decoded
    exact decode_eq_some.mpr ((encode_eq_concat ascii).mpr ⟨text,rfl,encoded⟩)
  | none =>
    refine Option.eq_none_iff_forall_ne_some.mpr ?_
    intro whole found
    obtain ⟨before,_,encoded⟩ := (encode_eq_concat ascii).mp (decode_eq_some.mp found)
    rw [decode_eq_some.mpr encoded] at decoded
    cases decoded

/-- A text starts with an ASCII character when its first byte says so. -/
theorem head_of_encode {a : Char} (ascii : a.toNat < 128) {text : List Char} :
    (encode text).head? = some (byte a) ↔ text.head? = some a := by
  cases text with
  | nil => simp
  | cons c text =>
    rw [encode_cons,List.head?_append_of_ne_nil _ String.utf8EncodeChar_ne_nil,List.head?_cons,Option.some_inj]
    constructor
    · intro first
      exact (byte_mem_encodeChar ascii).mp (List.mem_of_head? first)
    · rintro rfl
      rw [encodeChar_ascii ascii]
      rfl

end Utf8
