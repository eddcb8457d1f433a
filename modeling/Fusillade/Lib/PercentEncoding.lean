import Fusillade.Lib.Utf8
import Fusillade.Lib.StringLiteral
import Mathlib.Data.List.Basic

/-! Percent-encoding of text by its UTF-8 bytes, and lists of pairs in the format of URL
queries and of forms: pairs between ampersands, with an equals sign between name and value. -/
namespace PercentEncoding

def hexDigit (n : Nat) : Char := if n < 10 then .ofNat (48 + n) else .ofNat (55 + n)

def escapeByte (b : UInt8) : List Char := ['%',hexDigit (b.toNat / 16),hexDigit (b.toNat % 16)]

/-- The characters that are not plain are written as the bytes of their encoding. -/
def encodeChar (plain : Char → Bool) (c : Char) : List Char :=
  if plain c then [c] else (String.utf8EncodeChar c).flatMap escapeByte

def encode (plain : Char → Bool) (text : List Char) : List Char := text.flatMap (encodeChar plain)

/-- A percent sign without two digits after it stands for itself. -/
def bytes : List Char → List UInt8
  | '%' :: high :: low :: rest =>
    match JavaScript.hexDigit high, JavaScript.hexDigit low with
    | some x, some y => .ofNat (x * 16 + y) :: bytes rest
    | _, _ => Utf8.byte '%' :: bytes (high :: low :: rest)
  | c :: rest => String.utf8EncodeChar c ++ bytes rest
  | [] => []

/-- The text that an encoded text stands for, if its bytes are text. -/
def decode (text : List Char) : Option (List Char) := Utf8.decode (bytes text)

/-- In a form a plus sign is a blank. -/
def plusToSpace (text : List Char) : List Char := text.map fun c => if c = '+' then ' ' else c

abbrev Pair := List Char × List Char

/-- A name and its value, cut at the first equals sign. -/
def readPair (piece : List Char) : Option Pair := do
  let name ← decode (plusToSpace (piece.takeWhile (· ≠ '=')))
  let value ← decode (plusToSpace ((piece.dropWhile (· ≠ '=')).drop 1))
  some (name,value)

/-- The pairs of a query or a form; pieces without a character count for nothing. -/
def readPairs (text : List Char) : Option (List Pair) :=
  ((text.splitOn '&').filter (· ≠ [])).mapM readPair

def writePair (plain : Char → Bool) (pair : Pair) : List Char :=
  encode plain pair.1 ++ '=' :: encode plain pair.2

def writePairs (plain : Char → Bool) (pairs : List Pair) : List Char :=
  List.intercalate ['&'] (pairs.map (writePair plain))

/-- The characters with a meaning in the format are not plain. -/
structure Safe (plain : Char → Bool) : Prop where
  percent : plain '%' = false
  ampersand : plain '&' = false
  equals : plain '=' = false
  plus : plain '+' = false

theorem hexDigit_range : ∀ n < 16, JavaScript.hexDigit (hexDigit n) = some n ∧
    hexDigit n ≠ '&' ∧ hexDigit n ≠ '=' ∧ hexDigit n ≠ '+' ∧ hexDigit n ≠ '#' ∧ hexDigit n ≠ '?' := by
  decide

theorem bytes_escapeByte (b : UInt8) (rest : List Char) :
    bytes (escapeByte b ++ rest) = b :: bytes rest := by
  have bound := b.toNat_lt
  have high := (hexDigit_range (b.toNat / 16) (by omega)).1
  have low := (hexDigit_range (b.toNat % 16) (by omega)).1
  have whole : b.toNat / 16 * 16 + b.toNat % 16 = b.toNat := by omega
  simp only [escapeByte,List.cons_append,List.nil_append,bytes,high,low,whole,UInt8.ofNat_toNat]

theorem bytes_plain {c : Char} (other : c ≠ '%') (rest : List Char) :
    bytes (c :: rest) = String.utf8EncodeChar c ++ bytes rest := by
  rw [bytes]
  exact fun high low tail same => absurd same other

theorem bytes_escaped (encoded : List UInt8) (rest : List Char) :
    bytes (encoded.flatMap escapeByte ++ rest) = encoded ++ bytes rest := by
  induction encoded with
  | nil => rfl
  | cons b encoded ih => rw [List.flatMap_cons,List.append_assoc,bytes_escapeByte,ih,List.cons_append]

theorem bytes_encode {plain : Char → Bool} (percent : plain '%' = false) (text rest : List Char) :
    bytes (encode plain text ++ rest) = Utf8.encode text ++ bytes rest := by
  induction text with
  | nil => rfl
  | cons c text ih =>
    rw [encode,List.flatMap_cons,List.append_assoc,← encode,Utf8.encode_cons,List.append_assoc,
      ← ih,encodeChar]
    split
    · next is =>
      have other : c ≠ '%' := fun same => by simp [same,percent] at is
      rw [List.singleton_append,bytes_plain other]
    · exact bytes_escaped _ _

theorem decode_encode {plain : Char → Bool} (percent : plain '%' = false) (text : List Char) :
    decode (encode plain text) = some text := by
  have all := bytes_encode percent text []
  rw [List.append_nil,bytes,List.append_nil] at all
  rw [decode,all,Utf8.decode_encode]

/-- What an encoded text is made of. -/
theorem mem_encode {plain : Char → Bool} {text : List Char} {c : Char} (member : c ∈ encode plain text) :
    plain c = true ∨ c = '%' ∨ ∃ n < 16, c = hexDigit n := by
  obtain ⟨d,-,inside⟩ := List.mem_flatMap.mp member
  unfold encodeChar at inside
  split at inside
  · next is => exact .inl (List.mem_singleton.mp inside ▸ is)
  · obtain ⟨b,-,digit⟩ := List.mem_flatMap.mp inside
    have bound := b.toNat_lt
    simp only [escapeByte,List.mem_cons,List.not_mem_nil,or_false] at digit
    rcases digit with rfl | rfl | rfl
    · exact .inr (.inl rfl)
    · exact .inr (.inr ⟨b.toNat / 16,by omega,rfl⟩)
    · exact .inr (.inr ⟨b.toNat % 16,by omega,rfl⟩)

/-- A character that is not plain, no percent sign and no digit is in no encoded text. -/
theorem not_mem_encode {plain : Char → Bool} {c : Char} (special : plain c = false) (other : c ≠ '%')
    (digit : ∀ n < 16, hexDigit n ≠ c) (text : List Char) : c ∉ encode plain text := by
  intro member
  rcases mem_encode member with is | same | ⟨n,small,same⟩
  · rw [special] at is
    cases is
  · exact other same
  · exact digit n small same.symm

variable {plain : Char → Bool}

theorem plusToSpace_encode (safe : Safe plain) (text : List Char) :
    plusToSpace (encode plain text) = encode plain text := by
  have free := not_mem_encode safe.plus (by decide) (fun n small => (hexDigit_range n small).2.2.2.1) text
  rw [plusToSpace]
  conv_rhs => rw [← List.map_id (encode plain text)]
  apply List.map_congr_left
  intro c member
  have other : c ≠ '+' := fun same => free (same ▸ member)
  simp [other]

theorem readPair_writePair (safe : Safe plain) (pair : Pair) :
    readPair (writePair plain pair) = some pair := by
  have free := not_mem_encode safe.equals (by decide)
    (fun n small => (hexDigit_range n small).2.2.1) pair.1
  have inside : ∀ c ∈ encode plain pair.1, decide (c ≠ '=') = true := by
    intro c member
    exact decide_eq_true fun same => free (same ▸ member)
  have name : (writePair plain pair).takeWhile (· ≠ '=') = encode plain pair.1 := by
    rw [writePair,List.takeWhile_append_of_pos inside]
    simp
  have value : ((writePair plain pair).dropWhile (· ≠ '=')).drop 1 = encode plain pair.2 := by
    rw [writePair,List.dropWhile_append_of_pos inside]
    simp
  rw [readPair,name,value,plusToSpace_encode safe,plusToSpace_encode safe,
    decode_encode safe.percent,decode_encode safe.percent]
  rfl

theorem writePair_ne_nil (pair : Pair) : writePair plain pair ≠ [] := by simp [writePair]

theorem ampersand_notMem (safe : Safe plain) (pair : Pair) : '&' ∉ writePair plain pair := by
  have free := not_mem_encode safe.ampersand (by decide) fun n small => (hexDigit_range n small).2.1
  simp [writePair,free]

/-- Two texts with an ampersand between them. -/
theorem readPairs_append (first second : List Char) :
    readPairs (first ++ '&' :: second) =
      (readPairs first).bind fun front => (readPairs second).map (front ++ ·) := by
  simp only [readPairs,List.splitOn_append_cons_self,List.filter_append,List.mapM_append]
  cases (first.splitOn '&' |>.filter (· ≠ [])).mapM readPair with
  | none => rfl
  | some front => cases (second.splitOn '&' |>.filter (· ≠ [])).mapM readPair <;> rfl

/-- **Pairs that are written come back, whatever is in them.** -/
theorem readPairs_writePairs (safe : Safe plain) (pairs : List Pair) :
    readPairs (writePairs plain pairs) = some pairs := by
  cases empty : pairs with
  | nil => rfl
  | cons head rest =>
    rw [← empty]
    have free : ∀ piece ∈ pairs.map (writePair plain), '&' ∉ piece := by
      intro piece member
      obtain ⟨pair,-,rfl⟩ := List.mem_map.mp member
      exact ampersand_notMem safe pair
    have nonempty : pairs.map (writePair plain) ≠ [] := by simp [empty]
    have all : (pairs.map (writePair plain)).filter (· ≠ []) = pairs.map (writePair plain) := by
      rw [List.filter_eq_self]
      intro piece member
      obtain ⟨pair,-,rfl⟩ := List.mem_map.mp member
      exact decide_eq_true (writePair_ne_nil pair)
    rw [readPairs,writePairs,List.splitOn_intercalate _ free nonempty,all,List.mapM_map]
    have each : (readPair ∘ writePair plain) = some := funext (readPair_writePair safe)
    have lifted : pairs.mapM (fun pair => pure (f := Option) (id pair)) = pure (pairs.map id) :=
      List.mapM_pure
    rw [each]
    simpa using lifted

end PercentEncoding
