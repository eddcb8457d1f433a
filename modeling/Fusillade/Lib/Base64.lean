import Mathlib.Data.UInt
import Mathlib.Tactic.Common

/-! Bytes as text: an encoder with the decoder that undoes it. The standard one is base64 with
padding: three bytes are four digits of six bits, and the decoder wants the padding there and
the bits under it zero. -/
namespace Base64

structure Codec where
  encode : List UInt8 → List Char
  decode : List Char → Option (List UInt8)
  decode_encode : ∀ bytes, decode (encode bytes) = some bytes

def alphabet : List Char :=
  "ABCDEFGHIJKLMNOPQRSTUVWXYZabcdefghijklmnopqrstuvwxyz0123456789+/".toList

def digit (n : Nat) : Char := (alphabet[n]?).getD '='

def value (c : Char) : Option Nat := alphabet.findIdx? (· == c)

def encode : List UInt8 → List Char
  | [] => []
  | [a] => [digit (a.toNat / 4),digit (a.toNat % 4 * 16),'=','=']
  | [a,b] => [digit (a.toNat / 4),digit (a.toNat % 4 * 16 + b.toNat / 16),digit (b.toNat % 16 * 4),'=']
  | a :: b :: c :: rest =>
    digit (a.toNat / 4) :: digit (a.toNat % 4 * 16 + b.toNat / 16) ::
      digit (b.toNat % 16 * 4 + c.toNat / 64) :: digit (c.toNat % 64) :: encode rest

/-- The bytes of a group, from the digits that share them. -/
def firstByte (w x : Nat) : UInt8 := .ofNat (w * 4 + x / 16)
def secondByte (x y : Nat) : UInt8 := .ofNat (x % 16 * 16 + y / 4)
def thirdByte (y z : Nat) : UInt8 := .ofNat (y % 4 * 64 + z)

/-- The last group, when it ends in padding. -/
def decodePadded (w x y : Char) : Option (List UInt8) := do
  let w ← value w
  let x ← value x
  if y = '=' then
    if x % 16 = 0 then some [firstByte w x] else none
  else
    let y ← value y
    if y % 4 = 0 then some [firstByte w x,secondByte x y] else none

def decode : List Char → Option (List UInt8)
  | [] => some []
  | w :: x :: y :: z :: rest =>
    if z = '=' then
      if rest = [] then decodePadded w x y else none
    else do
      let w ← value w
      let x ← value x
      let y ← value y
      let z ← value z
      let later ← decode rest
      some (firstByte w x :: secondByte x y :: thirdByte y z :: later)
  | _ => none

theorem alphabet_length : alphabet.length = 64 := by decide +kernel

theorem alphabet_nodup : alphabet.Nodup := by decide +kernel

theorem digit_eq {n : Nat} (inside : n < alphabet.length) : digit n = alphabet[n] := by
  rw [digit,List.getElem?_eq_getElem inside,Option.getD_some]

theorem value_digit {n : Nat} (small : n < 64) : value (digit n) = some n := by
  have inside : n < alphabet.length := alphabet_length ▸ small
  rw [digit_eq inside,value,List.findIdx?_eq_some_iff_getElem]
  refine ⟨inside,beq_self_eq_true _,?_⟩
  intro j before same
  have indices := alphabet_nodup.getElem_inj_iff.mp (eq_of_beq same)
  omega

theorem digit_ne_padding {n : Nat} (small : n < 64) : digit n ≠ '=' := by
  have inside : n < alphabet.length := alphabet_length ▸ small
  have padding : '=' ∉ alphabet := by decide +kernel
  rw [digit_eq inside]
  exact fun same => padding (same ▸ List.getElem_mem inside)

theorem firstByte_digits (a : UInt8) {r : Nat} (low : r < 16) :
    firstByte (a.toNat / 4) (a.toNat % 4 * 16 + r) = a := by
  have same : a.toNat / 4 * 4 + (a.toNat % 4 * 16 + r) / 16 = a.toNat := by omega
  rw [firstByte,same,UInt8.ofNat_toNat]

theorem secondByte_digits (b : UInt8) (q : Nat) {r : Nat} (low : r < 4) :
    secondByte (q * 16 + b.toNat / 16) (b.toNat % 16 * 4 + r) = b := by
  have bound := b.toNat_lt
  have same : (q * 16 + b.toNat / 16) % 16 * 16 + (b.toNat % 16 * 4 + r) / 4 = b.toNat := by omega
  rw [secondByte,same,UInt8.ofNat_toNat]

theorem thirdByte_digits (c : UInt8) (q : Nat) :
    thirdByte (q * 4 + c.toNat / 64) (c.toNat % 64) = c := by
  have bound := c.toNat_lt
  have same : (q * 4 + c.toNat / 64) % 4 * 64 + c.toNat % 64 = c.toNat := by omega
  rw [thirdByte,same,UInt8.ofNat_toNat]

theorem decode_encode (bytes : List UInt8) : decode (encode bytes) = some bytes := by
  fun_induction encode bytes with
  | case1 => rfl
  | case2 a =>
    have bound := a.toNat_lt
    have first := value_digit (n := a.toNat / 4) (by omega)
    have second := value_digit (n := a.toNat % 4 * 16) (by omega)
    simpa [decode,decodePadded,first,second] using firstByte_digits a (r := 0) (by omega)
  | case3 a b =>
    have bound := a.toNat_lt
    have bound' := b.toNat_lt
    have first := value_digit (n := a.toNat / 4) (by omega)
    have second := value_digit (n := a.toNat % 4 * 16 + b.toNat / 16) (by omega)
    have third := value_digit (n := b.toNat % 16 * 4) (by omega)
    have unpadded := digit_ne_padding (n := b.toNat % 16 * 4) (by omega)
    have byte := firstByte_digits a (r := b.toNat / 16) (by omega)
    have byte' := secondByte_digits b (a.toNat % 4) (r := 0) (by omega)
    rw [Nat.add_zero] at byte'
    simp [decode,decodePadded,first,second,third,unpadded,byte,byte']
  | case4 a b c rest ih =>
    have bound := a.toNat_lt
    have bound' := b.toNat_lt
    have bound'' := c.toNat_lt
    have first := value_digit (n := a.toNat / 4) (by omega)
    have second := value_digit (n := a.toNat % 4 * 16 + b.toNat / 16) (by omega)
    have third := value_digit (n := b.toNat % 16 * 4 + c.toNat / 64) (by omega)
    have fourth := value_digit (n := c.toNat % 64) (by omega)
    have unpadded := digit_ne_padding (n := c.toNat % 64) (by omega)
    have byte := firstByte_digits a (r := b.toNat / 16) (by omega)
    have byte' := secondByte_digits b (a.toNat % 4) (r := c.toNat / 64) (by omega)
    have byte'' := thirdByte_digits c (b.toNat % 16)
    simp [decode,first,second,third,fourth,unpadded,byte,byte',byte'',ih]

def standard : Codec := ⟨encode,decode,decode_encode⟩

example : String.ofList (standard.encode [77,97]) = "TWE=" := by decide

end Base64
