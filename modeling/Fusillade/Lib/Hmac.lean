import Mathlib.Data.List.DropRight

/-! Keyed hashing over an arbitrary hash of bytes: the message is hashed behind the key, and the
result once more behind the key, which is masked in two ways. Nothing is assumed of the hash but
the length of what it gives. -/
namespace Hmac

abbrev Bytes := List UInt8

/-- A hash, with the length of its blocks and of its digests. -/
structure Hash where
  block : Nat
  size : Nat
  digest : Bytes → Bytes
  length_digest : ∀ data, (digest data).length = size
  fits : size ≤ block

/-- Zeros behind the bytes, up to a length. -/
abbrev padded (length : Nat) (bytes : Bytes) : Bytes := bytes.rightpad length 0

def masked (mask : UInt8) (bytes : Bytes) : Bytes := bytes.map (· ^^^ mask)

/-- The bytes without the zeros at their end. -/
def significant (bytes : Bytes) : Bytes := bytes.rdropWhile (· = 0)

namespace Hash

variable (H : Hash)

/-- A key that is longer than a block is hashed. -/
def shortened (key : Bytes) : Bytes := if H.block < key.length then H.digest key else key

def keyBlock (key : Bytes) : Bytes := padded H.block (H.shortened key)

def inner (key data : Bytes) : Bytes := masked 0x36 (H.keyBlock key) ++ data

def outer (key data : Bytes) : Bytes := masked 0x5c (H.keyBlock key) ++ H.digest (H.inner key data)

def mac (key data : Bytes) : Bytes := H.digest (H.outer key data)

/-- Two different inputs with one digest. -/
def Collide (x y : Bytes) : Prop := x ≠ y ∧ H.digest x = H.digest y

end Hash

variable {H : Hash} {key data key' data' : Bytes}

theorem masked_injective (mask : UInt8) : Function.Injective (masked mask) :=
  List.map_injective_iff.mpr fun _ _ => (UInt8.xor_left_inj mask).mp

@[simp] theorem length_masked (mask : UInt8) (bytes : Bytes) : (masked mask bytes).length = bytes.length :=
  List.length_map ..

theorem length_padded {length : Nat} {bytes : Bytes} (fits : bytes.length ≤ length) :
    (padded length bytes).length = length := by
  rw [padded,List.rightpad,List.length_append,List.length_replicate]
  omega

theorem significant_padded (length : Nat) (bytes : Bytes) :
    significant (padded length bytes) = significant bytes := by
  rw [padded,List.rightpad]
  induction length - bytes.length with
  | zero => simp
  | succ n ih =>
    rw [List.replicate_succ',← List.append_assoc,significant,List.rdropWhile_concat_pos _ _ _ (by simp)]
    exact ih

/-- The zeros that are missing are known from the length. -/
theorem padded_significant (bytes : Bytes) : padded bytes.length (significant bytes) = bytes := by
  induction bytes using List.reverseRecOn with
  | nil => rfl
  | append_singleton bytes last ih =>
    by_cases zero : last = 0
    · subst zero
      have shorter : (significant bytes).length ≤ bytes.length := (List.rdropWhile_prefix _ bytes).length_le
      have more : (bytes ++ [0]).length - (significant bytes).length =
          bytes.length - (significant bytes).length + 1 := by
        rw [List.length_append,List.length_singleton]
        omega
      have same : significant (bytes ++ [0]) = significant bytes := List.rdropWhile_concat_pos _ _ _ (by simp)
      rw [same,padded,List.rightpad,more,List.replicate_succ',← List.append_assoc]
      exact congrArg (· ++ [0]) ih
    · have same : significant (bytes ++ [last]) = bytes ++ [last] :=
        List.rdropWhile_concat_neg _ _ _ (by simpa using zero)
      rw [same,padded,List.rightpad,Nat.sub_self,List.replicate_zero,List.append_nil]

theorem padded_inj {length : Nat} {x y : Bytes} (fitsX : x.length ≤ length) (fitsY : y.length ≤ length) :
    padded length x = padded length y ↔ significant x = significant y := by
  constructor
  · intro same
    rw [← significant_padded length x,same,significant_padded]
  · intro same
    have whole (bytes : Bytes) (fits : bytes.length ≤ length) :
        padded length bytes = padded length (significant bytes) := by
      rw [← padded_significant (padded length bytes),length_padded fits,significant_padded]
    rw [whole x fitsX,whole y fitsY,same]

namespace Hash

theorem length_shortened (key : Bytes) : (H.shortened key).length ≤ H.block := by
  unfold shortened
  split
  · exact H.length_digest key ▸ H.fits
  · omega

theorem length_keyBlock (key : Bytes) : (H.keyBlock key).length = H.block :=
  length_padded (length_shortened key)

/-- Two keys do the same when they differ in zeros at the end, once the long ones are hashed. -/
theorem keyBlock_inj : H.keyBlock key = H.keyBlock key' ↔
    significant (H.shortened key) = significant (H.shortened key') :=
  padded_inj (length_shortened key) (length_shortened key')

/-- What is behind the masked key can be told from it. -/
theorem behind_inj (mask : UInt8) {x y : Bytes} :
    masked mask (H.keyBlock key) ++ x = masked mask (H.keyBlock key') ++ y ↔
      H.keyBlock key = H.keyBlock key' ∧ x = y := by
  have lengths : (masked mask (H.keyBlock key)).length = (masked mask (H.keyBlock key')).length := by
    simp [length_keyBlock]
  rw [List.append_eq_append_iff_of_size_eq_left lengths,(masked_injective mask).eq_iff]

theorem digest_eq_iff {x y : Bytes} : H.digest x = H.digest y ↔ x = y ∨ H.Collide x y := by
  constructor
  · exact fun same => (Classical.em (x = y)).imp_right fun different => ⟨different,same⟩
  · rintro (same | collide)
    · rw [same]
    · exact collide.2

/-- Two codes agree when the keys and the messages do, and otherwise only by a collision of the
hash, on inputs that can be computed from the keys and the messages. -/
theorem mac_eq_iff : H.mac key data = H.mac key' data' ↔
    H.keyBlock key = H.keyBlock key' ∧ (data = data' ∨ H.Collide (H.inner key data) (H.inner key' data')) ∨
      H.Collide (H.outer key data) (H.outer key' data') := by
  have outers : H.outer key data = H.outer key' data' ↔ H.keyBlock key = H.keyBlock key' ∧
      (data = data' ∨ H.Collide (H.inner key data) (H.inner key' data')) := by
    rw [outer,outer,behind_inj,digest_eq_iff]
    refine and_congr_right fun keys => or_congr_left ?_
    rw [inner,inner,behind_inj]
    exact and_iff_right keys
  rw [mac,mac,digest_eq_iff,outers]

end Hash

end Hmac
