import Fusillade.Lib.Hmac
import Fusillade.Lib.Utf8

/-! `crypto.hmac` and the hashes of a script. The three hash functions are parameters, of which
only the length of their digests is known. -/
namespace Fusillade.Bridge.Crypto

open Hmac

abbrev Text := List Char

def hexDigits (b : UInt8) : Text := [Nat.digitChar (b.toNat / 16),Nat.digitChar (b.toNat % 16)]

/-- `format!("{:x}")` of a digest. -/
def hex (bytes : Bytes) : Text := bytes.flatMap hexDigits

/-- The hash functions of the crates. -/
structure Digests where
  md5 : Bytes → Bytes
  sha1 : Bytes → Bytes
  sha256 : Bytes → Bytes
  length_md5 : ∀ data, (md5 data).length = 16
  length_sha1 : ∀ data, (sha1 data).length = 20
  length_sha256 : ∀ data, (sha256 data).length = 32

def blockSize : Nat := 64

/-- The body that the three functions share. -/
def hmacWith (digest : Bytes → Bytes) (key data : Bytes) : Text :=
  let keyBlock :=
    if key.length > blockSize then (digest key).rightpad blockSize 0
    else key.rightpad blockSize 0
  let iKeyPad := keyBlock.map fun b => b ^^^ 0x36
  let oKeyPad := keyBlock.map fun b => b ^^^ 0x5c
  let innerHash := digest (iKeyPad ++ data)
  hex (digest (oKeyPad ++ innerHash))

variable (d : Digests)

def hmacMd5 (key data : Bytes) : Text := hmacWith d.md5 key data

def hmacSha1 (key data : Bytes) : Text := hmacWith d.sha1 key data

def hmacSha256 (key data : Bytes) : Text := hmacWith d.sha256 key data

/-- A conversion error, with what was found and what was wanted. -/
inductive Error where
  | fromJs (found wanted : String)
  deriving DecidableEq

def hmac (algorithm : String) (key data : Text) : Except Error Text :=
  match algorithm with
  | "md5" => .ok (hmacMd5 d (Utf8.encode key) (Utf8.encode data))
  | "sha1" => .ok (hmacSha1 d (Utf8.encode key) (Utf8.encode data))
  | "sha256" => .ok (hmacSha256 d (Utf8.encode key) (Utf8.encode data))
  | _ => .error (.fromJs "Unsupported HMAC algorithm (supported: md5, sha1, sha256)" "Error")

inductive Algorithm where
  | md5
  | sha1
  | sha256
  deriving DecidableEq

def Algorithm.name : Algorithm → String
  | md5 => "md5"
  | sha1 => "sha1"
  | sha256 => "sha256"

def Algorithm.size : Algorithm → Nat
  | md5 => 16
  | sha1 => 20
  | sha256 => 32

theorem Algorithm.size_le (a : Algorithm) : a.size ≤ blockSize := by cases a <;> decide

theorem Algorithm.size_injective : Function.Injective Algorithm.size := by
  intro a b
  cases a <;> cases b <;> decide

def Digests.digest : Algorithm → Bytes → Bytes
  | .md5 => d.md5
  | .sha1 => d.sha1
  | .sha256 => d.sha256

theorem Digests.length_digest (a : Algorithm) (data : Bytes) : (d.digest a data).length = a.size := by
  cases a with
  | md5 => exact d.length_md5 data
  | sha1 => exact d.length_sha1 data
  | sha256 => exact d.length_sha256 data

/-- The hash of an algorithm with the blocks of the bridge. -/
def Digests.hash (a : Algorithm) : Hash where
  block := blockSize
  size := a.size
  digest := d.digest a
  length_digest := d.length_digest a
  fits := a.size_le

theorem hmacWith_eq (a : Algorithm) (key data : Bytes) :
    hmacWith (d.digest a) key data = hex ((d.hash a).mac key data) := by
  have keyBlock : (d.hash a).keyBlock key =
      if key.length > blockSize then (d.digest a key).rightpad blockSize 0 else key.rightpad blockSize 0 :=
    apply_ite (padded blockSize) _ _ _
  rw [hmacWith,Hash.mac,Hash.outer,Hash.inner,keyBlock]
  rfl

theorem hmac_name (a : Algorithm) (key data : Text) :
    hmac d a.name key data = .ok (hex ((d.hash a).mac (Utf8.encode key) (Utf8.encode data))) := by
  rw [← hmacWith_eq]
  cases a <;> rfl

theorem hexDigits_injective : Function.Injective hexDigits := by
  have digit : ∀ m < 16, ∀ n < 16, Nat.digitChar m = Nat.digitChar n → m = n := by decide
  intro a b same
  obtain ⟨high,low⟩ := List.cons.inj same
  have high := digit _ (by have := a.toNat_lt; omega) _ (by have := b.toNat_lt; omega) high
  have low := digit _ (by omega) _ (by omega) (List.cons.inj low).1
  exact UInt8.toNat_inj.mp (by omega)

theorem hex_injective : Function.Injective hex := by
  intro x
  induction x with
  | nil =>
    intro y same
    cases y with
    | nil => rfl
    | cons => cases same
  | cons b x ih =>
    intro y same
    cases y with
    | nil => cases same
    | cons c y =>
      obtain ⟨heads,tails⟩ := List.append_inj same rfl
      rw [hexDigits_injective heads,ih tails]

/-- Two calls of `crypto.hmac` give one code exactly when they are for one algorithm and the keys,
hashed if they are long, differ in no more than zeros at the end, for the same data; or
when the hash collides, on inputs that are computed from keys and data. -/
theorem hmac_eq_iff (a b : Algorithm) (key data key' data' : Text) :
    hmac d a.name key data = hmac d b.name key' data' ↔ a = b ∧
      let H := d.hash a
      let k := Utf8.encode key
      let k' := Utf8.encode key'
      (significant (H.shortened k) = significant (H.shortened k') ∧
        (data = data' ∨ H.Collide (H.inner k (Utf8.encode data)) (H.inner k' (Utf8.encode data'))) ∨
      H.Collide (H.outer k (Utf8.encode data)) (H.outer k' (Utf8.encode data'))) := by
  rw [hmac_name,hmac_name,Except.ok.injEq,hex_injective.eq_iff]
  by_cases same : a = b
  · subst same
    have texts : Utf8.encode data = Utf8.encode data' ↔ data = data' := Utf8.encode_injective.eq_iff
    simp only [Hash.mac_eq_iff,Hash.keyBlock_inj,texts,true_and]
  · simp only [same,false_and,iff_false]
    intro codes
    have lengths := congrArg List.length codes
    rw [Hash.mac,Hash.mac,Hash.length_digest,Hash.length_digest] at lengths
    exact same (Algorithm.size_injective lengths)

/-- The bytes of a number, the highest first. -/
def bigEndian (size n : Nat) : Bytes :=
  ((List.range size).map fun place => .ofNat (n / 256 ^ place)).reverse

/-- The digests that are known, and zeros for everything else. -/
def known (size : Nat) (digests : List (Bytes × Nat)) (data : Bytes) : Bytes :=
  bigEndian size (((digests.find? (·.1 == data)).map Prod.snd).getD 0)

theorem length_known (size : Nat) (digests : List (Bytes × Nat)) (data : Bytes) :
    (known size digests data).length = size := by
  simp [known,bigEndian]

def fox : Text := "The quick brown fox jumps over the lazy dog".toList

/-- What the two hashes of the fox under the key `key` are given. -/
def foxInputs (inner : Bytes) : Bytes × Bytes :=
  let keyBlock := padded blockSize (Utf8.encode "key".toList)
  (masked 0x36 keyBlock ++ Utf8.encode fox,masked 0x5c keyBlock ++ inner)

def foxDigests (size inner outer : Nat) : Bytes → Bytes :=
  let (first,second) := foxInputs (bigEndian size inner)
  known size [(first,inner),(second,outer)]

/-- The real digests of these inputs. -/
def digests : Digests where
  md5 := foxDigests 16 0x1deaf7c64f3a0383fb9e1b932ba5749d 0x80070713463e7749b90c2dc24911e275
  sha1 := foxDigests 20 0x0efe15f9161ab728a26f1dc332f2669913dc507e
    0xde7c9b85b8b78aa6bc8a7a36f70a90701c9db4d9
  sha256 := foxDigests 32 0x7ad04e5aa19eee72182c9a75ac71ba13833c53fc4dc8c815ceb7946d562e3631
    0xf7bc83f430538424b13298e6aa6fb143ef4d59a14946175997479dbc2d1a3cd8
  length_md5 := length_known 16 _
  length_sha1 := length_known 20 _
  length_sha256 := length_known 32 _

/-- A zero behind the key changes nothing, and another algorithm gives another code. -/
theorem fox_hmac :
    (hmac digests "md5" "key".toList fox).map String.ofList = .ok "80070713463e7749b90c2dc24911e275" ∧
      (hmac digests "sha1" "key".toList fox).map String.ofList =
        .ok "de7c9b85b8b78aa6bc8a7a36f70a90701c9db4d9" ∧
      (hmac digests "sha256" "key".toList fox).map String.ofList =
        .ok "f7bc83f430538424b13298e6aa6fb143ef4d59a14946175997479dbc2d1a3cd8" ∧
      hmac digests "md5" "key".toList fox = hmac digests "md5" ("key".toList ++ ['\x00']) fox ∧
      hmac digests "md5" "key".toList fox ≠ hmac digests "sha1" "key".toList fox := by
  refine ⟨by decide +kernel,by decide +kernel,by decide +kernel,?_,?_⟩
  · exact (hmac_eq_iff digests .md5 .md5 _ _ _ _).mpr ⟨rfl,.inl ⟨by decide +kernel,.inl rfl⟩⟩
  · intro same
    exact absurd ((hmac_eq_iff digests .md5 .sha1 _ _ _ _).mp same).1 (by decide)

end Fusillade.Bridge.Crypto
