import Fusillade.Lib.Base64
import Fusillade.Lib.Utf8
import Mathlib.Data.List.TakeWhile

/-! `encoding.b64encode` and `encoding.b64decode` on texts, and the header of `http.basicAuth`
against the way a server reads it. The `base64` engine `STANDARD` is a parameter. -/
namespace Fusillade.Bridge.Encoding

abbrev Text := List Char

variable (standard : Base64.Codec)

def b64encode (data : Text) : Text := standard.encode (Utf8.encode data)

def b64decode (data : Text) : Except String Text :=
  match standard.decode data with
  | none => .error "Base64 decode failed"
  | some decoded =>
    match Utf8.decode decoded with
    | none => .error "Invalid UTF-8 after decode"
    | some text => .ok text

def basicAuth (username password : Text) : Text :=
  "Basic ".toList ++ b64encode standard (username ++ ':' :: password)

/-- The user and the password of a header value: the text behind the scheme, decoded and cut
at its first colon. -/
def credentials (value : Text) : Option (Text × Text) :=
  if "Basic ".toList <+: value then
    match b64decode standard (value.drop 6) with
    | .ok text =>
      if ':' ∈ text then some (text.takeWhile (· ≠ ':'),(text.dropWhile (· ≠ ':')).drop 1) else none
    | .error _ => none
  else none

theorem b64decode_b64encode (text : Text) : b64decode standard (b64encode standard text) = .ok text := by
  rw [b64decode,b64encode,standard.decode_encode]
  simp only [Utf8.decode_encode]

/-- A server reads the user and the password that the script gave exactly when no colon is in
the name of the user. -/
theorem basicAuth_iff (username password : Text) :
    credentials standard (basicAuth standard username password) = some (username,password) ↔
      ':' ∉ username := by
  have scheme : "Basic ".toList <+: basicAuth standard username password := List.prefix_append _ _
  have rest : (basicAuth standard username password).drop 6 =
      b64encode standard (username ++ ':' :: password) := rfl
  have colon : ':' ∈ username ++ ':' :: password := by simp
  simp only [credentials,scheme,rest,b64decode_b64encode,colon,if_true,Option.some.injEq,Prod.mk.injEq]
  constructor
  · rintro ⟨front,-⟩ inside
    rw [← front] at inside
    simpa using List.mem_takeWhile_imp inside
  · intro free
    have before : ∀ c ∈ username, decide (c ≠ ':') = true :=
      fun c member => decide_eq_true fun same => free (same ▸ member)
    rw [List.takeWhile_append_of_pos before,List.dropWhile_append_of_pos before]
    simp

theorem alice_basicAuth :
    basicAuth Base64.standard "alice".toList "open:sesame".toList =
        "Basic YWxpY2U6b3BlbjpzZXNhbWU=".toList ∧
      credentials Base64.standard (basicAuth Base64.standard "alice".toList "open:sesame".toList) =
        some ("alice".toList,"open:sesame".toList) :=
  ⟨by decide +kernel,(basicAuth_iff Base64.standard _ _).mpr (by decide)⟩

/-- A user name with a colon is cut in two. -/
example : credentials Base64.standard (basicAuth Base64.standard ['a',':','b'] ['c']) =
    some (['a'],['b',':','c']) := by decide +kernel

end Fusillade.Bridge.Encoding
