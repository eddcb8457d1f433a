import Fusillade.Lib.PercentEncoding
import Fusillade.Lib.JsValue
import Fusillade.Lib.Separators
import Mathlib.Data.List.TakeWhile

/-! `http.formEncode` and `http.url`: the bodies and addresses a script builds out of an object,
against what a server reads back. The values of the object are the strings that they convert
to; an encoding that is none is the exception of `encodeURIComponent`. -/
namespace Fusillade.Bridge.QueryString

open PercentEncoding JsValue

/-- What `encodeURIComponent` leaves as it is. -/
def unreserved (c : Char) : Bool := c.isAlphanum || "-_.!~*'()".toList.contains c

def char? : CodePoint → Option Char
  | .char c => some c
  | .surrogate _ => none

def chars? (text : Text) : Option (List Char) := text.mapM char?

def encodeUriComponent (text : Text) : Option (List Char) := (chars? text).map (encode unreserved)

def part (entry : Text × Text) : Option (List Char) := do
  let key ← encodeUriComponent entry.1
  let value ← encodeUriComponent entry.2
  some (key ++ '=' :: value)

def parts (obj : List (Text × Text)) : Option (List (List Char)) := (propertyOrder obj).mapM part

def formEncode (obj : List (Text × Text)) : Option (List Char) :=
  (parts obj).map (List.intercalate ['&'])

/-- `params` is none where it is left out. -/
def url (base : List Char) (params : Option (List (Text × Text))) : Option (List Char) :=
  match params with
  | none => some base
  | some params =>
    (parts params).map fun parts =>
      if parts = [] then base
      else base ++ (if '?' ∈ base then '&' else '?') :: List.intercalate ['&'] parts

/-- The query of an address: what follows the first question mark, up to the fragment. -/
def query (address : List Char) : List Char :=
  ((address.takeWhile (· ≠ '#')).dropWhile (· ≠ '?')).drop 1

def pair? (entry : Text × Text) : Option Pair := do
  let key ← chars? entry.1
  let value ← chars? entry.2
  some (key,value)

def pairs? (obj : List (Text × Text)) : Option (List Pair) := (propertyOrder obj).mapM pair?

theorem unreserved_safe : Safe unreserved := by constructor <;> decide

theorem part_eq (entry : Text × Text) : part entry = (pair? entry).map (writePair unreserved) := by
  simp only [part,pair?,encodeUriComponent]
  cases chars? entry.1 <;> cases chars? entry.2 <;> rfl

theorem mapM_map_some {α β γ : Type} (f : α → Option β) (g : β → γ) (as : List α) :
    (as.mapM fun a => (f a).map g) = (as.mapM f).map (List.map g) := by
  induction as with
  | nil => rfl
  | cons a as ih =>
    rw [List.mapM_cons,List.mapM_cons,ih]
    cases f a with
    | none => rfl
    | some b => cases as.mapM f <;> rfl

theorem parts_eq (obj : List (Text × Text)) :
    parts obj = (pairs? obj).map (List.map (writePair unreserved)) := by
  rw [parts,pairs?,← mapM_map_some]
  exact congrArg (fun f => (propertyOrder obj).mapM f) (funext part_eq)

theorem formEncode_eq (obj : List (Text × Text)) :
    formEncode obj = (pairs? obj).map (writePairs unreserved) := by
  rw [formEncode,parts_eq,Option.map_map]
  rfl

/-- A form that a script encodes is read back by the server entry by entry, whatever the keys
and the values hold; only a string that is no text throws. -/
theorem form_comes_back (obj : List (Text × Text)) :
    (formEncode obj).bind readPairs = pairs? obj := by
  rw [formEncode_eq]
  cases pairs? obj with
  | none => rfl
  | some pairs => exact readPairs_writePairs unreserved_safe pairs

theorem hash_notMem (pairs : List Pair) : '#' ∉ writePairs unreserved pairs := by
  intro member
  have free := @not_mem_encode unreserved '#' (by decide) (by decide)
    fun n small => (hexDigit_range n small).2.2.2.2.1
  rcases Separators.mem_intercalate member with same | ⟨piece,inside,here⟩
  · exact absurd same (by decide)
  · obtain ⟨pair,-,rfl⟩ := List.mem_map.mp inside
    simp [writePair,free] at here

theorem url_eq (base : List Char) (params : List (Text × Text)) :
    url base (some params) = (pairs? params).map fun pairs =>
      if pairs = [] then base
      else base ++ (if '?' ∈ base then '&' else '?') :: writePairs unreserved pairs := by
  rw [url,parts_eq,Option.map_map]
  simp only [Function.comp_def,List.map_eq_nil_iff,writePairs]

theorem takeWhile_free {base rest : List Char} (free : '#' ∉ base) :
    (base ++ rest).takeWhile (· ≠ '#') = base ++ rest.takeWhile (· ≠ '#') := by
  apply List.takeWhile_append_of_pos
  intro c member
  exact decide_eq_true fun same => free (same ▸ member)

theorem dropWhile_question {text : List Char} (member : '?' ∈ text) :
    ∃ tail, text.dropWhile (· ≠ '?') = '?' :: tail := by
  induction text with
  | nil => cases member
  | cons c text ih =>
    by_cases here : c = '?'
    · exact ⟨text,by simp [here]⟩
    · obtain ⟨tail,same⟩ := ih (by simpa [Ne.symm here] using member)
      exact ⟨tail,by simpa [here] using same⟩

theorem query_added {base text : List Char} (free : '#' ∉ base) (clear : '#' ∉ text) :
    query (base ++ (if '?' ∈ base then '&' else '?') :: text) =
      if '?' ∈ base then query base ++ '&' :: text else text := by
  have whole (rest : List Char) (none : '#' ∉ rest) : rest.takeWhile (· ≠ '#') = rest := by
    simpa using @takeWhile_free rest [] none
  split
  · next there =>
    obtain ⟨tail,same⟩ := dropWhile_question there
    have added : '#' ∉ base ++ '&' :: text := by simp [free,clear]
    rw [query,query,whole _ added,whole _ free,List.dropWhile_append,same]
    simp
  · next absent =>
    have added : '#' ∉ base ++ '?' :: text := by simp [free,clear]
    have before : ∀ c ∈ base, decide (c ≠ '?') = true :=
      fun c member => decide_eq_true fun same => absent (same ▸ member)
    rw [query,whole _ added,List.dropWhile_append_of_pos before]
    simp

theorem query_hidden {base rest : List Char} (fragment : '#' ∈ base) : query (base ++ rest) = query base := by
  have stops : (base ++ rest).takeWhile (· ≠ '#') = base.takeWhile (· ≠ '#') := by
    rw [List.takeWhile_append]
    split
    · next all =>
      have same := List.takeWhile_prefix (p := fun c => decide (c ≠ '#')) (l := base)
      have whole : base.takeWhile (· ≠ '#') = base := same.eq_of_length all
      rw [← whole] at fragment
      simpa using List.mem_takeWhile_imp fragment
    · rfl
  rw [query,query,stops]

/-- The parameters reach the server, behind those that the address had, exactly when the
address has no fragment for them to end up in. -/
theorem url_adds_iff {base : List Char} {params : List (Text × Text)} {before added : List Pair}
    (had : readPairs (query base) = some before) (texts : pairs? params = some added) :
    ((url base (some params)).bind fun address => readPairs (query address)) = some (before ++ added) ↔
      added = [] ∨ '#' ∉ base := by
  rw [url_eq,texts,Option.map_some,Option.bind_some]
  by_cases empty : added = []
  · simp [empty,had]
  · rw [if_neg empty,or_iff_right empty]
    constructor
    · intro same fragment
      rw [query_hidden fragment,had] at same
      exact empty (List.self_eq_append_right.mp (Option.some.inj same))
    · intro free
      have back := readPairs_writePairs unreserved_safe added
      rw [query_added free (hash_notMem added)]
      split
      · rw [readPairs_append,had,back]
        rfl
      · next absent =>
        have none : query base = [] := by
          have before : ∀ c ∈ base.takeWhile (· ≠ '#'), decide (c ≠ '?') = true := by
            intro c member
            refine decide_eq_true fun same => absent ?_
            exact same ▸ (List.takeWhile_prefix _).subset member
          rw [query,List.dropWhile_eq_nil_iff.mpr before]
          rfl
        rw [none] at had
        obtain rfl : [] = before := Option.some.inj had
        exact back

/-- An address with a query, and a parameter that has everything to escape. -/
def search : List Char := "http://shop/s?lang=en".toList
def terms : List (Text × Text) := [([.char 'q'],"a&b=1 +%".toList.map .char)]

theorem search_adds :
    ((url search (some terms)).bind fun address => readPairs (query address)) =
      some [("lang".toList,"en".toList),(['q'],"a&b=1 +%".toList)] :=
  (@url_adds_iff search terms [("lang".toList,"en".toList)] [(['q'],"a&b=1 +%".toList)]
    (by decide +kernel) (by decide +kernel)).mpr
    (.inr (by decide +kernel))

end Fusillade.Bridge.QueryString
