import Fusillade.Bridge.Emission

/-! Segments of a script. The name of the current group is a cell that `segment` saves, sets
for the call of its function and puts back, however the call ends. Only the HTTP paths look at
it when they name a metric. -/
namespace Fusillade.Bridge.Segments

/-- What a script does between the calls of `segment`, as a tree. -/
inductive Script where
  | skip
  | request (nameTag : Option String) (url : String)
  /-- A request of another protocol, whose module fixes the name of its metric. -/
  | protocol (name : String)
  | throw
  | seq (first second : Script)
  /-- The script goes on after an exception in here. -/
  | attempt (body : Script)
  | segment (name : String) (func : Script)

/-- What a run leaves: the group, the names of its requests, and whether it threw. -/
structure Outcome where
  group : String
  names : List String := []
  threw : Bool := false
  deriving DecidableEq

def run : Script → String → Outcome
  | .skip, group => { group }
  | .request nameTag url, group => { group, names := [metricName group nameTag url] }
  | .protocol name, group => { group, names := [name] }
  | .throw, group => { group, threw := true }
  | .seq first second, group =>
    let before := run first group
    if before.threw then before
    else
      let after := run second before.group
      { after with names := before.names ++ after.names }
  | .attempt body, group => { run body group with threw := false }
  | .segment name func, group =>
    let prev := group
    { run func (enterGroup group name) with group := prev }

/-- A request with the segments around it, the outermost one first. -/
structure Sent where
  enclosing : List String
  base : String
  http : Bool := true

def Script.throws : Script → Bool
  | .skip | .request .. | .protocol _ | .attempt _ => false
  | .throw => true
  | .seq first second => first.throws || second.throws
  | .segment _ func => func.throws

/-- The requests that a script gets to. -/
def Script.requests : Script → List String → List Sent
  | .skip, _ | .throw, _ => []
  | .request nameTag url, enclosing => [⟨enclosing,nameTag.getD url,true⟩]
  | .protocol name, enclosing => [⟨enclosing,name,false⟩]
  | .seq first second, enclosing =>
    first.requests enclosing ++ if first.throws then [] else second.requests enclosing
  | .attempt body, enclosing => body.requests enclosing
  | .segment name func, enclosing => func.requests (enclosing ++ [name])

/-- The segments that leave a trace: without the empty names that come first. -/
def named (enclosing : List String) : List String := enclosing.dropWhile fun name => name == ""

def joined (enclosing : List String) : String := "::".intercalate (named enclosing)

/-- With the segments in front, which the metric of an HTTP request has. -/
def Sent.full (sent : Sent) : String := joined sent.enclosing ++ "::" ++ sent.base

def Sent.name (sent : Sent) : String :=
  if sent.http = false ∨ named sent.enclosing = [] then sent.base else sent.full

theorem joined_eq_empty {enclosing : List String} : joined enclosing = "" ↔ named enclosing = [] := by
  constructor
  · intro empty
    cases names : named enclosing with
    | nil => rfl
    | cons first rest =>
      have nonempty : first ≠ "" := by
        have head := List.head?_dropWhile_not (fun name => name == "") enclosing
        rw [← named,names] at head
        simpa using head
      rw [joined,names] at empty
      cases rest with
      | nil => exact absurd (by simpa using empty) nonempty
      | cons next later =>
        rw [String.intercalate_cons_cons] at empty
        simp at empty
  · intro none
    rw [joined,none]
    rfl

/-- Entering a segment adds its name at the end. -/
theorem enterGroup_joined (enclosing : List String) (name : String) :
    enterGroup (joined enclosing) name = joined (enclosing ++ [name]) := by
  unfold enterGroup
  simp only [joined_eq_empty]
  split
  next none =>
    rw [joined,named,List.dropWhile_append,← named,none]
    by_cases empty : name = "" <;> simp [empty]
  next some =>
    have kept : named (enclosing ++ [name]) = named enclosing ++ [name] := by
      rw [named,List.dropWhile_append,← named,if_neg (by simpa using some)]
    rw [joined,joined,kept,String.intercalate_append_of_ne_nil some (by simp)]
    simp

theorem metricName_joined (enclosing : List String) (nameTag : Option String) (url : String) :
    metricName (joined enclosing) nameTag url = (Sent.mk enclosing (nameTag.getD url) true).name := by
  unfold metricName groupPrefix Sent.name Sent.full
  simp only [joined_eq_empty,Bool.true_eq_false,false_or]
  split
  · simp
  · rfl

theorem run_eq (script : Script) (enclosing : List String) :
    run script (joined enclosing) =
      ⟨joined enclosing,(script.requests enclosing).map Sent.name,script.throws⟩ := by
  induction script generalizing enclosing with
  | skip => rfl
  | throw => rfl
  | request nameTag url => simp [run,Script.requests,Script.throws,metricName_joined]
  | protocol name => simp [run,Script.requests,Script.throws,Sent.name]
  | seq first second ihFirst ihSecond =>
    rw [run,ihFirst]
    cases threw : first.throws with
    | true => simp [Script.requests,Script.throws,threw]
    | false => simp [ihSecond,Script.requests,Script.throws,threw]
  | attempt body ih => simp [run,ih,Script.requests,Script.throws]
  | segment name func ih => simp [run,enterGroup_joined,ih,Script.requests,Script.throws]

theorem run_group (script : Script) (group : String) : (run script group).group = group := by
  induction script generalizing group with
  | skip => rfl
  | throw => rfl
  | request | protocol => rfl
  | seq first second ihFirst ihSecond =>
    rw [run]
    split
    · exact ihFirst group
    · exact (ihSecond _).trans (ihFirst group)
  | attempt body ih => exact ih group
  | segment => rfl

/-- Segments give the group back however they end, and name the HTTP requests after all segments
around them; without a name that is not empty there is no prefix. -/
theorem segments_nested (script : Script) :
    (∀ group, (run script group).group = group) ∧
      run script "" = ⟨"",(script.requests []).map Sent.name,script.throws⟩ :=
  ⟨run_group script,run_eq script []⟩

/-- A message over a socket bears the name of its module in any segment, and in a segment without
a name a request bears its URL alone. -/
theorem unprefixed_requests :
    (¬∀ script, (run (.segment "chat" script) "").names = (script.requests ["chat"]).map Sent.full) ∧
      ¬∀ script, (run (.segment "" script) "").names = (script.requests [""]).map Sent.full := by
  constructor
  · intro prefixed
    exact absurd (prefixed (.protocol "ws::send")) (by decide +kernel)
  · intro prefixed
    exact absurd (prefixed (.request none "/cart")) (by decide +kernel)

end Fusillade.Bridge.Segments
