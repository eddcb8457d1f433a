import Fusillade.Stats.Sharded

/-! `check` and `assertion`: a value is put to the functions of an object, one metric goes out for
each, and the report of the run counts them by name. -/
namespace Fusillade.Bridge.Check

open FiniteMap Stats

/-- What a call of an assertion function comes to. A string without an encoding has no message. -/
inductive Outcome where
  | bool (result : Bool)
  | string (message : Option String)
  | nullish
  | other
  | throws (error : String)
  deriving DecidableEq

/-- A property of the object, as it is when its turn comes. -/
inductive Property where
  | function (outcome : Outcome)
  | other
  deriving DecidableEq

def judge : Outcome → Bool × Option String
  | .bool result => (result,none)
  | .string message => (false,message)
  | .nullish => (false,none)
  | .other => (true,none)
  | .throws error => (false,some ("JS error: " ++ error))

/-- The metrics that are sent, for the properties in the order of their keys, and whether the
call returns; it throws at the first property that is no function. -/
def check : List (String × Property) → List Metric × Bool
  | [] => ([],true)
  | (_,.other) :: _ => ([],false)
  | (key,.function outcome) :: rest =>
    let (success,message) := judge outcome
    let (sent,returns) := check rest
    (.check key success message :: sent,returns)

def called : List (String × Property) → List (String × Outcome)
  | (key,.function outcome) :: rest => (key,outcome) :: called rest
  | (_,.other) :: _ | [] => []

def isCheck : Metric → Bool
  | .check .. => true
  | _ => false

theorem exists_check {metric : Metric} (check : isCheck metric = true) :
    ∃ name success message, metric = .check name success message := by
  cases metric with
  | check => exact ⟨_,_,_,rfl⟩
  | _ => cases check

def results (name : String) (metrics : List Metric) : List Bool :=
  metrics.filterMap fun
    | .check key success _ => if key = name then some success else none
    | _ => none

def judged (name : String) (calls : List (List (String × Property))) : List Bool :=
  ((calls.flatMap called).filter (·.1 = name)).map fun entry => (judge entry.2).1

def counted (old : Option (Nat × Nat)) (results : List Bool) : Option (Nat × Nat) :=
  if results = [] then old
  else some ((old.getD (0,0)).1 + results.length,(old.getD (0,0)).2 + results.count true)

theorem counted_cons (old : Option (Nat × Nat)) (success : Bool) (results : List Bool) :
    counted (some (countOutcome success (old.getD (0,0)))) results = counted old (success :: results) := by
  cases success <;> cases results <;> simp [counted,countOutcome] <;> omega

theorem add_checks {bucketOf : Nat → Option Nat} {metric : Metric} (other : isCheck metric = false)
    (a : StatsAggregator) : (a.add bucketOf metric).checks = a.checks := by
  cases metric with
  | check => cases other
  | request =>
    simp only [StatsAggregator.add,StatsAggregator.addRequest]
    split_ifs <;> rfl
  | _ => rfl

theorem results_of_other {metric : Metric} (other : isCheck metric = false) (name : String) :
    results name [metric] = [] := by
  cases metric with
  | check => cases other
  | _ => rfl

theorem results_cons (name : String) (metric : Metric) (metrics : List Metric) :
    results name (metric :: metrics) = results name [metric] ++ results name metrics := by
  rw [results,← List.singleton_append,List.filterMap_append]
  rfl

theorem foldl_add_checks (bucketOf : Nat → Option Nat) (name : String) (metrics : List Metric)
    (a : StatsAggregator) : (metrics.foldl (StatsAggregator.add bucketOf) a).checks.lookup name =
      counted (a.checks.lookup name) (results name metrics) := by
  induction metrics generalizing a with
  | nil => rfl
  | cons metric metrics ih =>
    rw [List.foldl_cons,ih,results_cons]
    cases other : isCheck metric with
    | false =>
      rw [add_checks other,results_of_other other]
      rfl
    | true =>
      obtain ⟨key,success,message,rfl⟩ := exists_check other
      by_cases same : key = name
      · subst same
        have one : results key [.check key success message] = [success] := by simp [results]
        rw [one,StatsAggregator.add,lookup_upsert,if_pos rfl]
        exact counted_cons ..
      · have nothing : results name [.check key success message] = [] := by simp [results,same]
        rw [nothing,StatsAggregator.add,lookup_upsert,if_neg (Ne.symm same)]
        rfl

theorem results_filter (name : String) (metrics : List Metric) :
    results name (metrics.filter isCheck) = results name metrics := by
  induction metrics with
  | nil => rfl
  | cons metric metrics ih =>
    cases other : isCheck metric with
    | true => rw [List.filter_cons_of_pos other,results_cons,ih,← results_cons]
    | false =>
      rw [List.filter_cons_of_neg (by simp [other]),ih,results_cons,results_of_other other]
      rfl

theorem results_check (name : String) (checks : List (String × Property)) :
    results name (check checks).1 = ((called checks).filter (·.1 = name)).map fun entry => (judge entry.2).1 := by
  fun_induction called checks with
  | case1 key outcome rest ih =>
    simp only [check]
    rw [results_cons,ih]
    by_cases same : key = name <;> simp [results,same]
  | case2 | case3 => rfl

theorem results_checks (name : String) (calls : List (List (String × Property))) :
    results name (calls.flatMap fun call => (check call).1) = judged name calls := by
  induction calls with
  | nil => rfl
  | cons call calls ih =>
    rw [List.flatMap_cons,results,List.filterMap_append,← results,← results,results_check,ih,judged,judged,
      List.flatMap_cons,List.filter_append,List.map_append]

/-- The report counts, for each name, exactly the functions that scripts had called under it and
those that held, however the workers' calls of `check` went, whatever else is sent, and in
whatever order and to whichever shards the metrics come. -/
theorem checks_counted (bucketOf : Nat → Option Nat) (flag : Bool) {numShards : Nat} (positive : 0 < numShards)
    {calls : List (List (String × Property))} {deliveries : List (Nat × Metric)}
    (sent : ((deliveries.map Prod.snd).filter isCheck).Perm (calls.flatMap fun call => (check call).1))
    (name : String) :
    (((ShardedAggregator.create flag numShards).addAll bucketOf deliveries).merge).checks.lookup name =
      if judged name calls = [] then none
      else some ((judged name calls).length,(judged name calls).count true) := by
  have merged := ShardedAggregator.merge_addAll_eq_foldl bucketOf flag numShards positive deliveries
  have checks := congrArg Summary.checks merged
  have same : (results name (deliveries.map Prod.snd)).Perm (judged name calls) := by
    rw [← results_filter,← results_checks]
    exact sent.filterMap _
  have empty : results name (deliveries.map Prod.snd) = [] ↔ judged name calls = [] := by
    rw [← List.length_eq_zero_iff,same.length_eq,List.length_eq_zero_iff]
  simp only [StatsAggregator.summary] at checks
  rw [checks,foldl_add_checks]
  simp only [counted,empty,same.length_eq,same.count_eq]
  simp [StatsAggregator.new]

def mixed : List (List (String × Property)) :=
  [[("ok",.function (.bool true)),("broken",.other),("late",.function .other)],
    [("ok",.function (.throws "TypeError"))]]

def arrived : List (Nat × Metric) :=
  [(1,.check "ok" false (some "JS error: TypeError")),(0,.log "started"),(0,.check "ok" true none)]

theorem mixed_counted :
    ((ShardedAggregator.create false 2).addAll some arrived).merge.checks.lookup "ok" = some (2,1) := by
  have sent : ((arrived.map Prod.snd).filter isCheck).Perm (mixed.flatMap fun call => (check call).1) :=
    List.Perm.swap ..
  exact (checks_counted some false (by decide) sent "ok").trans (by decide)

end Fusillade.Bridge.Check
