import Fusillade.Engine.Schedule

/-! The loop of `calculate_target` and `calculate_rate` with the additions and the division
it performs, in exact arithmetic. A stage that ends past `Duration::MAX` panics where the loop
reaches it. -/
namespace Fusillade.Engine

/-- What ends the loop early. -/
inductive Fault where
  | overflow
  | divisionByZero
  deriving DecidableEq, Repr

/-- `(elapsed - active_time) / duration` -/
def progress (elapsed activeTime duration : Duration) : Except Fault ℚ :=
  if duration = 0 then .error .divisionByZero
  else .ok (((elapsed : ℚ) - activeTime) / duration)

/-- The stages up to the one that contains the time: its value, or the last one's. -/
def stageLoop (elapsed : Duration) : Schedule → (activeTime : Duration) → (prev : Nat) →
    Except Fault (Except Nat Nat)
  | [], _, prev => .ok (.error prev)
  | (duration,target) :: rest, activeTime, prev =>
    match Duration.addChecked activeTime duration with
    | none => .error .overflow
    | some stageEnd =>
      if elapsed < stageEnd then
        match progress elapsed activeTime duration with
        | .error fault => .error fault
        | .ok progress =>
          .ok (.ok ((prev : ℚ) + ((target : ℚ) - prev) * progress).floor.toNat)
      else stageLoop elapsed rest stageEnd target

/-- `calculate_target`, which gives no worker once the schedule is over. -/
def targetAt (schedule : Schedule) (elapsed : Duration) : Except Fault Nat :=
  match stageLoop elapsed schedule 0 0 with
  | .ok (.ok target) => .ok target
  | .ok (.error _) => .ok 0
  | .error fault => .error fault

/-- `calculate_rate`, which keeps the last rate. -/
def rateAt (schedule : Schedule) (elapsed : Duration) : Except Fault Nat :=
  match stageLoop elapsed schedule 0 0 with
  | .ok (.ok rate) | .ok (.error rate) => .ok rate
  | .error fault => .error fault

/-- When the stage of this index starts. -/
def Schedule.startOf (schedule : Schedule) (i : Nat) : Duration :=
  Schedule.total (schedule.take i)

/-- The target of the stage before, 0 before the first. -/
def Schedule.prevTarget (schedule : Schedule) (i : Nat) : Nat :=
  ((0 :: schedule.map Prod.snd)[i]?).getD 0

structure Schedule.StageAt (schedule : Schedule) (elapsed : Duration) (i : Nat) : Prop where
  stage : i < schedule.length
  started : schedule.startOf i ≤ elapsed
  unfinished : elapsed < schedule.startOf (i + 1)

/-- A stage that has ended or contains the time ends past `Duration::MAX`. -/
def Schedule.Overflows (schedule : Schedule) (elapsed : Duration) : Prop :=
  ∃ i < schedule.length, schedule.startOf i ≤ elapsed ∧ Duration.bound ≤ schedule.startOf (i + 1)

/-- `floor(prev + (target - prev) * (elapsed - start) / duration)` -/
def stageValue (prev target : Nat) (elapsed start duration : Duration) : Nat :=
  ((prev : ℚ) + ((target : ℚ) - prev) * (((elapsed : ℚ) - start) / duration)).floor.toNat

variable {schedule rest : Schedule} {elapsed activeTime duration prev target i j : Nat}

theorem progress_eq_ok (positive : 0 < duration) (start : Duration) :
    progress elapsed start duration = .ok (((elapsed : ℚ) - start) / duration) :=
  if_neg positive.ne'

namespace Schedule

@[simp] theorem startOf_zero (schedule : Schedule) : schedule.startOf 0 = 0 := rfl

@[simp] theorem startOf_cons_succ (stage : Duration × Nat) (rest : Schedule) (i : Nat) :
    startOf (stage :: rest) (i + 1) = stage.1 + rest.startOf i := by
  simp [startOf,total]

theorem startOf_succ (found : schedule[i]? = some (duration,target)) :
    schedule.startOf (i + 1) = schedule.startOf i + duration := by
  simp [startOf,total,List.take_add_one,found]

theorem startOf_length (schedule : Schedule) : schedule.startOf schedule.length = schedule.total := by
  rw [startOf,List.take_length]

theorem startOf_mono (order : i ≤ j) : schedule.startOf i ≤ schedule.startOf j := by
  induction schedule generalizing i j with
  | nil => simp [startOf]
  | cons stage rest ih =>
    cases i with
    | zero => exact Nat.zero_le _
    | succ i =>
      obtain ⟨j,rfl⟩ := Nat.exists_eq_add_of_le' (Nat.one_le_of_lt order)
      rw [startOf_cons_succ,startOf_cons_succ]
      exact Nat.add_le_add_left (ih (Nat.le_of_succ_le_succ order)) _

theorem stage_unique (here : schedule.StageAt elapsed i) (there : schedule.StageAt elapsed j) :
    i = j := by
  by_contra distinct
  have ended : ∀ {i j}, schedule.StageAt elapsed i → schedule.StageAt elapsed j → ¬i < j := by
    intro i j first second before
    have ordered : schedule.startOf (i + 1) ≤ schedule.startOf j := startOf_mono before
    exact absurd (first.unfinished.trans_le (ordered.trans second.started)) (Nat.lt_irrefl _)
  rcases Nat.lt_or_gt_of_ne distinct with before | after
  · exact ended here there before
  · exact ended there here after

/-- Every time before the end falls into a stage: the first one that ends after it. -/
theorem stage_exists (before : elapsed < schedule.total) : ∃ i, schedule.StageAt elapsed i := by
  have nonempty : 0 < schedule.length := by
    apply List.length_pos_of_ne_nil
    rintro rfl
    exact Nat.not_lt_zero _ before
  have ends : ∃ i, elapsed < schedule.startOf (i + 1) := by
    refine ⟨schedule.length - 1,?_⟩
    rw [Nat.sub_add_cancel nonempty,startOf_length]
    exact before
  refine ⟨Nat.find ends,?_,?_,Nat.find_spec ends⟩
  · have : Nat.find ends ≤ schedule.length - 1 := by
      apply Nat.find_min'
      rw [Nat.sub_add_cancel nonempty,startOf_length]
      exact before
    omega
  · cases least : Nat.find ends with
    | zero => exact Nat.zero_le _
    | succ i => exact Nat.le_of_not_lt (Nat.find_min ends (least ▸ Nat.lt_succ_self i))

end Schedule

theorem stageLoop_inside (found : rest[i]? = some (duration,target))
    (started : activeTime + rest.startOf i ≤ elapsed)
    (unfinished : elapsed < activeTime + rest.startOf (i + 1))
    (fits : activeTime + rest.startOf (i + 1) < Duration.bound) :
    stageLoop elapsed rest activeTime prev =
      .ok (.ok (stageValue (((prev :: rest.map Prod.snd)[i]?).getD 0) target elapsed
        (activeTime + rest.startOf i) duration)) := by
  induction rest generalizing activeTime prev i with
  | nil => simp at found
  | cons stage rest ih =>
    cases i with
    | zero =>
      obtain rfl : stage = (duration,target) := by simpa using found
      simp only [Schedule.startOf_cons_succ,Schedule.startOf_zero,Nat.add_zero] at started unfinished fits
      have positive : 0 < duration := by omega
      have added : Duration.addChecked activeTime duration = some (activeTime + duration) :=
        Duration.addChecked_eq_some.mpr ⟨fits,rfl⟩
      simp [stageLoop,added,unfinished,progress_eq_ok positive,stageValue]
    | succ i =>
      simp only [Schedule.startOf_cons_succ,← Nat.add_assoc] at started unfinished fits
      have added : Duration.addChecked activeTime stage.1 = some (activeTime + stage.1) :=
        Duration.addChecked_eq_some.mpr ⟨(Nat.le_add_right _ _).trans_lt fits,rfl⟩
      have later : ¬elapsed < activeTime + stage.1 := by omega
      have found : rest[i]? = some (duration,target) := by simpa using found
      simpa [stageLoop,added,later,Nat.add_assoc] using @ih _ stage.2 i found started unfinished fits

theorem stageLoop_ended (ended : activeTime + Schedule.total rest ≤ elapsed)
    (fits : ∀ i < rest.length, activeTime + rest.startOf (i + 1) < Duration.bound) :
    stageLoop elapsed rest activeTime prev =
      .ok (.error (((prev :: rest.map Prod.snd)[rest.length]?).getD 0)) := by
  induction rest generalizing activeTime prev with
  | nil => rfl
  | cons stage rest ih =>
    have added : Duration.addChecked activeTime stage.1 = some (activeTime + stage.1) :=
      Duration.addChecked_eq_some.mpr ⟨by simpa using fits 0 (Nat.succ_pos _),rfl⟩
    have ended : activeTime + stage.1 + Schedule.total rest ≤ elapsed := by
      simpa [Schedule.total,Nat.add_assoc] using ended
    have later : ¬elapsed < activeTime + stage.1 := by omega
    simpa [stageLoop,added,later] using @ih _ stage.2 ended fun i inside => by
      simpa [Nat.add_assoc] using fits (i + 1) (Nat.succ_lt_succ inside)

theorem stageLoop_overflow (stage : i < rest.length) (started : activeTime + rest.startOf i ≤ elapsed)
    (overflows : Duration.bound ≤ activeTime + rest.startOf (i + 1)) :
    stageLoop elapsed rest activeTime prev = .error .overflow := by
  induction rest generalizing activeTime prev i with
  | nil => exact absurd stage (Nat.not_lt_zero _)
  | cons head rest ih =>
    cases added : Duration.addChecked activeTime head.1 with
    | none => simp [stageLoop,added]
    | some stageEnd =>
      obtain ⟨fits,rfl⟩ := Duration.addChecked_eq_some.mp added
      cases i with
      | zero => exact absurd fits (by simpa using overflows)
      | succ i =>
        simp only [Schedule.startOf_cons_succ,← Nat.add_assoc] at started overflows
        have later : ¬elapsed < activeTime + head.1 := by omega
        simpa [stageLoop,added,later] using
          ih (Nat.lt_of_succ_lt_succ stage) started overflows

/-- Where the loop ends: in a panic, inside a stage, or after the last one. -/
theorem stageLoop_cases (schedule : Schedule) (elapsed : Duration) :
    (schedule.Overflows elapsed ∧ stageLoop elapsed schedule 0 0 = .error .overflow) ∨
    (¬schedule.Overflows elapsed ∧ ∃ i duration target, schedule[i]? = some (duration,target) ∧
      schedule.StageAt elapsed i ∧ stageLoop elapsed schedule 0 0 =
        .ok (.ok (stageValue (schedule.prevTarget i) target elapsed (schedule.startOf i) duration))) ∨
    (¬schedule.Overflows elapsed ∧ schedule.total ≤ elapsed ∧
      stageLoop elapsed schedule 0 0 = .ok (.error (schedule.prevTarget schedule.length))) := by
  by_cases overflows : schedule.Overflows elapsed
  · obtain ⟨i,stage,started,past⟩ := id overflows
    exact .inl ⟨overflows,stageLoop_overflow stage (by simpa using started) (by simpa using past)⟩
  have fits : ∀ i < schedule.length, schedule.startOf i ≤ elapsed →
      schedule.startOf (i + 1) < Duration.bound := by
    intro i stage started
    by_contra past
    exact overflows ⟨i,stage,started,Nat.le_of_not_lt past⟩
  right
  by_cases before : elapsed < schedule.total
  · obtain ⟨i,reached⟩ := Schedule.stage_exists before
    have found : schedule[i]? = some (schedule.get ⟨i,reached.stage⟩) := List.getElem?_eq_getElem reached.stage
    refine .inl ⟨overflows,i,_,_,found,reached,?_⟩
    have started : 0 + schedule.startOf i ≤ elapsed := by simpa using reached.started
    simpa [Schedule.prevTarget] using @stageLoop_inside _ _ 0 _ 0 _ _ found started
      (by simpa using reached.unfinished) (by simpa using fits i reached.stage reached.started)
  · have ended := Nat.le_of_not_lt before
    refine .inr ⟨overflows,ended,?_⟩
    apply stageLoop_ended (by simpa using ended)
    intro i stage
    rw [Nat.zero_add]
    apply fits i stage
    rw [← Schedule.startOf_length] at ended
    exact (Schedule.startOf_mono stage.le).trans ended

theorem Schedule.StageAt.positive (inside : schedule.StageAt elapsed i)
    (found : schedule[i]? = some (duration,target)) : 0 < duration := by
  have started := inside.started
  have unfinished := inside.unfinished
  rw [Schedule.startOf_succ found] at unfinished
  exact Nat.pos_of_lt_add_right (started.trans_lt unfinished)

/-- The part of the stage that has passed. -/
theorem progress_bounds {start : Nat} (started : start ≤ elapsed)
    (unfinished : elapsed < start + duration) :
    0 ≤ ((elapsed : ℚ) - start) / duration ∧ ((elapsed : ℚ) - start) / duration ≤ 1 := by
  have below : (start : ℚ) ≤ elapsed := by exact_mod_cast started
  have above : (elapsed : ℚ) < start + duration := by exact_mod_cast unfinished
  refine ⟨div_nonneg (sub_nonneg.mpr below) (Nat.cast_nonneg _),?_⟩
  apply div_le_one_of_le₀ _ (Nat.cast_nonneg _)
  linarith

theorem floor_natCast_toNat (n : Nat) : (n : ℚ).floor.toNat = n :=
  congrArg Int.toNat (Rat.floor_intCast n)

theorem floor_toNat_mono {x y : ℚ} (order : x ≤ y) : x.floor.toNat ≤ y.floor.toNat :=
  Int.toNat_le_toNat (Rat.floor_monotone order)

theorem le_floor_toNat {n : Nat} {x : ℚ} (lower : (n : ℚ) ≤ x) : n ≤ x.floor.toNat :=
  (floor_natCast_toNat n).symm.trans_le (floor_toNat_mono lower)

theorem floor_toNat_le {n : Nat} {x : ℚ} (upper : x ≤ n) : x.floor.toNat ≤ n :=
  (floor_toNat_mono upper).trans_eq (floor_natCast_toNat n)

/-- The value lies between the two targets, whichever is larger. -/
theorem stageValue_between {start : Nat} (prev target : Nat) (started : start ≤ elapsed)
    (unfinished : elapsed < start + duration) :
    min prev target ≤ stageValue prev target elapsed start duration ∧
      stageValue prev target elapsed start duration ≤ max prev target := by
  obtain ⟨nonneg,le_one⟩ := progress_bounds started unfinished
  unfold stageValue
  generalize ((elapsed : ℚ) - start) / duration = passed at nonneg le_one
  rcases Nat.le_total prev target with rising | falling
  · have order : (prev : ℚ) ≤ target := by exact_mod_cast rising
    rw [min_eq_left rising,max_eq_right rising]
    exact ⟨le_floor_toNat (by nlinarith),floor_toNat_le (by nlinarith)⟩
  · have order : (target : ℚ) ≤ prev := by exact_mod_cast falling
    rw [min_eq_right falling,max_eq_left falling]
    exact ⟨le_floor_toNat (by nlinarith),floor_toNat_le (by nlinarith)⟩

theorem progress_mono {later : Nat} (order : elapsed ≤ later) (start : Nat) :
    ((elapsed : ℚ) - start) / duration ≤ ((later : ℚ) - start) / duration := by
  have : (elapsed : ℚ) ≤ later := by exact_mod_cast order
  gcongr

theorem stageValue_rising {start later : Nat} (rising : prev ≤ target) (order : elapsed ≤ later) :
    stageValue prev target elapsed start duration ≤ stageValue prev target later start duration := by
  have nonneg : (0 : ℚ) ≤ target - prev := sub_nonneg.mpr (by exact_mod_cast rising)
  exact floor_toNat_mono (by gcongr)

theorem stageValue_falling {start later : Nat} (falling : target ≤ prev) (order : elapsed ≤ later) :
    stageValue prev target later start duration ≤ stageValue prev target elapsed start duration := by
  have nonpos : (target : ℚ) - prev ≤ 0 := sub_nonpos.mpr (by exact_mod_cast falling)
  apply floor_toNat_mono
  exact add_le_add_right (mul_le_mul_of_nonpos_left (progress_mono order start) nonpos) _

theorem Schedule.StageAt.before_end (inside : schedule.StageAt elapsed i) : elapsed < schedule.total := by
  have ended : schedule.startOf (i + 1) ≤ schedule.startOf schedule.length :=
    Schedule.startOf_mono inside.stage
  rw [Schedule.startOf_length] at ended
  exact inside.unfinished.trans_le ended

/-- Both functions at a time inside a stage. -/
theorem stage_value (inside : schedule.StageAt elapsed i)
    (found : schedule[i]? = some (duration,target)) (fits : ¬schedule.Overflows elapsed) :
    stageLoop elapsed schedule 0 0 =
      .ok (.ok (stageValue (schedule.prevTarget i) target elapsed (schedule.startOf i) duration)) := by
  rcases stageLoop_cases schedule elapsed with ⟨overflows,-⟩ | ⟨-,j,d,t,other,reached,value⟩ | ⟨-,ended,-⟩
  · exact absurd overflows fits
  · obtain rfl := Schedule.stage_unique inside reached
    obtain ⟨rfl,rfl⟩ := Prod.mk.inj (Option.some.inj (found.symm.trans other))
    exact value
  · exact absurd ended (Nat.not_le_of_lt inside.before_end)

theorem stage_ended (ended : schedule.total ≤ elapsed) (fits : ¬schedule.Overflows elapsed) :
    stageLoop elapsed schedule 0 0 = .ok (.error (schedule.prevTarget schedule.length)) := by
  rcases stageLoop_cases schedule elapsed with ⟨overflows,-⟩ | ⟨-,j,d,t,found,inside,-⟩ | ⟨-,-,value⟩
  · exact absurd overflows fits
  · exact absurd ended (Nat.not_le_of_lt inside.before_end)
  · exact value

theorem stageLoop_fault {fault : Fault} :
    stageLoop elapsed schedule 0 0 = .error fault ↔ schedule.Overflows elapsed ∧ fault = .overflow := by
  rcases stageLoop_cases schedule elapsed with ⟨overflows,value⟩ | ⟨fits,_,_,_,_,_,value⟩ | ⟨fits,_,value⟩
  · simp [value,overflows,eq_comm]
  · simp [value,fits]
  · simp [value,fits]

/-- Without a panic the loop is the one over unbounded durations, with the exact value. -/
theorem stageLoop_interpolate {outcome : Except Nat Nat}
    (returned : stageLoop elapsed rest activeTime prev = .ok outcome) :
    interpolate stageValue elapsed rest activeTime prev = outcome := by
  induction rest generalizing activeTime prev with
  | nil => exact Except.ok.inj returned
  | cons stage rest ih =>
    cases added : Duration.addChecked activeTime stage.1 with
    | none => simp [stageLoop,added] at returned
    | some stageEnd =>
      obtain ⟨-,rfl⟩ := Duration.addChecked_eq_some.mp added
      by_cases inside : elapsed < activeTime + stage.1
      · cases division : progress elapsed activeTime stage.1 with
        | error fault => simp [stageLoop,added,inside,division] at returned
        | ok passed =>
          obtain rfl : ((elapsed : ℚ) - activeTime) / stage.1 = passed := by
            unfold progress at division
            split at division
            · cases division
            · exact Except.ok.inj division
          simpa [stageLoop,added,inside,division,interpolate,stageValue] using returned
      · simp only [stageLoop,added,if_neg inside] at returned
        rw [interpolate,if_neg inside]
        exact ih returned

/-- Neither function divides by zero. Both panic exactly when a stage they reach ends past
`Duration::MAX`. Else they interpolate in the one stage that contains the time, in the
direction of its target, and part only after the last stage. -/
theorem stage_interpolation (schedule : Schedule) (elapsed : Duration) :
    (∀ fault, targetAt schedule elapsed = .error fault ↔
      schedule.Overflows elapsed ∧ fault = .overflow) ∧
    (∀ fault, rateAt schedule elapsed = .error fault ↔
      schedule.Overflows elapsed ∧ fault = .overflow) ∧
    (elapsed < schedule.total → ∃! i, schedule.StageAt elapsed i) ∧
    (∀ i duration target, schedule[i]? = some (duration,target) → schedule.StageAt elapsed i →
      ¬schedule.Overflows elapsed →
      ∃ value, value = stageValue (schedule.prevTarget i) target elapsed (schedule.startOf i) duration ∧
        0 < duration ∧ targetAt schedule elapsed = .ok value ∧ rateAt schedule elapsed = .ok value ∧
        min (schedule.prevTarget i) target ≤ value ∧ value ≤ max (schedule.prevTarget i) target ∧
        ∀ later next, schedule.StageAt later i → elapsed ≤ later →
          targetAt schedule later = .ok next →
          (schedule.prevTarget i ≤ target → value ≤ next) ∧
            (target ≤ schedule.prevTarget i → next ≤ value)) ∧
    (schedule.total ≤ elapsed → ¬schedule.Overflows elapsed →
      targetAt schedule elapsed = .ok 0 ∧
        rateAt schedule elapsed = .ok (schedule.prevTarget schedule.length)) := by
  refine ⟨?_,?_,?_,?_,?_⟩
  · intro fault
    rw [← stageLoop_fault]
    unfold targetAt
    split <;> simp [*]
  · intro fault
    rw [← stageLoop_fault]
    unfold rateAt
    split <;> simp [*]
  · intro before
    obtain ⟨i,inside⟩ := Schedule.stage_exists before
    exact ⟨i,inside,fun j other => Schedule.stage_unique other inside⟩
  · intro i duration target found inside fits
    have value := stage_value inside found fits
    have ending := inside.unfinished
    rw [Schedule.startOf_succ found] at ending
    obtain ⟨lower,upper⟩ := stageValue_between (schedule.prevTarget i) target inside.started ending
    refine ⟨_,rfl,inside.positive found,by simp [targetAt,value],by simp [rateAt,value],lower,upper,?_⟩
    intro later next insideLater order reached
    have fitsLater : ¬schedule.Overflows later := by
      intro overflows
      simp [targetAt,stageLoop_fault.mpr ⟨overflows,rfl⟩] at reached
    obtain rfl : stageValue _ target later _ duration = next := by
      simpa [targetAt,stage_value insideLater found fitsLater] using reached
    exact ⟨fun rising => stageValue_rising rising order,
      fun falling => stageValue_falling falling order⟩
  · intro ended fits
    simp [targetAt,rateAt,stage_ended ended fits]

/-- One second into the second of two stages, the longest that a configuration can name. -/
theorem reached_stage_panics :
    let schedule : Schedule := [(Duration.fromSecs 1,5),(Duration.fromSecs (2^64 - 1),5)]
    schedule.StageAt (Duration.fromSecs 1) 1 ∧
      targetAt schedule (Duration.fromSecs 1) = .error .overflow ∧
      rateAt schedule (Duration.fromSecs 1) = .error .overflow := by
  refine ⟨⟨by decide,by decide,by decide⟩,by decide,by decide⟩

end Fusillade.Engine
