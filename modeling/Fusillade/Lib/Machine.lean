import Mathlib.Data.List.Induction

/-! Labelled machines given by a partial step function. An action that is not enabled
yields `none`, so a list of actions is a run exactly when `exec` returns a state.
Nondeterminism is the choice of the actions; no scheduler or fairness is implied. -/
namespace Machine

variable {S A : Type} (step : S → A → Option S)

/-- The state after a list of actions, or `none` when one of them is not enabled. -/
def exec : S → List A → Option S
  | s, [] => some s
  | s, a :: rest => (step s a).bind (exec · rest)

def Along (property : S → Prop) : S → List A → Prop
  | s, [] => property s
  | s, a :: rest => property s ∧ ∀ t, step s a = some t → Along property t rest

def Guarded (guard : S → A → Prop) : S → List A → Prop
  | _, [] => True
  | s, a :: rest => guard s a ∧ ∀ t, step s a = some t → Guarded guard t rest

variable {step}

@[simp] theorem exec_nil (s : S) : exec step s [] = some s := rfl

theorem exec_cons (s : S) (a : A) (rest : List A) :
    exec step s (a :: rest) = (step s a).bind (exec step · rest) := rfl

theorem exec_cons_iff {s t : S} {a : A} {rest : List A} :
    exec step s (a :: rest) = some t ↔ ∃ u, step s a = some u ∧ exec step u rest = some t := by
  simp [exec_cons,Option.bind_eq_some_iff]

theorem exec_append (s : S) (xs ys : List A) :
    exec step s (xs ++ ys) = (exec step s xs).bind (exec step · ys) := by
  induction xs generalizing s with
  | nil => rfl
  | cons a rest ih =>
    simp only [List.cons_append,exec_cons]
    cases step s a with
    | none => rfl
    | some u => exact ih u

theorem exec_append_iff {s t : S} {xs ys : List A} :
    exec step s (xs ++ ys) = some t ↔ ∃ u, exec step s xs = some u ∧ exec step u ys = some t := by
  simp [exec_append,Option.bind_eq_some_iff]

theorem exec_snoc_iff {s t : S} {xs : List A} {a : A} :
    exec step s (xs ++ [a]) = some t ↔ ∃ u, exec step s xs = some u ∧ step u a = some t := by
  simp [exec_append_iff,exec_cons_iff]

theorem exec_map {B : Type} (f : B → A) (s : S) (actions : List B) :
    exec (fun s b => step s (f b)) s actions = exec step s (actions.map f) := by
  induction actions generalizing s with
  | nil => rfl
  | cons b rest ih =>
    simp only [List.map_cons,exec_cons]
    cases step s (f b) with
    | none => rfl
    | some t => exact ih t

theorem exec_rounds {reached : Nat → S} {round : List A} (n : Nat)
    (each : ∀ k < n, exec step (reached k) round = some (reached (k + 1))) :
    exec step (reached 0) (List.replicate n round).flatten = some (reached n) := by
  induction n with
  | zero => rfl
  | succ n ih =>
    rw [List.replicate_succ',List.flatten_append,List.flatten_singleton]
    exact exec_append_iff.mpr ⟨reached n,ih fun k less => each k (by omega),each n (Nat.lt_succ_self n)⟩

/-- Running the machine decides whether a list of actions leads into a property. -/
instance {property : S → Prop} [DecidablePred property] (s : S) (actions : List A) :
    Decidable (∃ t, exec step s actions = some t ∧ property t) :=
  match exec step s actions with
  | none => isFalse (by simp)
  | some t => decidable_of_iff (property t) (by simp)

instance decidableGuarded {guard : S → A → Prop} [∀ s a, Decidable (guard s a)] :
    ∀ (s : S) (actions : List A), Decidable (Guarded step guard s actions)
  | _, [] => isTrue trivial
  | s, a :: rest =>
    match taken : step s a with
    | none => decidable_of_iff (guard s a) (by simp [Guarded,taken])
    | some t =>
      have : Decidable (Guarded step guard t rest) := decidableGuarded t rest
      decidable_of_iff (guard s a ∧ Guarded step guard t rest) (by simp [Guarded,taken])

/-- The induction over a run, done once: what every allowed step preserves, a run of allowed
steps does. -/
theorem exec_allowed (invariant : S → Prop) (allowed : A → Prop)
    (preserved : ∀ s a t, invariant s → allowed a → step s a = some t → invariant t)
    {s t : S} {actions : List A} (run : exec step s actions = some t)
    (each : ∀ a ∈ actions, allowed a) (start : invariant s) : invariant t := by
  induction actions generalizing s with
  | nil => cases run; exact start
  | cons a rest ih =>
    obtain ⟨u,first,later⟩ := exec_cons_iff.mp run
    obtain ⟨here,after⟩ := List.forall_mem_cons.mp each
    exact ih later after (preserved _ _ _ start here first)

theorem exec_invariant (invariant : S → Prop)
    (preserved : ∀ s a t, invariant s → step s a = some t → invariant t)
    {s t : S} {actions : List A} (run : exec step s actions = some t)
    (start : invariant s) : invariant t :=
  exec_allowed invariant (fun _ => True) (fun s a t valid _ => preserved s a t valid) run
    (fun _ _ => trivial) start

/-- The same for what a state has to do with the run that led to it. -/
theorem exec_history {start : S} (holds : List A → S → Prop) (first : holds [] start)
    (preserved : ∀ past s a t, holds past s → step s a = some t → holds (past ++ [a]) t)
    {t : S} {actions : List A} (run : exec step start actions = some t) : holds actions t := by
  induction actions using List.reverseRecOn generalizing t with
  | nil => cases run; exact first
  | append_singleton past a ih =>
    obtain ⟨s,before,taken⟩ := exec_snoc_iff.mp run
    exact preserved past s a t (ih before) taken

theorem Along.last {property : S → Prop} {s t : S} {actions : List A}
    (along : Along step property s actions) (run : exec step s actions = some t) :
    property t := by
  induction actions generalizing s with
  | nil => cases run; exact along
  | cons a rest ih =>
    obtain ⟨u,first,later⟩ := exec_cons_iff.mp run
    exact ih (along.2 u first) later

/-- A guarded run keeps an invariant that only guarded steps preserve. -/
theorem Guarded.along {guard : S → A → Prop} {invariant property : S → Prop}
    (preserved : ∀ s a t, invariant s → guard s a → step s a = some t → invariant t)
    (holds : ∀ s, invariant s → property s) {s : S} {actions : List A}
    (start : invariant s) (guarded : Guarded step guard s actions) :
    Along step property s actions := by
  induction actions generalizing s with
  | nil => exact holds s start
  | cons a rest ih =>
    refine ⟨holds s start,?_⟩
    intro t taken
    exact ih (preserved _ _ _ start guarded.1 taken) (guarded.2 t taken)

theorem Guarded.guard {guard : S → A → Prop} {s t : S} {before after : List A} {a : A}
    (guarded : Guarded step guard s (before ++ a :: after)) (run : exec step s before = some t) :
    guard t a := by
  induction before generalizing s with
  | nil =>
    obtain rfl := Option.some.inj run
    exact guarded.1
  | cons b rest ih =>
    obtain ⟨u,first,later⟩ := exec_cons_iff.mp run
    exact ih (guarded.2 u first) later

theorem Guarded.imp {guard other : S → A → Prop} (invariant : S → Prop)
    (preserved : ∀ s a t, invariant s → guard s a → step s a = some t → invariant t)
    (implies : ∀ s a, invariant s → guard s a → other s a) {s : S} {actions : List A}
    (start : invariant s) (guarded : Guarded step guard s actions) :
    Guarded step other s actions := by
  induction actions generalizing s with
  | nil => trivial
  | cons a rest ih =>
    refine ⟨implies s a start guarded.1,?_⟩
    intro t taken
    exact ih (preserved s a t start guarded.1 taken) (guarded.2 t taken)

theorem guarded_congr {guard other : S → A → Prop} (invariant : S → Prop)
    (preserved : ∀ s a t, invariant s → step s a = some t → invariant t)
    (same : ∀ s a, invariant s → (guard s a ↔ other s a)) {s : S} (start : invariant s)
    (actions : List A) : Guarded step guard s actions ↔ Guarded step other s actions := by
  constructor
  · exact Guarded.imp invariant (fun s a t valid _ => preserved s a t valid)
      (fun s a valid => (same s a valid).mp) start
  · exact Guarded.imp invariant (fun s a t valid _ => preserved s a t valid)
      (fun s a valid => (same s a valid).mpr) start

theorem along_invariant {invariant property : S → Prop}
    (preserved : ∀ s a t, invariant s → step s a = some t → invariant t)
    (holds : ∀ s, invariant s → property s) {s : S} (start : invariant s) (actions : List A) :
    Along step property s actions := by
  induction actions generalizing s with
  | nil => exact holds s start
  | cons a rest ih => exact ⟨holds s start,fun t taken => ih (preserved s a t start taken)⟩

/-- The exact condition for a property of all states of a run: guarded steps keep the
invariant behind the property, and an unguarded step taken from it breaks the property. -/
theorem along_iff_guarded {guard : S → A → Prop} {invariant property : S → Prop}
    (preserved : ∀ s a t, invariant s → guard s a → step s a = some t → invariant t)
    (holds : ∀ s, invariant s → property s)
    (breaks : ∀ s a t, invariant s → ¬guard s a → step s a = some t → ¬property t)
    {s t : S} {actions : List A} (start : invariant s)
    (run : exec step s actions = some t) :
    Along step property s actions ↔ Guarded step guard s actions := by
  refine ⟨?_,Guarded.along preserved holds start⟩
  intro along
  induction actions generalizing s with
  | nil => trivial
  | cons a rest ih =>
    obtain ⟨u,first,later⟩ := exec_cons_iff.mp run
    have next : property u := by
      cases rest with
      | nil => exact along.2 u first
      | cons b more => exact (along.2 u first).1
    have allowed : guard s a := by
      by_contra refused
      exact breaks s a u start refused first next
    refine ⟨allowed,?_⟩
    intro v taken
    obtain rfl : u = v := Option.some.inj (first.symm.trans taken)
    exact ih (preserved _ _ _ start allowed first) later (along.2 u first)

/-- The exact condition for a property of the last state, where a step that is not guarded
breaks it for good. -/
theorem last_iff_guarded {guard : S → A → Prop} {property : S → Prop}
    (preserved : ∀ s a t, property s → guard s a → step s a = some t → property t)
    (breaks : ∀ s a t, property s → ¬guard s a → step s a = some t → ¬property t)
    (persists : ∀ s a t, ¬property s → step s a = some t → ¬property t)
    {s t : S} {actions : List A} (start : property s) (run : exec step s actions = some t) :
    property t ↔ Guarded step guard s actions := by
  refine ⟨?_,fun guarded => (guarded.along preserved (fun _ => id) start).last run⟩
  intro last
  induction actions generalizing s with
  | nil => trivial
  | cons a rest ih =>
    obtain ⟨u,first,later⟩ := exec_cons_iff.mp run
    have next : property u := by
      by_contra broken
      exact exec_invariant (fun s => ¬property s) persists later broken last
    have allowed : guard s a := by
      by_contra refused
      exact breaks s a u start refused first next
    refine ⟨allowed,?_⟩
    intro v taken
    obtain rfl : u = v := Option.some.inj (first.symm.trans taken)
    exact ih next later

end Machine
