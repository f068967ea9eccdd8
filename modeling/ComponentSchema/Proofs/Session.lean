import ComponentSchema.Registration

/-!
# Outcomes of a session

A step of a compilation is known by its outcome: a result or an error, and the
progress it leaves. `Yields` is a successful outcome and `Fails` one with an error;
both are taken apart at each bind.
-/

namespace ComponentSchema

open Registration

variable {α β : Type}

/-- What a step ends with, and the progress it leaves. -/
def outcome (step : Session α) (p : Progress) : Except SchemaError α × Progress :=
  step.run.run p

/-- The step succeeds with a value and leaves `q`. -/
def Yields (step : Session α) (p : Progress) (value : α) (q : Progress) : Prop :=
  outcome step p = (.ok value, q)

theorem Yields.left {step : Session α} {p q : Progress} {value : α}
    (h : Yields step p value q) : (outcome step p).2 = q := by
  rw [h]

/-! ## Outcomes of the basic steps -/

theorem outcome_pure (value : α) (p : Progress) :
    outcome (pure value) p = (.ok value, p) := rfl

theorem outcome_bind (x : Session α) (f : α → Session β) (p : Progress) :
    outcome (x >>= f) p = match outcome x p with
      | (.ok value, q) => outcome (f value) q
      | (.error e, q) => (.error e, q) := by
  have h : outcome (x >>= f) p = (match outcome x p with
    | (result, q) => (ExceptT.bindCont f result : StateM Progress (Except SchemaError β)).run q) :=
    rfl
  rw [h]
  rcases outcome x p with ⟨_ | _, _⟩ <;> rfl

theorem outcome_refuse (path : List String) (defect : Defect) (p : Progress) :
    outcome (refuse path defect : Session α) p = (.error (.below path defect), p) := rfl

theorem outcome_isBound (name : String) (p : Progress) :
    outcome (isBound name) p = (.ok (p.registry.contains name), p) := rfl

/-- What follows a look at the registry sees the registry as it is. -/
theorem outcome_isBound_bind (name : String) (f : Bool → Session β) (p : Progress) :
    outcome (isBound name >>= f) p = outcome (f (p.registry.contains name)) p := by
  rw [outcome_bind, outcome_isBound]

theorem outcome_get (p : Progress) : outcome get p = (.ok p, p) := rfl

theorem outcome_modify (f : Progress → Progress) (p : Progress) :
    outcome (modify f) p = (.ok (), f p) := rfl

theorem refuse_bind (path : List String) (defect : Defect) (f : α → Session β) :
    (refuse path defect >>= f) = refuse path defect := rfl

/-- The name is reserved before the step, and released after it on both exits. -/
theorem outcome_reserving (name : String) (step : Session Unit) (p : Progress) :
    outcome (reserving name step) p = ((outcome step (p.update (·.reserve name))).1,
      (outcome step (p.update (·.reserve name))).2.update (·.release name)) := rfl

/-! ## Successful outcomes -/

@[simp] theorem yields_pure {p q : Progress} {value result : α} :
    Yields (pure value) p result q ↔ value = result ∧ p = q := by
  simp [Yields, outcome_pure]

@[simp] theorem yields_bind {x : Session α} {f : α → Session β} {p q : Progress} {result : β} :
    Yields (x >>= f) p result q ↔ ∃ value m, Yields x p value m ∧ Yields (f value) m result q := by
  rw [Yields, outcome_bind]
  rcases h : outcome x p with ⟨_ | value, m⟩
  · simp [Yields, h]
  · simp [Yields, h, and_assoc]

@[simp] theorem yields_refuse {path : List String} {defect : Defect} {p q : Progress} {value : α} :
    ¬ Yields (refuse path defect) p value q := by
  simp [Yields, outcome_refuse]

@[simp high] theorem yields_isBound_bind {name : String} {f : Bool → Session β} {p q : Progress}
    {result : β} :
    Yields (isBound name >>= f) p result q ↔ Yields (f (p.registry.contains name)) p result q := by
  rw [Yields, outcome_isBound_bind, Yields]

@[simp high] theorem yields_get_bind {f : Progress → Session β} {p q : Progress} {result : β} :
    Yields (get >>= f) p result q ↔ Yields (f p) p result q := by
  rw [Yields, outcome_bind, outcome_get, Yields]

@[simp] theorem yields_modify {f : Progress → Progress} {p q : Progress} {value : Unit} :
    Yields (modify f) p value q ↔ f p = q := by
  simp [Yields, outcome_modify]

@[simp] theorem yields_map {f : α → β} {x : Session α} {p q : Progress} {result : β} :
    Yields (f <$> x) p result q ↔ ∃ value, Yields x p value q ∧ f value = result := by
  rw [← bind_pure_comp, yields_bind]
  simp only [yields_pure]
  constructor
  · intro hy
    obtain ⟨value, _, hx, rfl, rfl⟩ := hy
    exact ⟨value, hx, rfl⟩
  · intro hy
    obtain ⟨value, hx, rfl⟩ := hy
    exact ⟨value, q, hx, rfl, rfl⟩

@[simp] theorem yields_discard {x : Session α} {p q : Progress} {value : Unit} :
    Yields (discard x) p value q ↔ ∃ result, Yields x p result q := by
  have h : discard x = (fun _ => ()) <$> x := rfl
  rw [h, yields_map]
  simp

theorem yields_reserving {name : String} {step : Session Unit} {p q : Progress} {value : Unit} :
    Yields (reserving name step) p value q ↔
      ∃ m, Yields step (p.update (·.reserve name)) () m ∧ m.update (·.release name) = q := by
  rw [Yields, outcome_reserving]
  rcases h : outcome step (p.update (·.reserve name)) with ⟨_ | _, m⟩ <;> simp [Yields, h]

/-! ## Failing outcomes -/

/-- The step ends with an error. -/
def Fails (step : Session α) (p : Progress) (e : SchemaError) : Prop :=
  (outcome step p).1 = .error e

@[simp] theorem fails_pure {p : Progress} {value : α} {e : SchemaError} :
    ¬ Fails (pure value) p e := by
  simp [Fails, outcome_pure]

/-- The second step fails where the first one left the progress. -/
@[simp] theorem fails_bind {x : Session α} {f : α → Session β} {p : Progress} {e : SchemaError} :
    Fails (x >>= f) p e ↔ Fails x p e ∨ ∃ value m, Yields x p value m ∧ Fails (f value) m e := by
  rw [Fails, outcome_bind]
  rcases h : outcome x p with ⟨_ | value, m⟩
  · simp [Fails, Yields, h]
  · simp [Fails, Yields, h, and_assoc]

@[simp] theorem fails_refuse {path : List String} {defect : Defect} {p : Progress}
    {e : SchemaError} : Fails (refuse path defect : Session α) p e ↔ e = .below path defect := by
  simp [Fails, outcome_refuse, eq_comm]

@[simp high] theorem fails_isBound_bind {name : String} {f : Bool → Session β} {p : Progress}
    {e : SchemaError} :
    Fails (isBound name >>= f) p e ↔ Fails (f (p.registry.contains name)) p e := by
  rw [Fails, outcome_isBound_bind, Fails]

@[simp high] theorem fails_get_bind {f : Progress → Session β} {p : Progress} {e : SchemaError} :
    Fails (get >>= f) p e ↔ Fails (f p) p e := by
  rw [Fails, outcome_bind, outcome_get, Fails]

@[simp] theorem fails_modify {f : Progress → Progress} {p : Progress} {e : SchemaError} :
    ¬ Fails (modify f) p e := by
  simp [Fails, outcome_modify]

@[simp] theorem fails_map {f : α → β} {x : Session α} {p : Progress} {e : SchemaError} :
    Fails (f <$> x) p e ↔ Fails x p e := by
  rw [← bind_pure_comp, fails_bind]
  simp

@[simp] theorem fails_discard {x : Session α} {p : Progress} {e : SchemaError} :
    Fails (discard x) p e ↔ Fails x p e := by
  have h : discard x = (fun _ => ()) <$> x := rfl
  rw [h, fails_map]

@[simp] theorem fails_reserving {name : String} {step : Session Unit} {p : Progress}
    {e : SchemaError} :
    Fails (reserving name step) p e ↔ Fails step (p.update (·.reserve name)) e := by
  rw [Fails, outcome_reserving, Fails]

/-! ## Steps with one outcome -/

/-- Two sequences have one outcome if their first steps do, and their second steps do
where the first one leaves the progress. -/
theorem outcome_bind_congr {x x' : Session α} {f f' : α → Session β} {p : Progress}
    (hx : outcome x' p = outcome x p)
    (hf : ∀ {value m}, Yields x p value m → outcome (f' value) m = outcome (f value) m) :
    outcome (x' >>= f') p = outcome (x >>= f) p := by
  rw [outcome_bind, outcome_bind, hx]
  rcases h : outcome x p with ⟨_ | value, m⟩
  · rfl
  · exact hf h

theorem outcome_reserving_congr {name : String} {step step' : Session Unit} {p : Progress}
    (h : outcome step' (p.update (·.reserve name)) = outcome step (p.update (·.reserve name))) :
    outcome (reserving name step') p = outcome (reserving name step) p := by
  rw [outcome_reserving, outcome_reserving, h]

theorem outcome_discard_congr {x x' : Session α} {p : Progress}
    (h : outcome x' p = outcome x p) : outcome (discard x') p = outcome (discard x) p := by
  have hd : ∀ y : Session α, discard y = y >>= fun _ => pure () := by
    intro y
    rw [bind_pure_comp]
    rfl
  rw [hd, hd]
  exact outcome_bind_congr h fun _ => rfl

end ComponentSchema
