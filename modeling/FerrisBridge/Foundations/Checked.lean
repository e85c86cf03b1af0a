import Mathlib

/-!
# Checked computations and validation loops

Early returns, fallible updates of a mutable value, and loops whose accumulator is determined by
the elements already visited. `Except ε` models a function that only reads; `EStateM ε σ` models a
function that mutates a value of type `σ` and keeps the mutations made before an error.

`EachAfter` states what a validation loop checks: every element satisfies a predicate of the
elements before it. The rule `foldlM_eq_ok_iff` turns such a loop into an `EachAfter`, and the
remaining lemmas turn an `EachAfter` into statements about the whole list.
-/

namespace Foundations

variable {ε σ α β κ : Type}

/-! ## Early returns -/

/-- `if bad { return Err(message) }`. -/
def rejectIf (bad : Prop) [Decidable bad] (message : ε) : Except ε Unit :=
  if bad then .error message else .ok ()

@[simp]
theorem rejectIf_eq_ok {bad : Prop} [Decidable bad] {message : ε} {u : Unit} :
    rejectIf bad message = .ok u ↔ ¬bad := by
  unfold rejectIf
  split <;> simp_all

/-- `value.ok_or(message)`. -/
def okOr (value : Option α) (message : ε) : Except ε α :=
  match value with
  | some a => .ok a
  | none => .error message

@[simp]
theorem okOr_eq_ok {value : Option α} {message : ε} {a : α} :
    okOr value message = .ok a ↔ value = some a := by
  cases value <;> simp [okOr]

theorem except_bind_eq_ok {x : Except ε α} {f : α → Except ε β} {b : β} :
    (x >>= f) = .ok b ↔ ∃ a, x = .ok a ∧ f a = .ok b := by
  cases x <;> simp [bind, Except.bind]

theorem except_bind_unit_eq_ok {x : Except ε Unit} {f : Unit → Except ε β} {b : β} :
    (x >>= f) = .ok b ↔ x = .ok () ∧ f () = .ok b := by
  rw [except_bind_eq_ok]
  exact ⟨fun ⟨_, h⟩ ↦ h, fun h ↦ ⟨(), h⟩⟩

theorem except_ok_bind {a : α} {f : α → Except ε β} : (Except.ok a >>= f) = f a := rfl

theorem except_map_eq_ok {x : Except ε α} {f : α → β} {b : β} :
    f <$> x = .ok b ↔ ∃ a, x = .ok a ∧ f a = b := by
  cases x <;> simp [Functor.map, Except.map]

@[simp]
theorem except_pure_eq_ok {a b : α} : (pure a : Except ε α) = .ok b ↔ a = b := by
  simp [pure, Except.pure]

@[simp]
theorem except_throw_eq_ok {e : ε} {a : α} : (throw e : Except ε α) ≠ .ok a := by
  simp [throw, throwThe, MonadExceptOf.throw]

/-! ## Fallible updates of a mutable value -/

/-- The `?` operator on the result of a function that does not touch the mutable value. -/
def question (x : Except ε α) : EStateM ε σ α := fun s ↦
  match x with
  | .ok a => .ok a s
  | .error e => .error e s

@[simp]
theorem question_eq_ok {x : Except ε α} {a : α} {s s' : σ} :
    question x s = .ok a s' ↔ x = .ok a ∧ s = s' := by
  cases x <;> simp [question]

theorem question_eq_error {x : Except ε α} {e : ε} {s s' : σ} :
    question x s = .error e s' ↔ x = .error e ∧ s = s' := by
  cases x <;> simp [question]

theorem question_error_state {x : Except ε α} {e : ε} {s s' : σ}
    (h : question x s = .error e s') : s' = s := (question_eq_error.mp h).2.symm

theorem estate_bind_eq_ok {x : EStateM ε σ α} {f : α → EStateM ε σ β} {b : β} {s s'' : σ} :
    (x >>= f) s = .ok b s'' ↔ ∃ a s', x s = .ok a s' ∧ f a s' = .ok b s'' := by
  change EStateM.bind x f s = _ ↔ _
  unfold EStateM.bind
  cases x s <;> simp

theorem estate_ok_bind {x : EStateM ε σ α} {f : α → EStateM ε σ β} {a : α} {s s' : σ}
    (h : x s = .ok a s') : (x >>= f) s = f a s' := by
  change EStateM.bind x f s = _
  rw [EStateM.bind, h]

theorem estate_error_bind {x : EStateM ε σ α} {f : α → EStateM ε σ β} {e : ε} {s s' : σ}
    (h : x s = .error e s') : (x >>= f) s = .error e s' := by
  change EStateM.bind x f s = _
  rw [EStateM.bind, h]

theorem estate_bind_congr {x y : EStateM ε σ α} {f : α → EStateM ε σ β} {s : σ} (h : x s = y s) :
    (x >>= f) s = (y >>= f) s := by
  change EStateM.bind x f s = EStateM.bind y f s
  rw [EStateM.bind, EStateM.bind, h]

theorem estate_bind_eq_error {x : EStateM ε σ α} {f : α → EStateM ε σ β} {e : ε} {s s'' : σ} :
    (x >>= f) s = .error e s'' ↔
      x s = .error e s'' ∨ ∃ a s', x s = .ok a s' ∧ f a s' = .error e s'' := by
  change EStateM.bind x f s = _ ↔ _
  unfold EStateM.bind
  cases x s <;> simp

theorem estate_bind_unit_eq_ok {x : EStateM ε σ Unit} {f : Unit → EStateM ε σ β} {b : β}
    {s s'' : σ} :
    (x >>= f) s = .ok b s'' ↔ ∃ s', x s = .ok () s' ∧ f () s' = .ok b s'' := by
  rw [estate_bind_eq_ok]
  exact ⟨fun ⟨_, h⟩ ↦ h, fun h ↦ ⟨(), h⟩⟩

@[simp]
theorem estate_pure_eq_ok {a b : α} {s s' : σ} :
    (pure a : EStateM ε σ α) s = .ok b s' ↔ a = b ∧ s = s' := by
  simp [pure, EStateM.pure]

@[simp]
theorem estate_modify_eq_ok {f : σ → σ} {u : Unit} {s s' : σ} :
    (modify f : EStateM ε σ Unit) s = .ok u s' ↔ f s = s' := by
  simp [modify, modifyGet, MonadStateOf.modifyGet, EStateM.modifyGet]

@[simp]
theorem estate_get_eq_ok {a s s' : σ} :
    (get : EStateM ε σ σ) s = .ok a s' ↔ s = a ∧ s = s' := by
  simp [get, getThe, MonadStateOf.get, EStateM.get]

/-- `result.map_err(f)` on the result of an update. -/
def mapErr {ε' : Type} (f : ε → ε') (x : EStateM ε σ α) : EStateM ε' σ α := fun s ↦
  match x s with
  | .ok a s' => .ok a s'
  | .error e s' => .error (f e) s'

theorem mapErr_eq_ok {ε' : Type} {f : ε → ε'} {x : EStateM ε σ α} {a : α} {s s' : σ} :
    mapErr f x s = .ok a s' ↔ x s = .ok a s' := by
  unfold mapErr
  cases x s <;> simp

theorem mapErr_of_error {ε' : Type} {f : ε → ε'} {x : EStateM ε σ α} {e : ε} {s s' : σ}
    (h : x s = .error e s') : mapErr f x s = .error (f e) s' := by
  simp only [mapErr, h]

/-- Runs a computation for its effect only. -/
def ignore (x : EStateM ε σ α) : EStateM ε σ Unit := do
  let _ ← x

theorem ignore_eq_ok {x : EStateM ε σ α} {u : Unit} {s s' : σ} :
    ignore x s = .ok u s' ↔ ∃ a, x s = .ok a s' := by
  simp only [ignore, estate_bind_eq_ok, estate_pure_eq_ok]
  exact ⟨fun ⟨a, _, h, _, heq⟩ ↦ ⟨a, heq ▸ h⟩, fun ⟨a, h⟩ ↦ ⟨a, _, h, trivial, rfl⟩⟩

theorem ignore_eq_error {x : EStateM ε σ α} {e : ε} {s s' : σ} :
    ignore x s = .error e s' ↔ x s = .error e s' := by
  rw [ignore, estate_bind_eq_error]
  exact ⟨fun h ↦ h.resolve_right fun ⟨_, _, _, h⟩ ↦ (by cases h), .inl⟩

/-- The value a computation leaves behind, whether it returned or failed. -/
def finalState : EStateM.Result ε σ α → σ
  | .ok _ s => s
  | .error _ s => s

/-- What a computation returned, without the value it leaves behind. -/
def outcome : EStateM.Result ε σ α → Except ε α
  | .ok a _ => .ok a
  | .error e _ => .error e

theorem outcome_eq_ok {result : EStateM.Result ε σ α} {a : α} :
    outcome result = .ok a ↔ result = .ok a (finalState result) := by
  cases result <;> simp [outcome, finalState]

theorem finalState_mapErr {ε' : Type} {f : ε → ε'} {x : EStateM ε σ α} {s : σ} :
    finalState (mapErr f x s) = finalState (x s) := by
  unfold mapErr
  cases x s <;> rfl

theorem finalState_bind_pure {x : EStateM ε σ α} {g : α → β} {s : σ} :
    finalState ((do let a ← x; return g a : EStateM ε σ β) s) = finalState (x s) := by
  cases h : x s with
  | ok a s' =>
    refine (congrArg finalState (estate_ok_bind h)).trans ?_
    rfl
  | error e s' => exact congrArg finalState (estate_error_bind h)

/-! ## Mutable parts of a value -/

/-- Runs an update on one part of a value, keeping its effect also when it fails. -/
def zoom {τ : Type} (part : σ → τ) (put : σ → τ → σ) (update : EStateM ε τ α) : EStateM ε σ α :=
  fun s ↦ match update (part s) with
    | .ok a t => .ok a (put s t)
    | .error e t => .error e (put s t)

theorem zoom_eq_ok {τ : Type} {part : σ → τ} {put : σ → τ → σ} {update : EStateM ε τ α} {a : α}
    {s s' : σ} :
    zoom part put update s = .ok a s' ↔ ∃ t, update (part s) = .ok a t ∧ put s t = s' := by
  unfold zoom
  cases update (part s) <;> simp

theorem zoom_of_error {τ : Type} {part : σ → τ} {put : σ → τ → σ} {update : EStateM ε τ α} {e : ε}
    {s : σ} {t : τ} (h : update (part s) = .error e t) :
    zoom part put update s = .error e (put s t) := by
  simp only [zoom, h]

/-- `iter_mut().find(matching)` followed by a method call on the element, if there is one. -/
def updateFirst? (matching : α → Bool) (update : EStateM ε α β) : EStateM ε (List α) (Option β)
  | [] => .ok none []
  | a :: rest =>
    if matching a then
      match update a with
      | .ok b a' => .ok (some b) (a' :: rest)
      | .error e a' => .error e (a' :: rest)
    else
      match updateFirst? matching update rest with
      | .ok b rest' => .ok b (a :: rest')
      | .error e rest' => .error e (a :: rest')

/-- `iter_mut().find(matching).ok_or(missing)?` followed by a method call on the element. -/
def updateFirst (matching : α → Bool) (missing : ε) (update : EStateM ε α β) :
    EStateM ε (List α) β := do
  match ← updateFirst? matching update with
  | some b => pure b
  | none => throw missing

theorem updateFirst?_eq_ok_none {matching : α → Bool} {update : EStateM ε α β}
    {list list' : List α} (h : updateFirst? matching update list = .ok none list') :
    list' = list ∧ ∀ a ∈ list, matching a = false := by
  induction list generalizing list' with
  | nil => cases h; simp
  | cons x rest ih =>
    unfold updateFirst? at h
    by_cases hx : matching x = true
    · simp only [hx, if_true] at h
      cases hu : update x <;> simp [hu] at h
    · simp only [hx] at h
      cases hr : updateFirst? matching update rest with
      | ok b' rest' =>
        simp only [hr, EStateM.Result.ok.injEq, Bool.false_eq_true, if_false] at h
        obtain ⟨rfl, rfl⟩ := h
        obtain ⟨rfl, hrest⟩ := ih hr
        exact ⟨rfl, by simpa [hx] using hrest⟩
      | error e rest' => simp [hr] at h

theorem updateFirst?_eq_none {matching : α → Bool} {update : EStateM ε α β} {list : List α}
    (h : ∀ a ∈ list, matching a = false) : updateFirst? matching update list = .ok none list := by
  induction list with
  | nil => rfl
  | cons a rest ih =>
    obtain ⟨ha, hrest⟩ := List.forall_mem_cons.mp h
    simp only [updateFirst?, ha, Bool.false_eq_true, if_false, ih hrest]

theorem updateFirst?_eq_some {matching : α → Bool} {update : EStateM ε α β} {b : β} {a a' : α}
    {before after : List α} (hbefore : ∀ x ∈ before, matching x = false) (ha : matching a = true)
    (hupdate : update a = .ok b a') :
    updateFirst? matching update (before ++ a :: after) = .ok (some b) (before ++ a' :: after) := by
  induction before with
  | nil => simp only [List.nil_append, updateFirst?, ha, if_true, hupdate]
  | cons x rest ih =>
    obtain ⟨hx, hrest⟩ := List.forall_mem_cons.mp hbefore
    simp only [List.cons_append, updateFirst?, hx, Bool.false_eq_true, if_false, ih hrest]

theorem updateFirst_eq_some {matching : α → Bool} {missing : ε} {update : EStateM ε α β} {b : β}
    {a a' : α} {before after : List α} (hbefore : ∀ x ∈ before, matching x = false)
    (ha : matching a = true) (hupdate : update a = .ok b a') :
    updateFirst matching missing update (before ++ a :: after) = .ok b (before ++ a' :: after) :=
  (estate_ok_bind (updateFirst?_eq_some hbefore ha hupdate)).trans rfl

/-- A successful update changes exactly the first matching element. -/
theorem updateFirst?_eq_ok_some {matching : α → Bool} {update : EStateM ε α β} {b : β}
    {list list' : List α} (h : updateFirst? matching update list = .ok (some b) list') :
    ∃ before a a' after, list = before ++ a :: after ∧ list' = before ++ a' :: after ∧
      (∀ x ∈ before, matching x = false) ∧ matching a = true ∧ update a = .ok b a' := by
  induction list generalizing list' with
  | nil => cases h
  | cons x rest ih =>
    unfold updateFirst? at h
    by_cases hx : matching x = true
    · simp only [hx, if_true] at h
      cases hu : update x with
      | ok b' x' =>
        simp only [hu, EStateM.Result.ok.injEq, Option.some.injEq] at h
        obtain ⟨rfl, rfl⟩ := h
        exact ⟨[], x, x', rest, rfl, rfl, by simp, hx, hu⟩
      | error e x' => simp [hu] at h
    · simp only [hx] at h
      cases hr : updateFirst? matching update rest with
      | ok b' rest' =>
        simp only [hr, EStateM.Result.ok.injEq, Bool.false_eq_true, if_false] at h
        obtain ⟨rfl, rfl⟩ := h
        obtain ⟨before, a, a', after, rfl, rfl, hbefore, ha, hupdate⟩ := ih hr
        refine ⟨x :: before, a, a', after, rfl, rfl, ?_, ha, hupdate⟩
        simpa [hx] using hbefore
      | error e rest' => simp [hr] at h

theorem updateFirst_eq_ok {matching : α → Bool} {missing : ε} {update : EStateM ε α β} {b : β}
    {list list' : List α} (h : updateFirst matching missing update list = .ok b list') :
    ∃ before a a' after, list = before ++ a :: after ∧ list' = before ++ a' :: after ∧
      (∀ x ∈ before, matching x = false) ∧ matching a = true ∧ update a = .ok b a' := by
  rw [updateFirst, estate_bind_eq_ok] at h
  obtain ⟨result, found, hfirst, h⟩ := h
  cases result with
  | none => cases h
  | some b' =>
    obtain ⟨rfl, rfl⟩ := estate_pure_eq_ok.mp h
    exact updateFirst?_eq_ok_some hfirst

/-- The element that an update changes is the one that a search finds. -/
theorem find?_split {matching : α → Bool} {before after : List α} {a : α}
    (hbefore : ∀ x ∈ before, matching x = false) (ha : matching a = true) :
    (before ++ a :: after).find? matching = some a := by
  rw [List.find?_append, List.find?_eq_none.mpr fun x hx ↦ by simp [hbefore x hx], Option.none_or,
    List.find?_cons_of_pos ha]

/-- `for element in &mut list`, with an accumulator and early returns in the body. -/
def forEachMut (body : β → EStateM ε α β) (acc : β) : EStateM ε (List α) β
  | [] => .ok acc []
  | a :: rest =>
    match body acc a with
    | .error e a' => .error e (a' :: rest)
    | .ok acc' a' =>
      match forEachMut body acc' rest with
      | .ok acc'' rest' => .ok acc'' (a' :: rest')
      | .error e rest' => .error e (a' :: rest')

private theorem forEachMut_invariant_from {body : β → EStateM ε α β} {P : β → List α → List α → Prop}
    (hbody : ∀ acc done done' a acc' a', P acc done done' → body acc a = .ok acc' a' →
      P acc' (done ++ [a]) (done' ++ [a']))
    {list list' done done' : List α} {acc acc' : β} (hdone : P acc done done')
    (h : forEachMut body acc list = .ok acc' list') : P acc' (done ++ list) (done' ++ list') := by
  induction list generalizing list' done done' acc with
  | nil =>
    cases h
    simpa using hdone
  | cons a rest ih =>
    unfold forEachMut at h
    cases hstep : body acc a with
    | error e a' => simp [hstep] at h
    | ok acc₁ a' =>
      cases hrest : forEachMut body acc₁ rest with
      | error e rest' => simp [hstep, hrest] at h
      | ok acc₂ rest' =>
        simp only [hstep, hrest, EStateM.Result.ok.injEq] at h
        obtain ⟨rfl, rfl⟩ := h
        simpa using ih (hbody _ _ _ _ _ _ hdone hstep) hrest

/-- The invariant rule of the loop: what every iteration extends to one more element holds of the
whole list and its result. -/
theorem forEachMut_invariant {body : β → EStateM ε α β} (P : β → List α → List α → Prop)
    (hbody : ∀ acc done done' a acc' a', P acc done done' → body acc a = .ok acc' a' →
      P acc' (done ++ [a]) (done' ++ [a']))
    {list list' : List α} {acc acc' : β} (hinit : P acc [] [])
    (h : forEachMut body acc list = .ok acc' list') : P acc' list list' :=
  forEachMut_invariant_from hbody hinit h

/-- A loop whose body never fails on the elements of the list folds over them and changes each. -/
theorem forEachMut_eq {body : β → EStateM ε α β} (next : β → α → β) (change : α → α)
    {list : List α} (hbody : ∀ acc, ∀ a ∈ list, body acc a = .ok (next acc a) (change a)) (acc : β) :
    forEachMut body acc list = .ok (list.foldl next acc) (list.map change) := by
  induction list generalizing acc with
  | nil => rfl
  | cons a rest ih =>
    have hrest := ih (fun acc a ha ↦ hbody acc a (List.mem_cons_of_mem _ ha)) (next acc a)
    simp only [forEachMut, hbody acc a List.mem_cons_self, hrest, List.foldl_cons, List.map_cons]

/-- A method that computes its result before it touches the value. -/
def inPlace (update : σ → Except ε σ) : EStateM ε σ Unit := do
  let updated ← question (update (← get))
  set updated

/-! ## Updates that are all or nothing -/

/-- A computation that fails leaves the value as it was. -/
def Atomic (x : EStateM ε σ α) : Prop := ∀ s e s', x s = .error e s' → s' = s

/-- A computation that never fails. -/
def Total (x : EStateM ε σ α) : Prop := ∀ s e s', x s ≠ .error e s'

theorem Total.modify {f : σ → σ} : Total (modify f : EStateM ε σ Unit) := nofun

theorem Total.pure {a : α} : Total (pure a : EStateM ε σ α) := nofun

theorem Total.get : Total (get : EStateM ε σ σ) := nofun

theorem Total.bind {x : EStateM ε σ α} {f : α → EStateM ε σ β} (hx : Total x)
    (hf : ∀ a, Total (f a)) : Total (x >>= f) := by
  intro s e s'' h
  rcases estate_bind_eq_error.mp h with h | ⟨a, s', -, h⟩
  · exact hx s e s'' h
  · exact hf a s' e s'' h

theorem Total.atomic {x : EStateM ε σ α} (h : Total x) : Atomic x :=
  fun s e s' herror ↦ absurd herror (h s e s')

namespace Atomic

theorem question {x : Except ε α} : Atomic (question x : EStateM ε σ α) :=
  fun _ _ _ ↦ question_error_state

theorem throw {e : ε} : Atomic (throw e : EStateM ε σ α) := fun _ _ _ h ↦ by
  cases h
  rfl

/-- What follows may fail when the first computation has not changed the value. -/
theorem bind {x : EStateM ε σ α} {f : α → EStateM ε σ β} (hx : Atomic x)
    (hkeep : ∀ s a s', x s = .ok a s' → s' = s) (hf : ∀ a, Atomic (f a)) : Atomic (x >>= f) := by
  intro s e s'' h
  rcases estate_bind_eq_error.mp h with h | ⟨a, s', hok, h⟩
  · exact hx s e s'' h
  · rw [hf a s' e s'' h, hkeep s a s' hok]

theorem get_bind {f : σ → EStateM ε σ β} (hf : ∀ s, Atomic (f s)) : Atomic (get >>= f) :=
  bind nofun (fun _ _ _ h ↦ (estate_get_eq_ok.mp h).2.symm) hf

theorem question_bind {x : Except ε α} {f : α → EStateM ε σ β} (hf : ∀ a, Atomic (f a)) :
    Atomic (Foundations.question x >>= f) :=
  bind .question (fun _ _ _ h ↦ (question_eq_ok.mp h).2.symm) hf

theorem inPlace {update : σ → Except ε σ} : Atomic (inPlace update : EStateM ε σ Unit) :=
  get_bind fun _ ↦ question_bind fun _ ↦ nofun

/-- What follows a change must not fail. -/
theorem bind_total {x : EStateM ε σ α} {f : α → EStateM ε σ β} (hx : Atomic x)
    (hf : ∀ a, Total (f a)) : Atomic (x >>= f) := by
  intro s e s'' h
  rcases estate_bind_eq_error.mp h with h | ⟨a, s', -, h⟩
  · exact hx s e s'' h
  · exact absurd h (hf a s' e s'')

theorem ignore {x : EStateM ε σ α} (hx : Atomic x) : Atomic (ignore x) :=
  hx.bind_total fun _ ↦ .pure

theorem zoom {τ : Type} {part : σ → τ} {put : σ → τ → σ} {update : EStateM ε τ α}
    (hput : ∀ s, put s (part s) = s) (hupdate : Atomic update) :
    Atomic (zoom part put update) := by
  intro s e s' h
  unfold Foundations.zoom at h
  cases hresult : update (part s) with
  | ok a t => simp [hresult] at h
  | error e' t =>
    simp only [hresult, EStateM.Result.error.injEq] at h
    rw [← h.2, hupdate _ _ _ hresult, hput]

theorem updateFirst? {matching : α → Bool} {update : EStateM ε α β} (hupdate : Atomic update) :
    Atomic (updateFirst? matching update) := by
  intro list
  induction list with
  | nil => exact nofun
  | cons a rest ih =>
    intro e list' h
    unfold Foundations.updateFirst? at h
    by_cases ha : matching a = true
    · simp only [ha, if_true] at h
      cases hresult : update a with
      | ok b a' => simp [hresult] at h
      | error e' a' =>
        simp only [hresult, EStateM.Result.error.injEq] at h
        rw [← h.2, hupdate _ _ _ hresult]
    · simp only [ha, Bool.false_eq_true, if_false] at h
      cases hresult : Foundations.updateFirst? matching update rest with
      | ok b rest' => simp [hresult] at h
      | error e' rest' =>
        simp only [hresult, EStateM.Result.error.injEq] at h
        rw [← h.2, ih _ _ hresult]

theorem updateFirst {matching : α → Bool} {missing : ε} {update : EStateM ε α β}
    (hupdate : Atomic update) : Atomic (updateFirst matching missing update) := by
  intro list e list' h
  rcases estate_bind_eq_error.mp h with h | ⟨result, found, hfound, h⟩
  · exact hupdate.updateFirst? list e list' h
  · cases result with
    | some b => cases h
    | none =>
      rw [Atomic.throw found e list' h]
      exact (updateFirst?_eq_ok_none hfound).1

end Atomic

/-! ## Loops whose accumulator is determined by the visited elements -/

/-- Every element satisfies `P` of the elements visited before it. -/
def EachAfter (P : List α → α → Prop) : List α → List α → Prop
  | _, [] => True
  | done, a :: rest => P done a ∧ EachAfter P (done ++ [a]) rest

private theorem foldlM_eq_ok_iff_from {step : σ → α → Except ε σ} {acc : List α → σ}
    {P : List α → α → Prop} {done list : List α}
    (hstep : ∀ visited a, visited ++ [a] <+: done ++ list → ∀ s',
      step (acc visited) a = .ok s' ↔ P visited a ∧ acc (visited ++ [a]) = s') (s' : σ) :
    list.foldlM step (acc done) = .ok s' ↔ EachAfter P done list ∧ acc (done ++ list) = s' := by
  induction list generalizing done with
  | nil => simp [EachAfter]
  | cons a rest ih =>
    have hsplit : done ++ a :: rest = done ++ [a] ++ rest := by simp
    rw [hsplit] at hstep ⊢
    simp only [List.foldlM_cons, except_bind_eq_ok, EachAfter,
      hstep done a (List.prefix_append _ _)]
    constructor
    · rintro ⟨_, ⟨hP, rfl⟩, hrest⟩
      obtain ⟨hEach, rfl⟩ := (ih hstep).mp hrest
      exact ⟨⟨hP, hEach⟩, rfl⟩
    · rintro ⟨⟨hP, hEach⟩, rfl⟩
      exact ⟨_, ⟨hP, rfl⟩, (ih hstep).mpr ⟨hEach, rfl⟩⟩

/-- A fold whose step succeeds exactly under `P` and whose accumulator is `acc` of the visited
elements succeeds exactly when every element satisfies `P`. -/
theorem foldlM_eq_ok_iff {step : σ → α → Except ε σ} (acc : List α → σ) (P : List α → α → Prop)
    {list : List α}
    (hstep : ∀ visited a, visited ++ [a] <+: list → ∀ s',
      step (acc visited) a = .ok s' ↔ P visited a ∧ acc (visited ++ [a]) = s') (s' : σ) :
    list.foldlM step (acc []) = .ok s' ↔ EachAfter P [] list ∧ acc list = s' :=
  foldlM_eq_ok_iff_from hstep s'

/-- A fold keeps what each of its steps keeps. -/
theorem foldlM_keeps {step : σ → α → Except ε σ} (P : σ → Prop) {list : List α}
    (hstep : ∀ a ∈ list, ∀ s s', step s a = .ok s' → P s → P s') {s s' : σ}
    (h : list.foldlM step s = .ok s') (hs : P s) : P s' := by
  induction list generalizing s with
  | nil =>
    obtain rfl := Except.ok.inj h
    exact hs
  | cons a rest ih =>
    rw [List.foldlM_cons, except_bind_eq_ok] at h
    obtain ⟨next, hnext, hrest⟩ := h
    have hkept := hstep a List.mem_cons_self s next hnext hs
    exact ih (fun b hb ↦ hstep b (List.mem_cons_of_mem a hb)) hrest hkept

theorem forM_eq_ok_iff {f : α → Except ε Unit} {list : List α} {u : Unit} :
    list.forM f = .ok u ↔ ∀ a ∈ list, f a = .ok () := by
  induction list with
  | nil => simp
  | cons a rest ih =>
    rw [List.forM_eq_forM] at ih
    simp [except_bind_unit_eq_ok, ih]

theorem forM_eq_error {f : α → Except ε Unit} {list : List α} {e : ε}
    (h : list.forM f = .error e) : ∃ a ∈ list, f a = .error e := by
  induction list with
  | nil => cases h
  | cons a rest ih =>
    rw [List.forM_eq_forM, List.forM_cons] at h
    cases ha : f a with
    | error e' =>
      rw [ha] at h
      exact ⟨a, List.mem_cons_self, ha.trans h⟩
    | ok u =>
      rw [ha, except_ok_bind] at h
      obtain ⟨b, hb, hfb⟩ := ih h
      exact ⟨b, List.mem_cons_of_mem _ hb, hfb⟩

/-- Collecting the results of a fallible map. -/
theorem mapM_eq_ok_iff {f : α → Except ε β} {list : List α} {results : List β} :
    list.mapM f = .ok results ↔ List.Forall₂ (fun a b ↦ f a = .ok b) list results := by
  induction list generalizing results with
  | nil => rw [List.mapM_nil, except_pure_eq_ok, List.forall₂_nil_left_iff, eq_comm]
  | cons a rest ih =>
    rw [List.mapM_cons, except_bind_eq_ok]
    simp only [except_bind_eq_ok, except_pure_eq_ok, ih]
    constructor
    · rintro ⟨b, hb, bs, hbs, rfl⟩
      exact .cons hb hbs
    · rintro (_ | ⟨hb, hbs⟩)
      exact ⟨_, hb, _, hbs, rfl⟩

namespace EachAfter

variable {P Q : List α → α → Prop} {R : α → α → Prop} {done list left right : List α}

theorem append :
    EachAfter P done (left ++ right) ↔ EachAfter P done left ∧ EachAfter P (done ++ left) right := by
  induction left generalizing done with
  | nil => simp [EachAfter]
  | cons a rest ih => simp [EachAfter, ih, and_assoc]

theorem and :
    EachAfter (fun done a ↦ P done a ∧ Q done a) done list ↔
      EachAfter P done list ∧ EachAfter Q done list := by
  induction list generalizing done with
  | nil => simp [EachAfter]
  | cons a rest ih => simp only [EachAfter, ih]; tauto

theorem congr (h : ∀ done a, P done a ↔ Q done a) :
    EachAfter P done list ↔ EachAfter Q done list := by
  simp only [show P = Q from funext fun done ↦ funext fun a ↦ propext (h done a)]

/-- A check that ignores the visited elements. -/
theorem const {p : α → Prop} : EachAfter (fun _ a ↦ p a) done list ↔ ∀ a ∈ list, p a := by
  induction list generalizing done with
  | nil => simp [EachAfter]
  | cons a rest ih => simp [EachAfter, ih]

theorem forall_before :
    EachAfter (fun done a ↦ ∀ b ∈ done, R b a) done list ↔
      list.Pairwise R ∧ ∀ b ∈ done, ∀ a ∈ list, R b a := by
  induction list generalizing done with
  | nil => simp [EachAfter]
  | cons a rest ih =>
    simp only [EachAfter, ih, List.pairwise_cons, List.mem_append, List.mem_cons,
      List.not_mem_nil, or_false]
    constructor
    · rintro ⟨hdone, hrest, hboth⟩
      refine ⟨⟨fun c hc ↦ hboth a (.inr rfl) c hc, hrest⟩, ?_⟩
      rintro b hb c (rfl | hc)
      · exact hdone b hb
      · exact hboth b (.inl hb) c hc
    · rintro ⟨⟨ha, hrest⟩, hboth⟩
      refine ⟨fun b hb ↦ hboth b hb a (.inl rfl), hrest, ?_⟩
      rintro b (hb | rfl) c hc
      · exact hboth b hb c (.inr hc)
      · exact ha c hc

/-- Comparing each element with all the elements before it. -/
theorem pairwise : EachAfter (fun done a ↦ ∀ b ∈ done, R b a) [] list ↔ list.Pairwise R := by
  simp [forall_before]

/-- A duplicate check against the keys already seen. -/
theorem nodup (key : α → κ) :
    EachAfter (fun done a ↦ key a ∉ done.map key) [] list ↔ (list.map key).Nodup := by
  rw [List.Nodup, List.pairwise_map, ← pairwise]
  refine congr fun done a ↦ ?_
  simp only [List.mem_map, not_exists, not_and]

/-- A list without duplicates visits no element twice. -/
theorem nodup_self : EachAfter (fun done a ↦ a ∉ done) [] list ↔ list.Nodup := by
  simpa using nodup fun a : α ↦ a

private theorem shift_append {visited : List α} :
    EachAfter (fun done a ↦ P (visited ++ done) a) done list ↔
      EachAfter P (visited ++ done) list := by
  induction list generalizing done with
  | nil => simp [EachAfter]
  | cons a rest ih => simp [EachAfter, ih]

/-- A loop that starts with some elements already visited. -/
theorem shift {visited : List α} :
    EachAfter (fun done a ↦ P (visited ++ done) a) [] list ↔ EachAfter P visited list := by
  rw [shift_append, List.append_nil]

/-- A loop in a loop is one loop over all the inner elements. -/
theorem flatMap (P : List α → α → Prop) (f : β → List α) (done list : List β) :
    EachAfter (fun done b ↦ EachAfter P (done.flatMap f) (f b)) done list ↔
      EachAfter P (done.flatMap f) (list.flatMap f) := by
  induction list generalizing done with
  | nil => simp [EachAfter]
  | cons b rest ih => simp [EachAfter, ih, append, List.flatMap_append]

theorem map {f : β → α} {done list : List β} :
    EachAfter (fun done b ↦ P (done.map f) (f b)) done list ↔
      EachAfter P (done.map f) (list.map f) := by
  induction list generalizing done with
  | nil => simp [EachAfter]
  | cons b rest ih => simp [EachAfter, ih]

end EachAfter

end Foundations
