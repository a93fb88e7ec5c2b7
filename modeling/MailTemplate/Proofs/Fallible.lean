import MailTemplate.Unfinished
import Mathlib.Tactic.Common

/-!
# Results That May Fail

How a computation that may fail comes to succeed: each of its steps has succeeded before.

* `Related` compares two computations by their outcomes, whatever the errors are.
* `Unfinished.liftM_refused_eq_ok_iff` and `Unfinished.liftM_endless_eq_ok_iff` are about steps that
  are lifted into a computation that may be refused and may also never end.
* `outcome` is what a computation comes to, without its error.
-/

namespace MailTemplate

variable {ε α β γ δ : Type}

@[simp]
theorem ok_bind (a : α) (f : α → Except ε β) : Except.ok a >>= f = f a := rfl

theorem bind_eq_ok_iff {x : Except ε α} {f : α → Except ε β} {b : β} :
    x >>= f = .ok b ↔ ∃ a, x = .ok a ∧ f a = .ok b := by
  constructor
  · intro h
    cases x with
    | ok a => exact ⟨a, rfl, h⟩
    | error e => cases h
  · rintro ⟨a, rfl, h⟩
    exact h

theorem bind_eq_error_iff {x : Except ε α} {f : α → Except ε β} {e : ε} :
    x >>= f = .error e ↔ x = .error e ∨ ∃ a, x = .ok a ∧ f a = .error e := by
  cases x with
  | ok a =>
    exact ⟨fun h => .inr ⟨a, rfl, h⟩, fun h => h.elim nofun fun ⟨_, ha, h⟩ => Except.ok.inj ha ▸ h⟩
  | error e' =>
    exact ⟨fun h => .inl (congrArg _ (Except.error.inj h)),
      fun h => h.elim (fun h => congrArg _ (Except.error.inj h)) nofun⟩

theorem bind_pure_eq_error_iff {x : Except ε α} {f : α → β} {e : ε} :
    x >>= (fun a => pure (f a)) = .error e ↔ x = .error e := by
  rw [bind_eq_error_iff]
  exact or_iff_left fun ⟨_, _, h⟩ => nomatch h

theorem map_eq_ok_iff {x : Except ε α} {f : α → β} {b : β} :
    f <$> x = .ok b ↔ ∃ a, x = .ok a ∧ f a = b := by
  constructor
  · intro h
    cases x with
    | ok a => exact ⟨a, rfl, Except.ok.inj h⟩
    | error e => cases h
  · rintro ⟨a, rfl, rfl⟩
    rfl

theorem map_eq_error_iff {x : Except ε α} {f : α → β} {e : ε} :
    f <$> x = .error e ↔ x = .error e := by
  cases x with
  | ok a => exact iff_of_false (fun h => nomatch h) fun h => nomatch h
  | error e' =>
    show Except.error e' = .error e ↔ _
    rw [Except.error.injEq, Except.error.injEq]

theorem isOk_iff_exists {x : Except ε α} : x.isOk = true ↔ ∃ a, x = .ok a := by
  cases x with
  | ok a => exact iff_of_true rfl ⟨a, rfl⟩
  | error e => exact iff_of_false Bool.false_ne_true fun ⟨_, h⟩ => nomatch h

theorem not_isOk_iff_exists {x : Except ε α} : ¬x.isOk = true ↔ ∃ e, x = .error e := by
  cases x with
  | ok a => exact iff_of_false (fun h => h rfl) fun ⟨_, h⟩ => nomatch h
  | error e => exact iff_of_true Bool.false_ne_true ⟨e, rfl⟩

@[simp]
theorem isOk_map (f : α → β) (x : Except ε α) : (f <$> x).isOk = x.isOk := by
  cases x <;> rfl

theorem isOk_bind_iff {x : Except ε α} {f : α → Except ε β} :
    (x >>= f).isOk = true ↔ ∃ a, x = .ok a ∧ (f a).isOk = true := by
  cases x with
  | ok a => exact ⟨fun h => ⟨a, rfl, h⟩, fun ⟨_, ha, h⟩ => Except.ok.inj ha ▸ h⟩
  | error e => exact iff_of_false Bool.false_ne_true fun ⟨_, h, _⟩ => nomatch h

theorem map_injective {f : α → β} (hf : Function.Injective f) :
    Function.Injective fun x : Except ε α => f <$> x := by
  intro x y heq
  cases x with
  | error e =>
    cases y with
    | error e' =>
      cases heq
      rfl
    | ok b => cases heq
  | ok a =>
    cases y with
    | error e => cases heq
    | ok b => exact congrArg Except.ok (hf (Except.ok.inj heq))

/-- Two computations that are the same but for what a function hides stay so if they are carried on
by steps that are. -/
theorem map_bind_congr {f : α → γ} {k : β → δ} {x y : Except ε α} {g g' : α → Except ε β}
    (hxy : f <$> x = f <$> y) (hg : ∀ a b, f a = f b → k <$> g a = k <$> g' b) :
    k <$> (x >>= g) = k <$> (y >>= g') := by
  cases x with
  | error e =>
    cases y with
    | error e' =>
      cases hxy
      rfl
    | ok b => cases hxy
  | ok a =>
    cases y with
    | error e => cases hxy
    | ok b => exact hg a b (Except.ok.inj hxy)

theorem pure_eq_ok_iff {a b : α} : (pure a : Except ε α) = .ok b ↔ a = b :=
  Except.ok.injEq a b ▸ Iff.rfl

/-- A check that fails ends the computation. -/
theorem guard_eq_ok_iff {c : Prop} [Decidable c] {e : ε} {f : α → Except ε β} {x : Except ε β}
    {b : β} : (if c then throw e >>= f else x) = .ok b ↔ ¬ c ∧ x = .ok b := by
  by_cases hc : c
  · rw [if_pos hc]
    exact ⟨fun h => (by cases h), fun h => absurd hc h.1⟩
  · rw [if_neg hc]
    exact (and_iff_right hc).symm

theorem guard_eq_error_iff {c : Prop} [Decidable c] {e e' : ε} {f : α → Except ε β}
    {x : Except ε β} :
    (if c then throw e >>= f else x) = .error e' ↔ c ∧ e = e' ∨ ¬ c ∧ x = .error e' := by
  by_cases hc : c
  · rw [if_pos hc]
    exact ⟨fun h => .inl ⟨hc, Except.error.inj h⟩,
      fun h => h.elim (fun h => congrArg _ h.2) fun h => absurd hc h.1⟩
  · rw [if_neg hc]
    exact ⟨fun h => .inr ⟨hc, h⟩, fun h => h.elim (fun h => absurd h.1 hc) And.right⟩

/-- A check that comes out the same way does not keep two computations apart; what follows it may
rely on the check. -/
theorem guard_eq_map_guard_of_not {c c' : Prop} [Decidable c] [Decidable c'] {e : ε} {k : α → β}
    {f : γ → Except ε β} {f' : δ → Except ε α} {x : Except ε β} {y : Except ε α} (hc : c ↔ c')
    (hxy : ¬ c' → x = k <$> y) :
    (if c then throw e >>= f else x) = k <$> if c' then throw e >>= f' else y := by
  by_cases h : c'
  · rw [if_pos (hc.2 h), if_pos h]
    rfl
  · rw [if_neg (mt hc.1 h), if_neg h, hxy h]

/-- A check that comes out the same way does not keep two computations apart. -/
theorem guard_eq_map_guard {c c' : Prop} [Decidable c] [Decidable c'] {e : ε} {k : α → β}
    {f : γ → Except ε β} {f' : δ → Except ε α} {x : Except ε β} {y : Except ε α} (hc : c ↔ c')
    (hxy : x = k <$> y) :
    (if c then throw e >>= f else x) = k <$> if c' then throw e >>= f' else y :=
  guard_eq_map_guard_of_not hc fun _ => hxy

theorem map_bind_pure (k : β → γ) (f : α → β) (x : Except ε α) :
    k <$> (x >>= fun a => pure (f a)) = (fun a => k (f a)) <$> x := by
  cases x <;> rfl

/-! ## Comparing outcomes -/

/-- Two computations both fail, or both succeed with related outcomes. -/
inductive Related (R : α → β → Prop) : Except ε α → Except ε β → Prop
  | ok {a : α} {b : β} (h : R a b) : Related R (.ok a) (.ok b)
  | error (e e' : ε) : Related R (.error e) (.error e')

namespace Related

variable {R : α → β → Prop} {S : γ → δ → Prop} {x : Except ε α} {y : Except ε β}

theorem refl (x : Except ε α) : Related Eq x x := by
  cases x with
  | ok a => exact .ok rfl
  | error e => exact .error e e

theorem trans_eq {z : Except ε β} (h : Related R x y) (h' : Related Eq y z) : Related R x z := by
  cases h with
  | ok h =>
    cases h' with
    | ok h' => exact .ok (h' ▸ h)
  | error e _ =>
    cases h' with
    | error _ e' => exact .error e e'

theorem bind (h : Related R x y) {f : α → Except ε γ} {g : β → Except ε δ}
    (hfg : ∀ a b, R a b → Related S (f a) (g b)) : Related S (x >>= f) (y >>= g) := by
  cases h with
  | ok h => exact hfg _ _ h
  | error e e' => exact .error e e'

theorem map (h : Related R x y) {f : α → γ} {g : β → δ} (hfg : ∀ a b, R a b → S (f a) (g b)) :
    Related S (f <$> x) (g <$> y) := by
  cases h with
  | ok h => exact .ok (hfg _ _ h)
  | error e e' => exact .error e e'

theorem isOk_eq (h : Related R x y) : x.isOk = y.isOk := by
  cases h <;> rfl

theorem eq_ok {x : Except ε α} {a : α} (h : Related Eq x (.ok a)) : x = .ok a := by
  cases h with
  | ok h => rw [h]

end Related

/-! ## One step after the other -/

/-- Steps that may have no result come to one just if the first does and then the others do. -/
theorem foldlM_cons_eq_some_iff {f : β → α → Option β} {b c : β} {a : α} {as : List α} :
    (a :: as).foldlM f b = some c ↔ ∃ b', f b a = some b' ∧ as.foldlM f b' = some c := by
  rw [List.foldlM_cons, Option.bind_eq_bind, Option.bind_eq_some_iff]

theorem foldlM_append_eq_some_iff {f : β → α → Option β} {b c : β} {front back : List α} :
    (front ++ back).foldlM f b = some c ↔
      ∃ b', front.foldlM f b = some b' ∧ back.foldlM f b' = some c := by
  rw [List.foldlM_append, Option.bind_eq_bind, Option.bind_eq_some_iff]

/-- Two computations come to nothing in the same cases if they come to something in the same. -/
theorem eq_none_iff_of_exists_iff {x : Option α} {y : Option β}
    (h : (∃ a, x = some a) ↔ ∃ b, y = some b) : x = none ↔ y = none := by
  rwa [← not_iff_not, ← ne_eq, ← ne_eq, Option.ne_none_iff_exists', Option.ne_none_iff_exists']

/-! ## Steps that are lifted -/

namespace Unfinished

variable {a : α}

theorem liftM_refused_map (f : α → β) (step : Except ε α) :
    (liftM (f <$> step) : Except (Unfinished ε) β) =
      f <$> (liftM step : Except (Unfinished ε) α) := by
  cases step <;> rfl

theorem liftM_endless_map (f : α → β) (step : Option α) :
    (liftM (f <$> step) : Except (Unfinished ε) β) =
      f <$> (liftM step : Except (Unfinished ε) α) := by
  cases step <;> rfl

@[simp]
theorem liftM_refused_eq_ok_iff {step : Except ε α} :
    (liftM step : Except (Unfinished ε) α) = .ok a ↔ step = .ok a := by
  cases step with
  | ok b => exact ⟨fun h => congrArg _ (Except.ok.inj h), fun h => congrArg _ (Except.ok.inj h)⟩
  | error reason => exact iff_of_false (fun h => nomatch h) fun h => nomatch h

@[simp]
theorem liftM_refused_ne_endless {step : Except ε α} :
    (liftM step : Except (Unfinished ε) α) ≠ .error .endless := by
  cases step <;> exact nofun

@[simp]
theorem liftM_endless_eq_ok_iff {step : Option α} :
    (liftM step : Except (Unfinished ε) α) = .ok a ↔ step = some a := by
  cases step with
  | some b => exact ⟨fun h => congrArg _ (Except.ok.inj h), fun h => congrArg _ (Option.some.inj h)⟩
  | none => exact iff_of_false (fun h => nomatch h) fun h => nomatch h

theorem liftM_endless_eq_endless_iff {step : Option α} :
    (liftM step : Except (Unfinished ε) α) = .error .endless ↔ step = none := by
  cases step with
  | some b => exact iff_of_false (fun h => nomatch h) fun h => nomatch h
  | none => exact iff_of_true rfl rfl

end Unfinished

/-! ## Outcomes by themselves -/

theorem toOption_eq_some_iff {x : Except ε α} {a : α} :
    x.toOption = some a ↔ x = .ok a := by
  cases x with
  | ok b => simp [Except.toOption]
  | error e => simp [Except.toOption]

/-- The first result among some computations is that of the first one that succeeds. -/
theorem findSome?_toOption (f : α → Except ε β) (xs : List α) :
    xs.findSome? (fun x => (f x).toOption) =
      (xs.find? fun x => (f x).isOk).bind fun x => (f x).toOption := by
  induction xs with
  | nil => rfl
  | cons x xs ih =>
    rw [List.findSome?_cons, List.find?_cons]
    cases hx : f x with
    | ok b => simp [Except.isOk, Except.toBool, Except.toOption, hx]
    | error e => exact ih

/-- What a computation comes to, as far as a view shows it; nothing if it fails. -/
def outcome (view : α → γ) (x : Except ε α) : Option γ :=
  x.toOption.map view

section Outcome

variable {view : α → γ} {view' : β → δ} {x : Except ε α}

@[simp]
theorem outcome_ok (a : α) : outcome view (.ok a : Except ε α) = some (view a) := rfl

@[simp]
theorem outcome_pure (a : α) : outcome view (pure a : Except ε α) = some (view a) := rfl

@[simp]
theorem outcome_error (e : ε) : outcome view (.error e : Except ε α) = none := rfl

theorem outcome_eq_some_iff {c : γ} : outcome view x = some c ↔ ∃ a, x = .ok a ∧ view a = c := by
  cases x with
  | ok a => simp
  | error e => simp

/-- The outcome of two steps is that of the second one, if it uses no more of the first one than the
view shows. -/
theorem outcome_bind (view : α → γ) {f : α → Except ε β} {f' : γ → Option δ}
    (h : ∀ a, outcome view' (f a) = f' (view a)) :
    outcome view' (x >>= f) = (outcome view x).bind f' := by
  cases x with
  | ok a => exact h a
  | error e => rfl

theorem outcome_bind_pure {g : α → β} {g' : γ → δ} (h : ∀ a, view' (g a) = g' (view a)) :
    outcome view' (x >>= fun a => pure (g a)) = (outcome view x).map g' := by
  cases x with
  | ok a => exact congrArg some (h a)
  | error e => rfl

end Outcome

end MailTemplate
