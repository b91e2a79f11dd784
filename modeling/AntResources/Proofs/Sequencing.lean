import AntResources.Trace

/-!
# AntResources.Proofs.Sequencing

**Sequences that stop at the first failure.** A list of steps that may fail succeeds exactly if every
step does, with the results in order (`mapM_eq_ok_iff`), and otherwise ends with the failure of the
first step that has one (`mapM_eq_error_iff`). The outcome of a sequence of traces is the sequence of
the outcomes, so both facts carry over to traces (`Trace.outcome_mapM`).
-/

namespace AntResources

variable {ε α β : Type}

/-! ### Steps that may fail -/

@[simp] theorem ok_bind (a : α) (f : α → Except ε β) : (Except.ok a >>= f) = f a := rfl

@[simp] theorem error_bind (e : ε) (f : α → Except ε β) :
    (Except.error e >>= f) = Except.error e := rfl

@[simp] theorem map_ok (f : α → β) (a : α) : f <$> (Except.ok a : Except ε α) = .ok (f a) := rfl

@[simp] theorem map_error (f : α → β) (e : ε) : f <$> (Except.error e : Except ε α) = .error e := rfl

theorem toOption_eq_some_iff {x : Except ε α} {a : α} : x.toOption = some a ↔ x = .ok a := by
  cases x <;> simp [Except.toOption]

theorem mapM_eq_ok_iff {f : α → Except ε β} {xs : List α} {ys : List β} :
    xs.mapM f = .ok ys ↔ xs.map f = ys.map .ok := by
  induction xs generalizing ys with
  | nil => cases ys <;> simp [pure, Except.pure]
  | cons x xs ih =>
      rw [List.mapM_cons, List.map_cons]
      cases hx : f x with
      | error e => cases ys <;> simp
      | ok y =>
          cases hxs : xs.mapM f with
          | error e =>
              have hne : ∀ zs : List β, xs.map f ≠ zs.map .ok := fun zs h => by
                rw [ih.mpr h] at hxs
                cases hxs
              cases ys <;> simp [hne]
          | ok zs =>
              rw [ih] at hxs
              have hinj : ∀ ws : List β, zs.map (Except.ok (ε := ε)) = ws.map .ok ↔ zs = ws :=
                fun ws => List.map_inj_right fun _ _ h => Except.ok.inj h
              cases ys <;> simp [hxs, hinj]

/-- The results of a sequence are those of its steps. -/
theorem mem_iff_of_mapM_eq_ok {f : α → Except ε β} {xs : List α} {ys : List β}
    (h : xs.mapM f = .ok ys) {y : β} : y ∈ ys ↔ ∃ x ∈ xs, f x = .ok y := by
  have hmem : Except.ok y ∈ xs.map f ↔ y ∈ ys := by
    rw [mapM_eq_ok_iff.mp h]
    simp
  rw [← hmem, List.mem_map]

/-- A sequence of two steps succeeds if both do. -/
theorem bind_eq_ok_iff {x : Except ε α} {f : α → Except ε β} {b : β} :
    x >>= f = .ok b ↔ ∃ a, x = .ok a ∧ f a = .ok b := by
  cases x <;> simp

theorem map_eq_ok_iff {f : α → β} {x : Except ε α} {b : β} :
    f <$> x = .ok b ↔ ∃ a, x = .ok a ∧ f a = b := by
  cases x <;> simp

theorem map_eq_error_iff {f : α → β} {x : Except ε α} {e : ε} :
    f <$> x = .error e ↔ x = .error e := by
  cases x <;> simp

/-- The failure of a sequence is that of its first failing step. -/
theorem mapM_eq_error_iff {f : α → Except ε β} {xs : List α} {e : ε} :
    xs.mapM f = .error e ↔
      ∃ before x after, xs = before ++ x :: after ∧ (∀ y ∈ before, ∃ b, f y = .ok b) ∧
        f x = .error e := by
  induction xs with
  | nil => simp [pure, Except.pure]
  | cons x xs ih =>
      rw [List.mapM_cons]
      constructor
      · intro h
        cases hx : f x with
        | error e' =>
            rw [hx] at h
            cases h
            exact ⟨[], x, xs, rfl, by simp, hx⟩
        | ok y =>
            have hrest : xs.mapM f = .error e := by
              cases hxs : xs.mapM f with
              | error e' => rw [hx, hxs] at h; exact h
              | ok zs => rw [hx, hxs] at h; cases h
            obtain ⟨before, z, after, rfl, hbefore, hz⟩ := ih.mp hrest
            refine ⟨x :: before, z, after, rfl, ?_, hz⟩
            exact List.forall_mem_cons.mpr ⟨⟨y, hx⟩, hbefore⟩
      · intro hsplit
        obtain ⟨before, z, after, h, hbefore, hz⟩ := hsplit
        cases before with
        | nil =>
            obtain ⟨rfl, -⟩ := List.cons.inj h
            rw [hz]
            rfl
        | cons y before =>
            obtain ⟨rfl, rfl⟩ := List.cons.inj h
            obtain ⟨⟨b, hb⟩, hbefore⟩ := List.forall_mem_cons.mp hbefore
            rw [hb, ih.mpr ⟨before, z, after, rfl, hbefore, hz⟩]
            rfl

/-- A sequence succeeds exactly if no step fails. -/
theorem exists_mapM_eq_ok_iff {f : α → Except ε β} {xs : List α} :
    (∃ ys, xs.mapM f = .ok ys) ↔ ∀ x ∈ xs, ∃ y, f x = .ok y := by
  constructor
  · intro hsome x hx
    obtain ⟨ys, h⟩ := hsome
    have hmem : f x ∈ ys.map .ok := mapM_eq_ok_iff.mp h ▸ List.mem_map_of_mem hx
    obtain ⟨y, -, hy⟩ := List.mem_map.mp hmem
    exact ⟨y, hy.symm⟩
  · intro h
    cases hxs : xs.mapM f with
    | ok ys => exact ⟨ys, rfl⟩
    | error e =>
        obtain ⟨before, x, after, rfl, -, hx⟩ := mapM_eq_error_iff.mp hxs
        obtain ⟨y, hy⟩ := h x (by simp)
        rw [hx] at hy
        cases hy

/-! ### Traces -/

namespace Trace

theorem ext_iff {t u : Trace α} : t = u ↔ t.events = u.events ∧ t.outcome = u.outcome := by
  cases t
  cases u
  simp

theorem events_bind (t : Trace α) (f : α → Trace β) :
    (t >>= f).events = t.events ++ match t.outcome with
      | .error _ => []
      | .ok a => (f a).events := by
  show (Trace.bind t f).events = _
  unfold Trace.bind
  cases t.outcome <;> simp

theorem bind_assoc {γ : Type} (t : Trace α) (f : α → Trace β) (g : β → Trace γ) :
    t >>= f >>= g = t >>= fun a => f a >>= g := by
  rw [ext_iff]
  simp only [events_bind, outcome_bind]
  cases ht : t.outcome with
  | error e => simp
  | ok a => cases hf : (f a).outcome <;> simp [hf]

instance : LawfulMonad Trace :=
  LawfulMonad.mk' Trace
    (fun t => by
      rw [ext_iff]
      show (t >>= pure).events = t.events ∧ (t >>= pure).outcome = t.outcome
      cases ht : t.outcome <;> simp [events_bind, ht, pure])
    (fun a f => by
      rw [ext_iff]
      simp [events_bind])
    bind_assoc

/-- The outcome of a sequence is the sequence of the outcomes. -/
theorem outcome_mapM (f : α → Trace β) (xs : List α) :
    (xs.mapM f).outcome = xs.mapM fun x => (f x).outcome := by
  induction xs with
  | nil => rfl
  | cons x xs ih => simp only [List.mapM_cons, outcome_bind, ih, outcome_pure]; rfl

end Trace

end AntResources
