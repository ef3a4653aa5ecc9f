set_option autoImplicit false

/-!
# Computations that may fault

Passes over a listing and instructions of the machine are both computations on a state that may fault.
A successful one is taken apart at each bind, and so is one without a state.  What every part of a
computation keeps of its state the whole keeps, whether it succeeds or faults.
-/

namespace Parley.Fallible

variable {ε σ α β τ : Type}

/-- The state that a computation leaves, with a result or with a fault. -/
def final : EStateM.Result ε σ α → σ
  | .ok _ s => s
  | .error _ s => s

@[simp] theorem final_ok (a : α) (s : σ) : final (.ok a s : EStateM.Result ε σ α) = s := rfl

@[simp] theorem final_error (e : ε) (s : σ) : final (.error e s : EStateM.Result ε σ α) = s := rfl

/-! ## Evaluation -/

@[simp] theorem pure_apply (a : α) (s : σ) : (pure a : EStateM ε σ α) s = .ok a s := rfl

@[simp] theorem throw_apply (e : ε) (s : σ) : (throw e : EStateM ε σ α) s = .error e s := rfl

@[simp] theorem get_apply (s : σ) : (get : EStateM ε σ σ) s = .ok s s := rfl

@[simp] theorem modify_apply (f : σ → σ) (s : σ) :
    (modify f : EStateM ε σ PUnit) s = .ok ⟨⟩ (f s) := rfl

theorem bind_apply (x : EStateM ε σ α) (f : α → EStateM ε σ β) (s : σ) :
    (x >>= f) s = match x s with
      | .ok a s' => f a s'
      | .error e s' => .error e s' := rfl

/-! ## Success -/

theorem bind_eq_ok {x : EStateM ε σ α} {f : α → EStateM ε σ β} {s s'' : σ} {b : β} :
    (x >>= f) s = .ok b s'' ↔ ∃ a s', x s = .ok a s' ∧ f a s' = .ok b s'' := by
  change EStateM.bind x f s = _ ↔ _
  unfold EStateM.bind
  cases h : x s with
  | ok a s' =>
    constructor
    · intro hf
      exact ⟨a, s', rfl, hf⟩
    · rintro ⟨_, _, heq, hf⟩
      cases heq
      exact hf
  | error e s' => simp

theorem bind_of_ok {x : EStateM ε σ α} {f : α → EStateM ε σ β} {s s' : σ} {a : α}
    (h : x s = .ok a s') : (x >>= f) s = f a s' := by
  change EStateM.bind x f s = _
  unfold EStateM.bind
  rw [h]

theorem bind_of_error {x : EStateM ε σ α} {f : α → EStateM ε σ β} {s s' : σ} {e : ε}
    (h : x s = .error e s') : (x >>= f) s = .error e s' := by
  change EStateM.bind x f s = _
  unfold EStateM.bind
  rw [h]

theorem pure_eq_ok {s s' : σ} {a b : α} :
    (pure a : EStateM ε σ α) s = .ok b s' ↔ a = b ∧ s = s' := by
  change EStateM.Result.ok a s = .ok b s' ↔ _
  simp

@[simp] theorem throw_ne_ok {s s' : σ} {e : ε} {a : α} :
    (throw e : EStateM ε σ α) s ≠ .ok a s' := by
  intro h
  cases h

/-- Whether a computation succeeds, with a result and a state as asked for. -/
def succeedsWith (asked : α → σ → Bool) : EStateM.Result ε σ α → Bool
  | .ok a s => asked a s
  | .error _ _ => false

theorem succeedsWith_iff {asked : α → σ → Bool} {result : EStateM.Result ε σ α} :
    succeedsWith asked result = true ↔ ∃ a s, result = .ok a s ∧ asked a s = true := by
  cases result with
  | ok a s =>
    refine ⟨fun h => ⟨a, s, rfl, h⟩, ?_⟩
    rintro ⟨_, _, hok, h⟩
    cases hok
    exact h
  | error e s => simp [succeedsWith]

/-- Whether a computation succeeds, whatever its result. -/
def Succeeds (x : EStateM ε σ α) (s : σ) : Prop := ∃ a s', x s = .ok a s'

theorem succeeds_bind_iff {x : EStateM ε σ α} {f : α → EStateM ε σ β} {s : σ} {q : Prop}
    (hf : ∀ a s', x s = .ok a s' → (Succeeds (f a) s' ↔ q)) : Succeeds (x >>= f) s ↔ Succeeds x s ∧ q := by
  constructor
  · rintro ⟨b, s'', h⟩
    obtain ⟨a, s', hx, hfa⟩ := bind_eq_ok.1 h
    exact ⟨⟨a, s', hx⟩, (hf a s' hx).1 ⟨b, s'', hfa⟩⟩
  · rintro ⟨⟨a, s', hx⟩, hq⟩
    obtain ⟨b, s'', hfa⟩ := (hf a s' hx).2 hq
    exact ⟨b, s'', bind_eq_ok.2 ⟨a, s', hx, hfa⟩⟩

theorem exists_error_iff {x : EStateM ε σ α} {s : σ} : (∃ e s', x s = .error e s') ↔ ¬ Succeeds x s := by
  unfold Succeeds
  cases x s <;> simp

/-! ## Loops -/

theorem forM_cons_of_ok {f : α → EStateM ε σ PUnit} {x : α} {xs : List α} {s s' : σ}
    (h : f x s = .ok ⟨⟩ s') : (x :: xs).forM f s = xs.forM f s' :=
  bind_of_ok (f := fun _ => xs.forM f) h

theorem forM_append_of_ok {f : α → EStateM ε σ PUnit} {xs ys : List α} {s s' : σ}
    (h : xs.forM f s = .ok ⟨⟩ s') : (xs ++ ys).forM f s = ys.forM f s' := by
  induction xs generalizing s with
  | nil =>
    cases h
    rfl
  | cons x rest ih =>
    obtain ⟨_, s₁, hx, hrest⟩ := bind_eq_ok.1 (show (f x >>= fun _ => rest.forM f) s = _ from h)
    exact (forM_cons_of_ok hx).trans (ih hrest)

/-! ## Frames -/

/-- A computation keeps a view of the state when that view is the same afterwards. -/
def Keeps (view : σ → τ) (x : EStateM ε σ α) : Prop := ∀ s, view (final (x s)) = view s

variable {view : σ → τ}

theorem Keeps.of_ok {x : EStateM ε σ α} (hx : Keeps view x) {s s' : σ} {a : α}
    (h : x s = .ok a s') : view s' = view s := by
  have hs := hx s
  rwa [h] at hs

theorem keeps_pure (a : α) : Keeps view (pure a : EStateM ε σ α) := fun _ => rfl

theorem keeps_throw (e : ε) : Keeps view (throw e : EStateM ε σ α) := fun _ => rfl

theorem Keeps.comp {x : EStateM ε σ α} (hx : Keeps view x) {υ : Type} (f : τ → υ) :
    Keeps (fun s => f (view s)) x := fun s => congrArg f (hx s)

theorem Keeps.bind {x : EStateM ε σ α} {f : α → EStateM ε σ β} (hx : Keeps view x)
    (hf : ∀ a, Keeps view (f a)) : Keeps view (x >>= f) := by
  intro s
  cases h : x s with
  | ok a s' =>
    rw [bind_of_ok h, hf a s']
    exact hx.of_ok h
  | error e s' =>
    have hs := hx s
    rw [h] at hs
    rw [bind_of_error h]
    exact hs

/-- A computation upholds a property of the state when it holds afterwards if it held before. -/
def Upholds (p : σ → Prop) (x : EStateM ε σ α) : Prop := ∀ s, p s → p (final (x s))

theorem Keeps.upholds {x : EStateM ε σ α} (hx : Keeps view x) (p : τ → Prop) :
    Upholds (fun s => p (view s)) x := by
  intro s hs
  rwa [hx s]

theorem Upholds.bind {p : σ → Prop} {x : EStateM ε σ α} {f : α → EStateM ε σ β}
    (hx : Upholds p x) (hf : ∀ a, Upholds p (f a)) : Upholds p (x >>= f) := by
  intro s hs
  have hs' := hx s hs
  cases h : x s with
  | ok a s' =>
    rw [h] at hs'
    rw [bind_of_ok h]
    exact hf a s' hs'
  | error e s' =>
    rw [h] at hs'
    rw [bind_of_error h]
    exact hs'

/-! ## Faults -/

/-- A computation never faults. -/
def Safe (x : EStateM ε σ α) : Prop := ∀ s e s', x s ≠ .error e s'

theorem safe_pure (a : α) : Safe (pure a : EStateM ε σ α) := by
  intro s e s' h
  cases h

theorem Safe.bind {x : EStateM ε σ α} {f : α → EStateM ε σ β} (hx : Safe x)
    (hf : ∀ a, Safe (f a)) : Safe (x >>= f) := by
  intro s e s' h
  cases hs : x s with
  | ok a s₁ =>
    rw [bind_of_ok hs] at h
    exact hf a s₁ e s' h
  | error e₁ s₁ => exact hx s e₁ s₁ hs

/-- A computation faults cleanly when a fault leaves a view of the state as it was. -/
def FaultsCleanly (view : σ → τ) (x : EStateM ε σ α) : Prop :=
  ∀ s e s', x s = .error e s' → view s' = view s

theorem Safe.faultsCleanly {x : EStateM ε σ α} (hx : Safe x) : FaultsCleanly view x :=
  fun s e s' h => absurd h (hx s e s')

theorem Keeps.faultsCleanly {x : EStateM ε σ α} (hx : Keeps view x) : FaultsCleanly view x := by
  intro s e s' h
  have hs := hx s
  rwa [h] at hs

/-- Behind a part that keeps the view, a clean fault stays one. -/
theorem Keeps.bind_faultsCleanly {x : EStateM ε σ α} {f : α → EStateM ε σ β} (hx : Keeps view x)
    (hf : ∀ a, FaultsCleanly view (f a)) : FaultsCleanly view (x >>= f) := by
  intro s e s' h
  cases hs : x s with
  | ok a s₁ =>
    rw [bind_of_ok hs] at h
    exact (hf a s₁ e s' h).trans (hx.of_ok hs)
  | error e₁ s₁ =>
    rw [bind_of_error hs] at h
    cases h
    exact hx.faultsCleanly s e s' hs

/-- What never faults may change anything behind a part that faults cleanly. -/
theorem FaultsCleanly.bind_safe {x : EStateM ε σ α} {f : α → EStateM ε σ β}
    (hx : FaultsCleanly view x) (hf : ∀ a, Safe (f a)) : FaultsCleanly view (x >>= f) := by
  intro s e s' h
  cases hs : x s with
  | ok a s₁ =>
    rw [bind_of_ok hs] at h
    exact absurd h (hf a s₁ e s')
  | error e₁ s₁ =>
    rw [bind_of_error hs] at h
    cases h
    exact hx s e s' hs

/-- A computation faults with nothing but faults of a property. -/
def FaultsWith (p : ε → Prop) (x : EStateM ε σ α) : Prop := ∀ s e s', x s = .error e s' → p e

theorem Safe.faultsWith {x : EStateM ε σ α} (hx : Safe x) (p : ε → Prop) : FaultsWith p x :=
  fun s e s' h => absurd h (hx s e s')

theorem faultsWith_throw {p : ε → Prop} {e : ε} (h : p e) : FaultsWith p (throw e : EStateM ε σ α) := by
  intro s e' s' heq
  cases heq
  exact h

theorem FaultsWith.bind {p : ε → Prop} {x : EStateM ε σ α} {f : α → EStateM ε σ β} (hx : FaultsWith p x)
    (hf : ∀ a, FaultsWith p (f a)) : FaultsWith p (x >>= f) := by
  intro s e s' h
  cases hs : x s with
  | ok a s₁ =>
    rw [bind_of_ok hs] at h
    exact hf a s₁ e s' h
  | error e₁ s₁ =>
    rw [bind_of_error hs] at h
    cases h
    exact hx s e s' hs

/-! ## Progress -/

/-- A computation leads from a state to one that is related to it, with a result or with a fault. -/
def Leads (r : σ → σ → Prop) (x : EStateM ε σ α) (s : σ) : Prop := r s (final (x s))

theorem Leads.of_ok {r : σ → σ → Prop} {x : EStateM ε σ α} {s s' : σ} {a : α} (hx : Leads r x s)
    (h : x s = .ok a s') : r s s' := by
  unfold Leads at hx
  rwa [h] at hx

/-- Where progress adds up, a computation leads on if all its parts do. -/
theorem Leads.bind {r : σ → σ → Prop} (htrans : ∀ a b c, r a b → r b c → r a c)
    {x : EStateM ε σ α} {f : α → EStateM ε σ β} {s : σ} (hx : Leads r x s)
    (hf : ∀ a s', x s = .ok a s' → Leads r (f a) s') : Leads r (x >>= f) s := by
  unfold Leads
  cases h : x s with
  | ok a s' =>
    rw [bind_of_ok h]
    exact htrans _ _ _ (hx.of_ok h) (hf a s' h)
  | error e s' =>
    have hs := hx
    unfold Leads at hs
    rw [h] at hs
    rw [bind_of_error h]
    exact hs

/-! ## Results -/

/-- A computation yields only results with a property. -/
def Yields (p : α → Prop) (x : EStateM ε σ α) : Prop := ∀ s a s', x s = .ok a s' → p a

theorem yields_pure {p : α → Prop} {a : α} (h : p a) : Yields p (pure a : EStateM ε σ α) := by
  intro s b s' hb
  rw [← (pure_eq_ok.1 hb).1]
  exact h

theorem yields_throw {p : α → Prop} (e : ε) : Yields p (throw e : EStateM ε σ α) :=
  fun _ _ _ h => absurd h throw_ne_ok

theorem Yields.bind {p : β → Prop} {x : EStateM ε σ α} {f : α → EStateM ε σ β}
    (hf : ∀ a, Yields p (f a)) : Yields p (x >>= f) := by
  intro s b s'' h
  obtain ⟨a, s', -, hfa⟩ := bind_eq_ok.1 h
  exact hf a s' b s'' hfa

/-! ## Results without a state -/

theorem except_bind_eq_ok {x : Except ε α} {f : α → Except ε β} {b : β} :
    (x >>= f) = .ok b ↔ ∃ a, x = .ok a ∧ f a = .ok b := by
  cases x with
  | ok a =>
    constructor
    · intro h
      exact ⟨a, rfl, h⟩
    · rintro ⟨_, heq, h⟩
      cases heq
      exact h
  | error e =>
    constructor
    · intro h
      cases h
    · rintro ⟨_, heq, -⟩
      cases heq

theorem except_map_eq_ok {x : Except ε α} {f : α → β} {b : β} :
    x.map f = .ok b ↔ ∃ a, x = .ok a ∧ f a = b := by
  cases x <;> simp [Except.map]

theorem except_toOption_eq_some {x : Except ε α} {a : α} :
    x.toOption = some a ↔ x = .ok a := by
  cases x <;> simp [Except.toOption]

end Parley.Fallible
