import AssemblyBrowser.Attempt
/-!
How attempts run: each way to build one, opened at a state; and attempts whose result does not depend
on what the state remembers.
-/
namespace AssemblyBrowser

instance decidableEqExcept {ε α : Type} [DecidableEq ε] [DecidableEq α] : DecidableEq (Except ε α)
  | .ok a, .ok b => decidable_of_iff (a = b) (by simp)
  | .error a, .error b => decidable_of_iff (a = b) (by simp)
  | .ok _, .error _ => isFalse (by simp)
  | .error _, .ok _ => isFalse (by simp)

theorem eq_ok_of_toOption {ε α : Type} {r : Except ε α} {v : α} (h : r.toOption = some v) :
    r = .ok v := by
  cases r with
  | error e => cases h
  | ok w => exact congrArg Except.ok (Option.some.inj h)

namespace Attempt

variable {σ α β : Type}

theorem runFrom_bind (a : Attempt σ α) (f : α → Attempt σ β) (s : σ) :
    (a >>= f).runFrom s =
      match a.runFrom s with
      | (.ok v, s') => (f v).runFrom s'
      | (.error e, s') => (.error e, s') := by
  simp only [runFrom, bind, ExceptT.bind, ExceptT.run, ExceptT.mk, StateT.bind, ExceptT.bindCont]
  cases a s with
  | mk r s' => cases r <;> rfl

theorem runFrom_bind_ok {a : Attempt σ α} {s s' : σ} {v : α} (h : a.runFrom s = (.ok v, s'))
    (f : α → Attempt σ β) : (a >>= f).runFrom s = (f v).runFrom s' := by
  rw [runFrom_bind, h]

/-- What is returned in the end is returned by what comes after. -/
theorem bind_returns {a : Attempt σ α} {f : α → Attempt σ β} {s t : σ} {w : β}
    (h : (a >>= f).runFrom s = (.ok w, t)) :
    ∃ v s', a.runFrom s = (.ok v, s') ∧ (f v).runFrom s' = (.ok w, t) := by
  rw [runFrom_bind] at h
  cases ha : a.runFrom s with
  | mk r s' =>
    rw [ha] at h
    cases r with
    | error e => cases h
    | ok v => exact ⟨v, s', rfl, h⟩

theorem runFrom_map (f : α → β) (a : Attempt σ α) (s : σ) :
    (f <$> a).runFrom s = ((a.runFrom s).1.map f, (a.runFrom s).2) := by
  simp only [runFrom, Functor.map, ExceptT.map, ExceptT.run, ExceptT.mk]
  cases h : a s with
  | mk r s' => cases r <;> simp [bind, StateT.bind, h, Except.map] <;> rfl

theorem map_returns {f : α → β} {a : Attempt σ α} {s t : σ} {w : β}
    (h : (f <$> a).runFrom s = (.ok w, t)) : ∃ v, a.runFrom s = (.ok v, t) ∧ f v = w := by
  rw [runFrom_map] at h
  cases ha : a.runFrom s with
  | mk r s' =>
    rw [ha] at h
    cases r with
    | error e => cases h
    | ok v =>
      cases h
      exact ⟨v, rfl, rfl⟩

@[simp] theorem runFrom_get (s : σ) : (get : Attempt σ σ).runFrom s = (.ok s, s) := rfl

@[simp] theorem runFrom_set (s s' : σ) : (set s' : Attempt σ PUnit).runFrom s = (.ok ⟨⟩, s') := rfl

@[simp] theorem runFrom_ofExcept (r : Except Failure α) (s : σ) :
    (ofExcept r).runFrom s = (r, s) := rfl

@[simp] theorem runFrom_outcome (a : Attempt σ α) (s : σ) :
    a.outcome.runFrom s = (.ok (a.runFrom s).1, (a.runFrom s).2) := rfl

/-- Where the state satisfies `inv`, the result is `r`, and `inv` still holds at the end: what the state
remembers has no effect on the result. -/
structure Gives (inv : σ → Prop) (a : Attempt σ α) (r : Except Failure α) : Prop where
  result : ∀ s, inv s → (a.runFrom s).1 = r
  kept : ∀ s, inv s → inv (a.runFrom s).2

namespace Gives

variable {τ : Type} {inv : σ → Prop} {a : Attempt σ α} {r : Except Failure α}

theorem pure (v : α) : Gives inv (pure v) (.ok v) := ⟨fun _ _ => rfl, fun _ h => h⟩

theorem ofExcept (r : Except Failure α) : Gives inv (ofExcept r) r := ⟨fun _ _ => rfl, fun _ h => h⟩

theorem bind {f : α → Attempt σ β} {g : α → Except Failure β} (ha : Gives inv a r)
    (hf : ∀ v, r = .ok v → Gives inv (f v) (g v)) : Gives inv (a >>= f) (r >>= g) := by
  have hrun : ∀ s, inv s → ((a >>= f).runFrom s).1 = (r >>= g) ∧ inv ((a >>= f).runFrom s).2 := by
    intro s hs
    have hresult := ha.result s hs
    have hkept := ha.kept s hs
    rw [runFrom_bind]
    cases hrun : a.runFrom s with
    | mk r' s' =>
      rw [hrun] at hresult hkept
      subst hresult
      cases r' with
      | error e => exact ⟨rfl, hkept⟩
      | ok v => exact ⟨(hf v rfl).result s' hkept, (hf v rfl).kept s' hkept⟩
  exact ⟨fun s hs => (hrun s hs).1, fun s hs => (hrun s hs).2⟩

/-- An attempt on a part of the state. -/
theorem within {inv' : τ → Prop} {get : τ → σ} {put : σ → τ → τ} (ha : Gives inv a r)
    (hget : ∀ t, inv' t → inv (get t)) (hput : ∀ s t, inv s → inv' t → inv' (put s t)) :
    Gives inv' (Attempt.within get put a) r where
  result t ht := ha.result (get t) (hget t ht)
  kept t ht := hput _ t (ha.kept (get t) (hget t ht)) ht

end Gives

end Attempt

end AssemblyBrowser
