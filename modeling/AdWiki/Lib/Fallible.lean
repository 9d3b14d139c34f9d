import Mathlib

/-!
# Computations that can fail

Inversion of `Except` computations: a sequence succeeds when each of its parts does (`bind_eq_ok`), and a check
(`throwIf p e`, which fails with `e` where `p` holds) when its condition is false (`throwIf_eq_ok`).
-/

namespace Fallible

variable {ε : Type*} {α β : Type} {x : Except ε α} {f : α → Except ε β} {b : β} {p : Prop} [Decidable p] {e : ε}

/-- Fails with `e` where `p` holds. -/
def throwIf (p : Prop) [Decidable p] (e : ε) : Except ε Unit := if p then .error e else .ok ()

/-- Makes a check where `p` holds. -/
def checkIf (p : Prop) [Decidable p] (check : Except ε Unit) : Except ε Unit := if p then check else .ok ()

/-- The value; `e`, where there is none. -/
def ofOption (x : Option α) (e : ε) : Except ε α := x.elim (.error e) .ok

theorem bind_eq_ok : x >>= f = .ok b ↔ ∃ a, x = .ok a ∧ f a = .ok b := by
  cases x with
  | error e => simp [bind, Except.bind]
  | ok a => simp [bind, Except.bind]

theorem throwIf_eq_ok {u : Unit} : throwIf p e = .ok u ↔ ¬p := by
  unfold throwIf
  split <;> simp_all

/-- A check before the rest of a computation. -/
theorem throwIf_bind_eq_ok {f : Unit → Except ε β} : throwIf p e >>= f = .ok b ↔ ¬p ∧ f () = .ok b := by
  simp only [bind_eq_ok, throwIf_eq_ok]
  constructor
  · rintro ⟨_, hp, hf⟩
    exact ⟨hp, hf⟩
  · rintro ⟨hp, hf⟩
    exact ⟨(), hp, hf⟩

theorem ite_error_eq_ok {x : Except ε β} : (if p then Except.error e else x) = .ok b ↔ ¬p ∧ x = .ok b := by
  split <;> simp_all

theorem pure_eq_ok {a : β} : (pure a : Except ε β) = .ok b ↔ a = b := by
  simp [pure, Except.pure]

theorem ofOption_eq_ok {x : Option α} {a : α} : ofOption x e = .ok a ↔ x = some a := by
  cases x with
  | none => simp [ofOption]
  | some b => simp [ofOption]

theorem map_eq_ok {f : α → β} (h : x.map f = .ok b) : ∃ a, x = .ok a ∧ f a = b := by
  cases x with
  | error e => cases h
  | ok a => exact ⟨a, rfl, Except.ok.inj h⟩

theorem toOption_eq_some {x : Except ε α} {a : α} : x.toOption = some a ↔ x = .ok a := by
  cases x <;> simp [Except.toOption]

/-- A loop of checks: they all succeed, or the loop fails like one of them. -/
theorem forM_cases {γ : Type} (f : γ → Except ε Unit) (l : List γ) :
    (forM l f = .ok () ∧ ∀ a ∈ l, f a = .ok ()) ∨ ∃ a ∈ l, ∃ e, f a = .error e ∧ forM l f = .error e := by
  induction l with
  | nil => exact Or.inl ⟨rfl, by simp⟩
  | cons a l ih =>
    cases ha : f a with
    | error e => exact Or.inr ⟨a, List.mem_cons_self, e, ha, by rw [List.forM_cons, ha]; rfl⟩
    | ok u =>
      have hstep : forM (a :: l) f = forM l f := by rw [List.forM_cons, ha]; rfl
      rw [hstep]
      rcases ih with ⟨hl, hall⟩ | ⟨b, hb, e, hfail, hl⟩
      · refine Or.inl ⟨hl, fun b hb => ?_⟩
        rcases List.mem_cons.mp hb with rfl | hb
        · exact ha
        · exact hall b hb
      · exact Or.inr ⟨b, List.mem_cons_of_mem _ hb, e, hfail, hl⟩

theorem forM_eq_ok {γ : Type} {f : γ → Except ε Unit} {l : List γ} : l.forM f = .ok () ↔ ∀ a ∈ l, f a = .ok () := by
  constructor
  · intro h
    rcases forM_cases f l with ⟨-, hall⟩ | ⟨a, -, e, -, hfail⟩
    · exact hall
    · rw [show l.forM f = .error e from hfail] at h
      cases h
  · intro h
    rcases forM_cases f l with ⟨hl, -⟩ | ⟨a, ha, e, hfail, -⟩
    · exact hl
    · rw [h a ha] at hfail
      cases hfail

end Fallible
