import AdWiki.Lib.Runs

/-!
# Interleaved calls on a shared store

Calls run concurrently on one store. A call is at a program point of type `π`; `stmt st i p c` executes the next
atomic statement of call `i`, which is at point `p`, with the outside choices `c` (clock readings, fresh values), and
gives the new store and the call's next point, or `none` when the statement cannot run. A system is the store with
the calls in the order in which they began (`Sys`); a label begins a call or executes one statement of a call
(`Label`), so a run of labels is one interleaving.

The rules `inv_step_label` and `inv_step` prove an invariant in two parts, `I` of the store and `J i` of each call, from
three facts about one statement: it keeps `I`, it establishes `J` at its own next point, and it keeps `J` of every other
call. A call that is executed without others in between is `alone`.
-/

namespace Interleave

variable {σ ρ π χ : Type*}

/-- A store and the program points of the calls on it, oldest call first. -/
structure Sys (σ π : Type*) where
  store : σ
  calls : List π

/-- A scheduler's choice: a new call begins, or call `i` executes its next statement. -/
inductive Label (ρ χ : Type*)
  | start (r : ρ)
  | exec (i : Nat) (c : χ)

section Defs

variable (entry : ρ → π) (stmt : σ → Nat → π → χ → Option (σ × π))

/-- One step of the interleaving. -/
def step (s : Sys σ π) : Label ρ χ → Option (Sys σ π)
  | .start r => some ⟨s.store, s.calls ++ [entry r]⟩
  | .exec i c =>
    match s.calls[i]? with
    | none => none
    | some p => (stmt s.store i p c).map fun q => ⟨q.1, s.calls.set i q.2⟩

end Defs

variable {entry : ρ → π} {stmt : σ → Nat → π → χ → Option (σ × π)} {s t : Sys σ π}

/-- What an executed statement did. -/
theorem step_exec {i : Nat} {c : χ} (h : step entry stmt s (.exec i c) = some t) :
    ∃ p st q, s.calls[i]? = some p ∧ stmt s.store i p c = some (st, q) ∧ t = ⟨st, s.calls.set i q⟩ := by
  simp only [step] at h
  cases hp : s.calls[i]? with
  | none => rw [hp] at h; cases h
  | some p =>
    rw [hp] at h
    obtain ⟨⟨st, q⟩, hq, rfl⟩ := Option.map_eq_some_iff.mp h
    exact ⟨p, st, q, rfl, hq, rfl⟩

theorem step_start {r : ρ} (h : step entry stmt s (.start r) = some t) : t = ⟨s.store, s.calls ++ [entry r]⟩ := by
  simpa [step] using h.symm

/-- The other calls stay where they are. -/
theorem getElem?_set_ne {i j : Nat} {q p : π} (h : i ≠ j) : (s.calls.set i q)[j]? = some p ↔ s.calls[j]? = some p := by
  rw [List.getElem?_set_ne h]

/-- Call `i` is at its next point, the others are where they were. -/
theorem getElem?_set_cases {i j : Nat} {p q p' : π} (hp : s.calls[i]? = some p) (h : (s.calls.set i q)[j]? = some p') :
    j = i ∧ p' = q ∨ j ≠ i ∧ s.calls[j]? = some p' := by
  rcases eq_or_ne j i with rfl | hj
  · have hlt : j < s.calls.length := (List.getElem?_eq_some_iff.mp hp).1
    rw [List.getElem?_set_self hlt] at h
    exact Or.inl ⟨rfl, (Option.some.inj h).symm⟩
  · exact Or.inr ⟨hj, (getElem?_set_ne hj.symm).mp h⟩

/-- A new call is at its entry. -/
theorem getElem?_append_cases {j : Nat} {q p' : π} (h : (s.calls ++ [q])[j]? = some p') :
    j = s.calls.length ∧ p' = q ∨ s.calls[j]? = some p' := by
  rcases Nat.lt_or_ge j s.calls.length with hj | hj
  · rw [List.getElem?_append_left hj] at h
    exact Or.inr h
  · rw [List.getElem?_append_right hj] at h
    obtain ⟨hlt, hget⟩ := List.getElem?_eq_some_iff.mp h
    simp only [List.length_singleton, Nat.lt_one_iff] at hlt
    exact Or.inl ⟨by omega, by simpa using hget.symm⟩

/-- How many calls are at a point of some kind, after a statement of call `i`. -/
theorem countP_set {f : π → Bool} {i : Nat} {p q : π} (hp : s.calls[i]? = some p) :
    (s.calls.set i q).countP f + (f p).toNat = s.calls.countP f + (f q).toNat := by
  obtain ⟨hlt, hget⟩ := List.getElem?_eq_some_iff.mp hp
  have hpos : f p = true → 0 < s.calls.countP f := fun hf => List.countP_pos_iff.mpr ⟨p, hget ▸ List.getElem_mem hlt, hf⟩
  rw [List.countP_set hlt, hget]
  cases hf : f p with
  | false => cases f q <;> simp
  | true =>
    have := hpos hf
    cases f q <;> simp <;> omega

/-- An invariant of the store and of every call. -/
structure Inv (I : σ → Prop) (J : Nat → σ → π → Prop) (s : Sys σ π) : Prop where
  store : I s.store
  calls : ∀ i p, s.calls[i]? = some p → J i s.store p

variable {I : σ → Prop} {J : Nat → σ → π → Prop}

/-- **The rule for one step.** `P` is what is known of the steps that are taken. -/
theorem inv_step_label {P : Sys σ π → Label ρ χ → Prop}
    (hentry : ∀ s i r, P s (.start r) → I s.store → J i s.store (entry r))
    (hstmt : ∀ s i p c st q, Inv I J s → P s (.exec i c) → s.calls[i]? = some p → stmt s.store i p c = some (st, q) →
      I st ∧ J i st q ∧ ∀ j p', j ≠ i → s.calls[j]? = some p' → J j st p')
    (l : Label ρ χ) (hs : Inv I J s) (hP : P s l) (h : step entry stmt s l = some t) : Inv I J t := by
  cases l with
  | start r =>
    rw [step_start h]
    refine ⟨hs.store, fun i p hp => ?_⟩
    rcases getElem?_append_cases hp with ⟨-, rfl⟩ | hp
    · exact hentry s i r hP hs.store
    · exact hs.calls i p hp
  | exec i c =>
    obtain ⟨p, st, q, hp, hq, rfl⟩ := step_exec h
    obtain ⟨hI, hJ, hother⟩ := hstmt s i p c st q hs hP hp hq
    refine ⟨hI, fun j p' hp' => ?_⟩
    rcases getElem?_set_cases hp hp' with ⟨rfl, rfl⟩ | ⟨hj, hp'⟩
    · exact hJ
    · exact hother j p' hj hp'

/-- The rule where every call may begin. -/
theorem inv_step {P : Sys σ π → Label ρ χ → Prop} (hentry : ∀ i st r, I st → J i st (entry r))
    (hstmt : ∀ s i p c st q, Inv I J s → P s (.exec i c) → s.calls[i]? = some p → stmt s.store i p c = some (st, q) →
      I st ∧ J i st q ∧ ∀ j p', j ≠ i → s.calls[j]? = some p' → J j st p')
    (l : Label ρ χ) (hs : Inv I J s) (hP : P s l) (h : step entry stmt s l = some t) : Inv I J t :=
  inv_step_label (fun s i r _ hI => hentry i s.store r hI) hstmt l hs hP h

/-! ## What the calls began with -/

/-- The requests that a list of labels begins calls with; the call with the number `i` is that of the `i`-th of them. -/
def started : List (Label ρ χ) → List ρ
  | [] => []
  | .start r :: ls => r :: started ls
  | .exec _ _ :: ls => started ls

/-- Every call is at a point that `K` allows for its request, and `E` holds of the store and all requests. -/
structure Sourced (K : ρ → π → Prop) (E : List ρ → σ → Prop) (rs : List ρ) (s : Sys σ π) : Prop where
  length : s.calls.length = rs.length
  calls : ∀ (i : Nat) p, s.calls[i]? = some p → ∃ r, rs[i]? = some r ∧ K r p
  store : E rs s.store

section Sources

variable {K : ρ → π → Prop} {E : List ρ → σ → Prop} {rs : List ρ} (hentry : ∀ r, K r (entry r))
  (hmore : ∀ rs r st, E rs st → E (rs ++ [r]) st)
  (hstmt : ∀ (rs : List ρ) st (i : Nat) r p c st' q, E rs st → rs[i]? = some r → K r p → stmt st i p c = some (st', q) →
    K r q ∧ E rs st')

include hentry hmore in
theorem sourced_start {r : ρ} (hs : Sourced K E rs s) (h : step entry stmt s (.start r) = some t) :
    Sourced K E (rs ++ [r]) t := by
  rw [step_start h]
  refine ⟨by simp [hs.length], fun i p hp => ?_, hmore rs r s.store hs.store⟩
  rcases getElem?_append_cases hp with ⟨rfl, rfl⟩ | hp
  · exact ⟨r, by simp [hs.length], hentry r⟩
  · obtain ⟨r', hr', hK⟩ := hs.calls i p hp
    exact ⟨r', by rw [List.getElem?_append_left (List.getElem?_eq_some_iff.mp hr').1, hr'], hK⟩

include hstmt in
theorem sourced_exec {i : Nat} {c : χ} (hs : Sourced K E rs s) (h : step entry stmt s (.exec i c) = some t) :
    Sourced K E rs t := by
  obtain ⟨p, st, q, hp, hq, rfl⟩ := step_exec h
  obtain ⟨r, hr, hK⟩ := hs.calls i p hp
  obtain ⟨hKq, hE⟩ := hstmt rs s.store i r p c st q hs.store hr hK hq
  refine ⟨by simpa using hs.length, fun j p' hp' => ?_, hE⟩
  rcases getElem?_set_cases hp hp' with ⟨rfl, rfl⟩ | ⟨-, hp'⟩
  · exact ⟨r, hr, hKq⟩
  · exact hs.calls j p' hp'

include hentry hmore hstmt in
/-- **The rule for runs.** -/
theorem sourced_run {ls : List (Label ρ χ)} (hs : Sourced K E rs s) (h : Runs.run (step entry stmt) s ls = some t) :
    Sourced K E (rs ++ started ls) t := by
  induction ls generalizing s rs with
  | nil =>
    cases h
    simpa [started] using hs
  | cons l ls ih =>
    obtain ⟨u, hu, hrest⟩ := Runs.run_cons.mp h
    cases l with
    | start r => simpa [started] using ih (sourced_start hentry hmore hs hu) hrest
    | exec i c => exact ih (sourced_exec hstmt hs hu) hrest

end Sources

/-! ## A call without others in between -/

section Alone

variable (stmt) (ended : π → Bool)

/-- The statements of one call up to its end, one choice each. -/
def alone : σ → π → List χ → Option (σ × π)
  | st, p, [] => if ended p then some (st, p) else none
  | st, p, c :: cs => (stmt st 0 p c).bind fun q => alone q.1 q.2 cs

end Alone

variable {ended : π → Bool} {st st' : σ} {p q : π} {c : χ} {cs : List χ}

theorem alone_nil : alone stmt ended st p [] = some (st', q) ↔ ended p = true ∧ st = st' ∧ p = q := by
  simp [alone]

theorem alone_cons : alone stmt ended st p (c :: cs) = some (st', q) ↔
    ∃ st₁ p₁, stmt st 0 p c = some (st₁, p₁) ∧ alone stmt ended st₁ p₁ cs = some (st', q) := by
  simp [alone, Option.bind_eq_some_iff]

/-- What every statement of the call keeps, holds at its end. -/
theorem alone_inv {K : σ → π → Prop} (hstmt : ∀ st p c st' q, K st p → stmt st 0 p c = some (st', q) → K st' q)
    (hK : K st p) (h : alone stmt ended st p cs = some (st', q)) : K st' q := by
  induction cs generalizing st p with
  | nil =>
    obtain ⟨-, rfl, rfl⟩ := alone_nil.mp h
    exact hK
  | cons c cs ih =>
    obtain ⟨st₁, p₁, hstep, hrest⟩ := alone_cons.mp h
    exact ih (hstmt st p c st₁ p₁ hK hstep) hrest

end Interleave
