import Mathlib

/-!
# Clocks that are set back and forward

A clock shows `reading offset u` at time `u`: it is `offset u` ahead. It is `Regular` if it is set back by at most `back`
and forward by at most `forward`, and each of the two at most once in any `apart` units of time.

* `reading_lt`: a later time shows more, unless it is less than `back` away.
* `first_iff`: whether a reading is there for the first time is seen from the last `back` readings.
* `exists_first`: in any `apart` units of time some reading of a class modulo a period is there for the first time.
* `enumerates`: times each of which is the next one with a property are all times with it.
-/

namespace Clocks

variable {offset : Int → Int} {back forward apart : Int}

/-- What the clock shows. -/
def reading (offset : Int → Int) (u : Int) : Int := u + offset u

structure Regular (offset : Int → Int) (back forward apart : Int) : Prop where
  back_le : ∀ u, offset (u - 1) - offset u ≤ back
  forward_le : ∀ u, offset u - offset (u - 1) ≤ forward
  back_once : ∀ u v, u < v → offset u < offset (u - 1) → offset v < offset (v - 1) → apart ≤ v - u
  forward_once : ∀ u v, u < v → offset (u - 1) < offset u → offset (v - 1) < offset v → apart ≤ v - u

/-- The clock has not shown the same before. -/
def First (offset : Int → Int) (u : Int) : Prop := ∀ v < u, reading offset v ≠ reading offset u

/-- A clock that is not set back in between. -/
theorem offset_le {u : Int} {n : Nat} (h : ∀ v, u < v → v ≤ u + n → offset (v - 1) ≤ offset v) :
    offset u ≤ offset (u + n) := by
  induction n with
  | zero => simp
  | succ n ih =>
    have hbefore := ih fun v hlt hle => h v hlt (by omega)
    have hlast := h (u + (n + 1 : Nat)) (by omega) (le_refl _)
    rw [show u + ((n + 1 : Nat) : Int) - 1 = u + n by omega] at hlast
    omega

section Regular

variable (h : Regular offset back forward apart)
include h

theorem offset_back {u v : Int} (hback : 0 ≤ back) (huv : u ≤ v) (hapart : v - u ≤ apart) :
    offset u - offset v ≤ back := by
  obtain ⟨n, rfl⟩ : ∃ n : Nat, v = u + n := ⟨(v - u).toNat, by omega⟩
  by_cases hset : ∃ w, u < w ∧ w ≤ u + n ∧ offset w < offset (w - 1)
  · -- before and after this setting there is no other one
    obtain ⟨w, hlt, hle, hw⟩ := hset
    have hbefore : offset u ≤ offset (w - 1) := by
      obtain ⟨m, hm⟩ : ∃ m : Nat, w - 1 = u + m := ⟨(w - 1 - u).toNat, by omega⟩
      rw [hm]
      refine offset_le fun x hx hxm => ?_
      by_contra hback
      have hfar := h.back_once x w (by omega) (by omega) hw
      omega
    have hafter : offset w ≤ offset (u + n) := by
      obtain ⟨m, hm⟩ : ∃ m : Nat, u + n = w + m := ⟨(u + n - w).toNat, by omega⟩
      rw [hm]
      refine offset_le fun x hx hxm => ?_
      by_contra hback
      have hfar := h.back_once w x hx hw (by omega)
      omega
    have hstep := h.back_le w
    omega
  · have hle : offset u ≤ offset (u + n) := offset_le fun w hlt hle => by
      by_contra hback
      exact hset ⟨w, hlt, hle, by omega⟩
    omega

/-- By strong induction: a long way is cut where a short one is left. -/
theorem reading_lt (hback : 0 ≤ back) (hapart : 2 * back + 1 < apart) {u v : Int} (huv : back < v - u) :
    reading offset u < reading offset v := by
  obtain ⟨n, rfl⟩ : ∃ n : Nat, v = u + n := ⟨(v - u).toNat, by omega⟩
  induction n using Nat.strong_induction_on generalizing u with
  | _ n ih =>
    by_cases hn : (n : Int) ≤ apart
    · have hle := offset_back h hback (u := u) (v := u + n) (by omega) (by omega)
      unfold reading
      omega
    · obtain ⟨m, hm⟩ : ∃ m : Nat, (m : Int) = apart - back - 1 := ⟨(apart - back - 1).toNat, by omega⟩
      have hfirst := ih m (by omega) (u := u) (by omega)
      have hrest := ih (n - m) (by omega) (u := u + m) (by omega)
      rw [show u + (m : Int) + ((n - m : Nat) : Int) = u + n by omega] at hrest
      exact hfirst.trans hrest

theorem first_iff (hback : 0 ≤ back) (hapart : 2 * back + 1 < apart) {u : Int} :
    First offset u ↔ ∀ v, u - back ≤ v → v < u → reading offset v ≠ reading offset u := by
  refine ⟨fun hfirst v _ hlt => hfirst v hlt, fun hnear v hlt => ?_⟩
  by_cases hv : u - back ≤ v
  · exact hnear v hv hlt
  · exact (reading_lt h hback hapart (by omega)).ne

end Regular

/-- The first time from which on the clock has reached `t`. -/
theorem exists_crossing {u t : Int} {n : Nat} (hbelow : reading offset u < t) (habove : t ≤ reading offset (u + n)) :
    ∃ v, u < v ∧ v ≤ u + n ∧ t ≤ reading offset v ∧ ∀ w, u ≤ w → w < v → reading offset w < t := by
  classical
  have hex : ∃ m : Nat, t ≤ reading offset (u + m) := ⟨n, habove⟩
  have hpos : Nat.find hex ≠ 0 := by
    intro hzero
    have hle := Nat.find_spec hex
    rw [hzero] at hle
    simp only [Nat.cast_zero, add_zero] at hle
    omega
  refine ⟨u + Nat.find hex, by omega, ?_, Nat.find_spec hex, fun w hle hlt => ?_⟩
  · have hmin := Nat.find_min' hex habove
    omega
  · obtain ⟨m, rfl⟩ : ∃ m : Nat, w = u + m := ⟨(w - u).toNat, by omega⟩
    exact not_le.mp (Nat.find_min hex (by omega))

/-- Where the clock is not set forward it shows every value that it crosses. -/
theorem reading_crossing {u t : Int} (hset : offset u ≤ offset (u - 1)) (hbelow : reading offset (u - 1) < t)
    (habove : t ≤ reading offset u) : reading offset u = t := by
  unfold reading at *
  omega

theorem exists_first (h : Regular offset back forward apart) (hback : 0 ≤ back) {period : Int}
    (hperiod : forward < period) (hpos : 0 < period) (hapart : 2 * period + 2 * back ≤ apart) (s c : Int) :
    ∃ u, s ≤ u ∧ u < s + apart ∧ First offset u ∧ reading offset u % period = c % period := by
  -- the two values of the class that come after everything that has been shown
  obtain ⟨t, htlow, hthigh, htclass⟩ :
    ∃ t, reading offset (s - 1) + back < t ∧ t ≤ reading offset (s - 1) + back + period ∧
      t % period = c % period := by
    refine ⟨reading offset (s - 1) + back + 1 + (c - (reading offset (s - 1) + back + 1)) % period, ?_, ?_, ?_⟩
    · have hmod := Int.emod_nonneg (c - (reading offset (s - 1) + back + 1)) hpos.ne'
      omega
    · have hmod := Int.emod_lt_of_pos (c - (reading offset (s - 1) + back + 1)) hpos
      omega
    · rw [Int.add_emod_emod]
      congr 1
      omega
  have hbefore : ∀ v < s, reading offset v < t := by
    intro v hv
    by_cases hfar : back < s - 1 - v
    · have hlt := reading_lt h hback (by omega) hfar
      omega
    · have hle := offset_back h hback (u := v) (v := s - 1) (by omega) (by omega)
      unfold reading at *
      omega
  obtain ⟨n, hn⟩ : ∃ n : Nat, (n : Int) = apart := ⟨apart.toNat, by omega⟩
  have hend : t + period ≤ reading offset (s - 1 + n) := by
    have hle := offset_back h hback (u := s - 1) (v := s - 1 + n) (by omega) (by omega)
    unfold reading at *
    omega
  have hstart : reading offset (s - 1) < t := hbefore (s - 1) (by omega)
  obtain ⟨a, hsa, han, hta, hbelow⟩ := exists_crossing hstart (show t ≤ reading offset (s - 1 + n) by omega)
  have hbelow' : ∀ v < a, reading offset v < t := by
    intro v hv
    by_cases hvs : v < s
    · exact hbefore v hvs
    · exact hbelow v (by omega) hv
  by_cases hset : offset a ≤ offset (a - 1)
  · have ha := reading_crossing hset (hbelow' (a - 1) (by omega)) hta
    exact ⟨a, by omega, by omega, fun v hv => by rw [ha]; exact (hbelow' v hv).ne, by rw [ha, htclass]⟩
  · -- the clock is set forward over the first of the two, and not again over the second
    have hjump := h.forward_le a
    have hlast := hbelow' (a - 1) (by omega)
    have hna : reading offset a < t + period := by
      unfold reading at *
      omega
    obtain ⟨m, hm⟩ : ∃ m : Nat, s - 1 + n = a + m := ⟨(s - 1 + n - a).toNat, by omega⟩
    obtain ⟨b, hab, hbn, htb, hbelowb⟩ := exists_crossing hna (hm ▸ hend)
    have hbelowb' : ∀ v < b, reading offset v < t + period := by
      intro v hv
      by_cases hva : v < a
      · have hlt := hbelow' v hva
        omega
      · exact hbelowb v (by omega) hv
    have hsetb : offset b ≤ offset (b - 1) := by
      by_contra hforward
      have hfar := h.forward_once a b hab (by omega) (by omega)
      omega
    have hb := reading_crossing hsetb (hbelowb' (b - 1) (by omega)) htb
    refine ⟨b, by omega, by omega, fun v hv => by rw [hb]; exact (hbelowb' v hv).ne, ?_⟩
    rw [hb, Int.add_emod_right, htclass]

/-! ## One time after the other -/

theorem enumerates {P : Int → Prop} {r : Nat → Int} {a : Int} (hzero : IsLeast {v | a < v ∧ P v} (r 0))
    (hsucc : ∀ n, IsLeast {v | r n < v ∧ P v} (r (n + 1))) : StrictMono r ∧ ∀ v, (∃ n, r n = v) ↔ a < v ∧ P v := by
  have hmono : StrictMono r := strictMono_nat_of_lt_succ fun n => (hsucc n).1.1
  refine ⟨hmono, fun v => ⟨?_, ?_⟩⟩
  · rintro ⟨n, rfl⟩
    refine ⟨lt_of_lt_of_le hzero.1.1 (hmono.monotone (Nat.zero_le n)), ?_⟩
    cases n with
    | zero => exact hzero.1.2
    | succ n => exact (hsucc n).1.2
  · rintro ⟨hav, hv⟩
    have hgrows : ∀ n : Nat, r 0 + n ≤ r n := by
      intro n
      induction n with
      | zero => simp
      | succ n ih =>
        have hlt := (hsucc n).1.1
        push_cast
        omega
    have hex : ∃ n, v ≤ r n := ⟨(v - r 0).toNat, by
      have hle := hgrows (v - r 0).toNat
      omega⟩
    -- the first time that is not before `v` is `v`
    refine ⟨Nat.find hex, le_antisymm ?_ (Nat.find_spec hex)⟩
    cases hfind : Nat.find hex with
    | zero => exact hzero.2 ⟨hav, hv⟩
    | succ n => exact (hsucc n).2 ⟨not_le.mp (Nat.find_min hex (by omega)), hv⟩

end Clocks
