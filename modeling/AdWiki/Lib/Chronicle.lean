import AdWiki.Lib.Rows
import Mathlib

/-!
# Records of what has happened

A list of events, newest first, that only grows. `Grows P log log'` says that `log'` has only new events with `P`, so
every event without it, and every value read off such events, was on record before (`Grows.mem`, `Grows.filterMap`). What
happens at most once is a key that the events have without repetition: `Once`.

* `Once.eq`: two events with the same key are one event.
* `exists_pairs`: where each of some events has its own origin, the events can be listed with their origins, each origin
  once.
-/

namespace Chronicle

variable {ε κ α β : Type*} {P Q : ε → Prop} {log log' : List ε} {e : ε}

/-! ## Growing records -/

def Grows (P : ε → Prop) (log log' : List ε) : Prop := ∃ new, log' = new ++ log ∧ ∀ e ∈ new, P e

theorem Grows.refl : Grows P log log := ⟨[], rfl, fun _ h => absurd h List.not_mem_nil⟩

theorem Grows.cons (he : P e) : Grows P log (e :: log) :=
  ⟨[e], rfl, fun e' h => by rw [List.mem_singleton.mp h]; exact he⟩

theorem Grows.append {new : List ε} (hnew : ∀ e ∈ new, P e) : Grows P log (new ++ log) := ⟨new, rfl, hnew⟩

theorem Grows.suffix (h : Grows P log log') : log <:+ log' := by
  obtain ⟨new, rfl, -⟩ := h
  exact List.suffix_append _ _

theorem Grows.mem (h : Grows P log log') (hmem : e ∈ log') (he : ¬P e) : e ∈ log := by
  obtain ⟨new, rfl, hnew⟩ := h
  exact (List.mem_append.mp hmem).resolve_left fun h => he (hnew e h)

theorem Grows.filterMap {f : ε → Option β} (h : Grows P log log') (hf : ∀ e, P e → f e = none) :
    log'.filterMap f = log.filterMap f := by
  obtain ⟨new, rfl, hnew⟩ := h
  rw [List.filterMap_append, List.filterMap_eq_nil_iff.mpr fun e he => hf e (hnew e he), List.nil_append]

theorem Grows.imp (h : Grows P log log') (hPQ : ∀ e, P e → Q e) : Grows Q log log' := by
  obtain ⟨new, hlog, hnew⟩ := h
  exact ⟨new, hlog, fun e he => hPQ e (hnew e he)⟩

/-! ## What happens once -/

variable {key : ε → Option κ} {x : κ}

/-- No two events have the same key. -/
def Once (key : ε → Option κ) (log : List ε) : Prop := (log.filterMap key).Nodup

theorem Once.nil : Once key [] := List.nodup_nil

/-- Some event has the key. -/
def Has (key : ε → Option κ) (log : List ε) (x : κ) : Prop := ∃ e ∈ log, key e = some x

theorem has_iff : Has key log x ↔ x ∈ log.filterMap key := List.mem_filterMap.symm

theorem Has.mono (hlog : log <:+ log') (h : Has key log x) : Has key log' x := by
  obtain ⟨e, he, hkey⟩ := h
  exact ⟨e, hlog.mem he, hkey⟩

theorem Has.of_cons (h : Has key (e :: log) x) (he : key e = none) : Has key log x := by
  obtain ⟨e', he', hkey⟩ := h
  rcases List.mem_cons.mp he' with rfl | he'
  · rw [he] at hkey
    cases hkey
  · exact ⟨e', he', hkey⟩

theorem Once.eq {e' : ε} (h : Once key log) (he : e ∈ log) (he' : e' ∈ log) (hkey : key e = some x)
    (hkey' : key e' = some x) :
    e = e' := Rows.eq_of_filterMap h he he' hkey hkey'

theorem Once.cons (h : Once key log) (hnew : ∀ x, key e = some x → ¬Has key log x) : Once key (e :: log) := by
  unfold Once
  cases hkey : key e with
  | none =>
    rw [List.filterMap_cons_none hkey]
    exact h
  | some x =>
    rw [List.filterMap_cons_some hkey]
    exact List.nodup_cons.mpr ⟨fun hmem => hnew x hkey (has_iff.mpr hmem), h⟩

theorem Once.grows (h : Once key log) (hlog : Grows P log log') (hP : ∀ e, P e → key e = none) : Once key log' := by
  unfold Once
  rw [hlog.filterMap hP]
  exact h

theorem Grows.has (hlog : Grows P log log') (hP : ∀ e, P e → key e = none) (h : Has key log' x) : Has key log x := by
  obtain ⟨e, he, hkey⟩ := h
  refine ⟨e, hlog.mem he fun hPe => ?_, hkey⟩
  rw [hP e hPe] at hkey
  cases hkey

/-! ## Events with their origins -/

theorem exists_list {R : α → β → Prop} {l : List α} (h : ∀ a ∈ l, ∃ b, R a b) :
    ∃ pairs : List (α × β), pairs.map Prod.fst = l ∧ ∀ p ∈ pairs, R p.1 p.2 := by
  induction l with
  | nil => exact ⟨[], rfl, fun _ h => absurd h List.not_mem_nil⟩
  | cons a l ih =>
    obtain ⟨b, hb⟩ := h a List.mem_cons_self
    obtain ⟨pairs, hfst, hpairs⟩ := ih fun a' ha' => h a' (List.mem_cons_of_mem _ ha')
    refine ⟨(a, b) :: pairs, by rw [List.map_cons, hfst], fun p hp => ?_⟩
    rcases List.mem_cons.mp hp with rfl | hp
    · exact hb
    · exact hpairs p hp

/-- Different events have different origins. -/
theorem exists_pairs {R : α → β → Prop} {l : List α} (origin : β → κ) (hl : l.Nodup) (h : ∀ a ∈ l, ∃ b, R a b)
    (hinj : ∀ a ∈ l, ∀ a' ∈ l, ∀ b b', R a b → R a' b' → origin b = origin b' → a = a') :
    ∃ pairs : List (α × β), pairs.map Prod.fst = l ∧ (pairs.map fun p => origin p.2).Nodup ∧ ∀ p ∈ pairs, R p.1 p.2 := by
  obtain ⟨pairs, hfst, hpairs⟩ := exists_list h
  have hmem : ∀ p ∈ pairs, p.1 ∈ l := fun p hp => hfst ▸ List.mem_map_of_mem hp
  refine ⟨pairs, hfst, List.pairwise_map.mpr ?_, hpairs⟩
  have hdistinct : pairs.Pairwise fun p p' => p.1 ≠ p'.1 := List.pairwise_map.mp (hfst ▸ hl)
  exact hdistinct.imp_of_mem fun hp hp' hne horigin =>
    hne (hinj _ (hmem _ hp) _ (hmem _ hp') _ _ (hpairs _ hp) (hpairs _ hp') horigin)

end Chronicle
