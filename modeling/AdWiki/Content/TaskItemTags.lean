import AdWiki.Content.ToggleCheckbox
import AdWiki.Lib.Checklist
import Mathlib

/-!
# The task items of HTML

* `pieces_join`: the scan recognises the tags that a text has been put together from.
* `findText_replace`: a match that is replaced by another one is found again.
* `tiptap_lawful`: writing `data-checked` keeps the pieces, and which tags are task items.
* `toggleTiptapTaskItem_eq`: the replacement writes the attribute of the item with the given number.
-/

namespace AdWiki.Content

open Checklist

variable {text rest tag tag' u m m' v s : List Char} {ps : List Piece} {texts marks : List (List Char)} {c : Char}
  {k i n : Nat} {checked afterWord : Bool}

/-! ## Tags -/

theorem startsLi_take (text : List Char) : startsLi (text.take 4) = startsLi text := by
  match text with
  | [] | [_] | [_, _] | [_, _, _] => rfl
  | a :: l :: i :: c :: rest =>
    show startsLi [a, l, i, c] = _
    by_cases ha : a = '<'
    · subst ha
      rfl
    · simp [startsLi, ha]

theorem findIdx?_bracket :
    text.findIdx? (· == '>') = some k ↔ ∃ body rest, text = body ++ '>' :: rest ∧ '>' ∉ body ∧ body.length = k := by
  induction text generalizing k with
  | nil => simp
  | cons c text ih =>
    rw [List.findIdx?_cons]
    by_cases hc : c = '>'
    · subst hc
      simp only [beq_self_eq_true, if_true, Option.some.injEq]
      constructor
      · rintro rfl
        exact ⟨[], text, rfl, List.not_mem_nil, rfl⟩
      · rintro ⟨body, rest, htext, hbody, rfl⟩
        cases body with
        | nil => rfl
        | cons d body =>
          obtain rfl := (List.cons.inj htext).1
          exact absurd List.mem_cons_self hbody
    · have hfalse : (c == '>') = false := by simpa using hc
      rw [hfalse]
      simp only [Bool.false_eq_true, if_false, Option.map_eq_some_iff]
      constructor
      · rintro ⟨j, hj, rfl⟩
        obtain ⟨body, rest, rfl, hbody, rfl⟩ := ih.mp hj
        exact ⟨c :: body, rest, rfl, List.not_mem_cons_of_ne_of_not_mem (Ne.symm hc) hbody, rfl⟩
      · rintro ⟨body, rest, htext, hbody, rfl⟩
        cases body with
        | nil => exact absurd (List.cons.inj htext).1 hc
        | cons d body =>
          obtain ⟨rfl, rfl⟩ := List.cons.inj htext
          exact ⟨body.length, ih.mpr ⟨body, rest, rfl, fun hmem => hbody (List.mem_cons_of_mem _ hmem), rfl⟩, rfl⟩

theorem matchLi_eq_some : matchLi text = some n ↔
    startsLi text = true ∧ ∃ body rest, text = body ++ '>' :: rest ∧ '>' ∉ body ∧ body.length + 1 = n := by
  unfold matchLi
  split
  · next hstarts =>
    rw [Option.map_eq_some_iff]
    simp only [findIdx?_bracket, hstarts, true_and]
    constructor
    · rintro ⟨k, ⟨body, rest, htext, hbody, rfl⟩, rfl⟩
      exact ⟨body, rest, htext, hbody, rfl⟩
    · rintro ⟨body, rest, htext, hbody, rfl⟩
      exact ⟨body.length, ⟨body, rest, htext, hbody, rfl⟩, rfl⟩
  · next hstarts => simp [hstarts]

/-- A whole tag. -/
structure IsLi (tag : List Char) : Prop where
  starts : startsLi tag = true
  ends : ∃ body, tag = body ++ ['>'] ∧ '>' ∉ body

theorem startsLi_iff : startsLi text = true ↔
    ∃ l i c rest, text = '<' :: l :: i :: c :: rest ∧ l.toLower = 'l' ∧ i.toLower = 'i' ∧ isWord c = false := by
  unfold startsLi
  split
  · simp [and_assoc]
  · next hnot =>
    simp only [Bool.false_eq_true, false_iff]
    rintro ⟨l, i, c, rest, rfl, -⟩
    exact hnot l i c rest rfl

theorem IsLi.four_le (h : IsLi tag) : 4 ≤ tag.length := by
  obtain ⟨l, i, c, rest, rfl, -⟩ := startsLi_iff.mp h.starts
  simp

theorem startsLi_append (h : 4 ≤ tag.length) (rest : List Char) : startsLi (tag ++ rest) = startsLi tag := by
  rw [← startsLi_take (tag ++ rest), List.take_append_of_le_length h, startsLi_take]

theorem IsLi.matchLi_append (h : IsLi tag) (rest : List Char) : matchLi (tag ++ rest) = some tag.length := by
  obtain ⟨body, hbody, hnot⟩ := h.ends
  refine matchLi_eq_some.mpr ⟨(startsLi_append h.four_le rest).trans h.starts, body, rest, ?_, hnot, ?_⟩
  · rw [hbody]
    simp
  · rw [hbody]
    simp

/-- What has been matched is a tag. -/
theorem isLi_of_matchLi (h : matchLi text = some n) : IsLi (text.take n) ∧ 0 < n := by
  obtain ⟨hstarts, body, rest, htext, hnot, rfl⟩ := matchLi_eq_some.mp h
  have htake : text.take (body.length + 1) = body ++ ['>'] := by
    rw [htext, List.append_cons]
    exact List.take_left' (by simp)
  refine ⟨⟨?_, body, htake, hnot⟩, Nat.succ_pos _⟩
  -- the first three characters are no bracket
  have hlength : 4 ≤ (text.take (body.length + 1)).length := by
    obtain ⟨l, i, c, rest', rfl, hl, hi, -⟩ := startsLi_iff.mp hstarts
    have hne : ∀ d e : Char, d.toLower = e → e ≠ '>' → d ≠ '>' := by
      rintro d e hd he rfl
      exact he (hd ▸ rfl)
    rw [htake, List.length_append, List.length_singleton]
    match body with
    | [] => cases htext
    | [_] => exact absurd (List.cons.inj (List.cons.inj htext).2).1 (hne l 'l' hl (by decide))
    | [_, _] => exact absurd (List.cons.inj (List.cons.inj (List.cons.inj htext).2).2).1 (hne i 'i' hi (by decide))
    | _ :: _ :: _ :: _ => simp
  have hsplit := startsLi_append hlength (text.drop (body.length + 1))
  rw [List.take_append_drop] at hsplit
  exact hsplit ▸ hstarts

/-! ## Pieces -/

def join (ps : List Piece) : List Char := ps.flatMap Piece.text

/-- The pieces that a scan gives. -/
inductive Scanned : List Piece → Prop
  | nil : Scanned []
  | char {c : Char} {ps : List Piece} : matchLi (c :: join ps) = none → Scanned ps → Scanned (.char c :: ps)
  | tag {tag : List Char} {ps : List Piece} : IsLi tag → Scanned ps → Scanned (.tag tag :: ps)

theorem pieces_skip (n : Nat) (text : List Char) : pieces n text = pieces 0 (text.drop n) := by
  induction text generalizing n with
  | nil => cases n <;> rfl
  | cons c text ih =>
    cases n with
    | zero => rfl
    | succ n => exact ih n

theorem pieces_join (h : Scanned ps) : pieces 0 (join ps) = ps := by
  induction h with
  | nil => rfl
  | @char c ps hnone _ ih =>
    show pieces 0 (c :: join ps) = _
    rw [pieces, hnone]
    dsimp only
    rw [ih]
  | @tag tag ps htag _ ih =>
    have hmatch := htag.matchLi_append (join ps)
    have hlength := htag.four_le
    show pieces 0 (tag ++ join ps) = _
    cases tag with
    | nil => simp at hlength
    | cons c tag =>
      rw [List.cons_append] at hmatch ⊢
      rw [pieces, hmatch]
      dsimp only
      rw [pieces_skip, List.length_cons, Nat.add_sub_cancel, List.drop_left,
        ih, ← List.cons_append, ← List.length_cons (a := c), List.take_left]

theorem scanned_pieces (n : Nat) (text : List Char) : Scanned (pieces n text) ∧ join (pieces n text) = text.drop n := by
  fun_induction pieces n text with
  | case1 n => exact ⟨.nil, by simp [join]⟩
  | case2 n c cs ih => exact ih
  | case3 c cs n hmatch ih =>
    obtain ⟨htag, hpos⟩ := isLi_of_matchLi hmatch
    refine ⟨.tag htag ih.1, ?_⟩
    show (c :: cs).take n ++ join (pieces (n - 1) cs) = c :: cs
    obtain ⟨n, rfl⟩ : ∃ k, n = k + 1 := ⟨n - 1, by omega⟩
    rw [ih.2, List.take_succ_cons, Nat.add_sub_cancel, List.cons_append, List.take_append_drop]
  | case4 c cs hmatch ih =>
    refine ⟨.char ?_ ih.1, ?_⟩
    · rw [ih.2]
      exact hmatch
    · show c :: join (pieces 0 cs) = c :: cs
      rw [ih.2]
      rfl

/-- A tag is replaced by another one that begins in the same way. -/
theorem Scanned.set (h : Scanned ps) (hk : ps[k]? = some (.tag tag)) (htag : IsLi tag) (htag' : IsLi tag')
    (hsame : tag'.take 4 = tag.take 4) :
    Scanned (ps.set k (.tag tag')) ∧ (join (ps.set k (.tag tag'))).take 4 = (join ps).take 4 ∧ '>' ∈ join ps := by
  induction h generalizing k with
  | nil => cases hk
  | @char c ps hnone hps ih =>
    cases k with
    | zero => cases hk
    | succ k =>
      obtain ⟨hset, htake, hmem⟩ := ih hk
      have hjoin : ∀ ps, join (.char c :: ps) = c :: join ps := fun _ => rfl
      have hfirst : (c :: join (ps.set k (.tag tag'))).take 4 = (c :: join ps).take 4 := by
        have hthree := congrArg (List.take 3) htake
        rw [List.take_take, List.take_take] at hthree
        rw [List.take_succ_cons, List.take_succ_cons]
        exact congrArg (c :: ·) hthree
      refine ⟨.char ?_ hset, ?_, ?_⟩
      · -- the match has failed at its beginning
        have hstarts : startsLi (c :: join ps) = false := by
          by_contra hyes
          rw [Bool.not_eq_false] at hyes
          unfold matchLi at hnone
          rw [if_pos hyes, Option.map_eq_none_iff, List.findIdx?_eq_none_iff] at hnone
          have hbracket := hnone '>' (List.mem_cons_of_mem c hmem)
          cases hbracket
        have hstarts' : startsLi (c :: join (ps.set k (.tag tag'))) = false := by
          rw [← startsLi_take, hfirst, startsLi_take, hstarts]
        unfold matchLi
        rw [hstarts']
        rfl
      · rw [List.set_cons_succ, hjoin, hjoin, hfirst]
      · rw [hjoin]
        exact List.mem_cons_of_mem c hmem
  | @tag first ps hfirst hps ih =>
    have hjoin : ∀ tag ps, join (.tag tag :: ps) = tag ++ join ps := fun _ _ => rfl
    have hends : ∀ {tag}, IsLi tag → '>' ∈ tag := by
      rintro tag ⟨-, body, rfl, -⟩
      simp
    have hmem : '>' ∈ join (.tag first :: ps) := by
      rw [hjoin]
      exact List.mem_append_left _ (hends hfirst)
    cases k with
    | zero =>
      cases hk
      refine ⟨.tag htag' hps, ?_, hmem⟩
      rw [List.set_cons_zero, hjoin, hjoin, List.take_append_of_le_length htag'.four_le,
        List.take_append_of_le_length htag.four_le, hsame]
    | succ k =>
      obtain ⟨hset, -, -⟩ := ih hk
      refine ⟨.tag hfirst hset, ?_, hmem⟩
      rw [List.set_cons_succ, hjoin, hjoin, List.take_append_of_le_length hfirst.four_le,
        List.take_append_of_le_length hfirst.four_le]

/-! ## Attributes -/

def lower (text : List Char) : List Char := text.map Char.toLower

theorem lower_append (u v : List Char) : lower (u ++ v) = lower u ++ lower v := List.map_append

theorem matchText_eq_none : matchText texts text = none ↔ ∀ p ∈ texts, ¬p <+: lower text := by
  unfold matchText
  rw [Option.map_eq_none_iff, List.find?_eq_none]
  simp only [List.isPrefixOf_iff_prefix]
  rfl

theorem matchText_eq_some (h : matchText texts text = some n) : ∃ p ∈ texts, p <+: lower text ∧ p.length = n := by
  obtain ⟨p, hp, rfl⟩ := Option.map_eq_some_iff.mp h
  have hprefix : p.isPrefixOf (lower text) = true :=
    List.find?_some (p := fun candidate : List Char => candidate.isPrefixOf (lower text)) hp
  exact ⟨p, List.mem_of_find?_eq_some hp, List.isPrefixOf_iff_prefix.mp hprefix, rfl⟩

/-- One of two texts begins with the other. -/
def comparable (p s : List Char) : Bool := p.isPrefixOf s || s.isPrefixOf p

theorem comparable_of_begins {p s text : List Char} (hp : p <+: text) (hs : s <+: text) : comparable p s = true := by
  rw [comparable, Bool.or_eq_true, List.isPrefixOf_iff_prefix, List.isPrefixOf_iff_prefix]
  exact List.prefix_or_prefix_of_prefix hp hs

/-- No text of the first list reaches from before into one of the second. -/
def Apart (texts marks : List (List Char)) : Prop :=
  ∀ p ∈ texts, ∀ mark ∈ marks, ∀ k < p.length, 0 < k → comparable (p.drop k) mark = false

theorem apart_checked : Apart checkedTexts checkedTexts := by
  unfold Apart
  decide +kernel

/-- Before a mark nothing is matched that was not matched with another mark. -/
theorem matchText_before (hapart : Apart texts marks) (hs : s ≠ []) (hm' : lower m' ∈ marks)
    (h : matchText texts (s ++ m ++ v) = none) :
    matchText texts (s ++ m' ++ v) = none := by
  rw [matchText_eq_none] at h ⊢
  intro p hp hprefix
  have hshort : ¬p <+: lower s := fun hpre => h p hp (by
    rw [lower_append, lower_append, List.append_assoc]
    exact hpre.trans (List.prefix_append _ _))
  rw [lower_append, lower_append, List.append_assoc] at hprefix
  rcases List.prefix_or_prefix_of_prefix hprefix (List.prefix_append (lower s) (lower m' ++ lower v)) with hpre | ⟨y, rfl⟩
  · exact hshort hpre
  · -- the match goes on in the mark
    have hy : y <+: lower m' ++ lower v := (List.prefix_append_right_inj _).mp hprefix
    have hne : y ≠ [] := fun hnil => hshort (by simp [hnil])
    have hlength : (lower s).length = s.length := List.length_map _
    have hdrop : (lower s ++ y).drop s.length = y := by rw [← hlength, List.drop_left]
    have hfalse := hapart _ hp _ hm' s.length (by
      rw [List.length_append, hlength]
      have hpos := List.length_pos_of_ne_nil hne
      omega) (List.length_pos_of_ne_nil hs)
    rw [hdrop, comparable_of_begins hy (List.prefix_append _ _)] at hfalse
    cases hfalse

theorem findText_eq_some (h : findText texts afterWord text = some (u, m, v)) : text = u ++ m ++ v ∧ lower m ∈ texts := by
  induction text generalizing afterWord u with
  | nil => cases h
  | cons c text ih =>
    unfold findText at h
    split at h
    · next n hn =>
      cases h
      split at hn
      · cases hn
      · obtain ⟨p, hp, ⟨y, hy⟩, rfl⟩ := matchText_eq_some hn
        refine ⟨by simp, ?_⟩
        have htake : lower ((c :: text).take p.length) = p := by
          unfold lower
          rw [List.map_take]
          unfold lower at hy
          rw [← hy, List.take_left]
        rw [htake]
        exact hp
    · next hn =>
      obtain ⟨⟨u', m', v'⟩, hfound, heq⟩ := Option.map_eq_some_iff.mp h
      cases heq
      obtain ⟨htext, hmem⟩ := ih hfound
      exact ⟨by rw [htext]; rfl, hmem⟩

/-- No two texts of the list begin alike. -/
theorem checkedTexts_apart : ∀ p ∈ checkedTexts, ∀ q ∈ checkedTexts, comparable p q = true → p = q := by
  decide +kernel

theorem matchText_checked (hm : lower m ∈ checkedTexts) (v : List Char) :
    matchText checkedTexts (m ++ v) = some m.length := by
  have hprefix : lower m <+: lower (m ++ v) := by
    rw [lower_append]
    exact List.prefix_append _ _
  cases hfound : matchText checkedTexts (m ++ v) with
  | none => exact absurd hprefix (matchText_eq_none.mp hfound _ hm)
  | some n =>
    obtain ⟨p, hp, hpre, rfl⟩ := matchText_eq_some hfound
    rw [checkedTexts_apart p hp _ hm (comparable_of_begins hpre hprefix)]
    exact congrArg some (List.length_map _)

/-- The first match is found again where it has been replaced. -/
theorem findText_replace (h : findText checkedTexts afterWord (u ++ m ++ v) = some (u, m, v))
    (hm' : lower m' ∈ checkedTexts) :
    findText checkedTexts afterWord (u ++ m' ++ v) = some (u, m', v) := by
  have hne : ∀ {m}, lower m ∈ checkedTexts → m ≠ [] := by
    rintro m hm rfl
    exact absurd hm (by decide +kernel)
  have hm := (findText_eq_some h).2
  induction u generalizing afterWord with
  | nil =>
    rw [List.nil_append] at h ⊢
    have hstart : afterWord = false := by
      by_contra hword
      rw [Bool.not_eq_false] at hword
      obtain ⟨c, m, rfl⟩ := List.exists_cons_of_ne_nil (hne hm)
      rw [List.cons_append, findText, hword, if_pos rfl] at h
      obtain ⟨found, -, heq⟩ := Option.map_eq_some_iff.mp h
      cases heq
    have hmatch := matchText_checked hm' v
    obtain ⟨c, m', rfl⟩ := List.exists_cons_of_ne_nil (hne hm')
    rw [List.cons_append] at hmatch ⊢
    rw [findText, hstart, if_neg Bool.false_ne_true, hmatch]
    dsimp only
    rw [← List.cons_append, List.take_left, List.drop_left]
  | cons c u ih =>
    rw [List.cons_append, List.cons_append, findText] at h ⊢
    cases hfirst : (if afterWord then none else matchText checkedTexts (c :: (u ++ m ++ v))) with
    | some n =>
      rw [hfirst] at h
      cases h
    | none =>
      rw [hfirst] at h
      obtain ⟨⟨u₁, m₁, v₁⟩, hfound, heq⟩ := Option.map_eq_some_iff.mp h
      simp only [Prod.mk.injEq, List.cons.injEq, true_and] at heq
      obtain ⟨rfl, rfl, rfl⟩ := heq
      have hnone : (if afterWord then none else matchText checkedTexts (c :: (u₁ ++ m' ++ v₁))) = none := by
        cases afterWord with
        | true => rfl
        | false => exact matchText_before (s := c :: u₁) apart_checked (List.cons_ne_nil c u₁) hm' hfirst
      rw [hnone]
      dsimp only
      rw [ih hfound]
      rfl

/-! ## The other attribute -/

theorem isWord_toLower (c : Char) : isWord c.toLower = isWord c := by
  have hall : ∀ n < 26, isWord (Char.ofNat ('A'.toNat + n)).toLower = isWord (Char.ofNat ('A'.toNat + n)) := by decide
  rcases Js.toLower_eq_or c with hsame | ⟨n, hn, rfl⟩
  · rw [hsame]
  · exact hall n hn

theorem findText_eq_none : findText texts afterWord (c :: text) = none ↔
    (afterWord = false → matchText texts (c :: text) = none) ∧ findText texts (isWord c) text = none := by
  rw [findText]
  cases afterWord with
  | true => simp
  | false => cases matchText texts (c :: text) <;> simp

/-- A text in which nothing can begin is passed over. -/
theorem findText_through (hapart : ∀ q ∈ texts, ∀ k < s.length, comparable q ((lower s).drop k) = false)
    (hlast : s.getLast? = some c) :
    findText texts afterWord (s ++ v) = none ↔ findText texts (isWord c) v = none := by
  induction s generalizing afterWord with
  | nil => cases hlast
  | cons d s ih =>
    have hfirst : matchText texts (d :: (s ++ v)) = none := by
      refine matchText_eq_none.mpr fun q hq hprefix => ?_
      have hfalse := hapart q hq 0 (Nat.succ_pos _)
      have hbegin : lower (d :: s) <+: lower (d :: (s ++ v)) := by
        rw [← List.cons_append, lower_append]
        exact List.prefix_append _ _
      rw [List.drop_zero, comparable_of_begins hprefix hbegin] at hfalse
      cases hfalse
    rw [List.cons_append, findText_eq_none, and_iff_right fun _ => hfirst]
    cases s with
    | nil =>
      cases hlast
      rfl
    | cons e s =>
      have hrest : ∀ q ∈ texts, ∀ k < (e :: s).length, comparable q ((lower (e :: s)).drop k) = false := by
        intro q hq k hk
        exact hapart q hq (k + 1) (Nat.succ_lt_succ hk)
      exact ih hrest (by simpa using hlast)

theorem checkedTexts_form :
    ∀ p ∈ checkedTexts, p.head? = some 'd' ∧ '>' ∉ p ∧ (p.getLast? = some '"' ∨ p.getLast? = some '\'') := by
  decide +kernel

theorem checked_getLast (hm : lower m ∈ checkedTexts) : ∃ c, m.getLast? = some c ∧ c ≠ '>' := by
  obtain ⟨-, -, hlast⟩ := checkedTexts_form _ hm
  unfold lower at hlast
  rw [List.getLast?_map] at hlast
  simp only [Option.map_eq_some_iff] at hlast
  rcases hlast with ⟨c, hc, hquote⟩ | ⟨c, hc, hquote⟩
  all_goals
    refine ⟨c, hc, ?_⟩
    rintro rfl
    exact absurd hquote (by decide)

/-- No text of the first list reaches into one of the second or begins in it. -/
structure Separate (texts marks : List (List Char)) : Prop where
  apart : Apart texts marks
  inside : ∀ p ∈ texts, ∀ mark ∈ marks, ∀ k < mark.length, comparable p (mark.drop k) = false
  closed : ∀ mark ∈ marks, mark.getLast?.map isWord = some false

theorem separate_checked : Separate taskItemTexts checkedTexts where
  apart := by
    unfold Apart
    decide +kernel
  inside := by decide +kernel
  closed := by decide +kernel

/-- What is found does not depend on the mark. -/
theorem findText_mark (hsep : Separate texts marks) (hm : lower m ∈ marks) (hm' : lower m' ∈ marks) :
    findText texts afterWord (u ++ m ++ v) = none → findText texts afterWord (u ++ m' ++ v) = none := by
  have hthrough :
      ∀ {m afterWord}, lower m ∈ marks → (findText texts afterWord (m ++ v) = none ↔ findText texts false v = none) := by
    intro m afterWord hm
    have hlength : (lower m).length = m.length := List.length_map _
    have hlast := hsep.closed _ hm
    unfold lower at hlast
    rw [List.getLast?_map, Option.map_map] at hlast
    obtain ⟨c, hc, hword⟩ := Option.map_eq_some_iff.mp hlast
    have hfalse : isWord c = false := (isWord_toLower c).symm.trans hword
    rw [findText_through (fun q hq k hk => hsep.inside q hq _ hm k (hlength ▸ hk)) hc, hfalse]
  induction u generalizing afterWord with
  | nil =>
    rw [List.nil_append, List.nil_append, hthrough hm, hthrough hm']
    exact id
  | cons c u ih =>
    rw [List.cons_append, List.cons_append, List.cons_append, List.cons_append, findText_eq_none, findText_eq_none]
    rintro ⟨hfirst, hrest⟩
    exact ⟨fun hstart => matchText_before (s := c :: u) hsep.apart (List.cons_ne_nil c u) hm' (hfirst hstart), ih hrest⟩

/-- Which tags are task items does not depend on the mark. -/
theorem isTaskItem_mark (hsep : Separate taskItemTexts marks) (hm : lower m ∈ marks) (hm' : lower m' ∈ marks) :
    isTaskItem (u ++ m' ++ v) = isTaskItem (u ++ m ++ v) := by
  have hnone := @findText_mark u m m' v taskItemTexts marks false hsep hm hm'
  have hnone' := @findText_mark u m' m v taskItemTexts marks false hsep hm' hm
  unfold isTaskItem
  cases hleft : findText taskItemTexts false (u ++ m ++ v) with
  | none => rw [hnone hleft]
  | some found =>
    cases hright : findText taskItemTexts false (u ++ m' ++ v) with
    | none =>
      rw [hnone' hright] at hleft
      cases hleft
    | some found' => rfl

/-- The attribute stands behind the name of the tag. -/
theorem four_le_before (htag : IsLi (u ++ m ++ v)) (hm : lower m ∈ checkedTexts) : 4 ≤ u.length := by
  obtain ⟨hhead, -⟩ := checkedTexts_form _ hm
  obtain ⟨d, m, rfl⟩ : ∃ d rest, m = d :: rest := by
    cases m with
    | nil => cases hhead
    | cons d rest => exact ⟨d, rest, rfl⟩
  have hd : d.toLower = 'd' := Option.some.inj hhead
  obtain ⟨l, i, c, rest, htext, hl, hi, hc⟩ := startsLi_iff.mp htag.starts
  by_contra hshort
  have hat : (u ++ d :: m ++ v)[u.length]? = some d := by simp
  rw [htext] at hat
  match hu : u.length, hat with
  | 0, hat =>
    obtain rfl := Option.some.inj hat
    exact absurd hd (by decide)
  | 1, hat =>
    obtain rfl := Option.some.inj hat
    rw [hl] at hd
    exact absurd hd (by decide)
  | 2, hat =>
    obtain rfl := Option.some.inj hat
    rw [hi] at hd
    exact absurd hd (by decide)
  | 3, hat =>
    obtain rfl := Option.some.inj hat
    rw [← isWord_toLower, hd] at hc
    exact absurd hc (by decide)
  | n + 4, hat => omega

/-- The tag with the other value is a tag again. -/
theorem isLi_replace (htag : IsLi (u ++ m ++ v)) (hm : lower m ∈ checkedTexts) (hm' : lower m' ∈ checkedTexts) :
    IsLi (u ++ m' ++ v) ∧ (u ++ m' ++ v).take 4 = (u ++ m ++ v).take 4 := by
  have hfour := four_le_before htag hm
  have hsame : (u ++ m' ++ v).take 4 = (u ++ m ++ v).take 4 := by
    rw [List.append_assoc, List.append_assoc, List.take_append_of_le_length hfour, List.take_append_of_le_length hfour]
  have hfree : ∀ {m}, lower m ∈ checkedTexts → '>' ∉ m := by
    intro m hm hmem
    exact (checkedTexts_form _ hm).2.1 (List.mem_map_of_mem (f := Char.toLower) hmem)
  refine ⟨⟨?_, ?_⟩, hsame⟩
  · rw [← startsLi_take, hsame, startsLi_take]
    exact htag.starts
  · obtain ⟨body, hbody, hnot⟩ := htag.ends
    obtain ⟨w, hw, rfl⟩ : ∃ w, body = u ++ m ++ w ∧ v = w ++ ['>'] := by
      rcases List.append_eq_append_iff.mp hbody with ⟨w, hw, hv⟩ | ⟨w, hw, hv⟩
      · exact ⟨w, hw, hv⟩
      · -- the bracket is not part of the attribute
        cases w with
        | nil => exact ⟨[], by rw [hw, List.append_nil, List.append_nil], hv.symm⟩
        | cons e w =>
          obtain ⟨c, hc, hne⟩ := checked_getLast hm
          obtain ⟨rfl, hnil⟩ := List.cons.inj hv
          obtain ⟨rfl, -⟩ := List.append_eq_nil_iff.mp hnil.symm
          have hend := congrArg List.getLast? hw
          rw [List.getLast?_append, hc, List.getLast?_concat] at hend
          exact absurd (Option.some.inj hend) hne
    refine ⟨u ++ m' ++ w, by simp, ?_⟩
    rw [hw] at hnot
    simp only [List.mem_append, not_or] at hnot ⊢
    exact ⟨⟨hnot.1.1, hfree hm'⟩, hnot.2⟩

/-! ## The marks -/

def isChecked (marker : List Char) : Bool :=
  (attributeTexts "data-checked".toList ["true".toList]).contains (lower marker)

/-- The state of a task item with the attribute. -/
def pieceMark : Piece → Option Bool
  | .char _ => none
  | .tag tag => if isTaskItem tag then (findText checkedTexts false tag).map fun found => isChecked found.2.1 else none

def putChecked (checked : Bool) : Piece → Piece
  | .char c => .char c
  | .tag tag =>
    match findText checkedTexts false tag with
    | none => .tag tag
    | some found => .tag (found.1 ++ checkedText checked ++ found.2.2)

def tiptapFormat : Format Char Piece Bool where
  scan := pieces 0
  join := join
  marks := List.map pieceMark
  put := putChecked

theorem lower_checkedText (checked : Bool) :
    lower (checkedText checked) ∈ checkedTexts ∧ isChecked (checkedText checked) = checked := by
  cases checked <;> decide +kernel

theorem Scanned.isLi (h : Scanned ps) (htag : .tag tag ∈ ps) : IsLi tag := by
  induction h with
  | nil => cases htag
  | char _ _ ih =>
    rcases List.mem_cons.mp htag with heq | htag
    · cases heq
    · exact ih htag
  | tag hfirst _ ih =>
    rcases List.mem_cons.mp htag with heq | htag
    · cases heq
      exact hfirst
    · exact ih htag

theorem pieceMark_eq_some {p : Piece} {t : Bool} (h : pieceMark p = some t) :
    ∃ tag u m v, p = .tag tag ∧ isTaskItem tag = true ∧
    findText checkedTexts false tag = some (u, m, v) ∧ tag = u ++ m ++ v ∧ lower m ∈ checkedTexts ∧ isChecked m = t := by
  cases p with
  | char c => cases h
  | tag tag =>
    rw [pieceMark] at h
    by_cases hitem : isTaskItem tag = true
    · rw [if_pos hitem] at h
      obtain ⟨⟨u, m, v⟩, hfound, hchecked⟩ := Option.map_eq_some_iff.mp h
      obtain ⟨htag, hm⟩ := findText_eq_some hfound
      exact ⟨tag, u, m, v, rfl, hitem, hfound, htag, hm, hchecked⟩
    · rw [if_neg hitem] at h
      cases h

/-- The tag that is written has the new state, and the same text around it. -/
theorem putChecked_eq (hitem : isTaskItem tag = true) (hfound : findText checkedTexts false tag = some (u, m, v))
    (checked : Bool) :
    putChecked checked (.tag tag) = .tag (u ++ checkedText checked ++ v) ∧
      isTaskItem (u ++ checkedText checked ++ v) = true ∧
      findText checkedTexts false (u ++ checkedText checked ++ v) = some (u, checkedText checked, v) ∧
      pieceMark (putChecked checked (.tag tag)) = some checked := by
  obtain ⟨rfl, hm⟩ := findText_eq_some hfound
  obtain ⟨hm', hchecked⟩ := lower_checkedText checked
  have hput : putChecked checked (.tag (u ++ m ++ v)) = .tag (u ++ checkedText checked ++ v) := by rw [putChecked, hfound]
  have hitem' : isTaskItem (u ++ checkedText checked ++ v) = true := (isTaskItem_mark separate_checked hm hm').trans hitem
  have hfound' := findText_replace hfound hm'
  refine ⟨hput, hitem', hfound', ?_⟩
  rw [hput, pieceMark, if_pos hitem', hfound', Option.map_some, hchecked]

/-- A tag that has a state, and the text in which it has another one. -/
theorem pieces_written {p : Piece} {t : Bool} {text : List Char} (hp : (pieces 0 text)[k]? = some p)
    (hmark : pieceMark p = some t)
    (checked : Bool) :
    pieces 0 (join ((pieces 0 text).set k (putChecked checked p))) = (pieces 0 text).set k (putChecked checked p) := by
  obtain ⟨tag, u, m, v, rfl, hitem, hfound, rfl, hm, -⟩ := pieceMark_eq_some hmark
  obtain ⟨hput, -⟩ := putChecked_eq hitem hfound checked
  obtain ⟨hm', -⟩ := lower_checkedText checked
  have hscanned := (scanned_pieces 0 text).1
  have htag := hscanned.isLi (List.mem_of_getElem? hp)
  obtain ⟨htag', hsame⟩ := isLi_replace htag hm hm'
  rw [hput]
  exact pieces_join (hscanned.set hp htag htag' hsame).1

theorem map_getElem? {t : Bool} (h : (ps.map pieceMark)[k]? = some (some t)) :
    ∃ p, ps[k]? = some p ∧ pieceMark p = some t := by
  rw [List.getElem?_map] at h
  exact Option.map_eq_some_iff.mp h

theorem tiptap_lawful : tiptapFormat.Lawful where
  scan_written text k checked t h := by
    obtain ⟨p, hp, hmark⟩ := map_getElem? h
    change (pieces 0 text)[k]? = some p at hp
    show pieces 0 (join ((pieces 0 text).modify k (putChecked checked))) = (pieces 0 text).modify k (putChecked checked)
    rw [modify_eq_set hp]
    exact pieces_written hp hmark checked
  marks_written text k checked t h := by
    obtain ⟨p, hp, hmark⟩ := map_getElem? h
    obtain ⟨tag, u, m, v, rfl, hitem, hfound, -⟩ := pieceMark_eq_some hmark
    obtain ⟨-, -, -, hput⟩ := putChecked_eq hitem hfound checked
    change (pieces 0 text)[k]? = some (.tag tag) at hp
    show ((pieces 0 text).modify k (putChecked checked)).map pieceMark =
      ((pieces 0 text).map pieceMark).set k (some checked)
    rw [modify_eq_set hp, List.map_set, hput]
  put_put text k p a b t h hp := by
    obtain ⟨p', hp', hmark⟩ := map_getElem? h
    obtain rfl : p' = p := Option.some.inj (hp'.symm.trans hp)
    obtain ⟨tag, u, m, v, rfl, hitem, hfound, -⟩ := pieceMark_eq_some hmark
    obtain ⟨hput, hitem', hfound', -⟩ := putChecked_eq hitem hfound a
    show putChecked b (putChecked a (.tag tag)) = putChecked b (.tag tag)
    rw [hput, (putChecked_eq hitem' hfound' b).1, (putChecked_eq hitem hfound b).1]

/-! ## The replacement -/

/-- Every task item has the attribute with its state. -/
def HasStates (ps : List Piece) : Prop :=
  ∀ tag, .tag tag ∈ ps → isTaskItem tag = true → (findText checkedTexts false tag).isSome = true

/-- The replacement behind the item with the number. -/
theorem replaceTags_behind {index : Nat} {found : Bool} (h : i < index) :
    ∃ count, replaceTags i checked ⟨index, found⟩ ps = (join ps, ⟨count, found⟩) := by
  induction ps generalizing index with
  | nil => exact ⟨index, rfl⟩
  | cons p ps ih =>
    cases p with
    | char c =>
      obtain ⟨count, hrest⟩ := ih h
      exact ⟨count, by rw [replaceTags, hrest]; rfl⟩
    | tag tag =>
      by_cases hitem : isTaskItem tag = true
      · obtain ⟨count, hrest⟩ := ih (show i < index + 1 by omega)
        refine ⟨count, ?_⟩
        have hne : index ≠ i := by omega
        have htag :
          replaceTag i checked ⟨index, found⟩ tag = (tag, ⟨index + 1, found⟩) := by simp [replaceTag, hitem, hne]
        rw [replaceTags, htag]
        dsimp only
        rw [hrest]
        rfl
      · obtain ⟨count, hrest⟩ := ih h
        refine ⟨count, ?_⟩
        have htag : replaceTag i checked ⟨index, found⟩ tag = (tag, ⟨index, found⟩) := by simp [replaceTag, hitem]
        rw [replaceTags, htag]
        dsimp only
        rw [hrest]
        rfl

/-- The replacement counts the marks, and writes one of them. -/
theorem replaceTags_eq {index : Nat} (hstates : HasStates ps) (h : index ≤ i) :
    ∃ count, replaceTags i checked ⟨index, false⟩ ps =
    match nth (ps.map pieceMark) (i - index) with
    | none => (join ps, ⟨count, false⟩)
    | some k => (join (ps.modify k (putChecked checked)), ⟨count, true⟩) := by
  induction ps generalizing index with
  | nil => exact ⟨index, rfl⟩
  | cons p ps ih =>
    have hrest : HasStates ps := fun tag htag => hstates tag (List.mem_cons_of_mem p htag)
    -- a piece that has no state
    have hskip : ∀ index, pieceMark p = none → index ≤ i → (∀ count found text,
        replaceTags i checked ⟨index, false⟩ ps = (text, ⟨count, found⟩) →
          replaceTags i checked ⟨index, false⟩ (p :: ps) = (p.text ++ text, ⟨count, found⟩)) →
        ∃ count, replaceTags i checked ⟨index, false⟩ (p :: ps) =
          match nth ((p :: ps).map pieceMark) (i - index) with
          | none => (join (p :: ps), ⟨count, false⟩)
          | some k => (join ((p :: ps).modify k (putChecked checked)), ⟨count, true⟩) := by
      intro index hmark hle hone
      obtain ⟨count, hps⟩ := ih hrest hle
      refine ⟨count, ?_⟩
      rw [List.map_cons, hmark, nth]
      cases hnth : nth (ps.map pieceMark) (i - index) with
      | none =>
        rw [hnth] at hps
        exact hone _ _ _ hps
      | some k =>
        rw [hnth] at hps
        exact hone _ _ _ hps
    cases p with
    | char c =>
      refine hskip index rfl h fun count found text hps => ?_
      rw [replaceTags, hps]
      rfl
    | tag tag =>
      by_cases hitem : isTaskItem tag = true
      · obtain ⟨⟨u, m, v⟩, hfound⟩ := Option.isSome_iff_exists.mp (hstates tag List.mem_cons_self hitem)
        have hmark : pieceMark (.tag tag) = some (isChecked m) := by rw [pieceMark, if_pos hitem, hfound, Option.map_some]
        rw [List.map_cons, hmark]
        by_cases heq : index = i
        · subst heq
          have htag :
              replaceTag index checked ⟨index, false⟩ tag = (u ++ checkedText checked ++ v, ⟨index + 1, true⟩) := by
            simp [replaceTag, hitem, hfound]
          obtain ⟨count, hps⟩ : ∃ count, replaceTags index checked ⟨index + 1, true⟩ ps = (join ps, ⟨count, true⟩) :=
            replaceTags_behind (Nat.lt_add_one index)
          refine ⟨count, ?_⟩
          rw [Nat.sub_self, nth, replaceTags, htag]
          dsimp only
          rw [hps, List.modify_zero_cons, (putChecked_eq hitem hfound checked).1]
          rfl
        · obtain ⟨n, hn⟩ : ∃ n, i - index = n + 1 := ⟨i - index - 1, by omega⟩
          have hnext : i - (index + 1) = n := by omega
          have htag :
            replaceTag i checked ⟨index, false⟩ tag = (tag, ⟨index + 1, false⟩) := by simp [replaceTag, hitem, heq]
          obtain ⟨count, hps⟩ := ih hrest (show index + 1 ≤ i by omega)
          refine ⟨count, ?_⟩
          rw [hnext] at hps
          rw [hn, nth, replaceTags, htag]
          dsimp only
          rw [hps]
          cases nth (ps.map pieceMark) n <;> rfl
      · have hmark : pieceMark (.tag tag) = none := by simp [pieceMark, hitem]
        refine hskip index hmark h fun count found text hps => ?_
        have htag : replaceTag i checked ⟨index, false⟩ tag = (tag, ⟨index, false⟩) := by simp [replaceTag, hitem]
        rw [replaceTags, htag]
        dsimp only
        rw [hps]
        rfl

theorem toggleTiptapTaskItem_eq (hstates : HasStates (pieces 0 text)) (i : Nat) (checked : Bool) :
    toggleTiptapTaskItem text i checked = tiptapFormat.toggle text i checked := by
  obtain ⟨count, heq⟩ := @replaceTags_eq (pieces 0 text) i checked 0 hstates (Nat.zero_le i)
  rw [Nat.sub_zero] at heq
  unfold toggleTiptapTaskItem Format.toggle
  rw [heq]
  show _ = (nth ((pieces 0 text).map pieceMark) i).map _
  cases nth ((pieces 0 text).map pieceMark) i <;> rfl

end AdWiki.Content
