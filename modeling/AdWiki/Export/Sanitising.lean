import AdWiki.Common.JsString
import AdWiki.Lib.Deletion

/-!
# Sanitising exported pages

`sanitizeExportHtml` deletes the script elements of a page, and then the attributes whose name begins with `on`, each in
one pass.

* `local_scriptElement`, `local_onEventAttribute`: what the two patterns match does not depend on what follows.
* `sanitised_iff`: the pages of which nothing is left that the patterns match, by what becomes of their parts when matches
  are taken out.
-/

namespace AdWiki.Export

open Deletion

/-! ## The patterns -/

/-- `\w`. -/
def isWord (c : Char) : Bool := c.isAlphanum || c == '_'

/-- `.`, which matches everything but the end of a line. -/
def isDot (c : Char) : Bool := !(c == '\n' || c == '\r' || c.toNat == 0x2028 || c.toNat == 0x2029)

/-- A character of a pattern with the flag `i`. -/
def anyCase (c d : Char) : Bool := d.toLower == c

def text (s : String) : Pattern Char := word (s.toList.map anyCase)

def one (c : Char) : Pattern Char := word [(· == c)]

/-- `/<script\b[^>]*>[\s\S]*?<\/script>/i`. -/
def scriptElement : Pattern Char :=
  seq (text "<script") (notBefore isWord (skip (· != '>') (seq (one '>') (lazy (fun _ => true) (text "</script>")))))

/-- `(["']).*?\1`. -/
def quoted : Pattern Char
  | [] => none
  | q :: rest => if q = '"' ∨ q = '\'' then lazy isDot (one q) rest else none

/-- `/\son\w+\s*=\s*(["']).*?\1/i`. -/
def onEventAttribute : Pattern Char :=
  seq (word [Js.isSpace])
    (seq (text "on") (seq (word [isWord]) (skip isWord (skip Js.isSpace (seq (one '=') (skip Js.isSpace quoted))))))

def sanitizeExportHtml (html : String) : String :=
  String.ofList (delete onEventAttribute 0 (delete scriptElement 0 html.toList))

/-! ## A match does not depend on what follows -/

theorem first_one {p : Char → Bool} {c : Char} (h : p c = false) : First p (one c) :=
  first_word fun _ hd => (beq_iff_eq.mp hd) ▸ h

theorem local_scriptElement : Local scriptElement := by
  have hend : Local (seq (one '>') (lazy (fun _ => true) (text "</script>"))) :=
    (fixed_word _).local.seq (Local.lazy (fixed_word _))
  have hfirst : First (· != '>') (seq (one '>') (lazy (fun _ => true) (text "</script>"))) := (first_one rfl).seq
  have hbegin : First (fun _ => false) (skip (· != '>') (seq (one '>') (lazy (fun _ => true) (text "</script>")))) :=
    (First.seq (first_one rfl)).skip fun _ _ => rfl
  exact (fixed_word _).local.seq ((hend.skip hfirst).notBefore hbegin)

theorem first_quoted {p : Char → Bool} (hdouble : p '"' = false) (hsingle : p '\'' = false) : First p quoted := by
  constructor
  intro l rest h
  cases l with
  | nil => cases h
  | cons q l =>
    rw [quoted] at h
    split at h
    · next hq =>
      refine ⟨q, l, rfl, ?_⟩
      rcases hq with rfl | rfl
      · exact hdouble
      · exact hsingle
    · cases h

theorem local_quoted : Local quoted := by
  constructor
  intro l rest h
  cases l with
  | nil => cases h
  | cons q l =>
    rw [quoted] at h
    split at h
    · next hq =>
      obtain ⟨t, rfl, ht⟩ := (Local.lazy (fixed_word _)).split h
      refine ⟨q :: t, rfl, fun rest' => ?_⟩
      rw [List.cons_append, quoted, if_pos hq]
      exact ht rest'
    · cases h

theorem not_isWord_of_isSpace {c : Char} (h : Js.isSpace c = true) : isWord c = false := by
  by_contra hword
  unfold isWord Char.isAlphanum Char.isAlpha Char.isUpper Char.isLower Char.isDigit at hword
  unfold Js.isSpace at h
  simp only [Bool.not_eq_false, Bool.or_eq_true, Bool.and_eq_true, decide_eq_true_eq, beq_iff_eq,
    UInt32.le_iff_toNat_le] at hword h
  rcases hword with hword | rfl
  · have hlow : 48 ≤ c.toNat ∧ c.toNat ≤ 122 := by
      rcases hword with (hword | hword) | hword
      · exact ⟨Nat.le_trans (by decide) hword.1, Nat.le_trans hword.2 (by decide)⟩
      · exact ⟨Nat.le_trans (by decide) hword.1, Nat.le_trans hword.2 (by decide)⟩
      · exact ⟨Nat.le_trans (by decide) hword.1, Nat.le_trans hword.2 (by decide)⟩
    omega
  · exact absurd h (by decide)

theorem local_onEventAttribute : Local onEventAttribute := by
  have hvalue : Local (skip Js.isSpace quoted) := local_quoted.skip (first_quoted (by decide) (by decide))
  have hequals : Local (skip Js.isSpace (seq (one '=') (skip Js.isSpace quoted))) :=
    ((fixed_word _).local.seq hvalue).skip (First.seq (first_one (by decide)))
  have hfirst : First isWord (skip Js.isSpace (seq (one '=') (skip Js.isSpace quoted))) :=
    (First.seq (first_one (by decide))).skip fun _ => not_isWord_of_isSpace
  exact (fixed_word _).local.seq ((fixed_word _).local.seq ((fixed_word _).local.seq (hequals.skip hfirst)))

/-! ## What is left -/

/-- Nothing of the page is matched, and sanitising it changes nothing. -/
structure Sanitised (html : String) : Prop where
  noScript : Clean scriptElement html.toList
  noEvent : Clean onEventAttribute html.toList
  fixed : sanitizeExportHtml html = html

theorem sanitised_of_clean {html : String} (hscript : Clean scriptElement html.toList)
    (hevent : Clean onEventAttribute html.toList) :
    Sanitised html := by
  refine ⟨hscript, hevent, ?_⟩
  rw [sanitizeExportHtml, delete_of_clean hscript, delete_of_clean hevent, String.ofList_toList]

theorem toList_sanitizeExportHtml (html : String) :
    (sanitizeExportHtml html).toList = delete onEventAttribute 0 (delete scriptElement 0 html.toList) :=
      String.toList_ofList

/-- **The pages that are sanitised.** Where a part of the page is a script element once script elements and attributes are
taken out of it, a script element has to begin there as the page stands; and where it is an attribute then, it has to
begin with one once only script elements are taken out. For pages with one match this is what is needed. -/
theorem sanitised_iff (html : String) :
    (Unbroken scriptElement onEventAttribute html.toList → Sanitised (sanitizeExportHtml html)) ∧
      ∀ before piece after, html.toList = before ++ (piece ++ after) →
        OnlyMatch scriptElement onEventAttribute before piece after →
        Sanitised (sanitizeExportHtml html) → Unbroken scriptElement onEventAttribute html.toList := by
  constructor
  · intro h
    obtain ⟨hscript, hevent⟩ := clean_of_unbroken local_scriptElement rfl local_onEventAttribute rfl h
    rw [← toList_sanitizeExportHtml] at hscript hevent
    exact sanitised_of_clean hscript hevent
  · intro before piece after hsplit honly h
    have hscript := h.noScript
    have hevent := h.noEvent
    rw [toList_sanitizeExportHtml, hsplit] at hscript hevent
    rw [hsplit]
    exact unbroken_of_clean local_scriptElement rfl local_onEventAttribute rfl honly hscript hevent

/-- Neither pattern matches at the begin of the text. -/
def unmatched (text : List Char) : Bool := (scriptElement text).isNone && (onEventAttribute text).isNone

theorem unmatched_iff {text : List Char} :
    unmatched text = true ↔ scriptElement text = none ∧ onEventAttribute text = none := by
  rw [unmatched, Bool.and_eq_true, Option.isNone_iff_eq_none, Option.isNone_iff_eq_none]

/-- An element between two words. -/
theorem sanitised_iff_between : Sanitised (sanitizeExportHtml "a<script></script>b") := by
  have hsplit : "a<script></script>b".toList = ['a'] ++ ("<script></script>".toList ++ ['b']) := by decide +kernel
  have htails :
    (['a'] ++ ("<script></script>".toList ++ ['b'])).tails.all (fun s => s = "<script></script>".toList ++ ['b'] ||
      unmatched s) = true := by decide +kernel
  have hleft : ['a', 'b'].tails.all unmatched = true := by decide +kernel
  have hclean : ∀ s, s <:+ ['a', 'b'] → scriptElement s = none ∧ onEventAttribute s = none := fun s hs =>
    unmatched_iff.mp (List.all_eq_true.mp hleft s ((List.mem_tails s _).mpr hs))
  have honly : OnlyMatch scriptElement onEventAttribute ['a'] "<script></script>".toList ['b'] := by
    refine ⟨.inl (by decide +kernel), fun s hs hne => ?_, .inr (by decide +kernel), fun _ s hs => (hclean s hs).2⟩
    have hcases := List.all_eq_true.mp htails s ((List.mem_tails s _).mpr hs)
    rw [Bool.or_eq_true, decide_eq_true_eq] at hcases
    exact unmatched_iff.mp (hcases.resolve_left hne)
  have hdeleted : delete onEventAttribute 0 (delete scriptElement 0 (['a'] ++ ("<script></script>".toList ++ ['b']))) =
      ['a', 'b'] := by
    decide +kernel
  refine (sanitised_iff "a<script></script>b").1 ?_
  rw [hsplit]
  refine unbroken_of_clean local_scriptElement rfl local_onEventAttribute rfl honly (fun s hs => ?_) fun s hs => ?_
  · rw [hdeleted] at hs
    exact (hclean s hs).1
  · rw [hdeleted] at hs
    exact (hclean s hs).2

/-- A page that becomes a script when the script in it is deleted. -/
theorem script_joined : sanitizeExportHtml "<scr<script></script>ipt>alert(1)</script>" = "<script>alert(1)</script>" ∧
    ¬Sanitised (sanitizeExportHtml "<scr<script></script>ipt>alert(1)</script>") := by
  have hleft :
    sanitizeExportHtml "<scr<script></script>ipt>alert(1)</script>" = "<script>alert(1)</script>" := by decide +kernel
  have hagain : sanitizeExportHtml "<script>alert(1)</script>" ≠ "<script>alert(1)</script>" := by decide +kernel
  refine ⟨hleft, fun h => hagain ?_⟩
  rw [hleft] at h
  exact h.fixed

end AdWiki.Export
