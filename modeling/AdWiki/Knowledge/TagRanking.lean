import AdWiki.Common.JsString
import AdWiki.Lib.OrderedMap
import Mathlib

/-!
# The ranking of tags

`KnowledgeIntelligenceService.rankTags` gives each tag of the documents a score by the words that the documents share with
the text, and by its place in the text; suggestions of a provider raise the scores of tags that are there already. Scores
are rational numbers.

* `counted_scoresOf`: the score of a tag is a sum over its occurrences.
* `mem_suggest_signs`: a tag that is the whole text, and has no letters and no digits, is among the suggestions.
* `documents_of_mem_suggest`: a suggestion is a tag of a document.
-/

namespace AdWiki.Knowledge.TagSuggestions

/-- A text without letters and digits. -/
def IsSigns (s : String) : Prop := ∀ c ∈ s.toList, c = ' ' ∨ c = '-'

/-- What the language offers for `de-DE`; `words` is `normalize("NFKD").split(/[^\p{L}\p{N}]+/u)`. -/
structure Language where
  toLocaleLowerCase : String → String
  words : String → List String
  localeCompare : String → String → Int
  lower_signs : ∀ s, IsSigns s → ∀ s', toLocaleLowerCase s' = s ↔ s' = s
  words_signs : ∀ s, IsSigns s → ∀ word ∈ words s, word = ""

structure TaggedDocument where
  text : String
  tags : List String
  deriving DecidableEq, Repr

structure McpTagSuggestion where
  name : String
  score : ℚ
  reason : String
  deriving DecidableEq, Repr

/-- An entry of the map of scores. -/
structure TagScore where
  name : String
  score : ℚ
  direct : Bool
  matchCount : Nat
  deriving DecidableEq, Repr

structure McpSuggestTagsOutput where
  results : List McpTagSuggestion
  warnings : List String
  deriving DecidableEq, Repr

/-- `Number(score.toFixed(4))`. -/
def toFixed4 (score : ℚ) : ℚ := ⌊score * 10000 + 1 / 2⌋ / 10000

/-- `text.includes(key)`. -/
def includes (text key : String) : Bool := decide (key.toList <:+: text.toList)

/-! ## Scores -/

section Ranking

variable (lang : Language)

def queryText (title : Option String) (content : String) : String := title.getD "" ++ " " ++ content

def tokens (text : String) : List String :=
  Js.distinct (((lang.words (lang.toLocaleLowerCase text)).filter fun token => 3 ≤ Js.length token).take 2000)

def similarity (left right : List String) : ℚ :=
  if left.length = 0 ∨ right.length = 0 then 0
  else (left.filter right.contains).length / (Js.distinct (left ++ right)).length

/-- The turn of the inner loop for a tag of a document with the similarity. -/
def addTag (normalizedText : String) (scores : OrderedMap String TagScore) (occurrence : ℚ × String) :
    OrderedMap String TagScore :=
  let key := lang.toLocaleLowerCase occurrence.2
  let direct := includes normalizedText key
  let current := (scores.get? key).getD ⟨occurrence.2, 0, false, 0⟩
  scores.set key
    { current with
      score := current.score + (occurrence.1 + if direct then 1 else 0)
      direct := current.direct || direct
      matchCount := current.matchCount + 1 }

def scoresOf (title : Option String) (content : String) (documents : List TaggedDocument) : OrderedMap String TagScore :=
  let text := queryText title content
  let query := tokens lang text
  documents.foldl
    (fun scores document =>
      let similarity := similarity query (tokens lang document.text)
      document.tags.foldl (fun scores tag => addTag lang (lang.toLocaleLowerCase text) scores (similarity, tag)) scores)
    OrderedMap.empty

def suggestionOf (maximum : ℚ) (item : TagScore) : McpTagSuggestion where
  name := item.name
  score := toFixed4 (min 1 (item.score / maximum))
  reason :=
    if item.direct then "Der vorhandene Tag kommt direkt im Inhalt vor."
    else s!"Tag aus {item.matchCount} ähnlichen sichtbaren Inhalten."

/-- `b.score - a.score || a.name.localeCompare(b.name, "de")` -/
def ranksBefore (a b : McpTagSuggestion) : Prop :=
  b.score < a.score ∨ a.score = b.score ∧ lang.localeCompare a.name b.name ≤ 0

instance : DecidableRel (ranksBefore lang) := fun _ _ => inferInstanceAs (Decidable (_ ∨ _))

/-- The suggestions before the limit. -/
def rankedTags (title : Option String) (content : String) (documents : List TaggedDocument) : List McpTagSuggestion :=
  let scores := (scoresOf lang title content documents).values
  let maximum := (scores.map TagScore.score).foldl max 1
  ((scores.map (suggestionOf maximum)).filter fun item => 0 < item.score).insertionSort (ranksBefore lang)

def rankTags (title : Option String) (content : String) (documents : List TaggedDocument) (limit : Nat) :
    List McpTagSuggestion :=
  (rankedTags lang title content documents).take limit

/-- The turn of the loop over the suggestions of the provider. -/
def addSuggestion (byName : OrderedMap String McpTagSuggestion) (suggestion : McpTagSuggestion) :
    OrderedMap String McpTagSuggestion :=
  let key := lang.toLocaleLowerCase suggestion.name
  match byName.get? key with
  | none => byName
  | some existing =>
    byName.set key
      { existing with
        score := max existing.score (min 1 suggestion.score)
        reason := s!"{existing.reason} Provider: {suggestion.reason}" }

def mergedByName (loc external : List McpTagSuggestion) : OrderedMap String McpTagSuggestion :=
  external.foldl (addSuggestion lang)
    (OrderedMap.empty.setAll (loc.map fun item => (lang.toLocaleLowerCase item.name, item)))

def mergeTagSuggestions (loc external : List McpTagSuggestion) (limit : Nat) : List McpTagSuggestion :=
  ((mergedByName lang loc external).values.insertionSort fun a b => b.score ≤ a.score).take limit

end Ranking

/-- A provider; a call that fails answers `none`. -/
structure Provider where
  name : String
  suggestTags : Option String → String → Option (List McpTagSuggestion)

/-- `suggestTags` after the documents have been read. -/
def suggest (lang : Language) (provider : Option Provider) (title : Option String) (content : String) (limit : Nat)
    (documents : List TaggedDocument) : McpSuggestTagsOutput :=
  let loc := rankTags lang title content documents limit
  match provider with
  | none => ⟨loc, if documents.length = 0 then ["Keine sichtbaren Vergleichsinhalte mit Tags gefunden."] else []⟩
  | some provider =>
    match provider.suggestTags title content with
    | some external =>
      ⟨mergeTagSuggestions lang loc external limit,
        ["Provider-Vorschläge wurden nur mit existierenden sichtbaren Tags zusammengeführt."]⟩
    | none => ⟨loc, [s!"Provider {provider.name} war nicht verfügbar; lokale Vorschläge wurden verwendet."]⟩

variable {lang : Language} {provider : Option Provider} {title : Option String}
  {content text name key : String} {limit : Nat}
  {documents : List TaggedDocument} {loc external : List McpTagSuggestion} {item : TagScore}

/-! ## Suggestions are tags of documents -/

/-- The occurrences of the tags, each with the similarity of its document. -/
def occurrences (lang : Language) (title : Option String) (content : String) (documents : List TaggedDocument) :
    List (ℚ × String) :=
  documents.flatMap fun document => document.tags.map fun tag =>
    (similarity (tokens lang (queryText title content)) (tokens lang document.text), tag)

theorem scoresOf_eq : scoresOf lang title content documents = (occurrences lang title content documents).foldl
    (addTag lang (lang.toLocaleLowerCase (queryText title content))) OrderedMap.empty := by
  simp only [scoresOf, occurrences, List.foldl_flatMap, List.foldl_map]

/-- What an occurrence adds to the score of a key. -/
def weight (lang : Language) (text key : String) (occurrence : ℚ × String) : ℚ :=
  if lang.toLocaleLowerCase occurrence.2 = key then occurrence.1 + if includes text key then 1 else 0 else 0

/-- The entry of a key after some occurrences: it has the name of one of them, and the sum of what they add. -/
def Counted (lang : Language) (text key : String) (l : List (ℚ × String)) : Option TagScore → Prop
  | none => ∀ occurrence ∈ l, lang.toLocaleLowerCase occurrence.2 ≠ key
  | some item => (∃ occurrence ∈ l, occurrence.2 = item.name ∧ lang.toLocaleLowerCase occurrence.2 = key) ∧
      item.score = (l.map (weight lang text key)).sum

/-- Occurrences of other keys add nothing. -/
theorem sum_weight_eq_zero {l : List (ℚ × String)} (h : ∀ occurrence ∈ l, lang.toLocaleLowerCase occurrence.2 ≠ key) :
    (l.map (weight lang text key)).sum = 0 := by
  refine List.sum_eq_zero fun w hw => ?_
  obtain ⟨occurrence, hmem, rfl⟩ := List.mem_map.mp hw
  exact if_neg (h occurrence hmem)

theorem Counted.step {scores : OrderedMap String TagScore} {l : List (ℚ × String)}
    (h : Counted lang text key l (scores.get? key))
    (occurrence : ℚ × String) :
    Counted lang text key (l ++ [occurrence]) ((addTag lang text scores occurrence).get? key) := by
  have hsum : ((l ++ [occurrence]).map (weight lang text key)).sum =
      (l.map (weight lang text key)).sum + weight lang text key occurrence := by simp
  unfold addTag
  simp only [OrderedMap.get?_set]
  by_cases hkey : lang.toLocaleLowerCase occurrence.2 = key
  · subst hkey
    rw [if_pos rfl]
    unfold Counted
    rw [hsum, weight, if_pos rfl]
    cases hfound : scores.get? (lang.toLocaleLowerCase occurrence.2) with
    | none =>
      rw [hfound] at h
      exact ⟨⟨occurrence, by simp, rfl, rfl⟩, by rw [sum_weight_eq_zero h]; rfl⟩
    | some item =>
      rw [hfound] at h
      obtain ⟨⟨first, hfirst, hname⟩, hscore⟩ := h
      exact ⟨⟨first, List.mem_append_left _ hfirst, hname⟩, by rw [← hscore]; rfl⟩
  · rw [if_neg (Ne.symm hkey)]
    cases hfound : scores.get? key with
    | none =>
      rw [hfound] at h
      intro other hother
      rcases List.mem_append.mp hother with hother | hother
      · exact h other hother
      · rw [List.mem_singleton.mp hother]
        exact hkey
    | some item =>
      rw [hfound] at h
      obtain ⟨⟨first, hfirst, hname⟩, hscore⟩ := h
      exact ⟨⟨first, List.mem_append_left _ hfirst, hname⟩, by rw [hsum, weight, if_neg hkey, add_zero, hscore]⟩

/-- Every entry of the map of scores. -/
theorem counted_scoresOf : Counted lang (lang.toLocaleLowerCase (queryText title content)) key
    (occurrences lang title content documents) ((scoresOf lang title content documents).get? key) := by
  rw [scoresOf_eq]
  induction occurrences lang title content documents using List.reverseRecOn with
  | nil => simp [Counted]
  | append_singleton l occurrence ih =>
    rw [List.foldl_append, List.foldl_cons, List.foldl_nil]
    exact ih.step occurrence

/-- The local suggestions are tags of the documents. -/
theorem documents_of_mem_rankedTags {suggestion : McpTagSuggestion}
    (h : suggestion ∈ rankedTags lang title content documents) :
    ∃ document ∈ documents, suggestion.name ∈ document.tags := by
  obtain ⟨hmem, -⟩ := List.mem_filter.mp ((List.mem_insertionSort _).mp h)
  obtain ⟨item, hitem, rfl⟩ := List.mem_map.mp hmem
  obtain ⟨key, hkey⟩ := OrderedMap.mem_values.mp hitem
  have hcounted : Counted lang _ key (occurrences lang title content documents) _ := counted_scoresOf
  rw [hkey] at hcounted
  obtain ⟨⟨occurrence, hoccurrence, hname, -⟩, -⟩ := hcounted
  obtain ⟨document, hdocument, hmem⟩ := List.mem_flatMap.mp hoccurrence
  obtain ⟨tag, htag, rfl⟩ := List.mem_map.mp hmem
  refine ⟨document, hdocument, ?_⟩
  show item.name ∈ document.tags
  rw [← hname]
  exact htag

/-- A suggestion of the provider changes the scores and the reasons only. -/
theorem name_of_mem_merged {suggestion : McpTagSuggestion}
    (h : (mergedByName lang loc external).get? key = some suggestion) :
    ∃ item ∈ loc, item.name = suggestion.name ∧ lang.toLocaleLowerCase item.name = key := by
  unfold mergedByName at h
  induction external using List.reverseRecOn generalizing suggestion with
  | nil =>
    rcases OrderedMap.mem_of_get?_setAll h with hmem | hmem
    · obtain ⟨item, hitem, hpair⟩ := List.mem_map.mp hmem
      cases hpair
      exact ⟨suggestion, hitem, rfl, rfl⟩
    · cases hmem
  | append_singleton external added ih =>
    rw [List.foldl_append, List.foldl_cons, List.foldl_nil, addSuggestion] at h
    split at h
    · exact ih h
    · next existing hexisting =>
      rw [OrderedMap.get?_set] at h
      split at h
      · next hkey =>
        obtain ⟨item, hitem, hname, hlower⟩ := @ih existing (hkey ▸ hexisting)
        cases h
        exact ⟨item, hitem, hname, hlower⟩
      · exact ih h

/-- A local suggestion keeps an entry in the map. -/
theorem merged_isSome {item : McpTagSuggestion} (h : item ∈ loc) :
    ((mergedByName lang loc external).get? (lang.toLocaleLowerCase item.name)).isSome := by
  unfold mergedByName
  induction external using List.reverseRecOn with
  | nil => exact OrderedMap.get?_setAll_isSome.mpr (Or.inl ⟨item, List.mem_map.mpr ⟨item, h, rfl⟩⟩)
  | append_singleton external added ih =>
    rw [List.foldl_append, List.foldl_cons, List.foldl_nil, addSuggestion]
    split
    · exact ih
    · rw [OrderedMap.get?_set]
      split
      · rfl
      · exact ih

/-- **A suggestion is a tag of a document.** -/
theorem documents_of_mem_suggest {suggestion : McpTagSuggestion}
    (h : suggestion ∈ (suggest lang provider title content limit documents).results) :
    ∃ document ∈ documents, suggestion.name ∈ document.tags := by
  have hlocal : ∀ item ∈ rankTags lang title content documents limit, ∃ document ∈ documents, item.name ∈ document.tags :=
    fun item hitem => documents_of_mem_rankedTags (List.mem_of_mem_take hitem)
  unfold suggest at h
  simp only at h
  split at h
  · exact hlocal _ h
  · split at h
    · obtain ⟨key, hkey⟩ := OrderedMap.mem_values.mp ((List.mem_insertionSort _).mp (List.mem_of_mem_take h))
      obtain ⟨item, hitem, hname, -⟩ := name_of_mem_merged hkey
      rw [← hname]
      exact hlocal item hitem
    · exact hlocal _ h

/-! ## A text of signs -/

section Signs

variable {maximum : ℚ} (hsigns : IsSigns content)
include hsigns

theorem isSigns_queryText : IsSigns (queryText none content) := by
  intro c hc
  simp only [queryText, Option.getD_none, String.toList_append, List.mem_append] at hc
  rcases hc with (hc | hc) | hc
  · cases hc
  · exact Or.inl (List.mem_singleton.mp hc)
  · exact hsigns c hc

theorem lower_queryText : lang.toLocaleLowerCase (queryText none content) = queryText none content :=
  (lang.lower_signs _ (isSigns_queryText hsigns) _).mpr rfl

/-- The text has no words, so no document is similar to it. -/
theorem similarity_signs {l : List String} : similarity (tokens lang (queryText none content)) l = 0 := by
  have hfilter :
      (lang.words (lang.toLocaleLowerCase (queryText none content))).filter (fun token => 3 ≤ Js.length token) = [] := by
    rw [lower_queryText hsigns, List.filter_eq_nil_iff]
    intro word hword
    rw [lang.words_signs _ (isSigns_queryText hsigns) word hword]
    decide
  have htokens : tokens lang (queryText none content) = [] := by
    rw [tokens, hfilter]
    rfl
  rw [htokens]
  exact if_pos (Or.inl rfl)

/-- A key within the text is the lower case of itself only. -/
theorem lower_of_includes (h : includes (queryText none content) key = true) (tag : String) :
    lang.toLocaleLowerCase tag = key ↔ tag = key :=
  lang.lower_signs key (fun c hc => isSigns_queryText hsigns c ((of_decide_eq_true h).subset hc)) tag

/-- What a document adds to the score of a key: one, where the key is in the text and a tag of the document. -/
theorem sum_weight_document {tags : List String} :
    ((tags.map fun tag => ((0 : ℚ), tag)).map (weight lang (queryText none content) key)).sum =
      if includes (queryText none content) key then (tags.count key : ℚ) else 0 := by
  induction tags with
  | nil => simp
  | cons tag tags ih =>
    rw [List.map_cons, List.map_cons, List.sum_cons, ih]
    by_cases hincludes : includes (queryText none content) key = true
    · simp only [weight, lower_of_includes hsigns hincludes tag, if_pos hincludes, zero_add, List.count_cons, beq_iff_eq]
      split <;> push_cast <;> ring
    · simp [weight, hincludes]

/-- The score of a key is the number of documents with the tag, where it is in the text. -/
theorem sum_weight_le (hnodup : ∀ document ∈ documents, document.tags.Nodup) :
    ((occurrences lang none content documents).map (weight lang (queryText none content) key)).sum ≤
      documents.length := by
  induction documents with
  | nil => simp [occurrences]
  | cons document documents ih =>
    obtain ⟨hfirst, hrest⟩ := List.forall_mem_cons.mp hnodup
    have hsplit : occurrences lang none content (document :: documents) =
        (document.tags.map fun tag => ((0 : ℚ), tag)) ++ occurrences lang none content documents := by
      simp only [occurrences, List.flatMap_cons, similarity_signs hsigns]
    have hone : (if includes (queryText none content) key then (document.tags.count key : ℚ) else 0) ≤ 1 := by
      split
      · exact_mod_cast List.nodup_iff_count_le_one.mp hfirst key
      · exact zero_le_one
    rw [hsplit, List.map_append, List.sum_append, sum_weight_document hsigns, List.length_cons]
    push_cast
    linarith [ih hrest]

/-- The whole text scores one for a document that has it as a tag. -/
theorem one_le_sum_weight {document : TaggedDocument} (hdocument : document ∈ documents)
    (htag : content ∈ document.tags) :
    1 ≤ ((occurrences lang none content documents).map (weight lang (queryText none content) content)).sum := by
  have hincludes : includes (queryText none content) content = true := by
    refine decide_eq_true ⟨" ".toList, [], ?_⟩
    simp [queryText]
  have hlower : lang.toLocaleLowerCase content = content := (lang.lower_signs content hsigns content).mpr rfl
  have hmem : ((0 : ℚ), content) ∈ occurrences lang none content documents := by
    refine List.mem_flatMap.mpr ⟨document, hdocument, List.mem_map.mpr ⟨content, htag, ?_⟩⟩
    rw [similarity_signs hsigns]
  have hnonneg :
      ∀ w ∈ (occurrences lang none content documents).map (weight lang (queryText none content) content), 0 ≤ w := by
    intro w hw
    obtain ⟨occurrence, hoccurrence, rfl⟩ := List.mem_map.mp hw
    obtain ⟨other, -, hother⟩ := List.mem_flatMap.mp hoccurrence
    obtain ⟨tag, -, rfl⟩ := List.mem_map.mp hother
    rw [weight, similarity_signs hsigns]
    split
    · norm_num
    · exact le_rfl
  have hweight : weight lang (queryText none content) content ((0 : ℚ), content) = 1 := by
    simp [weight, hlower, hincludes]
  rw [← hweight]
  exact List.single_le_sum hnonneg _ (List.mem_map_of_mem hmem)

end Signs

/-- The maximum is one of the scores, or one. -/
theorem foldl_max_le {scores : List ℚ} {bound start : ℚ} (hstart : start ≤ bound) (h : ∀ score ∈ scores, score ≤ bound) :
    scores.foldl max start ≤ bound := by
  induction scores generalizing start with
  | nil => exact hstart
  | cons score scores ih =>
    obtain ⟨hfirst, hrest⟩ := List.forall_mem_cons.mp h
    exact ih (max_le hstart hfirst) hrest

theorem le_foldl_max {scores : List ℚ} {start : ℚ} : start ≤ scores.foldl max start := by
  induction scores generalizing start with
  | nil => exact le_rfl
  | cons score scores ih => exact (le_max_left _ _).trans ih

/-- A score of one part in two hundred is not rounded to zero. -/
theorem toFixed4_pos {score : ℚ} (h : 1 / 200 ≤ score) : 0 < toFixed4 score := by
  have hfloor : (1 : ℤ) ≤ ⌊score * 10000 + 1 / 2⌋ := Int.le_floor.mpr (by push_cast; linarith)
  have hcast : (0 : ℚ) < ⌊score * 10000 + 1 / 2⌋ := by exact_mod_cast hfloor
  exact div_pos hcast (by norm_num)

/-- A tag that is the whole text is a local suggestion. -/
theorem mem_rankedTags_signs (lang : Language) (hsigns : IsSigns content) (hlength : documents.length ≤ 200)
    (hnodup : ∀ document ∈ documents, document.tags.Nodup) {document : TaggedDocument} (hdocument : document ∈ documents)
    (htag : content ∈ document.tags) :
    ∃ suggestion ∈ rankedTags lang none content documents, suggestion.name = content := by
  have hcounted : ∀ key, Counted lang (queryText none content) key (occurrences lang none content documents)
      ((scoresOf lang none content documents).get? key) := by
    intro key
    have h : Counted lang _ key (occurrences lang none content documents) _ := counted_scoresOf
    rw [lower_queryText hsigns] at h
    exact h
  have hlower : lang.toLocaleLowerCase content = content := (lang.lower_signs content hsigns content).mpr rfl
  have hbound : ∀ score ∈ (scoresOf lang none content documents).values.map TagScore.score, score ≤ 200 := by
    intro score hscore
    obtain ⟨item, hitem, rfl⟩ := List.mem_map.mp hscore
    obtain ⟨key, hkey⟩ := OrderedMap.mem_values.mp hitem
    have h := hcounted key
    rw [hkey] at h
    rw [h.2]
    exact (sum_weight_le hsigns hnodup).trans (by exact_mod_cast hlength)
  cases hfound : (scoresOf lang none content documents).get? content with
  | none =>
    have h := hcounted content
    rw [hfound] at h
    refine absurd hlower (h (0, content) ?_)
    refine List.mem_flatMap.mpr ⟨document, hdocument, List.mem_map.mpr ⟨content, htag, ?_⟩⟩
    rw [similarity_signs hsigns]
  | some item =>
    have h := hcounted content
    rw [hfound] at h
    obtain ⟨⟨occurrence, -, hname, hkey⟩, hscore⟩ := h
    have hitem : item.name = content := hname ▸ (lang.lower_signs content hsigns _).mp hkey
    have hone : 1 ≤ item.score := hscore ▸ one_le_sum_weight hsigns hdocument htag
    have hmaximum := foldl_max_le (show (1 : ℚ) ≤ 200 by norm_num) hbound
    have hpositive : (0 : ℚ) < ((scoresOf lang none content documents).values.map TagScore.score).foldl max 1 :=
      zero_lt_one.trans_le le_foldl_max
    refine ⟨suggestionOf _ item, (List.mem_insertionSort _).mpr (List.mem_filter.mpr
      ⟨List.mem_map_of_mem (OrderedMap.mem_values.mpr ⟨content, hfound⟩), decide_eq_true (toFixed4_pos ?_)⟩), hitem⟩
    refine le_min (by norm_num) ((le_div_iff₀ hpositive).mpr ?_)
    linarith

/-- **A tag that is the whole text is suggested**, where the limit is large enough. -/
theorem mem_suggest_signs (lang : Language) (provider : Option Provider) (hsigns : IsSigns content)
    (hlength : documents.length ≤ 200)
    (hnodup : ∀ document ∈ documents, document.tags.Nodup) {document : TaggedDocument} (hdocument : document ∈ documents)
    (htag : content ∈ document.tags) :
    ∃ limit, ∃ suggestion ∈ (suggest lang provider none content limit documents).results, suggestion.name = content := by
  obtain ⟨suggestion, hsuggestion, hname⟩ := mem_rankedTags_signs lang hsigns hlength hnodup hdocument htag
  let ranked := rankedTags lang none content documents
  have hall : ∀ n, ranked.length ≤ n → rankTags lang none content documents n = ranked :=
    fun n hn => List.take_of_length_le hn
  cases provider with
  | none => exact ⟨ranked.length, suggestion, by rw [suggest, hall _ le_rfl]; exact hsuggestion, hname⟩
  | some provider =>
    cases hexternal : provider.suggestTags none content with
    | none =>
      exact ⟨ranked.length, suggestion, by simp only [suggest, hexternal, hall _ le_rfl]; exact hsuggestion, hname⟩
    | some external =>
      obtain ⟨merged, hmerged⟩ :
          ∃ merged, (mergedByName lang ranked external).get? (lang.toLocaleLowerCase suggestion.name) = some merged :=
        Option.isSome_iff_exists.mp (merged_isSome hsuggestion)
      obtain ⟨item, -, hitem, hlower⟩ := name_of_mem_merged hmerged
      rw [hname, (lang.lower_signs content hsigns content).mpr rfl, lang.lower_signs content hsigns] at hlower
      let sorted := (mergedByName lang ranked external).values.insertionSort fun a b => b.score ≤ a.score
      refine ⟨max ranked.length sorted.length, merged, ?_, hitem ▸ hlower⟩
      simp only [suggest, hexternal, hall _ (le_max_left _ _)]
      have htake : mergeTagSuggestions lang ranked external (max ranked.length sorted.length) = sorted :=
        List.take_of_length_le (le_max_right _ _)
      rw [htake]
      exact (List.mem_insertionSort _).mpr (OrderedMap.mem_values.mpr ⟨_, hmerged⟩)

end AdWiki.Knowledge.TagSuggestions
