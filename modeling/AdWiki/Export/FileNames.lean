import AdWiki.Common.Path
import AdWiki.Lib.Fresh
import AdWiki.Wiki.Slugs

/-!
# Names of exported files

A file in the archive is named after a title, an uploaded file or a slug. Within one directory a name that is already
used, in whatever case, gets a number.

* `uniqueName_free`, `nodup_nameAll`: no two files of a directory get the same name.
* `slugText_slugFilename`, `flat_safeFilename`: the characters of a name.
-/

namespace AdWiki.Export

open Wiki (SlugText isSlugChar)

/-- A letter after which, or before which, the rest of a text does not change its case. -/
def isNeutral (c : Char) : Bool := c.isDigit || c == '-' || c == '/'

def isPlain (c : Char) : Bool := isSlugChar c || c == '.' || c == '/'

/-- `toLowerCase`. Only the letters around a letter decide on its lower case (`Σ` at the end of a word). -/
structure Casing where
  toLowerCase : String → String
  plain : ∀ s, (∀ c ∈ s.toList, isPlain c = true) → toLowerCase s = s
  neutral : ∀ s c t, isNeutral c = true →
    toLowerCase (s ++ String.singleton c ++ t) = toLowerCase s ++ String.singleton c ++ toLowerCase t
  flat : ∀ s, '/' ∉ s.toList → '/' ∉ (toLowerCase s).toList

/-! ## Numbers -/

/-- `value.lastIndexOf(".")`. -/
def lastDot (value : String) : Option Nat := (value.toList.reverse.idxOf? '.').map fun i => value.toList.length - 1 - i

/-- The name before its extension, and the extension with its dot. -/
def splitExtension (value : String) : String × String :=
  match lastDot value with
  | some dot => if 0 < dot then (String.ofList (value.toList.take dot), String.ofList (value.toList.drop dot))
      else (value, "")
  | none => (value, "")

def numbered (value : String) (index : Nat) : String :=
  (splitExtension value).1 ++ "-" ++ Nat.repr index ++ (splitExtension value).2

/-- The name, and with a number where it is used; `used` are lower-case names. -/
def uniqueName (casing : Casing) (value : String) (used : List String) : String :=
  if casing.toLowerCase value ∉ used then value
  else (Fresh.firstFreeBy casing.toLowerCase (numbered value) used (used.length + 1) 2).getD value

/-- The loop that names the entries of a directory. -/
def nameAll {α : Type} (casing : Casing) (value : α → String) : List String → List α → List (α × String)
  | _, [] => []
  | used, a :: rest =>
    let name := uniqueName casing (value a) used
    (a, name) :: nameAll casing value (casing.toLowerCase name :: used) rest

/-! ## Titles and uploads -/

/-- `value.replace(/[^a-z0-9]+/g, "-")`; the flag says whether a run is going on. -/
def dashRuns : Bool → List Char → List Char
  | _, [] => []
  | run, c :: cs =>
    if c.isLower || c.isDigit then c :: dashRuns false cs
    else if run then dashRuns true cs
    else '-' :: dashRuns true cs

/-- `value.replace(/^-|-$/g, "")`. -/
def trimDashes (value : List Char) : List Char :=
  let rest := if value.head? = some '-' then value.tail else value
  if rest.getLast? = some '-' then rest.dropLast else rest

def slugFilename (casing : Casing) (nfkd : String → String) (title id : String) : String :=
  let lower := casing.toLowerCase (String.ofList ((nfkd title).toList.filter fun c => !Js.isCombining c))
  let normalized := Js.slice 80 (String.ofList (trimDashes (dashRuns false lower.toList)))
  Js.orElse normalized ("eintrag-" ++ Js.slice 8 id)

/-- The characters that `safeFilename` takes out. -/
def isUnsafe (c : Char) : Bool := "<>:\"/\\|?*".toList.contains c || c.toNat ≤ 0x1F

def safeFilename (value : String) : String :=
  let replaced := value.toList.map fun c => if isUnsafe c then '_' else c
  Js.slice 150 (String.ofList (replaced.reverse.dropWhile (· == '.')).reverse)

variable {casing : Casing} {value : String} {used : List String} {α : Type} {valueOf : α → String} {rows : List α}

/-! ## Numbers are tried until one is free -/

theorem lower_digits {l : List Char} {rest : String} (h : ∀ c ∈ l, c.isDigit = true) :
    casing.toLowerCase (String.ofList l ++ rest) = String.ofList l ++ casing.toLowerCase rest := by
  induction l with
  | nil => simp
  | cons c l ih =>
    have hdigit : isNeutral c = true := by simp [isNeutral, h c List.mem_cons_self]
    have hsplit : ∀ t : String, String.ofList (c :: l) ++ t = "" ++ String.singleton c ++ (String.ofList l ++ t) := by
      intro t
      apply String.toList_inj.mp
      simp
    rw [hsplit rest, casing.neutral _ _ _ hdigit, casing.plain "" (by simp),
      ih fun d hd => h d (List.mem_cons_of_mem _ hd), hsplit]

theorem lower_numbered (value : String) (index : Nat) : casing.toLowerCase (numbered value index) =
    casing.toLowerCase (splitExtension value).1 ++ "-" ++ Nat.repr index ++
      casing.toLowerCase (splitExtension value).2 := by
  have hdash : ("-" : String) = String.singleton '-' := rfl
  have hdigits : ∀ c ∈ (Nat.repr index).toList, c.isDigit = true := by
    intro c hc
    rw [Nat.toList_repr] at hc
    exact Nat.isDigit_of_mem_toDigits (by decide) (by decide) hc
  have hrepr := @lower_digits casing (Nat.repr index).toList (splitExtension value).2 hdigits
  rw [String.ofList_toList] at hrepr
  rw [numbered, hdash, String.append_assoc, casing.neutral _ _ _ (by decide), hrepr]
  simp only [String.append_assoc]

theorem lower_numbered_inj {i j : Nat}
    (h : casing.toLowerCase (numbered value i) = casing.toLowerCase (numbered value j)) : i = j := by
  rw [lower_numbered, lower_numbered] at h
  exact Nat.repr_injective (String.append_right_inj _ |>.mp (String.append_left_inj _ |>.mp h))

/-- The loop over the numbers ends. -/
theorem numbered_found (casing : Casing) (value : String) (used : List String) :
    ∃ name, Fresh.firstFreeBy casing.toLowerCase (numbered value) used (used.length + 1) 2 = some name := by
  have hmap := @Fresh.firstFreeBy_map _ _ used _ casing.toLowerCase (numbered value) (used.length + 1) 2
  obtain ⟨lower, hlower⟩ := @Fresh.firstFree_isSome _ _ (fun i => casing.toLowerCase (numbered value i)) used 2
    fun i j _ _ h => lower_numbered_inj h
  rw [hlower] at hmap
  obtain ⟨name, hname, -⟩ := Option.map_eq_some_iff.mp hmap
  exact ⟨name, hname⟩

theorem uniqueName_cases (casing : Casing) (value : String) (used : List String) :
    casing.toLowerCase (uniqueName casing value used) ∉ used ∧
      (uniqueName casing value used = value ∨ ∃ i, uniqueName casing value used = numbered value i) := by
  unfold uniqueName
  by_cases hused : casing.toLowerCase value ∈ used
  · rw [if_neg (not_not.mpr hused)]
    obtain ⟨name, hname⟩ := numbered_found casing value used
    have hmap := @Fresh.firstFreeBy_map _ _ used _ casing.toLowerCase (numbered value) (used.length + 1) 2
    rw [hname] at hmap ⊢
    exact ⟨Fresh.firstFree_not_mem hmap.symm, Or.inr (Fresh.firstFreeBy_eq_some hname)⟩
  · rw [if_pos hused]
    exact ⟨hused, Or.inl rfl⟩

/-! ## The names of a directory -/

theorem map_fst_nameAll : (nameAll casing valueOf used rows).map Prod.fst = rows := by
  induction rows generalizing used with
  | nil => rfl
  | cons a rows ih =>
    rw [nameAll, List.map_cons, ih]

theorem nameAll_mem {entry : α × String} (h : entry ∈ nameAll casing valueOf used rows) :
    entry.1 ∈ rows ∧ ∃ used, entry.2 = uniqueName casing (valueOf entry.1) used := by
  induction rows generalizing used with
  | nil => cases h
  | cons a rows ih =>
    rw [nameAll] at h
    rcases List.mem_cons.mp h with rfl | hrest
    · exact ⟨List.mem_cons_self, used, rfl⟩
    · obtain ⟨hmem, hname⟩ := ih hrest
      exact ⟨List.mem_cons_of_mem _ hmem, hname⟩

/-- **No two files of a directory get the same name**, whatever the case. -/
theorem nodup_nameAll : ((nameAll casing valueOf used rows).map fun entry => casing.toLowerCase entry.2).Nodup ∧
    ∀ entry ∈ nameAll casing valueOf used rows, casing.toLowerCase entry.2 ∉ used := by
  induction rows generalizing used with
  | nil => exact ⟨List.nodup_nil, nofun⟩
  | cons a rows ih =>
    rw [nameAll]
    obtain ⟨hnodup, hnot⟩ := @ih (casing.toLowerCase (uniqueName casing (valueOf a) used) :: used)
    have hfree := (uniqueName_cases casing (valueOf a) used).1
    constructor
    · rw [List.map_cons]
      refine List.nodup_cons.mpr ⟨fun hmem => ?_, hnodup⟩
      obtain ⟨entry, hentry, hsame⟩ := List.mem_map.mp hmem
      exact hnot entry hentry (hsame ▸ List.mem_cons_self)
    · intro entry hentry
      rcases List.mem_cons.mp hentry with rfl | hrest
      · exact hfree
      · exact fun hmem => hnot entry hrest (List.mem_cons_of_mem _ hmem)

/-! ## Characters -/

theorem mem_splitExtension {c : Char} : c ∈ (splitExtension value).1.toList ∨ c ∈ (splitExtension value).2.toList →
    c ∈ value.toList := by
  unfold splitExtension
  have hwhole : c ∈ (value, "").1.toList ∨ c ∈ (value, "").2.toList → c ∈ value.toList := by simp
  cases lastDot value with
  | none => exact hwhole
  | some dot =>
    dsimp only
    split
    · rw [String.toList_ofList, String.toList_ofList]
      exact fun h => h.elim List.mem_of_mem_take List.mem_of_mem_drop
    · exact hwhole

theorem mem_numbered {c : Char} {index : Nat} (h : c ∈ (numbered value index).toList) :
    c ∈ value.toList ∨ c = '-' ∨ c.isDigit = true := by
  rw [numbered, String.toList_append, String.toList_append, String.toList_append, List.mem_append, List.mem_append,
    List.mem_append] at h
  rcases h with ((h | h) | h) | h
  · exact Or.inl (mem_splitExtension (Or.inl h))
  · exact Or.inr (Or.inl (by simpa using h))
  · rw [Nat.toList_repr] at h
    exact Or.inr (Or.inr (Nat.isDigit_of_mem_toDigits (by decide) (by decide) h))
  · exact Or.inl (mem_splitExtension (Or.inr h))

theorem mem_uniqueName {c : Char} (h : c ∈ (uniqueName casing value used).toList) :
    c ∈ value.toList ∨ c = '-' ∨ c.isDigit = true := by
  rcases (uniqueName_cases casing value used).2 with heq | ⟨i, heq⟩
  · exact Or.inl (heq ▸ h)
  · rw [heq] at h
    exact mem_numbered h

theorem slugText_uniqueName (h : SlugText value) : SlugText (uniqueName casing value used) := by
  intro c hc
  rcases mem_uniqueName hc with hmem | rfl | hdigit
  · exact h c hmem
  · rfl
  · simp [isSlugChar, hdigit]

/-- A name in a directory: no separator of paths. -/
structure Flat (name : String) : Prop where
  slash : '/' ∉ name.toList
  backslash : '\\' ∉ name.toList

theorem flat_of_slugText (h : SlugText value) : Flat value where
  slash hmem := by
    have hchar := h _ hmem
    simp [isSlugChar] at hchar
  backslash hmem := by
    have hchar := h _ hmem
    simp [isSlugChar] at hchar

theorem flat_uniqueName (h : Flat value) : Flat (uniqueName casing value used) where
  slash hmem := by
    rcases mem_uniqueName hmem with hold | hdash | hdigit
    · exact h.slash hold
    · cases hdash
    · cases hdigit
  backslash hmem := by
    rcases mem_uniqueName hmem with hold | hdash | hdigit
    · exact h.backslash hold
    · cases hdash
    · cases hdigit

theorem mem_slice {c : Char} {n : Nat} (h : c ∈ (Js.slice n value).toList) :
    c ∈ value.toList ∨ c = Char.ofNat 0xFFFD := by
  have haux : ∀ (l : List Char) (n : Nat), c ∈ Js.sliceAux n l → c ∈ l ∨ c = Char.ofNat 0xFFFD := by
    intro l
    induction l with
    | nil =>
      intro n hmem
      cases n <;> cases hmem
    | cons d l ih =>
      intro n hmem
      cases n with
      | zero => cases hmem
      | succ n =>
        rw [Js.sliceAux] at hmem
        split at hmem
        · rcases List.mem_cons.mp hmem with rfl | hrest
          · exact Or.inl List.mem_cons_self
          · exact (ih _ hrest).imp_left (List.mem_cons_of_mem _)
        · split at hmem
          · exact Or.inr (List.mem_singleton.mp hmem)
          · rcases List.mem_cons.mp hmem with rfl | hrest
            · exact Or.inl List.mem_cons_self
            · exact (ih _ hrest).imp_left (List.mem_cons_of_mem _)
  rw [Js.slice, String.toList_ofList] at h
  exact haux _ _ h

/-- Below the surrogates a slice is made of characters. -/
theorem sliceAux_eq_take {l : List Char} (h : ∀ c ∈ l, c.toNat < 0x10000) (n : Nat) : Js.sliceAux n l = l.take n := by
  induction l generalizing n with
  | nil => cases n <;> rfl
  | cons c l ih =>
    cases n with
    | zero => rfl
    | succ n =>
      rw [Js.sliceAux, if_pos (h c List.mem_cons_self), ih (fun d hd => h d (List.mem_cons_of_mem _ hd)),
        List.take_succ_cons]

theorem toNat_lt_of_isSlugChar {c : Char} (h : isSlugChar c = true) : c.toNat < 0x10000 := by
  unfold isSlugChar at h
  rw [Bool.or_eq_true, Bool.or_eq_true, beq_iff_eq] at h
  rcases h with (hlower | hdigit) | rfl
  · rw [Char.isLower, Bool.and_eq_true, decide_eq_true_eq, decide_eq_true_eq] at hlower
    exact Nat.lt_of_le_of_lt (UInt32.le_iff_toNat_le.mp hlower.2) (by decide)
  · rw [Char.isDigit, Bool.and_eq_true, decide_eq_true_eq, decide_eq_true_eq] at hdigit
    exact Nat.lt_of_le_of_lt (UInt32.le_iff_toNat_le.mp hdigit.2) (by decide)
  · decide

theorem slugText_slice (h : SlugText value) (n : Nat) : SlugText (Js.slice n value) := by
  intro c hc
  rw [Js.slice, String.toList_ofList, sliceAux_eq_take fun c hc => toNat_lt_of_isSlugChar (h c hc)] at hc
  exact h c (List.mem_of_mem_take hc)

theorem isSlugChar_dashRuns {l : List Char} {run : Bool} : ∀ c ∈ dashRuns run l, isSlugChar c = true := by
  induction l generalizing run with
  | nil => exact nofun
  | cons d l ih =>
    intro c hc
    rw [dashRuns] at hc
    split at hc
    · next hkept =>
      rcases List.mem_cons.mp hc with rfl | hrest
      · rw [isSlugChar, hkept, Bool.true_or]
      · exact ih c hrest
    · split at hc
      · exact ih c hc
      · rcases List.mem_cons.mp hc with rfl | hrest
        · rfl
        · exact ih c hrest

theorem mem_trimDashes {l : List Char} {c : Char} (h : c ∈ trimDashes l) : c ∈ l := by
  have hhead : ∀ d ∈ (if l.head? = some '-' then l.tail else l), d ∈ l := by
    intro d hd
    split at hd
    · exact List.mem_of_mem_tail hd
    · exact hd
  unfold trimDashes at h
  dsimp only at h
  generalize (if l.head? = some '-' then l.tail else l) = rest at h hhead
  split at h
  · exact hhead c (List.dropLast_subset _ h)
  · exact hhead c h

/-- The name of a note has the characters of a slug. -/
theorem slugText_slugFilename {nfkd : String → String} {title id : String} (hid : SlugText id) :
    SlugText (slugFilename casing nfkd title id) := by
  unfold slugFilename Js.orElse
  dsimp only
  split
  · intro c hc
    rw [String.toList_append, List.mem_append] at hc
    rcases hc with hc | hc
    · have hall : ∀ d ∈ "eintrag-".toList, isSlugChar d = true := List.all_eq_true.mp (by decide)
      exact hall c hc
    · exact slugText_slice hid 8 c hc
  · refine slugText_slice (fun c hc => ?_) 80
    rw [String.toList_ofList] at hc
    exact isSlugChar_dashRuns c (mem_trimDashes hc)

/-- The name of an upload has no separator of paths. -/
theorem flat_safeFilename (value : String) : Flat (safeFilename value) := by
  have hsafe : ∀ c, c ∈ (safeFilename value).toList → isUnsafe c = false ∨ c = Char.ofNat 0xFFFD := by
    intro c hc
    rcases mem_slice hc with hold | hreplaced
    · rw [String.toList_ofList, List.mem_reverse] at hold
      obtain ⟨d, hd, rfl⟩ := List.mem_map.mp (List.mem_reverse.mp ((List.dropWhile_sublist _).subset hold))
      by_cases hunsafe : isUnsafe d = true
      · rw [if_pos hunsafe]
        exact Or.inl (by decide)
      · rw [if_neg hunsafe]
        exact Or.inl (Bool.not_eq_true _ ▸ hunsafe)
    · exact Or.inr hreplaced
  constructor
  · intro hmem
    rcases hsafe _ hmem with h | h
    · exact absurd h (by decide)
    · exact absurd h (by decide)
  · intro hmem
    rcases hsafe _ hmem with h | h
    · exact absurd h (by decide)
    · exact absurd h (by decide)

/-! ## Names of files -/

/-- A slice is the whole text, or it is not short. -/
theorem sliceAux_eq_or {l : List Char} {n : Nat} : Js.sliceAux n l = l ∨ n ≤ 2 * (Js.sliceAux n l).length := by
  induction l generalizing n with
  | nil =>
    cases n with
    | zero => exact Or.inl rfl
    | succ n => exact Or.inl rfl
  | cons c l ih =>
    cases n with
    | zero => exact Or.inr (Nat.zero_le _)
    | succ n =>
      rw [Js.sliceAux]
      split
      · rw [List.length_cons]
        rcases @ih n with heq | hle
        · exact Or.inl (by rw [heq])
        · exact Or.inr (by omega)
      · split
        · next hn =>
          rw [List.length_singleton]
          exact Or.inr (by omega)
        · rw [List.length_cons]
          rcases @ih (n - 1) with heq | hle
          · exact Or.inl (by rw [heq])
          · exact Or.inr (by omega)

/-- The dots at the end are taken off, so that the name of an upload leads neither here nor up. -/
theorem safeFilename_ne (value : String) : safeFilename value ≠ "." ∧ safeFilename value ≠ ".." := by
  have hdots : ∀ dots : List Char, dots.getLast? = some '.' → dots.length < 75 →
      (safeFilename value).toList ≠ dots := by
    intro dots hlast hshort heq
    rw [safeFilename, Js.slice, String.toList_ofList, String.toList_ofList] at heq
    rcases @sliceAux_eq_or ((value.toList.map fun c => if isUnsafe c then '_' else c).reverse.dropWhile
      (· == '.')).reverse 150
      with hwhole | hlong
    · rw [hwhole] at heq
      rw [← heq, List.getLast?_reverse] at hlast
      have hhead := List.head?_dropWhile_not (· == '.') (value.toList.map fun c => if isUnsafe c then '_' else c).reverse
      rw [hlast] at hhead
      cases hhead
    · rw [heq] at hlong
      omega
  exact ⟨fun heq => hdots ['.'] rfl (by decide) (by rw [heq]; rfl),
    fun heq => hdots ['.', '.'] rfl (by decide) (by rw [heq]; rfl)⟩

theorem isName_uniqueName (h : Path.IsName value) (hflat : Flat value) : Path.IsName (uniqueName casing value used) := by
  rcases (uniqueName_cases casing value used).2 with heq | ⟨i, heq⟩
  · rw [heq]
    exact h
  · have hdash : '-' ∈ (uniqueName casing value used).toList := by
      rw [heq, numbered]
      simp
    refine ⟨?_, ?_, ?_, (flat_uniqueName hflat).slash⟩
    · intro hnil
      rw [hnil] at hdash
      exact absurd hdash (by decide)
    · intro hhere
      rw [hhere] at hdash
      exact absurd hdash (by decide)
    · intro hup
      rw [hup] at hdash
      exact absurd hdash (by decide)

end AdWiki.Export
