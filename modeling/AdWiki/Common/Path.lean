import AdWiki.Common.JsString
import Mathlib

/-!
# Paths

The functions of the `path` module that the backups use, for POSIX paths. A directory is the list of its segments from
the root (`walk`); `resolve` and `join` print it (`text`), `relative` prints the way from one directory to another. The
working directory is the root: every call here begins with an absolute path.

* `walk_text`, `walk_names`: a path whose segments are names is walked segment by segment.
* `resolve_below`, `relative_below`: below a directory, `resolve` and `relative` are inverse.
-/

namespace AdWiki

namespace Js

/-- `value.startsWith(pattern)`. -/
def startsWith (pattern s : String) : Bool := pattern.toList.isPrefixOf s.toList

/-- `value.endsWith(pattern)`. -/
def endsWith (pattern s : String) : Bool := pattern.toList.isSuffixOf s.toList

/-- `value.includes(c)`. -/
def includes (c : Char) (s : String) : Bool := s.toList.contains c

/-- `/^[class]+$/.test(value)`. -/
def isWord (p : Char → Bool) (s : String) : Bool := !s.toList.isEmpty && s.toList.all p

/-- No separator is left in the parts. -/
theorem not_mem_of_mem_splitOn {α : Type*} [BEq α] [LawfulBEq α] {x : α} {l part : List α} (h : part ∈ l.splitOn x) :
    x ∉ part := by
  induction l generalizing part with
  | nil =>
    rw [List.splitOn_nil, List.mem_singleton] at h
    rw [h]
    exact List.not_mem_nil
  | cons a l ih =>
    rw [List.splitOn_cons_eq_if_modifyHead] at h
    split at h
    · rcases List.mem_cons.mp h with rfl | h
      · exact List.not_mem_nil
      · exact ih h
    · next hne =>
      obtain ⟨hd, tl, heq⟩ := List.exists_cons_of_ne_nil (List.splitOn_ne_nil x l)
      rw [heq, List.modifyHead_cons] at h
      rcases List.mem_cons.mp h with rfl | h
      · have hhd : x ∉ hd := ih (by rw [heq]; exact List.mem_cons_self)
        intro hx
        rcases List.mem_cons.mp hx with rfl | hx
        · exact hne (beq_self_eq_true _)
        · exact hhd hx
      · exact ih (by rw [heq]; exact List.mem_cons_of_mem _ h)

variable {c : Char} {s : String} {l : List String}

theorem not_mem_of_mem_split (h : s ∈ split c s') : c ∉ s.toList := by
  obtain ⟨part, hpart, rfl⟩ := List.mem_map.mp h
  rw [String.toList_ofList]
  exact not_mem_of_mem_splitOn hpart

theorem split_ne_nil : split c s ≠ [] := by
  simp [split, List.splitOn_ne_nil]

/-- `parts.join(c).split(c)`. -/
theorem split_join (hl : l ≠ []) (hc : ∀ s ∈ l, c ∉ s.toList) : split c ((String.singleton c).intercalate l) = l := by
  have hparts : ∀ part ∈ l.map String.toList, c ∉ part := by
    intro part hpart
    obtain ⟨s, hs, rfl⟩ := List.mem_map.mp hpart
    exact hc s hs
  rw [split, String.toList_intercalate, String.toList_singleton, List.splitOn_intercalate c hparts (by simpa using hl)]
  simp

/-- `value.split(c).join(c)`. -/
theorem join_split : (String.singleton c).intercalate (split c s) = s := by
  apply String.toList_inj.mp
  rw [String.toList_intercalate, String.toList_singleton, split, List.map_map]
  simp [Function.comp_def, List.intercalate_splitOn]

/-- The characters of the text are those of the parts, and separators. -/
theorem mem_split {x : Char} (hx : x ≠ c) : x ∈ s.toList ↔ ∃ part ∈ split c s, x ∈ part.toList := by
  have hparts : ∀ parts : List (List Char), x ∈ [c].intercalate parts ↔ ∃ part ∈ parts, x ∈ part := by
    intro parts
    induction parts with
    | nil => simp
    | cons part parts ih =>
      cases parts with
      | nil => simp
      | cons part' parts =>
        rw [List.intercalate_cons_cons, List.mem_append, List.mem_append, ih]
        simp [hx]
  have htext : [c].intercalate (s.toList.splitOn c) = s.toList := List.intercalate_splitOn c
  rw [← htext, hparts]
  simp [split]

/-- A separator in between splits. -/
theorem split_append {s s' : String} : split c (s ++ String.singleton c ++ s') = split c s ++ split c s' := by
  simp [split, List.splitOn_append_cons_self]

end Js

namespace Path

/-! ## The functions -/

/-- `path.isAbsolute(value)`. -/
def isAbsolute (path : String) : Bool := path.toList.head? == some '/'

/-- A segment is entered; `..` goes back, and the empty segment and `.` stay. -/
def push (dir : List String) (segment : String) : List String :=
  if segment = "" ∨ segment = "." then dir else if segment = ".." then dir.dropLast else dir ++ [segment]

/-- The directory that a path leads to from a directory. -/
def walk (dir : List String) (path : String) : List String := (Js.split '/' path).foldl push dir

/-- The absolute path of a directory. -/
def text (dir : List String) : String := "/" ++ "/".intercalate dir

/-- `path.resolve(...paths)`. -/
def resolve (paths : List String) : String :=
  text (paths.foldl (fun dir path => walk (if isAbsolute path then [] else dir) path) [])

/-- `path.join(directory, name)`, for an absolute directory. -/
def join (directory name : String) : String := text (walk (walk [] directory) name)

/-- How many segments two directories share from the root. -/
def common : List String → List String → Nat
  | a :: as, b :: bs => if a = b then common as bs + 1 else 0
  | _, _ => 0

/-- `path.relative(source, target)`. -/
def relative (source target : String) : String :=
  let dir := walk [] source
  let dir' := walk [] target
  "/".intercalate (List.replicate (dir.length - common dir dir') ".." ++ dir'.drop (common dir dir'))

/-- `path.posix.basename(value)`: the last segment that is not empty. -/
def basename (path : String) : String := ((Js.split '/' path).filter (· ≠ "")).getLast?.getD ""

/-! ## Segments that are names -/

/-- A segment that leads to an entry of a directory. -/
structure IsName (segment : String) : Prop where
  nonempty : segment ≠ ""
  notHere : segment ≠ "."
  notUp : segment ≠ ".."
  flat : '/' ∉ segment.toList

variable {dir dir' segments : List String} {segment path root : String}

theorem push_name (h : IsName segment) : push dir segment = dir ++ [segment] := by
  rw [push, if_neg (by simp [h.nonempty, h.notHere]), if_neg h.notUp]

theorem foldl_push_names (h : ∀ s ∈ segments, IsName s) : segments.foldl push dir = dir ++ segments := by
  induction segments generalizing dir with
  | nil => simp
  | cons s segments ih =>
    rw [List.foldl_cons, push_name (h s List.mem_cons_self), ih fun s' hs' => h s' (List.mem_cons_of_mem _ hs')]
    simp

/-- The segments of a walk are names, if those of the start are. -/
theorem names_walk (hdir : ∀ s ∈ dir, IsName s) : ∀ s ∈ walk dir path, IsName s := by
  have hfold : ∀ (l : List String) (dir : List String), (∀ s ∈ l, '/' ∉ s.toList) → (∀ s ∈ dir, IsName s) →
      ∀ s ∈ l.foldl push dir, IsName s := by
    intro l
    induction l with
    | nil => exact fun dir _ hdir => hdir
    | cons a l ih =>
      intro dir hflat hdir
      refine ih (push dir a) (fun s hs => hflat s (List.mem_cons_of_mem _ hs)) fun s hs => ?_
      unfold push at hs
      split at hs
      · exact hdir s hs
      · next hstay =>
        split at hs
        · exact hdir s (List.dropLast_subset dir hs)
        · next hup =>
          rcases List.mem_append.mp hs with hs | hs
          · exact hdir s hs
          · obtain rfl := List.mem_singleton.mp hs
            exact ⟨fun he => hstay (Or.inl he), fun hd => hstay (Or.inr hd), hup, hflat s List.mem_cons_self⟩
  exact hfold _ _ (fun s hs => Js.not_mem_of_mem_split hs) hdir

/-- Names are joined and walked. -/
theorem walk_names (hne : segments ≠ []) (h : ∀ s ∈ segments, IsName s) :
    walk dir ("/".intercalate segments) = dir ++ segments := by
  rw [walk, show ("/" : String) = String.singleton '/' from rfl, Js.split_join hne fun s hs => (h s hs).flat,
    foldl_push_names h]

/-- A printed directory is read back. -/
theorem walk_text (h : ∀ s ∈ dir, IsName s) : walk dir' (text dir) = dir' ++ dir := by
  have hsplit : Js.split '/' (text dir) = "" :: Js.split '/' ("/".intercalate dir) := by
    have happend : Js.split '/' ("" ++ String.singleton '/' ++ "/".intercalate dir) = _ := Js.split_append
    simpa [text, show Js.split '/' "" = [""] from rfl] using happend
  rw [walk, hsplit, List.foldl_cons, show push dir' "" = dir' by simp [push]]
  cases dir with
  | nil => simp [Js.split, push]
  | cons a dir => exact walk_names (by simp) h

theorem isAbsolute_text : isAbsolute (text dir) = true := by
  simp [isAbsolute, text]

theorem isAbsolute_names (hne : segments ≠ []) (h : ∀ s ∈ segments, IsName s) :
    isAbsolute ("/".intercalate segments) = false := by
  obtain ⟨s, rest, rfl⟩ := List.exists_cons_of_ne_nil hne
  have hs := h s List.mem_cons_self
  obtain ⟨c, cs, hc⟩ := List.exists_cons_of_ne_nil fun hnil => hs.nonempty (String.toList_eq_nil_iff.mp hnil)
  have hflat : c ≠ '/' := fun he => hs.flat (by rw [hc, he]; exact List.mem_cons_self)
  have hhead : ("/".intercalate (s :: rest)).toList.head? = some c := by
    rw [String.toList_intercalate]
    cases rest <;> simp [hc]
  rw [isAbsolute, hhead]
  simpa using hflat

theorem walk_name (hname : IsName segment) : walk dir segment = dir ++ [segment] := by
  have hwalk : walk dir ("/".intercalate [segment]) = dir ++ [segment] :=
    walk_names (List.cons_ne_nil segment []) (by simpa using hname)
  rwa [String.intercalate_singleton] at hwalk

theorem walk_empty : walk dir "" = dir := by
  rw [walk, show Js.split '/' "" = [""] from rfl]
  simp [push]

theorem walk_append {path' : String} : walk dir (path ++ "/" ++ path') = walk (walk dir path) path' := by
  rw [walk, show ("/" : String) = String.singleton '/' from rfl, Js.split_append, List.foldl_append, ← walk, ← walk]

/-- A joined path is walked part by part, also where parts are no names. -/
theorem walk_intercalate {paths : List String} : walk dir ("/".intercalate paths) = paths.foldl walk dir := by
  induction paths generalizing dir with
  | nil => exact walk_empty
  | cons path paths ih =>
    cases paths with
    | nil => rw [String.intercalate_singleton, List.foldl_cons, List.foldl_nil]
    | cons path' paths =>
      rw [String.intercalate_cons_cons, walk_append, ih]
      rfl

theorem foldl_walk_filter {paths : List String} : (paths.filter (· ≠ "")).foldl walk dir = paths.foldl walk dir := by
  induction paths generalizing dir with
  | nil => rfl
  | cons path paths ih =>
    rw [List.foldl_cons, ← ih]
    by_cases hnil : path = ""
    · rw [List.filter_cons_of_neg (by simpa using hnil), hnil, walk_empty]
    · rw [List.filter_cons_of_pos (by simpa using hnil), List.foldl_cons]

theorem join_segment (hname : IsName segment) : join path segment = text (walk [] path ++ [segment]) := by
  rw [join, walk_name hname]

theorem names_entry (path : String) (hname : IsName segment) : ∀ s ∈ walk [] path ++ [segment], IsName s := by
  intro s hs
  rcases List.mem_append.mp hs with hs | hs
  · exact names_walk (by simp) s hs
  · rwa [List.mem_singleton.mp hs]

theorem walk_join (path : String) (hname : IsName segment) : walk [] (join path segment) = walk [] path ++ [segment] := by
  have hnames := names_entry path hname
  rw [join_segment hname, walk_text hnames, List.nil_append]

theorem basename_join (path : String) (hname : IsName segment) : basename (join path segment) = segment := by
  have hnames := names_entry path hname
  have hsplit : Js.split '/' ("" ++ String.singleton '/' ++ "/".intercalate (walk [] path ++ [segment])) =
      Js.split '/' "" ++ Js.split '/' ("/".intercalate (walk [] path ++ [segment])) := Js.split_append
  have hjoin : Js.split '/' ("/".intercalate (walk [] path ++ [segment])) = walk [] path ++ [segment] :=
    Js.split_join (by simp) fun s hs => (hnames s hs).flat
  have hfilter : (walk [] path ++ [segment]).filter (· ≠ "") = walk [] path ++ [segment] :=
    List.filter_eq_self.mpr fun s hs => by simpa using (hnames s hs).nonempty
  rw [String.empty_append, hjoin, show Js.split '/' "" = [""] from rfl, ← show ("/" : String) =
    String.singleton '/' from rfl] at hsplit
  rw [join_segment hname, basename, text, hsplit, List.filter_append, hfilter]
  simp

/-- An entry of a directory is not the directory. -/
theorem join_ne (hname : IsName segment) : join path segment ≠ path := by
  intro heq
  have hwalk := walk_join path hname
  rw [heq] at hwalk
  exact absurd (congrArg List.length hwalk) (by simp)

theorem join_injective {segment' : String} (hname : IsName segment) (hname' : IsName segment')
    (h : join path segment = join path segment') : segment = segment' := by
  have hwalk := walk_join path hname
  rw [h, walk_join path hname'] at hwalk
  simpa using hwalk.symm

/-- The path of an entry ends with its name. -/
theorem join_ends (path : String) (hname : IsName segment) : ∃ front, join path segment = front ++ segment := by
  rw [join_segment hname, text]
  by_cases hnil : walk [] path = []
  · exact ⟨"/", by simp [hnil]⟩
  · refine ⟨"/" ++ ("/".intercalate (walk [] path) ++ "/"), ?_⟩
    rw [String.intercalate_append_of_ne_nil hnil (List.cons_ne_nil segment []),
      String.intercalate_singleton, ← String.append_assoc]

/-! ## Below a directory -/

section Below

variable (hdir : ∀ s ∈ dir, IsName s) (h : ∀ s ∈ segments, IsName s)
include hdir

theorem resolve_here : resolve [text dir, "."] = text dir := by
  have hhere : walk dir "." = dir := by
    rw [walk, show Js.split '/' "." = ["."] from rfl]
    simp [push]
  simp [resolve, isAbsolute_text, walk_text hdir, show isAbsolute "." = false from rfl, hhere]

theorem join_name (hname : IsName segment) : join (text dir) segment = text (dir ++ [segment]) := by
  rw [join_segment hname, walk_text hdir, List.nil_append]

include h

theorem resolve_below (hne : segments ≠ []) : resolve [text dir, "/".intercalate segments] = text (dir ++ segments) := by
  simp [resolve, isAbsolute_text, walk_text hdir, isAbsolute_names hne h, walk_names hne h]

/-- The segments may be given one by one. -/
theorem resolve_segments : resolve (text dir :: segments) = text (dir ++ segments) := by
  have hfold : ∀ (l : List String) (dir : List String), (∀ s ∈ l, IsName s) →
      l.foldl (fun dir path => walk (if isAbsolute path then [] else dir) path) dir = dir ++ l := by
    intro l
    induction l with
    | nil => simp
    | cons a l ih =>
      intro dir hl
      have ha : ∀ s ∈ [a], IsName s := fun s hs => hl s (by rw [List.mem_singleton.mp hs]; exact List.mem_cons_self)
      have habs := isAbsolute_names (List.cons_ne_nil a []) ha
      rw [String.intercalate_singleton] at habs
      rw [List.foldl_cons, habs, if_neg (by simp), walk_name (ha a List.mem_cons_self),
        ih _ fun s hs => hl s (List.mem_cons_of_mem _ hs)]
      simp
  rw [resolve, List.foldl_cons, isAbsolute_text, if_pos rfl, walk_text hdir, hfold segments _ h]
  simp

theorem relative_below : relative (text dir) (text (dir ++ segments)) = "/".intercalate segments := by
  have hcommon : ∀ (l : List String), common l (l ++ segments) = l.length := by
    intro l
    induction l with
    | nil => cases segments <;> rfl
    | cons a l ih => simp [common, ih]
  have hall : ∀ s ∈ dir ++ segments, IsName s := fun s hs => (List.mem_append.mp hs).elim (hdir s) (h s)
  simp [relative, walk_text hdir, walk_text hall, hcommon]

end Below

end Path

end AdWiki
