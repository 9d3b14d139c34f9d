import AdWiki.Lib.Base64Url
import AdWiki.Lib.Json
import AdWiki.Lib.Keyset
import AdWiki.Lib.Table
import AdWiki.Lib.Utf8
import Mathlib

/-!
# Cursors of lists

The lists that are read page after page are ordered by a time and an id, both descending, and a cursor is the time and the
id of the last row of a page: JSON, as Base64 for addresses.

* `ofBase64Url_toBase64Url`: a cursor is read as it was written.
* `place_lt`: the condition of a query with a cursor (`isBehind`) is that of the order (`newestFirst`).
* `findMany_behind`: what the query behind the last row that was read returns.
-/

namespace AdWiki.Cursor

/-- How the database compares texts: by a key of its own for each. -/
structure Collation (Key : Type) where
  key : String → Key
  injective : Function.Injective key

/-! ## Texts -/

/-- A member that is a text. -/
def textMember (name : String) (j : Json) : Option String :=
  match j.get? name with
  | some (.string value) => some value
  | _ => none

/-- `Buffer.from(JSON.stringify(value), "utf8").toString("base64url")` -/
def toBase64Url (j : Json) : String := String.ofList (Base64Url.encode (Utf8.encode (Json.print .compact 0 j)))

/-- `JSON.parse(Buffer.from(raw, "base64url").toString("utf8"))` -/
def ofBase64Url (raw : String) : Option Json := Json.parse (Utf8.decode (Base64Url.decode raw.toList))

theorem ofBase64Url_toBase64Url (j : Json) : ofBase64Url (toBase64Url j) = some j := by
  have hparse : Json.parse (Json.print .compact 0 j ++ []) = some j := Json.parse_print j (by simp)
  rw [List.append_nil] at hparse
  rw [ofBase64Url, toBase64Url, String.toList_ofList, Base64Url.decode_encode, Utf8.decode_encode, hparse]

theorem toBase64Url_ne_empty (j : Json) : toBase64Url j ≠ "" := by
  intro hempty
  have hback := ofBase64Url_toBase64Url j
  rw [hempty] at hback
  cases hback

/-! ## Places -/

section Places

variable {Key T α : Type} [LinearOrder Key] [LinearOrder T] (collation : Collation Key)

/-- `{ time: { lt: cursor.time } }` or `{ time: cursor.time, id: { lt: cursor.id } }` -/
def isBehind (cursor : Option (T × String)) (time : T) (id : String) : Bool :=
  cursor.all fun cursor => decide (time < cursor.1) || decide (time = cursor.1) &&
    decide (collation.key id < collation.key cursor.2)

/-- `orderBy: [{ time: "desc" }, { id: "desc" }]` -/
def newestFirst (time : α → T) (id : α → String) (a b : α) : Prop :=
  time b < time a ∨ time a = time b ∧ collation.key (id b) ≤ collation.key (id a)

instance (time : α → T) (id : α → String) : DecidableRel (newestFirst collation time id) :=
  fun _ _ => inferInstanceAs (Decidable (_ ∨ _))

/-- The place of a row in the list. -/
def place (time : T) (id : String) : (T ×ₗ Key)ᵒᵈ := OrderDual.toDual (toLex (time, collation.key id))

variable {collation} {time time' : T} {id id' : String}

theorem place_lt : place collation time id < place collation time' id' ↔
    time' < time ∨ time = time' ∧ collation.key id' < collation.key id := by
  rw [place, place, OrderDual.toDual_lt_toDual, Prod.Lex.toLex_lt_toLex]
  exact or_congr_right (and_congr_left fun _ => eq_comm)

theorem newestFirst_iff {time : α → T} {id : α → String} (a b : α) : newestFirst collation time id a b ↔
    place collation (time a) (id a) ≤ place collation (time b) (id b) := by
  rw [place, place, OrderDual.toDual_le_toDual, Prod.Lex.toLex_le_toLex, newestFirst]
  exact or_congr_right (and_congr_left fun _ => eq_comm)

/-- A cursor lets the rows through that come after it. -/
theorem isBehind_eq (cursor : Option (T × String)) : isBehind collation cursor time id =
    (cursor.map fun cursor => place collation cursor.1 cursor.2).all fun position =>
      decide (position < place collation time id) := by
  cases cursor with
  | none => rfl
  | some cursor =>
    rw [Bool.eq_iff_iff]
    simp only [isBehind, Option.all_some, Option.map_some, Bool.or_eq_true, Bool.and_eq_true, decide_eq_true_eq, place_lt]
    exact or_congr_right (and_congr_left fun _ => eq_comm)

omit [LinearOrder Key] [LinearOrder T] in
/-- Rows with ids of their own have places of their own. -/
theorem nodup_place {time : α → T} {id : α → String} {rows : List α} (h : (rows.map id).Nodup) :
    (rows.map fun row => place collation (time row) (id row)).Nodup := by
  refine List.Nodup.of_map (fun position => (ofLex (OrderDual.ofDual position)).2) ?_
  rw [List.map_map]
  have hkeys := h.map collation.injective
  rwa [List.map_map] at hkeys

/-- The query behind the last row that was read returns the rows that are left. -/
theorem findMany_behind {key : α → String} {table : Table key} {keep : α → Bool} {time : α → T} {order : RowOrder}
    {rows before rest : List α} (hrows : rows.Perm (table.rows.filter keep))
    (hsplit : Keyset.IsSorted (fun row => place collation (time row) (key row)) rows (before ++ rest)) :
    (table.findMany order fun row => keep row &&
      isBehind collation (before.getLast?.map fun row => (time row, key row)) (time row) (key row)).insertionSort
        (newestFirst collation time key) = rest := by
  have hperm : (rows.filter fun b => (before.getLast?.map fun row => place collation (time row) (key row)).all
      fun position => decide (position < place collation (time b) (key b))).Perm
        (table.findMany order fun row => keep row &&
          isBehind collation (before.getLast?.map fun row => (time row, key row)) (time row) (key row)) := by
    refine (hrows.filter _).trans ((List.Perm.of_eq ?_).trans (order.perm _).symm)
    rw [List.filter_filter]
    refine List.filter_congr fun row _ => ?_
    rw [isBehind_eq, Option.map_map, Bool.and_comm]
    rfl
  exact (Keyset.isSorted_insertionSort newestFirst_iff (nodup_place Table.nodup_findMany)).unique
    ((Keyset.behind_last hsplit).of_perm hperm)

end Places

end AdWiki.Cursor
