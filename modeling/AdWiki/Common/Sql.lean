import Mathlib

/-!
# Functions of PostgreSQL

Those of the raw queries whose values on texts and on `NULL` do not depend on the locale of the database.
-/

namespace AdWiki.Sql

/-- `LEFT(text, n)` -/
def left (n : Nat) (text : String) : String := String.ofList (text.toList.take n)

/-- `NULLIF(text, '')` -/
def nullif (text : Option String) : Option String := text.filter (· ≠ "")

/-- `BTRIM(text)` -/
def btrim (text : String) : String :=
  String.ofList (((text.toList.dropWhile (· == ' ')).reverse.dropWhile (· == ' ')).reverse)

end AdWiki.Sql
