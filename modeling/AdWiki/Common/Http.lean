import Mathlib

/-!
# Times and failed requests

The outcomes of a failed request, with the texts of the source's exceptions. A Prisma error is named by its code:
`P2002` a unique constraint, `P2003` a foreign key, `P2025` a record that is not there.
-/

namespace AdWiki

/-- Milliseconds. -/
abbrev Time := Nat

inductive HttpError
  | badRequest (message : String)
  | unauthorized (message : String)
  | forbidden (message : String)
  | notFound (message : String)
  | conflict (message : String)
  | internal (message : String)
  | oidc (code : String)
  | prisma (code : String)
  deriving DecidableEq, Repr

abbrev HttpError.uniqueConstraint : HttpError := .prisma "P2002"

abbrev HttpError.foreignKey : HttpError := .prisma "P2003"

abbrev HttpError.recordNotFound : HttpError := .prisma "P2025"

end AdWiki
