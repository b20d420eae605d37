/-!
# Version

The version of the mailbox and its text.
-/

namespace InterCore

/-- A version with three parts. -/
structure Version where
  major : Nat
  minor : Nat
  patch : Nat
  deriving DecidableEq, Repr

namespace Version

/-- The version of this mailbox. -/
def current : Version := ⟨0, 3, 0⟩

/-- The parts with dots between them. -/
def text (v : Version) : String :=
  toString v.major ++ "." ++ toString v.minor ++ "." ++ toString v.patch

end Version

end InterCore
