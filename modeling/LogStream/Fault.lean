/-! # Faults

Failures without a wording of their own: an operation on numbers, texts or objects was given something
that it does not take. A caller sees only which sort of failure it was. -/

namespace LogStream

/-- The sort of a failure that has no wording of its own. -/
inductive Fault
  | wrongType
  | badValue
  | overflow
  | noAttribute
  | missingKey
  | missingIndex
  | notEncodable
  | bodyFailed
  | noMemory
deriving DecidableEq, Repr

end LogStream
