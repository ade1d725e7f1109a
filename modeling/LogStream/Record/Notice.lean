import LogStream.Text.Basic

/-! # Notices

Lines by which the library tells what it does. -/

namespace LogStream

/-- A line about what was done, or about what was passed over. -/
inductive Notice
  | debug (text : Text)
  | warning (text : Text)
deriving DecidableEq

namespace Notice

/-- The line with its severity in front. -/
def render : Notice → Text
  | debug t => Text.lit "DEBUG " ++ t
  | warning t => Text.lit "WARNING " ++ t

end Notice

end LogStream
