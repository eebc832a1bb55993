/-!
# Errors

`Error` of `liblangutil/Exceptions.h`: the type of an error and its comment. The locations that the
exceptions also carry are not modelled.
-/

namespace Langutil

inductive Error.Type where
  | declarationError
  | docstringParsingError
  | parserError
  | typeError
  | syntaxError
  | warning
  deriving DecidableEq, Repr

structure Error where
  type : Error.Type
  comment : String
  deriving DecidableEq, Repr

end Langutil
