import ContainerRecipe.NameError

namespace ContainerRecipe

inductive Datum where
  | null
  | flag (value : Bool)
  -- No field is a number, so a number stays as it is written.
  | number (literal : String)
  | text (value : String)
  -- A byte string that is not a text.
  | bytes (content : ByteArray)
  | list (items : List Datum)
  | record (fields : List (String × Datum))
  -- A recipe's table: the items of its list, with null where the list has a gap, and the values under all
  -- other keys.
  | table (items : List Datum) (others : List (Datum × Datum))
  -- A table inside itself.
  | again
  | stage
  | function
  deriving Inhabited

inductive DecodeError where
  | unknownField (name : String)
  | unknownVariant (name : String)
  | missingField (name : String)
  | wrongType
  | invalidValue
  | wrongLength
  | noVariant
  | unsupported (typeName : String)
  | recursive
  -- A text that had to be a name or a version.
  | refused (cause : NameError)
  deriving DecidableEq, Repr

def DecodeError.message : DecodeError → String
  | .unknownField name => "unknown field `" ++ name ++ "`"
  | .unknownVariant name => "unknown variant `" ++ name ++ "`"
  | .missingField name => "missing field `" ++ name ++ "`"
  | .wrongType => "invalid type"
  | .invalidValue => "invalid value"
  | .wrongLength => "invalid length"
  | .noVariant => "data did not match any variant"
  | .unsupported typeName => "unsupported value type `" ++ typeName ++ "`"
  | .recursive => "recursive table detected"
  | .refused cause => cause.message

end ContainerRecipe
