import Propositional.Output.Csv

/-!
# Reading comma-separated records

A reader for records in the common form: fields are set apart by commas, and a
record ends with a line feed, with a carriage return before it or not; the last one
need not have an end.  Inside quotes all characters stand for themselves, a doubled
quote for one.  Text that is not of this form is refused, such as a quote in the middle
of a bare field, or a carriage return outside quotes that no line feed follows.
-/

namespace Propositional.Csv

/-- Where the reader stands in a field. -/
inductive Place where
  /-- In front of its first character. -/
  | start
  /-- Behind characters that are not quoted. -/
  | bare
  /-- Inside quotes. -/
  | quoted
  /-- Behind a quote inside quotes: it ends the field or is the first of two. -/
  | closing
  /-- Behind a carriage return outside quotes: the line feed of its line end must follow. -/
  | returned
deriving DecidableEq, Repr

/-- Reads records.  `field` holds what has been read of a field, and `fields` the fields before
it in its record. -/
def readFrom (place : Place) (field : List Char) (fields : List (List Char)) :
    List Char → Option (List (List (List Char)))
  | [] =>
    match place with
    | .start => if fields.isEmpty then some [] else some [fields ++ [field]]
    | .bare | .closing => some [fields ++ [field]]
    | .quoted | .returned => none
  | c :: rest =>
    match place with
    | .quoted =>
      if c = '"' then readFrom .closing field fields rest
      else readFrom .quoted (field ++ [c]) fields rest
    | .returned =>
      if c = '\n' then (readFrom .start [] [] rest).map ((fields ++ [field]) :: ·) else none
    | .start | .bare | .closing =>
      if c = ',' then readFrom .start [] (fields ++ [field]) rest
      else if c = '\n' then (readFrom .start [] [] rest).map ((fields ++ [field]) :: ·)
      else if c = '\r' then readFrom .returned field fields rest
      else if c = '"' then
        match place with
        | .start => readFrom .quoted field fields rest
        | .closing => readFrom .quoted (field ++ ['"']) fields rest
        | .bare | .quoted | .returned => none
      else
        match place with
        | .start | .bare => readFrom .bare (field ++ [c]) fields rest
        | .closing | .quoted | .returned => none

/-- The records of a text. -/
def read (text : List Char) : Option (List (List (List Char))) := readFrom .start [] [] text

/-- The records that a text holds, if it is one of comma-separated records. -/
def decode? (text : String) : Option (List (List String)) :=
  (read text.toList).map fun records => records.map fun fields => fields.map String.ofList

end Propositional.Csv
