/-!
# Structured text

The few shapes in which the parts of a thing are written: side by side, as a list, behind a name in
parentheses, or behind a name in braces with a label each.
-/

namespace TaggedUnion.Text

/-- The parts with a comma and a space between neighbours. -/
def commas (parts : List String) : String :=
  ", ".intercalate parts

def bracketed (parts : List String) : String :=
  "[" ++ commas parts ++ "]"

def tuple (name : String) (parts : List String) : String :=
  name ++ "(" ++ commas parts ++ ")"

/-- A name and its parts in braces, which a space keeps off the parts. -/
def record (name : String) (parts : List String) : String :=
  name ++ " \x7b " ++ commas parts ++ " \x7d"

def labelled (label part : String) : String :=
  label ++ ": " ++ part

end TaggedUnion.Text
