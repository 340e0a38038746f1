/-
  DenseSimplex.Environment
  ────────────────────────
  **ENVIRONMENT VARIABLES.**

  An environment is a list of names and values.  A variable is read in one
  of two ways, both after white space is cut off its ends:

    * as a number; a value that is none counts as absent;
    * as a switch, which is off for `0` and `false` in any ASCII case and
      on for everything else, the empty text included.
-/
import DenseSimplex.Text.Blank
import DenseSimplex.Text.Numeral

namespace DenseSimplex

/-- The variables that are set, with their values. -/
abbrev Environment := List (String × String)

namespace Environment

/-- The characters of a variable's value without the white space around
them. -/
def value (env : Environment) (name : String) : Option (List Char) :=
  (env.lookup name).map fun text => trimBlanks text.toList

/-- A variable that holds a 64-bit natural number. -/
def word (env : Environment) (name : String) : Option Nat := (env.value name).bind readWord

/-- A variable that holds a float. -/
def float (env : Environment) (name : String) : Option Float := (env.value name).bind readFloat

/-- Whether a switch with this value is on. -/
def isOn (value : List Char) : Bool :=
  !(value = ['0'] || value.map lowerAscii = "false".toList)

/-- A variable that is a switch. -/
def switch (env : Environment) (name : String) : Option Bool := (env.value name).map isOn

end Environment

end DenseSimplex
