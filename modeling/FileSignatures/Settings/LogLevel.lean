import FileSignatures.Number.Literal

/-!
# Log levels

A log level is the least severity of the messages that are written. It has a
name and a number, and settings give it as one or the other.

## Main definitions

* `LogLevel`: The levels.
* `LogLevel.ofText?`: The level that settings give.
-/

namespace FileSignatures

/-- The least severity of the messages that are written. -/
inductive LogLevel where
  | off
  | error
  | warn
  | info
  | debug
  | trace
  deriving DecidableEq, Repr

namespace LogLevel

/-- The levels, from the fewest messages to the most. -/
def all : List LogLevel := [off, error, warn, info, debug, trace]

/-- The name of a level. -/
def name : LogLevel → Text
  | off => "off".toList
  | error => "error".toList
  | warn => "warn".toList
  | info => "info".toList
  | debug => "debug".toList
  | trace => "trace".toList

/-- The level of a name in either case, or of a number, zero standing for the
    fewest messages. Without a text nothing is held back. -/
def named? (t : Text) : Option LogLevel :=
  if t.isEmpty then some trace
  else
    (all.find? fun level => level.name = t.map Char.toLower)
      <|> (count? t).bind fun n => all[n]?

/-- The level that settings give. A comma may end it. -/
def ofText? (t : Text) : Option LogLevel :=
  match Text.cut? ',' t with
  | none => named? t
  | some (level, rest) => if rest.isAllBlank then named? level else none

end LogLevel

end FileSignatures
