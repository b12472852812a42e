import FileSignatures.Text.Utf8

/-!
# Arguments

The arguments of a command are options and operands. An option has a long name
and perhaps a letter; it is a flag, or it takes a value, which stands behind an
equals sign or is the next argument. Letters may be joined. After two dashes
everything is an operand, and so is a single dash.

Arguments are bytes. Options are spelled in ASCII, but values and operands may
be paths that are no text.

## Main definitions

* `Argument`: An argument, in bytes.
* `OptionName`: The options, with their spellings.
* `Occurrence`: An option as given, with its value.
* `Occurrence.ofArgument?`: The options that an argument gives.
* `Arguments.beforeOperand?`: The options before the first operand.
* `Arguments.ofList?`: All options and operands.
-/

namespace FileSignatures

/-- An argument, or a part of it, in bytes. -/
abbrev Argument := List UInt8

namespace Argument

/-- The byte that options begin with. -/
def dash : UInt8 := 0x2d

/-- The byte between an option and its value. -/
def equals : UInt8 := 0x3d

/-- The name and the value of a long option, which the first equals sign
    separates. -/
def cutValue (argument : Argument) : Argument × Option Argument :=
  match argument.dropWhile (· ≠ equals) with
  | [] => (argument, none)
  | _ :: value => (argument.takeWhile (· ≠ equals), some value)

end Argument

/-- The options of all commands. -/
inductive OptionName where
  | debug
  | config
  | recursive
  | brief
  | format
  | database
  | stream
  | hidden
  | depth
  | workers
  deriving DecidableEq, Repr

namespace OptionName

/-- The long name of an option. -/
def long : OptionName → Text
  | debug => "debug".toList
  | config => "config".toList
  | recursive => "recursive".toList
  | brief => "brief".toList
  | format => "format".toList
  | database => "db".toList
  | stream => "stream".toList
  | hidden => "hidden".toList
  | depth => "depth".toList
  | workers => "workers".toList

/-- The letter of an option, if it has one. -/
def letter? : OptionName → Option Char
  | debug => some 'd'
  | recursive => some 'r'
  | brief => some 'b'
  | workers => some 'w'
  | _ => none

/-- Whether an option takes a value. -/
def takesValue : OptionName → Bool
  | config | format | database | depth | workers => true
  | _ => false

end OptionName

/-- An option as given, with its value if it takes one. -/
structure Occurrence where
  option : OptionName
  value : Option Argument
  deriving DecidableEq

/-- What an argument gives: options, and perhaps one more whose value is the
    next argument. -/
structure GivenOptions where
  complete : List Occurrence
  awaiting : Option OptionName

namespace Occurrence

/-- The option of a long name, without its two dashes, of those that are
    available. A flag takes no value behind an equals sign. -/
def ofLong? (available : List OptionName) (argument : Argument) : Option GivenOptions :=
  let (name, value) := argument.cutValue
  match available.find? fun option => option.long.utf8 = name with
  | none => none
  | some option =>
    match option.takesValue, value with
    | true, some value => some ⟨[⟨option, some value⟩], none⟩
    | true, none => some ⟨[], some option⟩
    | false, some _ => none
    | false, none => some ⟨[⟨option, none⟩], none⟩

/-- The options of joined letters. What follows the letter of an option that
    takes a value is the value, an equals sign before it aside. -/
def ofLetters? (available : List OptionName) : Argument → Option GivenOptions
  | [] => some ⟨[], none⟩
  | letter :: rest =>
    match available.find? fun option => option.letter?.map Char.toUInt8 = some letter with
    | none => none
    | some option =>
      if option.takesValue then
        match rest with
        | [] => some ⟨[], some option⟩
        | first :: more =>
          some ⟨[⟨option, some (if first = Argument.equals then more else first :: more)⟩], none⟩
      else
        (ofLetters? available rest).map fun given =>
          { given with complete := ⟨option, none⟩ :: given.complete }

end Occurrence

namespace Arguments

/-- Whether an argument is an operand and no option. -/
def isOperand : Argument → Bool
  | first :: _ :: _ => first ≠ Argument.dash
  | _ => true

/-- The options that an argument gives. -/
def optionsOf? (available : List OptionName) : Argument → Option GivenOptions
  | [] => none
  | first :: rest =>
    if first ≠ Argument.dash then none
    else if rest.head? = some Argument.dash then Occurrence.ofLong? available rest.tail
    else Occurrence.ofLetters? available rest

/-- The options before the first operand, and the arguments from it on. Two
    dashes do not come before a command. -/
def beforeOperand? (available : List OptionName) (awaiting : Option OptionName) :
    List Argument → Option (List Occurrence × List Argument)
  | [] => if awaiting.isSome then none else some ([], [])
  | argument :: rest =>
    match awaiting with
    | some option =>
      if isOperand argument then
        (beforeOperand? available none rest).map fun (given, more) =>
          (⟨option, some argument⟩ :: given, more)
      else none
    | none =>
      if isOperand argument then some ([], argument :: rest)
      else
        match optionsOf? available argument with
        | none => none
        | some options =>
          (beforeOperand? available options.awaiting rest).map fun (given, more) =>
            (options.complete ++ given, more)

/-- All options and all operands. -/
def ofList? (available : List OptionName) (awaiting : Option OptionName) :
    List Argument → Option (List Occurrence × List Argument)
  | [] => if awaiting.isSome then none else some ([], [])
  | argument :: rest =>
    match awaiting with
    | some option =>
      if isOperand argument then
        (ofList? available none rest).map fun (given, operands) =>
          (⟨option, some argument⟩ :: given, operands)
      else none
    | none =>
      if argument = [Argument.dash, Argument.dash] then some ([], rest)
      else if isOperand argument then
        (ofList? available none rest).map fun (given, operands) => (given, argument :: operands)
      else
        match optionsOf? available argument with
        | none => none
        | some options =>
          (ofList? available options.awaiting rest).map fun (given, operands) =>
            (options.complete ++ given, operands)

/-- Whether no option is given twice. -/
def areDistinct (given : List Occurrence) : Bool :=
  (given.map Occurrence.option).Nodup

/-- Whether a flag is given. -/
def hasFlag (given : List Occurrence) (option : OptionName) : Bool :=
  given.any fun occurrence => occurrence.option = option

/-- The value of an option, if it is given. -/
def value? (given : List Occurrence) (option : OptionName) : Option Argument :=
  (given.find? fun occurrence => occurrence.option = option).bind Occurrence.value

end Arguments

end FileSignatures
