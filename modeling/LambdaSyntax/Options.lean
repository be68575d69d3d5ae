/-!
The options of the command line.

There are four options, each with a short and a long name. The one that names source files takes
values: either one that is attached to it, or all arguments that follow it and are not options
themselves. Short names can be written together behind one dash. The arguments are read from left
to right, and the first that asks for help or the version, or that does not fit, ends the reading.
-/

namespace LambdaSyntax

/-- What the command line asks for. -/
structure Options where
  /-- The files to check, in order. -/
  paths : List String
  /-- Whether to print the trees of accepted lines. -/
  printTrees : Bool
deriving DecidableEq, Repr

namespace Options

/-- What is wrong with a command line. -/
inductive Misuse where
  /-- No value follows the option that needs one. -/
  | missingValue
  /-- An argument that is neither an option nor the value of one. -/
  | unknownArgument
  /-- A value is attached to an option that takes none. -/
  | unexpectedValue
  /-- An option that may be given once is given again. -/
  | repeatedOption
deriving DecidableEq, Repr

/-- What ends the reading of a command line before its end. -/
inductive Stop where
  | help
  | version
  | misuse (cause : Misuse)
deriving DecidableEq, Repr

/-- The options by what they are for. -/
inductive Flag where
  | sources
  | trees
  | help
  | version
deriving DecidableEq, Repr

/-- The option with a long name. Long names cannot be shortened. -/
def Flag.ofLong? (name : String) : Option Flag :=
  if name = "src-filepaths" then some .sources
  else if name = "print-trees" then some .trees
  else if name = "help" then some .help
  else if name = "version" then some .version
  else none

/-- The option with a short name. -/
def Flag.ofShort? (name : Char) : Option Flag :=
  if name = 's' then some .sources
  else if name = 'p' then some .trees
  else if name = 'h' then some .help
  else if name = 'V' then some .version
  else none

/-- Whether the option for source files takes the next argument if that is a value. -/
inductive Taking where
  /-- It does not. -/
  | closed
  /-- It does, and it has no value yet. -/
  | awaiting
  /-- It does, and it has a value already. -/
  | more
deriving DecidableEq, Repr

/-- The arguments read so far. -/
structure Reading where
  options : Options
  taking : Taking
deriving DecidableEq, Repr

namespace Reading

/-- No arguments read. -/
def start : Reading := ⟨⟨[], false⟩, .closed⟩

/-- The options, when no further argument follows. -/
def finish (reading : Reading) : Except Stop Options :=
  if reading.taking = .awaiting then .error (.misuse .missingValue) else .ok reading.options

/-- Adds a source file. -/
def addPath (reading : Reading) (path : String) (taking : Taking) : Reading :=
  ⟨⟨reading.options.paths ++ [path], reading.options.printTrees⟩, taking⟩

/-- Reads an argument that is not an option. -/
def value (reading : Reading) (text : String) : Except Stop Reading :=
  if reading.taking = .closed then .error (.misuse .unknownArgument)
  else .ok (reading.addPath text .more)

/-- Reads an option, with the value attached to it if there is one. -/
def flag (reading : Reading) (flag : Flag) (attached? : Option String) : Except Stop Reading :=
  if reading.taking = .awaiting then
    .error (.misuse .missingValue)
  else
    match flag with
    | .sources =>
      match attached? with
      | some path => .ok (reading.addPath path .closed)
      | none => .ok ⟨reading.options, .awaiting⟩
    | .trees =>
      if reading.options.printTrees then .error (.misuse .repeatedOption)
      else .ok ⟨⟨reading.options.paths, true⟩, .closed⟩
    | .help => .error .help
    | .version => .error .version

/-- Reads the text behind two dashes: a long name, and a value if an equals sign follows it. -/
def long (reading : Reading) (text : List Char) : Except Stop Reading :=
  let attached? :=
    match text.dropWhile (· ≠ '=') with
    | [] => none
    | _ :: attached => some (String.ofList attached)
  match Flag.ofLong? (String.ofList (text.takeWhile (· ≠ '='))) with
  | none => .error (.misuse .unknownArgument)
  | some flag =>
    if attached?.isSome && flag ≠ .sources then .error (.misuse .unexpectedValue)
    else reading.flag flag attached?

/-- The value attached to a short name: all the text behind it, less one equals sign in front. -/
def attachedToShort? : List Char → Option String
  | [] => none
  | '=' :: text => some (String.ofList text)
  | text => some (String.ofList text)

/-- Reads the short names behind one dash. The text behind the option for source files is its
value. -/
def short (reading : Reading) : List Char → Except Stop Reading
  | [] => .ok reading
  | name :: rest =>
    match Flag.ofShort? name with
    | none => .error (.misuse .unknownArgument)
    | some .sources => reading.flag .sources (attachedToShort? rest)
    | some flag =>
      match reading.flag flag none with
      | .ok reading => reading.short rest
      | .error stop => .error stop

/-- Reads one argument. Two dashes alone may only be the last one. -/
def argument (reading : Reading) (isLast : Bool) (argument : String) : Except Stop Reading :=
  match argument.toList with
  | ['-', '-'] => if isLast then .ok reading else .error (.misuse .unknownArgument)
  | '-' :: '-' :: text => reading.long text
  | '-' :: name :: text => reading.short (name :: text)
  | _ => reading.value argument

/-- Reads the arguments that are left. -/
def arguments (reading : Reading) : List String → Except Stop Options
  | [] => reading.finish
  | argument :: rest =>
    match reading.argument rest.isEmpty argument with
    | .ok reading => reading.arguments rest
    | .error stop => .error stop

end Reading

/-- The options that the arguments of a command line ask for. -/
def parse (arguments : List String) : Except Stop Options :=
  Reading.start.arguments arguments

end Options

end LambdaSyntax
