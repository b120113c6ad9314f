import TopologicalOrder.Number.Literal
import TopologicalOrder.Text.Quoted

/-!
# The flags of the command

A flag has a name and possibly a letter. It is a switch, which is on when it is
given, or it takes a value: the rest of the argument, or else the next argument,
whatever that looks like. Letters can be run together after one dash as long as
they are switches. If a flag is given twice, the last one counts. What is no flag
is an operand, and so is everything after `--`.

Arguments are read from left to right, and the first one that is wrong is the
error. Only then the request as a whole is looked at.
-/

namespace TopologicalOrder.Command

/-- A flag. -/
inductive Flag
  /-- Take the graph from a list of edges. -/
  | edges
  /-- The number of vertices. -/
  | vertices
  /-- Take the graph from a document. -/
  | file
  /-- Fail on a cycle. -/
  | strict
  /-- Walk by recursion. -/
  | recursive
  /-- Say what is being done. -/
  | debug
  /-- Say how the command is used. -/
  | help
  deriving DecidableEq, Repr

namespace Flag

/-- All flags. -/
def all : List Flag := [.edges, .vertices, .file, .strict, .recursive, .debug, .help]

/-- The name of a flag. -/
def name : Flag → String
  | .edges => "edges"
  | .vertices => "vertices"
  | .file => "file"
  | .strict => "strict"
  | .recursive => "recursive"
  | .debug => "debug"
  | .help => "help"

/-- The letter of a flag. -/
def letter? : Flag → Option Char
  | .edges => some 'e'
  | .vertices => some 'n'
  | .file => some 'f'
  | .help => some 'h'
  | _ => none

/-- Whether a flag needs no value. -/
def isSwitch : Flag → Bool
  | .edges => false
  | .vertices => false
  | .file => false
  | _ => true

/-- The flag of a name. -/
def ofName? (s : String) : Option Flag := all.find? fun f => f.name == s

/-- The flag of a letter. -/
def ofLetter? (c : Char) : Option Flag := all.find? fun f => f.letter? == some c

/-- How a flag is referred to. -/
def label (f : Flag) : String :=
  match f.letter? with
  | some c => s!"-{c}, --{f.name}"
  | none => s!"--{f.name}"

end Flag

/-- **What the arguments ask for.** -/
structure Request where
  /-- The text of the list of edges, if it is given. -/
  edges : Option (List UInt8) := none
  /-- The number of vertices, if it is given. -/
  vertices : Option Int := none
  /-- The name of the document, if it is given. -/
  file : Option String := none
  /-- Whether a cycle is a failure. -/
  strict : Bool := false
  /-- Whether the graph is walked by recursion. -/
  recursive : Bool := false
  /-- Whether the steps are reported. -/
  debug : Bool := false
  /-- Whether help is asked for. -/
  help : Bool := false
  /-- The operands. -/
  operands : List String := []
  deriving DecidableEq, Repr

/-- What is wrong with the arguments. -/
inductive UsageError
  /-- Two dashes are not followed by a name. -/
  | badSyntax (arg : String)
  /-- No flag has this name. -/
  | unknownName (name : String)
  /-- No flag has the first of these letters. -/
  | unknownLetter (letters : String)
  /-- The value of a flag is missing. -/
  | missingValue (arg : String)
  /-- The value of the flag with the first of these letters is missing. -/
  | missingLetterValue (letters : String)
  /-- The value of a flag is no number. -/
  | badNumber (flag : Flag) (value : String) (fault : Number.ReadFault)
  /-- The value of a switch is neither true nor false. -/
  | badSwitch (flag : Flag) (value : String)
  /-- There are operands, of which this is the first. -/
  | operand (name : String)
  /-- Two flags exclude each other. -/
  | exclusive (a b : Flag)
  deriving DecidableEq, Repr

/-- The first letter of a group as an error shows it: the character whose number is
the first byte. -/
def showLetter (letters : String) : String :=
  Text.quoteChar (Char.ofNat ((Text.bytes letters).headD 0).toNat)

/-- The wording of what is wrong with the arguments. -/
def UsageError.message : UsageError → String
  | .badSyntax arg => s!"bad flag syntax: {arg}"
  | .unknownName name => s!"unknown flag: --{name}"
  | .unknownLetter letters => s!"unknown shorthand flag: {showLetter letters} in -{letters}"
  | .missingValue arg => s!"flag needs an argument: {arg}"
  | .missingLetterValue letters =>
    s!"flag needs an argument: {showLetter letters} in -{letters}"
  | .badNumber flag value fault =>
    s!"invalid argument {Text.quoteString value} for {Text.quoteString flag.label} flag: " ++
      s!"strconv.ParseInt: parsing {Text.quoteString value}: {fault.message}"
  | .badSwitch flag value =>
    s!"invalid argument {Text.quoteString value} for {Text.quoteString flag.label} flag: " ++
      s!"strconv.ParseBool: parsing {Text.quoteString value}: invalid syntax"
  | .operand name => s!"unknown command {Text.quoteString name} for \"toposort\""
  | .exclusive a b =>
    let names := [a.name, b.name].mergeSort fun x y => !decide (y < x)
    let given := String.intercalate " " names
    s!"if any flags in the group [{a.name} {b.name}] are set none of the others can be; " ++
      s!"[{given}] were all set"

/-! ## Single flags -/

/-- The truth value that a text stands for. -/
def readSwitch? (s : String) : Option Bool :=
  if ["1", "t", "T", "TRUE", "true", "True"].contains s then some true
  else if ["0", "f", "F", "FALSE", "false", "False"].contains s then some false
  else none

/-- Turns a switch on or off. -/
def Request.turn (r : Request) (f : Flag) (b : Bool) : Request :=
  match f with
  | .strict => { r with strict := b }
  | .recursive => { r with recursive := b }
  | .debug => { r with debug := b }
  | .help => { r with help := b }
  | _ => r

/-- Gives a value to a flag. -/
def Request.set (r : Request) (f : Flag) (value : String) : Except UsageError Request :=
  match f with
  | .edges => .ok { r with edges := some (Text.bytes value) }
  | .file => .ok { r with file := some value }
  | .vertices =>
    match Number.readLiteral (Text.bytes value) with
    | .ok n => .ok { r with vertices := some n }
    | .error fault => .error (.badNumber f value fault)
  | _ =>
    match readSwitch? value with
    | some b => .ok (r.turn f b)
    | none => .error (.badSwitch f value)

/-! ## Arguments -/

/-- What reading an argument leaves: the request, and whether the next argument was
taken as a value. -/
structure Step where
  /-- The request so far. -/
  request : Request
  /-- Whether the next argument is used up. -/
  usesNext : Bool := false

/-- Gives to a flag the next argument as its value. -/
def Request.setNext (r : Request) (f : Flag) (next : Option String) (missing : UsageError) :
    Except UsageError Step :=
  match next with
  | none => .error missing
  | some value => (r.set f value).map ({ request := ·, usesNext := true })

/-- Reads a flag that is given by its name; `body` is what follows the two dashes. -/
def Request.readName (r : Request) (arg : String) (body : List Char) (next : Option String) :
    Except UsageError Step :=
  let name := body.takeWhile (· ≠ '=')
  if name.isEmpty || name.head? = some '-' then .error (.badSyntax arg)
  else
    match Flag.ofName? (String.ofList name) with
    | none => .error (.unknownName (String.ofList name))
    | some f =>
      match body.drop name.length with
      | _ :: value => (r.set f (String.ofList value)).map ({ request := · })
      | [] =>
        if f.isSwitch then .ok { request := r.turn f true }
        else r.setNext f next (.missingValue arg)

/-- Reads flags that are given by their letters. Letters that start with `test.` are
meant for someone else. -/
def Request.readLetters (r : Request) (next : Option String) :
    List Char → Except UsageError Step
  | [] => .ok { request := r }
  | c :: rest =>
    let letters := String.ofList (c :: rest)
    if "test.".toList.isPrefixOf (c :: rest) then .ok { request := r }
    else
      match Flag.ofLetter? c with
      | none => .error (.unknownLetter letters)
      | some f =>
        match rest with
        | '=' :: d :: value => (r.set f (String.ofList (d :: value))).map ({ request := · })
        | _ =>
          if f.isSwitch then (r.turn f true).readLetters next rest
          else if rest.isEmpty then r.setNext f next (.missingLetterValue letters)
          else (r.set f (String.ofList rest)).map ({ request := · })

/-- Reads one argument. A dash alone is an operand. -/
def Request.readArgument (r : Request) (arg : String) (next : Option String) :
    Except UsageError Step :=
  match arg.toList with
  | '-' :: '-' :: body => r.readName arg body next
  | '-' :: c :: rest => r.readLetters next (c :: rest)
  | _ => .ok { request := { r with operands := r.operands ++ [arg] } }

/-- Reads arguments in turn. -/
def Request.readArguments (r : Request) : List String → Except UsageError Request
  | [] => .ok r
  | [arg] =>
    if arg = "--" then .ok r else (r.readArgument arg none).map (·.request)
  | arg :: next :: rest =>
    if arg = "--" then .ok { r with operands := r.operands ++ next :: rest }
    else
      match r.readArgument arg (some next) with
      | .error e => .error e
      | .ok s =>
        if s.usesNext then s.request.readArguments rest
        else s.request.readArguments (next :: rest)

/-- **The request of a list of arguments.** -/
def Request.ofArguments (args : List String) : Except UsageError Request :=
  Request.readArguments {} args

/-- Whether a request makes sense as a whole: it has no operands, and a document is
given neither with edges nor with a number of vertices. -/
def Request.check (r : Request) : Except UsageError Unit :=
  match r.operands with
  | name :: _ => .error (.operand name)
  | [] =>
    if r.file.isSome && r.edges.isSome then .error (.exclusive .file .edges)
    else if r.file.isSome && r.vertices.isSome then .error (.exclusive .file .vertices)
    else .ok ()

end TopologicalOrder.Command
