import CommandFile.Text.Integer
import CommandFile.Text.Literal
set_option autoImplicit false

/-!
The arguments of the command line: one source, and options anywhere around it. Short options may be
joined, long ones abbreviated as long as only one fits, and two hyphens end the options.
-/
namespace CommandFile

inductive Flag where
  | help
  | output
  | maxPasses
  | verbose
  deriving DecidableEq

namespace Flag

def takesValue : Flag → Bool
  | .output | .maxPasses => true
  | .help | .verbose => false

def label : Flag → String
  | .help => "-h/--help"
  | .output => "-o"
  | .maxPasses => "--max-passes"
  | .verbose => "-v/--verbose"

def ofLetter? : Char → Option Flag
  | 'h' => some .help
  | 'o' => some .output
  | 'v' => some .verbose
  | _ => none

def longNames : List (String × Flag) :=
  [("--help", .help), ("--max-passes", .maxPasses), ("--verbose", .verbose)]

end Flag

inductive UsageError where
  | ambiguous (text : String) (candidates : List String)
  | needlessValue (flag : Flag) (value : String)
  | missingValue (flag : Flag)
  | invalidInteger (value : String)
  | missingSource
  | unrecognized (texts : List String)
  deriving DecidableEq

def UsageError.message : UsageError → String
  | .ambiguous text candidates =>
    "ambiguous option: " ++ text ++ " could match " ++ ", ".intercalate candidates
  | .needlessValue flag value =>
    "argument " ++ flag.label ++ ": ignored explicit argument " ++ Text.literal value
  | .missingValue flag => "argument " ++ flag.label ++ ": expected one argument"
  | .invalidInteger value => "argument --max-passes: invalid int value: " ++ Text.literal value
  | .missingSource => "the following arguments are required: source"
  | .unrecognized texts => "unrecognized arguments: " ++ " ".intercalate texts

inductive Argument where
  | plain (text : String)
  | option (flag : Flag) (short : Bool) (attached : Option String)
  | unknown (text : String)
  | separator
  deriving DecidableEq

namespace Argument

/-- Whether the characters after a hyphen make it a negative number. One line feed may follow. -/
def isNumber (cs : List Char) : Bool :=
  let body := if cs.getLast? = some '\n' then cs.dropLast else cs
  match body.dropWhile Text.isDecimalDigit with
  | [] => !body.isEmpty
  | '.' :: fraction => !fraction.isEmpty && fraction.all Text.isDecimalDigit
  | _ => false

def ofHyphened (cs : List Char) : Argument :=
  if isNumber cs.tail || cs.contains ' ' then .plain (String.ofList cs)
  else .unknown (String.ofList cs)

def ofLong (cs : List Char) : Except UsageError Argument :=
  let name := cs.takeWhile (· != '=')
  let attached :=
    match cs.dropWhile (· != '=') with
    | [] => none
    | _ :: value => some (String.ofList value)
  match Flag.longNames.filter fun (long, _) => name.isPrefixOf long.toList with
  | [] => .ok (ofHyphened cs)
  | [(_, flag)] => .ok (.option flag false attached)
  | candidates => .error (.ambiguous (String.ofList cs) (candidates.map Prod.fst))

def ofShort (letter : Char) (rest : List Char) : Argument :=
  match Flag.ofLetter? letter with
  | none => ofHyphened ('-' :: letter :: rest)
  | some flag =>
    match rest with
    | [] => .option flag true none
    | '=' :: value => .option flag true (some (String.ofList value))
    | value => .option flag true (some (String.ofList value))

def ofText (text : String) : Except UsageError Argument :=
  match text.toList with
  | '-' :: '-' :: rest => ofLong ('-' :: '-' :: rest)
  | '-' :: letter :: rest => .ok (ofShort letter rest)
  | _ => .ok (.plain text)

def ofTexts : List String → Except UsageError (List Argument)
  | [] => .ok []
  | text :: rest =>
    if text = "--" then .ok (.separator :: rest.map .plain)
    else match ofText text with
      | .error e => .error e
      | .ok argument => (ofTexts rest).map (argument :: ·)

def texts (arguments : List Argument) : List String :=
  arguments.filterMap fun
    | .plain text => some text
    | .separator => some "--"
    | _ => none

end Argument

/-- The options joined in one argument: some without a value, then at most one with a value, which
may be attached or still to come. -/
structure Joined where
  switches : List Flag
  valued : Option (Flag × Option String)
  deriving DecidableEq

namespace Joined

def ofLetters (flag : Flag) : List Char → Except UsageError Joined
  | [] => .ok (if flag.takesValue then ⟨[], some (flag, none)⟩ else ⟨[flag], none⟩)
  | letter :: rest =>
    if flag.takesValue then .ok ⟨[], some (flag, some (String.ofList (letter :: rest)))⟩
    else match Flag.ofLetter? letter with
      | some next => (ofLetters next rest).map fun j => { j with switches := flag :: j.switches }
      | none => .error (.needlessValue flag (String.ofList (letter :: rest)))

/-- An option with what is attached to it. Letters may be attached to a short option without a
value, but not the empty text. -/
def ofFlag (flag : Flag) (short : Bool) : Option String → Except UsageError Joined
  | none => ofLetters flag []
  | some value =>
    if flag.takesValue then .ok ⟨[], some (flag, some value)⟩
    else if short && value != "" then ofLetters flag value.toList
    else .error (.needlessValue flag value)

end Joined

inductive CapOption where
  | absent
  | withoutValue
  | number (n : Int)
  deriving DecidableEq

structure Settings where
  source : Option String
  output : Option String
  maxPasses : CapOption
  verbose : Bool
  leftOver : List String
  deriving DecidableEq

namespace Settings

def empty : Settings := ⟨none, none, .absent, false, []⟩

/-- Sets what an option stands for. An option without a value undoes what was set before. -/
def set (s : Settings) : Flag → Option String → Except UsageError Settings
  | .output, value => .ok { s with output := value }
  | .maxPasses, none => .ok { s with maxPasses := .withoutValue }
  | .maxPasses, some value =>
    match Text.integer? value with
    | some n => .ok { s with maxPasses := .number n }
    | none => .error (.invalidInteger value)
  | _, _ => .ok s

def switchOn (s : Settings) (switches : List Flag) : Settings :=
  { s with verbose := s.verbose || switches.contains .verbose }

def leave (s : Settings) (texts : List String) : Settings :=
  { s with leftOver := s.leftOver ++ texts }

def readSeparated (s : Settings) (rest : List Argument) : Settings :=
  match s.source, rest with
  | none, .plain text :: rest => { s with source := some text }.leave (Argument.texts rest)
  | _, rest => s.leave ("--" :: Argument.texts rest)

/-- What an argument with options comes to: help, or other settings, for which the next argument
may have been taken as a value. -/
inductive Effect where
  | help
  | settings (s : Settings) (tookNext : Bool)

/-- The value that is attached to an option. Two hyphens are none. -/
def attachedValue (value : String) : Option String := if value = "--" then none else some value

/-- Applies the options of one argument, where `next` is the argument behind it. A value that is
missing is noticed before any of the options is applied. -/
def apply (s : Settings) (j : Joined) (next : Option Argument) : Except UsageError Effect :=
  let setValue (flag : Flag) (value : Option String) (tookNext : Bool) : Except UsageError Effect :=
    if j.switches.contains .help then .ok .help
    else ((s.switchOn j.switches).set flag value).map (Effect.settings · tookNext)
  match j.valued with
  | none =>
    .ok (if j.switches.contains .help then .help else .settings (s.switchOn j.switches) false)
  | some (flag, some value) => setValue flag (attachedValue value) false
  | some (flag, none) =>
    match next with
    | some (.plain value) => setValue flag (some value) true
    | _ => .error (.missingValue flag)

/-- Reads the arguments in order. There are no settings if help is asked for, which no argument
after it can change. A separator right behind the source belongs to it. -/
def read (s : Settings) : List Argument → Except UsageError (Option Settings)
  | [] => .ok (some s)
  | .plain text :: rest =>
    match s.source, rest with
    | none, .separator :: others =>
      .ok (some ({ s with source := some text }.leave (Argument.texts others)))
    | none, _ => read { s with source := some text } rest
    | some _, _ => read (s.leave [text]) rest
  | .unknown text :: rest => read (s.leave [text]) rest
  | .separator :: rest => .ok (some (s.readSeparated rest))
  | .option flag short attached :: rest =>
    match Joined.ofFlag flag short attached with
    | .error e => .error e
    | .ok j =>
      match s.apply j rest.head? with
      | .error e => .error e
      | .ok .help => .ok none
      | .ok (.settings s false) => read s rest
      | .ok (.settings s true) =>
        match rest with
        | [] => .ok (some s)
        | _ :: others => read s others

end Settings

inductive Request where
  | help
  | capWithoutValue
  | expand (source : String) (output : Option String) (maxPasses : Option Int) (verbose : Bool)
  deriving DecidableEq

/-- A missing source is noticed before an argument left over. -/
def Request.ofArguments (texts : List String) : Except UsageError Request :=
  match Argument.ofTexts texts with
  | .error e => .error e
  | .ok arguments =>
    match Settings.empty.read arguments with
    | .error e => .error e
    | .ok none => .ok .help
    | .ok (some s) =>
      match s.source with
      | none => .error .missingSource
      | some source =>
        if s.leftOver.isEmpty then
          match s.maxPasses with
          | .absent => .ok (.expand source s.output none s.verbose)
          | .number n => .ok (.expand source s.output (some n) s.verbose)
          | .withoutValue => .ok .capWithoutValue
        else .error (.unrecognized s.leftOver)

end CommandFile
