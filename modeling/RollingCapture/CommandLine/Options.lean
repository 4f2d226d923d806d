import RollingCapture.Settings
import RollingCapture.Text.Size

/-! The options of the command line. -/
namespace RollingCapture.CommandLine

inductive Opt where
  | interface | writefile | filesize | filetime | maxfiles | compress | gmt | bpf | bpfFile
  | monitor | noPromisc | readfile | user | list | echo | version | snaplen | noStatus | verbose
  deriving DecidableEq, Repr

namespace Opt

def all : List Opt :=
  [interface, writefile, filesize, filetime, maxfiles, compress, gmt, bpf, bpfFile, monitor,
    noPromisc, readfile, user, list, echo, version, snaplen, noStatus, verbose]

def long : Opt → String
  | interface => "interface"
  | writefile => "writefile"
  | filesize => "filesize"
  | filetime => "filetime"
  | maxfiles => "maxfiles"
  | compress => "compress"
  | gmt => "gmt"
  | bpf => "bpf"
  | bpfFile => "bpf-file"
  | monitor => "monitor-mode"
  | noPromisc => "no-promiscuous-mode"
  | readfile => "readfile"
  | user => "relinquish-privileges"
  | list => "list-interfaces"
  | echo => "echo"
  | version => "version"
  | snaplen => "snaplen"
  | noStatus => "no-status"
  | verbose => "verbose"

def short? : Opt → Option Char
  | interface => some 'i'
  | writefile => some 'w'
  | filesize => some 'C'
  | filetime => some 'G'
  | maxfiles => some 'W'
  | compress => some 'z'
  | bpfFile => some 'F'
  | monitor => some 'I'
  | noPromisc => some 'p'
  | readfile => some 'r'
  | user => some 'Z'
  | list => some 'D'
  | snaplen => some 's'
  | verbose => some 'v'
  | gmt | bpf | echo | version | noStatus => none

def takesValue : Opt → Bool
  | interface | writefile | filesize | filetime | maxfiles | bpf | bpfFile | readfile | user
  | snaplen => true
  | _ => false

def repeats : Opt → Bool
  | readfile | verbose => true
  | _ => false

def ofLong? (name : String) : Option Opt := all.find? (·.long = name)

def ofShort? (letter : Char) : Option Opt := all.find? (·.short? = some letter)

end Opt

/-- An option as it was given; switches have an empty value. -/
abbrev Given := Opt × String

/-- Whether an argument cannot be the value of the option before it. -/
def looksLikeOption (arg : String) : Bool := arg.startsWith "-" && arg ≠ "-"

/-- Switches in one argument, and the option that ends it and wants a value: after it in the same
argument, perhaps behind an equals sign, or in the next one. -/
def cluster : List Char → Option (List Given × Option (Opt × Option String))
  | [] => some ([], none)
  | letter :: rest => do
    let o ← Opt.ofShort? letter
    if o.takesValue then
      return ([], some (o, match rest with
        | [] => none
        | '=' :: value => some (String.ofList value)
        | value => some (String.ofList value)))
    else
      let (switches, last) ← cluster rest
      return ((o, "") :: switches, last)

def longOption (text : List Char) : Option (List Given × Option (Opt × Option String)) := do
  let name := text.takeWhile (· ≠ '=')
  let o ← Opt.ofLong? (String.ofList name)
  match o.takesValue, text.drop name.length with
  | true, [] => return ([], some (o, none))
  | true, _ :: value => return ([], some (o, some (String.ofList value)))
  | false, [] => return ([(o, "")], none)
  | false, _ => none

def optionsOf (arg : String) : Option (List Given × Option (Opt × Option String)) :=
  match arg.toList with
  | '-' :: '-' :: text => longOption text
  | '-' :: letter :: letters => cluster (letter :: letters)
  | _ => none

/-- The options of all arguments, in order. Nothing but options is understood; two dashes may end
them. -/
def given : List String → Option (List Given)
  | [] => some []
  | arg :: rest =>
    if arg = "--" then (if rest.isEmpty then some [] else none)
    else
      match optionsOf arg with
      | none => none
      | some (switches, none) => (given rest).map (switches ++ ·)
      | some (switches, some (o, some value)) =>
        (given rest).map (switches ++ (o, value) :: ·)
      | some (switches, some (o, none)) =>
        match rest with
        | [] => none
        | value :: rest =>
          if looksLikeOption value then none
          else (given rest).map (switches ++ (o, value) :: ·)

def int32? (text : String) : Option Int32 := do
  let (negative, digits) := match text.toList with
    | '-' :: '+' :: _ => (true, [])
    | '-' :: rest => (true, rest)
    | rest => (false, rest)
  let n ← Text.Size.number? 10 digits
  let n : Int := if negative then -n else n
  if -2147483648 ≤ n ∧ n < 2147483648 then some (Int32.ofInt n) else none

def path? (text : String) : Option String := if text = "" then none else some text

structure Options where
  /-- The settings of a run. Without an output pattern theirs is empty. -/
  settings : Settings := { pattern := "" }
  /-- Whether an output pattern was given. -/
  writes : Bool := false
  list : Bool := false
  echo : Bool := false
  version : Bool := false
  noStatus : Bool := false
  verbosity : Nat := 0
  deriving Repr

namespace Options

/-- Takes one option in. A value that is none of its kind is refused. -/
def take (o : Options) : Given → Option Options
  | (.interface, value) => some { o with settings := { o.settings with interface := some value } }
  | (.writefile, value) =>
    some { o with settings := { o.settings with pattern := value }, writes := true }
  | (.filesize, value) => (Settings.size value).toOption.map fun n =>
    { o with settings := { o.settings with maxBytes := n } }
  | (.filetime, value) => (Text.Size.number? 10 value.toList).map fun n =>
    { o with settings := { o.settings with period := n } }
  | (.maxfiles, value) => (Text.Size.number? 10 value.toList).map fun n =>
    { o with settings := { o.settings with maxFiles := n } }
  | (.compress, _) => some { o with settings := { o.settings with compress := true } }
  | (.gmt, _) => some { o with settings := { o.settings with calendar := .utc } }
  | (.bpf, value) => some { o with settings := { o.settings with filter := some value } }
  | (.bpfFile, value) => (path? value).map fun path =>
    { o with settings := { o.settings with filterFile := some path } }
  | (.monitor, _) => some { o with settings := { o.settings with monitor := true } }
  | (.noPromisc, _) => some { o with settings := { o.settings with promisc := false } }
  | (.readfile, value) => (path? value).map fun path =>
    { o with settings := { o.settings with inputs := o.settings.inputs ++ [path] } }
  | (.user, value) => some { o with settings := { o.settings with user := some value } }
  | (.list, _) => some { o with list := true }
  | (.echo, _) => some { o with echo := true }
  | (.version, _) => some { o with version := true }
  | (.snaplen, value) => (int32? value).map fun n =>
    { o with settings := { o.settings with snaplen := n } }
  | (.noStatus, _) => some { o with noStatus := true }
  | (.verbose, _) => some { o with verbosity := o.verbosity + 1 }

def repeated (options : List Given) : Bool :=
  Opt.all.any fun o => !o.repeats && 1 < options.countP (·.1 = o)

def parse (args : List String) : Option Options := do
  let options ← given args
  if repeated options then none
  options.foldlM take {}

end Options

end RollingCapture.CommandLine
