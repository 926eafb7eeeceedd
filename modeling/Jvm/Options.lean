/-
# Jvm.Options — command-line options

Options are read one after another and each is stored as soon as it is read, so the
options before a faulty one keep their effect. The first word that is not an option
names the main class and ends the list. A heap size that does not parse is stored as
zero before it is refused.
-/
import Jvm.Options.Numeral

namespace Jvm

set_option autoImplicit false

structure Options where
  classpath : String
  mainClass : Option String
  /-- The size in bytes of the heap of each thread. -/
  heapSize : UInt64
  /-- The greatest number of frames of a thread. -/
  maxDepth : Int
  showVersion : Bool
  showHelp : Bool
  traceBytecodes : Bool
  traceLoading : Bool
  traceInitialization : Bool
  deriving DecidableEq, Repr

inductive OptionError where
  | unknownFlag (name : String)
  | badFlagValue (flag : String)
  | missingClasspath (option : String)
  | badHeapSize (option : String)
  | unknownOption (option : String)
  | noMainClass
  deriving DecidableEq, Repr

def OptionError.message : OptionError → String
  | .unknownFlag name => s!"Unrecognized VM option '{name}'"
  | .badFlagValue flag => s!"Improperly specified VM option '{flag}'"
  | .missingClasspath option => s!"Error: {option} requires class path specification"
  | .badHeapSize option => s!"Invalid maximum heap size: {option}"
  | .unknownOption option => s!"Unrecognized option: {option}"
  | .noMainClass => "Error: no main class specified"

namespace Options

def standard : Options where
  classpath := "."
  mainClass := none
  heapSize := 8388608
  maxDepth := 1024
  showVersion := false
  showHelp := false
  traceBytecodes := false
  traceLoading := false
  traceInitialization := false

/-- The factor that a size suffix stands for, and what follows the suffix. -/
def sizeUnit : List Char → UInt64 × List Char
  | [] => (1, [])
  | c :: rest =>
      if c = 'k' ∨ c = 'K' then (1024, rest)
      else if c = 'm' ∨ c = 'M' then (1048576, rest)
      else if c = 'g' ∨ c = 'G' then (1073741824, rest)
      else (1, c :: rest)

/-- A size in bytes, zero for a text that is not a size. -/
def parseSize (text : String) : UInt64 :=
  match Numeral.read? text.toList with
  | none => 0
  | some numeral =>
      let (unit, rest) := sizeUnit numeral.rest
      if rest.isEmpty then numeral.word * unit else 0

def greatestDepth : Nat := 2147483647

/-- A call depth, which must be positive. -/
def parseDepth? (text : List Char) : Option Nat :=
  match Numeral.read? text with
  | none => none
  | some numeral =>
      if numeral.rest.isEmpty ∧ 1 ≤ numeral.value ∧ numeral.value ≤ greatestDepth then
        some numeral.magnitude
      else none

/-- What follows a given start of a text. -/
def after? (start : String) (text : List Char) : Option (List Char) :=
  if start.toList.isPrefixOf text then some (text.drop start.length) else none

/-- An action that changes the options and may refuse one. -/
abbrev Parsing := EStateM OptionError Options

def setSwitch (name : String) (on : Bool) : Parsing Unit := do
  match name with
  | "TraceBytecodes" => modify ({ · with traceBytecodes := on })
  | "TraceClassLoading" => modify ({ · with traceLoading := on })
  | "TraceClassInitialization" => modify ({ · with traceInitialization := on })
  | _ => throw (.unknownFlag name)

/-- A flag of the machine, after `-XX:`. -/
def parseFlag (flag : List Char) : Parsing Unit := do
  match flag with
  | '+' :: name => setSwitch (String.ofList name) true
  | '-' :: name => setSwitch (String.ofList name) false
  | _ =>
      match after? "MaxJavaStackDepth=" flag with
      | none => throw (.unknownFlag (String.ofList flag))
      | some value =>
          match parseDepth? value with
          | none => throw (.badFlagValue (String.ofList flag))
          | some depth => modify ({ · with maxDepth := depth })

def parseHeapSize (option : String) (value : List Char) : Parsing Unit := do
  let size := parseSize (String.ofList value)
  modify ({ · with heapSize := size })
  if size = 0 then throw (.badHeapSize option)

/-- An option that is complete in one word. -/
def parseWord (option : String) : Parsing Unit := do
  match after? "-Xmx" option.toList, after? "-XX:" option.toList with
  | some value, _ => parseHeapSize option value
  | none, some flag => parseFlag flag
  | none, none =>
      match option with
      | "-verbose:class" => modify ({ · with traceLoading := true })
      | "-version" => modify ({ · with showVersion := true })
      | "-help" | "-h" | "-?" => modify ({ · with showHelp := true })
      | _ => throw (.unknownOption option)

def isClasspathOption (option : String) : Bool := option == "-cp" || option == "-classpath"

/-- The words of a command line, after the name of the program. -/
def parse : List String → Parsing Unit
  | [] => do
      let options ← get
      if ¬ options.showVersion ∧ ¬ options.showHelp ∧ options.mainClass.isNone then
        throw .noMainClass
  | [word] =>
      if ! word.startsWith "-" then modify ({ · with mainClass := some word })
      else if isClasspathOption word then throw (.missingClasspath word)
      else do
        parseWord word
        parse []
  | word :: next :: rest =>
      if ! word.startsWith "-" then modify ({ · with mainClass := some word })
      else if isClasspathOption word then do
        modify ({ · with classpath := next })
        parse rest
      else do
        parseWord word
        parse (next :: rest)

def usage : List String :=
  ["Usage: tiny_jvm [options] <mainclass>",
    "",
    "Options:",
    "  -cp <path>, -classpath <path>",
    "                    directory to search for class files (default: .)",
    "  -Xmx<size>        heap size per run, e.g. 8m, 512k (default: 8m)",
    "  -XX:MaxJavaStackDepth=<n>",
    "                    maximum Java call depth (default: 1024)",
    "  -XX:+TraceBytecodes",
    "                    print every executed bytecode",
    "  -XX:+TraceClassLoading, -verbose:class",
    "                    print loaded and defined classes",
    "  -XX:+TraceClassInitialization",
    "                    print class initialization",
    "  -version          print version and exit",
    "  -help             print this message",
    "",
    "Examples:",
    "  tiny_jvm -cp classes HelloWorld",
    "  tiny_jvm -XX:+TraceBytecodes -cp . com/example/Main"]

def versionText : List String :=
  ["tiny_jvm version \"1.0\"", "Tiny JVM (bytecode interpreter, class file versions 45-65)"]

end Options

end Jvm
