/-
# Jvm.Launcher — running a program from a command line

The launcher reads the options, finds the main class, calls its `main` method and reports
what came of it: an exit status and the two texts to write. Faults are part of that report;
a violation is not, it ends the program without one.
-/
import Jvm.Machine.Call
import Jvm.Machine.Start

namespace Jvm

set_option autoImplicit false

structure Outcome where
  status : Nat
  out : String
  err : String
  deriving DecidableEq, Repr

namespace Launcher

/-- The number of instructions after which a run is given up. -/
def stepLimit : Nat := 4611686018427387904

/-- Class names may be written with points. -/
def internalName (name : String) : String := name.map fun c => if c = '.' then '/' else c

/-- Run an action; what is to be reported if it fails, after an introduction. -/
def reporting {α : Type} (introduction : String) (action : Exec α) :
    Exec (Except String α) := fun machine =>
  match action machine with
  | .ok v machine => .ok (.ok v) machine
  | .error (.fault fault) machine =>
      .ok (.error (introduction ++ s!"Exception in thread \"{machine.thread.name}\" " ++
        fault.render)) machine
  | .error .outOfFuel machine => .ok (.error (introduction ++ "step limit reached\n")) machine
  | .error (.violation violation) machine => .error (.violation violation) machine

/-- The `main` method of a class with its arguments; it takes no argument or one that is
always null. -/
def mainMethod? (c : LinkedClass) : Option (Method × List Value) :=
  let found :=
    match c.method? "main" "([Ljava/lang/String;)V" with
    | some method => some (method, [Value.null])
    | none => (c.method? "main" "()V").map fun method => (method, [])
  found.filter (·.1.isStatic)

def mainMissing (name : String) : String :=
  Text.lines
    [s!"Error: Main method not found in class {name}, please define as:",
      "   public static void main(String[] args)"]

def loadFailure (name : String) : String := s!"Error: Could not find or load main class {name}\n"

/-- Run a program; the report if it does not end well. -/
def runMain (name : String) : Exec (Option String) := do
  match ← reporting (loadFailure name) (Loading.resolve name) with
  | .error report => return some report
  | .ok c =>
      match mainMethod? c with
      | none => return some (mainMissing name)
      | some (method, arguments) =>
          match ← reporting "" (Call.run stepLimit method arguments) with
          | .error report => return some report
          | .ok _ => return none

/-- What is seen of a program that has ended. -/
def outcome (report : Option String) (machine : Machine) : Outcome where
  status := if report.isSome then 1 else 0
  out := machine.thread.printed
  err := machine.logged ++ report.getD ""

/-- Run the main class on a new machine. -/
def launch (options : Options) (name : String) (files : Files) : Except Violation Outcome :=
  match Machine.start options files with
  | .error violation => .error violation
  | .ok machine =>
      match (runMain (internalName name)).run machine with
      | .ok report machine => .ok (outcome report machine)
      | .error (.violation violation) _ => .error violation
      | .error (.fault fault) machine => .ok (outcome (some fault.render) machine)
      | .error .outOfFuel machine => .ok (outcome (some "") machine)

def usageText : String := Text.lines Options.usage

/-- What a command line asks for, with the files that classes can be read from. -/
def run (words : List String) (files : Files) : Except Violation Outcome :=
  match (Options.parse words).run Options.standard with
  | .error error _ => .ok ⟨1, "", error.message ++ "\n" ++ usageText⟩
  | .ok _ options =>
      if options.showHelp then .ok ⟨0, usageText, ""⟩
      else if options.showVersion then .ok ⟨0, Text.lines Options.versionText, ""⟩
      else
        match options.mainClass with
        | none => .ok ⟨1, "", usageText⟩
        | some name => launch options name files

end Launcher

end Jvm
