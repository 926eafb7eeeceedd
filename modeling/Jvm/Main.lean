/-
# Jvm.Main — the command-line program

The program reads the class files below the class path, leaves the rest to the launcher,
and writes what it reports.
-/
import Jvm.Launcher

namespace Jvm.Main

set_option autoImplicit false

/-- The characters of the bytes of a text. -/
def toBytes (text : String) : String := Text.ofBytes text.toUTF8.toList

/-- The bytes that the characters of a text stand for. -/
def ofBytes (text : String) : ByteArray := ⟨(text.toList.map fun c => c.toNat.toUInt8).toArray⟩

/-- The paths and contents of the class files in a directory, to a bounded depth below it. -/
def readFiles (path : String) : Nat → IO (List (String × List UInt8))
  | 0 => return []
  | depth + 1 => do
      let here ← IO.currentDir
      let directory := here / path
      if ! (← directory.isDir) then return []
      let entries ← directory.readDir
      let below ← entries.toList.mapM fun entry => do
        let name := path ++ "/" ++ entry.fileName
        if ← entry.path.isDir then readFiles name depth
        else if entry.fileName.endsWith ".class" then
          let content ← IO.FS.readBinFile entry.path
          return [(toBytes name, content.toList)]
        else return []
      return below.flatten

/-- The class path that a command line asks for. -/
def classpathOf (words : List String) : String :=
  match (Options.parse words).run Options.standard with
  | .ok _ options => options.classpath
  | .error _ options => options.classpath

/-- How deep packages are searched for class files. -/
def packageDepth : Nat := 32

def write (stream : IO.FS.Stream) (text : String) : IO Unit := do
  stream.write (ofBytes text)
  stream.flush

/-- The report of a violation. -/
def violationText (violation : Violation) : String :=
  "\n# A fatal error has been detected by the Tiny JVM:\n#\n#  " ++ violation.message ++ "\n#\n"

/-- The exit status after a violation, that of a program that aborts. -/
def violationStatus : UInt32 := 134

end Jvm.Main

open Jvm in
def main (words : List String) : IO UInt32 := do
  let files ← Main.readFiles (Main.classpathOf words) Main.packageDepth
  match Launcher.run (words.map Main.toBytes) (.ofList files) with
  | .ok outcome =>
      Main.write (← IO.getStdout) outcome.out
      Main.write (← IO.getStderr) outcome.err
      return outcome.status.toUInt32
  | .error violation =>
      Main.write (← IO.getStderr) (Main.violationText violation)
      return Main.violationStatus
