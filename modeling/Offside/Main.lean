import Offside.CommandLine

/-!
# The program

`offside FILE [--tokens] [--ast] [--timings]`
-/

open Offside

def usage : String := "usage: offside FILE [--tokens] [--ast] [--timings]"

/-- The file and the options that the arguments name, if they name one file and no unknown option. -/
def readArguments (args : List String) : Option (String × CommandLine.Options) :=
  let (flags, files) := args.partition fun a => "--".isPrefixOf a
  let known := ["--tokens", "--ast", "--timings"]
  match files, flags.all known.contains with
  | [file], true =>
    some (file, ⟨flags.contains "--tokens", flags.contains "--ast", flags.contains "--timings"⟩)
  | _, _ => none

def milliseconds (nanos : Nat) : String :=
  let micros := toString (nanos / 1000 % 1000)
  toString (nanos / 1000000) ++ "." ++ "".pushn '0' (3 - micros.length) ++ micros ++ "ms"

def main (args : List String) : IO UInt32 := do
  let some (path, options) := readArguments args
    | IO.eprintln usage
      return 2
  let source ←
    try IO.FS.readFile path
    catch e =>
      IO.eprintln ("Failed to read " ++ path ++ ": " ++ toString e)
      return 1
  let file := ((path.splitOn "/").getLast?).getD path
  let start ← IO.monoNanosNow
  let tokens ← IO.lazyPure fun _ => tokenize source file
  let tokenized ← IO.monoNanosNow
  let tree ← IO.lazyPure fun _ => tokens >>= parse
  let parsed ← IO.monoNanosNow
  let durations : CommandLine.Durations :=
    ⟨milliseconds (tokenized - start), milliseconds (parsed - tokenized),
      milliseconds (parsed - start)⟩
  let report := CommandLine.report options durations source tokens tree
  IO.print report.output
  IO.eprint report.errors
  return report.exitCode.toUInt32
