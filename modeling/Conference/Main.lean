import Conference.CommandLine
import Std.Time.DateTime.Timestamp

/-! The program: the command line, carried out with the files and the clock of the machine. -/
namespace Conference

namespace Machine

/-- The text shown for a failed input or output operation. -/
def errorText : IO.Error → String
  | .alreadyExists _ code details | .otherError code details | .resourceBusy code details
  | .resourceVanished code details | .unsupportedOperation code details
  | .hardwareFault code details | .unsatisfiedConstraints code details
  | .illegalOperation code details | .protocolError code details | .timeExpired code details
  | .interrupted _ code details | .noFileOrDirectory _ code details
  | .invalidArgument _ code details | .permissionDenied _ code details
  | .resourceExhausted _ code details | .inappropriateType _ code details
  | .noSuchThing _ code details => s!"{details} (os error {code})"
  | .unexpectedEof => "end of file"
  | .userError text => text

/-- Makes the directories that a file lies in. -/
def makeParents (path : Path) : IO Unit :=
  match path.parent? with
  | none => return ()
  | some parent => IO.FS.createDirAll parent.text

def host : Host IO where
  now := do
    let now ← Std.Time.Timestamp.now
    return now.toNanosecondsSinceUnixEpoch.val.toNat
  read path := do
    try return some (← IO.FS.readBinFile path)
    catch _ => return none
  save path content := do
    try
      makeParents (Path.ofText path)
      IO.FS.writeBinFile path content
      return none
    catch e => return some (.other (errorText e))

end Machine

end Conference

open Conference in
def main (words : List String) : IO UInt32 := do
  let ending ← CommandLine.execute Machine.host (fun _ => Veil.none) words
  IO.print ending.out
  IO.eprint ending.err
  return ending.code.toUInt32
