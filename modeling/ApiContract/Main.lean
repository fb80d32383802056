import ApiContract.Command.Run

namespace ApiContract

def errorNumber (code : UInt32) : Nat :=
  -- some errors carry their number negated
  if code < 0x80000000 then code.toNat else (0 - code).toNat

def ioError (path : String) : IO.Error → FileError
  | .noFileOrDirectory .. => .notFound
  | .noSuchThing .. => .notFound
  | .inappropriateType _ code _ => if errorNumber code = 20 then .notDirectory else .isDirectory
  | .invalidArgument _ code message =>
    if path.toList.contains '\x00' then .zeroByte
    else if errorNumber code = 36 then .nameTooLong
    else .other message
  | .permissionDenied .. => .other "Permission denied (os error 13)"
  | e => .other (toString e)

instance : FileAccess IO where
  read path := do
    match ← (IO.FS.readBinFile path).toBaseIO with
    | .error e => return .error (ioError path e)
    | .ok bytes =>
      match String.fromUTF8? bytes with
      | some text => return .ok text
      | none => return .error .notText
  write path text := do
    match ← (IO.FS.writeFile path text).toBaseIO with
    | .error e => return .error (ioError path e)
    | .ok () => return .ok ()

end ApiContract

def main (args : List String) : IO UInt32 := do
  match ApiContract.Arguments.parse args with
  | .version =>
    IO.print ApiContract.versionText
    return 0
  | .usageError =>
    IO.eprintln "usage: frapi [-v] [--config FILE] validate|types|generate|params ..."
    return 2
  | .run invocation =>
    let report : ApiContract.Report ← invocation.run
    report.log.forM fun e => IO.eprintln e.line
    IO.print report.stdout
    return report.exit.toUInt32
