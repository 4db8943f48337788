import Stencil.Command.Run

/-!
# The command line

The files that the arguments name are read, the command is run on them, and what it has left behind is
written back.
-/

namespace Stencil

open Files (Disk)

def Text.toBytes (t : Text) : ByteArray := ⟨t.toArray⟩

/-- Why a file could not be opened or read. -/
def troubleOf : IO.Error → Files.Action × Files.Trouble
  | .noFileOrDirectory .. => (.open, .notFound)
  | .permissionDenied .. => (.open, .denied)
  | .inappropriateType .. => (.read, .isDirectory)
  | _ => (.open, .noDevice)

/-- The disk with the entry or the tree at a route. -/
partial def loadTree (d : Disk) (route : String) : IO Disk := do
  let place := (← IO.currentDir) / route
  let r := Text.ofString route
  let .ok metadata ← place.symlinkMetadata.toBaseIO | return d
  if metadata.type == .dir then
    let entries ← place.readDir
    let d := (d.makeDirectories r).toOption.getD d
    entries.foldlM (fun d e => loadTree d (route ++ "/" ++ e.fileName)) d
  else
    -- A pipe is not read: that would wait for someone to write to it.
    let reading : Except (Files.Action × Files.Trouble) Text ←
      if metadata.type == .other then pure (.error (.open, .noDevice))
      else
        match ← (IO.FS.readBinFile place).toBaseIO with
        | .ok content => pure (.ok content.data.toList)
        | .error e => pure (.error (troubleOf e))
    let entry : Files.Entry :=
      match metadata.type, reading with
      | .file, .ok content => .file content
      | _, _ => .special reading
    let d := (d.makeDirectories (Files.Route.parent r)).toOption.getD d
    return (d.change r fun _ => .ok entry).toOption.getD d

/-- The routes that an argument may name: itself, or the value behind a flag. -/
def routesIn (argument : String) : List String :=
  if argument.startsWith "-" then (argument.splitOn "=").drop 1 else [argument]

/-- The disk with what some arguments name. -/
def loadArguments (arguments : List String) : IO Disk := do
  let workplace := Text.ofString (toString (← IO.currentDir))
  let routes := (arguments.drop 1).flatMap routesIn
  (routes.filter (· ≠ "")).foldlM loadTree (Disk.empty workplace)

/-- Writes a file, and the directories it is in. -/
def saveFile (file : Files.Route × Text) : IO Unit := do
  IO.FS.createDirAll (Files.Route.parent file.1).toString
  IO.FS.writeBinFile file.1.toString file.2.toBytes

end Stencil

def main (arguments : List String) : IO UInt32 := do
  let before ← Stencil.loadArguments arguments
  let outcome := Stencil.Command.run before (arguments.map Stencil.Text.ofString)
  (before.newFiles outcome.disk).forM Stencil.saveFile
  (← IO.getStdout).write outcome.stdout.toBytes
  (← IO.getStderr).write outcome.stderr.toBytes
  return UInt32.ofNat outcome.code
