import KindLift.CommandLine

/-! The program. It reads the files below the working directory and below the paths
of the command line, executes the command line on them, and writes back the files
that have changed. -/
open KindLift

/-- Where a location is for the system. -/
def absolute (location : Location) : String := "/" ++ String.intercalate "/" location

/-- The files of a directory and of those below it, with their locations. -/
partial def readFiles (location : Location) (entries : Array IO.FS.DirEntry) :
    IO (List (Location × Content)) := do
  let mut files := []
  for entry in entries do
    let here := location ++ [entry.fileName]
    match (← entry.path.symlinkMetadata).type with
    | .dir => files := (← readFiles here (← entry.path.readDir)) ++ files
    | .file => files := (here, Content.ofBytes (← IO.FS.readBinFile entry.path).toList) :: files
    | _ => pure ()
  return files

/-- The directories of a list with what can decide about the entries below them. -/
def readIgnoreFiles (directories : List Location) : IO (List (Location × Content)) := do
  let mut files := []
  for directory in directories do
    for names in [[".ignore"], [".gitignore"], [".git"], [".git", "info", "exclude"]] do
      let here := directory ++ names
      try files := (here, Content.ofBytes (← IO.FS.readBinFile (absolute here)).toList) :: files
      catch _ => pure ()
  return files

/-- The file at a location, or the files below it, and the ignore files above it. A
location that leads nowhere has none. -/
def readPlace (location : Location) : IO (List (Location × Content)) := do
  let above ← readIgnoreFiles location.above
  try return (← readFiles location (← (← IO.FS.realPath (absolute location)).readDir)) ++ above
  catch _ =>
    try return (location, Content.ofBytes (← IO.FS.readBinFile (absolute location)).toList) :: above
    catch _ => return above

/-- The locations outside of the working directory that arguments may name. -/
def placesOutside (home : Location) (arguments : List String) : List Location :=
  let paths := arguments.flatMap fun argument => argument :: (argument.splitOn "=").drop 1
  let locations := paths.map fun path =>
    FileTree.locationOf (if path.startsWith "/" then path else absolute home ++ "/" ++ path)
  locations.filter fun location => !home.isPrefixOf location

/-- Replaces a file as a whole: the new text is complete before it takes the
place of the old one. -/
def replaceFile (location : Location) (text : String) : IO Unit := do
  IO.FS.writeFile (absolute location ++ ".new") text
  IO.FS.rename (absolute location ++ ".new") (absolute location)

/-- Writes the files whose content is another than before. -/
def writeChanges (before after : FileTree) : IO Unit :=
  after.files.entries.forM fun (location, content) =>
    match content with
    | .text text =>
      if before.files.get? location = some content then pure () else replaceFile location text
    | .raw _ => pure ()

def main (arguments : List String) : IO UInt32 := do
  let home := FileTree.locationOf (← IO.currentDir).toString
  let files ← (home :: placesOutside home arguments).mapM readPlace
  let tree : FileTree := { files := ⟨files.flatten⟩, home := home }
  let execution := CommandLine.execute arguments tree
  writeChanges tree execution.tree
  IO.print execution.output
  if let some complaint := execution.complaint then IO.eprintln complaint
  return UInt32.ofNat execution.exitCode
