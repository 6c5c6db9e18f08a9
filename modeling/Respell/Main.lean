import Respell.Command.Run

namespace Respell.Command

def absolute (path : Path) : String := "/" ++ String.intercalate "/" path

/-- The paths that a walk along a path name comes through, the last one first. -/
def waypoints (tree : FileTree) (path : String) : List Path :=
  (FileTree.names path).foldl (fun visited name =>
    let here := visited.headD []
    if name = "" ∨ name = "." then visited
    else if name = ".." then here.dropLast :: visited
    else (here ++ [name]) :: visited) [tree.origin path]

/-- Adds to a tree what the disk has at a path. -/
def visit (tree : FileTree) (path : Path) : IO FileTree := do
  try
    let place ← IO.FS.realPath (absolute path)
    if ← place.isDir then return { tree with directories := path :: tree.directories }
    else if ← place.pathExists then
      return tree.put path (← IO.FS.readBinFile place).toList
    else return tree
  catch _ => return tree

/-- The path names in the arguments whose files a run may look at. -/
def Options.pathNames (options : Options) : List String :=
  [options.config, options.output, options.input.filter (· ≠ "-")].filterMap id

def Options.readsInput (options : Options) : Bool :=
  options.suggest.isNone && (options.interactive || options.input == some "-")

partial def readAll (stream : IO.FS.Stream) : IO (List UInt8) := do
  let bytes ← stream.read 65536
  if bytes.isEmpty then return []
  else return bytes.toList ++ (← readAll stream)

/-- The settings file in the user's directory for such files. -/
def findUserConfig : IO (Option String) := do
  let home := (← IO.getEnv "HOME").map (· ++ "/.config")
  let directory := ((← IO.getEnv "XDG_CONFIG_HOME").filter (·.startsWith "/")).or home
  return directory.map (· ++ "/typofix/typofix.toml")

/-- All that a run with some arguments depends on. -/
def gather (arguments : List String) : IO Session := do
  let userConfig ← findUserConfig
  let cacheSize ← IO.getEnv "TYPOFIX_RANK_CACHE_SIZE"
  let working := (← IO.currentDir).components.filter (· ≠ "")
  let options := match readArguments arguments {} with
    | .ok (.work options) => options
    | _ => {}
  let start : FileTree := { working }
  let places := (options.pathNames ++ userConfig.toList).flatMap (waypoints start)
  let files ← places.foldlM visit start
  let input ← if options.readsInput then readAll (← IO.getStdin) else pure []
  return { arguments, input, files, userConfig, cacheSize }

/-- Writes the files that a run has changed. -/
def store (before after : FileTree) : IO Unit :=
  for (path, bytes) in after.files do
    if before.files.lookup path ≠ some bytes then
      IO.FS.writeBinFile (absolute path) ⟨bytes.toArray⟩

end Respell.Command

def main (arguments : List String) : IO UInt32 := do
  let session ← Respell.Command.gather arguments
  let outcome := Respell.Command.run session
  IO.print outcome.output
  IO.eprint outcome.report
  try
    Respell.Command.store session.files outcome.files
    return outcome.code.toUInt32
  catch fault =>
    IO.eprintln ("Error: " ++ toString fault)
    return 1
