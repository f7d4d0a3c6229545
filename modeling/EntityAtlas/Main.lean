import EntityAtlas.CommandLine.Session
import EntityAtlas.Store.Changes
import EntityAtlas.Store.Write
import Std.Time.Format
import Std.Time.Zoned

/-!
# The program

The program loads the source directory and the output directory into a store, lets a session work on the store, carries
out what the session has changed, and prints its report.
-/

namespace EntityAtlas.Program

/-- Load the entry at a path of the file system, and the targets of the links in it. A link that leads to nothing is
left out. -/
partial def load (path : String) : IO (Option Entry × List String) := do
  let place := (← IO.currentDir) / path
  let .ok found ← place.symlinkMetadata.toBaseIO | return (none, [])
  match found.type with
  | .file => return (some (.file (← IO.FS.readBinFile place).toList), [])
  | .symlink =>
    if ← place.pathExists then
      let target := (← IO.FS.realPath place).toString
      return (some (.link target), [target])
    else return (none, [])
  | .dir =>
    let mut entries := []
    let mut targets := []
    for e in ← place.readDir do
      let (entry, more) ← load e.path.toString
      entries := entries ++ (entry.map fun loaded => (e.fileName, loaded)).toList
      targets := targets ++ more
    return (some (.dir entries), targets)
  | .other => return (none, [])

/-- The path with each `..` taken together with the component before it. -/
def settled (p : Path) : Path :=
  .ofParts p.anchor (p.parts.foldl (fun above name => if name == ".." then above.dropLast else above ++ [name]) [])

/-- Load the directories that hold a path, without what else is in them. -/
def loadWay (s : Store) (p : Path) : IO Store := do
  let mut s := s
  for n in List.range p.parts.length do
    let outer := Path.ofParts p.anchor (p.parts.take n)
    if (← ((← IO.currentDir) / outer.text).isDir) && !(s.isDirectory outer matches .ok true) then
      s := s.place (settled outer) (.dir [])
  return s

/-- Load what stands at absolute paths, and what links among it lead to. -/
partial def loadAll (s : Store) (loaded : List Path) : List Path → IO Store
  | [] => return s
  | p :: rest => do
    if loaded.any fun base => base.isWithin (settled p) then loadAll s loaded rest
    else
      let s ← loadWay s p
      let place := (← IO.currentDir) / p.text
      let text ← if ← place.pathExists then pure (← IO.FS.realPath place).toString else pure p.text
      match ← load text with
      | (none, _) => loadAll s loaded rest
      | (some e, targets) =>
        loadAll (s.place (settled p) e) (settled p :: loaded) (targets.map Path.ofString ++ rest)

/-- The store that a session with given words works on. -/
def storeFor (words : List String) : IO Store := do
  let cwd := Path.ofString (← IO.currentDir).toString
  let empty := Store.fresh cwd.parts
  match CommandLine.Arguments.ofWords words with
  | .error _ => return empty
  | .ok a => loadAll empty [] [cwd.append a.settings.sourceRoot, cwd.append a.settings.outputDirectory]

def carryOut : Change → IO Unit
  | .directory loc => IO.FS.createDirAll (Path.ofParts .root loc).text
  | .file loc content => IO.FS.writeBinFile (Path.ofParts .root loc).text ⟨content.toArray⟩

end EntityAtlas.Program

open EntityAtlas in
/-- Run the program with the words of its command line. -/
def main (words : List String) : IO UInt32 := do
  let before ← Program.storeFor words
  let date := (← Std.Time.PlainDate.now).toLeanDateString
  let ended := (CommandLine.session words date before).value
  (Store.changes before ended.store).forM Program.carryOut
  IO.print ended.report.output
  IO.eprint ended.report.errors
  return ended.report.code.toUInt32
