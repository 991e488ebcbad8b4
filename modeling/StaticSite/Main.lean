import StaticSite.Preview
import StaticSite.Site.Changes
import StaticSite.Site.Program

/-!
# The command

The names of the files around a site come on standard input, one in a line, up to an empty line;
a name that ends with a slash is that of a directory.  The program runs on these files, prints its
log and carries its changes out.  When the site is to be shown, every further line is the URL of a
request, and its answer is printed.
-/

namespace StaticSite
namespace Main

/-- A line without its end. -/
def withoutEnd (line : String) : String :=
  String.ofList (line.toList.filter fun c => c != '\n' && c != '\r')

/-- The lines of a stream up to an empty one. -/
partial def readLines (input : IO.FS.Stream) : IO (List String) := do
  let line := withoutEnd (← input.getLine)
  if line.isEmpty then pure []
  else
    let rest ← readLines input
    pure (line :: rest)

/-- The place that an absolute path names. -/
def placeNamed (path : String) : Place :=
  Path.segments ⟨path⟩ |>.filter (· != "")

/-- Files with the file or directory of a name. -/
def load (files : FileTree) (name : String) : IO FileTree := do
  if name.endsWith "/" then pure (files.withDirectory ⟨name⟩)
  else
    let content ← IO.FS.readBinFile name
    pure (files.withFile ⟨name⟩ content)

/-- Carry changes out, those of what is inside a directory before those of the directory. -/
def store (changes : Changes) : IO Unit := do
  for place in changes.removedFiles do
    IO.FS.removeFile place.toPath.text
  for place in (changes.removedDirectories.mergeSort Place.isBefore).reverse do
    IO.FS.removeDir place.toPath.text
  for place in changes.newDirectories do
    IO.FS.createDirAll place.toPath.text
  for (place, content) in changes.written do
    IO.FS.writeBinFile place.toPath.text content

/-- Print the answer to a request. -/
def showAnswer (output : IO.FS.Stream) (files : FileTree) (root : Path) (url : String) :
    IO Unit := do
  match Preview.respond files root url with
  | .error fault => output.putStrLn fault.message
  | .ok response =>
      output.putStrLn (toString response.status ++ " " ++ response.contentType)
      output.write response.body
      output.putStrLn ""
  output.flush

/-- Answer requests up to an empty line. -/
partial def showSite (input output : IO.FS.Stream) (files : FileTree) (root : Path) : IO Unit := do
  let url := withoutEnd (← input.getLine)
  if url.isEmpty then pure ()
  else
    showAnswer output files root url
    showSite input output files root

/-- Render a site, and show it if that is asked for. -/
def run (arguments : List String) : IO UInt32 := do
  let input ← IO.getStdin
  let output ← IO.getStdout
  let start := FileTree.ofCurrent (placeNamed (toString (← IO.currentDir)))
  let files ← (← readLines input).foldlM load start
  let (verdict, workspace) := Site.run arguments files
  store (files.changesTo workspace.files)
  for line in workspace.log do
    output.putStr line.text
  match verdict with
  | .serving config => showSite input output workspace.files config.build.output
  | _ => pure ()
  pure verdict.exitCode

end Main
end StaticSite

def main (arguments : List String) : IO UInt32 :=
  StaticSite.Main.run arguments
