import StaticSite.Config.Loading
import StaticSite.Site.Rendering

/-!
# The program

This file puts the parts of a run together: arguments are read, settings loaded and checked, and
the site is rendered.  An error is told in one line with all its causes.
-/

namespace StaticSite

/-- How a run ends. -/
inductive Verdict where
  /-- The arguments are not carried out. -/
  | misused (error : UsageError)
  | failed (error : SiteError)
  | built (report : Report)
  /-- The site is rendered and is now to be shown. -/
  | serving (config : Config)
  deriving DecidableEq, Repr

/-- The number that tells the caller of the program how it ended. -/
def Verdict.exitCode : Verdict → UInt32
  | misused .helpRequested => 0
  | misused .versionRequested => 0
  | misused _ => 2
  | failed _ => 1
  | built _ => 0
  | serving _ => 0

namespace Site

/-- Load the settings, tell where they are from, and check them. -/
def loadSettings (line : CommandLine) : Task Config := do
  let config ← Task.ofExcept .config (Config.load line (← Task.files))
  match config.file with
  | some path => Task.tell "config" ("loaded " ++ path.text)
  | none => Task.tell "config" ("no " ++ line.config.text ++ " found, using defaults")
  Task.ofExcept .config (config.validate line)
  pure config

def build (line : CommandLine) : Task (Config × Report) := do
  let config ← loadSettings line
  let report ← render config
  pure (config, report)

/-- Run the program on files, up to the moment at which the site is to be shown. -/
def run (arguments : List String) (files : FileTree) : Verdict × Workspace :=
  match CommandLine.parse arguments with
  | .error error => (.misused error, .ofFiles files)
  | .ok line =>
      match (build line).perform (.ofFiles files) with
      | (.error error, workspace) => (.failed error, workspace.tell "error" error.fullMessage)
      | (.ok (config, report), workspace) =>
          (if line.isServe then .serving config else .built report, workspace)

end Site
end StaticSite
