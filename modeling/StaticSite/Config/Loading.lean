import StaticSite.CommandLine
import StaticSite.Config.NetworkAddress
import StaticSite.Config.Basic

/-!
# Loading settings

This file reads the settings that the command line names, lets the command line override them, and
checks that a rendering would not delete its own sources.
-/

namespace StaticSite

namespace CommandLine

def isServe (line : CommandLine) : Bool :=
  match line.command with
  | .serve .. => true
  | .build => false

def rootDirectory (line : CommandLine) : Path :=
  line.root.getD ⟨"./"⟩

end CommandLine

namespace Config

def read (files : FileTree) (path : Path) : Except ConfigError Config :=
  match files.readText path with
  | .error fault => .error (.unreadable path fault)
  | .ok text => parse text

/-- The settings with what the command line says, input and output read from the root on. -/
def overriddenBy (line : CommandLine) (files : FileTree) (config : Config) : Config :=
  let root := files.normalize line.rootDirectory
  let build :=
    { config.build with
      input := files.normalize (root.join (line.input.getD config.build.input))
      output := files.normalize (root.join (line.output.getD config.build.output)) }
  let serve :=
    match line.command with
    | .build => config.serve
    | .serve interface port watch =>
        { interface := interface.getD config.serve.interface
          port := port.getD config.serve.port
          watch := watch.getD config.serve.watch }
  { config with build, serve }

/-- The settings that the command line stands for.  Without a file the defaults hold. -/
def load (line : CommandLine) (files : FileTree) : Except ConfigError Config := do
  let path := line.rootDirectory.join line.config
  let config ←
    if files.isFile path then do
      let config ← read files path
      pure { config with file := some (files.normalize path) }
    else pure {}
  pure (config.overriddenBy line files)

/-- The source directories with the settings that name them. -/
def namedSources (config : Config) : List (String × Path) :=
  [("[build.pages]", config.pagesDirectory), ("[build.templates]", config.templatesDirectory),
   ("[build.assets]", config.assetsDirectory)]

/-- Check that the output directory is and contains no source directory, and that there is an
address to listen on if the site is to be shown. -/
def validate (config : Config) (line : CommandLine) : Except ConfigError Unit :=
  match config.namedSources.find? fun source => source.2.startsWith config.build.output with
  | some (setting, directory) => .error (.outputHolds setting directory)
  | none =>
      if line.isServe && !NetworkAddress.isValid config.serve.interface then
        .error (.notAnAddress config.serve.interface)
      else .ok ()

end Config
end StaticSite
