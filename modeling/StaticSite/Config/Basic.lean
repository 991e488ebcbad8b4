import StaticSite.FileTree
import StaticSite.Toml.Document

/-!
# Settings of a site

This file gives the settings of a site and reads them from a TOML document with the tables `build`
and `serve`.  A setting that is not given has its default, and a name that is no setting is
refused.
-/

namespace StaticSite

/-- Where the sources of a site lie, and where it is rendered to. -/
structure BuildConfig where
  /-- Directory that holds the source directories. -/
  input : Path := ⟨"."⟩
  /-- Directory that is cleared before each rendering. -/
  output : Path := ⟨"out"⟩
  /-- Directory of the assets that are rendered. -/
  pages : Path := ⟨"pages"⟩
  /-- Directory of the assets that can only be imported. -/
  templates : Path := ⟨"templates"⟩
  /-- Directory of the files that are copied. -/
  assets : Path := ⟨"assets"⟩
  /-- Whether to name registered assets that no page asked for. -/
  unusedWarnings : Bool := true
  deriving DecidableEq, Repr

/-- Where the site is shown, and whether it is rendered anew when its sources change. -/
structure ServeConfig where
  interface : String := "127.0.0.1"
  port : Nat := 5277
  watch : Bool := true
  deriving DecidableEq, Repr

/-- The settings of a site. -/
structure Config where
  /-- The file that they were read from, if there is one. -/
  file : Option Path := none
  build : BuildConfig := {}
  serve : ServeConfig := {}
  deriving DecidableEq, Repr

/-- Why there are no valid settings. -/
inductive ConfigError where
  | unreadable (path : Path) (fault : FileFault)
  | malformed
  /-- The output directory is or contains the directory that a setting names. -/
  | outputHolds (setting : String) (directory : Path)
  | notAnAddress (interface : String)
  deriving DecidableEq, Repr

namespace ConfigError

def message : ConfigError → String
  | unreadable path _ => "IO error when reading `" ++ path.text ++ "`"
  | malformed => "Config file parsing error"
  | outputHolds setting directory =>
      "Config validation error: [build.output] must not contain " ++ setting ++ " (`" ++
        directory.text ++ "`)"
  | notAnAddress interface =>
      "Config validation error: [serve.interface] `" ++ interface ++ "` is not an IP address"

def chain : ConfigError → List String
  | error@(unreadable _ fault) => [error.message, fault.message]
  | error => [error.message]

end ConfigError

namespace Config

/-- The trees of settings with the given names.  They stand in a table, or without their names in
an array. -/
def settings? (names : List String) : Toml → Option (List (Option Toml))
  | .table _ entries =>
      if entries.all fun entry => names.contains entry.1 then
        some (names.map fun name => entries.lookup name)
      else none
  | .array items => some ((List.range names.length).map fun index => items[index]?)
  | .tables each =>
      some ((List.range names.length).map fun index => (each[index]?).map (.table .header))
  | _ => none

/-- The text that a setting is given, or its default. -/
def text? (default : String) : Option Toml → Option String
  | none => some default
  | some (.string text) => some text
  | some _ => none

/-- The path that a setting is given, or its default. -/
def path? (default : Path) (tree : Option Toml) : Option Path :=
  (text? default.text tree).map Path.mk

/-- The truth value that a setting is given, or its default. -/
def truth? (default : Bool) : Option Toml → Option Bool
  | none => some default
  | some (.boolean value) => some value
  | some _ => none

/-- The port that a setting is given, or its default. -/
def port? (default : Nat) : Option Toml → Option Nat
  | none => some default
  | some (.integer value) => if 0 ≤ value && value < UInt16.size then some value.toNat else none
  | some _ => none

def build? (tree : Toml) : Option BuildConfig := do
  let defaults : BuildConfig := {}
  match ← settings? ["input", "output", "pages", "templates", "assets", "unused_warnings"] tree with
  | [input, output, pages, templates, assets, warnings] =>
      pure
        { input := ← path? defaults.input input
          output := ← path? defaults.output output
          pages := ← path? defaults.pages pages
          templates := ← path? defaults.templates templates
          assets := ← path? defaults.assets assets
          unusedWarnings := ← truth? defaults.unusedWarnings warnings }
  | _ => none

def serve? (tree : Toml) : Option ServeConfig := do
  let defaults : ServeConfig := {}
  match ← settings? ["interface", "port", "watch"] tree with
  | [interface, port, watch] =>
      pure
        { interface := ← text? defaults.interface interface
          port := ← port? defaults.port port
          watch := ← truth? defaults.watch watch }
  | _ => none

def ofToml? (entries : Toml.Entries) : Option Config := do
  match ← settings? ["build", "serve"] (.table .header entries) with
  | [build, serve] =>
      pure
        { build := ← (build.map build?).getD (some {})
          serve := ← (serve.map serve?).getD (some {}) }
  | _ => none

def parse (text : String) : Except ConfigError Config :=
  match (Toml.parse? text.toList).bind ofToml? with
  | some config => .ok config
  | none => .error .malformed

def pagesDirectory (config : Config) : Path :=
  config.build.input.join config.build.pages

def templatesDirectory (config : Config) : Path :=
  config.build.input.join config.build.templates

def assetsDirectory (config : Config) : Path :=
  config.build.input.join config.build.assets

def sourceDirectories (config : Config) : List Path :=
  [config.pagesDirectory, config.templatesDirectory, config.assetsDirectory]

end Config
end StaticSite
