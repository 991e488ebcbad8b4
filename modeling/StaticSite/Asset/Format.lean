import StaticSite.Path

/-!
# Formats and media types

This file knows files by their extension: the media type, the value of a `Content-Type` header,
and the format in which an asset of that name is written.
-/

namespace StaticSite

/-- What is known of files with certain extensions. -/
structure MediaType where
  extensions : List String
  name : String
  header : String
  deriving DecidableEq, Repr

namespace MediaType

def known : List MediaType :=
  [⟨["html", "htm"], "text/html", "text/html; charset=utf-8"⟩,
   ⟨["xhtml"], "application/xhtml+xml", "application/xhtml+xml; charset=utf-8"⟩,
   ⟨["css"], "text/css", "text/css; charset=utf-8"⟩,
   ⟨["js", "mjs"], "application/javascript", "application/javascript; charset=utf-8"⟩,
   ⟨["json"], "application/json", "application/json; charset=utf-8"⟩,
   ⟨["yaml", "yml"], "application/x-yaml", "application/x-yaml; charset=utf-8"⟩,
   ⟨["xml"], "application/xml", "application/xml; charset=utf-8"⟩,
   ⟨["svg"], "image/svg+xml", "image/svg+xml"⟩,
   ⟨["png"], "image/png", "image/png"⟩,
   ⟨["jpg", "jpeg"], "image/jpeg", "image/jpeg"⟩,
   ⟨["gif"], "image/gif", "image/gif"⟩,
   ⟨["webp"], "image/webp", "image/webp"⟩,
   ⟨["avif"], "image/avif", "image/avif"⟩,
   ⟨["ico"], "image/x-icon", "image/x-icon"⟩,
   ⟨["woff"], "font/woff", "font/woff"⟩,
   ⟨["woff2"], "font/woff2", "font/woff2"⟩,
   ⟨["ttf"], "font/ttf", "font/ttf"⟩,
   ⟨["otf"], "font/otf", "font/otf"⟩,
   ⟨["pdf"], "application/pdf", "application/pdf"⟩,
   ⟨["txt"], "text/plain", "text/plain; charset=utf-8"⟩,
   ⟨["md"], "text/markdown", "text/markdown; charset=utf-8"⟩]

/-- The extension of a path with its ASCII letters lowered. -/
def lowerExtension? (path : Path) : Option String :=
  path.extension?.map String.toLower

/-- The media type of a path, known by its extension. -/
def ofPath? (path : Path) : Option MediaType := do
  let extension ← lowerExtension? path
  known.find? fun media => media.extensions.contains extension

def headerOf (path : Path) : String :=
  ((ofPath? path).map header).getD "application/octet-stream"

end MediaType

inductive Format where
  | html
  | json
  | yaml
  deriving DecidableEq, Repr

namespace Format

/-- All formats in the order in which they are tried. -/
def all : List Format := [html, json, yaml]

def name : Format → String
  | html => "html"
  | json => "json"
  | yaml => "yaml"

def mediaType : Format → String
  | html => "text/html"
  | json => "application/json"
  | yaml => "application/x-yaml"

def extensions : Format → List String
  | html => ["html", "htm", "xhtml"]
  | json => ["json"]
  | yaml => ["yaml", "yml"]

/-- Whether a file of this name is in the format, by its media type or its extension. -/
def accepts (format : Format) (path : Path) : Bool :=
  (MediaType.ofPath? path).any (·.name == format.mediaType) ||
    (MediaType.lowerExtension? path).any format.extensions.contains

end Format
end StaticSite
