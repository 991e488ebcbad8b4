import StaticSite.Asset.Format
import StaticSite.FileTree

/-!
# Previewing a site

This file answers requests for the files of a rendered site.  The path of a URL is decoded and
read below a root directory; a path that could lead above the root is refused, and a directory
stands for the file `index.html` in it.
-/

namespace StaticSite
namespace Preview

def isPercent (byte : UInt8) : Bool := byte == 0x25

def hexValue? (byte : UInt8) : Option UInt8 :=
  if 0x30 ≤ byte && byte ≤ 0x39 then some (byte - 0x30)
  else if 0x41 ≤ byte && byte ≤ 0x46 then some (byte - 0x37)
  else if 0x61 ≤ byte && byte ≤ 0x66 then some (byte - 0x57)
  else none

/-- Put a byte instead of each per cent sign that two hexadecimal digits follow.  Other per cent
signs stand for themselves. -/
def percentDecode : List UInt8 → List UInt8
  | [] => []
  | [byte] => [byte]
  | [byte, next] => [byte, next]
  | byte :: high :: low :: rest =>
      match isPercent byte, hexValue? high, hexValue? low with
      | true, some highValue, some lowValue =>
          (highValue * 16 + lowValue) :: percentDecode rest
      | _, _, _ => byte :: percentDecode (high :: low :: rest)
termination_by bytes => bytes.length

/-- The path of a URL: what comes before the first question mark. -/
def urlPath (url : String) : String :=
  String.ofList (url.toList.takeWhile (· != '?'))

/-- The decoded path of a URL, if it is a text. -/
def decodedPath? (url : String) : Option String :=
  String.fromUTF8? ⟨(percentDecode (urlPath url).toUTF8.toList).toArray⟩

/-- A text without the slashes at both ends. -/
def trimSlashes (text : String) : String :=
  let front := text.toList.dropWhile (· == '/')
  String.ofList (front.reverse.dropWhile (· == '/')).reverse

/-- Whether a component leads nowhere but down. -/
def leadsDown : Component → Bool
  | .name _ => true
  | .current => true
  | .root => false
  | .parent => false

/-- What a URL stands for. -/
inductive Resolved where
  | file (path : Path)
  | notFound
  | badRequest
  deriving DecidableEq, Repr

def indexName : Path := ⟨"index.html"⟩

def locate (files : FileTree) (target : Path) : Resolved :=
  if files.isFile target then .file target
  else if files.isDirectory target && files.isFile (target.join indexName) then
    .file (target.join indexName)
  else .notFound

def resolve (files : FileTree) (root : Path) (url : String) : Resolved :=
  match decodedPath? url with
  | none => .badRequest
  | some text =>
      let relative : Path := ⟨trimSlashes text⟩
      if relative.components.all leadsDown then locate files (root.join relative)
      else .badRequest

/-- The answer to a request. -/
structure Response where
  status : Nat
  /-- Value of the `Content-Type` header. -/
  contentType : String
  body : ByteArray

/-- An answer that only tells a status. -/
def Response.ofStatus (status : Nat) (text : String) : Response :=
  ⟨status, "text/plain", text.toUTF8⟩

/-- The answer to a request for a URL, or why its file cannot be read. -/
def respond (files : FileTree) (root : Path) (url : String) : Except FileFault Response :=
  match resolve files root url with
  | .file path => (⟨200, MediaType.headerOf path, ·⟩) <$> files.read path
  | .notFound => .ok (.ofStatus 404 "404 Not Found")
  | .badRequest => .ok (.ofStatus 400 "400 Bad Request")

end Preview
end StaticSite
