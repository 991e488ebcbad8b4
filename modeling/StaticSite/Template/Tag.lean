import StaticSite.RenderError
import StaticSite.Text.Taken

/-!
# Tags in templates

This file splits the source of a template into literal text and tags.  A tag starts with two
opening braces and ends at the next two closing braces; its first character is its opcode, and the
rest, trimmed, its operand.  Backslashes right before the opening braces pair up to one each, and
one left over makes the braces literal text.
-/

namespace StaticSite
namespace Template

/-- A tag: one opcode character, its operand and its place. -/
structure Tag where
  opcode : Char
  operand : String
  location : Location
  deriving DecidableEq, Repr

/-- A piece of a template's source. -/
inductive Segment where
  | literal (text : String)
  | tag (tag : Tag)
  deriving DecidableEq, Repr

/-- An error at a place in a template's source. -/
structure Located where
  error : RenderError
  location : Location
  deriving DecidableEq, Repr

/-- The error as one of the asset with the given key. -/
def Located.inAsset (key : String) (located : Located) : RenderError :=
  located.error.inAsset key (some located.location)

/-- The segment of literal text gathered in reverse; none for the empty text. -/
def literalSegment (gathered : List Char) : List Segment :=
  if gathered.isEmpty then [] else [.literal (String.ofList gathered.reverse)]

/-- The tag with the given body, gathered in reverse. -/
def tagOfBody (opened : Location) (gathered : List Char) : Except Located Tag :=
  match gathered.reverse with
  | [] => .error ⟨.malformedDirective .missingOpcode, opened⟩
  | opcode :: operand =>
      if Text.isBlank opcode then .error ⟨.malformedDirective .missingOpcode, opened⟩
      else .ok ⟨opcode, String.ofList (Text.trim operand), opened⟩

mutual

/-- Scan outside of tags.  `gathered` is the literal text so far, in reverse and without the
`slashes` backslashes that come last. -/
def scanText (location : Location) (gathered : List Char) (slashes : Nat) :
    List Char → Except Located (List Segment)
  | [] => .ok (literalSegment (List.replicate slashes '\\' ++ gathered))
  | '\\' :: rest => scanText (location.after '\\') gathered (slashes + 1) rest
  | '\x7b' :: '\x7b' :: rest =>
      let literal := List.replicate (slashes / 2) '\\' ++ gathered
      let inside := (location.after '\x7b').after '\x7b'
      if slashes % 2 = 1 then scanText inside ('\x7b' :: '\x7b' :: literal) 0 rest
      else
        match scanTag location inside [] rest with
        | .error error => .error error
        | .ok segments => .ok (literalSegment literal ++ segments)
  | c :: rest =>
      scanText (location.after c) (c :: (List.replicate slashes '\\' ++ gathered)) 0 rest

/-- Scan the body of a tag that was opened at `opened`.  `gathered` is the body so far, in
reverse. -/
def scanTag (opened location : Location) (gathered : List Char) :
    List Char → Except Located (List Segment)
  | [] => .error ⟨.malformedDirective .unterminatedTag, opened⟩
  | '\x7d' :: '\x7d' :: rest =>
      match tagOfBody opened gathered with
      | .error error => .error error
      | .ok tag =>
          match scanText ((location.after '\x7d').after '\x7d') [] 0 rest with
          | .error error => .error error
          | .ok segments => .ok (.tag tag :: segments)
  | c :: rest => scanTag opened (location.after c) (c :: gathered) rest

end

/-- Split a template's source.  Literal texts are never empty and never stand side by side. -/
def scan (source : String) : Except Located (List Segment) :=
  scanText .start [] 0 source.toList

end Template
end StaticSite
