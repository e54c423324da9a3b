/-
Paths of urls.

The path is built from left to right as text.  A segment ends at a slash or at the
end of the path; `.` adds nothing, and `..` takes the last segment away, except the
root and a segment that is a drive letter.  In a `file` url the first segment may be
a drive letter with `|` for the colon, and a text that continues right after a drive
letter starts a new segment.
-/
import SchemaBundle.Text.Pieces
import SchemaBundle.Url.Percent

namespace SchemaBundle

namespace Url

/-- The schemes by how their urls are read. -/
inductive Kind where
  /-- The `file` scheme. -/
  | file
  /-- The schemes whose urls always have a host. -/
  | hosted
  /-- Every other scheme. -/
  | other
  deriving DecidableEq

/-- Whether a backslash counts as a slash. -/
def Kind.isSpecial (kind : Kind) : Bool :=
  kind != .other

/-- A letter of the ASCII alphabet. -/
def isLetter (c : Char) : Bool :=
  c.isAlpha

/-- A letter and a colon or a bar. -/
def isDriveLetter : List Char → Bool
  | [a, b] => isLetter a && (b = ':' || b = '|')
  | _ => false

/-- A letter and a colon. -/
def isColonDriveLetter : List Char → Bool
  | [a, b] => isLetter a && b = ':'
  | _ => false

/-- Whether a text starts with a drive letter that ends there or at a delimiter. -/
def startsWithDriveLetter : List Char → Bool
  | a :: b :: rest =>
    isLetter a && (b = ':' || b = '|') &&
      match rest with
      | [] => true
      | c :: _ => c = '/' || c = '\\' || c = '?' || c = '#'
  | _ => false

/-- A path while it is read. -/
structure PathBuilder where
  /-- The text before the current segment, reversed. -/
  before : List Char
  /-- The current segment, reversed. -/
  segment : List Char
  /-- Whether a drive letter has taken the place of the host. -/
  dropsHost : Bool

namespace PathBuilder

/-- The path with a text so far and no segment begun; the text is not reversed. -/
def starting (path : List Char) : PathBuilder :=
  ⟨path.reverse, [], false⟩

/-- The segments that lead one level up. -/
def isDoubleDot (segment : List Char) : Bool :=
  let dots : List (List Char) := ["..".toList, "%2e%2e".toList, "%2e.".toList, ".%2e".toList]
  dots.contains (segment.map Char.toLower)

/-- The segments that lead nowhere. -/
def isSingleDot (segment : List Char) : Bool :=
  let dots : List (List Char) := [".".toList, "%2e".toList]
  dots.contains (segment.map Char.toLower)

/-- Drop the last segment of a reversed text that does not end in a slash, or
nothing if that segment is the drive letter of a `file` url. -/
def dropSegment (kind : Kind) (text : List Char) : List Char :=
  let segment := text.takeWhile (· ≠ '/')
  if kind = .file && isColonDriveLetter segment.reverse then text else text.dropWhile (· ≠ '/')

/-- Go one level up in a reversed text that ends in a slash. -/
def goUp (kind : Kind) (text : List Char) : List Char :=
  match text with
  | '/' :: rest =>
    let segment := rest.takeWhile (· ≠ '/')
    let isRoot := !rest.contains '/'
    if isRoot || startsWithDriveLetter (segment.reverse ++ ['/']) then dropSegment kind text
    else dropSegment kind rest
  | _ => dropSegment kind text

/-- Make a reversed text end in a slash. -/
def closeWithSlash (text : List Char) : List Char :=
  match text with
  | '/' :: _ => text
  | _ => '/' :: text

/-- End the current segment, at a slash or at the end of the path. -/
def endSegment (kind : Kind) (atSlash : Bool) (b : PathBuilder) : PathBuilder :=
  let segment := b.segment.reverse
  if isDoubleDot segment then
    let up := goUp kind b.before
    ⟨if atSlash then closeWithSlash up else up, [], b.dropsHost⟩
  else if isSingleDot segment then ⟨closeWithSlash b.before, [], b.dropsHost⟩
  else
    let drive := kind = .file && b.before.length = 1 && isDriveLetter segment
    let segment := if drive then segment.take 1 ++ [':'] else segment
    let text := segment.reverse ++ b.before
    ⟨if atSlash then '/' :: text else text, [], b.dropsHost || drive⟩

/-- Start a new segment behind a drive letter that is all of a `file` path. -/
def splitAtDrive (kind : Kind) (b : PathBuilder) : PathBuilder :=
  let text := b.segment ++ b.before
  if kind = .file && isColonDriveLetter (text.reverse.drop 1) then
    match b.segment.reverse with
    | [] => { b with before := '/' :: b.before }
    | first :: rest => { b with before := first :: b.before, segment := '/' :: rest.reverse }
  else b

/-- Read one character of a path. -/
def push (kind : Kind) (b : PathBuilder) (c : Char) : PathBuilder :=
  if c = '/' || (c = '\\' && kind.isSpecial) then b.endSegment kind true
  else
    let b := b.splitAtDrive kind
    { b with segment := (encodeChar escapedInPath c).reverse ++ b.segment }

/-- The finished path; a `file` path has one slash in front. -/
def finish (kind : Kind) (b : PathBuilder) : List Char × Bool :=
  let b := b.endSegment kind false
  let path := b.before.reverse
  (if kind = .file then '/' :: path.dropWhile (· = '/') else path, b.dropsHost)

end PathBuilder

/-- Read a path behind a text that it continues: the whole path, and whether a drive
letter has taken the place of the host. -/
def readPath (kind : Kind) (start input : List Char) : List Char × Bool :=
  (input.foldl (PathBuilder.push kind) (PathBuilder.starting start)).finish kind

/-- Drop the last segment of a finished path. -/
def parentPath (kind : Kind) (path : List Char) : List Char :=
  (PathBuilder.dropSegment kind path.reverse).reverse

end Url

end SchemaBundle
