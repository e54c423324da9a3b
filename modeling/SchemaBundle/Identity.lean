/-
Identities of documents.

A document is known by one identity however it is referred to.  An absolute url is
its own identity.  A relative one is resolved against the document it stands in:
by the rules of urls when that document has a url, else as a path below the
directory of that document.  Paths are brought to a normal form without `.`, empty
segments and avoidable `..`.
-/
import SchemaBundle.Url.Basic

namespace SchemaBundle

namespace Identity

/-- The next segment of a path, on the reversed list of segments kept so far. -/
def step (absolute : Bool) (kept : List String) (segment : String) : List String :=
  if segment = "" ∨ segment = "." then kept
  else if segment = ".." then
    match kept with
    | top :: rest => if top = ".." then ".." :: kept else rest
    | [] => if absolute then [] else [".."]
  else segment :: kept

/-- The normal form of a path: empty and `.` segments are gone, and `..` is left
only at the start of a relative path. -/
def normalizePath (path : String) : String :=
  let absolute := path.toList.head? = some '/'
  let kept := (Text.pieces '/' path).foldl (step absolute) []
  (if absolute then "/" else "") ++ Text.joinWith "/" kept.reverse

/-- The directory of a document: its identity up to the last slash. -/
def parentDir (identity : String) : String :=
  String.ofList (identity.toList.reverse.dropWhile (· ≠ '/')).reverse

/-- The identity of what a document refers to as `url`; the root document has no
identity of its own. -/
def resolve (base : Option String) (url : String) : String :=
  if (Url.parse? url).isSome then url
  else
    match base with
    | none => normalizePath url
    | some base =>
      match Url.parse? base with
      | some baseUrl => ((baseUrl.join? url).map Url.format).getD url
      | none =>
        if url.toList.head? = some '/' then normalizePath url
        else normalizePath (parentDir base ++ url)

end Identity

end SchemaBundle
