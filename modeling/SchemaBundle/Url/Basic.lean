/-
Absolute urls and relative references to them.

A url is read from left to right: scheme, authority, path, query, fragment, each in
its normal form.  `Url.parse?` reads a url that stands on its own; `Url.join?` reads
a text in the place of a base url and takes from it the parts that the text leaves
out.  Blanks around a text and tabs and line ends in it do not count.
-/
import SchemaBundle.Url.Host
import SchemaBundle.Url.Path

namespace SchemaBundle

/-- A url in parts. -/
structure Url where
  /-- The scheme, in lower case. -/
  scheme : List Char
  /-- Credentials, host and the number behind it, when there are two slashes for them. -/
  authority : Option (List Char × List Char × Option Nat)
  /-- The path. -/
  path : List Char
  /-- The text after `?`. -/
  query : Option (List Char)
  /-- The text after `#`. -/
  fragment : Option (List Char)

namespace Url

/-! ### Text of a url -/

/-- The authority with its two slashes. -/
def authorityChars : List Char × List Char × Option Nat → List Char
  | (credentials, host, number) =>
    '/' :: '/' :: credentials ++ host ++
      match number with
      | some n => ':' :: Nat.toDigits 10 n
      | none => []

/-- The text of a url. A path that starts with two slashes is kept apart from an
authority by `/.`. -/
def format (url : Url) : String :=
  let authority :=
    match url.authority with
    | some authority => authorityChars authority
    | none => if (Text.dropStart? ['/', '/'] url.path).isSome then ['/', '.'] else []
  let query := match url.query with
    | some query => '?' :: query
    | none => []
  let fragment := match url.fragment with
    | some fragment => '#' :: fragment
    | none => []
  String.ofList (url.scheme ++ ':' :: authority ++ url.path ++ query ++ fragment)

/-- Whether the path is a text without levels, which nothing can be relative to. -/
def isFlat (url : Url) : Bool :=
  url.authority.isNone && url.path.head? != some '/'

/-! ### Scheme -/

/-- The kind of a scheme. -/
def kindOf (scheme : List Char) : Kind :=
  let scheme := String.ofList scheme
  if scheme = "file" then .file
  else if ["http", "https", "ws", "wss", "ftp"].contains scheme then .hosted
  else .other

/-- The number that a scheme has without saying so. -/
def defaultNumber? (scheme : List Char) : Option Nat :=
  let scheme := String.ofList scheme
  if scheme = "http" || scheme = "ws" then some 80
  else if scheme = "https" || scheme = "wss" then some 443
  else if scheme = "ftp" then some 21
  else none

/-- The kind of a url. -/
def kind (url : Url) : Kind :=
  kindOf url.scheme

/-- Characters that a scheme may have after its first letter. -/
def isSchemeChar (c : Char) : Bool :=
  c.isAlphanum || c = '+' || c = '-' || c = '.'

/-- The scheme in front of a text, and the text after its colon. -/
def scheme? (input : List Char) : Option (List Char × List Char) :=
  match input with
  | [] => none
  | first :: _ =>
    if !isLetter first then none
    else
      match input.dropWhile isSchemeChar with
      | ':' :: rest => some ((input.takeWhile isSchemeChar).map Char.toLower, rest)
      | _ => none

/-- The text without blanks around it and without tabs and line ends. -/
def clean (text : String) : List Char :=
  let trimmed := Text.dropEndWhile (·.toNat ≤ 0x20) (text.toList.dropWhile (·.toNat ≤ 0x20))
  trimmed.filter fun c => c != '\t' && c != '\n' && c != '\r'

/-! ### Query and fragment -/

/-- Split a text in front of its query or fragment. -/
def splitPath (input : List Char) : List Char × List Char :=
  (input.takeWhile fun c => c != '?' && c != '#', input.dropWhile fun c => c != '?' && c != '#')

/-- Read what follows a path: nothing, `?` and a query, or `#` and a fragment. -/
def tail (kind : Kind) (input : List Char) : Option (List Char) × Option (List Char) :=
  let fragmentOf (rest : List Char) : Option (List Char) :=
    match rest with
    | [] => none
    | _ :: fragment => some (encode escapedInFragment fragment)
  match input with
  | '?' :: rest =>
    (some (encode (escapedInQuery kind.isSpecial) (rest.takeWhile (· ≠ '#'))),
      fragmentOf (rest.dropWhile (· ≠ '#')))
  | _ => (none, fragmentOf input)

/-- A url with the query and fragment of the rest of its text. -/
def withTail (url : Url) (input : List Char) : Url :=
  let (query, fragment) := tail url.kind input
  { url with query, fragment }

/-! ### Authority -/

/-- The credentials in front of a host, with the `@` if there is anything. The first
colon separates name and password. -/
def credentials (userinfo : List Char) : List Char :=
  let name := encode escapedInUserinfo (userinfo.takeWhile (· ≠ ':'))
  let password := encode escapedInUserinfo ((userinfo.dropWhile (· ≠ ':')).drop 1)
  if name.isEmpty && password.isEmpty then []
  else name ++ (if password.isEmpty then [] else ':' :: password) ++ ['@']

/-- Whether a character ends the authority. -/
def endsAuthority (kind : Kind) (c : Char) : Bool :=
  c = '/' || c = '?' || c = '#' || (c = '\\' && kind.isSpecial)

/-- Take the credentials off an authority: they end at its last `@`. -/
def splitCredentials? (kind : Kind) (input : List Char) : Option (List Char × List Char) :=
  let authority := input.takeWhile fun c => !endsAuthority kind c
  if !authority.contains '@' then some ([], input)
  else
    let afterAt := (authority.reverse.takeWhile (· ≠ '@')).length
    let userinfo := authority.take (authority.length - afterAt - 1)
    let rest := input.drop (authority.length - afterAt)
    if userinfo.isEmpty then
      match rest with
      | c :: _ => if endsAuthority kind c then none else some ([], rest)
      | [] => some ([], rest)
    else some (credentials userinfo, rest)

/-- The text of a host, which ends at a delimiter outside brackets. -/
def hostText (kind : Kind) : Bool → List Char → List Char
  | _, [] => []
  | bracketed, c :: rest =>
    if (c = ':' && !bracketed) || endsAuthority kind c then []
    else
      let bracketed := if c = '[' then true else if c = ']' then false else bracketed
      c :: hostText kind bracketed rest

/-- The host of a text, which may be missing only outside special schemes. -/
def host? (kind : Kind) (text : List Char) : Option (List Char) :=
  if kind.isSpecial then (if text.isEmpty then none else Host.ofSpecial? text)
  else Host.ofOther? text

/-- Read the number behind a host: digits up to the path, at most 65535. -/
def hostNumber? (scheme : List Char) (input : List Char) : Option (Option Nat × List Char) :=
  let digits := input.takeWhile Char.isDigit
  let rest := input.dropWhile Char.isDigit
  let value := digits.foldl (fun n c => n * 10 + (c.toNat - 48)) 0
  let ended := match rest with
    | [] => true
    | c :: _ => c = '/' || c = '\\' || c = '?' || c = '#'
  if 65535 < value || !ended then none
  else if digits.isEmpty || defaultNumber? scheme = some value then some (none, rest)
  else some (some value, rest)

/-- Read the path after an authority. -/
def pathAfterAuthority (kind : Kind) (input : List Char) : List Char × Bool × List Char :=
  let (path, rest) := splitPath input
  let (path, dropsHost) :=
    if kind.isSpecial then
      match path with
      | '/' :: after => readPath kind ['/'] after
      | '\\' :: after => readPath kind ['/'] after
      | _ => readPath kind ['/'] path
    else
      match path with
      | [] => ([], false)
      | '/' :: _ => readPath kind [] path
      | _ => readPath kind ['/'] path
  (path, dropsHost, rest)

/-- Read a url behind the two slashes of its authority. -/
def afterSlashes? (scheme input : List Char) : Option Url := do
  let kind := kindOf scheme
  let (credentials, rest) ← splitCredentials? kind input
  let text := hostText kind false rest
  let host ← host? kind text
  let rest := rest.drop text.length
  let (number, rest) ←
    match rest with
    | ':' :: after => if host.isEmpty then none else hostNumber? scheme after
    | _ => some (none, rest)
  if host.isEmpty && !credentials.isEmpty then none
  else
    let (path, _, rest) := pathAfterAuthority kind rest
    return withTail ⟨scheme, some (credentials, host, number), path, none, none⟩ rest

/-! ### The `file` scheme -/

/-- The scheme of files. -/
def fileScheme : List Char :=
  "file".toList

/-- Whether a character is a slash of a special scheme. -/
def isSlash (c : Char) : Bool :=
  c = '/' || c = '\\'

/-- A file url with a host, where the empty host stands for this machine. -/
def fileWith (host path rest : List Char) : Url :=
  withTail ⟨fileScheme, some ([], host, none), path, none, none⟩ rest

/-- Read a file url behind its two slashes. A drive letter in the place of the host
belongs to the path. -/
def fileAfterSlashes? (input : List Char) : Option Url := do
  let text := input.takeWhile fun c => !(isSlash c || c = '?' || c = '#')
  let (host, input) ←
    if isDriveLetter text || text.isEmpty then some ([], input)
    else
      (Host.ofSpecial? text).map fun host =>
        (if String.ofList host = "localhost" then [] else host, input.drop text.length)
  if host.isEmpty then
    let (path, rest) := splitPath input
    return fileWith [] (readPath .file ['/'] path).1 rest
  else
    let (path, dropsHost, rest) := pathAfterAuthority .file input
    return fileWith (if dropsHost then [] else host) path rest

/-- The host of a url. -/
def host (url : Url) : List Char :=
  match url.authority with
  | some (_, host, _) => host
  | none => []

/-- The drive letter that a file path starts with. -/
def driveOf (path : List Char) : Option (List Char) :=
  let segment := (path.drop 1).takeWhile (· ≠ '/')
  if isColonDriveLetter segment then some segment else none

/-- Read a file url behind one slash: the host, or the drive letter in its place, is
that of the base. -/
def fileAfterSlash (base : Option Url) (input : List Char) : Url :=
  let (path, rest) := splitPath input
  let (host, start) :=
    match base with
    | none => ([], [])
    | some base =>
      if startsWithDriveLetter (input.drop 1) then ([], [])
      else
        match driveOf base.path with
        | some drive => ([], '/' :: drive)
        | none => (base.host, [])
  fileWith host (readPath .file start path).1 rest

/-! ### Relative references -/

/-- The url without its fragment, or with another one. -/
def withFragment (url : Url) (input : List Char) : Url :=
  match input with
  | [] => { url with fragment := none }
  | _ :: fragment => { url with fragment := some (encode escapedInFragment fragment) }

/-- The url with a path in the place of its own. -/
def withPath (url : Url) (path rest : List Char) : Url :=
  withTail { url with path } rest

/-- Read a text without scheme in the place of a file url. -/
def fileRelative? (base : Option Url) (input : List Char) : Option Url :=
  match input with
  | a :: b :: rest =>
    if isSlash a && isSlash b then fileAfterSlashes? rest
    else if isSlash a then some (fileAfterSlash base input)
    else fileBeside base input
  | [a] => if isSlash a then some (fileAfterSlash base input) else fileBeside base input
  | [] => fileBeside base input
where
  /-- Read a text that does not start with a slash. -/
  fileBeside (base : Option Url) (input : List Char) : Option Url :=
    let (path, rest) := splitPath input
    match base with
    | none => some (fileWith [] (readPath .file ['/'] path).1 rest)
    | some base =>
      match input with
      | [] => some (withFragment base [])
      | '?' :: _ => some (withTail base input)
      | '#' :: _ => some (withFragment base input)
      | _ =>
        if startsWithDriveLetter input then
          some (fileWith [] (readPath .file ['/'] path).1 rest)
        else
          some (withPath base (readPath .file (parentPath .file base.path) path).1 rest)

/-- Read a text without scheme in the place of any other url that has levels. -/
def relative? (base : Url) (input : List Char) : Option Url :=
  let kind := base.kind
  let (path, rest) := splitPath input
  match input with
  | [] => some (withFragment base [])
  | '?' :: _ => some (withTail base input)
  | '#' :: _ => some (withFragment base input)
  | c :: after =>
    if isSlash c then
      let slashes := (input.takeWhile isSlash).length
      if 2 ≤ slashes then
        match Text.dropStart? ['/', '/'] input with
        | some authority => afterSlashes? base.scheme authority
        | none => afterSlashes? base.scheme (input.drop slashes)
      else
        some (withPath base (readPath kind ['/'] (splitPath after).1).1 rest)
    else
      let parent := parentPath kind base.path
      let start := if parent.isEmpty then ['/'] else parent
      some (withPath base (readPath kind start path).1 rest)

/-- Read the text after a scheme. -/
def afterScheme? (base : Option Url) (scheme input : List Char) : Option Url :=
  match kindOf scheme with
  | .file => fileRelative? (base.filter fun b => b.kind = .file) input
  | .hosted =>
    let slashes := (input.takeWhile isSlash).length
    match base.filter fun b => b.scheme = scheme && decide (slashes < 2) with
    | some base => relative? base input
    | none => afterSlashes? scheme (input.drop slashes)
  | .other =>
    match Text.dropStart? ['/', '/'] input with
    | some rest => afterSlashes? scheme rest
    | none =>
      let (path, rest) := splitPath input
      let path :=
        match path with
        | '/' :: after => (readPath .other ['/'] after).1
        | _ => encode isControl path
      some (withTail ⟨scheme, none, path, none, none⟩ rest)

/-- Read a text, in the place of a base url if there is one. -/
def read? (base : Option Url) (text : String) : Option Url :=
  let input := clean text
  match scheme? input with
  | some (scheme, rest) => afterScheme? base scheme rest
  | none =>
    match base with
    | none => none
    | some base =>
      if input.head? = some '#' then some (withFragment base input)
      else if base.isFlat then none
      else if base.kind = .file then fileRelative? (some base) input
      else relative? base input

/-- The url that a text writes by itself. -/
def parse? (text : String) : Option Url :=
  read? none text

/-- The url that a text writes in the place of a base. -/
def join? (base : Url) (text : String) : Option Url :=
  read? (some base) text

end Url

end SchemaBundle
