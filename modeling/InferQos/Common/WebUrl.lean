import Mathlib.Data.List.Basic
import Mathlib.Data.String.Basic
/-!
# Resolving a URL reference

How the URL standard reads a reference against a base, as far as the
origin goes. A reference either spells out a URL, by a scheme of its own or
by two slashes, or it keeps the scheme, the host and the port of its base:
`spelled` decides between the two, `absolute` reads what is spelled out,
and `join_origin` says that there is nothing else. How a host is read
(international names, IPv4 numbers, escapes) is a parameter, and paths stay
as they are written.
-/

namespace InferQos

/-- What a URL may fail with. -/
inductive UrlError
  | emptyHost
  | invalidPort
  | relativeUrlWithoutBase
  | relativeUrlWithCannotBeABaseBase
  /-- The host is refused, with this text. -/
  | host (text : String)
  deriving DecidableEq

/-- The texts of the errors. -/
def UrlError.toString : UrlError → String
  | emptyHost => "empty host"
  | invalidPort => "invalid port number"
  | relativeUrlWithoutBase => "relative URL without a base"
  | relativeUrlWithCannotBeABaseBase => "relative URL with a cannot-be-a-base base"
  | host text => text

/-- Where a URL points to. The port is `none` where it is the default of
the scheme. -/
@[ext]
structure Origin where
  scheme : String
  host : Option String
  port : Option ℕ
  deriving DecidableEq

/-- A parsed URL. -/
structure WebUrl extends Origin where
  /-- A path no reference can be relative to. -/
  cannotBeABase : Bool
  /-- The path, the query and the fragment, as they are written. -/
  tail : List Char
  deriving DecidableEq

namespace WebUrl

/-! ## Characters -/

/-- The special schemes, with their default ports. -/
def specialPort : String → Option (Option ℕ)
  | "ftp" => some (some 21)
  | "file" => some none
  | "http" => some (some 80)
  | "https" => some (some 443)
  | "ws" => some (some 80)
  | "wss" => some (some 443)
  | _ => none

def isSpecial (scheme : String) : Bool := (specialPort scheme).isSome

/-- A backslash is a slash after a special scheme. -/
def isSlash (special : Bool) (c : Char) : Bool := c == '/' || (special && c == '\\')

/-- A C0 control or a space. -/
def isBlank (c : Char) : Bool := decide (c.toNat ≤ 0x20)

/-- The input without blanks at its ends, tabs and newlines. -/
def clean (input : List Char) : List Char :=
  ((input.dropWhile isBlank).reverse.dropWhile isBlank).reverse.filter fun c =>
    c != '\t' && c != '\n' && c != '\r'

def isSchemeChar (c : Char) : Bool := c.isAlphanum || c == '+' || c == '-' || c == '.'

/-- A scheme in lower case, and what follows its colon. -/
def splitScheme (cs : List Char) : Option (String × List Char) :=
  match cs with
  | [] => none
  | c :: _ =>
    if c.isAlpha then
      match cs.dropWhile isSchemeChar with
      | ':' :: rest => some (String.ofList ((cs.takeWhile isSchemeChar).map Char.toLower), rest)
      | _ => none
    else none

/-- Two slashes announce an authority. -/
def twoSlashes (special : Bool) : List Char → Bool
  | c :: c' :: _ => isSlash special c && isSlash special c'
  | _ => false

/-! ## What is spelled out -/

/-- An authority and what follows it. -/
def splitAuthority (special : Bool) (cs : List Char) : List Char × List Char :=
  cs.span fun c => !(isSlash special c || c == '?' || c == '#')

/-- What follows the last `@`. -/
def hostAndPort (authority : List Char) : List Char :=
  (authority.reverse.takeWhile (· != '@')).reverse

/-- A host, and the port after the first colon outside brackets. -/
def splitPort (bracketed : Bool) : List Char → List Char × Option (List Char)
  | [] => ([], none)
  | c :: cs =>
    if c == ':' && !bracketed then ([], some cs)
    else
      let r := splitPort (c == '[' || (bracketed && c != ']')) cs
      (c :: r.1, r.2)

/-- The number of a port. -/
def portNumber (digits : List Char) : ℕ := digits.foldl (fun n c => n * 10 + (c.toNat - 48)) 0

/-- A port after a colon; the default of the scheme is left out. -/
def readPort (scheme : String) (digits : List Char) : Except UrlError (Option ℕ) :=
  if digits.all Char.isDigit && decide (portNumber digits ≤ 65535) then
    .ok (if digits.isEmpty || specialPort scheme == some (some (portNumber digits)) then none
      else some (portNumber digits))
  else .error .invalidPort

/-- **An authority**: the host and the port it names. `parseHost` is told
whether the scheme is special. -/
def authority (parseHost : Bool → String → Except String String) (scheme : String)
    (cs : List Char) : Except UrlError WebUrl :=
  let special := isSpecial scheme
  let (name, tail) := splitAuthority special cs
  let (host, port) := splitPort false (hostAndPort name)
  if host.isEmpty then
    if special || port.isSome || name.contains '@' then .error .emptyHost
    else .ok ⟨⟨scheme, none, none⟩, false, tail⟩
  else
    match parseHost special (String.ofList host) with
    | .error e => .error (.host e)
    | .ok host =>
      match port.elim (.ok none) (readPort scheme) with
      | .error e => .error e
      | .ok port => .ok ⟨⟨scheme, some host, port⟩, false, tail⟩

/-- A drive letter in the place of a host. -/
def isDrive : List Char → Bool
  | [c, c'] => c.isAlpha && (c' == ':' || c' == '|')
  | _ => false

/-- The host of a `file` URL, which has no port. -/
def fileHost (parseHost : Bool → String → Except String String) (cs : List Char) :
    Except UrlError WebUrl :=
  let (name, tail) := splitAuthority true cs
  if name.isEmpty || isDrive name then .ok ⟨⟨"file", none, none⟩, false, cs⟩
  else
    match parseHost true (String.ofList name) with
    | .error e => .error (.host e)
    | .ok host =>
      .ok ⟨⟨"file", if host == "localhost" then none else some host, none⟩, false, tail⟩

/-- **A URL spelled out**: a scheme, and what follows its colon. -/
def absolute (parseHost : Bool → String → Except String String) (scheme : String)
    (rest : List Char) : Except UrlError WebUrl :=
  if scheme == "file" then
    if twoSlashes true rest then fileHost parseHost (rest.drop 2)
    else .ok ⟨⟨"file", none, none⟩, false, rest⟩
  else if isSpecial scheme then authority parseHost scheme (rest.dropWhile (isSlash true))
  else if twoSlashes false rest then authority parseHost scheme (rest.drop 2)
  else .ok ⟨⟨scheme, none, none⟩, !rest.head?.any (· == '/'), rest⟩

/-- `Url::parse`. -/
def parse (parseHost : Bool → String → Except String String) (input : String) :
    Except UrlError WebUrl :=
  match splitScheme (clean input.toList) with
  | none => .error .relativeUrlWithoutBase
  | some (scheme, rest) => absolute parseHost scheme rest

/-! ## References -/

/-- **The URL a reference spells out**, as a scheme and what follows its
colon: a scheme of its own, unless it repeats the special scheme of the
base without two slashes, or two slashes under the scheme of the base. -/
def spelled (base : WebUrl) (reference : List Char) : Option (String × List Char) :=
  match splitScheme reference with
  | some (scheme, rest) =>
    if isSpecial scheme && scheme == base.scheme && !twoSlashes true rest then none
    else some (scheme, rest)
  | none =>
    if !base.cannotBeABase && twoSlashes (isSpecial base.scheme) reference then
      some (base.scheme, reference)
    else none

/-- **`Url::join`.** -/
def join (parseHost : Bool → String → Except String String) (base : WebUrl) (input : String) :
    Except UrlError WebUrl :=
  let reference := clean input.toList
  match spelled base reference with
  | some (scheme, rest) => absolute parseHost scheme rest
  | none =>
    if base.cannotBeABase && !reference.head?.any (· == '#') then
      .error .relativeUrlWithCannotBeABaseBase
    else .ok { base with tail := reference }

variable {parseHost : Bool → String → Except String String} {base url : WebUrl} {input : String}

/-- **A reference spells out its URL, or keeps the origin of its base.** -/
theorem join_origin (h : join parseHost base input = .ok url) :
    (∃ scheme rest, spelled base (clean input.toList) = some (scheme, rest) ∧
        absolute parseHost scheme rest = .ok url) ∨
      spelled base (clean input.toList) = none ∧ url.toOrigin = base.toOrigin := by
  simp only [join] at h
  split at h
  · rename_i scheme rest hspelled
    exact Or.inl ⟨scheme, rest, hspelled, h⟩
  · rename_i hspelled
    split at h
    · cases h
    · cases h
      exact Or.inr ⟨hspelled, rfl⟩

/-- What is spelled out is what the reference resolves to. -/
theorem join_spelled {scheme : String} {rest : List Char}
    (h : spelled base (clean input.toList) = some (scheme, rest)) :
    join parseHost base input = absolute parseHost scheme rest := by
  simp only [join, h]

end WebUrl

end InferQos
