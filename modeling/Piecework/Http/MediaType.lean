/-
# Piecework.Http.MediaType — what a content type says about a body.

A content type is a type and a subtype, with parameters behind semicolons.  The part of the subtype
behind its last plus sign is its suffix.  A body is JSON if the type is `application` and the subtype
or its suffix is `json`, in letters of either case; parameters have to be well formed, and say nothing.
-/
namespace Piecework.Http

/-- A character of a type, a subtype, a parameter name or a bare parameter value. -/
def isToken (c : Char) : Bool := c.isAlphanum || "!#$%&'+-.^_`|~".toList.contains c

/-- A character between the quotes of a parameter value. -/
def isQuotedPart (c : Char) : Bool := ' ' ≤ c && c < '\x7f'

/-- Where in the parameters a character stands. -/
inductive Parameter where
  /-- Before a name. -/
  | start
  /-- In a name. -/
  | name
  /-- Behind the equals sign. -/
  | equals
  /-- In a bare value. -/
  | value
  /-- Behind an opening quote. -/
  | opened
  /-- In a quoted value. -/
  | quoted
  /-- Behind a closing quote. -/
  | closed
deriving DecidableEq, Repr

/-- The place behind a character; none if it may not stand there. -/
def Parameter.next : Parameter → Char → Option Parameter
  | .start, c => if c = ' ' then some .start else if isToken c then some .name else none
  | .name, c => if c = '=' then some .equals else if isToken c then some .name else none
  | .equals, c => if c = '"' then some .opened else if isToken c then some .value else none
  | .value, c => if c = ';' then some .start else if isToken c then some .value else none
  | .opened, c => if isQuotedPart c then some .quoted else none
  | .quoted, c => if c = '"' then some .closed else if isQuotedPart c then some .quoted else none
  | .closed, c => if c = ';' then some .start else if c = ' ' then some .closed else none

/-- Whether parameters may end at a place. -/
def Parameter.isEnd : Parameter → Bool
  | .start | .equals | .value | .closed => true
  | .name | .opened | .quoted => false

/-- Whether parameters are well formed from a place on. -/
def areParameters : Parameter → List Char → Bool
  | place, [] => place.isEnd
  | place, c :: rest =>
    match place.next c with
    | some place => areParameters place rest
    | none => false

/-- A type, a subtype and its suffix, in small letters. -/
structure MediaType where
  type : List Char
  subtype : List Char
  suffix : Option (List Char)
deriving DecidableEq, Repr

namespace MediaType

/-- The subtype in front of the last plus sign, and the suffix behind it.  A plus sign at the very front
belongs to the subtype. -/
def splitSuffix (name : List Char) : List Char × Option (List Char) :=
  match name.reverse.dropWhile (· ≠ '+') with
  | _ :: c :: front => ((c :: front).reverse, some (name.reverse.takeWhile (· ≠ '+')).reverse)
  | _ => (name, none)

/-- Reads a content type. -/
def ofText? (text : String) : Option MediaType :=
  let small := text.toList.map Char.toLower
  match small.dropWhile isToken with
  | '/' :: rest =>
    let type := small.takeWhile isToken
    let (subtype, suffix) := splitSuffix (rest.takeWhile isToken)
    let wellFormed : Bool := match rest.dropWhile isToken with
      | [] => true
      | ';' :: parameters => areParameters .start parameters
      | _ => false
    if type ≠ [] ∧ wellFormed then some ⟨type, subtype, suffix⟩ else none
  | _ => none

/-- Whether a body of this type is JSON. -/
def isJson (m : MediaType) : Bool :=
  m.type = "application".toList ∧ (m.subtype = "json".toList ∨ m.suffix = some "json".toList)

end MediaType

/-- Whether a content type announces JSON. -/
def announcesJson (contentType : Option String) : Bool :=
  (contentType.bind MediaType.ofText?).any MediaType.isJson

example : announcesJson (some "Application/VND.api+JSON; a=\"b;c\" ; d=e") = true := by decide +kernel

example : announcesJson (some "application/+json") = false ∧
    announcesJson (some "application/json;a=\"\"") = false := by decide +kernel

end Piecework.Http
