/-
# Piecework.Json.Record — objects with known members.

A record type is described by the list of its members, each with a name and a codec.  It is written as
an object in the order of the list.  It is read from an object with the members in any order, each at
most once, with unknown ones passed over, or from an array with the values in order.
-/
import Piecework.Json.Codec
import Piecework.Json.Skip

namespace Piecework.Json

/-- One member of a record. -/
structure Member (α : Type) where
  name : String
  codec : Codec α
  /-- The value when an object lacks the member. -/
  absent : Option α
  /-- The value when an array ends before the member. -/
  short : Option α
  /-- Whether a value is written at all. -/
  shown : α → Bool

/-- A member that must be there. -/
def Member.required (name : String) (codec : Codec α) : Member α := ⟨name, codec, none, none, fun _ => true⟩

/-- A member that an object may lack. -/
def Member.optional (name : String) (codec : Codec α) : Member (Option α) :=
  ⟨name, codec.option, some none, none, fun _ => true⟩

/-- A member that is left out when it has no value, but counts as an element of an array. -/
def Member.hidden (name : String) (codec : Codec α) : Member (Option α) :=
  ⟨name, codec.option, some none, none, Option.isSome⟩

/-- A member that is left out when it has no value, in an array too. -/
def Member.spare (name : String) (codec : Codec α) : Member (Option α) :=
  ⟨name, codec.option, some none, some none, Option.isSome⟩

/-- The members of a record, with the type of all their values together. -/
inductive Members : Type → Type 1 where
  | one {α : Type} (m : Member α) : Members α
  | more {α β : Type} (m : Member α) (rest : Members β) : Members (α × β)

namespace Members

/-- How many members there are. -/
def count : Members τ → Nat
  | .one _ => 1
  | .more _ rest => rest.count + 1

/-! ## Writing -/

/-- One member with its name. -/
def field (m : Member α) (a : α) : List (List Char) :=
  if m.shown a then [writeString m.name.toList ++ ':' :: m.codec.write a] else []

/-- The members with their names, those that are not shown left out. -/
def fields : Members τ → τ → List (List Char)
  | .one m, a => field m a
  | .more m rest, (a, b) => field m a ++ rest.fields b

/-! ## What has been read -/

/-- The values of an object that is being read, as far as they are known. -/
def Draft : Members τ → Type
  | .one (α := α) _ => Option α
  | .more (α := α) _ rest => Option α × rest.Draft

/-- No value known. -/
def blank : (ms : Members τ) → ms.Draft
  | .one _ => none
  | .more _ rest => (none, rest.blank)

/-- Whether there is a member of this name. -/
def hasName (name : String) : Members τ → Bool
  | .one m => m.name = name
  | .more m rest => m.name = name || rest.hasName name

/-- Whether the member of this name has its value. -/
def isKnown (name : String) : (ms : Members τ) → ms.Draft → Bool
  | .one m, d => m.name = name && Option.isSome d
  | .more m rest, d => if m.name = name then d.1.isSome else rest.isKnown name d.2

/-- Reads the value of the member of this name. -/
def readMember (name : String) : (ms : Members τ) → ms.Draft → List Char → Reading ms.Draft
  | .one m, _, text => (m.codec.read text).map fun (a, rest) => (some a, rest)
  | .more m rest, d, text =>
    if m.name = name then (m.codec.read text).map fun (a, text) => ((some a, d.2), text)
    else (rest.readMember name d.2 text).map fun (e, text) => ((d.1, e), text)

/-- The value of a member at the end of an object. -/
def settle (m : Member α) (d : Option α) : Except Cause α :=
  match d, m.absent with
  | some a, _ => .ok a
  | none, some a => .ok a
  | none, none => .error (.missingMember m.name)

/-- All values at the end of an object.  The first member that is missing is the fault. -/
def finish : (ms : Members τ) → ms.Draft → Except Cause τ
  | .one m, d => settle m d
  | .more m rest, d =>
    match settle m d.1 with
    | .error cause => .error cause
    | .ok a =>
      match rest.finish d.2 with
      | .error cause => .error cause
      | .ok b => .ok (a, b)

/-! ## Reading objects -/

/-- Goes to the next key of an object, behind its opening quote, or sees that there is none.  The
closing brace stays. -/
def nextKey (first : Bool) (text : List Char) : Except Fault (Option (List Char)) :=
  match skipSpace text with
  | [] => .error (.here .objectUnfinished [])
  | c :: rest =>
    if c = '\x7d' then .ok none
    else if first then if c = '"' then .ok (some rest) else .error (.past .keyNotString (c :: rest))
    else if c = ',' then
      match skipSpace rest with
      | [] => .error (.here .valueUnfinished [])
      | d :: tail =>
        if d = '"' then .ok (some tail)
        else if d = '\x7d' then .error (.past .trailingComma (d :: tail))
        else .error (.past .keyNotString (d :: tail))
    else .error (.past .expectedObjectComma (c :: rest))

/-- Reads the members of an object from behind its opening brace.  Each round takes at least the quotes
of a key, so the length of the text bounds the rounds. -/
def readObject (ms : Members τ) : Nat → Bool → ms.Draft → List Char → Reading τ
  | 0, _, _, text => .error (.here .objectUnfinished text)
  | fuel + 1, first, draft, text =>
    match nextKey first text with
    | .error fault => .error fault
    | .ok none =>
      match ms.finish draft with
      | .ok a => .ok (a, text)
      | .error cause => .error (.unplaced cause text)
    | .ok (some text) =>
      match readString text with
      | .error fault => .error fault
      | .ok (key, rest) =>
        let name := String.ofList key
        if ms.isKnown name draft then .error (.unplaced (.duplicateMember name) rest)
        else
          match readColon rest with
          | .error fault => .error fault
          | .ok rest =>
            if ms.hasName name then
              match ms.readMember name draft rest with
              | .error fault => .error (fault.inside (.member name))
              | .ok (draft, rest) => readObject ms fuel false draft rest
            else
              match skipValue rest with
              | .error fault => .error (fault.inside (.member name))
              | .ok rest => readObject ms fuel false draft rest

/-- Closes an object: nothing but the brace may follow. -/
def closeObject (text : List Char) : Except Fault (List Char) :=
  match skipSpace text with
  | [] => .error (.here .objectUnfinished [])
  | c :: rest =>
    if c = '\x7d' then .ok rest
    else if c = ',' then .error (.past .trailingComma (c :: rest))
    else .error (.past .trailingCharacters (c :: rest))

/-- Where closing an object leaves the text, whatever is found. -/
def afterObject (text : List Char) : List Char :=
  match skipSpace text with
  | [] => []
  | c :: rest => if c = '\x7d' then rest else c :: rest

/-- Closes an object behind its content, and places a fault of the content that is pending. -/
def closingObject (content : Reading α) : Reading α :=
  match content with
  | .error fault => .error (fault.settle afterObject)
  | .ok (a, rest) => (closeObject rest).map fun rest => (a, rest)

/-! ## Reading arrays -/

/-- Reads one element as the value of a member. -/
def readElement (m : Member α) (expected : String) (index : Nat) (text : List Char) : Reading α :=
  match nextElement (index = 0) text with
  | .error fault => .error fault
  | .ok none =>
    match m.short with
    | some a => .ok (a, text)
    | none => .error (.unplaced (.wrongLength index expected) text)
  | .ok (some text) =>
    match m.codec.read text with
    | .error fault => .error (fault.inside (.element index))
    | .ok (a, rest) => .ok (a, rest)

/-- Reads the elements of an array as the values of the members in order. -/
def readArray (expected : String) : Members τ → Nat → List Char → Reading τ
  | .one m, index, text => readElement m expected index text
  | .more m rest, index, text =>
    match readElement m expected index text with
    | .error fault => .error fault
    | .ok (a, text) => (rest.readArray expected (index + 1) text).map fun (b, text) => ((a, b), text)

end Members

/-- Records.  The title stands for the type in messages. -/
def Codec.record (title : String) (ms : Members τ) (parts : α → τ) (make : τ → α) : Codec α where
  write a := '\x7b' :: (separated (ms.fields (parts a)) ++ ['\x7d'])
  read text :=
    let title := "struct " ++ title
    let elements := toString ms.count ++ (if ms.count = 1 then " element" else " elements")
    match skipSpace text with
    | [] => .error (.here .valueUnfinished [])
    | c :: rest =>
      if c = '\x7b' then
        (Members.closingObject (ms.readObject (rest.length + 1) true ms.blank rest)).map
          fun (b, rest) => (make b, rest)
      else if c = '[' then
        (closingList (ms.readArray (title ++ " with " ++ elements) 0 rest)).map
          fun (b, rest) => (make b, rest)
      else .error (mismatch title (c :: rest))

end Piecework.Json
