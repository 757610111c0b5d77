import FieldQuery.Accessor
import FieldQuery.Integer64
import FieldQuery.Path.Quotes
import FieldQuery.Text.Blank

/-!
# Steps of a plain path

A plain path is cut at dots and brackets outside quotes. What stands between
brackets is a quoted key or an index, and what stands outside them is a key
as it is. The first step is the root sign. A star at the end names the same
node as the path without it and is dropped.
-/

namespace FieldQuery
namespace Path

/-- One step of a plain path. -/
inductive Step where
  | root
  | access (accessor : Accessor)
deriving DecidableEq

namespace Step

/-- The text of a step. -/
def text :
    Step → String
  | root => "$"
  | access (.key name) =>
      let escaped := name.toList.flatMap fun c =>
        if c = '\'' then
          ['\\', '\'']
        else
          [c]
      "['" ++ String.ofList escaped ++ "']"
  | access (.index i) => "[" ++ toString i ++ "]"

/-- The accessors among some steps. -/
def accessors
    (steps : List Step) :
    List Accessor :=
  steps.filterMap fun
    | root => none
    | access accessor => some accessor

/-- A part of a plain path before it is taken for a step. -/
inductive Part where
  | bare (text : List Char)
  | bracketed (text : List Char)
deriving DecidableEq

/-- A part from its characters, last first, unless it has none. -/
def Part.flush
    (make : List Char → Part)
    (reversed : List Char) :
    List Part :=
  if reversed.isEmpty then
    []
  else
    [make reversed.reverse]

/--
The parts of a text from a position on. `pending` holds the characters of
the part being read, last first. There are none if the brackets do not match
or are empty, or if a dot stands between them.
-/
def parts
    (spans : List Span)
    (inBracket : Bool)
    (pending : List Char)
    (position : Nat) :
    List Char → Option (List Part)
  | [] =>
      if inBracket then
        none
      else
        some (Part.flush .bare pending)
  | c :: rest =>
      if isCovered spans position || !(c = '.' || c = '[' || c = ']') then
        parts spans inBracket (c :: pending) (position + 1) rest
      else if c = ']' then
        if !inBracket || pending.isEmpty then
          none
        else
          (parts spans false [] (position + 1) rest).map
            (Part.flush .bracketed pending ++ ·)
      else if inBracket then
        none
      else
        (parts spans (c = '[') [] (position + 1) rest).map
          (Part.flush .bare pending ++ ·)

/-- Parts without a bare star at the end, unless it is the only one. -/
def withoutStar
    (all : List Part) :
    List Part :=
  if 1 < all.length && all.getLast? = some (.bare ['*']) then
    all.dropLast
  else
    all

/-- A key in which a backslash stands for the character after it. -/
def unescaped :
    List Char → List Char
  | [] => []
  | ['\\'] => []
  | '\\' :: c :: rest => c :: unescaped rest
  | c :: rest => c :: unescaped rest

/-- What stands between a quote and the same quote at the end of a text. -/
def unquoted?
    (quote : Char) :
    List Char → Option (List Char)
  | [] => none
  | first :: rest =>
      if first = quote && rest.getLast? = some quote then
        some rest.dropLast
      else
        none

/-- The accessor that stands between two brackets. -/
def bracketed?
    (content : List Char) :
    Option Accessor :=
  let content := Text.trim content
  match unquoted? '\'' content, unquoted? '"' content with
  | some key, _ => some (.key (String.ofList (unescaped key)))
  | none, some key => some (.key (String.ofList (unescaped key)))
  | none, none => (Integer64.read? content).map .index

/-- The accessor that a part stands for. -/
def ofPart? :
    Part → Option Accessor
  | .bare name => some (.key (String.ofList name))
  | .bracketed content => bracketed? content

/-- The accessors that some parts stand for. -/
def ofParts? :
    List Part → Option (List Accessor)
  | [] => some []
  | part :: rest =>
      match ofPart? part, ofParts? rest with
      | some accessor, some accessors => some (accessor :: accessors)
      | _, _ => none

/-- The steps of a plain path, the root sign first. -/
def ofText?
    (path : String) :
    Option (List Step) :=
  let text := path.toList
  match (parts (quotedSpans text) false [] 0 text).map withoutStar with
  | some (.bare ['$'] :: rest) =>
      (ofParts? rest).map fun accessors => root :: accessors.map access
  | _ => none

end Step
end Path
end FieldQuery
