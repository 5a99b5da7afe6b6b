import Typographical.Yaml.Mark

/-!
# What can be wrong with a document

A fault has a wording and, mostly, the number of a line. The line is that of
the construct in which the trouble arose if this is not the first line, else
that of the trouble itself, and none is given if both are the first line. Lines
are counted from one for faults inside a token, and from zero for others.

A fault of the text itself has no place of its own. If it is met after another
fault, it is reported at the place of that one.
-/

namespace Typographical

namespace Yaml

inductive Problem where
  | controlCharacter
  | strayCharacter
  | keyWithoutColon
  | misplacedEntry
  | misplacedKey
  | misplacedValue
  | noDirectiveName
  | badDirectiveName
  | unknownDirective
  | textAfterHeader
  | noVersionNumber
  | badVersionNumber
  | longVersionNumber
  | noName
  | unclosedTag
  | textAfterTag
  | noTagMark
  | noTag
  | noTagSpace
  | noOctet
  | badFirstOctet
  | badLaterOctet
  | tooDeep
  | zeroIndentation
  | tabInMargin
  | tabInScalar
  | documentMarkInScalar
  | unclosedScalar
  | unknownEscape
  | badEscapeDigits
  | badEscapeCode
  | noDocumentStart
  | secondVersion
  | unsupportedVersion
  | secondTagHandle
  | unknownTagHandle
  | noNode
  | noEntry
  | noKey
  | openSequence
  | openMapping
  | unknownAnchor (name : String)
  | selfReference (name : String)
  | manyReferences
  | badMerge
  | badBase64
  | otherTag (found value wanted : String)
  deriving DecidableEq

def depthLimit : Nat := 10000

def Problem.message : Problem → String
  | controlCharacter => "control characters are not allowed"
  | strayCharacter => "found character that cannot start any token"
  | keyWithoutColon => "could not find expected ':'"
  | misplacedEntry => "block sequence entries are not allowed in this context"
  | misplacedKey => "mapping keys are not allowed in this context"
  | misplacedValue => "mapping values are not allowed in this context"
  | noDirectiveName => "could not find expected directive name"
  | badDirectiveName => "found unexpected non-alphabetical character"
  | unknownDirective => "found unknown directive name"
  | textAfterHeader => "did not find expected comment or line break"
  | noVersionNumber => "did not find expected version number"
  | badVersionNumber => "did not find expected digit or '.' character"
  | longVersionNumber => "found extremely long version number"
  | noName => "did not find expected alphabetic or numeric character"
  | unclosedTag => "did not find the expected '>'"
  | textAfterTag => "did not find expected whitespace or line break"
  | noTagMark => "did not find expected '!'"
  | noTag => "did not find expected tag URI"
  | noTagSpace => "did not find expected whitespace"
  | noOctet => "did not find URI escaped octet"
  | badFirstOctet => "found an incorrect leading UTF-8 octet"
  | badLaterOctet => "found an incorrect trailing UTF-8 octet"
  | tooDeep => "exceeded max depth of " ++ toString depthLimit
  | zeroIndentation => "found an indentation indicator equal to 0"
  | tabInMargin => "found a tab character where an indentation space is expected"
  | tabInScalar => "found a tab character that violates indentation"
  | documentMarkInScalar => "found unexpected document indicator"
  | unclosedScalar => "found unexpected end of stream"
  | unknownEscape => "found unknown escape character"
  | badEscapeDigits => "did not find expected hexdecimal number"
  | badEscapeCode => "found invalid Unicode character escape code"
  | noDocumentStart => "did not find expected <document start>"
  | secondVersion => "found duplicate %YAML directive"
  | unsupportedVersion => "found incompatible YAML document"
  | secondTagHandle => "found duplicate %TAG directive"
  | unknownTagHandle => "found undefined tag handle"
  | noNode => "did not find expected node content"
  | noEntry => "did not find expected '-' indicator"
  | noKey => "did not find expected key"
  | openSequence => "did not find expected ',' or ']'"
  | openMapping => "did not find expected ',' or '\x7d'"
  | unknownAnchor name => "unknown anchor '" ++ name ++ "' referenced"
  | selfReference name => "anchor '" ++ name ++ "' value contains itself"
  | manyReferences => "document contains excessive aliasing"
  | badMerge => "map merge requires map or sequence of maps as the value"
  | badBase64 => "!!binary value contains invalid base64 data"
  | otherTag found value wanted =>
    "cannot decode " ++ found ++ " `" ++ value ++ "` as a " ++ wanted

/-- Where a problem shows: in the text as such, inside a token, in the order of
tokens, or in the document as a whole. -/
inductive Stage where
  | text
  | token
  | order
  | whole
  deriving DecidableEq

/-- A problem, with the marks of the construct that it arose in and of the
trouble itself. -/
structure Fault where
  problem : Problem
  stage : Stage
  construct : Mark
  trouble : Mark
  deriving DecidableEq

namespace Fault

def inText (p : Problem) : Fault := ⟨p, .text, .origin, .origin⟩

def inToken (p : Problem) (start trouble : Mark) : Fault := ⟨p, .token, start, trouble⟩

/-- A fault in the order of tokens, within a construct that began at a mark. -/
def inOrder (p : Problem) (start trouble : Mark) : Fault := ⟨p, .order, start, trouble⟩

/-- A fault of no particular line. -/
def overall (p : Problem) : Fault := ⟨p, .whole, .origin, .origin⟩

/-- A fault that is met after another one, if there was one. -/
def after (f : Fault) : Option Fault → Fault
  | none => f
  | some earlier =>
    if f.stage = .text then
      { f with construct := earlier.construct, trouble := earlier.trouble }
    else f

/-- The line that the marks point to, if it is not the first one. -/
def markedLine (f : Fault) : Option Nat :=
  if f.construct.line ≠ 0 then some f.construct.line
  else if f.trouble.line ≠ 0 then some f.trouble.line
  else none

def line (f : Fault) : Option Nat :=
  match f.stage with
  | .text | .order => f.markedLine
  | .token => f.markedLine.map (· + 1)
  | .whole => none

def message (f : Fault) : String :=
  let place :=
    match f.line with
    | some n => "line " ++ toString n ++ ": "
    | none => ""
  "yaml: " ++ place ++ f.problem.message

end Fault

end Yaml

end Typographical
