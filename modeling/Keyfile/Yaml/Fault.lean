import Keyfile.Yaml.Mark

/-!
# Faults in YAML text

A fault is a problem at a position, often with what was being read and where that began.
-/
namespace Keyfile.Yaml

/-- What was being read. -/
inductive Context where
  | nextToken
  | simpleKey
  | directive
  | versionDirective
  | tagDirective
  | tagDirectiveHandle
  | tagDirectiveHandleEnd
  | tagDirectiveUri
  | anchorName
  | aliasName
  | tag
  | tagUri
  | blockScalar
  | quotedScalar
  | quotedEscape
  | plainScalar
  | node
  | blockNode
  | flowNode
  | blockSequence
  | blockMapping
  | flowSequence
  | flowMapping
  deriving DecidableEq

def Context.message : Context → String
  | nextToken => "while scanning for the next token"
  | simpleKey => "while scanning a simple key"
  | directive => "while scanning a directive"
  | versionDirective => "while scanning a %YAML directive"
  | tagDirective => "while scanning a %TAG directive"
  | tagDirectiveHandle => "while scanning a tag directive"
  | tagDirectiveHandleEnd => "while parsing a tag directive"
  | tagDirectiveUri => "while parsing a %TAG directive"
  | anchorName => "while scanning an anchor"
  | aliasName => "while scanning an alias"
  | tag => "while scanning a tag"
  | tagUri => "while parsing a tag"
  | blockScalar => "while scanning a block scalar"
  | quotedScalar => "while scanning a quoted scalar"
  | quotedEscape => "while parsing a quoted scalar"
  | plainScalar => "while scanning a plain scalar"
  | node => "while parsing a node"
  | blockNode => "while parsing a block node"
  | flowNode => "while parsing a flow node"
  | blockSequence => "while parsing a block collection"
  | blockMapping => "while parsing a block mapping"
  | flowSequence => "while parsing a flow sequence"
  | flowMapping => "while parsing a flow mapping"

inductive Problem where
  | forbiddenCharacter
  | noTokenStart
  | missingColon
  | sequenceNotAllowed
  | keyNotAllowed
  | valueNotAllowed
  | unknownDirective
  | missingDirectiveName
  | badDirectiveName
  | missingCommentOrBreak
  | missingVersionDigit
  | longVersion
  | missingVersion
  | missingSpace
  | missingSpaceOrBreak
  | missingName
  | missingVerbatimEnd
  | missingBang
  | missingUri
  | missingUriEscape
  | badUriLead
  | badUriTrail
  | zeroIndentation
  | tabForSpace
  | separatorInScalar
  | endInScalar
  | unknownEscape
  | missingHexDigits
  | badCodePoint
  | unexpectedColon
  | tabIndentation
  | missingStreamStart
  | missingDocumentStart
  | duplicateVersion
  | incompatibleVersion
  | duplicateTag
  | undefinedHandle
  | missingContent
  | missingDash
  | missingKey
  | missingCommaOrBracket
  | missingCommaOrBrace
  deriving DecidableEq

def Problem.message : Problem → String
  | forbiddenCharacter => "control characters are not allowed"
  | noTokenStart => "found character that cannot start any token"
  | missingColon => "could not find expected ':'"
  | sequenceNotAllowed => "block sequence entries are not allowed in this context"
  | keyNotAllowed => "mapping keys are not allowed in this context"
  | valueNotAllowed => "mapping values are not allowed in this context"
  | unknownDirective => "found unknown directive name"
  | missingDirectiveName => "could not find expected directive name"
  | badDirectiveName => "found unexpected non-alphabetical character"
  | missingCommentOrBreak => "did not find expected comment or line break"
  | missingVersionDigit => "did not find expected digit or '.' character"
  | longVersion => "found extremely long version number"
  | missingVersion => "did not find expected version number"
  | missingSpace => "did not find expected whitespace"
  | missingSpaceOrBreak => "did not find expected whitespace or line break"
  | missingName => "did not find expected alphabetic or numeric character"
  | missingVerbatimEnd => "did not find the expected '>'"
  | missingBang => "did not find expected '!'"
  | missingUri => "did not find expected tag URI"
  | missingUriEscape => "did not find URI escaped octet"
  | badUriLead => "found an incorrect leading UTF-8 octet"
  | badUriTrail => "found an incorrect trailing UTF-8 octet"
  | zeroIndentation => "found an indentation indicator equal to 0"
  | tabForSpace => "found a tab character where an indentation space is expected"
  | separatorInScalar => "found unexpected document indicator"
  | endInScalar => "found unexpected end of stream"
  | unknownEscape => "found unknown escape character"
  | missingHexDigits => "did not find expected hexadecimal number"
  | badCodePoint => "found invalid Unicode character escape code"
  | unexpectedColon => "found unexpected ':'"
  | tabIndentation => "found a tab character that violates indentation"
  | missingStreamStart => "did not find expected <stream-start>"
  | missingDocumentStart => "did not find expected <document start>"
  | duplicateVersion => "found duplicate %YAML directive"
  | incompatibleVersion => "found incompatible YAML document"
  | duplicateTag => "found duplicate %TAG directive"
  | undefinedHandle => "found undefined tag handle"
  | missingContent => "did not find expected node content"
  | missingDash => "did not find expected '-' indicator"
  | missingKey => "did not find expected key"
  | missingCommaOrBracket => "did not find expected ',' or ']'"
  | missingCommaOrBrace => "did not find expected ',' or '\x7d'"

structure Fault where
  problem : Problem
  mark : Mark
  /-- Bytes before a character that may not stand in the text; zero for every other problem. -/
  offset : Nat := 0
  context : Option (Context × Mark) := none
  deriving DecidableEq

/-- A problem found while something was being read that began at `start`. -/
def Fault.within (context : Context) (start : Mark) (problem : Problem) (mark : Mark) : Fault :=
  { problem, mark, context := some (context, start) }

/-- The message of a fault. A position at the very start of the text is left out, and so is the
start of what was being read when it is the position of the problem. -/
def Fault.message (f : Fault) : String :=
  f.problem.message ++
    (if !f.mark.isStart then " at " ++ f.mark.text
     else if f.offset ≠ 0 then " at position " ++ toString f.offset
     else "") ++
    match f.context with
    | none => ""
    | some (context, start) =>
      ", " ++ context.message ++
        (if start.isStart || (start.line = f.mark.line && start.column = f.mark.column) then ""
         else " at " ++ start.text)

/-- What was read from the front of a text, and the fault that ended reading, if one did. -/
structure Stream (α : Type) where
  items : List α
  fault : Option Fault

end Keyfile.Yaml
