import Kb1Daemon.Foundation.JsString

/-! # Appending and prepending to a note

`appendContent` and `prependContent` compute the text of a note after an
addition. Both normalise the addition's line endings and leave the note's own
text as it is; prepending goes below a closed frontmatter block.
-/

namespace Kb1Daemon

open JsString

/-- `value.replace(/\r\n/g, '\n')`. -/
def replaceCrLf : JsString → JsString
  | [] => []
  | [unit] => [unit]
  | first :: second :: rest =>
      if first = carriageReturn ∧ second = lineFeed then lineFeed :: replaceCrLf rest
      else first :: replaceCrLf (second :: rest)

/-- `value.replace(/\r/g, '\n')`. -/
def replaceCr (value : JsString) : JsString :=
  value.map fun unit => if unit = carriageReturn then lineFeed else unit

/-- Every line ending as one line feed. -/
def lfNormalize (value : JsString) : JsString := replaceCr (replaceCrLf value)

/-- The note with an addition at its end. -/
def appendContent (content addition : JsString) : JsString := content ++ lfNormalize addition

/-- The frontmatter delimiter `---`. -/
def frontmatterDelimiter : JsString := [45, 45, 45]

/-- For the text from a line's start: the length of the line, and the length of
the line with its line ending. -/
def nextLineEnd : JsString → Nat × Nat
  | [] => (0, 0)
  | unit :: rest =>
      if unit = lineFeed then (0, 1)
      else if unit = carriageReturn then (0, if rest.head? = some lineFeed then 2 else 1)
      else ((nextLineEnd rest).1 + 1, (nextLineEnd rest).2 + 1)

/-- The length of the match of `/^---(?:\r\n|\n|\r)/`. -/
def frontmatterOpening (content : JsString) : Option Nat :=
  if content.take 3 = frontmatterDelimiter then
    match content.drop 3 with
    | [] => none
    | unit :: rest =>
        if unit = lineFeed then some 4
        else if unit = carriageReturn then some (if rest.head? = some lineFeed then 5 else 4)
        else none
  else none

/-- The scan for the closing delimiter from the start of a line. Every line
takes at least one unit, so the length of the text is fuel enough. -/
def frontmatterClosing (content : JsString) : (fuel lineStart : Nat) → Option Nat
  | 0, _ => none
  | fuel + 1, lineStart =>
      if lineStart < content.length then
        let rest := content.drop lineStart
        let lineEnd := nextLineEnd rest
        if trim (rest.take lineEnd.1) = frontmatterDelimiter then some (lineStart + lineEnd.2)
        else frontmatterClosing content fuel (lineStart + lineEnd.2)
      else none

/-- The offset just below a closed frontmatter block, if the note starts with
one. -/
def frontmatterInsertionPoint (content : JsString) : Option Nat :=
  (frontmatterOpening content).bind fun opening =>
    frontmatterClosing content content.length opening

/-- The value ends with a line feed or a carriage return. -/
def endsWithLineEnding (value : JsString) : Bool :=
  value.getLast? = some lineFeed || value.getLast? = some carriageReturn

/-- The note with an addition at its start, or below its frontmatter. -/
def prependContent (content addition : JsString) : JsString :=
  let normalizedAddition := lfNormalize addition
  let insertionPoint := (frontmatterInsertionPoint content).getD 0
  let separator : JsString :=
    if 0 < insertionPoint ∧ 0 < normalizedAddition.length ∧
        ¬ endsWithLineEnding (content.take insertionPoint) then [lineFeed]
    else []
  content.take insertionPoint ++ separator ++ normalizedAddition ++ content.drop insertionPoint

end Kb1Daemon
