import Kb1Daemon.Foundation.IsoTime
import Kb1Daemon.Foundation.Json
import Kb1Daemon.Text.Lines
import Kb1Daemon.History.Entries

/-! # Commit messages of the file history

An entry of the history is committed with a message that shows it to a reader and repeats
it in trailers; the list of a file's versions is read back from the trailers.
-/

namespace Kb1Daemon

open JsString

/-- A printed unit of ASCII that is no blank. -/
def isTokenUnit (unit : CodeUnit) : Bool := 33 ≤ unit && unit ≤ 126

/-- An id, a time stamp or a hash: a text of printed ASCII units without blanks. -/
abbrev Token := { text : JsString // text.all isTokenUnit = true }

/-- A number in decimal, filled up with zeros. -/
def padded (width number : Nat) : JsString :=
  List.replicate (width - (decimal number).length) 48 ++ decimal number

/-- The year, month and day of a day counted from the first of January 1970. -/
def civilDate (day : Nat) : Nat × Nat × Nat :=
  let shifted := day + 719468
  let era := shifted / 146097
  let dayOfEra := shifted % 146097
  let yearOfEra := (dayOfEra - dayOfEra / 1460 + dayOfEra / 36524 - dayOfEra / 146096) / 365
  let dayOfYear := dayOfEra - (365 * yearOfEra + yearOfEra / 4 - yearOfEra / 100)
  let shiftedMonth := (5 * dayOfYear + 2) / 153
  let month := if shiftedMonth < 10 then shiftedMonth + 3 else shiftedMonth - 9
  let year := yearOfEra + era * 400
  (if month ≤ 2 then year + 1 else year, month, dayOfYear - (153 * shiftedMonth + 2) / 5 + 1)

/-- `Date.prototype.toISOString`. -/
def toISOString (now : Nat) : JsString :=
  let date := civilDate (now / 86400000)
  let time := now % 86400000
  (if date.1 ≤ 9999 then padded 4 date.1 else 43 :: padded 6 date.1) ++
    45 :: padded 2 date.2.1 ++ 45 :: padded 2 date.2.2 ++
    84 :: padded 2 (time / 3600000) ++ 58 :: padded 2 (time / 60000 % 60) ++
    58 :: padded 2 (time / 1000 % 60) ++ 46 :: padded 3 (time % 1000) ++ [90]

theorem digitsOf_zero (count : Nat) : IsoTime.digitsOf count 0 = List.replicate count 48 := by
  induction count with
  | zero => rfl
  | succ count ih => rw [IsoTime.digitsOf, Nat.zero_div, ih, List.replicate_succ']; rfl

/-- A number in decimal lacks the zeros in front. -/
theorem decimalLoop_digitsOf {count fuel number : Nat} (text : JsString) (fueled : number < fuel)
    (small : number < 10 ^ (count + 1)) : ∃ zeros,
      List.replicate zeros 48 ++ decimalLoop fuel number text =
        IsoTime.digitsOf (count + 1) number ++ text := by
  induction count generalizing fuel number text with
  | zero =>
      obtain ⟨fuel, rfl⟩ := Nat.exists_eq_succ_of_ne_zero (Nat.ne_of_gt (Nat.zero_lt_of_lt fueled))
      refine ⟨0, ?_⟩
      rw [decimalLoop, if_pos (by omega)]
      rfl
  | succ count ih =>
      obtain ⟨fuel, rfl⟩ := Nat.exists_eq_succ_of_ne_zero (Nat.ne_of_gt (Nat.zero_lt_of_lt fueled))
      rw [decimalLoop, IsoTime.digitsOf, List.append_assoc, List.singleton_append]
      by_cases last : number / 10 = 0
      · refine ⟨count + 1, ?_⟩
        rw [if_pos last, last, digitsOf_zero]
      · rw [if_neg last]
        exact ih _ (by omega) (by omega)

/-- A number that is filled up to some digits. -/
theorem padded_eq {count number : Nat} (small : number < 10 ^ (count + 1)) :
    padded (count + 1) number = IsoTime.digitsOf (count + 1) number := by
  obtain ⟨zeros, same⟩ := decimalLoop_digitsOf [] (Nat.lt_succ_self number) small
  rw [List.append_nil] at same
  have length := congrArg List.length same
  rw [List.length_append, List.length_replicate, IsoTime.length_digitsOf] at length
  have filled : count + 1 - (decimal number).length = zeros := by
    change zeros + (decimal number).length = count + 1 at length
    omega
  rw [padded, filled]
  exact same

/-- The year of a day, of which the centuries, the cycles of four years and the years are known. -/
theorem yearOfEra_eq {century cycle year day : Nat} (centuries : century ≤ 3) (cycles : cycle ≤ 24)
    (years : year ≤ 3) (days : day ≤ 365)
    (leap : day = 365 → year = 3 ∧ (cycle ≠ 24 ∨ century = 3)) {whole : Nat}
    (same : whole = 36524 * century + 1461 * cycle + 365 * year + day) :
    (whole - whole / 1460 + whole / 36524 - whole / 146096) / 365 =
      100 * century + 4 * cycle + year := by
  by_cases last : whole = 146096
  · subst last
    omega
  have quarters : whole / 1460 = 25 * century + cycle +
      if 1460 ≤ 24 * century + cycle + 365 * year + day then 1 else 0 := by
    split_ifs <;> omega
  have hundreds : whole / 36524 = century := by omega
  have eras : whole / 146096 = 0 := by omega
  rw [quarters, hundreds, eras]
  split_ifs <;> omega

/-- The date of a day is the one that the era's days are counted for. -/
theorem civilDate_eq (day : Nat) :
    IsoTime.dateOfDay day =
      ⟨(civilDate day).1, (civilDate day).2.1, (civilDate day).2.2⟩ := by
  have within : (day + 719468) % 146097 < 146097 := Nat.mod_lt _ (by decide)
  obtain ⟨early, whole, short, leap⟩ := IsoTime.yearDay_spec within
  have era : ((day : Int) + 719468) / 146097 = ((day + 719468) / 146097 : Nat) := by omega
  have rest : (((day : Int) + 719468) % 146097).toNat = (day + 719468) % 146097 := by omega
  unfold civilDate
  rw [IsoTime.dateOfDay, era, rest, IsoTime.dateInEra]
  dsimp only
  generalize (day + 719468) % 146097 = dayOfEra at within early whole short leap
  generalize IsoTime.yearDay dayOfEra = inEra at early whole short leap
  unfold IsoTime.startOfYear at whole
  have year := @yearOfEra_eq (inEra.year / 100) (inEra.year / 4 - 25 * (inEra.year / 100))
    (inEra.year % 4) inEra.day (by omega) (by omega) (by omega) (by omega) (by omega) dayOfEra
    (by omega)
  have same : 100 * (inEra.year / 100) + 4 * (inEra.year / 4 - 25 * (inEra.year / 100)) +
      inEra.year % 4 = inEra.year := by omega
  rw [year, same]
  have left : dayOfEra - (365 * inEra.year + inEra.year / 4 - inEra.year / 100) = inEra.day := by
    omega
  rw [left, IsoTime.monthOfDay, IsoTime.startOfMonth]
  by_cases early : (5 * inEra.day + 2) / 153 < 10
  · rw [if_pos early, if_pos early, if_neg (by omega), Nat.cast_add, Nat.cast_mul, Int.add_comm]
    rfl
  · rw [if_neg early, if_neg early, if_pos (by omega), Nat.cast_succ, Nat.cast_add, Nat.cast_mul,
      Int.add_comm (_ * _)]
    rfl

/-- The year of a day before the year 10000 has four digits. -/
theorem civilDate_year_le {day : Nat} (early : day < 2932897) : (civilDate day).1 ≤ 9999 := by
  unfold civilDate
  dsimp only
  split_ifs <;> omega

/-- **A time before the year 10000 is read back from its text.** -/
theorem datetime_toISOString {now : Nat} (early : now < 253402300800000) :
    IsoTime.datetime (toISOString now) = some (now : Int) := by
  have fourDigits : (civilDate (now / 86400000)).1 ≤ 9999 := civilDate_year_le (by omega)
  have day : (now : Int) / IsoTime.msPerDay = (now / 86400000 : Nat) := by
    unfold IsoTime.msPerDay
    omega
  have time : IsoTime.timeOfDay now = now % 86400000 := by
    unfold IsoTime.timeOfDay IsoTime.msPerDay
    omega
  have date : IsoTime.dateOf now = ⟨(civilDate (now / 86400000)).1,
      (civilDate (now / 86400000)).2.1, (civilDate (now / 86400000)).2.2⟩ := by
    rw [IsoTime.dateOf, day, civilDate_eq]
  obtain ⟨_, months, _, days⟩ := IsoTime.dateOfDay_valid (now / 86400000 : Nat)
  rw [civilDate_eq] at months days
  dsimp only at months days
  have few : IsoTime.daysInMonth (civilDate (now / 86400000)).1
      (civilDate (now / 86400000)).2.1 ≤ 31 := by
    unfold IsoTime.daysInMonth
    split_ifs <;> decide
  have written : IsoTime.toISOString now = some (toISOString now) := by
    rw [IsoTime.toISOString, if_pos (by omega), date, time, IsoTime.clockText, IsoTime.yearText,
      if_pos (by constructor <;> dsimp only <;> omega), toISOString]
    dsimp only
    rw [Int.toNat_natCast, if_pos fourDigits, @padded_eq 3 _ (by omega), @padded_eq 1 _ (by omega),
      @padded_eq 1 _ (by omega), @padded_eq 1 _ (by omega), @padded_eq 1 _ (by omega),
      @padded_eq 1 _ (by omega), @padded_eq 2 _ (by omega)]
    simp only [List.append_assoc, List.cons_append]
  refine IsoTime.datetime_toISOString written ?_
  rw [date]
  exact ⟨Int.natCast_nonneg _, Int.ofNat_le.mpr fourDigits⟩

/-- The entry that a commit is made for. -/
structure CommitEntry where
  id : Token
  path : JsString
  fromPath : Option JsString
  operation : FileHistoryOperation
  bucketStart : Nat
  updatedAt : Nat
  size : Nat
  contentHash : Token
  contentHashFormat : Option Token
  contributors : List VaultActor

def ActorKind.text : ActorKind → JsString
  | .user => units "user"
  | .mcpClient => units "mcp_client"
  | .integration => units "integration"
  | .system => units "system"
  | .unknown => units "unknown"

def FileHistoryOperation.text : FileHistoryOperation → JsString
  | .create => units "create"
  | .update => units "update"
  | .move => units "move"
  | .rename => units "rename"

def actorLabel (actor : VaultActor) : JsString :=
  let label := (actor.name.or actor.id).getD actor.kind.text
  match actor.client with
  | some client => if client.isEmpty then label else label ++ units " (" ++ client ++ units ")"
  | none => label

/-- The record of an actor that is written in a trailer. -/
def actorMembers (actor : VaultActor) : List (JsString × JsString) :=
  (units "kind", actor.kind.text) ::
    ((actor.id.map fun id => (units "id", id)).toList ++
      (actor.name.map fun name => (units "name", name)).toList ++
      (actor.client.map fun client => (units "client", client)).toList)

def hasLineBreak (value : JsString) : Bool :=
  value.any fun unit => unit = carriageReturn || unit = lineFeed

def commitPathDisplay (value : JsString) : JsString :=
  if hasLineBreak value then Json.stringifyString value else value

/-- A line with a name and a value. -/
def namedLine (name value : JsString) : JsString := name ++ units ": " ++ value

/-- The trailers of a path: as JSON text, and as it is if it has no line break. -/
def pathTrailers (jsonKey legacyKey path : JsString) : List JsString :=
  namedLine jsonKey (Json.stringifyString path) ::
    if hasLineBreak path then [] else [namedLine legacyKey path]

def pathKey : JsString := units "KB1-Path"
def pathJsonKey : JsString := units "KB1-Path-JSON"
def fromPathKey : JsString := units "KB1-From-Path"
def fromPathJsonKey : JsString := units "KB1-From-Path-JSON"
def operationKey : JsString := units "KB1-Operation"
def historyIdKey : JsString := units "KB1-History-ID"
def bucketStartKey : JsString := units "KB1-Bucket-Start"
def bucketEndKey : JsString := units "KB1-Bucket-End"
def sizeKey : JsString := units "KB1-Size"
def contentHashKey : JsString := units "KB1-Content-SHA256"
def contentHashFormatKey : JsString := units "KB1-Content-Hash-Format"
def contributorKey : JsString := units "KB1-Contributor"

namespace CommitEntry

/-- The end of the window: the time of a flush that was given one, or the entry's last
change. -/
def bucketEnd (entry : CommitEntry) (now : Option Nat) : JsString :=
  toISOString (now.getD entry.updatedAt)

/-- The lines for a reader. -/
def displayLines (entry : CommitEntry) (now : Option Nat) : List JsString :=
  [namedLine (units "Path") (commitPathDisplay entry.path)] ++
    (match entry.fromPath.map commitPathDisplay with
      | some display => if display.isEmpty then [] else [namedLine (units "From") display]
      | none => []) ++
    [namedLine (units "Bucket")
        (toISOString entry.bucketStart ++ units " - " ++ entry.bucketEnd now),
      [], units "Contributors:"] ++
    entry.contributors.map (fun actor => units "- " ++ actorLabel actor) ++ [[]]

/-- The trailers after those of the paths. -/
def valueTrailers (entry : CommitEntry) (now : Option Nat) : List JsString :=
  [namedLine operationKey entry.operation.text, namedLine historyIdKey entry.id,
    namedLine bucketStartKey (toISOString entry.bucketStart),
    namedLine bucketEndKey (entry.bucketEnd now),
    namedLine sizeKey (decimal entry.size), namedLine contentHashKey entry.contentHash] ++
    (entry.contentHashFormat.map fun format => namedLine contentHashFormatKey format.1).toList ++
    entry.contributors.map fun actor =>
      namedLine contributorKey (Json.stringifyRecord (actorMembers actor))

def trailerLines (entry : CommitEntry) (now : Option Nat) : List JsString :=
  pathTrailers pathJsonKey pathKey entry.path ++
    (entry.fromPath.map (pathTrailers fromPathJsonKey fromPathKey)).getD [] ++
    entry.valueTrailers now

/-- The subject and the body of the commit's message. -/
def commitMessage (entry : CommitEntry) (now : Option Nat) : JsString × JsString :=
  (units "KB-1 history: " ++ entry.operation.text ++ units " " ++ commitPathDisplay entry.path,
    unlines (entry.displayLines now ++ entry.trailerLines now))

end CommitEntry

/-- What Git stores of the two paragraphs that a commit is given. -/
def storedMessage (message : JsString × JsString) : JsString :=
  stripspace (message.1 ++ units "\n\n" ++ message.2 ++ units "\n")

/-- A record of the log. -/
structure HistoryLogRecord where
  commitId : JsString
  committedAt : JsString
  body : JsString
  deriving DecidableEq, Repr

def commitSeparator : CodeUnit := 0x1E
def fieldSeparator : CodeUnit := 0

/-- The output of `git log` for a commit, with the format `%H%x00%cI%x00%B%x1e`. -/
def logText (record : HistoryLogRecord) : JsString :=
  record.commitId ++ [fieldSeparator] ++ record.committedAt ++ [fieldSeparator] ++ record.body ++
    [commitSeparator, lineFeed]

/-- The record of a piece of the log. -/
def readLogPiece (raw : JsString) : Option HistoryLogRecord :=
  let trimmed := trim raw
  if trimmed.isEmpty then none
  else
    match trimmed.splitOn fieldSeparator with
    | commitId :: committedAt :: bodyParts =>
        if commitId.isEmpty || committedAt.isEmpty then none
        else some ⟨commitId, committedAt, [fieldSeparator].intercalate bodyParts⟩
    | _ => none

/-- The records of the output of `git log`. -/
def readHistoryLog (stdout : JsString) : List HistoryLogRecord :=
  (stdout.splitOn commitSeparator).filterMap readLogPiece

/-- The units of a trailer's key. -/
def isKeyUnit (unit : CodeUnit) : Bool :=
  (65 ≤ unit && unit ≤ 90) || (97 ≤ unit && unit ≤ 122) || isDigit unit || unit = 45

/-- The units that the dot of a regular expression does not match. -/
def isLineTerminator (unit : CodeUnit) : Bool :=
  unit ∈ ([10, 13, 0x2028, 0x2029] : List CodeUnit)

/-- What `/^(KB1-[A-Za-z0-9-]+):\s*/` matches: the key, and the rest of the line. -/
def trailerStart (line : JsString) : Option (JsString × JsString) :=
  let name := (line.drop 4).takeWhile isKeyUnit
  let rest := (line.drop 4).dropWhile isKeyUnit
  if line.take 4 = units "KB1-" ∧ name ≠ [] ∧ rest.head? = some 58 then
    some (units "KB1-" ++ name, (rest.drop 1).dropWhile isWhitespace)
  else none

/-- What `/^(KB1-[A-Za-z0-9-]+):\s*(.*)$/` matches: the key and the value. -/
def trailerLine (line : JsString) : Option (JsString × JsString) :=
  (trailerStart line).filter fun trailer => !trailer.2.any isLineTerminator

/-- A line without a carriage return at its end. -/
def dropCarriageReturn (line : JsString) : JsString :=
  if line.getLast? = some carriageReturn then line.dropLast else line

/-- The trailers of lines; a path takes the lines after it that are no trailers. -/
def trailersLoop : Nat → List JsString → List (JsString × JsString)
  | 0, _ => []
  | _ + 1, [] => []
  | fuel + 1, line :: lines =>
      match trailerLine line with
      | none => trailersLoop fuel lines
      | some (key, value) =>
          if key = pathKey ∨ key = fromPathKey then
            let taken := lines.takeWhile fun next => (trailerStart next).isNone
            (key, value ++ taken.flatMap (lineFeed :: ·)) ::
              trailersLoop fuel (lines.dropWhile fun next => (trailerStart next).isNone)
          else (key, value) :: trailersLoop fuel lines

/-- The trailers of a message, in their order. -/
abbrev CommitValues := List (JsString × JsString)

def commitValues (body : JsString) : CommitValues :=
  trailersLoop (lines body).length ((lines body).map dropCarriageReturn)

/-- The first value of a key. -/
def CommitValues.get (values : CommitValues) (key : JsString) : Option JsString :=
  (values.find? fun entry => entry.1 = key).map Prod.snd

/-- The values of a key. -/
def CommitValues.getAll (values : CommitValues) (key : JsString) : List JsString :=
  (values.filter fun entry => entry.1 = key).map Prod.snd

/-- The value of a path's trailers. -/
inductive CommitPath where
  | undefined
  | null
  | text (path : JsString)
  deriving DecidableEq, Repr

/-- The path of a trailer with JSON text, else the one of the trailer before there was
JSON text. -/
def commitPathValue (values : CommitValues) (jsonKey legacyKey : JsString) : CommitPath :=
  match values.get jsonKey with
  | none =>
      match values.get legacyKey with
      | none => .undefined
      | some path => .text path
  | some encoded =>
      match Json.parse encoded with
      | some (.string path) => .text path
      | _ => .null

def actorKindOf (text : JsString) : Option ActorKind :=
  if text = units "user" then some .user
  else if text = units "mcp_client" then some .mcpClient
  else if text = units "integration" then some .integration
  else if text = units "system" then some .system
  else if text = units "unknown" then some .unknown
  else none

/-- A member of a record that is a string. -/
def stringMember (members : List (JsString × Json)) (key : JsString) : Option JsString :=
  match Json.get members key with
  | some (.string value) => some value
  | _ => none

def normalizeActor (members : List (JsString × Json)) : Option VaultActor :=
  ((stringMember members (units "kind")).bind actorKindOf).map fun kind =>
    ⟨kind, stringMember members (units "id"), stringMember members (units "name"),
      stringMember members (units "client")⟩

def parseActorJson (value : JsString) : Option VaultActor :=
  match Json.parse value with
  | some (.object members) => normalizeActor members
  | _ => none

def actorForContributors (contributors : List VaultActor) : VaultActor :=
  match contributors with
  | [] => ⟨.unknown, none, none, none⟩
  | [actor] => actor
  | _ => ⟨.system, none, some (decimal contributors.length ++ units " contributors"), none⟩

def fileHistoryOperation (text : JsString) : Option FileHistoryOperation :=
  if text = units "create" then some .create
  else if text = units "update" then some .update
  else if text = units "move" then some .move
  else if text = units "rename" then some .rename
  else none

/-- A version in a list of versions. -/
structure FileHistoryEntry where
  id : JsString
  path : JsString
  operation : FileHistoryOperation
  actor : VaultActor
  integrationId : Option JsString
  contributors : Option (List VaultActor)
  pending : Bool
  commitId : Option JsString
  createdAt : JsString
  updatedAt : JsString
  size : ℚ
  contentHash : JsString
  deriving DecidableEq

def entryFromCommitValues (requestedPath commitId committedAt : JsString) (values : CommitValues) :
    Option FileHistoryEntry :=
  (fileHistoryOperation ((values.get operationKey).getD (units "update"))).map fun operation =>
    let contributors := (values.getAll contributorKey).filterMap parseActorJson
    let actor := actorForContributors contributors
    { id := (values.get historyIdKey).getD commitId
      path := requestedPath
      operation := operation
      actor := actor
      integrationId := actor.client
      contributors := if contributors.isEmpty then none else some contributors
      pending := false
      commitId := some commitId
      createdAt := (values.get bucketStartKey).getD committedAt
      updatedAt := (values.get bucketEndKey).getD committedAt
      size := ((values.get sizeKey).bind numberValue).getD 0
      contentHash := (values.get contentHashKey).getD [] }

end Kb1Daemon
