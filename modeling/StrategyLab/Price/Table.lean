/-
Tables of comma-separated text, and the prices they hold. Fields may be quoted, a quote inside
of quotes written twice; blank lines are passed over. A price table has either a row per token and
time, or a row per time with a column per token.
-/
import StrategyLab.Price.Oracle
import StrategyLab.Text.Pieces

namespace StrategyLab

/-! ## Rows and fields -/

namespace Table

/-- Where the reader stands in a row. -/
inductive Place where
  /-- At the beginning of a field. -/
  | start
  /-- Inside a field. -/
  | plain
  /-- Inside quotes. -/
  | quoted
  /-- After a quote inside quotes. -/
  | closing
  deriving DecidableEq

/-- The rows read so far, the row and the field being read; all reversed. -/
structure Progress where
  rows : List (List String)
  row : List String
  field : List Char
  place : Place

namespace Progress

/-- Ends a field. -/
def endField (p : Progress) : Progress :=
  { p with row := String.ofList p.field.reverse :: p.row, field := [], place := .start }

/-- A row of nothing but blanks. -/
def isBlankRow (row : List String) : Bool :=
  match row with
  | [s] => Text.isBlankText s
  | _ => false

/-- Ends a row; a blank one is dropped. -/
def endRow (p : Progress) : Progress :=
  let done := p.endField
  let row := done.row.reverse
  { done with row := [], rows := if isBlankRow row then done.rows else row :: done.rows }

/-- Adds a character to the field. -/
def push (p : Progress) (c : Char) (place : Place) : Progress :=
  { p with field := c :: p.field, place }

/-- One character of the text. -/
def step (p : Progress) (c : Char) : Progress :=
  match p.place with
  | .quoted => if c = '"' then { p with place := .closing } else p.push c .quoted
  | place =>
    if c = ',' then p.endField
    else if c = '\n' then p.endRow
    else if c = '"' ∧ place = .start then { p with place := .quoted }
    else if c = '"' ∧ place = .closing then p.push c .quoted
    else p.push c .plain

end Progress

/-- The rows of a text, none if a quote is left open. -/
def rows? (text : String) : Option (List (List String)) :=
  let p := (Text.unifyLineEnds text.toList).foldl Progress.step ⟨[], [], [], .start⟩
  if p.place = .quoted then none
  else some (if p.row.isEmpty ∧ p.field.isEmpty then p.rows.reverse else p.endRow.rows.reverse)

/-- Names of columns, an empty one by its position. -/
def columnNames (header : List String) : List String :=
  header.zipIdx.map fun (name, i) => if name.isEmpty then "Unnamed: " ++ Decimal.natText i else name

/-- Names with a number added to those that were there before. -/
def distinctNames (seen : List String) : List String → List String
  | [] => []
  | name :: rest =>
    let count := (seen.filter (· == name)).length
    let shown := if count = 0 then name else name ++ "." ++ Decimal.natText count
    shown :: distinctNames (name :: seen) rest

/-- A row cut or filled with empty fields to a length. -/
def fit (length : Nat) (row : List String) : List String :=
  (row ++ List.replicate (length - row.length) "").take length

/-- The columns of a table with a header. Fields that the first row has beyond the header are
labels in front of it; a later row must not be longer. -/
def columns (text : String) : Except FileFault (List (String × List String)) :=
  match rows? text with
  | none => .error .malformedTable
  | some [] => .error .emptyTable
  | some (header :: rows) =>
    let width := header.length
    let labels := (rows.headD []).length - width
    if rows.any fun row => width + labels < row.length then .error .malformedTable
    else
      let cells := rows.map fun row => fit width (row.drop labels)
      let names := distinctNames [] (columnNames header)
      .ok (names.zipIdx.map fun (name, i) => (name, cells.map fun row => row.getD i ""))

/-- Words for a missing entry. -/
def missingWords : List String :=
  ["", "#N/A", "#N/A N/A", "#NA", "-1.#IND", "-1.#QNAN", "-NaN", "-nan", "1.#IND", "1.#QNAN",
   "<NA>", "N/A", "NA", "NULL", "NaN", "None", "n/a", "nan", "null"]

/-- A missing entry. -/
def isMissing (s : String) : Bool := missingWords.contains s

end Table

/-! ## Prices in tables -/

namespace PriceTable

variable {α : Type} [Scalar α]

/-- The words for truth values. -/
def truth? (s : String) : Option Bool :=
  if s = "True" ∨ s = "TRUE" ∨ s = "true" then some true
  else if s = "False" ∨ s = "FALSE" ∨ s = "false" then some false
  else none

/-- The entries of a column of prices. -/
def priceColumn (cells : List String) : List (Value α) :=
  let present := cells.filter fun s => !Table.isMissing s
  let allTruths := present.all fun s => (truth? s).isSome
  cells.map fun s =>
    if Table.isMissing s then .null
    else match allTruths, truth? s with
      | true, some b => .truth b
      | _, _ => .text s

/-- What a written time consists of: the length of its date, its separator, its colons, whether
it has a fraction and whether it has an offset. -/
def timeShape (s : String) : Nat × Option Char × Nat × Bool × Bool :=
  let cs := s.toList
  let date := cs.takeWhile fun c => c.isDigit || c == '-'
  let rest := cs.drop date.length
  let clock := (rest.drop 1).takeWhile fun c => c.isDigit || c == ':' || c == '.'
  (date.length, rest.head?, clock.count ':', clock.contains '.',
    !(rest.drop (1 + clock.length)).isEmpty)

/-- The times of a column of texts, which all have the shape of the first one. -/
def textTimes (cells : List String) : Except (Fault α) (List Instant) := do
  let shape := (cells.find? fun s => !Table.isMissing s).map timeShape
  cells.zipIdx.mapM fun (s, i) =>
    if Table.isMissing s then pure .missing
    else
      match Instant.read s with
      | .error (.unreadable text) =>
        if (cells.take i).all Table.isMissing then throw (.time (.unreadable text))
        else throw (.time (.tooShort text))
      | .error cause => throw (.time cause)
      | .ok t => if shape = some (timeShape s) then pure t else throw (.time (.tooShort s))

/-- The time of a count of nanoseconds. -/
def countTime (s : String) : Except (Fault α) Instant :=
  if Table.isMissing s then pure .missing
  else
    match Numeral.whole? s with
    | some n => Instant.ofNanoseconds n
    | none => do
      let x : α := (Numeral.real? s).getD Scalar.undefined
      let n ← Value.wholeOfNum (.real x)
      Instant.ofNanoseconds n

/-- The times of a column; numbers count nanoseconds. -/
def timeColumn (cells : List String) : Except (Fault α) (List Instant) :=
  let present := cells.filter fun s => !Table.isMissing s
  if !present.isEmpty && present.all fun s => (Numeral.real? s : Option α).isSome then
    cells.mapM countTime
  else textTimes cells

/-- A series of times and the prices beside them. -/
def seriesOf (times : List Instant) (prices : List (Value α)) : Series α :=
  Series.ofSamples ((times.zip prices).map fun (time, price) =>
    { time, price := PriceData.looseFrom price })

/-- The names of tokens as they are written, in order; numbers are ordered as numbers. -/
def tokenNames (cells : List String) : List String :=
  (Block.firstSeen (cells.filter fun s => !Table.isMissing s)).mergeSort (· ≤ ·)

/-- The series of a table with a row per token and time. -/
def byToken (times : List Instant) (tokens prices : List String) : Oracle α :=
  let rows := tokens.zip (times.zip (priceColumn prices))
  (tokenNames tokens).map fun token =>
    let own := (rows.filter fun (t, _) => t == token).map (·.2)
    (token, seriesOf (own.map (·.1)) (own.map (·.2)))

/-- The oracle of the price table in a file. -/
def oracle (path text : String) : Except (Fault α) (Oracle α) := do
  let columns ← match Table.columns text with
    | .ok found => pure found
    | .error cause => throw (.file cause)
  match columns.lookup "timestamp" with
  | none => throw (.data (.noTimestampColumn path))
  | some cells =>
    let times ← timeColumn cells
    match columns.lookup "token", columns.lookup "price" with
    | some tokens, some prices => pure (byToken times tokens prices)
    | _, _ =>
      pure ((columns.filter fun (name, _) => name != "timestamp").map fun (name, prices) =>
        (name, seriesOf times (priceColumn prices)))

end PriceTable

end StrategyLab
