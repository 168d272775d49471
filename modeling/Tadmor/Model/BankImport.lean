import Tadmor.Model.Banking
import Tadmor.Theory.DecimalText

/-!
# Import of bank statements

The CSV text of a statement becomes records, the records become the inputs of lines, and the inputs are inserted one
at a time.  The reader of the package `encoding/csv` is a parameter.
-/

namespace Banking

/-- A string, as its characters. -/
abbrev Text := List Char

/-- `strings.TrimFunc`; with the characters of a cutset also `strings.Trim` -/
def trim (p : Char → Bool) (s : Text) : Text := ((s.dropWhile p).reverse.dropWhile p).reverse

/-- `unicode.IsSpace` -/
def isSpace (c : Char) : Bool :=
  c.toNat ∈ [0x09, 0x0A, 0x0B, 0x0C, 0x0D, 0x20, 0x85, 0xA0, 0x1680, 0x2028, 0x2029, 0x202F, 0x205F, 0x3000] ||
    0x2000 ≤ c.toNat && c.toNat ≤ 0x200A

def trimSpace (s : Text) : Text := trim isSpace s

def date? (year month day : ℕ) : Option Date :=
  if h : 1 ≤ month ∧ month ≤ 12 ∧ 1 ≤ day ∧ day ≤ daysInMonth year month then some ⟨year, month, day, h⟩ else none

/-- `time.Parse("2006-01-02", s)` -/
def parseDate (s : Text) : Option Date :=
  let year := s.take 4
  let month := (s.drop 5).take 2
  let day := (s.drop 8).take 2
  if s.length = 10 ∧ s[4]? = some '-' ∧ s[7]? = some '-' ∧ (year ++ month ++ day).all Char.isDigit = true then
    date? (numeral year) (numeral month) (numeral day)
  else none

/-- ``^-?(\d+(\.\d*)?|\.\d+)$`` -/
def amountRE (s : Text) : Bool := (spell s).isSome

structure LineInput where
  txnDate : Text
  description : Text
  reference : Option Text := none
  amount : Text
deriving DecidableEq

/-! ### Parsing -/

def badCSV (text : String) : Err := .banking .badCSV s!"banking: {text}"

/-- `%q`, but for its escapes -/
def quoted (s : Text) : String := "\"" ++ String.ofList s ++ "\""

/-- The fields of a record, trimmed; the first record is skipped when it has no date. -/
def parseFields (i : ℕ) (date description amount : Text) (reference : Option Text) :
    Except Err (Option LineInput) :=
  match parseDate date with
  | none => if i = 0 then .ok none else .error (badCSV s!"record {i + 1}: {quoted date} is not a YYYY-MM-DD date")
  | some _ => do
    ensure (description ≠ []) (badCSV s!"record {i + 1}: description is empty")
    ensure (amountRE amount) (badCSV s!"record {i + 1}: {quoted amount} is not a decimal amount")
    ensure (trim (· ∈ ['-', '.', '0']) amount ≠ []) (badCSV s!"record {i + 1}: amount must not be zero")
    .ok (some { txnDate := date, description, amount, reference := reference.filter (· ≠ []) })

/-- The body of the loop of `parseCSV`. -/
def parseRecord (i : ℕ) (record : List Text) : Except Err (Option LineInput) :=
  if record.length = 1 ∧ trimSpace (record.headD []) = [] then .ok none
  else
    match record.map trimSpace with
    | [date, description, amount] => parseFields i date description amount none
    | [date, description, amount, reference] => parseFields i date description amount (some reference)
    | fields =>
      .error (badCSV s!"record {i + 1} has {fields.length} fields, want date,description,amount[,reference]")

def parseRecords : ℕ → List (List Text) → Except Err (List LineInput)
  | _, [] => .ok []
  | i, record :: records => do
    let line ← parseRecord i record
    let lines ← parseRecords (i + 1) records
    .ok (line.toList ++ lines)

/-- `csv.Reader.ReadAll` with the options of `parseCSV`: the records, or the text of an error -/
abbrev CSVReader := Text → Except String (List (List Text))

def parseCSV (readAll : CSVReader) (csvText : Text) : Except Err (List LineInput) :=
  match readAll csvText with
  | .error e => .error (badCSV e)
  | .ok records => parseRecords 0 records

/-! ### Inserting -/

/-- `$2::date` of a text that `parseDate` accepts -/
def dateIn (s : Text) : Except Err Date :=
  match parseDate s with
  | none => .error (.sql .invalidTextRepresentation "date")
  | some d => if d.year = 0 then .error (.sql .datetimeFieldOverflow "date/time field value out of range") else .ok d

/-- `$5::numeric` of a text that `amountRE` accepts; a numeric has at most 16383 places. -/
def numericIn (s : Text) : Except Err Decimal :=
  match spell s with
  | none => .error (.sql .invalidTextRepresentation "numeric")
  | some p =>
    if p.value.scale ≤ 16383 then .ok p.value
    else .error (.sql .numericValueOutOfRange "value overflows numeric format")

/-- `text` -/
def textIn (s : Text) : Except Err Unit :=
  ensure (s.all (· ≠ Char.ofNat 0)) (.sql .characterNotInRepertoire "invalid byte sequence for encoding UTF8: 0x00")

/-- The parameters of the INSERT of a line. -/
def LineInput.typed (l : LineInput) : Except Err StatementLineInput := do
  let txnDate ← dateIn l.txnDate
  textIn l.description
  textIn (l.reference.getD [])
  let amount ← numericIn l.amount
  .ok { txnDate, amount := (amount.round 4).coeff }

/-- `AddLine` of the texts -/
def addLine (statement : ℕ) (l : LineInput) : Txn ℕ :=
  match l.typed with
  | .ok row => AddLine statement row
  | .error e => do
    requireOpen statement
    Prog.throw e

def addLineInputs (statement : ℕ) : List LineInput → Txn Unit
  | [] => pure ()
  | l :: ls => do
    let _ ← addLine statement l
    addLineInputs statement ls

def ImportCSV (readAll : CSVReader) (statement : ℕ) (csvText : Text) : Txn ℕ :=
  match parseCSV readAll csvText with
  | .error e => Prog.throw e
  | .ok lines => do
    Prog.require (lines ≠ []) (badCSV "no data rows")
    addLineInputs statement lines
    pure lines.length

/-! ### The answer -/

def Sentinel.status : Sentinel → ℕ
  | notFound => 404
  | notOpen => 409
  | notReconciled => 409
  | alreadyMatched => 409
  | unmatchedLines => 422
  | unbalanced => 422
  | badCSV => 422

/-- `writeClientDBError` -/
def clientStatus : SqlState → ℕ
  | .uniqueViolation => 409
  | _ => 422

/-- `writeBankingError` -/
def status : Err → ℕ
  | .banking e _ => e.status
  | .sql state _ => clientStatus state
  | _ => 500

/-- `importBankStatement`: the status, the number of lines and the database after the request. -/
def importBankStatement (readAll : CSVReader) (statement : ℕ) (csvText : Text) (gaps : ℕ → ℕ) (s : Store DB) :
    (ℕ × Option ℕ) × Store DB :=
  if csvText = [] then ((400, none), s)
  else
    match (ImportCSV readAll statement csvText).commit gaps s with
    | .ok (n, s') => ((200, some n), s')
    | .error e => ((status e, none), s)

end Banking
