import Tadmor.Model.AccountLedger
import Tadmor.Model.LinePreview

/-!
# The report pages of the web client

The API sends amounts as texts with four decimals.  The pages of the reports add them up exactly, with `lib/amount.ts`:
the totals of a section, the footer of a table, the running balance of a ledger.
-/

open Banking (Text)

/-- `::numeric(19,4)::text` -/
def amountText (x : ℤ) : Text := (Decimal.mk x 4).text

/-! ### What the API sends -/

namespace Api

structure TrialBalanceRow where
  accountId : ℕ
  code : String
  accountType : AccountType
  totalDebit : Text
  totalCredit : Text
  balance : Text
deriving DecidableEq

structure AccountActivityRow where
  accountId : ℕ
  code : String
  accountType : AccountType
  amount : Text
deriving DecidableEq

structure BalanceSheet where
  rows : List AccountActivityRow
  currentEarnings : Text
deriving DecidableEq

/-- The values that the column `accounts.cash_flow_activity` admits. -/
inductive CashFlowActivity where
  | operating
  | investing
  | financing
deriving DecidableEq

structure CashFlowRow where
  accountId : ℕ
  code : String
  activity : CashFlowActivity
  amount : Text
deriving DecidableEq

structure CashFlow where
  netIncome : Text
  rows : List CashFlowRow
  netCashFlow : Text
  openingCash : Text
  closingCash : Text
deriving DecidableEq

/-- The amounts of a ledger row or of a line of an entry. -/
structure Amounts where
  debit : Text
  credit : Text
  baseDebit : Text
  baseCredit : Text
deriving DecidableEq

end Api

def TrialBalanceRow.json (r : TrialBalanceRow) : Api.TrialBalanceRow where
  accountId := r.accountId
  code := r.code
  accountType := r.accountType
  totalDebit := amountText r.totalDebit
  totalCredit := amountText r.totalCredit
  balance := amountText r.balance

def AccountActivityRow.json (r : AccountActivityRow) : Api.AccountActivityRow where
  accountId := r.accountId
  code := r.code
  accountType := r.accountType
  amount := amountText r.amount

def BalanceSheet.json (bs : BalanceSheet) : Api.BalanceSheet where
  rows := bs.rows.map AccountActivityRow.json
  currentEarnings := amountText bs.currentEarnings

/-- `activity` is the column `cash_flow_activity` of an account. -/
def CashFlow.json (activity : ℕ → Api.CashFlowActivity) (cf : CashFlow) : Api.CashFlow where
  netIncome := amountText cf.netIncome
  rows := cf.rows.map fun r => ⟨r.accountId, r.code, activity r.accountId, amountText r.amount⟩
  netCashFlow := amountText cf.netCashFlow
  openingCash := amountText cf.openingCash
  closingCash := amountText cf.closingCash

def LedgerRow.json (r : LedgerRow) : Api.Amounts :=
  ⟨amountText r.debit, amountText r.credit, amountText r.baseDebit, amountText r.baseCredit⟩

def JournalEntryLine.json (l : JournalEntryLine) : Api.Amounts :=
  ⟨amountText l.debit, amountText l.credit, amountText l.baseDebit, amountText l.baseCredit⟩

/-! ### The pages -/

namespace Web

open Preview (toUnits fromUnits)

def sumAmounts (values : List Text) : Text := fromUnits (values.foldl (fun total v => total + toUnits v) 0)

def negateAmount (value : Text) : Text := fromUnits (-toUnits value)

/-- `components/trial-balance.tsx`: the footer. -/
structure TrialBalance where
  totalDebit : Text
  totalCredit : Text
  balance : Text
deriving DecidableEq

def trialBalance (rows : List Api.TrialBalanceRow) : TrialBalance where
  totalDebit := sumAmounts (rows.map (·.totalDebit))
  totalCredit := sumAmounts (rows.map (·.totalCredit))
  balance := sumAmounts (rows.map (·.balance))

/-- `components/profit-and-loss.tsx` -/
structure ProfitAndLoss where
  totalRevenue : Text
  totalExpenses : Text
  netIncome : Text
deriving DecidableEq

def profitAndLoss (rows : List Api.AccountActivityRow) : ProfitAndLoss :=
  let totalRevenue := sumAmounts ((rows.filter (·.accountType = .revenue)).map (·.amount))
  let totalExpenses := sumAmounts ((rows.filter (·.accountType = .expense)).map (·.amount))
  { totalRevenue, totalExpenses, netIncome := sumAmounts [totalRevenue, negateAmount totalExpenses] }

/-- `components/balance-sheet.tsx` -/
structure BalanceSheet where
  totalAssets : Text
  totalLiabilities : Text
  totalEquity : Text
  liabilitiesAndEquity : Text
deriving DecidableEq

def balanceSheet (sheet : Api.BalanceSheet) : BalanceSheet :=
  let totalLiabilities := sumAmounts ((sheet.rows.filter (·.accountType = .liability)).map (·.amount))
  let totalEquity := sumAmounts
    ((sheet.rows.filter (·.accountType = .equity)).map (·.amount) ++ [sheet.currentEarnings])
  { totalAssets := sumAmounts ((sheet.rows.filter (·.accountType = .asset)).map (·.amount))
    totalLiabilities, totalEquity
    liabilitiesAndEquity := sumAmounts [totalLiabilities, totalEquity] }

/-- `components/cash-flow.tsx`: the totals of the sections. -/
structure CashFlow where
  operatingTotal : Text
  investingTotal : Text
  financingTotal : Text
deriving DecidableEq

def cashFlow (statement : Api.CashFlow) : CashFlow where
  operatingTotal := sumAmounts
    (statement.netIncome :: (statement.rows.filter (·.activity = .operating)).map (·.amount))
  investingTotal := sumAmounts ((statement.rows.filter (·.activity = .investing)).map (·.amount))
  financingTotal := sumAmounts ((statement.rows.filter (·.activity = .financing)).map (·.amount))

/-- The loop of `components/account-ledger.tsx`: the balance after each row. -/
def balances (running : Text) : List Api.Amounts → List Text
  | [] => []
  | r :: rows =>
    let running := sumAmounts [running, r.baseDebit, negateAmount r.baseCredit]
    running :: balances running rows

/-- `components/account-ledger.tsx`: the column of running balances and the footer. -/
structure AccountLedger where
  balances : List Text
  totalDebit : Text
  totalCredit : Text
  balance : Option Text
deriving DecidableEq

/-- Some row holds foreign currency, so that the base amounts are shown, too. -/
def hasFx (rows : List Api.Amounts) : Bool := rows.any fun r => r.debit ≠ r.baseDebit || r.credit ≠ r.baseCredit

def accountLedger (rows : List Api.Amounts) : AccountLedger :=
  let bs := balances "0.0000".toList rows
  { balances := bs
    totalDebit := sumAmounts (rows.map fun r => if hasFx rows then r.baseDebit else r.debit)
    totalCredit := sumAmounts (rows.map fun r => if hasFx rows then r.baseCredit else r.credit)
    balance := bs.getLast? }

/-- `components/journal-entry.tsx`: the footer. -/
structure JournalEntry where
  debit : Text
  credit : Text
  baseDebit : Text
  baseCredit : Text
deriving DecidableEq

def journalEntry (lines : List Api.Amounts) : JournalEntry where
  debit := sumAmounts (lines.map (·.debit))
  credit := sumAmounts (lines.map (·.credit))
  baseDebit := sumAmounts (lines.map (·.baseDebit))
  baseCredit := sumAmounts (lines.map (·.baseCredit))

end Web
