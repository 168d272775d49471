import Tadmor.Model.Banking

/-!
# Master data

Accounts, parties, products, tax codes, warehouses, the settings, exchange rates and the fiscal calendar.
-/

/-- `affected`: an UPDATE or DELETE that matches no row reports that there is none. -/
def affected (t : Txn ℕ) : Txn Unit := do
  let n ← t
  Prog.require (n ≠ 0) (.master "not found")

/-! ### Accounts -/

structure AccountInput where
  code : String
  accountType : AccountType
  isPostable : Bool
  isActive : Bool
  isCash : Bool
  parentId : Option ℕ := none
deriving DecidableEq

def DB.accountCheck (db : DB) (id : ℕ) (input : AccountInput) : Except Err Unit := do
  ensure (!input.isCash || input.accountType = .asset) (.sql .checkViolation "accounts_is_cash_asset_check")
  ensure (input.parentId ≠ some id) (.sql .checkViolation "accounts_no_self_parent")
  ensure (db.accounts.rows.all fun a => a.id = id || a.code ≠ input.code) (.sql .uniqueViolation "accounts_code_key")
  ensure (refOk db.accounts input.parentId) (.sql .foreignKeyViolation "accounts_parent_id_fkey")

/-- A new account is active whatever the request says. -/
def AccountInput.row (input : AccountInput) (id : ℕ) : Account :=
  { id, code := input.code, accountType := input.accountType, isPostable := input.isPostable, isCash := input.isCash,
    parentId := input.parentId }

def Account.edited (a : Account) (input : AccountInput) : Account :=
  { a with code := input.code, accountType := input.accountType, isPostable := input.isPostable,
           isActive := input.isActive, isCash := input.isCash, parentId := input.parentId }

theorem Account.key_edited (input : AccountInput) (a : Account) : Keyed.key (a.edited input) = Keyed.key a := rfl

def CreateAccount (input : AccountInput) : Txn ℕ := Prog.exec fun n db => do
  db.accountCheck n input
  .ok { res := n, used := 1, act := fun d => { d with accounts := d.accounts.insert (input.row n) } }

def UpdateAccount (id : ℕ) (input : AccountInput) : Txn Unit := affected (Prog.exec fun _ db => do
  let ks := db.accounts.hit id fun _ => true
  if ks = [] then .ok { res := 0 }
  else
    db.accountCheck id input
    .ok { res := ks.length, act := fun d => { d with accounts := d.accounts.update ks (·.edited input) } })

/-! ### Parties, products, tax codes, warehouses -/

def createParty (side : Side) (controlAccountId : Option ℕ) : Txn ℕ := Prog.exec fun n db => do
  ensure (refOk db.accounts controlAccountId) (.sql .foreignKeyViolation "control_account_id_fkey")
  .ok { res := n, used := 1, act := fun d => { d with parties := d.parties.insert { id := n, side, controlAccountId } } }

def updateParty (side : Side) (id : ℕ) (controlAccountId : Option ℕ) : Txn Unit := affected (Prog.exec fun _ db => do
  let ks := db.parties.hit id (·.side = side)
  ensure (ks = [] || refOk db.accounts controlAccountId) (.sql .foreignKeyViolation "control_account_id_fkey")
  .ok {
    res := ks.length
    act := fun d => { d with parties := d.parties.update ks fun c => { c with controlAccountId } } })

def CreateCustomer := createParty .sales
def CreateSupplier := createParty .purchase
def UpdateCustomer := updateParty .sales
def UpdateSupplier := updateParty .purchase

structure ProductInput where
  revenueAccountId : Option ℕ
  inventoryAccountId : Option ℕ
  cogsAccountId : Option ℕ
  trackInventory : Bool
  isActive : Bool
deriving DecidableEq

def DB.productCheck (db : DB) (input : ProductInput) : Except Err Unit :=
  ensure (refOk db.accounts input.revenueAccountId && refOk db.accounts input.inventoryAccountId &&
    refOk db.accounts input.cogsAccountId) (.sql .foreignKeyViolation "products_account_id_fkey")

def ProductInput.row (input : ProductInput) (id : ℕ) : Product :=
  { id, revenueAccountId := input.revenueAccountId, inventoryAccountId := input.inventoryAccountId,
    cogsAccountId := input.cogsAccountId, trackInventory := input.trackInventory }

def Product.edited (p : Product) (input : ProductInput) : Product :=
  { p with revenueAccountId := input.revenueAccountId, inventoryAccountId := input.inventoryAccountId,
           cogsAccountId := input.cogsAccountId, trackInventory := input.trackInventory,
           isActive := input.isActive }

def CreateProduct (input : ProductInput) : Txn ℕ := Prog.exec fun n db => do
  db.productCheck input
  .ok { res := n, used := 1, act := fun d => { d with products := d.products.insert (input.row n) } }

def UpdateProduct (id : ℕ) (input : ProductInput) : Txn Unit := affected (Prog.exec fun _ db => do
  let ks := db.products.hit id fun _ => true
  if ks = [] then .ok { res := 0 }
  else
    db.productCheck input
    .ok { res := ks.length, act := fun d => { d with products := d.products.update ks (·.edited input) } })

def CreateTaxCode (code : String) (taxAccountId : Option ℕ) : Txn Unit := Prog.exec fun _ db => do
  ensure (db.taxCodes.find? code).isNone (.sql .uniqueViolation "tax_codes_pkey")
  ensure (refOk db.accounts taxAccountId) (.sql .foreignKeyViolation "tax_codes_tax_account_id_fkey")
  .ok { res := (), act := fun d => { d with taxCodes := d.taxCodes.insert { code, taxAccountId } } }

def UpdateTaxCode (code : String) (taxAccountId : Option ℕ) : Txn Unit := affected (Prog.exec fun _ db => do
  let ks := db.taxCodes.hit code fun _ => true
  ensure (ks = [] || refOk db.accounts taxAccountId) (.sql .foreignKeyViolation "tax_codes_tax_account_id_fkey")
  .ok {
    res := ks.length
    act := fun d => { d with taxCodes := d.taxCodes.update ks fun t => { t with taxAccountId } } })

def CreateWarehouse : Txn ℕ := Prog.exec fun n _ =>
  .ok { res := n, used := 1, act := fun d => { d with warehouses := d.warehouses.insert { id := n } } }

/-! ### Settings and rates -/

def UpdateSettings (input : GlSettings) : Txn Unit := do
  let ok ← Prog.read fun db => input.fxGainLossAccountId.all fun a =>
    (db.accounts.find? a).any fun a => a.isPostable && a.isActive
  Prog.require ok (.master "fx_gain_loss_account_id must be a postable, active account")
  Prog.exec fun _ db => do
    let base := input.baseCurrency.toUpper
    -- trg_gl_settings_guard
    ensure (base = db.settings.baseCurrency || db.entries.rows = [])
      (.sql .raiseException "base currency cannot change once journal entries exist")
    ensure (base ∈ currencies) (.sql .foreignKeyViolation "gl_settings_base_currency_fkey")
    ensure (refOk db.accounts input.fxGainLossAccountId)
      (.sql .foreignKeyViolation "gl_settings_fx_gain_loss_account_id_fkey")
    .ok {
      res := ()
      act := fun d => { d with settings := ⟨base, input.fxGainLossAccountId⟩ } }

def rateCheck (rate : ℤ) : Except Err Unit := do
  ensure (fits rate) (.sql .numericValueOutOfRange "rate")
  ensure (0 < rate) (.sql .checkViolation "exchange_rates_rate_check")

def CreateExchangeRate (currency : String) (rateDate : Date) (rate : ℤ) : Txn Unit := Prog.exec fun _ db => do
  rateCheck rate
  ensure (db.rates.find? (currency.toUpper, rateDate)).isNone (.sql .uniqueViolation "exchange_rates_pkey")
  ensure (currency.toUpper ∈ currencies) (.sql .foreignKeyViolation "exchange_rates_currency_code_fkey")
  .ok {
    res := ()
    act := fun d => { d with rates := d.rates.insert { currencyCode := currency.toUpper, rateDate, rate } } }

def UpdateExchangeRate (currency : String) (rateDate : Date) (rate : ℤ) : Txn Unit := affected (Prog.exec fun _ db => do
  let ks := db.rates.hit (currency.toUpper, rateDate) fun _ => true
  if ks = [] then .ok { res := 0 }
  else
    rateCheck rate
    .ok { res := ks.length, act := fun d => { d with rates := d.rates.update ks fun r => { r with rate } } })

def DeleteExchangeRate (currency : String) (rateDate : Date) : Txn Unit := affected (Prog.exec fun _ db =>
  let ks := db.rates.hit (currency.toUpper, rateDate) fun _ => true
  .ok { res := ks.length, act := fun d => { d with rates := d.rates.erase ks } })

/-! ### The fiscal calendar -/

structure FiscalYearInput where
  name : String
  startDate : Date
  endDate : Date
deriving DecidableEq

def DB.yearCheck (db : DB) (id : ℕ) (input : FiscalYearInput) : Except Err Unit := do
  ensure (input.startDate ≤ input.endDate) (.sql .checkViolation "fiscal_years_dates")
  ensure (db.years.rows.all fun y => y.id = id || y.name ≠ input.name) (.sql .uniqueViolation "fiscal_years_name_key")

def FiscalYearInput.row (input : FiscalYearInput) (id : ℕ) : FiscalYear :=
  { id, name := input.name, startDate := input.startDate, endDate := input.endDate }

def FiscalYear.edited (y : FiscalYear) (input : FiscalYearInput) : FiscalYear :=
  { y with name := input.name, startDate := input.startDate, endDate := input.endDate }

def CreateFiscalYear (input : FiscalYearInput) : Txn ℕ := Prog.exec fun n db => do
  db.yearCheck n input
  .ok {
    res := n
    used := 1
    act := fun d => { d with years := d.years.insert (input.row n) }
    locks := [.yearName input.name] }

def UpdateFiscalYear (id : ℕ) (input : FiscalYearInput) : Txn Unit := affected (Prog.exec fun _ db => do
  let ks := db.years.hit id fun _ => true
  if ks = [] then .ok { res := 0 }
  else
    db.yearCheck id input
    .ok {
      res := ks.length
      act := fun d => { d with years := d.years.update ks (·.edited input) }
      locks := .yearName input.name :: ks.map (.write .year) })

structure PeriodInput where
  fiscalYearId : ℕ
  name : String
  startDate : Date
  endDate : Date
  status : BookStatus := .opened
deriving DecidableEq

def PeriodInput.row (input : PeriodInput) (id : ℕ) (status : BookStatus) : AccountingPeriod :=
  { id, fiscalYearId := input.fiscalYearId, name := input.name, startDate := input.startDate,
    endDate := input.endDate, status }

/-- `trg_accounting_periods_year_open` and the constraints of a period row. -/
def DB.periodCheck (db : DB) (p : AccountingPeriod) : Except Err Unit := do
  ensure (p.status = .closed || !db.years.rows.any fun y => y.id = p.fiscalYearId && y.status = .closed)
    (.sql .raiseException s!"fiscal year {p.fiscalYearId} is closed; its periods cannot be open")
  ensure (p.startDate ≤ p.endDate) (.sql .checkViolation "accounting_periods_dates")
  ensure (!db.periodNameTaken p) (.sql .uniqueViolation "accounting_periods_name_uq")
  ensure (!db.periodOverlaps p) (.sql .exclusionViolation "accounting_periods_no_overlap")
  ensure (db.years.find? p.fiscalYearId).isSome (.sql .foreignKeyViolation "accounting_periods_fiscal_year_id_fkey")

/-- A new period is open whatever the request says. -/
def CreateAccountingPeriod (input : PeriodInput) : Txn ℕ := Prog.exec fun n db => do
  db.periodCheck (input.row n .opened)
  .ok {
    res := n
    used := 1
    act := fun d => { d with periods := d.periods.insert (input.row n .opened) }
    locks := (input.row n .opened).locks }

def UpdateAccountingPeriod (id : ℕ) (input : PeriodInput) : Txn Unit := affected (Prog.exec fun _ db => do
  let ks := db.periods.hit id fun _ => true
  if ks = [] then .ok { res := 0 }
  else
    db.periodCheck (input.row id input.status)
    .ok {
      res := ks.length
      act := fun d => { d with periods := d.periods.update ks fun p => input.row p.id input.status }
      locks := (input.row id input.status).locks ++ ks.map (.write .period) })
