import Tadmor.Model.System

/-!
# The answers to ledger requests

The handlers that post, unpost, apply, close and reopen run one transaction each and answer its error with the status
that `postingStatus` maps it to.  The transaction of a request that fails is rolled back.
-/

def Posting.Sentinel.status : Posting.Sentinel → ℕ
  | notFound => 404
  | notDraft => 409
  | notPosted => 409
  | alreadyPosted => 409
  | alreadyReversed => 409
  | hasApplications => 409
  | bankMatched => 409
  | yearNotOpen => 409
  | yearNotClosed => 409
  | notPostable => 422
  | noOpenPeriod => 422
  | missingAccount => 422
  | nothingToPost => 422
  | priorYearOpen => 422
  | laterYearClosed => 422
  | noExchangeRate => 422

/-- Only the sentinels of the package `posting` are mapped. -/
def postingStatus : Err → ℕ
  | .posting e _ => e.status
  | _ => 500

/-- The requests answered through `runPost`, `runApply` or `writePostingError`. -/
def Op.onLedger : Op → Bool
  | .postDoc _ _ => true
  | .postPayment _ _ => true
  | .postMovement _ _ => true
  | .autoApply _ _ _ => true
  | .unpostInvoice _ _ => true
  | .unpostCreditNote _ _ => true
  | .unpostPayment _ _ => true
  | .unpostMovement _ => true
  | .closeFiscalYear _ _ => true
  | .reopenFiscalYear _ => true
  | _ => false

/-- The status of the answer and the database after the request. -/
def handle (op : Op) (gaps : ℕ → ℕ) (s : Store DB) : ℕ × Store DB :=
  match (transaction op).commit gaps s with
  | .ok (_, s') => (200, s')
  | .error e => (postingStatus e, s)
