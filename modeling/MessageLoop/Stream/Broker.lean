import Mathlib.Init

/-!
The leaf types of the brokers (`internal/stream/broker.go`): publications and pages of channel
history.
-/

namespace MessageLoop.Broker

/-- `offset` and `epoch` are set when a broker stores the publication; a `historySize` that is not
positive leaves the capacity of a new history to the broker. -/
structure Publication where
  channel : String
  id : String
  payload : String
  offset : Nat
  epoch : String
  historySize : Int
  deriving DecidableEq, Repr

inductive HistoryGapReason where
  | none
  | headTrimmed
  | emptyExpired
  | middle
  | replayTruncated
  deriving DecidableEq, Repr

/-- `firstRetained` is the oldest retained offset, zero when nothing is retained. -/
structure HistoryPage where
  publications : List Publication
  truncated : Bool
  gap : Bool
  gapReason : HistoryGapReason
  firstRetained : Nat
  deriving DecidableEq, Repr

def HistoryPage.empty : HistoryPage :=
  ⟨[], false, false, .none, 0⟩

def defaultHistoryLimit : Nat := 1000

end MessageLoop.Broker
