import HfmcBot.Risk

/-!
# Audit trail and snapshots

The audit records of `persist.rs`, the append-only log they go to, and the
crash-safe snapshot document.

The engine throws the result of an append away, so the log keeps, besides the
records that reached the file, an oracle that tells which appends do.
-/

namespace HfmcBot

inductive AuditRecord
  | decision (ts : DateTime) (mint : Mint) (action : String) (detail : Text)
  | order (ts : DateTime) (orderId : String) (mint : Mint) (side : String)
      (budgetOrQty refPrice : Decimal)
  | fill (ts : DateTime) (orderId : String) (mint : Mint) (side : String)
      (qty priceUsd notionalUsd feeUsd : Decimal)
  | tradeClosed (trade : ClosedTrade)
  | breaker (ts : DateTime) (reason : String)
  deriving DecidableEq

/-- Append-only audit log: the records in the file, the number of appends so
far, and which appends reach the file. -/
structure AuditLog where
  lines : List AuditRecord
  appends : Nat
  writable : Nat → Bool

namespace AuditLog

/-- An empty log on a disk with the given behaviour. -/
def opened (writable : Nat → Bool) : AuditLog := ⟨[], 0, writable⟩

/-- `append(..).ok()`. -/
def append (log : AuditLog) (record : AuditRecord) : AuditLog :=
  { log with
    lines := if log.writable log.appends then log.lines ++ [record] else log.lines
    appends := log.appends + 1 }

/-- Every append succeeds. -/
def Reliable (log : AuditLog) : Prop := ∀ n, log.writable n = true

@[simp] theorem append_writable (log : AuditLog) (record : AuditRecord) :
    (log.append record).writable = log.writable := rfl

theorem Reliable.append {log : AuditLog} (h : log.Reliable) (record : AuditRecord) :
    (log.append record).Reliable := h

theorem Reliable.lines_append {log : AuditLog} (h : log.Reliable) (record : AuditRecord) :
    (log.append record).lines = log.lines ++ [record] := by
  simp [AuditLog.append, h log.appends]

end AuditLog

/-- The audit record of a fill. -/
def fillRecord (fill : Fill) : AuditRecord :=
  .fill fill.ts fill.orderId fill.mint fill.side.lower fill.qty fill.priceUsd fill.notionalUsd
    fill.feeUsd

/-- Engine snapshot: everything needed to resume.  Positions are stored sorted
by mint. -/
structure EngineState where
  version : Nat
  equityUsd : Decimal
  deployedUsd : Decimal
  positions : List Position
  closed : List ClosedTrade
  orderSeq : Nat
  risk : RiskState

/-- `EngineState::VERSION`. -/
def EngineState.currentVersion : Nat := 1

end HfmcBot
