import HfmcBot.Types

/-!
# Operator alerts

The alert kinds of `alerts.rs`, and what the engine needs of the alerter: the
calls of `fire`, in order.  What `fire` does with a call never comes back into
the engine.
-/

namespace HfmcBot

inductive AlertKind
  | killSwitch
  | dailyLossTrip
  | positionStuck
  | transportUnknown
  | snapshotFailed
  deriving DecidableEq

def AlertKind.asStr : AlertKind → String
  | .killSwitch => "kill_switch"
  | .dailyLossTrip => "daily_loss_trip"
  | .positionStuck => "position_stuck"
  | .transportUnknown => "transport_unknown"
  | .snapshotFailed => "snapshot_failed"

/-- One call of `fire`. -/
structure AlertCall where
  kind : AlertKind
  detail : Text
  deriving DecidableEq

end HfmcBot
