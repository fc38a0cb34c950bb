import Mitosis.Entity

namespace Mitosis
set_option autoImplicit true

inductive HeartbeatOp where
  | unregisterWorker (workerId : WorkerId)
  | heartbeat (workerId : WorkerId)
  deriving DecidableEq

/-- The workers with the time at which each of them expires. -/
structure HeartbeatQueue where
  workers : Table WorkerId Instant
  heartbeatTimeout : Nat

namespace HeartbeatQueue

def unregisterWorker (q : HeartbeatQueue) (workerId : WorkerId) : HeartbeatQueue :=
  { q with workers := q.workers.erase workerId }

def heartbeat (q : HeartbeatQueue) (workerId : WorkerId) (now : Instant) : HeartbeatQueue :=
  { q with workers := q.workers.set workerId (now + q.heartbeatTimeout) }

def handleOp (q : HeartbeatQueue) (op : HeartbeatOp) (now : Instant) : HeartbeatQueue :=
  match op with
  | .unregisterWorker w => q.unregisterWorker w
  | .heartbeat w => q.heartbeat w now

/-- `workerId` may be the item that `peek` returns, and its time has passed. -/
def expires (q : HeartbeatQueue) (workerId : WorkerId) (now : Instant) : Bool :=
  (q.workers.find workerId).any fun r =>
    decide (r ≤ now) && q.workers.rows.all fun e => decide (r ≤ e.2)

end HeartbeatQueue
end Mitosis
