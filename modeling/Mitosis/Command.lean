import Mitosis.Dispatcher
import Mitosis.Heartbeat
import Mitosis.Lib.Prog
import Mitosis.Query

namespace Mitosis
set_option autoImplicit true

/-- What the handlers of the coordinator share: the database, the two channels with the
queues behind them, and the token that stops the coordinator. -/
structure Infra where
  db : Db
  taskChan : List TaskDispatcherOp
  taskRx : Bool
  dispatcher : TaskDispatcher
  replies : Table Ticket (Option TaskId)
  nextTicket : Ticket
  heartbeatChan : List HeartbeatOp
  heartbeatRx : Bool
  heartbeatQueue : HeartbeatQueue
  nextUuid : Uuid
  cancelled : Bool
  clock : Instant

inductive Cmd where
  | select (q : Select)
  | write (q : Write)
  | sendTask (op : TaskDispatcherOp)
  | sendHeartbeat (op : HeartbeatOp)
  | sendFetch (workerId : WorkerId)
  | recvFetch (rx : Ticket)
  | now
  | newUuid
  | cancelToken

namespace Cmd

abbrev Ret : Cmd → Type
  | select q => q.Ret
  | write q => q.Ret
  | sendTask _ => Unit
  | sendHeartbeat _ => Unit
  | sendFetch _ => Ticket
  | recvFetch _ => Option TaskId
  | now => Instant
  | newUuid => Uuid
  | cancelToken => Unit

abbrev Resp (c : Cmd) : Type := Except Error c.Ret

def closed : Error := .custom "channel closed"

/-- One step of a handler; `none` while it must wait. With a `fault` the database answers a
statement with that error and does nothing. -/
def exec (fault : Option DbErr) (s : Infra) : (c : Cmd) → Option (c.Resp × Infra)
  | select q =>
    match fault with
    | some e => some (.error (.dbError e), s)
    | none => some (.ok (q.eval s.db), s)
  | write q =>
    match fault with
    | some e => some (.error (.dbError e), s)
    | none =>
      match q.run s.clock s.db with
      | .error e => some (.error e, s)
      | .ok (r, db) => some (.ok r, { s with db })
  | sendTask op =>
    if s.taskRx then some (.ok (), { s with taskChan := s.taskChan ++ [op] })
    else some (.error closed, s)
  | sendHeartbeat op =>
    if s.heartbeatRx then some (.ok (), { s with heartbeatChan := s.heartbeatChan ++ [op] })
    else some (.error closed, s)
  | sendFetch workerId =>
    if s.taskRx then
      some (.ok s.nextTicket, { s with
        taskChan := s.taskChan ++ [.fetchTask workerId s.nextTicket]
        nextTicket := s.nextTicket + 1 })
    else some (.error closed, s)
  | recvFetch rx =>
    match s.replies.find rx with
    | some reply => some (.ok reply, { s with replies := s.replies.erase rx })
    | none => if s.taskRx then none else some (.error closed, s)
  | now => some (.ok s.clock, s)
  | newUuid => some (.ok s.nextUuid, { s with nextUuid := s.nextUuid + 1 })
  | cancelToken => some (.ok (), { s with cancelled := true })

end Cmd

def Service (α : Type) : Type := Prog Cmd Cmd.Resp (Except Error α)

namespace Service

def ok (a : α) : Service α := Prog.ret (.ok a)

def fail (e : Error) : Service α := Prog.ret (.error e)

/-- `p?` followed by the rest of the function. -/
def andThen (p : Service α) (f : α → Service β) : Service β :=
  Prog.bind (β := Except Error β) p fun
    | .ok a => f a
    | .error e => Prog.ret (.error e)

def recover (p : Service α) (f : Error → Service α) : Service α :=
  Prog.bind (β := Except Error α) p fun
    | .ok a => Prog.ret (.ok a)
    | .error e => f e

instance : Monad Service where
  pure := ok
  bind := andThen

instance : MonadExcept Error Service where
  throw := fail
  tryCatch := recover

/-- Issue a command and give its response to the caller. -/
def issue (c : Cmd) : Service c.Ret := Prog.call c Prog.ret

def select (q : Select) : Service q.Ret := issue (.select q)

def write (q : Write) : Service q.Ret := issue (.write q)

def now : Service Instant := issue .now

def newUuid : Service Uuid := issue .newUuid

/-- `send(op)`, with the error the caller reports if the receiver is gone. -/
def sendTask (op : TaskDispatcherOp) (msg : String) : Service Unit :=
  recover (issue (.sendTask op)) fun _ => fail (.custom msg)

def sendHeartbeat (op : HeartbeatOp) (msg : String) : Service Unit :=
  recover (issue (.sendHeartbeat op)) fun _ => fail (.custom msg)

/-- `let _ = p`. -/
def ignore (p : Service Unit) : Service Unit := recover p fun _ => ok ()

/-- `ok_or(e)?`. -/
def okOr (e : Error) : Option α → Service α
  | some a => ok a
  | none => fail e

def ofExcept : Except Error α → Service α
  | .ok a => ok a
  | .error e => fail e

end Service
end Mitosis
