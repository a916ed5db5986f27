import Keva.Lib.Program
import Keva.Persistence.Rdb
import Keva.Protocol.RespTypes

/-!
# What a command handler can do

A handler is a `Program` over the calls it makes: to the database, to the clocks, to the
connection, to the server context and to the persistence layer. `perform` interprets a call on a
`Session`. What the outside world answers during one call (clock readings, the outcome of a save or
a fork) is a `World`; a command sees one `World` for each call.
-/

namespace Keva

inductive ConnectionState
  | connected
  | writeOnly
  | closed
  deriving DecidableEq, Repr

structure ServerConfig where
  port : UInt16
  hz : Int32
  rdbEnabled : Bool

structure ServerStats where
  totalCommandsProcessed : UInt64 := 0
  totalConnectionsReceived : UInt64 := 0
  keyspaceHits : UInt64 := 0
  keyspaceMisses : UInt64 := 0
  expiredKeys : UInt64 := 0
  evictedKeys : UInt64 := 0

/-- `bgsaveChildPid` is -1 when there is no child. -/
structure ServerContext where
  config : ServerConfig
  stats : ServerStats
  startTimeSeconds : Int64
  lastSaveTime : Int64
  dirtyKeys : UInt64
  bgsaveChildPid : ℤ

/-- `ServerContext::init`; `now` is its reading of `time(nullptr)`. -/
def ServerContext.init (config : ServerConfig) (now : Int64) : ServerContext where
  config := config
  stats := {}
  startTimeSeconds := now
  lastSaveTime := now
  dirtyKeys := 0
  bgsaveChildPid := -1

/-- How a save ends: completely, or with an error message after some entries were visited. -/
inductive SaveOutcome
  | ok
  | error (visited : ℕ) (message : Bytes)

structure World where
  nowMs : MillisecondTimestamp
  time : Int64
  saveClock : ℕ → MillisecondTimestamp
  save : SaveOutcome
  fork : Except Bytes ℕ

/-- Saves and forks succeed and the clock stands still. -/
def World.still (nowMs : MillisecondTimestamp) (time : Int64) : World where
  nowMs := nowMs
  time := time
  saveClock := fun _ => nowMs
  save := .ok
  fork := .ok 1

/-- A BGSAVE child from its fork until the server has reaped it, with its copy of the keyspace.
`finished` is set once it has replaced the snapshot file. -/
structure BgsaveChild where
  db : KevaDatabase
  finished : Bool

/-- `snapshot` is what the file under `rdb_filename` records. `output` collects the bytes appended
to the write buffer. `outOfBounds` is set when a handler reads past the end of the elements. -/
structure Session where
  db : KevaDatabase
  server : ServerContext
  snapshot : Option (List RdbRecord)
  child : Option BgsaveChild
  state : ConnectionState
  output : Bytes
  outOfBounds : Bool
  calls : ℕ

def Session.initial (P Q : DictParams) (server : ServerContext) : Session where
  db := KevaDatabase.empty P Q
  server := server
  snapshot := none
  child := none
  state := .connected
  output := []
  outOfBounds := false
  calls := 0

inductive Call
  | outOfBounds
  | get (key : Bytes)
  | peek (key : Bytes)
  | set (key : Bytes) (obj : KevaObject)
  | del (key : Bytes)
  | setExpire (key : Bytes) (expireMs : MillisecondTimestamp)
  | removeExpire (key : Bytes)
  | pttl (key : Bytes)
  | forEach
  | dbsize
  | flush
  | nowMilliseconds
  | time
  | appendResponse (bytes : Bytes)
  | setState (state : ConnectionState)
  | serverContext
  | storeLastSaveTime (secs : Int64)
  | storeDirtyKeys (n : UInt64)
  | fetchAddDirtyKeys
  | recordCommand
  | rdbSaveSync
  | rdbSaveBackground

namespace Call

def Res : Call → Type
  | outOfBounds => Unit
  | get _ => Option KevaObject
  | peek _ => Option KevaObject
  | set _ _ => Unit
  | del _ => Bool
  | setExpire _ _ => Unit
  | removeExpire _ => Unit
  | pttl _ => Int64
  | forEach => List (Bytes × KevaObject)
  | dbsize => ℕ
  | flush => Unit
  | nowMilliseconds => MillisecondTimestamp
  | time => Int64
  | appendResponse _ => Unit
  | setState _ => Unit
  | serverContext => ServerContext
  | storeLastSaveTime _ => Unit
  | storeDirtyKeys _ => Unit
  | fetchAddDirtyKeys => Unit
  | recordCommand => Unit
  | rdbSaveSync => Except Bytes Unit
  | rdbSaveBackground => Except Bytes Unit

end Call

abbrev Handler (α : Type) : Type := Program Call Call.Res α

namespace Session

/-- `rdb_save_sync`: the snapshot file is replaced only when everything was written. -/
def rdbSaveSync (s : Session) (w : World) : Except Bytes Unit × Session :=
  match w.save with
  | .ok =>
      let (records, db) := s.db.saveRecords w.saveClock
      (.ok (), { s with db := db, snapshot := some records })
  | .error visited message =>
      (.error message, { s with db := s.db.saveInterrupted w.saveClock visited })

/-- `rdb_save_background`: the child starts with a copy of the keyspace. -/
def rdbSaveBackground (s : Session) (w : World) : Except Bytes Unit × Session :=
  match w.fork with
  | .error message => (.error message, s)
  | .ok pid =>
      (.ok (), { s with
        child := some ⟨s.db, false⟩
        server := { s.server with bgsaveChildPid := pid } })

def answer (s : Session) (w : World) : (op : Call) → op.Res × Session
  | .outOfBounds => ((), { s with outOfBounds := true })
  | .get key => ((s.db.get key w.nowMs w.time).1, { s with db := (s.db.get key w.nowMs w.time).2 })
  | .peek key => ((s.db.peek key w.nowMs).1, { s with db := (s.db.peek key w.nowMs).2 })
  | .set key obj => ((), { s with db := s.db.set key obj })
  | .del key => ((s.db.del key).1, { s with db := (s.db.del key).2 })
  | .setExpire key ms => ((), { s with db := s.db.setExpire key ms })
  | .removeExpire key => ((), { s with db := s.db.removeExpire key })
  | .pttl key => ((s.db.pttl key w.nowMs).1, { s with db := (s.db.pttl key w.nowMs).2 })
  | .forEach => (s.db.forEach w.nowMs, s)
  | .dbsize => (s.db.dbsize, s)
  | .flush => ((), { s with db := s.db.flush })
  | .nowMilliseconds => (w.nowMs, s)
  | .time => (w.time, s)
  | .appendResponse bytes => ((), { s with output := s.output ++ bytes })
  | .setState state => ((), { s with state := state })
  | .serverContext => (s.server, s)
  | .storeLastSaveTime secs => ((), { s with server := { s.server with lastSaveTime := secs } })
  | .storeDirtyKeys n => ((), { s with server := { s.server with dirtyKeys := n } })
  | .fetchAddDirtyKeys =>
      ((), { s with server := { s.server with dirtyKeys := s.server.dirtyKeys + 1 } })
  | .recordCommand =>
      ((), { s with server := { s.server with stats := { s.server.stats with
        totalCommandsProcessed := s.server.stats.totalCommandsProcessed + 1 } } })
  | .rdbSaveSync => s.rdbSaveSync w
  | .rdbSaveBackground => s.rdbSaveBackground w

/-- One call, during which the world answers `env s.calls`. -/
def perform (env : ℕ → World) (s : Session) (op : Call) : op.Res × Session :=
  (s.answer (env s.calls) op).map id (fun s' => { s' with calls := s.calls + 1 })

end Session

namespace Handler

def call (op : Call) : Handler op.Res := Program.perform op

/-- `ctx.cmd.elements[i].str`. A read past the end is undefined; it is recorded here. -/
def element (args : List RespValue) (i : ℕ) : Handler Bytes :=
  match args[i]? with
  | some v => pure v.str
  | none => do
      call .outOfBounds
      pure []

def get (key : Bytes) : Handler (Option KevaObject) := call (.get key)

def peek (key : Bytes) : Handler (Option KevaObject) := call (.peek key)

/-- `db.exists`, which looks the key up with `get`. -/
def «exists» (key : Bytes) : Handler Bool := do
  let obj ← get key
  pure obj.isSome

def set (key : Bytes) (obj : KevaObject) : Handler Unit := call (.set key obj)

def del (key : Bytes) : Handler Bool := call (.del key)

def setExpire (key : Bytes) (expireMs : MillisecondTimestamp) : Handler Unit :=
  call (.setExpire key expireMs)

def removeExpire (key : Bytes) : Handler Unit := call (.removeExpire key)

def pttl (key : Bytes) : Handler Int64 := call (.pttl key)

def forEach : Handler (List (Bytes × KevaObject)) := call .forEach

def dbsize : Handler ℕ := call .dbsize

def flush : Handler Unit := call .flush

def nowMilliseconds : Handler MillisecondTimestamp := call .nowMilliseconds

def time : Handler Int64 := call .time

/-- `lru_clock::current()`. -/
def lruClock : Handler UInt32 := do
  let secs ← time
  pure (LruClock.current secs)

/-- Appends to the connection's write buffer. -/
def reply (bytes : Bytes) : Handler Unit := call (.appendResponse bytes)

def setState (state : ConnectionState) : Handler Unit := call (.setState state)

def serverContext : Handler ServerContext := call .serverContext

def storeLastSaveTime (secs : Int64) : Handler Unit := call (.storeLastSaveTime secs)

def storeDirtyKeys (n : UInt64) : Handler Unit := call (.storeDirtyKeys n)

def fetchAddDirtyKeys : Handler Unit := call .fetchAddDirtyKeys

def recordCommand : Handler Unit := call .recordCommand

def rdbSaveSync : Handler (Except Bytes Unit) := call .rdbSaveSync

def rdbSaveBackground : Handler (Except Bytes Unit) := call .rdbSaveBackground

end Handler

end Keva
