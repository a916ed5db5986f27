import Keva.Command.Context

/-!
# Server commands
-/

namespace Keva

open Handler

def handlePing (args : List RespValue) : Handler Unit :=
  if args.length = 1 then reply (RespEncoder.simpleString (ascii "PONG"))
  else do
    let message ← element args 1
    reply (RespEncoder.bulkString message)

def handleEcho (args : List RespValue) : Handler Unit := do
  let message ← element args 1
  reply (RespEncoder.bulkString message)

def handleFlushdb (_args : List RespValue) : Handler Unit := do
  flush
  reply RespEncoder.ok

/-- The text of INFO. The unsigned counters and sizes are written in decimal, as `<<` does. -/
def infoText (srv : ServerContext) (now : Int64) (keys : ℕ) : Bytes :=
  let uptime := now - srv.startTimeSeconds
  let line (name : String) (value : Bytes) : Bytes := ascii name ++ value ++ crlf
  let count (n : UInt64) : Bytes := Decimal.renderNat n.toNat
  line "# Server" [] ++ line "keva_version:0.1.0" [] ++ line "os:Linux" [] ++
  line "arch_bits:64" [] ++ line "hz:" (Decimal.renderInt srv.config.hz.toInt) ++
  line "uptime_in_seconds:" (toChars uptime) ++
  line "tcp_port:" (Decimal.renderNat srv.config.port.toNat) ++ crlf ++
  line "# Clients" [] ++ line "connected_clients:1" [] ++ crlf ++
  line "# Stats" [] ++
  line "total_commands_processed:" (count srv.stats.totalCommandsProcessed) ++
  line "total_connections_received:" (count srv.stats.totalConnectionsReceived) ++
  line "keyspace_hits:" (count srv.stats.keyspaceHits) ++
  line "keyspace_misses:" (count srv.stats.keyspaceMisses) ++
  line "expired_keys:" (count srv.stats.expiredKeys) ++
  line "evicted_keys:" (count srv.stats.evictedKeys) ++ crlf ++
  line "# Persistence" [] ++
  line "rdb_enabled:" (if srv.config.rdbEnabled then ascii "1" else ascii "0") ++
  line "rdb_last_save_time:" (toChars srv.lastSaveTime) ++
  line "rdb_changes_since_last_save:" (count srv.dirtyKeys) ++ crlf ++
  line "# Keyspace" [] ++
  ascii "db0:keys=" ++ Decimal.renderNat keys ++ ascii ",expires=0\r\n"

def handleInfo (_args : List RespValue) : Handler Unit := do
  let srv ← serverContext
  let now ← time
  let keys ← dbsize
  reply (RespEncoder.bulkString (infoText srv now keys))

def handleSave (_args : List RespValue) : Handler Unit := do
  let status ← rdbSaveSync
  match status with
  | .ok () => do
      let now ← time
      storeLastSaveTime now
      storeDirtyKeys 0
      reply RespEncoder.ok
  | .error message => reply (RespEncoder.error message)

def handleBgsave (_args : List RespValue) : Handler Unit := do
  let srv ← serverContext
  if srv.bgsaveChildPid ≠ -1 then
    reply (RespEncoder.error (ascii "Background save already in progress"))
  else do
    let status ← rdbSaveBackground
    match status with
    | .ok () => reply (RespEncoder.simpleString (ascii "Background saving started"))
    | .error message => reply (RespEncoder.error message)

def handleSelect (args : List RespValue) : Handler Unit := do
  let amount ← element args 1
  match fromChars amount with
  | .error _ => reply (RespEncoder.error (ascii "DB index is out of range"))
  | .ok (idx, _) =>
      if idx ≠ 0 then reply (RespEncoder.error (ascii "DB index is out of range"))
      else reply RespEncoder.ok

def handleQuit (_args : List RespValue) : Handler Unit := do
  reply RespEncoder.ok
  setState .writeOnly

end Keva
