import Keva.Command.Handlers.KeyCmd
import Keva.Command.Handlers.ServerCmd

/-!
# The command table and the execution of one frame

`executeFrame` is the body of the loop in `dispatch` after the frame has been parsed and consumed:
it validates the frame, looks the command up, checks the arity, runs the handler and counts.
-/

namespace Keva

open Handler

/-- An `arityMax` of -1 means that any number of further arguments is allowed. -/
structure CommandEntry where
  name : Bytes
  handler : List RespValue → Handler Unit
  arityMin : ℤ
  arityMax : ℤ
  write : Bool

/-- The entries in the order of registration. Of the flags only `CMD_FLAG_WRITE` is ever tested. -/
def commandTable : List CommandEntry :=
  [ ⟨ascii "SET", handleSet, 3, -1, true⟩,
    ⟨ascii "GET", handleGet, 2, 2, false⟩,
    ⟨ascii "GETSET", handleGetset, 3, 3, true⟩,
    ⟨ascii "MSET", handleMset, 3, -1, true⟩,
    ⟨ascii "MGET", handleMget, 2, -1, false⟩,
    ⟨ascii "APPEND", handleAppend, 3, 3, true⟩,
    ⟨ascii "STRLEN", handleStrlen, 2, 2, false⟩,
    ⟨ascii "INCR", handleIncr, 2, 2, true⟩,
    ⟨ascii "INCRBY", handleIncrby, 3, 3, true⟩,
    ⟨ascii "DECR", handleDecr, 2, 2, true⟩,
    ⟨ascii "DECRBY", handleDecrby, 3, 3, true⟩,
    ⟨ascii "SETEX", handleSetex, 4, 4, true⟩,
    ⟨ascii "PSETEX", handlePsetex, 4, 4, true⟩,
    ⟨ascii "SETNX", handleSetnx, 3, 3, true⟩,
    ⟨ascii "DEL", handleDel, 2, -1, true⟩,
    ⟨ascii "EXISTS", handleExists, 2, -1, false⟩,
    ⟨ascii "TYPE", handleType, 2, 2, false⟩,
    ⟨ascii "EXPIRE", handleExpire, 3, 3, true⟩,
    ⟨ascii "PEXPIRE", handlePexpire, 3, 3, true⟩,
    ⟨ascii "EXPIREAT", handleExpireat, 3, 3, true⟩,
    ⟨ascii "TTL", handleTtl, 2, 2, false⟩,
    ⟨ascii "PTTL", handlePttl, 2, 2, false⟩,
    ⟨ascii "PERSIST", handlePersist, 2, 2, true⟩,
    ⟨ascii "KEYS", handleKeys, 2, 2, false⟩,
    ⟨ascii "RENAME", handleRename, 3, 3, true⟩,
    ⟨ascii "DBSIZE", handleDbsize, 1, 1, false⟩,
    ⟨ascii "PING", handlePing, 1, 2, false⟩,
    ⟨ascii "ECHO", handleEcho, 2, 2, false⟩,
    ⟨ascii "FLUSHDB", handleFlushdb, 1, 1, true⟩,
    ⟨ascii "INFO", handleInfo, 1, 2, false⟩,
    ⟨ascii "SAVE", handleSave, 1, 1, false⟩,
    ⟨ascii "BGSAVE", handleBgsave, 1, 1, false⟩,
    ⟨ascii "SELECT", handleSelect, 2, 2, false⟩,
    ⟨ascii "QUIT", handleQuit, 1, 1, false⟩ ]

def findCommand (name : Bytes) : Option CommandEntry :=
  commandTable.find? (fun entry => entry.name = name.map toUpper)

/-- `argc` is the number of elements cast to `int`. -/
def CommandEntry.admits (entry : CommandEntry) (args : List RespValue) : Bool :=
  let argc := (Int32.ofNat args.length).toInt
  !(argc < entry.arityMin || (entry.arityMax ≠ -1 && entry.arityMax < argc))

def unknownCommandMessage (name : Bytes) : Bytes := ascii "unknown command `" ++ name ++ ascii "`"

def wrongArityMessage (name : Bytes) : Bytes :=
  ascii "wrong number of arguments for '" ++ name ++ ascii "' command"

/-- A command whose name and arity are accepted. -/
def runCommand (entry : CommandEntry) (args : List RespValue) : Handler Unit := do
  entry.handler args
  recordCommand
  if entry.write then fetchAddDirtyKeys else pure ()

def executeFrame (frame : RespValue) : Handler Unit :=
  match frame.elements with
  -- `!is_array()` is this case too, since only an array has elements
  | [] => reply (RespEncoder.error (ascii "Protocol error: expected array"))
  | nameValue :: rest =>
      if !nameValue.isBulkString then
        reply (RespEncoder.error (ascii "Protocol error: command name must be bulk string"))
      else
        let cmdName := nameValue.str.map toUpper
        match findCommand cmdName with
        | none => do
            reply (RespEncoder.error (unknownCommandMessage cmdName))
            recordCommand
        | some entry =>
            if entry.admits (nameValue :: rest) then runCommand entry (nameValue :: rest)
            else do
              reply (RespEncoder.error (wrongArityMessage entry.name))
              recordCommand

end Keva
