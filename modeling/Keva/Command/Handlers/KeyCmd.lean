import Keva.Command.Handlers.StringCmd

/-!
# Key commands
-/

namespace Keva

open Handler

/-- `*` matches any byte string, `?` any byte, every other byte itself. -/
def globMatch : Bytes → Bytes → Bool
  | [], str => str.isEmpty
  | p :: pattern, str =>
      if p = 42 then str.tails.any (globMatch pattern)
      else
        match str with
        | [] => false
        | c :: str => (p = 63 || p = c) && globMatch pattern str

/-- The counting loop of DEL and EXISTS over the key arguments. -/
def countKeys (test : Bytes → Handler Bool) (args : List RespValue) : Handler Unit := do
  let count ← (List.range' 1 (args.length - 1)).foldlM (fun (count : Int64) i => do
    let key ← element args i
    let hit ← test key
    pure (if hit then count + 1 else count)) 0
  reply (RespEncoder.integer count)

def handleDel : List RespValue → Handler Unit := countKeys del

def handleExists : List RespValue → Handler Unit := countKeys «exists»

def handleType (args : List RespValue) : Handler Unit := do
  let key ← element args 1
  let obj ← peek key
  match obj with
  | none => reply (RespEncoder.simpleString (ascii "none"))
  | some obj =>
      match obj.type with
      | .string => reply (RespEncoder.simpleString (ascii "string"))
      | .list => reply (RespEncoder.simpleString (ascii "list"))
      | .set => reply (RespEncoder.simpleString (ascii "set"))
      | .zset => reply (RespEncoder.simpleString (ascii "zset"))
      | .hash => reply (RespEncoder.simpleString (ascii "hash"))

/-- The common part of EXPIRE, PEXPIRE and EXPIREAT: `deadline` turns the argument into an absolute
time in milliseconds. -/
def setDeadline (deadline : Int64 → Handler MillisecondTimestamp) (args : List RespValue) :
    Handler Unit := do
  let key ← element args 1
  let amount ← element args 2
  match fromChars amount with
  | .error _ => reply (RespEncoder.error notIntegerMessage)
  | .ok (n, _) =>
      let keyExists ← «exists» key
      if !keyExists then reply (RespEncoder.integer 0)
      else do
        let expireMs ← deadline n
        setExpire key expireMs
        reply (RespEncoder.integer 1)

def handleExpire : List RespValue → Handler Unit := setDeadline fun seconds => do
  let now ← nowMilliseconds
  pure (now + seconds * 1000)

def handlePexpire : List RespValue → Handler Unit := setDeadline fun ms => do
  let now ← nowMilliseconds
  pure (now + ms)

def handleExpireat : List RespValue → Handler Unit := setDeadline fun ts => pure (ts * 1000)

def handleTtl (args : List RespValue) : Handler Unit := do
  let key ← element args 1
  let pttlMs ← pttl key
  if pttlMs = -2 then reply (RespEncoder.integer (-2))
  else if pttlMs = -1 then reply (RespEncoder.integer (-1))
  else reply (RespEncoder.integer (pttlMs / 1000))

def handlePttl (args : List RespValue) : Handler Unit := do
  let key ← element args 1
  let pttlMs ← pttl key
  reply (RespEncoder.integer pttlMs)

def handlePersist (args : List RespValue) : Handler Unit := do
  let key ← element args 1
  let keyExists ← «exists» key
  if !keyExists then reply (RespEncoder.integer 0)
  else do
    removeExpire key
    reply (RespEncoder.integer 1)

def handleKeys (args : List RespValue) : Handler Unit := do
  let pattern ← element args 1
  let visited ← forEach
  let found := (visited.map Prod.fst).filter (globMatch pattern)
  reply (RespEncoder.arrayHeader (Int64.ofNat found.length))
  forM found fun k => reply (RespEncoder.bulkString k)

/-- The value is copied into a new object before the old key is deleted. -/
def handleRename (args : List RespValue) : Handler Unit := do
  let key ← element args 1
  let newkey ← element args 2
  let obj ← get key
  match obj with
  | none => reply (RespEncoder.error (ascii "no such key"))
  | some obj =>
      let clock ← lruClock
      let newObj :=
        if obj.encoding = .int then KevaObject.createStringFromInt obj.integerValue clock
        else KevaObject.createString obj.stringView clock
      let _ ← del key
      set newkey newObj
      reply RespEncoder.ok

def handleDbsize (_args : List RespValue) : Handler Unit := do
  let n ← dbsize
  reply (RespEncoder.integer (Int64.ofNat n))

end Keva
