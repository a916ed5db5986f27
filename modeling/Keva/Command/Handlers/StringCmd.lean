import Keva.Command.Context

/-!
# String commands
-/

namespace Keva

open Handler

def wrongTypeMessage : Bytes := ascii "Operation against a key holding the wrong kind of value"

def notIntegerMessage : Bytes := ascii "value is not an integer or out of range"

def wouldOverflowMessage : Bytes := ascii "increment or decrement would overflow"

def invalidExpireMessage (name : String) : Bytes :=
  ascii "invalid expire time in '" ++ ascii name ++ ascii "' command"

structure SetOptions where
  expireMs : Int64
  nx : Bool
  xx : Bool

/-- The option loop of `handle_set` from element `i` on; no result means that an error was
replied. A word that is no option, or `EX` or `PX` as the last word, is passed over. -/
def setOptions (args : List RespValue) : ℕ → ℕ → SetOptions → Handler (Option SetOptions)
  | 0, _, o => pure (some o)
  | fuel + 1, i, o =>
      if i < args.length then do
        let word ← element args i
        let opt := word.map toUpper
        if opt = ascii "EX" ∧ i + 1 < args.length then do
          let amount ← element args (i + 1)
          match fromChars amount with
          | .ok (secs, _) =>
              if secs ≤ 0 then do
                reply (RespEncoder.error (invalidExpireMessage "set"))
                pure none
              else setOptions args fuel (i + 2) { o with expireMs := secs * 1000 }
          | .error _ => do
              reply (RespEncoder.error (invalidExpireMessage "set"))
              pure none
        else if opt = ascii "PX" ∧ i + 1 < args.length then do
          let amount ← element args (i + 1)
          match fromChars amount with
          | .ok (ms, _) =>
              if ms ≤ 0 then do
                reply (RespEncoder.error (invalidExpireMessage "set"))
                pure none
              else setOptions args fuel (i + 2) { o with expireMs := ms }
          | .error _ => do
              reply (RespEncoder.error (invalidExpireMessage "set"))
              pure none
        else if opt = ascii "NX" then setOptions args fuel (i + 1) { o with nx := true }
        else if opt = ascii "XX" then setOptions args fuel (i + 1) { o with xx := true }
        else setOptions args fuel (i + 1) o
      else pure (some o)

/-- `create_string` with the current LRU clock, stored under `key`. -/
def storeString (key val : Bytes) : Handler Unit := do
  let clock ← lruClock
  set key (KevaObject.createString val clock)

def handleSet (args : List RespValue) : Handler Unit := do
  let key ← element args 1
  let val ← element args 2
  let options ← setOptions args args.length 3 ⟨-1, false, false⟩
  match options with
  | none => pure ()
  | some o =>
      let keyExists ← «exists» key
      if o.nx && keyExists then reply RespEncoder.nil
      else if o.xx && !keyExists then reply RespEncoder.nil
      else do
        storeString key val
        if 0 < o.expireMs then do
          let now ← nowMilliseconds
          setExpire key (now + o.expireMs)
          reply RespEncoder.ok
        else reply RespEncoder.ok

def handleGet (args : List RespValue) : Handler Unit := do
  let key ← element args 1
  let obj ← get key
  match obj with
  | none => reply RespEncoder.nil
  | some obj =>
      if obj.type ≠ .string then reply (RespEncoder.wrongType wrongTypeMessage)
      else reply (RespEncoder.bulkString obj.getStringValue)

def handleGetset (args : List RespValue) : Handler Unit := do
  let key ← element args 1
  let val ← element args 2
  let old ← get key
  match old with
  | none => do
      reply RespEncoder.nil
      storeString key val
  | some old =>
      if old.type ≠ .string then reply (RespEncoder.wrongType wrongTypeMessage)
      else do
        reply (RespEncoder.bulkString old.getStringValue)
        storeString key val

/-- One round of the loop of `handle_mset`. -/
def msetRound (args : List RespValue) (i : ℕ) : Handler Unit := do
  let val ← element args (i + 1)
  let clock ← lruClock
  let key ← element args i
  set key (KevaObject.createString val clock)

/-- The keys stand at the odd places. -/
def handleMset (args : List RespValue) : Handler Unit :=
  if args.length % 2 ≠ 1 then reply (RespEncoder.error (ascii "wrong number of arguments for MSET"))
  else do
    forM (List.range' 1 (args.length / 2) 2) (msetRound args)
    reply RespEncoder.ok

/-- One round of the loop of `handle_mget`. -/
def mgetRound (args : List RespValue) (i : ℕ) : Handler Unit := do
  let key ← element args i
  let obj ← get key
  match obj with
  | none => reply RespEncoder.nil
  | some obj =>
      if obj.type ≠ .string then reply RespEncoder.nil
      else reply (RespEncoder.bulkString obj.getStringValue)

def handleMget (args : List RespValue) : Handler Unit := do
  reply (RespEncoder.arrayHeader (Int64.ofNat (args.length - 1)))
  forM (List.range' 1 (args.length - 1)) (mgetRound args)

def handleAppend (args : List RespValue) : Handler Unit := do
  let key ← element args 1
  let val ← element args 2
  let obj ← get key
  match obj with
  | none => do
      storeString key val
      reply (RespEncoder.integer (Int64.ofNat val.length))
  | some obj =>
      if obj.type ≠ .string then reply (RespEncoder.wrongType wrongTypeMessage)
      else do
        let current := obj.getStringValue ++ val
        storeString key current
        reply (RespEncoder.integer (Int64.ofNat current.length))

def handleStrlen (args : List RespValue) : Handler Unit := do
  let key ← element args 1
  let obj ← get key
  match obj with
  | none => reply (RespEncoder.integer 0)
  | some obj =>
      if obj.type ≠ .string then reply (RespEncoder.wrongType wrongTypeMessage)
      else reply (RespEncoder.integer (Int64.ofNat obj.getStringValue.length))

def getIntegerObj : Option KevaObject → Option Int64
  | none => some 0
  | some obj =>
      if obj.type ≠ .string then none
      else if obj.encoding = .int then some obj.integerValue
      else Buffer.tryParseInt obj.buffer

/-- The common part of the four counter commands: `refuses` is their overflow check. -/
def updateCounter (key : Bytes) (refuses : Int64 → Bool) (next : Int64 → Int64) :
    Handler Unit := do
  let obj ← get key
  match getIntegerObj obj with
  | none => reply (RespEncoder.error notIntegerMessage)
  | some current =>
      if refuses current then reply (RespEncoder.error wouldOverflowMessage)
      else do
        let clock ← lruClock
        set key (KevaObject.createStringFromInt (next current) clock)
        reply (RespEncoder.integer (next current))

def handleIncr (args : List RespValue) : Handler Unit := do
  let key ← element args 1
  updateCounter key (fun c => c == Int64.maxValue) (fun c => c + 1)

def handleDecr (args : List RespValue) : Handler Unit := do
  let key ← element args 1
  updateCounter key (fun c => c == Int64.minValue) (fun c => c - 1)

def incrbyRefuses (increment current : Int64) : Bool :=
  (0 < increment && Int64.maxValue - increment < current) ||
    (increment < 0 && current < Int64.minValue - increment)

def handleIncrby (args : List RespValue) : Handler Unit := do
  let key ← element args 1
  let amount ← element args 2
  match fromChars amount with
  | .error _ => reply (RespEncoder.error notIntegerMessage)
  | .ok (increment, _) => updateCounter key (incrbyRefuses increment) (fun c => c + increment)

/-- The one counter command without an overflow check. -/
def handleDecrby (args : List RespValue) : Handler Unit := do
  let key ← element args 1
  let amount ← element args 2
  match fromChars amount with
  | .error _ => reply (RespEncoder.error notIntegerMessage)
  | .ok (decrement, _) => updateCounter key (fun _ => false) (fun c => c - decrement)

/-- The common part of SETEX and PSETEX: `toMs` converts the given lifetime. -/
def setWithLifetime (name : String) (toMs : Int64 → Int64) (args : List RespValue) :
    Handler Unit := do
  let key ← element args 1
  let amount ← element args 2
  let val ← element args 3
  match fromChars amount with
  | .error _ => reply (RespEncoder.error (invalidExpireMessage name))
  | .ok (lifetime, _) =>
      if lifetime ≤ 0 then reply (RespEncoder.error (invalidExpireMessage name))
      else do
        storeString key val
        let now ← nowMilliseconds
        setExpire key (now + toMs lifetime)
        reply RespEncoder.ok

def handleSetex : List RespValue → Handler Unit := setWithLifetime "setex" (fun s => s * 1000)

def handlePsetex : List RespValue → Handler Unit := setWithLifetime "psetex" (fun ms => ms)

def handleSetnx (args : List RespValue) : Handler Unit := do
  let key ← element args 1
  let val ← element args 2
  let keyExists ← «exists» key
  if keyExists then reply (RespEncoder.integer 0)
  else do
    storeString key val
    reply (RespEncoder.integer 1)

end Keva
