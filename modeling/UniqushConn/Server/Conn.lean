import UniqushConn.Msgcache.Redis

/- The server side of a connection (`serverConn` in `proto/server`): its settings,
   the two ways it sends a message (in full or as a digest), the exclusion parser
   `cutString`, and `ProcessCommand`, one definition per command it handles.

   Every operation is a function from the connection to its error (`none` for a nil
   error) and the connection after it. The connection holds what the code reads and
   writes through `self`: its identity, its settings, its cache, its channels (the
   requests each has carried, or `none` for a nil channel) and its wire (every frame
   handed to the writer, in order). A failed call keeps what it did before failing,
   as the Go code does.

   `Message.Size`, `time.ParseDuration` and the writer below `WriteMessage` are not in
   the repository's files; they are the `Env`'s fields. Whatever the writer does, a
   frame handed to it is on the wire: the writer's verdict is the call's error.

   Correspondence (Go ↔ Lean):
     `shouldDigest`, `writeAutoCompress`      ↔ `shouldDigest`, `writeAutoCompress`
     `c > 0 && c < int32(sz)` (written twice) ↔ `autoCompress`
     `fromServer`, `writeDigest`               ↔ `fromServer`, `writeDigest` (its loop: `digestHeader`)
     `SendMessage`, `sendAllCachedMessage`     ↔ `sendMessage`, `sendAllCachedMessage` (its loop: `sendCached`)
     `cutString`, the `for len(data) > 0` loop ↔ `cutString`, `cutAll`
     `ProcessCommand`                          ↔ `processCommand`, one `cmd…` per case
     `NewConn`                                 ↔ `newConn` -/
namespace UniqushConn.Server
open UniqushConn.Proto UniqushConn.Msgcache

/-- `SubscribeRequest`. -/
structure SubscribeRequest where
  subscribe : Bool
  service : String
  username : String
  params : StrMap
  deriving DecidableEq

/-- `ForwardRequest`. The duration is in nanoseconds. -/
structure ForwardRequest where
  receiver : String
  receiverService : String
  ttl : Int
  message : Message
  deriving DecidableEq

/-- What the server code calls but this repository does not define. -/
structure Env where
  /-- `Message.Size()`, a byte length of a message's header and body. -/
  size : StrMap → List UInt8 → Nat
  /-- `time.ParseDuration`, in nanoseconds, with the zero duration on error. -/
  parseDuration : String → Int
  /-- The writer's verdict on a frame, given the frames written before it. -/
  write : List Frame → Frame → Option Error

/-- `serverConn`. -/
structure ServerConn where
  service : String
  username : String
  digestThreshold : BitVec 32
  compressThreshold : BitVec 32
  visible : BitVec 32
  digestFields : List String
  mcache : Option Cache
  fwdChan : Option (List ForwardRequest)
  subChan : Option (List SubscribeRequest)
  wire : List Frame

namespace ServerConn

/-- `Visible`. -/
def Visible (c : ServerConn) : Bool := decide (0 < c.visible.toInt)

def setMessageCache (c : ServerConn) (cache : Option Cache) : ServerConn := { c with mcache := cache }

def setForwardRequestChannel (c : ServerConn) (ch : Option (List ForwardRequest)) : ServerConn :=
  { c with fwdChan := ch }

def setSubscribeRequestChan (c : ServerConn) (ch : Option (List SubscribeRequest)) : ServerConn :=
  { c with subChan := ch }

end ServerConn

/-- `NewConn`. -/
def newConn (service username : String) : ServerConn where
  service := service
  username := username
  digestThreshold := int32 (-1)
  compressThreshold := int32 512
  visible := int32 1
  digestFields := []
  mcache := none
  fwdChan := none
  subChan := none
  wire := []

section Send
variable (env : Env)

/-- `msg.Size()`. -/
def Env.sizeOf (m : Message) : Nat := env.size m.header m.body

/-- Hand a frame to the writer. -/
def writeFrame (f : Frame) (c : ServerConn) : Option Error × ServerConn :=
  (env.write c.wire f, { c with wire := c.wire ++ [f] })

/-- `shouldDigest`: the size, and whether the digest threshold is set and below it. -/
def shouldDigest (c : ServerConn) (msg : Message) : Nat × Bool :=
  let sz := env.sizeOf msg
  let d := c.digestThreshold
  (sz, decide (0 ≤ d.toInt ∧ d.toInt < (int32 sz).toInt))

/-- The compression test of `writeAutoCompress` and `writeDigest`. -/
def autoCompress (c : ServerConn) (sz : Nat) : Bool :=
  decide (0 < c.compressThreshold.toInt ∧ c.compressThreshold.toInt < (int32 sz).toInt)

/-- `writeAutoCompress`. -/
def writeAutoCompress (msg : Message) (sz : Nat) (c : ServerConn) : Option Error × ServerConn :=
  writeFrame env (.message msg (autoCompress c sz)) c

/-- `fromServer`: the message has no sender, or this connection's user (in its
service, or with no service named) sent it. -/
def fromServer (c : ServerConn) (msg : Message) : Bool :=
  if msg.sender.length = 0 then true
  else if msg.sender = c.username then
    if msg.senderService.length = 0 then true
    else msg.senderService = c.service
  else false

/-- `if v, ok := src[f]; ok { header[f] = v }`. -/
def copyField (src : StrMap) (f : String) (h : StrMap) : StrMap :=
  match src.lookup f with
  | some v => h.insert f v
  | none => h

/-- The loop of `writeDigest` over the digest fields: each field is looked up in the
message's header, then in `extra`. -/
def digestHeader (header extra : StrMap) : List String → StrMap → StrMap
  | [], h => h
  | f :: fs, h =>
    let h := if header.entries.length > 0 then copyField header f h else h
    let h := if extra.entries.length > 0 then copyField extra f h else h
    digestHeader header extra fs h

/-- The `CMD_DIGEST` command `writeDigest` builds. -/
def digestCommand (c : ServerConn) (msg : Message) (extra : StrMap) (sz : Nat) (id : String) :
    Command :=
  let params := [toString sz, id] ++ (if fromServer c msg then [] else [msg.sender, msg.senderService])
  let header := digestHeader msg.header extra c.digestFields ∅
  { type := .cmdDigest, params := params,
    message := if header.entries.length > 0 then some { header := header } else none }

/-- `writeDigest`. -/
def writeDigest (msg : Message) (extra : StrMap) (sz : Nat) (id : String) (c : ServerConn) :
    Option Error × ServerConn :=
  writeFrame env (.command (digestCommand c msg extra sz id) (autoCompress c sz)) c

/-- `SendMessage`. The time to live is not read. -/
def sendMessage (msg : Message) (extra : StrMap) (_ttl : Int) (id : String) (c : ServerConn) :
    Option Error × ServerConn :=
  let (sz, sendDigest) := shouldDigest env c msg
  if sendDigest then writeDigest env msg extra sz id c
  else writeAutoCompress env { msg with id := id } sz c

/-- The loop of `sendAllCachedMessage`: nil entries are skipped, and the first failed
write ends it with its error. -/
def sendCached : List (Option Message) → ServerConn → Option Error × ServerConn
  | [], c => (none, c)
  | none :: msgs, c => sendCached msgs c
  | some msg :: msgs, c =>
    let (sz, sendDigest) := shouldDigest env c msg
    match (if sendDigest then writeDigest env msg ∅ sz msg.id c else writeAutoCompress env msg sz c) with
    | (some e, c) => (some e, c)
    | (none, c) => sendCached msgs c

/-- `sendAllCachedMessage`, on the cache its caller has checked is not nil. -/
def sendAllCachedMessage (cache : Cache) (excludes : List String) (c : ServerConn) :
    Option Error × ServerConn :=
  match cache.getCachedMessages c.service c.username excludes with
  | (_, some e) => (some e, c)
  | (msgs, none) => if msgs.length = 0 then (none, c) else sendCached env msgs c

end Send

/-! ## The exclusion list -/

/-- The range loop of `cutString`: `idx` takes each index in turn and the loop breaks at
a NUL byte, so afterwards `idx` is the NUL's index, the last index if there is none, and
still `-1` for empty data. -/
def rangeIdx (idx : Int) (i : Nat) : List UInt8 → Int
  | [] => idx
  | d :: rest => if d = 0 then i else rangeIdx i (i + 1) rest

/-- `cutString`. -/
def cutString (data : List UInt8) : Except Error (List UInt8 × List UInt8) :=
  let idx := rangeIdx (-1) 0 data
  if idx < 0 then .error .malformedCommand
  else .ok (data.take idx.toNat, data.drop (idx.toNat + 1))

/-- On non-empty data `cutString` cuts at least one byte off. -/
theorem cutString_rest_lt {data str rest : List UInt8} (h : 0 < data.length)
    (hc : cutString data = .ok (str, rest)) : rest.length < data.length := by
  simp only [cutString] at hc
  split at hc
  · cases hc
  · obtain ⟨-, rfl⟩ := Prod.mk.inj (Except.ok.inj hc)
    simp only [List.length_drop]
    omega

/-- The loop of `CMD_REQ_ALL_CACHED`: cut ids off the body while it is not empty,
stopping at the first error. -/
def cutAll (data : List UInt8) : List String :=
  if h : 0 < data.length then
    match hc : cutString data with
    | .error _ => []
    | .ok (id, rest) => ofBytes id :: cutAll rest
  else []
termination_by data.length
decreasing_by exact cutString_rest_lt h hc

/-! ## `ProcessCommand` -/

section Process
variable (env : Env)

/-- The `CMD_SUBSCRIPTION` case. -/
def cmdSubscription (cmd : Command) (c : ServerConn) : Option Error × ServerConn :=
  match c.subChan with
  | none => (none, c)
  | some q =>
    match cmd.params, cmd.message with
    | [], _ => (some .badPeerImpl, c)
    | _, none => (some .badPeerImpl, c)
    | p0 :: _, some m =>
      if m.header.entries.length = 0 then (some .badPeerImpl, c)
      else
        let push (sub : Bool) : Option Error × ServerConn :=
          let req : SubscribeRequest :=
            { subscribe := sub, service := c.service, username := c.username, params := m.header }
          (none, { c with subChan := some (q ++ [req]) })
        if p0 = "0" then push false else if p0 = "1" then push true else (none, c)

/-- The `CMD_SET_VISIBILITY` case. -/
def cmdSetVisibility (cmd : Command) (c : ServerConn) : Option Error × ServerConn :=
  match cmd.params with
  | [] => (some .badPeerImpl, c)
  | p0 :: _ =>
    let v : Int := if p0 = "0" then 0 else if p0 = "1" then 1 else -1
    if 0 ≤ v then (none, { c with visible := int32 v }) else (none, c)

/-- The `CMD_FWD_REQ` case. -/
def cmdFwdReq (cmd : Command) (c : ServerConn) : Option Error × ServerConn :=
  match cmd.params with
  | p0 :: p1 :: rest =>
    match c.fwdChan with
    | none => (none, c)
    | some q =>
      let m := cmd.message.getD {}
      let req : ForwardRequest :=
        { receiver := p1,
          receiverService := match rest with | p2 :: _ => p2 | [] => c.service,
          ttl := env.parseDuration p0,
          message := { m with sender := c.username, senderService := c.service, id := "" } }
      (none, { c with fwdChan := some (q ++ [req]) })
  | _ => (some .badPeerImpl, c)

/-- One threshold parameter of `CMD_SETTING`: empty keeps the threshold, a number
replaces it, anything else is `ErrBadPeerImpl`. -/
def parseThreshold (p : String) (old : BitVec 32) : Except Error (BitVec 32) :=
  if p.length > 0 then
    match atoi p with
    | some d => .ok (int32 d)
    | none => .error .badPeerImpl
  else .ok old

/-- The `CMD_SETTING` case. The digest threshold is stored before the compression
threshold is read. -/
def cmdSetting (cmd : Command) (c : ServerConn) : Option Error × ServerConn :=
  match cmd.params with
  | p0 :: p1 :: fields =>
    match parseThreshold p0 c.digestThreshold with
    | .error e => (some e, c)
    | .ok d =>
      let c := { c with digestThreshold := d }
      match parseThreshold p1 c.compressThreshold with
      | .error e => (some e, c)
      | .ok t =>
        let c := { c with compressThreshold := t }
        (none, if fields.length > 0 then { c with digestFields := fields } else c)
  | _ => (some .badPeerImpl, c)

/-- The `CMD_MSG_RETRIEVE` case. -/
def cmdMsgRetrieve (cmd : Command) (c : ServerConn) : Option Error × ServerConn :=
  match cmd.params with
  | [] => (some .badPeerImpl, c)
  | id :: _ =>
    match c.mcache with
    | none =>
      let m : Message := { id := id }
      writeAutoCompress env m (env.sizeOf m) c
    | some cache =>
      match cache.get c.service c.username id with
      | (_, some e) => (some e, c)
      | (rmsg, none) =>
        let m := { rmsg.getD {} with id := id }
        writeAutoCompress env m (env.sizeOf m) c

/-- The exclusion list of a `CMD_REQ_ALL_CACHED` command. -/
def excludesOf (cmd : Command) : List String :=
  match cmd.message with
  | some msg => if msg.body.length > 0 then cutAll msg.body else []
  | none => []

/-- The `CMD_REQ_ALL_CACHED` case: the result of `sendAllCachedMessage` is dropped. -/
def cmdReqAllCached (cmd : Command) (c : ServerConn) : Option Error × ServerConn :=
  match c.mcache with
  | none => (none, c)
  | some cache => (none, (sendAllCachedMessage env cache (excludesOf cmd) c).2)

/-- `ProcessCommand`. Its message result is always nil; this is its error. -/
def processCommand (cmd : Option Command) (c : ServerConn) : Option Error × ServerConn :=
  match cmd with
  | none => (none, c)
  | some cmd =>
    match cmd.type with
    | .cmdSubscription => cmdSubscription cmd c
    | .cmdSetVisibility => cmdSetVisibility cmd c
    | .cmdFwdReq => cmdFwdReq env cmd c
    | .cmdSetting => cmdSetting cmd c
    | .cmdMsgRetrieve => cmdMsgRetrieve env cmd c
    | .cmdReqAllCached => cmdReqAllCached env cmd c
    | _ => (none, c)

end Process

end UniqushConn.Server
