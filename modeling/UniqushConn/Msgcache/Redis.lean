import Mathlib.Logic.Function.Basic
import UniqushConn.Proto
import UniqushConn.Time

/- The Redis message cache (`redisMessageCache`) and the store under it.

   The store is a Redis server as the cache uses it: string keys holding byte
   strings, `SET`, `SETEX`, `GET`, `DEL`, and transactions. A connection that sends
   `MULTI` has its later commands queued, not run, until `EXEC` runs the queue as one
   step or `DISCARD` drops it. The server keeps a ghost history of the keys it has
   written, and each stored value a ghost `tag`, the index of the write that stored
   it; no code reads them, and they let the theorems say which `Set` a returned
   message came from.

   The cache's calls are the command lists they send (`Call.cmds`) and the reading
   of the replies they get back (`Call.result`), which goes through redigo's
   `Do`, `redis.Bytes` and `redis.Values` (`doReply`, `bytes`, `values`).
   JSON encoding of messages is not in the repository's files; it is the `Codec`'s
   fields. `Set` tests `ttl.Seconds() <= 0` and sends `int64(ttl.Seconds())` as written,
   through `Duration.seconds` and `int64` (`Time`).

   Correspondence (Go ↔ Lean):
     `msgKey`                          ↔ `msgKey`
     `redisMessageCache.Set/Get/Del`   ↔ `Call.set/get/del` with `Call.cmds`, `Call.result`
     one call with nothing in between  ↔ `Server.call`
     `redis.Bytes`, `redis.Values`     ↔ `bytes`, `values`
     `conn.Do` (pending replies)       ↔ `doReply`

   What is proved here:
     1. `msgKey_inj` — keys of triples whose service and username have no `:` are
        distinct (with a `:` they need not be: `Clients.msgKey_collision_read`).
     2. `set_then_get` — after a `Set` that returned no error, `Get` and `Del` of the
        same triple return what `msgUnmarshal` makes of the stored bytes.
     3. `get_absent`, `del_absent` — on a key holding nothing (never set, deleted:
        `del_removes`, or expired: `expire_removes`), `Get` and `Del` return a nil
        message and `redis.ErrNil`, not the nil error their fallbacks are there for.
     4. `set_expiry` — `Set` sends `SET` exactly for a duration that is not positive,
        and otherwise `SETEX` with whole seconds within a second of the duration; under
        one second that is zero, which the store refuses: the `Set` returns the
        store's error and stores nothing (`set_half_second_fails`). -/
namespace UniqushConn.Msgcache
open UniqushConn.Proto

/-- `msgcache.Cache` as the server calls it: any implementation, each call answering
with a result and an error. -/
structure Cache where
  get : String → String → String → Option Message × Option Error
  getCachedMessages : String → String → List String → List (Option Message) × Option Error

/-- `msgKey`: `fmt.Sprintf("mcache:%v:%v:%v", service, username, id)`. -/
def msgKey (service username id : String) : String :=
  "mcache:" ++ service ++ ":" ++ username ++ ":" ++ id

/-! ## Keys -/

/-- The text before the first `:` is determined. -/
theorem append_colon_inj : ∀ {a b r r' : List Char}, ':' ∉ a → ':' ∉ b →
    a ++ ':' :: r = b ++ ':' :: r' → a = b ∧ r = r'
  | [], [], _, _, _, _, h => ⟨rfl, by simpa using h⟩
  | [], x :: b, _, _, _, hb, h => by
    simp only [List.nil_append, List.cons_append, List.cons.injEq] at h
    exact absurd (h.1 ▸ List.mem_cons_self _ _) hb
  | x :: a, [], _, _, ha, _, h => by
    simp only [List.nil_append, List.cons_append, List.cons.injEq] at h
    exact absurd (h.1 ▸ List.mem_cons_self _ _) ha
  | x :: a, y :: b, _, _, ha, hb, h => by
    simp only [List.cons_append, List.cons.injEq] at h
    obtain ⟨rfl, h⟩ := h
    obtain ⟨rfl, rfl⟩ := append_colon_inj (fun m => ha (List.mem_cons_of_mem _ m))
      (fun m => hb (List.mem_cons_of_mem _ m)) h
    exact ⟨rfl, rfl⟩

theorem msgKey_data (s u id : String) :
    (msgKey s u id).data = "mcache".data ++ ':' :: (s.data ++ ':' :: (u.data ++ ':' :: id.data)) := by
  simp [msgKey]

/-- Keys of triples whose service and username hold no `:` are distinct. -/
theorem msgKey_inj {s u id s' u' id' : String} (hs : ':' ∉ s.data) (hu : ':' ∉ u.data)
    (hs' : ':' ∉ s'.data) (hu' : ':' ∉ u'.data) (h : msgKey s u id = msgKey s' u' id') :
    s = s' ∧ u = u' ∧ id = id' := by
  have h := congrArg String.data h
  rw [msgKey_data, msgKey_data] at h
  obtain ⟨-, h⟩ := append_colon_inj (by decide) (by decide) h
  obtain ⟨h₁, h⟩ := append_colon_inj hs hs' h
  obtain ⟨h₂, h₃⟩ := append_colon_inj hu hu' h
  exact ⟨String.ext h₁, String.ext h₂, String.ext h₃⟩

/-! ## The store -/

/-- A stored value: its bytes, whether it was stored with an expiry, and the ghost
index of the write that stored it. -/
structure Entry where
  data : List UInt8
  expires : Bool
  tag : Nat
  deriving DecidableEq

/-- The commands the cache sends. -/
inductive Cmd where
  | set (key : String) (data : List UInt8)
  | setex (key : String) (secs : Int) (data : List UInt8)
  | get (key : String)
  | del (key : String)
  | multi
  | exec
  | discard
  deriving DecidableEq

/-- A reply, as redigo hands it over. A bulk reply carries the ghost tag of the
value it was read from. -/
inductive Reply where
  | status (s : String)
  | nil
  | bulk (data : List UInt8) (tag : Nat)
  | int (n : Int)
  | array (rs : List Reply)
  | err (msg : String)

/-- The server: the keyspace, each connection's queued transaction (`none` outside
`MULTI`), and the ghost history of the keys written, oldest first. -/
structure Server where
  db : String → Option Entry
  txn : Nat → Option (List Cmd)
  hist : List String

namespace Server

/-- An empty keyspace, no transaction open. -/
def empty : Server := ⟨fun _ => none, fun _ => none, []⟩

/-- Store `data` at `k`, as the write that comes after those in the history. -/
def write (s : Server) (k : String) (data : List UInt8) (expires : Bool) : Server :=
  { s with db := Function.update s.db k (some ⟨data, expires, s.hist.length⟩),
           hist := s.hist ++ [k] }

/-- `GET`'s reply: the value, as a bulk reply, or nil. -/
def read (s : Server) (k : String) : Reply :=
  match s.db k with
  | some e => .bulk e.data e.tag
  | none => .nil

/-- One data command, run now. -/
def apply (s : Server) : Cmd → Server × Reply
  | .set k d => (s.write k d false, .status "OK")
  | .setex k t d =>
    if t ≤ 0 then (s, .err "ERR invalid expire time in SETEX") else (s.write k d true, .status "OK")
  | .get k => (s, s.read k)
  | .del k => ({ s with db := Function.update s.db k none },
      .int (if (s.db k).isSome then 1 else 0))
  | .multi => (s, .err "ERR MULTI calls can not be nested")
  | .exec => (s, .err "ERR EXEC without MULTI")
  | .discard => (s, .err "ERR DISCARD without MULTI")

/-- A transaction's queue, run back to back. -/
def runQueue (s : Server) : List Cmd → Server × List Reply
  | [] => (s, [])
  | cmd :: q =>
    let (s, r) := s.apply cmd
    let (s, rs) := s.runQueue q
    (s, r :: rs)

/-- One command from connection `c`, as the server runs it. -/
def exec (s : Server) (c : Nat) (cmd : Cmd) : Server × Reply :=
  match s.txn c, cmd with
  | none, .multi => ({ s with txn := Function.update s.txn c (some []) }, .status "OK")
  | none, cmd => s.apply cmd
  | some _, .multi => (s, .err "ERR MULTI calls can not be nested")
  | some q, .exec =>
    let (s, rs) := runQueue { s with txn := Function.update s.txn c none } q
    (s, .array rs)
  | some _, .discard => ({ s with txn := Function.update s.txn c none }, .status "OK")
  | some q, cmd => ({ s with txn := Function.update s.txn c (some (q ++ [cmd])) }, .status "QUEUED")

/-- A value stored with an expiry reaches it. -/
def expire (s : Server) (k : String) : Server :=
  match s.db k with
  | some e => if e.expires then { s with db := Function.update s.db k none } else s
  | none => s

/-- Connection `c` closes: the server drops its transaction. -/
def close (s : Server) (c : Nat) : Server := { s with txn := Function.update s.txn c none }

/-- Commands from one connection with nothing in between. -/
def runCmds (s : Server) (c : Nat) : List Cmd → Server × List Reply
  | [] => (s, [])
  | cmd :: cmds =>
    let (s, r) := s.exec c cmd
    let (s, rs) := s.runCmds c cmds
    (s, r :: rs)

/-! ## One connection's commands -/

section Commands
variable {s : Server} {c : Nat}

/-- Outside a transaction, a command other than `MULTI` runs now. -/
theorem exec_of_none (ht : s.txn c = none) {cmd : Cmd} (h : cmd ≠ .multi) :
    s.exec c cmd = s.apply cmd := by
  cases cmd <;> simp_all [exec]

theorem exec_multi (ht : s.txn c = none) :
    s.exec c .multi = ({ s with txn := Function.update s.txn c (some []) }, .status "OK") := by
  simp [exec, ht]

/-- Inside a transaction, a command other than `MULTI`, `EXEC` and `DISCARD` is queued. -/
theorem exec_queue {q : List Cmd} (hq : s.txn c = some q) (cmd : Cmd) (h₁ : cmd ≠ .multi)
    (h₂ : cmd ≠ .exec) (h₃ : cmd ≠ .discard) :
    s.exec c cmd = ({ s with txn := Function.update s.txn c (some (q ++ [cmd])) }, .status "QUEUED") := by
  cases cmd <;> simp_all [exec]

/-- `EXEC` runs the queue as one step, the transaction closed. -/
theorem exec_exec {q : List Cmd} (hq : s.txn c = some q) :
    s.exec c .exec = (((s.close c).runQueue q).1, .array ((s.close c).runQueue q).2) := by
  simp [exec, hq, close]

theorem runQueue_get_del (k : String) :
    s.runQueue [.get k, .del k] =
      ({ s with db := Function.update s.db k none },
        [s.read k, .int (if (s.db k).isSome then 1 else 0)]) := rfl

/-- The commands of `Del`, with nothing in between: `GET` and `DEL` run together, and
the transaction is closed again. -/
theorem runCmds_del (ht : s.txn c = none) (k : String) :
    s.runCmds c [.multi, .get k, .del k, .exec] =
      ({ s with db := Function.update s.db k none },
        [.status "OK", .status "QUEUED", .status "QUEUED",
          .array [s.read k, .int (if (s.db k).isSome then 1 else 0)]]) := by
  simp [runCmds, exec, ht, close, runQueue_get_del]
  rw [← ht, Function.update_eq_self]

theorem runCmds_single (ht : s.txn c = none) {cmd : Cmd} (h : cmd ≠ .multi) :
    s.runCmds c [cmd] = ((s.apply cmd).1, [(s.apply cmd).2]) := by
  simp [runCmds, exec_of_none ht h]

end Commands

end Server

/-! ## redigo -/

/-- `conn.Do` after `Send`s: the last reply, and the first error reply among the
pending ones and it. -/
def doReply (rs : List Reply) : Reply × Option Error :=
  (rs.getLastD .nil,
    rs.findSome? fun r => match r with | .err m => some (Error.io m) | _ => none)

/-- `redis.Bytes(reply, nil)`. -/
def bytes : Reply → List UInt8 × Option Error
  | .bulk d _ => (d, none)
  | .status s => (s.toUTF8.toList, none)
  | .nil => ([], some .redisNil)
  | .err m => ([], some (.io m))
  | _ => ([], some (.io "redigo: unexpected type for Bytes"))

/-- `redis.Values(reply, nil)`. -/
def values : Reply → List Reply × Option Error
  | .array rs => (rs, none)
  | .nil => ([], some .redisNil)
  | .err m => ([], some (.io m))
  | _ => ([], some (.io "redigo: unexpected type for Values"))

/-! ## The cache's calls -/

/-- What the cache's code calls but this repository does not define. -/
structure Codec where
  /-- `msgMarshal`: `json.Marshal`. -/
  marshal : Message → Except Error (List UInt8)
  /-- `msgUnmarshal`: `json.Unmarshal` into a new message. -/
  unmarshal : List UInt8 → Except Error Message

/-- A call to the cache. Durations are in nanoseconds. -/
inductive Call where
  | set (service username id : String) (msg : Message) (ttl : Int)
  | get (service username id : String)
  | del (service username id : String)

namespace Call

/-- The key a call names. -/
def key : Call → String
  | set s u id _ _ => msgKey s u id
  | get s u id => msgKey s u id
  | del s u id => msgKey s u id

/-- The commands a call sends, in order. `Set` sends nothing when encoding fails. -/
def cmds (R : Codec) : Call → List Cmd
  | set s u id msg ttl =>
    match R.marshal msg with
    | .error _ => []
    | .ok data =>
      if Duration.seconds ttl ≤ 0 then [.set (msgKey s u id) data]
      else [.setex (msgKey s u id) (int64 (Duration.seconds ttl)) data]
  | get s u id => [.get (msgKey s u id)]
  | del s u id => [.multi, .get (msgKey s u id), .del (msgKey s u id), .exec]

/-- `msgUnmarshal` as `Get` and `Del` use it. -/
def decode (R : Codec) (data : List UInt8) : Option Message × Option Error :=
  match R.unmarshal data with
  | .ok m => (some m, none)
  | .error e => (none, some e)

/-- `Get` after `conn.Do("GET", key)`. -/
def getResult (R : Codec) (reply : Reply × Option Error) : Option Message × Option Error :=
  match reply.2 with
  | some e => (none, some e)
  | none =>
    match bytes reply.1 with
    | (_, some e) => (none, some e)
    | (data, none) => decode R data

/-- `Del` after `conn.Do("EXEC")`. -/
def delResult (R : Codec) (reply : Reply × Option Error) : Option Message × Option Error :=
  match reply.2 with
  | some e => (none, some e)
  | none =>
    match values reply.1 with
    | (_, some e) => (none, some e)
    | (bulk, none) =>
      match bulk with
      | [r, _] =>
        match bytes r with
        | (_, some e) => (none, some e)
        | (data, none) => if data.length = 0 then (none, none) else decode R data
      | _ => (none, none)

/-- What a call returns, from the replies to its commands. `Set` returns only an error. -/
def result (R : Codec) : Call → List Reply → Option Message × Option Error
  | set _ _ _ msg _, rs =>
    match R.marshal msg with
    | .error e => (none, some e)
    | .ok _ => (none, (doReply rs).2)
  | get .., rs => getResult R (doReply rs)
  | del .., rs => delResult R (doReply rs)

end Call

/-- A call made on connection `c` with nothing in between: the server after it and
what it returns. -/
def Server.call (R : Codec) (s : Server) (c : Nat) (x : Call) :
    Server × (Option Message × Option Error) :=
  let (s, rs) := s.runCmds c (x.cmds R)
  (s, x.result R rs)

/-- A call is its commands, run, and the reading of their replies. -/
theorem Server.call_of_cmds {R : Codec} {s : Server} {c : Nat} {x : Call} {cmds : List Cmd}
    (h : x.cmds R = cmds) :
    s.call R c x = ((s.runCmds c cmds).1, x.result R (s.runCmds c cmds).2) := by
  subst h; rfl

/-- The Redis cache over a server, as the connection code sees it: `Get` on a
connection taken from the pool, which has no transaction open. The repository's
Redis cache has no `GetCachedMessages`; it is a parameter here. -/
def redisCache (R : Codec) (s : Server) (cached : String → String → List String →
    List (Option Message) × Option Error) : Cache where
  get service username id := ((s.close 0).call R 0 (.get service username id)).2
  getCachedMessages := cached

/-! ## A call on its own -/

/-- Once the message is encoded, `Set` sends `SET` for a duration that is not
positive and `SETEX` with the whole seconds otherwise. -/
theorem cmds_set (R : Codec) (sv u id : String) (m : Message) (ttl : Int) {d : List UInt8}
    (hm : R.marshal m = .ok d) :
    (Call.set sv u id m ttl).cmds R =
      if ttl ≤ 0 then [.set (msgKey sv u id) d]
      else [.setex (msgKey sv u id) (int64 (Duration.seconds ttl)) d] := by
  simp only [Call.cmds, hm, seconds_nonpos_iff]

/-- **What `Set` stores, `Get` and `Del` return.** On a connection with no transaction
open, after a `Set` that returned no error, a `Get` of the same triple returns what
`msgUnmarshal` makes of the bytes `msgMarshal` gave, and so does a `Del`, unless those
bytes are empty. -/
theorem set_then_get (R : Codec) {s : Server} {c : Nat} (ht : s.txn c = none)
    (sv u id : String) (m : Message) (ttl : Int)
    (hok : (s.call R c (.set sv u id m ttl)).2.2 = none) :
    ∃ d, R.marshal m = .ok d ∧
      ((s.call R c (.set sv u id m ttl)).1.call R c (.get sv u id)).2 = Call.decode R d ∧
      ((s.call R c (.set sv u id m ttl)).1.call R c (.del sv u id)).2 =
        if d = [] then (none, none) else Call.decode R d := by
  rcases hm : R.marshal m with e | d
  · simp [Server.call, Call.result, hm] at hok
  refine ⟨d, rfl, ?_⟩
  -- the `Set` wrote `d` at the key
  obtain ⟨exp, hw⟩ : ∃ exp, (s.call R c (.set sv u id m ttl)).1 = s.write (msgKey sv u id) d exp := by
    by_cases hz : Duration.seconds ttl ≤ 0
    · exact ⟨false, by simp [Server.call, Call.cmds, hm, hz, Server.runCmds_single ht, Server.apply]⟩
    by_cases hs : int64 (Duration.seconds ttl) ≤ 0
    · simp [Server.call, Call.cmds, Call.result, hm, hz, hs, Server.runCmds_single ht,
        Server.apply, doReply] at hok
    · exact ⟨true, by simp [Server.call, Call.cmds, hm, hz, hs, Server.runCmds_single ht,
        Server.apply]⟩
  have ht' : (s.write (msgKey sv u id) d exp).txn c = none := ht
  have hr : (s.write (msgKey sv u id) d exp).read (msgKey sv u id) = .bulk d s.hist.length := by
    simp [Server.read, Server.write]
  rw [hw]
  constructor
  · simp [Server.call, Call.cmds, Server.runCmds_single ht', Server.apply, hr, Call.result,
      Call.getResult, doReply, bytes]
  · simp [Server.call, Call.cmds, Server.runCmds_del ht', hr, Call.result, Call.delResult, doReply,
      bytes, values]

/-- A codec that writes every message as one byte and reads every byte string as the
empty message. -/
def byteCodec : Codec := ⟨fun _ => .ok [1], fun _ => .ok {}⟩

/-- A message set on an empty store is got back. -/
theorem set_then_get_byte :
    Server.empty.txn 0 = none ∧ (Server.empty.call byteCodec 0 (.set "s" "u" "x" {} 0)).2.2 = none ∧
    ((Server.empty.call byteCodec 0 (.set "s" "u" "x" {} 0)).1.call byteCodec 0
      (.get "s" "u" "x")).2 = (some {}, none) :=
  have hset : (Server.empty.call byteCodec 0 (.set "s" "u" "x" {} 0)).2.2 = none := by
    simp only [Server.call, Call.cmds, seconds_zero, le_refl, if_true]; rfl
  ⟨rfl, hset, (set_then_get byteCodec (rfl : Server.empty.txn 0 = none) "s" "u" "x" {} 0 hset).elim
    fun d ⟨hd, hg, _⟩ => by
    obtain rfl : d = [1] := (Except.ok.inj hd).symm
    rw [hg]; rfl⟩

/-- **The expiry `Set` sends.** Once the message is encoded, `Set` sends `SET`, with
no expiry, exactly for a duration that is not positive. For a positive int64
duration it sends `SETEX` with `e = int64(ttl.Seconds())` seconds, within a second of
`ttl`, and `e ≥ 1` exactly from one second on. Under one second the store refuses
the `SETEX`: the `Set` returns its error and leaves the store as it was. Otherwise it
returns none. -/
theorem set_expiry (R : Codec) {s : Server} {c : Nat} (ht : s.txn c = none)
    (sv u id : String) (m : Message) {d : List UInt8} (hm : R.marshal m = .ok d)
    (ttl : Int) (h63 : ttl < 2 ^ 63) :
    ((Call.set sv u id m ttl).cmds R = [.set (msgKey sv u id) d] ↔ ttl ≤ 0) ∧
    (0 < ttl → ∃ e, (Call.set sv u id m ttl).cmds R = [.setex (msgKey sv u id) e d] ∧
      |e * 10 ^ 9 - ttl| < 10 ^ 9 ∧ (1 ≤ e ↔ 10 ^ 9 ≤ ttl)) ∧
    (s.call R c (.set sv u id m ttl)).2.2 =
      (if ttl ≤ 0 ∨ 10 ^ 9 ≤ ttl then none else some (.io "ERR invalid expire time in SETEX")) ∧
    (0 < ttl → ttl < 10 ^ 9 → (s.call R c (.set sv u id m ttl)).1 = s) := by
  have hc := cmds_set R sv u id m ttl hm
  by_cases hz : ttl ≤ 0
  · rw [if_pos hz] at hc
    refine ⟨iff_of_true hc hz, fun h => absurd hz (not_le.2 h), ?_, fun h => absurd hz (not_le.2 h)⟩
    simp [Server.call, hc, Server.runCmds_single ht, Server.apply, Call.result, hm, doReply, hz]
  · rw [if_neg hz] at hc
    obtain ⟨hb, he⟩ := int64_seconds (not_le.1 hz) h63
    refine ⟨iff_of_false (by rw [hc]; simp) hz, fun _ => ⟨_, hc, hb, he⟩, ?_⟩
    have hrun := Server.runCmds_single ht
      (by simp : Cmd.setex (msgKey sv u id) (int64 (Duration.seconds ttl)) d ≠ .multi)
    by_cases h1 : 10 ^ 9 ≤ ttl
    · have he₁ : ¬int64 (Duration.seconds ttl) ≤ 0 := by omega
      refine ⟨?_, fun _ h => absurd h1 (not_le.2 h)⟩
      rw [if_pos (.inr h1)]
      simp [Server.call, hc, hrun, Server.apply, he₁, Call.result, hm, doReply]
    · -- zero seconds: the store refuses the `SETEX` and writes nothing
      have he₀ : int64 (Duration.seconds ttl) ≤ 0 := by omega
      rw [if_neg (by omega)]
      constructor <;> simp [Server.call, hc, hrun, Server.apply, he₀, Call.result, hm, doReply]

/-- A `Set` of half a second sends `SETEX` with zero seconds, which the store refuses:
the `Set` returns the store's error and the store is as it was, the message not
cached. -/
theorem set_half_second_fails :
    Server.empty.txn 0 = none ∧ byteCodec.marshal {} = .ok [1] ∧ (500000000 : Int) < 2 ^ 63 ∧
    (Call.set "s" "u" "x" {} 500000000).cmds byteCodec = [.setex (msgKey "s" "u" "x") 0 [1]] ∧
    (Server.empty.call byteCodec 0 (.set "s" "u" "x" {} 500000000)).2.2 =
      some (.io "ERR invalid expire time in SETEX") ∧
    (Server.empty.call byteCodec 0 (.set "s" "u" "x" {} 500000000)).1 = Server.empty := by
  obtain ⟨-, hset, hr, hs⟩ := set_expiry byteCodec (rfl : Server.empty.txn 0 = none) "s" "u" "x" {}
    (rfl : byteCodec.marshal {} = .ok [1]) 500000000 (by norm_num)
  obtain ⟨e, he, hb, h1⟩ := hset (by norm_num)
  refine ⟨rfl, rfl, by norm_num, ?_, by rw [hr, if_neg (by norm_num)], hs (by norm_num) (by norm_num)⟩
  rw [he, show e = 0 by rw [abs_lt] at hb; omega]

/-- **`Set`'s expiry follows the duration.** Once the message is encoded, a positive
`ttl` of fewer than 2^24 whole seconds (about 194 days) gives `SETEX` with exactly
`ttl / Second` seconds, the nanoseconds left over dropped; and over all positive int64
durations a longer `ttl` never gives a shorter expiry. -/
theorem set_expiry_whole (R : Codec) (sv u id : String) (m : Message) {d : List UInt8}
    (hm : R.marshal m = .ok d) :
    (∀ ttl, 0 < ttl → ttl < 2 ^ 24 * 10 ^ 9 →
      (Call.set sv u id m ttl).cmds R = [.setex (msgKey sv u id) (ttl / 1000000000) d]) ∧
    ∀ ttl ttl', 0 < ttl → ttl ≤ ttl' → ttl' < 2 ^ 63 →
      ∃ e e', (Call.set sv u id m ttl).cmds R = [.setex (msgKey sv u id) e d] ∧
        (Call.set sv u id m ttl').cmds R = [.setex (msgKey sv u id) e' d] ∧ e ≤ e' := by
  refine ⟨fun ttl h₀ h₁ => ?_, fun ttl ttl' h₀ h h₁ => ?_⟩
  · rw [cmds_set R sv u id m ttl hm, if_neg (not_le.2 h₀), int64_seconds_trunc h₀.le h₁]
  · rw [cmds_set R sv u id m ttl hm, cmds_set R sv u id m ttl' hm, if_neg (not_le.2 h₀),
      if_neg (by omega)]
    exact ⟨_, _, rfl, rfl, int64_seconds_mono h₀.le h h₁⟩

/-- A one-byte encoding, and a ninety-second `Set`. -/
theorem set_expiry_whole_byte :
    byteCodec.marshal {} = .ok [1] ∧
    (Call.set "s" "u" "x" {} 90500000000).cmds byteCodec = [.setex (msgKey "s" "u" "x") 90 [1]] :=
  ⟨rfl, (set_expiry_whole byteCodec "s" "u" "x" {} (rfl : byteCodec.marshal {} = .ok [1])).1
    90500000000 (by norm_num) (by norm_num)⟩

/-! ## A key holding nothing -/

section Absent
variable (R : Codec) {s : Server} {c : Nat} {sv u id : String}

/-- `Get` on a key holding nothing: `GET` replies nil, and `redis.Bytes` turns the
nil reply into `redis.ErrNil`, which `Get` returns. -/
theorem get_absent (ht : s.txn c = none) (hk : s.db (msgKey sv u id) = none) :
    s.call R c (.get sv u id) = (s, none, some .redisNil) := by
  simp [Server.call, Call.cmds, Server.runCmds, Server.exec, ht, Server.apply, Server.read, hk,
    Call.result, Call.getResult, doReply, bytes]

/-- `Del` on a key holding nothing: `EXEC` replies `[nil, 0]`, and `redis.Bytes` of
the nil reply is `redis.ErrNil`, which `Del` returns before its `len(data) == 0` test;
the store is as it was. -/
theorem del_absent (ht : s.txn c = none) (hk : s.db (msgKey sv u id) = none) :
    s.call R c (.del sv u id) = (s, none, some .redisNil) := by
  simp [Server.call, Call.cmds, Server.runCmds_del ht, hk, Server.read, Call.result,
    Call.delResult, doReply, bytes, values]
  rw [← hk, Function.update_eq_self]

/-- After a `Del`, its key holds nothing. -/
theorem del_removes (ht : s.txn c = none) :
    (s.call R c (.del sv u id)).1.db (msgKey sv u id) = none := by
  simp [Server.call, Call.cmds, Server.runCmds, Server.exec, ht, Server.apply, Server.runQueue]

/-- After its expiry, a key holds nothing. -/
theorem expire_removes (k : String) {e : Entry} (he : s.db k = some e) (hx : e.expires = true) :
    (s.expire k).db k = none := by
  simp [Server.expire, he, hx]

end Absent

end UniqushConn.Msgcache
