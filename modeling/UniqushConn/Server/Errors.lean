import UniqushConn.Server.Delivery

/- What `ProcessCommand` and `SendMessage` return when a call under them fails.

   The frame writer's verdict on the one frame `SendMessage` writes is its result
   (`sendMessage_error`), and `CMD_MSG_RETRIEVE` returns the cache's error, or else
   the writer's verdict on the frame it writes (`msgRetrieve_error`).

   A `CMD_SETTING` that is refused returns `ErrBadPeerImpl`, but not always with the
   connection as it was: the digest threshold is stored before the compression
   threshold is read, so a refused second threshold after an accepted number leaves
   that number stored, and every other refusal leaves the connection as it was
   (`setting_error_keeps`; `setting_partial_update` for `["5", "x"]`).

   Two paths lose a failure:
     1. `CMD_REQ_ALL_CACHED` calls `sendAllCachedMessage` and drops its result: the
        command returns no error when `GetCachedMessages` or a write fails
        (`reqAllCached_drops_error`).
     2. On a key holding nothing, the Redis cache's `Get` returns `redis.ErrNil`, so
        `CMD_MSG_RETRIEVE` of an id that is not cached returns that error and writes
        nothing; its fallback to an empty message is never reached
        (`msgRetrieve_absent_errs`). -/
namespace UniqushConn.Server
open UniqushConn.Proto UniqushConn.Msgcache

section Errors
variable (env : Env)

/-- `SendMessage` returns the writer's verdict on the frame it writes. -/
theorem sendMessage_error (msg : Message) (extra : StrMap) (ttl : Int) (id : String)
    (c : ServerConn) :
    (sendMessage env msg extra ttl id c).1 = env.write c.wire (sendFrame env c msg extra id) := by
  rw [sendMessage_eq]; rfl

/-- `CMD_MSG_RETRIEVE` with a cache returns the cache's error, and otherwise the
writer's verdict on the message it writes. -/
theorem msgRetrieve_error {c : ServerConn} {cache : Cache} (id : String) (rest : List String)
    (m? : Option Message) (hc : c.mcache = some cache) :
    (processCommand env (some ⟨.cmdMsgRetrieve, id :: rest, m?⟩) c).1 =
      match cache.get c.service c.username id with
      | (_, some e) => some e
      | (rmsg, none) => env.write c.wire
          (.message { rmsg.getD {} with id := id } (autoCompress c (env.sizeOf (rmsg.getD {})))) := by
  rcases h : cache.get c.service c.username id with ⟨rmsg, _ | e⟩ <;>
    simp [processCommand, cmdMsgRetrieve, hc, writeAutoCompress, h]

/-- **`CMD_REQ_ALL_CACHED` drops the error.** With a cache, the command returns no
error whatever `sendAllCachedMessage` returned, and leaves the connection as
`sendAllCachedMessage` left it; yet `sendAllCachedMessage` returns the error of a
failed `GetCachedMessages`, having written nothing. -/
theorem reqAllCached_drops_error {c : ServerConn} {cache : Cache} (cmd : Command)
    (hc : c.mcache = some cache) (ht : cmd.type = .cmdReqAllCached) :
    processCommand env (some cmd) c = (none, (sendAllCachedMessage env cache (excludesOf cmd) c).2) ∧
    ∀ msgs e, cache.getCachedMessages c.service c.username (excludesOf cmd) = (msgs, some e) →
      sendAllCachedMessage env cache (excludesOf cmd) c = (some e, c) := by
  refine ⟨by simp [processCommand, ht, cmdReqAllCached, hc], fun msgs e he => ?_⟩
  simp [sendAllCachedMessage, he]

/-- **A message that is not cached is an error.** On a connection whose cache is the
Redis cache over a store in which this connection's key for `id` holds nothing, `Get`
and `Del` of that key, from any connection with no transaction open, return a nil
message and `redis.ErrNil`; so `CMD_MSG_RETRIEVE [id, ...]` returns `redis.ErrNil` and
writes nothing. -/
theorem msgRetrieve_absent_errs (R : Codec) (s : Server)
    (cached : String → String → List String → List (Option Message) × Option Error)
    {c : ServerConn} (id : String) (rest : List String) (m? : Option Message)
    (hc : c.mcache = some (redisCache R s cached))
    (hk : s.db (msgKey c.service c.username id) = none) :
    (∀ k, s.txn k = none →
      (s.call R k (.get c.service c.username id)).2 = (none, some .redisNil) ∧
      (s.call R k (.del c.service c.username id)).2 = (none, some .redisNil)) ∧
    processCommand env (some ⟨.cmdMsgRetrieve, id :: rest, m?⟩) c = (some .redisNil, c) := by
  refine ⟨fun k ht => ⟨by rw [get_absent R ht hk], by rw [del_absent R ht hk]⟩, ?_⟩
  have hg : (redisCache R s cached).get c.service c.username id = (none, some .redisNil) := by
    simp only [redisCache]
    rw [@get_absent R (s.close 0) 0 _ _ _ (by simp [Server.close]) hk]
  simp [processCommand, cmdMsgRetrieve, hc, hg]

/-- A threshold is refused only as `ErrBadPeerImpl`, for a non-empty parameter `Atoi`
does not accept. -/
theorem parseThreshold_error {p : String} {old : BitVec 32} {e : Error}
    (h : parseThreshold p old = .error e) : e = .badPeerImpl ∧ p ≠ "" ∧ atoi p = none := by
  unfold parseThreshold at h
  split at h
  · rename_i hp
    split at h
    · cases h
    · rename_i ha
      cases h
      exact ⟨rfl, fun h => by simp [h] at hp, ha⟩
  · cases h

/-- An accepted threshold is the old one or the number `Atoi` read. -/
theorem parseThreshold_ok_cases {p : String} {old d : BitVec 32} (h : parseThreshold p old = .ok d) :
    d = old ∨ ∃ v, atoi p = some v ∧ d = int32 v := by
  rw [parseThreshold_ok h]
  split
  · cases atoi p <;> simp
  · exact .inl rfl

/-- A refused `CMD_SETTING` returns `ErrBadPeerImpl`. With fewer than two parameters or
the first threshold refused it changes nothing; with the second refused it has stored
the first. -/
theorem cmdSetting_rejected {cmd : Command} {c : ServerConn} {e : Error}
    (h : (cmdSetting cmd c).1 = some e) :
    e = .badPeerImpl ∧ ((cmdSetting cmd c).2 = c ∨
      ∃ p0 p1 fields d e', cmd.params = p0 :: p1 :: fields ∧
        parseThreshold p0 c.digestThreshold = .ok d ∧
        parseThreshold p1 c.compressThreshold = .error e' ∧
        (cmdSetting cmd c).2 = { c with digestThreshold := d }) := by
  obtain ⟨type, params, msg⟩ := cmd
  rcases params with _ | ⟨p0, _ | ⟨p1, fields⟩⟩
  case nil | cons.nil =>
    simp only [cmdSetting, Option.some.injEq] at h
    exact ⟨h.symm, .inl rfl⟩
  case cons.cons =>
    cases hd : parseThreshold p0 c.digestThreshold with
    | error e' =>
      simp only [cmdSetting, hd, Option.some.injEq] at h
      exact ⟨h ▸ (parseThreshold_error hd).1, .inl (by simp [cmdSetting, hd])⟩
    | ok d =>
      cases ht : parseThreshold p1 c.compressThreshold with
      | error e' =>
        simp only [cmdSetting, hd, ht, Option.some.injEq] at h
        exact ⟨h ▸ (parseThreshold_error ht).1,
          .inr ⟨p0, p1, fields, d, e', rfl, hd, ht, by simp [cmdSetting, hd, ht]⟩⟩
      | ok t => simp [cmdSetting, hd, ht] at h

/-- **A refused `CMD_SETTING`.** A `CMD_SETTING` on which `ProcessCommand` returns an
error returns `ErrBadPeerImpl`. When the first parameter is a number `Atoi` accepts,
`d`, and the second a non-empty string it refuses, the first has been stored: the
connection is as it was but for its digest threshold, now `int32(d)`. Every other
refused `CMD_SETTING` leaves the connection as it was. -/
theorem setting_error_keeps (c : ServerConn) (params : List String) (m? : Option Message) :
    (∀ p0 p1 rest d, params = p0 :: p1 :: rest → atoi p0 = some d → p1 ≠ "" → atoi p1 = none →
      processCommand env (some ⟨.cmdSetting, params, m?⟩) c =
        (some .badPeerImpl, { c with digestThreshold := int32 d })) ∧
    ∀ e, (processCommand env (some ⟨.cmdSetting, params, m?⟩) c).1 = some e →
      (¬∃ p0 p1 rest d, params = p0 :: p1 :: rest ∧ atoi p0 = some d ∧ p1 ≠ "" ∧ atoi p1 = none) →
      processCommand env (some ⟨.cmdSetting, params, m?⟩) c = (some .badPeerImpl, c) := by
  have hpc : processCommand env (some ⟨.cmdSetting, params, m?⟩) c =
      cmdSetting ⟨.cmdSetting, params, m?⟩ c := rfl
  rw [hpc]
  refine ⟨fun p0 p1 rest d hp hd hp1 ha1 => ?_, fun e he hexc => ?_⟩
  · have hl : p1.length > 0 := Nat.pos_of_ne_zero fun h => hp1 ((length_eq_zero_iff p1).1 h)
    subst hp
    simp [cmdSetting, parseThreshold, atoi_length_pos hd, hd, hl, ha1]
  · obtain ⟨rfl, hkeep | ⟨p0, p1, fields, d, e', hp, hd, ht, hset⟩⟩ := cmdSetting_rejected he
    · exact Prod.ext he hkeep
    · obtain ⟨-, hp1, ha1⟩ := parseThreshold_error ht
      rcases parseThreshold_ok_cases hd with rfl | ⟨v, hv, rfl⟩
      · exact Prod.ext he hset
      · exact absurd ⟨p0, p1, fields, v, hp, hv, hp1, ha1⟩ hexc

end Errors

/-- **A refused `CMD_SETTING` can change the digest threshold.** `CMD_SETTING ["5", "x"]`
is refused, and the digest threshold has gone from -1 to 5. -/
theorem setting_partial_update :
    (processCommand bodyEnv (some ⟨.cmdSetting, ["5", "x"], none⟩) (newConn "s" "u")).1 =
      some .badPeerImpl ∧
    (processCommand bodyEnv (some ⟨.cmdSetting, ["5", "x"], none⟩) (newConn "s" "u")).2.digestThreshold =
      int32 5 ∧
    (newConn "s" "u").digestThreshold = int32 (-1) :=
  ⟨rfl, rfl, rfl⟩

/-- `CMD_SETTING ["5", "x"]` is refused having stored the digest threshold 5, and
`CMD_SETTING ["x", "5"]` is refused leaving the connection as it was. -/
theorem setting_error_keeps_first :
    (atoi "5" = some 5 ∧ "x" ≠ "" ∧ atoi "x" = none ∧
      processCommand bodyEnv (some ⟨.cmdSetting, ["5", "x"], none⟩) (newConn "s" "u") =
        (some .badPeerImpl, { newConn "s" "u" with digestThreshold := int32 5 })) ∧
    (processCommand bodyEnv (some ⟨.cmdSetting, ["x", "5"], none⟩) (newConn "s" "u")).1 =
      some .badPeerImpl ∧
    processCommand bodyEnv (some ⟨.cmdSetting, ["x", "5"], none⟩) (newConn "s" "u") =
      (some .badPeerImpl, newConn "s" "u") := by
  have hx : atoi "x" = none := by decide
  refine ⟨⟨by decide, by decide, hx, (setting_error_keeps bodyEnv (newConn "s" "u") ["5", "x"] none).1
    "5" "x" [] 5 rfl (by decide) (by decide) hx⟩, rfl,
    (setting_error_keeps bodyEnv (newConn "s" "u") ["x", "5"] none).2 _ rfl ?_⟩
  rintro ⟨p0, p1, rest, d, hp, hd, -⟩
  obtain ⟨rfl, -, -⟩ := List.cons.inj hp
  exact Option.noConfusion (hd.symm.trans hx)

/-- A cache whose store cannot be reached. -/
def downCache : Cache :=
  ⟨fun _ _ _ => (none, some (.io "connection refused")),
   fun _ _ _ => ([], some (.io "connection refused"))⟩

/-- `CMD_REQ_ALL_CACHED` on a connection whose cache is down returns no error, though
`sendAllCachedMessage` returned the cache's. -/
theorem reqAllCached_down :
    (sendAllCachedMessage bodyEnv downCache [] ((newConn "s" "u").setMessageCache (some downCache))).1 =
      some (.io "connection refused") ∧
    (processCommand bodyEnv (some ⟨.cmdReqAllCached, [], none⟩)
      ((newConn "s" "u").setMessageCache (some downCache))).1 = none := by
  obtain ⟨h₁, h₂⟩ := reqAllCached_drops_error bodyEnv ⟨.cmdReqAllCached, [], none⟩
    (rfl : ((newConn "s" "u").setMessageCache (some downCache)).mcache = some downCache) rfl
  exact ⟨congrArg Prod.fst (h₂ [] _ rfl), congrArg Prod.fst h₁⟩

/-- A codec that reads every byte string as the empty message. -/
def emptyCodec : Codec := ⟨fun _ => .ok [], fun _ => .ok {}⟩

/-- `CMD_MSG_RETRIEVE ["x"]` on a connection whose Redis store is empty. -/
theorem msgRetrieve_absent_errs_empty :
    Server.empty.db (msgKey "s" "u" "x") = none ∧
    processCommand bodyEnv (some ⟨.cmdMsgRetrieve, ["x"], none⟩)
        ((newConn "s" "u").setMessageCache
          (some (redisCache emptyCodec .empty fun _ _ _ => ([], none))))  =
      (some .redisNil, (newConn "s" "u").setMessageCache
          (some (redisCache emptyCodec .empty fun _ _ _ => ([], none)))) :=
  ⟨rfl, (msgRetrieve_absent_errs bodyEnv emptyCodec .empty _ "x" [] none rfl rfl).2⟩

end UniqushConn.Server
