import UniqushConn.Server.Dispatch
import UniqushConn.Msgcache.Latest

/- How the settings decide what goes on the wire.

   A retrieved message is written in full, under the requested id, whatever the
   thresholds: a client answering a digest with `CMD_MSG_RETRIEVE` gets the message,
   not another digest (`msgRetrieve_frame`).

   After a `CMD_SETTING` whose two thresholds `Atoi` reads as `a` and `b`, and until
   the next `CMD_SETTING`, every frame is decided by `int32(a)` and `int32(b)`
   against `int32(sz)`, each by its own message's size (`setting_decides_frames`).
   The comparisons are made on 32-bit values: a message of `2^32 + 100` bytes is
   compared as 100, and a threshold of `2^32` is read as 0
   (`setting_decides_frames_wraps`, `msgRetrieve_compress_wraps`).

   With the Redis cache, over any interleaving of clients' calls, a retrieved message
   is the one the latest `Set` of its key stored (`msgRetrieve_latest`). -/
namespace UniqushConn.Server
open UniqushConn.Proto UniqushConn.Msgcache

section Frames
variable (env : Env)

@[simp] theorem sizeOf_id (m : Message) (id : String) :
    env.sizeOf { m with id := id } = env.sizeOf m := rfl

/-- `CMD_MSG_RETRIEVE` writes at most one frame, a message compressed by the test on
its size. -/
theorem cmdMsgRetrieve_frames (cmd : Command) (c : ServerConn) :
    ∃ fs, (cmdMsgRetrieve env cmd c).2 = { c with wire := c.wire ++ fs } ∧
      ∀ f ∈ fs, ∃ m, f = .message m (autoCompress c (env.sizeOf m)) := by
  unfold cmdMsgRetrieve writeAutoCompress
  split
  · exact ⟨[], by simp, by simp⟩
  · split
    · exact ⟨_, writeFrame_snd env _ c, by simp⟩
    · split
      · exact ⟨[], by simp, by simp⟩
      · exact ⟨_, writeFrame_snd env _ c, by simp⟩

/-- With a cache whose `Get` returns `m`, `CMD_MSG_RETRIEVE` writes `m` under the
requested id. -/
theorem processCommand_msgRetrieve {c : ServerConn} {cache : Cache} {m : Message} (id : String)
    (rest : List String) (m? : Option Message) (hc : c.mcache = some cache)
    (hg : cache.get c.service c.username id = (some m, none)) :
    processCommand env (some ⟨.cmdMsgRetrieve, id :: rest, m?⟩) c =
      writeFrame env (.message { m with id := id } (autoCompress c (env.sizeOf m))) c := by
  simp [processCommand, cmdMsgRetrieve, hc, hg, writeAutoCompress]

/-- **Retrieval.** With a cache whose `Get` returns a message `m`, `CMD_MSG_RETRIEVE`
writes exactly one frame: a message, never a digest, with the requested id and `m`'s
header and body, compressed exactly when `0 < t < int32(m.Size())` for the
compression threshold `t`. With no cache it writes exactly one empty message with the
requested id. -/
theorem msgRetrieve_frame (c : ServerConn) (id : String) (rest : List String)
    (m? : Option Message) :
    (∀ cache m, c.mcache = some cache → cache.get c.service c.username id = (some m, none) →
      ∃ m' cf, processCommand env (some ⟨.cmdMsgRetrieve, id :: rest, m?⟩) c =
          writeFrame env (.message m' cf) c ∧
        m'.id = id ∧ m'.header = m.header ∧ m'.body = m.body ∧
        (cf = true ↔ 0 < c.compressThreshold.toInt ∧
          c.compressThreshold.toInt < (int32 (env.sizeOf m)).toInt)) ∧
    (c.mcache = none → ∃ cf, processCommand env (some ⟨.cmdMsgRetrieve, id :: rest, m?⟩) c =
      writeFrame env (.message { id := id } cf) c) :=
  ⟨fun _ m hc hg => ⟨{ m with id := id }, _, processCommand_msgRetrieve env id rest m? hc hg,
      rfl, rfl, rfl, by simp [autoCompress]⟩,
    fun hc => ⟨autoCompress c (env.sizeOf { id := id }),
      by simp [processCommand, cmdMsgRetrieve, hc, writeAutoCompress]⟩⟩

/-- **Retrieval never sends a stale message.** On a connection whose cache is the Redis
cache over the store that any interleaving of clients' calls has left, with expiries
anywhere, `CMD_MSG_RETRIEVE` either returns an error and writes nothing, or writes
exactly one frame: the message `msgUnmarshal` makes of the bytes `msgMarshal` gave for
the message of the latest `Set` of the key of this user, service and id that returned
no error (no other such `Set` returned after it), under the requested id. -/
theorem msgRetrieve_latest (R : Codec) (progs : Nat → List Call) (as : List Act)
    (cached : String → String → List String → List (Option Message) × Option Error)
    (c : ServerConn) (id : String) (rest : List String) (m? : Option Message)
    (hc : c.mcache = some (redisCache R ((Sys.init progs).run R as).srv cached)) :
    (∃ e, processCommand env (some ⟨.cmdMsgRetrieve, id :: rest, m?⟩) c = (some e, c)) ∨
    ∃ a s b d m, ((Sys.init progs).run R as).log = a ++ s :: b ∧
      SetOk R s (msgKey c.service c.username id) ∧ s.call.data R = some d ∧
      (∀ s' ∈ b, ¬SetOk R s' (msgKey c.service c.username id)) ∧ R.unmarshal d = .ok m ∧
      processCommand env (some ⟨.cmdMsgRetrieve, id :: rest, m?⟩) c =
        writeFrame env (.message { m with id := id } (autoCompress c (env.sizeOf m))) c := by
  have hg := redisCache_get R ((Sys.init progs).run R as).srv cached c.service c.username id
  cases he : ((Sys.init progs).run R as).srv.db (msgKey c.service c.username id) with
  | none =>
    rw [he] at hg
    exact .inl ⟨.redisNil, by simp [processCommand, cmdMsgRetrieve, hc, hg]⟩
  | some e =>
    rw [he] at hg
    cases hm : R.unmarshal e.data with
    | error err => exact .inl ⟨err, by simp [processCommand, cmdMsgRetrieve, hc, hg, Call.decode, hm]⟩
    | ok m =>
      obtain ⟨a, s, b, hlog, hset, hd, hb⟩ := store_latest R progs as he
      exact .inr ⟨a, s, b, e.data, m, hlog, hset, hd, hb, hm,
        processCommand_msgRetrieve env id rest m? hc (by simp [hg, Call.decode, hm])⟩

end Frames

@[simp] theorem sizeOf_bodyEnv (m : Message) : bodyEnv.sizeOf m = m.body.length := rfl

/-- A body of `2^32 + 100` bytes. -/
def bigBody : List UInt8 := List.replicate (2 ^ 32 + 100) 0

theorem length_bigBody : bigBody.length = 2 ^ 32 + 100 := List.length_replicate _ _

/-- A cache answering every `Get` with a message of `2^32 + 100` bytes. -/
def bigCache : Cache := ⟨fun _ _ _ => (some { body := bigBody }, none), fun _ _ _ => ([], none)⟩

/-- Client 0 sets message "x" of user "u" in service "s", with no expiry. -/
def setOnce : Nat → List Call := fun c => if c = 0 then [.set "s" "u" "x" {} 0] else []

/-- A new connection whose cache is the Redis cache over the store `setOnce`'s call
has written. -/
def storedConn : ServerConn :=
  { newConn "s" "u" with
    mcache := some (redisCache byteCodec ((Sys.init setOnce).run byteCodec [.send 0]).srv
      fun _ _ _ => ([], none)) }

/-- After client 0's `Set`, `CMD_MSG_RETRIEVE ["x"]` writes the message of the latest
`Set` of the key. -/
theorem msgRetrieve_latest_set :
    storedConn.mcache = some (redisCache byteCodec ((Sys.init setOnce).run byteCodec [.send 0]).srv
      fun _ _ _ => ([], none)) ∧
    ∃ a s b d m, ((Sys.init setOnce).run byteCodec [.send 0]).log = a ++ s :: b ∧
      SetOk byteCodec s (msgKey "s" "u" "x") ∧ s.call.data byteCodec = some d ∧
      (∀ s' ∈ b, ¬SetOk byteCodec s' (msgKey "s" "u" "x")) ∧ byteCodec.unmarshal d = .ok m ∧
      processCommand bodyEnv (some ⟨.cmdMsgRetrieve, ["x"], none⟩) storedConn =
        writeFrame bodyEnv (.message { m with id := "x" } (autoCompress storedConn (bodyEnv.sizeOf m)))
          storedConn := by
  refine ⟨rfl, (msgRetrieve_latest bodyEnv byteCodec setOnce [.send 0] _ storedConn "x" [] none
    rfl).resolve_left ?_⟩
  -- the store holds the `Set`'s byte, so the retrieval writes a message, with no error
  have hset : (Call.set "s" "u" "x" {} 0).cmds byteCodec = [.set (msgKey "s" "u" "x") [1]] := by
    simp only [Call.cmds, seconds_zero, le_refl, if_true]; rfl
  have hdb : ((Sys.init setOnce).run byteCodec [.send 0]).srv.db (msgKey "s" "u" "x") =
      some ⟨[1], false, 0⟩ := by
    simp only [Sys.run, List.foldl, Sys.step, Sys.init, setOnce, if_true, hset]
    rfl
  have hg : (redisCache byteCodec ((Sys.init setOnce).run byteCodec [.send 0]).srv
      fun _ _ _ => ([], none)).get "s" "u" "x" = (some {}, none) := by
    rw [redisCache_get, hdb]; rfl
  rintro ⟨e, he⟩
  rw [processCommand_msgRetrieve bodyEnv "x" [] none rfl hg] at he
  cases congrArg Prod.fst he

/-- A connection whose cache answers every `Get` with a message of `2^32 + 100` bytes. -/
def bigConn : ServerConn := { newConn "s" "u" with mcache := some bigCache }

/-- A retrieved message of `2^32 + 100` bytes goes uncompressed under the default
compression threshold 512: the size is compared after `int32`, as 100. -/
theorem msgRetrieve_compress_wraps :
    bigConn.mcache = some bigCache ∧
    bigCache.get bigConn.service bigConn.username "id" = (some { body := bigBody }, none) ∧
    (∃ m', processCommand bodyEnv (some ⟨.cmdMsgRetrieve, ["id"], none⟩) bigConn =
        writeFrame bodyEnv (.message m' false) bigConn ∧ m'.id = "id" ∧ m'.body = bigBody) ∧
    0 < bigConn.compressThreshold.toInt ∧
    bigConn.compressThreshold.toInt < bodyEnv.sizeOf { body := bigBody } := by
  obtain ⟨m', cf, hw, hid, -, hbody, hcf⟩ :=
    (msgRetrieve_frame bodyEnv bigConn "id" [] none).1 bigCache { body := bigBody } rfl rfl
  rw [sizeOf_bodyEnv, length_bigBody] at hcf
  have hoff : cf = false := Bool.eq_false_iff.2 fun h => absurd (hcf.1 h) (by decide)
  exact ⟨rfl, rfl, ⟨m', hoff ▸ hw, hid, hbody⟩, by decide,
    by rw [sizeOf_bodyEnv, length_bigBody]; decide⟩

/-! ## A `CMD_SETTING` decides the frames that follow it -/

section Setting
variable (env : Env)

/-- A `CMD_SETTING` whose thresholds parse stores them. -/
theorem processCommand_setting {p0 p1 : String} {a b : Int} (ha : atoi p0 = some a)
    (hb : atoi p1 = some b) (rest : List String) (m? : Option Message) (c : ServerConn) :
    processCommand env (some ⟨.cmdSetting, p0 :: p1 :: rest, m?⟩) c =
      (none, { c with digestThreshold := int32 a, compressThreshold := int32 b,
                      digestFields := if rest.length > 0 then rest else c.digestFields }) := by
  simp only [processCommand, cmdSetting, parseThreshold, atoi_length_pos ha, atoi_length_pos hb,
    if_true, ha, hb]
  split <;> rfl

/-- A command other than `CMD_SETTING` leaves both thresholds. -/
theorem update_thresholds (s : Settings) {cmd : Option Command} (hs : isSetting cmd = false) :
    (s.update cmd).digestThreshold = s.digestThreshold ∧
      (s.update cmd).compressThreshold = s.compressThreshold := by
  rcases cmd with _ | ⟨type, params, msg⟩
  · exact ⟨rfl, rfl⟩
  · cases type <;> first | exact ⟨rfl, rfl⟩ | simp [isSetting] at hs

/-- A run with no `CMD_SETTING` leaves both thresholds. -/
theorem thresholds_runOps : ∀ (ops : List Op) (c : ServerConn), (∀ op ∈ ops, op.isSetting = false) →
    (runOps env ops c).2.digestThreshold = c.digestThreshold ∧
      (runOps env ops c).2.compressThreshold = c.compressThreshold
  | [], _, _ => ⟨rfl, rfl⟩
  | op :: ops, c, h => by
    have hop := h op (List.mem_cons_self _ _)
    have hs := settings_run env op c (by simp [hop])
    obtain ⟨h₁, h₂⟩ := thresholds_runOps ops (op.run env c).2 fun o ho => h o (List.mem_cons_of_mem _ ho)
    simp only [runOps]
    rw [h₁, h₂]
    cases op with
    | processCommand cmd =>
      have ht := update_thresholds c.settings
        (by simpa [Op.isSetting, Op.command] using hop : isSetting cmd = false)
      exact ⟨(congrArg Settings.digestThreshold hs).trans ht.1,
        (congrArg Settings.compressThreshold hs).trans ht.2⟩
    | _ => exact ⟨congrArg Settings.digestThreshold hs, congrArg Settings.compressThreshold hs⟩

/-- **A `CMD_SETTING` decides the frames, in 32-bit arithmetic.** Once `ProcessCommand`
has accepted a `CMD_SETTING` whose thresholds `Atoi` reads as `a` and `b`, along any
later run with no `CMD_SETTING`: every `SendMessage` writes exactly one frame, a digest
exactly when `0 ≤ int32(a) < int32(sz)` and compressed exactly when
`0 < int32(b) < int32(sz)`; every frame `sendAllCachedMessage` writes is the frame
`sendFrame` picks for a cached message, decided the same way by that message's size;
and every frame
`CMD_MSG_RETRIEVE` writes is a message, compressed the same way by its size. -/
theorem setting_decides_frames (c : ServerConn) {p0 p1 : String} {a b : Int}
    (ha : atoi p0 = some a) (hb : atoi p1 = some b) (rest : List String) (m? : Option Message)
    (ops : List Op) (hops : ∀ op ∈ ops, op.isSetting = false) :
    let c' := (runOps env ops (processCommand env (some ⟨.cmdSetting, p0 :: p1 :: rest, m?⟩) c).2).2
    let digest (sz : Nat) : Prop := 0 ≤ (int32 a).toInt ∧ (int32 a).toInt < (int32 sz).toInt
    let compress (sz : Nat) : Prop := 0 < (int32 b).toInt ∧ (int32 b).toInt < (int32 sz).toInt
    (∀ msg extra ttl id, ∃ f, sendMessage env msg extra ttl id c' = writeFrame env f c' ∧
      (f.isDigest = true ↔ digest (env.sizeOf msg)) ∧
      (f.compress = true ↔ compress (env.sizeOf msg))) ∧
    (∀ cache excludes, ∃ fs,
      (sendAllCachedMessage env cache excludes c').2 = { c' with wire := c'.wire ++ fs } ∧
      ∀ f ∈ fs, ∃ m, some m ∈ (cache.getCachedMessages c'.service c'.username excludes).1 ∧
        f = sendFrame env c' m ∅ m.id ∧
        (f.isDigest = true ↔ digest (env.sizeOf m)) ∧ (f.compress = true ↔ compress (env.sizeOf m))) ∧
    (∀ id ps msg, ∃ fs,
      (processCommand env (some ⟨.cmdMsgRetrieve, id :: ps, msg⟩) c').2 =
        { c' with wire := c'.wire ++ fs } ∧
      ∀ f ∈ fs, ∃ m, f = .message m f.compress ∧ (f.compress = true ↔ compress (env.sizeOf m))) := by
  intro c' digest compress
  have ht : c'.digestThreshold = int32 a ∧ c'.compressThreshold = int32 b := by
    simpa only [c', processCommand_setting env ha hb] using thresholds_runOps env ops
      (processCommand env (some ⟨.cmdSetting, p0 :: p1 :: rest, m?⟩) c).2 hops
  have hdig : ∀ m, (shouldDigest env c' m).2 = true ↔ digest (env.sizeOf m) := fun m => by
    simp [shouldDigest, ht.1, digest]
  have hcmp : ∀ sz, autoCompress c' sz = true ↔ compress sz := fun sz => by
    simp [autoCompress, ht.2, compress]
  refine ⟨fun msg extra ttl id => ⟨_, sendMessage_eq env msg extra ttl id c',
      by rw [isDigest_sendFrame]; exact hdig msg, by rw [compress_sendFrame]; exact hcmp _⟩,
    fun cache excludes => ?_, fun id ps msg => ?_⟩
  · obtain ⟨fs, hfs, hf⟩ := sendAllCachedMessage_frames env cache excludes c'
    refine ⟨fs, hfs, fun f hmem => ?_⟩
    obtain ⟨m, hm, rfl⟩ := hf f hmem
    exact ⟨m, hm, rfl, by rw [isDigest_sendFrame]; exact hdig m, by rw [compress_sendFrame]; exact hcmp _⟩
  · obtain ⟨fs, hfs, hf⟩ := cmdMsgRetrieve_frames env ⟨.cmdMsgRetrieve, id :: ps, msg⟩ c'
    refine ⟨fs, hfs, fun f hmem => ?_⟩
    obtain ⟨m, rfl⟩ := hf f hmem
    exact ⟨m, rfl, hcmp _⟩

end Setting

/-- After `CMD_SETTING ["512", "512"]`, a message of `2^32 + 100` bytes is sent in full
and uncompressed, its size compared as 100; after `CMD_SETTING ["4294967296", "512"]`,
a one-byte message is sent as a digest, the threshold read as `int32(4294967296) = 0`. -/
theorem setting_decides_frames_wraps :
    atoi "512" = some 512 ∧ atoi "4294967296" = some 4294967296 ∧
    (∃ f, sendMessage bodyEnv { body := bigBody } ∅ 0 "id"
        (processCommand bodyEnv (some ⟨.cmdSetting, ["512", "512"], none⟩) (newConn "s" "u")).2 =
      writeFrame bodyEnv f
        (processCommand bodyEnv (some ⟨.cmdSetting, ["512", "512"], none⟩) (newConn "s" "u")).2 ∧
      f.isDigest = false ∧ f.compress = false) ∧
    (∃ f, sendMessage bodyEnv { body := [7] } ∅ 0 "id"
        (processCommand bodyEnv (some ⟨.cmdSetting, ["4294967296", "512"], none⟩) (newConn "s" "u")).2 =
      writeFrame bodyEnv f
        (processCommand bodyEnv (some ⟨.cmdSetting, ["4294967296", "512"], none⟩) (newConn "s" "u")).2 ∧
      f.isDigest = true) := by
  have h512 : atoi "512" = some 512 := by decide
  have hbig : atoi "4294967296" = some 4294967296 := by decide
  obtain ⟨f, hf, hd, hc⟩ := (setting_decides_frames bodyEnv (newConn "s" "u") h512 h512 [] none []
    (by simp)).1 { body := bigBody } ∅ 0 "id"
  obtain ⟨g, hg, hgd, -⟩ := (setting_decides_frames bodyEnv (newConn "s" "u") hbig h512 [] none []
    (by simp)).1 { body := [7] } ∅ 0 "id"
  rw [sizeOf_bodyEnv, length_bigBody] at hd hc
  exact ⟨h512, hbig,
    ⟨f, hf, Bool.eq_false_iff.2 fun h => absurd (hd.1 h) (by decide),
      Bool.eq_false_iff.2 fun h => absurd (hc.1 h) (by decide)⟩,
    ⟨g, hg, hgd.2 (by decide)⟩⟩

end UniqushConn.Server
