import UniqushConn.Server.Conn

/- What the server's sending code puts on the wire.

   Every send only appends frames to the wire (`Extends`). `SendMessage` writes the
   one frame `sendFrame` picks (`sendMessage_eq`); the loop of
   `sendAllCachedMessage` writes the frames `sendFrame` picks for the non-nil
   messages, in order, stopping at the first the writer refuses and returning its
   refusal (`sendCached_eq`, `writeAll_cases`, `sendAllCachedMessage_writes`). Whether a frame is a digest and whether it
   is compressed are the two tests of the code, made in 32-bit arithmetic
   (`isDigest_sendFrame`, `compress_sendFrame`).

   `writeDigest` writes one `CMD_DIGEST` command whose header is, for every digest
   field found in the message's header or in `extra`, the value from `extra` if it
   has one, else the header's (`lookup_digestHeader`). -/
namespace UniqushConn.Server
open UniqushConn.Proto UniqushConn.Msgcache

/-- `c'` is `c` with frames appended to its wire. -/
def Extends (c c' : ServerConn) : Prop := ∃ fs, c' = { c with wire := c.wire ++ fs }

theorem Extends.refl (c : ServerConn) : Extends c c := ⟨[], by simp⟩

section Send
variable (env : Env)

@[simp] theorem writeFrame_fst (f : Frame) (c : ServerConn) :
    (writeFrame env f c).1 = env.write c.wire f := rfl

@[simp] theorem writeFrame_snd (f : Frame) (c : ServerConn) :
    (writeFrame env f c).2 = { c with wire := c.wire ++ [f] } := rfl

/-- Write frames in order, stopping at the first the writer refuses. -/
def writeAll : List Frame → ServerConn → Option Error × ServerConn
  | [], c => (none, c)
  | f :: fs, c =>
    match writeFrame env f c with
    | (some e, c) => (some e, c)
    | (none, c) => writeAll fs c

/-- `writeAll` writes a prefix of its frames. -/
theorem writeAll_prefix : ∀ (fs : List Frame) (c : ServerConn),
    ∃ n, (writeAll env fs c).2 = { c with wire := c.wire ++ fs.take n }
  | [], c => ⟨0, by simp [writeAll]⟩
  | f :: fs, c => by
    simp only [writeAll, writeFrame]
    cases env.write c.wire f with
    | some e => exact ⟨1, by simp⟩
    | none =>
      obtain ⟨n, hn⟩ := writeAll_prefix fs { c with wire := c.wire ++ [f] }
      exact ⟨n + 1, by simp [hn]⟩

/-- The writer takes each of `fs`, handed to it in order after the frames `w`. -/
def Accepts (w fs : List Frame) : Prop :=
  ∀ pre f post, fs = pre ++ f :: post → env.write (w ++ pre) f = none

theorem accepts_nil (w : List Frame) : Accepts env w [] := fun pre f post h => by
  cases pre <;> cases h

theorem accepts_cons {w : List Frame} {f : Frame} {fs : List Frame} :
    Accepts env w (f :: fs) ↔ env.write w f = none ∧ Accepts env (w ++ [f]) fs := by
  constructor
  · intro h
    refine ⟨by simpa using h [] f fs rfl, fun pre g post hfs => ?_⟩
    simpa using h (f :: pre) g post (by rw [hfs]; rfl)
  · rintro ⟨hf, hfs⟩ (_ | ⟨a, pre⟩) g post h
    · obtain ⟨rfl, -⟩ := List.cons.inj h
      simpa using hf
    · obtain ⟨rfl, rfl⟩ := List.cons.inj h
      simpa using hfs pre g post rfl

/-- **`writeAll` stops at the first refusal.** It hands its frames to the writer in
order: all of them, each taken, and returns no error; or those up to the first the
writer refuses, and returns that refusal. -/
theorem writeAll_cases : ∀ (fs : List Frame) (c : ServerConn),
    (Accepts env c.wire fs ∧ writeAll env fs c = (none, { c with wire := c.wire ++ fs })) ∨
    ∃ pre f post e, fs = pre ++ f :: post ∧ Accepts env c.wire pre ∧
      env.write (c.wire ++ pre) f = some e ∧
      writeAll env fs c = (some e, { c with wire := c.wire ++ pre ++ [f] })
  | [], c => .inl ⟨accepts_nil env _, by simp [writeAll]⟩
  | f :: fs, c => by
    cases hw : env.write c.wire f with
    | some e =>
      exact .inr ⟨[], f, fs, e, rfl, accepts_nil env _, by simpa using hw,
        by simp [writeAll, writeFrame, hw]⟩
    | none =>
      rcases writeAll_cases fs { c with wire := c.wire ++ [f] } with
        ⟨ha, h⟩ | ⟨pre, g, post, e, rfl, ha, hg, h⟩
      · exact .inl ⟨(accepts_cons env).2 ⟨hw, ha⟩, by simp [writeAll, writeFrame, hw, h]⟩
      · exact .inr ⟨f :: pre, g, post, e, rfl, (accepts_cons env).2 ⟨hw, ha⟩,
          by simpa using hg, by simp [writeAll, writeFrame, hw, h]⟩

/-- The frame `SendMessage` writes: a digest when `shouldDigest` says so, the message
under `id` otherwise, compressed by the test on its size. -/
def sendFrame (c : ServerConn) (msg : Message) (extra : StrMap) (id : String) : Frame :=
  let sz := env.sizeOf msg
  if (shouldDigest env c msg).2 then .command (digestCommand c msg extra sz id) (autoCompress c sz)
  else .message { msg with id := id } (autoCompress c sz)

/-- The frame picked does not depend on what is already on the wire. -/
@[simp] theorem sendFrame_wire (c : ServerConn) (w : List Frame) (msg : Message) (extra : StrMap)
    (id : String) : sendFrame env { c with wire := w } msg extra id = sendFrame env c msg extra id :=
  rfl

theorem isDigest_sendFrame (c : ServerConn) (msg : Message) (extra : StrMap) (id : String) :
    (sendFrame env c msg extra id).isDigest = (shouldDigest env c msg).2 := by
  unfold sendFrame
  split <;> simp_all [Frame.isDigest, digestCommand]

theorem compress_sendFrame (c : ServerConn) (msg : Message) (extra : StrMap) (id : String) :
    (sendFrame env c msg extra id).compress = autoCompress c (env.sizeOf msg) := by
  unfold sendFrame
  split <;> rfl

theorem sendMessage_eq (msg : Message) (extra : StrMap) (ttl : Int) (id : String) (c : ServerConn) :
    sendMessage env msg extra ttl id c = writeFrame env (sendFrame env c msg extra id) c := by
  simp only [sendMessage, sendFrame, shouldDigest]
  split <;> rfl

/-- The loop of `sendAllCachedMessage` writes `sendFrame`'s frames for the non-nil
messages, each under its own id. -/
theorem sendCached_eq : ∀ (msgs : List (Option Message)) (c : ServerConn),
    sendCached env msgs c =
      writeAll env ((msgs.filterMap id).map fun m => sendFrame env c m ∅ m.id) c
  | [], c => rfl
  | none :: msgs, c => by simp [sendCached, sendCached_eq msgs c]
  | some m :: msgs, c => by
    have hstep : (if (shouldDigest env c m).2 then writeDigest env m ∅ (env.sizeOf m) m.id c
        else writeAutoCompress env m (env.sizeOf m) c) = writeFrame env (sendFrame env c m ∅ m.id) c := by
      unfold sendFrame; split <;> rfl
    simp only [sendCached, shouldDigest] at hstep ⊢
    rw [hstep]
    simp only [List.filterMap_cons_some, List.map_cons, writeAll, writeFrame]
    cases env.write c.wire (sendFrame env c m ∅ m.id) with
    | some e => rfl
    | none => simp [sendCached_eq msgs]

/-- `sendAllCachedMessage` appends to the wire only frames `sendFrame` picks for the
messages `GetCachedMessages` returned. -/
theorem sendAllCachedMessage_frames (cache : Cache) (excludes : List String) (c : ServerConn) :
    ∃ fs, (sendAllCachedMessage env cache excludes c).2 = { c with wire := c.wire ++ fs } ∧
      ∀ f ∈ fs, ∃ m, some m ∈ (cache.getCachedMessages c.service c.username excludes).1 ∧
        f = sendFrame env c m ∅ m.id := by
  unfold sendAllCachedMessage
  split
  · exact ⟨[], by simp, by simp⟩
  · rename_i msgs hmsgs
    split
    · exact ⟨[], by simp, by simp⟩
    · rw [sendCached_eq]
      obtain ⟨n, hn⟩ := writeAll_prefix env _ c
      refine ⟨_, hn, fun f hf => ?_⟩
      obtain ⟨m, hm, rfl⟩ := List.mem_map.1 (List.mem_of_mem_take hf)
      exact ⟨m, by rw [hmsgs]; simpa using hm, rfl⟩

/-- **What `sendAllCachedMessage` writes.** If `GetCachedMessages` fails, it writes
nothing and returns that error. Otherwise it hands the writer, in the list's order,
one frame for each message that is not nil: when `shouldDigest` says so, a
`CMD_DIGEST` command whose parameters start with the message's size and its own id,
else the message itself. It stops after the first frame the writer refuses and returns
that refusal; if every frame is taken it returns no error. -/
theorem sendAllCachedMessage_writes (cache : Cache) (excludes : List String) (c : ServerConn) :
    (∀ msgs e, cache.getCachedMessages c.service c.username excludes = (msgs, some e) →
      sendAllCachedMessage env cache excludes c = (some e, c)) ∧
    ∀ msgs, cache.getCachedMessages c.service c.username excludes = (msgs, none) →
      let fs := (msgs.filterMap id).map fun m =>
        if (shouldDigest env c m).2 then
          Frame.command (digestCommand c m ∅ (env.sizeOf m) m.id) (autoCompress c (env.sizeOf m))
        else Frame.message m (autoCompress c (env.sizeOf m))
      (∀ m ∈ msgs.filterMap id, (digestCommand c m ∅ (env.sizeOf m) m.id).type = .cmdDigest ∧
        (digestCommand c m ∅ (env.sizeOf m) m.id).params.take 2 = [toString (env.sizeOf m), m.id]) ∧
      ((Accepts env c.wire fs ∧
        sendAllCachedMessage env cache excludes c = (none, { c with wire := c.wire ++ fs })) ∨
      ∃ pre f post e, fs = pre ++ f :: post ∧ Accepts env c.wire pre ∧
        env.write (c.wire ++ pre) f = some e ∧
        sendAllCachedMessage env cache excludes c = (some e, { c with wire := c.wire ++ pre ++ [f] })) := by
  refine ⟨fun msgs e h => by simp [sendAllCachedMessage, h], fun msgs h => ⟨fun m _ => ⟨rfl, rfl⟩, ?_⟩⟩
  unfold sendAllCachedMessage
  rw [h]
  dsimp only
  split
  · rename_i h0
    obtain rfl : msgs = [] := List.eq_nil_of_length_eq_zero h0
    exact .inl ⟨accepts_nil env _, by simp⟩
  · rw [sendCached_eq]
    exact writeAll_cases env _ c

theorem sendAllCachedMessage_extends (cache : Cache) (excludes : List String) (c : ServerConn) :
    Extends c (sendAllCachedMessage env cache excludes c).2 :=
  let ⟨fs, h, _⟩ := sendAllCachedMessage_frames env cache excludes c
  ⟨fs, h⟩

theorem sendMessage_extends (msg : Message) (extra : StrMap) (ttl : Int) (id : String)
    (c : ServerConn) : Extends c (sendMessage env msg extra ttl id c).2 :=
  ⟨_, by rw [sendMessage_eq, writeFrame_snd]⟩

end Send

/-! ## The digest's header -/

theorem lookup_copyField (src : StrMap) (f k : String) (h : StrMap) :
    (copyField src f h).lookup k = if k = f then (src.lookup f).or (h.lookup k) else h.lookup k := by
  unfold copyField
  by_cases hk : k = f
  · subst hk; cases src.lookup k <;> simp [AList.lookup_insert]
  · split <;> simp [hk, AList.lookup_insert_ne hk]

/-- A guard `len(m) > 0` changes nothing: an empty map has no field to copy. -/
theorem copyField_guard (src : StrMap) (f : String) (h : StrMap) :
    (if src.entries.length > 0 then copyField src f h else h) = copyField src f h := by
  split
  · rfl
  · have hs : src.entries = [] := List.eq_nil_of_length_eq_zero (by omega)
    simp [copyField, AList.lookup, hs]

/-- After the loop, a digest field found in `extra` holds `extra`'s value, one found
only in the message's header holds the header's, and every other key holds what it
held before. -/
theorem lookup_digestHeader (header extra : StrMap) (k : String) :
    ∀ (fields : List String) (h : StrMap), (digestHeader header extra fields h).lookup k =
      if k ∈ fields then ((extra.lookup k).or (header.lookup k)).or (h.lookup k) else h.lookup k
  | [], h => by simp [digestHeader]
  | f :: fs, h => by
    simp only [digestHeader, copyField_guard, lookup_digestHeader header extra k fs,
      lookup_copyField, List.mem_cons]
    by_cases hk : k = f
    · subst hk
      cases extra.lookup k <;> cases header.lookup k <;> simp
    · simp [hk]

/-- A map is non-empty exactly when some key has a value. -/
theorem entries_length_pos (s : StrMap) : 0 < s.entries.length ↔ ∃ k, k ∈ s := by
  simp only [AList.mem_keys, AList.keys, List.keys, List.mem_map, List.length_pos_iff_exists_mem]
  exact ⟨fun ⟨e, he⟩ => ⟨e.1, e, he, rfl⟩, fun ⟨_, e, he, _⟩ => ⟨e, he⟩⟩

/-- The digest's header holds a key exactly when it is a digest field found in the
message's header or in `extra`. -/
theorem mem_digestHeader (header extra : StrMap) (fields : List String) (k : String) :
    k ∈ digestHeader header extra fields ∅ ↔ k ∈ fields ∧ (k ∈ header ∨ k ∈ extra) := by
  rw [← AList.lookup_isSome, lookup_digestHeader, ← AList.lookup_isSome, ← AList.lookup_isSome]
  split <;> simp_all [AList.lookup_empty, Option.isSome_iff_ne_none, or_comm]

theorem fromServer_eq_false (c : ServerConn) (msg : Message) :
    fromServer c msg = false ↔ msg.sender ≠ "" ∧
      ¬(msg.sender = c.username ∧ (msg.senderService = "" ∨ msg.senderService = c.service)) := by
  unfold fromServer
  simp only [length_eq_zero_iff]
  split_ifs <;> simp_all

/-- A writer that takes every frame, and a size that counts the body's bytes. -/
def bodyEnv : Env := ⟨fun _ body => body.length, fun _ => 0, fun _ _ => none⟩

/-- **The digest.** `writeDigest` writes exactly one frame, a `CMD_DIGEST` command. Its
parameters are the size and the id, then the sender and the sender's service when the
message is not from this connection. It carries a message exactly when a digest field
is a key of the message's header or of `extra`; that message has no body, and its
header maps each such field to `extra`'s value if it has one, else to the header's,
and holds no other key. It is compressed exactly when `0 < t < int32(sz)` for the
compression threshold `t`. -/
theorem writeDigest_frame (env : Env) (c : ServerConn) (msg : Message) (extra : StrMap)
    (sz : Nat) (id : String) :
    ∃ d cf, writeDigest env msg extra sz id c = writeFrame env (.command d cf) c ∧
      d.type = .cmdDigest ∧
      d.params = [toString sz, id] ++
        (if msg.sender ≠ "" ∧ ¬(msg.sender = c.username ∧
            (msg.senderService = "" ∨ msg.senderService = c.service))
          then [msg.sender, msg.senderService] else []) ∧
      (d.message.isSome ↔ ∃ f ∈ c.digestFields, f ∈ msg.header ∨ f ∈ extra) ∧
      (∀ dm, d.message = some dm → dm.body = [] ∧ ∀ k, dm.header.lookup k =
        if k ∈ c.digestFields then (extra.lookup k).or (msg.header.lookup k) else none) ∧
      (cf = true ↔ 0 < c.compressThreshold.toInt ∧ c.compressThreshold.toInt < (int32 sz).toInt) := by
  refine ⟨_, _, rfl, rfl, ?_, ?_, ?_, by simp [autoCompress]⟩
  · simp only [digestCommand, List.append_cancel_left_eq]
    by_cases h : fromServer c msg
    · rw [if_pos h, if_neg fun h' => by simp [(fromServer_eq_false c msg).2 h'] at h]
    · rw [if_neg h, if_pos ((fromServer_eq_false c msg).1 (by simpa using h))]
  · simp only [digestCommand, entries_length_pos, mem_digestHeader]
    split <;> simp_all
  · intro dm hdm
    simp only [digestCommand] at hdm
    split at hdm <;> cases hdm
    exact ⟨rfl, fun k => by simp only [lookup_digestHeader, AList.lookup_empty, Option.or_none]⟩

/-- The digest of a message of `2^32 + 100` bytes goes uncompressed under the default
compression threshold 512: the size is compared after `int32`, as 100. -/
theorem writeDigest_compress_wraps :
    (∃ d, writeDigest bodyEnv {} ∅ (2 ^ 32 + 100) "id" (newConn "s" "u") =
      writeFrame bodyEnv (.command d false) (newConn "s" "u")) ∧
    0 < (newConn "s" "u").compressThreshold.toInt ∧
    (newConn "s" "u").compressThreshold.toInt < 2 ^ 32 + 100 := by
  obtain ⟨d, cf, hw, -, -, -, -, hcf⟩ :=
    writeDigest_frame bodyEnv (newConn "s" "u") {} ∅ (2 ^ 32 + 100) "id"
  have hoff : cf = false := Bool.eq_false_iff.2 fun h => absurd (hcf.1 h) (by decide)
  exact ⟨⟨d, hoff ▸ hw⟩, by decide, by decide⟩

end UniqushConn.Server
