import UniqushConn.Server.Errors

/- The connection over whole runs: what every call may do to it, and what therefore
   holds after any run of the embedding server's calls, whatever the peer sends.

   One command changes four things at most, each as one definition below says: the
   settings (`Settings.store`), the two channels (`forwardRequestOf`,
   `subscribeRequestOf`), and the wire, where it appends only full messages and the
   digests `writeDigest` builds (`Writable`). The identity and the cache stay.

   What is proved, for every run (`runOps`), refused commands included:
     1. `settings_every_run` — from `NewConn`, each setting is as the last command
        that stored it left it. A refused `CMD_SETTING` may store one: its digest
        threshold is stored before its compression threshold is read. This is
        `settings_last_writer` without its hypothesis that no `CMD_SETTING` fails.
     2. `channels_every_run` — with no channel installed during the run, each
        channel holds what it held, then exactly one request per `CMD_FWD_REQ` (per
        accepted `CMD_SUBSCRIPTION`) of the run, in order, each for this connection's
        user and service: no request is lost, duplicated or pushed by another command.
     3. `digests_disclose_requested` — from `NewConn`, every command on the wire is a
        `CMD_DIGEST` whose attached message has no body and whose header holds only
        fields the peer named in an accepted `CMD_SETTING` of the run.

   Correspondence (Go ↔ Lean):
     `self.subChan <- req`, `self.fwdChan <- fwdreq` ↔ `subscribeRequestOf`, `forwardRequestOf`
     the `atomic.StoreInt32`s and `self.digestFields = …` of `ProcessCommand`
                                                   ↔ `Settings.store` -/
namespace UniqushConn.Server
open UniqushConn.Proto UniqushConn.Msgcache

/-! ## What one command stores -/

/-- A threshold parameter `CMD_SETTING` accepts: empty, or a number `Atoi` reads. -/
def thresholdOk (p : String) : Bool := p.length == 0 || (atoi p).isSome

/-- The compression threshold a command stores: `Atoi(Params[1])` of a `CMD_SETTING`
whose first threshold was accepted and whose second is not empty. -/
def compressThresholdStored : Option Command → Option Int
  | some ⟨.cmdSetting, p0 :: p1 :: _, _⟩ => if thresholdOk p0 ∧ p1.length > 0 then atoi p1 else none
  | _ => none

/-- The digest fields a command stores: `Params[2:]` of a `CMD_SETTING` with more than
two parameters whose two thresholds were accepted. -/
def digestFieldsStored : Option Command → Option (List String)
  | some ⟨.cmdSetting, p0 :: p1 :: fields, _⟩ =>
    if thresholdOk p0 ∧ thresholdOk p1 ∧ fields.length > 0 then some fields else none
  | _ => none

/-- The settings after one command, a refused one included. The digest threshold is
`digestThresholdSet`'s: it is stored as soon as `Params[0]` parses. -/
def Settings.store (s : Settings) (cmd : Option Command) : Settings where
  digestThreshold := ((digestThresholdSet cmd).map int32).getD s.digestThreshold
  compressThreshold := ((compressThresholdStored cmd).map int32).getD s.compressThreshold
  visible := (visibilitySet cmd).getD s.visible
  digestFields := (digestFieldsStored cmd).getD s.digestFields

/-- The request a `CMD_FWD_REQ` has the connection of `service` and `username` push. -/
def forwardRequestOf (env : Env) (service username : String) : Option Command → Option ForwardRequest
  | some ⟨.cmdFwdReq, p0 :: p1 :: rest, m?⟩ =>
    some { receiver := p1, receiverService := rest.head?.getD service,
           ttl := env.parseDuration p0,
           message := { m?.getD {} with sender := username, senderService := service, id := "" } }
  | _ => none

/-- The request a `CMD_SUBSCRIPTION` has the connection of `service` and `username`
push: `Params[0]` is "0" or "1" and the message has a header. -/
def subscribeRequestOf (service username : String) : Option Command → Option SubscribeRequest
  | some ⟨.cmdSubscription, p0 :: _, some m⟩ =>
    if m.header.entries.length = 0 then none
    else if p0 = "0" then some ⟨false, service, username, m.header⟩
    else if p0 = "1" then some ⟨true, service, username, m.header⟩
    else none
  | _ => none

/-- A frame connection `c` may write: a message in full, or a digest `writeDigest`
builds from `c`'s digest fields. -/
def Writable (c : ServerConn) : Frame → Prop
  | .message _ _ => True
  | .command cmd _ => ∃ msg extra sz id, cmd = digestCommand c msg extra sz id

@[simp] theorem forwardRequestOf_other {env : Env} {service username : String} {cmd : Command}
    (h : cmd.type ≠ .cmdFwdReq) : forwardRequestOf env service username (some cmd) = none := by
  obtain ⟨type, params, m?⟩ := cmd
  cases type <;> first | rfl | exact absurd rfl h

@[simp] theorem subscribeRequestOf_other {service username : String} {cmd : Command}
    (h : cmd.type ≠ .cmdSubscription) : subscribeRequestOf service username (some cmd) = none := by
  obtain ⟨type, params, m?⟩ := cmd
  cases type <;> first | rfl | exact absurd rfl h

theorem thresholdOk_of_ok {p : String} {old d : BitVec 32} (h : parseThreshold p old = .ok d) :
    thresholdOk p = true := by
  unfold parseThreshold at h
  unfold thresholdOk
  split at h
  · split at h <;> simp_all
  · simp_all

theorem thresholdOk_of_error {p : String} {old : BitVec 32} {e : Error}
    (h : parseThreshold p old = .error e) : thresholdOk p = false := by
  obtain ⟨-, hp, ha⟩ := parseThreshold_error h
  simp [thresholdOk, ha, hp, length_eq_zero_iff]

/-- A command that is not a `CMD_SETTING` stores what it updates. -/
theorem store_eq_update (s : Settings) {cmd : Option Command} (hs : isSetting cmd = false) :
    s.store cmd = s.update cmd := by
  rcases cmd with _ | ⟨type, params, msg⟩
  · rfl
  · cases type <;> first | rfl | simp [isSetting] at hs

/-- What a command may do to a connection besides its settings: keep the identity and
the cache, push the requests it asks for on the channels there are, and append frames
`c` may write. -/
def Effect (env : Env) (cmd : Option Command) (c c' : ServerConn) : Prop :=
  c'.service = c.service ∧ c'.username = c.username ∧ c'.mcache = c.mcache ∧
    c'.fwdChan = c.fwdChan.map (· ++ (forwardRequestOf env c.service c.username cmd).toList) ∧
    c'.subChan = c.subChan.map (· ++ (subscribeRequestOf c.service c.username cmd).toList) ∧
    ∃ fs, c'.wire = c.wire ++ fs ∧ ∀ f ∈ fs, Writable c f

/-! ## What one command does -/

section Commands
variable (env : Env)

theorem cmdSetting_shape (cmd : Command) (c : ServerConn) :
    ∃ d t fields, (cmdSetting cmd c).2 =
      { c with digestThreshold := d, compressThreshold := t, digestFields := fields } := by
  obtain ⟨type, params, msg⟩ := cmd
  rcases params with _ | ⟨p0, _ | ⟨p1, fields⟩⟩
  case nil | cons.nil => exact ⟨c.digestThreshold, c.compressThreshold, c.digestFields, rfl⟩
  case cons.cons =>
    cases hd : parseThreshold p0 c.digestThreshold with
    | error e => exact ⟨c.digestThreshold, c.compressThreshold, c.digestFields, by simp [cmdSetting, hd]⟩
    | ok d =>
      cases ht : parseThreshold p1 c.compressThreshold with
      | error e => exact ⟨d, c.compressThreshold, c.digestFields, by simp [cmdSetting, hd, ht]⟩
      | ok t => exact ⟨d, t, if fields.length > 0 then fields else c.digestFields,
          by simp only [cmdSetting, hd, ht]; split <;> rfl⟩

theorem cmdSetVisibility_shape (cmd : Command) (c : ServerConn) :
    ∃ v, (cmdSetVisibility cmd c).2 = { c with visible := v } := by
  unfold cmdSetVisibility
  repeat' split
  all_goals exact ⟨_, rfl⟩

theorem cmdFwdReq_shape (cmd : Command) (c : ServerConn) (ht : cmd.type = .cmdFwdReq) :
    (cmdFwdReq env cmd c).2 = { c with
      fwdChan := c.fwdChan.map (· ++ (forwardRequestOf env c.service c.username (some cmd)).toList) } := by
  obtain ⟨type, params, m?⟩ := cmd
  subst ht
  rcases c with ⟨_, _, _, _, _, _, _, _ | q, _, _⟩ <;>
    rcases params with _ | ⟨p0, _ | ⟨p1, rest⟩⟩ <;> (try cases rest) <;>
    simp [cmdFwdReq, forwardRequestOf]

theorem cmdSubscription_shape (cmd : Command) (c : ServerConn) (ht : cmd.type = .cmdSubscription) :
    (cmdSubscription cmd c).2 = { c with
      subChan := c.subChan.map (· ++ (subscribeRequestOf c.service c.username (some cmd)).toList) } := by
  obtain ⟨type, params, m?⟩ := cmd
  subst ht
  rcases c with ⟨_, _, _, _, _, _, _, _, _ | q, _⟩
  · rfl
  rcases params with _ | ⟨p0, ps⟩ <;> rcases m? with _ | m <;>
    simp only [cmdSubscription, subscribeRequestOf] <;> (try split_ifs) <;> simp

theorem sendFrame_writable (c : ServerConn) (msg : Message) (extra : StrMap) (id : String) :
    Writable c (sendFrame env c msg extra id) := by
  unfold sendFrame
  split
  · exact ⟨_, _, _, _, rfl⟩
  · trivial

/-- **One command, refused or not.** The settings after it are `Settings.store`'s. -/
theorem settings_store (cmd : Option Command) (c : ServerConn) :
    (processCommand env cmd c).2.settings = c.settings.store cmd := by
  cases hs : isSetting cmd
  · rw [store_eq_update _ hs]
    exact settings_processCommand env cmd c (by simp [hs])
  rcases cmd with _ | ⟨type, params, m?⟩
  · cases hs
  obtain rfl : type = .cmdSetting := by simpa [isSetting] using hs
  rcases params with _ | ⟨p0, _ | ⟨p1, fields⟩⟩
  case nil | cons.nil => rfl
  case cons.cons =>
    simp only [processCommand, cmdSetting, ServerConn.settings, Settings.store, digestThresholdSet,
      compressThresholdStored, digestFieldsStored, visibilitySet, Option.getD_none]
    cases hd : parseThreshold p0 c.digestThreshold with
    | error e =>
      simp [thresholdOk_of_error hd, (parseThreshold_error hd).2.2]
    | ok d =>
      rw [parseThreshold_ok hd]
      cases ht : parseThreshold p1 c.compressThreshold with
      | error e =>
        obtain ⟨-, hp, ha⟩ := parseThreshold_error ht
        simp [thresholdOk_of_ok hd, thresholdOk_of_error ht, ha, length_eq_zero_iff, hp,
          ServerConn.Visible]
      | ok t =>
        rw [parseThreshold_ok ht]
        by_cases hf : 0 < fields.length <;>
          simp [thresholdOk_of_ok hd, thresholdOk_of_ok ht, hf, ServerConn.Visible]

/-- A command that pushes nothing and only appends frames `c` may write. -/
theorem Effect.of_wire {cmd : Option Command} {c : ServerConn} {fs : List Frame}
    (hf : forwardRequestOf env c.service c.username cmd = none)
    (hs : subscribeRequestOf c.service c.username cmd = none) (hw : ∀ f ∈ fs, Writable c f) :
    Effect env cmd c { c with wire := c.wire ++ fs } :=
  ⟨rfl, rfl, rfl, by simp [hf], by simp [hs], fs, rfl, hw⟩

theorem Effect.self {cmd : Option Command} {c : ServerConn}
    (hf : forwardRequestOf env c.service c.username cmd = none)
    (hs : subscribeRequestOf c.service c.username cmd = none) : Effect env cmd c c :=
  ⟨rfl, rfl, rfl, by simp [hf], by simp [hs], [], by simp, by simp⟩

/-- **One command, refused or not**, besides the settings: see `Effect`. -/
theorem processCommand_effect (cmd : Option Command) (c : ServerConn) :
    Effect env cmd c (processCommand env cmd c).2 := by
  rcases cmd with _ | ⟨type, params, m?⟩
  · exact Effect.self env rfl rfl
  cases type with
  | cmdSubscription =>
    have h : (processCommand env (some ⟨.cmdSubscription, params, m?⟩) c).2 = _ :=
      cmdSubscription_shape ⟨.cmdSubscription, params, m?⟩ c rfl
    rw [h]
    exact ⟨rfl, rfl, rfl, by simp, rfl, [], by simp, by simp⟩
  | cmdFwdReq =>
    have h : (processCommand env (some ⟨.cmdFwdReq, params, m?⟩) c).2 = _ :=
      cmdFwdReq_shape env ⟨.cmdFwdReq, params, m?⟩ c rfl
    rw [h]
    exact ⟨rfl, rfl, rfl, rfl, by simp, [], by simp, by simp⟩
  | cmdSetVisibility =>
    obtain ⟨v, h⟩ := cmdSetVisibility_shape ⟨.cmdSetVisibility, params, m?⟩ c
    rw [show (processCommand env (some ⟨.cmdSetVisibility, params, m?⟩) c).2 = _ from h]
    exact ⟨rfl, rfl, rfl, by simp, by simp, [], by simp, by simp⟩
  | cmdSetting =>
    obtain ⟨d, t, fields, h⟩ := cmdSetting_shape ⟨.cmdSetting, params, m?⟩ c
    rw [show (processCommand env (some ⟨.cmdSetting, params, m?⟩) c).2 = _ from h]
    exact ⟨rfl, rfl, rfl, by simp, by simp, [], by simp, by simp⟩
  | cmdMsgRetrieve =>
    obtain ⟨fs, h, hf⟩ := cmdMsgRetrieve_frames env ⟨.cmdMsgRetrieve, params, m?⟩ c
    rw [show (processCommand env (some ⟨.cmdMsgRetrieve, params, m?⟩) c).2 = _ from h]
    refine Effect.of_wire env (by simp) (by simp) fun f hf' => ?_
    obtain ⟨m, rfl⟩ := hf f hf'
    trivial
  | cmdReqAllCached =>
    show Effect env _ c (cmdReqAllCached env _ c).2
    unfold cmdReqAllCached
    split
    · exact Effect.self env (by simp) (by simp)
    · obtain ⟨fs, h, hf⟩ := sendAllCachedMessage_frames env _ (excludesOf ⟨.cmdReqAllCached, params, m?⟩) c
      rw [h]
      refine Effect.of_wire env (by simp) (by simp) fun f hf' => ?_
      obtain ⟨m, -, rfl⟩ := hf f hf'
      exact sendFrame_writable env c m ∅ m.id
  | cmdDigest | other _ => exact Effect.self env (by simp) (by simp)

end Commands

/-! ## A run -/

/-- Whether a call installs a channel. -/
def Op.setsChannel : Op → Bool
  | .setForwardRequestChannel _ | .setSubscribeRequestChan _ => true
  | _ => false

/-- The settings after commands: each as the last command that stored it left it. -/
def Settings.lastStored (s : Settings) (cmds : List (Option Command)) : Settings :=
  ⟨lastSet (fun cmd => (digestThresholdSet cmd).map int32) cmds s.digestThreshold,
   lastSet (fun cmd => (compressThresholdStored cmd).map int32) cmds s.compressThreshold,
   lastSet visibilitySet cmds s.visible, lastSet digestFieldsStored cmds s.digestFields⟩

/-- The digest fields the accepted `CMD_SETTING`s of a run name. -/
def storedFields (ops : List Op) : List String :=
  (commandsOf ops).flatMap fun cmd => (digestFieldsStored cmd).getD []

/-- What a frame may disclose of a message under the digest fields `fields`: a
command is a `CMD_DIGEST` whose attached message has no body and a header holding
only keys of `fields`. A message frame is the message itself. -/
def Discloses (fields : List String) : Frame → Prop
  | .message _ _ => True
  | .command cmd _ => cmd.type = .cmdDigest ∧
      ∀ m, cmd.message = some m → m.body = [] ∧ ∀ k, k ∈ m.header → k ∈ fields

theorem lastStored_cons (s : Settings) (cmd : Option Command) (cmds : List (Option Command)) :
    s.lastStored (cmd :: cmds) = (s.store cmd).lastStored cmds := by
  simp only [Settings.lastStored, lastSet_cons]
  rfl

theorem commandsOf_cons (op : Op) (ops : List Op) :
    commandsOf (op :: ops) = commandsOf [op] ++ commandsOf ops :=
  List.filterMap_append [op] ops Op.command

theorem filterMap_singleton {α β : Type} (f : α → Option β) (a : α) : [a].filterMap f = (f a).toList := by
  cases h : f a <;> simp [h]

theorem Discloses.mono {fields fields' : List String} {f : Frame} (h : Discloses fields f)
    (hsub : ∀ k ∈ fields, k ∈ fields') : Discloses fields' f := by
  cases f with
  | message => trivial
  | command cmd b => exact ⟨h.1, fun m hm => ⟨(h.2 m hm).1, fun k hk => hsub k ((h.2 m hm).2 k hk)⟩⟩

/-- A frame `c` may write discloses only `c`'s digest fields. -/
theorem Writable.discloses {c : ServerConn} {f : Frame} {fields : List String} (h : Writable c f)
    (hf : ∀ k ∈ c.digestFields, k ∈ fields) : Discloses fields f := by
  cases f with
  | message => trivial
  | command cmd b =>
    obtain ⟨msg, extra, sz, id, rfl⟩ := h
    refine ⟨rfl, fun m hm => ?_⟩
    simp only [digestCommand] at hm
    split at hm <;> cases hm
    exact ⟨rfl, fun k hk => hf k ((mem_digestHeader _ _ _ k).1 hk).1⟩

section Run
variable (env : Env)

theorem settings_run_store (op : Op) (c : ServerConn) :
    (op.run env c).2.settings = (op.command.map (c.settings.store ·)).getD c.settings := by
  cases op with
  | processCommand cmd => exact settings_store env cmd c
  | sendMessage msg extra ttl id => exact (sendMessage_extends env msg extra ttl id c).settings
  | _ => rfl

/-- One call appends to the wire only frames the connection may write. -/
theorem wire_run (op : Op) (c : ServerConn) :
    ∃ fs, (op.run env c).2.wire = c.wire ++ fs ∧ ∀ f ∈ fs, Writable c f := by
  cases op with
  | processCommand cmd => exact (processCommand_effect env cmd c).2.2.2.2.2
  | sendMessage msg extra ttl id =>
    exact ⟨[sendFrame env c msg extra id], by simp [Op.run, sendMessage_eq],
      by simpa using sendFrame_writable env c msg extra id⟩
  | _ => exact ⟨[], by simp [Op.run, ServerConn.setMessageCache, ServerConn.setForwardRequestChannel,
      ServerConn.setSubscribeRequestChan], by simp⟩

/-- One call that installs no channel keeps the identity and pushes its command's
requests. -/
theorem channels_run (op : Op) (c : ServerConn) (h : op.setsChannel = false) :
    let c' := (op.run env c).2
    c'.service = c.service ∧ c'.username = c.username ∧
      c'.fwdChan = c.fwdChan.map (· ++ (commandsOf [op]).filterMap
        (forwardRequestOf env c.service c.username)) ∧
      c'.subChan = c.subChan.map (· ++ (commandsOf [op]).filterMap
        (subscribeRequestOf c.service c.username)) := by
  cases op with
  | processCommand cmd =>
    obtain ⟨h₁, h₂, -, h₄, h₅, -⟩ := processCommand_effect env cmd c
    simp only [commandsOf, filterMap_singleton, Op.command, Option.toList_some]
    exact ⟨h₁, h₂, h₄, h₅⟩
  | sendMessage msg extra ttl id =>
    obtain ⟨fs, hfs⟩ := sendMessage_extends env msg extra ttl id c
    simp [Op.run, hfs, commandsOf, Op.command]
  | setMessageCache => simp [Op.run, ServerConn.setMessageCache, commandsOf, Op.command]
  | _ => cases h

/-- **Settings over a run.** -/
theorem settings_runOps_stored : ∀ (ops : List Op) (c : ServerConn),
    (runOps env ops c).2.settings = c.settings.lastStored (commandsOf ops)
  | [], _ => rfl
  | op :: ops, c => by
    simp only [runOps]
    rw [settings_runOps_stored ops, settings_run_store env op c]
    cases hop : op.command with
    | none => simp [commandsOf, hop]
    | some cmd => simp [commandsOf, hop, lastStored_cons]

/-- **The channels over a run.** Along a run that installs no channel, the connection
keeps its user and service, and each channel it has holds what it held followed by
exactly the requests `forwardRequestOf` (`subscribeRequestOf`) reads off the run's
commands, in order: one per `CMD_FWD_REQ` with two parameters or more, one per
`CMD_SUBSCRIPTION` with "0" or "1" and a header, each for this user and service, and
none for any other command or call. -/
theorem channels_every_run : ∀ (ops : List Op) (c : ServerConn), (∀ op ∈ ops, op.setsChannel = false) →
    let c' := (runOps env ops c).2
    c'.service = c.service ∧ c'.username = c.username ∧
      c'.fwdChan = c.fwdChan.map (· ++ (commandsOf ops).filterMap
        (forwardRequestOf env c.service c.username)) ∧
      c'.subChan = c.subChan.map (· ++ (commandsOf ops).filterMap
        (subscribeRequestOf c.service c.username))
  | [], c, _ => by simp [runOps, commandsOf]
  | op :: ops, c, h => by
    obtain ⟨h₁, h₂, h₃, h₄⟩ := channels_run env op c (h op (List.mem_cons_self _ _))
    obtain ⟨k₁, k₂, k₃, k₄⟩ := channels_every_run ops (op.run env c).2 fun o ho =>
      h o (List.mem_cons_of_mem _ ho)
    simp only [runOps]
    rw [commandsOf_cons, List.filterMap_append, List.filterMap_append]
    refine ⟨k₁.trans h₁, k₂.trans h₂, ?_, ?_⟩
    · rw [k₃, h₃, h₁, h₂, Option.map_map]
      congr 1; funext q; exact List.append_assoc _ _ _
    · rw [k₄, h₄, h₁, h₂, Option.map_map]
      congr 1; funext q; exact List.append_assoc _ _ _

/-- The frames a run appends disclose only fields the connection held when it started
or an accepted `CMD_SETTING` of the run named. -/
theorem runOps_discloses : ∀ (ops : List Op) (c : ServerConn) (fields : List String),
    (∀ k ∈ c.digestFields, k ∈ fields) →
    ∃ fs, (runOps env ops c).2.wire = c.wire ++ fs ∧
      ∀ f ∈ fs, Discloses (fields ++ storedFields ops) f
  | [], c, _, _ => ⟨[], by simp [runOps], by simp⟩
  | op :: ops, c, fields, hf => by
    obtain ⟨fs₁, hw₁, hf₁⟩ := wire_run env op c
    have hfields : ∀ k ∈ (op.run env c).2.digestFields, k ∈ fields ++ storedFields [op] := by
      have h := congrArg Settings.digestFields (settings_run_store env op c)
      simp only [ServerConn.settings] at h
      intro k hk
      rw [h] at hk
      cases hop : op.command with
      | none => simp [hop] at hk; exact List.mem_append_left _ (hf k hk)
      | some cmd =>
        simp only [hop, Option.map_some', Option.getD_some, Settings.store] at hk
        cases hs : digestFieldsStored cmd with
        | none => simp [hs] at hk; exact List.mem_append_left _ (hf k hk)
        | some fs =>
          simp only [hs, Option.getD_some] at hk
          simp [storedFields, commandsOf, hop, hs, hk]
    obtain ⟨fs₂, hw₂, hf₂⟩ := runOps_discloses ops (op.run env c).2 _ hfields
    have hstored : storedFields (op :: ops) = storedFields [op] ++ storedFields ops := by
      unfold storedFields
      rw [commandsOf_cons, List.flatMap_append]
    refine ⟨fs₁ ++ fs₂, by simp only [runOps]; rw [hw₂, hw₁, List.append_assoc], fun f hf' => ?_⟩
    rw [hstored, ← List.append_assoc]
    rcases List.mem_append.1 hf' with h | h
    · exact ((hf₁ f h).discloses hf).mono fun k hk => List.mem_append_left _ (List.mem_append_left _ hk)
    · exact hf₂ f h

end Run

/-- A forward channel installed on a new connection, then one `CMD_FWD_REQ`. -/
theorem channels_every_run_forward :
    (∀ op ∈ [Op.processCommand (some ⟨.cmdFwdReq, ["1s", "v"], none⟩)], op.setsChannel = false) ∧
    (runOps bodyEnv [.processCommand (some ⟨.cmdFwdReq, ["1s", "v"], none⟩)]
        ((newConn "s" "u").setForwardRequestChannel (some []))).2.fwdChan =
      some ([] ++ (commandsOf [.processCommand (some ⟨.cmdFwdReq, ["1s", "v"], none⟩)]).filterMap
        (forwardRequestOf bodyEnv "s" "u")) :=
  ⟨by decide, (channels_every_run bodyEnv _ _ (by decide)).2.2.1⟩

/-- **Settings over every run.** From `NewConn`, along any run, refused commands
included: the connection is visible iff the last `CMD_SET_VISIBILITY` with parameter
"0" or "1" had "1" (visible if none); the digest fields are `Params[2:]` of the last
`CMD_SETTING` with more than two parameters whose two thresholds were accepted (none
if none); the compression threshold is `int32` of `Atoi(Params[1])` of the last such
`CMD_SETTING` with a non-empty `Params[1]` (512 if none); and the digest threshold is
`int32` of `Atoi(Params[0])` of the last `CMD_SETTING` with two parameters or more and
a number in `Params[0]`, whether or not `Params[1]` was accepted (-1 if none). -/
theorem settings_every_run (env : Env) (service username : String) (ops : List Op) :
    let c := (runOps env ops (newConn service username)).2
    c.Visible = lastSet visibilitySet (commandsOf ops) true ∧
      c.digestFields = lastSet digestFieldsStored (commandsOf ops) [] ∧
      c.digestThreshold = int32 (lastSet digestThresholdSet (commandsOf ops) (-1)) ∧
      c.compressThreshold = int32 (lastSet compressThresholdStored (commandsOf ops) 512) := by
  have h := settings_runOps_stored env ops (newConn service username)
  simp only [ServerConn.settings, Settings.lastStored, Settings.mk.injEq] at h
  obtain ⟨h₁, h₂, h₃, h₄⟩ := h
  exact ⟨h₃, h₄, h₁.trans (lastSet_map digestThresholdSet int32 _ (-1)),
    h₂.trans (lastSet_map compressThresholdStored int32 _ 512)⟩

/-- **Digests disclose only what the peer asked for.** From `NewConn`, along any run,
every command on the wire is a `CMD_DIGEST`; the message it carries, if any, has no
body, and each field of its header is one of `Params[2:]` of an accepted `CMD_SETTING`
of the run. -/
theorem digests_disclose_requested (env : Env) (service username : String) (ops : List Op) :
    ∀ f ∈ (runOps env ops (newConn service username)).2.wire, Discloses (storedFields ops) f := by
  obtain ⟨fs, hw, hf⟩ := runOps_discloses env ops (newConn service username) [] (by simp [newConn])
  rw [hw]
  simpa [newConn] using hf

/-- A `CMD_SETTING` with digest threshold 0 naming the field "h", then a one-byte
message whose header holds "h", sent as a digest. -/
def digestRun : List Op :=
  [.processCommand (some ⟨.cmdSetting, ["0", "", "h"], none⟩),
   .sendMessage { header := AList.singleton "h" "v", body := [7] } ∅ 0 "id"]

/-- The digest `digestRun` writes. -/
def digestRunFrame : Frame :=
  .command (digestCommand { newConn "s" "u" with digestThreshold := int32 0, digestFields := ["h"] }
    { header := AList.singleton "h" "v", body := [7] } ∅ 1 "id") false

theorem digests_disclose_requested_run :
    digestRunFrame ∈ (runOps bodyEnv digestRun (newConn "s" "u")).2.wire ∧
      (∃ d m, digestRunFrame = .command d false ∧ d.message = some m ∧ "h" ∈ m.header) ∧
      Discloses (storedFields digestRun) digestRunFrame := by
  have hw : (runOps bodyEnv digestRun (newConn "s" "u")).2.wire = [digestRunFrame] := rfl
  have h : digestRunFrame ∈ (runOps bodyEnv digestRun (newConn "s" "u")).2.wire :=
    hw ▸ List.mem_singleton_self _
  -- the digest carries a header, holding the field "h"
  have hm : "h" ∈ digestHeader (AList.singleton "h" "v") ∅ ["h"] ∅ := by
    have hk : "h" ∈ (AList.singleton "h" "v" : StrMap) := by
      rw [AList.mem_keys, AList.keys_singleton]; exact List.mem_singleton_self _
    rw [mem_digestHeader]
    exact ⟨List.mem_singleton_self _, .inl hk⟩
  exact ⟨h, ⟨_, { header := digestHeader (AList.singleton "h" "v") ∅ ["h"] ∅ }, rfl, rfl, hm⟩,
    digests_disclose_requested bodyEnv "s" "u" digestRun _ h⟩

end UniqushConn.Server
