import UniqushConn.Server.Send

/- The connection as a state machine: the embedding server's calls on it (`Op`), a
   run of them (`runOps`), and what a run does to the four settings.

   Only `CMD_SETTING` and `CMD_SET_VISIBILITY` touch the settings; every other command
   and every other call leaves them as they were, whether it succeeds or fails
   (`settings_processCommand`, `settings_run`). A run in which no `CMD_SETTING` fails
   ends with each setting as the last command that set it left it, or as `NewConn`
   made it (`settings_last_writer`).

   The requests a connection pushes to the embedding server carry its own user and
   service, whatever the peer wrote in the message (`requests_carry_identity`). -/
namespace UniqushConn.Server
open UniqushConn.Proto UniqushConn.Msgcache

/-! ## The settings -/

/-- The four settings a peer may change. -/
structure Settings where
  digestThreshold : BitVec 32
  compressThreshold : BitVec 32
  visible : Bool
  digestFields : List String
  deriving DecidableEq

/-- A connection's settings, its visibility read through `Visible`. -/
def ServerConn.settings (c : ServerConn) : Settings :=
  ⟨c.digestThreshold, c.compressThreshold, c.Visible, c.digestFields⟩

theorem Extends.settings {c c' : ServerConn} (h : Extends c c') : c'.settings = c.settings := by
  obtain ⟨fs, rfl⟩ := h; rfl

/-- The visibility a command sets: `CMD_SET_VISIBILITY` with first parameter "0" or "1". -/
def visibilitySet : Option Command → Option Bool
  | some ⟨.cmdSetVisibility, p0 :: _, _⟩ =>
    if p0 = "0" then some false else if p0 = "1" then some true else none
  | _ => none

/-- The digest threshold a command sets: `Atoi(Params[0])` of a `CMD_SETTING` with two
parameters or more and a non-empty first one. -/
def digestThresholdSet : Option Command → Option Int
  | some ⟨.cmdSetting, p0 :: _ :: _, _⟩ => if p0.length > 0 then atoi p0 else none
  | _ => none

/-- The compression threshold a command sets: `Atoi(Params[1])` likewise. -/
def compressThresholdSet : Option Command → Option Int
  | some ⟨.cmdSetting, _ :: p1 :: _, _⟩ => if p1.length > 0 then atoi p1 else none
  | _ => none

/-- The digest fields a command sets: `Params[2:]` of a `CMD_SETTING` with more than two
parameters. -/
def digestFieldsSet : Option Command → Option (List String)
  | some ⟨.cmdSetting, _ :: _ :: fields, _⟩ => if fields.length > 0 then some fields else none
  | _ => none

/-- Whether a command is a `CMD_SETTING`. -/
def isSetting : Option Command → Bool
  | some cmd => cmd.type == .cmdSetting
  | none => false

/-- The value the last command that sets it gave, or `d` if none did. -/
def lastSet {α : Type} (f : Option Command → Option α) (cmds : List (Option Command)) (d : α) : α :=
  ((cmds.filterMap f).getLast?).getD d

/-- The settings after one command, as the commands that set them say. -/
def Settings.update (s : Settings) (cmd : Option Command) : Settings where
  digestThreshold := ((digestThresholdSet cmd).map int32).getD s.digestThreshold
  compressThreshold := ((compressThresholdSet cmd).map int32).getD s.compressThreshold
  visible := (visibilitySet cmd).getD s.visible
  digestFields := (digestFieldsSet cmd).getD s.digestFields

theorem lastSet_cons {α : Type} (f : Option Command → Option α) (cmd : Option Command)
    (cmds : List (Option Command)) (d : α) :
    lastSet f (cmd :: cmds) d = lastSet f cmds ((f cmd).getD d) := by
  unfold lastSet
  cases h : f cmd <;> simp [h, List.filterMap_cons, List.getLast?_cons]

/-- Converting every value set converts the last. -/
theorem lastSet_map {α β : Type} (f : Option Command → Option α) (g : α → β)
    (cmds : List (Option Command)) (d : α) :
    lastSet (fun cmd => (f cmd).map g) cmds (g d) = g (lastSet f cmds d) := by
  simp only [lastSet, ← List.map_filterMap, List.getLast?_map, Option.getD_map]

/-- Folding the updates keeps, for each setting, the last value set. -/
theorem foldl_update : ∀ (cmds : List (Option Command)) (s : Settings),
    cmds.foldl Settings.update s =
      ⟨lastSet (fun cmd => (digestThresholdSet cmd).map int32) cmds s.digestThreshold,
       lastSet (fun cmd => (compressThresholdSet cmd).map int32) cmds s.compressThreshold,
       lastSet visibilitySet cmds s.visible, lastSet digestFieldsSet cmds s.digestFields⟩
  | [], _ => rfl
  | cmd :: cmds, s => by
    rw [List.foldl_cons, foldl_update cmds]
    simp only [lastSet_cons]
    rfl

/-- A command that is neither a `CMD_SETTING` nor sets the visibility updates nothing. -/
theorem update_eq_self (s : Settings) {cmd : Option Command} (hs : isSetting cmd = false)
    (hv : visibilitySet cmd = none) : s.update cmd = s := by
  have h : digestThresholdSet cmd = none ∧ compressThresholdSet cmd = none ∧
      digestFieldsSet cmd = none := by
    rcases cmd with _ | ⟨type, params, msg⟩
    · exact ⟨rfl, rfl, rfl⟩
    · cases type <;> first | exact ⟨rfl, rfl, rfl⟩ | simp [isSetting] at hs
  simp [Settings.update, h, hv]

/-! ## One command -/

section Commands
variable (env : Env)

/-- `CMD_SUBSCRIPTION` pushes at most one request, with this connection's identity,
the peer's header and the flag `Params[0] = "1"`, and changes nothing else. -/
theorem cmdSubscription_spec (cmd : Command) (c : ServerConn) :
    (cmdSubscription cmd c).2 = c ∨
    ∃ q p0 ps m, c.subChan = some q ∧ cmd.params = p0 :: ps ∧ cmd.message = some m ∧
      (cmdSubscription cmd c).2 = { c with subChan := some (q ++ [{
        subscribe := decide (p0 = "1"), service := c.service, username := c.username,
        params := m.header }]) } := by
  unfold cmdSubscription
  split
  · exact .inl rfl
  rename_i q hq
  split
  · exact .inl rfl
  · exact .inl rfl
  rename_i p0 ps m hp hm
  split_ifs with h₀ h₁ h₂
  · exact .inl rfl
  · exact .inr ⟨q, p0, ps, m, hq, hp, hm, by simp [h₁]⟩
  · exact .inr ⟨q, p0, ps, m, hq, hp, hm, by simp [h₂]⟩
  · exact .inl rfl

theorem settings_cmdSubscription (cmd : Command) (c : ServerConn) :
    (cmdSubscription cmd c).2.settings = c.settings := by
  rcases cmdSubscription_spec cmd c with h | ⟨_, _, _, _, _, _, _, h⟩
  · rw [h]
  · rw [h]; rfl

theorem settings_cmdFwdReq (cmd : Command) (c : ServerConn) :
    (cmdFwdReq env cmd c).2.settings = c.settings := by
  unfold cmdFwdReq
  split
  · split <;> rfl
  · rfl

theorem cmdMsgRetrieve_extends (cmd : Command) (c : ServerConn) :
    Extends c (cmdMsgRetrieve env cmd c).2 := by
  unfold cmdMsgRetrieve writeAutoCompress
  split
  · exact Extends.refl c
  · split
    · exact ⟨_, writeFrame_snd env _ c⟩
    · split
      · exact Extends.refl c
      · exact ⟨_, writeFrame_snd env _ c⟩

theorem cmdReqAllCached_extends (cmd : Command) (c : ServerConn) :
    Extends c (cmdReqAllCached env cmd c).2 := by
  unfold cmdReqAllCached
  split
  · exact Extends.refl c
  · exact sendAllCachedMessage_extends env _ _ c

theorem settings_cmdSetVisibility (cmd : Command) (c : ServerConn)
    (ht : cmd.type = .cmdSetVisibility) :
    (cmdSetVisibility cmd c).2.settings = c.settings.update (some cmd) := by
  obtain ⟨_, params, msg⟩ := cmd
  subst ht
  rcases params with _ | ⟨p0, ps⟩
  · rfl
  simp only [cmdSetVisibility, ServerConn.settings, Settings.update, visibilitySet,
    digestThresholdSet, compressThresholdSet, digestFieldsSet]
  split_ifs <;> simp_all [ServerConn.Visible]

/-- A threshold parameter that parses gives the threshold `Atoi` and `int32` give, or
keeps the old one when empty. -/
theorem parseThreshold_ok {p : String} {old d : BitVec 32} (h : parseThreshold p old = .ok d) :
    d = (((if p.length > 0 then atoi p else none)).map int32).getD old := by
  unfold parseThreshold at h
  split at h
  · split at h
    · rename_i v hv; cases h; simp_all
    · cases h
  · cases h; simp_all

/-- An accepted `CMD_SETTING` stores both thresholds and, with more than two
parameters, the digest fields. -/
theorem cmdSetting_accepted {cmd : Command} {c : ServerConn} (h : (cmdSetting cmd c).1 = none) :
    ∃ p0 p1 fields d t, cmd.params = p0 :: p1 :: fields ∧
      parseThreshold p0 c.digestThreshold = .ok d ∧ parseThreshold p1 c.compressThreshold = .ok t ∧
      (cmdSetting cmd c).2 = { c with
        digestThreshold := d, compressThreshold := t,
        digestFields := if fields.length > 0 then fields else c.digestFields } := by
  obtain ⟨type, params, msg⟩ := cmd
  rcases params with _ | ⟨p0, _ | ⟨p1, fields⟩⟩
  case nil | cons.nil => simp [cmdSetting] at h
  case cons.cons =>
    cases hd : parseThreshold p0 c.digestThreshold with
    | error e => simp [cmdSetting, hd] at h
    | ok d =>
      cases ht : parseThreshold p1 c.compressThreshold with
      | error e => simp [cmdSetting, hd, ht] at h
      | ok t => exact ⟨p0, p1, fields, d, t, rfl, hd, ht, by simp only [cmdSetting, hd, ht]; split <;> rfl⟩

theorem settings_cmdSetting (cmd : Command) (c : ServerConn) (ht : cmd.type = .cmdSetting)
    (h : (cmdSetting cmd c).1 = none) :
    (cmdSetting cmd c).2.settings = c.settings.update (some cmd) := by
  obtain ⟨p0, p1, fields, d, t, hp, hd, hc, heq⟩ := cmdSetting_accepted h
  obtain ⟨_, params, msg⟩ := cmd
  simp only at ht hp
  subst ht hp
  rw [heq, parseThreshold_ok hd, parseThreshold_ok hc]
  simp only [ServerConn.settings, Settings.update, visibilitySet, digestThresholdSet,
    compressThresholdSet, digestFieldsSet, Settings.mk.injEq, true_and]
  by_cases hf : 0 < fields.length <;> simp [hf, ServerConn.Visible]

/-- **One command.** A command changes the settings only as `Settings.update` says,
provided it is not a `CMD_SETTING` that fails. -/
theorem settings_processCommand (cmd : Option Command) (c : ServerConn)
    (h : isSetting cmd = true → (processCommand env cmd c).1 = none) :
    (processCommand env cmd c).2.settings = c.settings.update cmd := by
  rcases cmd with _ | ⟨type, params, msg⟩
  · rfl
  cases type with
  | cmdSubscription =>
    exact (settings_cmdSubscription _ c).trans (update_eq_self _ (by rfl) (by rfl)).symm
  | cmdSetVisibility => exact settings_cmdSetVisibility _ c rfl
  | cmdFwdReq =>
    exact (settings_cmdFwdReq env _ c).trans (update_eq_self _ (by rfl) (by rfl)).symm
  | cmdSetting => exact settings_cmdSetting _ c rfl (h rfl)
  | cmdMsgRetrieve =>
    exact (cmdMsgRetrieve_extends env _ c).settings.trans (update_eq_self _ (by rfl) (by rfl)).symm
  | cmdReqAllCached =>
    exact (cmdReqAllCached_extends env _ c).settings.trans (update_eq_self _ (by rfl) (by rfl)).symm
  | cmdDigest => exact (update_eq_self _ (by rfl) (by rfl)).symm
  | other n => exact (update_eq_self _ (by rfl) (by rfl)).symm

/-- **Requests carry the connection's identity.** `CMD_FWD_REQ` with two parameters or
more pushes one `ForwardRequest` on the forward channel, if there is one: its message
is the peer's header and body (none if no message came) sent by this connection's
user and service, with no id, to `Params[1]` at `Params[2]` or this connection's
service. `CMD_SUBSCRIPTION` pushes at most one `SubscribeRequest`, for this
connection's user and service, with the peer's header as its parameters. -/
theorem requests_carry_identity (c : ServerConn) :
    (∀ (p0 p1 : String) (rest : List String) (m? : Option Message),
      processCommand env (some ⟨.cmdFwdReq, p0 :: p1 :: rest, m?⟩) c =
        (none, { c with fwdChan := c.fwdChan.map (· ++ [{
          receiver := p1, receiverService := rest.head?.getD c.service,
          ttl := env.parseDuration p0,
          message := {
            id := "", sender := c.username, senderService := c.service,
            header := (m?.getD {}).header, body := (m?.getD {}).body } }]) })) ∧
    ∀ (params : List String) (msg : Option Message),
      (processCommand env (some ⟨.cmdSubscription, params, msg⟩) c).2 = c ∨
      ∃ q p0 ps m, c.subChan = some q ∧ params = p0 :: ps ∧ msg = some m ∧
        (processCommand env (some ⟨.cmdSubscription, params, msg⟩) c).2 =
          { c with subChan := some (q ++ [{
            subscribe := decide (p0 = "1"), service := c.service, username := c.username,
            params := m.header }]) } := by
  refine ⟨fun p0 p1 rest m? => ?_, fun params msg => cmdSubscription_spec ⟨_, params, msg⟩ c⟩
  rcases c with ⟨_, _, _, _, _, _, _, _ | q, _, _⟩ <;> cases rest <;> rfl

end Commands

/-! ## Runs -/

/-- The calls the embedding server makes on a connection. -/
inductive Op where
  | processCommand (cmd : Option Command)
  | sendMessage (msg : Message) (extra : StrMap) (ttl : Int) (id : String)
  | setMessageCache (cache : Option Cache)
  | setForwardRequestChannel (ch : Option (List ForwardRequest))
  | setSubscribeRequestChan (ch : Option (List SubscribeRequest))

namespace Op

/-- The command an operation hands to `ProcessCommand`. -/
def command : Op → Option (Option Command)
  | processCommand cmd => some cmd
  | _ => none

/-- Whether an operation delivers a `CMD_SETTING`. -/
def isSetting (op : Op) : Bool := (op.command.map Server.isSetting).getD false

/-- One call. -/
def run (env : Env) : Op → ServerConn → Option Error × ServerConn
  | processCommand cmd, c => Server.processCommand env cmd c
  | sendMessage msg extra ttl id, c => Server.sendMessage env msg extra ttl id c
  | setMessageCache cache, c => (none, c.setMessageCache cache)
  | setForwardRequestChannel ch, c => (none, c.setForwardRequestChannel ch)
  | setSubscribeRequestChan ch, c => (none, c.setSubscribeRequestChan ch)

end Op

/-- A run: the calls in order, each call's error, and the connection after them. -/
def runOps (env : Env) : List Op → ServerConn → List (Option Error) × ServerConn
  | [], c => ([], c)
  | op :: ops, c =>
    let (e, c) := op.run env c
    let (es, c) := runOps env ops c
    (e :: es, c)

/-- No `CMD_SETTING` of the run returned an error. -/
def NoSettingError (ops : List Op) (errs : List (Option Error)) : Prop :=
  ∀ p ∈ ops.zip errs, p.1.isSetting = true → p.2 = none

/-- The commands a run hands to `ProcessCommand`, in order. -/
def commandsOf (ops : List Op) : List (Option Command) := ops.filterMap Op.command

section Run
variable (env : Env)

/-- One call changes the settings only through the command it delivers. -/
theorem settings_run (op : Op) (c : ServerConn)
    (h : op.isSetting = true → (op.run env c).1 = none) :
    (op.run env c).2.settings = (op.command.map (c.settings.update ·)).getD c.settings := by
  cases op with
  | processCommand cmd => exact settings_processCommand env cmd c h
  | sendMessage msg extra ttl id => exact (sendMessage_extends env msg extra ttl id c).settings
  | setMessageCache => rfl
  | setForwardRequestChannel => rfl
  | setSubscribeRequestChan => rfl

/-- **A run.** The settings after a run are the updates of its commands, folded. -/
theorem settings_runOps : ∀ (ops : List Op) (c : ServerConn),
    NoSettingError ops (runOps env ops c).1 →
    (runOps env ops c).2.settings = (commandsOf ops).foldl Settings.update c.settings
  | [], _, _ => rfl
  | op :: ops, c, h => by
    have hop : op.isSetting = true → (op.run env c).1 = none := fun hs =>
      h (op, (op.run env c).1) (by simp [runOps]) hs
    have hrest : NoSettingError ops (runOps env ops (op.run env c).2).1 := fun p hp =>
      h p (by simp only [runOps, List.zip_cons_cons, List.mem_cons]; exact .inr hp)
    simp only [runOps]
    rw [settings_runOps ops _ hrest, settings_run env op c hop]
    cases op <;> rfl

end Run

/-- **Last writer wins.** From the state `NewConn` builds, along any run in which no
`CMD_SETTING` fails: the connection is visible iff the last `CMD_SET_VISIBILITY` with
parameter "0" or "1" had "1" (visible if there is none); the digest fields are those
of the last `CMD_SETTING` with more than two parameters (none if none); each threshold
is `int32` of the last `Atoi` of a non-empty parameter in its place (-1 and 512 if
none). Every other command, whether it succeeds or fails, changes no setting. -/
theorem settings_last_writer (env : Env) (service username : String) (ops : List Op)
    (h : NoSettingError ops (runOps env ops (newConn service username)).1) :
    let c := (runOps env ops (newConn service username)).2
    (c.Visible = lastSet visibilitySet (commandsOf ops) true ∧
      c.digestFields = lastSet digestFieldsSet (commandsOf ops) [] ∧
      c.digestThreshold = int32 (lastSet digestThresholdSet (commandsOf ops) (-1)) ∧
      c.compressThreshold = int32 (lastSet compressThresholdSet (commandsOf ops) 512)) ∧
    ∀ (cmd : Option Command) (c : ServerConn), isSetting cmd = false →
      visibilitySet cmd = none → (processCommand env cmd c).2.settings = c.settings := by
  refine ⟨?_, fun cmd c hs hv => ?_⟩
  · have hrun := settings_runOps env ops _ h
    rw [foldl_update] at hrun
    simp only [ServerConn.settings, Settings.mk.injEq] at hrun
    obtain ⟨h₁, h₂, h₃, h₄⟩ := hrun
    refine ⟨h₃, h₄, ?_, ?_⟩
    · rw [h₁]; exact lastSet_map digestThresholdSet int32 _ (-1)
    · rw [h₂]; exact lastSet_map compressThresholdSet int32 _ 512
  · rw [settings_processCommand env cmd c (by simp [hs]), update_eq_self _ hs hv]

/-- A `CMD_SETTING` that succeeds, then `CMD_SET_VISIBILITY ["0"]`: the connection ends
hidden. -/
theorem settings_last_writer_hidden :
    NoSettingError [.processCommand (some ⟨.cmdSetting, ["0", "10", "f"], none⟩),
        .processCommand (some ⟨.cmdSetVisibility, ["0"], none⟩)]
      (runOps bodyEnv [.processCommand (some ⟨.cmdSetting, ["0", "10", "f"], none⟩),
        .processCommand (some ⟨.cmdSetVisibility, ["0"], none⟩)] (newConn "s" "u")).1 ∧
    (runOps bodyEnv [.processCommand (some ⟨.cmdSetting, ["0", "10", "f"], none⟩),
        .processCommand (some ⟨.cmdSetVisibility, ["0"], none⟩)]
      (newConn "s" "u")).2.Visible = false := by
  have h : NoSettingError [.processCommand (some ⟨.cmdSetting, ["0", "10", "f"], none⟩),
        .processCommand (some ⟨.cmdSetVisibility, ["0"], none⟩)]
      (runOps bodyEnv [.processCommand (some ⟨.cmdSetting, ["0", "10", "f"], none⟩),
        .processCommand (some ⟨.cmdSetVisibility, ["0"], none⟩)] (newConn "s" "u")).1 := by
    unfold NoSettingError; decide
  exact ⟨h, (settings_last_writer bodyEnv "s" "u" _ h).1.1.trans (by decide)⟩

end UniqushConn.Server
