import UniqushConn.Msgcache.Clients

/- The cache never returns a stale message.

   `Serial` shows that a `Get` or `Del` that returns a message returns the value of
   some `Set` of its key made before it. Here it is the latest: the value at a key is
   always the last write to it, and that write was made by the last `Set` of the key
   that returned no error. So a call that returns a message returns what
   `msgUnmarshal` makes of the bytes `msgMarshal` gave for the message of the most
   recent such `Set` of its key, with no other between them.

   What is proved of every run from the empty store:
     1. `Current` — each key holds the last write to it (`Current.last`), with the
        bytes of the `Set` that made it (`Current.stored`); kept by each of the four
        kinds of step (`Current.shrink`, `Current.noWrite`, `Current.setWrote`);
     2. `reads_latest` — over every interleaving of any clients' calls, with expiries
        anywhere, a `Get` or `Del` that returns a message returns the latest `Set` of
        its key, decoded;
     3. `store_latest` — after any interleaving, the value at a key is the bytes of
        the latest `Set` of it in the log: what a later `Get` reads. -/
namespace UniqushConn.Msgcache
open UniqushConn.Proto

/-! ## The bytes a `Set` stores -/

/-- The bytes a `Set` call sends: what `msgMarshal` makes of its message. -/
def Call.data (R : Codec) : Call → Option (List UInt8)
  | .set _ _ _ m _ => (R.marshal m).toOption
  | _ => none

/-- What `Get` returns from the reply to its `GET`. -/
theorem get_result (R : Codec) (s : Server) (sv u id : String) :
    (Call.get sv u id).result R [s.read (msgKey sv u id)] =
      match s.db (msgKey sv u id) with
      | some e => Call.decode R e.data
      | none => (none, some .redisNil) := by
  rcases read_cases s (msgKey sv u id) with ⟨h₁, h₂⟩ | ⟨e, h₁, h₂⟩ <;>
    simp [Call.result, Call.getResult, doReply, bytes, h₁, h₂]

/-- What `Del` returns from the replies to its transaction. -/
theorem del_result (R : Codec) (s : Server) (sv u id : String) (i : Int) :
    (Call.del sv u id).result R [.status "OK", .status "QUEUED", .status "QUEUED",
        .array [s.read (msgKey sv u id), .int i]] =
      match s.db (msgKey sv u id) with
      | some e => if e.data.length = 0 then (none, none) else Call.decode R e.data
      | none => (none, some .redisNil) := by
  rcases read_cases s (msgKey sv u id) with ⟨h₁, h₂⟩ | ⟨e, h₁, h₂⟩ <;>
    simp [Call.result, Call.delResult, doReply, bytes, values, h₁, h₂]

/-- The Redis cache's `Get`, as the connection calls it: the value at the key, decoded,
or `redis.ErrNil` when the key holds nothing. -/
theorem redisCache_get (R : Codec) (s : Server)
    (cached : String → String → List String → List (Option Message) × Option Error)
    (sv u id : String) :
    (redisCache R s cached).get sv u id =
      match s.db (msgKey sv u id) with
      | some e => Call.decode R e.data
      | none => (none, some .redisNil) := by
  simp only [redisCache, Server.call, Call.cmds]
  rw [Server.runCmds_single (by simp [Server.close]) (by simp)]
  exact get_result R s sv u id

/-! ## The latest write -/

/-- A call that returned a message returned what `msgUnmarshal` made of the bytes of a
`Set` of its key that returned no error, and no other such `Set` of the key returned
between them. -/
def Latest (R : Codec) (log : List Event) : Prop :=
  ∀ l₁ g l₂, log = l₁ ++ g :: l₂ → g.returned R →
    ∃ a s b d, l₁ = a ++ s :: b ∧ SetOk R s g.call.key ∧ s.call.data R = some d ∧
      (∀ s' ∈ b, ¬SetOk R s' g.call.key) ∧ g.call.result R g.replies = Call.decode R d

section Append
variable {R : Codec} {log : List Event} {ev : Event}

theorem Latest.append (h : Latest R log)
    (hev : ev.returned R → ∃ a s b d, log = a ++ s :: b ∧ SetOk R s ev.call.key ∧
      s.call.data R = some d ∧ (∀ s' ∈ b, ¬SetOk R s' ev.call.key) ∧
      ev.call.result R ev.replies = Call.decode R d) :
    Latest R (log ++ [ev]) := by
  intro l₁ g l₂ hl hg
  rcases split_concat hl.symm with ⟨rfl, rfl, -⟩ | ⟨l₂', -, hl⟩
  · exact hev hg
  · exact h l₁ g l₂' hl hg

theorem Latest.quiet (h : Latest R log) (hq : ev.returned R = false) : Latest R (log ++ [ev]) :=
  h.append fun hg => absurd hg (by simp [hq])

end Append

/-- What holds of the store and the log after every serial run, besides `SerInv`: each
key holds the last write to it, which a `Set` of the log made. -/
structure Current (R : Codec) (τ : Ser) : Prop where
  /-- No write was made at a key after the one it holds. -/
  last : ∀ k e, τ.srv.db k = some e → ∀ j, e.tag < j → τ.srv.hist[j]? ≠ some k
  /-- A `Set` that returned no error made the write its count names, at its key. -/
  wrote : ∀ s ∈ τ.log, SetOk R s s.call.key → τ.srv.hist[s.writes - 1]? = some s.call.key
  /-- The value at a key holds the bytes of the `Set` that wrote it. -/
  stored : ∀ k e, τ.srv.db k = some e →
    ∃ s ∈ τ.log, SetOk R s k ∧ s.writes = e.tag + 1 ∧ s.call.data R = some e.data
  /-- A `Set` that returned no error counts more writes than every call before it. -/
  rising : τ.log.Pairwise fun a b => SetOk R b b.call.key → a.writes < b.writes
  latest : Latest R τ.log

section Inv
variable {R : Codec} {τ : Ser}

theorem Current.init : Current R Ser.init where
  last _ _ h := by cases h
  wrote _ h := by cases h
  stored _ _ h := by cases h
  rising := List.Pairwise.nil
  latest _ _ _ h := by simp [Ser.init] at h

/-- **The value at a key is the latest `Set` of it**: the log splits at a `Set` of the
key that wrote the value's bytes, with no such `Set` after it. -/
theorem Current.holds (h : Current R τ) {k : String} {e : Entry} (he : τ.srv.db k = some e) :
    ∃ a s b, τ.log = a ++ s :: b ∧ SetOk R s k ∧ s.call.data R = some e.data ∧
      ∀ s' ∈ b, ¬SetOk R s' k := by
  obtain ⟨s, hs, hset, hw, hd⟩ := h.stored k e he
  obtain ⟨a, b, hab⟩ := List.append_of_mem hs
  refine ⟨a, s, b, hab, hset, hd, fun s' hs' hset' => ?_⟩
  have hk : s'.call.key = k := hset'.2.1
  have hrise := List.pairwise_cons.1 (List.pairwise_append.1 (hab ▸ h.rising)).2.1
  have hlt : s.writes < s'.writes := hrise.1 s' hs' (hk ▸ hset')
  exact h.last k e he (s'.writes - 1) (by omega)
    (hk ▸ h.wrote s' (by rw [hab]; simp [hs']) (hk ▸ hset'))

/-- An expiry: values only go, the history and the log stay. -/
theorem Current.shrink (h : Current R τ) {srv : Server} (hhist : srv.hist = τ.srv.hist)
    (hdb : ∀ k e, srv.db k = some e → τ.srv.db k = some e) : Current R ⟨srv, τ.log⟩ where
  last k e he := hhist ▸ h.last k e (hdb k e he)
  wrote s hs hset := hhist ▸ h.wrote s hs hset
  stored k e he := h.stored k e (hdb k e he)
  rising := h.rising
  latest := h.latest

/-- A `Get`, a `Del` or a `Set` that failed: values only go, and the call, if it
returned a message, returned the value its key held, decoded. -/
theorem Current.noWrite (h : Current R τ) {srv : Server} (ev : Event) (hhist : srv.hist = τ.srv.hist)
    (hdb : ∀ k e, srv.db k = some e → τ.srv.db k = some e) (hset : ¬SetOk R ev ev.call.key)
    (hret : ev.returned R = true → ∃ e, τ.srv.db ev.call.key = some e ∧
      ev.call.result R ev.replies = Call.decode R e.data) :
    Current R ⟨srv, τ.log ++ [ev]⟩ where
  last k e he := hhist ▸ h.last k e (hdb k e he)
  wrote s hs hs' := by
    rcases List.mem_append.1 hs with hs | hs
    · exact hhist ▸ h.wrote s hs hs'
    · rw [List.mem_singleton.1 hs] at hs'; exact absurd hs' hset
  stored k e he :=
    let ⟨s, hs, h'⟩ := h.stored k e (hdb k e he)
    ⟨s, List.mem_append_left _ hs, h'⟩
  rising := List.pairwise_append.2 ⟨h.rising, List.pairwise_singleton _ _,
    fun _ _ _ hb hs' => absurd (List.mem_singleton.1 hb ▸ hs') hset⟩
  latest := h.latest.append fun hg =>
    let ⟨e, he, hr⟩ := hret hg
    let ⟨a, s, b, hlog, hs, hd, hb⟩ := h.holds he
    ⟨a, s, b, e.data, hlog, hs, hd, hb, hr⟩

/-- A `Set` that writes: its key now holds its bytes as the last write. -/
theorem Current.setWrote (h : Current R τ) (hs : SerInv R τ) (ev : Event) (d : List UInt8)
    (exp : Bool) (hset : SetOk R ev ev.call.key) (hw : ev.writes = τ.srv.hist.length + 1)
    (hd : ev.call.data R = some d) (hq : ev.returned R = false) :
    Current R ⟨τ.srv.write ev.call.key d exp, τ.log ++ [ev]⟩ where
  last k e he j hj := by
    simp only [Server.write, List.getElem?_append] at he ⊢
    by_cases hk : k = ev.call.key
    · subst hk
      simp only [Function.update_same, Option.some.injEq] at he
      subst he
      change τ.srv.hist.length < j at hj
      rw [if_neg (by omega)]
      cases hn : j - τ.srv.hist.length with
      | zero => omega
      | succ n => simp
    · rw [Function.update_noteq hk] at he
      split
      · exact h.last k e he j hj
      · cases j - τ.srv.hist.length <;> simp [Ne.symm hk]
  wrote s hs' hset' := by
    simp only [Server.write]
    rcases List.mem_append.1 hs' with hs' | hs'
    · exact getElem?_concat_of _ (h.wrote s hs' hset')
    · rw [List.mem_singleton.1 hs', hw]
      exact List.getElem?_concat_length _ _
  stored k e he := by
    simp only [Server.write] at he
    by_cases hk : k = ev.call.key
    · subst hk
      simp only [Function.update_same, Option.some.injEq] at he
      subst he
      exact ⟨ev, by simp, hset, hw, hd⟩
    · rw [Function.update_noteq hk] at he
      let ⟨s, hs', h'⟩ := h.stored k e he
      exact ⟨s, List.mem_append_left _ hs', h'⟩
  rising := List.pairwise_append.2 ⟨h.rising, List.pairwise_singleton _ _,
    fun a ha b hb _ => by rw [List.mem_singleton.1 hb, hw]; have := hs.bounded a ha; omega⟩
  latest := h.latest.quiet hq

/-- **Every step keeps the invariant.** -/
theorem Current.step (h : Current R τ) (hs : SerInv R τ) : ∀ a, Current R (τ.step R a)
  | .expire k => h.shrink (by simp [Ser.step]) fun _ _ => expire_db
  | .call c (.get sv u id) => by
    rw [step_get R (hs.idle c)]
    refine h.noWrite _ rfl (fun _ _ he => he) (fun hset => by simp [SetOk, Call.isSet] at hset) ?_
    intro hg
    simp only [Event.returned, get_result] at hg ⊢
    split at hg
    · exact ⟨_, ‹_›, by simp [*]⟩
    · simp at hg
  | .call c (.del sv u id) => by
    rw [step_del R (hs.idle c)]
    refine h.noWrite _ rfl (fun k e he => ?_) (fun hset => by simp [SetOk, Call.isSet] at hset) ?_
    · by_cases hk : k = msgKey sv u id
      · subst hk; simp at he
      · simpa [hk] using he
    · intro hg
      simp only [Event.returned, del_result] at hg ⊢
      split at hg
      · split at hg
        · simp at hg
        · exact ⟨_, ‹_›, by simp [*]⟩
      · simp at hg
  | .call c (.set sv u id m ttl) => by
    rcases step_set R (hs.idle c) sv u id m ttl with ⟨rs, he, hne, -⟩ | ⟨d, exp, hm, he, hok⟩ <;>
      rw [he]
    · exact h.noWrite _ rfl (fun _ _ he => he) (fun hset => hne hset.2.2) (by simp [Event.returned])
    · exact h.setWrote hs ⟨c, .set sv u id m ttl, [.status "OK"], τ.srv.hist.length + 1⟩ d exp
        ⟨rfl, rfl, hok⟩ rfl (by simp [Call.data, hm]; rfl) (by simp [Event.returned])

theorem Current.run {τ : Ser} (h : Current R τ) (hs : SerInv R τ) (as : List SerAct) :
    Current R (τ.run R as) := by
  induction as generalizing τ with
  | nil => exact h
  | cons a as ih => exact ih (h.step hs a) (hs.step a)

theorem current_run (R : Codec) (as : List SerAct) : Current R (Ser.init.run R as) :=
  Current.init.run SerInv.init as

end Inv

/-! ## Every interleaving -/

/-- **No stale read.** Over every interleaving of any clients' `Set`, `Get` and `Del`
calls, with expiries anywhere: a `Get` or `Del` that returns a message returns what
`msgUnmarshal` makes of the bytes `msgMarshal` gave for the message of a `Set` of the
same key that returned no error before it, and no other `Set` of that key returned no
error between the two. -/
theorem reads_latest (R : Codec) (progs : Nat → List Call) (as : List Act) :
    Latest R ((Sys.init progs).run R as).log := by
  obtain ⟨bs, h⟩ := (Sim.init progs).run R SerInv.init as
  rw [h.log]
  exact (current_run R bs).latest

/-- After any interleaving, the value at a key holds the bytes of the latest `Set` of
the key in the log that returned no error. -/
theorem store_latest (R : Codec) (progs : Nat → List Call) (as : List Act) {k : String} {e : Entry}
    (he : ((Sys.init progs).run R as).srv.db k = some e) :
    ∃ a s b, ((Sys.init progs).run R as).log = a ++ s :: b ∧ SetOk R s k ∧
      s.call.data R = some e.data ∧ ∀ s' ∈ b, ¬SetOk R s' k := by
  obtain ⟨bs, h⟩ := (Sim.init progs).run R SerInv.init as
  rw [h.log]
  exact (current_run R bs).holds (h.db ▸ he)

end UniqushConn.Msgcache
