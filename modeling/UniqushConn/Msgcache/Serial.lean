import Mathlib.Data.List.Nodup
import UniqushConn.Msgcache.Redis

/- The cache's calls run one at a time, each as one step on the store.

   This is the abstract model of the cache under concurrent clients: a run is a
   sequence of calls, each made whole on a connection with no transaction open
   (`Ser.step`), and of expiries. The log records each call with the replies it got.
   `Clients` shows that every interleaving of the clients' commands is such a run.

   What is proved of every run from the empty store (`serInv_run`):
     1. at most once: the values that `Del`s returned as messages are pairwise
        distinct writes (`SerInv.hits`);
     2. after a `Del` returned a value from a key, a later `Get` or `Del` of that key
        returns a message only if a `Set` of that key returned between them
        (`SerInv.fresh`);
     3. a `Get` or `Del` that returns a message returns the value of a `Set` of the
        same key made before it (`SerInv.source`).
   Each step is one of four kinds (`step_cases`), and each kind keeps the invariant
   (`SerInv.expire`, `SerInv.read`, `SerInv.setFailed`, `SerInv.setWrote`). -/
namespace UniqushConn.Msgcache
open UniqushConn.Proto

/-! ## Events -/

/-- A call that has returned: the client that made it, the call, the replies to its
commands, and (ghost) the number of writes the store had made when it returned. -/
structure Event where
  client : Nat
  call : Call
  replies : List Reply
  writes : Nat

namespace Call

def isSet : Call → Bool
  | set .. => true
  | _ => false

def isDel : Call → Bool
  | del .. => true
  | _ => false

theorem isSet_of_isDel {x : Call} (h : x.isDel = true) : x.isSet = false := by
  cases x <;> simp_all [isSet, isDel]

/-- `Set` returns no message. -/
@[simp] theorem result_set_fst (R : Codec) (s u id : String) (m : Message) (ttl : Int)
    (rs : List Reply) : ((set s u id m ttl).result R rs).1 = none := by
  simp only [result]; split <;> rfl

end Call

namespace Event

/-- The tag of the value the call read: `GET`'s reply for `Get`, the first reply of
`EXEC`'s array for `Del`. -/
def read (e : Event) : Option Nat :=
  match e.replies.getLast? with
  | some (.bulk _ t) => some t
  | some (.array (.bulk _ t :: _)) => some t
  | _ => none

/-- The call returned a message. -/
def returned (R : Codec) (e : Event) : Bool := (e.call.result R e.replies).1.isSome

end Event

/-- The tag of the value a `Del` returned as a message. -/
def delHit (R : Codec) (e : Event) : Option Nat :=
  if e.call.isDel ∧ e.returned R then e.read else none

/-- `e` is a `Set` of `k` that returned no error. -/
def SetOk (R : Codec) (e : Event) (k : String) : Prop :=
  e.call.isSet ∧ e.call.key = k ∧ (e.call.result R e.replies).2 = none

/-! ## The serial store -/

/-- The store and the calls that have returned, in order. -/
structure Ser where
  srv : Server
  log : List Event

/-- A call made whole by client `c`, or a value reaching its expiry. -/
inductive SerAct where
  | call (c : Nat) (x : Call)
  | expire (k : String)

namespace Ser

def step (R : Codec) (τ : Ser) : SerAct → Ser
  | .call c x =>
    let p := τ.srv.runCmds c (x.cmds R)
    ⟨p.1, τ.log ++ [⟨c, x, p.2, p.1.hist.length⟩]⟩
  | .expire k => ⟨τ.srv.expire k, τ.log⟩

def run (R : Codec) (τ : Ser) (as : List SerAct) : Ser := as.foldl (step R) τ

def init : Ser := ⟨Server.empty, []⟩

theorem run_append (R : Codec) (τ : Ser) (as bs : List SerAct) :
    run R τ (as ++ bs) = run R (run R τ as) bs := List.foldl_append _ _ _ _

end Ser

/-! ## What one step does -/

section Step
variable (R : Codec) {τ : Ser} {c : Nat}

theorem read_cases (s : Server) (k : String) :
    (s.read k = .nil ∧ s.db k = none) ∨ ∃ e, s.read k = .bulk e.data e.tag ∧ s.db k = some e := by
  unfold Server.read
  cases s.db k <;> simp

theorem step_get (ht : τ.srv.txn c = none) (sv u id : String) :
    τ.step R (.call c (.get sv u id)) =
      ⟨τ.srv, τ.log ++ [⟨c, .get sv u id, [τ.srv.read (msgKey sv u id)], τ.srv.hist.length⟩]⟩ := by
  simp [Ser.step, Call.cmds, Server.runCmds_single ht, Server.apply]

theorem step_del (ht : τ.srv.txn c = none) (sv u id : String) :
    τ.step R (.call c (.del sv u id)) =
      ⟨{ τ.srv with db := Function.update τ.srv.db (msgKey sv u id) none },
        τ.log ++ [⟨c, .del sv u id, [.status "OK", .status "QUEUED", .status "QUEUED",
          .array [τ.srv.read (msgKey sv u id),
            .int (if (τ.srv.db (msgKey sv u id)).isSome then 1 else 0)]], τ.srv.hist.length⟩]⟩ := by
  simp [Ser.step, Call.cmds, Server.runCmds_del ht]

/-- `Get` reads the value at its key; a message means there was one. -/
theorem get_event (s : Server) (n : Nat) (sv u id : String) :
    let ev : Event := ⟨c, .get sv u id, [s.read (msgKey sv u id)], n⟩
    ev.read = (s.db ev.call.key).map Entry.tag ∧ (ev.returned R = true → (s.db ev.call.key).isSome) := by
  rcases read_cases s (msgKey sv u id) with ⟨h₁, h₂⟩ | ⟨e, h₁, h₂⟩ <;>
    simp [Event.read, Event.returned, Call.key, Call.result, Call.getResult, doReply, bytes, h₁, h₂]

/-- `Del` reads the value at its key inside `EXEC`; a message means there was one. -/
theorem del_event (s : Server) (n : Nat) (sv u id : String) (i : Int) :
    let ev : Event := ⟨c, .del sv u id, [.status "OK", .status "QUEUED", .status "QUEUED",
      .array [s.read (msgKey sv u id), .int i]], n⟩
    ev.read = (s.db ev.call.key).map Entry.tag ∧ (ev.returned R = true → (s.db ev.call.key).isSome) := by
  rcases read_cases s (msgKey sv u id) with ⟨h₁, h₂⟩ | ⟨e, h₁, h₂⟩ <;>
    simp [Event.read, Event.returned, Call.key, Call.result, Call.delResult, doReply, bytes, values,
      h₁, h₂]

/-- A `Set` writes and returns no error, or fails and leaves the store. -/
theorem step_set (ht : τ.srv.txn c = none) (sv u id : String) (m : Message) (ttl : Int) :
    (∃ rs, τ.step R (.call c (.set sv u id m ttl)) =
        ⟨τ.srv, τ.log ++ [⟨c, .set sv u id m ttl, rs, τ.srv.hist.length⟩]⟩ ∧
      ((Call.set sv u id m ttl).result R rs).2 ≠ none ∧ (rs = [] ∨ ∃ msg, rs = [.err msg])) ∨
    ∃ d exp, R.marshal m = .ok d ∧ τ.step R (.call c (.set sv u id m ttl)) =
        ⟨τ.srv.write (msgKey sv u id) d exp,
          τ.log ++ [⟨c, .set sv u id m ttl, [.status "OK"], τ.srv.hist.length + 1⟩]⟩ ∧
      ((Call.set sv u id m ttl).result R [.status "OK"]).2 = none := by
  rcases hm : R.marshal m with e | d
  · exact .inl ⟨[], by simp [Ser.step, Call.cmds, hm, Server.runCmds], by simp [Call.result, hm],
      .inl rfl⟩
  · have hok : ((Call.set sv u id m ttl).result R [.status "OK"]).2 = none := by
      simp [Call.result, hm, doReply]
    by_cases hz : Duration.seconds ttl ≤ 0
    · exact .inr ⟨d, false, rfl, by simp [Ser.step, Call.cmds, hm, hz, Server.runCmds_single ht,
        Server.apply, Server.write], hok⟩
    · by_cases hs : int64 (Duration.seconds ttl) ≤ 0
      · refine .inl ⟨_, by simp [Ser.step, Call.cmds, hm, hz, hs, Server.runCmds_single ht,
          Server.apply], by simp [Call.result, hm, doReply], .inr ⟨"ERR invalid expire time in SETEX", rfl⟩⟩
      · exact .inr ⟨d, true, rfl, by simp [Ser.step, Call.cmds, hm, hz, hs, Server.runCmds_single ht,
          Server.apply, Server.write], hok⟩

/-- **A step is one of four kinds**: an expiry; a `Get` or `Del`, which reads the value
at its key and (`Del`) removes it; a `Set` that fails and changes nothing; a `Set`
that writes. -/
theorem step_cases (hidle : ∀ c, τ.srv.txn c = none) (a : SerAct) :
    (∃ k, τ.step R a = ⟨τ.srv.expire k, τ.log⟩) ∨
    (∃ ev, τ.step R a = ⟨{ τ.srv with db :=
          if ev.call.isDel then Function.update τ.srv.db ev.call.key none else τ.srv.db },
        τ.log ++ [ev]⟩ ∧
      ev.call.isSet = false ∧ ev.writes = τ.srv.hist.length ∧
      ev.read = (τ.srv.db ev.call.key).map Entry.tag ∧
      (ev.returned R = true → (τ.srv.db ev.call.key).isSome)) ∨
    (∃ ev, τ.step R a = ⟨τ.srv, τ.log ++ [ev]⟩ ∧ ev.call.isDel = false ∧
      ev.writes = τ.srv.hist.length ∧ ev.read = none ∧ ev.returned R = false) ∨
    (∃ ev d exp, τ.step R a = ⟨τ.srv.write ev.call.key d exp, τ.log ++ [ev]⟩ ∧
      SetOk R ev ev.call.key ∧ ev.writes = τ.srv.hist.length + 1 ∧ ev.read = none ∧
      ev.returned R = false) := by
  rcases a with ⟨c, ⟨sv, u, id, m, ttl⟩ | ⟨sv, u, id⟩ | ⟨sv, u, id⟩⟩ | k
  · rcases step_set R (hidle c) sv u id m ttl with ⟨rs, h, -, hrs⟩ | ⟨d, exp, -, h, hok⟩
    · refine .inr (.inr (.inl ⟨⟨c, _, rs, _⟩, h, rfl, rfl, ?_, by simp [Event.returned]⟩))
      rcases hrs with rfl | ⟨msg, rfl⟩ <;> rfl
    · exact .inr (.inr (.inr ⟨⟨c, .set sv u id m ttl, [.status "OK"], τ.srv.hist.length + 1⟩,
        d, exp, h, ⟨rfl, rfl, hok⟩, rfl, rfl, by simp [Event.returned]⟩))
  · exact .inr (.inl ⟨⟨c, .get sv u id, _, _⟩, step_get R (hidle c) sv u id, rfl, rfl,
      get_event R τ.srv _ sv u id⟩)
  · exact .inr (.inl ⟨⟨c, .del sv u id, _, _⟩, step_del R (hidle c) sv u id, rfl, rfl,
      del_event R τ.srv _ sv u id _⟩)
  · exact .inl ⟨k, rfl⟩

/-- A call changes the store at its own key only. -/
theorem step_call_db (ht : τ.srv.txn c = none) (x : Call) {k : String} (hk : k ≠ x.key) :
    (τ.step R (.call c x)).srv.db k = τ.srv.db k := by
  rcases x with ⟨sv, u, id, m, ttl⟩ | ⟨sv, u, id⟩ | ⟨sv, u, id⟩
  · rcases step_set R ht sv u id m ttl with ⟨rs, h, -⟩ | ⟨d, exp, -, h, -⟩ <;> rw [h]
    simp only [Server.write]
    exact Function.update_noteq hk _ _
  · rw [step_get R ht]
  · rw [step_del R ht]
    exact Function.update_noteq hk _ _

end Step

/-! ## Properties of a log -/

/-- After a `Del` returned a value from a key, a later `Get` or `Del` of that key
returns a message only if a `Set` of that key returned between them. -/
def Fresh (R : Codec) (log : List Event) : Prop :=
  ∀ l₁ d l₂ g l₃, log = l₁ ++ d :: l₂ ++ g :: l₃ → (delHit R d).isSome →
    g.call.key = d.call.key → g.returned R → ∃ s ∈ l₂, SetOk R s d.call.key

/-- A call that returned a message returned the value of a `Set` of its key before it:
the write that `Set` made is the one the call read. -/
def Source (R : Codec) (log : List Event) : Prop :=
  ∀ l₁ g l₂, log = l₁ ++ g :: l₂ → g.returned R →
    ∃ s ∈ l₁, SetOk R s g.call.key ∧ g.read = some (s.writes - 1)

theorem delHit_some {R : Codec} {d : Event} {t : Nat} (h : delHit R d = some t) :
    d.call.isDel ∧ d.read = some t := by
  unfold delHit at h
  split at h
  · exact ⟨(‹_ ∧ _›).1, h⟩
  · cases h

theorem delHit_isSome {R : Codec} {d : Event} (h : (delHit R d).isSome) : d.call.isDel := by
  obtain ⟨t, ht⟩ := Option.isSome_iff_exists.1 h
  exact (delHit_some ht).1

theorem delHit_quiet {R : Codec} {e : Event} (h : e.returned R = false) : delHit R e = none := by
  simp [delHit, h]

/-- Splitting a log that ends in `ev`: the last part holds `ev`, or the split point is
`ev` itself. -/
theorem split_concat {α : Type} {l log l₃ : List α} {g ev : α} (h : l ++ g :: l₃ = log ++ [ev]) :
    (l = log ∧ g = ev ∧ l₃ = []) ∨ ∃ l₃', l₃ = l₃' ++ [ev] ∧ log = l ++ g :: l₃' := by
  rcases l₃.eq_nil_or_concat with rfl | ⟨L, b, rfl⟩
  · obtain ⟨h₁, h₂⟩ := List.append_inj' h rfl
    exact .inl ⟨h₁, by simpa using h₂, rfl⟩
  · have h' : (l ++ g :: L) ++ [b] = log ++ [ev] := by simpa using h
    obtain ⟨h₁, h₂⟩ := List.append_inj' h' rfl
    obtain rfl : b = ev := by simpa using h₂
    exact .inr ⟨L, by simp, h₁.symm⟩

section Append
variable {R : Codec} {log : List Event} {ev : Event}

theorem Fresh.append (h : Fresh R log)
    (hev : ∀ l₁ d l₂, log = l₁ ++ d :: l₂ → (delHit R d).isSome → ev.call.key = d.call.key →
      ev.returned R → ∃ s ∈ l₂, SetOk R s d.call.key) :
    Fresh R (log ++ [ev]) := by
  intro l₁ d l₂ g l₃ hl hd hk hg
  rcases split_concat hl.symm with ⟨hlog, rfl, -⟩ | ⟨l₃', -, hl⟩
  · exact hev l₁ d l₂ hlog.symm hd hk hg
  · exact h l₁ d l₂ g l₃' hl hd hk hg

theorem Source.append (h : Source R log)
    (hev : ev.returned R → ∃ s ∈ log, SetOk R s ev.call.key ∧ ev.read = some (s.writes - 1)) :
    Source R (log ++ [ev]) := by
  intro l₁ g l₂ hl hg
  rcases split_concat hl.symm with ⟨rfl, rfl, -⟩ | ⟨l₂', -, hl⟩
  · exact hev hg
  · exact h l₁ g l₂' hl hg

/-- An event that returned no message adds nothing to either property. -/
theorem Fresh.quiet (h : Fresh R log) (hq : ev.returned R = false) : Fresh R (log ++ [ev]) :=
  h.append fun _ _ _ _ _ _ hg => absurd hg (by simp [hq])

theorem Source.quiet (h : Source R log) (hq : ev.returned R = false) : Source R (log ++ [ev]) :=
  h.append fun hg => absurd hg (by simp [hq])

theorem hits_append (h : (log.filterMap (delHit R)).Nodup)
    (hev : ∀ t, delHit R ev = some t → ∀ d ∈ log, delHit R d ≠ some t) :
    ((log ++ [ev]).filterMap (delHit R)).Nodup := by
  rw [List.filterMap_append]
  cases he : delHit R ev with
  | none => simpa [he] using h
  | some t =>
    simp only [List.filterMap_cons, he, List.filterMap_nil]
    exact h.append (List.nodup_singleton t) (List.disjoint_singleton.2 fun ht => by
      obtain ⟨d, hd, hdt⟩ := List.mem_filterMap.1 ht
      exact hev t he d hd hdt)

theorem sorted_append (h : log.Pairwise fun a b => a.writes ≤ b.writes)
    (hev : ∀ e ∈ log, e.writes ≤ ev.writes) :
    (log ++ [ev]).Pairwise fun a b => a.writes ≤ b.writes :=
  List.pairwise_append.2 ⟨h, List.pairwise_singleton _ _, fun a ha b hb => by
    rw [List.mem_singleton.1 hb]; exact hev a ha⟩

end Append

/-! ## The invariant -/

/-- What holds of the store and the log after every serial run. -/
structure SerInv (R : Codec) (τ : Ser) : Prop where
  /-- No connection has a transaction open between calls. -/
  idle : ∀ c, τ.srv.txn c = none
  /-- A stored value was written at its key. -/
  written : ∀ k e, τ.srv.db k = some e → τ.srv.hist[e.tag]? = some k
  /-- Every write was made by a `Set` that returned no error. -/
  logged : ∀ i k, τ.srv.hist[i]? = some k → ∃ s ∈ τ.log, SetOk R s k ∧ s.writes = i + 1
  sorted : τ.log.Pairwise fun a b => a.writes ≤ b.writes
  bounded : ∀ e ∈ τ.log, e.writes ≤ τ.srv.hist.length
  /-- A call read a write of its key, made before it returned. -/
  reads : ∀ e ∈ τ.log, ∀ t, e.read = some t → τ.srv.hist[t]? = some e.call.key ∧ t < e.writes
  /-- After a `Del` returned a value, its key holds only later writes. -/
  gone : ∀ d ∈ τ.log, (delHit R d).isSome → ∀ e, τ.srv.db d.call.key = some e → d.writes ≤ e.tag
  hits : (τ.log.filterMap (delHit R)).Nodup
  fresh : Fresh R τ.log
  source : Source R τ.log

section Inv
variable {R : Codec} {τ : Ser}

theorem lt_of_getElem? {l : List String} {i : Nat} {k : String} (h : l[i]? = some k) :
    i < l.length :=
  (List.getElem?_eq_some_iff.1 h).1

theorem getElem?_concat_of {l : List String} {i : Nat} {k : String} (a : String)
    (h : l[i]? = some k) : (l ++ [a])[i]? = some k := by
  rw [List.getElem?_append_left (lt_of_getElem? h), h]

theorem SerInv.init : SerInv R Ser.init where
  idle _ := rfl
  written _ _ h := by cases h
  logged _ _ h := by cases h
  sorted := List.Pairwise.nil
  bounded _ h := by cases h
  reads _ h := by cases h
  gone _ h := by cases h
  hits := List.nodup_nil
  fresh _ _ _ _ _ h := by simp [Ser.init] at h
  source _ _ _ h := by simp [Ser.init] at h

/-- Appending an event to the log keeps every write logged. -/
theorem SerInv.logged_concat (h : SerInv R τ) (ev : Event) {i : Nat} {k : String}
    (hi : τ.srv.hist[i]? = some k) : ∃ s ∈ τ.log ++ [ev], SetOk R s k ∧ s.writes = i + 1 :=
  let ⟨s, hs, h'⟩ := h.logged i k hi
  ⟨s, List.mem_append_left _ hs, h'⟩

/-- A step that only removes values and leaves the log. -/
theorem SerInv.shrink (h : SerInv R τ) {srv : Server} (htxn : srv.txn = τ.srv.txn)
    (hhist : srv.hist = τ.srv.hist) (hdb : ∀ k e, srv.db k = some e → τ.srv.db k = some e) :
    SerInv R ⟨srv, τ.log⟩ where
  idle c := htxn ▸ h.idle c
  written k e he := hhist ▸ h.written k e (hdb k e he)
  logged i k hi := h.logged i k (hhist ▸ hi)
  sorted := h.sorted
  bounded e he := hhist ▸ h.bounded e he
  reads e he t ht := hhist ▸ h.reads e he t ht
  gone d hd hs e he := h.gone d hd hs e (hdb _ e he)
  hits := h.hits
  fresh := h.fresh
  source := h.source

theorem expire_db {s : Server} {k k' : String} {e : Entry} (h : (s.expire k).db k' = some e) :
    s.db k' = some e := by
  unfold Server.expire at h
  split at h
  · split at h
    · by_cases hk : k' = k
      · subst hk; simp at h
      · simpa [hk] using h
    · exact h
  · exact h

theorem SerInv.expire (h : SerInv R τ) (k : String) : SerInv R ⟨τ.srv.expire k, τ.log⟩ :=
  h.shrink (by unfold Server.expire; split <;> (try split) <;> rfl)
    (by unfold Server.expire; split <;> (try split) <;> rfl) fun _ _ => expire_db

/-- A `Get` or `Del` keeps the invariant. -/
theorem SerInv.read (h : SerInv R τ) (ev : Event)
    (hw : ev.writes = τ.srv.hist.length) (hr : ev.read = (τ.srv.db ev.call.key).map Entry.tag)
    (hret : ev.returned R = true → (τ.srv.db ev.call.key).isSome) :
    SerInv R ⟨{ τ.srv with db :=
      if ev.call.isDel then Function.update τ.srv.db ev.call.key none else τ.srv.db },
      τ.log ++ [ev]⟩ := by
  have hdb : ∀ k e, (if ev.call.isDel then Function.update τ.srv.db ev.call.key none
      else τ.srv.db) k = some e → τ.srv.db k = some e := by
    intro k e he
    split at he
    · by_cases hk : k = ev.call.key
      · subst hk; simp at he
      · simpa [hk] using he
    · exact he
  have hval : ∀ t, ev.read = some t → ∃ e, τ.srv.db ev.call.key = some e ∧ e.tag = t :=
    fun t ht => Option.map_eq_some'.1 (hr ▸ ht)
  have hsrc : ev.returned R → ∃ e, τ.srv.db ev.call.key = some e ∧
      ∃ s ∈ τ.log, SetOk R s ev.call.key ∧ s.writes = e.tag + 1 := fun hg => by
    obtain ⟨e, he⟩ := Option.isSome_iff_exists.1 (hret hg)
    exact ⟨e, he, h.logged e.tag _ (h.written _ _ he)⟩
  refine ⟨h.idle, fun k e he => h.written k e (hdb k e he), fun _ _ hi => h.logged_concat ev hi,
    sorted_append h.sorted fun e he => hw ▸ h.bounded e he,
    List.forall_mem_append.2 ⟨h.bounded, List.forall_mem_singleton.2 hw.le⟩,
    List.forall_mem_append.2 ⟨h.reads, List.forall_mem_singleton.2 fun t ht => ?_⟩,
    List.forall_mem_append.2 ⟨fun d hd hs e he => h.gone d hd hs e (hdb _ e he),
      List.forall_mem_singleton.2 fun hs e he => by simp [delHit_isSome hs] at he⟩,
    hits_append h.hits fun t ht d hd hdt => ?_,
    h.fresh.append fun l₁ d l₂ hlog hd hk hg => ?_, h.source.append fun hg => ?_⟩
  · obtain ⟨x, hx, rfl⟩ := hval t ht
    have hk := h.written _ _ hx
    exact ⟨hk, hw ▸ lt_of_getElem? hk⟩
  · -- a value a `Del` returned before is gone from its key
    obtain ⟨x, hx, rfl⟩ := hval t (delHit_some ht).2
    obtain ⟨hk, hlt⟩ := h.reads d hd _ (delHit_some hdt).2
    have hkey : d.call.key = ev.call.key := Option.some.inj (hk.symm.trans (h.written _ _ hx))
    have := h.gone d hd (by simp [hdt]) x (hkey ▸ hx)
    omega
  · -- the value read was written after `d` returned, by a `Set` between them
    obtain ⟨x, hx, s, hs, hset, hsw⟩ := hsrc hg
    have hle := h.gone d (hlog ▸ by simp) hd x (hk ▸ hx)
    refine ⟨s, ?_, hk ▸ hset⟩
    rw [hlog] at hs
    rcases List.mem_append.1 hs with hs | hs
    · have := (List.pairwise_append.1 (hlog ▸ h.sorted)).2.2 s hs d (List.mem_cons_self _ _)
      omega
    · rcases List.mem_cons.1 hs with rfl | hs
      · simp [Call.isSet_of_isDel (delHit_isSome hd), SetOk] at hset
      · exact hs
  · obtain ⟨x, hx, s, hs, hset, hsw⟩ := hsrc hg
    exact ⟨s, hs, hset, by rw [hr, hx, hsw]; rfl⟩

/-- A `Set` that fails keeps the invariant. -/
theorem SerInv.setFailed (h : SerInv R τ) (ev : Event) (hw : ev.writes = τ.srv.hist.length)
    (hr : ev.read = none) (hq : ev.returned R = false) : SerInv R ⟨τ.srv, τ.log ++ [ev]⟩ :=
  ⟨h.idle, h.written, fun _ _ hi => h.logged_concat ev hi,
    sorted_append h.sorted fun e he => hw ▸ h.bounded e he,
    List.forall_mem_append.2 ⟨h.bounded, List.forall_mem_singleton.2 hw.le⟩,
    List.forall_mem_append.2 ⟨h.reads, List.forall_mem_singleton.2 fun t ht => by simp [hr] at ht⟩,
    List.forall_mem_append.2 ⟨h.gone, List.forall_mem_singleton.2 fun hs => by
      simp [delHit_quiet hq] at hs⟩,
    hits_append h.hits fun t ht => by simp [delHit_quiet hq] at ht, h.fresh.quiet hq,
    h.source.quiet hq⟩

/-- A `Set` that writes keeps the invariant. -/
theorem SerInv.setWrote (h : SerInv R τ) (ev : Event) (d : List UInt8) (exp : Bool)
    (hset : SetOk R ev ev.call.key) (hw : ev.writes = τ.srv.hist.length + 1)
    (hr : ev.read = none) (hq : ev.returned R = false) :
    SerInv R ⟨τ.srv.write ev.call.key d exp, τ.log ++ [ev]⟩ := by
  have hnew : (τ.srv.hist ++ [ev.call.key])[τ.srv.hist.length]? = some ev.call.key :=
    List.getElem?_concat_length _ _
  refine ⟨h.idle, fun k e he => ?_, fun i k hi => ?_,
    sorted_append h.sorted fun e he => by have := h.bounded e he; omega,
    List.forall_mem_append.2 ⟨fun e he => ?_, List.forall_mem_singleton.2 (by simp [Server.write, hw])⟩,
    List.forall_mem_append.2 ⟨fun e he t ht => ?_, List.forall_mem_singleton.2 fun t ht => by
      simp [hr] at ht⟩,
    List.forall_mem_append.2 ⟨fun d' hd hs e he => ?_, List.forall_mem_singleton.2 fun hs => by
      simp [delHit_quiet hq] at hs⟩,
    hits_append h.hits fun t ht => by simp [delHit_quiet hq] at ht, h.fresh.quiet hq,
    h.source.quiet hq⟩
  · simp only [Server.write] at he ⊢
    by_cases hk : k = ev.call.key
    · subst hk; simp only [Function.update_same, Option.some.injEq] at he; subst he; exact hnew
    · rw [Function.update_noteq hk] at he
      exact getElem?_concat_of _ (h.written k e he)
  · simp only [Server.write, List.getElem?_append] at hi
    split at hi
    · exact h.logged_concat ev hi
    · obtain ⟨rfl, rfl⟩ : i = τ.srv.hist.length ∧ ev.call.key = k := by
        rcases hn : i - τ.srv.hist.length with _ | n <;> rw [hn] at hi <;> simp at hi
        exact ⟨by omega, hi⟩
      exact ⟨ev, by simp, hset, hw⟩
  · have := h.bounded e he
    simp only [Server.write, List.length_append]
    omega
  · obtain ⟨hk, hlt⟩ := h.reads e he t ht
    exact ⟨getElem?_concat_of _ hk, hlt⟩
  · simp only [Server.write] at he
    by_cases hk : d'.call.key = ev.call.key
    · rw [hk, Function.update_same] at he
      cases he
      exact h.bounded d' hd
    · rw [Function.update_noteq hk] at he
      exact h.gone d' hd hs e he

/-- **Every step keeps the invariant.** -/
theorem SerInv.step (h : SerInv R τ) (a : SerAct) : SerInv R (τ.step R a) := by
  rcases step_cases R h.idle a with ⟨k, he⟩ | ⟨ev, he, -, hw, hr, hret⟩ | ⟨ev, he, -, hw, hr, hq⟩ |
      ⟨ev, d, exp, he, hset, hw, hr, hq⟩ <;> rw [he]
  · exact h.expire k
  · exact h.read ev hw hr hret
  · exact h.setFailed ev hw hr hq
  · exact h.setWrote ev d exp hset hw hr hq

theorem SerInv.run {τ : Ser} (h : SerInv R τ) (as : List SerAct) : SerInv R (τ.run R as) := by
  induction as generalizing τ with
  | nil => exact h
  | cons a as ih => exact ih (h.step a)

theorem serInv_run (R : Codec) (as : List SerAct) : SerInv R (Ser.init.run R as) :=
  SerInv.init.run as

end Inv

end UniqushConn.Msgcache
