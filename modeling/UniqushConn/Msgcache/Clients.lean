import UniqushConn.Msgcache.Serial

/- Clients of the Redis cache, their commands interleaved.

   Each client makes its calls in order, each on the client's own connection. The
   server runs one command at a time, from any client with a command to send, and a
   value with an expiry may reach it between any two commands. `Del` sends `MULTI`,
   `GET`, `DEL` and `EXEC`; the server queues the two in between, and `EXEC` runs them
   as one step.

   Every such run is a run of `Serial` with the same store and the same log
   (`refines`): the commands before a call's last change only its own connection's
   queue, so the call's whole effect is made by its last command. Hence, over every
   interleaving:
     1. `del_at_most_once` — a value written by a `Set` is returned as a message by at
        most one `Del`, and once a `Del` has returned a key's value, no later `Get` or
        `Del` of that key returns a message until a `Set` of that key returns between;
     2. `calls_isolated` — a `Get` or `Del` returns only what a `Set` of the same key
        wrote, and a call changes the store at its own key only; with `msgKey_inj`,
        identities whose service and username hold no `:` do not share keys. -/
namespace UniqushConn.Msgcache
open UniqushConn.Proto

/-! ## The server, seen from one connection -/

namespace Server
variable {s s' : Server} {c : Nat}

@[simp] theorem apply_txn (cmd : Cmd) : (s.apply cmd).1.txn = s.txn := by
  cases cmd with
  | setex k t d => simp only [apply]; split <;> rfl
  | _ => rfl

@[simp] theorem runQueue_txn : ∀ (s : Server) (q : List Cmd), (s.runQueue q).1.txn = s.txn
  | _, [] => rfl
  | s, cmd :: q => by simp [runQueue, runQueue_txn _ q]

@[simp] theorem expire_txn (k : String) : (s.expire k).txn = s.txn := by
  unfold expire; split <;> (try split) <;> rfl

@[simp] theorem expire_hist (k : String) : (s.expire k).hist = s.hist := by
  unfold expire; split <;> (try split) <;> rfl

@[simp] theorem read_of_db (hdb : s.db = s'.db) (k : String) : s.read k = s'.read k := by
  simp [read, hdb]

/-- A data command sees only the keyspace and the history. -/
theorem apply_congr (hdb : s.db = s'.db) (hh : s.hist = s'.hist) (cmd : Cmd) :
    (s.apply cmd).2 = (s'.apply cmd).2 ∧ (s.apply cmd).1.db = (s'.apply cmd).1.db ∧
      (s.apply cmd).1.hist = (s'.apply cmd).1.hist := by
  cases cmd with
  | setex k t d => simp only [apply]; split <;> simp [write, hdb, hh]
  | _ => simp [apply, write, read, hdb, hh]

theorem expire_congr (hdb : s.db = s'.db) (k : String) : (s.expire k).db = (s'.expire k).db := by
  simp only [expire, hdb]; split <;> (try split) <;> simp [hdb]

end Server

/-! ## The clients -/

/-- A client: the calls it has still to make, and the call in progress with the
commands it has still to send and the replies it has had. -/
structure Client where
  calls : List Call
  cur : Option (Call × List Cmd × List Reply)

/-- The server, the clients, and the calls that have returned, in order. -/
structure Sys where
  srv : Server
  clients : Nat → Client
  log : List Event

/-- Client `c` sends its next command, or a value reaches its expiry. -/
inductive Act where
  | send (c : Nat)
  | expire (k : String)

namespace Sys

/-- Client `c` sends the first of `cmds`, what is left of call `x`, with `xs` to make
after it. After its last command the call returns, with the replies it had. -/
def send (σ : Sys) (c : Nat) (xs : List Call) (x : Call) : List Cmd → List Reply → Sys
  | [], rs => ⟨σ.srv, Function.update σ.clients c ⟨xs, none⟩, σ.log ++ [⟨c, x, rs, σ.srv.hist.length⟩]⟩
  | cmd :: rest, rs =>
    let p := σ.srv.exec c cmd
    if rest = [] then
      ⟨p.1, Function.update σ.clients c ⟨xs, none⟩, σ.log ++ [⟨c, x, rs ++ [p.2], p.1.hist.length⟩]⟩
    else ⟨p.1, Function.update σ.clients c ⟨xs, some (x, rest, rs ++ [p.2])⟩, σ.log⟩

def step (R : Codec) (σ : Sys) : Act → Sys
  | .send c =>
    match σ.clients c with
    | ⟨xs, some (x, rest, rs)⟩ => σ.send c xs x rest rs
    | ⟨x :: xs, none⟩ => σ.send c xs x (x.cmds R) []
    | ⟨[], none⟩ => σ
  | .expire k => { σ with srv := σ.srv.expire k }

def run (R : Codec) (σ : Sys) (as : List Act) : Sys := as.foldl (step R) σ

/-- Every client with its calls still to make, on an empty store. -/
def init (progs : Nat → List Call) : Sys := ⟨Server.empty, fun c => ⟨progs c, none⟩, []⟩

/-- The call client `c` is making or will make next. -/
def next (σ : Sys) (c : Nat) : Option Call :=
  match σ.clients c with
  | ⟨_, some (x, _, _)⟩ => some x
  | ⟨xs, none⟩ => xs.head?

end Sys

/-! ## Connections between calls and inside a `Del` -/

/-- Where a `Del` of key `k` is between its `MULTI` and its `EXEC`: the commands still
to send, the replies had, and the queue on the server. -/
inductive DelStage (k : String) : List Cmd → List Reply → List Cmd → Prop
  | multi : DelStage k [.get k, .del k, .exec] [.status "OK"] []
  | get : DelStage k [.del k, .exec] [.status "OK", .status "QUEUED"] [.get k]
  | del : DelStage k [.exec] [.status "OK", .status "QUEUED", .status "QUEUED"] [.get k, .del k]

/-- A client's connection has no transaction between calls; a call in progress is a
`Del` whose sent commands built the queue. -/
def ConnOk (srv : Server) (c : Nat) : Option (Call × List Cmd × List Reply) → Prop
  | none => srv.txn c = none
  | some (x, rest, rs) => ∃ sv u id q, x = .del sv u id ∧ srv.txn c = some q ∧
      DelStage (msgKey sv u id) rest rs q

/-- The commands a call sends: none, one that is not `MULTI`, or those of `Del`. -/
theorem cmds_cases (R : Codec) (x : Call) :
    x.cmds R = [] ∨ (∃ cmd, x.cmds R = [cmd] ∧ cmd ≠ .multi) ∨
      ∃ sv u id, x = .del sv u id ∧
        x.cmds R = [.multi, .get (msgKey sv u id), .del (msgKey sv u id), .exec] := by
  rcases x with ⟨sv, u, id, m, ttl⟩ | ⟨sv, u, id⟩ | ⟨sv, u, id⟩
  · simp only [Call.cmds]
    split
    · exact .inl rfl
    · split <;> exact .inr (.inl ⟨_, rfl, by simp⟩)
  · exact .inr (.inl ⟨_, rfl, by simp⟩)
  · exact .inr (.inr ⟨sv, u, id, rfl, rfl⟩)

/-! ## Refinement -/

/-- The interleaved system and a serial run agree on the store and the log, and every
connection is as `ConnOk` says. -/
structure Sim (σ : Sys) (τ : Ser) : Prop where
  conn : ∀ c, ConnOk σ.srv c (σ.clients c).cur
  db : σ.srv.db = τ.srv.db
  hist : σ.srv.hist = τ.srv.hist
  log : σ.log = τ.log

theorem ConnOk.of_txn {srv srv' : Server} {c : Nat} (h : srv'.txn c = srv.txn c) :
    ∀ {o}, ConnOk srv c o → ConnOk srv' c o
  | none, ho => by simpa [ConnOk, h] using ho
  | some (_, _, _), ho => by simpa [ConnOk, h] using ho

/-- Client `c` changed its state and its own connection, and no other. -/
theorem conn_update {σ : Sys} {srv : Server} {c : Nat} {cl : Client}
    (h : ∀ c, ConnOk σ.srv c (σ.clients c).cur) (hne : ∀ c', c' ≠ c → srv.txn c' = σ.srv.txn c')
    (hc : ConnOk srv c cl.cur) (c' : Nat) : ConnOk srv c' ((Function.update σ.clients c cl) c').cur := by
  by_cases hc' : c' = c
  · subst hc'; simpa using hc
  · rw [Function.update_noteq hc']; exact (h c').of_txn (hne c' hc')

section Refine
variable (R : Codec) {σ : Sys} {τ : Ser} {c : Nat}

theorem Sim.expire (h : Sim σ τ) (k : String) :
    Sim (σ.step R (.expire k)) (τ.step R (.expire k)) where
  conn c := (h.conn c).of_txn (by simp [Sys.step])
  db := Server.expire_congr h.db k
  hist := by simp [Sys.step, Ser.step, h.hist]
  log := h.log

/-- A command of a `Del` that the server queues: nothing but the queue changes. -/
theorem Sim.queue (h : Sim σ τ) {xs : List Call} {sv u id : String} {rest : List Cmd}
    {rs : List Reply} {q : List Cmd} (hst : DelStage (msgKey sv u id) rest rs q) :
    Sim ⟨{ σ.srv with txn := Function.update σ.srv.txn c (some q) },
      Function.update σ.clients c ⟨xs, some (.del sv u id, rest, rs)⟩, σ.log⟩ τ where
  conn := conn_update h.conn (fun c' hc' => by simp [hc'])
    ⟨sv, u, id, q, rfl, by simp, hst⟩
  db := h.db
  hist := h.hist
  log := h.log

/-- A call returns: its client's connection is idle again. -/
theorem Sim.ret (h : Sim σ τ) {srv : Server} {xs : List Call} {log : List Event} {τ' : Ser}
    (hne : ∀ c', c' ≠ c → srv.txn c' = σ.srv.txn c') (hc : srv.txn c = none)
    (hdb : srv.db = τ'.srv.db) (hh : srv.hist = τ'.srv.hist) (hlog : log = τ'.log) :
    Sim ⟨srv, Function.update σ.clients c ⟨xs, none⟩, log⟩ τ' where
  conn := conn_update h.conn hne hc
  db := hdb
  hist := hh
  log := hlog

/-- A client starts its next call: it sends the call's first command, and a call of
one command or none returns at once, as it does in the serial run. -/
theorem Sim.start (h : Sim σ τ) (hτ : ∀ c, τ.srv.txn c = none) {x : Call} {xs : List Call}
    (hcl : σ.clients c = ⟨x :: xs, none⟩) :
    ∃ as, (as = [] ∨ as = [.call c x]) ∧ Sim (σ.send c xs x (x.cmds R) []) (τ.run R as) := by
  have hidle : σ.srv.txn c = none := by simpa [hcl, ConnOk] using h.conn c
  rcases cmds_cases R x with hx | ⟨cmd, hx, hm⟩ | ⟨sv, u, id, rfl, hx⟩
  · refine ⟨[.call c x], .inr rfl, ?_⟩
    simp only [hx, Ser.run, List.foldl, Ser.step, Server.runCmds]
    exact h.ret (fun _ _ => rfl) hidle (by simp [h.db]) (by simp [h.hist]) (by simp [h.hist, h.log])
  · refine ⟨[.call c x], .inr rfl, ?_⟩
    obtain ⟨hr, hdb, hh⟩ := Server.apply_congr h.db h.hist cmd
    simp only [hx, Sys.send, if_true, Server.exec_of_none hidle hm, Ser.run, List.foldl, Ser.step,
      Server.runCmds_single (hτ c) hm]
    exact h.ret (fun c' hc' => by simp) (by simp [hidle]) (by simp [hdb]) (by simp [hh])
      (by simp [hh, hr, h.log])
  · refine ⟨[], .inl rfl, ?_⟩
    rw [hx]
    simp only [Sys.send, Server.exec_multi hidle]
    exact h.queue .multi

/-- A client in the middle of a `Del` sends its next command: `GET` and `DEL` are
queued, and `EXEC` runs them and returns, as the serial `Del` does. -/
theorem Sim.cont (h : Sim σ τ) (hτ : ∀ c, τ.srv.txn c = none) {x : Call} {xs : List Call}
    {rest : List Cmd} {rs : List Reply} (hcl : σ.clients c = ⟨xs, some (x, rest, rs)⟩) :
    ∃ as, (as = [] ∨ as = [.call c x]) ∧ Sim (σ.send c xs x rest rs) (τ.run R as) := by
  have hconn := h.conn c
  rw [hcl] at hconn
  obtain ⟨sv, u, id, q, rfl, hq, hst⟩ := hconn
  cases hst with
  | multi =>
    refine ⟨[], .inl rfl, ?_⟩
    simp only [Sys.send, Server.exec_queue hq (.get _) (by simp) (by simp) (by simp),
      List.cons_ne_nil, if_false, List.nil_append, List.cons_append]
    exact h.queue .get
  | get =>
    refine ⟨[], .inl rfl, ?_⟩
    simp only [Sys.send, Server.exec_queue hq (.del _) (by simp) (by simp) (by simp),
      List.cons_ne_nil, if_false, List.nil_append, List.cons_append]
    exact h.queue .del
  | del =>
    refine ⟨[.call c (.del sv u id)], .inr rfl, ?_⟩
    simp only [Sys.send, if_true, Server.exec_exec hq, Server.runQueue_get_del]
    have hs := step_del R (hτ c) sv u id
    simp only [Ser.run, List.foldl, hs]
    exact h.ret (fun c' hc' => by simp [Server.close, hc']) (by simp [Server.close])
      (by simp [Server.close, h.db]) (by simp [Server.close, h.hist])
      (by simp [Server.close, Server.read, h.log, h.hist, h.db])

/-- **One step.** A command that does not end a call is no serial step; the last
command of client `c`'s call is the serial step of that call; an expiry is one. -/
theorem Sim.send (h : Sim σ τ) (hτ : ∀ c, τ.srv.txn c = none) (c : Nat) :
    ∃ as, (as = [] ∨ ∃ x, σ.next c = some x ∧ as = [.call c x]) ∧
      Sim (σ.step R (.send c)) (τ.run R as) := by
  rcases hcl : σ.clients c with ⟨xs, _ | ⟨x, rest, rs⟩⟩
  · cases xs with
    | nil => exact ⟨[], .inl rfl, by simpa [Sys.step, hcl] using h⟩
    | cons x xs =>
      obtain ⟨as, has, hs⟩ := h.start R hτ hcl
      exact ⟨as, has.imp_right fun ha => ⟨x, by simp [Sys.next, hcl], ha⟩,
        by simpa [Sys.step, hcl] using hs⟩
  · obtain ⟨as, has, hs⟩ := h.cont R hτ hcl
    exact ⟨as, has.imp_right fun ha => ⟨x, by simp [Sys.next, hcl], ha⟩,
      by simpa [Sys.step, hcl] using hs⟩

theorem Sim.step (h : Sim σ τ) (hτ : ∀ c, τ.srv.txn c = none) :
    ∀ a, ∃ as, Sim (σ.step R a) (τ.run R as)
  | .send c => let ⟨as, _, hs⟩ := h.send R hτ c; ⟨as, hs⟩
  | .expire k => ⟨[.expire k], h.expire R k⟩

theorem Sim.run {σ : Sys} {τ : Ser} (h : Sim σ τ) (hτ : SerInv R τ) (as : List Act) :
    ∃ bs, Sim (σ.run R as) (τ.run R bs) := by
  induction as generalizing σ τ with
  | nil => exact ⟨[], h⟩
  | cons a as ih =>
    obtain ⟨bs, hb⟩ := h.step R hτ.idle a
    obtain ⟨cs, hc⟩ := ih hb (hτ.run bs)
    exact ⟨bs ++ cs, by rw [Ser.run_append]; exact hc⟩

theorem Sim.init (progs : Nat → List Call) : Sim (Sys.init progs) Ser.init where
  conn _ := rfl
  db := rfl
  hist := rfl
  log := rfl

end Refine

/-- **Every interleaving is a serial run.** For all clients' programs and every order
in which their commands and expiries reach the server, some run of whole calls ends
with the same store and the same log. -/
theorem refines (R : Codec) (progs : Nat → List Call) (as : List Act) :
    ∃ bs, ((Sys.init progs).run R as).srv.db = (Ser.init.run R bs).srv.db ∧
      ((Sys.init progs).run R as).srv.hist = (Ser.init.run R bs).srv.hist ∧
      ((Sys.init progs).run R as).log = (Ser.init.run R bs).log :=
  let ⟨bs, h⟩ := (Sim.init progs).run R SerInv.init as
  ⟨bs, h.db, h.hist, h.log⟩

/-! ## Every interleaving -/

/-- **At most once.** Over every interleaving of any clients' `Set`, `Get` and `Del`
calls, with expiries anywhere: the values that `Del`s return as messages are pairwise
distinct writes, and once a `Del` has returned a key's value, a later `Get` or `Del`
of that key returns a message only if a `Set` of that key returned in between. -/
theorem del_at_most_once (R : Codec) (progs : Nat → List Call) (as : List Act) :
    (((Sys.init progs).run R as).log.filterMap (delHit R)).Nodup ∧
      Fresh R ((Sys.init progs).run R as).log := by
  obtain ⟨bs, h⟩ := (Sim.init progs).run R SerInv.init as
  rw [h.log]
  exact ⟨(serInv_run R bs).hits, (serInv_run R bs).fresh⟩

/-- **Calls stay at their keys.** Keys of triples whose service and username hold no
`:` are distinct; over every interleaving, a `Get` or `Del` that returns a message
returns the value an earlier `Set` of the same key wrote, and each command changes
the store at most at the key of the call it belongs to. -/
theorem calls_isolated (R : Codec) (progs : Nat → List Call) :
    (∀ {s u id s' u' id' : String}, ':' ∉ s.data → ':' ∉ u.data → ':' ∉ s'.data →
      ':' ∉ u'.data → msgKey s u id = msgKey s' u' id' → s = s' ∧ u = u' ∧ id = id') ∧
    ∀ as, Source R ((Sys.init progs).run R as).log ∧
      ∀ c k, (((Sys.init progs).run R as).step R (.send c)).srv.db k ≠
          ((Sys.init progs).run R as).srv.db k →
        ∃ x, ((Sys.init progs).run R as).next c = some x ∧ x.key = k := by
  refine ⟨msgKey_inj, fun as => ?_⟩
  obtain ⟨bs, h⟩ := (Sim.init progs).run R SerInv.init as
  have hτ := serInv_run R bs
  refine ⟨h.log ▸ hτ.source, fun c k hk => ?_⟩
  obtain ⟨as', has, hs⟩ := h.send R hτ.idle c
  rcases has with rfl | ⟨x, hx, rfl⟩
  · exact absurd ((congrFun hs.db k).trans (congrFun h.db k).symm) hk
  · refine ⟨x, hx, ?_⟩
    by_contra hne
    exact hk ((congrFun hs.db k).trans
      ((step_call_db R (hτ.idle c) x (Ne.symm hne)).trans (congrFun h.db k).symm))

/-- **Keys of different identities collide.** User "a:b" sets message "c" and user "a"
then gets id "b:c": both name `mcache:s:a:b:c`, and the `Get` returns the message the
other user set. -/
theorem msgKey_collision_read :
    ("s", "a:b", "c") ≠ ("s", "a", "b:c") ∧ msgKey "s" "a:b" "c" = msgKey "s" "a" "b:c" ∧
    ((Sys.init fun c => if c = 0 then [.set "s" "a:b" "c" {} 0] else [.get "s" "a" "b:c"]).run
      byteCodec [.send 0, .send 1]).log.map (Event.returned byteCodec) = [false, true] := by
  have hset : (Call.set "s" "a:b" "c" {} 0).cmds byteCodec = [.set (msgKey "s" "a:b" "c") [1]] := by
    simp only [Call.cmds, seconds_zero, le_refl, if_true]; rfl
  refine ⟨by decide, rfl, ?_⟩
  simp only [Sys.run, List.foldl, Sys.step, Sys.init, if_true, hset]
  rfl

end UniqushConn.Msgcache
