import Matelib.ServerLifecycle

/-!
# What a task of a server leaves behind

A task ends with other tasks for one thread, which together weigh less than it did. Between two of
its functors a connection waits for one task, and the task before this one has put it into a list.
Both facts hold of each step alone, and are what the work of a whole run is measured with.
-/

namespace Matelib

namespace TcpServer

open TcpConnection Transition

/-- The longest sequence of tasks that can come of one task. -/
def Task.weight : Task → ℕ
  | .handleConnection => 3
  | .handleEvent _ _ => 18
  | .callback _ .closeCallback => 7
  | .callback _ .readCallback => 7
  | .callback _ .errorCallback => 1
  | .callback _ .writeCallback => 1
  | .eventHandled _ => 1
  | .user => 1
  | .connectionCallback _ => 1
  | .messageCallback _ => 1
  | .cleanupCallback _ => 5
  | .connectionEstablished _ => 2
  | .removeConnectionInLoop _ => 4
  | .connectionDestroyed _ => 3
  | .remove _ => 1

def load (ts : List Task) : ℕ := (ts.map Task.weight).sum

@[simp] theorem load_nil : load [] = 0 := rfl

@[simp] theorem load_cons (t : Task) (ts : List Task) : load (t :: ts) = t.weight + load ts := by
  simp only [load, List.map_cons, List.sum_cons]

@[simp] theorem load_append (a b : List Task) : load (a ++ b) = load a + load b := by
  simp only [load, List.map_append, List.sum_append]

theorem Task.weight_pos (t : Task) : 0 < t.weight := by
  cases t with
  | callback _ cb => cases cb <;> exact Nat.zero_lt_succ _
  | _ => exact Nat.zero_lt_succ _

theorem load_dispatch (c fd : ℕ) (revents : Events) :
    load ((Channel.dispatch fd revents).map (Task.callback c) ++ [.eventHandled c]) ≤ 17 := by
  unfold Channel.dispatch
  split_ifs <;> simp [Task.weight]

/-- The connection for which the task is the next step of its life. -/
def Task.token : Task → Option ℕ
  | .connectionEstablished c => some c
  | .cleanupCallback c => some c
  | .removeConnectionInLoop c => some c
  | .connectionDestroyed c => some c
  | .remove c => some c
  | _ => none

variable {ι : Type*}

/-- The task that a connection between two functors waits for, with the loop that has it. -/
def awaits (cfg : Config ι) (c : ℕ) (x : Connection ι) : Option (ι × Task) :=
  match x.stage with
  | .accepted => some (x.loop, .connectionEstablished c)
  | .closing => some (x.loop, .cleanupCallback c)
  | .removing => some (cfg.baseLoop, .removeConnectionInLoop c)
  | .erased => some (x.loop, .connectionDestroyed c)
  | .destroying => some (x.loop, .remove c)
  | .established | .removed | .freed => none

theorem token_of_awaits {cfg : Config ι} {c : ℕ} {x : Connection ι} {p : ι × Task}
    (h : awaits cfg c x = some p) : p.2.token = some c := by
  unfold awaits at h
  cases hst : x.stage <;> simp only [hst] at h <;> cases h <;> rfl

theorem awaits_congr {cfg : Config ι} {c : ℕ} {x x' : Connection ι} (hloop : x'.loop = x.loop)
    (hst : x'.stage = x.stage) : awaits cfg c x' = awaits cfg c x := by
  rw [awaits, awaits, hst, hloop]

variable [DecidableEq ι] {cfg : Config ι} {s s' : State ι} {l target : ι} {t : Task}
  {ts : List Task} {c : ℕ} {x x' : Connection ι}

/-- The step from `s` to `s'` that runs `t` puts `ts` at one end of the list of `target`. -/
structure Puts (s s' : State ι) (t : Task) (target : ι) (ts : List Task) : Prop where
  work : s'.work target = ts ++ s.work target ∨ s'.work target = s.work target ++ ts
  other : ∀ l, l ≠ target → s'.work l = s.work l
  light : load ts < t.weight

/-- What becomes of connection `c`: it goes on to wait for a task that was put, or it is at the same
stage as before, and `t` was not the task it waited for. -/
def Kept (cfg : Config ι) (s : State ι) (t : Task) (target : ι) (ts : List Task) (c : ℕ)
    (x' : Connection ι) : Prop :=
  (∃ x, s.conns[c]? = some x ∧ x'.loop = x.loop ∧ x'.stage = x.stage ∧ t.token ≠ some c) ∨
    ∀ p ∈ awaits cfg c x', p.1 = target ∧ p.2 ∈ ts

def State.assigned (s : State ι) : List ι := s.conns.map Connection.loop

structure Leaves (cfg : Config ι) (s s' : State ι) (t : Task) (target : ι) (ts : List Task) :
    Prop where
  puts : Puts s s' t target ts
  kept : ∀ c x', s'.conns[c]? = some x' → Kept cfg s t target ts c x'
  assigned : s'.assigned = s.assigned ∧ s'.next = s.next ∨
    ∃ r, getNextLoop cfg s.next = some r ∧ s'.assigned = s.assigned ++ [r.1] ∧ s'.next = r.2

omit [DecidableEq ι] in
theorem deref_spec (h : s.deref c = some x) : s.conns[c]? = some x := by
  unfold State.deref at h
  cases hx : s.conns[c]? with
  | none => rw [hx] at h; cases h
  | some y =>
    rw [hx] at h
    simp only at h
    split_ifs at h
    exact h

theorem derefIn_spec (h : s.derefIn l c = some x) : s.conns[c]? = some x ∧ x.loop = l := by
  unfold State.derefIn at h
  cases hx : s.deref c with
  | none => rw [hx] at h; cases h
  | some y =>
    rw [hx] at h
    simp only at h
    split_ifs at h with hl
    cases h
    exact ⟨deref_spec hx, hl⟩

theorem work_push (s : State ι) (l : ι) (ts : List Task) :
    (s.push l ts).work l = ts ++ s.work l := by
  simp only [State.push, State.work, setLoop_self, List.append_assoc]

theorem work_push_of_ne (s : State ι) {l l' : ι} (h : l' ≠ l) (ts : List Task) :
    (s.push l ts).work l' = s.work l' :=
  work_setLoop_of_ne s h _

theorem work_queueInLoop (s : State ι) (l : ι) (t : Task) :
    (s.queueInLoop l t).work l = s.work l ++ [t] := by
  simp only [State.queueInLoop, State.work, setLoop_self, List.append_assoc]

theorem work_queueInLoop_of_ne (s : State ι) {l l' : ι} (h : l' ≠ l) (t : Task) :
    (s.queueInLoop l t).work l' = s.work l' :=
  work_setLoop_of_ne s h _

@[simp] theorem conns_runInLoop (s : State ι) (l target : ι) (t : Task) :
    (s.runInLoop l target t).conns = s.conns := by
  unfold State.runInLoop
  split_ifs <;> rfl

@[simp] theorem next_runInLoop (s : State ι) (l target : ι) (t : Task) :
    (s.runInLoop l target t).next = s.next := by
  unfold State.runInLoop
  split_ifs <;> rfl

theorem Puts.of_push (hwork : s'.work = s.work) (hlight : load ts < t.weight) :
    Puts s (s'.push l ts) t l ts where
  work := .inl (by rw [work_push, hwork])
  other l' hne := by rw [work_push_of_ne _ hne, hwork]
  light := hlight

theorem Puts.of_queueInLoop {u : Task} (hwork : s'.work = s.work) (hlight : u.weight < t.weight) :
    Puts s (s'.queueInLoop target u) t target [u] where
  work := .inr (by rw [work_queueInLoop, hwork])
  other l' hne := by rw [work_queueInLoop_of_ne _ hne, hwork]
  light := by simpa using hlight

theorem Puts.of_runInLoop {u : Task} (hwork : s'.work = s.work) (hlight : u.weight < t.weight) :
    Puts s (s'.runInLoop l target u) t target [u] := by
  unfold State.runInLoop
  split_ifs with heq
  · rw [← heq]
    exact .of_push hwork (by simpa using hlight)
  · exact .of_queueInLoop hwork hlight

omit [DecidableEq ι] in
theorem Puts.nothing (hwork : s'.work = s.work) (t : Task) (target : ι) :
    Puts s s' t target [] where
  work := .inl (by rw [hwork, List.nil_append])
  other l' _ := by rw [hwork]
  light := t.weight_pos

omit [DecidableEq ι] in
theorem Leaves.of_set (hputs : Puts s s' t target ts) (hx : s.conns[c]? = some x)
    (hconns : s'.conns = s.conns.set c x') (hloop : x'.loop = x.loop) (hnext : s'.next = s.next)
    (htoken : ∀ c', t.token = some c' → c' = c) (hkept : Kept cfg s t target ts c x') :
    Leaves cfg s s' t target ts where
  puts := hputs
  kept c' y hy := by
    rw [hconns, getElem?_set_of_some hx] at hy
    split_ifs at hy with heq
    · cases hy
      rw [← heq]
      exact hkept
    · exact .inl ⟨y, hy, rfl, rfl, fun htok => heq (htoken c' htok).symm⟩
  assigned := by
    refine .inl ⟨?_, hnext⟩
    obtain ⟨hlt, rfl⟩ := List.getElem?_eq_some_iff.mp hx
    have hlt' : c < (s.conns.map Connection.loop).length := by rwa [List.length_map]
    have hsame : (s.conns.map Connection.loop)[c] = s.conns[c].loop := List.getElem_map _
    rw [State.assigned, State.assigned, hconns, List.map_set, hloop, ← hsame,
      List.set_getElem_self hlt']

omit [DecidableEq ι] in
theorem Leaves.of_same (hputs : Puts s s' t target ts) (hconns : s'.conns = s.conns)
    (hnext : s'.next = s.next) (htoken : t.token = none) : Leaves cfg s s' t target ts where
  puts := hputs
  kept c x' hx' := .inl ⟨x', hconns ▸ hx', rfl, rfl, by rw [htoken]; exact nofun⟩
  assigned := .inl ⟨by rw [State.assigned, State.assigned, hconns], hnext⟩

omit [DecidableEq ι] in
theorem stage_of_history {life : List Life} {st : Stage} {history : List Life}
    (h : x'.history = history ++ life) (hst : (life.filterMap Life.stage).getLast? = some st) :
    x'.stage = st := by
  rw [Connection.stage, h, stageOf_append, hst]
  rfl

omit [DecidableEq ι] in
theorem kept_of_rest (hst : x'.stage = .established ∨ x'.stage = .removed ∨ x'.stage = .freed) :
    Kept cfg s t target ts c x' := by
  right
  intro p hp
  rw [awaits] at hp
  rcases hst with hst | hst | hst <;> rw [hst] at hp <;> cases hp

omit [DecidableEq ι] in
theorem kept_of_awaits {p : ι × Task} (hp : awaits cfg c x' = some p) (htarget : p.1 = target)
    (hmem : p.2 ∈ ts) : Kept cfg s t target ts c x' := by
  right
  intro q hq
  rw [hp] at hq
  cases hq
  exact ⟨htarget, hmem⟩

theorem settle_leaves {y : Connection ι} {r : TcpConnection × List Effect}
    (hx : s.conns[c]? = some x) (h : settle s l c y r = some s') (hloop : y.loop = x.loop)
    (hlight : load (tasks c r.2) < t.weight) (htoken : ∀ c', t.token = some c' → c' = c)
    (hkept : ∀ x', x'.loop = y.loop → x'.history = y.history ++ callbacks r.2 →
      Kept cfg s t l (tasks c r.2) c x') : Leaves cfg s s' t l (tasks c r.2) := by
  obtain ⟨u, -, rfl⟩ := Option.map_eq_some_iff.mp h
  refine .of_set (Puts.of_push ?_ hlight) hx rfl hloop rfl htoken (hkept _ rfl rfl)
  funext l'
  by_cases hl : l' = l
  · rw [hl, State.work, setLoop_self]
    rfl
  · rw [work_setLoop_of_ne _ hl]
    rfl

theorem settle_quiet {r : TcpConnection × List Effect} (hx : s.conns[c]? = some x)
    (h : settle s l c x r = some s') (htasks : tasks c r.2 = []) (hcallbacks : callbacks r.2 = [])
    (htoken : t.token = none) : Leaves cfg s s' t l [] := by
  have hleaves : Leaves cfg s s' t l (tasks c r.2) := by
    apply settle_leaves hx h rfl
    · rw [htasks]
      exact t.weight_pos
    · rw [htoken]
      exact nofun
    · intro x' hloop hhistory
      rw [hcallbacks, List.append_nil] at hhistory
      refine .inl ⟨x, hx, hloop, ?_, by rw [htoken]; exact nofun⟩
      rw [Connection.stage, Connection.stage, hhistory]
  rwa [htasks] at hleaves

theorem handleConnection_leaves {accepted : Option (ℕ × InetAddress × InetAddress)}
    (h : handleConnection cfg s l accepted = some s') :
    ∃ target ts, Leaves cfg s s' .handleConnection target ts := by
  unfold handleConnection at h
  split_ifs at h
  cases accepted with
  | none =>
    cases h
    exact ⟨l, [], .of_same (.nothing rfl _ _) rfl rfl rfl⟩
  | some a =>
    obtain ⟨⟨ioLoop, next'⟩, hloop, rfl⟩ := Option.map_eq_some_iff.mp h
    have hlight : (Task.connectionEstablished s.conns.length).weight <
        Task.handleConnection.weight := Nat.lt_succ_self 2
    refine ⟨ioLoop, [.connectionEstablished s.conns.length], .of_runInLoop rfl hlight, ?_, ?_⟩
    · intro c' y hy
      simp only [conns_runInLoop] at hy
      rcases Segment.getElem?_concat_eq_some.mp hy with hy | ⟨rfl, rfl⟩
      · exact .inl ⟨y, hy, rfl, rfl, nofun⟩
      · exact kept_of_awaits (p := (ioLoop, .connectionEstablished s.conns.length)) rfl rfl
          (List.mem_singleton_self _)
    · refine .inr ⟨(ioLoop, next'), hloop, ?_, ?_⟩
      · simp only [State.assigned, conns_runInLoop, List.map_append, List.map_singleton]
      · simp only [next_runInLoop]

theorem handleEvent_leaves {revents : Events} (h : handleEvent s l c revents = some s') :
    ∃ ts, Leaves cfg s s' (.handleEvent c revents) l ts := by
  obtain ⟨x, hx, rfl⟩ := Option.map_eq_some_iff.mp h
  obtain ⟨hconn, -⟩ := derefIn_spec hx
  have hsame : (x.add [.event]).stage = x.stage := stageOf_append _ _
  refine ⟨_, .of_set (Puts.of_push rfl (Nat.lt_succ_of_le (load_dispatch c x.fd revents))) hconn rfl
    rfl rfl nofun (.inl ⟨x, hconn, rfl, hsame, nofun⟩)⟩

theorem handleClose_leaves (h : handleClose s l c = some s') (hlight : 6 < t.weight)
    (htoken : t.token = none) : ∃ ts, Leaves cfg s s' t l ts := by
  obtain ⟨x, hx, h⟩ := Option.bind_eq_some_iff.mp h
  obtain ⟨hconn, hl⟩ := derefIn_spec hx
  obtain ⟨r, hr, h⟩ := Option.bind_eq_some_iff.mp h
  unfold TcpConnection.handleClose at hr
  obtain ⟨-, rfl⟩ := of_guard hr
  refine ⟨_, settle_leaves hconn h rfl hlight (by rw [htoken]; exact nofun) ?_⟩
  intro x' hloop hhistory
  rw [Connection.add, List.append_assoc] at hhistory
  have hst : x'.stage = .closing := stage_of_history hhistory rfl
  apply kept_of_awaits (p := (x'.loop, .cleanupCallback c))
  · rw [awaits, hst]
  · exact hloop.trans hl
  · exact List.mem_cons_of_mem _ (List.mem_singleton_self _)

theorem handleRead_leaves {n : ℤ} (h : handleRead s l c n = some s') :
    ∃ ts, Leaves cfg s s' (.callback c .readCallback) l ts := by
  obtain ⟨x, hx, h⟩ := Option.bind_eq_some_iff.mp h
  split_ifs at h
  · cases h
    exact ⟨_, .of_same (.of_push rfl (Nat.one_lt_succ_succ 5)) rfl rfl rfl⟩
  · exact handleClose_leaves h (Nat.lt_succ_self 6) rfl
  · cases h
    exact ⟨[], .of_same (.nothing rfl _ _) rfl rfl rfl⟩

theorem handleWrite_leaves {w : WriteResult} (h : handleWrite s l c w = some s') :
    ∃ ts, Leaves cfg s s' (.callback c .writeCallback) l ts := by
  obtain ⟨x, hx, h⟩ := Option.bind_eq_some_iff.mp h
  obtain ⟨r, hr, h⟩ := Option.bind_eq_some_iff.mp h
  have hnone : tasks c r.2 = [] ∧ callbacks r.2 = [] := by
    unfold TcpConnection.handleWrite at hr
    split_ifs at hr
    · obtain ⟨rest, -, rfl⟩ := Option.map_eq_some_iff.mp hr
      simp only [TcpConnection.shutdownInLoop]
      split_ifs <;> exact ⟨rfl, rfl⟩
    · cases hr
      exact ⟨rfl, rfl⟩
    · cases hr
      exact ⟨rfl, rfl⟩
  exact ⟨[], settle_quiet (derefIn_spec hx).1 h hnone.1 hnone.2 rfl⟩

theorem connectionEstablished_leaves (h : connectionEstablished s l c = some s') :
    ∃ ts, Leaves cfg s s' (.connectionEstablished c) l ts := by
  obtain ⟨x, hx, h⟩ := Option.bind_eq_some_iff.mp h
  refine ⟨_, settle_leaves (derefIn_spec hx).1 h rfl (Nat.lt_succ_self 1)
    (fun c' hc' => (Option.some.inj hc').symm) ?_⟩
  intro x' _ hhistory
  rw [Connection.add, List.append_assoc] at hhistory
  exact kept_of_rest (.inl (stage_of_history hhistory rfl))

theorem removeConnection_leaves (h : removeConnection cfg s l c = some s') :
    ∃ target ts, Leaves cfg s s' (.cleanupCallback c) target ts := by
  obtain ⟨x, hx, rfl⟩ := Option.map_eq_some_iff.mp h
  have hst : (x.add [.cleanup]).stage = .removing := stage_of_history rfl rfl
  refine ⟨_, _, .of_set (.of_runInLoop rfl (Nat.lt_succ_self 4)) (deref_spec hx)
    (conns_runInLoop ..) rfl (next_runInLoop ..) (fun c' hc' => (Option.some.inj hc').symm) ?_⟩
  apply kept_of_awaits (p := (cfg.baseLoop, .removeConnectionInLoop c))
  · rw [awaits, hst]
  · rfl
  · exact List.mem_singleton_self _

theorem removeConnectionInLoop_leaves (h : removeConnectionInLoop cfg s l c = some s') :
    ∃ target ts, Leaves cfg s s' (.removeConnectionInLoop c) target ts := by
  unfold removeConnectionInLoop at h
  split_ifs at h
  obtain ⟨x, hx, rfl⟩ := Option.map_eq_some_iff.mp h
  have hst : (x.add [.erased]).stage = .erased := stage_of_history rfl rfl
  refine ⟨_, _, .of_set (.of_queueInLoop rfl (Nat.lt_succ_self 3)) (deref_spec hx) rfl rfl rfl
    (fun c' hc' => (Option.some.inj hc').symm) ?_⟩
  apply kept_of_awaits (p := (x.loop, .connectionDestroyed c))
  · rw [awaits, hst]
    rfl
  · rfl
  · exact List.mem_singleton_self _

theorem connectionDestroyed_leaves (h : connectionDestroyed s l c = some s') :
    ∃ ts, Leaves cfg s s' (.connectionDestroyed c) l ts := by
  obtain ⟨x, hx, h⟩ := Option.bind_eq_some_iff.mp h
  obtain ⟨hconn, hl⟩ := derefIn_spec hx
  have hr : load (tasks c x.conn.connectionDestroyed.2) < 3 ∧
      .remove c ∈ tasks c x.conn.connectionDestroyed.2 ∧
      (callbacks x.conn.connectionDestroyed.2).filterMap Life.stage = [] := by
    unfold TcpConnection.connectionDestroyed
    split_ifs
    · exact ⟨Nat.lt_succ_self 2, List.mem_cons_of_mem _ (List.mem_singleton_self _), rfl⟩
    · exact ⟨Nat.one_lt_succ_succ 1, List.mem_singleton_self _, rfl⟩
  refine ⟨_, settle_leaves hconn h rfl hr.1 (fun c' hc' => (Option.some.inj hc').symm) ?_⟩
  intro x' hloop hhistory
  rw [Connection.add, List.append_assoc] at hhistory
  have hst : x'.stage = .destroying := by
    apply stage_of_history hhistory
    rw [List.filterMap_append, hr.2.2]
    rfl
  apply kept_of_awaits (p := (x'.loop, .remove c))
  · rw [awaits, hst]
  · exact hloop.trans hl
  · exact hr.2.1

theorem remove_leaves (h : remove s l c = some s') :
    ∃ ts, Leaves cfg s s' (.remove c) l ts := by
  obtain ⟨x, hx, h⟩ := Option.bind_eq_some_iff.mp h
  split_ifs at h
  obtain ⟨u, -, rfl⟩ := Option.map_eq_some_iff.mp h
  refine ⟨[], .of_set (.nothing ?_ _ _) (derefIn_spec hx).1 rfl rfl rfl
    (fun c' hc' => (Option.some.inj hc').symm)
    (kept_of_rest (.inr (.inl (stage_of_history rfl rfl))))⟩
  funext l'
  by_cases hl : l' = l
  · rw [hl, State.work, setLoop_self]
    rfl
  · exact work_setLoop_of_ne _ hl _

theorem runTask_leaves {k : Kernel} (h : runTask cfg s l k t = some s') :
    ∃ target ts, Leaves cfg s s' t target ts := by
  cases t with
  | handleConnection => exact handleConnection_leaves h
  | handleEvent c revents => exact ⟨l, handleEvent_leaves h⟩
  | callback c cb =>
    cases cb with
    | closeCallback => exact ⟨l, handleClose_leaves h (Nat.lt_succ_self 6) rfl⟩
    | errorCallback =>
      obtain ⟨_, _, rfl⟩ := Option.map_eq_some_iff.mp h
      exact ⟨l, [], .of_same (.nothing rfl _ _) rfl rfl rfl⟩
    | readCallback => exact ⟨l, handleRead_leaves h⟩
    | writeCallback => exact ⟨l, handleWrite_leaves h⟩
  | eventHandled c =>
    obtain ⟨_, _, rfl⟩ := Option.map_eq_some_iff.mp h
    exact ⟨l, [], .of_same (.nothing rfl _ _) rfl rfl rfl⟩
  | user | connectionCallback _ | messageCallback _ =>
    cases h
    exact ⟨l, [], .of_same (.nothing rfl _ _) rfl rfl rfl⟩
  | cleanupCallback c => exact removeConnection_leaves h
  | connectionEstablished c => exact ⟨l, connectionEstablished_leaves h⟩
  | removeConnectionInLoop c => exact removeConnectionInLoop_leaves h
  | connectionDestroyed c => exact ⟨l, connectionDestroyed_leaves h⟩
  | remove c => exact ⟨l, remove_leaves h⟩

end TcpServer

end Matelib
