import Matelib.ServerQuiescence
import Matelib.Turns

/-!
# The loops of the pool in turn

`getNextLoop` keeps an index that goes round. Whatever else the loops do, the connections that were
ever accepted are dealt out to the loops of the pool in turn.
-/

namespace Matelib

namespace TcpServer

open TcpConnection Transition Turns

variable {ι : Type*} [DecidableEq ι] {cfg : Config ι} {s s' u : State ι}

/-- A connection that comes gets the loop whose turn it is. -/
structure Dealt (cfg : Config ι) (s : State ι) : Prop where
  pool : cfg.loops ≠ [] → s.assigned = turns cfg.loops s.conns.length ∧
    s.next = s.conns.length % cfg.loops.length
  base : cfg.loops = [] → ∀ l ∈ s.assigned, l = cfg.baseLoop

omit [DecidableEq ι] in
theorem length_assigned (s : State ι) : s.assigned.length = s.conns.length := List.length_map _

omit [DecidableEq ι] in
theorem Dealt.same (h : Dealt cfg s) (hassigned : s'.assigned = s.assigned)
    (hnext : s'.next = s.next) : Dealt cfg s' := by
  have hlength : s'.conns.length = s.conns.length := by
    rw [← length_assigned, hassigned, length_assigned]
  refine ⟨?_, ?_⟩
  · rw [hassigned, hnext, hlength]
    exact h.pool
  · rw [hassigned]
    exact h.base

omit [DecidableEq ι] in
theorem Dealt.accept (h : Dealt cfg s) {r : ι × ℕ} (hr : getNextLoop cfg s.next = some r)
    (hassigned : s'.assigned = s.assigned ++ [r.1]) (hnext : s'.next = r.2) : Dealt cfg s' := by
  have hlength : s'.conns.length = s.conns.length + 1 := by
    rw [← length_assigned, hassigned, List.length_append, length_assigned]
    rfl
  unfold getNextLoop at hr
  constructor
  · intro hne
    obtain ⟨hturns, hindex⟩ := h.pool hne
    rw [if_neg hne] at hr
    obtain ⟨l, hl, rfl⟩ := Option.map_eq_some_iff.mp hr
    rw [hindex] at hl
    refine ⟨?_, ?_⟩
    · rw [hassigned, hturns, hlength, turns_succ hl]
    · rw [hnext, hindex, hlength, Nat.mod_add_mod]
  · intro hnil l hl
    rw [if_pos hnil, Option.some.injEq] at hr
    rw [hassigned, ← hr] at hl
    rcases List.mem_append.mp hl with hl | hl
    · exact h.base hnil l hl
    · exact List.mem_singleton.mp hl

omit [DecidableEq ι] in
theorem Dealt.leaves (h : Dealt cfg u) {t : Task} {target : ι} {ts : List Task}
    (hleaves : Leaves cfg u s' t target ts) : Dealt cfg s' := by
  rcases hleaves.assigned with ⟨hassigned, hnext⟩ | ⟨r, hr, hassigned, hnext⟩
  · exact h.same hassigned hnext
  · exact h.accept hr hassigned hnext

theorem dealt_step (h : Dealt cfg s) {e : Event ι} (hstep : step cfg s e = some s') :
    Dealt cfg s' := by
  cases e with
  | run l k =>
    obtain ⟨t, rest, target, ts, -, hleaves⟩ := run_leaves hstep
    exact Dealt.leaves (u := s.setLoop l { s.loops l with tasks := rest }) (h.same rfl rfl) hleaves
  | send l c data w => exact h.leaves (send_leaves hstep)
  | shutdown l c => exact h.leaves (shutdown_leaves hstep)
  | free c =>
    obtain ⟨l, hleaves⟩ := free_leaves hstep
    exact h.leaves hleaves
  | _ =>
    cases hstep
    exact h.same rfl rfl

/-- Over any run the `c`-th connection has the loop at `c` modulo the size of the pool, or the base
loop without a pool; and no loop of a pool has got two connections more than another one. -/
theorem connections_dealt {events : List (Event ι)}
    (h : Along (step cfg) (Possible cfg) State.init events) :
    ∃ s, runFrom (step cfg) State.init events = some s ∧
      (∀ (c : ℕ) (x : Connection ι), s.conns[c]? = some x →
        if cfg.loops = [] then x.loop = cfg.baseLoop
        else cfg.loops[c % cfg.loops.length]? = some x.loop) ∧
      (cfg.loops.Nodup → ∀ l ∈ cfg.loops, ∀ l' ∈ cfg.loops,
        s.assigned.count l ≤ s.assigned.count l' + 1) := by
  obtain ⟨s, hrun, -⟩ := run_inv h
  have hinit : Dealt cfg State.init := ⟨fun _ => ⟨rfl, (Nat.zero_mod _).symm⟩, fun _ _ => nofun⟩
  have hdealt : Dealt cfg s :=
    runFrom_invariant (fun _ _ _ h hstep => dealt_step h hstep) hinit hrun
  refine ⟨s, hrun, ?_, ?_⟩
  · intro c x hx
    have hloop : s.assigned[c]? = some x.loop := by
      rw [State.assigned, List.getElem?_map, hx]
      rfl
    split_ifs with hnil
    · exact hdealt.base hnil x.loop (List.mem_of_getElem? hloop)
    · have hlt : c < s.conns.length := (List.getElem?_eq_some_iff.mp hx).1
      rw [(hdealt.pool hnil).1, getElem?_turns hnil hlt] at hloop
      exact hloop
  · intro hnodup l hl l' hl'
    rw [(hdealt.pool (List.ne_nil_of_mem hl)).1]
    exact count_turns_le hnodup hl hl' _

def mainLoop : Fin 3 := ⟨0, by decide⟩

def ioLoop1 : Fin 3 := ⟨1, by decide⟩

def ioLoop2 : Fin 3 := ⟨2, by decide⟩

def poolConfig : Config (Fin 3) where
  baseLoop := mainLoop
  loops := [ioLoop1, ioLoop2]

def accepting (fd : ℕ) : List (Event (Fin 3)) :=
  [.poll mainLoop [.accept], .run mainLoop (sampleKernel fd), .doPendingFunctors mainLoop,
    .iterationEnds mainLoop]

def poolRun : List (Event (Fin 3)) := accepting 7 ++ accepting 8 ++ accepting 9

theorem poolRun_connections_dealt :
    ∃ s, runFrom (step poolConfig) State.init poolRun = some s ∧
      s.assigned = [ioLoop1, ioLoop2, ioLoop1] ∧
      (∀ (c : ℕ) (x : Connection (Fin 3)), s.conns[c]? = some x →
        if poolConfig.loops = [] then x.loop = poolConfig.baseLoop
        else poolConfig.loops[c % poolConfig.loops.length]? = some x.loop) ∧
      (poolConfig.loops.Nodup → ∀ l ∈ poolConfig.loops, ∀ l' ∈ poolConfig.loops,
        s.assigned.count l ≤ s.assigned.count l' + 1) := by
  have hassigned : (runFrom (step poolConfig) State.init poolRun).map State.assigned =
      some [ioLoop1, ioLoop2, ioLoop1] := by
    decide +kernel
  have hpossible : Along (step poolConfig) (Possible poolConfig) State.init poolRun := by
    decide +kernel
  obtain ⟨s, hrun, hdealt⟩ := connections_dealt hpossible
  rw [hrun] at hassigned
  exact ⟨s, hrun, Option.some.inj hassigned, hdealt⟩

end TcpServer

end Matelib
