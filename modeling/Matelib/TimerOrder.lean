import Matelib.TimerBatch

/-!
# The order in which timers run

`timers_` is ordered by the times of its entries, and a batch is the part of it that is due. So a
timer is not overtaken by one that is registered for a later time, in the same batch or in any
other: until it has run or has been cancelled, the later one does not run.
-/

namespace Matelib

namespace TimerRuns

open TimerQueue Transition

namespace Chronicle

variable {c d : Chronicle} {i j : ℕ} {ri rj : Record} {e : Event}

/-- The callbacks that are still to run stand in the order of the set. -/
def Sorted (c : Chronicle) : Prop :=
  ∀ f, c.state.frame = some f → f.remaining.Pairwise (· < ·)

theorem sorted_init : Sorted init := by
  rintro f ⟨⟩

theorem Kept.sorted_handleRead (h : c.Kept) {now : ℤ} {fired : Bool}
    (hstep : c.step (.handleRead now fired) = some d) : d.Sorted := by
  obtain ⟨expired, rest, hsplit, -, -, hsorted⟩ :=
    getExpired_spec (fun e he => h.owned.bound _ (h.owned.mem_heap he)) now
  simp only [Chronicle.step, perform, beginExpired, hsplit, Option.map_some,
    Option.some.injEq] at hstep
  subst hstep
  rintro f ⟨⟩
  exact hsorted

theorem Sorted.step (hs : c.Sorted) (h : c.Kept) (he : c.Allowed e) (hstep : c.step e = some d) :
    d.Sorted := by
  obtain ⟨t, rfl, hmove, -⟩ := h.eq_of_step he hstep
  cases hmove with
  | handleRead => exact h.sorted_handleRead hstep
  | @runTimer f entry rest hf hremaining =>
    have hsorted := hs f hf
    rw [hremaining, List.pairwise_cons] at hsorted
    rintro f' ⟨⟩
    exact hsorted.2
  | endRead => rintro f ⟨⟩
  | _ => exact hs

/-- Both timers are to run, and the later of them not before the earlier. -/
def BothWait (ri rj : Record) (c : Chronicle) : Prop :=
  (ri.timerId ∈ c.state.queue.timers ∧ rj.timerId ∈ c.state.queue.timers) ∨
    ∃ f, c.state.frame = some f ∧ ri.timerId ∈ f.remaining ∧
      (rj.timerId ∈ f.remaining ∨ rj.timerId ∈ c.state.queue.timers)

/-- Neither has run since the times `ti` and `tj`, and the later one still waits for the earlier, or
has been cancelled. -/
structure Waiting (i j : ℕ) (ri rj : Record) (ti tj : List ℤ) (c : Chronicle) : Prop where
  earlier : c.ledger.times i = ti
  later : c.ledger.times j = tj
  wait : j ∈ c.ledger.deleted ∨ BothWait ri rj c

theorem Waiting.of_times {ti tj : List ℤ} (hw : c.Waiting i j ri rj ti tj)
    (htimes : ∀ k, d.ledger.times k = c.ledger.times k)
    (hwait : j ∈ d.ledger.deleted ∨ BothWait ri rj d) : d.Waiting i j ri rj ti tj where
  earlier := (htimes i).trans hw.earlier
  later := (htimes j).trans hw.later
  wait := hwait

theorem Kept.deleted_or_mem_erase (hd : d.Kept) (hr : d.ledger.records[i]? = some ri)
    {timerId : Entry} {timers : TimerSet} {heap : Heap}
    (hheap : d.state.heap = heap.erase timerId.timer) (hmem : ri.timerId ∈ timers) :
    i ∈ d.ledger.deleted ∨ ri.timerId ∈ timers.erase timerId := by
  by_cases heq : ri.timerId = timerId
  · left
    apply hd.deleted_of_dead hr
    rw [hheap, ← heq]
    exact fun hlive => (OrderedMap.mem_erase.mp hlive).1 rfl
  · exact .inr (OrderedMap.mem_erase.mpr ⟨heq, hmem⟩)

theorem Kept.times_grow (h : c.Kept) (he : c.Allowed e) (hstep : c.step e = some d) (i : ℕ) :
    d.ledger.times i = c.ledger.times i ∨
      (c.ledger.times i).length < (d.ledger.times i).length := by
  obtain ⟨t, hd, hmove, -⟩ := h.eq_of_step he hstep
  cases hmove with
  | runTimer hf hremaining =>
    obtain ⟨k, rk, x, -, -, -, -, hruns⟩ := h.runner_step he hstep hf hremaining
    rw [Ledger.times_concat hruns]
    split_ifs
    · right
      rw [List.length_append]
      exact Nat.lt_succ_self _
    · exact .inl rfl
  | _ =>
    subst hd
    exact .inl rfl

theorem Waiting.runTimer {ti tj : List ℤ} (hw : c.Waiting i j ri rj ti tj) (h : c.Kept)
    (hs : c.Sorted) (hi : c.ledger.Lives i ri) (hj : c.ledger.Lives j rj)
    (hboth : BothWait ri rj c) (hlt : ri.timerId < rj.timerId) {f : Frame}
    (hf : c.state.frame = some f) {entry : Entry} {rest : List Entry}
    (hremaining : f.remaining = entry :: rest)
    (hframe : d.state.frame = some { f with remaining := rest })
    (htimers : d.state.queue.timers = c.state.queue.timers) {k : ℕ} {rk : Record}
    (hk : c.ledger.Lives k rk) (hentry : rk.timerId = entry)
    (hruns : d.ledger.runs = c.ledger.runs ++ [(k, f.now)]) (hki : k ≠ i) :
    d.Waiting i j ri rj ti tj := by
  have htimes := Ledger.times_concat hruns
  have hfirst : entry ∈ f.expired :=
    (h.owned.frame f hf).remaining_sub (hremaining ▸ List.mem_cons_self)
  have hrest : ∀ {l r}, c.ledger.Lives l r → k ≠ l → r.timerId ∈ f.remaining →
      r.timerId ∈ rest := by
    intro l r hl hkl hmem
    rw [hremaining, List.mem_cons] at hmem
    refine hmem.resolve_left ?_
    intro heq
    exact hkl (lives_unique hk hl (congrArg Entry.timer (hentry.trans heq.symm))).1
  have hkj : k ≠ j := by
    rintro rfl
    cases hk.record.symm.trans hj.record
    rcases hboth with ⟨-, hjq⟩ | ⟨f', hf', hif, -⟩
    · exact (h.owned.frame f hf).apart entry hfirst _ hjq (congrArg Entry.timer hentry)
    · cases hf.symm.trans hf'
      have hsorted := hs f hf
      rw [hremaining, List.pairwise_cons] at hsorted
      have hafter := hsorted.1 _ (hrest hi hki hif)
      rw [← hentry] at hafter
      exact lt_asymm hlt hafter
  refine ⟨?_, ?_, .inr ?_⟩
  · rw [htimes, if_neg hki, hw.earlier]
  · rw [htimes, if_neg hkj, hw.later]
  · rcases hboth with ⟨hiq, hjq⟩ | ⟨f', hf', hif, hjf⟩
    · left
      rw [htimers]
      exact ⟨hiq, hjq⟩
    · cases hf.symm.trans hf'
      refine .inr ⟨_, hframe, hrest hi hki hif, ?_⟩
      rw [htimers]
      exact hjf.imp_left (hrest hj hkj)

theorem Waiting.step {ti tj : List ℤ} (hw : c.Waiting i j ri rj ti tj) (h : c.Kept)
    (hs : c.Sorted) (hi : c.ledger.Lives i ri) (hj : c.ledger.records[j]? = some rj)
    (hlt : ri.timerId < rj.timerId) (he : c.Allowed e) (hstep : c.step e = some d)
    (hstays : i ∉ d.ledger.deleted) :
    ti.length < (d.ledger.times i).length ∨ d.Waiting i j ri rj ti tj := by
  by_cases hdeleted : j ∈ c.ledger.deleted
  · have hlater := (h.times_step he hstep hdeleted).trans hw.later
    have hgone := h.deleted_step he hstep hdeleted
    rcases h.times_grow he hstep i with hsame | hmore
    · exact .inr ⟨hsame.trans hw.earlier, hlater, .inl hgone⟩
    · exact .inl (hw.earlier ▸ hmore)
  have hlives := h.owner j rj hj hdeleted
  have hboth := hw.wait.resolve_left hdeleted
  obtain ⟨t, hd, hmove, hkept⟩ := h.eq_of_step he hstep
  have hri := h.record_step he hstep hi.record
  have hrj := h.record_step he hstep hj
  cases hmove with
  | newTimer hnew =>
    subst hd
    exact .inr (hw.of_times (fun _ => rfl) (.inr hboth))
  | add hfresh ht =>
    subst hd
    refine .inr (hw.of_times (fun _ => rfl) (.inr ?_))
    rcases hboth with ⟨hiq, hjq⟩ | ⟨f, hf, hif, hjf⟩
    · exact .inl ⟨OrderedMap.mem_insert.mpr (.inr hiq), OrderedMap.mem_insert.mpr (.inr hjq)⟩
    · exact .inr ⟨f, hf, hif, hjf.imp_right fun hjq => OrderedMap.mem_insert.mpr (.inr hjq)⟩
  | cancel hmem =>
    subst hd
    refine .inr (hw.of_times (fun _ => rfl) ?_)
    rcases hboth with ⟨hiq, hjq⟩ | ⟨f, hf, hif, hjf | hjq⟩
    · have hiq' := (hkept.deleted_or_mem_erase hri rfl hiq).resolve_left hstays
      exact (hkept.deleted_or_mem_erase hrj rfl hjq).imp_right fun hjq' => .inl ⟨hiq', hjq'⟩
    · exact .inr (.inr ⟨f, hf, hif, .inl hjf⟩)
    · exact (hkept.deleted_or_mem_erase hrj rfl hjq).imp_right fun hjq' =>
        .inr ⟨f, hf, hif, .inr hjq'⟩
  | cancelExpired hmem hf =>
    subst hd
    exact .inr (hw.of_times (fun _ => rfl) (.inr hboth))
  | cancelNone hmem hf =>
    subst hd
    exact .inr (hw.of_times (fun _ => rfl) (.inr hboth))
  | @handleRead now fired expired rest fd hf hexpired hrest =>
    subst hd
    refine .inr (hw.of_times (fun _ => rfl) (.inr ?_))
    rcases hboth with ⟨hiq, hjq⟩ | ⟨f, hf', -⟩
    · by_cases hdue : ri.time ≤ now
      · refine .inr ⟨_, rfl, (hexpired _).mpr ⟨hiq, hdue⟩, ?_⟩
        by_cases hdue' : rj.time ≤ now
        · exact .inl ((hexpired _).mpr ⟨hjq, hdue'⟩)
        · exact .inr ((hrest _).mpr ⟨hjq, not_le.mp hdue'⟩)
      · have hle : ri.time ≤ rj.time := Entry.time_le hlt.le
        have hlater := not_le.mp hdue
        exact .inl ⟨(hrest _).mpr ⟨hiq, hlater⟩, (hrest _).mpr ⟨hjq, hlater.trans_le hle⟩⟩
    · cases hf.symm.trans hf'
  | @runTimer f entry rest hf hremaining =>
    obtain ⟨k, rk, x, hk, hentry, -, -, hruns⟩ := h.runner_step he hstep hf hremaining
    by_cases hki : k = i
    · left
      rw [Ledger.times_concat hruns, if_pos hki, List.length_append, hw.earlier]
      exact Nat.lt_succ_self _
    · subst hd
      exact .inr (hw.runTimer h hs hi hlives hboth hlt hf hremaining rfl rfl hk hentry hruns hki)
  | @endRead now f timers heap fd hf hremaining hreset =>
    subst hd
    refine .inr (hw.of_times (fun _ => rfl) (.inr ?_))
    rcases hboth with ⟨hiq, hjq⟩ | ⟨f', hf', hif, -⟩
    · exact .inl ⟨(hreset.mem _).mpr (.inl hiq), (hreset.mem _).mpr (.inl hjq)⟩
    · cases hf.symm.trans hf'
      rw [hremaining] at hif
      exact absurd hif List.not_mem_nil

theorem Waiting.run {ti tj : List ℤ} (hw : c.Waiting i j ri rj ti tj) (h : c.Kept)
    (hs : c.Sorted) (hi : c.ledger.records[i]? = some ri) (hj : c.ledger.records[j]? = some rj)
    (hlt : ri.timerId < rj.timerId) {events : List Event}
    (halong : Along Chronicle.step Allowed c events)
    (hrun : runFrom Chronicle.step c events = some d) :
    i ∈ d.ledger.deleted ∨ ti.length < (d.ledger.times i).length ∨
      d.Waiting i j ri rj ti tj := by
  have hall : (d.Kept ∧ d.Sorted ∧ d.ledger.records[i]? = some ri ∧
      d.ledger.records[j]? = some rj) ∧ (i ∈ d.ledger.deleted ∨
        ti.length < (d.ledger.times i).length ∨ d.Waiting i j ri rj ti tj) := by
    apply runFrom_invariant_along _ ⟨⟨h, hs, hi, hj⟩, .inr (.inr hw)⟩ halong hrun
    rintro a e b ⟨⟨ha, hsa, hia, hja⟩, hphase⟩ he hstep
    refine ⟨⟨(ha.of_step he hstep).2.1, hsa.step ha he hstep, ha.record_step he hstep hia,
      ha.record_step he hstep hja⟩, ?_⟩
    by_cases hstays : i ∈ b.ledger.deleted
    · exact .inl hstays
    rcases hphase with hgone | hmore | hwait
    · exact .inl (ha.deleted_step he hstep hgone)
    · right
      left
      rcases ha.times_grow he hstep i with hsame | hlonger
      · rw [hsame]
        exact hmore
      · exact hmore.trans hlonger
    · have hlives := ha.owner i ri hia (mt (ha.deleted_step he hstep) hstays)
      exact .inr (hwait.step ha hsa hlives hja hlt he hstep hstays)
  exact hall.2

end Chronicle

/-- A timer is not overtaken. When two timers are registered in any state of a run, and the first
of them stands before the second in the set (it is for an earlier time, or for the same time and at
a lower address), then in every later state in which the first has neither been deleted nor run
since, the second has not run either. -/
theorem earlier_runs_first {before after : List Event} {c d : Chronicle} {i j : ℕ} {ri rj : Record}
    (h : Along Chronicle.step Chronicle.Allowed Chronicle.init (before ++ after))
    (hc : runFrom Chronicle.step Chronicle.init before = some c)
    (hd : runFrom Chronicle.step c after = some d)
    (hi : c.ledger.Lives i ri) (hj : c.ledger.Lives j rj)
    (hiq : ri.timerId ∈ c.state.queue.timers) (hjq : rj.timerId ∈ c.state.queue.timers)
    (hlt : ri.timerId < rj.timerId) (hstays : i ∉ d.ledger.deleted)
    (hnot : d.ledger.times i = c.ledger.times i) : d.ledger.times j = c.ledger.times j := by
  obtain ⟨hbefore, hafter⟩ := (along_append hc).mp h
  have hstart : c.Kept ∧ c.Sorted := by
    apply runFrom_invariant_along _ ⟨Chronicle.kept_init, Chronicle.sorted_init⟩ hbefore hc
    rintro a e b ⟨ha, hs⟩ he hstep
    exact ⟨(ha.of_step he hstep).2.1, hs.step ha he hstep⟩
  have hw : c.Waiting i j ri rj (c.ledger.times i) (c.ledger.times j) :=
    ⟨rfl, rfl, .inr (.inl ⟨hiq, hjq⟩)⟩
  rcases hw.run hstart.1 hstart.2 hi.record hj.record hlt hafter hd with hgone | hmore | hwait
  · exact absurd hgone hstays
  · rw [hnot] at hmore
    exact absurd hmore (lt_irrefl _)
  · exact hwait.later

def twoTimers : List Event :=
  [.newTimer 16 1000000 (.ofNat 0), .newTimer 8 2000000 (.ofScientific 5 (-1)), .addTimerInLoop 8 0,
    .addTimerInLoop 16 0]

def thirdTimer : List Event :=
  [.newTimer 24 500000 (.ofNat 0), .addTimerInLoop 24 100, .handleRead 3000000 true, .runTimer]

def twoRegistered : Chronicle :=
  (runFrom Chronicle.step Chronicle.init twoTimers).getD Chronicle.init

def thirdRan : Chronicle :=
  (runFrom Chronicle.step twoRegistered thirdTimer).getD Chronicle.init

theorem thirdTimer_runs_first :
    thirdRan.ledger.times 2 = [3000000] ∧
      thirdRan.ledger.times 1 = twoRegistered.ledger.times 1 := by
  have hi : twoRegistered.ledger.Lives 0 ⟨16, 1000000, .ofNat 0⟩ :=
    ⟨by decide +kernel, by decide +kernel, by decide +kernel⟩
  have hj : twoRegistered.ledger.Lives 1 ⟨8, 2000000, .ofScientific 5 (-1)⟩ :=
    ⟨by decide +kernel, by decide +kernel, by decide +kernel⟩
  have h : Along Chronicle.step Chronicle.Allowed Chronicle.init (twoTimers ++ thirdTimer) := by
    decide +kernel
  have hc : runFrom Chronicle.step Chronicle.init twoTimers = some twoRegistered := by
    decide +kernel
  have hd : runFrom Chronicle.step twoRegistered thirdTimer = some thirdRan := by
    decide +kernel
  constructor
  · decide +kernel
  · exact earlier_runs_first h hc hd hi hj (by decide +kernel) (by decide +kernel)
      (by decide +kernel) (by decide +kernel) (by decide +kernel)

end TimerRuns

end Matelib
