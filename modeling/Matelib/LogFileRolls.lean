import Matelib.LogFile

/-!
# When log files end

A part ends at its first record that makes the file larger than `rollSize`, or that is a 1000-th
record and written on another day than the file was opened; at no other record. With a clock that
does not go back this bounds how many records of other days a file can hold, and how many records
can follow one that is still in the buffer.
-/

namespace Matelib

open AppendStream Transition

namespace LogFile

namespace Part

def upTo (p : Part) (k : ℕ) : Part := { p with records := p.records.take k }

def Stays (rollSize : ℕ) (p : Part) : Prop :=
  ∀ r ∈ p.records.getLast?, p.bytes.length ≤ rollSize ∧
    (checkEveryN ∣ p.records.length → period r.1 = period p.opened)

theorem upTo_length (p : Part) : p.upTo p.records.length = p := by
  rw [upTo, List.take_length]

theorem upTo_add {p : Part} {k : ℕ} (hk : k ≤ p.records.length) (now : ℤ) (data : Bytes) :
    (p.add now data).upTo k = p.upTo k := by
  rw [upTo, upTo, add, List.take_append_of_le_length hk]

theorem stays_make (h : Host) (basename : Bytes) (o : Opening) (rollSize : ℕ) :
    (make h basename o).Stays rollSize := nofun

theorem stays_add {rollSize : ℕ} {p : Part} {now : ℤ} {data : Bytes} :
    (p.add now data).Stays rollSize ↔ (p.add now data).bytes.length ≤ rollSize ∧
      (checkEveryN ∣ p.records.length + 1 → period now = period p.opened) := by
  have hlast : (p.add now data).records.getLast? = some (now, data) := List.getLast?_concat
  have hlength : (p.add now data).records.length = p.records.length + 1 := List.length_append
  rw [Stays, hlast, hlength]
  simp only [Option.mem_some_iff, forall_eq']
  rfl

end Part

theorem check_members (h : Host) {l : LogFile} (d : Files) {a : Answers}
    (hrolls : ¬ l.rolls a.now) :
    let r := check h l d a
    r.1.rollSize = l.rollSize ∧ r.1.startOfPeriod = l.startOfPeriod ∧
      r.1.count = if l.count + 1 < checkEveryN then l.count + 1 else 0 := by
  obtain ⟨_, ⟨hcount, hr⟩ | ⟨hcount, _, ⟨_, hr⟩ | ⟨_, hr⟩⟩⟩ := check_stays h d hrolls
  · rw [hr, if_pos hcount]
    exact ⟨rfl, rfl, rfl⟩
  · rw [hr, if_neg (Nat.not_lt.mpr hcount)]
    exact ⟨rfl, rfl, rfl⟩
  · rw [hr, if_neg (Nat.not_lt.mpr hcount)]
    exact ⟨rfl, rfl, rfl⟩

/-- The members agree with the part that is written, and no part has gone on too long. -/
structure Ends (rollSize : ℕ) (s : State) : Prop where
  limit : s.log.rollSize = rollSize
  start : s.log.startOfPeriod = period s.current.opened
  count : s.log.count = s.current.records.length % checkEveryN
  stays : ∀ k ≤ s.current.records.length, (s.current.upTo k).Stays rollSize
  ended : ∀ p ∈ s.closed,
    (∀ k < p.records.length, (p.upTo k).Stays rollSize) ∧ ¬ p.Stays rollSize

theorem ends_make (h : Host) (basename : Bytes) (rollSize : ℕ) (flushInterval : ℤ) (d : Files)
    (o : Opening) : Ends rollSize (State.make h basename rollSize flushInterval d o) where
  limit := rfl
  start := rfl
  count := rfl
  stays := by
    intro k hk
    obtain rfl := Nat.le_zero.mp hk
    exact Part.stays_make h basename o rollSize
  ended := List.forall_mem_nil _

theorem Ends.rolls_iff {h : Host} {basename : Bytes} {d : Files} {rollSize : ℕ} {s : State}
    (hs : Holds h basename d s) (he : Ends rollSize s) (data : Bytes) (a : Answers) :
    (record s.log s.disk data a).1.rolls a.now ↔
      ¬ (s.current.add a.now (taken data a)).Stays rollSize := by
  obtain ⟨_, _, hsize, _, _⟩ := hs.record data a
  have hcount : checkEveryN ≤ s.log.count + 1 ↔ checkEveryN ∣ s.current.records.length + 1 := by
    rw [he.count, checkEveryN]
    omega
  rw [Part.stays_add, rolls, hsize, not_and_or, Nat.not_le, Classical.not_imp]
  change s.log.rollSize < _ ∨ checkEveryN ≤ s.log.count + 1 ∧ period a.now ≠ s.log.startOfPeriod ↔ _
  rw [he.limit, he.start, hcount]

theorem Ends.step {h : Host} {basename : Bytes} {d : Files} {rollSize : ℕ} {s t : State}
    {e : Event} (hs : Holds h basename d s) (he : Ends rollSize s) (hstep : step h s e = some t) :
    Ends rollSize t := by
  cases e with
  | append data a =>
    have hrolls_iff := he.rolls_iff hs data a
    have hlength : (s.current.add a.now (taken data a)).records.length =
        s.current.records.length + 1 := List.length_append
    -- up to the new record the part is the old one
    have hearlier : ∀ k < (s.current.add a.now (taken data a)).records.length,
        ((s.current.add a.now (taken data a)).upTo k).Stays rollSize := by
      intro k hk
      rw [hlength] at hk
      rw [Part.upTo_add (Nat.le_of_lt_succ hk)]
      exact he.stays k (Nat.le_of_lt_succ hk)
    simp only [LogFile.step, appendUnlocked] at hstep
    split_ifs at hstep with hrolls
    · cases hstep
      rw [check_rolls h _ hrolls]
      refine ⟨he.limit, rfl, rfl, ?_, ?_⟩
      · intro k hk
        obtain rfl := Nat.le_zero.mp hk
        exact Part.stays_make h s.log.basename a.opening rollSize
      · intro p hp
        rcases List.mem_append.mp hp with hp | hp
        · exact he.ended p hp
        · rw [List.mem_singleton.mp hp]
          exact ⟨hearlier, hrolls_iff.mp hrolls⟩
    · cases hstep
      have hstays : (s.current.add a.now (taken data a)).Stays rollSize :=
        Classical.not_not.mp fun hnot => hrolls (hrolls_iff.mpr hnot)
      have hall : ∀ k ≤ (s.current.add a.now (taken data a)).records.length,
          ((s.current.add a.now (taken data a)).upTo k).Stays rollSize := by
        intro k hk
        rcases Nat.lt_or_eq_of_le hk with hlt | heq
        · exact hearlier k hlt
        · rw [heq, Part.upTo_length]
          exact hstays
      have hcount : s.log.count = s.current.records.length % checkEveryN := he.count
      rw [checkEveryN] at hcount
      obtain ⟨climit, cstart, ccount⟩ :=
        check_members h (record s.log s.disk data a).2 hrolls
      refine ⟨climit.trans he.limit, cstart.trans he.start, ?_, hall, he.ended⟩
      change _ = if s.log.count + 1 < checkEveryN then s.log.count + 1 else 0 at ccount
      rw [ccount, hlength, checkEveryN]
      split_ifs <;> omega
  | flush =>
    cases hstep
    exact ⟨he.limit, he.start, he.count, he.stays, he.ended⟩

theorem run_ends {h : Host} {basename : Bytes} {rollSize : ℕ} {flushInterval : ℤ} {d : Files}
    {o : Opening} {es : List Event} {s : State}
    (hrun : runFrom (step h) (State.make h basename rollSize flushInterval d o) es = some s) :
    Holds h basename d s ∧ Ends rollSize s :=
  runFrom_invariant (I := fun s => Holds h basename d s ∧ Ends rollSize s)
    (fun _ _ _ hs hstep => ⟨hs.1.step hstep, hs.2.step hs.1 hstep⟩)
    ⟨holds_make h basename rollSize flushInterval d o,
      ends_make h basename rollSize flushInterval d o⟩ hrun

/-- A part ends exactly at its first record behind which the file is larger than `rollSize`, or
which is a multiple of 1000 and written on another day than the file was opened. -/
theorem parts_end_exactly {h : Host} {basename : Bytes} {rollSize : ℕ} {flushInterval : ℤ}
    {d : Files} {o : Opening} {es : List Event} {s : State}
    (hrun : runFrom (step h) (State.make h basename rollSize flushInterval d o) es = some s) :
    (∀ p ∈ s.closed, (∀ k < p.records.length, (p.upTo k).Stays rollSize) ∧ ¬ p.Stays rollSize) ∧
      ∀ k ≤ s.current.records.length, (s.current.upTo k).Stays rollSize :=
  ⟨(run_ends hrun).2.ended, (run_ends hrun).2.stays⟩

theorem sampleRun_parts_end_exactly :
    ∃ s, runFrom (step sampleHost) sampleStart sampleRun = some s ∧
      s.closed.map (fun p => p.records.length) = [1, 1] ∧
      (∀ p ∈ s.closed, (∀ k < p.records.length, (p.upTo k).Stays 0) ∧ ¬ p.Stays 0) ∧
      ∀ k ≤ s.current.records.length, (s.current.upTo k).Stays 0 := by
  have hlengths : (runFrom (step sampleHost) sampleStart sampleRun).map
      (fun s => s.closed.map fun p => p.records.length) = some [1, 1] := by
    decide +kernel
  obtain ⟨s, hrun, hlength⟩ := Option.map_eq_some_iff.mp hlengths
  exact ⟨s, hrun, hlength, parts_end_exactly hrun⟩

/-- The clock does not go back, from one reading to the next. -/
def Later (s : State) : Event → Prop
  | .append _ a => s.clock ≤ a.now ∧ a.now ≤ a.opening.now
  | .flush => True

instance (s : State) (e : Event) : Decidable (Later s e) :=
  match e with
  | .append _ _ => inferInstanceAs (Decidable (_ ∧ _))
  | .flush => inferInstanceAs (Decidable True)

/-- The records of another day than that of the opening. -/
def Part.foreign (p : Part) : List (ℤ × Bytes) :=
  p.records.filter fun r => period r.1 ≠ period p.opened

def recordBytes (records : List (ℤ × Bytes)) : Bytes := (records.map Prod.snd).flatten

theorem period_mono {a b : ℤ} (h : a ≤ b) : period a ≤ period b :=
  Int.mul_le_mul_of_nonneg_right (Int.tdiv_le_tdiv (by decide) h) (by decide)

/-- The records that `old` has are on the disk. Those of `new` came at the last flush or later, and
not many of them came more than `flushInterval` behind it. -/
structure Lags (s : State) (old new : List (ℤ × Bytes)) : Prop where
  records : s.current.records = old ++ new
  fresh : ∀ r ∈ new, s.log.lastFlush ≤ r.1
  buf : old ≠ [] → s.log.file.fp.buf.length ≤ (recordBytes new).length
  late : (new.filter fun r => s.log.lastFlush + s.log.flushInterval < r.1).length ≤ s.log.count

structure Fresh (s : State) : Prop where
  start : s.log.startOfPeriod = period s.current.opened
  count : s.log.count < checkEveryN
  opened : s.current.opened ≤ s.clock
  times : ∀ r ∈ s.current.records, s.current.opened ≤ r.1 ∧ r.1 ≤ s.clock
  flushed : s.log.lastFlush ≤ s.clock
  foreign : s.current.foreign.length ≤ s.log.count
  ended : ∀ p ∈ s.closed, p.foreign.length ≤ checkEveryN
  lags : ∃ old new, Lags s old new

theorem fresh_make (h : Host) (basename : Bytes) (rollSize : ℕ) (flushInterval : ℤ) (d : Files)
    (o : Opening) : Fresh (State.make h basename rollSize flushInterval d o) where
  start := rfl
  count := Nat.zero_lt_succ _
  opened := Int.le_refl _
  times := List.forall_mem_nil _
  flushed := Int.le_refl _
  foreign := Nat.le_refl _
  ended := List.forall_mem_nil _
  lags := ⟨[], [], rfl, List.forall_mem_nil _, fun h => absurd rfl h, Nat.le_refl _⟩

theorem foreign_add (p : Part) (now : ℤ) (data : Bytes) :
    (p.add now data).foreign.length ≤ p.foreign.length + 1 := by
  simp only [Part.foreign, Part.add, List.filter_append, List.length_append]
  exact Nat.add_le_add_left (List.length_filter_le _ _) _

theorem Fresh.foreign_eq_nil {s : State} (hf : Fresh s) {now : ℤ} (hnow : s.clock ≤ now)
    (hday : period now = period s.current.opened) (data : Bytes) :
    (s.current.add now data).foreign = [] := by
  apply List.filter_eq_nil_iff.mpr
  intro r hr
  rw [decide_eq_true_eq, Classical.not_not]
  have hbetween : s.current.opened ≤ r.1 ∧ r.1 ≤ now := by
    rcases List.mem_append.mp hr with hr | hr
    · exact ⟨(hf.times r hr).1, (hf.times r hr).2.trans hnow⟩
    · rw [List.mem_singleton.mp hr]
      exact ⟨hf.opened.trans hnow, Int.le_refl now⟩
  exact Int.le_antisymm ((period_mono hbetween.2).trans_eq hday) (period_mono hbetween.1)

/-- A state that differs from `s` only in what `append` does without a new file. -/
def Appended (s : State) (data : Bytes) (a : Answers) (log : LogFile) (d : Files) : State :=
  ⟨log, d, s.closed, s.current.add a.now (taken data a), a.now⟩

theorem Fresh.appended {s : State} (hf : Fresh s) {data : Bytes} {a : Answers}
    (ha : s.clock ≤ a.now) {log : LogFile} {d : Files}
    (hstart : log.startOfPeriod = s.log.startOfPeriod) (hcount : log.count < checkEveryN)
    (hflushed : log.lastFlush ≤ a.now)
    (hforeign : (s.current.add a.now (taken data a)).foreign.length ≤ log.count)
    (hlags : ∃ old new, Lags (Appended s data a log d) old new) :
    Fresh (Appended s data a log d) where
  start := hstart.trans hf.start
  count := hcount
  opened := hf.opened.trans ha
  times := by
    intro r hr
    rcases List.mem_append.mp hr with hr | hr
    · exact ⟨(hf.times r hr).1, (hf.times r hr).2.trans ha⟩
    · rw [List.mem_singleton.mp hr]
      exact ⟨hf.opened.trans ha, Int.le_refl a.now⟩
  flushed := hflushed
  foreign := hforeign
  ended := hf.ended
  lags := hlags

theorem Fresh.step {h : Host} {s t : State} {e : Event} (hf : Fresh s) (he : Later s e)
    (hstep : step h s e = some t) : Fresh t := by
  cases e with
  | append data a =>
    obtain ⟨hnow, hopening⟩ := he
    obtain ⟨old, new, hlags⟩ := hf.lags
    have hforeign := foreign_add s.current a.now (taken data a)
    have hold := hf.foreign
    have hcount := hf.count
    obtain ⟨_, htakes⟩ := record_spec s.log s.disk data a
    simp only [LogFile.step, appendUnlocked] at hstep
    split_ifs at hstep with hrolls
    · cases hstep
      rw [check_rolls h _ hrolls]
      refine ⟨rfl, Nat.zero_lt_succ _, Int.le_refl _, List.forall_mem_nil _, Int.le_refl _,
        Nat.le_refl _, ?_, [], [], rfl, List.forall_mem_nil _, fun h => absurd rfl h, Nat.le_refl _⟩
      intro p hp
      rcases List.mem_append.mp hp with hp | hp
      · exact hf.ended p hp
      · rw [List.mem_singleton.mp hp]
        omega
    · cases hstep
      have hrecords : (s.current.add a.now (taken data a)).records =
          old ++ (new ++ [(a.now, taken data a)]) := by
        rw [← List.append_assoc, ← hlags.records]
        rfl
      have hlast : s.log.lastFlush ≤ a.now := hf.flushed.trans hnow
      have hfresh : ∀ r ∈ new ++ [(a.now, taken data a)], s.log.lastFlush ≤ r.1 := by
        intro r hr
        rcases List.mem_append.mp hr with hr | hr
        · exact hlags.fresh r hr
        · rw [List.mem_singleton.mp hr]
          exact hlast
      have hbuf : old ≠ [] → (record s.log s.disk data a).1.file.fp.buf.length ≤
          (recordBytes (new ++ [(a.now, taken data a)])).length := by
        intro hne
        have hnew := hlags.buf hne
        have hgrow := htakes.buf
        simp only [recordBytes, List.map_append, List.map_singleton, List.flatten_append,
          List.flatten_singleton, List.length_append] at hnew ⊢
        omega
      obtain ⟨_, ⟨hlt, hr⟩ | ⟨_, hday, hflush⟩⟩ :=
        check_stays h (record s.log s.disk data a).2 hrolls
      · rw [hr]
        refine hf.appended hnow rfl hlt hlast (hforeign.trans (Nat.add_le_add_right hold 1))
          ⟨old, new ++ [(a.now, taken data a)], hrecords, hfresh, hbuf, ?_⟩
        have hlate := hlags.late
        rw [List.filter_append, List.length_append]
        exact Nat.add_le_add hlate (List.length_filter_le _ _)
      · have hnone := hf.foreign_eq_nil hnow (hday.trans hf.start) (taken data a)
        have hzero : (s.current.add a.now (taken data a)).foreign.length ≤ 0 := by
          rw [hnone]
          exact Nat.le_refl _
        rcases hflush with ⟨_, hr⟩ | ⟨hsoon, hr⟩
        · rw [hr]
          exact hf.appended hnow rfl (Nat.zero_lt_succ _) (Int.le_refl _) hzero
            ⟨_, [], (List.append_nil _).symm, List.forall_mem_nil _, fun _ => Nat.le_refl _,
              Nat.le_refl _⟩
        · rw [hr]
          refine hf.appended hnow rfl (Nat.zero_lt_succ _) hlast hzero
            ⟨old, new ++ [(a.now, taken data a)], hrecords, hfresh, hbuf, ?_⟩
          have hnone : ((new ++ [(a.now, taken data a)]).filter fun r =>
              s.log.lastFlush + s.log.flushInterval < r.1) = [] := by
            apply List.filter_eq_nil_iff.mpr
            intro r hr
            have hle : r.1 ≤ a.now := by
              rcases List.mem_append.mp hr with hr | hr
              · exact (hf.times r (hlags.records ▸ List.mem_append_right _ hr)).2.trans hnow
              · rw [List.mem_singleton.mp hr]
            change a.now - s.log.lastFlush ≤ s.log.flushInterval at hsoon
            rw [decide_eq_true_eq]
            omega
          exact (congrArg List.length hnone).le
  | flush =>
    cases hstep
    exact ⟨hf.start, hf.count, hf.opened, hf.times, hf.flushed, hf.foreign, hf.ended,
      s.current.records, [], (List.append_nil _).symm, List.forall_mem_nil _,
      fun _ => Nat.le_refl _, Nat.zero_le _⟩

theorem run_fresh {h : Host} {basename : Bytes} {rollSize : ℕ} {flushInterval : ℤ} {d : Files}
    {o : Opening} {es : List Event} {s : State}
    (hlater : Along (step h) Later (State.make h basename rollSize flushInterval d o) es)
    (hrun : runFrom (step h) (State.make h basename rollSize flushInterval d o) es = some s) :
    Fresh s :=
  runFrom_invariant_along (fun _ _ _ hf he hstep => hf.step he hstep)
    (fresh_make h basename rollSize flushInterval d o) hlater hrun

/-- With a clock that does not go back, a file holds at most 1000 records of other days than that
of its opening; the open one holds less than 1000. -/
theorem foreign_le_checkEveryN {h : Host} {basename : Bytes} {rollSize : ℕ} {flushInterval : ℤ}
    {d : Files} {o : Opening} {es : List Event} {s : State}
    (hlater : Along (step h) Later (State.make h basename rollSize flushInterval d o) es)
    (hrun : runFrom (step h) (State.make h basename rollSize flushInterval d o) es = some s) :
    (∀ p ∈ s.closed, p.foreign.length ≤ checkEveryN) ∧ s.current.foreign.length < checkEveryN := by
  have hf := run_fresh hlater hrun
  exact ⟨hf.ended, hf.foreign.trans_lt hf.count⟩

/-- The clock passes midnight between two records of one file. -/
def midnightStart : State := .make sampleHost [97] 1000 1 (fun _ => []) sampleOpening

def midnightRun : List Event :=
  [.append [98] ⟨[], 86399, ⟨86399, 1, 3, []⟩⟩, .append [99] ⟨[], 86401, ⟨86401, 1, 3, []⟩⟩]

theorem midnightRun_foreign_le_checkEveryN :
    ∃ s, runFrom (step sampleHost) midnightStart midnightRun = some s ∧
      s.current.foreign = [(86401, [99])] ∧
      (∀ p ∈ s.closed, p.foreign.length ≤ checkEveryN) ∧
      s.current.foreign.length < checkEveryN := by
  have hlater : Along (step sampleHost) Later midnightStart midnightRun := by
    decide +kernel
  have hforeign : (runFrom (step sampleHost) midnightStart midnightRun).map
      (fun s => s.current.foreign) = some [(86401, [99])] := by
    decide +kernel
  obtain ⟨s, hrun, hs⟩ := Option.map_eq_some_iff.mp hforeign
  exact ⟨s, hrun, hs, foreign_le_checkEveryN hlater hrun⟩

theorem flushInterval_step {h : Host} {s t : State} {e : Event} (hstep : step h s e = some t) :
    t.log.flushInterval = s.log.flushInterval := by
  cases e with
  | append data a =>
    simp only [LogFile.step, appendUnlocked] at hstep
    split_ifs at hstep with hrolls
    · cases hstep
      rw [check_rolls h _ hrolls]
      rfl
    · cases hstep
      obtain ⟨_, ⟨_, hr⟩ | ⟨_, _, ⟨_, hr⟩ | ⟨_, hr⟩⟩⟩ :=
        check_stays h (record s.log s.disk data a).2 hrolls <;> rw [hr] <;> rfl
  | flush =>
    cases hstep
    rfl

/-- With a clock that does not go back, less than 1000 records that came more than `flushInterval`
later follow a record of which a byte is still in the buffer. -/
theorem unflushed_lt_checkEveryN {h : Host} {basename : Bytes} {rollSize : ℕ} {flushInterval : ℤ}
    {d : Files} {o : Opening} {es : List Event} {s : State}
    (hlater : Along (step h) Later (State.make h basename rollSize flushInterval d o) es)
    (hrun : runFrom (step h) (State.make h basename rollSize flushInterval d o) es = some s)
    {before after : List (ℤ × Bytes)} {r : ℤ × Bytes}
    (hrecords : s.current.records = before ++ r :: after)
    (hbuf : (recordBytes after).length < s.log.file.fp.buf.length) :
    (after.filter fun q => r.1 + flushInterval < q.1).length < checkEveryN := by
  have hf := run_fresh hlater hrun
  have hinterval : s.log.flushInterval = flushInterval :=
    runFrom_invariant (I := fun s => s.log.flushInterval = flushInterval)
      (fun _ _ _ hs hstep => (flushInterval_step hstep).trans hs) rfl hrun
  obtain ⟨old, new, hlags⟩ := hf.lags
  -- the record is one of `new`: otherwise these all follow it, and hold the buffer
  have hnew : ∃ earlier, new = earlier ++ r :: after := by
    rcases List.append_eq_append_iff.mp (hlags.records.symm.trans hrecords) with
      ⟨earlier, _, hnew⟩ | ⟨later, hold, hafter⟩
    · exact ⟨earlier, hnew⟩
    · cases later with
      | nil => exact ⟨[], hafter.symm⟩
      | cons q later =>
        have hlater : after = later ++ new := (List.cons.inj hafter).2
        rw [hlater] at hbuf
        have hin := hlags.buf (hold ▸ List.append_ne_nil_of_right_ne_nil _ (List.cons_ne_nil _ _))
        simp only [recordBytes, List.map_append, List.flatten_append, List.length_append] at hbuf
        simp only [recordBytes] at hin
        omega
  obtain ⟨earlier, rfl⟩ := hnew
  have hr := hlags.fresh r (List.mem_append_right _ List.mem_cons_self)
  have hlate := hlags.late
  have hcount := hf.count
  have hsub : (after.filter fun q => r.1 + flushInterval < q.1).length ≤
      ((earlier ++ r :: after).filter fun q =>
        s.log.lastFlush + s.log.flushInterval < q.1).length := by
    apply List.Sublist.length_le
    have htail : after.Sublist (earlier ++ r :: after) :=
      (List.sublist_cons_self r after).trans (List.sublist_append_right _ _)
    refine List.Sublist.trans (List.monotone_filter_right after ?_) (htail.filter _)
    intro q hq
    rw [decide_eq_true_eq] at hq ⊢
    omega
  omega

theorem midnightRun_unflushed_lt_checkEveryN :
    ∃ s, runFrom (step sampleHost) midnightStart midnightRun = some s ∧
      ([(86401, [99])].filter fun q : ℤ × Bytes => 86399 + 1 < q.1).length = 1 ∧
      ([(86401, [99])].filter fun q : ℤ × Bytes => 86399 + 1 < q.1).length < checkEveryN := by
  have hlater : Along (step sampleHost) Later midnightStart midnightRun := by
    decide +kernel
  have hstate : (runFrom (step sampleHost) midnightStart midnightRun).map
      (fun s => (s.current.records, decide (1 < s.log.file.fp.buf.length))) =
        some ([(86399, [98]), (86401, [99])], true) := by
    decide +kernel
  obtain ⟨s, hrun, hs⟩ := Option.map_eq_some_iff.mp hstate
  obtain ⟨hrecords, hbuf⟩ := Prod.mk.inj hs
  exact ⟨s, hrun, rfl,
    unflushed_lt_checkEveryN hlater hrun (hrecords.trans (List.nil_append _).symm)
      (of_decide_eq_true hbuf)⟩

end LogFile

end Matelib
