import Matelib.AppendStream
import Matelib.Decimal
import Matelib.Transition

/-!
# Log files

`LogFile` appends records to a file and goes on to a new one when the file has become large or,
tested once in 1000 records, when another day has come. The names of the files are exact to the
second, so that a new file can have the name of an older one: then both are one file on the disk.
What the C library answers in a call is part of the event: the clock, how much `fwrite_unlocked`
takes of its data and how much of its buffer it passes on.
-/

namespace Matelib

open AppendStream Transition

/-- One call of `fwrite_unlocked`: `result` units at most are taken. -/
structure Fwrite where
  result : ℕ
  drain : ℕ

def kFileBuffer : ℕ := 64 * 1024

/-- `File`, with the buffer that `setbuffer` gives its stream. -/
structure File where
  fp : Stream Bytes UInt8 kFileBuffer
  writtenBytes : ℕ

abbrev Files := Disk Bytes UInt8

namespace File

def make (filename : Bytes) : File := ⟨.fresh (cstr filename), 0⟩

def writeUnlocked (f : File) (d : Files) (data : Bytes) (c : Fwrite) : ℕ × File × Files :=
  let n := min c.result data.length
  let r := f.fp.put d (data.take n) c.drain
  (n, { f with fp := r.1 }, r.2)

/-- The loop of `append` behind `n` written bytes. A call beyond those of the list takes all. -/
def appendLoop (data : Bytes) : List Fwrite → ℕ → File → Files → ℕ × File × Files
  | [], n, f, d =>
    let r := f.writeUnlocked d (data.drop n) ⟨data.length, 0⟩
    (n + r.1, r.2)
  | c :: calls, n, f, d =>
    if n < data.length then
      let r := f.writeUnlocked d (data.drop n) c
      if r.1 = 0 then (n, r.2) else appendLoop data calls (n + r.1) r.2.1 r.2.2
    else (n, f, d)

def append (f : File) (d : Files) (data : Bytes) (calls : List Fwrite) : File × Files :=
  let first := f.writeUnlocked d data (calls.headD ⟨data.length, 0⟩)
  let r := appendLoop data calls.tail first.1 first.2.1 first.2.2
  ({ r.2.1 with writtenBytes := f.writtenBytes + r.1 }, r.2.2)

def flush (f : File) (d : Files) : File × Files :=
  let r := f.fp.flush d
  ({ f with fp := r.1 }, r.2)

def close (f : File) (d : Files) : Files := (f.fp.flush d).2

/-- How many of `remain` bytes the calls of the loop take, up to a call that takes none. -/
def acceptedLoop : List Fwrite → ℕ → ℕ
  | [], remain => remain
  | c :: calls, remain =>
    if min c.result remain = 0 then 0
    else min c.result remain + acceptedLoop calls (remain - min c.result remain)

def accepted (calls : List Fwrite) (len : ℕ) : ℕ :=
  let n := min (calls.headD ⟨len, 0⟩).result len
  n + acceptedLoop calls.tail (len - n)

theorem acceptedLoop_le (calls : List Fwrite) (remain : ℕ) :
    acceptedLoop calls remain ≤ remain := by
  induction calls generalizing remain with
  | nil => exact Nat.le_refl remain
  | cons c calls ih =>
    rw [acceptedLoop]
    split_ifs
    · exact Nat.zero_le remain
    · have h := ih (remain - min c.result remain)
      omega

theorem accepted_le (calls : List Fwrite) (len : ℕ) : accepted calls len ≤ len := by
  have h := acceptedLoop_le calls.tail (len - min (calls.headD ⟨len, 0⟩).result len)
  simp only [accepted]
  omega

/-- Without a call that takes none the loop goes on to the end. -/
theorem acceptedLoop_eq {calls : List Fwrite} (h : ∀ c ∈ calls, 0 < c.result) (remain : ℕ) :
    acceptedLoop calls remain = remain := by
  induction calls generalizing remain with
  | nil => rfl
  | cons c calls ih =>
    rw [acceptedLoop]
    have hc := h c List.mem_cons_self
    split_ifs
    · omega
    · rw [ih fun c hc => h c (List.mem_cons_of_mem _ hc)]
      omega

theorem accepted_eq {calls : List Fwrite} (h : ∀ c ∈ calls.tail, 0 < c.result) (len : ℕ) :
    accepted calls len = len := by
  simp only [accepted, acceptedLoop_eq h]
  omega

/-- `g` is `f` after it has taken `data`. -/
structure Takes (f : File) (d : Files) (data : Bytes) (g : File) (d' : Files) : Prop where
  name : g.fp.name = f.fp.name
  view : g.fp.view d' = (f.fp.view d).extend f.fp.name data
  buf : g.fp.buf.length ≤ f.fp.buf.length + data.length

theorem takes_nil (f : File) (d : Files) : Takes f d [] f d :=
  ⟨rfl, (Disk.extend_nil _ _).symm, Nat.le_refl _⟩

theorem Takes.trans {f g k : File} {d d' d'' : Files} {a b : Bytes} (h : Takes f d a g d')
    (h' : Takes g d' b k d'') : Takes f d (a ++ b) k d'' where
  name := h'.name.trans h.name
  view := by rw [h'.view, h.view, h.name, Disk.extend_extend]
  buf := by
    have hg := h.buf
    have hk := h'.buf
    rw [List.length_append]
    omega

theorem writeUnlocked_spec (f : File) (d : Files) (data : Bytes) (c : Fwrite) :
    let r := f.writeUnlocked d data c
    r.1 = min c.result data.length ∧ Takes f d (data.take r.1) r.2.1 r.2.2 :=
  ⟨rfl, rfl, f.fp.view_put d _ c.drain, f.fp.length_put_buf d _ c.drain⟩

theorem appendLoop_spec (data : Bytes) (calls : List Fwrite) {n : ℕ} (hn : n ≤ data.length)
    (f : File) (d : Files) :
    let r := appendLoop data calls n f d
    r.1 = n + acceptedLoop calls (data.length - n) ∧
      Takes f d ((data.drop n).take (acceptedLoop calls (data.length - n))) r.2.1 r.2.2 := by
  induction calls generalizing n f d with
  | nil =>
    obtain ⟨hr, htakes⟩ := writeUnlocked_spec f d (data.drop n) ⟨data.length, 0⟩
    have hall : min data.length (data.drop n).length = data.length - n := by
      rw [List.length_drop]
      omega
    rw [hr, hall] at htakes
    exact ⟨congrArg (n + ·) (hr.trans hall), htakes⟩
  | cons c calls ih =>
    obtain ⟨hr, htakes⟩ := writeUnlocked_spec f d (data.drop n) c
    rw [hr, List.length_drop] at htakes
    rw [List.length_drop] at hr
    simp only [appendLoop, acceptedLoop]
    by_cases hlt : n < data.length
    · rw [if_pos hlt, hr]
      by_cases hzero : min c.result (data.length - n) = 0
      · rw [if_pos hzero, if_pos hzero]
        rw [hzero] at htakes
        exact ⟨rfl, htakes⟩
      · rw [if_neg hzero, if_neg hzero]
        generalize hx : min c.result (data.length - n) = x at htakes hzero
        have hle : n + x ≤ data.length := by omega
        obtain ⟨ihr, ihtakes⟩ := ih hle (f.writeUnlocked d (data.drop n) c).2.1
          (f.writeUnlocked d (data.drop n) c).2.2
        have hrest : data.length - (n + x) = data.length - n - x := by omega
        rw [hrest] at ihr ihtakes
        constructor
        · rw [ihr, Nat.add_assoc]
        · rw [List.take_add, List.drop_drop]
          exact htakes.trans ihtakes
    · have hdone : data.length - n = 0 := by omega
      rw [if_neg hlt, hdone, Nat.min_zero, if_pos rfl]
      exact ⟨rfl, takes_nil f d⟩

theorem append_spec (f : File) (d : Files) (data : Bytes) (calls : List Fwrite) :
    let r := f.append d data calls
    r.1.writtenBytes = f.writtenBytes + accepted calls data.length ∧
      Takes f d (data.take (accepted calls data.length)) r.1 r.2 := by
  obtain ⟨hr, htakes⟩ := writeUnlocked_spec f d data (calls.headD ⟨data.length, 0⟩)
  rw [hr] at htakes
  simp only [append, accepted, hr]
  generalize hx : min (calls.headD ⟨data.length, 0⟩).result data.length = x at htakes
  have hle : x ≤ data.length := by omega
  obtain ⟨lr, ltakes⟩ := appendLoop_spec data calls.tail hle
    (f.writeUnlocked d data (calls.headD ⟨data.length, 0⟩)).2.1
    (f.writeUnlocked d data (calls.headD ⟨data.length, 0⟩)).2.2
  constructor
  · rw [lr]
  · rw [List.take_add]
    have hall := htakes.trans ltakes
    exact ⟨hall.name, hall.view, hall.buf⟩

end File

/-- What a process has of the system: what `strftime` and `gethostname` leave in the array, and its
id. -/
structure Host where
  strftime : ℤ → Bytes
  hostname : Bytes
  pid : ℤ

/-- What the system answers when a file is opened: the time, the ids of the thread and of the
descriptor, and the calls that write the flag at the start. -/
structure Opening where
  now : ℤ
  tid : ℤ
  fd : ℤ
  calls : List Fwrite

structure LogFile where
  basename : Bytes
  rollSize : ℕ
  flushInterval : ℤ
  startOfPeriod : ℤ
  lastRoll : ℤ
  lastFlush : ℤ
  count : ℕ
  file : File

namespace LogFile

def checkEveryN : ℕ := 1000

def kRollPerSeconds : ℤ := 24 * 60 * 60

/-- The start of the day, with the division of C. -/
def period (now : ℤ) : ℤ := now.tdiv kRollPerSeconds * kRollPerSeconds

def getLogFileName (h : Host) (basename : Bytes) (now : ℤ) : Bytes :=
  basename ++ h.strftime now ++ h.hostname ++
    cstr (snprintf 32 (ascii ".p" ++ decimal h.pid)) ++ ascii ".log"

def flag (tid fd : ℤ) : Bytes :=
  cstr (snprintf 64 (ascii "Writed by thread " ++ decimal tid ++ ascii "\nlogfile fd = " ++
    decimal fd ++ ascii "\n"))

/-- `rollFile`, with the members it does not use. The old file is closed before the flag is
written, and opening a file leaves its contents. -/
def rollFile (h : Host) (l : LogFile) (d : Files) (o : Opening) : LogFile × Files :=
  let r := (File.make (getLogFileName h l.basename o.now)).append (l.file.close d)
    (flag o.tid o.fd) o.calls
  ({ l with
      lastRoll := o.now
      lastFlush := o.now
      startOfPeriod := period o.now
      file := r.1 }, r.2)

/-- The constructor, whose `rollFile` has no old file to close. -/
def make (h : Host) (basename : Bytes) (rollSize : ℕ) (flushInterval : ℤ) (d : Files)
    (o : Opening) : LogFile × Files :=
  let r := (File.make (getLogFileName h basename o.now)).append d (flag o.tid o.fd) o.calls
  ({ basename := basename
     rollSize := rollSize
     flushInterval := flushInterval
     startOfPeriod := period o.now
     lastRoll := o.now
     lastFlush := o.now
     count := 0
     file := r.1 }, r.2)

/-- What the system answers during one `append`. The time is that of the call, which the code reads
only to compare it; `opening` is for a file that is opened behind the record. -/
structure Answers where
  calls : List Fwrite
  now : ℤ
  opening : Opening

def check (h : Host) (l : LogFile) (d : Files) (a : Answers) : LogFile × Files :=
  if l.rollSize < l.file.writtenBytes then
    let r := rollFile h l d a.opening
    ({ r.1 with count := 0 }, r.2)
  else if l.count + 1 < checkEveryN then ({ l with count := l.count + 1 }, d)
  else
    let l := { l with count := 0 }
    if period a.now ≠ l.startOfPeriod then rollFile h l d a.opening
    else if l.flushInterval < a.now - l.lastFlush then
      let r := l.file.flush d
      ({ l with lastFlush := a.now, file := r.1 }, r.2)
    else (l, d)

/-- `append_unlocked` up to its tests. -/
def record (l : LogFile) (d : Files) (data : Bytes) (a : Answers) : LogFile × Files :=
  let r := l.file.append d data a.calls
  ({ l with file := r.1 }, r.2)

def appendUnlocked (h : Host) (l : LogFile) (d : Files) (data : Bytes) (a : Answers) :
    LogFile × Files :=
  let r := record l d data a
  check h r.1 r.2 a

def flush (l : LogFile) (d : Files) : LogFile × Files :=
  let r := l.file.flush d
  ({ l with file := r.1 }, r.2)

/-- Whether the tests behind a record open a new file. -/
def rolls (l : LogFile) (now : ℤ) : Prop :=
  l.rollSize < l.file.writtenBytes ∨ checkEveryN ≤ l.count + 1 ∧ period now ≠ l.startOfPeriod

instance (l : LogFile) (now : ℤ) : Decidable (l.rolls now) := inferInstanceAs (Decidable (_ ∨ _))

/-- A file from its opening until the next one: the time, what was taken of its flag, and of each
record with its time. -/
structure Part where
  name : Bytes
  opened : ℤ
  flag : Bytes
  records : List (ℤ × Bytes)

namespace Part

def make (h : Host) (basename : Bytes) (o : Opening) : Part where
  name := cstr (getLogFileName h basename o.now)
  opened := o.now
  flag := (LogFile.flag o.tid o.fd).take (File.accepted o.calls (LogFile.flag o.tid o.fd).length)
  records := []

def add (p : Part) (now : ℤ) (data : Bytes) : Part :=
  { p with records := p.records ++ [(now, data)] }

def texts (p : Part) : List Bytes := p.records.map Prod.snd

def bytes (p : Part) : Bytes := p.flag ++ p.texts.flatten

def file (p : Part) : Bytes × Bytes := (p.name, p.bytes)

end Part

inductive Event where
  | append (data : Bytes) (a : Answers)
  | flush

/-- The log file and the disk. The other fields are histories: the parts that are closed, the one
that is written, and the last time that was read. -/
structure State where
  log : LogFile
  disk : Files
  closed : List Part
  current : Part
  clock : ℤ

namespace State

def make (h : Host) (basename : Bytes) (rollSize : ℕ) (flushInterval : ℤ) (d : Files)
    (o : Opening) : State :=
  let r := LogFile.make h basename rollSize flushInterval d o
  ⟨r.1, r.2, [], .make h basename o, o.now⟩

def parts (s : State) : List Part := s.closed ++ [s.current]

end State

def taken (data : Bytes) (a : Answers) : Bytes := data.take (File.accepted a.calls data.length)

def step (h : Host) (s : State) : Event → Option State
  | .append data a =>
    let r := appendUnlocked h s.log s.disk data a
    let current := s.current.add a.now (taken data a)
    if (record s.log s.disk data a).1.rolls a.now then
      some ⟨r.1, r.2, s.closed ++ [current], .make h s.log.basename a.opening, a.opening.now⟩
    else some ⟨r.1, r.2, s.closed, current, a.now⟩
  | .flush =>
    let r := s.log.flush s.disk
    some { s with log := r.1, disk := r.2 }

theorem check_rolls (h : Host) {l : LogFile} (d : Files) {a : Answers} (hrolls : l.rolls a.now) :
    check h l d a =
      ({ (rollFile h l d a.opening).1 with count := 0 }, (rollFile h l d a.opening).2) := by
  rw [check]
  by_cases hsize : l.rollSize < l.file.writtenBytes
  · rw [if_pos hsize]
  · obtain ⟨hcount, hday⟩ := hrolls.resolve_left hsize
    rw [if_neg hsize, if_neg (Nat.not_lt.mpr hcount), if_pos hday]
    rfl

theorem check_stays (h : Host) {l : LogFile} (d : Files) {a : Answers} (hrolls : ¬ l.rolls a.now) :
    l.file.writtenBytes ≤ l.rollSize ∧
      (l.count + 1 < checkEveryN ∧ check h l d a = ({ l with count := l.count + 1 }, d) ∨
      checkEveryN ≤ l.count + 1 ∧ period a.now = l.startOfPeriod ∧
        (l.flushInterval < a.now - l.lastFlush ∧ check h l d a =
            ({ l with count := 0, lastFlush := a.now, file := (l.file.flush d).1 },
              (l.file.flush d).2) ∨
          a.now - l.lastFlush ≤ l.flushInterval ∧ check h l d a = ({ l with count := 0 }, d))) := by
  rw [rolls, not_or, not_and, Classical.not_not] at hrolls
  obtain ⟨hsize, hday⟩ := hrolls
  refine ⟨Nat.not_lt.mp hsize, ?_⟩
  rw [check, if_neg hsize]
  by_cases hcount : l.count + 1 < checkEveryN
  · rw [if_pos hcount]
    exact .inl ⟨hcount, rfl⟩
  · have hperiod := hday (Nat.not_lt.mp hcount)
    rw [if_neg hcount]
    refine .inr ⟨Nat.not_lt.mp hcount, hperiod, ?_⟩
    simp only [hperiod, ne_eq, not_true_eq_false, if_false]
    by_cases hflush : l.flushInterval < a.now - l.lastFlush
    · rw [if_pos hflush]
      exact .inl ⟨hflush, rfl⟩
    · rw [if_neg hflush]
      exact .inr ⟨Int.not_lt.mp hflush, rfl⟩

theorem check_file (h : Host) {l : LogFile} (d : Files) {a : Answers} (hrolls : ¬ l.rolls a.now) :
    let r := check h l d a
    r.1.basename = l.basename ∧ r.1.file.fp.name = l.file.fp.name ∧
      r.1.file.writtenBytes = l.file.writtenBytes ∧
      r.1.file.fp.view r.2 = l.file.fp.view d := by
  obtain ⟨_, ⟨_, hr⟩ | ⟨_, _, ⟨_, hr⟩ | ⟨_, hr⟩⟩⟩ := check_stays h d hrolls
  · rw [hr]
    exact ⟨rfl, rfl, rfl, rfl⟩
  · rw [hr]
    exact ⟨rfl, rfl, rfl, Stream.view_flush _ _⟩
  · rw [hr]
    exact ⟨rfl, rfl, rfl, rfl⟩

theorem length_taken (data : Bytes) (a : Answers) :
    (taken data a).length = File.accepted a.calls data.length := by
  rw [taken, List.length_take, Nat.min_eq_left (File.accepted_le _ _)]

theorem record_spec (l : LogFile) (d : Files) (data : Bytes) (a : Answers) :
    let r := record l d data a
    r.1.file.writtenBytes = l.file.writtenBytes + (taken data a).length ∧
      l.file.Takes d (taken data a) r.1.file r.2 := by
  rw [length_taken]
  exact l.file.append_spec d data a.calls

theorem make_spec (h : Host) (basename : Bytes) (d : Files) (o : Opening) :
    let r := (File.make (getLogFileName h basename o.now)).append d (flag o.tid o.fd) o.calls
    let p := Part.make h basename o
    r.1.fp.name = p.name ∧ r.1.writtenBytes = p.bytes.length ∧
      r.1.fp.view r.2 = d.extend p.name p.bytes := by
  obtain ⟨hsize, htakes⟩ :=
    (File.make (getLogFileName h basename o.now)).append_spec d (flag o.tid o.fd) o.calls
  have hbytes : (Part.make h basename o).bytes =
      (flag o.tid o.fd).take (File.accepted o.calls (flag o.tid o.fd).length) :=
    List.append_nil _
  refine ⟨htakes.name, ?_, ?_⟩
  · rw [hsize, hbytes, List.length_take, Nat.min_eq_left (File.accepted_le _ _)]
    exact Nat.zero_add _
  · rw [htakes.view, hbytes, File.make, Stream.view_fresh]
    rfl

structure Holds (h : Host) (basename : Bytes) (d : Files) (s : State) : Prop where
  base : s.log.basename = basename
  name : s.log.file.fp.name = s.current.name
  size : s.log.file.writtenBytes = s.current.bytes.length
  view : s.log.file.fp.view s.disk = written d (s.parts.map Part.file)
  named : ∀ p ∈ s.parts, p.name = cstr (getLogFileName h basename p.opened)

theorem holds_make (h : Host) (basename : Bytes) (rollSize : ℕ) (flushInterval : ℤ) (d : Files)
    (o : Opening) : Holds h basename d (State.make h basename rollSize flushInterval d o) := by
  obtain ⟨hname, hsize, hview⟩ := make_spec h basename d o
  refine ⟨rfl, hname, hsize, hview, ?_⟩
  intro p hp
  rw [List.mem_singleton.mp hp]
  rfl

theorem Part.bytes_add (p : Part) (now : ℤ) (data : Bytes) :
    (p.add now data).bytes = p.bytes ++ data := by
  simp only [bytes, texts, add, List.map_append, List.map_singleton, List.flatten_append,
    List.flatten_singleton, List.append_assoc]

theorem Holds.record {h : Host} {basename : Bytes} {d : Files} {s : State}
    (hs : Holds h basename d s) (data : Bytes) (a : Answers) :
    let r := LogFile.record s.log s.disk data a
    let current := s.current.add a.now (taken data a)
    r.1.basename = basename ∧ r.1.file.fp.name = current.name ∧
      r.1.file.writtenBytes = current.bytes.length ∧
      r.1.file.fp.view r.2 = written d ((s.closed ++ [current]).map Part.file) ∧
      ∀ p ∈ s.closed ++ [current], p.name = cstr (getLogFileName h basename p.opened) := by
  obtain ⟨hsize, htakes⟩ := record_spec s.log s.disk data a
  refine ⟨hs.base, htakes.name.trans hs.name, ?_, ?_, ?_⟩
  · rw [hsize, hs.size, Part.bytes_add, List.length_append]
  · have hgrow := written_grow d (s.closed.map Part.file) s.current.name s.current.bytes
      (taken data a)
    have hold := hs.view
    rw [State.parts, List.map_append] at hold
    rw [htakes.view, hold, hs.name, List.map_append]
    refine hgrow.symm.trans ?_
    rw [← Part.bytes_add s.current a.now]
    rfl
  · intro p hp
    rcases List.mem_append.mp hp with hp | hp
    · exact hs.named p (List.mem_append_left _ hp)
    · rw [List.mem_singleton.mp hp]
      exact hs.named s.current (List.mem_append_right _ (List.mem_singleton_self _))

theorem Holds.step {h : Host} {basename : Bytes} {d : Files} {s t : State} {e : Event}
    (hs : Holds h basename d s) (hstep : step h s e = some t) : Holds h basename d t := by
  cases e with
  | append data a =>
    obtain ⟨hbase, hname, hsize, hview, hnamed⟩ := hs.record data a
    simp only [LogFile.step, appendUnlocked] at hstep
    split_ifs at hstep with hrolls
    · cases hstep
      rw [check_rolls h _ hrolls]
      obtain ⟨mname, msize, mview⟩ := make_spec h (LogFile.record s.log s.disk data a).1.basename
        ((LogFile.record s.log s.disk data a).1.file.close
          (LogFile.record s.log s.disk data a).2) a.opening
      have hclosed := hview.symm
      rw [← Stream.disk_flush] at hclosed
      refine ⟨hbase, mname, msize, mview.trans ?_, ?_⟩
      · rw [State.parts, List.map_append, written_append, hclosed]
        rfl
      · intro p hp
        rcases List.mem_append.mp hp with hp | hp
        · exact hnamed p hp
        · rw [List.mem_singleton.mp hp, ← hs.base]
          rfl
    · cases hstep
      obtain ⟨cbase, cname, csize, cview⟩ :=
        check_file h (LogFile.record s.log s.disk data a).2 hrolls
      exact ⟨cbase.trans hbase, cname.trans hname, csize.trans hsize, cview.trans hview, hnamed⟩
  | flush =>
    cases hstep
    exact ⟨hs.base, hs.name, hs.size, (Stream.view_flush _ _).trans hs.view, hs.named⟩

def Event.records : Event → List Bytes
  | .append data _ => [data]
  | .flush => []

/-- What the files get of them: a record ends where a call of `fwrite_unlocked` behind the first
takes nothing. -/
def Event.kept : Event → List Bytes
  | .append data a => [taken data a]
  | .flush => []

/-- No call of `fwrite_unlocked` but the first fails to take anything, so that the loop of `append`
goes on to the end of the record. -/
def Event.Served : Event → Prop
  | .append _ a => ∀ c ∈ a.calls.tail, 0 < c.result
  | .flush => True

theorem taken_eq {data : Bytes} {a : Answers} (h : Event.Served (.append data a)) :
    taken data a = data := by
  rw [taken, File.accepted_eq h, List.take_length]

theorem Part.texts_add (p : Part) (now : ℤ) (data : Bytes) :
    (p.add now data).texts = p.texts ++ [data] := by
  simp only [texts, add, List.map_append, List.map_singleton]

theorem Event.Served.kept {e : Event} (h : e.Served) : e.kept = e.records := by
  cases e with
  | append data a => rw [Event.kept, taken_eq h, Event.records]
  | flush => rfl

theorem texts_step {h : Host} {s t : State} {e : Event} (hstep : step h s e = some t) :
    t.parts.flatMap Part.texts = s.parts.flatMap Part.texts ++ e.kept := by
  cases e with
  | append data a =>
    have hadd : (s.closed ++ [s.current.add a.now (taken data a)]).flatMap Part.texts =
        s.parts.flatMap Part.texts ++ [taken data a] := by
      simp only [State.parts, List.flatMap_append, List.flatMap_singleton, Part.texts_add,
        List.append_assoc]
    simp only [step] at hstep
    split_ifs at hstep
    · cases hstep
      rw [State.parts, List.flatMap_append, hadd]
      exact List.append_nil _
    · cases hstep
      exact hadd
  | flush =>
    cases hstep
    exact (List.append_nil _).symm

/-- A host whose clock reads ten while two records fill two files of the same name. -/
def sampleHost : Host := ⟨decimal, [46, 104], 1⟩

def sampleOpening : Opening := ⟨10, 1, 3, []⟩

def sampleStart : State := .make sampleHost [97] 0 3 (fun _ => []) sampleOpening

def sampleRun : List Event :=
  [.append [98, 99, 100] ⟨[⟨1, 0⟩, ⟨1, 9⟩], 10, sampleOpening⟩,
    .append [101] ⟨[], 10, sampleOpening⟩]

end LogFile

end Matelib
