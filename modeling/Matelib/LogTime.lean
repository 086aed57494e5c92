import Matelib.Buffer
import Matelib.Transition
import Mathlib.Logic.Function.Basic

/-!
# The time in front of a record

`formatTime` keeps the text of the last second in the `t_time` of its thread, and formats it again
only when the second has changed. The `struct tm` that `localtime` fills is shared by all threads,
and `strftime` reads it in a second call. `localtime` and `strftime` are parameters: what the
library makes of a second, and of a broken-down time.
-/

namespace Matelib.LogTime

open Transition

variable {τ σ : Type*}

/-- The call in `formatTime` that is next, with the second that `gettimeofday` returned. -/
inductive Place where
  | idle
  | localtime (sec : ℤ)
  | strftime (sec : ℤ)
  | append (sec : ℤ)
  deriving DecidableEq, Repr

def Place.sec? : Place → Option ℤ
  | .idle => none
  | .localtime sec | .strftime sec | .append sec => some sec

def Place.formats? : Place → Option ℤ
  | .strftime sec => some sec
  | _ => none

/-- `t_lastCache` and `t_time` of a thread; `printed` are the seconds of its records with the texts
that stand in front of them. -/
structure Thread where
  lastCache : ℤ
  time : Bytes
  place : Place
  printed : List (ℤ × Bytes)
  deriving DecidableEq, Repr

structure State (τ σ : Type*) where
  tm : σ
  thread : τ → Thread

inductive Event (τ : Type*) where
  | gettimeofday (t : τ) (sec : ℤ)
  | localtime (t : τ)
  | strftime (t : τ)
  | append (t : τ)
  deriving DecidableEq, Repr

def State.init (tm : σ) : State τ σ := ⟨tm, fun _ => ⟨0, [], .idle, []⟩⟩

/-- A second that is cached is not formatted again. -/
def Thread.read (x : Thread) (sec : ℤ) : Thread :=
  if x.lastCache = sec then { x with place := .append sec }
  else { x with lastCache := sec, place := .localtime sec }

def Thread.append (x : Thread) (sec : ℤ) : Thread :=
  { x with place := .idle, printed := x.printed ++ [(sec, x.time)] }

section Step

variable [DecidableEq τ]

def State.set (s : State τ σ) (t : τ) (x : Thread) : State τ σ :=
  { s with thread := Function.update s.thread t x }

/-- One call of `formatTime`. -/
def step (localtime : ℤ → σ) (strftime : σ → Bytes) (s : State τ σ) :
    Event τ → Option (State τ σ)
  | .gettimeofday t sec =>
    if (s.thread t).place = .idle then some (s.set t ((s.thread t).read sec)) else none
  | .localtime t => match (s.thread t).place with
    | .localtime sec =>
      some { s.set t { s.thread t with place := .strftime sec } with tm := localtime sec }
    | _ => none
  | .strftime t => match (s.thread t).place with
    | .strftime sec =>
      some (s.set t { s.thread t with time := strftime s.tm, place := .append sec })
    | _ => none
  | .append t => match (s.thread t).place with
    | .append sec => some (s.set t ((s.thread t).append sec))
    | _ => none

/-- What a step does. -/
inductive Move (localtime : ℤ → σ) (strftime : σ → Bytes) (s : State τ σ) :
    Event τ → State τ σ → Prop where
  | gettimeofday {t : τ} {sec : ℤ} (hplace : (s.thread t).place = .idle) :
    Move localtime strftime s (.gettimeofday t sec) (s.set t ((s.thread t).read sec))
  | localtime {t : τ} {sec : ℤ} (hplace : (s.thread t).place = .localtime sec) :
    Move localtime strftime s (.localtime t)
      { s.set t { s.thread t with place := .strftime sec } with tm := localtime sec }
  | strftime {t : τ} {sec : ℤ} (hplace : (s.thread t).place = .strftime sec) :
    Move localtime strftime s (.strftime t)
      (s.set t { s.thread t with time := strftime s.tm, place := .append sec })
  | append {t : τ} {sec : ℤ} (hplace : (s.thread t).place = .append sec) :
    Move localtime strftime s (.append t) (s.set t ((s.thread t).append sec))

variable {localtime : ℤ → σ} {strftime : σ → Bytes} {s u : State τ σ} {e : Event τ}

theorem step_move (h : step localtime strftime s e = some u) : Move localtime strftime s e u := by
  cases e with
  | gettimeofday t sec =>
    obtain ⟨hplace, rfl⟩ := of_guard h
    exact .gettimeofday hplace
  | localtime t =>
    rw [step] at h
    cases hplace : (s.thread t).place with
    | localtime sec =>
      rw [hplace, Option.some.injEq] at h
      exact h ▸ .localtime hplace
    | _ =>
      rw [hplace] at h
      cases h
  | strftime t =>
    rw [step] at h
    cases hplace : (s.thread t).place with
    | strftime sec =>
      rw [hplace, Option.some.injEq] at h
      exact h ▸ .strftime hplace
    | _ =>
      rw [hplace] at h
      cases h
  | append t =>
    rw [step] at h
    cases hplace : (s.thread t).place with
    | append sec =>
      rw [hplace, Option.some.injEq] at h
      exact h ▸ .append hplace
    | _ =>
      rw [hplace] at h
      cases h

/-- Behind its first record a thread has in `t_time` what it printed last. -/
structure Thread.Cached (x : Thread) : Prop where
  printed : x.place = .idle → x.lastCache = 0 ∨ (x.lastCache, x.time) ∈ x.printed
  second : ∀ sec, x.place.sec? = some sec → x.lastCache = sec

/-- The texts printed, and one that is to be printed, are those of their seconds. -/
structure Thread.Right (text : ℤ → Bytes) (x : Thread) : Prop where
  printed : ∀ p ∈ x.printed, p.2 = text p.1
  next : ∀ sec, x.place = .append sec → x.time = text sec

theorem Thread.cached_read (x : Thread) (sec : ℤ) : (x.read sec).Cached := by
  rw [Thread.read]
  split_ifs with heq
  · exact ⟨(nomatch ·), fun _ hsec => heq.trans (Option.some.inj hsec)⟩
  · exact ⟨(nomatch ·), fun _ hsec => Option.some.inj hsec⟩

theorem Thread.Cached.append {x : Thread} (h : x.Cached) {sec : ℤ}
    (hplace : x.place = .append sec) : (x.append sec).Cached where
  printed _ := by
    right
    have hsecond : x.lastCache = sec := h.second sec (by rw [hplace]; rfl)
    change (x.lastCache, x.time) ∈ x.printed ++ [(sec, x.time)]
    rw [hsecond]
    exact List.mem_append_right _ List.mem_cons_self
  second _ hsec := nomatch hsec

theorem Thread.Cached.goTo {x : Thread} (h : x.Cached) {place : Place} {sec : ℤ} (time : Bytes)
    (hold : x.place.sec? = some sec) (hnew : place.sec? = some sec) :
    { x with place := place, time := time }.Cached where
  printed hidle := by
    change place = .idle at hidle
    rw [hidle] at hnew
    cases hnew
  second sec' hsec := by
    change place.sec? = some sec' at hsec
    rw [hnew, Option.some.injEq] at hsec
    rw [← hsec]
    exact h.second sec hold

theorem Thread.Cached.right_read {text : ℤ → Bytes} {x : Thread} (h : x.Cached)
    (hplace : x.place = .idle) {sec : ℤ} (hsec : sec ≠ 0) :
    (x.read sec).Right text ↔ x.Right text := by
  have hnext : ∀ sec', x.place = .append sec' → x.time = text sec' := by
    intro sec' happend
    rw [hplace] at happend
    cases happend
  rw [Thread.read]
  split_ifs with heq
  · subst heq
    constructor
    · intro hright
      exact ⟨hright.printed, hnext⟩
    · intro hright
      refine ⟨hright.printed, ?_⟩
      rintro sec' ⟨⟩
      exact hright.printed _ ((h.printed hplace).resolve_left hsec)
  · constructor
    · intro hright
      exact ⟨hright.printed, hnext⟩
    · intro hright
      exact ⟨hright.printed, fun _ happend => nomatch happend⟩

theorem Thread.right_append {text : ℤ → Bytes} {x : Thread} {sec : ℤ}
    (hplace : x.place = .append sec) : (x.append sec).Right text ↔ x.Right text := by
  constructor
  · intro h
    refine ⟨fun p hp => h.printed p (List.mem_append_left _ hp), ?_⟩
    intro sec' happend
    rw [hplace, Place.append.injEq] at happend
    exact h.printed (sec', x.time)
      (happend ▸ List.mem_append_right _ List.mem_cons_self)
  · intro h
    refine ⟨?_, fun _ happend => nomatch happend⟩
    intro p hp
    rcases List.mem_append.mp hp with hold | hnew
    · exact h.printed p hold
    · rw [List.mem_singleton.mp hnew]
      exact h.next sec hplace

theorem Thread.right_localtime {text : ℤ → Bytes} {x : Thread} {sec : ℤ}
    (hplace : x.place = .localtime sec) :
    { x with place := .strftime sec }.Right text ↔ x.Right text := by
  constructor
  · intro h
    refine ⟨h.printed, ?_⟩
    intro sec' happend
    rw [hplace] at happend
    cases happend
  · intro h
    exact ⟨h.printed, fun _ happend => nomatch happend⟩

theorem Thread.right_strftime {text : ℤ → Bytes} {x : Thread} {sec : ℤ}
    (hplace : x.place = .strftime sec) (time : Bytes) :
    { x with time := time, place := .append sec }.Right text ↔
      x.Right text ∧ time = text sec := by
  constructor
  · intro h
    refine ⟨⟨h.printed, ?_⟩, h.next sec rfl⟩
    intro sec' happend
    rw [hplace] at happend
    cases happend
  · rintro ⟨h, htime⟩
    refine ⟨h.printed, ?_⟩
    rintro sec' ⟨⟩
    exact htime

theorem forall_thread_set {Q : Thread → Prop} {t : τ} {x : Thread} :
    (∀ v, Q ((s.set t x).thread v)) ↔ Q x ∧ ∀ v, v ≠ t → Q (s.thread v) := by
  have hself : (s.set t x).thread t = x := Function.update_self ..
  have hother : ∀ v, v ≠ t → (s.set t x).thread v = s.thread v := fun v hv =>
    Function.update_of_ne hv ..
  constructor
  · intro h
    refine ⟨hself ▸ h t, fun v hv => ?_⟩
    rw [← hother v hv]
    exact h v
  · rintro ⟨ht, hv⟩ v
    by_cases heq : v = t
    · rw [heq, hself]
      exact ht
    · rw [hother v heq]
      exact hv v heq

theorem forall_thread_set_iff {Q : Thread → Prop} {t : τ} {x : Thread} {g : Prop}
    (h : Q x ↔ Q (s.thread t) ∧ g) :
    (∀ v, Q ((s.set t x).thread v)) ↔ (∀ v, Q (s.thread v)) ∧ g := by
  rw [forall_thread_set, h]
  constructor
  · rintro ⟨⟨ht, hg⟩, hv⟩
    refine ⟨fun v => ?_, hg⟩
    by_cases heq : v = t
    · rw [heq]
      exact ht
    · exact hv v heq
  · rintro ⟨hall, hg⟩
    exact ⟨⟨hall t, hg⟩, fun v _ => hall v⟩

def AllCached (s : State τ σ) : Prop := ∀ t, (s.thread t).Cached

theorem step_cached (h : AllCached s) (hstep : step localtime strftime s e = some u) :
    AllCached u := by
  cases step_move hstep with
  | gettimeofday hplace =>
    exact forall_thread_set.mpr ⟨Thread.cached_read _ _, fun v _ => h v⟩
  | localtime hplace =>
    exact forall_thread_set.mpr
      ⟨(h _).goTo _ (by rw [hplace]; rfl) rfl, fun v _ => h v⟩
  | strftime hplace =>
    exact forall_thread_set.mpr
      ⟨(h _).goTo _ (by rw [hplace]; rfl) rfl, fun v _ => h v⟩
  | append hplace =>
    exact forall_thread_set.mpr ⟨(h _).append hplace, fun v _ => h v⟩

/-- The clock is not in the first second of the epoch, the value of `t_lastCache` at the start. -/
def Clock (_ : State τ σ) : Event τ → Prop
  | .gettimeofday _ sec => sec ≠ 0
  | _ => True

/-- `strftime` finds a time that formats as the one that `localtime` made for its thread. -/
def OwnTime (localtime : ℤ → σ) (strftime : σ → Bytes) (s : State τ σ) : Event τ → Prop
  | .strftime t => ∀ sec ∈ (s.thread t).place.formats?, strftime s.tm = strftime (localtime sec)
  | _ => True

theorem step_right (h : AllCached s) (hclock : Clock s e)
    (hstep : step localtime strftime s e = some u) :
    (∀ t, (u.thread t).Right fun sec => strftime (localtime sec)) ↔
      (∀ t, (s.thread t).Right fun sec => strftime (localtime sec)) ∧
        OwnTime localtime strftime s e := by
  cases step_move hstep with
  | gettimeofday hplace =>
    apply forall_thread_set_iff
    rw [(h _).right_read hplace hclock]
    exact (and_iff_left trivial).symm
  | localtime hplace =>
    exact forall_thread_set_iff (s := s) (g := True)
      ((Thread.right_localtime hplace).trans (and_iff_left trivial).symm)
  | strftime hplace =>
    apply forall_thread_set_iff
    rw [Thread.right_strftime hplace]
    apply and_congr_right
    intro _
    simp only [OwnTime, hplace, Place.formats?, Option.mem_some_iff, forall_eq']
  | append hplace =>
    apply forall_thread_set_iff
    rw [Thread.right_append hplace]
    exact (and_iff_left trivial).symm

instance (s : State τ σ) : ∀ e, Decidable (Clock s e)
  | .gettimeofday _ _ => inferInstanceAs (Decidable (_ ≠ _))
  | .localtime _ | .strftime _ | .append _ => inferInstanceAs (Decidable True)

instance (s : State τ σ) : ∀ e, Decidable (OwnTime localtime strftime s e)
  | .strftime _ => inferInstanceAs (Decidable (∀ sec ∈ _, _))
  | .gettimeofday _ _ | .localtime _ | .append _ => inferInstanceAs (Decidable True)

theorem run_right {tm : σ} {events : List (Event τ)}
    (hclock : Along (step localtime strftime) Clock (.init tm) events)
    (hrun : runFrom (step localtime strftime) (.init tm) events = some s) :
    (∀ t, (s.thread t).Right fun sec => strftime (localtime sec)) ↔
      Along (step localtime strftime) (OwnTime localtime strftime) (.init tm) events := by
  have hcached : AllCached (State.init tm : State τ σ) := by
    intro t
    constructor
    · exact fun _ => .inl rfl
    · intro sec hsec
      cases hsec
  have hright : ∀ t, ((State.init tm : State τ σ).thread t).Right
      fun sec => strftime (localtime sec) := by
    intro t
    constructor
    · exact List.forall_mem_nil _
    · intro sec hplace
      cases hplace
  rw [end_iff_along (fun _ _ _ h _ => step_cached h) (fun _ _ _ => step_right) hcached hclock hrun]
  exact and_iff_right hright

/-- In a run whose calls of `formatTime` have all returned, every record has the text of its second
in front of it exactly when every `strftime` found in the shared `struct tm` a time that formats as
the one its own thread had asked for. A text that is wrong once stays in `t_time` for all records of
the same second. -/
theorem texts_right_iff {tm : σ} {events : List (Event τ)}
    (hclock : Along (step localtime strftime) Clock (.init tm) events)
    (hrun : runFrom (step localtime strftime) (.init tm) events = some s)
    (hidle : ∀ t, (s.thread t).place = .idle) :
    (∀ t, ∀ p ∈ (s.thread t).printed, p.2 = strftime (localtime p.1)) ↔
      Along (step localtime strftime) (OwnTime localtime strftime) (.init tm) events := by
  rw [← run_right hclock hrun]
  constructor
  · intro h t
    refine ⟨h t, ?_⟩
    intro sec hplace
    rw [hidle t] at hplace
    cases hplace
  · intro h t
    exact (h t).printed

/-- Two threads in different seconds: `strftime` of the first finds the time of the second. The next
record of the first thread takes the wrong text from `t_time`. -/
def racingRun : List (Event Bool) :=
  [.gettimeofday true 5, .localtime true, .gettimeofday false 6, .localtime false, .strftime true,
   .append true, .strftime false, .append false, .gettimeofday true 5, .append true]

theorem racingRun_wrong : ∃ s, runFrom (step id fun sec => [UInt8.ofNat sec.toNat])
    (.init (0 : ℤ)) racingRun = some s ∧
      ¬∀ t, ∀ p ∈ (s.thread t).printed, p.2 = [UInt8.ofNat (id p.1).toNat] := by
  have hisSome : (runFrom (step id fun sec => [UInt8.ofNat sec.toNat]) (.init (0 : ℤ))
      racingRun).isSome = true := by
    decide +kernel
  obtain ⟨s, hs⟩ := Option.isSome_iff_exists.mp hisSome
  have hidle : ∀ t, (s.thread t).place = .idle := by
    have hall : ((runFrom (step id fun sec => [UInt8.ofNat sec.toNat]) (.init (0 : ℤ))
        racingRun).all fun s => decide (∀ t, (s.thread t).place = .idle)) = true := by
      decide +kernel
    rw [hs] at hall
    exact of_decide_eq_true hall
  refine ⟨s, hs, ?_⟩
  rw [texts_right_iff (by decide +kernel) hs hidle]
  decide +kernel

/-- `localtime` is not called while another thread is about to read what it has got. -/
def Exclusive (s : State τ σ) : Event τ → Prop
  | .localtime t => ∀ v sec, v ≠ t → (s.thread v).place ≠ .strftime sec
  | _ => True

/-- What `strftime` will find is what the thread has asked for. -/
def Thread.Finds (localtime : ℤ → σ) (tm : σ) (x : Thread) : Prop :=
  ∀ sec, x.place = .strftime sec → tm = localtime sec

theorem Thread.finds_of_other (tm : σ) {x : Thread} (h : x.place.formats? = none) :
    x.Finds localtime tm := by
  intro sec hplace
  rw [hplace] at h
  cases h

theorem step_finds (h : ∀ t, (s.thread t).Finds localtime s.tm) (hexclusive : Exclusive s e)
    (hstep : step localtime strftime s e = some u) : ∀ t, (u.thread t).Finds localtime u.tm := by
  cases step_move hstep with
  | @gettimeofday t sec hplace =>
    refine forall_thread_set (Q := Thread.Finds localtime s.tm) |>.mpr ⟨?_, fun v _ => h v⟩
    apply Thread.finds_of_other
    rw [Thread.read]
    split_ifs <;> rfl
  | @localtime t sec hplace =>
    refine forall_thread_set (Q := Thread.Finds localtime (localtime sec)) |>.mpr ⟨?_, ?_⟩
    · rintro sec' ⟨⟩
      rfl
    · intro v hv sec' hformats
      exact absurd hformats (hexclusive v sec' hv)
  | strftime hplace =>
    refine forall_thread_set (Q := Thread.Finds localtime s.tm) |>.mpr ⟨?_, fun v _ => h v⟩
    exact Thread.finds_of_other s.tm rfl
  | append hplace =>
    refine forall_thread_set (Q := Thread.Finds localtime s.tm) |>.mpr ⟨?_, fun v _ => h v⟩
    exact Thread.finds_of_other s.tm rfl

/-- As long as the threads do not overlap between `localtime` and `strftime`, the cache never
changes what is printed. -/
theorem exclusive_texts_right {tm : σ} {events : List (Event τ)}
    (hclock : Along (step localtime strftime) Clock (.init tm) events)
    (hexclusive : Along (step localtime strftime) Exclusive (.init tm) events)
    (hrun : runFrom (step localtime strftime) (.init tm) events = some s) (t : τ) :
    ∀ p ∈ (s.thread t).printed, p.2 = strftime (localtime p.1) := by
  refine ((run_right hclock hrun).mpr ?_ t).printed
  refine along_of_invariant (I := fun s => ∀ t, (s.thread t).Finds localtime s.tm) ?_
    (fun _ _ _ => step_finds) ?_ hexclusive
  · rintro a e ha -
    cases e with
    | strftime v =>
      intro sec hsec
      cases hplace : (a.thread v).place with
      | strftime sec' =>
        rw [hplace] at hsec
        cases hsec
        rw [ha v sec hplace]
      | _ =>
        rw [hplace] at hsec
        cases hsec
    | _ => trivial
  · exact fun _ => Thread.finds_of_other tm rfl

end Step

end Matelib.LogTime
