import Mathlib.Algebra.BigOperators.Group.Finset.Basic
import Matelib.TcpClient

/-!
# Series of attempts to connect

A call of `connect` by the user, and the repetitions that each call schedules with `runAfter`. The
results of `::connect` are any sequence. A series has at most eleven calls, since the counter of
the attempts goes up in the test of each of them. The delays of a series double until they reach
`maxRetryDelayMs_`, which is tested before the doubling. For a handshake in progress the results are
those of the kernel at the times of the calls.
-/

namespace Matelib.TcpClient

def Effect.delay? : Effect → Option ℤ
  | .runAfter retryDelayMs => some retryDelayMs
  | _ => none

def delays (effects : List Effect) : List ℤ := effects.filterMap Effect.delay?

def Effect.isConnect : Effect → Bool
  | .connect _ => true
  | _ => false

def connects (effects : List Effect) : ℕ := effects.countP Effect.isConnect

/-- The first call of `connect` that reads `results`, and the repetitions, as far as the fuel
goes. -/
def series (results : ℕ → SavedError) : ℕ → TcpClient → TcpClient × List Effect
  | 0, c => (c, [])
  | fuel + 1, c =>
    let r := c.connect (results 0)
    if delays r.2.2 = [] then (r.1, r.2.2)
    else
      let rest := series (fun i => results (i + 1)) fuel r.1
      (rest.1, r.2.2 ++ rest.2)

def callsLeft (c : TcpClient) : ℕ := maxRetryTimes - c.connectTimes + 1

def attempts (c : TcpClient) (results : ℕ → SavedError) : TcpClient × List Effect :=
  series results c.callsLeft c

variable {c : TcpClient}

theorem initConnection_effects (c : TcpClient) :
    c.initConnection.2.2 = .initConnection ::
      .conn (.update c.conn.channel.enableReading.events) ::
        if c.connectionCallback then [.connectionCallback .kConnected] else [] := by
  change _ :: _ :: (_ ++ []) = _
  rw [List.append_nil]
  rfl

theorem delays_initConnection (c : TcpClient) : delays c.initConnection.2.2 = [] := by
  rw [initConnection_effects]
  cases c.connectionCallback <;> rfl

theorem delays_giveUp (c : TcpClient) : delays c.giveUp.2.2 = [] := by
  rw [giveUp, report]
  cases c.connectionCallback <;> rfl

theorem delays_connect (c : TcpClient) (savedError : SavedError) :
    delays (c.connect savedError).2.2 =
      if c.connectTimes < maxRetryTimes ∧ savedError.retries = true then [c.retryDelayMs]
      else [] := by
  by_cases hc : c.connectTimes < maxRetryTimes
  · rw [connect_of_lt hc]
    change delays (c.attempted.answer savedError).2.2 = _
    cases hr : savedError.retries with
    | true =>
      rw [answer_retry hr, if_pos ⟨hc, rfl⟩]
      rfl
    | false =>
      rw [if_neg (by simp)]
      cases hs : savedError.succeeds with
      | true => rw [answer_success hs, delays_initConnection]
      | false => rw [answer_fatal hs hr, delays_giveUp]
  · rw [connect_exhausted (not_lt.mp hc), delays_giveUp, if_neg (fun h => hc h.1)]

def retried (c : TcpClient) : TcpClient := c.attempted.retry.1

theorem connect_retried (hc : c.connectTimes < maxRetryTimes) {savedError : SavedError}
    (h : savedError.retries = true) :
    c.connect savedError = (c.retried, 0, [.connect c.sockfd, .runAfter c.retryDelayMs]) := by
  rw [connect_of_lt hc, answer_retry h]
  rfl

theorem callsLeft_retried (hc : c.connectTimes < maxRetryTimes) :
    c.callsLeft = c.retried.callsLeft + 1 := by
  change maxRetryTimes - c.connectTimes + 1 = maxRetryTimes - (c.connectTimes + 1) + 1 + 1
  omega

theorem series_retry (hc : c.connectTimes < maxRetryTimes) {results : ℕ → SavedError}
    (h : (results 0).retries = true) (fuel : ℕ) :
    series results (fuel + 1) c = ((series (fun i => results (i + 1)) fuel c.retried).1,
      .connect c.sockfd :: .runAfter c.retryDelayMs ::
        (series (fun i => results (i + 1)) fuel c.retried).2) := by
  rw [series]
  simp only [connect_retried hc h]
  rfl

theorem series_last {results : ℕ → SavedError}
    (h : ¬(c.connectTimes < maxRetryTimes ∧ (results 0).retries = true)) (fuel : ℕ) :
    series results (fuel + 1) c = ((c.connect (results 0)).1, (c.connect (results 0)).2.2) := by
  have hdelays := delays_connect c (results 0)
  rw [if_neg h] at hdelays
  rw [series]
  simp only [hdelays, if_true]

theorem series_fuel (results : ℕ → SavedError) {fuel : ℕ} (h : c.callsLeft ≤ fuel) :
    series results fuel c = c.attempts results := by
  rw [attempts]
  induction fuel generalizing c results with
  | zero => exact absurd h (by rw [callsLeft]; omega)
  | succ fuel ih =>
    by_cases hr : c.connectTimes < maxRetryTimes ∧ (results 0).retries = true
    · have hleft := callsLeft_retried hr.1
      rw [hleft, series_retry hr.1 hr.2, series_retry hr.1 hr.2, ih]
      omega
    · rw [callsLeft, series_last hr, series_last hr]

theorem attempts_retry (hc : c.connectTimes < maxRetryTimes) {results : ℕ → SavedError}
    (h : (results 0).retries = true) :
    c.attempts results = ((c.retried.attempts fun i => results (i + 1)).1,
      .connect c.sockfd :: .runAfter c.retryDelayMs ::
        (c.retried.attempts fun i => results (i + 1)).2) := by
  rw [attempts, callsLeft_retried hc, series_retry hc h]
  rfl

theorem attempts_last {results : ℕ → SavedError}
    (h : ¬(c.connectTimes < maxRetryTimes ∧ (results 0).retries = true)) :
    c.attempts results = ((c.connect (results 0)).1, (c.connect (results 0)).2.2) :=
  series_last h _

def leading (results : ℕ → SavedError) : ℕ → ℕ
  | 0 => 0
  | n + 1 => if (results 0).retries then leading (fun i => results (i + 1)) n + 1 else 0

def repetitions (c : TcpClient) (results : ℕ → SavedError) : ℕ :=
  leading results (maxRetryTimes - c.connectTimes)

/-- The induction along a series: over the attempts that are retried, to the last call. -/
theorem attempts_induction {P : TcpClient → (ℕ → SavedError) → Prop}
    (hretry : ∀ (c : TcpClient) (results : ℕ → SavedError), c.connectTimes < maxRetryTimes →
      (results 0).retries = true → P c.retried (fun i => results (i + 1)) → P c results)
    (hlast : ∀ (c : TcpClient) (results : ℕ → SavedError),
      ¬(c.connectTimes < maxRetryTimes ∧ (results 0).retries = true) → P c results)
    (c : TcpClient) (results : ℕ → SavedError) : P c results := by
  induction hn : maxRetryTimes - c.connectTimes generalizing c results with
  | zero => exact hlast c results (fun h => by omega)
  | succ n ih =>
    by_cases h : c.connectTimes < maxRetryTimes ∧ (results 0).retries = true
    · refine hretry c results h.1 h.2 (ih _ _ ?_)
      change maxRetryTimes - (c.connectTimes + 1) = n
      omega
    · exact hlast c results h

theorem repetitions_retry (hc : c.connectTimes < maxRetryTimes) {results : ℕ → SavedError}
    (h : (results 0).retries = true) :
    c.repetitions results = c.retried.repetitions (fun i => results (i + 1)) + 1 := by
  have hleft : maxRetryTimes - c.connectTimes = maxRetryTimes - c.retried.connectTimes + 1 := by
    change _ = maxRetryTimes - (c.connectTimes + 1) + 1
    omega
  rw [repetitions, hleft, leading, if_pos h]
  rfl

theorem repetitions_last {results : ℕ → SavedError}
    (h : ¬(c.connectTimes < maxRetryTimes ∧ (results 0).retries = true)) :
    c.repetitions results = 0 := by
  rw [repetitions]
  cases hn : maxRetryTimes - c.connectTimes with
  | zero => rfl
  | succ n => rw [leading, if_neg (fun hr => h ⟨by omega, hr⟩)]

def delayAt (retryDelayMs : ℤ) (i : ℕ) : ℤ := nextDelay^[i] retryDelayMs

theorem delays_attempts (c : TcpClient) (results : ℕ → SavedError) :
    delays (c.attempts results).2 =
      (List.range (c.repetitions results)).map (delayAt c.retryDelayMs) := by
  induction c, results using attempts_induction with
  | hretry c results hc hr ih =>
    rw [attempts_retry hc hr, repetitions_retry hc hr, List.range_succ_eq_map, List.map_cons,
      List.map_map]
    exact congrArg (c.retryDelayMs :: ·) ih
  | hlast c results h => rw [attempts_last h, delays_connect, if_neg h, repetitions_last h]; rfl

theorem le_nextDelay (d : ℤ) : d ≤ nextDelay d := by
  rw [nextDelay]
  split_ifs with h <;> omega

theorem delayAt_succ (d : ℤ) (i : ℕ) : delayAt d (i + 1) = nextDelay (delayAt d i) :=
  Function.iterate_succ_apply' nextDelay i d

theorem delayAt_mono (d : ℤ) : Monotone (delayAt d) := by
  apply monotone_nat_of_le_succ
  intro i
  rw [delayAt_succ]
  exact le_nextDelay _

theorem delayAt_of_nonpos {d : ℤ} (h : d ≤ 0) (i : ℕ) : delayAt d i = d := by
  induction i with
  | zero => rfl
  | succ i ih => rw [delayAt_succ, ih, nextDelay, if_neg (by omega)]

theorem delayAt_le_pow {d : ℤ} (h : 0 < d) (i : ℕ) : delayAt d i ≤ d * 2 ^ i := by
  induction i with
  | zero => simp [delayAt]
  | succ i ih =>
    have hpow : d * 2 ^ (i + 1) = d * 2 ^ i * 2 := by ring
    have hpos : 0 < d * 2 ^ i := by positivity
    rw [delayAt_succ, nextDelay, hpow]
    split_ifs <;> omega

theorem delayAt_eq_pow {d : ℤ} (h : 0 < d) {i : ℕ}
    (hi : ∀ j < i, delayAt d j < maxRetryDelayMs) : delayAt d i = d * 2 ^ i := by
  induction i with
  | zero => simp [delayAt]
  | succ i ih =>
    have hlast := ih fun j hj => hi j (by omega)
    have hlt := hi i (by omega)
    have hpos : 0 < d * 2 ^ i := by positivity
    rw [delayAt_succ, nextDelay, if_pos ⟨by omega, hlt⟩, hlast]
    ring

theorem delayAt_le_of_pow_eq {d : ℤ} {j : ℕ} (h : d * 2 ^ j = maxRetryDelayMs) (i : ℕ) :
    delayAt d i ≤ maxRetryDelayMs := by
  have hlimit : 0 < maxRetryDelayMs := by decide
  suffices hreach : ∃ k, delayAt d i * 2 ^ k = maxRetryDelayMs by
    obtain ⟨k, hk⟩ := hreach
    have hpow : (1 : ℤ) ≤ 2 ^ k := one_le_pow₀ (by decide)
    nlinarith
  induction i with
  | zero => exact ⟨j, h⟩
  | succ i ih =>
    obtain ⟨k, hk⟩ := ih
    rw [delayAt_succ, nextDelay]
    split_ifs with hbelow
    · cases k with
      | zero => omega
      | succ k => exact ⟨k, by rw [← hk]; ring⟩
    · exact ⟨k, hk⟩

/-- The delays of `n` repetitions keep the limit: they do not grow, or none has been doubled beyond
it, or one of them meets it. -/
def Fits (retryDelayMs : ℤ) (n : ℕ) : Prop :=
  retryDelayMs ≤ 0 ∨ retryDelayMs * 2 ^ (n - 1) ≤ maxRetryDelayMs ∨
    ∃ j, retryDelayMs * 2 ^ j = maxRetryDelayMs

theorem delayAt_le_iff {d : ℤ} (hd : d ≤ maxRetryDelayMs) (n : ℕ) :
    (∀ i < n, delayAt d i ≤ maxRetryDelayMs) ↔ Fits d n := by
  rcases le_or_gt d 0 with hneg | hpos
  · refine iff_of_true ?_ (.inl hneg)
    intro i _
    rw [delayAt_of_nonpos hneg]
    exact hd
  constructor
  · intro h
    by_cases hreach : ∃ j, d * 2 ^ j = maxRetryDelayMs
    · exact .inr (.inr hreach)
    · have hbelow : ∀ i < n, delayAt d i < maxRetryDelayMs := by
        intro i
        induction i using Nat.strong_induction_on with
        | _ i ih =>
          intro hi
          have hpow := delayAt_eq_pow hpos fun j hj => ih j hj (by omega)
          exact lt_of_le_of_ne (h i hi) fun heq => hreach ⟨i, by rw [← hpow, heq]⟩
      refine .inr (.inl ?_)
      cases n with
      | zero => simpa using hd
      | succ n =>
        have hpow := delayAt_eq_pow hpos fun j (hj : j < n) => hbelow j (by omega)
        rw [Nat.add_sub_cancel, ← hpow]
        exact h n (by omega)
  · rintro (hneg | hpow | ⟨j, hj⟩) i hi
    · omega
    · have hmono := delayAt_mono d (show i ≤ n - 1 by omega)
      exact hmono.trans ((delayAt_le_pow hpos (n - 1)).trans hpow)
    · exact delayAt_le_of_pow_eq hj i

def reports (effects : List Effect) : ℕ := effects.count (.connectionCallback .kConnectError)

/-- No delay is above the limit, delays do not decrease, `::connect` is called at most
`maxRetryTimes` times, and a series without success reports the error once. -/
structure WithinLimits (effects : List Effect) : Prop where
  capped : ∀ d ∈ delays effects, d ≤ maxRetryDelayMs
  ascending : (delays effects).Pairwise (· ≤ ·)
  attempts : connects effects ≤ maxRetryTimes
  reported : .initConnection ∉ effects → reports effects = 1

theorem ascending_attempts (c : TcpClient) (results : ℕ → SavedError) :
    (delays (c.attempts results).2).Pairwise (· ≤ ·) := by
  rw [delays_attempts, List.pairwise_map]
  exact List.pairwise_lt_range.imp fun hij => delayAt_mono _ hij.le

theorem connects_initConnection (c : TcpClient) : connects c.initConnection.2.2 = 0 := by
  rw [initConnection_effects]
  cases c.connectionCallback <;> rfl

theorem connects_giveUp (c : TcpClient) : connects c.giveUp.2.2 = 0 := by
  rw [giveUp, report]
  cases c.connectionCallback <;> rfl

theorem connects_connect (c : TcpClient) (savedError : SavedError) :
    connects (c.connect savedError).2.2 = if c.connectTimes < maxRetryTimes then 1 else 0 := by
  by_cases hc : c.connectTimes < maxRetryTimes
  · have hanswer : connects (c.attempted.answer savedError).2.2 = 0 := by
      cases hr : savedError.retries with
      | true =>
        rw [answer_retry hr]
        rfl
      | false =>
        cases hs : savedError.succeeds with
        | true => rw [answer_success hs, connects_initConnection]
        | false => rw [answer_fatal hs hr, connects_giveUp]
    rw [connect_of_lt hc, if_pos hc, connects, List.countP_cons_of_pos rfl, ← connects, hanswer]
  · rw [connect_exhausted (not_lt.mp hc), connects_giveUp, if_neg hc]

theorem connects_attempts (c : TcpClient) (results : ℕ → SavedError) :
    connects (c.attempts results).2 ≤ maxRetryTimes - c.connectTimes := by
  induction c, results using attempts_induction with
  | hretry c results hc hr ih =>
    have hleft : maxRetryTimes - c.connectTimes = maxRetryTimes - c.retried.connectTimes + 1 := by
      change _ = maxRetryTimes - (c.connectTimes + 1) + 1
      omega
    rw [attempts_retry hc hr, hleft, connects, List.countP_cons_of_pos rfl,
      List.countP_cons_of_neg Bool.false_ne_true]
    exact Nat.succ_le_succ ih
  | hlast c results h =>
    rw [attempts_last h, connects_connect]
    split_ifs <;> omega

/-- One call of `initConnection`, and the client is connected; or none, and an error that is
reported, if there is a callback. -/
def Ended (r : TcpClient × List Effect) (callback : Bool) : Prop :=
  (r.2.count .initConnection = 1 ∧ r.1.state = .kConnected) ∨
  (.initConnection ∉ r.2 ∧ r.1.state = .kConnectError ∧ reports r.2 = if callback then 1 else 0)

theorem Ended.cons {c : TcpClient} {effects : List Effect} {callback : Bool}
    (h : Ended (c, effects) callback) {effect : Effect} (hinit : effect ≠ .initConnection)
    (hreport : effect ≠ .connectionCallback .kConnectError) :
    Ended (c, effect :: effects) callback := by
  rcases h with ⟨hcount, hstate⟩ | ⟨hnone, hstate, hreports⟩
  · exact .inl ⟨(List.count_cons_of_ne hinit).trans hcount, hstate⟩
  · refine .inr ⟨?_, hstate, (List.count_cons_of_ne hreport).trans hreports⟩
    rw [List.mem_cons, not_or]
    exact ⟨hinit.symm, hnone⟩

theorem ended_initConnection (c : TcpClient) :
    Ended (c.initConnection.1, c.initConnection.2.2) c.connectionCallback := by
  refine .inl ⟨?_, rfl⟩
  rw [initConnection_effects]
  cases c.connectionCallback <;> rfl

theorem ended_giveUp (c : TcpClient) :
    Ended (c.giveUp.1, c.giveUp.2.2) c.connectionCallback := by
  right
  rw [giveUp, report]
  cases c.connectionCallback <;> exact ⟨by simp, rfl, rfl⟩

theorem ended_connect {savedError : SavedError}
    (h : ¬(c.connectTimes < maxRetryTimes ∧ savedError.retries = true)) :
    Ended ((c.connect savedError).1, (c.connect savedError).2.2) c.connectionCallback := by
  by_cases hc : c.connectTimes < maxRetryTimes
  · have hr : savedError.retries = false := by simpa [hc] using h
    rw [connect_of_lt hc]
    refine Ended.cons ?_ nofun nofun
    cases hs : savedError.succeeds with
    | true =>
      rw [answer_success hs]
      exact ended_initConnection c.attempted
    | false =>
      rw [answer_fatal hs hr]
      exact ended_giveUp c.attempted
  · rw [connect_exhausted (not_lt.mp hc)]
    exact ended_giveUp c.attempted

theorem ended_attempts (c : TcpClient) (results : ℕ → SavedError) :
    Ended (c.attempts results) c.connectionCallback := by
  induction c, results using attempts_induction with
  | hretry c results hc hr ih =>
    rw [attempts_retry hc hr]
    refine Ended.cons ?_ nofun nofun
    refine Ended.cons ?_ nofun nofun
    exact ih
  | hlast c results h =>
    rw [attempts_last h]
    exact ended_connect h

/-- A series from a delay within the limit, with any results, keeps all its limits exactly when the
delays of its repetitions fit: that depends on the delay and on the number of results before the
first one that is not retried. -/
theorem withinLimits_iff_fits (c : TcpClient) (results : ℕ → SavedError)
    (hcallback : c.connectionCallback = true) (hdelay : c.retryDelayMs ≤ maxRetryDelayMs) :
    WithinLimits (c.attempts results).2 ↔ Fits c.retryDelayMs (c.repetitions results) := by
  rw [← delayAt_le_iff hdelay]
  constructor
  · intro h i hi
    apply h.capped
    rw [delays_attempts]
    exact List.mem_map_of_mem (List.mem_range.mpr hi)
  · intro h
    refine ⟨?_, ascending_attempts c results, ?_, ?_⟩
    · intro d hd
      rw [delays_attempts] at hd
      obtain ⟨i, hi, rfl⟩ := List.mem_map.mp hd
      exact h i (List.mem_range.mp hi)
    · exact (connects_attempts c results).trans (Nat.sub_le _ _)
    · intro hnone
      rcases ended_attempts c results with ⟨hcount, -⟩ | ⟨-, -, hreports⟩
      · rw [List.count_eq_zero_of_not_mem hnone] at hcount
        cases hcount
      · rw [hreports, hcallback]
        rfl

/-- With half a second at first, eight repetitions pass the limit. -/
theorem default_delay_exceeds :
    ¬WithinLimits (((new 7 500).setConnectionCallback.attempts fun _ => .ECONNREFUSED).2) := by
  intro h
  exact absurd (h.capped 32000 (by decide)) (by decide)

theorem thirty_seconds_within :
    WithinLimits (((new 7 30000).setConnectionCallback.attempts fun _ => .ECONNREFUSED).2) ↔
      Fits 30000 (((new 7 30000).setConnectionCallback).repetitions fun _ => .ECONNREFUSED) :=
  withinLimits_iff_fits (new 7 30000).setConnectionCallback _ rfl le_rfl

variable {𝕜 : Type*} [Ring 𝕜] [LinearOrder 𝕜]

/-- A handshake that takes `duration` milliseconds from the first `::connect`, with the time by
which each repetition is late after its delay, and what the kernel answers after the handshake. -/
structure Handshake (𝕜 : Type*) [Ring 𝕜] [LinearOrder 𝕜] where
  duration : 𝕜
  late : ℕ → 𝕜
  complete : ℕ → SavedError
  succeeds : ∀ i, (complete i).succeeds = true

def Handshake.time (h : Handshake 𝕜) (retryDelayMs : ℤ) (i : ℕ) : 𝕜 :=
  ∑ j ∈ Finset.range i, ((delayAt retryDelayMs j : 𝕜) + h.late j)

def Handshake.answers (h : Handshake 𝕜) (retryDelayMs : ℤ) (i : ℕ) : SavedError :=
  if i = 0 then .EINPROGRESS
  else if h.time retryDelayMs i < h.duration then .EALREADY else h.complete i

/-- The handshake is over at the time of the last attempt. -/
def Handshake.WithinBudget (h : Handshake 𝕜) (retryDelayMs : ℤ) : Prop :=
  h.duration ≤ h.time retryDelayMs (maxRetryTimes - 1)

def Connects (r : TcpClient × List Effect) : Prop :=
  r.2.count .initConnection = 1 ∧ r.1.state ≠ .kConnectError

theorem connects_iff_state (c : TcpClient) (results : ℕ → SavedError) :
    Connects (c.attempts results) ↔ (c.attempts results).1.state ≠ .kConnectError := by
  rw [Connects, and_iff_right_iff_imp]
  intro hstate
  rcases ended_attempts c results with ⟨hcount, -⟩ | ⟨-, herror, -⟩
  · exact hcount
  · exact absurd herror hstate

theorem Handshake.answers_one (h : Handshake 𝕜) (d : ℤ) :
    h.answers d 1 = if h.time d 1 < h.duration then .EALREADY else h.complete 1 :=
  if_neg (by decide)

theorem retries_of_succeeds {savedError : SavedError} (h : savedError.succeeds = true) :
    savedError.retries = false := by
  cases savedError <;> first | rfl | cases h

theorem attempts_handshake (h : Handshake 𝕜) (hc : c.connectTimes = 0) :
    (c.attempts (h.answers c.retryDelayMs)).1 =
      (c.retried.attempted.answer (h.answers c.retryDelayMs 1)).1 := by
  have hlt : c.retried.connectTimes < maxRetryTimes := by
    change c.connectTimes + 1 < maxRetryTimes
    rw [hc]
    decide
  have hlast : (h.answers c.retryDelayMs 1).retries = false := by
    rw [Handshake.answers_one]
    split_ifs
    · rfl
    · exact retries_of_succeeds (h.succeeds 1)
  rw [attempts_retry (by rw [hc]; decide) rfl, attempts_last (by simp [hlast]), connect_of_lt hlt]

/-- A client that has not tried to connect before gets through a handshake, whatever its delays and
the lateness of its timer, exactly when the handshake is over at its first repetition. -/
theorem connects_handshake_iff (c : TcpClient) (h : Handshake 𝕜) (hc : c.connectTimes = 0) :
    Connects (c.attempts (h.answers c.retryDelayMs)) ↔
      h.duration ≤ c.retryDelayMs + h.late 0 := by
  have htime : h.time c.retryDelayMs 1 = c.retryDelayMs + h.late 0 := by
    rw [Handshake.time, Finset.sum_range_one]
    rfl
  rw [connects_iff_state, attempts_handshake h hc, ← htime, Handshake.answers_one]
  split_ifs with hpending
  · exact iff_of_false (fun hstate => hstate rfl) (not_le.mpr hpending)
  · rw [answer_success (h.succeeds 1)]
    exact iff_of_true nofun (not_lt.mp hpending)

/-- A handshake of six hundred milliseconds and a timer that is never late. -/
def slowHandshake : Handshake ℤ where
  duration := 600
  late _ := 0
  complete _ := .success
  succeeds _ := rfl

theorem slowHandshake_fails :
    slowHandshake.WithinBudget 500 ∧
      ¬Connects ((new 7 500).attempts (slowHandshake.answers 500)) := by
  refine ⟨show slowHandshake.duration ≤ slowHandshake.time 500 9 by decide, ?_⟩
  rintro ⟨-, hstate⟩
  exact hstate (by decide)

theorem slowHandshake_with_long_delay :
    Connects ((new 7 700).attempts (slowHandshake.answers 700)) ↔
      slowHandshake.duration ≤ ((700 : ℤ) : ℤ) + slowHandshake.late 0 :=
  connects_handshake_iff (new 7 700) slowHandshake rfl

end Matelib.TcpClient
