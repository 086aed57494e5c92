import Matelib.ConnectionLife

/-!
# The tasks of a server's threads

Each task about a connection suits one stage of its life. The tasks that lead to the next stage are
its token: a connection has at most one of them in all threads. `Work` states this for the lists of
tasks while a thread runs one task, whose connection is then `held`; the rules are about taking the
task, changing the connection and putting the next tasks.
-/

namespace Matelib

namespace TcpServer

variable {ι : Type*}

def Task.key : Task → Option ℕ
  | .handleEvent c _ => some c
  | .callback c .closeCallback => some c
  | .callback c .readCallback => some c
  | .cleanupCallback c => some c
  | .connectionEstablished c => some c
  | .removeConnectionInLoop c => some c
  | .connectionDestroyed c => some c
  | .remove c => some c
  | _ => none

/-- The connection that a task without a token uses. -/
def Task.uses : Task → Option ℕ
  | .callback c .errorCallback => some c
  | .callback c .writeCallback => some c
  | .eventHandled c => some c
  | _ => none

def Stage.inUse : Stage → Bool
  | .established => true
  | .closing => true
  | .removing => true
  | .erased => true
  | _ => false

/-- A task in the thread of `l` about a connection of the loop `loop` at stage `st`. -/
def Suits (cfg : Config ι) (l loop : ι) (st : Stage) : Task → Prop
  | .handleEvent _ revents => loop = l ∧ st = .established ∧ PlainHangup revents
  | .callback _ .closeCallback => loop = l ∧ st = .established
  | .callback _ .readCallback => loop = l ∧ st = .established
  | .callback _ _ => loop = l ∧ st.inUse = true
  | .eventHandled _ => loop = l ∧ st.inUse = true
  | .cleanupCallback _ => loop = l ∧ st = .closing
  | .connectionEstablished _ => loop = l ∧ st = .accepted
  | .removeConnectionInLoop _ => l = cfg.baseLoop ∧ st = .removing
  | .connectionDestroyed _ => loop = l ∧ st = .erased
  | .remove _ => loop = l ∧ st = .destroying
  | _ => True

structure Fits (cfg : Config ι) (conns : List (Connection ι)) (l : ι) (t : Task) : Prop where
  base : t = .handleConnection → l = cfg.baseLoop
  suits : ∀ c, t.key = some c ∨ t.uses = some c →
    ∃ x, conns[c]? = some x ∧ Suits cfg l x.loop x.stage t

/-- A connection that was erased or is being destroyed has its token in the thread of its loop, so
the token keeps it alive. -/
structure Work (cfg : Config ι) (conns : List (Connection ι)) (work : ι → List Task)
    (held : Option ℕ) : Prop where
  single : Token.Single Task.key work
  absent : ∀ c, held = some c → Token.Absent Task.key work c
  fits : ∀ l, ∀ t ∈ work l, Fits cfg conns l t
  erased : ∀ (c : ℕ) (x : Connection ι), conns[c]? = some x → held ≠ some c → x.stage = .erased →
    .connectionDestroyed c ∈ work x.loop
  destroying : ∀ (c : ℕ) (x : Connection ι), conns[c]? = some x → held ≠ some c →
    x.stage = .destroying → .remove c ∈ work x.loop

theorem work_nil (cfg : Config ι) : Work cfg [] (fun _ => []) none where
  single := Token.single_nil
  absent _ h := nomatch h
  fits _ _ h := absurd h List.not_mem_nil
  erased _ _ h := nomatch h
  destroying _ _ h := nomatch h

variable {cfg : Config ι} {conns : List (Connection ι)} {work work' : ι → List Task}
  {held : Option ℕ} {l : ι} {c : ℕ} {x x' : Connection ι}

theorem uses_of_key {t : Task} (h : t.key = some c) : t.uses = none := by
  cases t with
  | callback _ cb =>
    cases cb with
    | closeCallback => rfl
    | readCallback => rfl
    | _ => cases h
  | eventHandled _ => cases h
  | _ => rfl

theorem fits_of_key {t : Task} (hx : conns[c]? = some x) (hkey : t.key = some c)
    (hsuits : Suits cfg l x.loop x.stage t) : Fits cfg conns l t where
  base := by
    rintro rfl
    cases hkey
  suits c' hc' := by
    rw [hkey, uses_of_key hkey, Option.some.injEq] at hc'
    rcases hc' with rfl | hc'
    · exact ⟨x, hx, hsuits⟩
    · cases hc'

theorem fits_of_uses {t : Task} (hx : conns[c]? = some x) (huses : t.uses = some c)
    (hsuits : Suits cfg l x.loop x.stage t) : Fits cfg conns l t where
  base := by
    rintro rfl
    cases huses
  suits c' hc' := by
    rcases hc' with hkey | hc'
    · rw [uses_of_key hkey] at huses
      cases huses
    · rw [huses, Option.some.injEq] at hc'
      exact ⟨x, hc' ▸ hx, hsuits⟩

theorem fits_of_none {t : Task} (hkey : t.key = none) (huses : t.uses = none)
    (hbase : t ≠ .handleConnection) : Fits cfg conns l t where
  base h := absurd h hbase
  suits c hc := by
    rw [hkey, huses] at hc
    rcases hc with hc | hc
    · cases hc
    · cases hc

theorem Fits.set {t : Task} (h : Fits cfg conns l t) (hx : conns[c]? = some x)
    (hsuits : t.key = some c ∨ t.uses = some c → Suits cfg l x.loop x.stage t →
      Suits cfg l x'.loop x'.stage t) : Fits cfg (conns.set c x') l t where
  base := h.base
  suits c' hc' := by
    obtain ⟨y, hy, hsuits'⟩ := h.suits c' hc'
    rw [getElem?_set_of_some hx]
    split_ifs with heq
    · subst heq
      rw [hx, Option.some.injEq] at hy
      subst hy
      exact ⟨x', rfl, hsuits hc' hsuits'⟩
    · exact ⟨y, hy, hsuits'⟩

theorem mem_take {t u : Task} {rest : List Task} (hl : work l = t :: rest) (hl' : work' l = rest)
    (hother : ∀ l', l' ≠ l → work' l' = work l') {l' : ι} (hu : u ∈ work' l') : u ∈ work l' := by
  by_cases heq : l' = l
  · subst heq
    rw [hl]
    exact List.mem_cons_of_mem t (hl' ▸ hu)
  · rwa [← hother l' heq]

theorem mem_take_of_ne {t u : Task} {rest : List Task} (hl : work l = t :: rest)
    (hl' : work' l = rest) (hother : ∀ l', l' ≠ l → work' l' = work l') {l' : ι}
    (hu : u ∈ work l') (hne : u ≠ t) : u ∈ work' l' := by
  by_cases heq : l' = l
  · subst heq
    rw [hl] at hu
    rw [hl']
    exact List.mem_of_ne_of_mem hne hu
  · rwa [hother l' heq]

theorem Work.take (h : Work cfg conns work none) {t : Task} {rest : List Task}
    (hl : work l = t :: rest) (hl' : work' l = rest)
    (hother : ∀ l', l' ≠ l → work' l' = work l') : Work cfg conns work' t.key where
  single := h.single.take hl hl' hother
  absent c hc := h.single.absent_of_take hl hl' hother hc
  fits l' u hu := h.fits l' u (mem_take hl hl' hother hu)
  erased c x hx hc hst := by
    apply mem_take_of_ne hl hl' hother (h.erased c x hx (Option.some_ne_none c).symm hst)
    rintro rfl
    exact hc rfl
  destroying c x hx hc hst := by
    apply mem_take_of_ne hl hl' hother (h.destroying c x hx (Option.some_ne_none c).symm hst)
    rintro rfl
    exact hc rfl

theorem mem_put {u : Task} {a ts b : List Task} (hl : work l = a ++ b)
    (hl' : work' l = a ++ ts ++ b) (hother : ∀ l', l' ≠ l → work' l' = work l') {l' : ι}
    (hu : u ∈ work' l') : u ∈ work l' ∨ l' = l ∧ u ∈ ts := by
  by_cases heq : l' = l
  · subst heq
    rw [hl', List.mem_append, List.mem_append] at hu
    rw [hl, List.mem_append]
    tauto
  · rw [hother l' heq] at hu
    exact .inl hu

theorem mem_put_of_mem {u : Task} {a ts b : List Task} (hl : work l = a ++ b)
    (hl' : work' l = a ++ ts ++ b) (hother : ∀ l', l' ≠ l → work' l' = work l') {l' : ι}
    (hu : u ∈ work l') : u ∈ work' l' := by
  by_cases heq : l' = l
  · subst heq
    rw [hl, List.mem_append] at hu
    rw [hl', List.mem_append, List.mem_append]
    tauto
  · rwa [hother l' heq]

theorem Work.put (h : Work cfg conns work held) {a ts b : List Task} (hl : work l = a ++ b)
    (hl' : work' l = a ++ ts ++ b) (hother : ∀ l', l' ≠ l → work' l' = work l')
    (hkeys : (ts.filterMap Task.key).Nodup)
    (habsent : ∀ k ∈ ts.filterMap Task.key, held ≠ some k ∧ Token.Absent Task.key work k)
    (hfits : ∀ t ∈ ts, Fits cfg conns l t) : Work cfg conns work' held where
  single := h.single.put hl hl' hother hkeys fun k hk => (habsent k hk).2
  absent c hc l' hmem := by
    rcases Token.mem_of_put hl hl' hother hmem with hmem | ⟨-, hmem⟩
    · exact h.absent c hc l' hmem
    · exact (habsent c hmem).1 hc
  fits l' u hu := by
    rcases mem_put hl hl' hother hu with hu | ⟨rfl, hu⟩
    · exact h.fits l' u hu
    · exact hfits u hu
  erased c x hx hc hst := mem_put_of_mem hl hl' hother (h.erased c x hx hc hst)
  destroying c x hx hc hst := mem_put_of_mem hl hl' hother (h.destroying c x hx hc hst)

theorem Work.put_plain (h : Work cfg conns work held) {a ts b : List Task} (hl : work l = a ++ b)
    (hl' : work' l = a ++ ts ++ b) (hother : ∀ l', l' ≠ l → work' l' = work l')
    (hkeys : ts.filterMap Task.key = []) (hfits : ∀ t ∈ ts, Fits cfg conns l t) :
    Work cfg conns work' held := by
  apply h.put hl hl' hother _ _ hfits
  · rw [hkeys]
    exact List.nodup_nil
  · rw [hkeys]
    intro k hk
    exact absurd hk List.not_mem_nil

theorem Work.give (h : Work cfg conns work (some c)) {a ts b : List Task} (hl : work l = a ++ b)
    (hl' : work' l = a ++ ts ++ b) (hother : ∀ l', l' ≠ l → work' l' = work l')
    (hkeys : (ts.filterMap Task.key).Sublist [c]) (hfits : ∀ t ∈ ts, Fits cfg conns l t)
    (hx : conns[c]? = some x)
    (herased : x.stage = .erased → x.loop = l ∧ .connectionDestroyed c ∈ ts)
    (hdestroying : x.stage = .destroying → x.loop = l ∧ .remove c ∈ ts) :
    Work cfg conns work' none where
  single := by
    apply h.single.put hl hl' hother
    · exact (List.nodup_singleton c).sublist hkeys
    · intro k hk
      have hkc := List.mem_singleton.mp (hkeys.subset hk)
      rw [hkc]
      exact h.absent c rfl
  absent _ hc := nomatch hc
  fits l' u hu := by
    rcases mem_put hl hl' hother hu with hu | ⟨rfl, hu⟩
    · exact h.fits l' u hu
    · exact hfits u hu
  erased c' y hy _ hst := by
    by_cases heq : c' = c
    · subst heq
      rw [hx, Option.some.injEq] at hy
      subst hy
      obtain ⟨hloop, hmem⟩ := herased hst
      rw [hloop, hl', List.mem_append, List.mem_append]
      exact .inl (.inr hmem)
    · apply mem_put_of_mem hl hl' hother (h.erased c' y hy _ hst)
      intro hf
      exact heq (Option.some.inj hf).symm
  destroying c' y hy _ hst := by
    by_cases heq : c' = c
    · subst heq
      rw [hx, Option.some.injEq] at hy
      subst hy
      obtain ⟨hloop, hmem⟩ := hdestroying hst
      rw [hloop, hl', List.mem_append, List.mem_append]
      exact .inl (.inr hmem)
    · apply mem_put_of_mem hl hl' hother (h.destroying c' y hy _ hst)
      intro hf
      exact heq (Option.some.inj hf).symm

theorem Work.touch (h : Work cfg conns work held) (hx : conns[c]? = some x)
    (hloop : x'.loop = x.loop) (hst : x'.stage = x.stage) :
    Work cfg (conns.set c x') work held where
  single := h.single
  absent := h.absent
  fits l t ht := by
    refine (h.fits l t ht).set hx ?_
    intro _ hsuits
    rwa [hloop, hst]
  erased c' y hy hc' hyst := by
    rw [getElem?_set_of_some hx] at hy
    split_ifs at hy with heq
    · cases hy
      rw [hloop]
      exact h.erased c' x (heq ▸ hx) hc' (hst ▸ hyst)
    · exact h.erased c' y hy hc' hyst
  destroying c' y hy hc' hyst := by
    rw [getElem?_set_of_some hx] at hy
    split_ifs at hy with heq
    · cases hy
      rw [hloop]
      exact h.destroying c' x (heq ▸ hx) hc' (hst ▸ hyst)
    · exact h.destroying c' y hy hc' hyst

theorem Work.advance (h : Work cfg conns work (some c)) (hx : conns[c]? = some x)
    (hloop : x'.loop = x.loop)
    (huse : x'.stage.inUse = true ∨ ∀ t ∈ work x.loop, t.uses ≠ some c) :
    Work cfg (conns.set c x') work (some c) where
  single := h.single
  absent := h.absent
  fits l t ht := by
    refine (h.fits l t ht).set hx ?_
    intro hc hsuits
    have huses : t.uses = some c := by
      rcases hc with hkey | huses
      · exact absurd hkey ((h.absent c rfl).not_mem ht)
      · exact huses
    have hsame : x.loop = l := by
      cases t with
      | callback _ cb => cases cb <;> exact hsuits.1
      | eventHandled _ => exact hsuits.1
      | _ => cases huses
    rcases huse with huse | hnone
    · rw [hloop]
      cases t with
      | callback _ cb =>
        cases cb with
        | errorCallback => exact ⟨hsame, huse⟩
        | writeCallback => exact ⟨hsame, huse⟩
        | _ => cases huses
      | eventHandled _ => exact ⟨hsame, huse⟩
      | _ => cases huses
    · subst hsame
      exact absurd huses (hnone t ht)
  erased c' y hy hc' hyst := by
    rw [getElem?_set_of_some hx, if_neg (fun heq => hc' (by rw [heq]))] at hy
    exact h.erased c' y hy hc' hyst
  destroying c' y hy hc' hyst := by
    rw [getElem?_set_of_some hx, if_neg (fun heq => hc' (by rw [heq]))] at hy
    exact h.destroying c' y hy hc' hyst

theorem Work.accept (h : Work cfg conns work held) (hst : x.stage = .accepted) :
    Work cfg (conns ++ [x]) work held where
  single := h.single
  absent := h.absent
  fits l t ht := by
    refine ⟨(h.fits l t ht).base, ?_⟩
    intro c' hc'
    obtain ⟨y, hy, hsuits⟩ := (h.fits l t ht).suits c' hc'
    exact ⟨y, Segment.getElem?_concat_eq_some.mpr (.inl hy), hsuits⟩
  erased c' y hy hc' hyst := by
    rcases Segment.getElem?_concat_eq_some.mp hy with hy | ⟨-, rfl⟩
    · exact h.erased c' y hy hc' hyst
    · rw [hst] at hyst
      cases hyst
  destroying c' y hy hc' hyst := by
    rcases Segment.getElem?_concat_eq_some.mp hy with hy | ⟨-, rfl⟩
    · exact h.destroying c' y hy hc' hyst
    · rw [hst] at hyst
      cases hyst

theorem Work.hold (h : Work cfg conns work none) (habsent : Token.Absent Task.key work c) :
    Work cfg conns work (some c) where
  single := h.single
  absent _ hc' := Option.some.inj hc' ▸ habsent
  fits := h.fits
  erased c' x hx _ := h.erased c' x hx (Option.some_ne_none c').symm
  destroying c' x hx _ := h.destroying c' x hx (Option.some_ne_none c').symm

theorem Work.drop (h : Work cfg conns work (some c)) (hx : conns[c]? = some x)
    (herased : x.stage ≠ .erased) (hdestroying : x.stage ≠ .destroying) :
    Work cfg conns work none := by
  have hnone : (([] : List Task).filterMap Task.key).Sublist [c] := List.nil_sublist _
  apply h.give (l := x.loop) (a := []) (b := work x.loop) rfl rfl (fun _ _ => rfl) hnone _ hx
  · intro hf
    exact absurd hf herased
  · intro hf
    exact absurd hf hdestroying
  · intro t ht
    exact absurd ht List.not_mem_nil

theorem absent_of_length (h : Work cfg conns work held) :
    Token.Absent Task.key work conns.length := by
  intro l hmem
  obtain ⟨t, ht, hkey⟩ := List.mem_filterMap.mp hmem
  obtain ⟨y, hy, -⟩ := (h.fits l t ht).suits _ (.inl hkey)
  exact absurd (List.getElem?_eq_some_iff.mp hy).1 (lt_irrefl _)

/-- The part of an iteration in which a thread may have the task. -/
def Task.allowed (phase : Phase) : Task → Bool
  | .handleConnection => phase = .dispatch
  | .handleEvent _ _ => phase = .dispatch
  | .callback _ _ => phase = .dispatch
  | .eventHandled _ => phase = .dispatch
  | .connectionDestroyed _ => phase = .functors
  | .remove _ => phase = .functors
  | _ => phase ≠ .poll

structure Phased (loop : Loop) : Prop where
  tasks : ∀ t ∈ loop.tasks, t.allowed loop.phase = true
  pending : ∀ t ∈ loop.pendingFunctors, t.allowed .functors = true

theorem allowed_poll (t : Task) : t.allowed .poll = false := by
  cases t <;> rfl

theorem Phased.tasks_eq_nil {loop : Loop} (h : Phased loop) (hphase : loop.phase = .poll) :
    loop.tasks = [] := by
  apply List.eq_nil_iff_forall_not_mem.mpr
  intro t ht
  have hallowed := h.tasks t ht
  rw [hphase, allowed_poll] at hallowed
  cases hallowed

theorem allowed_uses {t : Task} (h : t.uses = some c) (phase : Phase) :
    t.allowed phase = decide (phase = .dispatch) := by
  cases t with
  | callback _ _ => rfl
  | eventHandled _ => rfl
  | _ => cases h

theorem Phased.not_uses {loop : Loop} (h : Phased loop) (hphase : loop.phase = .functors)
    {t : Task} (ht : t ∈ loop.tasks ++ loop.pendingFunctors) : t.uses ≠ some c := by
  intro huses
  have hallowed : t.allowed .functors = true := by
    rcases List.mem_append.mp ht with ht | ht
    · exact hphase ▸ h.tasks t ht
    · exact h.pending t ht
  rw [allowed_uses huses] at hallowed
  cases hallowed

end TcpServer

end Matelib
