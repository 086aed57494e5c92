import Mathlib.Data.List.Nodup
import Mathlib.Data.List.Basic

/-!
# Tokens in work lists

Several parties have a list of tasks each, and some tasks are the token of an object: whoever runs
such a task may change the object. `Single` says that no object has two tokens, in one list or in
two. A party takes the first task off its list and puts other tasks anywhere into a list.
-/

namespace Matelib.Token

variable {ι κ τ : Type*} {key : τ → Option κ} {work work' : ι → List τ}

def Absent (key : τ → Option κ) (work : ι → List τ) (k : κ) : Prop :=
  ∀ l, k ∉ (work l).filterMap key

structure Single (key : τ → Option κ) (work : ι → List τ) : Prop where
  nodup : ∀ l, ((work l).filterMap key).Nodup
  apart : ∀ {k l l'}, k ∈ (work l).filterMap key → k ∈ (work l').filterMap key → l = l'

theorem Absent.not_mem {k : κ} (h : Absent key work k) {l : ι} {t : τ} (ht : t ∈ work l) :
    key t ≠ some k := fun hk => h l (List.mem_filterMap.mpr ⟨t, ht, hk⟩)

theorem single_nil : Single key fun _ : ι => [] where
  nodup _ := List.nodup_nil
  apart h := absurd h List.not_mem_nil

theorem mem_of_take {k : κ} {l l' : ι} {t : τ} {rest : List τ} (hl : work l = t :: rest)
    (hl' : work' l = rest) (hother : ∀ l', l' ≠ l → work' l' = work l')
    (hk : k ∈ (work' l').filterMap key) : k ∈ (work l').filterMap key := by
  by_cases heq : l' = l
  · subst heq
    rw [hl'] at hk
    rw [hl]
    exact List.Sublist.subset ((List.sublist_cons_self t rest).filterMap key) hk
  · rwa [hother l' heq] at hk

theorem Single.take (h : Single key work) {l : ι} {t : τ} {rest : List τ} (hl : work l = t :: rest)
    (hl' : work' l = rest) (hother : ∀ l', l' ≠ l → work' l' = work l') :
    Single key work' where
  nodup l' := by
    by_cases heq : l' = l
    · subst heq
      have hnodup := h.nodup l'
      rw [hl] at hnodup
      rw [hl']
      exact hnodup.sublist ((List.sublist_cons_self t rest).filterMap key)
    · rw [hother l' heq]
      exact h.nodup l'
  apart hk hk' := h.apart (mem_of_take hl hl' hother hk) (mem_of_take hl hl' hother hk')

theorem Single.absent_of_take (h : Single key work) {l : ι} {t : τ} {rest : List τ}
    (hl : work l = t :: rest) (hl' : work' l = rest)
    (hother : ∀ l', l' ≠ l → work' l' = work l') {k : κ} (hk : key t = some k) :
    Absent key work' k := by
  intro l' hmem
  have hhere : k ∈ (work l).filterMap key := by
    rw [hl]
    exact List.mem_filterMap.mpr ⟨t, List.mem_cons_self, hk⟩
  have heq : l' = l := h.apart (mem_of_take hl hl' hother hmem) hhere
  subst heq
  have hnodup := h.nodup l'
  rw [hl, List.filterMap_cons_some hk, List.nodup_cons] at hnodup
  rw [hl'] at hmem
  exact hnodup.1 hmem

theorem mem_of_put {k : κ} {l l' : ι} {a ts b : List τ} (hl : work l = a ++ b)
    (hl' : work' l = a ++ ts ++ b) (hother : ∀ l', l' ≠ l → work' l' = work l')
    (hk : k ∈ (work' l').filterMap key) :
    k ∈ (work l').filterMap key ∨ l' = l ∧ k ∈ ts.filterMap key := by
  by_cases heq : l' = l
  · subst heq
    rw [hl', List.filterMap_append, List.filterMap_append, List.mem_append, List.mem_append] at hk
    rw [hl, List.filterMap_append, List.mem_append]
    rcases hk with (hk | hk) | hk
    · exact .inl (.inl hk)
    · exact .inr ⟨rfl, hk⟩
    · exact .inl (.inr hk)
  · rw [hother l' heq] at hk
    exact .inl hk

theorem Single.put (h : Single key work) {l : ι} {a ts b : List τ} (hl : work l = a ++ b)
    (hl' : work' l = a ++ ts ++ b) (hother : ∀ l', l' ≠ l → work' l' = work l')
    (hts : (ts.filterMap key).Nodup) (habsent : ∀ k ∈ ts.filterMap key, Absent key work k) :
    Single key work' where
  nodup l' := by
    by_cases heq : l' = l
    · subst heq
      have hnodup := h.nodup l'
      have habs : ∀ k ∈ ts.filterMap key, k ∉ (work l').filterMap key := fun k hk =>
        habsent k hk l'
      rw [hl, List.filterMap_append] at hnodup
      simp only [hl, List.filterMap_append, List.mem_append, not_or] at habs
      rw [hl', List.filterMap_append, List.filterMap_append]
      have hperm : (ts.filterMap key ++ (a.filterMap key ++ b.filterMap key)).Perm
          (a.filterMap key ++ ts.filterMap key ++ b.filterMap key) := by
        rw [← List.append_assoc]
        exact List.perm_append_comm.append_right _
      apply hperm.nodup
      apply hts.append hnodup
      intro k hk hmem
      rcases List.mem_append.mp hmem with hmem | hmem
      · exact (habs k hk).1 hmem
      · exact (habs k hk).2 hmem
    · rw [hother l' heq]
      exact h.nodup l'
  apart {k m m'} hk hk' := by
    rcases mem_of_put hl hl' hother hk with hm | ⟨rfl, hm⟩
    · rcases mem_of_put hl hl' hother hk' with hm' | ⟨rfl, hm'⟩
      · exact h.apart hm hm'
      · exact absurd hm (habsent k hm' m)
    · rcases mem_of_put hl hl' hother hk' with hm' | ⟨rfl, hm'⟩
      · exact absurd hm' (habsent k hm m')
      · rfl

end Matelib.Token
