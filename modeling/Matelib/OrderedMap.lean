import Mathlib.Tactic

/-!
# Ordered maps

A finite map as the list of its entries in strictly increasing key order, as `std::map` iterates
over it. Two maps are equal when their lookups agree, and every operation is described by what a
lookup returns afterwards. A `std::set` is a map into `Unit`.
-/

namespace Matelib

variable {κ ν : Type*} [LinearOrder κ]

structure OrderedMap (κ ν : Type*) [LinearOrder κ] where
  entries : List (κ × ν)
  sorted : entries.Pairwise fun a b => a.1 < b.1

namespace OrderedMap

instance [DecidableEq ν] : DecidableEq (OrderedMap κ ν) := fun m m' =>
  decidable_of_iff (m.entries = m'.entries) (by
    cases m
    cases m'
    simp)

def empty : OrderedMap κ ν := ⟨[], List.Pairwise.nil⟩

def lookup (k : κ) : List (κ × ν) → Option ν
  | [] => none
  | a :: l => if a.1 = k then some a.2 else lookup k l

def find (m : OrderedMap κ ν) (k : κ) : Option ν := lookup k m.entries

@[simp] theorem find_empty (k : κ) : (empty : OrderedMap κ ν).find k = none := rfl

theorem lookup_eq_some {k : κ} {v : ν} {l : List (κ × ν)} (hl : l.Pairwise fun a b => a.1 < b.1) :
    lookup k l = some v ↔ (k, v) ∈ l := by
  induction l with
  | nil => simp [lookup]
  | cons a l ih =>
    rw [List.pairwise_cons] at hl
    rw [lookup, List.mem_cons]
    split_ifs with h
    · subst h
      constructor
      · intro hv
        exact Or.inl (by rw [← Option.some.inj hv])
      · rintro (hv | hmem)
        · rw [← hv]
        · exact absurd (hl.1 _ hmem) (lt_irrefl _)
    · rw [ih hl.2]
      constructor
      · exact Or.inr
      · rintro (hv | hmem)
        · exact absurd (congrArg Prod.fst hv).symm h
        · exact hmem

theorem find_eq_some {m : OrderedMap κ ν} {k : κ} {v : ν} :
    m.find k = some v ↔ (k, v) ∈ m.entries :=
  lookup_eq_some m.sorted

theorem ext_find {m m' : OrderedMap κ ν} (h : ∀ k, m.find k = m'.find k) : m = m' := by
  obtain ⟨l, hl⟩ := m
  obtain ⟨l', hl'⟩ := m'
  have hnd : ∀ {l : List (κ × ν)}, l.Pairwise (fun a b => a.1 < b.1) → l.Nodup := fun h =>
    h.imp fun hab heq => absurd (congrArg Prod.fst heq) hab.ne
  have hperm : l.Perm l' := by
    rw [List.perm_ext_iff_of_nodup (hnd hl) (hnd hl')]
    rintro ⟨k, v⟩
    rw [← lookup_eq_some hl, ← lookup_eq_some hl']
    exact iff_of_eq (congrArg (· = some v) (h k))
  congr
  exact hperm.eq_of_pairwise (fun _ _ _ _ hab hba => absurd hba hab.asymm) hl hl'

def insertEntry (k : κ) (v : ν) : List (κ × ν) → List (κ × ν)
  | [] => [(k, v)]
  | a :: l =>
    if k < a.1 then (k, v) :: a :: l
    else if a.1 = k then (k, v) :: l
    else a :: insertEntry k v l

theorem mem_insertEntry {k : κ} {v : ν} {b : κ × ν} {l : List (κ × ν)}
    (h : b ∈ insertEntry k v l) : b = (k, v) ∨ b ∈ l := by
  induction l with
  | nil => exact Or.inl (List.mem_singleton.mp h)
  | cons a l ih =>
    rw [insertEntry] at h
    split_ifs at h with h₁ h₂
    · exact List.mem_cons.mp h
    · exact (List.mem_cons.mp h).imp_right (List.mem_cons_of_mem a)
    · rcases List.mem_cons.mp h with rfl | h
      · exact Or.inr List.mem_cons_self
      · exact (ih h).imp_right (List.mem_cons_of_mem a)

theorem insertEntry_sorted {k : κ} {v : ν} {l : List (κ × ν)}
    (hl : l.Pairwise fun a b => a.1 < b.1) :
    (insertEntry k v l).Pairwise fun a b => a.1 < b.1 := by
  induction l with
  | nil => exact List.pairwise_singleton _ _
  | cons a l ih =>
    have ⟨ha, hl'⟩ := List.pairwise_cons.mp hl
    rw [insertEntry]
    split_ifs with h₁ h₂
    · refine List.pairwise_cons.mpr ⟨?_, hl⟩
      rintro b hb
      rcases List.mem_cons.mp hb with rfl | hb
      · exact h₁
      · exact h₁.trans (ha b hb)
    · subst h₂
      exact List.pairwise_cons.mpr ⟨ha, hl'⟩
    · refine List.pairwise_cons.mpr ⟨?_, ih hl'⟩
      intro b hb
      rcases mem_insertEntry hb with rfl | hb
      · exact lt_of_le_of_ne (not_lt.mp h₁) h₂
      · exact ha b hb

theorem lookup_insertEntry (k : κ) (v : ν) (l : List (κ × ν)) (k' : κ) :
    lookup k' (insertEntry k v l) = if k = k' then some v else lookup k' l := by
  induction l with
  | nil => rfl
  | cons a l ih =>
    by_cases h₁ : k < a.1
    · rw [insertEntry, if_pos h₁, lookup]
    · by_cases h₂ : a.1 = k
      · rw [insertEntry, if_neg h₁, if_pos h₂, lookup, lookup, h₂]
        split_ifs <;> rfl
      · rw [insertEntry, if_neg h₁, if_neg h₂, lookup, ih, lookup]
        split_ifs with h₃ h₄
        · exact absurd (h₃.trans h₄.symm) h₂
        all_goals rfl

def insert (m : OrderedMap κ ν) (k : κ) (v : ν) : OrderedMap κ ν :=
  ⟨insertEntry k v m.entries, insertEntry_sorted m.sorted⟩

def erase (m : OrderedMap κ ν) (k : κ) : OrderedMap κ ν :=
  ⟨m.entries.filter fun a => a.1 ≠ k, m.sorted.filter _⟩

theorem find_insert (m : OrderedMap κ ν) (k : κ) (v : ν) (k' : κ) :
    (m.insert k v).find k' = if k = k' then some v else m.find k' :=
  lookup_insertEntry k v m.entries k'

theorem find_erase (m : OrderedMap κ ν) (k k' : κ) :
    (m.erase k).find k' = if k = k' then none else m.find k' := by
  apply Option.ext
  intro v
  rw [find_eq_some, erase, List.mem_filter]
  by_cases h : k = k'
  · simp [h]
  · rw [if_neg h, find_eq_some]
    simp [Ne.symm h]

@[simp] theorem find_insert_self (m : OrderedMap κ ν) (k : κ) (v : ν) :
    (m.insert k v).find k = some v := by
  rw [find_insert, if_pos rfl]

theorem find_insert_of_ne (m : OrderedMap κ ν) {k k' : κ} (v : ν) (h : k ≠ k') :
    (m.insert k v).find k' = m.find k' := by
  rw [find_insert, if_neg h]

@[simp] theorem find_erase_self (m : OrderedMap κ ν) (k : κ) : (m.erase k).find k = none := by
  rw [find_erase, if_pos rfl]

theorem find_erase_of_ne (m : OrderedMap κ ν) {k k' : κ} (h : k ≠ k') :
    (m.erase k).find k' = m.find k' := by
  rw [find_erase, if_neg h]

instance : Membership κ (OrderedMap κ ν) := ⟨fun m k => m.find k ≠ none⟩

instance (k : κ) (m : OrderedMap κ ν) : Decidable (k ∈ m) :=
  decidable_of_iff ((m.find k).isSome = true) Option.isSome_iff_ne_none

theorem mem_iff {m : OrderedMap κ ν} {k : κ} : k ∈ m ↔ m.find k ≠ none := Iff.rfl

theorem mem_of_find {m : OrderedMap κ ν} {k : κ} {v : ν} (h : m.find k = some v) : k ∈ m := by
  rw [mem_iff, h]
  exact Option.some_ne_none v

theorem find_of_mem {m : OrderedMap κ ν} {k : κ} (h : k ∈ m) : ∃ v, m.find k = some v :=
  Option.ne_none_iff_exists'.mp h

theorem mem_iff_entries {m : OrderedMap κ ν} {k : κ} : k ∈ m ↔ ∃ v, (k, v) ∈ m.entries := by
  rw [mem_iff, Option.ne_none_iff_exists']
  simp only [find_eq_some]

instance (m : OrderedMap κ ν) (p : κ → Prop) [DecidablePred p] : Decidable (∀ k ∈ m, p k) :=
  decidable_of_iff (∀ e ∈ m.entries, p e.1) (by
    simp only [mem_iff_entries]
    exact ⟨fun h k ⟨v, hv⟩ => h (k, v) hv, fun h e he => h e.1 ⟨e.2, he⟩⟩)

instance (m : OrderedMap κ ν) (k : κ) (p : ν → Prop) [DecidablePred p] :
    Decidable (∀ v, m.find k = some v → p v) :=
  decidable_of_iff (∀ v ∈ m.find k, p v) Iff.rfl

theorem not_mem_empty (k : κ) : k ∉ (empty : OrderedMap κ ν) := fun h => h rfl

theorem mem_insert {m : OrderedMap κ ν} {k k' : κ} {v : ν} :
    k' ∈ m.insert k v ↔ k' = k ∨ k' ∈ m := by
  rw [mem_iff, find_insert]
  split_ifs with h
  · simp [h]
  · simp [Ne.symm h, mem_iff]

theorem mem_erase {m : OrderedMap κ ν} {k k' : κ} : k' ∈ m.erase k ↔ k' ≠ k ∧ k' ∈ m := by
  rw [mem_iff, find_erase]
  split_ifs with h
  · simp [h]
  · simp [Ne.symm h, mem_iff]

def front? (m : OrderedMap κ ν) : Option κ := m.entries.head?.map Prod.fst

theorem front?_eq_none {m : OrderedMap κ ν} : m.front? = none ↔ ∀ k, k ∉ m := by
  rw [front?, Option.map_eq_none_iff, List.head?_eq_none_iff]
  constructor
  · intro h k hk
    obtain ⟨v, hv⟩ := mem_iff_entries.mp hk
    rw [h] at hv
    cases hv
  · intro h
    apply List.eq_nil_iff_forall_not_mem.mpr
    rintro ⟨k, v⟩ hkv
    exact h k (mem_iff_entries.mpr ⟨v, hkv⟩)

theorem front?_eq_some {m : OrderedMap κ ν} {k : κ} (h : m.front? = some k) :
    k ∈ m ∧ ∀ k' ∈ m, k ≤ k' := by
  obtain ⟨l, hl⟩ := m
  cases l with
  | nil => cases h
  | cons a l =>
    cases h
    refine ⟨mem_iff_entries.mpr ⟨a.2, List.mem_cons_self⟩, ?_⟩
    intro k' hk'
    obtain ⟨v, hv⟩ := mem_iff_entries.mp hk'
    rcases List.mem_cons.mp hv with heq | hmem
    · rw [← heq]
    · exact ((List.pairwise_cons.mp hl).1 _ hmem).le

/-- The keys in front of `lower_bound(k)`, in their order. -/
def keysBelow (m : OrderedMap κ ν) (k : κ) : List κ :=
  (m.entries.map Prod.fst).filter (· < k)

/-- What is left when the entries in front of `lower_bound(k)` are erased. -/
def fromBound (m : OrderedMap κ ν) (k : κ) : OrderedMap κ ν :=
  ⟨m.entries.filter fun a => k ≤ a.1, m.sorted.filter _⟩

theorem mem_keysBelow {m : OrderedMap κ ν} {k k' : κ} : k' ∈ m.keysBelow k ↔ k' ∈ m ∧ k' < k := by
  rw [keysBelow, List.mem_filter, List.mem_map, decide_eq_true_eq, mem_iff_entries]
  apply and_congr_left'
  constructor
  · rintro ⟨⟨_, v⟩, hv, rfl⟩
    exact ⟨v, hv⟩
  · rintro ⟨v, hv⟩
    exact ⟨(k', v), hv, rfl⟩

theorem mem_fromBound {m : OrderedMap κ ν} {k k' : κ} : k' ∈ m.fromBound k ↔ k' ∈ m ∧ k ≤ k' := by
  rw [mem_iff_entries, mem_iff_entries]
  simp only [fromBound, List.mem_filter, decide_eq_true_eq]
  exact exists_and_right

theorem keysBelow_sorted (m : OrderedMap κ ν) (k : κ) : (m.keysBelow k).Pairwise (· < ·) :=
  List.Pairwise.filter _ (List.pairwise_map.mpr m.sorted)

end OrderedMap

abbrev OrderedSet (κ : Type*) [LinearOrder κ] := OrderedMap κ Unit

end Matelib
