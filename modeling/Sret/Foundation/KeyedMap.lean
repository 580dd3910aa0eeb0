import Mathlib.Data.Finmap

namespace KeyedMap

/-!
# Finite maps with a count

`Map κ ν` is Mathlib's `Finmap` at a constant value type — a map without an iteration order —
with what a bounded store needs on top of Mathlib's lookups:

* `size` and how inserting and erasing change it;
* `collect` — the map that a list of keyed values is collected into, where a later value of
  a key replaces an earlier one;
* `Enumerates` — a list goes through the bindings of a map, in one of the orders in which a
  hash map may be iterated; `findSome?_order_independent_iff` — when a search over the bindings
  does not depend on that order.
-/

/-- A finite map from `κ` to `ν`. -/
abbrev Map (κ ν : Type*) := Finmap (fun _ : κ => ν)

variable {κ ν : Type*} [DecidableEq κ]

/-- The number of keys. -/
def size (m : Map κ ν) : Nat := m.keys.card

omit [DecidableEq κ] in
/-- The empty map has no entry. -/
@[simp] theorem size_empty : size (∅ : Map κ ν) = 0 := by
  simp [size]

/-- An insertion adds its key. -/
theorem keys_insert (m : Map κ ν) (k : κ) (v : ν) : (m.insert k v).keys = insert k m.keys := by
  ext x
  simp [Finmap.mem_keys, Finmap.mem_insert]

/-- Replacing the value of a key keeps the count. -/
theorem size_insert_of_mem {m : Map κ ν} {k : κ} (h : k ∈ m) (v : ν) :
    size (m.insert k v) = size m := by
  rw [size, keys_insert, Finset.insert_eq_of_mem (Finmap.mem_keys.mpr h), size]

/-- Binding a new key adds one. -/
theorem size_insert_of_notMem {m : Map κ ν} {k : κ} (h : k ∉ m) (v : ν) :
    size (m.insert k v) = size m + 1 := by
  rw [size, keys_insert, Finset.card_insert_of_notMem (fun hk => h (Finmap.mem_keys.mp hk)), size]

/-- Binding a key adds at most one. -/
theorem size_insert_le (m : Map κ ν) (k : κ) (v : ν) : size (m.insert k v) ≤ size m + 1 := by
  by_cases h : k ∈ m
  · rw [size_insert_of_mem h]
    omega
  · rw [size_insert_of_notMem h]

/-- Erasing a key that is there takes one away. -/
theorem size_erase_of_mem {m : Map κ ν} {k : κ} (h : k ∈ m) : size (m.erase k) = size m - 1 := by
  rw [size, Finmap.keys_erase, Finset.card_erase_of_mem (Finmap.mem_keys.mpr h), size]

/-- Only the empty map has no keys. -/
theorem eq_empty_of_size {m : Map κ ν} (h : size m = 0) : m = ∅ := by
  refine Finmap.ext_lookup fun k => ?_
  have hk : k ∉ m := by
    rw [← Finmap.mem_keys, Finset.card_eq_zero.mp h]
    exact Finset.notMem_empty k
  rw [Finmap.lookup_eq_none.mpr hk, Finmap.lookup_empty]

/-- Binding a key to what it is bound to changes nothing. -/
theorem insert_eq_self {m : Map κ ν} {k : κ} {v : ν} (h : m.lookup k = some v) :
    m.insert k v = m := by
  refine Finmap.ext_lookup fun x => ?_
  by_cases hx : x = k
  · rw [hx, Finmap.lookup_insert, h]
  · rw [Finmap.lookup_insert_of_ne m hx]

/-! ### Collecting a list -/

/-- The map that a list of keyed values is collected into. -/
def collect (l : List (κ × ν)) : Map κ ν := l.foldl (fun m x => m.insert x.1 x.2) ∅

/-- The last pair is inserted last. -/
theorem collect_snoc (l : List (κ × ν)) (k : κ) (v : ν) :
    collect (l ++ [(k, v)]) = (collect l).insert k v := by
  simp [collect]

/-- A collected value comes from the list. -/
theorem mem_of_lookup_collect {l : List (κ × ν)} {k : κ} {v : ν}
    (h : (collect l).lookup k = some v) : (k, v) ∈ l := by
  induction l using List.reverseRecOn with
  | nil => simp [collect] at h
  | append_singleton l x ih =>
    obtain ⟨k', v'⟩ := x
    rw [collect_snoc] at h
    by_cases hk : k = k'
    · subst hk
      rw [Finmap.lookup_insert] at h
      simp [Option.some.inj h]
    · rw [Finmap.lookup_insert_of_ne _ hk] at h
      simp [ih h]

/-- With distinct keys nothing of the list is lost. -/
theorem lookup_collect_of_mem {l : List (κ × ν)} (hl : (l.map Prod.fst).Nodup) {k : κ} {v : ν}
    (h : (k, v) ∈ l) : (collect l).lookup k = some v := by
  induction l using List.reverseRecOn with
  | nil => simp at h
  | append_singleton l x ih =>
    obtain ⟨k', v'⟩ := x
    rw [List.map_append, List.nodup_append] at hl
    obtain ⟨hnd, -, hdis⟩ := hl
    rw [collect_snoc]
    rcases List.mem_append.mp h with h' | h'
    · -- the later value has another key, so it does not replace this one
      have hne : k ≠ k' := by
        rintro rfl
        exact hdis k (List.mem_map.mpr ⟨(k, v), h', rfl⟩) k (by simp) rfl
      rw [Finmap.lookup_insert_of_ne _ hne]
      exact ih hnd h'
    · obtain ⟨rfl, rfl⟩ : k = k' ∧ v = v' := by simpa using h'
      rw [Finmap.lookup_insert]

/-- With distinct keys every element of the list gets a binding of its own. -/
theorem size_collect {l : List (κ × ν)} (hl : (l.map Prod.fst).Nodup) :
    size (collect l) = l.length := by
  induction l using List.reverseRecOn with
  | nil => exact size_empty
  | append_singleton l x ih =>
    obtain ⟨k, v⟩ := x
    rw [List.map_append, List.nodup_append] at hl
    obtain ⟨hnd, -, hdis⟩ := hl
    -- the last key has not been collected yet
    have hnew : k ∉ collect l := by
      intro hmem
      obtain ⟨v', hv'⟩ := Finmap.mem_iff.mp hmem
      exact hdis k (List.mem_map.mpr ⟨(k, v'), mem_of_lookup_collect hv', rfl⟩) k (by simp) rfl
    rw [collect_snoc, size_insert_of_notMem hnew, ih hnd, List.length_append, List.length_singleton]

/-! ### Iterating -/

/-- The list goes through the bindings of the map, each once. -/
def Enumerates (l : List (κ × ν)) (m : Map κ ν) : Prop := (l.map Prod.fst).Nodup ∧ collect l = m

instance [DecidableEq ν] (l : List (κ × ν)) (m : Map κ ν) : Decidable (Enumerates l m) :=
  inferInstanceAs (Decidable (_ ∧ _))

/-- What an iteration meets is what a lookup finds. -/
theorem Enumerates.mem_iff {l : List (κ × ν)} {m : Map κ ν} (h : Enumerates l m) {k : κ} {v : ν} :
    (k, v) ∈ l ↔ m.lookup k = some v := by
  obtain ⟨hnd, rfl⟩ := h
  exact ⟨lookup_collect_of_mem hnd, mem_of_lookup_collect⟩

/-- An enumeration is as long as the map is large. -/
theorem Enumerates.length_eq {l : List (κ × ν)} {m : Map κ ν} (h : Enumerates l m) :
    l.length = size m := by
  rw [← h.2, size_collect h.1]

/-- Only the empty map has the empty enumeration. -/
theorem Enumerates.eq_nil_iff {l : List (κ × ν)} {m : Map κ ν} (h : Enumerates l m) :
    l = [] ↔ m = ∅ := by
  constructor
  · rintro rfl
    exact h.2.symm
  · rintro rfl
    refine List.eq_nil_iff_forall_not_mem.mpr fun ⟨k, v⟩ hmem => ?_
    simpa using h.mem_iff.mp hmem

/-- Every map can be iterated. -/
theorem exists_enumerates (m : Map κ ν) : ∃ l, Enumerates l m := by
  -- the entries of an association list behind the map, in its order
  induction m using Finmap.induction_on with
  | _ a =>
    have hnd : ((a.entries.map fun x => (x.1, x.2)).map Prod.fst).Nodup := by
      rw [List.map_map]
      exact a.nodupKeys
    refine ⟨a.entries.map fun x => (x.1, x.2), hnd, Finmap.ext_lookup fun k => ?_⟩
    refine Option.ext fun v => ?_
    have hmem : (k, v) ∈ (a.entries.map fun x => (x.1, x.2)) ↔
        (⟨k, v⟩ : Sigma fun _ : κ => ν) ∈ a.entries := by
      rw [List.mem_map]
      constructor
      · rintro ⟨x, hx, heq⟩
        obtain ⟨rfl, rfl⟩ := Prod.mk.inj heq
        exact hx
      · intro hx
        exact ⟨_, hx, rfl⟩
    have hlook : (⟨k, v⟩ : Sigma fun _ : κ => ν) ∈ a.entries ↔
        (AList.toFinmap a).lookup k = some v := by
      rw [Finmap.lookup_toFinmap]
      exact (AList.mem_lookup_iff).symm
    exact ⟨fun h => hlook.mp (hmem.mp (mem_of_lookup_collect h)),
      fun h => lookup_collect_of_mem hnd (hmem.mpr (hlook.mpr h))⟩

/-- A map may be iterated in every order of its bindings. -/
theorem Enumerates.perm {l l' : List (κ × ν)} {m : Map κ ν} (h : Enumerates l m)
    (hperm : l'.Perm l) : Enumerates l' m := by
  have hnd : (l'.map Prod.fst).Nodup := (hperm.map Prod.fst).nodup_iff.mpr h.1
  refine ⟨hnd, Finmap.ext_lookup fun k => Option.ext fun v => ?_⟩
  rw [← (show Enumerates l' (collect l') from ⟨hnd, rfl⟩).mem_iff, ← h.mem_iff]
  exact hperm.mem_iff

/-- A list that has every binding of the map once has the same bindings in some order. -/
theorem Enumerates.perm_map {ι : Type*} {l : List (κ × ν)} {m : Map κ ν} (h : Enumerates l m)
    {cs : List ι} {key : ι → κ} {value : ι → ν} (hnd : (cs.map key).Nodup)
    (hbound : ∀ c ∈ cs, m.lookup (key c) = some (value c))
    (hall : ∀ k v, m.lookup k = some v → ∃ c ∈ cs, key c = k) :
    l.Perm (cs.map fun c => (key c, value c)) := by
  have hnd' : (cs.map fun c => (key c, value c)).Nodup := by
    refine List.Nodup.of_map Prod.fst ?_
    rwa [List.map_map]
  refine (List.perm_ext_iff_of_nodup (List.Nodup.of_map _ h.1) hnd').mpr fun ⟨k, v⟩ => ?_
  rw [h.mem_iff, List.mem_map]
  constructor
  · intro hv
    obtain ⟨c, hc, rfl⟩ := hall k v hv
    exact ⟨c, hc, by rw [Option.some.inj (hv.symm.trans (hbound c hc))]⟩
  · rintro ⟨c, hc, heq⟩
    obtain ⟨rfl, rfl⟩ := Prod.mk.inj heq
    exact hbound c hc

/-- Every binding may come first. -/
theorem exists_enumerates_cons {m : Map κ ν} {k : κ} {v : ν} (h : m.lookup k = some v) :
    ∃ l, Enumerates ((k, v) :: l) m := by
  obtain ⟨l, hl⟩ := exists_enumerates m
  obtain ⟨pre, post, rfl⟩ := List.append_of_mem (hl.mem_iff.mpr h)
  exact ⟨pre ++ post, hl.perm List.perm_middle.symm⟩

/-- **A search does not depend on the iteration order** exactly when it succeeds on no two
    bindings in different ways. -/
theorem findSome?_order_independent_iff {β : Type*} (m : Map κ ν) (g : κ × ν → Option β) :
    (∀ l l', Enumerates l m → Enumerates l' m → l.findSome? g = l'.findSome? g) ↔
      ∀ k v k' v' b b', m.lookup k = some v → m.lookup k' = some v' → g (k, v) = some b →
        g (k', v') = some b' → b = b' := by
  constructor
  · intro h k v k' v' b b' hk hk' hb hb'
    -- the orders that have the one and the other binding first
    obtain ⟨l, hl⟩ := exists_enumerates_cons hk
    obtain ⟨l', hl'⟩ := exists_enumerates_cons hk'
    have heq := h _ _ hl hl'
    rw [List.findSome?_cons, List.findSome?_cons, hb, hb'] at heq
    exact Option.some.inj heq
  · intro h l l' hl hl'
    have hfinds : ∀ {l₁ l₂ : List (κ × ν)} {b : β}, Enumerates l₁ m → Enumerates l₂ m →
        l₁.findSome? g = some b → l₂.findSome? g = some b := by
      intro l₁ l₂ b h₁ h₂ hb
      obtain ⟨⟨k, v⟩, hmem, hkv⟩ := List.exists_of_findSome?_eq_some hb
      have hk := h₁.mem_iff.mp hmem
      cases hb' : l₂.findSome? g with
      | none =>
        rw [List.findSome?_eq_none_iff.mp hb' (k, v) (h₂.mem_iff.mpr hk)] at hkv
        simp at hkv
      | some b' =>
        obtain ⟨⟨k', v'⟩, hmem', hkv'⟩ := List.exists_of_findSome?_eq_some hb'
        rw [h k v k' v' b b' hk (h₂.mem_iff.mp hmem') hkv hkv']
    exact Option.ext fun b => ⟨hfinds hl hl', hfinds hl' hl⟩

end KeyedMap
