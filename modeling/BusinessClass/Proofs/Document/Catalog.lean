import BusinessClass.Document.Catalog
import Mathlib.Data.List.Induction

/-!
# Changing catalogs

* `upsert_of_not_mem`: a new key comes last.
* `upsert_upsert`: two changes of one entry are one.
* `upsert_map`: changes commute with maps of the entries.
* `get?_of_perm`: under distinct keys, finding an entry does not depend on the order.
* `keys_map_self` and `get?_map_self`: catalogs whose entries are given by their keys.
-/

namespace BusinessClass

/-! ### Lists that grow at the end -/

theorem filterMap_concat {α β : Type} (f : α → Option β) (as : List α) (a : α) :
    (as ++ [a]).filterMap f = as.filterMap f ++ (f a).toList := by
  rw [List.filterMap_append]
  cases value : f a <;> simp [value]

/-- What is stated last counts. -/
theorem getLast?_filterMap_concat {α β : Type} (f : α → Option β) (as : List α) (a : α) :
    ((as ++ [a]).filterMap f).getLast? = (f a).or (as.filterMap f).getLast? := by
  rw [filterMap_concat]
  cases f a <;> simp

/-! ### Entries and changes -/

namespace Catalog

variable {κ α β : Type}

theorem mem_keys {c : Catalog κ α} {e : κ × α} (h : e ∈ c) : e.1 ∈ keys c := List.mem_map_of_mem h

@[simp] theorem keys_map (m : κ × α → β) (c : Catalog κ α) :
    keys (c.map fun e => (e.1, m e)) = keys c := by
  rw [keys, keys, List.map_map]
  rfl

@[simp] theorem keys_map_self (entry : κ → α) (ks : List κ) : keys (ks.map fun k => (k, entry k)) = ks := by
  rw [keys, List.map_map]
  exact List.map_id' ks

variable [DecidableEq κ]

/-- A new key comes last. -/
theorem upsert_of_not_mem {k : κ} {f : Option α → α} {c : Catalog κ α} (h : k ∉ keys c) :
    upsert k f c = c ++ [(k, f none)] := by
  induction c with
  | nil => rfl
  | cons e c ih =>
    rw [keys_cons, List.mem_cons, not_or] at h
    rw [upsert, if_neg (Ne.symm h.1), ih h.2, List.cons_append]

/-- Two changes of one entry are one. -/
theorem upsert_upsert (k : κ) (f g : Option α → α) (c : Catalog κ α) :
    upsert k g (upsert k f c) = upsert k (fun x => g (some (f x))) c := by
  induction c with
  | nil => simp [upsert]
  | cons e c ih =>
    by_cases h : e.1 = k
    · simp [upsert, h]
    · simp [upsert, h, ih]

/-- Changing one entry commutes with a map of all of them that looks at keys. -/
theorem upsert_map_key (k : κ) (m : κ → α → β) {f : Option α → α} {g : Option β → β}
    (hfg : ∀ x, m k (f x) = g (x.map (m k))) (c : Catalog κ α) :
    upsert k g (c.map fun e => (e.1, m e.1 e.2)) = (upsert k f c).map fun e => (e.1, m e.1 e.2) := by
  induction c with
  | nil => simp [upsert, hfg]
  | cons e c ih =>
    by_cases hk : e.1 = k
    · subst hk
      simp [upsert, hfg]
    · simpa [upsert, hk] using ih

/-- Changing one entry commutes with a map of all of them. -/
theorem upsert_map (k : κ) (m : α → β) {f : Option α → α} {g : Option β → β}
    (hfg : ∀ x, m (f x) = g (x.map m)) (c : Catalog κ α) :
    upsert k g (c.map fun e => (e.1, m e.2)) = (upsert k f c).map fun e => (e.1, m e.2) :=
  upsert_map_key k (fun _ => m) hfg c

theorem get?_map (k : κ) (m : α → β) (c : Catalog κ α) :
    get? (c.map fun e => (e.1, m e.2)) k = (get? c k).map m := by
  induction c with
  | nil => rfl
  | cons e c ih => by_cases hk : e.1 = k <;> simp [get?, hk, ih]

/-- A map that looks at keys keeps them. -/
theorem get?_map_key (k : κ) (m : κ → α → β) (c : Catalog κ α) :
    get? (c.map fun e => (e.1, m e.1 e.2)) k = (get? c k).map (m k) := by
  induction c with
  | nil => rfl
  | cons e c ih =>
    by_cases hk : e.1 = k
    · subst hk
      simp [get?]
    · simp [get?, hk, ih]

theorem mem_of_get? {k : κ} {a : α} {c : Catalog κ α} (h : get? c k = some a) : (k, a) ∈ c := by
  induction c with
  | nil => cases h
  | cons e c ih =>
    rw [get?] at h
    split at h
    · rename_i hk
      cases h
      rw [← hk]
      exact List.mem_cons_self
    · exact List.mem_cons_of_mem e (ih h)

/-- Under distinct keys, every entry is found. -/
theorem get?_of_mem {k : κ} {a : α} {c : Catalog κ α} (nodup : (keys c).Nodup) (h : (k, a) ∈ c) :
    get? c k = some a := by
  induction c with
  | nil => cases h
  | cons e c ih =>
    rw [keys_cons, List.nodup_cons] at nodup
    rcases List.mem_cons.1 h with rfl | h
    · simp [get?]
    · have later : k ∈ keys c := mem_keys h
      have : e.1 ≠ k := fun hk => nodup.1 (hk ▸ later)
      rw [get?, if_neg this, ih nodup.2 h]

/-- Under distinct keys, the order of entries does not matter for finding them. -/
theorem get?_of_perm {c c' : Catalog κ α} (perm : c'.Perm c) (nodup : (keys c).Nodup) (k : κ) :
    get? c' k = get? c k := by
  have nodup' : (keys c').Nodup := (perm.map Prod.fst).nodup_iff.2 nodup
  apply Option.ext
  intro a
  constructor
  · intro h
    exact get?_of_mem nodup (perm.subset (mem_of_get? h))
  · intro h
    exact get?_of_mem nodup' (perm.symm.subset (mem_of_get? h))

/-- Under distinct keys, what only one key can contribute to is contributed by its entry. -/
theorem flatMap_of_key {k : κ} {F : κ × α → List β} {c : Catalog κ α} (nodup : (keys c).Nodup)
    (other : ∀ e ∈ c, e.1 ≠ k → F e = []) :
    k ∉ keys c ∧ c.flatMap F = [] ∨ ∃ a, (k, a) ∈ c ∧ c.flatMap F = F (k, a) := by
  induction c with
  | nil => exact Or.inl ⟨List.not_mem_nil, rfl⟩
  | cons e c ih =>
    rw [keys_cons, List.nodup_cons] at nodup
    rw [List.flatMap_cons]
    have later := fun e' he' => other e' (List.mem_cons_of_mem e he')
    by_cases same : e.1 = k
    · have none : c.flatMap F = [] := by
        refine List.flatMap_eq_nil_iff.2 fun e' he' => later e' he' fun eq => nodup.1 ?_
        rw [same, ← eq]
        exact mem_keys he'
      subst same
      exact Or.inr ⟨e.2, List.mem_cons_self, by rw [none, List.append_nil]⟩
    · rw [other e List.mem_cons_self same, List.nil_append]
      rcases ih nodup.2 later with ⟨absent, none⟩ | ⟨a, ha, eq⟩
      · refine Or.inl ⟨?_, none⟩
        rw [keys_cons, List.mem_cons]
        rintro (rfl | mem)
        · exact same rfl
        · exact absent mem
      · exact Or.inr ⟨a, List.mem_cons_of_mem e ha, eq⟩

theorem contains_eq_false {k : κ} {c : Catalog κ α} (h : k ∉ keys c) : contains c k = false := by
  have : get? c k = none := by
    induction c with
    | nil => rfl
    | cons e c ih =>
      rw [keys_cons, List.mem_cons, not_or] at h
      rw [get?, if_neg (Ne.symm h.1), ih h.2]
  rw [contains, this]
  rfl

theorem contains_eq_mem (c : Catalog κ α) (k : κ) : contains c k = decide (k ∈ keys c) := by
  induction c with
  | nil => rfl
  | cons e c ih =>
    obtain ⟨k', a⟩ := e
    by_cases h : k' = k
    · simp [contains, get?, h]
    · have : contains ((k', a) :: c) k = contains c k := by simp [contains, get?, h]
      simp [this, ih, Ne.symm h]

/-! ### Catalogs whose entries are given by their keys -/

theorem get?_map_self (entry : κ → α) (ks : List κ) (k : κ) :
    get? (ks.map fun k => (k, entry k)) k = if k ∈ ks then some (entry k) else none := by
  induction ks with
  | nil => rfl
  | cons k' ks ih =>
    by_cases h : k' = k
    · subst h
      simp [get?]
    · simp [get?, h, Ne.symm h, ih]

/-! ### Keys in the order in which they first came up -/

theorem eraseDups_concat (ks : List κ) (k : κ) :
    (ks ++ [k]).eraseDups = if k ∈ ks then ks.eraseDups else ks.eraseDups ++ [k] := by
  have single : [k].eraseDups = [k] := by simp [List.eraseDups_cons]
  rw [List.eraseDups_append]
  split <;> simp [List.removeAll, *]

theorem nodup_eraseDups (ks : List κ) : ks.eraseDups.Nodup := by
  induction ks using List.reverseRecOn with
  | nil => simp
  | append_singleton ks k ih =>
    rw [eraseDups_concat]
    split
    · exact ih
    · rename_i new
      refine List.nodup_append.2 ⟨ih, by simp, fun a ha b hb same => new ?_⟩
      rw [← List.mem_singleton.1 hb, ← same]
      exact List.mem_eraseDups.1 ha

/-- Changing one entry of a catalog whose entries are distinct and given by their keys. -/
theorem upsert_map_of_nodup (k : κ) (f : Option α → α) (entry : κ → α) {ks : List κ} (nodup : ks.Nodup) :
    upsert k f (ks.map fun k' => (k', entry k'))
      = if k ∈ ks then ks.map (fun k' => (k', if k' = k then f (some (entry k)) else entry k'))
        else (ks.map fun k' => (k', entry k')) ++ [(k, f none)] := by
  induction ks with
  | nil => simp [upsert]
  | cons k' ks ih =>
    obtain ⟨first, rest⟩ := List.nodup_cons.1 nodup
    by_cases h : k' = k
    · subst h
      have same : ks.map (fun j => (j, if j = k' then f (some (entry k')) else entry j))
          = ks.map fun j => (j, entry j) := by
        refine List.map_congr_left fun j hj => ?_
        have ne : j ≠ k' := fun eq => first (eq ▸ hj)
        rw [if_neg ne]
      simp [upsert, same]
    · rw [List.map_cons, upsert, if_neg h, ih rest]
      by_cases mem : k ∈ ks <;> simp [mem, h, Ne.symm h]

/-- A change keeps the order in which keys first came up. -/
theorem upsert_map_eraseDups (k : κ) (f : Option α → α) {entry entry' : κ → α} (ks : List κ)
    (old : ∀ k' ≠ k, entry' k' = entry k')
    (new : entry' k = f (if k ∈ ks then some (entry k) else none)) :
    upsert k f (ks.eraseDups.map fun k' => (k', entry k'))
      = (ks ++ [k]).eraseDups.map fun k' => (k', entry' k') := by
  rw [upsert_map_of_nodup k f entry (nodup_eraseDups ks), eraseDups_concat]
  simp only [List.mem_eraseDups]
  split
  · rename_i mem
    rw [if_pos mem] at new
    refine List.map_congr_left fun k' _ => ?_
    by_cases h : k' = k
    · rw [if_pos h, h, new]
    · rw [if_neg h, old k' h]
  · rename_i absent
    rw [if_neg absent] at new
    rw [List.map_append, List.map_singleton, new]
    refine congrArg (· ++ _) (List.map_congr_left fun k' hk => ?_)
    have ne : k' ≠ k := fun eq => absent (eq ▸ List.mem_eraseDups.1 hk)
    rw [old k' ne]

end Catalog

end BusinessClass
