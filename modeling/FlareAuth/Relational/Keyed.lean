import FlareAuth.Relational.Table

/-!
# Tables with a primary key

A table whose rows have different keys. Updates keep the key, so the row with a
key before an update is the row with that key after it.
-/

namespace Relational

structure Keyed {α β : Type} (key : α → β) where
  rows : List α
  nodup : (rows.map key).Nodup

namespace Keyed

variable {α β : Type} {key : α → β}

def empty (key : α → β) : Keyed key := ⟨[], List.nodup_nil⟩

def update (t : Keyed key) (p : α → Bool) (f : α → α) (hf : ∀ r, key (f r) = key r) : Keyed key :=
  ⟨updateWhere p f t.rows, nodup_map_updateWhere (fun r _ => hf r) t.nodup⟩

def delete (t : Keyed key) (p : α → Bool) : Keyed key :=
  ⟨t.rows.filter fun r => !p r, (List.filter_sublist.map key).nodup t.nodup⟩

variable [DecidableEq β]

def find (t : Keyed key) (k : β) : Option α := lookup key k t.rows

/-- The row is appended unless its key is taken. -/
def insert? (t : Keyed key) (r : α) : Option (Keyed key) :=
  if h : ∀ q ∈ t.rows, key q ≠ key r then
    some ⟨t.rows ++ [r], nodup_map_append_singleton t.nodup h⟩
  else none

variable {t : Keyed key} {k : β} {r : α}

theorem find_eq_some : t.find k = some r ↔ r ∈ t.rows ∧ key r = k := by
  constructor
  · intro h
    exact ⟨mem_of_lookup h, key_of_lookup h⟩
  · rintro ⟨h, rfl⟩
    exact lookup_of_mem t.nodup h

theorem find_eq_none : t.find k = none ↔ ∀ r ∈ t.rows, key r ≠ k := by
  simp [find, lookup]

theorem find_update {p : α → Bool} {f : α → α} (hf : ∀ r, key (f r) = key r) :
    (t.update p f hf).find k = (t.find k).map fun r => if p r then f r else r := by
  cases h : t.find k with
  | some r => exact lookup_updateWhere key hf h
  | none =>
    rw [Option.map_none, find_eq_none]
    intro r hr
    obtain ⟨q, hq, rfl⟩ := mem_updateWhere.mp hr
    have hne := find_eq_none.mp h q hq
    split
    · rwa [hf q]
    · exact hne

theorem insert?_eq_some {t' : Keyed key} (h : t.insert? r = some t') :
    t'.rows = t.rows ++ [r] ∧ ∀ q ∈ t.rows, key q ≠ key r := by
  unfold insert? at h
  split at h
  · rename_i hnew
    cases h
    exact ⟨rfl, hnew⟩
  · cases h

theorem find_insert?_self {t' : Keyed key} (h : t.insert? r = some t') :
    t'.find (key r) = some r := by
  rw [find_eq_some, (insert?_eq_some h).1]
  exact ⟨List.mem_append_right _ List.mem_cons_self, rfl⟩

theorem find_insert?_of_some {t' : Keyed key} {q : α} (h : t.insert? r = some t')
    (hq : t.find k = some q) : t'.find k = some q := by
  rw [find_eq_some] at hq ⊢
  rw [(insert?_eq_some h).1]
  exact ⟨List.mem_append_left _ hq.1, hq.2⟩

theorem find_insert?_of_ne {t' : Keyed key} (h : t.insert? r = some t') (hk : k ≠ key r) :
    t'.find k = t.find k := by
  cases hfound : t.find k with
  | some q => exact find_insert?_of_some h hfound
  | none =>
    rw [find_eq_none, (insert?_eq_some h).1]
    intro q hq
    rcases List.mem_append.mp hq with hq | hq
    · exact find_eq_none.mp hfound q hq
    · obtain rfl := List.mem_singleton.mp hq
      exact hk.symm

theorem update_eq_self {p : α → Bool} {f : α → α} (hf : ∀ r, key (f r) = key r) :
    t.update p f hf = t ↔ ∀ r ∈ t.rows, p r = true → f r = r := by
  constructor
  · intro h r hr hp
    have hfound := find_update (t := t) (k := key r) (p := p) hf
    rw [h, find_eq_some.mpr ⟨hr, rfl⟩, Option.map_some, if_pos hp] at hfound
    exact (Option.some.inj hfound).symm
  · intro h
    rw [Keyed.mk.injEq]
    exact updateWhere_eq_self h

omit [DecidableEq β] in
/-- Updates that come to the same for each row. -/
theorem update_congr {p q : α → Bool} {f g : α → α} {hf : ∀ r, key (f r) = key r}
    {hg : ∀ r, key (g r) = key r}
    (h : ∀ r ∈ t.rows, (if p r then f r else r) = if q r then g r else r) :
    t.update p f hf = t.update q g hg := by
  rw [Keyed.mk.injEq]
  exact List.map_congr_left h

end Keyed

end Relational
