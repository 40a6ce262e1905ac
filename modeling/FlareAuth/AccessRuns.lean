import FlareAuth.AccessReads

/-!
# Calls that run alone

A call that nothing interrupts finds at each of its reads the store it started on, up to
the identifiers which it has generated meanwhile.
-/

namespace FlareAuth

open Concurrent Procedure Access

/-- The store after reads: some identifiers may have been generated. -/
def Store.ReadTo (s t : Store) : Prop := ∃ g, s.generated ≤ g ∧ t = { s with generated := g }

namespace Store.ReadTo

variable {s t u : Store}

theorem refl (s : Store) : s.ReadTo s := ⟨s.generated, le_rfl, rfl⟩

theorem trans (h : s.ReadTo t) (h' : t.ReadTo u) : s.ReadTo u := by
  obtain ⟨g, hg, rfl⟩ := h
  obtain ⟨g', hg', rfl⟩ := h'
  exact ⟨g', hg.trans hg', rfl⟩

theorem now_eq (h : s.ReadTo t) : t.now = s.now := by
  obtain ⟨g, -, rfl⟩ := h
  rfl

theorem directory_eq (h : s.ReadTo t) : t.directory = s.directory := by
  obtain ⟨g, -, rfl⟩ := h
  rfl

theorem entitlements_eq (h : s.ReadTo t) : t.entitlements = s.entitlements := by
  obtain ⟨g, -, rfl⟩ := h
  rfl

theorem leases_eq (h : s.ReadTo t) : t.leases = s.leases := by
  obtain ⟨g, -, rfl⟩ := h
  rfl

theorem generated_le (h : s.ReadTo t) : s.generated ≤ t.generated := by
  obtain ⟨g, hg, rfl⟩ := h
  exact hg

end Store.ReadTo

section Runs

variable {α β : Type} {p : Access α} {s t : Store}

theorem apply_isRead {op : Operation} (h : op.IsRead) (s : Store) : s.ReadTo (apply op s) := by
  cases op with
  | read query => exact .refl s
  | generateId => exact ⟨s.generated + 1, Nat.le_succ _, rfl⟩
  | _ => exact absurd h id

/-- Reads leave the store as it is. -/
theorem exec_reads (h : p.Reads) (s : Store) : s.ReadTo (p.exec s).2 :=
  h.relates .refl (fun _ _ _ => .trans) (fun _ => apply_isRead) s

theorem readTo_of_exec (h : p.Reads) {r : Except Failure α} (hexec : p.exec s = (r, t)) :
    s.ReadTo t := by
  have hread := exec_reads h s
  rwa [hexec] at hread

/-- A call that returns after a read part has passed that part. -/
theorem exec_reads_bind {f : α → Access β} {b : β} (h : p.Reads)
    (hexec : (p >>= f).exec s = (.ok b, t)) :
    ∃ a u, p.exec s = (.ok a, u) ∧ s.ReadTo u ∧ (f a).exec u = (.ok b, t) := by
  obtain ⟨a, u, hp, hf⟩ := exec_bind_inv hexec
  exact ⟨a, u, hp, readTo_of_exec h hp, hf⟩

theorem exec_look_bind (answer : Directory → α) (f : α → Access β) (s : Store) :
    (look answer >>= f).exec s = (f (answer s.directory)).exec s := exec_query_bind _ _ f s

theorem exec_ask_bind (query : Query) (answer : Store → α) (f : α → Access β) (s : Store) :
    (ask query answer >>= f).exec s = (f (answer s)).exec s := exec_query_bind _ answer f s

theorem exec_clock_bind (f : ℕ → Access β) (s : Store) :
    (clock >>= f).exec s = (f s.now).exec s := exec_query_bind _ _ f s

/-- A write that runs alone is its batch. -/
theorem exec_commit_of_ok {op : Operation} {batch : StoreBatch α} {x : α}
    (hop : op.perform s = batch.settle s) (h : batch s = .ok (x, t)) :
    (commit op batch).exec s = (.ok x, t) := by
  unfold commit
  rw [exec_step, apply_eq, hop, Batch.settle_of_ok h, Batch.outcome, h]
  rfl

theorem exec_commit_of_error {op : Operation} {batch : StoreBatch α} {e : Failure}
    (hop : op.perform s = batch.settle s) (h : batch s = .error e) :
    (commit op batch).exec s = (.error e, s) := by
  unfold commit
  rw [exec_step, apply_eq, hop, Batch.settle_of_error h, Batch.outcome, h]
  rfl

theorem exec_commit_inv {op : Operation} {batch : StoreBatch α} {x : α}
    (hop : op.perform s = batch.settle s) (h : (commit op batch).exec s = (.ok x, t)) :
    batch s = .ok (x, t) := by
  cases hbatch : batch s with
  | error e =>
    rw [exec_commit_of_error hop hbatch] at h
    cases h
  | ok result =>
    obtain ⟨y, u⟩ := result
    rw [exec_commit_of_ok hop hbatch] at h
    cases h
    rfl

end Runs

theorem Store.Valid.readTo {s t : Store} (hs : s.Valid) (h : s.ReadTo t) : t.Valid := by
  obtain ⟨g, -, rfl⟩ := h
  exact ⟨hs.requests, hs.entitlements, hs.leases, hs.tokens⟩

theorem Directory.activeResource_of_found {d : Directory} {id : Id} {r : ApiResource}
    (h : d.findResource id = some r) (henabled : r.enabled = true) :
    (d.activeResource id).isSome = true := by
  have hr := List.find?_some h
  rw [decide_eq_true_eq] at hr
  rw [activeResource, List.find?_isSome]
  exact ⟨r, List.mem_of_find?_eq_some h, by simp [hr.1, henabled, hr.2]⟩

theorem Directory.activeConnection_of_found {d : Directory} {id : Id} {c : ResourceConnection}
    (h : d.findConnection id = some c) (hactive : c.status = .active) :
    d.activeConnection id = true := by
  have hid := List.find?_some h
  rw [decide_eq_true_eq] at hid
  obtain ⟨a, ha, hto⟩ := List.mem_filterMap.mp (List.mem_of_find?_eq_some h)
  obtain ⟨p, -, rfl⟩ := Option.map_eq_some_iff.mp hto
  rw [activeConnection, List.any_eq_true]
  exact ⟨a, ha, by simp [← hid, ← hactive]⟩

end FlareAuth
