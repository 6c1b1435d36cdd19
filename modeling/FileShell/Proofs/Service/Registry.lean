import FileShell.Service.Registry
import Mathlib.Data.List.Nodup

/-!
# What a registry knows

An operation on a registry is said by the session that the registry gives for each id afterwards
(`get_create`, `get_put`, `get_discard`) and by the ids that it then has. In a registry that is
`Orderly` no id is there twice and all were handed out, so the next one is new.
-/

namespace FileShell

namespace Registry

/-- The ids of the registered sessions. -/
def ids (r : Registry) : List Text := r.sessions.map (·.id)

/-- A session is registered under the id. -/
def Knows (r : Registry) (id : Text) : Prop := ∃ session, r.get id = .ok session

variable {r : Registry} {id other : Text} {session : Session}

theorem knows_of_get (h : r.get id = .ok session) : r.Knows id := ⟨session, h⟩

theorem get_eq (r : Registry) (id : Text) : r.get id =
    (r.sessions.find? (·.id == id)).elim (.error ⟨id⟩) fun e => .ok e.session := by
  unfold get find
  rcases hf : r.sessions.find? (·.id == id) with _ | e <;> rw [hf] <;> rfl

theorem get_of_not_knows (h : ¬ r.Knows id) : r.get id = .error ⟨id⟩ := by
  rw [get_eq]
  rcases hf : r.sessions.find? (·.id == id) with _ | e <;> rw [hf]
  · rfl
  · exact absurd (knows_of_get ((get_eq r id).trans (by rw [hf]; rfl))) h

theorem knows_iff : r.Knows id ↔ id ∈ r.ids := by
  unfold Knows ids
  rw [get_eq]
  rcases hf : r.sessions.find? (·.id == id) with _ | e <;> rw [hf]
  · refine iff_of_false (by rintro ⟨_, ⟨⟩⟩) fun h => ?_
    obtain ⟨e, he, hid⟩ := List.mem_map.1 h
    exact List.find?_eq_none.1 hf e he (beq_iff_eq.2 hid)
  · exact iff_of_true ⟨e.session, rfl⟩
      (List.mem_map.2 ⟨e, List.mem_of_find?_eq_some hf, by simpa using List.find?_some hf⟩)

@[simp] theorem ids_create : (r.create session).2.ids = r.ids ++ [r.idOf r.created] := by
  simp [create, ids]

@[simp] theorem ids_put : (r.put id session).ids = r.ids := by
  unfold put ids
  rw [List.map_map]
  refine List.map_congr_left fun e _ => ?_
  dsimp only [Function.comp]
  split <;> rfl

@[simp] theorem ids_discard : (r.discard id).2.ids = r.ids.filter (· != id) := by
  unfold discard ids
  rw [List.filter_map]
  rfl

theorem knows_create :
    (r.create session).2.Knows other ↔ r.Knows other ∨ other = r.idOf r.created := by
  rw [knows_iff, knows_iff, ids_create, List.mem_append, List.mem_singleton]

theorem knows_put : (r.put id session).Knows other ↔ r.Knows other := by
  rw [knows_iff, knows_iff, ids_put]

theorem knows_discard : (r.discard id).2.Knows other ↔ r.Knows other ∧ other ≠ id := by
  rw [knows_iff, knows_iff, ids_discard, List.mem_filter, bne_iff_ne]

theorem size_eq (r : Registry) : r.size = r.ids.length := (List.length_map _).symm

theorem size_create : (r.create session).2.size = r.size + 1 := by
  rw [size_eq, size_eq, ids_create, List.length_append, List.length_singleton]

theorem size_put : (r.put id session).size = r.size := by rw [size_eq, size_eq, ids_put]

theorem get_create (hnew : r.idOf r.created ∉ r.ids) (other : Text) :
    (r.create session).2.get other =
      if other = r.idOf r.created then .ok session else r.get other := by
  rw [get_eq, get_eq, create, List.find?_append]
  split_ifs with h
  · subst h
    have hnone : r.sessions.find? (·.id == r.idOf r.created) = none :=
      List.find?_eq_none.2 fun e he heq =>
        hnew (List.mem_map.2 ⟨e, he, beq_iff_eq.1 heq⟩)
    rw [hnone, Option.none_or, List.find?_singleton, if_pos (beq_self_eq_true _)]
    rfl
  · rw [List.find?_singleton, if_neg (by simpa using Ne.symm h), Option.or_none]

theorem get_put (h : r.Knows id) (other : Text) :
    (r.put id session).get other = if other = id then .ok session else r.get other := by
  unfold Knows at h
  rw [get_eq] at h
  rw [get_eq, get_eq, put, List.find?_map]
  have hp : ((fun e : Registered => e.id == other) ∘ fun e : Registered =>
      if e.id = id then { e with session := session } else e) = (·.id == other) := by
    funext e
    dsimp only [Function.comp]
    split <;> rfl
  rw [hp]
  rcases hf : r.sessions.find? (·.id == other) with _ | e <;> rw [hf]
  · split_ifs with ho
    · rw [← ho, hf] at h
      obtain ⟨_, ⟨⟩⟩ := h
    · rfl
  · have he : e.id = other := by simpa using List.find?_some hf
    rw [Option.map_some, Option.elim_some, Option.elim_some, he]
    split_ifs <;> rfl

theorem get_discard (other : Text) :
    (r.discard id).2.get other = if other = id then .error ⟨id⟩ else r.get other := by
  split_ifs with h
  · subst h
    exact get_of_not_knows fun hk => (knows_discard.1 hk).2 rfl
  · rw [get_eq, get_eq, discard, List.find?_filter]
    congr 2
    funext e
    by_cases he : e.id = other
    · subst he
      simpa using h
    · simp [he]

theorem any_eq_true_iff : r.sessions.any (·.id == id) = true ↔ r.Knows id := by
  rw [knows_iff, ids, List.any_eq_true, List.mem_map]
  simp only [beq_iff_eq]

theorem remove_of_knows (h : r.Knows id) : r.remove id = .ok (r.discard id).2 := by
  unfold remove discard
  rw [any_eq_true_iff.2 h]

theorem remove_of_not_knows (h : ¬ r.Knows id) : r.remove id = .error ⟨id⟩ := by
  unfold remove discard
  rw [Bool.eq_false_iff.2 fun ha => h (any_eq_true_iff.1 ha)]

/-- No id is there twice, all were handed out, and none is handed out twice. -/
structure Orderly (r : Registry) : Prop where
  distinct : Function.Injective r.idOf
  nodup : r.ids.Nodup
  handed : ∀ id ∈ r.ids, ∃ n < r.created, r.idOf n = id

namespace Orderly

theorem empty {idOf : Nat → Text} (h : Function.Injective idOf) :
    (Registry.empty idOf).Orderly where
  distinct := h
  nodup := List.nodup_nil
  handed _ hid := by cases hid

theorem not_mem (h : r.Orderly) : r.idOf r.created ∉ r.ids := fun hid => by
  obtain ⟨n, hn, heq⟩ := h.handed _ hid
  exact absurd (h.distinct heq) (Nat.ne_of_lt hn)

theorem create (h : r.Orderly) (session : Session) : (r.create session).2.Orderly where
  distinct := h.distinct
  nodup := by
    rw [ids_create]
    exact List.nodup_append.2 ⟨h.nodup, List.nodup_singleton _, fun a ha b hb hab =>
      h.not_mem (List.mem_singleton.1 hb ▸ hab ▸ ha)⟩
  handed id hid := by
    rw [ids_create, List.mem_append, List.mem_singleton] at hid
    rcases hid with hid | rfl
    · obtain ⟨n, hn, heq⟩ := h.handed id hid
      exact ⟨n, Nat.lt_succ_of_lt hn, heq⟩
    · exact ⟨r.created, Nat.lt_succ_self _, rfl⟩

theorem put (h : r.Orderly) (id : Text) (session : Session) : (r.put id session).Orderly where
  distinct := h.distinct
  nodup := by
    rw [ids_put]
    exact h.nodup
  handed i hi := h.handed i (ids_put ▸ hi)

theorem discard (h : r.Orderly) (id : Text) : (r.discard id).2.Orderly where
  distinct := h.distinct
  nodup := ids_discard ▸ h.nodup.filter _
  handed i hi := h.handed i (List.mem_filter.1 (ids_discard ▸ hi)).1

theorem size_discard (h : r.Orderly) (hk : r.Knows id) : (r.discard id).2.size + 1 = r.size := by
  rw [size_eq, size_eq, ids_discard, ← h.nodup.erase_eq_filter,
    List.length_erase_add_one (knows_iff.1 hk)]

end Orderly

end Registry

end FileShell
