import FileShell.Archive.Entry
import FileShell.Proofs.Path.Names
import Mathlib.Data.List.Destutter

/-!
# Components of entry names

A text that is cut at a separator and put together with it again loses the separators at its ends
and all but one where several stand side by side (`join_fields`). For the names of entries this is
one of three laws (`parts_homomorphic`): the parts of a name that was put together are those of its
pieces, in turn; pieces are found again exactly if they are parts already, not empty and without a
slash; and a name that is put together from its own parts is itself, squeezed and trimmed.
-/

namespace FileShell

namespace Text

variable {c d s : Char}

/-! ## Squeezing -/

/-- The text with one separator where several stand side by side. -/
def squeeze (s : Char) (t : Text) : Text := t.destutter fun a b => a = s → b ≠ s

theorem squeeze_cons (h : c = s → d ≠ s) (t : Text) :
    squeeze s (c :: d :: t) = c :: squeeze s (d :: t) :=
  if_pos h

theorem squeeze_separators (s : Char) (t : Text) : squeeze s (s :: s :: t) = squeeze s (s :: t) :=
  if_neg (by simp)

/-- What is left of a text begins as the text does, and not with two separators. -/
theorem exists_squeeze (s : Char) : ∀ (c : Char) (t : Text),
    ∃ u : Text, squeeze s (c :: t) = c :: u ∧ (c = s → u.head? ≠ some s)
  | c, [] => ⟨[], rfl, by simp⟩
  | c, d :: t => by
    obtain ⟨u, hu, hh⟩ := exists_squeeze s d t
    by_cases h : c = s → d ≠ s
    · exact ⟨d :: u, by rw [squeeze_cons h, hu], fun hc => by simpa using h hc⟩
    · obtain ⟨rfl, rfl⟩ : c = s ∧ d = s := by tauto
      exact ⟨u, by rw [squeeze_separators, hu], hh⟩

theorem trim_cons_separator (s : Char) (t : Text) : trim (· == s) (s :: t) = trim (· == s) t := by
  rw [trim, trimStart, List.dropWhile_cons_of_pos (by simp), ← trimStart, ← trim]

theorem trim_cons (hc : c ≠ s) (t : Text) : trim (· == s) (c :: t) = c :: trimEnd (· == s) t :=
  trim_append (by simpa using hc) [] t

/-! ## Cutting and joining -/

theorem fields_cons_separator (hc : c ≠ s) (t : Text) :
    fields (· == s) (c :: s :: t) = [c] :: fields (· == s) t := by
  have hone : fields (· == s) [c] = [[c]] := by
    simp [fields, split_of_forall, hc]
  rw [show c :: s :: t = [c] ++ s :: t from rfl, fields_append (by simp), hone]
  rfl

theorem join_fields_cons (hc : c ≠ s) (hd : d ≠ s) (t : Text) :
    join [s] (fields (· == s) (c :: d :: t)) = c :: join [s] (fields (· == s) (d :: t)) := by
  obtain ⟨x, xs, hx⟩ := List.exists_cons_of_ne_nil (split_ne_nil (· == s) t)
  have hcd : fields (· == s) (c :: d :: t) = (c :: d :: x) :: xs.filter (!·.isEmpty) := by
    simp [fields, split, hc, hd, hx]
  have hd : fields (· == s) (d :: t) = (d :: x) :: xs.filter (!·.isEmpty) := by
    simp [fields, split, hd, hx]
  rw [hcd, hd]
  cases xs.filter (!·.isEmpty) <;> rfl

/-- The separator in front of the fields goes with them if there are none. -/
theorem join_cons_fields (x : Text) {t u : Text} (hh : u.head? ≠ some s)
    (h : join [s] (fields (· == s) t) = trim (· == s) u) :
    join [s] (x :: fields (· == s) t) = x ++ trimEnd (· == s) (s :: u) := by
  rcases u with _ | ⟨e, v⟩
  · have hnone : fields (· == s) t = [] := by
      rcases hf : fields (· == s) t with _ | ⟨x, xs⟩
      · rfl
      · have hx : x ≠ [] := fields_ne_nil (hf ▸ List.mem_cons_self)
        rw [hf] at h
        cases xs <;> simp [join, hx, trim, trimStart, trimEnd] at h
    rw [hnone]
    simp [join, trimEnd]
  · have he : e ≠ s := by simpa using hh
    have hsome : fields (· == s) t ≠ [] := fun hf => by
      rw [hf, trim_cons he] at h
      cases h
    have hend : trimEnd (· == s) (s :: e :: v) = s :: e :: trimEnd (· == s) v :=
      trimEnd_append (by simpa using he) [s] v
    rw [join_cons_of_ne_nil _ _ hsome, h, trim_cons he, hend, List.append_assoc]
    rfl

/-- Cutting a text at a separator and joining the fields with it again. -/
theorem join_fields (s : Char) : ∀ t : Text,
    join [s] (fields (· == s) t) = trim (· == s) (squeeze s t)
  | [] => rfl
  | [c] => by
    by_cases hc : c = s <;> simp [fields, split, hc, squeeze, trim, trimStart, trimEnd, join]
  | c :: d :: t => by
    have ih := join_fields s (d :: t)
    obtain ⟨u, hu, hh⟩ := exists_squeeze s d t
    by_cases hc : c = s
    · subst hc
      rw [fields_cons (by simp), ih]
      by_cases hd : d = c
      · rw [hd, squeeze_separators]
      · rw [squeeze_cons fun _ => hd, trim_cons_separator]
    · rw [hu] at ih
      rw [squeeze_cons fun h => absurd h hc, hu, trim_cons hc]
      by_cases hd : d = s
      · -- the field ends here, and the separator behind it stays if another field comes
        subst hd
        rw [fields_cons (by simp), trim_cons_separator] at ih
        rw [fields_cons_separator hc, join_cons_fields [c] (hh rfl) ih]
        rfl
      · rw [join_fields_cons hc hd, ih, trim_cons hd]
        exact congrArg (c :: ·) (trimEnd_append (by simpa using hd) [] u).symm

end Text

namespace Entry

variable {p n : Text}

theorem isPart_of_mem_parts (h : p ∈ parts n) : p ≠ [] ∧ '/' ∉ p :=
  ⟨Path.ne_nil_of_mem_names h, Path.not_mem_of_mem_names h⟩

theorem flatMap_parts (ps : List Text) : parts (joinParts ps) = ps.flatMap parts := by
  unfold joinParts
  rw [parts, Text.fields_join_eq (by simp), List.flatMap_map]
  induction ps with
  | nil => rfl
  | cons p ps ih =>
    rw [List.flatMap_cons, ← ih]
    rcases eq_or_ne p [] with rfl | hp
    · rfl
    · rw [List.filter_cons_of_pos (by simpa using hp), List.flatMap_cons, Text.fields_trim]
      rfl

theorem joinParts_parts (n : Text) :
    joinParts (parts n) = Text.trim (· == '/') (Text.squeeze '/' n) := by
  have hfilter : (parts n).filter (!·.isEmpty) = parts n :=
    List.filter_eq_self.2 fun p hp => by simpa using (isPart_of_mem_parts hp).1
  have htrim : (parts n).map (Text.trim (· == '/')) = parts n := by
    refine (List.map_congr_left fun p hp => ?_).trans (List.map_id _)
    have hslash := (isPart_of_mem_parts hp).2
    exact Text.trim_eq_self (fun h => hslash (List.mem_of_head? h))
      fun h => hslash (List.mem_of_getLast? h)
  rw [joinParts, hfilter, htrim]
  exact Text.join_fields '/' n

/-- Names are put together and taken apart piece by piece. The parts of a name that was put together
are those of its pieces, one piece after the other; they are the pieces themselves exactly if none
of these is empty or holds a slash; and the parts of any name make that name without the slashes at
its ends and with one where several stand side by side. -/
theorem parts_homomorphic (ps : List Text) (n : Text) :
    parts (joinParts ps) = ps.flatMap parts ∧
      (parts (joinParts ps) = ps ↔ ∀ p ∈ ps, p ≠ [] ∧ '/' ∉ p) ∧
      joinParts (parts n) = Text.trim (· == '/') (Text.squeeze '/' n) := by
  refine ⟨flatMap_parts ps, ⟨fun h p hp => ?_, fun h => ?_⟩, joinParts_parts n⟩
  · rw [← h] at hp
    exact isPart_of_mem_parts hp
  · rw [flatMap_parts]
    calc ps.flatMap parts = ps.flatMap fun p => [p] :=
          List.flatMap_congr fun p hp => Path.names_of_not_mem (h p hp).2 (h p hp).1
      _ = ps := List.flatMap_singleton' ps

/-- Pieces with slashes around them and inside, made of slashes, and empty. -/
theorem parts_homomorphic_ragged :
    let ps := ["/a/".toList, "//".toList, "".toList, "b//c".toList]
    joinParts ps = "a//b//c".toList ∧
      parts (joinParts ps) = ["a".toList, "b".toList, "c".toList] ∧
      joinParts (parts (joinParts ps)) = "a/b/c".toList := by
  intro ps
  obtain ⟨hparts, -, hname⟩ := parts_homomorphic ps (joinParts ps)
  exact ⟨by decide, hparts.trans (by decide), hname.trans (by decide)⟩

end Entry

end FileShell
