import FileShell.Proofs.Text.Pieces
import FileShell.Shell.Line
import Mathlib.Data.List.Infix

/-!
# Splitting lines

A line is cut at its first sign of redirection, and blanks around the parts do not count. So a
command without a sign, a sign and a target are found again when they are put together, whatever
blanks stand around them, and every line is put together so from what it is split into
(`CommandLine.split_puts_together`). The words of a command are found again as well
(`Command.parse?_render`).
-/

namespace FileShell

/-- A text of blanks, or of nothing. -/
def Blanks (t : Text) : Prop := ∀ c ∈ t, isBlank c = true

instance (t : Text) : Decidable (Blanks t) := List.decidableBAll _ t

theorem Blanks.not_mem {t : Text} (h : Blanks t) {c : Char} (hc : isBlank c = false) : c ∉ t :=
  fun hm => Bool.false_ne_true (hc.symm.trans (h c hm))

/-- A text that is one word. -/
def IsWord (t : Text) : Prop := t ≠ [] ∧ ∀ c ∈ t, isBlank c = false

instance (t : Text) : Decidable (IsWord t) :=
  decidable_of_iff (t ≠ [] ∧ t.all (fun c => !isBlank c) = true) (by simp [IsWord])

theorem IsWord.strip_eq {t : Text} (h : IsWord t) : t.strip = t := by
  have hblank : ∀ {u : Text}, (∀ c ∈ u, isBlank c = false) → u.dropWhile isBlank = u := by
    intro u hu
    rcases u with _ | ⟨c, u⟩
    · rfl
    · exact List.dropWhile_cons_of_neg (by simp [hu c List.mem_cons_self])
  rw [Text.strip, Text.trim, Text.trimStart, hblank h.2, Text.trimEnd,
    hblank fun c hc => h.2 c (List.mem_reverse.1 hc), List.reverse_reverse]

theorem Text.words_join {ts : List Text} (h : ∀ t ∈ ts, IsWord t) : (join [' '] ts).words = ts :=
  fields_join (by decide) h

/-- The words of texts that are put together from words. -/
theorem Text.flatMap_words_join {tss : List (List Text)} (h : ∀ ts ∈ tss, ∀ t ∈ ts, IsWord t) :
    ((tss.map (join [' '])).flatMap fun l => l.words) = tss.flatten := by
  rw [List.flatMap_map, List.flatMap_congr fun ts hts => words_join (h ts hts), List.flatMap_id']

/-- The sign of a redirection. -/
def Mode.sign : Mode → Text
  | .overwrite => ['>']
  | .append => ['>', '>']

namespace Command

theorem parse?_strip (t : Text) : parse? t.strip = parse? t := by
  rw [parse?, parse?, Text.words_strip]

theorem parse?_render {c : Command} (hn : IsWord c.name) (ha : ∀ a ∈ c.args, IsWord a) :
    parse? c.render = some c := by
  rw [parse?, render, Text.words_join (List.forall_mem_cons.2 ⟨hn, ha⟩)]

theorem not_mem_render {c : Command} {x : Char} (hx : x ≠ ' ') (hn : x ∉ c.name)
    (ha : ∀ a ∈ c.args, x ∉ a) : x ∉ c.render := by
  intro h
  obtain ⟨t, ht, hxt⟩ := Text.mem_join hx h
  rcases List.mem_cons.1 ht with rfl | ht
  · exact hn hxt
  · exact ha t ht hxt

theorem parse?_append_blanks {b : Text} (hb : ∀ x ∈ b, isBlank x = true) (t : Text) :
    parse? (t ++ b) = parse? t := by
  rw [parse?, parse?, Text.words, Text.fields_append_of_forall t hb, ← Text.words]

end Command

namespace CommandLine

variable {a : Text}

/-- Blanks around a line do not count. -/
theorem split_strip (line : Text) : split line.strip = split line := by
  have h : line.strip.strip = line.strip := Text.trim_trim isBlank line
  unfold split
  rw [h]

theorem split_of_not_mem (h : '>' ∉ a) : split a = ⟨a.strip, none⟩ := by
  have hs : '>' ∉ a.strip := fun hm => h (Text.mem_of_mem_trim hm)
  unfold split
  simp only [Text.cut?_eq_none_of_not_mem hs]

/-- A command, a sign and a target are found again in the line they make, unless the sign for
overwriting is followed by the other one. -/
theorem split_append (m : Mode) (h : '>' ∉ a) (b : Text)
    (hm : m = .overwrite → ¬ ['>', '>'] <:+: '>' :: b) :
    split (a ++ m.sign ++ b) = ⟨a.strip, some ⟨m, b.strip⟩⟩ := by
  have hs : '>' ∉ Text.trimStart isBlank a := fun hc => h ((List.dropWhile_suffix _).mem hc)
  have ha : (Text.trimStart isBlank a).strip = a.strip := Text.trim_trimStart a
  have hb : (Text.trimEnd isBlank b).strip = b.strip := Text.trim_trimEnd b
  have hblank : isBlank '>' = false := by decide
  have hline (t : Text) : (a ++ '>' :: t).strip =
      Text.trimStart isBlank a ++ '>' :: Text.trimEnd isBlank t := Text.trim_append hblank a t
  unfold split
  cases m with
  | append =>
    have hend : Text.trimEnd isBlank ('>' :: b) = '>' :: Text.trimEnd isBlank b :=
      Text.trimEnd_append hblank [] b
    have hcut := Text.cut?_self '>' ['>'] (Text.trimEnd isBlank b)
    simp only [Mode.sign, List.append_assoc, List.cons_append, List.nil_append] at hcut ⊢
    simp only [hline, hend, Text.cut?_append hs, hcut, Option.map_some, List.append_nil, ha, hb]
  | overwrite =>
    -- the sign for appending is looked for first, in the whole line
    have hnone : Text.cut? ['>', '>'] ('>' :: Text.trimEnd isBlank b) = none := by
      obtain ⟨z, hz, -⟩ := Text.exists_trimEnd isBlank b
      refine (Text.cut?_eq_none_iff (List.cons_ne_nil _ _)).2 fun hi => hm rfl (hi.trans ?_)
      exact ⟨[], z, by rw [List.nil_append, List.cons_append, ← hz]⟩
    have hcut := Text.cut?_self '>' [] (Text.trimEnd isBlank b)
    simp only [Mode.sign, List.append_assoc, List.cons_append, List.nil_append] at hcut ⊢
    simp only [hline, Text.cut?_append hs, hnone, hcut, Option.map_none, Option.map_some,
      List.append_nil, ha, hb]

/-- A line is cut where `>>` first stands, or else where `>` does. -/
theorem cut_cases (line : Text) :
    ('>' ∉ line.strip ∧ split line = ⟨line.strip, none⟩) ∨
    ∃ (a : Text) (m : Mode) (b : Text), line.strip = a ++ m.sign ++ b ∧
      split line = ⟨a.strip, some ⟨m, b.strip⟩⟩ ∧
      match m with
      | .overwrite => ¬ ['>', '>'] <:+: line.strip ∧ '>' ∉ a
      | .append => ¬ ['>', '>'] <:+: a ++ ['>'] := by
  have hone : ['>'] ≠ [] := List.cons_ne_nil _ _
  have htwo : ['>', '>'] ≠ [] := List.cons_ne_nil _ _
  unfold split
  rcases happend : Text.cut? ['>', '>'] line.strip with _ | ⟨a, b⟩
  · have hno := (Text.cut?_eq_none_iff htwo).1 happend
    rcases hover : Text.cut? ['>'] line.strip with _ | ⟨a, b⟩
    · refine .inl ⟨fun hm => ?_, by simp only [happend, hover]⟩
      exact (Text.cut?_eq_none_iff hone).1 hover ((List.singleton_infix_iff _ _).2 hm)
    · obtain ⟨hline, hfirst⟩ := Text.cut?_eq_some hone hover
      refine .inr ⟨a, .overwrite, b, hline, by simp only [happend, hover], hno, fun hm => ?_⟩
      exact hfirst ((List.singleton_infix_iff _ _).2 (List.mem_append_left _ hm))
  · obtain ⟨hline, hfirst⟩ := Text.cut?_eq_some htwo happend
    exact .inr ⟨a, .append, b, hline, by simp only [happend], hfirst⟩

/-- No `>>` is made where the sign for overwriting and a target meet. -/
theorem not_infix_sign {w t x : Text} (hw : Blanks w) (hx : Blanks x)
    (ht : ¬ ['>', '>'] <:+: t) (hhead : (w ++ t).head? ≠ some '>') :
    ¬ ['>', '>'] <:+: '>' :: (w ++ t ++ x) := by
  have hblank : isBlank '>' = false := by decide
  intro hi
  rcases List.infix_cons_iff.1 hi with hp | hi
  · obtain ⟨r, hr⟩ := (List.cons_prefix_cons.1 hp).2
    rcases hwt : w ++ t with _ | ⟨d, wt⟩
    · rw [hwt, List.nil_append] at hr
      exact hx.not_mem hblank (hr ▸ List.mem_cons_self)
    · rw [hwt, List.cons_append] at hr
      rw [hwt, List.head?_cons, ← (List.cons.inj hr).1] at hhead
      exact hhead rfl
  · rw [List.append_assoc] at hi
    have htx := List.reverse_infix.2 (Text.infix_of_infix_append (hw.not_mem hblank) hi)
    rw [List.reverse_append] at htx
    refine ht (List.reverse_infix.1 (Text.infix_of_infix_append ?_ htx))
    simpa using hx.not_mem hblank

/-- Splitting a line undoes putting one together. A command, a sign and a target are found again
whatever blanks stand around them; for the sign that overwrites, if `>>` is neither in the target
nor made by what follows the sign. The other way round, a line without `>` is a command alone, and
any other is, without the blanks at its ends, what it is split into with blanks around the sign:
the first `>>`, or the first `>` if there is no `>>`. -/
theorem split_puts_together :
    (∀ {u c v w t x : Text}, Blanks u → Blanks v → Blanks w → Blanks x →
      c.strip = c → '>' ∉ c → t.strip = t →
        split (u ++ c ++ v ++ Mode.append.sign ++ w ++ t ++ x) = ⟨c, some ⟨.append, t⟩⟩ ∧
        (¬ ['>', '>'] <:+: t → (w ++ t).head? ≠ some '>' →
          split (u ++ c ++ v ++ Mode.overwrite.sign ++ w ++ t ++ x) =
            ⟨c, some ⟨.overwrite, t⟩⟩)) ∧
    ∀ line : Text, (split line = ⟨line.strip, none⟩ ↔ '>' ∉ line.strip) ∧
      ('>' ∈ line.strip → ∃ (c v : Text) (m : Mode) (w t : Text), Blanks v ∧ Blanks w ∧
        split line = ⟨c, some ⟨m, t⟩⟩ ∧ line.strip = c ++ v ++ m.sign ++ w ++ t ∧
        match m with
        | .overwrite => ¬ ['>', '>'] <:+: line.strip ∧ '>' ∉ c
        | .append => ¬ ['>', '>'] <:+: c ++ v ++ ['>']) := by
  refine ⟨fun {u c v w t x} hu hv hw hx hc hno ht => ?_, fun line => ⟨⟨fun h => ?_, fun h => ?_⟩,
    fun h => ?_⟩⟩
  · have hsign : '>' ∉ u ++ c ++ v := by
      have hblank : isBlank '>' = false := by decide
      simp [hu.not_mem hblank, hv.not_mem hblank, hno]
    have hput (m : Mode) (hm : m = .overwrite → ¬ ['>', '>'] <:+: '>' :: (w ++ t ++ x)) :
        split (u ++ c ++ v ++ m.sign ++ w ++ t ++ x) = ⟨c, some ⟨m, t⟩⟩ := by
      have := split_append m hsign (w ++ t ++ x) hm
      rw [Text.strip, Text.trim_append_of_forall hu hv c, Text.strip,
        Text.trim_append_of_forall hw hx t, ← Text.strip, hc, ← Text.strip, ht] at this
      simpa only [List.append_assoc] using this
    exact ⟨hput .append nofun, fun hin hhead => hput .overwrite fun _ =>
      not_infix_sign hw hx hin hhead⟩
  · rcases cut_cases line with ⟨hno, -⟩ | ⟨a, m, b, -, hsplit, -⟩
    · exact hno
    · rw [h] at hsplit
      injection hsplit with _ hnone
      cases hnone
  · rcases cut_cases line with ⟨-, hsplit⟩ | ⟨a, m, b, hline, -, -⟩
    · exact hsplit
    · refine absurd ?_ h
      rw [hline]
      cases m <;> simp [Mode.sign]
  · obtain ⟨hno, -⟩ | ⟨a, m, b, hline, hsplit, hfirst⟩ := cut_cases line
    · exact absurd h hno
    · obtain ⟨u, v, ha, hu, hv⟩ : ∃ u v, a = u ++ a.strip ++ v ∧ Blanks u ∧ Blanks v :=
        Text.exists_trim isBlank a
      obtain ⟨w, x, hb, hw, hx⟩ : ∃ w x, b = w ++ b.strip ++ x ∧ Blanks w ∧ Blanks x :=
        Text.exists_trim isBlank b
      have hwhole : line.strip = u ++ (a.strip ++ v ++ m.sign ++ w ++ b.strip) ++ x := by
        rw [hline]
        conv_lhs => rw [ha, hb]
        simp only [List.append_assoc]
      -- the line has no blanks at its ends
      have htrim : Text.trim isBlank line.strip = line.strip := Text.trim_trim isBlank line
      rw [hwhole] at htrim
      obtain ⟨rfl, rfl⟩ := Text.ends_eq_nil htrim hu hx
      rw [List.nil_append] at ha
      rw [List.nil_append, List.append_nil] at hwhole
      refine ⟨a.strip, v, m, w, b.strip, hv, hw, hsplit, hwhole, ?_⟩
      cases m with
      | overwrite => exact ⟨hfirst.1, fun hm => hfirst.2 (Text.mem_of_mem_trim hm)⟩
      | append => exact ha ▸ hfirst

/-- A sign next to blanks that are not ASCII, and a target that starts with the sign. -/
theorem split_puts_together_wide :
    let wide : Text := ['\u2003']
    split (wide ++ ['l', 's'] ++ wide ++ Mode.append.sign ++ wide ++ ['>', 'f'] ++ ['\n']) =
        ⟨['l', 's'], some ⟨.append, ['>', 'f']⟩⟩ ∧
      split (wide ++ ['l', 's'] ++ wide ++ Mode.overwrite.sign ++ wide ++ ['>', 'f'] ++ ['\n']) =
        ⟨['l', 's'], some ⟨.overwrite, ['>', 'f']⟩⟩ ∧
      ∃ c v m w t, Blanks v ∧ Blanks w ∧ split ['>', '>', '>'] = ⟨c, some ⟨m, t⟩⟩ ∧
        ['>', '>', '>'] = c ++ v ++ m.sign ++ w ++ t := by
  have hwide : Blanks ['\u2003'] := by decide
  have hput := split_puts_together.1 hwide hwide hwide (x := ['\n']) (by decide)
    (c := ['l', 's']) (by decide) (by decide) (t := ['>', 'f']) (by decide)
  refine ⟨hput.1, hput.2 (by decide) (by decide), ?_⟩
  obtain ⟨c, v, m, w, t, hv, hw, hsplit, hline, -⟩ :=
    (split_puts_together.2 ['>', '>', '>']).2 (by decide)
  exact ⟨c, v, m, w, t, hv, hw, hsplit, hline⟩

end CommandLine

end FileShell
