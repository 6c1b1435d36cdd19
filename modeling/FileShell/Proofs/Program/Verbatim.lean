import FileShell.Proofs.Service.FrontEnds
import FileShell.Proofs.Text.Pieces
import FileShell.Shell.Console

/-!
# What the console shows verbatim

A buffer keeps what is written to it, and the console shows it, but not all of it as it is. The tabs
of a text can be filled one by one, from the left (`Described.exists_kept`), and what is left to
print then is shown line by line (`Described.print_kept`). So what the console shows holds neither a
tab nor a character that is dropped: a text that has one is not shown verbatim, and any other one is
if the blanks at its ends of lines are within the width (`console_verbatim`). What `cat` prints of a
file may hold any of these characters.
-/

namespace FileShell

namespace Console

/-- No line of the text ends in a blank beyond the width. -/
def Fits (width : Nat) (t : Text) : Prop :=
  ∀ l ∈ t.split (· == '\n'), ∀ c ∈ l.getLast?, isBlank c = true → l.length ≤ width

theorem Fits.of_append {width : Nat} {a b : Text} (h : Fits width (a ++ '\n' :: b)) :
    Fits width a ∧ Fits width b := by
  unfold Fits at h ⊢
  rw [Text.split_append rfl] at h
  exact ⟨fun l hl => h l (List.mem_append_left _ hl), fun l hl => h l (List.mem_append_right _ hl)⟩

namespace Described

variable {width : Nat} {print : Text → Text}

/-- Once all tabs are filled, what is printed is a text of characters that are kept. -/
theorem exists_kept_append (h : Described width print) :
    ∀ (b a : Text), (∀ c ∈ a, isKept c = true) → (∀ c ∈ b, isDropped c = false) →
      ∃ t, (∀ c ∈ t, isKept c = true) ∧ print (a ++ b) = print t
  | [], a, ha, _ => ⟨a, ha, by rw [List.append_nil]⟩
  | c :: b, a, ha, hb => by
    obtain ⟨hc, hrest⟩ := List.forall_mem_cons.1 hb
    by_cases htab : c = '\t'
    · subst htab
      obtain ⟨n, -, -, hfill⟩ := h.fills a b ha
      rw [hfill]
      refine exists_kept_append h b _ (fun c hc => ?_) hrest
      rcases List.mem_append.1 hc with hc | hc
      · exact ha c hc
      · rw [List.eq_of_mem_replicate hc]
        decide
    · rw [List.append_cons]
      refine exists_kept_append h b _ (fun d hd => ?_) hrest
      rcases List.mem_append.1 hd with hd | hd
      · exact ha d hd
      · rw [List.mem_singleton.1 hd]
        simp [isKept, hc, htab]

theorem exists_kept (h : Described width print) (t : Text) :
    ∃ t', (∀ c ∈ t', isKept c = true) ∧ print t = print t' := by
  rw [h.drops t]
  exact h.exists_kept_append _ [] (fun _ hc => absurd hc List.not_mem_nil)
    fun c hc => by simpa using (List.mem_filter.1 hc).2

/-- A line of characters that are kept is shown as it is if its blanks are within the width. -/
theorem shows_fitting (h : Described width print) {l : Text} (hl : '\n' ∉ l)
    (hk : ∀ c ∈ l, isKept c = true) (hfit : Fits width l) :
    print l = l ∧ print (l ++ ['\n']) = l ++ ['\n'] := by
  obtain ⟨a, z, rfl, hz, hlong, hprint, hfeed⟩ := h.shows l hl hk
  rcases List.eq_nil_or_concat z with rfl | ⟨z, c, rfl⟩
  · rw [List.append_nil] at hprint hfeed ⊢
    exact ⟨hprint, hfeed⟩
  · have hwidth := hlong (by simp)
    refine absurd (hfit _ ?_ c (by simp) (hz c (by simp))) (Nat.not_le.2 hwidth)
    have hline : ∀ d ∈ a ++ z.concat c, (d == '\n') = false :=
      fun d hd => beq_false_of_ne fun heq => hl (heq ▸ hd)
    rw [Text.split_of_forall hline]
    exact List.mem_singleton_self _

/-- Of a text of characters that are kept, nothing else is shown, and all of it if it fits. -/
theorem print_kept (h : Described width print) {t : Text} (hk : ∀ c ∈ t, isKept c = true) :
    (∀ c ∈ print t, isKept c = true) ∧ (Fits width t → print t = t) := by
  by_cases hfeed : '\n' ∈ t
  · -- the first line, and what is behind it
    obtain ⟨l, b, rfl, hl⟩ := List.eq_append_cons_of_mem hfeed
    obtain ⟨hkl, hkb⟩ := List.forall_mem_append.1 hk
    have ⟨hshown, hall⟩ := print_kept h (t := b) fun c hc => hkb c (List.mem_cons_of_mem _ hc)
    rw [h.feeds]
    refine ⟨fun c hc => ?_, fun hfit => ?_⟩
    · obtain ⟨a, z, rfl, -, -, -, hline⟩ := h.shows l hl hkl
      rw [hline] at hc
      rcases List.mem_append.1 hc with hc | hc
      · rcases List.mem_append.1 hc with hc | hc
        · exact hkl c (List.mem_append_left _ hc)
        · rw [List.mem_singleton.1 hc]
          decide
      · exact hshown c hc
    · rw [(h.shows_fitting hl hkl hfit.of_append.1).2, hall hfit.of_append.2]
      simp
  · refine ⟨fun c hc => ?_, fun hfit => (h.shows_fitting hfeed hk hfit).1⟩
    obtain ⟨a, z, rfl, -, -, hline, -⟩ := h.shows t hfeed hk
    rw [hline] at hc
    exact hk c (List.mem_append_left _ hc)
  termination_by t.length
  decreasing_by grind

/-- Whatever is printed, the console shows no tab and no character that is dropped. -/
theorem isKept_of_mem_print (h : Described width print) {t : Text} {c : Char} (hc : c ∈ print t) :
    isKept c = true := by
  obtain ⟨t', hk, hprint⟩ := h.exists_kept t
  rw [hprint] at hc
  exact (h.print_kept hk).1 c hc

/-- Texts that are written one after the other are shown verbatim only if all their characters are
kept, and are then if they fit. -/
theorem flatMap_print {α : Type} (h : Described width print) (f : α → Text) (xs : List α) :
    ((xs.flatMap fun x => print (f x)) = xs.flatMap f → ∀ c ∈ xs.flatMap f, isKept c = true) ∧
      ((∀ c ∈ xs.flatMap f, isKept c = true) → (∀ x ∈ xs, Fits width (f x)) →
        (xs.flatMap fun x => print (f x)) = xs.flatMap f) := by
  refine ⟨fun heq c hc => ?_, fun hk hfit => List.flatMap_congr fun x hx => ?_⟩
  · rw [← heq] at hc
    obtain ⟨x, -, hx⟩ := List.mem_flatMap.1 hc
    exact h.isKept_of_mem_print hx
  · have hkx : ∀ c ∈ f x, isKept c = true := fun c hc => hk c (List.mem_flatMap.2 ⟨x, hx, hc⟩)
    exact (h.print_kept hkx).2 (hfit x hx)

/-- Lines may be written one by one or all together. -/
theorem print_unlines (h : Described width print) : ∀ ls : List Text,
    print (Text.unlines ls) = printAll print (ls.map (· ++ ['\n']))
  | [] => by
    obtain ⟨a, z, hnil, -, -, hprint, -⟩ := h.shows [] List.not_mem_nil fun _ hc => by cases hc
    rw [(List.append_eq_nil_iff.1 hnil.symm).1] at hprint
    exact hprint
  | l :: ls => by
    rw [Text.unlines_cons, h.feeds, print_unlines h ls]
    rfl

end Described

/-! ## A console that is described -/

variable {t : Text}

theorem fillTabs_eq_self : ∀ {t : Text} {column : Nat}, '\t' ∉ t → fillTabs column t = t
  | [], _, _ => rfl
  | c :: t, column, h => by
    rw [List.mem_cons, not_or] at h
    unfold fillTabs
    rw [if_neg (Ne.symm h.1), fillTabs_eq_self h.2, fillTabs_eq_self h.2, ite_self]

/-- What is behind a text without tabs starts in a column that depends on that text alone. -/
theorem exists_fillTabs_append : ∀ {a : Text} (column : Nat), '\t' ∉ a →
    ∃ column', ∀ b, fillTabs column (a ++ b) = a ++ fillTabs column' b
  | [], column, _ => ⟨column, fun _ => rfl⟩
  | c :: a, column, h => by
    rw [List.mem_cons, not_or] at h
    by_cases hfeed : c = '\n'
    · obtain ⟨column', ha⟩ := exists_fillTabs_append 0 h.2
      exact ⟨column', fun b => by rw [List.cons_append, fillTabs, if_pos hfeed, ha]; rfl⟩
    · obtain ⟨column', ha⟩ := exists_fillTabs_append (column + charWidth c) h.2
      refine ⟨column', fun b => ?_⟩
      rw [List.cons_append, fillTabs, if_neg hfeed, if_neg (Ne.symm h.1), ha]
      rfl

theorem fillTabs_replicate (b : Text) : ∀ n column : Nat,
    fillTabs column (List.replicate n ' ' ++ b) =
      List.replicate n ' ' ++ fillTabs (column + n) b
  | 0, _ => rfl
  | n + 1, column => by
    have hspace : charWidth ' ' = 1 := by decide +kernel
    rw [List.replicate_succ, List.cons_append, fillTabs, if_neg (by decide), if_neg (by decide),
      hspace, fillTabs_replicate b n, Nat.add_assoc, Nat.add_comm 1]
    rfl

/-- The columns are counted anew behind a line feed. -/
theorem fillTabs_append_feed (b : Text) : ∀ (a : Text) (column : Nat),
    fillTabs column (a ++ '\n' :: b) = fillTabs column (a ++ ['\n']) ++ fillTabs 0 b
  | [], column => by simp [fillTabs]
  | c :: a, column => by
    have ih := fillTabs_append_feed b a
    rw [List.cons_append, List.cons_append, fillTabs, fillTabs]
    split_ifs <;> simp [ih]

theorem filter_of_kept (h : ∀ c ∈ t, isKept c = true) : t.filter (!isDropped ·) = t :=
  List.filter_eq_self.2 fun c hc => (Bool.and_eq_true_iff.1 (h c hc)).1

theorem not_mem_tab (h : ∀ c ∈ t, isKept c = true) : '\t' ∉ t :=
  fun ht => absurd (h _ ht) (by decide)

theorem render_of_kept (h : ∀ c ∈ t, isKept c = true) : render t = t := by
  rw [render, filter_of_kept h, fillTabs_eq_self (not_mem_tab h)]

theorem described_render (width : Nat) : Described width render where
  drops t := by
    unfold render
    rw [List.filter_filter]
    simp
  fills a b ha := by
    obtain ⟨column, hcolumn⟩ := exists_fillTabs_append 0 (not_mem_tab ha)
    have hlt : column % tabStop < tabStop := Nat.mod_lt _ (by decide)
    refine ⟨tabStop - column % tabStop, by omega, Nat.sub_le .., ?_⟩
    have hspaces : (List.replicate (tabStop - column % tabStop) ' ').filter (!isDropped ·) =
        List.replicate (tabStop - column % tabStop) ' ' :=
      List.filter_eq_self.2 fun c hc => by rw [List.eq_of_mem_replicate hc]; decide
    have htab : ('\t' :: b).filter (!isDropped ·) = '\t' :: b.filter (!isDropped ·) :=
      List.filter_cons_of_pos (by decide)
    unfold render
    rw [List.filter_append, List.filter_append, List.filter_append, filter_of_kept ha, hspaces,
      htab, hcolumn, List.append_assoc, hcolumn, fillTabs_replicate]
    rfl
  feeds a b := by
    have hfeed (t : Text) : ('\n' :: t).filter (!isDropped ·) = '\n' :: t.filter (!isDropped ·) :=
      List.filter_cons_of_pos (by decide)
    unfold render
    rw [List.filter_append, List.filter_append, hfeed, hfeed, List.filter_nil,
      fillTabs_append_feed]
  shows l _ hk := by
    refine ⟨l, [], (List.append_nil l).symm, fun _ hc => (by cases hc), fun h => absurd rfl h,
      render_of_kept hk, render_of_kept fun c hc => ?_⟩
    rcases List.mem_append.1 hc with hc | hc
    · exact hk c hc
    · rw [List.mem_singleton.1 hc]
      decide

end Console

/-- One call on an output. -/
inductive Writing
  | text (t : Text)
  | line (t : Text)

namespace Writing

/-- What the call passes on. -/
def written : Writing → Text
  | .text t => t
  | .line t => t ++ ['\n']

end Writing

/-- What was written is not shown verbatim if a tab or a character that the console drops is among
it. Otherwise it is, unless a line ends in a blank beyond the width. This is so for whatever calls
on an output, and for what the lines of the program show. Lines that are written one by one are
shown as if they came together. -/
theorem console_verbatim {width : Nat} {print : Text → Text}
    (h : Console.Described width print) (ws : List Writing) (ts : List Text) (s : Storage)
    (lines : List Text) (directory home : Path) (w : World) :
    ((Console.printAll print (ws.map Writing.written) = ws.flatMap Writing.written →
        ∀ c ∈ ws.flatMap Writing.written, Console.isKept c = true) ∧
      ((∀ c ∈ ws.flatMap Writing.written, Console.isKept c = true) →
        (∀ x ∈ ws, Console.Fits width x.written) →
        Console.printAll print (ws.map Writing.written) = ws.flatMap Writing.written)) ∧
    Console.printAll print ((ts.map Writing.line).map Writing.written) =
      print (Text.unlines ts) ∧
    let os := untilStop (reference s lines { directory, home } w.disk)
    let out := ((Terminal.runLines print s lines { directory, home }).run w).1.1
    (out = os.flatMap Outcome.shown → ∀ c ∈ os.flatMap Outcome.shown, Console.isKept c = true) ∧
      ((∀ c ∈ os.flatMap Outcome.shown, Console.isKept c = true) →
        (∀ o ∈ os, Console.Fits width o.shown) → out = os.flatMap Outcome.shown) := by
  refine ⟨?_, ?_, ?_⟩
  · rw [Console.printAll, List.flatMap_map]
    exact h.flatMap_print Writing.written ws
  · rw [h.print_unlines, List.map_map]
    rfl
  · rw [Terminal.run_runLines print s lines rfl]
    exact h.flatMap_print Outcome.shown _

/-- A file with a tab and a bell in it, and one without. -/
def chime : Disk where
  items := [(["f".toList], .file [97, 9, 98, 7, 10]), (["g".toList], .file [97, 32, 10])]

theorem console_verbatim_render :
    let s : Storage := { chunk := 512 }
    let lines := ["cat /g".toList, "cat /f".toList]
    let ws : List Writing := [.text "a ".toList, .line "b ".toList]
    let os := untilStop (reference s lines ⟨"/".toList, "/".toList, true⟩ chime)
    Console.Described 80 Console.render ∧
      Console.printAll Console.render (ws.map Writing.written) = "a b \n".toList ∧
      Console.printAll Console.render ([.line "a".toList, .line "\tb".toList].map Writing.written) =
        Console.render "a\n\tb\n".toList ∧
      ((Terminal.runLines Console.render s lines ⟨"/".toList, "/".toList, true⟩).run
        ⟨chime, []⟩).1.1 ≠ os.flatMap Outcome.shown := by
  intro s lines ws os
  have hd := Console.described_render 80
  obtain ⟨⟨-, hwritten⟩, hunlines, hshown, -⟩ := console_verbatim hd ws ["a".toList, "\tb".toList] s
    lines "/".toList "/".toList ⟨chime, []⟩
  have hkept : (ws.flatMap Writing.written).all Console.isKept = true := by decide
  have hshort : ∀ x ∈ ws, ∀ l ∈ x.written.split (· == '\n'), l.length ≤ 80 := by decide +kernel
  have hnot : (os.flatMap Outcome.shown).all Console.isKept = false := by decide +kernel
  refine ⟨hd, hwritten (List.all_eq_true.1 hkept) (fun x hx l hl _ _ _ => hshort x hx l hl),
    hunlines, fun heq => ?_⟩
  rw [List.all_eq_true.2 (hshown heq)] at hnot
  cases hnot

/-- A file is printed as it stands, and a console shows it without the bell and with spaces for the
tab. -/
theorem console_chime :
    (reference { chunk := 512 } ["cat /f".toList] ⟨"/".toList, "/".toList, true⟩ chime).flatMap
        Outcome.shown = "a\tb\x07\n".toList ∧
      ((Terminal.runLines Console.render { chunk := 512 } ["cat /f".toList]
        ⟨"/".toList, "/".toList, true⟩).run ⟨chime, []⟩).1.1 = "a       b\n".toList ∧
      Console.printAll Console.render [Writing.written (.line "a\tb\x07".toList)] ≠
        Writing.written (.line "a\tb\x07".toList) := by
  refine ⟨?_, ?_, ?_⟩ <;> decide +kernel

end FileShell
