import FileShell.Proofs.Shell.Splitting
import Mathlib.Logic.Relation

/-!
# Words of a line

A line is read as a command by its words alone. `Spaced` says which lines have given words: those
that put them one after the other with blanks around them, and at least one blank between two. Each
line that is not blank does so for one list of words, and this is the list that is read
(`Command.parses_words`). Lines that are read alike are led into each other by changing runs of
blanks (`Reblank`), since each is led to the line that has one space between its words.
-/

namespace FileShell

/-- The line has the words in order, with blanks around them and some blank between two. -/
inductive Spaced : List Text → Text → Prop
  | one {u t v : Text} : Blanks u → IsWord t → Blanks v → Spaced [t] (u ++ t ++ v)
  | more {u t v : Text} {ts : List Text} {line : Text} : Blanks u → IsWord t → Blanks v → v ≠ [] →
      Spaced ts line → Spaced (t :: ts) (u ++ t ++ v ++ line)

/-- One run of blanks is changed for another, or taken off at an end of the line. -/
inductive Reblank : Text → Text → Prop
  | within {u v : Text} (a b : Text) : Blanks u → u ≠ [] → Blanks v → v ≠ [] →
      Reblank (a ++ u ++ b) (a ++ v ++ b)
  | front {u : Text} (a : Text) : Blanks u → Reblank (u ++ a) a
  | back {u : Text} (a : Text) : Blanks u → Reblank (a ++ u) a

namespace Text

variable {u v t : Text}

theorem words_blanks_append (hu : Blanks u) (a : Text) : (u ++ a).words = a.words := by
  induction u with
  | nil => rfl
  | cons c u ih =>
    obtain ⟨hc, hu⟩ := List.forall_mem_cons.1 hu
    rw [List.cons_append, words, fields_cons hc, ← words, ih hu]

theorem words_append_blanks (hu : Blanks u) (a : Text) : (a ++ u).words = a.words :=
  fields_append_of_forall a hu

/-- Blanks keep the words of the two sides apart. -/
theorem words_append_blanks_append (hu : Blanks u) (hne : u ≠ []) (a b : Text) :
    (a ++ u ++ b).words = a.words ++ b.words := by
  obtain ⟨c, u, rfl⟩ := List.exists_cons_of_ne_nil hne
  obtain ⟨hc, hu⟩ := List.forall_mem_cons.1 hu
  rw [List.append_assoc, List.cons_append, words, fields_append hc, ← words, ← words,
    words_blanks_append hu]

theorem words_word (ht : IsWord t) : t.words = [t] :=
  words_join (List.forall_mem_singleton.2 ht)

theorem isWord_of_mem_words {line : Text} (h : t ∈ line.words) : IsWord t :=
  ⟨fields_ne_nil h, fun _ => not_of_mem_split (List.mem_filter.1 h).1⟩

end Text

namespace Spaced

variable {ts : List Text} {c : Char} {t line : Text}

theorem words_eq (h : Spaced ts line) : line.words = ts := by
  induction h with
  | one hu ht hv =>
    rw [Text.words_append_blanks hv, Text.words_blanks_append hu, Text.words_word ht]
  | more hu ht hv hne _ ih =>
    rw [Text.words_append_blanks_append hv hne, Text.words_blanks_append hu, Text.words_word ht, ih]
    rfl

theorem ne_nil (h : Spaced ts line) : ts ≠ [] := by
  cases h <;> exact List.cons_ne_nil _ _

theorem blank_cons (hc : isBlank c = true) (h : Spaced ts line) : Spaced ts (c :: line) := by
  have hcons {u : Text} (hu : Blanks u) : Blanks (c :: u) := List.forall_mem_cons.2 ⟨hc, hu⟩
  cases h with
  | one hu ht hv => exact .one (hcons hu) ht hv
  | more hu ht hv hne h => exact .more (hcons hu) ht hv hne h

/-- A character that is no blank starts the first word, or a word of its own if blanks follow. -/
theorem exists_cons (hc : isBlank c = false) (h : Spaced ts line) :
    ∃ ts', Spaced ts' (c :: line) := by
  have hnil : Blanks [] := List.forall_mem_nil _
  have hword : IsWord [c] := ⟨List.cons_ne_nil c [], by simpa using hc⟩
  have hlonger {t : Text} (ht : IsWord t) : IsWord (c :: t) :=
    ⟨List.cons_ne_nil c t, List.forall_mem_cons.2 ⟨hc, ht.2⟩⟩
  have hapart {d : Char} {ts : List Text} {line : Text} (hd : isBlank d = true)
      (h : Spaced ts line) : Spaced ([c] :: ts) ([] ++ [c] ++ [d] ++ line) :=
    .more hnil hword (List.forall_mem_cons.2 ⟨hd, hnil⟩) (List.cons_ne_nil d []) h
  cases h with
  | @one u t v hu ht hv =>
    rcases u with _ | ⟨d, u⟩
    · exact ⟨_, .one hnil (hlonger ht) hv⟩
    · obtain ⟨hd, hu⟩ := List.forall_mem_cons.1 hu
      exact ⟨_, hapart hd (.one hu ht hv)⟩
  | @more u t v ts r hu ht hv hne h =>
    rcases u with _ | ⟨d, u⟩
    · exact ⟨_, .more hnil (hlonger ht) hv hne h⟩
    · obtain ⟨hd, hu⟩ := List.forall_mem_cons.1 hu
      exact ⟨_, hapart hd (.more hu ht hv hne h)⟩

end Spaced

/-- A line is blank or has words. -/
theorem blanks_or_spaced : ∀ line : Text, Blanks line ∨ ∃ ts, Spaced ts line
  | [] => .inl (List.forall_mem_nil _)
  | c :: line => by
    rcases hc : isBlank c with _ | _
    · refine .inr ?_
      rcases blanks_or_spaced line with h | ⟨ts, h⟩
      · have hword : IsWord [c] := ⟨List.cons_ne_nil c [], by simpa using hc⟩
        exact ⟨[[c]], .one (u := []) (List.forall_mem_nil _) hword h⟩
      · exact h.exists_cons hc
    · rcases blanks_or_spaced line with h | ⟨ts, h⟩
      · exact .inl (List.forall_mem_cons.2 ⟨hc, h⟩)
      · exact .inr ⟨ts, h.blank_cons hc⟩

theorem blanks_iff_words {line : Text} : Blanks line ↔ line.words = [] := by
  refine ⟨fun h => Text.words_append_blanks h [], fun h => ?_⟩
  rcases blanks_or_spaced line with hb | ⟨ts, hts⟩
  · exact hb
  · exact absurd (hts.words_eq.symm.trans h) hts.ne_nil

theorem spaced_iff_words {ts : List Text} {line : Text} (hne : ts ≠ []) :
    Spaced ts line ↔ line.words = ts := by
  refine ⟨Spaced.words_eq, fun h => ?_⟩
  rcases blanks_or_spaced line with hb | ⟨ts', hts'⟩
  · exact absurd (h.symm.trans (blanks_iff_words.1 hb)) hne
  · rwa [← hts'.words_eq.symm.trans h]

namespace Reblank

open Relation (EqvGen)

variable {a b : Text}

theorem words_eq (h : Reblank a b) : a.words = b.words := by
  cases h with
  | within a b hu hune hv hvne =>
    rw [Text.words_append_blanks_append hu hune, Text.words_append_blanks_append hv hvne]
  | front _ hu => exact Text.words_blanks_append hu b
  | back _ hu => exact Text.words_append_blanks hu b

/-- What is behind a blank may be changed as if it stood alone. -/
theorem append {v : Text} (h : Reblank a b) (hv : Blanks v) (hne : v ≠ []) (t : Text) :
    Reblank (t ++ v ++ a) (t ++ v ++ b) := by
  cases h with
  | @within u w a b hu hune hw hwne =>
    have := within (t ++ v ++ a) b hu hune hw hwne
    simpa only [List.append_assoc] using this
  | @front u _ hu =>
    have huv : Blanks (v ++ u) := List.forall_mem_append.2 ⟨hv, hu⟩
    have := within t b huv (List.append_ne_nil_of_left_ne_nil hne u) hv hne
    simpa only [List.append_assoc] using this
  | @back u _ hu =>
    have := back (t ++ v ++ b) hu
    simpa only [List.append_assoc] using this

theorem eqvGen_append {v : Text} (h : EqvGen Reblank a b) (hv : Blanks v) (hne : v ≠ [])
    (t : Text) : EqvGen Reblank (t ++ v ++ a) (t ++ v ++ b) := by
  induction h with
  | rel a b h => exact .rel _ _ (h.append hv hne t)
  | refl a => exact .refl _
  | symm a b _ ih => exact ih.symm
  | trans a b c _ _ ihab ihbc => exact ihab.trans _ _ _ ihbc

theorem words_eq_of_eqvGen (h : EqvGen Reblank a b) : a.words = b.words := by
  induction h with
  | rel a b h => exact h.words_eq
  | refl a => rfl
  | symm a b _ ih => exact ih.symm
  | trans a b c _ _ ihab ihbc => exact ihab.trans ihbc

/-- Every line is led to its words with one space between two of them. -/
theorem eqvGen_join {ts : List Text} {line : Text} (h : Spaced ts line) :
    EqvGen Reblank line (Text.join [' '] ts) := by
  have hspace : Blanks [' '] := by decide
  induction h with
  | @one u t v hu ht hv =>
    have hback := EqvGen.rel _ _ (back (u ++ t) hv)
    exact hback.trans _ _ _ (.rel _ _ (front t hu))
  | @more u t v ts line hu ht hv hne h ih =>
    have hfront := EqvGen.rel _ _ (front (t ++ v ++ line) hu)
    have hone := EqvGen.rel _ _ (within t (Text.join [' '] ts) hv hne hspace (List.cons_ne_nil _ _))
    have hrest := (eqvGen_append ih hv hne t).trans _ _ _ hone
    rw [Text.join_cons_of_ne_nil _ _ h.ne_nil]
    simp only [List.append_assoc] at hfront hrest ⊢
    exact hfront.trans _ _ _ hrest

theorem eqvGen_iff_words : EqvGen Reblank a b ↔ a.words = b.words := by
  refine ⟨words_eq_of_eqvGen, fun h => ?_⟩
  have hjoin (line : Text) : EqvGen Reblank line (Text.join [' '] line.words) := by
    rcases blanks_or_spaced line with hb | ⟨ts, hts⟩
    · rw [blanks_iff_words.1 hb]
      have := front (u := line) [] hb
      rw [List.append_nil] at this
      exact .rel _ _ this
    · rw [hts.words_eq]
      exact eqvGen_join hts
  exact (h ▸ hjoin a).trans _ _ _ (hjoin b).symm

end Reblank

namespace Command

variable {line a b : Text}

theorem parse?_eq_some_iff {c : Command} :
    parse? line = some c ↔ line.words = c.name :: c.args := by
  rcases c with ⟨n, as⟩
  unfold parse?
  rcases line.words with _ | ⟨t, ts⟩ <;> simp

theorem parse?_eq_iff : parse? a = parse? b ↔ a.words = b.words := by
  unfold parse?
  rcases a.words with _ | ⟨t, ts⟩ <;> rcases b.words with _ | ⟨t', ts'⟩ <;> simp

theorem parse?_eq_none_iff : parse? line = none ↔ Blanks line := by
  have hnil : parse? [] = none := rfl
  rw [← hnil, parse?_eq_iff, blanks_iff_words]
  rfl

theorem isWord_of_parse? {c : Command} (h : parse? line = some c) :
    IsWord c.name ∧ ∀ a ∈ c.args, IsWord a :=
  List.forall_mem_cons.1 (parse?_eq_some_iff.1 h ▸ fun _ => Text.isWord_of_mem_words)

/-- A line is read as a command exactly if it has words, and the command is its words. A list of
words is read from every line that has them in order, whatever the blanks around them, the first as
the name and the others as the arguments. Each line is blank, and then nothing is read, or has
exactly one list of words. What is read is read again from its rendering, and two lines are read
alike exactly if runs of blanks are all that is to be changed to get from one to the other. -/
theorem parses_words :
    (∀ n as line, parse? line = some ⟨n, as⟩ ↔ Spaced (n :: as) line) ∧
    (∀ line, (Blanks line ∧ parse? line = none ∧ ∀ ts, ¬ Spaced ts line) ∨
      (¬ Blanks line ∧ ∃! ts, Spaced ts line)) ∧
    (∀ line, (parse? line).bind (fun c => parse? c.render) = parse? line) ∧
    ∀ a b, parse? a = parse? b ↔ Relation.EqvGen Reblank a b := by
  refine ⟨fun n as line => ?_, fun line => ?_, fun line => ?_,
    fun a b => parse?_eq_iff.trans Reblank.eqvGen_iff_words.symm⟩
  · exact parse?_eq_some_iff.trans (spaced_iff_words (List.cons_ne_nil n as)).symm
  · rcases blanks_or_spaced line with hb | ⟨ts, hts⟩
    · refine .inl ⟨hb, parse?_eq_none_iff.2 hb, fun ts hts => hts.ne_nil ?_⟩
      rw [← hts.words_eq, blanks_iff_words.1 hb]
    · refine .inr ⟨fun hb => hts.ne_nil ?_, ts, hts, fun ts' hts' => ?_⟩
      · rw [← hts.words_eq, blanks_iff_words.1 hb]
      · exact hts'.words_eq.symm.trans hts.words_eq
  · rcases hc : parse? line with _ | c
    · rfl
    · obtain ⟨hn, ha⟩ := isWord_of_parse? hc
      exact parse?_render hn ha

end Command

end FileShell
