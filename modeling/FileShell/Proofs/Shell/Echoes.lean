import FileShell.Proofs.Shell.Reading

/-!
# Echoes into a file

Lines that `echo` into one file, each going on after what the file holds or replacing it. What the
file holds afterwards are the lines of the echoes that no later one has replaced, and `cat` and `wc`
find them again (`echoes_read_back`): no blank is left in a word, so none that ends a line is, and
every text is what its bytes decode to.
-/

namespace FileShell

/-- A line that echoes words into a file. -/
structure Echo where
  mode : Mode
  words : List Text

namespace Echo

def command (e : Echo) : Command := ⟨"echo".toList, e.words⟩

/-- The line that is typed. -/
def line (e : Echo) (f : Text) : Text := e.command.render ++ [' '] ++ e.mode.sign ++ ' ' :: f

/-- The line that is added to the file. -/
def text (e : Echo) : Text := Text.join [' '] e.words

/-- The lines in the file after the echo. -/
def after (ls : List Text) (e : Echo) : List Text :=
  match e.mode with
  | .overwrite => [e.text]
  | .append => ls ++ [e.text]

/-- The echoes that no later one replaces. -/
def surviving : List Echo → List Echo
  | [] => []
  | e :: es => if ∃ k ∈ es, k.mode = .overwrite then surviving es else e :: surviving es

variable {e : Echo} {es : List Echo}

theorem surviving_ne_nil : ∀ {es : List Echo}, es ≠ [] → surviving es ≠ []
  | [], h => absurd rfl h
  | e :: es, _ => by
    unfold surviving
    split_ifs with h
    · obtain ⟨k, hk, -⟩ := h
      exact surviving_ne_nil (List.ne_nil_of_mem hk)
    · exact List.cons_ne_nil e _

theorem mem_of_mem_surviving : ∀ {es : List Echo}, e ∈ surviving es → e ∈ es
  | [], h => absurd h List.not_mem_nil
  | k :: es, h => by
    unfold surviving at h
    split_ifs at h
    · exact List.mem_cons_of_mem k (mem_of_mem_surviving h)
    · rcases List.mem_cons.1 h with rfl | h
      · exact List.mem_cons_self
      · exact List.mem_cons_of_mem k (mem_of_mem_surviving h)

/-- What was in the file before is still in front if no echo replaces it. -/
theorem foldl_after : ∀ (es : List Echo) (ls : List Text), es.foldl after ls =
    (if ∃ k ∈ es, k.mode = .overwrite then [] else ls) ++ (surviving es).map text
  | [], ls => by simp [surviving]
  | e :: es, ls => by
    rw [List.foldl_cons, foldl_after es (after ls e), surviving]
    simp only [List.exists_mem_cons_iff]
    by_cases hes : ∃ k ∈ es, k.mode = .overwrite
    · rw [if_pos hes, if_pos hes, if_pos (.inr hes)]
    · rw [if_neg hes, if_neg hes]
      rcases hm : e.mode <;> simp [after, hm, hes]

end Echo

namespace Storage

variable {s : Storage} {d : Disk} {p : Path} {l : Loc} {ls : List Text} {b : Bytes} {w : World}

/-- The path can be written to, and the lines are what stands there; they are none as long as
nothing does. -/
structure Gathers (s : Storage) (d : Disk) (p : Path) (l : Loc) (ls : List Text) : Prop where
  sound : d.Sound
  opens : s.writesAt? d p = some l
  held : d.get? l = if ls = [] then none else some (.file (Utf8.encode (Text.unlines ls)))

theorem gathers_nil (hs : d.Sound) (ho : s.writesAt? d p = some l) (hp : d.pathExists p = false) :
    s.Gathers d p l [] where
  sound := hs
  opens := ho
  held := get?_of_writesAt? ho hp

namespace Gathers

theorem heldAt (h : s.Gathers d p l ls) : d.heldAt l = Utf8.encode (Text.unlines ls) := by
  rw [Disk.heldAt, Disk.bytesAt, h.held]
  split_ifs with hls
  · rw [hls]
    rfl
  · rfl

theorem find? (h : s.Gathers d p l ls) (hls : ls ≠ []) :
    d.find? true p = some (.file (Utf8.encode (Text.unlines ls))) :=
  Disk.find?_eq_some_iff.2 ⟨l, locate_of_writesAt? h.opens, h.held.trans (if_neg hls)⟩

theorem write (h : s.Gathers d p l ls) {ks : List Text} (hks : ks ≠ [])
    (hb : b = Utf8.encode (Text.unlines ks)) : s.Gathers (d.write l b) p l ks where
  sound := h.sound.write_of_locateWrite (locateWrite_of_writesAt? h.opens) b
  opens := by
    refine writesAt?_write_of (ne_nil_of_writesAt? h.opens) ?_ h.opens b
    rw [h.held]
    split_ifs
    · exact .inl rfl
    · exact .inr ⟨_, rfl⟩
  held := by
    have hdev : d.get? l ≠ some .device := by
      rw [h.held]
      split_ifs <;> simp
    rw [Disk.get?_write b (ne_nil_of_writesAt? h.opens), if_pos ⟨rfl, hdev⟩, if_neg hks, hb]

end Gathers

end Storage

namespace Handler

variable {s : Storage} {session : Session} {w : World}

theorem run_echo (args : List Text) : attempt (standard s) ⟨"echo".toList, args⟩ session w =
    ((session, none), { w with shown := w.shown ++ Text.join [' '] args ++ ['\n'] }) := by
  have hr : route (standard s) ⟨"echo".toList, args⟩ = (some echo, args) :=
    route_of_ne (by decide) args
  rw [run_attempt hr]
  rfl

end Handler

namespace Echo

variable {s : Storage} {session : Session} {d : Disk} {f : Text} {l : Loc} {e : Echo}
  {es : List Echo} {ls : List Text}

/-- Words that can be typed in front of a sign of redirection. -/
def Typed (e : Echo) : Prop := ∀ t ∈ e.words, IsWord t ∧ '>' ∉ t

theorem after_ne_nil (ls : List Text) (e : Echo) : after ls e ≠ [] := by
  unfold after
  split <;> simp

theorem kept_append_encode (ls : List Text) (e : Echo) :
    e.mode.kept (Utf8.encode (Text.unlines ls)) ++ Utf8.encode (e.text ++ ['\n']) =
      Utf8.encode (Text.unlines (after ls e)) := by
  rcases hm : e.mode <;> simp [after, hm, Mode.kept, Utf8.encode, Text.unlines]

/-- No end of a line is in what is echoed. -/
theorem Typed.not_mem_text (he : e.Typed) {c : Char} (hc : c ≠ ' ') (hb : isBlank c = true) :
    c ∉ e.text := by
  intro h
  obtain ⟨t, ht, hct⟩ := Text.mem_join hc h
  rw [(he t ht).1.2 c hct] at hb
  cases hb

theorem Typed.ends (he : e.Typed) : '\n' ∉ e.text ∧ '\r' ∉ e.text :=
  ⟨he.not_mem_text (by decide) (by decide), he.not_mem_text (by decide) (by decide)⟩

/-- Echoing into a file shows nothing and leaves the line in it. -/
theorem outcome_line (h : s.Gathers d (session.resolve f) l ls) (hf : IsWord f) (hs : '>' ∉ f)
    (he : e.Typed) : ∃ d', outcome s (e.line f) session d = ⟨[], session, d', none⟩ ∧
      s.Gathers d' (session.resolve f) l (after ls e) := by
  have hecho : IsWord e.command.name ∧ '>' ∉ e.command.name :=
    show IsWord "echo".toList ∧ '>' ∉ "echo".toList by decide
  have ho := outcome_renderTo (m := e.mode) hecho he (Command.isTarget_of_isWord hf hs)
    (Handler.run_echo (w := ⟨d, []⟩) e.words) h.opens
  refine ⟨_, ho, h.write (after_ne_nil ls e) ?_⟩
  rw [h.heldAt]
  exact kept_append_encode ls e

/-- A run of echoes shows nothing; the lines behind it find the file with the lines gathered. -/
theorem outcomes_lines (hf : IsWord f) (hs : '>' ∉ f) (lines : List Text) :
    ∀ {es : List Echo} {d : Disk} {ls : List Text}, s.Gathers d (session.resolve f) l ls →
      (∀ e ∈ es, e.Typed) → ∃ d', s.Gathers d' (session.resolve f) l (es.foldl after ls) ∧
        (outcomes s (es.map (·.line f) ++ lines) session d).map
            (fun o => (o.shown, o.session, o.stopped)) =
          es.map (fun _ => ([], session, none)) ++
            (outcomes s lines session d').map fun o => (o.shown, o.session, o.stopped)
  | [], d, _, h, _ => ⟨d, h, rfl⟩
  | e :: es, d, ls, h, he => by
    obtain ⟨he, hes⟩ := List.forall_mem_cons.1 he
    obtain ⟨d₁, ho, h₁⟩ := outcome_line h hf hs he
    obtain ⟨d₂, h₂, hrest⟩ := outcomes_lines hf hs lines h₁ hes
    refine ⟨d₂, h₂, ?_⟩
    rw [List.map_cons, List.cons_append, outcomes, ho, List.map_cons, hrest]
    rfl

end Echo

/-- Lines that echo words into a file that is not there yet, at least one, show nothing. Then `cat`
shows the words, one line for each echo that no later one replaces, and `wc` their counts. -/
theorem echoes_read_back {s : Storage} {session : Session} {d : Disk} {f : Text} {l : Loc}
    {es : List Echo} (hd : d.Sound) (hf : IsWord f) (hs : '>' ∉ f)
    (habsent : d.pathExists (session.resolve f) = false)
    (hopen : s.writesAt? d (session.resolve f) = some l)
    (hread : s.cutAfter (session.resolve f) = none) (hne : es ≠ []) (hes : ∀ e ∈ es, e.Typed) :
    let tss := (Echo.surviving es).map Echo.words
    (outcomes s (es.map (·.line f) ++
        [Command.render ⟨"cat".toList, [f]⟩, Command.render ⟨"wc".toList, [f]⟩]) session d).map
          (fun o => (o.shown, o.session, o.stopped)) =
      es.map (fun _ => ([], session, none)) ++ [
        (Text.unlines (tss.map (Text.join [' '])), session, none),
        (Handler.Counts.line ⟨tss.length, tss.flatten.length,
          (tss.map (Text.join [' '])).flatten.length⟩ (Path.baseName f) ++ ['\n'], session,
          none)] := by
  intro tss
  obtain ⟨d', h, ho⟩ := Echo.outcomes_lines hf hs
    [Command.render ⟨"cat".toList, [f]⟩, Command.render ⟨"wc".toList, [f]⟩]
    (Storage.gathers_nil hd hopen habsent) hes
  have hls : es.foldl Echo.after [] = tss.map (Text.join [' ']) := by
    rw [Echo.foldl_after, ite_self, List.nil_append, List.map_map]
    rfl
  have hwords : ∀ ts ∈ tss, ∀ t ∈ ts, IsWord t := by
    intro ts hts t ht
    obtain ⟨e, he, rfl⟩ := List.mem_map.1 hts
    exact (hes e (Echo.mem_of_mem_surviving he) t ht).1
  have hends : ∀ t ∈ tss.map (Text.join [' ']), '\n' ∉ t ∧ '\r' ∉ t := by
    intro t ht
    obtain ⟨ts, hts, rfl⟩ := List.mem_map.1 ht
    obtain ⟨e, he, rfl⟩ := List.mem_map.1 hts
    exact (hes e (Echo.mem_of_mem_surviving he)).ends
  have hsome : tss.map (Text.join [' ']) ≠ [] := by simpa [tss] using Echo.surviving_ne_nil hne
  have hcounts : Handler.Counts.of (tss.map (Text.join [' '])) = ⟨tss.length, tss.flatten.length,
      (tss.map (Text.join [' '])).flatten.length⟩ := by
    rw [Handler.Counts.of, List.length_map, Text.flatMap_words_join hwords]
  rw [hls] at h
  have hlines : (Utf8.decode (Utf8.encode (Text.unlines (tss.map (Text.join [' ']))))).lines =
      tss.map (Text.join [' ']) := by
    rw [Utf8.decode_encode, Text.lines_unlines hends]
  have hcat := outcome_cat ⟨hf, hs⟩ (h.find? hsome) hread
  have hwc := outcome_wc ⟨hf, hs⟩ (h.find? hsome) hread
  rw [hlines] at hcat hwc
  rw [hcounts] at hwc
  rw [ho, outcomes, hcat, outcomes, hwc]
  rfl

/-- An empty directory. -/
def emptyRoom : Disk where
  items := [(["d".toList], .directory)]

/-- Echoes of which one replaces what was there, and one echoes nothing. -/
def shouts : List Echo :=
  [⟨.append, ["one".toList, "two".toList]⟩, ⟨.overwrite, ["three".toList]⟩, ⟨.append, []⟩,
    ⟨.append, ["é".toList, "$".toList]⟩]

theorem echoes_read_back_shouts :
    (outcomes { chunk := 512 } (["echo one two >> d/f", "echo three > d/f", "echo >> d/f",
        "echo é $ >> d/f", "cat d/f", "wc d/f"].map String.toList)
      ⟨"/".toList, "/".toList, true⟩ emptyRoom).map Outcome.shown =
        ["", "", "", "", "three\n\né $\n", "3 3 8 f\n"].map String.toList := by
  have hroom : emptyRoom.Sound :=
    Disk.sound_of_items (by decide) (by decide) (by simp [emptyRoom])
  have htyped : ∀ e ∈ shouts, e.Typed := by
    simp only [shouts, Echo.Typed]
    decide
  have h := @echoes_read_back { chunk := 512 } ⟨"/".toList, "/".toList, true⟩ emptyRoom "d/f".toList
    ["d".toList, "f".toList] shouts hroom (by decide) (by decide) (by decide +kernel)
    (by decide +kernel) rfl (by decide) htyped
  have hshown := congrArg (List.map Prod.fst) h
  rw [List.map_map] at hshown
  refine Eq.trans hshown ?_
  decide +kernel

end FileShell
