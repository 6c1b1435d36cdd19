import FileShell.Proofs.Path.Names
import FileShell.Proofs.Shell.Outcomes
import FileShell.Proofs.Text.Ends
import FileShell.Text.Utf8.Laws

/-!
# Reading files

`cat` shows the lines of a file, each followed by a line feed, and `wc` their counts. Both read the
file as one text: what `wc` counts line by line are the counts of the whole (`wc_line`). What `cat`
shows is a normal form. Written to another file it is read as the same lines, so to pass it through
`cat` again changes nothing (`cat_lines_normal`), not even if it is written over what was read.
-/

namespace FileShell

theorem Session.baseName_resolve (session : Session) (f : Path) :
    Path.baseName (session.resolve f) = Path.baseName f := by
  unfold resolve
  split_ifs
  · rfl
  · obtain ⟨g, hg, hb, hs⟩ := Path.exists_baseName_eq f
    have hfront : (session.directory ++ '/' :: g).getLast? = some '/' := by
      rcases hs with rfl | hs
      · simp
      · simp [List.getLast?_append, List.getLast?_cons, hs]
    conv_lhs => rw [hg, ← List.cons_append, ← List.append_assoc]
    exact Path.baseName_append hb (.inr hfront)

/-! ## What stands at a path -/

namespace Disk

variable {d : Disk} {p q : Path} {l k : Loc} {i : Item} {b : Bytes}

theorem find?_eq_some_iff :
    d.find? true p = some i ↔ ∃ l, d.locate true p = .ok l ∧ d.get? l = some i := by
  unfold find?
  rcases d.locate true p with e | l <;> simp

/-- Writing where nothing or a file stands leads no path astray. -/
theorem keeps_write (hl : l ≠ []) (hi : d.get? l = none ∨ ∃ c, d.get? l = some (.file c))
    (b : Bytes) : Keeps d (d.write l b) :=
  (write_filledBelow (l := []) List.nil_prefix hl (hi.imp_right .inl)).keeps

theorem find?_write (hl : l ≠ []) (hi : d.get? l = none ∨ ∃ c, d.get? l = some (.file c))
    (hk : d.locate true q = .ok k) :
    (d.write l b).find? true q = if k = l then some (.file b) else d.get? k := by
  have hdev : d.get? l ≠ some .device := by
    rcases hi with hi | ⟨c, hi⟩ <;> simp [hi]
  simp only [find?, locate_of_keeps (keeps_write hl hi b) hk, get?_write b hl, hdev, ne_eq,
    not_false_eq_true, and_true]

theorem find?_write_self (hl : l ≠ []) (hi : d.get? l = none ∨ ∃ c, d.get? l = some (.file c))
    (hq : d.locate true q = .ok l) (b : Bytes) : (d.write l b).find? true q = some (.file b) := by
  rw [find?_write hl hi hq, if_pos rfl]

theorem find?_write_of_ne (hl : l ≠ []) (hi : d.get? l = none ∨ ∃ c, d.get? l = some (.file c))
    (hq : d.find? true q = some i) (hne : d.locate true q ≠ .ok l) (b : Bytes) :
    (d.write l b).find? true q = some i := by
  obtain ⟨k, hk, hki⟩ := find?_eq_some_iff.1 hq
  have hkl : k ≠ l := by
    rintro rfl
    exact hne hk
  rw [find?_write hl hi hk, if_neg hkl, hki]

/-- A file stays when the bytes it has are written anywhere. -/
theorem find?_write_same (hl : l ≠ []) (hi : d.get? l = none ∨ ∃ c, d.get? l = some (.file c))
    (hq : d.find? true q = some (.file b)) : (d.write l b).find? true q = some (.file b) := by
  obtain ⟨k, hk, hkb⟩ := find?_eq_some_iff.1 hq
  rw [find?_write hl hi hk, hkb, ite_self]

theorem locate_ne_of_get?_eq_none (hq : d.find? true q = some i) (hl : d.get? l = none) :
    d.locate true q ≠ .ok l := by
  intro h
  obtain ⟨k, hk, hki⟩ := find?_eq_some_iff.1 hq
  cases hk.symm.trans h
  cases hki.symm.trans hl

/-- Where nothing or a file stands it is so after any write. -/
theorem get?_write_file (hl : l ≠ [])
    (hk : d.get? k = none ∨ ∃ c, d.get? k = some (.file c)) (b : Bytes) :
    (d.write l b).get? k = none ∨ ∃ c, (d.write l b).get? k = some (.file c) := by
  rw [get?_write _ hl]
  split_ifs
  · exact .inr ⟨b, rfl⟩
  · exact hk

end Disk

namespace Storage

variable {s : Storage} {d : Disk} {p q : Path} {l m : Loc} {b : Bytes} {w : World}

/-- A path that can be written to leads somewhere. -/
theorem locate_of_writesAt? (h : s.writesAt? d p = some l) : d.locate true p = .ok l :=
  (Disk.locateWrite_eq_ok_iff.1 (locateWrite_of_writesAt? h)).2.1

theorem get?_of_writesAt? (h : s.writesAt? d p = some l) (hp : d.pathExists p = false) :
    d.get? l = none := by
  simpa [Disk.pathExists, Disk.find?, locate_of_writesAt? h] using hp

theorem run_readLines (hc : s.cutAfter p = none) (hp : w.disk.find? true p = some (.file b)) :
    s.readLines p w = (⟨(Utf8.decode b).lines, none⟩, w) := by
  obtain ⟨l, hl, hb⟩ := Disk.find?_eq_some_iff.1 hp
  have hread : w.disk.read p = .ok b := by
    simp [Disk.read, Disk.bytesAt, bind, Except.bind, hl, hb]
  unfold readLines
  simp only [run_bind, run_get, hc, hread]
  rfl

theorem writesAt?_of_locateWrite (hs : s.refuses .write p = false) (hl : d.locateWrite p = .ok l) :
    s.writesAt? d p = some l := by
  rw [writesAt?, hs, hl]
  rfl

theorem refuses_of_writesAt? (h : s.writesAt? d p = some l) : s.refuses .write p = false := by
  unfold writesAt? at h
  split_ifs at h with hr
  simpa using hr

/-- What could be written to can be written to after another file was. -/
theorem writesAt?_write_of (hl : l ≠ [])
    (hi : d.get? l = none ∨ ∃ c, d.get? l = some (.file c)) (h : s.writesAt? d q = some m)
    (b : Bytes) : s.writesAt? (d.write l b) q = some m := by
  obtain ⟨hq, hm, hd⟩ := Disk.locateWrite_eq_ok_iff.1 (locateWrite_of_writesAt? h)
  have hdir : d.isDirectory l = false := by
    rcases hi with hi | ⟨c, hi⟩ <;> simp [Disk.isDirectory, hi]
  refine writesAt?_of_locateWrite (refuses_of_writesAt? h) (Disk.locateWrite_eq_ok_iff.2 ⟨hq, ?_, ?_⟩)
  · exact Disk.locate_of_keeps (Disk.keeps_write hl hi b) hm
  · rwa [Disk.isDirectory_write b hl hdir]

end Storage

/-! ## The commands that read -/

namespace Handler

variable {s : Storage} {session : Session} {w : World} {f : Text} {b : Bytes}

theorem isThere_of_file {p : Path} (hp : w.disk.find? true p = some (.file b)) :
    isThere p w = (true, w) := by
  rw [run_isThere, Disk.pathExists, Disk.isDir, hp]
  rfl

/-- What `wc` shows of the counts. -/
def Counts.line (n : Counts) (name : Text) : Text :=
  Text.join [' '] ([n.lines, n.words, n.chars].map (fun k => (toString k).toList) ++ [name])

/-- The counts of a text as a whole. -/
def Counts.whole (t : Text) : Counts where
  lines := t.endCount + if t.getLast?.any (!Text.isEnd ·) then 1 else 0
  words := t.runCount isBlank
  chars := t.length - t.countP Text.isEnd

theorem counts_lines (t : Text) : Counts.of t.lines = Counts.whole t := by
  rw [Counts.of, Counts.whole, Text.length_lines, Text.length_words_lines, Text.length_flatten_lines]

variable (hp : w.disk.find? true (session.resolve f) = some (.file b))
  (hc : s.cutAfter (session.resolve f) = none)

include hp hc

theorem run_cat : attempt (standard s) ⟨"cat".toList, [f]⟩ session w =
    ((session, none), { w with shown := w.shown ++ Text.unlines (Utf8.decode b).lines }) := by
  have hr : route (standard s) ⟨"cat".toList, [f]⟩ = (some (cat s), [f]) :=
    route_of_ne (by decide) [f]
  have hshow : showFile s session f w =
      ((), { w with shown := w.shown ++ Text.unlines (Utf8.decode b).lines }) := by
    unfold showFile
    simp only [run_bind, isThere_of_file hp, Bool.not_true, Bool.false_eq_true, if_false,
      Storage.run_readLines hc hp, run_forM, run_showLines]
    rfl
  have hrun : ((cat s).run [f] session).run w =
      (.ok session, (showFile s session f w).2) := rfl
  rw [run_attempt hr, hrun, hshow]

theorem run_wc : attempt (standard s) ⟨"wc".toList, [f]⟩ session w = ((session, none), { w with
    shown := w.shown ++ (Counts.whole (Utf8.decode b)).line (Path.baseName f) ++ ['\n'] }) := by
  have hr : route (standard s) ⟨"wc".toList, [f]⟩ = (some (wc s), [f]) :=
    route_of_ne (by decide) [f]
  have hrun : ((wc s).run [f] session).run w = (.ok session, { w with
      shown := w.shown ++ (Counts.whole (Utf8.decode b)).line (Path.baseName f) ++ ['\n'] }) := by
    unfold wc
    simp only [Act.run_bind, Act.run_lift, isThere_of_file hp, Bool.not_true, Bool.false_eq_true,
      if_false, Storage.run_readLines hc hp, Option.isSome_none, Act.run_pure, run_showLine,
      session.baseName_resolve f, counts_lines]
    rfl
  rw [run_attempt hr, hrun]

end Handler

/-- `wc` counts the whole text. There is a line for each line feed, each carriage return and each
pair of the two, and one more if the text goes on behind the last of them. The words are the maximal
runs of characters that are not blank, and the characters are all that belong to no end of a line. -/
theorem wc_line {s : Storage} {session : Session} {d : Disk} {line f : Text} {b : Bytes}
    (hplain : '>' ∉ line) (hcmd : Command.parse? line = some ⟨"wc".toList, [f]⟩)
    (hfile : d.find? true (session.resolve f) = some (.file b))
    (hread : s.cutAfter (session.resolve f) = none) :
    let t := Utf8.decode b
    outcome s line session d = ⟨Handler.Counts.line
        ⟨t.endCount + (if t.getLast?.any (!Text.isEnd ·) then 1 else 0), t.runCount isBlank,
          t.length - t.countP Text.isEnd⟩ (Path.baseName f) ++ ['\n'], session, d, none⟩ :=
  outcome_plain hplain hcmd (Handler.run_wc hfile hread)

/-- A file that has all kinds of ends, two of which are no pair, blanks beyond the common ones and a
byte that is not well formed. -/
def scrap : Disk where
  items := [(["t".toList],
    .file (Utf8.encode "a\u00a0b\r\n\r\u2003c d\n\r e".toList ++ [0xFF]))]

theorem wc_line_scrap : outcome { chunk := 512 } " wc  /./t ".toList ⟨"/".toList, "/".toList, true⟩
    scrap = ⟨"5 5 10 t\n".toList, ⟨"/".toList, "/".toList, true⟩, scrap, none⟩ := by
  have h := wc_line (s := { chunk := 512 }) (by decide)
    (show Command.parse? " wc  /./t ".toList = some ⟨"wc".toList, ["/./t".toList]⟩ by decide)
    (show scrap.find? true (Session.resolve ⟨"/".toList, "/".toList, true⟩ "/./t".toList) =
      some (.file (Utf8.encode "a\u00a0b\r\n\r\u2003c d\n\r e".toList ++ [0xFF])) by decide +kernel)
    rfl
  refine h.trans ?_
  decide +kernel

/-! ## Passing files on -/

namespace Command

/-- A line that redirects a command. -/
def renderTo (c : Command) (m : Mode) (t : Text) : Text := c.render ++ [' '] ++ m.sign ++ ' ' :: t

/-- A text that is read as the target it is, whatever the sign in front of it. -/
structure IsTarget (t : Text) : Prop where
  ne_nil : t ≠ []
  strip_eq : t.strip = t
  unsigned : ¬ ['>', '>'] <:+: t

theorem isTarget_of_isWord {t : Text} (h : IsWord t) (hs : '>' ∉ t) : IsTarget t where
  ne_nil := h.1
  strip_eq := h.strip_eq
  unsigned := fun hi => hs (hi.mem List.mem_cons_self)

theorem IsTarget.not_infix {t : Text} (h : IsTarget t) : ¬ ['>', '>'] <:+: '>' :: ' ' :: t := by
  intro hi
  rcases List.infix_cons_iff.1 hi with hi | hi
  · simp at hi
  · rcases List.infix_cons_iff.1 hi with hi | hi
    · simp at hi
    · exact h.unsigned hi

end Command

section

variable {s : Storage} {session session' : Session} {d d' : Disk} {f g t : Text} {l : Loc}
  {b : Bytes}

/-- A line that redirects shows nothing if its target can be written to. -/
theorem outcome_renderTo {c : Command} {m : Mode} (hn : IsWord c.name ∧ '>' ∉ c.name)
    (ha : ∀ a ∈ c.args, IsWord a ∧ '>' ∉ a) (hg : Command.IsTarget g)
    (h : Handler.attempt (Handler.standard s) c session ⟨d, []⟩ = ((session', none), ⟨d', t⟩))
    (hw : s.writesAt? d' (session'.resolve g) = some l) :
    outcome s (c.renderTo m g) session d =
      ⟨[], session', d'.write l (m.kept (d'.heldAt l) ++ Utf8.encode t), none⟩ := by
  have hplain : '>' ∉ c.render :=
    Command.not_mem_render (by decide) hn.2 fun a h => (ha a h).2
  have hparse : Command.parse? c.render = some c :=
    Command.parse?_render hn.1 fun a h => (ha a h).1
  have hblank : ∀ x ∈ [' '], isBlank x = true := List.forall_mem_singleton.2 (by decide)
  have hstrip : Text.strip (' ' :: g) = g := hg.strip_eq
  have hrun : execute s (c.renderTo m g) session ⟨d, []⟩ =
      ((session', none), ⟨d'.write l (m.kept (d'.heldAt l) ++ Utf8.encode t), []⟩) := by
    rw [Command.renderTo, execute_redirected hplain hparse hblank fun _ => hg.not_infix, hstrip,
      run_executeRedirected hg.ne_nil h, Storage.run_write_orShow]
    simp only [hw]
  rw [outcome, hrun]

/-- The bytes that `cat` makes of the bytes of a file. -/
def lineFed (b : Bytes) : Bytes := Utf8.encode (Text.unlines (Utf8.decode b).lines)

theorem lines_lineFed (b : Bytes) : (Utf8.decode (lineFed b)).lines = (Utf8.decode b).lines := by
  rw [lineFed, Utf8.decode_encode, Text.lines_unlines fun _ => Text.not_mem_lines]

theorem lineFed_lineFed (b : Bytes) : lineFed (lineFed b) = lineFed b := by
  rw [lineFed, lines_lineFed, ← lineFed]

variable (hf : IsWord f ∧ '>' ∉ f) (hp : d.find? true (session.resolve f) = some (.file b))
  (hc : s.cutAfter (session.resolve f) = none)

include hf hp hc

theorem outcome_cat : outcome s (Command.render ⟨"cat".toList, [f]⟩) session d =
    ⟨Text.unlines (Utf8.decode b).lines, session, d, none⟩ :=
  outcome_render (by decide) (List.forall_mem_singleton.2 hf) (Handler.run_cat hp hc)

theorem outcome_wc : outcome s (Command.render ⟨"wc".toList, [f]⟩) session d =
    ⟨(Handler.Counts.of (Utf8.decode b).lines).line (Path.baseName f) ++ ['\n'], session, d,
      none⟩ := by
  rw [Handler.counts_lines]
  exact outcome_render (by decide) (List.forall_mem_singleton.2 hf) (Handler.run_wc hp hc)

theorem outcome_cat_to (hg : Command.IsTarget g)
    (hw : s.writesAt? d (session.resolve g) = some l) :
    outcome s (Command.renderTo ⟨"cat".toList, [f]⟩ .overwrite g) session d =
      ⟨[], session, d.write l (lineFed b), none⟩ :=
  outcome_renderTo (show IsWord "cat".toList ∧ '>' ∉ "cat".toList by decide)
    (List.forall_mem_singleton.2 hf) hg (Handler.run_cat hp hc) hw

/-- A file that is passed on to itself is read before it is written. -/
theorem find?_cat_to_self (hback : s.refuses .write (session.resolve f) = false) :
    (outcome s (Command.renderTo ⟨"cat".toList, [f]⟩ .overwrite f) session d).disk.find? true
      (session.resolve f) = some (.file (lineFed b)) := by
  obtain ⟨k, hk, hkb⟩ := Disk.find?_eq_some_iff.1 hp
  have hdir : d.isDirectory k = false := by simp [Disk.isDirectory, hkb]
  have hopen : s.writesAt? d (session.resolve f) = some k :=
    Storage.writesAt?_of_locateWrite hback
      (Disk.locateWrite_eq_ok_iff.2 ⟨Disk.locate_getLast? hk hdir, hk, hdir⟩)
  rw [outcome_cat_to hf hp hc (Command.isTarget_of_isWord hf.1 hf.2) hopen,
    Disk.find?_write_self (Storage.ne_nil_of_writesAt? hopen) (.inr ⟨b, hkb⟩) hk]

end

/-- What `cat` shows of a file is a normal form of it. Once the file has been passed on to a file that
was not there, and that file to another one, both hold the same text: it is encoded without a fault,
has no carriage return and ends in a line feed if anything is in it. `cat` shows this text of the
first file as of the second one, `wc` the same counts, and the first file takes it when it is passed
on to itself. -/
theorem cat_lines_normal {s : Storage} {session : Session} {d : Disk} {f g h : Text} {b : Bytes}
    {l m : Loc} (hf : IsWord f ∧ '>' ∉ f) (hg : IsWord g ∧ '>' ∉ g) (hh : Command.IsTarget h)
    (hfile : d.find? true (session.resolve f) = some (.file b))
    (hfresh : d.pathExists (session.resolve g) = false ∧ d.pathExists (session.resolve h) = false)
    (hopen : s.writesAt? d (session.resolve g) = some l ∧
      s.writesAt? d (session.resolve h) = some m)
    (hread : s.cutAfter (session.resolve f) = none ∧ s.cutAfter (session.resolve g) = none)
    (hback : s.refuses .write (session.resolve f) = false) :
    let cat (a : Text) := Command.render ⟨"cat".toList, [a]⟩
    let wc (a : Text) := Command.render ⟨"wc".toList, [a]⟩
    let catTo (a t : Text) := Command.renderTo ⟨"cat".toList, [a]⟩ .overwrite t
    let o₁ := outcome s (catTo f g) session d
    let o₂ := outcome s (catTo g h) session o₁.disk
    ∃ c t n,
      o₁ = ⟨[], session, o₁.disk, none⟩ ∧ o₂ = ⟨[], session, o₂.disk, none⟩ ∧
      o₂.disk.find? true (session.resolve g) = some (.file c) ∧
      o₂.disk.find? true (session.resolve h) = some (.file c) ∧
      Utf8.decode? c = some t ∧ '\r' ∉ t ∧ (t = [] ∨ t.getLast? = some '\n') ∧
      (∀ a ∈ [f, g], outcome s (cat a) session o₂.disk = ⟨t, session, o₂.disk, none⟩ ∧
        outcome s (wc a) session o₂.disk =
          ⟨Handler.Counts.line n (Path.baseName a) ++ ['\n'], session, o₂.disk, none⟩) ∧
      (outcome s (catTo f f) session o₂.disk).disk.find? true (session.resolve f) =
        some (.file c) := by
  intro cat wc catTo o₁ o₂
  have hl := Storage.get?_of_writesAt? hopen.1 hfresh.1
  have hm := Storage.get?_of_writesAt? hopen.2 hfresh.2
  have hlnil := Storage.ne_nil_of_writesAt? hopen.1
  have hmnil := Storage.ne_nil_of_writesAt? hopen.2
  -- the first file is passed on
  have ho₁ : o₁ = ⟨[], session, d.write l (lineFed b), none⟩ :=
    outcome_cat_to hf hfile hread.1 (Command.isTarget_of_isWord hg.1 hg.2) hopen.1
  have hdisk₁ : o₁.disk = d.write l (lineFed b) := by rw [ho₁]
  set d₁ := d.write l (lineFed b) with hd₁
  have hf₁ : d₁.find? true (session.resolve f) = some (.file b) :=
    Disk.find?_write_of_ne hlnil (.inl hl) hfile (Disk.locate_ne_of_get?_eq_none hfile hl) _
  have hg₁ : d₁.find? true (session.resolve g) = some (.file (lineFed b)) :=
    Disk.find?_write_self hlnil (.inl hl) (Storage.locate_of_writesAt? hopen.1) _
  have hm₁ : d₁.get? m = none ∨ ∃ c, d₁.get? m = some (.file c) :=
    Disk.get?_write_file hlnil (.inl hm) _
  have hopen₁ : s.writesAt? d₁ (session.resolve h) = some m :=
    Storage.writesAt?_write_of hlnil (.inl hl) hopen.2 _
  have hne₁ : d₁.locate true (session.resolve f) ≠ .ok m := by
    obtain ⟨k, hk, hkb⟩ := Disk.find?_eq_some_iff.1 hfile
    rw [hd₁, Disk.locate_of_keeps (Disk.keeps_write hlnil (.inl hl) _) hk, ← hk]
    exact Disk.locate_ne_of_get?_eq_none hfile hm
  -- what it was passed on to is passed on
  have ho₂ : o₂ = ⟨[], session, d₁.write m (lineFed b), none⟩ := by
    show outcome s (catTo g h) session o₁.disk = _
    rw [hdisk₁]
    exact (outcome_cat_to hg hg₁ hread.2 hh hopen₁).trans (by rw [lineFed_lineFed])
  have hdisk₂ : o₂.disk = d₁.write m (lineFed b) := by rw [ho₂]
  set d₂ := d₁.write m (lineFed b) with hd₂
  have hf₂ : d₂.find? true (session.resolve f) = some (.file b) :=
    Disk.find?_write_of_ne hmnil hm₁ hf₁ hne₁ _
  have hg₂ : d₂.find? true (session.resolve g) = some (.file (lineFed b)) :=
    Disk.find?_write_same hmnil hm₁ hg₁
  have hh₂ : d₂.find? true (session.resolve h) = some (.file (lineFed b)) :=
    Disk.find?_write_self hmnil hm₁ (Storage.locate_of_writesAt? hopen₁) _
  -- both are read as the same lines
  have hreads : ∀ a ∈ [f, g],
      outcome s (cat a) session d₂ = ⟨Text.unlines (Utf8.decode b).lines, session, d₂, none⟩ ∧
        outcome s (wc a) session d₂ = ⟨(Handler.Counts.of (Utf8.decode b).lines).line
          (Path.baseName a) ++ ['\n'], session, d₂, none⟩ := by
    refine List.forall_mem_cons.2 ⟨⟨outcome_cat hf hf₂ hread.1, outcome_wc hf hf₂ hread.1⟩,
      List.forall_mem_singleton.2 ?_⟩
    rw [← lines_lineFed b]
    exact ⟨outcome_cat hg hg₂ hread.2, outcome_wc hg hg₂ hread.2⟩
  rw [ho₁, hdisk₂]
  exact ⟨lineFed b, Text.unlines (Utf8.decode b).lines, _, rfl, ho₂, hg₂, hh₂,
    Utf8.decode?_encode _, Text.not_mem_unlines_lines _, Text.getLast?_unlines _, hreads,
    find?_cat_to_self hf hf₂ hread.1 hback⟩

/-- The file is passed on to one beside it, and that one to where a broken link leads. -/
theorem cat_lines_normal_scrap :
    let s : Storage := { chunk := 512 }
    let session : Session := ⟨"/".toList, "/".toList, true⟩
    let d : Disk := { items := scrap.items ++ [(["l".toList], .link "u".toList)] }
    let o₁ := outcome s "cat t > v".toList session d
    let o₂ := outcome s "cat v > l".toList session o₁.disk
    ∃ c t n,
      o₁ = ⟨[], session, o₁.disk, none⟩ ∧ o₂ = ⟨[], session, o₂.disk, none⟩ ∧
      o₂.disk.find? true "//v".toList = some (.file c) ∧
      o₂.disk.find? true "//l".toList = some (.file c) ∧
      Utf8.decode? c = some t ∧ '\r' ∉ t ∧ (t = [] ∨ t.getLast? = some '\n') ∧
      (∀ a ∈ ["t".toList, "v".toList],
        outcome s ("cat ".toList ++ a) session o₂.disk = ⟨t, session, o₂.disk, none⟩ ∧
        outcome s ("wc ".toList ++ a) session o₂.disk =
          ⟨Handler.Counts.line n (Path.baseName a) ++ ['\n'], session, o₂.disk, none⟩) ∧
      (outcome s "cat t > t".toList session o₂.disk).disk.find? true "//t".toList =
        some (.file c) :=
  @cat_lines_normal { chunk := 512 } ⟨"/".toList, "/".toList, true⟩
    { items := scrap.items ++ [(["l".toList], .link "u".toList)] } "t".toList "v".toList "l".toList
    (Utf8.encode "a\u00a0b\r\n\r\u2003c d\n\r e".toList ++ [0xFF]) ["v".toList] ["u".toList]
    (by decide) (by decide) (Command.isTarget_of_isWord (by decide) (by decide)) (by decide +kernel)
    (by decide +kernel) (by decide +kernel) ⟨rfl, rfl⟩ rfl

end FileShell
