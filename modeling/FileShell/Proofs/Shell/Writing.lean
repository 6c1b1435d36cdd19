import FileShell.Proofs.Archive.Exclusion
import FileShell.Proofs.Shell.Archives
import FileShell.Proofs.Shell.Copying
import FileShell.Proofs.Shell.Making
import FileShell.Proofs.Shell.Outcomes
import FileShell.Proofs.Shell.Words
import FileShell.Proofs.Storage.Deposits

/-!
# Where lines write

What a line can change that removes nothing and unpacks nothing, whatever links there are, whichever
calls are refused, and whether it succeeds or fails: what its command may put there, and nothing
else (`line_writes`). `Puts` says what that is for each of the commands `touch`, `mkdir`, `cp`,
`cp -r` and `zip`; the others put nothing anywhere.
-/

namespace FileShell

open Disk (Gain MadeWhere WrittenAt FileAt Deposits)
open Relation (ReflTransGen)

/-- The archive that the arguments of `zip` name. -/
def zipArchive? : List Text → Option Text
  | [] => none
  | a :: rest => if a = "-r".toList then rest.head? else some a

/-- What a command may put at a location: `touch` an empty file where its argument leads and nothing
stands; `mkdir` directories on the way of its arguments; `cp` a file where its target leads; `cp -r`
directories on the way of its destination, and anything at the name of the source there or below;
`zip` a file where the path of the archive leads. -/
inductive Puts (d d' : Disk) (session : Session) : Command → Loc → Prop
  | touch {arg : Text} {m : Loc} {x : Text} :
      d.locateLast (session.resolve arg) = .ok (m, x) → d.get? (m ++ [x]) = none →
      d'.get? (m ++ [x]) = some (.file []) →
      Puts d d' session ⟨"touch".toList, [arg]⟩ (m ++ [x])
  | mkdir {args : List Text} {arg : Text} {k : Loc} :
      arg ∈ args → d.get? k = none → d'.get? k = some .directory →
      d'.OnWay (session.resolve arg) k → Puts d d' session ⟨"mkdir".toList, args⟩ k
  | cp {a b : Text} {k : Loc} :
      a ≠ Handler.treeFlag → FileAt (session.resolve b) d d' k →
      Puts d d' session ⟨"cp".toList, [a, b]⟩ k
  | way {a b : Text} {k : Loc} :
      d.get? k = none → d'.get? k = some .directory → d'.OnWay (session.resolve b) k →
      Puts d d' session ⟨"cp".toList, [Handler.treeFlag, a, b]⟩ k
  | tree {a b : Text} {l k : Loc} :
      d'.locate true (session.resolve b) = .ok l →
      l ++ Path.names (Path.baseName (session.resolve a).normalize) <+: k →
      Puts d d' session ⟨"cp".toList, [Handler.treeFlag, a, b]⟩ k
  | zip {args : List Text} {archive : Text} {k : Loc} :
      zipArchive? args = some archive → FileAt (archivePath (session.resolve archive)) d d' k →
      Puts d d' session ⟨"zip".toList, args⟩ k

/-- Whatever has changed is what the command may put there. -/
def Written (d : Disk) (session : Session) (c : Command) (d' : Disk) : Prop :=
  ∀ k, d'.get? k = d.get? k ∨ Puts d d' session c k

theorem Written.refl (d : Disk) (session : Session) (c : Command) : Written d session c d :=
  fun _ => .inl rfl

/-! ## What is written -/

namespace Storage

/-- A file is created in one change of the disk. -/
theorem once_create (s : Storage) (p : Path) : Once (·.create p) (s.create p).run := by
  refine Act.once_bind (only_allow s p .create _) fun _ w => ?_
  rw [Act.run_bind, Act.run_get]
  simp only [Act.run_ite]
  split_ifs
  · exact .inl rfl
  · split
    · exact .inr ‹_›
    · exact .inl rfl
    · exact .inl rfl

theorem makeDirs_onWay (s : Storage) (existOk : Bool) (p : Path) {w : World} (hs : w.disk.Sound) :
    MadeWhere (((s.makeDirs p existOk).run w).2.disk.OnWay p) w.disk
      ((s.makeDirs p existOk).run w).2.disk := by
  rw [run_makeDirs]
  split_ifs
  · exact fun _ => .inl rfl
  · exact making_disk (P := fun d' => MadeWhere (d'.OnWay p) w.disk d') (fun _ => .inl rfl)
      (hs.makeDirs_onWay existOk p)

end Storage

theorem pack_written (s : Storage) (archive : Path) (items : List PackItem) (recursive : Bool)
    (w : World) : WrittenAt archive w.disk ((pack s archive items recursive).run w).2.disk := by
  rcases hout : s.opensAt? w.disk archive with _ | out
  · obtain ⟨e, -, he⟩ := run_pack_none hout items recursive
    rw [he]
    exact .inl fun _ => rfl
  · obtain ⟨hr, hp⟩ := Storage.opensAt?_eq_some hout
    have hplace := Packing.place_forM (fun i => Packing.place_packItem
      (c := ⟨s, w.disk.write out [], archive⟩) recursive i) items ⟨⟨out, [], false⟩, [], []⟩
    rw [run_pack_of_locateWrite hr hp]
    dsimp only
    rw [Writer.disk_close, hplace]
    split_ifs
    · exact Disk.writtenAt_write hp []
    · exact Disk.writtenAt_write_write hp _ _

/-! ## The handlers -/

namespace Handler

variable {s : Storage} {session : Session} {w : World}

theorem written_touch (args : List Text) : Written w.disk session ⟨"touch".toList, args⟩
    (((touch s).run args session).run w).2.disk := by
  rcases args with _ | ⟨arg, _ | ⟨b, args⟩⟩
  · exact Written.refl _ _ _
  · have honce : Once (·.create (session.resolve arg)) ((touch s).run [arg] session).run :=
      Act.Once.return (Act.once_failingWith _ (s.once_create _)) session
    rcases honce w with h | h
    · rw [h]
      exact Written.refl _ _ _
    · obtain ⟨-, m, x, hl, -, hn, he⟩ := Disk.create_eq_ok_iff.1 h
      rw [he]
      intro k
      rw [Disk.get?_append_insert]
      split_ifs with hk
      · subst hk
        exact .inr (.touch hl hn (by rw [Disk.get?_append_insert, if_pos rfl]))
      · exact .inl rfl
  · exact Written.refl _ _ _

theorem gains_makeOne (s : Storage) (session : Session) (w : World) (x : Text) :
    ReflTransGen Gain w.disk (makeOne s session w x).disk :=
  Act.only_orShow _ (Storage.only_makeDirs s _ _) w

/-- The loop over the names. -/
theorem onWay_foldl_makeOne {names : List Text} (hs : w.disk.Sound) :
    let w' := names.foldl (makeOne s session) w
    MadeWhere (fun k => ∃ x ∈ names, w'.disk.OnWay (session.resolve x) k) w.disk w'.disk := by
  induction names generalizing w with
  | nil => exact fun _ => .inl rfl
  | cons x names ih =>
    have hone := gains_makeOne s session w x
    have hs' := hs.of_gains hone
    have hk := hs'.keeps_of_gains (changes_foldl (gains_makeOne s session) names _)
    have hway : MadeWhere ((makeOne s session w x).disk.OnWay (session.resolve x)) w.disk
        (makeOne s session w x).disk := by
      rw [makeOne, Storage.disk_orShow]
      exact s.makeDirs_onWay false _ hs
    refine MadeWhere.trans (hway.mono fun k h => ?_) ((ih hs').mono fun k h => ?_)
    · exact ⟨x, List.mem_cons_self, h.of_keeps hk⟩
    · exact h.imp fun y hy => hy.imp_left (List.mem_cons_of_mem x)

theorem written_mkdir (hs : w.disk.Sound) (args : List Text) :
    Written w.disk session ⟨"mkdir".toList, args⟩
      (((mkdir s).run args session).run w).2.disk := by
  rcases eq_or_ne args [] with rfl | hne
  · exact Written.refl _ _ _
  have hr : route (standard s) ⟨"mkdir".toList, args⟩ = (some (mkdir s), args) :=
    route_of_ne (by decide) args
  rw [← disk_dispatch_some hr, dispatch_of_attempt (run_mkdir hne w)]
  refine fun k => (onWay_foldl_makeOne hs k).imp_right ?_
  rintro ⟨hn, hd, x, hx, hway⟩
  exact .mkdir hx hn hd hway

theorem written_cp (hs : w.disk.Sound) {args : List Text} (ha : args.head? ≠ some treeFlag) :
    Written w.disk session ⟨"cp".toList, args⟩ (((cp s).run args session).run w).2.disk := by
  rcases args with _ | ⟨a, _ | ⟨b, _ | ⟨c, args⟩⟩⟩
  · exact Written.refl _ _ _
  · exact Written.refl _ _ _
  · have hdisk : (((cp s).run [a, b] session).run w).2.disk = w.disk ∨
        (((cp s).run [a, b] session).run w).2.disk =
          ((s.copy (session.resolve a) (session.resolve b)).run w).2.disk := by
      rw [run_cp]
      split_ifs
      · rcases (s.copy (session.resolve a) (session.resolve b)).run w with ⟨_ | ⟨⟩, w'⟩ <;>
          exact .inr rfl
      · exact .inl rfl
    rcases hdisk with h | h
    · rw [h]
      exact Written.refl _ _ _
    · rw [h]
      exact fun k => (hs.fileAt_of_writtenAt (Storage.copy_written s _ _ w) k).imp_right
        (.cp fun h => ha (congrArg some h))
  · exact Written.refl _ _ _

theorem written_zipItems (hs : w.disk.Sound) (recursive : Bool) {args rest : List Text}
    (ha : zipArchive? args = rest.head?) : Written w.disk session ⟨"zip".toList, args⟩
      ((zipItems s recursive session rest).run w).2.disk := by
  rcases rest with _ | ⟨archive, _ | ⟨a, rest⟩⟩
  · exact Written.refl _ _ _
  · exact Written.refl _ _ _
  · have hdisk : ((zipItems s recursive session (archive :: a :: rest)).run w).2.disk =
        ((pack s (archivePath (session.resolve archive)) (session.packItems (a :: rest))
          recursive).run w).2.disk := by
      rw [run_zipItems]
      rcases (pack s _ _ recursive).run w with ⟨_ | _, w'⟩ <;> rfl
    rw [hdisk]
    exact fun k => (hs.fileAt_of_writtenAt (pack_written s _ _ recursive w) k).imp_right (.zip ha)

theorem written_zip (hs : w.disk.Sound) (args : List Text) :
    Written w.disk session ⟨"zip".toList, args⟩ (((zip s).run args session).run w).2.disk := by
  rcases args with _ | ⟨a, args⟩
  · exact Written.refl _ _ _
  · unfold zip
    dsimp only
    split_ifs with ha
    · exact written_zipItems hs true (if_pos ha)
    · exact written_zipItems hs false (if_neg ha)

/-- A tree is copied to the name of its source in a directory without links, and directories are
made on the way there. -/
theorem written_cpTree (hs : w.disk.Sound) (habs : session.directory.isAbsolute = true)
    {args : List Text}
    (hf : ∀ a b, args = [a, b] → ∀ l,
      (((cpTree s).run args session).run w).2.disk.locate true (session.resolve b) = .ok l →
        w.disk.LinkFree l) :
    Written w.disk session ⟨"cp".toList, treeFlag :: args⟩
      (((cpTree s).run args session).run w).2.disk := by
  rcases args with _ | ⟨a, _ | ⟨b, _ | ⟨c, args⟩⟩⟩
  · exact Written.refl _ _ _
  · exact Written.refl _ _ _
  · have hput {d' : Disk} (h : Deposits (session.resolve b)
        (Path.names (Path.baseName (session.resolve a).normalize)) w.disk d') :
        Written w.disk session ⟨"cp".toList, [treeFlag, a, b]⟩ d' := by
      refine fun k => (h.changes k).imp_right ?_
      rintro (⟨hn, hd, hway⟩ | ⟨l, hl, hk⟩)
      · exact .way hn hd hway
      · exact .tree hl hk
    have hgains := ((does_cpTree s [a, b] session).only w)
    have hfree : (((cpTree s).run [a, b] session).run w).2.disk.LinkFreeBelow
        (session.resolve b) := fun l hl =>
      (hf a b rfl l hl).of_keeps (hs.keeps_of_gains hgains)
    apply hput
    rw [run_cpTree] at hfree ⊢
    split_ifs at hfree ⊢ with hS
    case neg => exact .refl _ _ _
    have hmade : Deposits (session.resolve b) (Path.names (Path.baseName (session.resolve a).normalize))
        w.disk ((s.makeDirs (session.resolve b) true).run w).2.disk :=
      .of_madeWhere (hs.keeps_of_gains (Storage.only_makeDirs s _ _ w)) (s.makeDirs_onWay true _ hs)
    have hs' := hs.of_gains (Storage.only_makeDirs s (session.resolve b) true w)
    generalize (s.makeDirs (session.resolve b) true).run w = r at hfree hmade hs' ⊢
    obtain ⟨_ | ⟨⟩, w'⟩ := r
    · exact hmade
    have hcopied := Storage.copyTree_deposits (s := s) hs' (Disk.isDir_of_keeps hmade.keeps hS)
      (session.isAbsolute_resolve habs a) (session.resolve_ne_nil b)
    dsimp only at hfree hcopied ⊢
    generalize (s.copyTree (session.resolve a) (session.resolve b)).run w' = r at hfree hcopied ⊢
    obtain ⟨_ | _, w''⟩ := r
    · exact hmade.trans (hcopied hfree)
    · exact hmade.trans (hcopied hfree)
  · exact Written.refl _ _ _

/-! ## All commands -/

/-- The names of the commands that may change a disk. -/
def changing : List Text :=
  ["mkdir", "rmdir", "touch", "rm", "cp", "zip", "unzip"].map String.toList

/-- Every word is the name of a command that only reads, or of one that may change a disk, or of
none. -/
theorem reading_or_changing (s : Storage) {name : Text} (hn : IsWord name) :
    (name ∈ reading ∨ find? (standard s) name = none) ∨ name ∈ changing := by
  rcases hf : find? (standard s) name with _ | h
  · exact .inl (.inr rfl)
  obtain ⟨hm, rfl⟩ := mem_of_find? hf
  -- the names do not depend on the storage
  have hnames : ∀ n ∈ (standard { chunk := 0 }).map Handler.name, IsWord n →
      n ∈ reading ∨ n ∈ changing := by decide
  have hmem : h.name ∈ (standard s).map Handler.name := List.mem_map_of_mem hm
  exact (hnames h.name hmem hn).imp_left .inl

theorem route_cp_of_head {args : List Text} (ha : args.head? ≠ some treeFlag) :
    route (standard s) ⟨"cp".toList, args⟩ = (some (cp s), args) := by
  rcases args with _ | ⟨a, args⟩
  · rfl
  · have hne : a ≠ treeFlag := fun h => ha (congrArg some h)
    simp only [route, hne, and_false, if_false]
    rfl

theorem written_dispatch (hs : w.disk.Sound) (habs : session.directory.isAbsolute = true)
    {c : Command} (hn : IsWord c.name)
    (hno : c.name ∉ ["rm".toList, "rmdir".toList, "unzip".toList])
    (hf : ∀ a b, c = ⟨"cp".toList, [treeFlag, a, b]⟩ → ∀ l,
      (dispatch (standard s) c session w).2.disk.locate true (session.resolve b) = .ok l →
        w.disk.LinkFree l) :
    Written w.disk session c (dispatch (standard s) c session w).2.disk := by
  rcases reading_or_changing s hn with hread | hchange
  · have hdisk : (dispatch (standard s) c session w).2.disk = w.disk := disk_attempt hread session w
    rw [hdisk]
    exact Written.refl _ _ _
  obtain ⟨name, args⟩ := c
  simp only [changing, List.map_cons, List.map_nil, List.mem_cons, List.not_mem_nil, or_false]
    at hchange hno
  rcases hchange with rfl | rfl | rfl | rfl | rfl | rfl | rfl
  · rw [disk_dispatch_some (route_of_ne (by decide) args)]
    exact written_mkdir hs args
  · simp at hno
  · rw [disk_dispatch_some (route_of_ne (by decide) args)]
    exact written_touch args
  · simp at hno
  · by_cases ha : args.head? = some treeFlag
    · obtain ⟨args, rfl⟩ : ∃ rest, args = treeFlag :: rest := by
        rcases args with _ | ⟨a, rest⟩
        · cases ha
        · exact ⟨rest, by rw [Option.some.inj ha]⟩
      rw [disk_dispatch_some (route_cpTree args)] at hf ⊢
      exact written_cpTree hs habs fun a b he => hf a b (by rw [he])
    · rw [disk_dispatch_some (route_cp_of_head ha)]
      exact written_cp hs ha
  · rw [disk_dispatch_some (route_zip args)]
    exact written_zip hs args
  · simp at hno

end Handler

/-! ## Lines -/

variable {s : Storage} {line : Text} {session : Session} {w : World}

/-- A line without a redirection is its command, and shows an error if it has none. -/
theorem disk_runLine_plain (hl : (CommandLine.split line).redirection = none) :
    (runLine s line session w).2.disk = match Command.parse? line with
      | none => w.disk
      | some c => (Handler.dispatch (Handler.standard s) c session w).2.disk := by
  rcases CommandLine.cut_cases line with ⟨-, hsplit⟩ | ⟨a, m, b, -, hsplit, -⟩
  · unfold runLine execute
    simp only [run_bind, hsplit, Command.parse?_strip]
    rcases Command.parse? line with _ | c <;> rfl
  · rw [hsplit] at hl
    cases hl

/-- A line without a redirection writes only where it says.

It changes nothing if it is blank or its command is none of those that may change a disk. If it
neither removes nor unpacks, whatever it has changed is what its command may put there: of a `cp -r`
this is said for a destination at which no link is, or below it. Nothing is assumed of the links
there are otherwise, or of the calls that are refused. -/
theorem line_writes (hs : w.disk.Sound) (habs : session.directory.isAbsolute = true)
    (hl : (CommandLine.split line).redirection = none) :
    let d' := (runLine s line session w).2.disk
    (Command.parse? line = none → d' = w.disk) ∧
    ∀ c, Command.parse? line = some c →
      (c.name ∉ Handler.changing → d' = w.disk) ∧
      (c.name ∉ ["rm".toList, "rmdir".toList, "unzip".toList] →
        (∀ a b, c = ⟨"cp".toList, [Handler.treeFlag, a, b]⟩ → ∀ l,
          d'.locate true (session.resolve b) = .ok l → w.disk.LinkFree l) →
        ∀ k, d'.get? k = w.disk.get? k ∨ Puts w.disk d' session c k) := by
  intro d'
  have hd' : d' = _ := disk_runLine_plain hl
  rcases hc : Command.parse? line with _ | c <;> rw [hc] at hd' <;> dsimp only at hd'
  · exact ⟨fun _ => hd', fun c h => by cases h⟩
  refine ⟨fun h => (by cases h), fun c' h => ?_⟩
  obtain rfl := Option.some.inj h
  have hname := (Command.isWord_of_parse? hc).1
  rw [hd']
  refine ⟨fun hno => ?_, fun hno hf => Handler.written_dispatch hs habs hname hno hf⟩
  exact Handler.disk_attempt ((Handler.reading_or_changing s hname).resolve_right hno) session w

/-- A directory, a link to it, and a tree with a link that leads nowhere. -/
def yard : Disk where
  items := [(["d".toList], .directory), (["l".toList], .link "d".toList),
    (["s".toList], .directory), (["s".toList, "t".toList], .directory),
    (["s".toList, "t".toList, "x".toList], .link "x".toList)]

theorem sound_yard : yard.Sound := by
  refine Disk.sound_of_items (by decide) (by decide +kernel) fun e he t ht => ?_
  simp only [yard, List.mem_cons, List.not_mem_nil, or_false] at he
  rcases he with rfl | rfl | rfl | rfl | rfl <;> cases ht <;> decide

/-- A tree is copied through a link to where a directory is made for it. -/
theorem line_writes_yard :
    let session : Session := ⟨"/".toList, "/".toList, true⟩
    let c : Command := ⟨"cp".toList, ["-r".toList, "s".toList, "l/n".toList]⟩
    let w := (runLine { chunk := 512 } "cp -r s l/n".toList session ⟨yard, []⟩).2
    yard.Sound ∧ w.shown = "Error copying file: x\n".toList ∧
      w.disk.get? ["d".toList, "n".toList, "s".toList, "t".toList] = some .directory ∧
      ∀ k, w.disk.get? k = yard.get? k ∨ Puts yard w.disk session c k := by
  intro session c w
  have hfree : yard.LinkFree ["d".toList, "n".toList] := by
    intro k t hk ht
    have hmem := Disk.mem_items_of_get? ht (by rintro rfl; simp at hk)
    have hnone : ∀ e ∈ yard.items, ¬ ["d".toList, "n".toList] <+: e.1 := by decide
    exact hnone _ hmem hk
  have hloc : w.disk.locate true (session.resolve "l/n".toList) =
      .ok ["d".toList, "n".toList] := by decide +kernel
  obtain ⟨-, h⟩ := @line_writes { chunk := 512 } "cp -r s l/n".toList session ⟨yard, []⟩ sound_yard
    rfl (by decide)
  refine ⟨sound_yard, by decide +kernel, by decide +kernel,
    (h c (by decide)).2 (by decide) fun a b he l hl => ?_⟩
  obtain ⟨rfl, rfl⟩ : a = "s".toList ∧ b = "l/n".toList := by
    simpa [eq_comm] using (List.cons.inj (congrArg Command.args he)).2
  rw [hloc] at hl
  exact Except.ok.inj hl ▸ hfree

end FileShell
